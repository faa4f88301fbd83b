import Golos.Protocol.Lemmas.SignState

/-!
This module contains the verdict of `verify_authority`: between the derivations of a bounded depth,
which it always finds, and the derivations of any depth, without which it never accepts.
-/

namespace Golos

open Checked ThresholdRule

section required

variable (required : RequiredAuthorities) (sigs : List PublicKeyType) (g : AuthorityGetters)
variable (maxRecursion : Nat) (approvals : Approvals)

/-- The accounts that count as approved without any authority of theirs. -/
def isApproved (ids : List AccountName) (id : AccountName) : Bool :=
  id = steemitTempAccount || id ∈ ids

def isSigned (k : PublicKeyType) : Bool :=
  k ∈ sigs

/--
Every required account is approved or has an authority that is met, where `met getActive approved`
says what it is for a rule to be met by the signatures, the approved accounts and the accounts whose
authorities `getActive` has.
-/
structure RequiredAuthorities.Satisfied
    (met : AuthorityGetter → (AccountName → Bool) → AuthorityRule → Prop) : Prop where
  posting : ∀ id ∈ required.posting, isApproved approvals.posting id = true ∨
    ∃ r ∈ g.getPosting.rules id ++ g.getActive.rules id ++ g.getOwner.rules id,
      met g.getPosting (isApproved approvals.posting) r
  other : ∀ auth ∈ required.other,
    met g.getActive (isApproved (approvals.active ++ approvals.owner)) auth.rule
  active : ∀ id ∈ required.active, isApproved (approvals.active ++ approvals.owner) id = true ∨
    ∃ r ∈ g.getActive.rules id ++ g.getOwner.rules id,
      met g.getActive (isApproved (approvals.active ++ approvals.owner)) r
  owner : ∀ id ∈ required.owner, id ∈ approvals.owner ∨
    ∃ r ∈ g.getOwner.rules id,
      met g.getActive (isApproved (approvals.active ++ approvals.owner)) r

/-- By a derivation of at most `maxRecursion` nested levels. -/
def MetWithin (getActive : AuthorityGetter) (approved : AccountName → Bool) (r : AuthorityRule) :
    Prop :=
  metWithin getActive.rules (isSigned sigs) approved maxRecursion r = true

/-- The same through authorities whose weights cannot leave the range of `uint32_t`. -/
def MetWithinSmall (getActive : AuthorityGetter) (approved : AccountName → Bool)
    (r : AuthorityRule) : Prop :=
  r.total < 2 ^ 32 ∧
    metWithin getActive.smallRules (isSigned sigs) approved maxRecursion r = true

/-- What the getter has, and the owner authority for the accounts that are required as owners. -/
def RequiredAuthorities.rules (getActive : AuthorityGetter) (id : AccountName) :
    List AuthorityRule :=
  getActive.rules id ++ if id ∈ required.owner then g.getOwner.rules id else []

/-- By a derivation of any depth. -/
def MetAtAnyDepth (getActive : AuthorityGetter) (approved : AccountName → Bool)
    (r : AuthorityRule) : Prop :=
  ∃ n, metWithin (required.rules g getActive) (isSigned sigs) approved n r = true

end required

/-- The verdict is that nothing is missing, though something may be irrelevant. -/
def Accepts {α : Type} (x : Except TransactionException α) : Prop :=
  ∀ e, x = .error e → e.isIrrelevant = true

theorem TransactionException.not_isMissing {e : TransactionException}
    (h : e.isIrrelevant = true) : e.isMissingAuthority = false := by
  cases e <;> simp_all [isIrrelevant, isMissingAuthority]

section verdict

variable {required : RequiredAuthorities} {sigs : List PublicKeyType} {g : AuthorityGetters}
variable {maxRecursion : Nat} {approvals : Approvals}

theorem RequiredAuthorities.subset_rules (required : RequiredAuthorities) (g : AuthorityGetters)
    (getActive : AuthorityGetter) (id : AccountName) :
    getActive.rules id ⊆ required.rules g getActive id :=
  List.subset_append_left _ _

theorem RequiredAuthorities.derivable_of_owner {getActive : AuthorityGetter} {id : AccountName}
    {given : AccountName → Bool} (hid : id ∈ required.owner)
    (h : ∃ r ∈ g.getOwner.rules id, ∃ n,
      metWithin (required.rules g getActive) (isSigned sigs) given n r = true) :
    Derivable (required.rules g getActive) (isSigned sigs) given id := by
  obtain ⟨r, hr, hmet⟩ := h
  refine .inr ⟨r, ?_, hmet⟩
  unfold RequiredAuthorities.rules
  rw [if_pos hid]
  exact List.mem_append_right _ hr

private theorem mem_foldl_insert {κ : Type} [DecidableEq κ] {b : Bool} {l : List κ}
    {m : AList fun _ : κ => Bool} {k : κ} :
    k ∈ l.foldl (fun m k => m.insert k b) m ↔ k ∈ l ∨ k ∈ m := by
  induction l generalizing m with
  | nil => simp
  | cons a l ih =>
    rw [List.foldl_cons, ih, AList.mem_insert, List.mem_cons]
    tauto

theorem SignState.approveAll_eq (s : SignState) (ids : List AccountName) :
    s.approveAll ids =
      { s with approvedBy := ids.foldl (fun m id => m.insert id false) s.approvedBy } := by
  induction ids generalizing s with
  | nil => rfl
  | cons id ids ih => exact ih (s.approve id false)

theorem SignState.approveAll_append (s : SignState) (ids ids' : List AccountName) :
    s.approveAll (ids ++ ids') = (s.approveAll ids).approveAll ids' :=
  List.foldl_append

theorem SignState.admits_init {rules : AccountName → List AuthorityRule} (ids : List AccountName) :
    ((SignState.init sigs []).approveAll ids).Admits rules (isSigned sigs) (isApproved ids) := by
  have hmem : ∀ id, id ∈ ((SignState.init sigs []).approveAll ids).approvedBy ↔
      isApproved ids id = true := by
    intro id
    rw [SignState.approveAll_eq]
    simp only [mem_foldl_insert, SignState.init, AList.mem_insert, isApproved, Bool.or_eq_true,
      decide_eq_true_eq, AList.notMem_empty, or_false]
    tauto
  constructor
  . rw [SignState.approveAll_eq]
    rfl
  . intro k
    rw [SignState.approveAll_eq]
    simp [SignState.init, mem_foldl_insert, isSigned]
  . intro id hid
    exact (hmem id).mpr hid
  . intro id hid
    exact .inl ((hmem id).mp hid)

theorem AuthorityCheck.Between.mono {rules : AccountName → List AuthorityRule}
    {leaf : PublicKeyType → Bool} {given : AccountName → Bool} {low low' high high' : Prop}
    {check : AuthorityCheck} (h : check.Between rules leaf given low high) (hlow : low' → low)
    (hhigh : high → high') : check.Between rules leaf given low' high' := by
  intro s approved s' hs hcheck
  obtain ⟨h', hsound, hcomplete⟩ := h s approved s' hs hcheck
  exact ⟨h', fun ha => hhigh (hsound ha), fun hl => hcomplete (hlow hl)⟩

/-- A rule of an account that is met, said of both bounds. -/
theorem exists_smallRules {get getActive : AuthorityGetter} {id : AccountName}
    {given : AccountName → Bool} :
    (∃ r ∈ get.smallRules id,
      metWithin getActive.smallRules (isSigned sigs) given maxRecursion r = true) ↔
      ∃ r ∈ get.rules id, MetWithinSmall sigs maxRecursion getActive given r := by
  simp only [AuthorityGetter.smallRules, List.mem_filter, decide_eq_true_eq, MetWithinSmall,
    and_assoc]

theorem AuthorityCheck.between_checkPosting (id : AccountName) :
    AuthorityCheck.Between (required.rules g g.getPosting) (isSigned sigs)
      (isApproved approvals.posting)
      (isApproved approvals.posting id = true ∨
        ∃ r ∈ g.getPosting.rules id ++ g.getActive.rules id ++ g.getOwner.rules id,
          MetWithinSmall sigs maxRecursion g.getPosting (isApproved approvals.posting) r)
      (Derivable (required.rules g g.getPosting) (isSigned sigs) (isApproved approvals.posting) id ∨
        ∃ r ∈ g.getActive.rules id ++ g.getOwner.rules id,
          MetAtAnyDepth required sigs g g.getPosting (isApproved approvals.posting) r)
      (SignState.checkPosting g maxRecursion id) := by
  have hsub := RequiredAuthorities.subset_rules required g g.getPosting
  apply ((between_checkAccount hsub maxRecursion id).or
    ((between_checkAuthorityOf hsub maxRecursion g.getActive id).or
      (between_checkAuthorityOf hsub maxRecursion g.getOwner id))).mono
  . simp only [exists_smallRules, List.mem_append, or_and_right, exists_or, or_assoc]
    exact fun h => h
  . simp only [List.mem_append, or_and_right, exists_or, MetAtAnyDepth]
    exact fun h => h

theorem AuthorityCheck.between_checkActive (id : AccountName) (given : AccountName → Bool) :
    AuthorityCheck.Between (required.rules g g.getActive) (isSigned sigs) given
      (given id = true ∨ ∃ r ∈ g.getActive.rules id ++ g.getOwner.rules id,
        MetWithinSmall sigs maxRecursion g.getActive given r)
      (Derivable (required.rules g g.getActive) (isSigned sigs) given id ∨
        ∃ r ∈ g.getOwner.rules id, MetAtAnyDepth required sigs g g.getActive given r)
      (SignState.checkActive g maxRecursion id) := by
  have hsub := RequiredAuthorities.subset_rules required g g.getActive
  apply ((between_checkAccount hsub maxRecursion id).or
    (between_checkAuthorityOf hsub maxRecursion g.getOwner id)).mono
  . simp only [exists_smallRules, List.mem_append, or_and_right, exists_or, or_assoc]
    exact fun h => h
  . exact fun h => h

/-- An owner that is approved is marked, which its owner authority or the approval justifies. -/
theorem AuthorityCheck.between_checkOwner {id : AccountName} {given : AccountName → Bool}
    {ownerApprovals : List AccountName} (hid : id ∈ required.owner)
    (hgiven : id ∈ ownerApprovals → given id = true) :
    AuthorityCheck.Between (required.rules g g.getActive) (isSigned sigs) given
      (id ∈ ownerApprovals ∨ ∃ r ∈ g.getOwner.rules id,
        MetWithinSmall sigs maxRecursion g.getActive given r)
      (id ∈ ownerApprovals ∨ ∃ r ∈ g.getOwner.rules id,
        MetAtAnyDepth required sigs g g.getActive given r)
      (SignState.checkOwner g maxRecursion ownerApprovals id) := by
  intro s approved s' hs hcheck
  unfold SignState.checkOwner at hcheck
  split at hcheck
  . next hmem =>
    simp only [bind_eq_ok, pure_eq_ok] at hcheck
    obtain ⟨_, rfl, hcheck⟩ := hcheck
    simp only [↓reduceIte, Prod.mk.injEq] at hcheck
    obtain ⟨rfl, rfl⟩ := hcheck
    exact ⟨hs.approve (.inl (hgiven hmem)) true, fun _ => .inl hmem, fun _ => rfl⟩
  . next hmem =>
    rw [bind_eq_ok] at hcheck
    obtain ⟨⟨ok, s₁⟩, hof, hcheck⟩ := hcheck
    have hsub := RequiredAuthorities.subset_rules required g g.getActive
    obtain ⟨h₁, hsound, hcomplete⟩ :=
      between_checkAuthorityOf hsub maxRecursion g.getOwner id s ok s₁ hs hof
    simp only [pure_eq_ok, Prod.mk.injEq] at hcheck
    obtain ⟨rfl, rfl⟩ := hcheck
    refine ⟨?_, fun hok => .inr (hsound hok), ?_⟩
    . split
      . next hok => exact h₁.approve (RequiredAuthorities.derivable_of_owner hid (hsound hok)) true
      . exact h₁
    . intro hlow
      apply hcomplete
      rw [exists_smallRules]
      exact hlow.resolve_left hmem

theorem RequiredAuthorities.exists_rules_of_derivable {get : AuthorityGetter} {id : AccountName}
    {given : AccountName → Bool} {l : List AuthorityRule}
    (h : Derivable (required.rules g get) (isSigned sigs) given id ∨
      ∃ r ∈ l, MetAtAnyDepth required sigs g get given r)
    (hget : get.rules id ⊆ l) (howner : g.getOwner.rules id ⊆ l) :
    given id = true ∨ ∃ r ∈ l, MetAtAnyDepth required sigs g get given r := by
  rcases h with (hgiven | ⟨r, hr, hmet⟩) | h
  . exact .inl hgiven
  . right
    refine ⟨r, ?_, hmet⟩
    unfold RequiredAuthorities.rules at hr
    rcases List.mem_append.mp hr with hr | hr
    . exact hget hr
    . split at hr
      . exact howner hr
      . cases hr
  . exact .inr h

theorem TransactionException.lift_eq_ok {α : Type} {x : Result α} {a : α} :
    lift x = .ok a ↔ x = .ok a := by
  cases x with
  | error e => simp [lift, Except.mapError]
  | ok b => simp [lift, Except.mapError]

theorem TransactionException.lift_eq_error {α : Type} {x : Result α} {e : TransactionException} :
    lift x = .error e ↔ ∃ e', x = .error e' ∧ .exception e' = e := by
  cases x with
  | error e => simp [lift, Except.mapError]
  | ok b => simp [lift, Except.mapError]

theorem SignState.isIrrelevant_of_error {s : SignState} {e : TransactionException}
    (h : s.assertUnusedApprovals = .error e) : e.isIrrelevant = true := by
  unfold SignState.assertUnusedApprovals at h
  simp only [bind_eq_error, ensure_eq_error] at h
  rcases h with ⟨_, rfl⟩ | ⟨_, _, _, rfl⟩
  . rfl
  . rfl

/-- The branch for posting authorities. -/
theorem RequiredAuthorities.satisfied_posting {missing : List AccountName} {s' : SignState}
    (h : AuthorityCheck.missing (SignState.checkPosting g maxRecursion) required.posting
      ((SignState.init sigs []).approveAll approvals.posting) = .ok (missing, s')) :
    (missing = [] → ∀ id ∈ required.posting, isApproved approvals.posting id = true ∨
      ∃ r ∈ g.getPosting.rules id ++ g.getActive.rules id ++ g.getOwner.rules id,
        MetAtAnyDepth required sigs g g.getPosting (isApproved approvals.posting) r) ∧
      (required.Satisfied g approvals (MetWithinSmall sigs maxRecursion) → missing = []) := by
  obtain ⟨_, hsound, hcomplete⟩ := AuthorityCheck.missing_eq_ok
    (SignState.admits_init approvals.posting)
    (fun id _ => AuthorityCheck.between_checkPosting id) h
  refine ⟨?_, fun hsat => hcomplete hsat.posting⟩
  intro hmissing id hid
  apply exists_rules_of_derivable
  . apply (hsound hmissing id hid).imp_right
    rintro ⟨r, hr, hmet⟩
    refine ⟨r, ?_, hmet⟩
    rw [List.append_assoc]
    exact List.mem_append_right _ hr
  . rw [List.append_assoc]
    exact List.subset_append_left _ _
  . exact List.subset_append_right _ _

theorem verifyAuthority_posting_error {e : TransactionException}
    (hsat : required.Satisfied g approvals (MetWithinSmall sigs maxRecursion))
    (hposting : required.posting ≠ [])
    (h : verifyAuthority required sigs g maxRecursion approvals = .error e) :
    e.isMissingAuthority = false := by
  unfold verifyAuthority at h
  rw [if_pos hposting] at h
  simp only [bind_eq_error, ensure_eq_error, TransactionException.lift_eq_error,
    TransactionException.lift_eq_ok] at h
  rcases h with ⟨_, rfl⟩ | ⟨_, _, ⟨e', _, rfl⟩ | ⟨⟨missing, s⟩, hmissing, h⟩⟩
  . rfl
  . rfl
  . rcases h with ⟨hne, rfl⟩ | ⟨_, _, h⟩
    . exact absurd ((RequiredAuthorities.satisfied_posting hmissing).2 hsat) hne
    . exact TransactionException.not_isMissing (SignState.isIrrelevant_of_error h)

theorem Accepts.ensure {α : Type} {p : Prop} [Decidable p] {e : TransactionException}
    {f : Unit → Except TransactionException α} (h : Accepts (Checked.ensure p e >>= f))
    (he : e.isIrrelevant = false) : p ∧ Accepts (f ()) := by
  by_cases hp : p
  . rw [ensure_eq_ok.mpr hp, ok_bind] at h
    exact ⟨hp, h⟩
  . have := h e (bind_eq_error.mpr (.inl (ensure_eq_error.mpr ⟨hp, rfl⟩)))
    rw [he] at this
    cases this

theorem Accepts.lift {α β : Type} {x : Result α} {f : α → Except TransactionException β}
    (h : Accepts (TransactionException.lift x >>= f)) : ∃ a, x = .ok a ∧ Accepts (f a) := by
  cases x with
  | error e => cases h (.exception e) rfl
  | ok a => exact ⟨a, rfl, h⟩

theorem RequiredAuthorities.satisfied_of_posting (hposting : required.posting ≠ [])
    (h : Accepts (verifyAuthority required sigs g maxRecursion approvals)) :
    required.Satisfied g approvals (MetAtAnyDepth required sigs g) := by
  unfold verifyAuthority at h
  rw [if_pos hposting] at h
  obtain ⟨⟨hactive, howner, hother⟩, h⟩ := h.ensure rfl
  obtain ⟨⟨missing, s⟩, hmissing, h⟩ := h.lift
  obtain ⟨hempty, _⟩ := h.ensure rfl
  refine ⟨(satisfied_posting hmissing).1 hempty, ?_, ?_, ?_⟩
  . simp [hother]
  . simp [hactive]
  . simp [howner]

/-- The other authorities, which come first when there is no posting authority. -/
theorem RequiredAuthorities.missing_other {missing : List Authority} {s' : SignState}
    (h : AuthorityCheck.missing (SignState.checkAuthority g.getActive maxRecursion) required.other
      (((SignState.init sigs []).approveAll approvals.active).approveAll approvals.owner) =
        .ok (missing, s')) :
    s'.Admits (required.rules g g.getActive) (isSigned sigs)
        (isApproved (approvals.active ++ approvals.owner)) ∧
      (missing = [] → ∀ auth ∈ required.other, MetAtAnyDepth required sigs g g.getActive
        (isApproved (approvals.active ++ approvals.owner)) auth.rule) ∧
      (required.Satisfied g approvals (MetWithinSmall sigs maxRecursion) → missing = []) := by
  rw [← SignState.approveAll_append] at h
  obtain ⟨hs', hsound, hcomplete⟩ := AuthorityCheck.missing_eq_ok (SignState.admits_init _)
    (fun auth _ => AuthorityCheck.between_checkAuthority
      (required.subset_rules g g.getActive) maxRecursion auth) h
  exact ⟨hs', hsound, fun hsat => hcomplete hsat.other⟩

theorem RequiredAuthorities.missing_active {missing : List AccountName} {s s' : SignState}
    (hs : s.Admits (required.rules g g.getActive) (isSigned sigs)
      (isApproved (approvals.active ++ approvals.owner)))
    (h : AuthorityCheck.missing (SignState.checkActive g maxRecursion) required.active s =
      .ok (missing, s')) :
    s'.Admits (required.rules g g.getActive) (isSigned sigs)
        (isApproved (approvals.active ++ approvals.owner)) ∧
      (missing = [] → ∀ id ∈ required.active,
        isApproved (approvals.active ++ approvals.owner) id = true ∨
          ∃ r ∈ g.getActive.rules id ++ g.getOwner.rules id, MetAtAnyDepth required sigs g
            g.getActive (isApproved (approvals.active ++ approvals.owner)) r) ∧
      (required.Satisfied g approvals (MetWithinSmall sigs maxRecursion) → missing = []) := by
  obtain ⟨hs', hsound, hcomplete⟩ := AuthorityCheck.missing_eq_ok hs
    (fun id _ => AuthorityCheck.between_checkActive id _) h
  refine ⟨hs', ?_, fun hsat => hcomplete hsat.active⟩
  intro hmissing id hid
  apply exists_rules_of_derivable
  . apply (hsound hmissing id hid).imp_right
    rintro ⟨r, hr, hmet⟩
    exact ⟨r, List.mem_append_right _ hr, hmet⟩
  . exact List.subset_append_left _ _
  . exact List.subset_append_right _ _

theorem RequiredAuthorities.missing_owner {missing : List AccountName} {s s' : SignState}
    (hs : s.Admits (required.rules g g.getActive) (isSigned sigs)
      (isApproved (approvals.active ++ approvals.owner)))
    (h : AuthorityCheck.missing (SignState.checkOwner g maxRecursion approvals.owner)
      required.owner s = .ok (missing, s')) :
    (missing = [] → ∀ id ∈ required.owner, id ∈ approvals.owner ∨
      ∃ r ∈ g.getOwner.rules id, MetAtAnyDepth required sigs g g.getActive
        (isApproved (approvals.active ++ approvals.owner)) r) ∧
      (required.Satisfied g approvals (MetWithinSmall sigs maxRecursion) → missing = []) := by
  have hgiven : ∀ id ∈ approvals.owner,
      isApproved (approvals.active ++ approvals.owner) id = true := by
    intro id hid
    simp [isApproved, hid]
  obtain ⟨_, hsound, hcomplete⟩ := AuthorityCheck.missing_eq_ok hs
    (fun id hid => AuthorityCheck.between_checkOwner hid (hgiven id)) h
  exact ⟨hsound, fun hsat => hcomplete hsat.owner⟩

theorem verifyAuthority_active_error {e : TransactionException}
    (hsat : required.Satisfied g approvals (MetWithinSmall sigs maxRecursion))
    (hposting : ¬required.posting ≠ [])
    (h : verifyAuthority required sigs g maxRecursion approvals = .error e) :
    e.isMissingAuthority = false := by
  unfold verifyAuthority at h
  rw [if_neg hposting] at h
  simp only [bind_eq_error, ensure_eq_error, TransactionException.lift_eq_error,
    TransactionException.lift_eq_ok] at h
  rcases h with ⟨e', _, rfl⟩ | ⟨⟨missingAuths, s₁⟩, hother, h⟩
  . rfl
  obtain ⟨hs₁, _, hempty⟩ := RequiredAuthorities.missing_other hother
  rcases h with ⟨hne, rfl⟩ | ⟨_, _, ⟨e', _, rfl⟩ | ⟨⟨missingActive, s₂⟩, hactive, h⟩⟩
  . exact absurd (hempty hsat) hne
  . rfl
  obtain ⟨hs₂, _, hempty⟩ := RequiredAuthorities.missing_active hs₁ hactive
  rcases h with ⟨hne, rfl⟩ | ⟨_, _, ⟨e', _, rfl⟩ | ⟨⟨missingOwner, s₃⟩, howner, h⟩⟩
  . exact absurd (hempty hsat) hne
  . rfl
  rcases h with ⟨hne, rfl⟩ | ⟨_, _, h⟩
  . exact absurd ((RequiredAuthorities.missing_owner hs₂ howner).2 hsat) hne
  . exact TransactionException.not_isMissing (SignState.isIrrelevant_of_error h)

theorem RequiredAuthorities.satisfied_of_active (hposting : ¬required.posting ≠ [])
    (h : Accepts (verifyAuthority required sigs g maxRecursion approvals)) :
    required.Satisfied g approvals (MetAtAnyDepth required sigs g) := by
  unfold verifyAuthority at h
  rw [if_neg hposting] at h
  obtain ⟨⟨missingAuths, s₁⟩, hother, h⟩ := h.lift
  obtain ⟨hs₁, hsoundOther, _⟩ := missing_other hother
  obtain ⟨hotherEmpty, h⟩ := h.ensure rfl
  obtain ⟨⟨missingActive, s₂⟩, hactive, h⟩ := h.lift
  obtain ⟨hs₂, hsoundActive, _⟩ := missing_active hs₁ hactive
  obtain ⟨hactiveEmpty, h⟩ := h.ensure rfl
  obtain ⟨⟨missingOwner, s₃⟩, howner, h⟩ := h.lift
  obtain ⟨hownerEmpty, _⟩ := h.ensure rfl
  rw [not_not] at hposting
  refine ⟨?_, hsoundOther hotherEmpty, hsoundActive hactiveEmpty, ?_⟩
  . simp [hposting]
  . exact (missing_owner hs₂ howner).1 hownerEmpty

end verdict

/--
No authority is reported missing when every required account is satisfied within the levels, in
whatever order and company the accounts are checked, and none is accepted that has no derivation.
-/
theorem verifyAuthority_between (required : RequiredAuthorities) (sigs : List PublicKeyType)
    (g : AuthorityGetters) (maxRecursion : Nat) (approvals : Approvals) :
    (required.Satisfied g approvals (MetWithinSmall sigs maxRecursion) →
      ∀ e, verifyAuthority required sigs g maxRecursion approvals = .error e →
        e.isMissingAuthority = false) ∧
    (Accepts (verifyAuthority required sigs g maxRecursion approvals) →
      required.Satisfied g approvals (MetAtAnyDepth required sigs g)) := by
  by_cases hposting : required.posting ≠ []
  . exact ⟨fun hsat e => verifyAuthority_posting_error hsat hposting,
      RequiredAuthorities.satisfied_of_posting hposting⟩
  . exact ⟨fun hsat e => verifyAuthority_active_error hsat hposting,
      RequiredAuthorities.satisfied_of_active hposting⟩

section counterexamples

/-- alice, bob, carol and dave in a chain, zoe beside alice, and a key of dave. -/
def chain : AuthorityGetter
  | "alice" => pure { weightThreshold := 1, accountAuths := [("bob", 1)] }
  | "bob" => pure { weightThreshold := 1, accountAuths := [("carol", 1)] }
  | "carol" => pure { weightThreshold := 1, accountAuths := [("dave", 1)] }
  | "dave" => pure { weightThreshold := 1, keyAuths := [(7#264, 1)] }
  | "zoe" => pure { weightThreshold := 1, accountAuths := [("bob", 1)] }
  | _ => throw (.missingObject "authority")

def chainGetters : AuthorityGetters where
  getActive := chain
  getOwner := chain
  getPosting := chain

def manyKeys : List PublicKeyType :=
  (List.range' 1 65536).map (BitVec.ofNat 264)

/-- More keys than `uint32_t` can add up the weights of. -/
def wideAuthority : Authority where
  weightThreshold := 2 ^ 32 - 1
  keyAuths := (0#264, 1) :: (manyKeys.map (·, 65535) ++ [(65537#264, 65535)])

def wideSigs : List PublicKeyType :=
  0#264 :: (manyKeys ++ [65537#264])

private theorem checkKeys_map {rules : AccountName → List AuthorityRule}
    {leaf : PublicKeyType → Bool} {given : AccountName → Bool} (threshold w total : Nat)
    {keys : List PublicKeyType} (l : List (PublicKeyType × Nat)) {s : SignState}
    (hs : s.Admits rules leaf given) (hkeys : ∀ k ∈ keys, leaf k = true)
    (hlt : total + keys.length * w < threshold) (hthreshold : threshold ≤ 2 ^ 32) :
    ∃ s', s'.Admits rules leaf given ∧
      SignState.checkKeys threshold (keys.map (·, w) ++ l) total s =
        SignState.checkKeys threshold l (total + keys.length * w) s' := by
  induction keys generalizing total s with
  | nil => exact ⟨s, hs, by simp⟩
  | cons k keys ih =>
    obtain ⟨hsigned, hadmits⟩ := hs.signedBy k
    rw [List.length_cons, Nat.succ_mul] at hlt
    obtain ⟨s', hs', heq⟩ := ih (total + w) hadmits
      (fun k' hk' => hkeys k' (List.mem_cons_of_mem k hk')) (by omega)
    refine ⟨s', hs', ?_⟩
    rw [List.map_cons, List.cons_append, SignState.checkKeys]
    simp only [hsigned, hkeys k List.mem_cons_self, ↓reduceIte]
    rw [Nat.mod_eq_of_lt (by omega), if_neg (by omega), heq, List.length_cons, Nat.succ_mul]
    congr 1
    omega

private theorem length_manyKeys : manyKeys.length = 65536 := by
  simp [manyKeys]

private theorem isSigned_wideSigs {k : PublicKeyType} (hk : k ∈ manyKeys) :
    isSigned wideSigs k = true := by
  simp [isSigned, wideSigs, hk]

private theorem isSigned_first : isSigned wideSigs 0#264 = true := by
  simp [isSigned, wideSigs]

private theorem isSigned_last : isSigned wideSigs 65537#264 = true := by
  simp [isSigned, wideSigs]

private theorem checkAuthority_wideAuthority {rules : AccountName → List AuthorityRule}
    {given : AccountName → Bool} {s : SignState} (hs : s.Admits rules (isSigned wideSigs) given) :
    ∃ s', SignState.checkAuthority chain 2 wideAuthority s = .ok (false, s') := by
  obtain ⟨hfirst, hs₁⟩ := hs.signedBy 0#264
  obtain ⟨s₂, hs₂, hmany⟩ := checkKeys_map (2 ^ 32 - 1) 65535 1
    [(65537#264, 65535)] hs₁ (fun k hk => isSigned_wideSigs hk)
    (by rw [length_manyKeys]; norm_num) (by norm_num)
  obtain ⟨hlast, _⟩ := hs₂.signedBy 65537#264
  rw [isSigned_first] at hfirst
  rw [isSigned_last] at hlast
  refine ⟨(s₂.signedBy 65537#264).2, ?_⟩
  have hkeys : SignState.checkKeys (2 ^ 32 - 1) wideAuthority.keyAuths 0 s =
      (false, 0, (s₂.signedBy 65537#264).2) := by
    rw [wideAuthority, SignState.checkKeys]
    simp only [hfirst, ↓reduceIte]
    rw [if_neg (by norm_num)]
    exact hmany.trans <| by
      rw [length_manyKeys, SignState.checkKeys]
      simp only [hlast, ↓reduceIte, SignState.checkKeys]
      rw [if_neg (by norm_num)]
      norm_num
  have hthreshold : wideAuthority.weightThreshold = 2 ^ 32 - 1 := rfl
  have haccounts : wideAuthority.accountAuths = [] := rfl
  rw [SignState.checkAuthority, SignState.checkAuths, hthreshold, hkeys, haccounts]
  rfl

private theorem metWithin_wideAuthority {given : AccountName → Bool} :
    MetWithin wideSigs 2 chain given wideAuthority.rule := by
  have hmany : weight (manyKeys.map (·, 65535)) (isSigned wideSigs) = 65536 * 65535 := by
    rw [weight_map_const fun k hk => isSigned_wideSigs hk, length_manyKeys]
  have hkeys : weight wideAuthority.keyAuths (isSigned wideSigs) = 2 ^ 32 := by
    rw [wideAuthority, weight_cons_of_pos isSigned_first, weight_append, hmany,
      weight_cons_of_pos isSigned_last, weight_nil]
    norm_num
  unfold MetWithin metWithin
  rw [Authority.met_rule, hkeys]
  exact le_trans (Nat.sub_le (2 ^ 32) 1) (Nat.le_add_right _ _)

private theorem wideAdmits : ((SignState.init wideSigs []).approveAll ([] ++ [])).Admits
    (fun _ => []) (isSigned wideSigs) (isApproved []) :=
  SignState.admits_init []

end counterexamples

theorem verifyAuthority_between_carol :
    (∀ e, verifyAuthority { active := ["carol"] } [7#264] chainGetters 2 {} = .error e →
      e.isMissingAuthority = false) ∧
    RequiredAuthorities.Satisfied { active := ["carol"] } chainGetters {}
      (MetAtAnyDepth { active := ["carol"] } [7#264] chainGetters) := by
  have hbetween := verifyAuthority_between { active := ["carol"] } [7#264] chainGetters 2 {}
  refine ⟨hbetween.1 ⟨by simp, by simp, ?_, by simp⟩, hbetween.2 ?_⟩
  . intro id hid
    rw [List.mem_singleton] at hid
    subst hid
    right
    exact ⟨_, List.mem_append_left _ List.mem_cons_self, by decide +kernel, by decide +kernel⟩
  . have : verifyAuthority { active := ["carol"] } [7#264] chainGetters 2 {} = .ok () := by
      decide +kernel
    intro e he
    rw [this] at he
    cases he

/--
The order of the accounts and the company decide about an account whose derivation is too deep, and
weights that sum to more than `uint32_t` holds are lost.
-/
theorem verifyAuthority_depends_on_order :
    (verifyAuthority { active := ["carol", "zoe"] } [7#264] chainGetters 2 {} = .ok () ∧
      verifyAuthority { active := ["alice", "carol"] } [7#264] chainGetters 2 {} =
        .error (.txMissingActiveAuth ["alice"] [7#264]) ∧
      verifyAuthority { active := ["zoe"] } [7#264] chainGetters 2 {} =
        .error (.txMissingActiveAuth ["zoe"] []) ∧
      ¬RequiredAuthorities.Satisfied { active := ["carol", "zoe"] } chainGetters {}
        (MetWithin [7#264] 2)) ∧
    (verifyAuthority { other := [wideAuthority] } wideSigs chainGetters 2 {} =
        .error (.txMissingOtherAuth [wideAuthority]) ∧
      RequiredAuthorities.Satisfied { other := [wideAuthority] } chainGetters {}
        (MetWithin wideSigs 2)) := by
  refine ⟨⟨by decide +kernel, by decide +kernel, by decide +kernel, ?_⟩, ?_, ?_⟩
  . intro h
    have : ¬(isApproved [] "zoe" = true ∨
        ∃ r ∈ chain.rules "zoe" ++ chain.rules "zoe",
          metWithin chain.rules (isSigned [7#264]) (isApproved []) 2 r = true) := by
      decide +kernel
    exact this (h.active "zoe" (by simp))
  . obtain ⟨s, hs⟩ := checkAuthority_wideAuthority wideAdmits
    have hmissing : AuthorityCheck.missing (SignState.checkAuthority chainGetters.getActive 2)
        [wideAuthority] (((SignState.init wideSigs []).approveAll []).approveAll []) =
          .ok ([wideAuthority], s) := by
      rw [AuthorityCheck.missing, ← SignState.approveAll_append, chainGetters, hs]
      rfl
    rw [verifyAuthority, if_neg (by simp)]
    simp only
    rw [hmissing]
    rfl
  . constructor
    . simp
    . simp [chainGetters, metWithin_wideAuthority]
    . simp
    . simp

end Golos
