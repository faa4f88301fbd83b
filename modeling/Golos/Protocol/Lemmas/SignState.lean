import Golos.Lib.ThresholdRule
import Golos.Protocol.SignState

/-!
This module contains what a check of an authority decides: it finds every derivation that fits in
the levels left, and approves nothing that has no derivation of any depth.
-/

namespace Golos

open Checked ThresholdRule

abbrev AuthorityRule :=
  ThresholdRule PublicKeyType AccountName

def Authority.rule (auth : Authority) : AuthorityRule where
  threshold := auth.weightThreshold
  leaves := auth.keyAuths
  nodes := auth.accountAuths

theorem Authority.met_rule {auth : Authority} {leaf : PublicKeyType → Bool}
    {node : AccountName → Bool} :
    auth.rule.met leaf node = true ↔
      auth.weightThreshold ≤ weight auth.keyAuths leaf + weight auth.accountAuths node :=
  decide_eq_true_iff

theorem Authority.total_rule (auth : Authority) :
    auth.rule.total = (auth.keyAuths.map Prod.snd).sum + (auth.accountAuths.map Prod.snd).sum :=
  rfl

/-- The rule of the authority that the getter has for the account, if it has one. -/
def AuthorityGetter.rules (get : AuthorityGetter) (id : AccountName) : List AuthorityRule :=
  match get id with
  | .ok auth => [auth.rule]
  | .error _ => []

/-- The rules whose weights cannot leave the range of `uint32_t`. -/
def AuthorityGetter.smallRules (get : AuthorityGetter) (id : AccountName) : List AuthorityRule :=
  (get.rules id).filter fun r => r.total < 2 ^ 32

theorem AuthorityGetter.mem_rules {get : AuthorityGetter} {id : AccountName} {auth : Authority}
    (h : get id = .ok auth) {r : AuthorityRule} : r ∈ get.rules id ↔ r = auth.rule := by
  simp [rules, h]

section admits

variable (rules : AccountName → List AuthorityRule) (leaf : PublicKeyType → Bool)
variable (given : AccountName → Bool)

/--
The signatures are those of `leaf`, and the approved accounts are all that are given and only such
that have a derivation.
-/
structure SignState.Admits (s : SignState) : Prop where
  availableKeys : s.availableKeys = []
  signed : ∀ k, k ∈ s.providedSignatures ↔ leaf k = true
  covers : ∀ id, given id = true → id ∈ s.approvedBy
  derivable : ∀ id ∈ s.approvedBy, Derivable rules leaf given id

/-- The check says yes when `low` holds and only when `high` holds, from every such state. -/
def AuthorityCheck.Between (low high : Prop) (check : AuthorityCheck) : Prop :=
  ∀ s approved s', s.Admits rules leaf given → check s = .ok (approved, s') →
    s'.Admits rules leaf given ∧ (approved = true → high) ∧ (low → approved = true)

variable {rules leaf given}

theorem SignState.Admits.approve {s : SignState} (h : s.Admits rules leaf given) {id : AccountName}
    (hid : Derivable rules leaf given id) (used : Bool) :
    (s.approve id used).Admits rules leaf given where
  availableKeys := h.availableKeys
  signed := h.signed
  covers := by
    intro id' hid'
    simp only [SignState.approve, AList.mem_insert]
    exact .inr (h.covers id' hid')
  derivable := by
    intro id' hid'
    simp only [SignState.approve, AList.mem_insert] at hid'
    rcases hid' with rfl | hid'
    . exact hid
    . exact h.derivable id' hid'

theorem SignState.Admits.mark {s : SignState} (h : s.Admits rules leaf given) {k : PublicKeyType}
    (hk : k ∈ s.providedSignatures) :
    SignState.Admits rules leaf given
      { s with providedSignatures := s.providedSignatures.insert k true } where
  availableKeys := h.availableKeys
  signed := by
    intro k'
    rw [AList.mem_insert, ← h.signed k']
    constructor
    . rintro (rfl | hk')
      . exact hk
      . exact hk'
    . exact .inr
  covers := h.covers
  derivable := h.derivable

theorem SignState.Admits.signedBy {s : SignState} (h : s.Admits rules leaf given)
    (k : PublicKeyType) :
    (s.signedBy k).1 = leaf k ∧ (s.signedBy k).2.Admits rules leaf given := by
  have hk := h.signed k
  unfold SignState.signedBy
  split
  . next hmem =>
    have hmem := hmem.resolve_right (by simp [h.availableKeys])
    exact ⟨(hk.mp hmem).symm, h.mark hmem⟩
  . next hmem =>
    rw [not_or, hk, Bool.not_eq_true] at hmem
    exact ⟨hmem.1.symm, h⟩

theorem SignState.Admits.checkKeys {s s' : SignState} (h : s.Admits rules leaf given)
    {threshold total total' : Nat} {keyAuths : List (PublicKeyType × Nat)} {reached : Bool}
    (hcheck : SignState.checkKeys threshold keyAuths total s = (reached, total', s')) :
    s'.Admits rules leaf given ∧
      (reached = true → threshold ≤ total + weight keyAuths leaf) ∧
      (reached = false → total' ≤ total + weight keyAuths leaf ∧
        (total + (keyAuths.map Prod.snd).sum < 2 ^ 32 →
          total' = total + weight keyAuths leaf)) := by
  induction keyAuths generalizing total s with
  | nil =>
    simp only [SignState.checkKeys, Prod.mk.injEq] at hcheck
    obtain ⟨rfl, rfl, rfl⟩ := hcheck
    simp [h]
  | cons k keyAuths ih =>
    obtain ⟨hsigned, hadmits⟩ := h.signedBy k.1
    unfold SignState.checkKeys at hcheck
    rw [weight_cons, List.map_cons, List.sum_cons]
    cases hk : leaf k.1 with
    | false =>
      simp only [hsigned, hk, Bool.false_eq_true, ↓reduceIte] at hcheck
      obtain ⟨h', hreached, htotal⟩ := ih hadmits hcheck
      refine ⟨h', ?_, ?_⟩
      . intro hr
        have := hreached hr
        simp only [Bool.false_eq_true, ↓reduceIte]
        omega
      . intro hr
        obtain ⟨hle, heq⟩ := htotal hr
        simp only [Bool.false_eq_true, ↓reduceIte]
        omega
    | true =>
      simp only [hsigned, hk, ↓reduceIte] at hcheck ⊢
      have hmod : (total + k.2) % 2 ^ 32 ≤ total + k.2 := Nat.mod_le _ _
      split at hcheck
      . next hthreshold =>
        simp only [Prod.mk.injEq] at hcheck
        obtain ⟨rfl, rfl, rfl⟩ := hcheck
        refine ⟨hadmits, ?_, by simp⟩
        intro _
        omega
      . obtain ⟨h', hreached, htotal⟩ := ih hadmits hcheck
        refine ⟨h', ?_, ?_⟩
        . intro hr
          have := hreached hr
          omega
        . intro hr
          obtain ⟨hle, heq⟩ := htotal hr
          refine ⟨by omega, ?_⟩
          intro hsum
          rw [Nat.mod_eq_of_lt (by omega)] at heq
          have := heq (by omega)
          omega

open Classical in
/--
The outcome of the loop over `account_auths` from `total`, when `low` says for which accounts the
check of other accounts is sure to succeed.
-/
structure AccountsChecked (rules : AccountName → List AuthorityRule) (leaf : PublicKeyType → Bool)
    (given low : AccountName → Bool) (threshold total : Nat)
    (accountAuths : List (AccountName × Nat)) (approved : Bool) (s : SignState) : Prop where
  admits : s.Admits rules leaf given
  sound : approved = true →
    threshold ≤ total + weight accountAuths fun id => decide (Derivable rules leaf given id)
  complete : total + (accountAuths.map Prod.snd).sum < 2 ^ 32 →
    threshold ≤ total + weight accountAuths (fun id => given id || low id) → approved = true

namespace AccountsChecked

variable {low : AccountName → Bool} {threshold total : Nat} {accountAuths : List (AccountName × Nat)}
variable {a : AccountName × Nat} {approved : Bool} {s : SignState}

theorem reached (hs : s.Admits rules leaf given) (ha : Derivable rules leaf given a.1)
    (h : threshold ≤ (total + a.2) % 2 ^ 32) :
    AccountsChecked rules leaf given low threshold total (a :: accountAuths) true s where
  admits := hs
  sound := by
    intro _
    have := Nat.mod_le (total + a.2) (2 ^ 32)
    rw [weight_cons]
    simp only [ha, decide_true, ↓reduceIte]
    omega
  complete := by simp

theorem add (ha : Derivable rules leaf given a.1)
    (h : AccountsChecked rules leaf given low threshold ((total + a.2) % 2 ^ 32) accountAuths
      approved s) :
    AccountsChecked rules leaf given low threshold total (a :: accountAuths) approved s where
  admits := h.admits
  sound := by
    intro happroved
    have := Nat.mod_le (total + a.2) (2 ^ 32)
    have := h.sound happroved
    rw [weight_cons]
    simp only [ha, decide_true, ↓reduceIte]
    omega
  complete := by
    intro hsum hle
    rw [List.map_cons, List.sum_cons] at hsum
    rw [weight_cons] at hle
    have hcomplete := h.complete
    rw [Nat.mod_eq_of_lt (by omega)] at hcomplete
    apply hcomplete
    . omega
    . split at hle <;> omega

theorem skip (ha : (given a.1 || low a.1) = false)
    (h : AccountsChecked rules leaf given low threshold total accountAuths approved s) :
    AccountsChecked rules leaf given low threshold total (a :: accountAuths) approved s where
  admits := h.admits
  sound := by
    intro happroved
    have := h.sound happroved
    rw [weight_cons]
    omega
  complete := by
    intro hsum hle
    rw [List.map_cons, List.sum_cons] at hsum
    rw [weight_cons] at hle
    simp only [ha, Bool.false_eq_true, ↓reduceIte] at hle
    apply h.complete
    . omega
    . omega

end AccountsChecked

theorem SignState.Admits.checkAccounts {s s' : SignState} (h : s.Admits rules leaf given)
    {check : Option (AccountName → AuthorityCheck)} {low : AccountName → Bool}
    (hsome : ∀ c ∈ check, ∀ id,
      (c id).Between rules leaf given (low id) (Derivable rules leaf given id))
    (hnone : check = none → ∀ id, low id = false)
    {threshold total : Nat} {accountAuths : List (AccountName × Nat)} {approved : Bool}
    (hcheck : SignState.checkAccounts threshold check accountAuths total s = .ok (approved, s')) :
    AccountsChecked rules leaf given low threshold total accountAuths approved s' := by
  induction accountAuths generalizing total s with
  | nil =>
    simp only [SignState.checkAccounts, pure_eq_ok, Prod.mk.injEq] at hcheck
    obtain ⟨rfl, rfl⟩ := hcheck
    exact ⟨h, by simp, by simp⟩
  | cons a accountAuths ih =>
    unfold SignState.checkAccounts at hcheck
    split at hcheck
    . next hmem =>
      have ha := h.derivable a.1 hmem
      dsimp only at hcheck
      split at hcheck
      . next hreached =>
        simp only [pure_eq_ok, Prod.mk.injEq] at hcheck
        obtain ⟨rfl, rfl⟩ := hcheck
        exact .reached h ha hreached
      . exact .add ha (ih h hcheck)
    . next hmem =>
      have hgiven : given a.1 = false := by
        rw [← Bool.not_eq_true]
        intro hg
        exact hmem (h.covers a.1 hg)
      split at hcheck
      . apply AccountsChecked.skip
        . rw [hgiven, hnone rfl, Bool.or_false]
        . exact ih h hcheck
      . next c =>
        rw [bind_eq_ok] at hcheck
        obtain ⟨⟨ok, s₁⟩, hc, hcheck⟩ := hcheck
        obtain ⟨h₁, hhigh, hlow⟩ := hsome c rfl a.1 s ok s₁ h hc
        dsimp only at hcheck
        split at hcheck
        . next hok =>
          have h₂ := h₁.approve (hhigh hok) true
          split at hcheck
          . next hreached =>
            simp only [pure_eq_ok, Prod.mk.injEq] at hcheck
            obtain ⟨rfl, rfl⟩ := hcheck
            exact .reached h₂ (hhigh hok) hreached
          . exact .add (hhigh hok) (ih h₂ hcheck)
        . next hok =>
          apply AccountsChecked.skip
          . rw [hgiven, Bool.false_or, ← Bool.not_eq_true]
            intro hl
            exact hok (hlow hl)
          . exact ih h₁ hcheck

/-- The body of the check, when the nested checks are between the rules below and any derivation. -/
theorem AuthorityCheck.between_checkAuths {check : Option (AccountName → AuthorityCheck)}
    {low : AccountName → Bool}
    (hsome : ∀ c ∈ check, ∀ id,
      (c id).Between rules leaf given (low id) (Derivable rules leaf given id))
    (hnone : check = none → ∀ id, low id = false) (auth : Authority) :
    AuthorityCheck.Between rules leaf given
      (auth.rule.total < 2 ^ 32 ∧ auth.rule.met leaf (fun id => given id || low id) = true)
      (∃ n, metWithin rules leaf given n auth.rule = true)
      (SignState.checkAuths check auth) := by
  classical
  intro s approved s' h hcheck
  unfold SignState.checkAuths at hcheck
  rcases hkeys : SignState.checkKeys auth.weightThreshold auth.keyAuths 0 s with
    ⟨reached, total, s₁⟩
  obtain ⟨h₁, hreached, htotal⟩ := h.checkKeys hkeys
  rw [hkeys] at hcheck
  simp only at hcheck
  have hderivable : auth.rule.met leaf (fun id => decide (Derivable rules leaf given id)) = true →
      ∃ n, metWithin rules leaf given n auth.rule = true := by
    apply exists_metWithin
    intro a ha
    exact of_decide_eq_true ha
  split at hcheck
  . next hr =>
    simp only [pure_eq_ok, Prod.mk.injEq] at hcheck
    obtain ⟨rfl, rfl⟩ := hcheck
    refine ⟨h₁, ?_, by simp⟩
    intro _
    apply hderivable
    rw [Authority.met_rule]
    have := hreached hr
    omega
  . next hr =>
    have hr : reached = false := by
      rw [← Bool.not_eq_true]
      exact hr
    obtain ⟨hle, heq⟩ := htotal hr
    obtain ⟨h', hsound, hcomplete⟩ := h₁.checkAccounts hsome hnone hcheck
    refine ⟨h', ?_, ?_⟩
    . intro happroved
      apply hderivable
      rw [Authority.met_rule]
      have := hsound happroved
      omega
    . intro hlow
      obtain ⟨hsmall, hmet⟩ := hlow
      rw [Authority.total_rule] at hsmall
      rw [Authority.met_rule] at hmet
      have := heq (by omega)
      have := weight_le_sum auth.keyAuths leaf
      apply hcomplete
      . omega
      . omega

variable {getActive : AuthorityGetter}

theorem AuthorityGetter.mem_smallRules {get : AuthorityGetter} {id : AccountName}
    {auth : Authority} (h : get id = .ok auth) {r : AuthorityRule} :
    r ∈ get.smallRules id ↔ r = auth.rule ∧ auth.rule.total < 2 ^ 32 := by
  unfold smallRules
  rw [List.mem_filter, mem_rules h, decide_eq_true_eq]
  constructor
  . rintro ⟨rfl, h⟩
    exact ⟨rfl, h⟩
  . rintro ⟨rfl, h⟩
    exact ⟨rfl, h⟩

/-- The check finds the derivations that fit in the levels left, and no more than there are. -/
theorem AuthorityCheck.between_checkAuthority (hsub : ∀ id, getActive.rules id ⊆ rules id)
    (levels : Nat) (auth : Authority) :
    AuthorityCheck.Between rules leaf given
      (auth.rule.total < 2 ^ 32 ∧
        metWithin getActive.smallRules leaf given levels auth.rule = true)
      (∃ n, metWithin rules leaf given n auth.rule = true)
      (SignState.checkAuthority getActive levels auth) := by
  induction levels generalizing auth with
  | zero =>
    have : AuthorityCheck.Between rules leaf given
        (auth.rule.total < 2 ^ 32 ∧ auth.rule.met leaf (fun id => given id || false) = true)
        (∃ n, metWithin rules leaf given n auth.rule = true) (SignState.checkAuths none auth) :=
      between_checkAuths (by simp) (by simp) auth
    simpa [metWithin, SignState.checkAuthority] using this
  | succ levels ih =>
    have hnested : ∀ id, AuthorityCheck.Between rules leaf given
        ((getActive.smallRules id).any (metWithin getActive.smallRules leaf given levels) = true)
        (Derivable rules leaf given id)
        (fun s => getActive id >>= fun auth => SignState.checkAuthority getActive levels auth s) := by
      intro id s approved s' h hcheck
      rw [bind_eq_ok] at hcheck
      obtain ⟨auth, hget, hcheck⟩ := hcheck
      obtain ⟨h', hsound, hcomplete⟩ := ih auth s approved s' h hcheck
      refine ⟨h', ?_, ?_⟩
      . intro happroved
        exact .inr ⟨auth.rule, hsub id ((AuthorityGetter.mem_rules hget).mpr rfl), hsound happroved⟩
      . intro hlow
        obtain ⟨r, hr, hmet⟩ := List.any_eq_true.mp hlow
        obtain ⟨rfl, hsmall⟩ := (AuthorityGetter.mem_smallRules hget).mp hr
        exact hcomplete ⟨hsmall, hmet⟩
    apply between_checkAuths
    . intro c hc id
      simp only [Option.mem_def, Option.some.injEq] at hc
      subst hc
      exact hnested id
    . simp

theorem AuthorityCheck.between_checkAuthorityOf (hsub : ∀ id, getActive.rules id ⊆ rules id)
    (levels : Nat) (get : AuthorityGetter) (id : AccountName) :
    AuthorityCheck.Between rules leaf given
      (∃ r ∈ get.smallRules id, metWithin getActive.smallRules leaf given levels r = true)
      (∃ r ∈ get.rules id, ∃ n, metWithin rules leaf given n r = true)
      (SignState.checkAuthorityOf getActive levels get id) := by
  intro s approved s' h hcheck
  unfold SignState.checkAuthorityOf at hcheck
  rw [bind_eq_ok] at hcheck
  obtain ⟨auth, hget, hcheck⟩ := hcheck
  obtain ⟨h', hsound, hcomplete⟩ := between_checkAuthority hsub levels auth s approved s' h hcheck
  refine ⟨h', ?_, ?_⟩
  . intro happroved
    exact ⟨auth.rule, (AuthorityGetter.mem_rules hget).mpr rfl, hsound happroved⟩
  . rintro ⟨r, hr, hmet⟩
    obtain ⟨rfl, hsmall⟩ := (AuthorityGetter.mem_smallRules hget).mp hr
    exact hcomplete ⟨hsmall, hmet⟩

theorem AuthorityCheck.between_checkAccount (hsub : ∀ id, getActive.rules id ⊆ rules id)
    (levels : Nat) (id : AccountName) :
    AuthorityCheck.Between rules leaf given
      (given id = true ∨
        ∃ r ∈ getActive.smallRules id, metWithin getActive.smallRules leaf given levels r = true)
      (Derivable rules leaf given id) (SignState.checkAccount getActive levels id) := by
  intro s approved s' h hcheck
  unfold SignState.checkAccount at hcheck
  split at hcheck
  . next hmem =>
    simp only [pure_eq_ok, Prod.mk.injEq] at hcheck
    obtain ⟨rfl, rfl⟩ := hcheck
    have hid := h.derivable id hmem
    exact ⟨h.approve hid true, fun _ => hid, fun _ => rfl⟩
  . next hmem =>
    obtain ⟨h', hsound, hcomplete⟩ :=
      between_checkAuthorityOf hsub levels getActive id s approved s' h hcheck
    refine ⟨h', ?_, ?_⟩
    . intro happroved
      obtain ⟨r, hr, hmet⟩ := hsound happroved
      exact .inr ⟨r, hsub id hr, hmet⟩
    . intro hlow
      apply hcomplete
      apply hlow.resolve_left
      intro hgiven
      exact hmem (h.covers id hgiven)

theorem AuthorityCheck.Between.or {low₁ low₂ high₁ high₂ : Prop} {first second : AuthorityCheck}
    (h₁ : first.Between rules leaf given low₁ high₁)
    (h₂ : second.Between rules leaf given low₂ high₂) :
    (first.or second).Between rules leaf given (low₁ ∨ low₂) (high₁ ∨ high₂) := by
  intro s approved s' h hcheck
  unfold AuthorityCheck.or at hcheck
  rw [bind_eq_ok] at hcheck
  obtain ⟨⟨ok, s₁⟩, hfirst, hcheck⟩ := hcheck
  obtain ⟨hs₁, hsound₁, hcomplete₁⟩ := h₁ s ok s₁ h hfirst
  dsimp only at hcheck
  split at hcheck
  . next hok =>
    simp only [pure_eq_ok, Prod.mk.injEq] at hcheck
    obtain ⟨rfl, rfl⟩ := hcheck
    exact ⟨hs₁, fun _ => .inl (hsound₁ hok), fun _ => rfl⟩
  . next hok =>
    obtain ⟨h', hsound₂, hcomplete₂⟩ := h₂ s₁ approved s' hs₁ hcheck
    refine ⟨h', ?_, ?_⟩
    . intro happroved
      exact .inr (hsound₂ happroved)
    . rintro (hlow | hlow)
      . exact absurd (hcomplete₁ hlow) hok
      . exact hcomplete₂ hlow

/-- Nothing is missing if all is sure to be approved, and only if all has a derivation. -/
theorem AuthorityCheck.missing_eq_ok {α : Type} {check : α → AuthorityCheck} {low high : α → Prop}
    {as missing : List α} {s s' : SignState} (hs : s.Admits rules leaf given)
    (hcheck : ∀ a ∈ as, (check a).Between rules leaf given (low a) (high a))
    (h : AuthorityCheck.missing check as s = .ok (missing, s')) :
    s'.Admits rules leaf given ∧ (missing = [] → ∀ a ∈ as, high a) ∧
      ((∀ a ∈ as, low a) → missing = []) := by
  induction as generalizing missing s with
  | nil =>
    simp only [AuthorityCheck.missing, pure_eq_ok, Prod.mk.injEq] at h
    obtain ⟨rfl, rfl⟩ := h
    exact ⟨hs, by simp, fun _ => rfl⟩
  | cons a as ih =>
    unfold AuthorityCheck.missing at h
    simp only [bind_eq_ok, pure_eq_ok] at h
    obtain ⟨⟨approved, s₁⟩, ha, ⟨missing', s₂⟩, has, heq⟩ := h
    dsimp only at has heq
    simp only [Prod.mk.injEq] at heq
    obtain ⟨heq, rfl⟩ := heq
    obtain ⟨hs₁, hsound, hcomplete⟩ := hcheck a List.mem_cons_self s approved s₁ hs ha
    obtain ⟨hs₂, hsound', hcomplete'⟩ :=
      ih hs₁ (fun a' ha' => hcheck a' (List.mem_cons_of_mem a ha')) has
    refine ⟨hs₂, ?_, ?_⟩
    . rintro rfl
      split at heq
      . next happroved =>
        intro a' ha'
        rcases List.mem_cons.mp ha' with rfl | ha'
        . exact hsound happroved
        . exact hsound' heq a' ha'
      . cases heq
    . intro hlow
      rw [if_pos (hcomplete (hlow a List.mem_cons_self))] at heq
      rw [← heq]
      apply hcomplete'
      intro a' ha'
      exact hlow a' (List.mem_cons_of_mem a ha')

end admits

end Golos
