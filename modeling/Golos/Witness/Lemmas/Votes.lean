import Golos.Lib.Pointers
import Golos.Witness.Hardforks
import Golos.Witness.Impl.Votes

/-!
This module contains what the operations with votes for witnesses leave as it is, and what adjusting
the votes up a chain of proxies does to those that the proxies count.
-/

namespace Golos.Witness

open Checked

theorem Table.sum_modify_of_eq {κ : Type u} {α : Type v} [DecidableEq κ] {key : α → κ}
    {t : Table key} {k : κ} {a : α} {g g' : α → ℤ} (f : α → α) (hf : ∀ a, key (f a) = key a)
    (ha : t.find? k = some a) (h : ∀ b ∈ t.rows, key b ≠ k → g' b = g b) :
    (t.modify k f hf).sum g' = t.sum g + (g' (f a) - g a) := by
  have hothers : (t.erase k).sum g' = (t.erase k).sum g := by
    apply Table.sum_congr
    intro b hb
    obtain ⟨hb, hne⟩ := Table.mem_erase.mp hb
    exact h b hb hne
  rw [Table.sum_modify t f hf g' ha]
  rw [Table.sum_erase t g' ha, Table.sum_erase t g ha] at hothers
  omega

namespace VoteDatabase

variable {db db' db'' : VoteDatabase} {account witness name : AccountName}

@[simp]
theorem voters_modifyVoter {f : AccountObject → AccountObject} {hf : ∀ a, (f a).name = a.name} :
    (db.modifyVoter name f hf).voters = db.voters.modify name f hf := rfl

/-- Accounts are the same, and so is who votes for whom, whatever it is worth. -/
structure Recounted (db db' : VoteDatabase) : Prop where
  voters : db'.voters = db.voters
  witnessVotes : db'.witnessVotes.rows.map WitnessVoteObject.key =
    db.witnessVotes.rows.map WitnessVoteObject.key

namespace Recounted

variable {delta weight : ℤ} {overwrite : Bool}

theorem refl (db : VoteDatabase) : db.Recounted db :=
  ⟨rfl, rfl⟩

theorem trans (h : db.Recounted db') (h' : db'.Recounted db'') : db.Recounted db'' :=
  ⟨h'.voters.trans h.voters, h'.witnessVotes.trans h.witnessVotes⟩

theorem adjustWitnessVote (h : db.adjustWitnessVote account witness delta overwrite = .ok db') :
    db.Recounted db' := by
  unfold VoteDatabase.adjustWitnessVote adjustRshares at h
  simp only [bind_eq_ok] at h
  obtain ⟨inner, -, h⟩ := h
  split at h
  . injection h with h
    rw [← h]
    exact ⟨rfl, rfl⟩
  . simp only [bind_eq_ok, pure_eq_ok] at h
    obtain ⟨rshares, -, rfl⟩ := h
    refine ⟨rfl, ?_⟩
    show List.map _ (List.map _ _) = _
    rw [List.map_map]
    apply List.map_congr_left
    intro v _
    simp only [Function.comp_apply]
    split
    . rfl
    . rfl

/-- A loop each turn of which counts anew. -/
theorem foldlM {γ : Type} {f : VoteDatabase → γ → Result VoteDatabase} {l : List γ}
    (hf : ∀ db db' x, f db x = .ok db' → db.Recounted db') (h : l.foldlM f db = .ok db') :
    db.Recounted db' := by
  apply foldlM_invariant (P := fun s _ => db.Recounted s) _ (.refl db) h
  intro s s' x l hs hx
  exact hs.trans (hf s s' x hx)

theorem adjustWitnessVotes (h : db.adjustWitnessVotes account delta = .ok db') :
    db.Recounted db' :=
  foldlM (fun _ _ _ => adjustWitnessVote) h

theorem retallyAccount {weight : Result ℤ} (h : db.retallyAccount account weight = .ok db') :
    db.Recounted db' := by
  apply foldlM _ h
  intro s s' v hv
  simp only [bind_eq_ok] at hv
  obtain ⟨_, -, hv⟩ := hv
  exact adjustWitnessVote hv

theorem spreadWithout {voter : AccountObject}
    (h : db.spreadWithout voter weight witness = .ok db') : db.Recounted db' := by
  unfold VoteDatabase.spreadWithout at h
  simp only [bind_eq_ok] at h
  obtain ⟨_, -, _, -, _, -, db₁, hspread, hadjust⟩ := h
  exact (adjustWitnessVotes hspread).trans (adjustWitnessVote hadjust)

end Recounted

section proxied

/-- The accounts that accounts with proxies let vote for them. -/
def proxyOf (voters : Table AccountObject.name) (name : AccountName) : Option AccountName :=
  (voters.find? name).bind fun a =>
    if a.proxy = steemitProxyToSelfAccount then none else some a.proxy

/-- What a proxy counts of an account, unless that account is left out. -/
def share (omitted name : AccountName) (i : Fin (steemitMaxProxyRecursionDepth + 1))
    (b : AccountObject) : ℤ :=
  if b.proxy = name ∧ b.name ≠ omitted then b.votes i else 0

/--
Every account knows the votes that it is the proxy for, where those of one account are left out, and
some more have not yet come to one of them.
-/
def Proxied (voters : Table AccountObject.name) (omitted waiting : AccountName)
    (more : Fin steemitMaxProxyRecursionDepth → ℤ) : Prop :=
  ∀ a ∈ voters.rows, ∀ i : Fin steemitMaxProxyRecursionDepth,
    a.proxiedVsfVotes.get i + (if waiting = a.name then more i else 0) =
      voters.sum (share omitted a.name i.castSucc)

/-- No account is named like the proxy of those who have none. -/
def Named (voters : Table AccountObject.name) : Prop :=
  ∀ a ∈ voters.rows, a.name ≠ steemitProxyToSelfAccount

variable {voters : Table AccountObject.name} {omitted omitted' waiting waiting' : AccountName}
  {more more' : Fin steemitMaxProxyRecursionDepth → ℤ} {p : AccountObject}

/-- The sums change where the account that is changed is counted. -/
theorem Proxied.modify {f : AccountObject → AccountObject} {hf : ∀ a, (f a).name = a.name}
    (hp : voters.find? name = some p) (h : Proxied voters omitted waiting more)
    (homitted : ∀ b ∈ voters.rows, b.name ≠ name → (b.name ≠ omitted' ↔ b.name ≠ omitted))
    (hchange : ∀ c ∈ voters.rows, ∀ i : Fin steemitMaxProxyRecursionDepth,
      (if c.name = name then (f p).proxiedVsfVotes.get i - p.proxiedVsfVotes.get i else 0) +
          (if waiting' = c.name then more' i else 0) - (if waiting = c.name then more i else 0) =
        share omitted' c.name i.castSucc (f p) - share omitted c.name i.castSucc p) :
    Proxied (voters.modify name f hf) omitted' waiting' more' := by
  intro c hc i
  have hsum : (voters.modify name f hf).sum (share omitted' c.name i.castSucc) =
      voters.sum (share omitted c.name i.castSucc) +
        (share omitted' c.name i.castSucc (f p) - share omitted c.name i.castSucc p) := by
    apply Table.sum_modify_of_eq f hf hp
    intro b hb hne
    simp only [share, homitted b hb hne]
  rw [hsum]
  rcases Table.mem_modify.mp hc with ⟨hc, hne⟩ | ⟨a, ha, rfl, rfl⟩
  . have hold := h c hc i
    have hnew := hchange c hc i
    rw [if_neg hne] at hnew
    omega
  . rw [Table.find?_of_mem ha] at hp
    injection hp with hp
    subst hp
    have hold := h a ha i
    have hnew := hchange a ha i
    rw [if_pos rfl] at hnew
    rw [hf]
    omega

/-- What is added to the votes proxied to an account is added one level up to those of its proxy. -/
structure Climbing (votes : Nat → Fin steemitMaxProxyRecursionDepth → ℤ) : Prop where
  zero : ∀ depth, votes (depth + 1) 0 = 0
  succ : ∀ depth (i : Fin (steemitMaxProxyRecursionDepth - 1)),
    votes (depth + 1) i.succ = votes depth i.castSucc
  gone : ∀ i, votes steemitMaxProxyRecursionDepth i = 0

/-- An account that is left out is not reached from there. -/
def Avoids (voters : Table AccountObject.name) (omitted name : AccountName) : Prop :=
  ∀ n, Pointers.climb (proxyOf voters) n name = some omitted → voters.find? omitted = none

variable {votes : Nat → Fin steemitMaxProxyRecursionDepth → ℤ} {total : Nat → Result ℤ}

theorem find?_eq_none_of_named (h : Named voters) :
    voters.find? steemitProxyToSelfAccount = none :=
  Table.find?_eq_none_iff.mpr h

theorem Avoids.proxy (hnamed : Named voters) (hp : voters.find? name = some p)
    (h : Avoids voters omitted name) : Avoids voters omitted p.proxy := by
  intro n hn
  by_cases hself : p.proxy = steemitProxyToSelfAccount
  . rw [hself] at hn
    cases n with
    | zero =>
      injection hn with hn
      rw [← hn]
      exact find?_eq_none_of_named hnamed
    | succ n =>
      rw [Pointers.climb_succ, proxyOf, find?_eq_none_of_named hnamed] at hn
      cases hn
  . apply h (n + 1)
    rw [Pointers.climb_succ, proxyOf, hp, Option.bind_some, if_neg hself]
    exact hn

theorem Avoids.ne (hp : voters.find? name = some p) (h : Avoids voters omitted name) :
    name ≠ omitted := by
  rintro rfl
  rw [h 0 rfl] at hp
  cases hp

/-- Where nobody is left out. -/
theorem Avoids.of_named (h : Named voters) : Avoids voters steemitProxyToSelfAccount name :=
  fun _ _ => find?_eq_none_of_named h

section modify

variable {f : AccountObject → AccountObject} {hf : ∀ a, (f a).name = a.name}

theorem Named.modify (h : Named voters) : Named (voters.modify name f hf) := by
  intro a ha
  rcases Table.mem_modify.mp ha with ⟨ha, -⟩ | ⟨b, hb, -, rfl⟩
  . exact h a ha
  . rw [hf]
    exact h b hb

theorem proxyOf_modify (hproxy : ∀ a, (f a).proxy = a.proxy) :
    proxyOf (voters.modify name f hf) = proxyOf voters := by
  funext n
  unfold proxyOf
  rw [Table.find?_modify]
  split
  . next h =>
    cases voters.find? n with
    | none => rfl
    | some a => simp only [Option.map_some, Option.bind_some, hproxy]
  . rfl

theorem Avoids.modify (hproxy : ∀ a, (f a).proxy = a.proxy) {target : AccountName}
    (h : Avoids voters omitted target) : Avoids (voters.modify name f hf) omitted target := by
  intro n hn
  rw [proxyOf_modify hproxy] at hn
  rw [Table.find?_modify, h n hn]
  split <;> rfl

end modify

theorem get_ofFn {n : Nat} (g : Fin n → ℤ) (i : Fin n) : (Vector.ofFn g).get i = g i := by
  show (Vector.ofFn g)[i.val] = g i
  rw [Vector.getElem_ofFn]

theorem get_map {n : Nat} (v : Vector ℤ n) (g : ℤ → ℤ) (i : Fin n) :
    (v.map g).get i = g (v.get i) := by
  show (v.map g)[i.val] = g v[i.val]
  rw [Vector.getElem_map]

theorem get_replicate {n : Nat} (x : ℤ) (i : Fin n) : (Vector.replicate n x).get i = x := by
  show (Vector.replicate n x)[i.val] = x
  rw [Vector.getElem_replicate]

theorem toList_eq_ofFn {n : Nat} (v : Vector ℤ n) : v.toList = List.ofFn v.get := by
  apply List.ext_getElem
  . rw [Vector.length_toList, List.length_ofFn]
  . intro i hi hi'
    rw [List.getElem_ofFn, Vector.getElem_toList]
    rfl

theorem votes_change (hvotes : Climbing votes) (depth : Nat) (p : AccountObject)
    (i : Fin steemitMaxProxyRecursionDepth) :
    ({ p with
        proxiedVsfVotes := Vector.ofFn fun i => p.proxiedVsfVotes.get i + votes depth i } :
          AccountObject).votes i.castSucc - p.votes i.castSucc =
      votes (depth + 1) i := by
  cases i using Fin.cases with
  | zero =>
    rw [hvotes.zero]
    exact Int.sub_self _
  | succ i =>
    rw [hvotes.succ, ← Fin.succ_castSucc]
    show (Vector.ofFn _).get i.castSucc - p.proxiedVsfVotes.get i.castSucc = _
    rw [get_ofFn]
    omega

/-- What waits at nobody does not matter. -/
theorem Proxied.of_self (hnamed : Named voters)
    (h : Proxied voters omitted steemitProxyToSelfAccount more) :
    Proxied voters omitted steemitProxyToSelfAccount more' := by
  intro a ha i
  have hsum := h a ha i
  rw [if_neg (hnamed a ha).symm] at hsum ⊢
  exact hsum

/-- Nothing waits at anybody. -/
theorem Proxied.of_zero (hmore : ∀ i, more i = 0) (h : Proxied voters omitted waiting more) :
    Proxied voters omitted waiting' 0 := by
  intro a ha i
  have hsum := h a ha i
  rw [hmore, ite_self] at hsum
  rw [Pi.zero_apply, ite_self]
  exact hsum

/-- An account without a proxy gives its votes to the witnesses. -/
theorem Recounted.adjustProxied {left : Nat} {a : AccountObject}
    (hself : a.proxy = steemitProxyToSelfAccount)
    (hadjust : adjustProxied votes total left a db = .ok db') : db.Recounted db' := by
  unfold VoteDatabase.adjustProxied at hadjust
  rw [if_pos hself] at hadjust
  simp only [bind_eq_ok] at hadjust
  obtain ⟨_, -, _, -, hadjust⟩ := hadjust
  exact .adjustWitnessVotes hadjust

def link (a : AccountObject) : AccountName × AccountName :=
  (a.name, a.proxy)

theorem links_adjustProxied {left : Nat} {a : AccountObject}
    (hadjust : adjustProxied votes total left a db = .ok db') :
    db'.voters.rows.map link = db.voters.rows.map link := by
  induction left generalizing a db with
  | zero =>
    by_cases hself : a.proxy = steemitProxyToSelfAccount
    . rw [(Recounted.adjustProxied hself hadjust).voters]
    . unfold adjustProxied at hadjust
      rw [if_neg hself] at hadjust
      injection hadjust with hadjust
      rw [hadjust]
  | succ left ih =>
    by_cases hself : a.proxy = steemitProxyToSelfAccount
    . rw [(Recounted.adjustProxied hself hadjust).voters]
    . unfold adjustProxied at hadjust
      rw [if_neg hself] at hadjust
      simp only [bind_eq_ok] at hadjust
      obtain ⟨p, -, proxied, -, hadjust⟩ := hadjust
      rw [ih hadjust]
      show List.map _ (List.map _ _) = _
      rw [List.map_map]
      apply List.map_congr_left
      intro b _
      simp only [Function.comp_apply]
      split
      . rfl
      . rfl

/-- The votes that wait at the next proxy get to all above it, or to the witnesses. -/
theorem adjustProxied_spec (hvotes : Climbing votes) {left : Nat} {a : AccountObject}
    (hleft : left ≤ steemitMaxProxyRecursionDepth) (hnamed : Named db.voters)
    (h : Proxied db.voters omitted a.proxy (votes (steemitMaxProxyRecursionDepth - left)))
    (havoids : Avoids db.voters omitted a.proxy)
    (hadjust : adjustProxied votes total left a db = .ok db') :
    Proxied db'.voters omitted steemitProxyToSelfAccount 0 ∧
      db'.voters.find? omitted = db.voters.find? omitted := by
  induction left generalizing a db with
  | zero =>
    by_cases hself : a.proxy = steemitProxyToSelfAccount
    . rw [hself] at h
      rw [(Recounted.adjustProxied hself hadjust).voters]
      exact ⟨h.of_self hnamed, rfl⟩
    . unfold adjustProxied at hadjust
      rw [if_neg hself] at hadjust
      injection hadjust with hadjust
      rw [← hadjust]
      exact ⟨h.of_zero hvotes.gone, rfl⟩
  | succ left ih =>
    by_cases hself : a.proxy = steemitProxyToSelfAccount
    . rw [hself] at h
      rw [(Recounted.adjustProxied hself hadjust).voters]
      exact ⟨h.of_self hnamed, rfl⟩
    . unfold adjustProxied at hadjust
      rw [if_neg hself] at hadjust
      simp only [getVoter, AccountObject.addProxiedVsfVotes, bind_eq_ok, get_eq_ok, ensure_eq_ok,
        pure_eq_ok] at hadjust
      obtain ⟨p, hp, _, ⟨_, -, rfl⟩, hadjust⟩ := hadjust
      have hname : p.name = a.proxy := Table.key_of_find? hp
      rw [hname] at hadjust
      have hdepth : steemitMaxProxyRecursionDepth - left =
          steemitMaxProxyRecursionDepth - (left + 1) + 1 := by omega
      have hne : a.proxy ≠ omitted := havoids.ne hp
      have hup := ih (by omega) ?_ ?_ ?_ hadjust
      . refine ⟨hup.1, ?_⟩
        rw [hup.2, voters_modifyVoter, Table.find?_modify_of_ne _ _ _ hne.symm]
      . rw [voters_modifyVoter]
        exact hnamed.modify
      . rw [voters_modifyVoter]
        apply Proxied.modify hp h
        . intro b _ _
          rfl
        . intro c _ i
          have hcounted : p.name ≠ omitted := hname ▸ hne
          have hchange := votes_change hvotes (steemitMaxProxyRecursionDepth - (left + 1)) p i
          rw [← hdepth] at hchange
          have hwaits : c.name = a.proxy ↔ a.proxy = c.name := eq_comm
          simp only [get_ofFn, share, hwaits]
          by_cases hproxy : p.proxy = c.name
          . have hboth : p.proxy = c.name ∧ p.name ≠ omitted := ⟨hproxy, hcounted⟩
            simp only [if_pos hproxy, if_pos hboth]
            rw [hchange]
            split <;> omega
          . have hboth : ¬(p.proxy = c.name ∧ p.name ≠ omitted) := fun h => hproxy h.1
            simp only [if_neg hproxy, if_neg hboth]
            split <;> omega
      . rw [voters_modifyVoter]
        apply (havoids.proxy hnamed hp).modify
        intro a
        rfl

theorem sub_lt_depth (depth : Nat) (i : Fin steemitMaxProxyRecursionDepth) :
    i - depth < steemitMaxProxyRecursionDepth + 1 := by
  omega

theorem climbing_adjustProxiedWitnessVotes (delta : VoteDelta) :
    Climbing fun depth i => if depth ≤ i then delta ⟨i - depth, sub_lt_depth depth i⟩ else 0 := by
  constructor
  . intro depth
    exact if_neg (Nat.not_succ_le_zero depth)
  . intro depth i
    simp only [Fin.val_succ, Nat.add_le_add_iff_right, Fin.val_castSucc, Nat.add_sub_add_right]
  . intro i
    exact if_neg (Nat.not_le_of_lt i.isLt)

theorem climbing_adjustProxiedWitnessVotesBy (delta : ℤ) :
    Climbing fun depth i => if i = depth then delta else 0 := by
  constructor
  . intro depth
    exact if_neg (Nat.succ_ne_zero depth).symm
  . intro depth i
    simp only [Fin.val_succ, Nat.add_right_cancel_iff, Fin.val_castSucc]
  . intro i
    exact if_neg (Nat.ne_of_lt i.isLt)

theorem adjustProxiedWitnessVotes_spec {a : AccountObject} {delta : VoteDelta}
    (hnamed : Named db.voters)
    (h : Proxied db.voters omitted a.proxy fun i => delta i.castSucc)
    (havoids : Avoids db.voters omitted a.proxy)
    (hadjust : db.adjustProxiedWitnessVotes a delta = .ok db') :
    Proxied db'.voters omitted steemitProxyToSelfAccount 0 ∧
      db'.voters.find? omitted = db.voters.find? omitted := by
  refine adjustProxied_spec (climbing_adjustProxiedWitnessVotes delta) (Nat.le_refl _) hnamed ?_
    havoids hadjust
  simp only [Nat.sub_self, Nat.zero_le, if_true, Nat.sub_zero]
  exact h

theorem adjustProxiedWitnessVotesBy_spec {a : AccountObject} {delta : ℤ}
    (hnamed : Named db.voters)
    (h : Proxied db.voters omitted a.proxy fun i => if i.val = 0 then delta else 0)
    (havoids : Avoids db.voters omitted a.proxy)
    (hadjust : db.adjustProxiedWitnessVotesBy a delta = .ok db') :
    Proxied db'.voters omitted steemitProxyToSelfAccount 0 :=
  (adjustProxied_spec (climbing_adjustProxiedWitnessVotesBy delta) (Nat.le_refl _) hnamed h havoids
    hadjust).1

end proxied

section tree

/-- Where an account stands among the proxies. -/
def pose (a : AccountObject) : AccountName × AccountName × VoteDelta :=
  (a.name, a.proxy, a.votes)

def SameTree (voters voters' : Table AccountObject.name) : Prop :=
  voters'.rows.map pose = voters.rows.map pose

variable {voters voters' : Table AccountObject.name} {omitted waiting : AccountName}
  {more : Fin steemitMaxProxyRecursionDepth → ℤ} {a p : AccountObject}

namespace SameTree

theorem refl (voters : Table AccountObject.name) : SameTree voters voters := rfl

theorem modify {f : AccountObject → AccountObject} {hf : ∀ a, (f a).name = a.name}
    (h : ∀ a, pose (f a) = pose a) : SameTree voters (voters.modify name f hf) := by
  show List.map _ (List.map _ _) = _
  rw [List.map_map]
  apply List.map_congr_left
  intro a _
  simp only [Function.comp_apply]
  split
  . exact h a
  . rfl

theorem modifyWhere {q : AccountObject → Bool} {f : AccountObject → AccountObject}
    {hf : ∀ a, (f a).name = a.name} (h : ∀ a, pose (f a) = pose a) :
    SameTree voters (voters.modifyWhere q f hf) := by
  show List.map _ (List.map _ _) = _
  rw [List.map_map]
  apply List.map_congr_left
  intro a _
  simp only [Function.comp_apply]
  split
  . exact h a
  . rfl

theorem exists_mem (h : SameTree voters voters') (ha : a ∈ voters'.rows) :
    ∃ b ∈ voters.rows, pose b = pose a := by
  have hpose := List.mem_map_of_mem (f := pose) ha
  rw [h] at hpose
  exact List.mem_map.mp hpose

theorem find?_map (h : SameTree voters voters') (name : AccountName) :
    (voters'.find? name).map pose = (voters.find? name).map pose := by
  have hfind : ∀ t : Table AccountObject.name,
      (t.find? name).map pose = (t.rows.map pose).find? (fun a => a.1 = name) := by
    intro t
    rw [List.find?_map]
    rfl
  rw [hfind, hfind, h]

theorem proxyOf_eq (h : SameTree voters voters') : proxyOf voters' = proxyOf voters := by
  funext name
  have hproxy : ∀ t : Table AccountObject.name, proxyOf t name =
      ((t.find? name).map pose).bind fun a =>
        if a.2.1 = steemitProxyToSelfAccount then none else some a.2.1 := by
    intro t
    rw [Option.bind_map]
    rfl
  rw [hproxy, hproxy, h.find?_map]

theorem named (h : SameTree voters voters') (hnamed : Named voters) : Named voters' := by
  intro a ha
  obtain ⟨b, hb, hpose⟩ := h.exists_mem ha
  have hname : b.name = a.name := congrArg Prod.fst hpose
  exact hname ▸ hnamed b hb

theorem proxied (h : SameTree voters voters') (hproxied : Proxied voters omitted waiting more) :
    Proxied voters' omitted waiting more := by
  intro a ha i
  obtain ⟨b, hb, hpose⟩ := h.exists_mem ha
  have hname : b.name = a.name := congrArg Prod.fst hpose
  have hvotes : b.votes = a.votes := congrArg (·.2.2) hpose
  have hi : b.proxiedVsfVotes.get i = a.proxiedVsfVotes.get i := congrFun hvotes i.succ
  have hsum : ∀ t : Table AccountObject.name, t.sum (share omitted a.name i.castSucc) =
      ((t.rows.map pose).map fun b =>
        if b.2.1 = a.name ∧ b.1 ≠ omitted then b.2.2 i.castSucc else 0).sum := by
    intro t
    rw [List.map_map]
    rfl
  rw [hsum, h, ← hsum, ← hname, ← hi]
  exact hproxied b hb i

end SameTree

end tree

section voting

variable {voter : AccountObject} {weight : ℤ} {v : WitnessVoteObject}

theorem voters_createWitnessVote (h : db.createWitnessVote v = .ok db') : db'.voters = db.voters := by
  unfold createWitnessVote at h
  simp only [bind_eq_ok, pure_eq_ok] at h
  obtain ⟨_, -, rfl⟩ := h
  rfl

theorem voters_addWitnessVotes {delta : ℤ} (h : db.addWitnessVotes witness delta = .ok db') :
    db'.voters = db.voters := by
  unfold addWitnessVotes at h
  simp only [bind_eq_ok, pure_eq_ok] at h
  obtain ⟨_, -, _, -, rfl⟩ := h
  rfl

theorem voters_approveWitness (hself : voter.proxy = steemitProxyToSelfAccount)
    (h : db.approveWitness voter weight witness = .ok db') : db'.voters = db.voters := by
  unfold approveWitness at h
  dsimp only at h
  split at h
  . simp only [bind_eq_ok] at h
    obtain ⟨_, -, h⟩ := h
    split at h
    . simp only [bind_eq_ok] at h
      obtain ⟨_, -, _, -, _, -, db₁, hspread, db₂, hcreate, hadjust⟩ := h
      rw [(Recounted.adjustWitnessVote hadjust).voters, voters_createWitnessVote hcreate,
        (Recounted.adjustWitnessVotes hspread).voters]
    . simp only [bind_eq_ok] at h
      obtain ⟨db₁, hcreate, h⟩ := h
      rw [← voters_createWitnessVote hcreate]
      split at h
      . exact (Recounted.adjustWitnessVote h).voters
      . exact (Recounted.adjustProxied hself h).voters
  . simp only [bind_eq_ok] at h
    obtain ⟨db₁, hcreate, h⟩ := h
    rw [voters_addWitnessVotes h, voters_createWitnessVote hcreate]

theorem voters_rejectWitness (hself : voter.proxy = steemitProxyToSelfAccount)
    (h : db.rejectWitness voter weight witness = .ok db') : db'.voters = db.voters := by
  unfold rejectWitness at h
  split at h
  . split at h
    . exact (Recounted.spreadWithout h).voters
    . split at h
      . exact (Recounted.adjustWitnessVote h).voters
      . exact (Recounted.adjustProxied hself h).voters
  . exact voters_addWitnessVotes h

theorem voters_retally {account : VoteDatabase → AccountObject → Result VoteDatabase}
    (haccount : ∀ db db' a, account db a = .ok db' → db.Recounted db')
    (h : db.retally account = .ok db') : db'.voters = db.voters :=
  (Recounted.foldlM haccount h).voters

theorem voters_retallyWitnessVotes (h : db.retallyWitnessVotes = .ok db') :
    db'.voters = db.voters :=
  voters_retally (fun _ _ _ => .retallyAccount) h

theorem voters_retallyWitnessVotesHf22 (h : db.retallyWitnessVotesHf22 = .ok db') :
    db'.voters = db.voters := by
  apply voters_retally _ h
  intro db db' a ha
  simp only [bind_eq_ok] at ha
  obtain ⟨_, -, _, -, ha⟩ := ha
  exact .retallyAccount ha

end voting

end VoteDatabase

end Golos.Witness
