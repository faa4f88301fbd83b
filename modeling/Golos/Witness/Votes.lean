import Mathlib.Algebra.BigOperators.Fin
import Golos.Witness.Lemmas.Votes
import Golos.Witness.Times

/-!
This module contains the proxies in the runs of the chain: they make no circles, every proxy counts
what it votes with, and no vesting share is counted twice.
-/

namespace Golos.Witness

open Checked

/-- Neither a vote nor a hardfork. -/
def WitnessEvent.IsOwn : WitnessEvent → Prop
  | .adjustWitnessVote _ _ => False
  | .applyHardfork _ _ => False
  | _ => True

inductive VoteEvent where
  | accountWitnessProxy (o : AccountWitnessProxyOperation)
  | accountWitnessVote (o : AccountWitnessVoteOperation)
  | declineVotingRights (o : DeclineVotingRightsOperation)
  | processDeclineVotingRights
  | checkWitnessIdleness
  | changeVesting (name : AccountName) (delta totalVestingShares : ℤ)
  | createAccount (name : AccountName)
  | applyHardfork (version : Nat)
  /-- What witnesses do, their schedule, and everything else. -/
  | witness (e : WitnessEvent)

namespace VoteDatabase

variable {db db' : VoteDatabase} {name : AccountName} {a p : AccountObject}

/-- The proxies lead from account to account, but never back. -/
structure Forest (voters : Table AccountObject.name) : Prop where
  named : Named voters
  linked : ∀ a ∈ voters.rows, a.proxy ≠ steemitProxyToSelfAccount →
    (voters.find? a.proxy).isSome
  ends : ∀ name, Pointers.Ends (proxyOf voters) name

/-- And every one of them counts right. -/
structure Wired (db : VoteDatabase) : Prop where
  forest : Forest db.voters
  proxied : Proxied db.voters steemitProxyToSelfAccount steemitProxyToSelfAccount 0

section tree

variable {voters : Table AccountObject.name} {f : AccountObject → AccountObject}
  {hf : ∀ a, (f a).name = a.name}

/-- An account whose votes are left out is owed nothing by its proxy. -/
theorem Proxied.omit (hnamed : Named voters) (hp : voters.find? name = some p)
    (h : Proxied voters steemitProxyToSelfAccount steemitProxyToSelfAccount 0) :
    Proxied voters name p.proxy fun i => -p.votes i.castSucc := by
  have hname : p.name = name := Table.key_of_find? hp
  have hself : name ≠ steemitProxyToSelfAccount := hname ▸ hnamed p (Table.mem_of_find? hp)
  have hsame : voters.modify name id (fun _ => rfl) = voters := Table.modify_eq_self _ hp rfl
  rw [← hsame]
  apply Proxied.modify hp h
  . intro b hb hne
    exact iff_of_true hne (hnamed b hb)
  . intro c _ i
    have homitted : ¬(p.proxy = c.name ∧ p.name ≠ name) := fun h => h.2 hname
    have hcounted : p.proxy = c.name ∧ p.name ≠ steemitProxyToSelfAccount ↔ p.proxy = c.name :=
      and_iff_left (hname ▸ hself)
    simp only [share, id_eq, Int.sub_self, ite_self, Pi.zero_apply, if_neg homitted, hcounted]
    split <;> omega

/-- An account that was left out gets a proxy, who is owed its votes. -/
theorem Proxied.enter (hnamed : Named voters) (hp : voters.find? name = some p)
    (h : Proxied voters name steemitProxyToSelfAccount 0) (hvotes : (f p).votes = p.votes) :
    Proxied (voters.modify name f hf) steemitProxyToSelfAccount (f p).proxy
      fun i => p.votes i.castSucc := by
  have hname : p.name = name := Table.key_of_find? hp
  have hself : name ≠ steemitProxyToSelfAccount := hname ▸ hnamed p (Table.mem_of_find? hp)
  apply Proxied.modify hp h
  . intro b hb hne
    exact iff_of_true (hnamed b hb) hne
  . intro c _ i
    have hown : (f p).proxiedVsfVotes.get i = p.proxiedVsfVotes.get i := congrFun hvotes i.succ
    have homitted : ¬(p.proxy = c.name ∧ p.name ≠ name) := fun h => h.2 hname
    have hcounted : (f p).proxy = c.name ∧ (f p).name ≠ steemitProxyToSelfAccount ↔
        (f p).proxy = c.name :=
      and_iff_left (by rw [hf, hname]; exact hself)
    simp only [share, hown, hvotes, Int.sub_self, ite_self, Pi.zero_apply, if_neg homitted,
      hcounted]
    split <;> omega

/-- An account gets more vesting shares, which its proxy is owed. -/
theorem Proxied.vest {delta : ℤ} (hp : voters.find? name = some p)
    (h : Proxied voters steemitProxyToSelfAccount steemitProxyToSelfAccount 0)
    (hnamed : Named voters) (hproxy : (f p).proxy = p.proxy)
    (hvotes : ∀ i, (f p).votes i = p.votes i + if i.val = 0 then delta else 0) :
    Proxied (voters.modify name f hf) steemitProxyToSelfAccount p.proxy
      fun i => if i.val = 0 then delta else 0 := by
  apply Proxied.modify hp h
  . intro b _ _
    rfl
  . intro c _ i
    have hown : (f p).proxiedVsfVotes.get i = p.proxiedVsfVotes.get i := by
      have := hvotes i.succ
      rw [Fin.val_succ, if_neg (Nat.succ_ne_zero _), Int.add_zero] at this
      exact this
    have hself := hnamed p (Table.mem_of_find? hp)
    have hcounted : p.proxy = c.name ∧ p.name ≠ steemitProxyToSelfAccount ↔ p.proxy = c.name :=
      and_iff_left hself
    simp only [share, hown, hf, hproxy, hvotes, Int.sub_self, ite_self, Pi.zero_apply, hcounted,
      Fin.val_castSucc]
    by_cases hc : p.proxy = c.name
    . simp only [if_pos hc]
      omega
    . simp only [if_neg hc]
      omega

theorem proxyOf_eq_some {q : AccountName} :
    proxyOf voters name = some q ↔
      ∃ a, voters.find? name = some a ∧ a.proxy ≠ steemitProxyToSelfAccount ∧ a.proxy = q := by
  unfold proxyOf
  rw [Option.bind_eq_some_iff]
  constructor
  . rintro ⟨a, ha, hq⟩
    split at hq
    . cases hq
    . next hself =>
      injection hq with hq
      exact ⟨a, ha, hself, hq⟩
  . rintro ⟨a, ha, hself, rfl⟩
    exact ⟨a, ha, if_neg hself⟩

/-- An account that gets another proxy. -/
theorem proxyOf_modify_self (hp : voters.find? name = some p) :
    proxyOf (voters.modify name f hf) = Function.update (proxyOf voters) name
      (if (f p).proxy = steemitProxyToSelfAccount then none else some (f p).proxy) := by
  funext n
  unfold proxyOf
  rw [Table.find?_modify]
  by_cases hn : n = name
  . rw [if_pos hn, hn, hp, Function.update_self]
    rfl
  . rw [if_neg hn, Function.update_of_ne hn]

end tree

namespace Forest

variable {voters voters' : Table AccountObject.name}

/-- Nobody is the proxy of itself, through others or not. -/
theorem avoids (h : Forest voters) (hp : voters.find? name = some p) :
    Avoids voters name p.proxy := by
  intro n hn
  exfalso
  by_cases hself : p.proxy = steemitProxyToSelfAccount
  . rw [hself] at hn
    cases n with
    | zero =>
      injection hn with hn
      rw [← hn, find?_eq_none_of_named h.named] at hp
      cases hp
    | succ n =>
      rw [Pointers.climb_succ, proxyOf, find?_eq_none_of_named h.named] at hn
      cases hn
  . have hround : Pointers.climb (proxyOf voters) (n + 1) name = some name := by
      rw [Pointers.climb_succ, proxyOf_eq_some.mpr ⟨p, hp, hself, rfl⟩]
      exact hn
    cases (h.ends name).eq_zero hround

theorem of_links {α : Type} {link : AccountObject → α} (read : α → AccountName × AccountName)
    (hlink : ∀ a, read (link a) = (a.name, a.proxy))
    (hsame : voters'.rows.map link = voters.rows.map link) (h : Forest voters) :
    Forest voters' := by
  have hmem : ∀ a ∈ voters'.rows, ∃ b ∈ voters.rows, b.name = a.name ∧ b.proxy = a.proxy := by
    intro a ha
    have ha := List.mem_map_of_mem (f := link) ha
    rw [hsame] at ha
    obtain ⟨b, hb, hread⟩ := List.mem_map.mp ha
    have hread := congrArg read hread
    rw [hlink, hlink] at hread
    exact ⟨b, hb, congrArg Prod.fst hread, congrArg Prod.snd hread⟩
  have hfind : ∀ (t : Table AccountObject.name) n, (t.find? n).map link =
      (t.rows.map link).find? (fun x => (read x).1 = n) := by
    intro t n
    rw [List.find?_map]
    unfold Table.find?
    congr 2
    funext a
    rw [Function.comp_apply, hlink]
  have hproxy : ∀ t : Table AccountObject.name, ∀ n, proxyOf t n =
      ((t.find? n).map link).bind fun x =>
        if (read x).2 = steemitProxyToSelfAccount then none else some (read x).2 := by
    intro t n
    rw [Option.bind_map]
    unfold proxyOf
    congr 1
    funext a
    rw [Function.comp_apply, hlink]
  constructor
  . intro a ha
    obtain ⟨b, hb, hname, -⟩ := hmem a ha
    exact hname ▸ h.named b hb
  . intro a ha hself
    obtain ⟨b, hb, -, hproxy⟩ := hmem a ha
    rw [← hproxy] at hself ⊢
    rw [← Option.isSome_map (f := link), hfind, hsame, ← hfind, Option.isSome_map]
    exact h.linked b hb hself
  . have hsame : proxyOf voters' = proxyOf voters := by
      funext n
      rw [hproxy, hproxy, hfind, hfind, hsame]
    rw [hsame]
    exact h.ends

/-- An account can get a proxy whose own proxies do not lead to the account. -/
theorem modify {f : AccountObject → AccountObject} {hf : ∀ a, (f a).name = a.name}
    (h : Forest voters) (hp : voters.find? name = some p)
    (hproxy : (f p).proxy ≠ steemitProxyToSelfAccount →
      (voters.find? (f p).proxy).isSome ∧
        ∀ n, Pointers.climb (proxyOf voters) n (f p).proxy ≠ some name) :
    Forest (voters.modify name f hf) := by
  refine ⟨h.named.modify, ?_, ?_⟩
  . intro a ha hself
    have hfound : (voters.find? a.proxy).isSome := by
      rcases Table.mem_modify.mp ha with ⟨ha, -⟩ | ⟨b, hb, hname, rfl⟩
      . exact h.linked a ha hself
      . rw [← hname, Table.find?_of_mem hb] at hp
        injection hp with hp
        subst hp
        exact (hproxy hself).1
    rw [Table.find?_modify]
    split
    . rw [Option.isSome_map]
      exact hfound
    . exact hfound
  . intro n
    rw [proxyOf_modify_self hp]
    apply (h.ends n).update
    intro q hq
    split at hq
    . cases hq
    . next hself =>
      injection hq with hq
      rw [← hq]
      exact ⟨h.ends _, (hproxy hself).2⟩

end Forest

theorem Forest.adjustProxied {votes : Nat → Fin steemitMaxProxyRecursionDepth → ℤ}
    {total : Nat → Result ℤ} {left : Nat} (h : Forest db.voters)
    (hadjust : VoteDatabase.adjustProxied votes total left a db = .ok db') : Forest db'.voters :=
  h.of_links id (fun _ => rfl) (links_adjustProxied hadjust)

theorem Wired.of_sameTree (h : db.Wired) (hsame : SameTree db.voters db'.voters) : db'.Wired :=
  ⟨h.forest.of_links (fun x => (x.1, x.2.1)) (fun _ => rfl) hsame,
    hsame.proxied h.proxied⟩

/-- No account of the chain is reached from the new proxy. -/
theorem checkProxyChain_spec {left : Nat} {chain : List AccountName} {n : Nat} {x : AccountName}
    (hp : db.voters.find? p.name = some p) (hcheck : db.checkProxyChain left chain p = .ok ())
    (hx : Pointers.climb (proxyOf db.voters) n p.name = some x) : x = p.name ∨ x ∉ chain := by
  induction n generalizing left chain p with
  | zero =>
    injection hx with hx
    exact .inl hx.symm
  | succ n ih =>
    rw [Pointers.climb_succ, Option.bind_eq_some_iff] at hx
    obtain ⟨q, hq, hx⟩ := hx
    obtain ⟨_, hp', hself, rfl⟩ := proxyOf_eq_some.mp hq
    rw [hp] at hp'
    injection hp' with hp'
    subst hp'
    have hproxy : p.proxy ≠ "" := hself
    unfold checkProxyChain at hcheck
    rw [if_neg hproxy] at hcheck
    simp only [getVoter, bind_eq_ok, get_eq_ok, ensure_eq_ok] at hcheck
    obtain ⟨next, hnext, _, hnew, hcheck⟩ := hcheck
    have hname : next.name = p.proxy := Table.key_of_find? hnext
    cases left with
    | zero => cases hcheck
    | succ left =>
      rw [← hname] at hnext hx
      right
      rcases ih hnext hcheck hx with rfl | hx
      . exact hnew
      . exact fun h => hx (List.mem_cons_of_mem _ h)

theorem negate_eq_ok {delta delta' : VoteDelta} (h : delta.negate = .ok delta') :
    delta' = fun i => -delta i := by
  unfold VoteDelta.negate at h
  simp only [bind_eq_ok, pure_eq_ok] at h
  obtain ⟨_, -, h⟩ := h
  exact h.symm

/-- The votes of an account are taken back from its proxies. -/
theorem Wired.withdraw (h : db.Wired) (ha : db.voters.find? name = some a) {delta : VoteDelta}
    (hdelta : a.votes.negate = .ok delta)
    (hadjust : db.adjustProxiedWitnessVotes a delta = .ok db') :
    Proxied db'.voters name steemitProxyToSelfAccount 0 ∧ db'.voters.find? name = some a := by
  rw [← ha]
  apply adjustProxiedWitnessVotes_spec h.forest.named _ (h.forest.avoids ha) hadjust
  rw [negate_eq_ok hdelta]
  exact h.proxied.omit h.forest.named ha

/-- An account votes on its own again, or not at all. -/
theorem Wired.leave (hforest : Forest db.voters)
    (h : Proxied db.voters name steemitProxyToSelfAccount 0) (ha : db.voters.find? name = some a)
    {f : AccountObject → AccountObject} {hf : ∀ a, (f a).name = a.name}
    (hvotes : (f a).votes = a.votes) (hproxy : (f a).proxy = steemitProxyToSelfAccount) :
    (db.modifyVoter name f hf).Wired := by
  constructor
  . rw [voters_modifyVoter]
    exact hforest.modify ha fun hself => absurd hproxy hself
  . rw [voters_modifyVoter]
    have hentered : Proxied (db.voters.modify name f hf) steemitProxyToSelfAccount (f a).proxy _ :=
      h.enter hforest.named ha hvotes
    rw [hproxy] at hentered
    exact hentered.of_self hforest.named.modify

theorem sameTree_clearVotes (db : VoteDatabase) (name : AccountName) :
    SameTree db.voters (db.clearVotes name).voters := by
  unfold clearVotes
  dsimp only
  split
  . rw [voters_modifyVoter]
    exact .modify fun _ => rfl
  . rfl

theorem sameTree_countVote {change : Nat} :
    SameTree db.voters (db.countVote name change).voters := by
  unfold countVote
  rw [voters_modifyVoter]
  exact .modify fun _ => rfl

theorem sameTree_removeVote {witness : AccountName} :
    SameTree db.voters (db.removeVote name witness).voters :=
  sameTree_countVote

/-- What clearing the votes of an account leaves of it. -/
theorem find?_clearVotes (ha : db.voters.find? name = some a) :
    ∃ a', (db.clearVotes name).voters.find? name = some a' ∧ pose a' = pose a := by
  have hsame := (sameTree_clearVotes db name).find?_map name
  rw [ha] at hsame
  obtain ⟨a', ha', hpose⟩ := Option.map_eq_some_iff.mp hsame
  exact ⟨a', ha', hpose⟩

theorem ne_of_validate {o : AccountWitnessProxyOperation} {u : Unit} (h : o.validate = .ok u)
    (hsome : o.proxy ≠ "") : o.proxy ≠ o.account := by
  unfold AccountWitnessProxyOperation.validate at h
  rw [if_neg hsome] at h
  simp only [bind_eq_ok, ensure_eq_ok] at h
  obtain ⟨_, -, _, -, h⟩ := h
  exact h

theorem Wired.accountWitnessProxy {o : AccountWitnessProxyOperation} (h : db.Wired)
    (hop : db.accountWitnessProxy o = .ok db') : db'.Wired := by
  unfold VoteDatabase.accountWitnessProxy at hop
  simp only [bind_eq_ok, ensure_eq_ok, getVoter, get_eq_ok] at hop
  obtain ⟨_, hvalid, a, ha, _, -, _, -, delta, hdelta, db₁, hwithdraw, hop⟩ := hop
  obtain ⟨hproxied, ha₁⟩ := h.withdraw ha hdelta hwithdraw
  have hforest := h.forest.adjustProxied hwithdraw
  split at hop
  . next hnone =>
    injection hop with hop
    rw [← hop]
    exact .leave hforest hproxied ha₁ rfl hnone
  . next hsome =>
    simp only [bind_eq_ok, get_eq_ok, voters_modifyVoter, Table.find?_modify_self] at hop
    obtain ⟨p, hp, _, hcheck, a₂, ha₂, delta', hdelta', hadjust⟩ := hop
    obtain ⟨a', ha', hpose⟩ := find?_clearVotes ha₁
    rw [ha'] at ha₂
    injection ha₂ with ha₂
    subst ha₂
    have hvotes : a'.votes = a.votes := congrArg (·.2.2) hpose
    have hsame := sameTree_clearVotes db₁ o.account
    have hnamed := hsame.named hforest.named
    have hforest' : Forest ((db₁.clearVotes o.account).voters.modify o.account
        fun a => { a with proxy := o.proxy }) := by
      apply Forest.modify _ ha'
      . intro _
        have hname : p.name = o.proxy := Table.key_of_find? hp
        constructor
        . rw [← Option.isSome_map (f := pose), hsame.find?_map, Option.isSome_map, hp]
          rfl
        . intro n hn
          rw [hsame.proxyOf_eq] at hn
          have hclimb : Pointers.climb (proxyOf db₁.voters) n p.name = some o.account := hname ▸ hn
          rw [← hname] at hp
          rcases checkProxyChain_spec hp hcheck hclimb with hround | hround
          . exact ne_of_validate hvalid hsome (hname ▸ hround).symm
          . rw [Table.key_of_find? ha] at hround
            exact hround (List.mem_cons_of_mem _ List.mem_cons_self)
      . exact hforest.of_links (fun x => (x.1, x.2.1)) (fun _ => rfl) hsame
    have hwaiting : Proxied ((db₁.clearVotes o.account).voters.modify o.account
        fun a => { a with proxy := o.proxy }) steemitProxyToSelfAccount o.proxy _ :=
      (hsame.proxied hproxied).enter hnamed ha' rfl
    have hspec := adjustProxiedWitnessVotes_spec hforest'.named ?_ (.of_named hforest'.named) hadjust
    . exact ⟨hforest'.adjustProxied hadjust, hspec.1⟩
    . rw [negate_eq_ok hdelta', negate_eq_ok hdelta]
      simp only [Int.neg_neg, ← hvotes]
      exact hwaiting

/-- A loop each turn of which keeps the tree. -/
theorem sameTree_foldlM {γ : Type} {f : VoteDatabase → γ → Result VoteDatabase} {l : List γ}
    (hf : ∀ db db' x, f db x = .ok db' → SameTree db.voters db'.voters)
    (h : l.foldlM f db = .ok db') : SameTree db.voters db'.voters := by
  apply foldlM_invariant (P := fun s _ => SameTree db.voters s.voters) _ (.refl _) h
  intro s s' x l hs hx
  exact (hf s s' x hx).trans hs

theorem sameTree_clearIdleVote {v : WitnessVoteObject} (h : db.clearIdleVote v = .ok db') :
    SameTree db.voters db'.voters := by
  unfold clearIdleVote at h
  simp only [bind_eq_ok, pure_eq_ok] at h
  obtain ⟨_, -, _, -, db₁, hspread, rfl⟩ := h
  rw [← (Recounted.spreadWithout hspread).voters]
  exact sameTree_removeVote

theorem sameTree_checkWitnessIdleness {periodically : Bool}
    (h : db.checkWitnessIdleness periodically = .ok db') : SameTree db.voters db'.voters := by
  unfold checkWitnessIdleness at h
  split at h
  . injection h with h
    rw [h]
    rfl
  . apply sameTree_foldlM _ h
    intro db db' witness
    exact sameTree_foldlM fun _ _ _ => sameTree_clearIdleVote

theorem sameTree_retallyWitnessVoteCounts {force : Bool} :
    SameTree db.voters (db.retallyWitnessVoteCounts force).voters := by
  unfold retallyWitnessVoteCounts
  dsimp only
  exact .modifyWhere fun _ => rfl

theorem sameTree_accountWitnessVote {o : AccountWitnessVoteOperation}
    (h : db.accountWitnessVote o = .ok db') : SameTree db.voters db'.voters := by
  unfold accountWitnessVote at h
  simp only [bind_eq_ok, ensure_eq_ok] at h
  obtain ⟨_, -, voter, -, _, hself, _, -, _, -, w, -, h⟩ := h
  split at h
  . simp only [bind_eq_ok, pure_eq_ok] at h
    obtain ⟨_, -, db₁, happrove, rfl⟩ := h
    rw [← voters_approveWitness hself happrove]
    exact sameTree_countVote
  . simp only [bind_eq_ok, pure_eq_ok] at h
    obtain ⟨_, -, db₁, hreject, rfl⟩ := h
    rw [← voters_rejectWitness hself hreject]
    exact sameTree_removeVote

namespace Wired

theorem takeVotingRights {r : DeclineVotingRightsRequestObject} (h : db.Wired)
    (hop : db.takeVotingRights r = .ok db') : db'.Wired := by
  unfold VoteDatabase.takeVotingRights at hop
  simp only [bind_eq_ok, pure_eq_ok, getVoter, get_eq_ok] at hop
  obtain ⟨a, ha, delta, hdelta, db₁, hwithdraw, rfl⟩ := hop
  rw [← Table.key_of_find? ha] at ha
  obtain ⟨hproxied, ha₁⟩ := h.withdraw ha hdelta hwithdraw
  obtain ⟨a', ha', -⟩ := find?_clearVotes ha₁
  have hsame := sameTree_clearVotes db₁ a.name
  have hforest := (h.forest.adjustProxied hwithdraw).of_links
    (fun x => (x.1, x.2.1)) (fun _ => rfl) hsame
  have hleft : ((db₁.clearVotes a.name).modifyVoter a.name fun a =>
      { a with
        canVote := false
        proxy := steemitProxyToSelfAccount }).Wired :=
    .leave hforest (hsame.proxied hproxied) ha' rfl rfl
  exact ⟨hleft.forest, hleft.proxied⟩

theorem changeVesting {delta totalVestingShares : ℤ} (h : db.Wired)
    (hop : db.changeVesting name delta totalVestingShares = .ok db') : db'.Wired := by
  unfold VoteDatabase.changeVesting at hop
  simp only [bind_eq_ok, getVoter, get_eq_ok, voters_modifyVoter, Table.find?_modify_self] at hop
  obtain ⟨a, ha, vestingShares, hvesting, a', ha', hadjust⟩ := hop
  rw [ha] at ha'
  injection ha' with ha'
  obtain ⟨-, rfl⟩ := int64_eq_ok.mp hvesting
  subst ha'
  have hforest : Forest (db.voters.modify name fun b =>
      { b with vestingShares := a.vestingShares + delta }) := by
    apply h.forest.modify ha
    intro hself
    refine ⟨h.forest.linked a (Table.mem_of_find? ha) hself, ?_⟩
    intro n hn
    rw [h.forest.avoids ha n hn] at ha
    cases ha
  have hwaiting : Proxied (db.voters.modify name fun b =>
      { b with vestingShares := a.vestingShares + delta }) steemitProxyToSelfAccount a.proxy
      fun i => if i.val = 0 then delta else 0 := by
    apply Proxied.vest ha h.proxied h.forest.named rfl
    intro i
    cases i using Fin.cases with
    | zero => rfl
    | succ i =>
      rw [Fin.val_succ, if_neg (Nat.succ_ne_zero _), Int.add_zero]
      rfl
  have hspec :=
    adjustProxiedWitnessVotesBy_spec hforest.named hwaiting (.of_named hforest.named) hadjust
  exact ⟨hforest.adjustProxied hadjust, hspec⟩

theorem votes_scale (a : AccountObject) (magnitude : ℤ) (i : Fin (steemitMaxProxyRecursionDepth + 1)) :
    ({ a with
        vestingShares := a.vestingShares * magnitude
        proxiedVsfVotes := a.proxiedVsfVotes.map (· * magnitude) } : AccountObject).votes i =
      a.votes i * magnitude := by
  cases i using Fin.cases with
  | zero => rfl
  | succ i => exact get_map _ _ i

theorem performVestingShareSplit {magnitude : Nat} (h : db.Wired)
    (hop : db.performVestingShareSplit magnitude = .ok db') : db'.Wired := by
  unfold VoteDatabase.performVestingShareSplit at hop
  simp only [bind_eq_ok, pure_eq_ok] at hop
  obtain ⟨_, -, _, -, rfl⟩ := hop
  constructor
  . have hlink : ∀ a : AccountObject, id (a.name, a.proxy) = (a.name, a.proxy) := fun _ => rfl
    apply h.forest.of_links id hlink
    show List.map _ (List.map _ _) = _
    rw [List.map_map]
    rfl
  . intro a' ha' i
    dsimp only at ha'
    rw [Table.mem_modifyWhere] at ha'
    obtain ⟨a, ha, rfl⟩ := ha'
    have hsum := h.proxied a ha i
    rw [Pi.zero_apply, ite_self, Int.add_zero] at hsum ⊢
    show (a.proxiedVsfVotes.map (· * (magnitude : ℤ))).get i =
      (List.map _ (List.map _ _)).sum
    rw [get_map, hsum, Table.sum, ← List.sum_map_mul_right, List.map_map]
    congr 1
    apply List.map_congr_left
    intro b _
    rw [Function.comp_apply, if_pos rfl]
    unfold share
    rw [ite_mul, zero_mul]
    congr 1
    exact (votes_scale b magnitude i.castSucc).symm

theorem createAccount (h : db.Wired) (hop : db.createAccount name = .ok db') : db'.Wired := by
  unfold VoteDatabase.createAccount at hop
  simp only [bind_eq_ok, get_eq_ok, pure_eq_ok, Table.emplace_eq_some_iff] at hop
  obtain ⟨_, hvalid, voters, ⟨hnew, rfl⟩, rfl⟩ := hop
  have hname : name ≠ steemitProxyToSelfAccount := ne_empty_of_validateAccountName hvalid
  have hproxyOf : proxyOf (db.voters.insert { name := name } hnew) = proxyOf db.voters := by
    funext n
    unfold proxyOf
    rw [Table.find?_insert]
    split
    . next hn =>
      rw [← hn, hnew]
      rfl
    . rfl
  refine ⟨⟨?_, ?_, ?_⟩, ?_⟩
  . intro a ha
    rcases (Table.mem_insert hnew).mp ha with ha | rfl
    . exact h.forest.named a ha
    . exact hname
  . intro a ha hself
    rcases (Table.mem_insert hnew).mp ha with ha | rfl
    . rw [Table.find?_insert]
      split
      . rfl
      . exact h.forest.linked a ha hself
    . exact absurd rfl hself
  . rw [hproxyOf]
    exact h.forest.ends
  . have hothers : ∀ x i, (db.voters.insert { name := name } hnew).sum
        (share steemitProxyToSelfAccount x i) =
          db.voters.sum (share steemitProxyToSelfAccount x i) +
            share steemitProxyToSelfAccount x i { name := name } :=
      fun x i => Table.sum_insert _ _ hnew _
    intro a ha i
    rw [hothers, Pi.zero_apply, ite_self, Int.add_zero]
    rcases (Table.mem_insert hnew).mp ha with ha | rfl
    . have hsum := h.proxied a ha i
      rw [Pi.zero_apply, ite_self, Int.add_zero] at hsum
      have hapart : ¬(steemitProxyToSelfAccount = a.name ∧ name ≠ steemitProxyToSelfAccount) :=
        fun hself => h.forest.named a ha hself.1.symm
      rw [hsum, share, if_neg hapart, Int.add_zero]
    . -- nobody has a proxy that does not exist
      have hnobody : ∀ b ∈ db.voters.rows,
          share steemitProxyToSelfAccount name i.castSucc b = 0 := by
        intro b hb
        apply if_neg
        rintro ⟨rfl, -⟩
        have hlinked := h.forest.linked b hb hname
        rw [hnew] at hlinked
        cases hlinked
      have hapart : ¬(steemitProxyToSelfAccount = name ∧ name ≠ steemitProxyToSelfAccount) :=
        fun hself => hname hself.1.symm
      rw [get_replicate, Table.sum_congr _ hnobody, share, if_neg hapart]
      simp [Table.sum]

theorem applyHardfork {version : Nat} (h : db.Wired) (hop : db.applyHardfork version = .ok db') :
    db'.Wired := by
  unfold VoteDatabase.applyHardfork at hop
  simp only [bind_eq_ok, pure_eq_ok] at hop
  obtain ⟨db₁, hperform, rfl⟩ := hop
  suffices hwired : db₁.Wired from ⟨hwired.forest, hwired.proxied⟩
  unfold performHardfork at hperform
  split at hperform
  . exact h.performVestingShareSplit hperform
  . apply h.of_sameTree
    rw [voters_retallyWitnessVotes hperform]
    exact .refl _
  . apply h.of_sameTree
    rw [voters_retallyWitnessVotes hperform]
    exact .refl _
  . injection hperform with hperform
    rw [← hperform]
    exact h.of_sameTree sameTree_retallyWitnessVoteCounts
  . injection hperform with hperform
    rw [← hperform]
    exact h.of_sameTree sameTree_retallyWitnessVoteCounts
  . simp only [bind_eq_ok] at hperform
    obtain ⟨db₂, hretally, hcheck⟩ := hperform
    apply h.of_sameTree
    rw [← voters_retallyWitnessVotesHf22 hretally]
    exact sameTree_checkWitnessIdleness hcheck
  . simp only [bind_eq_ok, pure_eq_ok] at hperform
    obtain ⟨inner, -, rfl⟩ := hperform
    exact h.of_sameTree (.refl _)

end Wired

def Step (db : VoteDatabase) : VoteEvent → VoteDatabase → Prop
  | .accountWitnessProxy o, db' => db.accountWitnessProxy o = .ok db'
  | .accountWitnessVote o, db' => db.accountWitnessVote o = .ok db'
  | .declineVotingRights o, db' => db.declineVotingRights o = .ok db'
  | .processDeclineVotingRights, db' => db.processDeclineVotingRights = .ok db'
  | .checkWitnessIdleness, db' => db.checkWitnessIdleness true = .ok db'
  | .changeVesting name delta totalVestingShares, db' =>
    db.changeVesting name delta totalVestingShares = .ok db'
  | .createAccount name, db' => db.createAccount name = .ok db'
  | .applyHardfork version, db' => db.applyHardfork version = .ok db'
  | .witness e, db' =>
    e.IsOwn ∧ ∃ inner, db.toWitnessDatabase.Step e inner ∧
      db' = { db with toWitnessDatabase := inner }

/-- `init_genesis`, told the key of the initial witness and the accounts there are. -/
def initGenesis (initPublicKey : PublicKeyType) (voters : Table AccountObject.name) :
    VoteDatabase where
  toWitnessDatabase :=
    { WitnessDatabase.initGenesis initPublicKey (voters.rows.map AccountObject.name) with
      properties := { totalVestingShares := voters.sum AccountObject.vestingShares } }
  voters := voters

end VoteDatabase

def voteSystem : TransitionSystem VoteDatabase VoteEvent where
  initial db := ∃ initPublicKey voters, db = .initGenesis initPublicKey voters ∧
    ∀ a ∈ voters.rows, a.name ≠ steemitProxyToSelfAccount ∧
      a = { name := a.name, vestingShares := a.vestingShares }
  step := VoteDatabase.Step

namespace VoteDatabase

variable {db db' : VoteDatabase} {a : AccountObject}

theorem Wired.initial (h : voteSystem.initial db) : db.Wired := by
  obtain ⟨key, voters, rfl, hvoters⟩ := h
  have hself : ∀ a ∈ voters.rows, a.proxy = steemitProxyToSelfAccount := by
    intro a ha
    rw [(hvoters a ha).2]
  refine ⟨⟨fun a ha => (hvoters a ha).1, ?_, ?_⟩, ?_⟩
  . intro a ha hproxy
    exact absurd (hself a ha) hproxy
  . intro name
    refine ⟨1, ?_⟩
    rw [Pointers.climb_succ, proxyOf]
    cases hfind : voters.find? name with
    | none =>
      show ((voters.find? name).bind _).bind _ = none
      rw [hfind]
      rfl
    | some a =>
      show ((voters.find? name).bind _).bind _ = none
      rw [hfind, Option.bind_some, if_pos (hself a (Table.mem_of_find? hfind))]
      rfl
  . intro a ha i
    have hnobody : ∀ b ∈ voters.rows,
        share steemitProxyToSelfAccount a.name i.castSucc b = 0 := by
      intro b hb
      apply if_neg
      rintro ⟨hproxy, -⟩
      exact (hvoters a ha).1 (hproxy.symm.trans (hself b hb))
    rw [Pi.zero_apply, ite_self, Int.add_zero]
    show _ = voters.sum _
    rw [Table.sum_congr _ hnobody, (hvoters a ha).2]
    rw [get_replicate]
    simp [Table.sum]

theorem Wired.step {e : VoteEvent} (h : db.Wired) (hstep : db.Step e db') : db'.Wired := by
  cases e with
  | accountWitnessProxy o => exact h.accountWitnessProxy hstep
  | accountWitnessVote o => exact h.of_sameTree (sameTree_accountWitnessVote hstep)
  | declineVotingRights o =>
    simp only [Step, VoteDatabase.declineVotingRights, bind_eq_ok] at hstep
    obtain ⟨_, -, _, -, hstep⟩ := hstep
    split at hstep
    . simp only [bind_eq_ok, pure_eq_ok] at hstep
      obtain ⟨_, -, _, -, rfl⟩ := hstep
      exact h.of_sameTree (.refl _)
    . simp only [bind_eq_ok, pure_eq_ok] at hstep
      obtain ⟨_, -, rfl⟩ := hstep
      exact h.of_sameTree (.refl _)
  | processDeclineVotingRights =>
    apply foldlM_invariant (P := fun s _ => s.Wired) _ h hstep
    intro s s' r _ hs hr
    exact hs.takeVotingRights hr
  | checkWitnessIdleness => exact h.of_sameTree (sameTree_checkWitnessIdleness hstep)
  | changeVesting name delta total => exact h.changeVesting hstep
  | createAccount name => exact h.createAccount hstep
  | applyHardfork version => exact h.applyHardfork hstep
  | witness e =>
    obtain ⟨-, inner, -, rfl⟩ := hstep
    exact h.of_sameTree (.refl _)

theorem wired_of_reachable (h : voteSystem.Reachable db) : db.Wired :=
  h.invariant (fun _ => .initial) fun _ _ _ hwired _ hstep => hwired.step hstep

section delegated

/-- Two accounts come up and get vesting shares, and one of them is the proxy of the other. -/
def delegation : Result VoteDatabase := do
  let db ← (initGenesis 1 .empty).createAccount "alice"
  let db ← db.createAccount "bob"
  let db ← db.changeVesting "alice" 10 10
  let db ← db.changeVesting "bob" 5 15
  db.accountWitnessProxy ⟨"alice", "bob"⟩

def delegated : VoteDatabase :=
  delegation.toOption.getD {}

theorem reachable_delegated : voteSystem.Reachable delegated := by
  have hdelegation : delegation = .ok delegated := eq_ok_of_isSome (by decide +kernel)
  simp only [delegation, bind_eq_ok] at hdelegation
  obtain ⟨_, halice, _, hbob, _, hten, _, hfive, hproxy⟩ := hdelegation
  have hgenesis : voteSystem.Reachable (initGenesis 1 .empty) :=
    .initial ⟨1, .empty, rfl, List.forall_mem_nil _⟩
  have haccount : voteSystem.Reachable _ := .step (e := .createAccount _) hgenesis trivial halice
  have haccounts : voteSystem.Reachable _ := .step (e := .createAccount _) haccount trivial hbob
  have hvesting : voteSystem.Reachable _ := .step (e := .changeVesting _ _ _) haccounts trivial hten
  have hall : voteSystem.Reachable _ := .step (e := .changeVesting _ _ _) hvesting trivial hfive
  exact .step (e := .accountWitnessProxy _) hall trivial hproxy

def bob : AccountObject where
  name := "bob"
  vestingShares := 5
  proxiedVsfVotes := #v[10, 0, 0, 0]

def alice : AccountObject where
  name := "alice"
  proxy := "bob"
  vestingShares := 10

end delegated

section sums

theorem sum_eq_sum_names (voters : Table AccountObject.name) (f : AccountObject → ℤ) :
    voters.sum f = ∑ name ∈ (voters.rows.map AccountObject.name).toFinset,
      (voters.find? name).elim 0 f := by
  rw [List.sum_toFinset _ voters.nodup, List.map_map, Table.sum]
  congr 1
  apply List.map_congr_left
  intro a ha
  rw [Function.comp_apply, Table.find?_of_mem ha]
  rfl

/-- What an account counts at a level, by its name. -/
def levelVotes (voters : Table AccountObject.name) (i : Nat) (name : AccountName) : ℤ :=
  (voters.find? name).elim 0 fun a =>
    if h : i < steemitMaxProxyRecursionDepth + 1 then a.votes ⟨i, h⟩ else 0

def vestingOf (voters : Table AccountObject.name) (name : AccountName) : ℤ :=
  (voters.find? name).elim 0 AccountObject.vestingShares

section rows

variable {voters : Table AccountObject.name}

theorem levelVotes_of_mem (ha : a ∈ voters.rows) (i : Fin (steemitMaxProxyRecursionDepth + 1)) :
    levelVotes voters i a.name = a.votes i := by
  unfold levelVotes
  rw [Table.find?_of_mem ha, Option.elim_some, dif_pos i.isLt]

theorem sum_levelVotes_of_mem (ha : a ∈ voters.rows) :
    ∑ i ∈ Finset.range (steemitMaxProxyRecursionDepth + 1), levelVotes voters i a.name =
      ∑ i, a.votes i := by
  rw [Finset.sum_range]
  apply Finset.sum_congr rfl
  intro i _
  exact levelVotes_of_mem ha i

theorem vestingOf_of_mem (ha : a ∈ voters.rows) : vestingOf voters a.name = a.vestingShares := by
  unfold vestingOf
  rw [Table.find?_of_mem ha]
  rfl

theorem proxyOf_eq_none_of_mem (ha : a ∈ voters.rows) :
    proxyOf voters a.name = none ↔ a.proxy = steemitProxyToSelfAccount := by
  unfold proxyOf
  rw [Table.find?_of_mem ha, Option.bind_some]
  split
  . next hself => simp [hself]
  . next hself => simp [hself]

/-- To add up over the accounts is to add up over their names. -/
theorem sum_eq_sum_of_mem {f : AccountObject → ℤ} {g : AccountName → ℤ}
    (hfg : ∀ a ∈ voters.rows, f a = g a.name) :
    voters.sum f = ∑ name ∈ (voters.rows.map AccountObject.name).toFinset, g name := by
  rw [sum_eq_sum_names]
  apply Finset.sum_congr rfl
  intro n hn
  rw [List.mem_toFinset] at hn
  obtain ⟨a, ha, rfl⟩ := List.mem_map.mp hn
  rw [Table.find?_of_mem ha]
  exact hfg a ha

end rows

theorem Wired.tallied (h : db.Wired) :
    Pointers.Tallied (proxyOf db.voters) (db.voters.rows.map AccountObject.name).toFinset
      (vestingOf db.voters) steemitMaxProxyRecursionDepth (levelVotes db.voters) := by
  constructor
  . intro name _
    unfold levelVotes vestingOf
    cases db.voters.find? name with
    | none => rfl
    | some a => rfl
  . intro i hi name hname
    rw [List.mem_toFinset] at hname
    obtain ⟨a, ha, rfl⟩ := List.mem_map.mp hname
    have hlt : i < steemitMaxProxyRecursionDepth + 1 := by omega
    have hsum := h.proxied a ha ⟨i, hi⟩
    rw [Pi.zero_apply, ite_self, Int.add_zero, sum_eq_sum_names] at hsum
    have hlevel : levelVotes db.voters (i + 1) a.name = a.proxiedVsfVotes.get ⟨i, hi⟩ := by
      unfold levelVotes
      rw [Table.find?_of_mem ha, Option.elim_some, dif_pos (Nat.succ_lt_succ hi)]
      rfl
    rw [hlevel, hsum, Finset.sum_filter]
    apply Finset.sum_congr rfl
    intro n hn
    rw [List.mem_toFinset] at hn
    obtain ⟨b, hb, rfl⟩ := List.mem_map.mp hn
    have hproxy : proxyOf db.voters b.name = some a.name ↔
        b.proxy = a.name ∧ b.name ≠ steemitProxyToSelfAccount := by
      rw [proxyOf_eq_some]
      constructor
      . rintro ⟨b', hb', -, hname⟩
        rw [Table.find?_of_mem hb] at hb'
        injection hb' with hb'
        subst hb'
        exact ⟨hname, h.forest.named b hb⟩
      . rintro ⟨hname, -⟩
        exact ⟨b, Table.find?_of_mem hb, hname ▸ h.forest.named a ha, hname⟩
    simp only [hproxy]
    unfold levelVotes share
    rw [Table.find?_of_mem hb, Option.elim_some, Option.elim_some, dif_pos hlt]
    rfl

theorem Forest.closed {voters : Table AccountObject.name} (h : Forest voters) :
    ∀ y ∈ (voters.rows.map AccountObject.name).toFinset, ∀ x, proxyOf voters y = some x →
      x ∈ (voters.rows.map AccountObject.name).toFinset := by
  intro y _ x hx
  obtain ⟨b, hb, hself, rfl⟩ := proxyOf_eq_some.mp hx
  have hlinked := h.linked b (Table.mem_of_find? hb) hself
  obtain ⟨p, hp⟩ := Option.isSome_iff_exists.mp hlinked
  rw [List.mem_toFinset, ← Table.key_of_find? hp]
  exact List.mem_map_of_mem (Table.mem_of_find? hp)

/--
An account votes with its own vesting shares, and at every level with those of the accounts that it is
the proxy of through so many others.
-/
theorem votes_of_reachable (h : voteSystem.Reachable db) (ha : a ∈ db.voters.rows)
    (i : Fin (steemitMaxProxyRecursionDepth + 1)) :
    a.votes i = db.voters.sum fun b =>
      if Pointers.climb (proxyOf db.voters) i b.name = some a.name then b.vestingShares else 0 := by
  have hwired := wired_of_reachable h
  rw [← levelVotes_of_mem ha, hwired.tallied.eq_sum hwired.forest.closed (Nat.le_of_lt_succ i.isLt),
    Finset.sum_filter]
  . symm
    apply sum_eq_sum_of_mem
    intro b hb
    rw [vestingOf_of_mem hb]
  . rw [List.mem_toFinset]
    exact List.mem_map_of_mem ha

theorem votes_delegated : bob.votes 1 = delegated.voters.sum fun b =>
    if Pointers.climb (proxyOf delegated.voters) 1 b.name = some "bob" then b.vestingShares else 0 :=
  votes_of_reachable reachable_delegated (by decide +kernel) 1

example : bob.votes 1 = 10 := by decide

/-- What checked additions come to, if none of them overflows. -/
theorem eq_sum_of_foldlM {α : Type} {f : α → Result ℤ} {g : α → ℤ}
    (hfg : ∀ a x, f a = .ok x → x = g a) {l : List α} {start total : ℤ}
    (h : l.foldlM (fun sum a => do
      let x ← f a
      int64 (sum + x) ChainException.overflowException) start = .ok total) :
    total = start + (l.map g).sum := by
  induction l generalizing start with
  | nil =>
    injection h with h
    rw [List.map_nil, List.sum_nil, Int.add_zero, h]
  | cons a l ih =>
    simp only [List.foldlM_cons, bind_eq_ok] at h
    obtain ⟨next, ⟨x, hx, hnext⟩, h⟩ := h
    rw [ih h, ← (int64_eq_ok.mp hnext).2, hfg a x hx, List.map_cons, List.sum_cons, Int.add_assoc]

theorem eq_sum_of_witnessVoteWeight {w : ℤ} (h : a.witnessVoteWeight = .ok w) :
    w = ∑ i, a.votes i := by
  have hsum := eq_sum_of_foldlM (f := pure) (g := id) (fun _ _ hx => (pure_eq_ok.mp hx).symm) h
  rw [hsum, List.map_id, Fin.sum_univ_succ]
  show a.vestingShares + _ = a.vestingShares + ∑ i, a.proxiedVsfVotes.get i
  congr 1
  rw [← List.sum_ofFn, toList_eq_ofFn]

/-- What the accounts vote with, as it is added up to be compared with their vesting shares. -/
theorem totalVsfVotes_of_reachable (h : voteSystem.Reachable db) {total : ℤ}
    (htotal : db.totalVsfVotes = .ok total) :
    total = db.voters.sum AccountObject.vestingShares := by
  have hwired := wired_of_reachable h
  have hadded : total = db.voters.sum fun a =>
      if a.proxy = steemitProxyToSelfAccount then ∑ i, a.votes i
        else a.proxiedVsfVotes.get (Fin.last _) := by
    rw [← Int.zero_add (db.voters.sum _)]
    refine eq_sum_of_foldlM ?_ htotal
    intro a votes hvotes
    split
    . next hself =>
      rw [if_pos hself] at hvotes
      exact eq_sum_of_witnessVoteWeight hvotes
    . next hself =>
      rw [if_neg hself, pure_eq_ok] at hvotes
      exact hvotes.symm
  rw [hadded, sum_eq_sum_of_mem, hwired.tallied.sum_all hwired.forest.closed, ← sum_eq_sum_of_mem]
  . intro b hb
    exact (vestingOf_of_mem hb).symm
  . intro b hb
    simp only [proxyOf_eq_none_of_mem hb]
    split
    . exact (sum_levelVotes_of_mem hb).symm
    . exact (levelVotes_of_mem hb (Fin.last _)).symm

theorem totalVsfVotes_delegated : 15 = delegated.voters.sum AccountObject.vestingShares :=
  totalVsfVotes_of_reachable reachable_delegated (by decide +kernel)

/-- The proxies of an account lead through different accounts, and to an end. -/
theorem ends_of_reachable (h : voteSystem.Reachable db) (ha : a ∈ db.voters.rows) :
    ∃ n, Pointers.climb (proxyOf db.voters) n a.name = none ∧
      ∀ m < n, ∃ b ∈ db.voters.rows, Pointers.climb (proxyOf db.voters) m a.name = some b.name ∧
        ∀ k < m, Pointers.climb (proxyOf db.voters) k a.name ≠ some b.name := by
  have hforest := (wired_of_reachable h).forest
  have hends := hforest.ends a.name
  refine ⟨Nat.find hends, Nat.find_spec hends, ?_⟩
  intro m hm
  obtain ⟨x, hx⟩ := Option.ne_none_iff_exists'.mp (Nat.find_min hends hm)
  have hmem := Pointers.climb_mem hforest.closed
    (List.mem_toFinset.mpr (List.mem_map_of_mem ha)) hx
  obtain ⟨b, hb, rfl⟩ := List.mem_map.mp (List.mem_toFinset.mp hmem)
  refine ⟨b, hb, hx, ?_⟩
  intro k hk hround
  obtain ⟨d, rfl⟩ := Nat.exists_eq_add_of_le (Nat.le_of_lt hk)
  rw [Pointers.climb_add, hround, Option.bind_some] at hx
  have hd := (hforest.ends b.name).eq_zero hx
  omega

theorem ends_delegated : ∃ n, Pointers.climb (proxyOf delegated.voters) n "alice" = none ∧
    ∀ m < n, ∃ b ∈ delegated.voters.rows,
      Pointers.climb (proxyOf delegated.voters) m "alice" = some b.name ∧
        ∀ k < m, Pointers.climb (proxyOf delegated.voters) k "alice" ≠ some b.name :=
  ends_of_reachable (a := alice) reachable_delegated (by decide +kernel)

end sums

end VoteDatabase

end Golos.Witness
