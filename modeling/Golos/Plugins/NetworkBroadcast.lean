import Mathlib.Data.List.Basic
import Golos.Plugins.Impl.NetworkBroadcast
import Mathlib.Data.List.TakeWhile

/-!
This module contains when every request that waits for its transaction is answered once, with what the
blocks that were applied since then say about it.
-/

namespace Golos

namespace NetworkBroadcast

variable {Id : Type} [DecidableEq Id] {expirationOf : Id → Nat}

section outcome

/-- What a block says about a transaction. -/
def verdict (expirationOf : Id → Nat) (id : Id) (b : SignedBlock Id) : Option Response :=
  if id ∈ b.transactions then
    some (.result b.blockNum (b.transactions.idxOf id) false)
  else if expirationOf id < b.timestamp then
    some (.result b.blockNum (-1) true)
  else
    none

/-- What the first of the blocks that says something says. -/
def outcome (expirationOf : Id → Nat) (id : Id) (blocks : List (SignedBlock Id)) : Option Response :=
  blocks.findSome? (verdict expirationOf id)

/-- What the blocks since the request say about it. -/
def Broadcast.due (expirationOf : Id → Nat) (s : Broadcast Id) (r : Request Id) : Option Response :=
  outcome expirationOf r.trx (s.applied.drop r.stored)

/-- Every request has the one response it should have by now, and nothing is stored for too long. -/
structure Answered (expirationOf : Id → Nat) (s : Broadcast Id) : Prop where
  responses : ∀ n r, s.requests n = some r →
    r.responses = if r.phase = .refused then [.error] else (s.due expirationOf r).toList
  stored : ∀ id n, s.callbacks id = some n → ∃ r, s.requests n = some r ∧ r.trx = id ∧
    ∀ b ∈ s.applied.drop r.stored, b.timestamp ≤ expirationOf id
  blocked : s.blocked = false

/-- What a step of the run has to meet. -/
def Orderly (expirationOf : Id → Nat) (s : Broadcast Id) : Broadcast.Event Id → Prop
  /- No other request for the transaction waits for an answer. -/
  | .request trx _ => ∀ n r, s.requests n = some r → r.trx = trx → r.responses ≠ []
  /- The request has not been answered by a block already. -/
  | .refused n => ∀ r, s.requests n = some r → r.responses = []
  /- No request is answered with another synchronous one in the rest of its batch. -/
  | .applied b => b.blockNum < 2 ^ 31 ∧ b.transactions.length ≤ 2 ^ 31 ∧
    ∀ n r, s.requests n = some r → r.responses = [] → (verdict expirationOf r.trx b).isSome →
      Call.synchronous ∉ r.rest
  | _ => True

end outcome

section expirations

variable {time : Nat} {id : Id} {l : List (Nat × List Id)}

/-- The times are in order, and each transaction is stored at the time it expires at. -/
structure Queued (expirationOf : Id → Nat) (l : List (Nat × List Id)) : Prop where
  sorted : l.Pairwise fun e e' => e.1 < e'.1
  times : ∀ e ∈ l, ∀ id ∈ e.2, expirationOf id = e.1

omit [DecidableEq Id] in
theorem mem_pushBack {e : Nat × List Id} (h : e ∈ pushBack time id l) :
    e.1 = time ∨ ∃ e' ∈ l, e'.1 = e.1 := by
  induction l with
  | nil =>
    rw [pushBack, List.mem_singleton] at h
    rw [h]
    exact .inl rfl
  | cons entry rest ih =>
    obtain ⟨time', ids⟩ := entry
    unfold pushBack at h
    split at h
    . rcases List.mem_cons.mp h with rfl | h
      . exact .inl rfl
      . exact .inr ⟨e, h, rfl⟩
    . split at h
      . next heq =>
        rcases List.mem_cons.mp h with rfl | h
        . exact .inl heq.symm
        . exact .inr ⟨e, List.mem_cons_of_mem _ h, rfl⟩
      . rcases List.mem_cons.mp h with rfl | h
        . exact .inr ⟨_, List.mem_cons_self, rfl⟩
        . rcases ih h with h | ⟨e', he', h⟩
          . exact .inl h
          . exact .inr ⟨e', List.mem_cons_of_mem _ he', h⟩

omit [DecidableEq Id] in
theorem Queued.pushBack (h : Queued expirationOf l) (id : Id) :
    Queued expirationOf (pushBack (expirationOf id) id l) := by
  induction l with
  | nil =>
    constructor
    . exact List.pairwise_singleton _ _
    . intro e he id' hid'
      rw [NetworkBroadcast.pushBack, List.mem_singleton] at he
      subst he
      rw [List.mem_singleton.mp hid']
  | cons entry rest ih =>
    obtain ⟨time', ids⟩ := entry
    obtain ⟨hhead, hrest⟩ := List.pairwise_cons.mp h.sorted
    have ih := ih ⟨hrest, fun e he => h.times e (List.mem_cons_of_mem _ he)⟩
    unfold NetworkBroadcast.pushBack
    split
    . next hlt =>
      constructor
      . refine List.pairwise_cons.mpr ⟨?_, h.sorted⟩
        intro e he
        rcases List.mem_cons.mp he with rfl | he
        . exact hlt
        . exact Nat.lt_trans hlt (hhead e he)
      . intro e he
        rcases List.mem_cons.mp he with rfl | he
        . intro id' hid'
          rw [List.mem_singleton.mp hid']
        . exact h.times e he
    . split
      . next heq =>
        constructor
        . exact List.pairwise_cons.mpr ⟨hhead, hrest⟩
        . intro e he
          rcases List.mem_cons.mp he with rfl | he
          . intro id' hid'
            rcases List.mem_append.mp hid' with hid' | hid'
            . exact h.times (time', ids) List.mem_cons_self id' hid'
            . rw [List.mem_singleton.mp hid']
              exact heq
          . exact h.times e (List.mem_cons_of_mem _ he)
      . constructor
        . refine List.pairwise_cons.mpr ⟨?_, ih.sorted⟩
          intro e he
          rcases mem_pushBack he with htime | ⟨e', he', heq⟩
          . dsimp only
            omega
          . rw [← heq]
            exact hhead e' he'
        . intro e he
          rcases List.mem_cons.mp he with rfl | he
          . exact h.times _ List.mem_cons_self
          . exact ih.times e he

/-- The transaction is stored at some time. -/
def Stored (id : Id) (l : List (Nat × List Id)) : Prop :=
  ∃ e ∈ l, id ∈ e.2

omit [DecidableEq Id] in
theorem stored_pushBack {id' : Id} (h : id' = id ∨ Stored id' l) : Stored id' (pushBack time id l) := by
  induction l with
  | nil =>
    rcases h with rfl | ⟨e, he, -⟩
    . exact ⟨(time, [id']), List.mem_singleton_self _, List.mem_singleton_self _⟩
    . cases he
  | cons entry rest ih =>
    obtain ⟨time', ids⟩ := entry
    unfold pushBack
    split
    . rcases h with rfl | ⟨e, he, hid⟩
      . exact ⟨_, List.mem_cons_self, List.mem_singleton_self _⟩
      . exact ⟨e, List.mem_cons_of_mem _ he, hid⟩
    . split
      . rcases h with rfl | ⟨e, he, hid⟩
        . exact ⟨_, List.mem_cons_self, List.mem_append_right _ (List.mem_singleton_self _)⟩
        . rcases List.mem_cons.mp he with rfl | he
          . exact ⟨_, List.mem_cons_self, List.mem_append_left _ hid⟩
          . exact ⟨e, List.mem_cons_of_mem _ he, hid⟩
      . have hrest (h : id' = id ∨ Stored id' rest) :
            Stored id' ((time', ids) :: pushBack time id rest) := by
          obtain ⟨e, he, hid⟩ := ih h
          exact ⟨e, List.mem_cons_of_mem _ he, hid⟩
        rcases h with h | ⟨e, he, hid⟩
        . exact hrest (.inl h)
        . rcases List.mem_cons.mp he with rfl | he
          . exact ⟨_, List.mem_cons_self, hid⟩
          . exact hrest (.inr ⟨e, he, hid⟩)

end expirations

namespace Broadcast

section callBackAll

variable {s s' : Broadcast Id} {l l' : List (Id × Response)}

/-- What becomes of a request when callbacks are called. -/
def respond (s : Broadcast Id) (l : List (Id × Response)) (n : Nat) (r : Request Id) : Request Id :=
  match l.lookup r.trx with
  | none => r
  | some response =>
    if s.callbacks r.trx = some n ∧ r.valid then
      { r with responses := r.responses ++ [response] }
    else
      r

structure CalledBack (l : List (Id × Response)) (s s' : Broadcast Id) : Prop where
  blocked : s'.blocked = false
  applied : s'.applied = s.applied
  nextRequest : s'.nextRequest = s.nextRequest
  callbacks : ∀ id, s'.callbacks id = if (l.lookup id).isSome then none else s.callbacks id
  requests : ∀ n, s'.requests n = (s.requests n).map (respond s l n)

/-- No callback that is called has to run another synchronous request. -/
structure Quiet (l : List (Id × Response)) (s : Broadcast Id) : Prop where
  blocked : s.blocked = false
  owned : ∀ id n, s.callbacks id = some n → ∃ r, s.requests n = some r ∧ r.trx = id
  rest : ∀ id n r, s.callbacks id = some n → s.requests n = some r → r.valid →
    (l.lookup id).isSome → Call.synchronous ∉ r.rest

omit [DecidableEq Id] in
theorem answer_eq {n : Nat} {r : Request Id} {response : Response} (hr : s.requests n = some r)
    (hblocked : s.blocked = false) (hrest : r.valid → Call.synchronous ∉ r.rest) :
    s.answer n response = { s with
      requests := Function.update s.requests n
        (some (if r.valid then { r with responses := r.responses ++ [response] } else r)) } := by
  unfold answer modifyRequest
  rw [hr]
  dsimp only
  split
  . next hvalid =>
    rw [hblocked, decide_eq_false (hrest hvalid)]
    rfl
  . have hsame : Function.update s.requests n (some r) = s.requests := by
      rw [← hr, Function.update_eq_self]
    rw [hsame]

theorem respond_eq_self {n : Nat} {r : Request Id} (h : s.callbacks r.trx ≠ some n) :
    respond s l n r = r := by
  unfold respond
  split
  . rfl
  . rw [if_neg fun h' => h h'.1]

theorem lookup_cons_of_ne {id id' : Id} {response : Response} (hne : id' ≠ id) :
    ((id, response) :: l).lookup id' = l.lookup id' := by
  rw [List.lookup_cons, beq_false_of_ne hne]

theorem lookup_cons_self (id : Id) (response : Response) :
    ((id, response) :: l).lookup id = some response := by
  rw [List.lookup_cons, beq_self_eq_true]

theorem calledBack_callBackAll (h : Quiet l s) : CalledBack l s (callBackAll l s) := by
  induction l generalizing s with
  | nil =>
    refine ⟨h.blocked, rfl, rfl, fun _ => rfl, ?_⟩
    intro n
    unfold callBackAll respond
    cases s.requests n with
    | none => rfl
    | some r => rfl
  | cons entry l ih =>
    obtain ⟨id, response⟩ := entry
    unfold callBackAll
    cases hcallback : s.callbacks id with
    | none =>
      have hquiet : Quiet l s := by
        refine ⟨h.blocked, h.owned, ?_⟩
        intro id' n r hid' hr hvalid hsome
        apply h.rest id' n r hid' hr hvalid
        by_cases heq : id' = id
        . rw [heq, hcallback] at hid'
          cases hid'
        . rw [lookup_cons_of_ne heq]
          exact hsome
      obtain ⟨hblocked, happlied, hnext, hcallbacks, hrequests⟩ := ih hquiet
      refine ⟨hblocked, happlied, hnext, ?_, ?_⟩
      . intro id'
        dsimp only
        rw [hcallbacks]
        by_cases heq : id' = id
        . rw [heq, lookup_cons_self, hcallback, ite_self]
          rfl
        . rw [lookup_cons_of_ne heq]
      . intro n
        dsimp only
        rw [hrequests]
        cases s.requests n with
        | none => rfl
        | some r =>
          rw [Option.map_some, Option.map_some]
          congr 1
          by_cases heq : r.trx = id
          . have hne : s.callbacks r.trx ≠ some n := by
              rw [heq, hcallback]
              simp only [ne_eq, reduceCtorEq, not_false_eq_true]
            rw [respond_eq_self hne, respond_eq_self hne]
          . unfold respond
            rw [lookup_cons_of_ne heq]
    | some n₀ =>
      obtain ⟨r₀, hr₀, htrx⟩ := h.owned id n₀ hcallback
      have hrest : r₀.valid → Call.synchronous ∉ r₀.rest := by
        intro hvalid
        apply h.rest id n₀ r₀ hcallback hr₀ hvalid
        rw [lookup_cons_self]
        rfl
      have hanswer : s.answer n₀ response = _ := answer_eq hr₀ h.blocked hrest
      generalize hr₁ : (if r₀.valid then { r₀ with responses := r₀.responses ++ [response] } else r₀)
        = r₁ at hanswer
      have htrx₁ : r₁.trx = id := by
        rw [← hr₁, ← htrx]
        split
        . rfl
        . rfl
      dsimp only
      rw [hanswer, if_neg (by rw [h.blocked]; exact Bool.false_ne_true)]
      -- No other request has the callback of this transaction.
      have hother {id' : Id} {n : Nat} (hid' : s.callbacks id' = some n) (hne : id' ≠ id) :
          n ≠ n₀ := by
        rintro rfl
        obtain ⟨r, hr, htrx'⟩ := h.owned id' n hid'
        rw [hr₀] at hr
        cases hr
        exact hne (htrx'.symm.trans htrx)
      have hkept {id' : Id} {n : Nat}
          (hid' : Function.update s.callbacks id none id' = some n) :
          id' ≠ id ∧ s.callbacks id' = some n := by
        by_cases heq : id' = id
        . rw [heq, Function.update_self] at hid'
          cases hid'
        . rw [Function.update_of_ne heq] at hid'
          exact ⟨heq, hid'⟩
      have hquiet : Quiet l
          ({ s with requests := Function.update s.requests n₀ (some r₁) }.erase id) := by
        refine ⟨h.blocked, ?_, ?_⟩
        . intro id' n hid'
          obtain ⟨hne, hid'⟩ := hkept hid'
          obtain ⟨r, hr, htrx'⟩ := h.owned id' n hid'
          refine ⟨r, ?_, htrx'⟩
          rw [← hr]
          exact Function.update_of_ne (hother hid' hne) _ _
        . intro id' n r hid' hr hvalid hsome
          obtain ⟨hne, hid'⟩ := hkept hid'
          have hr' : s.requests n = some r := by
            rw [← hr]
            exact (Function.update_of_ne (hother hid' hne) _ _).symm
          apply h.rest id' n r hid' hr' hvalid
          rw [lookup_cons_of_ne hne]
          exact hsome
      obtain ⟨hblocked, happlied, hnext, hcallbacks, hrequests⟩ := ih hquiet
      refine ⟨hblocked, happlied, hnext, ?_, ?_⟩
      . intro id'
        rw [hcallbacks]
        by_cases heq : id' = id
        . rw [heq, lookup_cons_self]
          simp only [erase, Function.update_self, ite_self, Option.isSome_some, if_true]
        . rw [lookup_cons_of_ne heq]
          simp only [erase, Function.update_of_ne heq]
      . intro n
        rw [hrequests]
        by_cases hn : n = n₀
        . subst hn
          simp only [erase, Function.update_self, hr₀, Option.map_some]
          rw [respond_eq_self (by simp only [htrx₁, Function.update_self, ne_eq, reduceCtorEq,
            not_false_eq_true])]
          unfold respond
          subst htrx
          rw [lookup_cons_self, ← hr₁]
          simp only [hcallback, true_and]
        . simp only [erase, Function.update_of_ne hn]
          cases hr : s.requests n with
          | none => rfl
          | some r =>
            rw [Option.map_some, Option.map_some]
            congr 1
            by_cases heq : r.trx = id
            . rw [respond_eq_self, respond_eq_self]
              . rw [heq, hcallback]
                intro hsame
                exact hn (Option.some.inj hsame).symm
              . simp only [heq, Function.update_self, ne_eq, reduceCtorEq, not_false_eq_true]
            . unfold respond
              simp only [lookup_cons_of_ne heq, Function.update_of_ne heq]

theorem expirations_callBackAll (l : List (Id × Response)) (s : Broadcast Id) :
    (callBackAll l s).expirations = s.expirations := by
  have hanswer (s : Broadcast Id) (n : Nat) (response : Response) :
      (s.answer n response).expirations = s.expirations := by
    unfold answer
    split
    . rfl
    . split
      . rfl
      . rfl
  induction l generalizing s with
  | nil => rfl
  | cons entry l ih =>
    rw [callBackAll]
    split
    . exact ih s
    . split
      . exact hanswer s _ _
      . exact (ih _).trans (hanswer s _ _)

theorem callBackAll_append (hblocked : s.blocked = false) :
    callBackAll (l ++ l') s =
      if (callBackAll l s).blocked then callBackAll l s else callBackAll l' (callBackAll l s) := by
  induction l generalizing s with
  | nil =>
    rw [List.nil_append, callBackAll, if_neg (by rw [hblocked]; exact Bool.false_ne_true)]
  | cons entry l ih =>
    rw [List.cons_append, callBackAll, callBackAll]
    cases s.callbacks entry.1 with
    | none => exact ih hblocked
    | some n =>
      dsimp only
      split
      . rfl
      . next hanswer => exact ih (Bool.eq_false_iff.mpr hanswer)

end callBackAll

section block

variable {s s' : Broadcast Id} {b : SignedBlock Id}

/-- The responses to the transactions that have expired. -/
def expired (b : SignedBlock Id) (l : List (Nat × List Id)) : List (Id × Response) :=
  (l.takeWhile fun e => e.1 < b.timestamp).flatMap fun e =>
    e.2.map fun id => (id, .result (int32 b.blockNum) (-1) true)

theorem clearExpirations_eq (l : List (Nat × List Id)) (hblocked : s.blocked = false) :
    clearExpirations b l s =
      if (callBackAll (expired b l) s).blocked then
        callBackAll (expired b l) s
      else
        { callBackAll (expired b l) s with
          expirations := l.dropWhile fun e => e.1 < b.timestamp } := by
  have hfalse {s : Broadcast Id} (h : s.blocked = false) : ¬s.blocked = true := by
    rw [h]
    exact Bool.false_ne_true
  induction l generalizing s with
  | nil =>
    unfold clearExpirations expired
    rw [List.takeWhile_nil, List.flatMap_nil, callBackAll, if_neg (hfalse hblocked)]
    rfl
  | cons e l ih =>
    obtain ⟨time, ids⟩ := e
    unfold clearExpirations
    split
    . next hle =>
      have hnot : ¬time < b.timestamp := by omega
      unfold expired
      rw [List.takeWhile_cons_of_neg (by simpa using hle), List.flatMap_nil, callBackAll,
        if_neg (hfalse hblocked), List.dropWhile_cons_of_neg (by simpa using hle)]
    . next hlt =>
      have hlt : time < b.timestamp := by omega
      have hcons : expired b ((time, ids) :: l) =
          (ids.map fun id => (id, .result (int32 b.blockNum) (-1) true)) ++ expired b l := by
        unfold expired
        rw [List.takeWhile_cons_of_pos (by simpa using hlt), List.flatMap_cons]
      rw [hcons, callBackAll_append hblocked, List.dropWhile_cons_of_pos (by simpa using hlt)]
      dsimp only
      split
      . rfl
      . next hblocked₁ => exact ih (Bool.eq_false_iff.mpr hblocked₁)

theorem lookup_confirmations (blockNum : Nat) (id : Id) (ids : List Id) (trxNum : Nat) :
    (confirmations blockNum ids trxNum).lookup id =
      if id ∈ ids then
        some (.result (int32 blockNum) (int32 (trxNum + ids.idxOf id)) false)
      else
        none := by
  induction ids generalizing trxNum with
  | nil => rfl
  | cons id' ids ih =>
    unfold confirmations
    by_cases heq : id = id'
    . subst heq
      rw [lookup_cons_self, if_pos List.mem_cons_self, List.idxOf_cons_self, Nat.add_zero]
    . rw [lookup_cons_of_ne heq, ih, List.idxOf_cons_ne _ (Ne.symm heq)]
      simp only [List.mem_cons, heq, false_or, Nat.succ_eq_add_one]
      rw [Nat.add_assoc, Nat.add_comm 1]

theorem lookup_expired {l : List (Nat × List Id)} (hqueued : Queued expirationOf l) {id : Id}
    (hstored : Stored id l) :
    (expired b l).lookup id =
      if expirationOf id < b.timestamp then
        some (.result (int32 b.blockNum) (-1) true)
      else
        none := by
  induction l with
  | nil =>
    obtain ⟨e, he, -⟩ := hstored
    cases he
  | cons entry l ih =>
    obtain ⟨time, ids⟩ := entry
    obtain ⟨hhead, hrest⟩ := List.pairwise_cons.mp hqueued.sorted
    have hqueued' : Queued expirationOf l :=
      ⟨hrest, fun e he => hqueued.times e (List.mem_cons_of_mem _ he)⟩
    by_cases hlt : time < b.timestamp
    . have hcons : expired b ((time, ids) :: l) =
          (ids.map fun id => (id, .result (int32 b.blockNum) (-1) true)) ++ expired b l := by
        unfold expired
        rw [List.takeWhile_cons_of_pos (by simpa using hlt), List.flatMap_cons]
      rw [hcons, List.lookup_append]
      by_cases hid : id ∈ ids
      . have htime := hqueued.times _ List.mem_cons_self id hid
        dsimp only at htime
        have hfound (ids : List Id) (hid : id ∈ ids) :
            (ids.map fun id => (id, Response.result (int32 b.blockNum) (-1) true)).lookup id =
              some (.result (int32 b.blockNum) (-1) true) := by
          induction ids with
          | nil => cases hid
          | cons id' ids ih =>
            rw [List.map_cons]
            by_cases heq : id = id'
            . rw [heq, lookup_cons_self]
            . rw [lookup_cons_of_ne heq]
              exact ih ((List.mem_cons.mp hid).resolve_left heq)
        rw [hfound ids hid, htime, if_pos hlt]
        rfl
      . have hmissing : (ids.map fun id => (id, Response.result (int32 b.blockNum) (-1) true)).lookup id =
            none := by
          rw [List.lookup_eq_none_iff]
          intro x hx
          obtain ⟨id', hid', rfl⟩ := List.mem_map.mp hx
          apply bne_iff_ne.mpr
          rintro rfl
          exact hid hid'
        have hstored' : Stored id l := by
          obtain ⟨e, he, hide⟩ := hstored
          rcases List.mem_cons.mp he with rfl | he
          . exact absurd hide hid
          . exact ⟨e, he, hide⟩
        rw [hmissing, Option.none_or, ih hqueued' hstored']
    . have hnil : expired b ((time, ids) :: l) = [] := by
        unfold expired
        rw [List.takeWhile_cons_of_neg (by simpa using hlt), List.flatMap_nil]
      have hle : ¬expirationOf id < b.timestamp := by
        obtain ⟨e, he, hide⟩ := hstored
        rw [hqueued.times e he id hide]
        rcases List.mem_cons.mp he with rfl | he
        . exact hlt
        . have := hhead e he
          dsimp only at this
          omega
      rw [hnil, if_neg hle]
      rfl

end block

section invariant

variable {s s' : Broadcast Id} {b : SignedBlock Id}

/-- What every orderly step keeps of a request. -/
structure Kept (expirationOf : Id → Nat) (s : Broadcast Id) (n : Nat) (r : Request Id) : Prop where
  lt : n < s.nextRequest
  stored_le : r.stored ≤ s.applied.length
  valid : r.valid ↔ r.phase ≠ .refused
  responses : r.responses =
    if r.phase = .refused then [.error] else (s.due expirationOf r).toList
  callback : r.phase ≠ .refused → s.due expirationOf r = none → s.callbacks r.trx = some n

structure Invariant (expirationOf : Id → Nat) (s : Broadcast Id) : Prop where
  blocked : s.blocked = false
  queued : Queued expirationOf s.expirations
  requests : ∀ n r, s.requests n = some r → Kept expirationOf s n r
  callbacks : ∀ id n, s.callbacks id = some n → Stored id s.expirations ∧
    ∃ r, s.requests n = some r ∧ r.trx = id ∧ s.due expirationOf r = none

theorem verdict_eq_none {id : Id} (h : verdict expirationOf id b = none) :
    b.timestamp ≤ expirationOf id := by
  unfold verdict at h
  split at h
  . cases h
  . split at h
    . cases h
    . omega

theorem Invariant.answered (h : Invariant expirationOf s) : Answered expirationOf s where
  responses n r hr := (h.requests n r hr).responses
  stored id n hid := by
    obtain ⟨-, r, hr, rfl, hdue⟩ := h.callbacks id n hid
    refine ⟨r, hr, rfl, ?_⟩
    intro b hb
    exact verdict_eq_none (List.findSome?_eq_none_iff.mp hdue b hb)
  blocked := h.blocked

theorem Invariant.initial : Invariant expirationOf ({} : Broadcast Id) where
  blocked := rfl
  queued := ⟨.nil, fun _ he => nomatch he⟩
  requests _ _ hr := nomatch hr
  callbacks _ _ hid := nomatch hid

theorem Invariant.register (h : Invariant expirationOf s) {trx : Id} {rest : List Call}
    (hfree : ∀ n r, s.requests n = some r → r.trx = trx → r.responses ≠ []) :
    Invariant expirationOf (s.register expirationOf trx rest) := by
  have hother {n : Nat} {r : Request Id} (hr : s.requests n = some r) : n ≠ s.nextRequest := by
    have := (h.requests n r hr).lt
    omega
  constructor
  . exact h.blocked
  . exact h.queued.pushBack trx
  . intro n r hr
    unfold Broadcast.register at hr ⊢
    dsimp only at hr
    by_cases hn : n = s.nextRequest
    . rw [hn, Function.update_self] at hr
      cases hr
      have hdue : ∀ applied : List (SignedBlock Id),
          outcome expirationOf trx (applied.drop applied.length) = none := by
        intro applied
        rw [List.drop_length]
        rfl
      refine ⟨by dsimp only; omega, Nat.le_refl _, by simp, ?_, ?_⟩
      . unfold due
        dsimp only
        rw [hdue]
        rfl
      . intro _ _
        rw [hn]
        exact Function.update_self ..
    . rw [Function.update_of_ne hn] at hr
      obtain ⟨hlt, hle, hvalid, hresponses, hcallback⟩ := h.requests n r hr
      refine ⟨by dsimp only; omega, hle, hvalid, hresponses, ?_⟩
      intro hphase hdue
      dsimp only
      rw [Function.update_of_ne]
      . exact hcallback hphase hdue
      . intro htrx
        apply hfree n r hr htrx
        rw [hresponses, if_neg hphase]
        change s.due expirationOf r = none at hdue
        rw [hdue]
        rfl
  . intro id n hid
    unfold Broadcast.register at hid ⊢
    dsimp only at hid ⊢
    by_cases heq : id = trx
    . subst heq
      rw [Function.update_self] at hid
      cases hid
      refine ⟨stored_pushBack (.inl rfl), _, Function.update_self .., rfl, ?_⟩
      unfold due
      dsimp only
      rw [List.drop_length]
      rfl
    . rw [Function.update_of_ne heq] at hid
      obtain ⟨hstored, r, hr, htrx, hdue⟩ := h.callbacks id n hid
      refine ⟨stored_pushBack (.inr hstored), r, ?_, htrx, hdue⟩
      rw [Function.update_of_ne (hother hr)]
      exact hr

/-- One request changes, neither its transaction nor when it was stored. -/
theorem Invariant.modifyRequest (h : Invariant expirationOf s) {n : Nat}
    {f : Request Id → Request Id} (hsame : ∀ r, (f r).trx = r.trx ∧ (f r).stored = r.stored)
    (hf : ∀ r, s.requests n = some r → Kept expirationOf s n (f r)) :
    Invariant expirationOf (s.modifyRequest n f) := by
  have hdue (s : Broadcast Id) (r : Request Id) : s.due expirationOf (f r) = s.due expirationOf r := by
    unfold due
    rw [(hsame r).1, (hsame r).2]
  constructor
  . exact h.blocked
  . exact h.queued
  . intro m r hr
    unfold Broadcast.modifyRequest at hr
    dsimp only at hr
    have hkept : Kept expirationOf s m r := by
      by_cases hm : m = n
      . subst hm
        rw [Function.update_self, Option.map_eq_some_iff] at hr
        obtain ⟨r, hr, rfl⟩ := hr
        exact hf r hr
      . rw [Function.update_of_ne hm] at hr
        exact h.requests m r hr
    exact ⟨hkept.lt, hkept.stored_le, hkept.valid, hkept.responses, hkept.callback⟩
  . intro id m hid
    obtain ⟨hstored, r, hr, htrx, hnone⟩ := h.callbacks id m hid
    refine ⟨hstored, ?_⟩
    unfold Broadcast.modifyRequest
    dsimp only
    by_cases hm : m = n
    . subst hm
      rw [Function.update_self, hr]
      exact ⟨f r, rfl, (hsame r).1.trans htrx, (hdue s r).trans hnone⟩
    . rw [Function.update_of_ne hm]
      exact ⟨r, hr, htrx, hnone⟩

theorem Invariant.accept (h : Invariant expirationOf s) {n : Nat} {r : Request Id}
    (hr : s.requests n = some r) (hphase : r.phase = .accepting) :
    Invariant expirationOf (s.accept n) := by
  apply h.modifyRequest
  . exact fun _ => ⟨rfl, rfl⟩
  . intro r' hr'
    rw [hr] at hr'
    cases hr'
    obtain ⟨hlt, hle, hvalid, hresponses, hcallback⟩ := h.requests n r hr
    rw [hphase] at hvalid hresponses hcallback
    exact ⟨hlt, hle, by simpa using hvalid, hresponses, fun _ hdue => hcallback (by decide) hdue⟩

theorem Invariant.refuse (h : Invariant expirationOf s) {n : Nat} {r : Request Id}
    (hr : s.requests n = some r) (hunanswered : r.responses = []) :
    Invariant expirationOf (s.refuse n) := by
  apply h.modifyRequest
  . exact fun _ => ⟨rfl, rfl⟩
  . intro r' hr'
    rw [hr] at hr'
    cases hr'
    have hkept := h.requests n r hr
    refine ⟨hkept.lt, hkept.stored_le, by simp, ?_, fun hne => absurd rfl hne⟩
    rw [hunanswered]
    rfl

section applied

/-- The responses that a block gives, in the order in which the callbacks are called. -/
def blockResponses (s : Broadcast Id) (b : SignedBlock Id) : List (Id × Response) :=
  confirmations b.blockNum b.transactions 0 ++ expired b s.expirations

theorem int32_of_lt {n : Nat} (h : n < 2 ^ 31) : int32 n = n := by
  unfold int32
  omega

theorem lookup_blockResponses (hqueued : Queued expirationOf s.expirations) {id : Id}
    (hstored : Stored id s.expirations) (hnum : b.blockNum < 2 ^ 31)
    (hlength : b.transactions.length ≤ 2 ^ 31) :
    (blockResponses s b).lookup id = verdict expirationOf id b := by
  unfold blockResponses verdict
  rw [List.lookup_append, lookup_confirmations, lookup_expired hqueued hstored,
    int32_of_lt hnum, Nat.zero_add]
  by_cases hid : id ∈ b.transactions
  . have := List.idxOf_lt_length_of_mem hid
    rw [if_pos hid, if_pos hid, int32_of_lt (by omega)]
    rfl
  . rw [if_neg hid, if_neg hid, Option.none_or]

theorem onAppliedBlock_eq
    (h : Quiet (blockResponses s b) { s with applied := s.applied ++ [b] }) :
    s.onAppliedBlock b =
      { callBackAll (blockResponses s b) { s with applied := s.applied ++ [b] } with
        expirations := s.expirations.dropWhile fun e => e.1 < b.timestamp } := by
  have hcalled := calledBack_callBackAll h
  have happend : callBackAll
      (confirmations b.blockNum b.transactions 0 ++ expired b s.expirations)
      { s with applied := s.applied ++ [b] } = _ :=
    callBackAll_append h.blocked
  unfold blockResponses at hcalled ⊢
  unfold onAppliedBlock
  dsimp only
  have hconfirmed : (callBackAll (confirmations b.blockNum b.transactions 0)
      { s with applied := s.applied ++ [b] }).blocked = false := by
    by_contra hblocked
    rw [Bool.not_eq_false] at hblocked
    rw [if_pos hblocked] at happend
    have := hcalled.blocked
    rw [happend, hblocked] at this
    cases this
  rw [if_neg (by rw [hconfirmed]; exact Bool.false_ne_true)] at happend ⊢
  rw [expirations_callBackAll, clearExpirations_eq _ hconfirmed, ← happend,
    if_neg (by rw [hcalled.blocked]; exact Bool.false_ne_true)]

theorem Invariant.onAppliedBlock (h : Invariant expirationOf s) (hnum : b.blockNum < 2 ^ 31)
    (hlength : b.transactions.length ≤ 2 ^ 31)
    (hrest : ∀ n r, s.requests n = some r → r.responses = [] → (verdict expirationOf r.trx b).isSome →
      Call.synchronous ∉ r.rest) :
    Invariant expirationOf (s.onAppliedBlock b) := by
  have hverdict {id : Id} (hstored : Stored id s.expirations) :
      (blockResponses s b).lookup id = verdict expirationOf id b :=
    lookup_blockResponses h.queued hstored hnum hlength
  have hquiet : Quiet (blockResponses s b) { s with applied := s.applied ++ [b] } := by
    constructor
    . exact h.blocked
    . intro id n hid
      obtain ⟨-, r, hr, htrx, -⟩ := h.callbacks id n hid
      exact ⟨r, hr, htrx⟩
    . intro id n r hid hr hvalid hsome
      obtain ⟨hstored, r', hr', htrx, hdue⟩ := h.callbacks id n hid
      obtain rfl := Option.some.inj (hr.symm.trans hr')
      rw [hverdict hstored, ← htrx] at hsome
      apply hrest n r hr _ hsome
      have hkept := h.requests n r hr
      rw [hkept.responses, if_neg (hkept.valid.mp hvalid), hdue]
      rfl
  obtain ⟨hblocked, happlied, hnext, hcallbacks, hrequests⟩ := calledBack_callBackAll hquiet
  rw [onAppliedBlock_eq hquiet]
  generalize callBackAll (blockResponses s b) { s with applied := s.applied ++ [b] } = s'
    at hblocked happlied hnext hcallbacks hrequests ⊢
  have hdue {r : Request Id} (hle : r.stored ≤ s.applied.length) (r' : Request Id)
      (htrx : r'.trx = r.trx) (hstored : r'.stored = r.stored) :
      outcome expirationOf r'.trx (s'.applied.drop r'.stored) =
        (s.due expirationOf r).or (verdict expirationOf r.trx b) := by
    rw [happlied, htrx, hstored]
    unfold due outcome
    dsimp only
    rw [List.drop_append_of_le_length hle, List.findSome?_append]
    congr 1
    cases hb : verdict expirationOf r.trx b with
    | none => rw [List.findSome?_cons, hb]; rfl
    | some x => rw [List.findSome?_cons, hb]
  constructor
  . exact hblocked
  . have hsub := List.dropWhile_sublist (l := s.expirations) fun e => e.1 < b.timestamp
    exact ⟨h.queued.sorted.sublist hsub, fun e he => h.queued.times e (hsub.subset he)⟩
  . intro n r' hr'
    change s'.requests n = some r' at hr'
    rw [hrequests, Option.map_eq_some_iff] at hr'
    obtain ⟨r, hr, rfl⟩ := hr'
    have hkept := h.requests n r hr
    have hle := hkept.stored_le
    have hlt : n < s'.nextRequest := by
      rw [hnext]
      exact hkept.lt
    have hlonger : r.stored ≤ s'.applied.length := by
      rw [happlied]
      simp only [List.length_append]
      omega
    by_cases hcalled : s.callbacks r.trx = some n ∧ r.valid ∧ (verdict expirationOf r.trx b).isSome
    . obtain ⟨hcallback, hvalid, hsome⟩ := hcalled
      obtain ⟨hstored, r₁, hr₁, -, hnone⟩ := h.callbacks r.trx n hcallback
      obtain rfl := Option.some.inj (hr.symm.trans hr₁)
      obtain ⟨x, hx⟩ := Option.isSome_iff_exists.mp hsome
      have hphase := hkept.valid.mp hvalid
      have hrespond : respond { s with applied := s.applied ++ [b] } (blockResponses s b) n r =
          { r with responses := r.responses ++ [x] } := by
        unfold respond
        rw [hverdict hstored, hx]
        exact if_pos ⟨hcallback, hvalid⟩
      have hdue' := hdue hle { r with responses := r.responses ++ [x] } rfl rfl
      rw [hnone, hx, Option.none_or] at hdue'
      rw [hrespond]
      refine ⟨hlt, hlonger, hkept.valid, ?_, ?_⟩
      . change r.responses ++ [x] = if r.phase = .refused then [.error] else
          (outcome expirationOf r.trx (s'.applied.drop r.stored)).toList
        rw [if_neg hphase, hdue', hkept.responses, if_neg hphase, hnone]
        rfl
      . intro _ hnone'
        change outcome expirationOf r.trx (s'.applied.drop r.stored) = none at hnone'
        rw [hdue'] at hnone'
        cases hnone'
    . have hrespond : respond { s with applied := s.applied ++ [b] } (blockResponses s b) n r = r := by
        unfold respond
        split
        . rfl
        . next response hresponse =>
          apply if_neg
          rintro ⟨hcallback, hvalid⟩
          obtain ⟨hstored, -⟩ := h.callbacks r.trx n hcallback
          rw [hverdict hstored] at hresponse
          exact hcalled ⟨hcallback, hvalid, by rw [hresponse]; rfl⟩
      have hdue' := hdue hle r rfl rfl
      -- A request that waits is not answered by this block, so it says nothing about it.
      have hwaits (hphase : r.phase ≠ .refused) (hnone : s.due expirationOf r = none) :
          verdict expirationOf r.trx b = none := by
        by_contra hne
        exact hcalled ⟨hkept.callback hphase hnone, hkept.valid.mpr hphase,
          Option.isSome_iff_ne_none.mpr hne⟩
      rw [hrespond]
      refine ⟨hlt, hlonger, hkept.valid, ?_, ?_⟩
      . rw [hkept.responses]
        change _ = if r.phase = .refused then [.error] else
          (outcome expirationOf r.trx (s'.applied.drop r.stored)).toList
        rw [hdue']
        split
        . rfl
        . next hphase =>
          cases hnone : s.due expirationOf r with
          | some x => rfl
          | none => rw [hwaits hphase hnone, Option.none_or]
      . intro hphase hnone'
        change outcome expirationOf r.trx (s'.applied.drop r.stored) = none at hnone'
        rw [hdue', Option.or_eq_none_iff] at hnone'
        have hcallback := hkept.callback hphase hnone'.1
        change s'.callbacks r.trx = some n
        rw [hcallbacks, hverdict (h.callbacks r.trx n hcallback).1, hnone'.2]
        exact hcallback
  . intro id n hid
    change s'.callbacks id = some n at hid
    rw [hcallbacks] at hid
    split at hid
    . cases hid
    . next hlookup =>
      obtain ⟨hstored, r, hr, rfl, hnone⟩ := h.callbacks id n hid
      have hsays : verdict expirationOf r.trx b = none := by
        rw [← hverdict hstored]
        exact Option.not_isSome_iff_eq_none.mp hlookup
      have hrespond : respond { s with applied := s.applied ++ [b] } (blockResponses s b) n r = r := by
        unfold respond
        rw [hverdict hstored, hsays]
      refine ⟨?_, r, ?_, rfl, ?_⟩
      . obtain ⟨e, he, hide⟩ := hstored
        refine ⟨e, ?_, hide⟩
        have htime := h.queued.times e he r.trx hide
        have hlate := verdict_eq_none hsays
        rw [← List.takeWhile_append_dropWhile (l := s.expirations)
          (p := fun e => e.1 < b.timestamp), List.mem_append] at he
        rcases he with he | he
        . have hlt := List.mem_takeWhile_imp he
          rw [decide_eq_true_eq] at hlt
          omega
        . exact he
      . change s'.requests n = some r
        rw [hrequests, hr, Option.map_some, hrespond]
      . change outcome expirationOf r.trx (s'.applied.drop r.stored) = none
        rw [hdue (h.requests n r hr).stored_le r rfl rfl, hnone, hsays]
        rfl

end applied

end invariant

theorem answered_of_reach {s : Broadcast Id}
    (h : (broadcasting expirationOf).Reach (Orderly expirationOf) s) :
    Answered expirationOf s := by
  apply Invariant.answered
  apply h.invariant
  . rintro _ rfl
    exact .initial
  . intro s e s' hs hok hstep
    cases e with
    | request trx rest =>
      obtain ⟨-, rfl⟩ := hstep
      exact hs.register hok
    | accepted n =>
      obtain ⟨-, ⟨r, hr, hphase⟩, rfl⟩ := hstep
      exact hs.accept hr hphase
    | refused n =>
      obtain ⟨-, ⟨r, hr, -⟩, rfl⟩ := hstep
      exact hs.refuse hr (hok r hr)
    | applied b =>
      obtain ⟨-, rfl⟩ := hstep
      exact hs.onAppliedBlock hok.1 hok.2.1 hok.2.2
    | popped =>
      obtain ⟨-, rfl⟩ := hstep
      exact hs

section runs

/-- Every transaction expires at the time 100. -/
def expiration : Nat → Nat := fun _ => 100

def oneBlock : SignedBlock Nat where
  blockNum := 7
  timestamp := 50
  transactions := [1]

/-- A block with no transaction of theirs, after both have expired. -/
def lateBlock : SignedBlock Nat where
  blockNum := 8
  timestamp := 101
  transactions := []

/-- Two clients wait, the second of them with more to do. -/
def waiting : Broadcast Nat :=
  (({} : Broadcast Nat).register expiration 1 []).register expiration 2 [.other]

/-- The block with the first transaction is applied. -/
def confirmed : Broadcast Nat :=
  waiting.onAppliedBlock oneBlock

def answeredBoth : Broadcast Nat :=
  confirmed.onAppliedBlock lateBlock

theorem not_mem_rest {s : Broadcast Nat} (hnone : ∀ n, s.requests (n + 2) = none)
    (h : ∀ n < 2, ∀ r ∈ s.requests n, Call.synchronous ∉ r.rest) (n : Nat) (r : Request Nat)
    (hr : s.requests n = some r) : Call.synchronous ∉ r.rest := by
  match n with
  | 0 | 1 => exact h _ (by decide) r hr
  | n + 2 =>
    rw [hnone n] at hr
    cases hr

theorem answered_confirmed :
    Answered expiration answeredBoth ∧
      (answeredBoth.requests 0).map Request.responses = some [.result 7 0 false] ∧
      (answeredBoth.requests 1).map Request.responses = some [.result 8 (-1) true] := by
  refine ⟨answered_of_reach ?_, by decide, by decide⟩
  have hfirst : (broadcasting expiration).Reach (Orderly expiration)
      (({} : Broadcast Nat).register expiration 1 []) :=
    .step (e := .request 1 []) (.initial rfl) (fun _ _ hr => nomatch hr) ⟨rfl, rfl⟩
  have hwaiting : (broadcasting expiration).Reach (Orderly expiration) waiting := by
    refine .step (e := .request 2 [.other]) hfirst ?_ ⟨rfl, rfl⟩
    intro n r hr htrx
    match n with
    | 0 =>
      cases hr
      exact absurd htrx (by decide)
    | n + 1 => exact nomatch (show none = some r from hr)
  have hconfirmed : (broadcasting expiration).Reach (Orderly expiration) confirmed := by
    refine .step (e := .applied oneBlock) hwaiting ⟨by decide, by decide, ?_⟩ ⟨rfl, rfl⟩
    intro n r hr _ _
    exact not_mem_rest (fun _ => rfl) (by decide) n r hr
  refine .step (e := .applied lateBlock) hconfirmed ⟨by decide, by decide, ?_⟩ ⟨rfl, rfl⟩
  intro n r hr _ _
  exact not_mem_rest (fun _ => rfl) (by decide) n r hr

/-- A second client sends the same transaction, which is refused, before the block is applied. -/
def doubled : Broadcast Nat :=
  (((({} : Broadcast Nat).register expiration 1 []).accept 0).register expiration 1 []).refuse 1
    |>.onAppliedBlock oneBlock

/-- The first client has lost its callback to the second one. -/
theorem doubled_not_answered :
    (broadcasting expiration).Reachable doubled ∧
      (doubled.requests 0).map Request.responses = some [] ∧ doubled.callbacks 1 = none ∧
      ¬Answered expiration doubled := by
  have hrequest : (doubled.requests 0).map (fun r => (r.responses, r.phase, r.trx, r.stored)) =
      some ([], .accepted, 1, 0) := by
    decide
  refine ⟨?_, by decide, by decide, ?_⟩
  . have hfirst : (broadcasting expiration).Reachable
        (({} : Broadcast Nat).register expiration 1 []) :=
      .step (e := .request 1 []) (.initial rfl) trivial ⟨rfl, rfl⟩
    have haccepted : (broadcasting expiration).Reachable
        ((({} : Broadcast Nat).register expiration 1 []).accept 0) :=
      .step (e := .accepted 0) hfirst trivial ⟨rfl, ⟨_, rfl, rfl⟩, rfl⟩
    have hsecond : (broadcasting expiration).Reachable
        (((({} : Broadcast Nat).register expiration 1 []).accept 0).register expiration 1 []) :=
      .step (e := .request 1 []) haccepted trivial ⟨rfl, rfl⟩
    have hrefused : (broadcasting expiration).Reachable
        ((((({} : Broadcast Nat).register expiration 1 []).accept 0).register expiration 1 []).refuse
          1) :=
      .step (e := .refused 1) hsecond trivial ⟨rfl, ⟨_, rfl, rfl⟩, rfl⟩
    exact .step (e := .applied oneBlock) hrefused trivial ⟨rfl, rfl⟩
  . intro h
    obtain ⟨r, hr, heq⟩ := Option.map_eq_some_iff.mp hrequest
    simp only [Prod.mk.injEq] at heq
    obtain ⟨hnone, hphase, htrx, hstored⟩ := heq
    have hresponses := h.responses 0 r hr
    rw [hnone, hphase] at hresponses
    unfold due at hresponses
    rw [htrx, hstored] at hresponses
    exact absurd hresponses (by decide)

end runs

end Broadcast

end NetworkBroadcast

end Golos
