import Mathlib.Data.List.Nodup
import Golos.Plugins.Impl.JsonRpc

/-!
This module contains what becomes of a batch of requests: each of them is executed once and answered
once, exactly if no API method throws after it has moved its `msg_pack` away.
-/

namespace Golos

namespace JsonRpc

open Effect (Spec)

variable {σ : Type}

/-- The id of a request: an integer or a string. -/
def requestId : Variant → Option Variant
  | .object request =>
    match member request "id" with
    | some (.int n) => some (.int n)
    | some (.string s) => some (.string s)
    | _ => none
  | _ => none

/-- One response to a request. -/
structure JsonRpcResponse.Answers (response : JsonRpcResponse) (request : Variant) : Prop where
  id : response.id = requestId request
  one : response.result.isSome ↔ response.error.isNone

/-- Each request of a batch is executed once, and the responses are passed on once. -/
structure AnswersOnce (registry : Registry σ) (responseHandler : ResponseHandler)
    (requests : List Variant) (node : σ) : Prop where
  executed : (call registry responseHandler requests { node }).state.executed.Perm
    (List.range requests.length)
  sent : (∀ sent text, responseHandler sent text = false) →
    ∃ responses, (call registry responseHandler requests { node }).state.sent = [.batch responses] ∧
      List.Forall₂ JsonRpcResponse.Answers responses requests

/--
The state that the API methods leave when they are called by the requests, each once and in order,
or `none` if one of them throws after it has moved its `msg_pack` away, or returns when it has
answered and has its `msg_pack` back.
-/
def settle (registry : Registry σ) : List Variant → σ → Option σ
  | [], s => some s
  | request :: requests, s =>
    match (parse registry request).2 with
    | .reject _ _ | .raise _ => settle registry requests s
    | .call method args =>
      match method args s with
      | .returns _ s' | .throws _ s' => settle registry requests s'
      | .answers _ s' finish =>
        match settle registry requests s' with
        | none => none
        | some s'' =>
          match (finish s'').1 with
          | .returns _ false => some (finish s'').2
          | .returns _ true | .throws _ _ => none
      | .abandons _ _ => none

/-- Every API method that moves its `msg_pack` away answers through it, and ends quietly. -/
def Settles (registry : Registry σ) (requests : List Variant) (node : σ) : Prop :=
  (settle registry requests node).isSome

theorem parse_fst (registry : Registry σ) (request : Variant) :
    (parse registry request).1 = requestId request := by
  cases request with
  | object request =>
    unfold parse requestId
    dsimp only
    rcases member request "id" with _ | id
    . rfl
    . cases id <;> rfl
  | _ => rfl

section request

variable {k : Nat} {next : RpcM σ Unit} {s : RpcState σ}

def MsgPack.answered (msg : MsgPack) : Answer → MsgPack
  | .result value => { msg with response := { msg.response with result := some value } }
  | .error code message =>
    { msg with response := { msg.response with error := some ⟨code, message⟩ } }

/-- The state in which the next request is run. -/
def answered (k : Nat) (a : Answer) (s : RpcState σ) : RpcState σ :=
  { s with
    msgs := Function.update s.msgs k ((s.msgs k).answered a)
    responses := s.responses ++ [((s.msgs k).answered a).response] }

/-- The state in which a method has moved the `msg_pack` away. -/
def delegate (k : Nat) (s : RpcState σ) : RpcState σ :=
  { s with msgs := Function.update s.msgs k { s.msgs k with delegated := true } }

theorem handle_modify_bind (f : RpcState σ → RpcState σ) (x : RpcM σ Unit)
    (handler : RpcException → RpcM σ Unit) (s : RpcState σ) :
    ((do .modify f; x : RpcM σ Unit).handle handler) s = x.handle handler (f s) := by
  have hbind : (do .modify f; x : RpcM σ Unit) s = x (f s) := rfl
  unfold Effect.handle
  rw [hbind]

theorem pass_eq (k : Nat) (next : RpcM σ Unit) (a : Answer) (s : RpcState σ) :
    pass k next a s = ignoringWebsocket next (answered k a s) := by
  have hset (s : RpcState σ) (msg : MsgPack) :
      ignoringWebsocket (callHandler k next) { s with msgs := Function.update s.msgs k msg }
        =
      ignoringWebsocket next
        { s with
          msgs := Function.update s.msgs k msg
          responses := s.responses ++ [msg.response] } := by
    unfold ignoringWebsocket callHandler
    rw [handle_modify_bind]
    simp only [Function.update_self]
  cases a with
  | result value => exact hset s _
  | error code message => exact hset s _

theorem spec_pass {ok : Empty → Prop} {Q : Unit → RpcState σ → Prop}
    {E : RpcException → RpcState σ → Prop} {a : Answer}
    (h : Spec ok (ignoringWebsocket next) (answered k a s) Q E) : Spec ok (pass k next a) s Q E := by
  unfold Spec
  rw [pass_eq]
  exact h

/-- The state that a method leaves after it has answered. -/
def movedBack (k : Nat) (back : Bool) (s : RpcState σ) : RpcState σ :=
  { s with
    msgs := Function.update s.msgs k
      { s.msgs k with delegated := (s.msgs k).delegated && !back } }

/-- What the state has to meet for the call of a method. -/
def Calls (k : Nat) (next : RpcM σ Unit) (I Q : RpcState σ → Prop) (s : RpcState σ) :
    Behaviour σ → Prop
  | .returns _ node | .throws _ node => I { s with node }
  | .answers a node finish =>
    Spec (fun _ => True) (pass k next a) (delegate k { s with node })
      (fun _ s' => match (finish s'.node).1 with
        | .returns _ false => Q { s' with node := (finish s'.node).2 }
        | .returns _ true => I (movedBack k true { s' with node := (finish s'.node).2 })
        | .throws _ back => I (movedBack k back { s' with node := (finish s'.node).2 }))
      fun _ s' => I s'
  | .abandons _ node => I (delegate k { s with node })

def Starts (registry : Registry σ) (request : Variant) (k : Nat) (next : RpcM σ Unit)
    (I Q : RpcState σ → Prop) (s : RpcState σ) : Prop :=
  match (parse registry request).2 with
  | .reject _ _ | .raise _ => I s
  | .call method args => Calls k next I Q s (method args s.node)

/-- The state in which the request is parsed. -/
def opened (k : Nat) (request : Variant) (s : RpcState σ) : RpcState σ :=
  { s with
    executed := s.executed ++ [k]
    msgs := Function.update s.msgs k { response := { id := requestId request } } }

section rule

/-! What holds of a run of a request, where `I` says that an answer may be attempted. -/

variable {I Q : RpcState σ → Prop} {E : RpcException → Prop}
  (hanswer : ∀ a s, I s → Spec (fun _ => True) (answer k next a) s (fun _ s' => Q s')
    fun e s' => E e ∧ I s')

include hanswer

theorem spec_callMethod {behaviour : Behaviour σ}
    (h : Calls k next I Q s behaviour) :
    Spec (fun _ => True) (callMethod k next behaviour) s (fun _ s' => Q s') fun _ s' => I s' := by
  cases behaviour with
  | returns value node =>
    apply Spec.bind
    apply Spec.modify
    exact (hanswer _ _ h).mono (fun _ _ hQ => hQ) fun _ _ hE => hE.2
  | throws e node =>
    apply Spec.bind
    apply Spec.modify
    exact Spec.fail h
  | answers a node finish =>
    apply Spec.bind
    apply Spec.modify
    apply Spec.bind
    apply Spec.modify
    apply Spec.bind
    unfold Calls at h
    apply h.mono
    . intro _ s' hs'
      apply Spec.bind
      apply Spec.read
      apply Spec.bind
      apply Spec.modify
      revert hs'
      cases (finish s'.node).1 with
      | returns value movedBack =>
        cases movedBack with
        | false => exact fun hs' => Spec.pure hs'
        | true =>
          intro hs'
          apply Spec.bind
          apply Spec.modify
          exact (hanswer _ _ hs').mono (fun _ _ hQ => hQ) fun _ _ hE => hE.2
      | throws e movedBack =>
        intro hs'
        apply Spec.bind
        apply Spec.modify
        exact Spec.fail hs'
    . exact fun _ _ hI => hI
  | abandons e node =>
    apply Spec.bind
    apply Spec.modify
    apply Spec.bind
    apply Spec.modify
    exact Spec.fail h

theorem spec_execute {method : ApiMethod σ} {args : List Variant}
    (h : Calls k next I Q s (method args s.node)) :
    Spec (fun _ => True) (execute k next method args) s (fun _ s' => Q s') fun _ s' => I s' := by
  apply Spec.handle
  apply Spec.bind
  apply Spec.read
  apply (spec_callMethod hanswer h).mono
  . exact fun _ _ hQ => hQ
  . intro e s' hI
    split
    . exact (hanswer _ _ hI).mono (fun _ _ hQ => hQ) fun _ _ hE => hE.2
    . exact Spec.fail hI

theorem spec_rpc {registry : Registry σ} {request : Variant}
    (h : Starts registry request k next I Q (opened k request s)) :
    Spec (fun _ => True) (rpc k next registry request) s (fun _ s' => Q s')
      fun e s' => E e ∧ I s' := by
  apply Spec.bind
  apply Spec.modify
  apply Spec.handle
  apply Spec.mono (Q := fun _ s' => Q s') (E := fun _ s' => I s')
  . apply Spec.bind
    apply Spec.modify
    simp only [Function.update_self, Function.update_idem, parse_fst]
    unfold Starts at h
    split
    . next heq =>
      rw [heq] at h
      exact (hanswer _ _ h).mono (fun _ _ hQ => hQ) fun _ _ hE => hE.2
    . next heq =>
      rw [heq] at h
      exact Spec.fail h
    . next heq =>
      rw [heq] at h
      exact spec_execute hanswer h
  . exact fun _ _ hQ => hQ
  . exact fun _ _ hI => hanswer _ _ hI

end rule

theorem spec_answer {Q : Unit → RpcState σ → Prop} {E : RpcException → RpcState σ → Prop}
    {a : Answer} (hdelegated : (s.msgs k).delegated = true → E .delegated s)
    (hpass : (s.msgs k).delegated = false →
      Spec (fun _ => True) (ignoringWebsocket next) (answered k a s) Q E) :
    Spec (fun _ => True) (answer k next a) s Q E := by
  apply Spec.bind
  apply Spec.bind
  apply Spec.read
  cases hmsg : (s.msgs k).delegated with
  | false =>
    apply Spec.lift
    . intro _ _
      exact spec_pass (hpass hmsg)
    . intro e he
      simp only [if_true, reduceCtorEq] at he
  | true =>
    apply Spec.lift
    . intro _ he
      simp only [Bool.true_eq_false, if_false, reduceCtorEq] at he
    . intro e he
      simp only [Bool.true_eq_false, if_false, Except.error.injEq] at he
      rw [← he]
      exact hdelegated hmsg

end request

section settled

variable {registry : Registry σ} {responseHandler : ResponseHandler} {k : Nat}
  {request : Variant} {requests : List Variant} {s s' : RpcState σ} {node : σ}

/-- Each of the requests was executed once, and the responses were passed on once. -/
structure Settled (k : Nat) (requests : List Variant) (s : RpcState σ) (node : σ)
    (s' : RpcState σ) : Prop where
  node : s'.node = node
  msgs : ∀ j < k, s'.msgs j = s.msgs j
  executed : s'.executed = s.executed ++ List.range' k requests.length
  sent : ∃ responses, s'.sent = s.sent ++ [.batch (s.responses ++ responses)] ∧
    List.Forall₂ JsonRpcResponse.Answers responses requests

/-- The request is executed and not yet answered. -/
structure Asked (k : Nat) (request : Variant) (s s' : RpcState σ) : Prop where
  msgs : ∀ j < k, s'.msgs j = s.msgs j
  executed : s'.executed = s.executed ++ [k]
  sent : s'.sent = s.sent
  responses : s'.responses = s.responses
  response : (s'.msgs k).response = { id := requestId request }

theorem asked_opened (k : Nat) (request : Variant) (s : RpcState σ) :
    Asked k request s (opened k request s) where
  msgs j hj := Function.update_of_ne (by omega) _ _
  executed := rfl
  sent := rfl
  responses := rfl
  response := by simp only [opened, Function.update_self]

theorem Asked.setNode (h : Asked k request s s') (node : σ) : Asked k request s { s' with node } :=
  ⟨h.msgs, h.executed, h.sent, h.responses, h.response⟩

theorem Asked.delegate (h : Asked k request s s') : Asked k request s (delegate k s') where
  msgs j hj := by
    rw [← h.msgs j hj]
    exact Function.update_of_ne (by omega) _ _
  executed := h.executed
  sent := h.sent
  responses := h.responses
  response := by
    rw [← h.response]
    simp only [JsonRpc.delegate, Function.update_self]

theorem MsgPack.answers_answered {msg : MsgPack} (h : msg.response = { id := requestId request })
    (a : Answer) : (msg.answered a).response.Answers request := by
  cases a with
  | result value => exact ⟨by simp only [answered, h], by simp only [answered, h]; rfl⟩
  | error code message => exact ⟨by simp only [answered, h], by simp only [answered, h]; rfl⟩

theorem Asked.settled (h : Asked k request s s') {a : Answer} {s₁ : RpcState σ}
    (hnext : Settled (k + 1) requests (answered k a s') node s₁) :
    Settled k (request :: requests) s node s₁ where
  node := hnext.node
  msgs j hj := by
    rw [hnext.msgs j (by omega), ← h.msgs j hj]
    exact Function.update_of_ne (by omega) _ _
  executed := by
    rw [hnext.executed]
    simp only [answered, h.executed, List.length_cons, List.range'_succ, List.append_assoc,
      List.cons_append, List.nil_append]
  sent := by
    obtain ⟨responses, hsent, hresponses⟩ := hnext.sent
    refine ⟨((s'.msgs k).answered a).response :: responses, ?_, ?_⟩
    . rw [hsent]
      simp only [answered, h.sent, h.responses, List.append_assoc, List.cons_append,
        List.nil_append]
    . exact .cons (MsgPack.answers_answered h.response a) hresponses

/-- What the handler of a request does when no method fails behind a moved `msg_pack`. -/
theorem spec_rpc_settled {next : RpcM σ Unit}
    (hnext : ∀ s node, settle registry requests s.node = some node →
      Spec (fun _ => True) (ignoringWebsocket next) s
        (fun _ s' => Settled (k + 1) requests s node s') fun _ _ => False)
    (h : settle registry (request :: requests) s.node = some node) :
    Spec (fun _ => True) (rpc k next registry request) s
      (fun _ s' => Settled k (request :: requests) s node s') fun _ _ => False := by
  let I (s' : RpcState σ) : Prop :=
    Asked k request s s' ∧ (s'.msgs k).delegated = false ∧
      settle registry requests s'.node = some node
  have hanswer : ∀ a s', I s' → Spec (fun _ => True) (answer k next a) s'
      (fun _ s₁ => Settled k (request :: requests) s node s₁)
      fun e s₁ => (fun _ => False) e ∧ I s₁ := by
    intro a s' ⟨hasked, hmsg, hsettle⟩
    apply spec_answer
    . intro hdelegated
      rw [hmsg] at hdelegated
      cases hdelegated
    . intro _
      apply (hnext (answered k a s') node hsettle).mono
      . intro _ s₁ hs₁
        exact hasked.settled hs₁
      . exact fun _ _ => False.elim
  apply (spec_rpc hanswer _).mono
  . exact fun _ _ hs' => hs'
  . exact fun _ _ he => he.1
  . have hopened : Asked k request s (opened k request s) := asked_opened k request s
    have hmsg : ((opened k request s).msgs k).delegated = false := by
      simp only [opened, Function.update_self]
    unfold Starts
    unfold settle at h
    split
    . next heq =>
      rw [heq] at h
      exact ⟨hopened, hmsg, h⟩
    . next heq =>
      rw [heq] at h
      exact ⟨hopened, hmsg, h⟩
    . next method args heq =>
      rw [heq] at h
      change Calls k next _ _ _ (method args s.node)
      dsimp only at h
      cases hbehaviour : method args s.node with
      | returns value node' =>
        rw [hbehaviour] at h
        exact ⟨hopened.setNode node', hmsg, h⟩
      | throws e node' =>
        rw [hbehaviour] at h
        exact ⟨hopened.setNode node', hmsg, h⟩
      | abandons e node' =>
        rw [hbehaviour] at h
        cases h
      | answers a node' finish =>
        rw [hbehaviour] at h
        dsimp only at h
        split at h
        . cases h
        . next node₁ hsettle =>
          split at h
          . next hfinish =>
            unfold Calls
            apply spec_pass
            apply (hnext _ node₁ hsettle).mono
            . intro _ s₁ hs₁
              rw [hs₁.node, hfinish]
              have hsettled := (hopened.setNode node').delegate.settled hs₁
              cases h
              exact ⟨rfl, hsettled.msgs, hsettled.executed, hsettled.sent⟩
            . exact fun _ _ => False.elim
          . cases h
          . cases h

theorem spec_nextHandler_settled (h : settle registry requests s.node = some node) :
    Spec (fun _ => True) (ignoringWebsocket (nextHandler registry responseHandler k requests)) s
      (fun _ s' => Settled k requests s node s') fun _ _ => False := by
  induction requests generalizing k s node with
  | nil =>
    cases h
    apply Spec.handle
    apply Spec.bind
    apply Spec.read
    apply Spec.bind
    apply Spec.read
    apply Spec.bind
    apply Spec.modify
    have hsettled : Settled k [] s s.node
        { s with sent := s.sent ++ [.batch s.responses] } := by
      refine ⟨rfl, fun _ _ => rfl, (List.append_nil _).symm, [], ?_, .nil⟩
      rw [List.append_nil]
    apply Spec.ensure
    . exact fun _ => hsettled
    . exact Spec.pure hsettled
  | cons request requests ih =>
    apply Spec.handle
    apply (spec_rpc_settled (fun s node h => ih h) h).mono
    . exact fun _ _ hs' => hs'
    . exact fun _ _ => False.elim

end settled

section unsettled

variable {registry : Registry σ} {responseHandler : ResponseHandler} {k : Nat}
  {request : Variant} {requests : List Variant} {s s' s₁ : RpcState σ}

/-- Some requests were executed, none of them before the one with number `k`. -/
structure Ran (k : Nat) (s s' : RpcState σ) : Prop where
  msgs : ∀ j < k, s'.msgs j = s.msgs j
  executed : ∀ j, s.executed.count j ≤ s'.executed.count j
  sent : s.sent.length ≤ s'.sent.length

/-- How often the requests were begun: the first of them, or the responses without any. -/
def begun (k : Nat) (requests : List Variant) (s : RpcState σ) : Nat :=
  if requests = [] then s.sent.length else s.executed.count k

/-- The requests were run, and at least begun. -/
structure RanFrom (k : Nat) (requests : List Variant) (s s' : RpcState σ) : Prop
    extends Ran k s s' where
  begun_lt : begun k requests s < begun k requests s'

/-- One of the first `n` requests was executed again, or the responses were passed on again. -/
def Twice (n : Nat) (s : RpcState σ) : Prop :=
  (∃ k < n, 2 ≤ s.executed.count k) ∨ 2 ≤ s.sent.length

theorem begun_cons (k : Nat) (request : Variant) (requests : List Variant) (s : RpcState σ) :
    begun k (request :: requests) s = s.executed.count k :=
  if_neg (List.cons_ne_nil _ _)

theorem twice_of_begun (h : 2 ≤ begun k requests s) : Twice (k + requests.length) s := by
  unfold begun at h
  split at h
  . exact .inr h
  . next hne =>
    have := List.length_pos_iff.mpr hne
    exact .inl ⟨k, by omega, h⟩

theorem Ran.trans (h : Ran k s s') (h' : Ran k s' s₁) : Ran k s s₁ where
  msgs j hj := (h'.msgs j hj).trans (h.msgs j hj)
  executed j := Nat.le_trans (h.executed j) (h'.executed j)
  sent := Nat.le_trans h.sent h'.sent

theorem Ran.of_succ (h : Ran (k + 1) s s') : Ran k s s' :=
  ⟨fun j hj => h.msgs j (by omega), h.executed, h.sent⟩

theorem ran_answered (k : Nat) (a : Answer) (s : RpcState σ) : Ran k s (answered k a s) where
  msgs j hj := Function.update_of_ne (by omega) _ _
  executed _ := Nat.le_refl _
  sent := Nat.le_refl _

theorem ran_delegate (k : Nat) (s : RpcState σ) : Ran k s (delegate k s) where
  msgs j hj := Function.update_of_ne (by omega) _ _
  executed _ := Nat.le_refl _
  sent := Nat.le_refl _

theorem ran_movedBack (k : Nat) (back : Bool) (s : RpcState σ) : Ran k s (movedBack k back s) where
  msgs j hj := Function.update_of_ne (by omega) _ _
  executed _ := Nat.le_refl _
  sent := Nat.le_refl _

theorem ran_setNode (k : Nat) (s : RpcState σ) (node : σ) : Ran k s { s with node } :=
  ⟨fun _ _ => rfl, fun _ => Nat.le_refl _, Nat.le_refl _⟩

theorem ran_opened (k : Nat) (request : Variant) (s : RpcState σ) :
    RanFrom k (request :: requests) s (opened k request s) where
  msgs j hj := Function.update_of_ne (by omega) _ _
  executed j := by
    simp only [opened, List.count_append]
    omega
  sent := Nat.le_refl _
  begun_lt := by
    rw [begun_cons, begun_cons]
    simp only [opened, List.count_append, List.count_singleton_self]
    omega

/-- What a request relies on when it runs the next ones. -/
def Runs (registry : Registry σ) (k : Nat) (requests : List Variant) (next : RpcM σ Unit) : Prop :=
  ∀ s, Spec (fun _ => True) (ignoringWebsocket next) s
    (fun _ s' => RanFrom k requests s s' ∧
      (settle registry requests s.node = none → Twice (k + requests.length) s') ∧
      ∀ node, settle registry requests s.node = some node → s'.node = node)
    fun e s' => e = .delegated ∧ RanFrom k requests s s' ∧ settle registry requests s.node = none

/-- An answer may be attempted. Where it succeeds, a batch that does not settle repeats a request. -/
structure Retries (registry : Registry σ) (k : Nat) (requests : List Variant) (bad : Prop)
    (s s' : RpcState σ) : Prop extends Ran k s s' where
  first : s.executed.count k < s'.executed.count k
  fails : bad → (s'.msgs k).delegated = true ∨ settle registry requests s'.node = none ∨
    0 < begun (k + 1) requests s'

theorem Retries.spec_answer {next : RpcM σ Unit} {bad : Prop}
    (hnext : Runs registry (k + 1) requests next) (h : Retries registry k requests bad s s')
    (a : Answer) :
    Spec (fun _ => True) (answer k next a) s'
      (fun _ s₁ => RanFrom k (request :: requests) s s₁ ∧ (bad → Twice (k + (request :: requests).length) s₁))
      fun e s₁ => e = .delegated ∧ Retries registry k requests bad s s₁ := by
  apply JsonRpc.spec_answer
  . exact fun _ => ⟨rfl, h⟩
  . intro hmsg
    apply (hnext (answered k a s')).mono
    . intro _ s₁ ⟨hran, htwice, _⟩
      rw [Nat.succ_add] at htwice
      have hran' : Ran k s s₁ := h.toRan.trans ((ran_answered k a s').trans hran.of_succ)
      refine ⟨⟨hran', ?_⟩, ?_⟩
      . rw [begun_cons, begun_cons]
        exact Nat.lt_of_lt_of_le h.first (hran.executed k)
      intro hbad
      rcases h.fails hbad with hdelegated | hsettle | hbegun
      . rw [hmsg] at hdelegated
        cases hdelegated
      . exact htwice hsettle
      . have htwo := twice_of_begun (Nat.lt_of_le_of_lt hbegun hran.begun_lt)
        rw [Nat.succ_add] at htwo
        exact htwo
    . intro e s₁ ⟨he, hran, _⟩
      have hran' : Ran k s s₁ := h.toRan.trans ((ran_answered k a s').trans hran.of_succ)
      refine ⟨he, hran', Nat.lt_of_lt_of_le h.first (hran.executed k), ?_⟩
      exact fun _ => .inr (.inr (Nat.lt_of_le_of_lt (Nat.zero_le _) hran.begun_lt))

theorem spec_rpc_unsettled {next : RpcM σ Unit} (hnext : Runs registry (k + 1) requests next) :
    Spec (fun _ => True) (rpc k next registry request) s
      (fun _ s' => RanFrom k (request :: requests) s s' ∧
        (settle registry (request :: requests) s.node = none →
          Twice (k + (request :: requests).length) s'))
      fun e s' => e = .delegated ∧ RanFrom k (request :: requests) s s' := by
  have hopened : RanFrom k (request :: requests) s (opened k request s) := ran_opened k request s
  have hcount : s.executed.count k < (opened k request s).executed.count k := by
    have := hopened.begun_lt
    rw [begun_cons, begun_cons] at this
    exact this
  apply (spec_rpc (fun a s' h => Retries.spec_answer hnext h a) _).mono
  . exact fun _ _ hs' => hs'
  . intro _ s' ⟨he, hs'⟩
    refine ⟨he, hs'.toRan, ?_⟩
    rw [begun_cons, begun_cons]
    exact hs'.first
  . unfold Starts
    split
    . next heq =>
      refine ⟨hopened.toRan, hcount, fun hbad => .inr (.inl ?_)⟩
      rw [settle, heq] at hbad
      exact hbad
    . next heq =>
      refine ⟨hopened.toRan, hcount, fun hbad => .inr (.inl ?_)⟩
      rw [settle, heq] at hbad
      exact hbad
    . next method args heq =>
      change Calls k next _ _ _ (method args s.node)
      cases hbehaviour : method args s.node with
      | returns value node =>
        refine ⟨hopened.toRan.trans (ran_setNode k _ node), hcount, fun hbad => .inr (.inl ?_)⟩
        rw [settle, heq] at hbad
        dsimp only at hbad
        rw [hbehaviour] at hbad
        exact hbad
      | throws e node =>
        refine ⟨hopened.toRan.trans (ran_setNode k _ node), hcount, fun hbad => .inr (.inl ?_)⟩
        rw [settle, heq] at hbad
        dsimp only at hbad
        rw [hbehaviour] at hbad
        exact hbad
      | abandons e node =>
        refine ⟨hopened.toRan.trans ((ran_setNode k _ node).trans (ran_delegate k _)), hcount, ?_⟩
        intro _
        left
        simp only [delegate, Function.update_self]
      | answers a node finish =>
        unfold Calls
        apply spec_pass
        have hdelegated :
            ((answered k a (delegate k { opened k request s with node })).msgs k).delegated
              = true := by
          simp only [answered, delegate, Function.update_self]
          cases a <;> rfl
        have hran : Ran k s (answered k a (delegate k { opened k request s with node })) :=
          hopened.toRan.trans ((ran_setNode k _ node).trans
            ((ran_delegate k _).trans (ran_answered k a _)))
        have hfirst {s₁ : RpcState σ} (h : RanFrom (k + 1) requests
            (answered k a (delegate k { opened k request s with node })) s₁) :
            s.executed.count k < s₁.executed.count k := Nat.lt_of_lt_of_le hcount (h.executed k)
        have hmoved {s₁ : RpcState σ} (h : RanFrom (k + 1) requests
            (answered k a (delegate k { opened k request s with node })) s₁) :
            (s₁.msgs k).delegated = true := by
          rw [h.msgs k (Nat.lt_succ_self k)]
          exact hdelegated
        apply (hnext _).mono
        . intro _ s₁ ⟨hs₁, htwice, hnode⟩
          have hran' := (hran.trans hs₁.of_succ).trans (ran_setNode k s₁ (finish s₁.node).2)
          have hlt : s.executed.count k < s₁.executed.count k := hfirst hs₁
          have hbegun {s' : RpcState σ} {bad : Prop} :
              bad ∨ settle registry requests s'.node = none ∨ 0 < begun (k + 1) requests s₁ :=
            .inr (.inr (Nat.lt_of_le_of_lt (Nat.zero_le _) hs₁.begun_lt))
          split
          . next hfinish =>
            refine ⟨⟨hran', ?_⟩, ?_⟩
            . rw [begun_cons, begun_cons]
              exact hlt
            intro hbad
            cases hsettle : settle registry requests node with
            | none =>
              rw [Nat.succ_add] at htwice
              exact htwice hsettle
            | some node' =>
              rw [hnode node' hsettle] at hfinish
              rw [settle, heq] at hbad
              dsimp only at hbad
              rw [hbehaviour] at hbad
              simp only [hsettle, hfinish, reduceCtorEq] at hbad
          . exact ⟨hran'.trans (ran_movedBack k true _), hlt, fun _ => hbegun⟩
          . next back hfinish =>
            refine ⟨hran'.trans (ran_movedBack k back _), hlt, fun _ => ?_⟩
            cases back with
            | false =>
              left
              simp only [movedBack, Function.update_self, hmoved hs₁, Bool.not_false, Bool.and_true]
            | true => exact hbegun
        . intro e s₁ ⟨_, hs₁, _⟩
          exact ⟨hran.trans hs₁.of_succ, hfirst hs₁, fun _ => .inl (hmoved hs₁)⟩

theorem Settled.ranFrom {node : σ} (h : Settled k requests s node s') :
    RanFrom k requests s s' where
  msgs := h.msgs
  executed j := by
    rw [h.executed, List.count_append]
    omega
  sent := by
    obtain ⟨responses, hsent, -⟩ := h.sent
    rw [hsent, List.length_append]
    omega
  begun_lt := by
    unfold begun
    split
    . obtain ⟨responses, hsent, -⟩ := h.sent
      rw [hsent, List.length_append, List.length_singleton]
      omega
    . next hne =>
      have hmem : k ∈ List.range' k requests.length := by
        rw [List.mem_range'_1]
        have := List.length_pos_iff.mpr hne
        omega
      rw [h.executed, List.count_append]
      have := List.count_pos_iff.mpr hmem
      omega

theorem runs_nextHandler (registry : Registry σ) (responseHandler : ResponseHandler) (k : Nat)
    (requests : List Variant) :
    Runs registry k requests (nextHandler registry responseHandler k requests) := by
  induction requests generalizing k with
  | nil =>
    intro s
    have hsettle : settle registry [] s.node = some s.node := rfl
    apply (spec_nextHandler_settled hsettle).mono
    . intro _ s' hs'
      refine ⟨hs'.ranFrom, ?_, ?_⟩
      . intro h
        cases h
      . intro node h
        cases h
        exact hs'.node
    . exact fun _ _ => False.elim
  | cons request requests ih =>
    intro s
    cases hsettle : settle registry (request :: requests) s.node with
    | some node =>
      apply (spec_nextHandler_settled hsettle).mono
      . intro _ s' hs'
        refine ⟨hs'.ranFrom, ?_, ?_⟩
        . intro h
          cases h
        . intro node' h
          cases h
          exact hs'.node
      . exact fun _ _ => False.elim
    | none =>
      apply Spec.handle
      apply (spec_rpc_unsettled (ih (k + 1))).mono
      . intro _ s' ⟨hran, htwice⟩
        refine ⟨hran, fun _ => htwice hsettle, ?_⟩
        intro node h
        cases h
      . rintro e s' ⟨rfl, hran⟩
        exact Spec.fail ⟨rfl, hran, rfl⟩

end unsettled

section call

variable {registry : Registry σ} {responseHandler : ResponseHandler} {requests : List Variant}
  {s : RpcState σ}

theorem state_of_spec {x : RpcM σ Unit} {P : RpcState σ → Prop}
    (h : Spec (fun _ => True) x s (fun _ s' => P s') fun _ s' => P s') : P (x s).state := by
  have hstate := h fun _ _ => trivial
  split at hstate
  . exact hstate
  . exact hstate

theorem call_settled (hrequests : requests ≠ []) {node : σ}
    (h : settle registry requests s.node = some node) :
    Settled 0 requests s node (call registry responseHandler requests s).state := by
  apply state_of_spec
  unfold call
  rw [if_neg hrequests]
  apply Spec.handle
  cases requests with
  | nil => exact absurd rfl hrequests
  | cons request requests =>
    apply (spec_rpc_settled (fun s node h => spec_nextHandler_settled h) h).mono
    . exact fun _ _ hs' => hs'
    . exact fun _ _ => False.elim

/-- A batch that does not settle repeats a request, or the handler is told of an error. -/
theorem call_unsettled (h : settle registry requests s.node = none) :
    Twice requests.length (call registry responseHandler requests s).state ∨
      ∃ response, .single response ∈ (call registry responseHandler requests s).state.sent := by
  apply state_of_spec
    (P := fun s' => Twice requests.length s' ∨ ∃ response, .single response ∈ s'.sent)
  have hrequests : requests ≠ [] := by
    rintro rfl
    cases h
  unfold call
  rw [if_neg hrequests]
  apply Spec.handle
  cases requests with
  | nil => cases h
  | cons request requests =>
    apply (spec_rpc_unsettled (runs_nextHandler registry responseHandler 1 requests)).mono
    . intro _ s' ⟨_, htwice⟩
      rw [Nat.zero_add] at htwice
      exact .inl (htwice h)
    . rintro e s' ⟨rfl, _⟩
      have hsent (error : JsonRpcError) :
          ∃ response, ResponseText.single response ∈ s'.sent ++ [.single { error := some error }] :=
        ⟨_, List.mem_append_right _ List.mem_cons_self⟩
      apply Spec.bind
      apply Spec.read
      apply Spec.bind
      apply Spec.modify
      apply Spec.ensure
      . exact fun _ => .inr (hsent _)
      . exact .inr (hsent _)

end call

/-- A batch is answered once, by every handler, exactly if no method throws too late. -/
theorem answersOnce_iff (registry : Registry σ) (requests : List Variant) (node : σ)
    (hrequests : requests ≠ []) :
    (∀ responseHandler, AnswersOnce registry responseHandler requests node)
      ↔
    Settles registry requests node := by
  unfold Settles
  rw [Option.isSome_iff_exists]
  constructor
  . intro h
    cases hsettle : settle registry requests node with
    | some node' => exact ⟨node', rfl⟩
    | none =>
      obtain ⟨hexecuted, hsent⟩ := h fun _ _ => false
      obtain ⟨responses, hsent, _⟩ := hsent fun _ _ => rfl
      have hunsettled :
          Twice requests.length (call registry (fun _ _ => false) requests { node }).state ∨
            ∃ response, .single response ∈
              (call registry (fun _ _ => false) requests { node }).state.sent :=
        call_unsettled hsettle
      rcases hunsettled with (⟨k, _, htwice⟩ | htwice) | ⟨response, hmem⟩
      . have hnodup := hexecuted.nodup_iff.mpr List.nodup_range
        have := List.nodup_iff_count_le_one.mp hnodup k
        omega
      . rw [hsent, List.length_singleton] at htwice
        omega
      . rw [hsent] at hmem
        cases List.mem_singleton.mp hmem
  . rintro ⟨node', hsettle⟩ responseHandler
    have hsettled : Settled 0 requests { node } node'
        (call registry responseHandler requests { node }).state := call_settled hrequests hsettle
    constructor
    . rw [hsettled.executed, List.range_eq_range']
      exact .refl _
    . intro _
      exact hsettled.sent

/-- An API that counts its calls: two methods answer, the second of them through a `msg_pack` of its
own; the third one throws too late. -/
def countingApis : Registry Nat := fun api =>
  if api = "counter" then
    some fun method =>
      if method = "count" then
        some fun _ calls => .returns .null (calls + 1)
      else if method = "wait" then
        some fun _ calls => .answers (.result .null) (calls + 1) fun calls => (.returns .null false, calls)
      else if method = "push" then
        some fun _ calls => .abandons (.fc "can't push") (calls + 1)
      else
        none
  else
    none

/-- A request for a method of that API. -/
def counterRequest (id : ℤ) (method : String) : Variant :=
  .object [("id", .int id), ("jsonrpc", .string "2.0"), ("method", .string "call"),
    ("params", .array [.string "counter", .string method])]

/-- The request that fails is executed again, when the error is taken for that of the one before. -/
theorem not_answersOnce_push :
    (call countingApis (fun _ _ => false) [counterRequest 1 "count", counterRequest 2 "push"]
        { node := 0 }).state.executed = [0, 1, 1]
      ∧
    ¬∀ responseHandler, AnswersOnce countingApis responseHandler
      [counterRequest 1 "count", counterRequest 2 "push"] 0 := by
  have hexecuted : (call countingApis (fun _ _ => false)
      [counterRequest 1 "count", counterRequest 2 "push"] { node := 0 }).state.executed
        = [0, 1, 1] := by
    decide
  refine ⟨hexecuted, fun h => ?_⟩
  have hperm := (h fun _ _ => false).executed
  rw [hexecuted] at hperm
  exact absurd hperm.length_eq (by decide)

/-- The second of three requests is answered through a `msg_pack` of its own. -/
def threeCalls : List Variant :=
  [counterRequest 1 "count", counterRequest 2 "wait", counterRequest 3 "count"]

theorem answersOnce_iff_count :
    settle countingApis threeCalls 0 = some 3 ∧
      ∀ responseHandler, AnswersOnce countingApis responseHandler threeCalls 0 := by
  have hsettle : settle countingApis threeCalls 0 = some 3 := by decide
  refine ⟨hsettle, (answersOnce_iff countingApis threeCalls 0 (List.cons_ne_nil _ _)).mpr ?_⟩
  rw [Settles, hsettle]
  rfl

end JsonRpc

end Golos
