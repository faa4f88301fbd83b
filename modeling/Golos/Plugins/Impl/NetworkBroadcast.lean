import Mathlib.Algebra.Group.Int.Defs
import Mathlib.Algebra.Group.Nat.Defs
import Mathlib.Logic.Function.Basic
import Golos.Lib.Transition

/-!
This module contains the plugin `network_broadcast_api`: the requests that wait for a block with their
transaction, the callbacks that answer them, and the other requests of their batches.
-/

namespace Golos

namespace NetworkBroadcast

variable {Id : Type}

variable (Id) in
structure SignedBlock where
  blockNum : Nat
  timestamp : Nat
  transactions : List Id

/-- What a client gets. -/
inductive Response where
  | error
  /-- `broadcast_transaction_synchronous_t`, less the id -/
  | result (blockNum trxNum : ℤ) (expired : Bool)
  deriving DecidableEq

/-- A request of a batch: one that locks the mutex of the plugin, or any other. -/
inductive Call where
  | synchronous
  | other
  deriving DecidableEq

/-- Whether `accept_transaction` has returned, or thrown. -/
inductive Phase where
  | accepting
  | accepted
  | refused
  deriving DecidableEq

variable (Id) in
structure Request where
  trx : Id
  /-- The rest of the batch, which is run when the request is answered. -/
  rest : List Call := []
  phase : Phase := .accepting
  /-- The `msg_pack` that the callback shares has not been moved back. -/
  valid : Bool := true
  responses : List Response := []
  /-- The number of blocks that were applied before the callback was stored. -/
  stored : Nat

variable (Id) in
structure Broadcast where
  requests : Nat → Option (Request Id) := fun _ => none
  nextRequest : Nat := 0
  /-- `_callbacks`, with the request that each of them answers. -/
  callbacks : Id → Option Nat := fun _ => none
  /-- `_callback_expirations` in the order of the times. -/
  expirations : List (Nat × List Id) := []
  /-- The blocks in the order in which they were applied. -/
  applied : List (SignedBlock Id) := []
  /-- A thread waits for a mutex that it holds itself. -/
  blocked : Bool := false

/-- `int32_t` from an unsigned number. -/
def int32 (n : Nat) : ℤ :=
  ((n : ℤ) + 2 ^ 31) % 2 ^ 32 - 2 ^ 31

/-- `_callback_expirations[time].push_back(id)` -/
def pushBack (time : Nat) (id : Id) : List (Nat × List Id) → List (Nat × List Id)
  | [] => [(time, [id])]
  | (time', ids) :: rest =>
    if time < time' then
      (time, [id]) :: (time', ids) :: rest
    else if time = time' then
      (time', ids ++ [id]) :: rest
    else
      (time', ids) :: pushBack time id rest

namespace Broadcast

variable [DecidableEq Id] (expirationOf : Id → Nat)

def modifyRequest (s : Broadcast Id) (n : Nat) (f : Request Id → Request Id) : Broadcast Id :=
  { s with requests := Function.update s.requests n ((s.requests n).map f) }

/--
What `broadcast_transaction_synchronous` and `broadcast_transaction_with_callback` do before
`accept_transaction`.
-/
def register (s : Broadcast Id) (trx : Id) (rest : List Call) : Broadcast Id :=
  { s with
    requests := Function.update s.requests s.nextRequest
      (some { trx := trx, rest := rest, stored := s.applied.length })
    nextRequest := s.nextRequest + 1
    callbacks := Function.update s.callbacks trx (some s.nextRequest)
    expirations := pushBack (expirationOf trx) trx s.expirations }

/-- `transfer.complete()` -/
def accept (s : Broadcast Id) (n : Nat) : Broadcast Id :=
  s.modifyRequest n fun r => { r with phase := .accepted }

/-- The `msg_pack` is moved back, and gets the error of `accept_transaction`. -/
def refuse (s : Broadcast Id) (n : Nat) : Broadcast Id :=
  s.modifyRequest n fun r =>
    { r with phase := .refused, valid := false, responses := r.responses ++ [.error] }

/-- A call of the callback, under the mutex. The rest of the batch is run before it returns. -/
def answer (s : Broadcast Id) (n : Nat) (response : Response) : Broadcast Id :=
  match s.requests n with
  | none => s
  | some r =>
    if r.valid then
      { s.modifyRequest n fun r => { r with responses := r.responses ++ [response] } with
        blocked := s.blocked || decide (.synchronous ∈ r.rest) }
    else
      s

def erase (s : Broadcast Id) (id : Id) : Broadcast Id :=
  { s with callbacks := Function.update s.callbacks id none }

/-- The callbacks of transactions are called, each with a response, and erased. -/
def callBackAll : List (Id × Response) → Broadcast Id → Broadcast Id
  | [], s => s
  | (id, response) :: l, s =>
    match s.callbacks id with
    | none => callBackAll l s
    | some n =>
      if (s.answer n response).blocked then
        s.answer n response
      else
        callBackAll l ((s.answer n response).erase id)

/-- The responses to the transactions of a block, from one position on. -/
def confirmations (blockNum : Nat) : List Id → Nat → List (Id × Response)
  | [], _ => []
  | id :: ids, trxNum =>
    (id, .result (int32 blockNum) (int32 trxNum) false) :: confirmations blockNum ids (trxNum + 1)

/-- The loop that clears all expirations. -/
def clearExpirations (b : SignedBlock Id) : List (Nat × List Id) → Broadcast Id → Broadcast Id
  | [], s => { s with expirations := [] }
  | (time, ids) :: rest, s =>
    if b.timestamp ≤ time then
      { s with expirations := (time, ids) :: rest }
    else
      let s := callBackAll (ids.map fun id => (id, .result (int32 b.blockNum) (-1) true)) s
      if s.blocked then s else clearExpirations b rest s

def onAppliedBlock (s : Broadcast Id) (b : SignedBlock Id) : Broadcast Id :=
  let s := { s with applied := s.applied ++ [b] }
  let s := callBackAll (confirmations b.blockNum b.transactions 0) s
  if s.blocked then s else clearExpirations b s.expirations s

inductive Event (Id : Type) where
  | request (trx : Id) (rest : List Call)
  | accepted (n : Nat)
  | refused (n : Nat)
  | applied (b : SignedBlock Id)
  | popped

def Step (s : Broadcast Id) : Event Id → Broadcast Id → Prop
  | .request trx rest, s' => s.blocked = false ∧ s' = s.register expirationOf trx rest
  | .accepted n, s' =>
    s.blocked = false ∧ (∃ r, s.requests n = some r ∧ r.phase = .accepting) ∧ s' = s.accept n
  | .refused n, s' =>
    s.blocked = false ∧ (∃ r, s.requests n = some r ∧ r.phase = .accepting) ∧ s' = s.refuse n
  | .applied b, s' => s.blocked = false ∧ s' = s.onAppliedBlock b
  | .popped, s' => s.blocked = false ∧ s' = s

/-- The runs of the node, told when each transaction expires. Blocks may be popped and applied again. -/
def broadcasting : TransitionSystem (Broadcast Id) (Event Id) where
  initial s := s = {}
  step := Step expirationOf

end Broadcast

end NetworkBroadcast

end Golos
