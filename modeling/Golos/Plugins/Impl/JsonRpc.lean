import Mathlib.Data.Int.Notation
import Mathlib.Logic.Function.Basic
import Golos.Lib.Effect

/-!
This module contains the plugin `json_rpc`: the requests of a batch, each of which runs the next one
when it is answered, and the API methods that they call, which may move their `msg_pack` away.
-/

namespace Golos

/-- `fc::variant`, as it is read from JSON. A number that is no integer is kept as its text. -/
inductive Variant where
  | null
  | bool (b : Bool)
  | int (n : ℤ)
  | double (text : String)
  | string (s : String)
  | array (elements : List Variant)
  | object (members : List (String × Variant))

namespace JsonRpc

/-- The exceptions of the API that `rpc_jsonrpc` knows, in the order it asks for them. -/
inductive GolosException where
  | unsupportedOperation
  | parameterException
  | businessException
  | txMissingAuthority
  | txInvalidOperation
  | transactionException
  | golosException
  deriving DecidableEq

def GolosException.code : GolosException → ℤ
  | .unsupportedOperation => -32001
  | .parameterException => -32002
  | .businessException => -32003
  | .txMissingAuthority => -32004
  | .txInvalidOperation => -32005
  | .transactionException => -32006
  | .golosException => -32000

/-- What may be thrown, with its text. The first four are exceptions of `fc`. -/
inductive RpcException where
  | badCast (text : String)
  | golos (kind : GolosException) (text : String)
  /-- `FC_ASSERT(valid(), ..)` -/
  | delegated
  | fc (text : String)
  /-- `websocketpp::exception` -/
  | websocket (text : String)
  | std (text : String)
  | other
  deriving DecidableEq

def jsonRpcInvalidRequest : ℤ := -32600

def jsonRpcMethodNotFound : ℤ := -32601

def jsonRpcInternalError : ℤ := -32603

/-- The code and the text of `json_rpc_error`; its data are left out. -/
structure JsonRpcError where
  code : ℤ
  message : String

structure JsonRpcResponse where
  id : Option Variant := none
  result : Option Variant := none
  error : Option JsonRpcError := none

/-- What `fc::json::to_string` is called with for the response handler. -/
inductive ResponseText where
  | batch (responses : List JsonRpcResponse)
  | single (response : JsonRpcResponse)

structure MsgPack where
  /-- There is no `pimpl`, since it was moved to another `msg_pack`. -/
  delegated : Bool := false
  response : JsonRpcResponse := {}

section methods

variable (σ : Type)

inductive Answer where
  | result (value : Variant)
  | error (code : ℤ) (message : String)

/-- How a method ends that has answered: it may have moved the `msg_pack` back. -/
inductive Finish where
  | returns (value : Variant) (movedBack : Bool)
  | throws (e : RpcException) (movedBack : Bool)

/-- What a call of an API method does, and the state of the node it leaves. -/
inductive Behaviour where
  | returns (value : Variant) (s : σ)
  | throws (e : RpcException) (s : σ)
  /-- It moves the `msg_pack` away, answers through that one, and ends. -/
  | answers (answer : Answer) (s : σ) (finish : σ → Finish × σ)
  /-- It moves the `msg_pack` away and throws. -/
  | abandons (e : RpcException) (s : σ)

abbrev ApiMethod :=
  List Variant → σ → Behaviour σ

/-- `_registered_apis` -/
abbrev Registry :=
  String → Option (String → Option (ApiMethod σ))

end methods

variable {σ : Type}

section parsing

def asString : Variant → Except RpcException String
  | .null => .ok ""
  | .bool b => .ok (if b then "true" else "false")
  | .int n => .ok (toString n)
  | .double text => .ok text
  | .string s => .ok s
  | .array _ => .error (.badCast "Invalid cast from array to string")
  | .object _ => .error (.badCast "Invalid cast from object to string")

/-- `contains` and `operator[]` of `variant_object` -/
def member (request : List (String × Variant)) (key : String) : Option Variant :=
  (request.find? fun m => m.1 = key).map Prod.snd

/-- What becomes of a request before a method is called. -/
inductive Parsed (σ : Type) where
  /-- `msg.error(code, message)` and a return. -/
  | reject (code : ℤ) (message : String)
  | raise (e : RpcException)
  | call (method : ApiMethod σ) (args : List Variant)

def findApiMethod (registry : Registry σ) (api method : String) (args : Variant) : Parsed σ :=
  match registry api with
  | none => .reject jsonRpcMethodNotFound "Could not find API ${api}"
  | some methods =>
    match methods method with
    | none => .reject jsonRpcMethodNotFound "Could not find method ${method}"
    | some method =>
      match args with
      | .array args => .call method args
      | _ => .reject jsonRpcInvalidRequest "A member \"args\" should be array"

def processParams (registry : Registry σ) (request : List (String × Variant)) : Parsed σ :=
  match member request "params" with
  | none => .reject jsonRpcInvalidRequest "A member \"params\" does not exist"
  | some params =>
    let v := match params with
      | .array elements => elements
      | _ => []
    match v with
    | api :: method :: rest =>
      if 1 < rest.length then
        .reject jsonRpcInvalidRequest "A member \"params\" should be [\"api\", \"method\", \"args\"]"
      else
        match asString api, asString method with
        | .ok api, .ok method => findApiMethod registry api method (rest.headD (.array []))
        | .error e, _ => .raise e
        | _, .error e => .raise e
    | _ => .reject jsonRpcInvalidRequest "A member \"params\" should be [\"api\", \"method\", \"args\"]"

/-- The member is there and its text is the given one, unless it has none. -/
def hasText (request : List (String × Variant)) (key text : String) : Except RpcException Bool :=
  match member request key with
  | none => .ok false
  | some v => (asString v).map fun s => s = text

/-- The checks of `rpc_jsonrpc` behind that of the id; a `bad_cast_exception` of theirs is caught. -/
def checkRequest (registry : Registry σ) (request : List (String × Variant)) : Parsed σ :=
  match hasText request "jsonrpc" "2.0" with
  | .error _ => .reject jsonRpcInvalidRequest "Invalid request structure"
  | .ok false => .reject jsonRpcInvalidRequest "jsonrpc value is not \"2.0\""
  | .ok true =>
    match hasText request "method" "call" with
    | .error _ => .reject jsonRpcInvalidRequest "Invalid request structure"
    | .ok false => .reject jsonRpcInvalidRequest "A member \"method\" is not \"call\""
    | .ok true => processParams registry request

/-- What `rpc_jsonrpc` does before the call: the id that it passes on, and what follows. -/
def parse (registry : Registry σ) : Variant → Option Variant × Parsed σ
  | .object request =>
    match member request "id" with
    | none => (none, checkRequest registry request)
    | some (.int n) => (some (.int n), checkRequest registry request)
    | some (.string s) => (some (.string s), checkRequest registry request)
    | some _ =>
      (none, .raise (.fc "Only integer value or string is allowed for member \"id\""))
  | _ => (none, .reject jsonRpcInvalidRequest "Invalid request structure")

end parsing

variable (σ) in
/-- The state of the node, the responses of the batch so far and the `msg_pack` of each request. -/
structure RpcState where
  node : σ
  responses : List JsonRpcResponse := []
  msgs : Nat → MsgPack := fun _ => {}
  /-- The requests that were executed, by their numbers, each time they were. -/
  executed : List Nat := []
  /-- What the response handler was called with. -/
  sent : List ResponseText := []

abbrev RpcM (σ : Type) :=
  Effect Empty RpcException (RpcState σ)

section msgPack

variable (k : Nat) (next : RpcM σ Unit)

def modifyMsg (f : MsgPack → MsgPack) : RpcM σ Unit :=
  .modify fun s => { s with msgs := Function.update s.msgs k (f (s.msgs k)) }

def setNode (node : σ) : RpcM σ Unit :=
  .modify fun s => { s with node := node }

/-- The handler of the `msg_pack`: the response is added and the next request is run. -/
def callHandler : RpcM σ Unit := do
  .modify fun s => { s with responses := s.responses ++ [(s.msgs k).response] }
  next

/-- `catch (const websocketpp::exception &)` -/
def ignoringWebsocket (x : RpcM σ Unit) : RpcM σ Unit :=
  x.handle fun
    | .websocket _ => pure ()
    | e => .fail e

def assertValid : RpcM σ Unit := do
  let s ← Effect.read
  Effect.ensure ((s.msgs k).delegated = false) .delegated

/-- What the `msg_pack` that holds `pimpl` does for `result` and for `error`. -/
def pass : Answer → RpcM σ Unit
  | .result value => do
    modifyMsg k fun msg => { msg with response := { msg.response with result := some value } }
    ignoringWebsocket (callHandler k next)
  | .error code message => do
    modifyMsg k fun msg =>
      { msg with response := { msg.response with error := some ⟨code, message⟩ } }
    ignoringWebsocket (callHandler k next)

/-- `msg_pack::result`, `msg_pack::error` -/
def answer (a : Answer) : RpcM σ Unit := do
  assertValid k
  pass k next a

/-- The `msg_pack` is there again if it was moved back. -/
def moveBack (movedBack : Bool) : RpcM σ Unit :=
  modifyMsg k fun msg => { msg with delegated := msg.delegated && !movedBack }

/-- The call of the method and what is done with the value it returns if the `msg_pack` is there. -/
def callMethod : Behaviour σ → RpcM σ Unit
  | .returns value s => do
    setNode s
    answer k next (.result value)
  | .throws e s => do
    setNode s
    .fail e
  | .answers a s finish => do
    setNode s
    modifyMsg k fun msg => { msg with delegated := true }
    pass k next a
    let s ← Effect.read
    setNode (finish s.node).2
    match (finish s.node).1 with
    | .returns _ false => pure ()
    | .returns value true => do
      moveBack k true
      answer k next (.result value)
    | .throws e movedBack => do
      moveBack k movedBack
      .fail e
  | .abandons e s => do
    setNode s
    modifyMsg k fun msg => { msg with delegated := true }
    .fail e

def execute (method : ApiMethod σ) (args : List Variant) : RpcM σ Unit :=
  (do
    let s ← Effect.read
    callMethod k next (method args s.node)).handle fun
      | .golos kind text => answer k next (.error kind.code text)
      | e => .fail e

def rpcJsonrpc (registry : Registry σ) (request : Variant) : RpcM σ Unit := do
  modifyMsg k fun msg =>
    { msg with response := { msg.response with id := (parse registry request).1 } }
  match (parse registry request).2 with
  | .reject code message => answer k next (.error code message)
  | .raise e => .fail e
  | .call method args => execute k next method args

/-- `to_string` or `what` -/
def RpcException.text : RpcException → String
  | .badCast text | .golos _ text | .fc text | .websocket text | .std text => text
  | .delegated => "The msg_pack delegated its handlers"
  | .other => ""

/-- The text of the error that `rpc` answers for an exception. -/
def RpcException.internalError (e : RpcException) : String :=
  if e = .other then "Unknown error - parsing rpc message failed" else "Internal error: " ++ e.text

def rpc (registry : Registry σ) (request : Variant) : RpcM σ Unit := do
  .modify fun s => { s with executed := s.executed ++ [k], msgs := Function.update s.msgs k {} }
  (rpcJsonrpc k next registry request).handle fun e =>
    answer k next (.error jsonRpcInternalError e.internalError)

end msgPack

section batch

/-- Whether the response handler throws a `websocketpp::exception`, by what it was called with before. -/
abbrev ResponseHandler :=
  List ResponseText → ResponseText → Bool

variable (registry : Registry σ) (responseHandler : ResponseHandler)

def respond (text : ResponseText) : RpcM σ Unit := do
  let s ← Effect.read
  .modify fun s => { s with sent := s.sent ++ [text] }
  Effect.ensure (responseHandler s.sent text = false) (.websocket "can't send")

/-- The chain of handlers of a batch, from the request with number `k` on. -/
def nextHandler (k : Nat) : List Variant → RpcM σ Unit
  | [] => do
    let s ← Effect.read
    respond responseHandler (.batch s.responses)
  | request :: requests => rpc k (nextHandler (k + 1) requests) registry request

def RpcException.isFc : RpcException → Bool
  | .badCast _ | .golos _ _ | .delegated | .fc _ => true
  | _ => false

/-- `call` with a message that is an array. -/
def call (requests : List Variant) : RpcM σ Unit :=
  if requests = [] then
    respond responseHandler
      (.single { error := some ⟨jsonRpcInvalidRequest, "Array of requests must be non-empty"⟩ })
  else
    (nextHandler registry responseHandler 0 requests).handle fun e =>
      if e.isFc then
        respond responseHandler (.single { error := some ⟨jsonRpcInternalError, e.text⟩ })
      else
        .fail e

end batch

end JsonRpc

end Golos
