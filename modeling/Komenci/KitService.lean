import Komenci.Interleaving
import Komenci.Retry

/-! The client: every try of a call signs its transaction anew, posts it with retries of its own
and waits for the receipt of what was submitted. -/
namespace Komenci.Kit
open Interleaving

/-- `FetchErrorTypes` and `TxErrorTypes`. -/
inductive ErrorType
  | Unauthorised
  | RequestError
  | ServiceUnavailable
  | UnexpectedStatus
  | NetworkError
  | DecodeError
  | NotFoundError
  | QuotaExceededError
  | Timeout
  | Revert
  | EventNotFound
  deriving DecidableEq

/-- The error is one of `FetchErrorTypes`, which is all that the client returns. -/
def ErrorType.isFetchError : ErrorType → Bool
  | .Timeout | .Revert | .EventNotFound => false
  | _ => true

/-- The decorator with these types to bail on; `onRetry` logs. -/
def retryOptions {ε τ : Type} (tries : ℕ) (bailOnErrorTypes : List τ) :
    Retry.RetryOptions ε τ Unit := ⟨tries, some bailOnErrorTypes, none, some ()⟩

/-- Of `KomenciClient.exec`. -/
def execBails : List ErrorType := [.Unauthorised, .RequestError]

/-- Of `submitMetaTransaction` and `requestAttestations`. -/
def submitBails : List ErrorType :=
  [.Unauthorised, .ServiceUnavailable, .QuotaExceededError, .Revert]

def execRetry : Retry.RetryOptions ErrorType ErrorType Unit := retryOptions 3 execBails

def submitRetry : Retry.RetryOptions ErrorType ErrorType Unit := retryOptions 3 submitBails

structure KomenciOptions where
  txRetryTimeoutMs : ℕ
  txPollingIntervalMs : ℕ

def DEFAULT_OPTIONS : KomenciOptions := ⟨20000, 100⟩

/-- A call of the kit. The first may be given a nonce to sign with. -/
inductive Call
  | submitMetaTransaction (nonce : Option ℕ)
  | requestAttestations
  deriving DecidableEq

def Call.nonce : Call → Option ℕ
  | .submitMetaTransaction nonce => nonce
  | .requestAttestations => none

/-- How many meta-transactions it signs, from its nonce on. They are executed in one batch. -/
def Call.count : Call → ℕ
  | .submitMetaTransaction _ => 1
  | .requestAttestations => 2

/-- What a call has signed and posted. -/
structure Signed (ι : Type) where
  call : ι
  nonce : ℕ
  deriving DecidableEq

/-- The wallet, the requests that may have reached the service, and the transactions it has
made of them. `executed` counts how often the wallet has executed what a call has signed. -/
structure Shared (ι : Type) where
  nonce : ℕ
  posted : List (Signed ι)
  submitted : ℕ → Option ℕ
  receipts : ℕ → Option Bool
  executed : ι → ℕ

/-- Where a call stands. -/
inductive Phase
  | start
  | nonce (tries : ℕ)
  | sign (tries nonce : ℕ)
  | exec (tries nonce execTries : ℕ)
  | response (tries nonce execTries request : ℕ)
  | waitForReceipt (tries txHash waited : ℕ)
  | resolved (error : Option ErrorType)
  | rejected
  deriving DecidableEq

/-- The last three are steps of the outside world: the service submits a transaction for a
request, it is included in a block, somebody else uses the wallet. -/
inductive Event
  | start
  | nonce
  | sign
  | fetch
  | response (txHash : ℕ)
  | error (e : ErrorType)
  | receipt
  | throw
  | submit (request txHash : ℕ)
  | mine (txHash : ℕ) (status : Bool)
  | other (count : ℕ)
  deriving DecidableEq

section Steps
variable {ι : Type} [DecidableEq ι] (options : KomenciOptions) (call : ι → Call)

/-- A try begins. -/
def tryOnce (call : Call) (tries : ℕ) : Phase :=
  match call.nonce with
  | some nonce => .sign tries nonce
  | none => .nonce tries

def failed (call : Call) (tries : ℕ) (error : ErrorType) : Phase :=
  if submitRetry.again id tries error then tryOnce call (tries + 1) else .resolved (some error)

def execFailed (call : Call) (tries nonce execTries : ℕ) (error : ErrorType) : Phase :=
  if execRetry.again id execTries error then .exec tries nonce (execTries + 1)
  else failed call tries error

def whileWaiting (call : Call) (tries txHash waited : ℕ) : Phase :=
  if waited < options.txRetryTimeoutMs then .waitForReceipt tries txHash waited
  else failed call tries .Timeout

/-- A call of `submitMetaTransaction` or `requestAttestations`. -/
def submit (i : ι) (s : Shared ι) : Phase → Event → Option (Shared ι × Phase)
  | .start, .start => some (s, tryOnce (call i) 1)
  | .nonce tries, .nonce => some (s, .sign tries s.nonce)
  | .sign tries nonce, .sign => some (s, .exec tries nonce 1)
  | .exec tries nonce execTries, .fetch =>
    some ({ s with posted := s.posted ++ [⟨i, nonce⟩] },
      .response tries nonce execTries s.posted.length)
  | .response tries _ _ request, .response txHash =>
    if s.submitted txHash = some request then
      some (s, whileWaiting options (call i) tries txHash 0)
    else none
  | .response tries nonce execTries _, .error e =>
    if e.isFetchError then some (s, execFailed (call i) tries nonce execTries e) else none
  | .waitForReceipt tries txHash waited, .receipt =>
    match s.receipts txHash with
    | none => some (s, whileWaiting options (call i) tries txHash (waited + options.txPollingIntervalMs))
    | some true => some (s, .resolved none)
    | some false => some (s, failed (call i) tries .Revert)
  -- A rejected promise is no result, and is not retried.
  | .nonce _, .throw | .sign _ _, .throw | .waitForReceipt _ _ _, .throw => some (s, .rejected)
  | _, _ => none

/-- In a transaction of the service: it succeeds only with a signature
over the current nonce. -/
def executeMetaTransaction (txHash : ℕ) (status : Bool) (s : Shared ι) : Option (Shared ι) :=
  match (s.submitted txHash).bind fun request => s.posted[request]?, s.receipts txHash with
  | some signed, none =>
    if signed.nonce = s.nonce ∧ status = true then
      some { s with
        nonce := s.nonce + (call signed.call).count
        executed := Function.update s.executed signed.call (s.executed signed.call + 1)
        receipts := Function.update s.receipts txHash (some true) }
    else some { s with receipts := Function.update s.receipts txHash (some false) }
  | _, _ => none

def world (e : Event) (c : Config (Shared ι) ι Phase) : Option (Config (Shared ι) ι Phase) :=
  match e with
  | .submit request txHash =>
    if request < c.shared.posted.length ∧ c.shared.submitted txHash = none then
      some ⟨{ c.shared with
        submitted := Function.update c.shared.submitted txHash (some request) }, c.task⟩
    else none
  | .mine txHash status => (executeMetaTransaction call txHash status c.shared).map fun s => ⟨s, c.task⟩
  | .other count => some ⟨{ c.shared with nonce := c.shared.nonce + count }, c.task⟩
  | _ => none

def machine : Machine (Shared ι) ι Phase Event where
  seg i e s p := submit options call i s p e
  env := world call

end Steps

end Komenci.Kit
