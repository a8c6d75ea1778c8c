import Komenci.KitClient

/-! The replies of the API and what the kit reads in them: every answer is read back as it was
given, and of a failure the client learns what its status says. -/
namespace Komenci.Api
open JsonCodec Errors Kit HexText Sessions

inductive Endpoint
  | health
  | ready
  | startSession
  | checkSession
  | deployWallet
  | distributedBlindedPepper
  | requestSubsidisedAttestations
  | submitMetaTransaction
  deriving DecidableEq

def Endpoint.method : Endpoint → RequestMethod
  | .health | .ready | .checkSession => .GET
  | _ => .POST

/-- Under the path of the controller, `v1`. -/
def Endpoint.path : Endpoint → String
  | .health => "v1/health"
  | .ready => "v1/ready"
  | .startSession => "v1/startSession"
  | .checkSession => "v1/checkSession"
  | .deployWallet => "v1/deployWallet"
  | .distributedBlindedPepper => "v1/distributedBlindedPepper"
  | .requestSubsidisedAttestations => "v1/requestSubsidisedAttestations"
  | .submitMetaTransaction => "v1/submitMetaTransaction"

/-- The status of a reply when the handler returns. -/
def Endpoint.status (endpoint : Endpoint) : ℕ :=
  match endpoint.method with
  | .GET => 200
  | .POST => 201

lemma Endpoint.status_ok (endpoint : Endpoint) : 200 ≤ endpoint.status ∧ endpoint.status ≤ 299 := by
  cases endpoint <;> decide

/-- The endpoint an action is for. -/
def endpointOf : ActionTypes → Endpoint
  | .StartSession => .startSession
  | .DeployWallet => .deployWallet
  | .DistributedBlindedPepper => .distributedBlindedPepper
  | .SubmitMetaTransaction => .submitMetaTransaction
  | .RequestSubsidisedAttestation => .requestSubsidisedAttestations
  | .CheckService => .health
  | .CheckSession => .checkSession

def actionName : TrackedAction → String
  | .DistributedBlindedPepper => "distributedBlindedPepper"
  | .RequestSubsidisedAttestation => "requestSubsidisedAttestation"
  | .SubmitMetaTransaction => "submitMetaTransaction"

/-- What the handlers return to the kit. -/
inductive Answer
  | health
  | startSession (token : String) (callbackUrl : Option String)
  | checkSession (quotaLeft : TrackedAction → ℚ) (metaTxWalletAddress : Option String)
  | deployed (walletAddress : String)
  | inProgress (txHash deployerAddress : String)
  | distributedBlindedPepper (combinedSignature : String)
  | requestSubsidisedAttestations (txHash : String)
  | submitMetaTransaction (txHash : String)

def Answer.action : Answer → ActionTypes
  | .health => .CheckService
  | .startSession _ _ => .StartSession
  | .checkSession _ _ => .CheckSession
  | .deployed _ | .inProgress _ _ => .DeployWallet
  | .distributedBlindedPepper _ => .DistributedBlindedPepper
  | .requestSubsidisedAttestations _ => .RequestSubsidisedAttestation
  | .submitMetaTransaction _ => .SubmitMetaTransaction

def optional : Option String → Value
  | some s => .string s
  | none => .undefined

/-- The object that the handler returns. -/
def Answer.body : Answer → Value
  | .health => .ofFields [("status", .string "OK")]
  | .startSession token callbackUrl =>
    .ofFields [("token", .string token), ("callbackUrl", optional callbackUrl)]
  | .checkSession quotaLeft metaTxWalletAddress =>
    .ofFields [("quotaLeft", .ofFields (TrackedAction.values.map fun action =>
        (actionName action, .number (quotaLeft action)))),
      ("metaTxWalletAddress", optional metaTxWalletAddress)]
  | .deployed walletAddress =>
    .ofFields [("status", .string "deployed"), ("walletAddress", .string walletAddress)]
  | .inProgress txHash deployerAddress =>
    .ofFields [("status", .string "in-progress"), ("txHash", .string txHash),
      ("deployerAddress", .string deployerAddress)]
  | .distributedBlindedPepper combinedSignature =>
    .ofFields [("combinedSignature", .string combinedSignature)]
  | .requestSubsidisedAttestations txHash | .submitMetaTransaction txHash =>
    .ofFields [("txHash", .string txHash)]

/-- What the kit reads in a decoded response. -/
def readAnswer (v : Value) : ActionTypes → Option Answer
  | .CheckService =>
    if (v.property "status").asString = some "OK" then some .health else none
  | .StartSession => (v.property "token").asString.map fun token =>
    .startSession token (v.property "callbackUrl").asString
  | .CheckSession => do
    let pepper ← ((v.property "quotaLeft").property "distributedBlindedPepper").asNumber
    let request ← ((v.property "quotaLeft").property "requestSubsidisedAttestation").asNumber
    let submit ← ((v.property "quotaLeft").property "submitMetaTransaction").asNumber
    return .checkSession (fun
      | .DistributedBlindedPepper => pepper
      | .RequestSubsidisedAttestation => request
      | .SubmitMetaTransaction => submit) (v.property "metaTxWalletAddress").asString
  | .DeployWallet =>
    if (v.property "status").asString = some "deployed" then
      (v.property "walletAddress").asString.map .deployed
    else do
      let txHash ← (v.property "txHash").asString
      let deployerAddress ← (v.property "deployerAddress").asString
      return .inProgress txHash deployerAddress
  | .DistributedBlindedPepper =>
    (v.property "combinedSignature").asString.map .distributedBlindedPepper
  | .RequestSubsidisedAttestation =>
    (v.property "txHash").asString.map .requestSubsidisedAttestations
  | .SubmitMetaTransaction => (v.property "txHash").asString.map .submitMetaTransaction

structure Reply where
  status : ℕ
  body : Value

/-- The reply as the client gets it. -/
def Reply.fetched (r : Reply) : Fetched := .response r.status (some r.body.wire)

def Answer.reply (a : Answer) : Reply := ⟨(endpointOf a.action).status, a.body⟩

section Answers
variable (a : Answer)

lemma optional_codec (s : Option String) :
    Codec.union [Codec.undefined, Codec.string] (optional s) = true := by cases s <;> rfl

@[simp] lemma optional_asString (s : Option String) : (optional s).asString = s := by
  cases s <;> rfl

/-- The codecs of the kit accept on the wire what they accept. -/
lemma stable_codec (payload : Value) (action : ActionTypes) :
    (action.with payload).codec.Stable := by
  cases action <;>
    simp [ActionTypes.with, Kit.startSession, Kit.deployWallet, Kit.getDistributedBlindedPepper,
      Kit.submitMetaTransaction, Kit.requestSubsidisedAttestations, Kit.checkService,
      Kit.checkSession, CheckServiceResponse, CheckSessionResp, StartSessionResp,
      GetCombinedSignatureResp, DeployWalletResp, DeployWalletDeployed, DeployWalletInProgress,
      SubmitMetaTransactionResp]

/-- What a handler returns is of the type that the kit expects. -/
lemma body_codec (payload : Value) : (a.action.with payload).codec a.body = true := by
  cases a with
  | startSession token callbackUrl =>
    refine Codec.type_object.mpr ?_
    simpa [Value.property, List.lookup, Codec.string] using optional_codec callbackUrl
  | checkSession quotaLeft metaTxWalletAddress =>
    refine Codec.type_object.mpr ?_
    simpa [Value.property, List.lookup, Codec.string] using
      ⟨rfl, optional_codec metaTxWalletAddress⟩
  | _ => rfl

/-- The kit reads the answer that was given. -/
lemma readAnswer_body : readAnswer a.body.wire a.action = some a := by
  cases a with
  | checkSession quotaLeft metaTxWalletAddress =>
    have hquota : quotaLeft = fun
        | .DistributedBlindedPepper => quotaLeft .DistributedBlindedPepper
        | .RequestSubsidisedAttestation => quotaLeft .RequestSubsidisedAttestation
        | .SubmitMetaTransaction => quotaLeft .SubmitMetaTransaction := by
      funext action
      cases action <;> rfl
    simpa [readAnswer, Answer.action, Answer.body, Value.property_ofFields, List.lookup,
      TrackedAction.values, actionName] using hquota.symm
  | _ => simp [readAnswer, Answer.action, Answer.body, Value.property_ofFields, List.lookup]

lemma exec_ok {url : Text} {codec : Codec} {status : ℕ} {payload : Value}
    (hstatus : 200 ≤ status ∧ status ≤ 299) (h : codec payload = true) :
    exec url codec (.response status (some payload)) = .ok payload := by
  simp [exec, hstatus, Codec.decode, h]

/-- The quota of a session that can be read has a number for every action. -/
lemma quotaLeft_number {config : TrackedAction → ℚ} {session : Session} {quota : ActionCounts}
    (h : quotaLeft config session = some quota) :
    ∃ left : TrackedAction → ℚ, quota = fun action => some (left action) := by
  have hsome : (quotaLeft config session).isSome := by simp [h]
  have hget := getActionCount_of_shaped (shaped_of_quotaLeft hsome)
  refine ⟨fun action => Doubles.sub (config action) (session.count action), ?_⟩
  simp only [quotaLeft, hget, TrackedAction.values, List.foldlM_cons, List.foldlM_nil,
    Option.pure_def, Option.bind_eq_bind, Option.bind_some, Option.some.injEq] at h
  rw [← h]
  funext action
  cases action <;> simp

end Answers

/-- The answer that `GET checkSession` gives. -/
def Answers (r : CheckSessionResponse) (a : Answer) : Prop :=
  ∃ left wallet, a = .checkSession left (wallet.map String.ofList) ∧
    r = ⟨fun action => some (left action), wallet⟩

/-- The request of an action reaches its endpoint, and the client reads the answer that the
endpoint gives; `checkSession` gives one whenever it returns. -/
theorem kit_reads_answer (a : Answer) (payload : Value) (url : Text) :
    (endpointOf a.action).method = (a.action.with payload).method ∧
    (endpointOf a.action).path = (a.action.with payload).path ∧
    (∃ decodedResp, exec url (a.action.with payload).codec a.reply.fetched = .ok decodedResp ∧
      readAnswer decodedResp a.action = some a) ∧
    ∀ cfg deployer chain now session r,
      Sessions.checkSession cfg deployer chain now session = some r → ∃ b, Answers r b := by
  refine ⟨?_, ?_, ⟨a.body.wire, ?_, readAnswer_body a⟩, ?_⟩
  · cases a <;> rfl
  · cases a <;> rfl
  · exact exec_ok (Endpoint.status_ok _) (stable_codec payload a.action _ (body_codec a payload))
  · intro cfg deployer chain now session r h
    unfold Sessions.checkSession at h
    split at h
    · cases h
    · obtain ⟨quota, hquota, rfl⟩ := Option.map_eq_some_iff.mp h
      obtain ⟨left, rfl⟩ := quotaLeft_number hquota
      exact ⟨_, left, _, rfl, rfl⟩

/-- What the handlers of the API, or the guards and pipes before them, throw. -/
inductive Exception
  | httpException (status : ℕ) (response : Value)
  | error (err : Thrown)

def isObject : Value → Bool
  | .array _ _ | .object _ _ => true
  | _ => false

/-- `ApiErrorFilter.catch`. It handles itself what is no `HttpException`. -/
def apiErrorFilter : Exception → Reply
  | .httpException status response =>
    ⟨status, if isObject response then response
      else .ofFields [("statusCode", .number status), ("message", response)]⟩
  | .error err =>
    if err.isApiError then ⟨err.statusCode, err.toJSON⟩
    else ⟨500, .ofFields [("statusCode", .number 500),
      ("message", .string "Internal server error")]⟩

def QuotaExceededError (action : TrackedAction) : Thrown :=
  apiError 429 ["action"] "QuotaExceededError" ("Quota exceeded on " ++ actionName action)
    [("action", .string (actionName action))]

def InvalidToken : Thrown := apiError 401 [] "InvalidToken" "Invalid or outdated token" []

def SessionUnavailable (sessionId : String) : Thrown :=
  apiError 401 ["sessionId"] "SessionUnavailable" "Session no longer available"
    [("sessionId", .string sessionId)]

def InvalidImplementation (address : String) : Thrown :=
  apiError 400 ["address"] "InvalidImplementation"
    "Unexpected MetaTransactionWallet implementation address" [("address", .string address)]

def InvalidWallet (reason : Value) : Thrown :=
  apiError 400 ["reason"] "InvalidWallet" "Invalid wallet" [("reason", reason)]

def InvalidRootTransaction (rootMessage : String → String) (tx : Value) : Thrown :=
  apiError 400 ["tx"] "MetaTx.InvalidRootTransaction" (rootMessage "MetaTx.InvalidRootTransaction")
    [("tx", tx)]

def TransactionNotAllowed (rootMessage : String → String) (tx : Value) : Thrown :=
  apiError 400 ["tx"] "MetaTx.TransactionNotAllowed" (rootMessage "MetaTx.TransactionNotAllowed")
    [("tx", tx)]

def TransactionDecodeError (tx : Value) (error : String) : Thrown :=
  apiError 400 ["tx"] "MetaTx.TransactionDecodeError" error [("tx", tx), ("error", .string error)]

/-- A relayer's error as the API throws it. -/
def relayerError (rootMessage : String → String) : RelayerError → Thrown
  | .RelayerTimeout cmd => metadataError ["cmd"] "RelayerTimeout" (rootMessage "RelayerTimeout")
      [("cmd", .string cmd)]
  | .RelayerCommunicationError message cmd =>
    metadataError ["cmd"] "RelayerCommunicationError" (message.asString.getD "undefined")
      [("cmd", .string cmd)]
  | .RelayerInternalError internalError =>
    metadataError ["internalError"] "RelayerInternalError"
      ("Relayer encountered an error: " ++ ((internalError.property "errorType").asString.getD "") ++
        " " ++ ((internalError.property "message").asString.getD ""))
      [("internalError", internalError)]

/-- The ways a request to the API fails. What is no API error and no HTTP exception is some
other one. -/
inductive Failure
  | unauthorized (response : Value)
  | throttled (response : Value)
  | badRequest (response : Value)
  | quotaExceeded (action : TrackedAction)
  | invalidToken
  | sessionUnavailable (sessionId : String)
  | invalidImplementation (address : String)
  | invalidWallet (reason : Value)
  | invalidRootTransaction (tx : Value)
  | transactionNotAllowed (tx : Value)
  | transactionDecodeError (tx : Value) (error : String)
  | relayer (error : RelayerError)
  | other (err : Thrown) (notApi : err.isApiError = false)

def Failure.exception (rootMessage : String → String) : Failure → Exception
  | .unauthorized response => .httpException 401 response
  | .throttled response => .httpException 429 response
  | .badRequest response => .httpException 400 response
  | .quotaExceeded action => .error (QuotaExceededError action)
  | .invalidToken => .error InvalidToken
  | .sessionUnavailable sessionId => .error (SessionUnavailable sessionId)
  | .invalidImplementation address => .error (InvalidImplementation address)
  | .invalidWallet reason => .error (InvalidWallet reason)
  | .invalidRootTransaction tx => .error (InvalidRootTransaction rootMessage tx)
  | .transactionNotAllowed tx => .error (TransactionNotAllowed rootMessage tx)
  | .transactionDecodeError tx error => .error (TransactionDecodeError tx error)
  | .relayer error => .error (relayerError rootMessage error)
  | .other err _ => .error err

/-- As what the kit sees the failure. -/
def Failure.seenAs : Failure → ErrorType
  | .unauthorized _ | .invalidToken | .sessionUnavailable _ => .Unauthorised
  | .throttled _ | .quotaExceeded _ => .QuotaExceededError
  | .relayer _ | .other _ _ => .ServiceUnavailable
  | _ => .RequestError

section Failures
variable (url : Text) (codec : Codec)

/-- What the client makes of a reply of one of the API's statuses. -/
lemma exec_failed {r : Reply} {errorType : ErrorType}
    (h : r.status = 401 ∧ errorType = .Unauthorised ∨ r.status = 429 ∧ errorType = .QuotaExceededError ∨
      r.status = 500 ∧ errorType = .ServiceUnavailable ∨ r.status = 400 ∧ errorType = .RequestError) :
    ∃ error, exec url codec r.fetched = .error error ∧ error.errorType = errorType ∧
      ∀ data, error = .RequestError data → data = r.body.wire := by
  obtain ⟨status, body⟩ := r
  rcases h with ⟨rfl, rfl⟩ | ⟨rfl, rfl⟩ | ⟨rfl, rfl⟩ | ⟨rfl, rfl⟩
  · exact ⟨_, rfl, rfl, fun _ h => by cases h⟩
  · exact ⟨_, rfl, rfl, fun _ h => by cases h⟩
  · exact ⟨_, rfl, rfl, fun _ h => by cases h⟩
  · refine ⟨_, rfl, rfl, fun data h => ?_⟩
    cases h
    rfl

/-- The body that `toJSON` makes of an API error. -/
lemma toJSON_property (e : Thrown) :
    e.toJSON.property "errorType" = e.property "errorType" ∧
      e.toJSON.property "message" = e.property "message" ∧
      ∀ key, (e.toJSON.property "metadata").property key =
        if key ∈ e.metadataProps then e.property key else .undefined := by
  unfold Thrown.toJSON
  simp only [Value.property_ofFields]
  refine ⟨rfl, rfl, fun key => ?_⟩
  by_cases hprops : e.metadataProps.length > 0
  · simpa [hprops, List.lookup] using getMetadata_property e key
  · have hnil : e.metadataProps = [] := List.length_eq_zero_iff.mp (by omega)
    simp [hnil, List.lookup, Value.property]

lemma relayerError_not_api (rootMessage : String → String) (error : RelayerError) :
    (relayerError rootMessage error).isApiError = false := by cases error <;> rfl

lemma apiErrorFilter_other {err : Thrown} (h : err.isApiError = false) :
    apiErrorFilter (.error err) = ⟨500, .ofFields [("statusCode", .number 500),
      ("message", .string "Internal server error")]⟩ := if_neg (by simp [h])

/-- The status of the reply, and what it is seen as. -/
lemma failure_status (rootMessage : String → String) (f : Failure) :
    let r := apiErrorFilter (f.exception rootMessage)
    r.status = 401 ∧ f.seenAs = .Unauthorised ∨ r.status = 429 ∧ f.seenAs = .QuotaExceededError ∨
      r.status = 500 ∧ f.seenAs = .ServiceUnavailable ∨ r.status = 400 ∧ f.seenAs = .RequestError := by
  cases f with
  | relayer error =>
    simp [Failure.exception, Failure.seenAs, apiErrorFilter_other (relayerError_not_api rootMessage error)]
  | other err notApi => simp [Failure.exception, Failure.seenAs, apiErrorFilter_other notApi]
  | _ => simp [Failure.exception, Failure.seenAs, apiErrorFilter, QuotaExceededError, InvalidToken,
      SessionUnavailable, InvalidImplementation, InvalidWallet, InvalidRootTransaction,
      TransactionNotAllowed, TransactionDecodeError, apiError, Thrown.ofFields, Thrown.isApiError]

/-- A reply other than 500 to a thrown error is that of an API error. -/
lemma apiErrorFilter_body {err : Thrown} (h : (apiErrorFilter (.error err)).status ≠ 500) :
    (apiErrorFilter (.error err)).body = err.toJSON := by
  by_cases hapi : err.isApiError = true
  · simp [apiErrorFilter, hapi]
  · rw [apiErrorFilter_other (Bool.eq_false_iff.mpr hapi)] at h
    exact absurd rfl h

end Failures

/-- The kit tells the failures of the API apart by the type it sees them as. Of an API error that
is the caller's fault it reads type, message and metadata; of a failure of the relayer, or of
anything else, the reply says nothing. -/
theorem kit_reads_failure (rootMessage : String → String) (f : Failure) (url : Text)
    (codec : Codec) :
    (∃ error, exec url codec (apiErrorFilter (f.exception rootMessage)).fetched = .error error ∧
      error.errorType = f.seenAs ∧
      ∀ data err, error = .RequestError data → f.exception rootMessage = .error err →
        data.property "errorType" = (err.property "errorType").wire ∧
        data.property "message" = (err.property "message").wire ∧
        ∀ key, (data.property "metadata").property key =
          if key ∈ err.metadataProps then (err.property key).wire else .undefined) ∧
    ∀ g : Failure, f.seenAs = .ServiceUnavailable → g.seenAs = .ServiceUnavailable →
      apiErrorFilter (f.exception rootMessage) = apiErrorFilter (g.exception rootMessage) := by
  have hstatus := failure_status rootMessage f
  obtain ⟨error, hexec, htype, hdata⟩ := exec_failed url codec hstatus
  refine ⟨⟨error, hexec, htype, ?_⟩, ?_⟩
  · rintro data err rfl hexception
    rw [hexception] at hdata hstatus
    have hrequest : f.seenAs = .RequestError := htype.symm
    have hbody : (apiErrorFilter (.error err)).body = err.toJSON :=
      apiErrorFilter_body (by simp_all)
    obtain ⟨hjsonType, hmessage, hmetadata⟩ := toJSON_property err
    rw [hdata data rfl, hbody]
    refine ⟨?_, ?_, fun key => ?_⟩
    · rw [Value.property_wire, hjsonType]
    · rw [Value.property_wire, hmessage]
    · rw [Value.property_wire, Value.property_wire, hmetadata]
      split_ifs <;> rfl
  · intro g hf hg
    have hsame : ∀ h : Failure, h.seenAs = .ServiceUnavailable →
        apiErrorFilter (h.exception rootMessage) = ⟨500, .ofFields [("statusCode", .number 500),
          ("message", .string "Internal server error")]⟩ := by
      intro h hh
      cases h with
      | relayer error => exact apiErrorFilter_other (relayerError_not_api rootMessage error)
      | other err notApi => exact apiErrorFilter_other notApi
      | _ => cases hh
    rw [hsame f hf, hsame g hg]

end Komenci.Api
