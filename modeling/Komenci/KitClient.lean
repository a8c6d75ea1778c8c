import Komenci.ErrorReplies
import Komenci.KitService
import Komenci.SessionLookup

/-! The client of the kit and the endpoints of the API: which request an action becomes, and
what the client makes of the reply. -/
namespace Komenci.Kit
open JsonCodec Errors HexText Sessions

inductive ActionTypes
  | StartSession
  | DeployWallet
  | DistributedBlindedPepper
  | SubmitMetaTransaction
  | RequestSubsidisedAttestation
  | CheckService
  | CheckSession
  deriving DecidableEq

inductive RequestMethod
  | POST
  | GET
  deriving DecidableEq

structure Action where
  method : RequestMethod
  action : ActionTypes
  path : String
  /-- `none` for `null`. -/
  payload : Option Value
  codec : Codec

def CheckServiceResponse : Codec := .type [("status", .string)]

def CheckSessionResp : Codec :=
  .type [("quotaLeft", .type [("distributedBlindedPepper", .number),
      ("requestSubsidisedAttestation", .number), ("submitMetaTransaction", .number)]),
    ("metaTxWalletAddress", .union [.undefined, .string])]

def StartSessionResp : Codec :=
  .type [("token", .string), ("callbackUrl", .union [.undefined, .string])]

def GetCombinedSignatureResp : Codec := .type [("combinedSignature", .string)]

def DeployWalletDeployed : Codec :=
  .type [("status", .literal "deployed"), ("walletAddress", .string)]

def DeployWalletInProgress : Codec :=
  .type [("status", .literal "in-progress"), ("txHash", .string), ("deployerAddress", .string)]

def DeployWalletResp : Codec := .union [DeployWalletDeployed, DeployWalletInProgress]

def SubmitMetaTransactionResp : Codec := .type [("txHash", .string)]

def checkService : Action := ⟨.GET, .CheckService, "v1/health", none, CheckServiceResponse⟩

def checkSession : Action := ⟨.GET, .CheckSession, "v1/checkSession", none, CheckSessionResp⟩

def startSession (payload : Value) : Action :=
  ⟨.POST, .StartSession, "v1/startSession", some payload, StartSessionResp⟩

def getDistributedBlindedPepper (payload : Value) : Action :=
  ⟨.POST, .DistributedBlindedPepper, "v1/distributedBlindedPepper", some payload,
    GetCombinedSignatureResp⟩

def deployWallet (payload : Value) : Action :=
  ⟨.POST, .DeployWallet, "v1/deployWallet", some payload, DeployWalletResp⟩

def submitMetaTransaction (payload : Value) : Action :=
  ⟨.POST, .SubmitMetaTransaction, "v1/submitMetaTransaction", some payload,
    SubmitMetaTransactionResp⟩

def requestSubsidisedAttestations (payload : Value) : Action :=
  ⟨.POST, .RequestSubsidisedAttestation, "v1/requestSubsidisedAttestations", some payload,
    SubmitMetaTransactionResp⟩

/-- The action of a type. -/
def ActionTypes.with (payload : Value) : ActionTypes → Action
  | .StartSession => startSession payload
  | .DeployWallet => deployWallet payload
  | .DistributedBlindedPepper => getDistributedBlindedPepper payload
  | .SubmitMetaTransaction => submitMetaTransaction payload
  | .RequestSubsidisedAttestation => requestSubsidisedAttestations payload
  | .CheckService => checkService
  | .CheckSession => checkSession

structure KomenciClient where
  token : Option String
  callbackUrl : Text

structure HttpRequest where
  url : Text
  method : RequestMethod
  body : Option Value
  authorization : Option String

/-- `callbackUrl.replace(/\/$/, '') + '/'` -/
def trailingSlash (callbackUrl : Text) : Text :=
  (if callbackUrl.getLast? = some '/' then callbackUrl.dropLast else callbackUrl) ++ ['/']

def KomenciClient.setCallbackUrl (client : KomenciClient) (callbackUrl : Text) : KomenciClient :=
  { client with callbackUrl := trailingSlash callbackUrl }

def KomenciClient.setToken (client : KomenciClient) (token : String) : KomenciClient :=
  { client with token := some token }

/-- What `exec` sends. An empty token counts as none. -/
def KomenciClient.request (client : KomenciClient) (action : Action) : HttpRequest where
  url := client.callbackUrl ++ action.path.toList
  method := action.method
  body := action.payload.map Value.wire
  authorization := (client.token.filter fun token => token ≠ "").map ("Bearer " ++ ·)

/-- What comes of `fetch`. A body that is not JSON has no value. -/
inductive Fetched
  | rejected
  | response (status : ℕ) (json : Option Value)

inductive FetchError
  | Unauthorised
  | RequestError (data : Value)
  | ServiceUnavailable
  | UnexpectedStatus (statusCode : ℕ)
  | NetworkError
  | ResponseDecodeError (received : Value)
  | NotFoundError (path : Text)
  | QuotaExceededError

def FetchError.errorType : FetchError → ErrorType
  | .Unauthorised => .Unauthorised
  | .RequestError _ => .RequestError
  | .ServiceUnavailable => .ServiceUnavailable
  | .UnexpectedStatus _ => .UnexpectedStatus
  | .NetworkError => .NetworkError
  | .ResponseDecodeError _ => .DecodeError
  | .NotFoundError _ => .NotFoundError
  | .QuotaExceededError => .QuotaExceededError

/-- One try of `KomenciClient.exec`, with what has come of its request. -/
def exec (url : Text) (codec : Codec) : Fetched → Except FetchError Value
  | .rejected => .error .NetworkError
  | .response status json =>
    if 200 ≤ status ∧ status ≤ 299 then
      match json with
      | none => .error .NetworkError
      | some payload =>
        match codec.decode payload with
        | some decodedResp => .ok decodedResp
        | none => .error (.ResponseDecodeError payload)
    else if status = 401 then .error .Unauthorised
    else if status = 404 then .error (.NotFoundError url)
    else if status = 429 then .error .QuotaExceededError
    else if status = 400 then
      match json with
      | none => .error .NetworkError
      | some payload => .error (.RequestError payload)
    else if 500 ≤ status ∧ status ≤ 599 then .error .ServiceUnavailable
    else .error (.UnexpectedStatus status)

end Komenci.Kit
