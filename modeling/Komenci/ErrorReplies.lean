import Komenci.JsonCodec

/-! Errors on their way: what the relayer throws reaches the API as an RPC payload, and what the
API throws reaches its client as an HTTP reply. -/
namespace Komenci.Errors
open JsonCodec

/-- What an error may have under `errorTypeSymbol`. -/
inductive ErrorTypeSymbol
  | metadataErrorSymbol
  | apiErrorSymbol
  deriving DecidableEq

/-- A thrown object with the properties that `in` finds. `statusCode` is read of API errors
only. -/
structure Thrown where
  errorTypeSymbol : Option ErrorTypeSymbol
  statusCode : ℕ
  metadataProps : List String
  keys : List String
  get : String → Value
  enumerable : String → Bool

namespace Thrown

def property (e : Thrown) (key : String) : Value := (Value.object e.keys e.get).property key

def getMetadata (e : Thrown) : Value :=
  .object (e.metadataProps.filter fun key => e.keys.contains key) e.get

def isRootError (e : Thrown) : Bool := !(e.property "errorType").isUndefined

def isMetadataError (e : Thrown) : Bool := e.errorTypeSymbol = some .metadataErrorSymbol

def isApiError (e : Thrown) : Bool := e.errorTypeSymbol = some .apiErrorSymbol

/-- `ApiError.toJSON` -/
def toJSON (e : Thrown) : Value :=
  .ofFields ([("statusCode", .number e.statusCode), ("errorType", e.property "errorType"),
      ("message", e.property "message")] ++
    if e.metadataProps.length > 0 then [("metadata", e.getMetadata)] else [])

/-- What `JSON.stringify` sees of an error that has no `toJSON`. -/
def ownEnumerable (e : Thrown) : Value := .object (e.keys.filter e.enumerable) e.get

end Thrown

/-- The properties of every error, and those that its class adds. -/
def Thrown.ofFields (errorTypeSymbol : Option ErrorTypeSymbol) (statusCode : ℕ)
    (metadataProps : List String) (errorType message : String) (fields : List (String × Value)) :
    Thrown where
  errorTypeSymbol := errorTypeSymbol
  statusCode := statusCode
  metadataProps := metadataProps
  keys := "errorType" :: "message" :: fields.map Prod.fst
  get key :=
    if key = "errorType" then .string errorType
    else if key = "message" then .string message
    else (fields.lookup key).getD .undefined
  enumerable key := key ≠ "message"

def metadataError (metadataProps : List String) (errorType message : String)
    (fields : List (String × Value)) : Thrown :=
  .ofFields (some .metadataErrorSymbol) 0 metadataProps errorType message fields

def apiError (statusCode : ℕ) (metadataProps : List String) (errorType message : String)
    (fields : List (String × Value)) : Thrown :=
  .ofFields (some .apiErrorSymbol) statusCode metadataProps errorType message fields

def TxSubmitError (err : String) (tx : Value) : Thrown :=
  metadataError ["tx"] "TxSubmitError" ("TxSubmitError: " ++ err) [("err", .string err), ("tx", tx)]

/-- `RpcErrorFilter.catch` -/
def rpcErrorFilter (err : Thrown) : Value :=
  if err.isMetadataError then
    .ofFields [("errorType", err.property "errorType"), ("message", err.property "message"),
      ("metadata", err.getMetadata)]
  else if err.isRootError then
    .ofFields [("errorType", err.property "errorType"), ("message", err.property "message")]
  else if (err.property "message").truthy then
    .ofFields [("errorType", .string "Exception"), ("message", err.property "message")]
  else err.ownEnumerable

def InternalErrorPayload : Codec :=
  .type [("errorType", .string), ("message", .string), ("metadata", .unknown)]

/-- What comes back for a command in time. -/
inductive Delivery
  | response (resp : Value)
  | error (err : Value)

inductive RelayerError
  | RelayerTimeout (cmd : String)
  | RelayerCommunicationError (message : Value) (cmd : String)
  | RelayerInternalError (internalError : Value)

/-- `RelayerProxyService.execute`, of the API and of the rewards service. The race is lost to the
timeout when nothing comes back. -/
def execute (cmd : String) : Option Delivery → Except RelayerError Value
  | none => .error (.RelayerTimeout cmd)
  | some (.response resp) => .ok resp
  | some (.error err) =>
    match InternalErrorPayload.decode err with
    | some internalError => .error (.RelayerInternalError internalError)
    | none => .error (.RelayerCommunicationError (err.property "message") cmd)

/-- A command whose handler throws: the filter's payload crosses the wire. -/
def executeThrown (cmd : String) (err : Thrown) : Except RelayerError Value :=
  execute cmd (some (.error (rpcErrorFilter err).wire))

/-- A property that is a text. -/
def Thrown.says (e : Thrown) (key : String) : Prop := ∃ s, e.property key = .string s

/-- The error has a type and a message that are texts; without a type a message is enough. -/
def Thrown.Reported (e : Thrown) : Prop :=
  if e.isMetadataError || e.isRootError then e.says "errorType" ∧ e.says "message"
  else ∃ s, e.property "message" = .string s ∧ s ≠ ""

/-- The type under which an error is reported. -/
def Thrown.reportedType (e : Thrown) : Value :=
  if e.isMetadataError || e.isRootError then e.property "errorType" else .string "Exception"

section Rpc
variable {e : Thrown} {cmd : String}

/-- Whatever the filter makes of an error arrives as an object. -/
lemma rpcErrorFilter_object (e : Thrown) :
    ∃ keys get, (rpcErrorFilter e).wire = .object keys get := by
  unfold rpcErrorFilter
  split_ifs
  all_goals exact ⟨_, _, rfl⟩

/-- The codec asks of the payload for the two texts. -/
lemma internalErrorPayload_iff (e : Thrown) : InternalErrorPayload (rpcErrorFilter e).wire = true ↔
    (∃ s, (rpcErrorFilter e).property "errorType" = .string s) ∧
      ∃ s, (rpcErrorFilter e).property "message" = .string s := by
  obtain ⟨keys, get, hobject⟩ := rpcErrorFilter_object e
  rw [hobject, InternalErrorPayload, Codec.type_object, ← hobject]
  simp [Codec.string_iff, Codec.unknown]

/-- An error without a type that is sent on as it is has none there either. -/
lemma ownEnumerable_errorType (h : e.isRootError = false) :
    e.ownEnumerable.property "errorType" = .undefined := by
  have hundefined : e.property "errorType" = .undefined :=
    Value.eq_undefined_of_isUndefined (by simpa [Thrown.isRootError] using h)
  rw [Thrown.property] at hundefined
  rw [Thrown.ownEnumerable, Value.property_filter, hundefined, ite_self]

lemma message_truthy_iff : (∃ s, e.property "message" = .string s ∧ s ≠ "") ↔
    e.says "message" ∧ (e.property "message").truthy = true := by
  constructor
  · rintro ⟨s, hs, hne⟩
    exact ⟨⟨s, hs⟩, by simpa [hs, Value.truthy] using hne⟩
  · rintro ⟨⟨s, hs⟩, htruthy⟩
    exact ⟨s, hs, by simpa [hs, Value.truthy] using htruthy⟩

/-- The payload is taken for an internal error exactly when the error is reported. -/
lemma internalErrorPayload_reported (e : Thrown) :
    InternalErrorPayload (rpcErrorFilter e).wire = true ↔ e.Reported := by
  rw [internalErrorPayload_iff]
  unfold rpcErrorFilter Thrown.Reported
  by_cases hmeta : e.isMetadataError = true
  · simp [hmeta, Value.property_ofFields, List.lookup, Thrown.says]
  · by_cases hroot : e.isRootError = true
    · simp [hmeta, hroot, Value.property_ofFields, List.lookup, Thrown.says]
    · have hundefined := ownEnumerable_errorType (Bool.eq_false_iff.mpr hroot)
      rw [message_truthy_iff]
      by_cases htruthy : (e.property "message").truthy = true
      · simp [hmeta, hroot, htruthy, Value.property_ofFields, List.lookup, Thrown.says]
      · simp [hmeta, hroot, htruthy, hundefined]

/-- What the payload of a reported error says. -/
lemma rpcErrorFilter_property (h : e.Reported) :
    (rpcErrorFilter e).property "errorType" = e.reportedType ∧
      (rpcErrorFilter e).property "message" = e.property "message" ∧
      (rpcErrorFilter e).property "metadata" =
        if e.isMetadataError then e.getMetadata else .undefined := by
  unfold Thrown.Reported at h
  unfold rpcErrorFilter Thrown.reportedType
  by_cases hmeta : e.isMetadataError = true
  · simp [hmeta, Value.property_ofFields, List.lookup]
  · by_cases hroot : e.isRootError = true
    · simp [hmeta, hroot, Value.property_ofFields, List.lookup]
    · simp only [hmeta, hroot, Bool.or_self] at h
      have htruthy := (message_truthy_iff.mp h).2
      simp [hmeta, hroot, htruthy, Value.property_ofFields, List.lookup]

lemma wire_of_says {key : String} (h : e.says key) : (e.property key).wire = e.property key := by
  obtain ⟨s, hs⟩ := h
  rw [hs, Value.wire_string]

/-- The type and the message of a reported error are texts. -/
lemma texts_of_reported (h : e.Reported) : (∃ s, e.reportedType = .string s) ∧ e.says "message" := by
  unfold Thrown.Reported at h
  unfold Thrown.reportedType
  by_cases hroot : (e.isMetadataError || e.isRootError) = true
  · simpa [hroot, Thrown.says] using h
  · simp only [hroot] at h
    exact ⟨⟨"Exception", by simp [hroot]⟩, (message_truthy_iff.mp h).1⟩

lemma getMetadata_property (e : Thrown) (key : String) :
    e.getMetadata.property key = if key ∈ e.metadataProps then e.property key else .undefined := by
  unfold Thrown.getMetadata Thrown.property
  by_cases hprops : key ∈ e.metadataProps <;> by_cases hkey : key ∈ e.keys <;>
    simp [Value.property, hprops, hkey]

end Rpc

@[simp] lemma ofFields_errorType (symbol : Option ErrorTypeSymbol) (statusCode : ℕ)
    (metadataProps : List String) (errorType message : String) (fields : List (String × Value)) :
    (Thrown.ofFields symbol statusCode metadataProps errorType message fields).property
      "errorType" = .string errorType := by
  simp [Thrown.property, Thrown.ofFields, Value.property]

@[simp] lemma ofFields_message (symbol : Option ErrorTypeSymbol) (statusCode : ℕ)
    (metadataProps : List String) (errorType message : String) (fields : List (String × Value)) :
    (Thrown.ofFields symbol statusCode metadataProps errorType message fields).property
      "message" = .string message := by
  simp [Thrown.property, Thrown.ofFields, Value.property]

/-- Every error of the hierarchy is reported. -/
lemma ofFields_reported (symbol : Option ErrorTypeSymbol) (statusCode : ℕ)
    (metadataProps : List String) (errorType message : String) (fields : List (String × Value)) :
    (Thrown.ofFields symbol statusCode metadataProps errorType message fields).Reported := by
  simp [Thrown.Reported, Thrown.isRootError, Thrown.says, Value.isUndefined]

/-- An error of the relayer reaches the API as an internal error exactly when it is reported, and
then with its type, its message and the metadata its class names; any other one counts as a
failure of the communication. -/
theorem relayer_error_reaches_api (cmd : String) (e : Thrown) :
    (e.Reported → ∃ internalError,
      executeThrown cmd e = .error (.RelayerInternalError internalError) ∧
      internalError.property "errorType" = e.reportedType ∧
      internalError.property "message" = e.property "message" ∧
      ∀ key, (internalError.property "metadata").property key =
        if e.isMetadataError ∧ key ∈ e.metadataProps then (e.property key).wire else .undefined) ∧
    (¬ e.Reported → ∃ message,
      executeThrown cmd e = .error (.RelayerCommunicationError message cmd)) := by
  constructor
  · intro h
    have hdecode : InternalErrorPayload.decode (rpcErrorFilter e).wire =
        some (rpcErrorFilter e).wire := if_pos ((internalErrorPayload_reported e).mpr h)
    obtain ⟨htype, hmessage, hmetadata⟩ := rpcErrorFilter_property h
    obtain ⟨⟨s, hs⟩, hsays⟩ := texts_of_reported h
    refine ⟨(rpcErrorFilter e).wire, ?_, ?_, ?_, fun key => ?_⟩
    · rw [executeThrown, execute, hdecode]
    · rw [Value.property_wire, htype, hs, Value.wire_string]
    · rw [Value.property_wire, hmessage, wire_of_says hsays]
    · rw [Value.property_wire, Value.property_wire, hmetadata]
      by_cases hmeta : e.isMetadataError = true
      · rw [if_pos hmeta, getMetadata_property]
        by_cases hkey : key ∈ e.metadataProps <;> simp [hmeta, hkey]
      · simp [hmeta, Value.property]
  · intro h
    have hnone : InternalErrorPayload.decode (rpcErrorFilter e).wire = none :=
      if_neg fun hpayload => h ((internalErrorPayload_reported e).mp hpayload)
    exact ⟨_, by rw [executeThrown, execute, hnone]⟩

/-- The price that was too low is not in the payload, the transaction that failed is. -/
theorem relayer_error_reaches_api_submit : ∃ internalError,
    executeThrown "submitTransaction" (TxSubmitError "out of gas" (.string "0x")) =
      .error (.RelayerInternalError internalError) ∧
    internalError.property "errorType" = .string "TxSubmitError" ∧
    (internalError.property "metadata").property "tx" = .string "0x" := by
  obtain ⟨internalError, hexecute, htype, -, hmetadata⟩ :=
    (relayer_error_reaches_api "submitTransaction" (TxSubmitError "out of gas" (.string "0x"))).1
      (ofFields_reported _ _ _ _ _ _)
  exact ⟨internalError, hexecute, htype, hmetadata "tx"⟩

end Komenci.Errors
