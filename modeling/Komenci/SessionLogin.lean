import Komenci.ApiReplies
import Komenci.Gateway
import Komenci.SessionAccounts

/-! From the login to the session of a later request: the gateway admits the caller, the token
names the row of the account, and every request of the kit brings the token back. -/
namespace Komenci.Login
open JsonCodec Kit HexText Wallet Sessions Gateway

def TokenPayload : Codec := .type [("sessionId", .string)]

def tokenPayload (sessionId : String) : Value := .ofFields [("sessionId", .string sessionId)]

/-- The configuration of the API, and the libraries that read a header and sign a token. -/
structure Environment where
  cfg : AppConfig
  callbackUrl : String
  rules : RulesConfig
  isAddress : Text → Bool
  isAddress_spelled : ∀ t, isAddress t = true → Spelled t
  /-- The text of an id. -/
  uuid : ℕ → String
  uuid_injective : Function.Injective uuid
  /-- The token of a payload with this `sessionId`, signed at this time. -/
  sign : String → ℕ → String
  sign_ne : ∀ sessionId now, sign sessionId now ≠ ""
  /-- `none` for a token that is not signed with the secret. -/
  verify : String → Option Value
  /-- Signing adds the time of issue to the payload, and tokens do not expire. -/
  verify_sign : ∀ sessionId now, ∃ keys get, verify (sign sessionId now) = some (.object keys get) ∧
    ∀ key, key ≠ "iat" →
      (Value.object keys get).property key = (tokenPayload sessionId).wire.property key
  fromAuthHeaderAsBearerToken : String → Option String
  bearer_sign : ∀ sessionId now,
    fromAuthHeaderAsBearerToken ("Bearer " ++ sign sessionId now) = some (sign sessionId now)

/-- A login that has been answered, with what the third parties have said of it. -/
structure Grant where
  tp : ThirdParties
  dto : StartSessionDto
  id : ℕ
  issuedAt : ℕ
  token : String

structure Server where
  table : Table
  grants : List Grant

inductive AuthError
  /-- Of the guard. -/
  | Unauthorized
  | InvalidToken
  | SessionUnavailable (sessionId : String)

section Api
variable (env : Environment)

/-- `POST startSession`. `none` is a request that is refused, or throws. -/
def startSession (tp : ThirdParties) (startSessionDto : StartSessionDto) (now : ℕ) (s : Server) :
    Option (Api.Answer × Server) :=
  if env.isAddress startSessionDto.externalAccount.toList then
    match GatewayService.verify tp startSessionDto env.rules with
    | some true =>
      (s.table.findOrCreateForAccount env.cfg.quota startSessionDto.externalAccount.toList now).map
        fun found =>
          let token := env.sign (env.uuid found.1.id) now
          (.startSession token (some env.callbackUrl),
            ⟨found.2, s.grants ++ [⟨tp, startSessionDto, found.1.id, now, token⟩]⟩)
    | _ => none
  else none

def findOne (t : Table) (id : String) : Option SessionRow := t.rows.find? fun r => env.uuid r.id = id

/-- `AuthService.recoverSession` -/
def recoverSession (t : Table) (payload : Value) : Except AuthError SessionRow :=
  match TokenPayload.decode payload with
  | none => .error .InvalidToken
  | some payload =>
    let sessionId := (payload.property "sessionId").asString.getD ""
    match findOne env t sessionId with
    | some session => .ok session
    | none => .error (.SessionUnavailable sessionId)

/-- The guard of the other requests. -/
def authenticate (t : Table) (authorization : Option String) : Except AuthError SessionRow :=
  match (authorization.bind env.fromAuthHeaderAsBearerToken).bind env.verify with
  | none => .error .Unauthorized
  | some payload => recoverSession env t payload

inductive Event
  | startSession (tp : ThirdParties) (dto : StartSessionDto) (now : ℕ)
  | op (op : Op)

def step (s : Server) : Event → Server
  | .startSession tp dto now =>
    match startSession env tp dto now s with
    | some (_, s') => s'
    | none => s
  | .op op => { s with table := s.table.after env.cfg op }

def run (s : Server) (events : List Event) : Server := events.foldl (step env) s

end Api

inductive StartError
  | AuthenticationFailed
  | fetch (error : FetchError)

/-- The end of `startSession` of the kit. -/
def afterStart (client : KomenciClient) (resp : Except FetchError Value) :
    KomenciClient × Except StartError Value :=
  match resp with
  | .ok result =>
    let withToken := client.setToken ((result.property "token").asString.getD "")
    match (result.property "callbackUrl").asString with
    | some callbackUrl =>
      (if callbackUrl ≠ "" then withToken.setCallbackUrl callbackUrl.toList else withToken, .ok result)
    | none => (withToken, .ok result)
  | .error .Unauthorised => (client, .error .AuthenticationFailed)
  | .error error => (client, .error (.fetch error))

section Rows
variable {env : Environment} {t t' : Table} {r : SessionRow} {a : Text}

/-- A row is found by its id. -/
lemma findOne_uuid (t : Table) (hr : r ∈ t.rows) : findOne env t (env.uuid r.id) = some r := by
  cases hfind : findOne env t (env.uuid r.id) with
  | none => exact absurd (List.find?_eq_none.mp hfind r hr) (by simp)
  | some q =>
    have hid : env.uuid q.id = env.uuid r.id := by simpa using List.find?_some hfind
    rw [t.eq_of_id (List.mem_of_find?_eq_some hfind) hr (env.uuid_injective hid)]

/-- A login is given a row of its account: one of the table, or a new one. -/
lemma findOrCreateForAccount_row {config : TrackedAction → ℚ} {now : ℕ} (ha : Spelled a)
    (h : t.findOrCreateForAccount config a now = some (r, t')) :
    r ∈ t'.rows ∧ account r.externalAccount = account a ∧ t.Keeps t' ∧
      (r ∈ t.rows ∨ t.nextId ≤ r.id) := by
  obtain ⟨hfind, rfl⟩ | hcreate := findOrCreateForAccount_cases h
  · obtain ⟨hr, hkey⟩ := findLastForAccount_mem hfind
    exact ⟨hr, hkey ▸ account_trimLeading0x ha, .refl _, .inl hr⟩
  · obtain ⟨rfl, rfl⟩ := Prod.mk.inj hcreate
    refine ⟨?_, account_normalizeAddress ha, create_keeps t a now, .inr (le_refl _)⟩
    simp

end Rows

section Tokens
variable {env : Environment}

/-- The guard recovers from a token the row that it was signed for. -/
lemma authenticate_token (t : Table) (id now : ℕ) :
    authenticate env t (some ("Bearer " ++ env.sign (env.uuid id) now)) =
      match findOne env t (env.uuid id) with
      | some session => .ok session
      | none => .error (.SessionUnavailable (env.uuid id)) := by
  obtain ⟨keys, get, hverify, hpayload⟩ := env.verify_sign (env.uuid id) now
  have hid : (Value.object keys get).property "sessionId" = .string (env.uuid id) := by
    rw [hpayload "sessionId" (by decide), Value.property_wire]
    rfl
  have hdecode : TokenPayload.decode (.object keys get) = some (.object keys get) := by
    refine if_pos (Codec.type_object.mpr fun p hp => ?_)
    rw [List.mem_singleton.mp hp, hid]
    rfl
  simp [authenticate, env.bearer_sign, hverify, recoverSession, hdecode, hid]

/-- The kit sends the token that it has been given, to the address that it has been given. -/
lemma request_afterStart {resp : Value} {token callbackUrl : String} (client : KomenciClient)
    (action : Action) (htoken : resp.property "token" = .string token)
    (hurl : resp.property "callbackUrl" = .string callbackUrl) (hne : token ≠ "") :
    let request := (afterStart client (.ok resp)).1.request action
    request.authorization = some ("Bearer " ++ token) ∧
      (callbackUrl ≠ "" → request.url = trailingSlash callbackUrl.toList ++ action.path.toList) := by
  by_cases hempty : callbackUrl = ""
  · simp [afterStart, htoken, hurl, KomenciClient.request, KomenciClient.setToken, hempty, hne]
  · simp [afterStart, htoken, hurl, KomenciClient.request, KomenciClient.setToken,
      KomenciClient.setCallbackUrl, hempty, hne]

/-- The kit reads the answer to a login. -/
lemma exec_start (url : Text) (token callbackUrl : String) : ∃ resp,
    exec url StartSessionResp (Api.Answer.startSession token (some callbackUrl)).reply.fetched =
      .ok resp ∧
    resp.property "token" = .string token ∧ resp.property "callbackUrl" = .string callbackUrl := by
  refine ⟨(Api.Answer.startSession token (some callbackUrl)).body.wire, ?_, ?_⟩
  · have hcodec := Api.body_codec (.startSession token (some callbackUrl)) .undefined
    exact Api.exec_ok (Api.Endpoint.status_ok .startSession)
      (Api.stable_codec .undefined .StartSession _ hcodec)
  · simp [Api.Answer.body, Value.property_ofFields, List.lookup, Api.optional]

end Tokens

/-- What a login has given out is the session of its account, for as long as there is one. -/
structure Bound (env : Environment) (s : Server) (g : Grant) : Prop where
  admitted : GatewayService.verify g.tp g.dto env.rules = some true
  token : g.token = env.sign (env.uuid g.id) g.issuedAt
  given : g.id < s.table.nextId
  row : ∀ r ∈ s.table.rows, r.id = g.id →
    account r.externalAccount = account g.dto.externalAccount.toList
  single : ∀ g' ∈ s.grants, g'.id = g.id →
    account g'.dto.externalAccount.toList = account g.dto.externalAccount.toList

section Run
variable {env : Environment} {s : Server} {g : Grant}

/-- A table that keeps the accounts of its rows keeps what has been given out. -/
lemma Bound.keeps {t : Table} (h : Bound env s g) (ht : s.table.Keeps t) :
    Bound env { s with table := t } g where
  admitted := h.admitted
  token := h.token
  given := h.given.trans_le ht.1
  row r hr hid := by
    obtain ⟨q, hq, hqid, hqaccount⟩ := ht.2 r hr (hid ▸ h.given)
    rw [← hqaccount]
    exact h.row q hq (hqid.trans hid)
  single := h.single

/-- A login gives out one session more. -/
lemma Bound.grant {t : Table} {new : Grant} (h : ∀ g ∈ s.grants, Bound env s g)
    (ht : s.table.Keeps t) (hnew : GatewayService.verify new.tp new.dto env.rules = some true)
    (htoken : new.token = env.sign (env.uuid new.id) new.issuedAt) {r : SessionRow}
    (hr : r ∈ t.rows) (hid : r.id = new.id)
    (haccount : account r.externalAccount = account new.dto.externalAccount.toList)
    (hfrom : r ∈ s.table.rows ∨ s.table.nextId ≤ r.id) (hg : g ∈ s.grants ++ [new]) :
    Bound env ⟨t, s.grants ++ [new]⟩ g := by
  have hsame : ∀ g ∈ s.grants, g.id = new.id →
      account g.dto.externalAccount.toList = account new.dto.externalAccount.toList := by
    intro g hg hgid
    rcases hfrom with hrow | hfresh
    · rw [← (h g hg).row r hrow (hid.trans hgid.symm), haccount]
    · have hlt := (h g hg).given
      omega
  rcases List.mem_append.mp hg with hg | hg
  · obtain ⟨hadmitted, htok, hgiven, hrow, hsingle⟩ := (h g hg).keeps ht
    refine ⟨hadmitted, htok, hgiven, hrow, fun g' hg' hgid => ?_⟩
    rcases List.mem_append.mp hg' with hg' | hg'
    · exact hsingle g' hg' hgid
    · rw [List.mem_singleton.mp hg'] at hgid ⊢
      exact (hsame g hg hgid.symm).symm
  · obtain rfl := List.mem_singleton.mp hg
    refine ⟨hnew, htoken, hid ▸ t.fresh r hr, fun q hq hqid => ?_, fun g' hg' hgid => ?_⟩
    · rw [t.eq_of_id hq hr (hqid.trans hid.symm), haccount]
    · rcases List.mem_append.mp hg' with hg' | hg'
      · exact hsame g' hg' hgid
      · rw [List.mem_singleton.mp hg']

lemma step_bound (h : ∀ g ∈ s.grants, Bound env s g) (event : Event) :
    ∀ g ∈ (step env s event).grants, Bound env (step env s event) g := by
  cases event with
  | op op => exact fun g hg => (h g hg).keeps (after_keeps env.cfg s.table op)
  | startSession tp dto now =>
    simp only [step]
    split
    · next s' hstart =>
      unfold startSession at hstart
      split_ifs at hstart with haddress
      split at hstart
      · next hverify =>
        obtain ⟨⟨r, t⟩, hfound, heq⟩ := Option.map_eq_some_iff.mp hstart
        obtain ⟨-, rfl⟩ := Prod.mk.inj heq
        obtain ⟨hr, haccount, hkeeps, hfrom⟩ :=
          findOrCreateForAccount_row (env.isAddress_spelled _ haddress) hfound
        exact fun g hg => Bound.grant h hkeeps hverify rfl hr rfl haccount hfrom hg
      · cases hstart
    · exact h

lemma run_bound (events : List Event) (h : ∀ g ∈ s.grants, Bound env s g) :
    ∀ g ∈ (run env s events).grants, Bound env (run env s events) g := by
  induction events generalizing s with
  | nil => exact h
  | cons event events ih => exact ih (step_bound h event)

end Run

/-- At any later time the requests of a kit that has logged in are those of a session of the
account it has logged in for, or of none: the gateway has admitted the login, with the account's
signature where signatures are asked for, the token finds the row it was given out for, and no
login for another account is given that row. -/
theorem login_session (env : Environment) (hasDefault : Bool) (events : List Event) :
    let s := run env ⟨noSessions hasDefault, []⟩ events
    ∀ g ∈ s.grants, GatewayService.verify g.tp g.dto env.rules = some true ∧
      (env.rules.enabled .Signature = true → RuleID.Signature.Succeeds g.tp g.dto env.rules) ∧
      (∀ url client action, ∃ resp,
        exec url StartSessionResp (Api.Answer.startSession g.token (some env.callbackUrl)).reply.fetched
          = .ok resp ∧
        let request := (afterStart client (.ok resp)).1.request action
        (env.callbackUrl ≠ "" →
          request.url = trailingSlash env.callbackUrl.toList ++ action.path.toList) ∧
        ((∃ r ∈ s.table.rows, r.id = g.id ∧
            account r.externalAccount = account g.dto.externalAccount.toList ∧
            authenticate env s.table request.authorization = .ok r) ∨
          (∀ r ∈ s.table.rows, r.id ≠ g.id) ∧ authenticate env s.table request.authorization =
            .error (.SessionUnavailable (env.uuid g.id)))) ∧
      ∀ g' ∈ s.grants, g'.id = g.id →
        account g'.dto.externalAccount.toList = account g.dto.externalAccount.toList := by
  intro s g hg
  have hbound : Bound env s g := run_bound events (by simp) g hg
  refine ⟨hbound.admitted, fun henabled => ?_, fun url client action => ?_, hbound.single⟩
  · obtain ⟨result, hresult, hisErr⟩ := (verify_iff hbound.admitted).mp rfl .Signature henabled
    exact (signatureRule_iff hresult).mp hisErr
  · obtain ⟨resp, hexec, htoken, hurl⟩ := exec_start url g.token env.callbackUrl
    have hne : g.token ≠ "" := hbound.token ▸ env.sign_ne _ _
    obtain ⟨hauthorization, hrequest⟩ := request_afterStart client action htoken hurl hne
    refine ⟨resp, hexec, hrequest, ?_⟩
    rw [hauthorization, hbound.token, authenticate_token]
    by_cases hrow : ∃ r ∈ s.table.rows, r.id = g.id
    · obtain ⟨r, hr, hid⟩ := hrow
      refine .inl ⟨r, hr, hid, hbound.row r hr hid, ?_⟩
      rw [← hid, findOne_uuid s.table hr]
    · refine .inr ⟨fun r hr hid => hrow ⟨r, hr, hid⟩, ?_⟩
      have hnone : findOne env s.table (env.uuid g.id) = none := by
        refine List.find?_eq_none.mpr fun r hr => ?_
        simpa using fun heq => hrow ⟨r, hr, env.uuid_injective heq⟩
      rw [hnone]

section Samples

/-- Tokens are the ids with a letter before them. -/
def sampleEnvironment : Environment where
  cfg := sampleConfig
  callbackUrl := "https://callback"
  rules := allRules
  isAddress := isAddressOneCase
  isAddress_spelled := isAddressOneCase_spelled
  uuid n := String.ofList (List.replicate n 'a')
  uuid_injective n m h := by simpa using congrArg (fun s => s.toList.length) h
  sign sessionId _ := "t" ++ sessionId
  sign_ne sessionId now h := by simpa using congrArg String.toList h
  verify token :=
    match token.toList with
    | 't' :: rest => some (tokenPayload (String.ofList rest))
    | _ => none
  verify_sign sessionId now := by
    refine ⟨["sessionId"], fun key => ([("sessionId", Value.string sessionId)].lookup key).getD
      .undefined, by simp [tokenPayload, Value.ofFields], fun key _ => ?_⟩
    rw [Value.property_wire]
    by_cases hkey : key = "sessionId"
    · simp [tokenPayload, Value.ofFields, Value.property, hkey]
    · simp [tokenPayload, Value.ofFields, Value.property, hkey]
  fromAuthHeaderAsBearerToken header :=
    if "Bearer ".toList.isPrefixOf header.toList then some (String.ofList (header.toList.drop 7))
    else none
  bearer_sign sessionId now := by simp

def sampleLogin : StartSessionDto := { sampleStart "android" with
  externalAccount := String.ofList lowerSpelling }

/-- The first login is given the first row, and the row is of its account. -/
theorem login_session_first :
    let s := run sampleEnvironment ⟨noSessions true, []⟩ [.startSession agreeable sampleLogin 5]
    ∃ g ∈ s.grants, GatewayService.verify g.tp g.dto allRules = some true ∧
      RuleID.Signature.Succeeds g.tp g.dto allRules ∧
      ∃ r ∈ s.table.rows, r.id = g.id := by
  have hstart :
      run sampleEnvironment ⟨noSessions true, []⟩ [.startSession agreeable sampleLogin 5] =
      ⟨(emptyTable.create lowerSpelling 5).2, [⟨agreeable, sampleLogin, 0, 5, "t"⟩]⟩ := by
    rfl
  have hgrant := login_session sampleEnvironment true [.startSession agreeable sampleLogin 5]
  rw [hstart] at hgrant ⊢
  obtain ⟨hadmitted, hsignature, -⟩ := hgrant _ (List.mem_singleton.mpr rfl)
  refine ⟨_, List.mem_singleton.mpr rfl, hadmitted, hsignature rfl, ?_⟩
  exact ⟨_, List.mem_singleton.mpr rfl, rfl⟩

end Samples

end Komenci.Login
