import Mathlib

/-! The gateway of `startSession`: a conjunction over the enabled rules, each of which asks a
third party and reads its answer in its own way. -/
namespace Komenci.Gateway

inductive RuleID
  | DailyCap
  | Captcha
  | DeviceAttestation
  | Signature
  deriving DecidableEq

structure StartSessionDto where
  captchaResponseToken : String
  externalAccount : String
  signature : String
  deviceType : Option String
  iosDeviceToken : Option String
  androidSignedAttestation : Option String

/-- The values of `DeviceType`. -/
def Android : String := "android"
def iOS : String := "ios"

structure HttpResponse (α : Type) where
  status : ℕ
  data : α

structure ReCAPTCHAResponseDto where
  success : Bool
  errorCodes : List String

structure SafetyNetDto where
  isValidSignature : Bool

/-- What the third parties answer. `none` is a request that is rejected, or not made because
the one that makes it throws; a response may have no object in it. -/
structure ThirdParties where
  recaptcha : String → Option (HttpResponse (Option ReCAPTCHAResponseDto))
  safetyNet : String → Option (HttpResponse (Option SafetyNetDto))
  deviceCheck : Option String → Option (HttpResponse Unit)
  typedDataHash : String → String → Option String
  /-- Whether the signature parses for the signer. -/
  parseSignatureWithoutPrefix : String → String → String → Bool

inductive RuleError
  | CaptchaVerificationFailed (errorCodes : List String) (token : String)
  | HttpRequestError
  | InvalidDevice
  | VerificationFailed
  | InvalidSignature
  deriving DecidableEq

structure CaptchaRuleConfig where
  bypassEnabled : Bool
  bypassToken : String

structure RulesConfig where
  enabled : RuleID → Bool
  captcha : Option CaptchaRuleConfig

section Rules
variable (tp : ThirdParties) (payload : StartSessionDto)

/-- Whatever goes wrong with the request is an `Err`. -/
def CaptchaService.verifyCaptcha (token : String) : Except RuleError Bool :=
  match tp.recaptcha token with
  | none => .error .HttpRequestError
  | some response =>
    match response.data with
    | none => .error .HttpRequestError
    | some data =>
      if data.success then .ok true
      else .error (.CaptchaVerificationFailed data.errorCodes token)

def SafetyNetService.verifyDevice (signedAttestation : Option String) :
    Option (Option SafetyNetDto) :=
  (tp.safetyNet (signedAttestation.getD "")).map HttpResponse.data

def DeviceCheckService.verifyDevice (deviceToken : Option String) : Option Bool :=
  (tp.deviceCheck deviceToken).map fun deviceCheckResponse =>
    if deviceCheckResponse.status ≠ 200 then true else false

def DailyCapRule.verify : Option (Except RuleError Bool) := some (.ok true)

def CaptchaRule.verify (config : Option CaptchaRuleConfig) : Option (Except RuleError Bool) :=
  config.map fun config =>
    if config.bypassEnabled && payload.captchaResponseToken = config.bypassToken then .ok true
    else
      match CaptchaService.verifyCaptcha tp payload.captchaResponseToken with
      | .ok _ => .ok true
      | .error error => .error error

def DeviceAttestationRule.verify : Option (Except RuleError Bool) :=
  if payload.deviceType = some Android then
    (SafetyNetService.verifyDevice tp payload.androidSignedAttestation).bind fun result =>
      -- A property of a body that is not there is read.
      result.map fun result =>
        if result.isValidSignature then .ok true else .error .VerificationFailed
  else if payload.deviceType = some iOS then
    (DeviceCheckService.verifyDevice tp payload.iosDeviceToken).map fun result =>
      if result then .ok true else .error .VerificationFailed
  else some (.error .InvalidDevice)

def SignatureRule.verify : Option (Except RuleError Bool) :=
  (tp.typedDataHash payload.externalAccount payload.captchaResponseToken).map fun messageHash =>
    if tp.parseSignatureWithoutPrefix messageHash payload.signature payload.externalAccount then
      .ok true
    else .error .InvalidSignature

/-- The rules in the order in which the module creates them. -/
def rules : List RuleID := [.DailyCap, .Captcha, .DeviceAttestation, .Signature]

lemma mem_rules (rule : RuleID) : rule ∈ rules := by cases rule <;> decide

/-- `none` is a call that is rejected. -/
def RuleID.verify (config : RulesConfig) : RuleID → Option (Except RuleError Bool)
  | .DailyCap => DailyCapRule.verify
  | .Captcha => CaptchaRule.verify tp payload config.captcha
  | .DeviceAttestation => DeviceAttestationRule.verify tp payload
  | .Signature => SignatureRule.verify tp payload

def isErr (result : Except RuleError Bool) : Bool :=
  match result with
  | .ok _ => false
  | .error _ => true

def GatewayService.verify (config : RulesConfig) : Option Bool := do
  let enabledRules := rules.filter config.enabled
  let results ← enabledRules.mapM (RuleID.verify tp payload config)
  let hasFailingResult := results.any isErr
  return !hasFailingResult

/-- The check of a rule succeeds: what the third party has said is in favour. -/
def RuleID.Succeeds (config : RulesConfig) : RuleID → Prop
  | .DailyCap => True
  | .Captcha =>
    (∃ response data, tp.recaptcha payload.captchaResponseToken = some response ∧
        response.data = some data ∧ data.success = true) ∨
      ∃ captcha, config.captcha = some captcha ∧ captcha.bypassEnabled = true ∧
        payload.captchaResponseToken = captcha.bypassToken
  | .DeviceAttestation =>
    (payload.deviceType = some Android ∧ ∃ response data,
        tp.safetyNet (payload.androidSignedAttestation.getD "") = some response ∧
        response.data = some data ∧ data.isValidSignature = true) ∨
      payload.deviceType = some iOS ∧ ∃ response,
        tp.deviceCheck payload.iosDeviceToken = some response ∧ response.status = 200
  | .Signature => ∃ messageHash,
      tp.typedDataHash payload.externalAccount payload.captchaResponseToken = some messageHash ∧
      tp.parseSignatureWithoutPrefix messageHash payload.signature payload.externalAccount = true

/-- The device says that it is of the platform whose check is DeviceCheck. -/
def StartSessionDto.OnIOS : Prop := payload.deviceType = some iOS

end Rules

variable {tp : ThirdParties} {payload : StartSessionDto} {config : RulesConfig}
  {result : Except RuleError Bool}

lemma mapM_any {α β : Type} {f : α → Option β} {p : β → Bool} {xs : List α} {ys : List β}
    (h : xs.mapM f = some ys) : ys.any p = false ↔ ∀ x ∈ xs, ∃ y, f x = some y ∧ p y = false := by
  induction xs generalizing ys with
  | nil =>
    cases h
    simp
  | cons x xs ih =>
    simp only [List.mapM_cons, Option.bind_eq_bind, Option.pure_def, Option.bind_eq_some_iff,
      Option.some.injEq] at h
    obtain ⟨y, hy, zs, hzs, rfl⟩ := h
    simp [hy, ih hzs]

lemma verifyCaptcha_iff {token : String} :
    isErr (CaptchaService.verifyCaptcha tp token) = false ↔
      ∃ response data, tp.recaptcha token = some response ∧ response.data = some data ∧
        data.success = true := by
  unfold CaptchaService.verifyCaptcha
  split
  · simp [isErr, *]
  · split
    · simp [isErr, *]
    · split_ifs <;> simp [isErr, *]

lemma captchaRule_iff (h : CaptchaRule.verify tp payload config.captcha = some result) :
    isErr result = false ↔ RuleID.Captcha.Succeeds tp payload config := by
  obtain ⟨captcha, hcaptcha, rfl⟩ := Option.map_eq_some_iff.mp h
  simp only [RuleID.Succeeds, hcaptcha, Option.some.injEq, exists_eq_left', ← verifyCaptcha_iff]
  split_ifs with hbypass
  · have hbypass' : captcha.bypassEnabled = true ∧
        payload.captchaResponseToken = captcha.bypassToken := by simpa using hbypass
    simp [isErr, hbypass']
  · have hbypass' : ¬ (captcha.bypassEnabled = true ∧
        payload.captchaResponseToken = captcha.bypassToken) := by simpa using hbypass
    simp only [hbypass', or_false]
    split <;> simp [isErr, *]

lemma signatureRule_iff (h : SignatureRule.verify tp payload = some result) :
    isErr result = false ↔ RuleID.Signature.Succeeds tp payload config := by
  obtain ⟨messageHash, hhash, rfl⟩ := Option.map_eq_some_iff.mp h
  simp only [RuleID.Succeeds, hhash, Option.some.injEq, exists_eq_left']
  split_ifs with hparse <;> simp [isErr, hparse]

lemma ios_ne_android : iOS ≠ Android := by decide

/-- On every other platform the device attestation reads the answer as it is meant. -/
lemma deviceAttestation_iff (hios : ¬ payload.OnIOS)
    (h : DeviceAttestationRule.verify tp payload = some result) :
    isErr result = false ↔ RuleID.DeviceAttestation.Succeeds tp payload config := by
  unfold StartSessionDto.OnIOS at hios
  simp only [DeviceAttestationRule.verify, hios, if_false, SafetyNetService.verifyDevice] at h
  simp only [RuleID.Succeeds, hios, false_and, or_false]
  split_ifs at h with handroid
  · simp only [Option.bind_eq_some_iff, Option.map_eq_some_iff] at h
    obtain ⟨_, ⟨response, hresponse, rfl⟩, data, hdata, rfl⟩ := h
    simp only [handroid, hresponse, true_and, Option.some.injEq, exists_and_left, exists_eq_left',
      hdata]
    split_ifs with hvalid <;> simp [isErr, hvalid]
  · cases h
    simp [isErr, handroid]

/-- On iOS it goes against the answer. -/
lemma deviceAttestation_ios (hios : payload.OnIOS)
    (h : DeviceAttestationRule.verify tp payload = some result) :
    isErr result = false ↔ ¬ RuleID.DeviceAttestation.Succeeds tp payload config := by
  unfold StartSessionDto.OnIOS at hios
  simp only [DeviceAttestationRule.verify, hios, Option.some.injEq, ios_ne_android, if_false,
    if_true, DeviceCheckService.verifyDevice, Option.map_map, Option.map_eq_some_iff] at h
  obtain ⟨response, hresponse, rfl⟩ := h
  simp only [RuleID.Succeeds, hios, Option.some.injEq, ios_ne_android, false_and, false_or,
    true_and, hresponse, exists_eq_left', Function.comp_apply]
  by_cases hstatus : response.status = 200 <;> simp [isErr, hstatus]

/-- The result of a rule that reads the answer as it is meant. -/
lemma verify_eq_succeeds {rule : RuleID} (hrule : rule ≠ .DeviceAttestation ∨ ¬ payload.OnIOS)
    (h : rule.verify tp payload config = some result) :
    isErr result = false ↔ rule.Succeeds tp payload config := by
  cases rule with
  | DailyCap =>
    cases h
    simp [RuleID.Succeeds, isErr]
  | Captcha => exact captchaRule_iff h
  | DeviceAttestation =>
    rcases hrule with hrule | hios
    · exact absurd rfl hrule
    · exact deviceAttestation_iff hios h
  | Signature => exact signatureRule_iff h

/-- What `verify` resolves to. -/
lemma verify_iff {r : Bool} (h : GatewayService.verify tp payload config = some r) :
    r = true ↔ ∀ rule, config.enabled rule = true →
      ∃ result, rule.verify tp payload config = some result ∧ isErr result = false := by
  simp only [GatewayService.verify, Option.bind_eq_bind, Option.pure_def, Option.bind_eq_some_iff,
    Option.some.injEq] at h
  obtain ⟨results, hresults, rfl⟩ := h
  rw [Bool.not_eq_true', mapM_any hresults]
  simp [mem_rules]

/-- Every enabled rule has a result when `verify` resolves. -/
lemma verify_resolves {r : Bool} (h : GatewayService.verify tp payload config = some r)
    {rule : RuleID} (hrule : config.enabled rule = true) :
    ∃ result, rule.verify tp payload config = some result := by
  simp only [GatewayService.verify, Option.bind_eq_bind, Option.pure_def, Option.bind_eq_some_iff,
    Option.some.injEq] at h
  obtain ⟨results, hresults, -⟩ := h
  obtain ⟨result, hresult, -⟩ := (mapM_any (p := fun _ => false) hresults).mp (by simp) rule
    (List.mem_filter.mpr ⟨mem_rules rule, hrule⟩)
  exact ⟨result, hresult⟩

/-- The gateway resolves to true for exactly those whose enabled checks succeed, unless the
device attestation is enabled for an iOS device that passes all other checks. -/
theorem gateway_admits_iff (tp : ThirdParties) (payload : StartSessionDto) (config : RulesConfig)
    (r : Bool) (h : GatewayService.verify tp payload config = some r) :
    (r = true ↔ ∀ rule, config.enabled rule = true → rule.Succeeds tp payload config) ↔
      ¬ (config.enabled .DeviceAttestation = true ∧ payload.deviceType = some iOS ∧
        ∀ rule, rule ≠ .DeviceAttestation → config.enabled rule = true →
          rule.Succeeds tp payload config) := by
  have hmeant : ∀ rule, rule ≠ .DeviceAttestation ∨ ¬ payload.OnIOS →
      config.enabled rule = true →
      ((∃ result, rule.verify tp payload config = some result ∧ isErr result = false) ↔
        rule.Succeeds tp payload config) := by
    intro rule hrule henabled
    obtain ⟨result, hresult⟩ := verify_resolves h henabled
    simp only [hresult, Option.some.injEq, exists_eq_left', verify_eq_succeeds hrule hresult]
  rw [verify_iff h]
  by_cases hios : config.enabled .DeviceAttestation = true ∧ payload.OnIOS
  · obtain ⟨henabled, hios⟩ := hios
    obtain ⟨result, hresult⟩ := verify_resolves h henabled
    have hagainst : (∃ result, RuleID.DeviceAttestation.verify tp payload config = some result ∧
        isErr result = false) ↔ ¬ RuleID.DeviceAttestation.Succeeds tp payload config := by
      simp only [hresult, Option.some.injEq, exists_eq_left']
      exact deviceAttestation_ios hios hresult
    have hothers : (∀ rule, rule ≠ .DeviceAttestation → config.enabled rule = true →
        ∃ result, rule.verify tp payload config = some result ∧ isErr result = false) ↔
        ∀ rule, rule ≠ .DeviceAttestation → config.enabled rule = true →
          rule.Succeeds tp payload config :=
      forall_congr' fun rule => imp_congr_right fun hne => imp_congr_right (hmeant rule (.inl hne))
    have hdevice : payload.deviceType = some iOS := hios
    rw [← and_forall_ne .DeviceAttestation, hothers,
      ← and_forall_ne (p := fun rule => config.enabled rule = true → _) .DeviceAttestation]
    simp only [henabled, forall_true_left, hagainst, hdevice, true_and]
    tauto
  · have hsame : (∀ rule, config.enabled rule = true →
        ∃ result, rule.verify tp payload config = some result ∧ isErr result = false) ↔
        ∀ rule, config.enabled rule = true → rule.Succeeds tp payload config := by
      refine forall_congr' fun rule => ?_
      refine imp_congr_right fun henabled => ?_
      refine hmeant rule ?_ henabled
      by_contra hcon
      rw [not_or, not_not, not_not] at hcon
      exact hios ⟨hcon.1 ▸ henabled, hcon.2⟩
    simp only [hsame, true_iff]
    rintro ⟨henabled, hdevice, -⟩
    exact hios ⟨henabled, hdevice⟩

section Samples

/-- Every check goes well, as far as the third parties are asked. -/
def agreeable : ThirdParties where
  recaptcha _ := some ⟨200, some ⟨true, []⟩⟩
  safetyNet _ := some ⟨200, some ⟨true⟩⟩
  deviceCheck _ := some ⟨200, ()⟩
  typedDataHash _ _ := some "hash"
  parseSignatureWithoutPrefix _ _ _ := true

def allRules : RulesConfig := ⟨fun _ => true, some ⟨false, ""⟩⟩

def sampleStart (deviceType : String) : StartSessionDto :=
  ⟨"token", "account", "signature", some deviceType, some "device", some "attestation"⟩

theorem gateway_admits_android :
    GatewayService.verify agreeable (sampleStart "android") allRules = some true ∧
      ∀ rule, allRules.enabled rule = true →
        rule.Succeeds agreeable (sampleStart "android") allRules := by
  have hverify : GatewayService.verify agreeable (sampleStart "android") allRules = some true := by
    decide
  have hadmits := (gateway_admits_iff agreeable (sampleStart "android") allRules true hverify).mpr
    fun h => absurd h.2.1 (by decide)
  exact ⟨hverify, hadmits.mp rfl⟩

/-- Apple has found the token valid, and the device is turned away; and the other way round. -/
theorem gateway_turns_ios_away :
    GatewayService.verify agreeable (sampleStart "ios") allRules = some false ∧
      (∀ rule, allRules.enabled rule = true →
        rule.Succeeds agreeable (sampleStart "ios") allRules) ∧
      GatewayService.verify { agreeable with deviceCheck := fun _ => some ⟨204, ()⟩ }
        (sampleStart "ios") allRules = some true := by
  refine ⟨by decide, ?_, by decide⟩
  rintro rule -
  cases rule with
  | DailyCap => trivial
  | Captcha => exact .inl ⟨_, _, rfl, rfl, rfl⟩
  | DeviceAttestation => exact .inr ⟨rfl, _, rfl, rfl⟩
  | Signature => exact ⟨_, rfl, rfl⟩

end Samples

end Komenci.Gateway
