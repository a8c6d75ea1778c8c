import Komenci.Doubles
import Komenci.HexText

/-! The `meta` column of a session, its two writers `incrementUsage` and `deployWallet`,
and what reads it. A read that throws a TypeError is `none`. -/
namespace Komenci.Sessions
open HexText

inductive TrackedAction
  | DistributedBlindedPepper
  | RequestSubsidisedAttestation
  | SubmitMetaTransaction
  deriving DecidableEq

def TrackedAction.values : List TrackedAction :=
  [.DistributedBlindedPepper, .RequestSubsidisedAttestation, .SubmitMetaTransaction]

instance : Fintype TrackedAction :=
  ⟨TrackedAction.values.toFinset, fun action => by cases action <;> decide⟩

/-- A count that is `null` is as good as none. -/
abbrev ActionCounts := TrackedAction → Option ℚ

/-- Hashes, implementation addresses and times are numbers. -/
structure WalletDeploy where
  startedAt : ℕ
  txHash : ℕ
  implementationAddress : ℕ
  deriving DecidableEq

/-- The JSON object as it is stored. The type of the source requires `callCount`. -/
structure SessionMetadata where
  walletDeploy : Option WalletDeploy
  callCount : Option ActionCounts

structure Session where
  id : ℕ
  externalAccount : Text
  metadata : Option SessionMetadata

structure AppConfig where
  quota : TrackedAction → ℚ
  transactionTimeoutMs : ℕ
  /-- The addresses of `MetaTransactionWalletVersions`. -/
  implementations : List ℕ

/-- `this.meta?.callCount[action] || 0` -/
def Session.getActionCount (session : Session) (action : TrackedAction) : Option ℚ :=
  match session.metadata with
  | none => some 0
  | some m => m.callCount.map fun c => (c action).getD 0

def quotaLeft (config : TrackedAction → ℚ) (session : Session) : Option ActionCounts :=
  TrackedAction.values.foldlM (fun quota action => do
    let count ← session.getActionCount action
    return Function.update quota action (some (Doubles.sub (config action) count))) fun _ => none

structure QuotaExceededError where
  action : TrackedAction
  deriving DecidableEq

/-- `QuotaGuard.canActivate`, on the action its handler is tagged with. -/
def canActivate (config : TrackedAction → ℚ) (action : Option TrackedAction) (session : Session) :
    Option (Except QuotaExceededError Bool) :=
  match action with
  | none => some (.ok true)
  | some action => (session.getActionCount action).map fun usage =>
    if config action ≤ usage then .error ⟨action⟩ else .ok true

/-- What `incrementUsage` writes. JSON has `null` for a sum that is infinite. -/
def Session.incrementUsage (session : Session) (action : TrackedAction) (count : ℚ) :
    Option SessionMetadata := do
  let usage ← session.getActionCount action
  let callCount := (session.metadata.bind SessionMetadata.callCount).getD fun _ => none
  return ⟨session.metadata.bind SessionMetadata.walletDeploy,
    some (Function.update callCount action (Doubles.add usage count))⟩

def AppConfig.isValidImplementation (cfg : AppConfig) (implementationAddress : ℕ) : Bool :=
  implementationAddress ∈ cfg.implementations

def Session.hasDeployInProgress (cfg : AppConfig) (now : ℕ) (session : Session)
    (implementationAddress : Option ℕ) : Bool :=
  match session.metadata.bind SessionMetadata.walletDeploy with
  | none => false
  | some d =>
    (some d.implementationAddress = implementationAddress || implementationAddress = none) &&
      now < d.startedAt + cfg.transactionTimeoutMs

/-- The object `deployWallet` writes when the relayer has answered. -/
def Session.setWalletDeploy (session : Session) (d : WalletDeploy) : SessionMetadata :=
  ⟨some d, session.metadata.bind SessionMetadata.callCount⟩

/-- What `deployWallet` writes, if it gets so far. It begins at `start` and writes at
`finish`; `resp` is the relayer's answer. -/
def Session.deployWallet (cfg : AppConfig) (session : Session) (implementationAddress start : ℕ)
    (resp : Option ℕ) (finish : ℕ) : Option SessionMetadata :=
  if !cfg.isValidImplementation implementationAddress then none
  else if session.hasDeployInProgress cfg start (some implementationAddress) then none
  else resp.map fun txHash => session.setWalletDeploy ⟨finish, txHash, implementationAddress⟩

/-- The calls that write the column. -/
inductive Call
  | incrementUsage (action : TrackedAction) (count : ℚ)
  | deployWallet (implementationAddress start : ℕ) (resp : Option ℕ) (finish : ℕ)
  deriving DecidableEq

def Call.write (cfg : AppConfig) (session : Session) : Call → Option SessionMetadata
  | .incrementUsage action count => session.incrementUsage action count
  | .deployWallet implementationAddress start resp finish =>
    session.deployWallet cfg implementationAddress start resp finish

/-- The row after a call. A call that throws writes nothing. -/
def Session.after (cfg : AppConfig) (session : Session) (call : Call) : Session :=
  match call.write cfg session with
  | none => session
  | some m => { session with metadata := some m }

def Session.run (cfg : AppConfig) (session : Session) (calls : List Call) : Session :=
  calls.foldl (Session.after cfg) session

/-- The row as `create` leaves it, without and with the default of the column. -/
def Session.Created (session : Session) : Prop :=
  session.metadata = none ∨ session.metadata = some ⟨none, some fun _ => none⟩

/-- Nothing that reads the column throws. -/
structure Usable (cfg : AppConfig) (session : Session) : Prop where
  getActionCount : ∀ action, (session.getActionCount action).isSome
  quotaLeft : (quotaLeft cfg.quota session).isSome
  canActivate : ∀ action, (canActivate cfg.quota action session).isSome
  incrementUsage : ∀ action count, (session.incrementUsage action count).isSome

/-- `callCount` is there whenever the column is not null. -/
def Session.Shaped (session : Session) : Prop :=
  ∀ m, session.metadata = some m → m.callCount.isSome

/-- The call is a deployment that the relayer takes on. -/
def Call.deploys (cfg : AppConfig) : Call → Bool
  | .deployWallet implementationAddress _ (some _) _ =>
    cfg.isValidImplementation implementationAddress
  | _ => false

def Call.increments (action : TrackedAction) : Call → Bool
  | .incrementUsage a _ => a = action
  | _ => false

/-- The count of an action, 0 where there is none. -/
def Session.count (session : Session) (action : TrackedAction) : ℚ :=
  ((session.metadata.bind SessionMetadata.callCount).bind (· action)).getD 0

section Shape
variable {cfg : AppConfig} {session : Session}

lemma getActionCount_of_shaped (h : session.Shaped) (action : TrackedAction) :
    session.getActionCount action = some (session.count action) := by
  unfold Session.getActionCount Session.count
  cases hm : session.metadata with
  | none => rfl
  | some m =>
    obtain ⟨c, hc⟩ := Option.isSome_iff_exists.mp (h m hm)
    simp [hc]

lemma shaped_of_getActionCount {action : TrackedAction}
    (h : (session.getActionCount action).isSome) : session.Shaped := by
  intro m hm
  simpa [Session.getActionCount, hm] using h

lemma shaped_of_quotaLeft {config : TrackedAction → ℚ} (h : (quotaLeft config session).isSome) :
    session.Shaped := by
  have hsome : (session.getActionCount .DistributedBlindedPepper).isSome := by
    by_contra hnone
    simp [quotaLeft, TrackedAction.values, Option.not_isSome_iff_eq_none.mp hnone] at h
  exact shaped_of_getActionCount hsome

/-- The column can be read exactly when it has its shape. -/
theorem usable_iff_shaped : Usable cfg session ↔ session.Shaped := by
  constructor
  · intro h
    exact shaped_of_getActionCount (h.getActionCount .SubmitMetaTransaction)
  · intro h
    have hget := getActionCount_of_shaped h
    constructor
    · simp [hget]
    · simp [quotaLeft, hget, TrackedAction.values]
    · intro action
      cases action with
      | none => rfl
      | some action => simp [canActivate, hget]
    · simp [Session.incrementUsage, hget]

lemma Session.Created.shaped (h : session.Created) : session.Shaped := by
  intro m hm
  rcases h with h | h
  · simp [h] at hm
  · rw [h] at hm
    cases hm
    rfl

lemma Session.Created.count_eq_zero (h : session.Created) (action : TrackedAction) :
    session.count action = 0 := by
  rcases h with h | h <;> simp [Session.count, h]

/-- A deployment that is written was taken on, and keeps the counts as they are. -/
lemma deployWallet_spec {implementationAddress start finish : ℕ} {resp : Option ℕ}
    {m : SessionMetadata}
    (h : session.deployWallet cfg implementationAddress start resp finish = some m) :
    Call.deploys cfg (.deployWallet implementationAddress start resp finish) = true ∧
      m.callCount = session.metadata.bind SessionMetadata.callCount := by
  unfold Session.deployWallet at h
  split_ifs at h with hvalid hprogress
  obtain ⟨txHash, rfl, rfl⟩ := Option.map_eq_some_iff.mp h
  exact ⟨by simpa [Call.deploys] using hvalid, rfl⟩

/-- A null column holds no deployment in progress. -/
lemma deployWallet_of_null {implementationAddress start finish txHash : ℕ}
    (hnull : session.metadata = none)
    (h : cfg.isValidImplementation implementationAddress = true) :
    session.deployWallet cfg implementationAddress start (some txHash) finish =
      some ⟨some ⟨finish, txHash, implementationAddress⟩, none⟩ := by
  simp [Session.deployWallet, h, Session.hasDeployInProgress, Session.setWalletDeploy, hnull]

/-- The shape is lost only by a deployment on a null column. -/
lemma after_shaped {call : Call} (h : session.Shaped)
    (hcall : session.metadata = none → call.deploys cfg = false) :
    (session.after cfg call).Shaped := by
  unfold Session.after
  cases hw : call.write cfg session with
  | none => exact h
  | some w =>
    rintro m ⟨⟩
    cases call with
    | incrementUsage action count =>
      simp only [Call.write, Session.incrementUsage, getActionCount_of_shaped h,
        Option.bind_eq_bind, Option.bind_some, Option.pure_def, Option.some.injEq] at hw
      exact hw ▸ rfl
    | deployWallet implementationAddress start resp finish =>
      obtain ⟨hdeploys, hcount⟩ := deployWallet_spec hw
      cases hm : session.metadata with
      | none => simp [hcall hm] at hdeploys
      | some old => simpa [hcount, hm] using h old hm

lemma after_not_shaped {call : Call} (hnull : session.metadata = none)
    (hcall : call.deploys cfg = true) : ¬ (session.after cfg call).Shaped := by
  cases call with
  | incrementUsage action count => simp [Call.deploys] at hcall
  | deployWallet implementationAddress start resp finish =>
    cases resp with
    | none => simp [Call.deploys] at hcall
    | some txHash =>
      simp [Session.after, Call.write, deployWallet_of_null hnull hcall, Session.Shaped]

/-- The count of an action is changed only by its own increments. -/
lemma after_count {call : Call} {action : TrackedAction} (h : call.increments action = false) :
    (session.after cfg call).count action = session.count action := by
  unfold Session.after
  cases hw : call.write cfg session with
  | none => rfl
  | some w =>
    cases call with
    | incrementUsage a count =>
      have hne : action ≠ a := by
        rintro rfl
        simp [Call.increments] at h
      simp only [Call.write, Session.incrementUsage, Option.bind_eq_bind, Option.pure_def,
        Option.bind_eq_some_iff, Option.some.injEq] at hw
      obtain ⟨usage, -, rfl⟩ := hw
      cases hc : session.metadata.bind SessionMetadata.callCount <;>
        simp [Session.count, hc, hne]
    | deployWallet implementationAddress start resp finish =>
      simp [Session.count, (deployWallet_spec hw).2]

end Shape

/-- Up to here no deployment was taken on while the column was null. -/
def KeepsShape (cfg : AppConfig) (session : Session) (calls : List Call) : Prop :=
  ∀ pre call, pre ++ [call] <+: calls → (session.run cfg pre).metadata = none →
    call.deploys cfg = false

section Runs
variable {cfg : AppConfig} {session : Session}

lemma run_append (calls : List Call) (call : Call) :
    session.run cfg (calls ++ [call]) = (session.run cfg calls).after cfg call := by
  simp [Session.run]

lemma run_shaped (h : session.Shaped) (calls : List Call) (hkeeps : KeepsShape cfg session calls) :
    (session.run cfg calls).Shaped := by
  induction calls using List.reverseRecOn with
  | nil => exact h
  | append_singleton calls call ih =>
    rw [run_append]
    apply after_shaped
    · apply ih
      intro pre c hpre
      exact hkeeps pre c (hpre.trans (List.prefix_append _ _))
    · exact hkeeps calls call List.prefix_rfl

lemma run_count {action : TrackedAction} (calls : List Call)
    (h : ∀ call ∈ calls, Call.increments action call = false) :
    (session.run cfg calls).count action = session.count action := by
  induction calls using List.reverseRecOn with
  | nil => rfl
  | append_singleton calls call ih =>
    rw [run_append, after_count (h call (by simp)), ih]
    intro c hc
    exact h c (by simp [hc])

/-- A created session stays usable, with count 0 for what was never incremented, exactly
as long as no deployment is taken on while its column is null. -/
theorem stays_usable_iff (cfg : AppConfig) (session : Session) (calls : List Call)
    (h : session.Created) :
    (∀ pre, pre <+: calls → Usable cfg (session.run cfg pre) ∧
      ∀ action, (∀ call ∈ pre, Call.increments action call = false) →
        (session.run cfg pre).getActionCount action = some 0) ↔
      KeepsShape cfg session calls := by
  constructor
  · intro husable pre call hpre hnull
    by_contra hdeploys
    have hshaped := usable_iff_shaped.mp (husable _ hpre).1
    rw [run_append] at hshaped
    exact after_not_shaped hnull (by simpa using hdeploys) hshaped
  · intro hkeeps pre hpre
    have hshaped : (session.run cfg pre).Shaped := by
      apply run_shaped h.shaped
      intro p call hp
      exact hkeeps p call (hp.trans hpre)
    refine ⟨usable_iff_shaped.mpr hshaped, fun action hnever => ?_⟩
    rw [getActionCount_of_shaped hshaped, run_count pre hnever, h.count_eq_zero]

end Runs

section Samples

def sampleConfig : AppConfig := ⟨fun _ => 10, 1000, [7]⟩

def createdNull : Session := ⟨1, toHex (List.replicate 20 2), none⟩

theorem stays_usable_after_increment :
    createdNull.Created ∧
      (∀ pre, pre <+: [Call.incrementUsage .SubmitMetaTransaction 1] →
        Usable sampleConfig (createdNull.run sampleConfig pre) ∧
        ∀ action, (∀ call ∈ pre, Call.increments action call = false) →
          (createdNull.run sampleConfig pre).getActionCount action = some 0) := by
  have hcreated : createdNull.Created := .inl rfl
  refine ⟨hcreated, (stays_usable_iff sampleConfig createdNull _ hcreated).mpr ?_⟩
  intro pre call hpre _
  have hmem : call ∈ [Call.incrementUsage .SubmitMetaTransaction 1] := hpre.subset (by simp)
  rw [List.mem_singleton.mp hmem]
  rfl

/-- The first write of the session is a deployment, and from then on the guard throws
on every request. -/
theorem unusable_after_deploy :
    createdNull.Created ∧
      (createdNull.run sampleConfig [.deployWallet 7 0 (some 3) 5]).getActionCount
        .SubmitMetaTransaction = none ∧
      (createdNull.run sampleConfig [.deployWallet 7 0 (some 3) 5]).incrementUsage
        .SubmitMetaTransaction 1 = none :=
  ⟨.inl rfl, rfl, rfl⟩

end Samples

end Komenci.Sessions
