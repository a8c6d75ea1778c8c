import Komenci.SessionDeployed

/-! When the lookup of a session's wallet answers. It asks the node for the recorded deploy
transaction and takes for granted that the node knows it. -/
namespace Komenci.Sessions
open HexText

structure CheckSessionResponse where
  quotaLeft : ActionCounts
  metaTxWalletAddress : Option Text

/-- `GET checkSession` -/
def checkSession (cfg : AppConfig) (deployer : ℕ) (chain : DeployChain) (now : ℕ)
    (session : Session) : Option CheckSessionResponse :=
  match getWallet cfg deployer chain now session none with
  | none => none
  | some getResp => (quotaLeft cfg.quota session).map fun quota => ⟨quota, getResp.toOption⟩

/-- The recorded deployment, while it is in progress for the address that is asked for. -/
def Session.pendingDeploy (cfg : AppConfig) (now : ℕ) (session : Session)
    (implementationAddress : Option ℕ) : Option WalletDeploy :=
  if session.hasDeployInProgress cfg now implementationAddress then
    session.metadata.bind SessionMetadata.walletDeploy
  else none

/-- The node knows the recorded transaction, where the lookup asks for it. -/
def DeployKnown (cfg : AppConfig) (chain : DeployChain) (now : ℕ) (session : Session)
    (implementationAddress : Option ℕ) : Prop :=
  ∀ d ∈ session.pendingDeploy cfg now implementationAddress, chain.getTransaction d.txHash ≠ some none

/-- The node answers, if only that it does not know the transaction. -/
def NodeAnswers (deployer : ℕ) (chain : DeployChain) (session : Session) : Prop :=
  ∀ d ∈ session.metadata.bind SessionMetadata.walletDeploy, chain.getTransaction d.txHash ≠ none ∧
    ∀ blockNumber, chain.getTransaction d.txHash = some (some (some blockNumber)) →
      chain.getPastEvents deployer blockNumber ≠ none

section Lookup
variable {cfg : AppConfig} {deployer now : ℕ} {chain : DeployChain} {session : Session}
  {implementationAddress : Option ℕ}

lemma pendingDeploy_eq_none (h : session.hasDeployInProgress cfg now implementationAddress = false) :
    session.pendingDeploy cfg now implementationAddress = none := by
  simp [Session.pendingDeploy, h]

/-- A deployment in progress is one that is recorded. -/
lemma exists_pendingDeploy (h : session.hasDeployInProgress cfg now implementationAddress = true) :
    ∃ d, session.metadata.bind SessionMetadata.walletDeploy = some d ∧
      session.pendingDeploy cfg now implementationAddress = some d := by
  cases hd : session.metadata.bind SessionMetadata.walletDeploy with
  | none => simp [Session.hasDeployInProgress, hd] at h
  | some d => exact ⟨d, rfl, by simp [Session.pendingDeploy, h, hd]⟩

/-- The lookup returns a wallet or `WalletNotDeployed`. -/
lemma getWallet_isSome_iff (hnode : NodeAnswers deployer chain session) :
    (getWallet cfg deployer chain now session implementationAddress).isSome ↔
      DeployKnown cfg chain now session implementationAddress := by
  cases hprogress : session.hasDeployInProgress cfg now implementationAddress with
  | false => simp [getWallet, DeployKnown, hprogress, pendingDeploy_eq_none hprogress]
  | true =>
    obtain ⟨d, hd, hpending⟩ := exists_pendingDeploy hprogress
    obtain ⟨hanswer, hevents⟩ := hnode d hd
    simp only [getWallet, DeployKnown, hprogress, hd, hpending, Option.mem_some_iff,
      forall_eq', if_true]
    rcases htx : chain.getTransaction d.txHash with _ | _ | _ | blockNumber
    · exact absurd htx hanswer
    · simp
    · simp
    · obtain ⟨events, heq⟩ := Option.ne_none_iff_exists'.mp (hevents blockNumber htx)
      simp only [heq]
      split <;> simp

/-- Only the lookup can make the request to deploy throw. -/
lemma postDeployWallet_isSome (a later : ℕ) :
    (postDeployWallet cfg deployer chain session a now later).isSome =
      (getWallet cfg deployer chain now session (some a)).isSome := by
  unfold postDeployWallet
  rcases getWallet cfg deployer chain now session (some a) with _ | _ | wallet
  · rfl
  · dsimp only
    split
    · rfl
    · split
      · rfl
      · split <;> rfl
  · rfl

/-- The quota is read from a column that has its shape. -/
lemma quotaLeft_isSome_iff (cfg : AppConfig) (session : Session) :
    (quotaLeft cfg.quota session).isSome ↔ session.Shaped :=
  ⟨shaped_of_quotaLeft, fun h => (usable_iff_shaped.mpr h).quotaLeft⟩

lemma checkSession_isSome_iff :
    (checkSession cfg deployer chain now session).isSome ↔
      (getWallet cfg deployer chain now session none).isSome ∧ session.Shaped := by
  rw [← quotaLeft_isSome_iff cfg]
  unfold checkSession
  cases getWallet cfg deployer chain now session none <;> simp

end Lookup

/-- The lookup, and with it both endpoints, answers exactly when the node knows the recorded
transaction of a deployment in progress. The quota that `checkSession` adds needs the column to
have its shape. -/
theorem lookup_answers_iff (cfg : AppConfig) (deployer : ℕ) (chain : DeployChain) (now : ℕ)
    (session : Session) (implementationAddress : Option ℕ)
    (hnode : NodeAnswers deployer chain session) :
    ((getWallet cfg deployer chain now session implementationAddress).isSome ↔
      DeployKnown cfg chain now session implementationAddress) ∧
    ((checkSession cfg deployer chain now session).isSome ↔
      DeployKnown cfg chain now session none ∧ session.Shaped) ∧
    ∀ a later, (postDeployWallet cfg deployer chain session a now later).isSome ↔
      DeployKnown cfg chain now session (some a) := by
  refine ⟨getWallet_isSome_iff hnode, ?_, fun a later => ?_⟩
  · rw [checkSession_isSome_iff, getWallet_isSome_iff hnode]
  · rw [postDeployWallet_isSome, getWallet_isSome_iff hnode]

section Samples

/-- The deploy transaction is in no block yet. -/
def pendingChain : DeployChain := { ownChain with getTransaction := fun _ => some (some none) }

theorem lookup_answers_pending :
    ((getWallet sampleConfig 5 pendingChain 10 deployedSession (some 7)).isSome ↔
      DeployKnown sampleConfig pendingChain 10 deployedSession (some 7)) ∧
    ((checkSession sampleConfig 5 pendingChain 10 deployedSession).isSome ↔
      DeployKnown sampleConfig pendingChain 10 deployedSession none ∧ deployedSession.Shaped) ∧
    ∀ a later, (postDeployWallet sampleConfig 5 pendingChain deployedSession a 10 later).isSome ↔
      DeployKnown sampleConfig pendingChain 10 deployedSession (some a) :=
  lookup_answers_iff sampleConfig 5 pendingChain 10 deployedSession (some 7)
    fun _ _ => ⟨Option.some_ne_none _, fun _ _ => Option.some_ne_none _⟩

/-- The relayer has replaced the deploy transaction by a dead letter. -/
def replacedChain : DeployChain := { ownChain with getTransaction := fun _ => some none }

/-- Both endpoints fail until the deadline of the deployment. -/
theorem lookup_throws : NodeAnswers 5 replacedChain deployedSession ∧
    getWallet sampleConfig 5 replacedChain 10 deployedSession (some 7) = none ∧
    (checkSession sampleConfig 5 replacedChain 10 deployedSession).isNone ∧
    postDeployWallet sampleConfig 5 replacedChain deployedSession 7 10 10 = none :=
  ⟨fun _ _ => ⟨Option.some_ne_none _, fun _ _ => Option.some_ne_none _⟩, by decide +kernel,
    by decide +kernel, by decide +kernel⟩

end Samples

end Komenci.Sessions
