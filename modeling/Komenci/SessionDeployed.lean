import Komenci.SessionWallet

/-! How long a wallet counts as deployed. The lookup goes by the record of the deployment
while its deadline, which is meant for pending transactions, has not passed. -/
namespace Komenci.Sessions
open HexText

/-- A later view of the chain: what was in a block is still there, with the block's events. -/
structure DeployChain.Extends (chain later : DeployChain) : Prop where
  getTransaction : ∀ txHash blockNumber,
    chain.getTransaction txHash = some (some (some blockNumber)) →
    later.getTransaction txHash = some (some (some blockNumber))
  getPastEvents : ∀ txHash blockNumber contractAddress events,
    chain.getTransaction txHash = some (some (some blockNumber)) →
    chain.getPastEvents contractAddress blockNumber = some events →
    later.getPastEvents contractAddress blockNumber = some events

inductive DeployResponse
  | deployed (walletAddress : Text)
  | inProgress (txHash : ℕ)
  | InvalidImplementation (implementationAddress : ℕ)
  /-- A deploy transaction goes to the relayer, whose answer makes the response. -/
  | submit (owner : Text) (implementationAddress : ℕ)
  deriving DecidableEq

/-- `POST deployWallet`. It looks for the wallet at `now`, and for a deployment in progress
at `later`. -/
def postDeployWallet (cfg : AppConfig) (deployer : ℕ) (chain : DeployChain) (session : Session)
    (implementationAddress now later : ℕ) : Option DeployResponse :=
  match getWallet cfg deployer chain now session (some implementationAddress) with
  | none => none
  | some (.ok walletAddress) => some (.deployed walletAddress)
  | some (.error _) =>
    if !cfg.isValidImplementation implementationAddress then
      some (.InvalidImplementation implementationAddress)
    else
      match session.metadata.bind SessionMetadata.walletDeploy with
      | none => some (.submit session.externalAccount implementationAddress)
      | some d =>
        if session.hasDeployInProgress cfg later (some implementationAddress) then
          some (.inProgress d.txHash)
        else some (.submit session.externalAccount implementationAddress)

/-- The wallet is found, and a request to deploy it says so. -/
def StaysDeployed (cfg : AppConfig) (deployer : ℕ) (chain : DeployChain) (now : ℕ)
    (session : Session) (implementationAddress : Option ℕ) (wallet : Text) : Prop :=
  getWallet cfg deployer chain now session implementationAddress = some (.ok wallet) ∧
    ∀ a, implementationAddress = some a → ∀ later, now ≤ later →
      postDeployWallet cfg deployer chain session a now later = some (.deployed wallet)

section Deadline
variable {cfg : AppConfig} {session : Session} {d : WalletDeploy} {now now' : ℕ}
  {implementationAddress : Option ℕ}

/-- Of what the lookup asks of the record only the deadline can change. -/
lemma hasDeployInProgress_later (hd : session.metadata.bind SessionMetadata.walletDeploy = some d)
    (h : session.hasDeployInProgress cfg now implementationAddress = true) :
    session.hasDeployInProgress cfg now' implementationAddress = true ↔
      now' < d.startedAt + cfg.transactionTimeoutMs := by
  simp only [Session.hasDeployInProgress, hd, Bool.and_eq_true, decide_eq_true_eq] at h ⊢
  exact ⟨fun h' => h'.2, fun hlt => ⟨h.1, hlt⟩⟩

end Deadline

/-- A wallet that was found is found later, and no further one deployed, exactly until the
deadline of its deployment. -/
theorem stays_deployed_iff (cfg : AppConfig) (deployer : ℕ) (chain later : DeployChain)
    (hlater : chain.Extends later) (session : Session) (d : WalletDeploy)
    (hd : session.metadata.bind SessionMetadata.walletDeploy = some d)
    (implementationAddress : Option ℕ) (now now' : ℕ) (wallet : Text)
    (hfound : getWallet cfg deployer chain now session implementationAddress = some (.ok wallet)) :
    StaysDeployed cfg deployer later now' session implementationAddress wallet ↔
      now' < d.startedAt + cfg.transactionTimeoutMs := by
  obtain ⟨hprogress, d', hd', blockNumber, hblock, events, hevents, event, hevent, hwallet⟩ :=
    getWallet_ok_iff.mp hfound
  obtain rfl := Option.some.inj (hd.symm.trans hd')
  have hfound' : getWallet cfg deployer later now' session implementationAddress =
      some (.ok wallet) ↔ now' < d.startedAt + cfg.transactionTimeoutMs := by
    rw [getWallet_ok_iff, hasDeployInProgress_later hd hprogress]
    constructor
    · exact fun h => h.1
    · intro hlt
      exact ⟨hlt, d, hd, blockNumber, hlater.getTransaction _ _ hblock, events,
        hlater.getPastEvents _ _ _ _ hblock hevents, event, hevent, hwallet⟩
  rw [StaysDeployed, hfound']
  constructor
  · exact fun h => h.1
  · intro hlt
    refine ⟨hlt, ?_⟩
    rintro a rfl time -
    rw [postDeployWallet, hfound'.mpr hlt]

section Samples

/-- The deployment of the session is alone in its block. -/
def ownChain : DeployChain := sampleChain [sampleEvent 8 3]

theorem stays_deployed_soon :
    StaysDeployed sampleConfig 5 ownChain 999 deployedSession (some 7)
      (toHex (List.replicate 20 8)) :=
  (stays_deployed_iff sampleConfig 5 ownChain ownChain ⟨fun _ _ h => h, fun _ _ _ _ _ h => h⟩
    deployedSession ⟨0, 3, 7⟩ rfl (some 7) 10 999 _ (by decide +kernel)).mpr (by decide)

/-- A second after the deployment has begun it is forgotten, and the next request makes
another one. -/
theorem deployed_forgotten :
    getWallet sampleConfig 5 ownChain 10 deployedSession (some 7) =
        some (.ok (toHex (List.replicate 20 8))) ∧
      getWallet sampleConfig 5 ownChain 1000 deployedSession (some 7) = some (.error ⟨⟩) ∧
      postDeployWallet sampleConfig 5 ownChain deployedSession 7 1000 1000 =
        some (.submit sampleOwner 7) := by
  refine ⟨by decide +kernel, by decide +kernel, by decide +kernel⟩

end Samples

end Komenci.Sessions
