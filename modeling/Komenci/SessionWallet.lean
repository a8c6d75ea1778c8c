import Komenci.SessionMeta
import Komenci.WalletMethodFilter

/-! Which wallet belongs to a recorded deployment: `getWallet` of the API and
`getAddressFromDeploy` of the kit. Both look through the events of a whole block. -/
namespace Komenci.Sessions
open HexText Wallet

/-- A `WalletDeployed` event. -/
structure WalletDeployed where
  owner : Text
  wallet : Text
  implementation : Text
  transactionHash : ℕ
  deriving DecidableEq

/-- The chain as the node shows it. -/
structure DeployChain where
  /-- The block of a transaction: the call throws, there is no such transaction, or it may
  be in no block yet. -/
  getTransaction : ℕ → Option (Option (Option ℕ))
  /-- `none` is a call that throws. -/
  getPastEvents : (contractAddress blockNumber : ℕ) → Option (List WalletDeployed)

structure WalletNotDeployed where
  deriving DecidableEq

/-- What `getWallet` looks for. -/
def SessionOwner (session : Session) (event : WalletDeployed) : Bool :=
  normalizeAddress event.owner = normalizeAddress session.externalAccount

/-- `getWallet`. What throws is `none`. -/
def getWallet (cfg : AppConfig) (deployer : ℕ) (chain : DeployChain) (now : ℕ) (session : Session)
    (implementationAddress : Option ℕ) : Option (Except WalletNotDeployed Text) :=
  if session.hasDeployInProgress cfg now implementationAddress then
    match session.metadata.bind SessionMetadata.walletDeploy with
    | none => none
    | some d =>
      match chain.getTransaction d.txHash with
      | none => none
      | some none => none
      | some (some none) => some (.error ⟨⟩)
      | some (some (some blockNumber)) =>
        match chain.getPastEvents deployer blockNumber with
        | none => none
        | some events =>
          match events.find? (SessionOwner session) with
          | none => some (.error ⟨⟩)
          | some deployWalletLog => some (.ok deployWalletLog.wallet)
  else some (.error ⟨⟩)

def ensureLeading0x (t : Text) : Text := if "0x".toList.isPrefixOf t then t else '0' :: 'x' :: t

def normalizeAddressWith0x (a : Text) : Text := toLowerCase (ensureLeading0x a)

structure TxReceipt where
  to_ : ℕ
  blockNumber : ℕ
  deriving DecidableEq

inductive TxError
  | Timeout
  | Revert (txHash : ℕ)
  | EventNotFound (txHash : ℕ) (event : String)
  deriving DecidableEq

/-- What `getAddressFromDeploy` looks for. -/
def KitOwner (externalAccount : Text) (event : WalletDeployed) : Bool :=
  normalizeAddressWith0x event.owner = normalizeAddressWith0x externalAccount

/-- `getAddressFromDeploy`, on what waiting for the receipt has given. What throws is `none`. -/
def getAddressFromDeploy (chain : DeployChain) (externalAccount : Text) (txHash : ℕ)
    (receiptResult : Except TxError TxReceipt) : Option (Except TxError Text) :=
  match receiptResult with
  | .error e => some (.error e)
  | .ok receipt =>
    match chain.getPastEvents receipt.to_ receipt.blockNumber with
    | none => none
    | some events =>
      match events.find? (KitOwner externalAccount) with
      | none => some (.error (.EventNotFound txHash "WalletDeployed"))
      | some deployWalletLog => some (.ok deployWalletLog.wallet)

/-- The contract has emitted the event in this block. -/
def DeployChain.Emitted (chain : DeployChain) (contractAddress blockNumber : ℕ)
    (event : WalletDeployed) : Prop :=
  ∃ events, chain.getPastEvents contractAddress blockNumber = some events ∧ event ∈ events

/-- The contract is a deployer of wallets. Each deployment creates a contract of its own, so no two
transactions have deployed the same wallet. -/
def DeployChain.Deployer (chain : DeployChain) (contractAddress : ℕ) : Prop :=
  ∀ b event b' event', chain.Emitted contractAddress b event →
    chain.Emitted contractAddress b' event' → event.wallet = event'.wallet →
    event.transactionHash = event'.transactionHash

/-- The transaction has created the wallet through this deployer. -/
def DeployChain.Created (chain : DeployChain) (contractAddress txHash : ℕ) (wallet : Text) : Prop :=
  ∃ b event, chain.Emitted contractAddress b event ∧ event.transactionHash = txHash ∧
    event.wallet = wallet

/-- An event that another transaction has emitted for the owner comes only after one of the
transaction itself. -/
def OwnFirst (isOwners : WalletDeployed → Bool) (txHash : ℕ) (events : List WalletDeployed) : Prop :=
  ∀ pre event post, events = pre ++ event :: post → isOwners event = true →
    event.transactionHash ≠ txHash →
      ∃ e ∈ pre, isOwners e = true ∧ e.transactionHash = txHash

/-- The first event found is of the transaction exactly when its own come first. -/
lemma find_own_iff (isOwners : WalletDeployed → Bool) (txHash : ℕ) (events : List WalletDeployed) :
    (∀ event, events.find? isOwners = some event → event.transactionHash = txHash) ↔
      OwnFirst isOwners txHash events := by
  constructor
  · intro hfind pre event post hevents howner hne
    cases hpre : pre.find? isOwners with
    | none =>
      refine absurd (hfind event ?_) hne
      simp [hevents, List.find?_append, hpre, howner]
    | some e =>
      refine ⟨e, List.mem_of_find?_eq_some hpre, List.find?_some hpre, hfind e ?_⟩
      simp [hevents, List.find?_append, hpre]
  · intro hfirst event hfind
    obtain ⟨howner, pre, post, hevents, hpre⟩ := List.find?_eq_some_iff_append.mp hfind
    by_contra hne
    obtain ⟨e, he, howner', -⟩ := hfirst pre event post hevents howner hne
    simpa [howner'] using hpre e he

section Lookup
variable {chain : DeployChain} {c b txHash : ℕ} {isOwners : WalletDeployed → Bool}

/-- The wallet of an event is one the transaction has created exactly when the transaction
has emitted the event. -/
lemma created_iff (hc : chain.Deployer c) {event : WalletDeployed} (h : chain.Emitted c b event) :
    chain.Created c txHash event.wallet ↔ event.transactionHash = txHash := by
  constructor
  · rintro ⟨b', e, he, rfl, hwallet⟩
    exact (hc _ _ _ _ he h hwallet).symm
  · intro htx
    exact ⟨b, event, h, htx, rfl⟩

lemma find_created_iff (hc : chain.Deployer c) {events : List WalletDeployed}
    (hevents : chain.getPastEvents c b = some events) :
    (∀ event, events.find? isOwners = some event → chain.Created c txHash event.wallet) ↔
      OwnFirst isOwners txHash events := by
  rw [← find_own_iff]
  refine forall₂_congr fun event hfind => ?_
  exact created_iff hc ⟨events, hevents, List.mem_of_find?_eq_some hfind⟩

end Lookup

lemma getWallet_ok_iff {cfg : AppConfig} {deployer now : ℕ} {chain : DeployChain}
    {session : Session} {implementationAddress : Option ℕ} {wallet : Text} :
    getWallet cfg deployer chain now session implementationAddress = some (.ok wallet) ↔
      session.hasDeployInProgress cfg now implementationAddress = true ∧
      ∃ d, session.metadata.bind SessionMetadata.walletDeploy = some d ∧
      ∃ blockNumber, chain.getTransaction d.txHash = some (some (some blockNumber)) ∧
      ∃ events, chain.getPastEvents deployer blockNumber = some events ∧
      ∃ event, events.find? (SessionOwner session) = some event ∧ event.wallet = wallet := by
  unfold getWallet
  split_ifs with hprogress
  · cases hd : session.metadata.bind SessionMetadata.walletDeploy with
    | none => simp
    | some d =>
      rcases htx : chain.getTransaction d.txHash with _ | _ | _ | blockNumber
      · simp [htx]
      · simp [htx]
      · simp [htx]
      · cases hevents : chain.getPastEvents deployer blockNumber with
        | none => simp [htx, hevents]
        | some events =>
          cases hfind : events.find? (SessionOwner session) <;>
            simp [htx, hevents, hfind, hprogress]
  · simp [hprogress]

lemma getAddressFromDeploy_ok_iff {chain : DeployChain} {externalAccount wallet : Text}
    {txHash : ℕ} {receiptResult : Except TxError TxReceipt} :
    getAddressFromDeploy chain externalAccount txHash receiptResult = some (.ok wallet) ↔
      ∃ receipt, receiptResult = .ok receipt ∧
      ∃ events, chain.getPastEvents receipt.to_ receipt.blockNumber = some events ∧
      ∃ event, events.find? (KitOwner externalAccount) = some event ∧ event.wallet = wallet := by
  unfold getAddressFromDeploy
  cases receiptResult with
  | error e => simp
  | ok receipt =>
    cases hevents : chain.getPastEvents receipt.to_ receipt.blockNumber with
    | none => simp [hevents]
    | some events => cases hfind : events.find? (KitOwner externalAccount) <;> simp [hevents, hfind]

/-- Where the API looks a wallet up, the events of the recorded deployment come before those
of any other one for the same owner. -/
def SessionOwnFirst (cfg : AppConfig) (deployer : ℕ) (chain : DeployChain) (now : ℕ)
    (session : Session) (implementationAddress : Option ℕ) (txHash : ℕ) : Prop :=
  session.hasDeployInProgress cfg now implementationAddress = true →
    ∀ blockNumber events, chain.getTransaction txHash = some (some (some blockNumber)) →
      chain.getPastEvents deployer blockNumber = some events →
      OwnFirst (SessionOwner session) txHash events

/-- The same for the kit. -/
def KitOwnFirst (chain : DeployChain) (externalAccount : Text) (txHash : ℕ)
    (receiptResult : Except TxError TxReceipt) : Prop :=
  ∀ receipt events, receiptResult = .ok receipt →
    chain.getPastEvents receipt.to_ receipt.blockNumber = some events →
    OwnFirst (KitOwner externalAccount) txHash events

/-- The wallet that is returned comes from the recorded deployment exactly when the events
of that deployment come first among those for its owner. The transaction goes to a deployer. -/
theorem wallet_of_deploy_iff (cfg : AppConfig) (deployer : ℕ) (chain : DeployChain) (now : ℕ)
    (session : Session) (implementationAddress : Option ℕ) (d : WalletDeploy)
    (hd : session.metadata.bind SessionMetadata.walletDeploy = some d)
    (hdeployer : chain.Deployer deployer) (externalAccount : Text) (txHash : ℕ)
    (receiptResult : Except TxError TxReceipt)
    (hto : ∀ receipt, receiptResult = .ok receipt → chain.Deployer receipt.to_) :
    ((∀ wallet, getWallet cfg deployer chain now session implementationAddress =
        some (.ok wallet) → chain.Created deployer d.txHash wallet) ↔
      SessionOwnFirst cfg deployer chain now session implementationAddress d.txHash) ∧
    ((∀ wallet, getAddressFromDeploy chain externalAccount txHash receiptResult =
        some (.ok wallet) →
          ∃ receipt, receiptResult = .ok receipt ∧ chain.Created receipt.to_ txHash wallet) ↔
      KitOwnFirst chain externalAccount txHash receiptResult) := by
  constructor
  · simp only [getWallet_ok_iff, hd, Option.some.injEq, exists_eq_left', SessionOwnFirst]
    constructor
    · intro h hprogress blockNumber events htx hevents
      refine (find_created_iff hdeployer hevents).mp fun event hfind => ?_
      exact h event.wallet ⟨hprogress, blockNumber, htx, events, hevents, event, hfind, rfl⟩
    · rintro h wallet ⟨hprogress, blockNumber, htx, events, hevents, event, hfind, rfl⟩
      exact (find_created_iff hdeployer hevents).mpr (h hprogress blockNumber events htx hevents)
        event hfind
  · simp only [getAddressFromDeploy_ok_iff, KitOwnFirst]
    constructor
    · rintro h receipt events rfl hevents
      refine (find_created_iff (hto receipt rfl) hevents).mp fun event hfind => ?_
      obtain ⟨_, heq, hcreated⟩ := h event.wallet ⟨receipt, rfl, events, hevents, event, hfind, rfl⟩
      exact Except.ok.inj heq ▸ hcreated
    · rintro h wallet ⟨receipt, rfl, events, hevents, event, hfind, rfl⟩
      exact ⟨receipt, rfl, (find_created_iff (hto receipt rfl) hevents).mpr
        (h receipt events rfl hevents) event hfind⟩

section Samples

def sampleOwner : Text := toHex (List.replicate 20 2)

/-- A wallet for this owner. -/
def deployedFor (owner : Text) (n : Byte) (txHash : ℕ) : WalletDeployed :=
  ⟨owner, toHex (List.replicate 20 n), toHex (List.replicate 20 7), txHash⟩

def sampleEvent (n : Byte) (txHash : ℕ) : WalletDeployed := deployedFor sampleOwner n txHash

/-- The deployment recorded for the session is transaction 3. -/
def deployedSession : Session :=
  ⟨1, sampleOwner, some ⟨some ⟨0, 3, 7⟩, some fun _ => none⟩⟩

/-- Block 9 of deployer 5 has the events. -/
def sampleChain (events : List WalletDeployed) : DeployChain where
  getTransaction _ := some (some (some 9))
  getPastEvents c b := some (if c = 5 ∧ b = 9 then events else [])

lemma sampleChain_emitted {events : List WalletDeployed} {c b : ℕ} {event : WalletDeployed}
    (h : (sampleChain events).Emitted c b event) : event ∈ events := by
  obtain ⟨found, hfound, hevent⟩ := h
  obtain rfl := Option.some.inj hfound
  split_ifs at hevent
  · exact hevent
  · cases hevent

lemma sampleChain_deployer {events : List WalletDeployed}
    (h : ∀ e ∈ events, ∀ e' ∈ events, e.wallet = e'.wallet →
      e.transactionHash = e'.transactionHash) (c : ℕ) : (sampleChain events).Deployer c :=
  fun _ _ _ _ he he' => h _ (sampleChain_emitted he) _ (sampleChain_emitted he')

/-- Before the recorded deployment there is one for another owner, and after it another one for
the same. -/
def busyEvents : List WalletDeployed :=
  [deployedFor (toHex (List.replicate 20 3)) 6 4, sampleEvent 8 3, sampleEvent 9 5]

lemma busyEvents_ownFirst {isOwners : WalletDeployed → Bool}
    (h : busyEvents.find? isOwners = some (sampleEvent 8 3)) : OwnFirst isOwners 3 busyEvents := by
  refine (find_own_iff _ _ _).mp fun event hfind => ?_
  obtain rfl := Option.some.inj (h.symm.trans hfind)
  rfl

theorem wallet_of_deploy_busy :
    let chain := sampleChain busyEvents
    (getWallet sampleConfig 5 chain 10 deployedSession none =
        some (.ok (toHex (List.replicate 20 8))) ∧
      chain.Created 5 3 (toHex (List.replicate 20 8))) ∧
    getAddressFromDeploy chain sampleOwner 3 (.ok ⟨5, 9⟩) =
        some (.ok (toHex (List.replicate 20 8))) ∧
      ∃ receipt, Except.ok ⟨5, 9⟩ = (.ok receipt : Except TxError TxReceipt) ∧
        chain.Created receipt.to_ 3 (toHex (List.replicate 20 8)) := by
  intro chain
  have hdeployer : ∀ c, chain.Deployer c := sampleChain_deployer (by decide +kernel)
  have hget : getWallet sampleConfig 5 chain 10 deployedSession none =
      some (.ok (toHex (List.replicate 20 8))) := by decide +kernel
  have hkit : getAddressFromDeploy chain sampleOwner 3 (.ok ⟨5, 9⟩) =
      some (.ok (toHex (List.replicate 20 8))) := by decide +kernel
  obtain ⟨hsession, hkitFirst⟩ := wallet_of_deploy_iff sampleConfig 5 chain 10 deployedSession none
    ⟨0, 3, 7⟩ rfl (hdeployer 5) sampleOwner 3 (.ok ⟨5, 9⟩) fun receipt _ => hdeployer receipt.to_
  refine ⟨⟨hget, hsession.mpr (fun _ blockNumber events htx hevents => ?_) _ hget⟩, hkit,
    hkitFirst.mpr (fun receipt events hreceipt hevents => ?_) _ hkit⟩
  · cases htx
    cases hevents
    exact busyEvents_ownFirst (by decide +kernel)
  · cases hreceipt
    cases hevents
    exact busyEvents_ownFirst (by decide +kernel)

/-- Somebody else has deployed a wallet for the owner earlier in the block. -/
def crowdedChain : DeployChain := sampleChain [sampleEvent 6 4, sampleEvent 8 3]

theorem wallet_of_other_deploy :
    getWallet sampleConfig 5 crowdedChain 10 deployedSession none =
        some (.ok (toHex (List.replicate 20 6))) ∧
      getAddressFromDeploy crowdedChain sampleOwner 3 (.ok ⟨5, 9⟩) =
        some (.ok (toHex (List.replicate 20 6))) ∧
      (∀ c, crowdedChain.Deployer c) ∧
      ∀ c, ¬ crowdedChain.Created c 3 (toHex (List.replicate 20 6)) := by
  refine ⟨by decide +kernel, by decide +kernel, sampleChain_deployer (by decide +kernel), ?_⟩
  rintro c ⟨b, event, hevent, htx, hwallet⟩
  have hmem := sampleChain_emitted hevent
  simp only [List.mem_cons, List.not_mem_nil, or_false] at hmem
  rcases hmem with rfl | rfl
  · simp [sampleEvent, deployedFor] at htx
  · revert hwallet
    decide +kernel

end Samples

end Komenci.Sessions
