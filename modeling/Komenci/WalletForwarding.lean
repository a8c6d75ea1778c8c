import Komenci.WalletVerification

/-! The two endpoints that forward a user's transactions to the relayer, and the checks of
the subsidy service. -/
namespace Komenci.Wallet
open HexText

inductive AttestationsMethod
  | request
  deriving DecidableEq

inductive StableTokenMethod
  | approve
  | transfer
  deriving DecidableEq

/-- The core contracts, the fee of one attestation in wei, and how the encoder of their
arguments reads the text of an address: as its digits where these follow `0x`. -/
structure CoreContracts where
  attestations : BaseWrapper AttestationsMethod
  stableToken : BaseWrapper StableTokenMethod
  attestationFee : ℕ+
  encodeAddress : Text → Option Address
  encodeAddress_prefixed : ∀ digits a, encodeAddress ('0' :: 'x' :: digits) = some a →
    toLowerCase digits = toHex a.val

structure RawTransactionDto where
  destination : Text
  value : Text
  data : Text
  deriving DecidableEq, Repr

def RawTransactionDto.raw (tx : RawTransactionDto) : RawTransaction :=
  ⟨some tx.destination, tx.value, tx.data⟩

structure SubmitMetaTransactionDto where
  destination : Text
  data : Text

/-- `approveTx` may be absent, and it may be `null`, which the validation lets pass. -/
structure RequestAttestationsDto where
  identifier : Text
  attestationsRequested : {n : ℚ // 0 < n}
  walletAddress : Text
  requestTx : RawTransactionDto
  approveTx : Option (Option RawTransactionDto)

/-- What a handler throws. -/
inductive HandlerError
  | InvalidWallet (e : InvalidWallet)
  | parse (e : TxParseErrors)
  | unexpected
  deriving DecidableEq, Repr

def throwIfInvalid : Option (Except InvalidWallet Unit) → Except HandlerError Unit
  | none => .error .unexpected
  | some (.error e) => .error (.InvalidWallet e)
  | some (.ok ()) => .ok ()

def throwIfError {α : Type} : Outcome α → Except HandlerError α
  | .error _ => .error .unexpected
  | .ok (.error e) => .error (.parse e)
  | .ok (.ok a) => .ok a

/-- `parse` of what may be `null`, which has no destination to read. -/
def parseDto (env : ApiEnvironment) (tx : Option RawTransactionDto) (walletAddress : Text)
    (methodFilter : Option MethodFilter) : Except HandlerError (List TransactionWithMetadata) :=
  match tx with
  | none => .error .unexpected
  | some tx => throwIfError (parse env.txParser tx.raw walletAddress methodFilter)

def requestFilter (core : CoreContracts) : MethodFilter :=
  MethodFilter.empty.addContract "Attestations" core.attestations [.request]

def approveFilter (core : CoreContracts) : MethodFilter :=
  MethodFilter.empty.addContract "StableToken" core.stableToken [.approve]

/-- `SubsidyService.isValid` -/
def isValid (env : ApiEnvironment) (core : CoreContracts) (chain : Chain) (externalAccount : Text)
    (input : RequestAttestationsDto) : Except HandlerError Unit := do
  throwIfInvalid (isValidWallet env chain input.walletAddress externalAccount)
  let _ ← parseDto env (some input.requestTx) input.walletAddress (some (requestFilter core))
  match input.approveTx with
  | none => .ok ()
  | some approveTx =>
    let _ ← parseDto env approveTx input.walletAddress (some (approveFilter core))
    .ok ()

/-- A transaction of the batch: the API's own transfer of the stable token, one the user has
supplied, or the `null` supplied in place of one. -/
inductive BatchTransaction
  | transfer (recipient : Address) (amount : ℕ)
  | supplied (tx : RawTransactionDto)
  | null
  deriving DecidableEq, Repr

/-- `getAttestationFeeRequired` -/
def CoreContracts.getAttestationFeeRequired (core : CoreContracts) (n : ℚ) : ℚ :=
  core.attestationFee * n

/-- The amount has to be an integer of 256 bits to be encoded. -/
def buildSubsidyTransfer (core : CoreContracts) (attestationsRequested : {n : ℚ // 0 < n})
    (account : Text) : Except HandlerError BatchTransaction :=
  let fee := core.getAttestationFeeRequired attestationsRequested
  match core.encodeAddress account with
  | none => .error .unexpected
  | some recipient =>
    if fee.den = 1 ∧ fee.num.toNat < 2 ^ 256 then .ok (.transfer recipient fee.num.toNat)
    else .error .unexpected

/-- What is pushed for a transaction that may be `null`. -/
def BatchTransaction.ofDto : Option RawTransactionDto → BatchTransaction
  | none => .null
  | some tx => .supplied tx

def buildTransactionBatch (core : CoreContracts) (input : RequestAttestationsDto) :
    Except HandlerError (List BatchTransaction) := do
  let transfer ← buildSubsidyTransfer core input.attestationsRequested input.walletAddress
  let approve := input.approveTx.toList.map .ofDto
  return transfer :: (approve ++ [.supplied input.requestTx])

/-- The batch that `requestSubsidisedAttestations` hands to the relayer. -/
def requestSubsidisedAttestations (env : ApiEnvironment) (core : CoreContracts) (chain : Chain)
    (externalAccount : Text) (input : RequestAttestationsDto) :
    Except HandlerError (List BatchTransaction) := do
  isValid env core chain externalAccount input
  buildTransactionBatch core input

/-- The transaction that `submitMetaTransaction` hands to the relayer. -/
def submitMetaTransaction (env : ApiEnvironment) (chain : Chain) (externalAccount : Text)
    (body : SubmitMetaTransactionDto) : Except HandlerError RawTransactionDto := do
  throwIfInvalid (isValidWallet env chain body.destination externalAccount)
  let metaTx : RawTransactionDto := ⟨body.destination, "0x0".toList, body.data⟩
  let _ ← parseDto env (some metaTx) body.destination none
  return metaTx

/-- The transaction asks the wallet of the session's owner, in one of its spellings, to execute a
meta-transaction. -/
def DrivesOwnWallet (env : ApiEnvironment) (chain : Chain) (externalAccount : Text)
    (tx : RawTransactionDto) : Prop :=
  ∃ wallet, verifyWallet env.soliditySha3 chain wallet env.implementations externalAccount =
      some (.ok ()) ∧ normalizeAddress tx.destination = account wallet ∧
    extractMethodId tx.data = toHex executeMetaTransactionId.val

section Checks
variable {env : ApiEnvironment} {core : CoreContracts} {chain : Chain} {externalAccount : Text}

lemma throwIfInvalid_ok {r : Option (Except InvalidWallet Unit)} {u : Unit}
    (h : throwIfInvalid r = .ok u) : r = some (.ok ()) := by
  unfold throwIfInvalid at h
  split at h <;> simp_all

lemma throwIfError_ok {α : Type} {r : Outcome α} {a : α} (h : throwIfError r = .ok a) :
    r = .ok (.ok a) := by
  unfold throwIfError at h
  split at h <;> simp_all

lemma isCallTo_root {tx : RawTransactionDto} {wallet : Text} {method : Selector}
    (h : isCallTo tx.raw (contractAddress wallet) method = .ok true) :
    normalizeAddress tx.destination = account wallet ∧
      extractMethodId tx.data = toHex method.val := by
  simp only [isCallTo, RawTransactionDto.raw, normalizeMethodId_methodIdText, Except.ok.injEq,
    Bool.and_eq_true, decide_eq_true_eq, normalizeAddress_contractAddress] at h
  exact h

/-- Whatever the filter, a parsed transaction is a call of `executeMetaTransaction` to the
address it was parsed for. -/
lemma parseDto_ok {tx : Option RawTransactionDto} {wallet : Text} {F : Option MethodFilter}
    {children : List TransactionWithMetadata} (h : parseDto env tx wallet F = .ok children) :
    ∃ t, tx = some t ∧ parse env.txParser t.raw wallet F = .ok (.ok children) ∧
      normalizeAddress t.destination = account wallet ∧
      extractMethodId t.data = toHex executeMetaTransactionId.val := by
  cases tx with
  | none => cases h
  | some t =>
    have hp := throwIfError_ok h
    have hroot : isCallTo t.raw (contractAddress wallet) executeMetaTransactionId = .ok true := by
      rw [parse] at hp
      split at hp <;> simp_all
    exact ⟨t, rfl, hp, isCallTo_root hroot⟩

lemma except_bind_ok {ε α β : Type} {x : Except ε α} {f : α → Except ε β} {b : β}
    (h : x >>= f = .ok b) : ∃ a, x = .ok a ∧ f a = .ok b := by
  cases x with
  | error e => cases h
  | ok a => exact ⟨a, rfl, h⟩

/-- What a valid input has passed. -/
structure Passed (env : ApiEnvironment) (core : CoreContracts) (chain : Chain)
    (externalAccount : Text) (input : RequestAttestationsDto) : Prop where
  wallet : isValidWallet env chain input.walletAddress externalAccount = some (.ok ())
  request : ∃ children, parseDto env (some input.requestTx) input.walletAddress
    (some (requestFilter core)) = .ok children
  approve : ∀ tx, input.approveTx = some tx → ∃ children,
    parseDto env tx input.walletAddress (some (approveFilter core)) = .ok children

lemma isValid_ok_iff {input : RequestAttestationsDto} :
    isValid env core chain externalAccount input = .ok () ↔
      Passed env core chain externalAccount input := by
  constructor
  · intro h
    unfold isValid at h
    obtain ⟨u, hwallet, h⟩ := except_bind_ok h
    obtain ⟨children, hrequest, h⟩ := except_bind_ok h
    refine ⟨throwIfInvalid_ok hwallet, ⟨children, hrequest⟩, fun tx htx => ?_⟩
    rw [htx] at h
    obtain ⟨more, happrove, -⟩ := except_bind_ok h
    exact ⟨more, happrove⟩
  · rintro ⟨hwallet, ⟨children, hrequest⟩, happrove⟩
    unfold isValid
    rw [hwallet, hrequest]
    cases happ : input.approveTx with
    | none => rfl
    | some tx =>
      obtain ⟨more, hmore⟩ := happrove tx happ
      simp only [hmore]
      rfl

/-- A parsed transaction goes to the wallet it was parsed for. -/
lemma drivesOwnWallet_of_parse {tx : RawTransactionDto} {wallet : Text} {F : Option MethodFilter}
    {children : List TransactionWithMetadata}
    (hwallet : isValidWallet env chain wallet externalAccount = some (.ok ()))
    (h : parseDto env (some tx) wallet F = .ok children) :
    DrivesOwnWallet env chain externalAccount tx := by
  obtain ⟨t, ht, -, hdest, hselector⟩ := parseDto_ok h
  cases ht
  exact ⟨wallet, isValidWallet_ok hwallet, hdest, hselector⟩

lemma buildSubsidyTransfer_ok {n : {n : ℚ // 0 < n}} {walletAddress : Text}
    {t : BatchTransaction} (h : buildSubsidyTransfer core n walletAddress = .ok t) :
    ∃ recipient, core.encodeAddress walletAddress = some recipient ∧
      (core.getAttestationFeeRequired n).den = 1 ∧
      t = .transfer recipient (core.getAttestationFeeRequired n).num.toNat := by
  unfold buildSubsidyTransfer at h
  simp only at h
  split at h
  · cases h
  · split_ifs at h with hfee
    cases h
    exact ⟨_, ‹_›, hfee.1, rfl⟩

/-- Besides the transfer the batch has what the body supplies. -/
lemma mem_of_batch {input : RequestAttestationsDto} {batch : List BatchTransaction}
    {t : BatchTransaction} (h : buildTransactionBatch core input = .ok batch) (hm : t ∈ batch) :
    (∃ recipient amount, t = .transfer recipient amount) ∨
      (∃ approveTx, input.approveTx = some approveTx ∧ t = .ofDto approveTx) ∨
      t = .supplied input.requestTx := by
  obtain ⟨transfer, htransfer, h⟩ := except_bind_ok h
  obtain rfl := Except.ok.inj h
  obtain ⟨recipient, -, -, rfl⟩ := buildSubsidyTransfer_ok htransfer
  rcases List.mem_cons.mp hm with rfl | hm
  · exact .inl ⟨_, _, rfl⟩
  · rcases List.mem_append.mp hm with hm | hm
    · obtain ⟨approveTx, happrove, rfl⟩ := List.mem_map.mp hm
      exact .inr (.inl ⟨approveTx, Option.mem_toList.mp happrove, rfl⟩)
    · exact .inr (.inr (List.mem_singleton.mp hm))

/-- Whatever is handed to the relayer has passed all checks of its request, and what the
user has supplied of it goes to the wallet of the session's owner. -/
theorem forwarded_to_own_wallet (env : ApiEnvironment) (core : CoreContracts) (chain : Chain)
    (externalAccount : Text) :
    (∀ body tx, submitMetaTransaction env chain externalAccount body = .ok tx →
      isValidWallet env chain body.destination externalAccount = some (.ok ()) ∧
      (∃ children, parseDto env (some tx) body.destination none = .ok children) ∧
      DrivesOwnWallet env chain externalAccount tx) ∧
    ∀ input batch, requestSubsidisedAttestations env core chain externalAccount input = .ok batch →
      Passed env core chain externalAccount input ∧ .null ∉ batch ∧
      ∀ tx, .supplied tx ∈ batch → DrivesOwnWallet env chain externalAccount tx := by
  constructor
  · intro body tx h
    obtain ⟨u, hwallet, h⟩ := except_bind_ok h
    obtain ⟨children, hparse, h⟩ := except_bind_ok h
    obtain rfl := Except.ok.inj h
    have hvalid := throwIfInvalid_ok hwallet
    exact ⟨hvalid, ⟨children, hparse⟩, drivesOwnWallet_of_parse hvalid hparse⟩
  · intro input batch h
    obtain ⟨u, hvalid, hbatch⟩ := except_bind_ok h
    have hpassed := isValid_ok_iff.mp hvalid
    have hsome : ∀ approveTx, input.approveTx = some approveTx → ∃ tx, approveTx = some tx ∧
        DrivesOwnWallet env chain externalAccount tx := by
      intro approveTx happ
      obtain ⟨more, happrove⟩ := hpassed.approve _ happ
      obtain ⟨tx, rfl, -⟩ := parseDto_ok happrove
      exact ⟨tx, rfl, drivesOwnWallet_of_parse hpassed.wallet happrove⟩
    refine ⟨hpassed, fun hm => ?_, fun tx hm => ?_⟩
    · obtain ⟨_, _, h⟩ | ⟨approveTx, happ, h⟩ | h := mem_of_batch hbatch hm
      · cases h
      · obtain ⟨tx, rfl, -⟩ := hsome approveTx happ
        cases h
      · cases h
    · obtain ⟨_, _, h⟩ | ⟨approveTx, happ, h⟩ | h := mem_of_batch hbatch hm
      · cases h
      · obtain ⟨tx', rfl, hdrives⟩ := hsome approveTx happ
        cases h
        exact hdrives
      · cases h
        obtain ⟨children, hrequest⟩ := hpassed.request
        exact drivesOwnWallet_of_parse hpassed.wallet hrequest

end Checks

section Samples

def requestId : Selector := ⟨[0x13, 0x7b, 0x4b, 0x2f], rfl⟩

def approveId : Selector := ⟨[0x09, 0x5e, 0xa7, 0xb3], rfl⟩

def transferId : Selector := ⟨[0xa9, 0x05, 0x9c, 0xbb], rfl⟩

def attestationsAt (a : Address) : BaseWrapper AttestationsMethod where
  address := toHex a.val
  methodIds _ := methodIdText requestId
  methodName _ := "request"
  address_spelled := toHex_spelled a
  methodIds_spelled _ := ⟨requestId, normalizeMethodId_methodIdText requestId⟩

def stableTokenAt (a : Address) : BaseWrapper StableTokenMethod where
  address := toHex a.val
  methodIds
    | .approve => methodIdText approveId
    | .transfer => methodIdText transferId
  methodName
    | .approve => "approve"
    | .transfer => "transfer"
  address_spelled := toHex_spelled a
  methodIds_spelled
    | .approve => ⟨approveId, normalizeMethodId_methodIdText approveId⟩
    | .transfer => ⟨transferId, normalizeMethodId_methodIdText transferId⟩

/-- Digits alone are taken for a decimal number. -/
def sampleEncodeAddress : Text → Option Address
  | '0' :: 'x' :: digits => textAddress ('0' :: 'x' :: digits)
  | t => if t.all Char.isDigit then some ⟨ofNat 20 (DecimalText.value t), ofNat_length 20 _⟩
    else none

def sampleCore : CoreContracts where
  attestations := attestationsAt (address 2)
  stableToken := stableTokenAt (address 3)
  attestationFee := 100
  encodeAddress := sampleEncodeAddress
  encodeAddress_prefixed _ _ h := textAddress_spec h

/-- The wallet at 1 has the right code and implementation, and belongs to 4. -/
def sampleChain : Chain where
  getCode a := if account a = toHex (address 1).val then some "proxy".toList else some []
  getImplementation _ := some (toHex (address 5).val)
  signer _ := some (toHex (address 4).val)

def sampleEnvironment : ApiEnvironment where
  soliditySha3 code := if code = "proxy".toList then some PROXY_BYTECODE_SHA3 else none
  implementations := [toHex (address 5).val]
  txParser := ⟨contractDecoder, requestFilter sampleCore⟩

/-- The call data of `request(identifier, count, token)`. -/
def requestCall (identifier : Bytes) (count : ℕ) : Call :=
  ⟨address 2, 0, requestId.val ++ identifier ++ ofNat 32 count ++
    addressWord (address 3)⟩

def requestDto (calls : List Call) : RawTransactionDto :=
  ⟨addressText (address 1), "0".toList, (metaTransaction (address 1) calls).data⟩

/-- A request for three attestations that says so. -/
def threeAttestations : RequestAttestationsDto where
  identifier := toHex (List.replicate 32 7)
  attestationsRequested := ⟨3, by norm_num⟩
  walletAddress := addressText (address 1)
  requestTx := requestDto [requestCall (List.replicate 32 7) 3]
  approveTx := none

theorem forwarded_to_own_wallet_sample :
    DrivesOwnWallet sampleEnvironment sampleChain (toHex (address 4).val)
      ⟨addressText (address 1), "0x0".toList, threeAttestations.requestTx.data⟩ ∧
    DrivesOwnWallet sampleEnvironment sampleChain (toHex (address 4).val)
      threeAttestations.requestTx := by
  have h := forwarded_to_own_wallet sampleEnvironment sampleCore sampleChain
    (toHex (address 4).val)
  constructor
  · exact (h.1 ⟨addressText (address 1), threeAttestations.requestTx.data⟩
      ⟨addressText (address 1), "0x0".toList, threeAttestations.requestTx.data⟩
      (by decide +kernel)).2.2
  · exact (h.2 threeAttestations
      [.transfer (address 1) 300, .supplied threeAttestations.requestTx]
      (by decide +kernel)).2.2 _ (by simp)

end Samples

end Komenci.Wallet
