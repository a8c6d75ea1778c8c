import Komenci.WalletSubsidy

/-! What a subsidised batch does on chain: the relayer hands it to its own wallet in one
transaction, that wallet makes the calls of the batch, and the user's wallet those inside. -/
namespace Komenci.Wallet
open HexText AbiWords

section Relay
variable (core : CoreContracts) (readNumber : Text → Option ℕ)

/-- The call that a raw transaction stands for, where its address and its value are read so. -/
def RawTransactionDto.call (readAddress : Text → Option Address) (readNumber : Text → Option ℕ)
    (tx : RawTransactionDto) : Option Call := do
  let destination ← readAddress tx.destination
  let value ← readNumber tx.value
  let data ← parseHex tx.data
  some ⟨destination, value, data⟩

/-- The call that a transaction of the batch stands for. `readNumber` is how the encoder reads
the text of a number. -/
def callOf : BatchTransaction → Option Call
  | .transfer recipient amount => do
      let token ← textAddress core.stableToken.address
      let methodId ← parseHex (core.stableToken.methodIds .transfer)
      some ⟨token, 0, methodId ++ (addressWord recipient ++ ofNat 32 amount)⟩
  | .supplied tx => tx.call core.encodeAddress readNumber
  | .null => none

/-- `submitTransactionBatch`: the relayer's transaction is one call of its own wallet. Numbers
that do not fit in a word are not encoded. -/
def submitTransactionBatch (metaTxWallet : Address) (transactions : List BatchTransaction) :
    Option Call := do
  let calls ← transactions.mapM (callOf core readNumber)
  if (batchOf calls).Fits then some ⟨metaTxWallet, 0, encodeBatchCall (batchOf calls)⟩ else none

/-- What a wallet does with a call of `executeTransactions` by its signer. -/
def executed (calldata : Bytes) : Option (List Call) :=
  (decodeBatchCall calldata).bind executeTransactions

end Relay

def IsCallOf {M : Type} (wrapper : BaseWrapper M) (m : M) (c : Call) : Prop :=
  toHex c.destination.val = normalizeAddress wrapper.address ∧
    toHex (c.data.take 4) = normalizeMethodId (wrapper.methodIds m)

/-- A transfer of the fee to the wallet at `w`. -/
structure IsSubsidy (core : CoreContracts) (w : Address) (fee : ℚ) (c : Call) : Prop where
  call : IsCallOf core.stableToken .transfer c
  value : c.value = 0
  arguments : ∃ amount : ℕ, (amount : ℚ) = fee ∧
    c.data.drop 4 = addressWord w ++ ofNat 32 amount

/-- A meta-transaction for the wallet at `w`, which makes no calls but those of the method. -/
structure Drives {M : Type} (wrapper : BaseWrapper M) (m : M) (w : Address) (c : Call) : Prop where
  destination : c.destination = w
  selector : c.data.take 4 = executeMetaTransactionId.val
  performed : ∀ calls, performed w c.data = some calls → ∀ inner ∈ calls, IsCallOf wrapper m inner

section Batch
variable {env : ApiEnvironment} {core : CoreContracts} {chain : Chain} {externalAccount : Text}
  {readNumber : Text → Option ℕ} {metaTxWallet w : Address} {input : RequestAttestationsDto}
  {batch : List BatchTransaction} {call : Call}

/-- The relayer's wallet makes the calls of the batch, in their order, and no others. -/
lemma executed_submitTransactionBatch
    (h : submitTransactionBatch core readNumber metaTxWallet batch = some call) :
    call.destination = metaTxWallet ∧ ∃ calls, batch.mapM (callOf core readNumber) = some calls ∧
      executed call.data = some calls := by
  obtain ⟨calls, hcalls, h⟩ := Option.bind_eq_some_iff.mp h
  split_ifs at h with hfits
  cases h
  refine ⟨rfl, calls, hcalls, ?_⟩
  rw [executed, decodeBatchCall_encode _ hfits, Option.bind_some]
  exact (executeTransactions_eq_some_iff _ _).mpr rfl

/-- Behind `0x` the encoder reads the digits. -/
lemma encodeAddress_spec {t : Text} {a : Address} (ht : Prefixed t)
    (h : core.encodeAddress t = some a) : normalizeAddress t = toHex a.val := by
  obtain ⟨digits, rfl⟩ := ht
  exact core.encodeAddress_prefixed digits a h

lemma encodeAddress_eq {t : Text} {a : Address} (ht : Prefixed t) (hw : account t = toHex w.val)
    (h : core.encodeAddress t = some a) : a = w :=
  Subtype.ext (toHex_injective
    ((account_of_normalizeAddress (encodeAddress_spec ht h)).symm.trans hw))

lemma callOf_transfer {amount : ℕ} {c : Call}
    (h : callOf core readNumber (.transfer w amount) = some c) :
    IsSubsidy core w amount c := by
  simp only [callOf, Option.bind_eq_bind, Option.bind_eq_some_iff] at h
  obtain ⟨token, htoken, methodId, hmethod, h⟩ := h
  cases h
  obtain ⟨s, hs⟩ := core.stableToken.methodIds_spelled .transfer
  have hid : normalizeMethodId (core.stableToken.methodIds .transfer) = toHex methodId :=
    toLowerCase_of_parseDigits hmethod
  obtain rfl : methodId = s.val := toHex_injective (hid.symm.trans hs)
  refine ⟨⟨(textAddress_spec htoken).symm, ?_⟩, rfl, amount, rfl, ?_⟩
  · rw [List.take_left' s.property, hid]
  · exact List.drop_left' s.property

lemma shapeOf_of_performedBy {tx : RawTransaction} {calls : List Call}
    (h : performedBy w tx = some calls) : ∃ shape, shapeOf w tx = some shape := by
  obtain ⟨calldata, hdata, h⟩ := Option.bind_eq_some_iff.mp h
  obtain ⟨c, hc, h⟩ := Option.bind_eq_some_iff.mp h
  by_cases hself : c.destination = w ∧ c.data.take 4 = executeTransactionsId.val
  · rw [if_pos hself] at h
    obtain ⟨b, hb, -⟩ := Option.bind_eq_some_iff.mp h
    exact ⟨_, by simp [shapeOf, hdata, hc, hself, hb]; rfl⟩
  · exact ⟨.single, by simp [shapeOf, hdata, hc, hself]⟩

/-- A filter of one method allows the calls of that method. -/
lemma isCallOf_of_allowed {M : Type} {name : String} {wrapper : BaseWrapper M} {m : M} {c : Call}
    (h : (MethodFilter.empty.addContract name wrapper [m]).Allowed c) : IsCallOf wrapper m c := by
  obtain ⟨s, hs, hregistered⟩ := h
  rw [MethodFilter.registered_addContract] at hregistered
  rcases hregistered with ⟨m', hm, ha, hid⟩ | hempty
  · obtain rfl := List.mem_singleton.mp hm
    exact ⟨ha.symm, by rw [(c.selector_eq_some_iff s).mp hs, hid]⟩
  · simp [MethodFilter.registered_iff, MethodFilter.empty] at hempty

/-- What was parsed for the wallet drives it to nothing but the calls that were looked for. -/
lemma callOf_supplied {M : Type} {name : String} {wrapper : BaseWrapper M} {m : M}
    {tx : RawTransactionDto} {children : List TransactionWithMetadata} {c : Call}
    (hd : Faithful env.txParser.decodeData)
    (hw : account input.walletAddress = toHex w.val) (hprefixed : Prefixed tx.destination)
    (hharmless : ∀ shape, shapeOf w tx.raw = some shape → shape.Harmless)
    (hparse : parseDto env (some tx) input.walletAddress
      (some (MethodFilter.empty.addContract name wrapper [m])) = .ok children)
    (h : callOf core readNumber (.supplied tx) = some c) : Drives wrapper m w c := by
  simp only [callOf, RawTransactionDto.call, Option.bind_eq_bind, Option.bind_eq_some_iff] at h
  obtain ⟨destination, hdestination, value, -, data, hdata, h⟩ := h
  cases h
  obtain ⟨t, ht, hp, hto, hselector⟩ := parseDto_ok hparse
  cases ht
  constructor
  · have hdest := (encodeAddress_spec hprefixed hdestination).symm.trans (hto.trans hw)
    exact Subtype.ext (toHex_injective hdest)
  · exact toHex_injective ((extractMethodId_of_parseHex hdata).symm.trans hselector)
  · intro calls hcalls inner hinner
    have hperformed : performedBy w tx.raw = some calls := by
      rw [performedBy, RawTransactionDto.raw, hdata]
      exact hcalls
    obtain ⟨shape, hshape⟩ := shapeOf_of_performedBy hperformed
    exact isCallOf_of_allowed (Sound.of_harmless hd (hharmless shape hshape) _ _ w _ tx.raw children
      calls hw hshape hp hperformed inner hinner)

/-- The calls that the relayer's wallet makes for an accepted request are, in this order, the
transfer of the fee to the user's wallet, at most one meta-transaction that makes that wallet
approve, and one that makes it request attestations; and as long as the batches inside do not
evade the parser, the user's wallet makes no other calls. The addresses are written with `0x`. -/
theorem subsidised_batch_executed (hd : Faithful env.txParser.decodeData)
    (hw : account input.walletAddress = toHex w.val) (hprefixed : Prefixed input.walletAddress)
    (hbatch : requestSubsidisedAttestations env core chain externalAccount input = .ok batch)
    (hsupplied : ∀ tx, .supplied tx ∈ batch → Prefixed tx.destination ∧
      ∀ shape, shapeOf w tx.raw = some shape → shape.Harmless)
    (hcall : submitTransactionBatch core readNumber metaTxWallet batch = some call) :
    call.destination = metaTxWallet ∧ ∃ transfer approve request,
      executed call.data = some (transfer :: (approve ++ [request])) ∧
      IsSubsidy core w (core.getAttestationFeeRequired input.attestationsRequested) transfer ∧
      approve.length ≤ 1 ∧ (∀ c ∈ approve, Drives core.stableToken .approve w c) ∧
      Drives core.attestations .request w request := by
  obtain ⟨hdestination, calls, hcalls, hexecuted⟩ := executed_submitTransactionBatch hcall
  obtain ⟨u, hvalid, hbuild⟩ := except_bind_ok hbatch
  obtain ⟨hwallet, ⟨children, hrequest⟩, happrove⟩ := isValid_ok_iff.mp hvalid
  obtain ⟨t, ht, hbuild⟩ := except_bind_ok hbuild
  obtain rfl := Except.ok.inj hbuild
  obtain ⟨recipient, amount, hrecipient, rfl, hamount⟩ := buildSubsidyTransfer_spec ht
  obtain rfl := encodeAddress_eq hprefixed hw hrecipient
  simp only [List.mapM_cons, List.mapM_append, List.mapM_nil, Option.bind_eq_bind,
    Option.bind_eq_some_iff, Option.pure_def, Option.some.injEq] at hcalls
  obtain ⟨transfer, htransfer, _, ⟨approve, happroves, _, ⟨request, hlast, _, rfl, rfl⟩, rfl⟩, rfl⟩ :=
    hcalls
  refine ⟨hdestination, transfer, approve, request, hexecuted, ?_, ?_⟩
  · exact hamount ▸ callOf_transfer htransfer
  have hdrives : approve.length ≤ 1 ∧
      ∀ c ∈ approve, Drives core.stableToken .approve recipient c := by
    cases happ : input.approveTx with
    | none =>
      simp only [happ, Option.toList_none, List.map_nil, List.mapM_nil, Option.pure_def,
        Option.some.injEq] at happroves
      simp [← happroves]
    | some approveTx =>
      obtain ⟨more, hmore⟩ := happrove _ happ
      obtain ⟨tx, rfl, -⟩ := parseDto_ok hmore
      simp only [happ, Option.toList_some, List.map_cons, List.map_nil, List.mapM_cons,
        List.mapM_nil, Option.bind_eq_bind, Option.bind_eq_some_iff, Option.pure_def,
        Option.some.injEq] at happroves
      obtain ⟨c, hc, _, rfl, rfl⟩ := happroves
      refine ⟨le_refl 1, fun c' hc' => ?_⟩
      obtain rfl := List.mem_singleton.mp hc'
      obtain ⟨hdest, hharmless⟩ := hsupplied tx (by simp [happ, BatchTransaction.ofDto])
      exact callOf_supplied hd hw hdest hharmless hmore hc
  obtain ⟨hdest, hharmless⟩ := hsupplied input.requestTx (by simp)
  exact ⟨hdrives.1, hdrives.2, callOf_supplied hd hw hdest hharmless hrequest hlast⟩

end Batch

theorem subsidised_batch_executed_three :
    ∃ call, submitTransactionBatch sampleCore (fun t => some (DecimalText.value t)) (address 9)
        [.transfer (address 1) 300, .supplied threeAttestations.requestTx] = some call ∧
      call.destination = address 9 ∧ ∃ transfer approve request,
        executed call.data = some (transfer :: (approve ++ [request])) ∧
        IsSubsidy sampleCore (address 1)
          (sampleCore.getAttestationFeeRequired threeAttestations.attestationsRequested) transfer ∧
        approve.length ≤ 1 ∧ (∀ c ∈ approve, Drives sampleCore.stableToken .approve (address 1) c) ∧
        Drives sampleCore.attestations .request (address 1) request := by
  obtain ⟨call, hcall⟩ := Option.isSome_iff_exists.mp (show (submitTransactionBatch sampleCore
    (fun t => some (DecimalText.value t)) (address 9) [.transfer (address 1) 300,
      .supplied threeAttestations.requestTx]).isSome = true by decide +kernel)
  have hshape : shapeOf (address 1) threeAttestations.requestTx.raw = some (.batch [100]) := by
    decide +kernel
  have haccepted : requestSubsidisedAttestations sampleEnvironment sampleCore sampleChain
      (toHex (address 4).val) threeAttestations = .ok [.transfer (address 1) 300,
        .supplied threeAttestations.requestTx] := by
    decide +kernel
  refine ⟨call, hcall, subsidised_batch_executed contractDecoder_faithful (by decide +kernel)
    (by decide +kernel) haccepted (fun tx htx => ?_) hcall⟩
  obtain rfl : tx = threeAttestations.requestTx := by simpa using htx
  refine ⟨by decide +kernel, fun shape h => ?_⟩
  cases hshape.symm.trans h
  exact .inl (by simp)

end Komenci.Wallet
