import Komenci.WalletSigned

/-! The kit, the API and the wallet together: what the kit builds passes the checks of the API,
and what the wallet then does on chain is what the kit was called for. -/
namespace Komenci.Wallet
open HexText AbiWords

/-- The call of a method with these arguments. -/
def BaseWrapper.call {M : Type} (wrapper : BaseWrapper M) (m : M) (arguments : Bytes) :
    Option Call := do
  let destination ← textAddress wrapper.address
  let methodId ← parseHex (wrapper.methodIds m)
  some ⟨destination, 0, methodId ++ arguments⟩

/-- `approveAttestationFee` -/
def CoreContracts.approveAttestationFee (core : CoreContracts) (attestationsRequested : ℕ) :
    Option Call := do
  let spender ← textAddress core.attestations.address
  let fee := core.attestationFee * attestationsRequested
  if fee < 2 ^ 256 then core.stableToken.call .approve (addressWord spender ++ ofNat 32 fee)
  else none

/-- `attestations.request` -/
def CoreContracts.request (core : CoreContracts) (identifier : Text)
    (attestationsRequested : ℕ) : Option Call := do
  let bytes ← parseHex identifier
  let token ← textAddress core.stableToken.address
  if bytes.length = 32 ∧ attestationsRequested < 2 ^ 256 then
    core.attestations.call .request (bytes ++ (ofNat 32 attestationsRequested ++ addressWord token))
  else none

/-- The kit with the contracts it finds and the signatures of its account. -/
structure KomenciKit where
  core : CoreContracts
  signMetaTransaction : Text → Call → ℕ → Signature

section Kit
variable (kit : KomenciKit)

/-- What `submitMetaTransaction` posts, signed for the nonce. -/
def KomenciKit.submitMetaTransaction (metaTxWalletAddress : Text) (tx : Call) (nonce : ℕ) :
    SubmitMetaTransactionDto :=
  let signature := kit.signMetaTransaction metaTxWalletAddress tx nonce
  let rawMetaTx := executeMetaTransaction metaTxWalletAddress tx signature
  ⟨rawMetaTx.destination, rawMetaTx.data⟩

/-- What `requestAttestations` posts when the wallet is at the nonce. -/
def KomenciKit.requestAttestations (metaTxWalletAddress identifier : Text)
    (attestationsRequested : ℕ+) (nonce : ℕ) : Option RequestAttestationsDto := do
  let approveTx ← kit.core.approveAttestationFee attestationsRequested
  let approveTxSig := kit.signMetaTransaction metaTxWalletAddress approveTx nonce
  let approveMetaTx := executeMetaTransaction metaTxWalletAddress approveTx approveTxSig
  let requestTx ← kit.core.request identifier attestationsRequested
  let requestTxSig := kit.signMetaTransaction metaTxWalletAddress requestTx (nonce + 1)
  let requestMetaTx := executeMetaTransaction metaTxWalletAddress requestTx requestTxSig
  some ⟨identifier, ⟨attestationsRequested, by exact_mod_cast attestationsRequested.pos⟩,
    metaTxWalletAddress, requestMetaTx, some (some approveMetaTx)⟩

end Kit

section Calls
variable {M : Type} {wrapper : BaseWrapper M} {m : M} {core : CoreContracts}

lemma textAddress_wrapper (wrapper : BaseWrapper M) :
    ∃ a, textAddress wrapper.address = some a := by
  obtain ⟨a, ha⟩ := wrapper.address_spelled
  exact ⟨a, textAddress_iff.mpr ha⟩

lemma call_spec (wrapper : BaseWrapper M) (m : M) (arguments : Bytes) :
    ∃ c, wrapper.call m arguments = some c ∧ IsCallOf wrapper m c ∧
      textAddress wrapper.address = some c.destination ∧ c.value = 0 ∧
      c.data.drop 4 = arguments ∧ c.data.length = 4 + arguments.length := by
  obtain ⟨a, ha⟩ := textAddress_wrapper wrapper
  obtain ⟨s, hs⟩ := wrapper.methodIds_spelled m
  have hid : parseHex (wrapper.methodIds m) = some s.val := parseHex_iff.mpr hs
  refine ⟨⟨a, 0, s.val ++ arguments⟩, by simp [BaseWrapper.call, ha, hid], ⟨?_, ?_⟩, ha, rfl, ?_, ?_⟩
  · exact (textAddress_iff.mp ha).symm
  · rw [List.take_left' s.property, hs]
  · exact List.drop_left' s.property
  · simp [s.property]

/-- A call of a core contract. -/
structure Call.Short (c : Call) : Prop where
  value : c.value = 0
  data : c.data.length ≤ 100

lemma Call.Short.fits {c : Call} (h : c.Short) : c.Fits where
  value := by
    rw [h.value]
    positivity
  data := (Nat.add_le_add_right h.data 1024).trans (by norm_num)

/-- The approval is of the fee, for the Attestations contract. -/
lemma approveAttestationFee_spec {n : ℕ} (hfee : core.attestationFee * n < 2 ^ 256) :
    ∃ spender c, textAddress core.attestations.address = some spender ∧
      core.approveAttestationFee n = some c ∧ IsCallOf core.stableToken .approve c ∧
      textAddress core.stableToken.address = some c.destination ∧ c.Short ∧
      c.data.drop 4 = addressWord spender ++ ofNat 32 (core.attestationFee * n) := by
  obtain ⟨spender, hspender⟩ := textAddress_wrapper core.attestations
  obtain ⟨c, hcall, hof, hdestination, hvalue, hdata, hlength⟩ := call_spec core.stableToken .approve
    (addressWord spender ++ ofNat 32 (core.attestationFee * n))
  refine ⟨spender, c, hspender, ?_, hof, hdestination, ⟨hvalue, ?_⟩, hdata⟩
  · simp only [CoreContracts.approveAttestationFee, hspender, Option.bind_eq_bind,
      Option.bind_some, if_pos hfee, hcall]
  · simp only [List.length_append, addressWord_length, ofNat_length] at hlength
    omega

/-- The request is for the identifier and the number that it is made for. -/
lemma request_spec {identifier : Text} {bytes : Bytes} {n : ℕ}
    (hidentifier : parseHex identifier = some bytes) (hbytes : bytes.length = 32)
    (hn : n < 2 ^ 256) :
    ∃ c, core.request identifier n = some c ∧ IsCallOf core.attestations .request c ∧
      textAddress core.attestations.address = some c.destination ∧ c.Short ∧
      requestArguments core c = some (bytes, n) := by
  obtain ⟨token, htoken⟩ := textAddress_wrapper core.stableToken
  obtain ⟨c, hcall, hof, hdestination, hvalue, hdata, hlength⟩ := call_spec core.attestations .request
    (bytes ++ (ofNat 32 n ++ addressWord token))
  refine ⟨c, ?_, hof, hdestination, ⟨hvalue, ?_⟩, ?_⟩
  · have hwords : bytes.length = 32 ∧ n < 2 ^ 256 := ⟨hbytes, hn⟩
    simp only [CoreContracts.request, hidentifier, htoken, Option.bind_eq_bind, Option.bind_some,
      if_pos hwords, hcall]
  · simp only [List.length_append, addressWord_length, ofNat_length, hbytes] at hlength
    omega
  · have hdecode := decode_encode [.word bytes, .word (ofNat 32 n), .word (addressWord token)]
      (by simp [Value.Sized, hbytes]) (by simp [encode, heads, tail, hbytes])
    have hwords : encode [.word bytes, .word (ofNat 32 n), .word (addressWord token)] =
        bytes ++ (ofNat 32 n ++ addressWord token) := by simp [encode, heads, tail]
    rw [hwords] at hdecode
    have hrequest : toHex c.destination.val = normalizeAddress core.attestations.address ∧
        toHex (c.data.take 4) = normalizeMethodId (core.attestations.methodIds .request) := hof
    rw [requestArguments, if_pos hrequest, hdata]
    simp only [List.map_cons, List.map_nil, Value.layout] at hdecode
    simp only [hdecode, toNat_ofNat 32 n (by omega)]

lemma call_signed {readAddress : Text → Option Address} {readNumber : Text → Option ℕ}
    {walletAddress value : Text} {w : Address} {number : ℕ} {c : Call} {signature : Signature}
    (hw : readAddress walletAddress = some w) (hnumber : readNumber value = some number) :
    (signedTransaction walletAddress value c signature).call readAddress readNumber =
      some ⟨w, number, encodeSigned c signature⟩ := by
  simp [RawTransactionDto.call, signedTransaction, hw, hnumber, parseHex_signed]

lemma callOf_transfer_call {readNumber : Text → Option ℕ} {recipient : Address} {amount : ℕ} :
    callOf core readNumber (.transfer recipient amount) =
      core.stableToken.call .transfer (addressWord recipient ++ ofNat 32 amount) := by
  simp [callOf, BaseWrapper.call]

/-- A filter of one method knows the calls of that method. -/
lemma allowed_of_isCallOf {name : String} {c : Call} (h : IsCallOf wrapper m c) :
    (MethodFilter.empty.addContract name wrapper [m]).Allowed c := by
  obtain ⟨s, hs⟩ := wrapper.methodIds_spelled m
  have hselector : c.data.take 4 = s.val := toHex_injective (h.2.trans hs)
  refine ⟨s, (c.selector_eq_some_iff s).mpr hselector, ?_⟩
  rw [MethodFilter.registered_addContract]
  exact .inl ⟨m, List.mem_singleton_self m, h.1.symm, hs⟩

/-- The fee of a whole number of attestations is transferred as it is. -/
lemma buildSubsidyTransfer_natural {n : {n : ℚ // 0 < n}} {k : ℕ} (hn : (n : ℚ) = k)
    (hfee : core.attestationFee * k < 2 ^ 256) {walletAddress : Text} {w : Address}
    (hw : core.encodeAddress walletAddress = some w) :
    buildSubsidyTransfer core n walletAddress = .ok (.transfer w (core.attestationFee * k)) := by
  have hrequired : core.getAttestationFeeRequired n = ((core.attestationFee * k : ℕ) : ℚ) := by
    rw [CoreContracts.getAttestationFeeRequired, hn]
    push_cast
    rfl
  have hnum : (core.getAttestationFeeRequired n).num.toNat = core.attestationFee * k := by
    rw [hrequired, Rat.num_natCast, Int.toNat_natCast]
  have hden : (core.getAttestationFeeRequired n).den = 1 := by rw [hrequired, Rat.den_natCast]
  unfold buildSubsidyTransfer
  simp only [hw, hnum, hden]
  exact if_pos ⟨trivial, hfee⟩

end Calls

section Main
variable {env : ApiEnvironment} {chain : Chain} {externalAccount walletAddress : Text}
  {kit : KomenciKit} {getMetaTransactionSigner : Address → Call → ℕ → Signature → Address}
  {readNumber : Text → Option ℕ} {w : Address} {wallet : MetaTransactionWallet} {tx : Call}

/-- A meta-transaction that the kit has signed for the nonce of the wallet is relayed exactly
when the API knows the method it calls, and then the wallet makes this call and no other and
goes on to the next nonce. -/
theorem kit_meta_transaction_executed (hd : Faithful env.txParser.decodeData)
    (hw : textAddress walletAddress = some w)
    (hvalid : isValidWallet env chain walletAddress externalAccount = some (.ok ()))
    (hsigner : ∀ c n, getMetaTransactionSigner w c n
      (kit.signMetaTransaction walletAddress c n) = wallet.signer)
    (hzero : readNumber "0x0".toList = some 0) (hc : tx.Fits) (hself : tx.destination ≠ w)
    (hnonce : wallet.nonce + 1 < 2 ^ 256) :
    ((∃ raw, submitMetaTransaction env chain externalAccount
        (kit.submitMetaTransaction walletAddress tx wallet.nonce) = .ok raw) ↔
      env.txParser.defaultFilter.Allowed tx) ∧
    ∀ raw, submitMetaTransaction env chain externalAccount
        (kit.submitMetaTransaction walletAddress tx wallet.nonce) = .ok raw →
      ∃ call, raw.call textAddress readNumber = some call ∧ call.destination = w ∧
        wallet.receive getMetaTransactionSigner w [call] =
          some (⟨wallet.nonce + 1, wallet.signer⟩, [tx]) := by
  have haddress := textAddress_iff.mp hw
  constructor
  · rw [← parse_signed_iff hd haddress hc hself]
    constructor
    · rintro ⟨raw, h⟩
      obtain ⟨u, -, h⟩ := except_bind_ok h
      obtain ⟨children, hparse, -⟩ := except_bind_ok h
      exact ⟨children, hparse⟩
    · rintro ⟨children, hparse⟩
      refine ⟨signedTransaction walletAddress "0x0".toList tx
        (kit.signMetaTransaction walletAddress tx wallet.nonce), ?_⟩
      change (throwIfInvalid (isValidWallet env chain walletAddress externalAccount) >>= fun _ =>
        parseDto env (some (signedTransaction walletAddress "0x0".toList tx _)) walletAddress
          (some env.txParser.defaultFilter) >>= fun _ => .ok _) = _
      rw [hvalid, hparse]
      rfl
  · intro raw h
    obtain ⟨u, -, h⟩ := except_bind_ok h
    obtain ⟨children, -, h⟩ := except_bind_ok h
    cases h
    exact ⟨_, call_signed hw hzero, rfl, receive_signed wallet 0 hc hself (hsigner tx _) hnonce rfl⟩

/-- The approval of the fee, for the Attestations contract. -/
structure IsApproval (core : CoreContracts) (fee : ℕ) (c : Call) : Prop where
  call : IsCallOf core.stableToken .approve c
  arguments : ∃ spender, textAddress core.attestations.address = some spender ∧
    c.data.drop 4 = addressWord spender ++ ofNat 32 fee

/-- What the kit posts for the two calls, and the batch that the API makes of it. -/
structure Posted (core : CoreContracts) (walletAddress identifier : Text) (w : Address) (n : ℕ)
    (approve request : Call) (approveSig requestSig : Signature) (input : RequestAttestationsDto)
    (batch : List BatchTransaction) : Prop where
  body : input.identifier = identifier ∧ (input.attestationsRequested : ℚ) = n
  wallet : input.walletAddress = walletAddress
  requestTx : input.requestTx = executeMetaTransaction walletAddress request requestSig
  approveTx : input.approveTx =
    some (some (executeMetaTransaction walletAddress approve approveSig))
  encoded : core.encodeAddress walletAddress = some w
  batch : batch = [.transfer w (core.attestationFee * n),
    .supplied (executeMetaTransaction walletAddress approve approveSig),
    .supplied (executeMetaTransaction walletAddress request requestSig)]

section Request
variable {core : CoreContracts} {identifier : Text} {bytes : Bytes} {n : ℕ}
  {approve request : Call} {approveSig requestSig : Signature} {input : RequestAttestationsDto}
  {batch : List BatchTransaction}

/-- The API accepts what was posted. -/
lemma Posted.accepted
    (h : Posted core walletAddress identifier w n approve request approveSig requestSig input batch)
    (hd : Faithful env.txParser.decodeData) (hw : textAddress walletAddress = some w)
    (hvalid : isValidWallet env chain walletAddress externalAccount = some (.ok ()))
    (hfee : core.attestationFee * n < 2 ^ 256)
    (happrove : IsCallOf core.stableToken .approve approve) (hshort : approve.Short)
    (hself : approve.destination ≠ w) (hrequest : IsCallOf core.attestations .request request)
    (hshort' : request.Short) (hself' : request.destination ≠ w) :
    requestSubsidisedAttestations env core chain externalAccount input = .ok batch := by
  have haddress := textAddress_iff.mp hw
  have hbuild : buildTransactionBatch core input = .ok batch := by
    unfold buildTransactionBatch
    rw [h.wallet, buildSubsidyTransfer_natural h.body.2 hfee h.encoded, h.requestTx,
      h.approveTx, h.batch]
    rfl
  have hpassed : isValid env core chain externalAccount input = .ok () := by
    refine isValid_ok_iff.mpr ⟨by rwa [h.wallet], ?_, fun tx htx => ?_⟩
    · rw [h.wallet, h.requestTx]
      exact (parse_signed_iff hd haddress hshort'.fits hself' _).mpr (allowed_of_isCallOf hrequest)
    · obtain rfl := Option.some.inj (htx.symm.trans h.approveTx)
      rw [h.wallet]
      exact (parse_signed_iff hd haddress hshort.fits hself _).mpr (allowed_of_isCallOf happrove)
  unfold requestSubsidisedAttestations
  rw [hpassed]
  exact hbuild

/-- The fee is that of the attestations that are requested. -/
lemma Posted.matches
    (h : Posted core walletAddress identifier w n approve request approveSig requestSig input batch)
    (hidentifier : parseHex identifier = some bytes) (hshort : request.Short)
    (hself : request.destination ≠ w) (hrequest : requestArguments core request = some (bytes, n)) :
    SubsidyMatches core w input batch := by
  have hrequests : requestsOf core w input.requestTx = [(bytes, n)] := by
    rw [h.requestTx, requestsOf, executeMetaTransaction, performedBy_signed hshort.fits hself]
    simp [hrequest]
  have htransferred : transferred w batch = core.attestationFee * n := by
    simp [h.batch, transferred, BatchTransaction.amountTo]
  constructor
  · rw [htransferred, requestedCount, hrequests, CoreContracts.getAttestationFeeRequired]
    simp
  · intro r hr
    rw [hrequests] at hr
    rw [List.mem_singleton.mp hr, h.body.1, hidentifier]

/-- The relayer's wallet makes the transfer and the two calls of the user's wallet. -/
lemma Posted.relayed
    (h : Posted core walletAddress identifier w n approve request approveSig requestSig input batch)
    (hzero : readNumber "0".toList = some 0)
    (hshort : approve.Short) (hshort' : request.Short) (metaTxWallet : Address) :
    ∃ call transfer, submitTransactionBatch core readNumber metaTxWallet batch = some call ∧
      executed call.data = some [transfer, ⟨w, 0, encodeSigned approve approveSig⟩,
        ⟨w, 0, encodeSigned request requestSig⟩] ∧
      IsSubsidy core w (core.attestationFee * n : ℕ) transfer ∧
      textAddress core.stableToken.address = some transfer.destination := by
  obtain ⟨transfer, htransfer, -, hdestination, hvalue, -, hlength⟩ := call_spec core.stableToken
    .transfer (addressWord w ++ ofNat 32 (core.attestationFee * n))
  have hcallOf : callOf core readNumber (.transfer w (core.attestationFee * n)) =
      some transfer := callOf_transfer_call.trans htransfer
  have hsigned : ∀ c signature, callOf core readNumber
      (.supplied (executeMetaTransaction walletAddress c signature)) =
        some ⟨w, 0, encodeSigned c signature⟩ := fun c signature => call_signed h.encoded hzero
  obtain ⟨calls, hdef⟩ : ∃ calls : List Call, calls = [transfer,
      ⟨w, 0, encodeSigned approve approveSig⟩, ⟨w, 0, encodeSigned request requestSig⟩] := ⟨_, rfl⟩
  have hcalls : batch.mapM (callOf core readNumber) = some calls := by
    simp only [h.batch, hdef, List.mapM_cons, List.mapM_nil, hcallOf, hsigned, Option.pure_def,
      Option.bind_eq_bind, Option.bind_some]
  have hbatch : (batchOf calls).Fits := by
    have hencoded := encodeSigned_length approve approveSig
    have hencoded' := encodeSigned_length request requestSig
    have hdata := hshort.data
    have hdata' := hshort'.data
    refine batchOf_fits (by simp [hdef, hvalue]) ?_
    simp only [List.length_append, addressWord_length, ofNat_length] at hlength
    simp only [CallShape.Encodable, hdef, List.map_cons, List.map_nil, List.length_cons,
      List.length_nil, List.sum_cons, List.sum_nil, hlength]
    omega
  have hcall : submitTransactionBatch core readNumber metaTxWallet batch =
      some ⟨metaTxWallet, 0, encodeBatchCall (batchOf calls)⟩ := by
    rw [submitTransactionBatch, hcalls]
    exact if_pos hbatch
  obtain ⟨-, made, hsame, hexecuted⟩ := executed_submitTransactionBatch hcall
  obtain rfl := Option.some.inj (hcalls.symm.trans hsame)
  exact ⟨_, transfer, hcall, hdef ▸ hexecuted, callOf_transfer hcallOf,
    hdestination⟩

end Request

/-- A request for attestations that the kit has signed from the nonce of the wallet on is
accepted. The calls that are relayed transfer the fee to the wallet and make it approve the fee
and request the attestations the kit was asked for, and nothing else. -/
theorem kit_request_carried_out {identifier : Text} {bytes : Bytes} {n : ℕ+}
    (hd : Faithful env.txParser.decodeData) (hw : textAddress walletAddress = some w)
    (hencoded : kit.core.encodeAddress walletAddress = some w)
    (hvalid : isValidWallet env chain walletAddress externalAccount = some (.ok ()))
    (hsigner : ∀ c n, getMetaTransactionSigner w c n
      (kit.signMetaTransaction walletAddress c n) = wallet.signer)
    (hzero : readNumber "0".toList = some 0) (hidentifier : parseHex identifier = some bytes)
    (hbytes : bytes.length = 32) (hfee : (kit.core.attestationFee * n : ℕ) < 2 ^ 256)
    (hattestations : textAddress kit.core.attestations.address ≠ some w)
    (htoken : textAddress kit.core.stableToken.address ≠ some w)
    (hnonce : wallet.nonce + 2 < 2 ^ 256) (metaTxWallet : Address) :
    ∃ input batch call transfer metaTxs approve request,
      kit.requestAttestations walletAddress identifier n wallet.nonce = some input ∧
      requestSubsidisedAttestations env kit.core chain externalAccount input = .ok batch ∧
      SubsidyMatches kit.core w input batch ∧
      submitTransactionBatch kit.core readNumber metaTxWallet batch = some call ∧
      executed call.data = some (transfer :: metaTxs) ∧
      IsSubsidy kit.core w (kit.core.attestationFee * n : ℕ) transfer ∧
      wallet.receive getMetaTransactionSigner w (transfer :: metaTxs) =
        some (⟨wallet.nonce + 2, wallet.signer⟩, [approve, request]) ∧
      IsApproval kit.core (kit.core.attestationFee * n) approve ∧
      requestArguments kit.core request = some (bytes, (n : ℕ)) := by
  have hn : (n : ℕ) < 2 ^ 256 :=
    (Nat.le_mul_of_pos_left _ kit.core.attestationFee.pos).trans_lt hfee
  obtain ⟨spender, approve, hspender, happrove, hof, hdestination, hshort, hdata⟩ :=
    approveAttestationFee_spec hfee
  obtain ⟨request, hrequest, hof', hdestination', hshort', harguments⟩ :=
    request_spec hidentifier hbytes hn
  have hself : approve.destination ≠ w := fun h => htoken (h ▸ hdestination)
  have hself' : request.destination ≠ w := fun h => hattestations (h ▸ hdestination')
  have hposted : ∃ input, kit.requestAttestations walletAddress identifier n wallet.nonce =
      some input ∧ ∃ batch, Posted kit.core walletAddress identifier w n approve request
        (kit.signMetaTransaction walletAddress approve wallet.nonce)
        (kit.signMetaTransaction walletAddress request (wallet.nonce + 1)) input batch := by
    simp only [KomenciKit.requestAttestations, happrove, hrequest, Option.bind_eq_bind,
      Option.bind_some]
    exact ⟨_, rfl, _, ⟨rfl, rfl⟩, rfl, rfl, rfl, hencoded, rfl⟩
  obtain ⟨input, hinput, batch, hposted⟩ := hposted
  obtain ⟨call, transfer, hcall, hexecuted, hsubsidy, hdestination''⟩ :=
    hposted.relayed hzero hshort hshort' metaTxWallet
  have hother : transfer.destination ≠ w := fun h => htoken (h ▸ hdestination'')
  refine ⟨input, batch, call, transfer, _, approve, request, hinput,
    hposted.accepted hd hw hvalid hfee hof hshort hself hof' hshort' hself',
    hposted.matches hidentifier hshort' hself' harguments, hcall, hexecuted, hsubsidy, ?_,
    ⟨hof, spender, hspender, hdata⟩, harguments⟩
  have hfirst : wallet.nonce + 1 < 2 ^ 256 := by omega
  have hsecond : wallet.nonce + 1 + 1 < 2 ^ 256 := by omega
  have hrest : MetaTransactionWallet.receive getMetaTransactionSigner w
      ⟨wallet.nonce + 1, wallet.signer⟩ [⟨w, 0, encodeSigned request
        (kit.signMetaTransaction walletAddress request (wallet.nonce + 1))⟩] =
      some (⟨wallet.nonce + 1 + 1, wallet.signer⟩, [request]) :=
    receive_signed ⟨wallet.nonce + 1, wallet.signer⟩ 0 hshort'.fits hself' (hsigner request _)
      hsecond rfl
  rw [receive_other hother]
  exact receive_signed wallet 0 hshort.fits hself (hsigner approve _) hfirst hrest

end Main

section Samples

/-- A scheme whose signatures tell the nonce they were made for. -/
def sampleKit : KomenciKit where
  core := sampleCore
  signMetaTransaction _ _ nonce :=
    ⟨⟨ofNat 32 27, ofNat_length 32 27⟩, ⟨ofNat 32 0, ofNat_length 32 0⟩,
      ⟨ofNat 32 nonce, ofNat_length 32 nonce⟩⟩

def sampleSigner (_ : Address) (_ : Call) (nonce : ℕ) (signature : Signature) : Address :=
  if signature.s.val = ofNat 32 nonce then address 4 else address 0

/-- Decimal, or hexadecimal with its mark. -/
def sampleReadNumber : Text → Option ℕ
  | '0' :: 'x' :: digits => (digits.mapM digitValue).map fun ds => Nat.ofDigits 16 ds.reverse
  | t => some (DecimalText.value t)

lemma sampleKit_signs (c : Call) (n : ℕ) : sampleSigner (address 1) c n
    (sampleKit.signMetaTransaction (addressText (address 1)) c n) =
      (⟨5, address 4⟩ : MetaTransactionWallet).signer := if_pos rfl

lemma sample_valid : isValidWallet sampleEnvironment sampleChain (addressText (address 1))
    (toHex (address 4).val) = some (.ok ()) := by decide +kernel

lemma sample_address : textAddress (addressText (address 1)) = some (address 1) := by decide +kernel

theorem kit_meta_transaction_executed_request :
    ∃ raw, submitMetaTransaction sampleEnvironment sampleChain (toHex (address 4).val)
        (sampleKit.submitMetaTransaction (addressText (address 1))
          (requestCall (List.replicate 32 7) 3) 5) = .ok raw ∧
      ∃ call, raw.call textAddress sampleReadNumber = some call ∧ call.destination = address 1 ∧
        MetaTransactionWallet.receive sampleSigner (address 1) ⟨5, address 4⟩ [call] =
          some (⟨6, address 4⟩, [requestCall (List.replicate 32 7) 3]) := by
  have hd : Faithful sampleEnvironment.txParser.decodeData := contractDecoder_faithful
  have hzero : sampleReadNumber "0x0".toList = some 0 := by decide +kernel
  have hfits : (requestCall (List.replicate 32 7) 3).Fits := ⟨by decide +kernel, by decide +kernel⟩
  obtain ⟨hiff, hall⟩ := kit_meta_transaction_executed hd sample_address sample_valid
    sampleKit_signs hzero hfits (by decide) (by norm_num)
  obtain ⟨raw, hraw⟩ := hiff.mpr (by decide +kernel)
  exact ⟨raw, hraw, hall raw hraw⟩

theorem kit_request_carried_out_three :
    ∃ input batch,
      sampleKit.requestAttestations (addressText (address 1)) (toHex (List.replicate 32 7)) 3 5 =
        some input ∧
      requestSubsidisedAttestations sampleEnvironment sampleCore sampleChain (toHex (address 4).val)
        input = .ok batch ∧
      SubsidyMatches sampleCore (address 1) input batch := by
  have hd : Faithful sampleEnvironment.txParser.decodeData := contractDecoder_faithful
  have hzero : sampleReadNumber "0".toList = some 0 := by decide +kernel
  have hfee : (sampleKit.core.attestationFee * (3 : ℕ+) : ℕ) < 2 ^ 256 := by decide +kernel
  obtain ⟨input, batch, -, -, -, -, -, hinput, hbatch, hmatches, -⟩ :=
    kit_request_carried_out hd sample_address (by decide +kernel) sample_valid sampleKit_signs hzero
      (parseHex_toHex (List.replicate 32 7)) rfl hfee (by decide +kernel) (by decide +kernel)
      (by norm_num) (address 9)
  exact ⟨input, batch, hinput, hbatch, hmatches⟩

end Samples

end Komenci.Wallet
