import Komenci.WalletForwarding

/-! The subsidy and the request it is for: the fee is computed from a number in the body of
the request, the attestations are asked for by the calls inside `requestTx`. -/
namespace Komenci.Wallet
open HexText

/-- The identifier and the count that a call asks the Attestations contract for. -/
def requestArguments (core : CoreContracts) (c : Call) : Option (Bytes × ℕ) :=
  if toHex c.destination.val = normalizeAddress core.attestations.address ∧
      toHex (c.data.take 4) = normalizeMethodId (core.attestations.methodIds .request) then
    match AbiWords.decode [.word, .word, .word] (c.data.drop 4) with
    | some [.word identifier, .word count, .word _] => some (identifier, toNat count)
    | _ => none
  else none

/-- The requests the wallet at `w` makes when it executes the transaction. -/
def requestsOf (core : CoreContracts) (w : Address) (tx : RawTransactionDto) : List (Bytes × ℕ) :=
  ((performedBy w tx.raw).getD []).filterMap (requestArguments core)

def requestedCount (core : CoreContracts) (w : Address) (tx : RawTransactionDto) : ℕ :=
  ((requestsOf core w tx).map Prod.snd).sum

def BatchTransaction.amountTo (w : Address) : BatchTransaction → ℕ
  | .transfer recipient amount => if recipient = w then amount else 0
  | _ => 0

/-- What the API itself transfers to the wallet. -/
def transferred (w : Address) (batch : List BatchTransaction) : ℕ :=
  (batch.map (BatchTransaction.amountTo w)).sum

/-- Every request is for the identifier of the body. -/
def SameIdentifier (core : CoreContracts) (w : Address) (input : RequestAttestationsDto) : Prop :=
  ∀ r ∈ requestsOf core w input.requestTx, parseHex input.identifier = some r.1

/-- The transfer is the fee of what is asked for, and that is for the right identifier. -/
structure SubsidyMatches (core : CoreContracts) (w : Address) (input : RequestAttestationsDto)
    (batch : List BatchTransaction) : Prop where
  fee : (transferred w batch : ℚ) =
    core.getAttestationFeeRequired (requestedCount core w input.requestTx)
  identifier : SameIdentifier core w input

section Batch
variable {core : CoreContracts} {input : RequestAttestationsDto} {batch : List BatchTransaction}

/-- The attestations that the transfer pays the wallet at `w` for: those of the body, where the
encoder reads the address in the body as that wallet's. -/
def paidFor (core : CoreContracts) (w : Address) (input : RequestAttestationsDto) : ℚ :=
  if core.encodeAddress input.walletAddress = some w then input.attestationsRequested else 0

/-- The transfer is made for the number in the body. -/
lemma buildSubsidyTransfer_spec {n : {n : ℚ // 0 < n}} {walletAddress : Text}
    {t : BatchTransaction} (h : buildSubsidyTransfer core n walletAddress = .ok t) :
    ∃ (recipient : Address) (amount : ℕ), core.encodeAddress walletAddress = some recipient ∧
      t = .transfer recipient amount ∧ (amount : ℚ) = core.getAttestationFeeRequired n := by
  obtain ⟨recipient, hrecipient, hfee, rfl⟩ := buildSubsidyTransfer_ok h
  refine ⟨recipient, _, hrecipient, rfl, ?_⟩
  have hnonneg : 0 ≤ core.getAttestationFeeRequired n := by
    unfold CoreContracts.getAttestationFeeRequired
    have hn := n.property
    positivity
  have hnum : ((core.getAttestationFeeRequired n).num.toNat : ℤ) =
      (core.getAttestationFeeRequired n).num := Int.toNat_of_nonneg (Rat.num_nonneg.mpr hnonneg)
  calc ((core.getAttestationFeeRequired n).num.toNat : ℚ)
      = ((core.getAttestationFeeRequired n).num : ℚ) := by exact_mod_cast hnum
    _ = core.getAttestationFeeRequired n := Rat.coe_int_num_of_den_eq_one hfee

/-- What the body supplies transfers nothing of the API's. -/
lemma amountTo_ofDto (w : Address) (tx : Option RawTransactionDto) :
    (BatchTransaction.ofDto tx).amountTo w = 0 := by cases tx <;> rfl

/-- The batch transfers to the wallet the fee for the number in the body, or nothing. -/
theorem transferred_of_batch (w : Address) (h : buildTransactionBatch core input = .ok batch) :
    (transferred w batch : ℚ) = core.getAttestationFeeRequired (paidFor core w input) := by
  obtain ⟨t, ht, h⟩ := except_bind_ok h
  obtain rfl := Except.ok.inj h
  obtain ⟨recipient, amount, hrecipient, rfl, hamount⟩ := buildSubsidyTransfer_spec ht
  have hrest : ∀ t ∈ input.approveTx.toList.map BatchTransaction.ofDto ++
      [BatchTransaction.supplied input.requestTx], t.amountTo w = 0 := by
    intro t ht
    rcases List.mem_append.mp ht with ht | ht
    · obtain ⟨tx, -, rfl⟩ := List.mem_map.mp ht
      exact amountTo_ofDto w tx
    · rw [List.mem_singleton.mp ht, BatchTransaction.amountTo]
      simp
  have hsum := List.sum_eq_zero (List.forall_mem_map.mpr hrest)
  have htransferred : transferred w (.transfer recipient amount ::
      (input.approveTx.toList.map BatchTransaction.ofDto ++ [.supplied input.requestTx])) =
        if recipient = w then amount else 0 := by
    rw [transferred, List.map_cons, List.sum_cons, hsum, Nat.add_zero, BatchTransaction.amountTo]
  rw [htransferred, paidFor, hrecipient]
  by_cases hw : recipient = w
  · simp [hw, hamount]
  · simp [hw, CoreContracts.getAttestationFeeRequired]

/-- The subsidy of an accepted request matches exactly when the number that it pays the wallet for
is the sum of the counts asked for, and every request is for the identifier in the body. -/
theorem subsidy_matches_iff (env : ApiEnvironment) (core : CoreContracts) (chain : Chain)
    (externalAccount : Text) (w : Address)
    (h : requestSubsidisedAttestations env core chain externalAccount input = .ok batch) :
    SubsidyMatches core w input batch ↔
      paidFor core w input = requestedCount core w input.requestTx ∧
        SameIdentifier core w input := by
  obtain ⟨u, -, hbatch⟩ := except_bind_ok h
  have htransfer := transferred_of_batch w hbatch
  have hfee : (core.attestationFee : ℚ) ≠ 0 := by positivity
  have hiff : (transferred w batch : ℚ) =
      core.getAttestationFeeRequired (requestedCount core w input.requestTx) ↔
        paidFor core w input = requestedCount core w input.requestTx := by
    rw [htransfer]
    exact mul_right_inj' hfee
  constructor
  · intro hm
    exact ⟨hiff.mp hm.fee, hm.identifier⟩
  · rintro ⟨hcount, hid⟩
    exact ⟨hiff.mpr hcount, hid⟩

end Batch

section Samples

/-- Three attestations are asked for, and paid to the wallet. -/
theorem subsidy_matches_three :
    SubsidyMatches sampleCore (address 1) threeAttestations
      [.transfer (address 1) 300, .supplied threeAttestations.requestTx] := by
  have hrequests : requestsOf sampleCore (address 1) threeAttestations.requestTx =
      [(List.replicate 32 7, 3)] := by decide +kernel
  refine (subsidy_matches_iff sampleEnvironment sampleCore sampleChain (toHex (address 4).val)
    (address 1) (by decide +kernel)).mpr ⟨by decide +kernel, fun r hr => ?_⟩
  rw [hrequests] at hr
  rw [List.mem_singleton.mp hr]
  decide +kernel

/-- The body says a hundred, the call inside asks for one and for another identifier. -/
def overpaid : RequestAttestationsDto :=
  { threeAttestations with
    attestationsRequested := ⟨100, by norm_num⟩
    requestTx := requestDto [requestCall (List.replicate 32 8) 1] }

theorem subsidy_overpaid :
    requestSubsidisedAttestations sampleEnvironment sampleCore sampleChain (toHex (address 4).val)
        overpaid = .ok [.transfer (address 1) 10000, .supplied overpaid.requestTx] ∧
      requestsOf sampleCore (address 1) overpaid.requestTx = [(List.replicate 32 8, 1)] ∧
      ¬ SubsidyMatches sampleCore (address 1) overpaid
        [.transfer (address 1) 10000, .supplied overpaid.requestTx] := by
  have hrequests : requestsOf sampleCore (address 1) overpaid.requestTx =
      [(List.replicate 32 8, 1)] := by decide +kernel
  have htransferred : transferred (address 1)
      [.transfer (address 1) 10000, .supplied overpaid.requestTx] = 10000 := by
    decide +kernel
  refine ⟨by decide +kernel, hrequests, fun h => ?_⟩
  have hfee := h.fee
  rw [htransferred, requestedCount, hrequests] at hfee
  norm_num [CoreContracts.getAttestationFeeRequired, sampleCore] at hfee

/-- The same wallet without its `0x`. -/
def strayed : RequestAttestationsDto :=
  { threeAttestations with walletAddress := toHex (address 1).val }

example : ∃ stranger, requestSubsidisedAttestations sampleEnvironment sampleCore sampleChain
      (toHex (address 4).val) strayed =
        .ok [.transfer stranger 300, .supplied strayed.requestTx] ∧
    stranger ≠ address 1 ∧
    transferred (address 1) [.transfer stranger 300, .supplied strayed.requestTx] = 0 :=
  ⟨⟨ofNat 20 (DecimalText.value (toHex (address 1).val)), ofNat_length 20 _⟩, by decide +kernel,
    by decide +kernel, by decide +kernel⟩

end Samples

end Komenci.Wallet
