import Komenci.EventRows
import Komenci.RewardEligibility

/-! From the events of the chain to the inviter who is rewarded: the conditions of a reward look
an inviter up in the tables that the two polling services fill. -/
namespace Komenci.Eligibility
open HexText Interleaving
open Events (Chain OnChain Shared AttestationCompleted AccountWalletAddressSet SaveAnswer Poll)

def ofAttestation (r : Events.Attestation) : Attestation :=
  ⟨lower r.address.toList, r.identifier.toList⟩

def ofAddressMapping (r : Events.AddressMapping) : AddressMapping :=
  ⟨lower r.walletAddress.toList, lower r.accountAddress.toList⟩

/-- The attestation was completed on chain, up to block `head`. -/
def Attested (chain : Chain AttestationCompleted) (head : ℕ) (account : Lower)
    (identifier : Text) : Prop :=
  ∃ event, OnChain chain head event ∧ lower event.account.toList = account ∧
    event.identifier.toList = identifier

/-- The account has set the wallet address on chain, up to block `head`. -/
def Mapped (chain : Chain AccountWalletAddressSet) (head : ℕ) (walletAddress account : Lower) :
    Prop :=
  ∃ event, OnChain chain head event ∧ lower event.walletAddress.toList = walletAddress ∧
    lower event.account.toList = account

/-- The stored block number has passed every block with events. -/
def CaughtUp {κ ε η ο δ : Type} (svc : Events.Service ε η ο δ) (s : Shared κ ε δ) : Prop :=
  ∃ row, s.find svc.key = some row ∧
    ∀ n ≤ s.head, svc.chain.events n ≠ [] → 0 < n ∧ n ≤ row.blockNumber

lemma lower_toLower (t : String) : lower t.toLower.toList = lower t.toList := by
  apply Subtype.ext
  change toLowerCase (t.map Char.toLower).toList = toLowerCase t.toList
  rw [String.toList_map]
  exact toLowerCase_idem t.toList

section Tables
variable {ι κ : Type} [DecidableEq ι] [DecidableEq κ] {inst : ι → κ}

section Attestations
variable {chain : Chain AttestationCompleted}
  {c d : Config (Shared κ AttestationCompleted (List Events.Attestation)) ι
    (Poll AttestationCompleted AttestationCompleted)}

lemma attested_of_row (hinit : Events.Initial c) (hstore : c.shared.store = [])
    (hrun : Run (Events.machine (Events.fetchAttestations chain) inst) anyStep c d)
    {r : Events.Attestation} (hr : r ∈ d.shared.store) :
    Attested chain d.shared.head (ofAttestation r).address (ofAttestation r).identifier := by
  obtain ⟨event, id, createdAt, hevent, rfl⟩ :=
    (Events.run_holdsEvents rfl hinit hstore hrun).event r hr
  exact ⟨event, hevent, (lower_toLower event.account).symm, rfl⟩

lemma row_of_attested (hstart : Events.Started (Events.fetchAttestations chain) c)
    (hrun : Run (Events.machine (Events.fetchAttestations chain) inst)
      (Events.Saves Events.attestations) c d)
    (hcaught : CaughtUp (Events.fetchAttestations chain) d.shared) {account : Lower}
    {identifier : Text} (h : Attested chain d.shared.head account identifier) :
    ∃ r ∈ d.shared.store, ofAttestation r = ⟨account, identifier⟩ := by
  obtain ⟨event, ⟨n, hn, hevent⟩, rfl, rfl⟩ := h
  obtain ⟨row, hrow, hall⟩ := hcaught
  obtain ⟨hpos, hle⟩ := hall n hn (List.ne_nil_of_mem hevent)
  obtain ⟨r, hr, hcontent⟩ := Events.run_recorded rfl rfl hstart hrun hrow hpos hle hevent
  simp only [Events.attestations, Prod.mk.injEq] at hcontent
  exact ⟨r, hr, by rw [ofAttestation, hcontent.1, hcontent.2.1, lower_toLower]⟩

end Attestations

section AddressMappings
variable {chain : Chain AccountWalletAddressSet}
  {c d : Config (Shared κ AccountWalletAddressSet (List Events.AddressMapping)) ι
    (Poll AccountWalletAddressSet AccountWalletAddressSet)}

lemma mapped_of_row (hinit : Events.Initial c) (hstore : c.shared.store = [])
    (hrun : Run (Events.machine (Events.fetchAddressMappings chain) inst) anyStep c d)
    {r : Events.AddressMapping} (hr : r ∈ d.shared.store) :
    Mapped chain d.shared.head (ofAddressMapping r).walletAddress
      (ofAddressMapping r).accountAddress := by
  obtain ⟨event, id, createdAt, hevent, rfl⟩ :=
    (Events.run_holdsEvents rfl hinit hstore hrun).event r hr
  exact ⟨event, hevent, (lower_toLower event.walletAddress).symm,
    (lower_toLower event.account).symm⟩

lemma row_of_mapped (hstart : Events.Started (Events.fetchAddressMappings chain) c)
    (hrun : Run (Events.machine (Events.fetchAddressMappings chain) inst)
      (Events.Saves Events.addressMappings) c d)
    (hcaught : CaughtUp (Events.fetchAddressMappings chain) d.shared)
    {walletAddress account : Lower} (h : Mapped chain d.shared.head walletAddress account) :
    ∃ r ∈ d.shared.store, ofAddressMapping r = ⟨walletAddress, account⟩ := by
  obtain ⟨event, ⟨n, hn, hevent⟩, rfl, rfl⟩ := h
  obtain ⟨row, hrow, hall⟩ := hcaught
  obtain ⟨hpos, hle⟩ := hall n hn (List.ne_nil_of_mem hevent)
  obtain ⟨r, hr, hcontent⟩ := Events.run_recorded rfl rfl hstart hrun hrow hpos hle hevent
  simp only [Events.addressMappings, Prod.mk.injEq] at hcontent
  exact ⟨r, hr, by rw [ofAddressMapping, hcontent.1, hcontent.2, lower_toLower, lower_toLower]⟩

end AddressMappings
end Tables

/-- The accounts of an address are those that have set it, or the address itself. -/
lemma mem_findAccountAddresses {w : World} {walletAddress account : Lower} :
    account ∈ findAccountAddresses w walletAddress ↔
      ⟨walletAddress, account⟩ ∈ w.addressMappings ∨
        (∀ a, ⟨walletAddress, a⟩ ∉ w.addressMappings) ∧ account = walletAddress := by
  unfold findAccountAddresses
  generalize hset : (w.addressMappings.filter fun mapping =>
    mapping.walletAddress = walletAddress).map AddressMapping.accountAddress = accountAddresses
  have hmem : ∀ a, a ∈ accountAddresses ↔ ⟨walletAddress, a⟩ ∈ w.addressMappings := by
    intro a
    rw [← hset]
    constructor
    · intro ha
      obtain ⟨mapping, hmapping, rfl⟩ := List.mem_map.mp ha
      obtain ⟨hmem, hwallet⟩ := List.mem_filter.mp hmapping
      rw [← of_decide_eq_true hwallet]
      exact hmem
    · intro ha
      exact List.mem_map.mpr ⟨_, List.mem_filter.mpr ⟨ha, decide_eq_true rfl⟩, rfl⟩
  simp only [← hmem]
  split_ifs with hlength
  · obtain ⟨a, ha⟩ := List.exists_mem_of_length_pos hlength
    exact ⟨.inl, fun h => h.elim id fun hnone => absurd ha (hnone.1 a)⟩
  · rw [List.length_pos_iff, not_not] at hlength
    simp [hlength]

section Main
variable {ι κ : Type} [DecidableEq ι] [DecidableEq κ] {inst : ι → κ}
  {attestationChain : Chain AttestationCompleted}
  {mappingChain : Chain AccountWalletAddressSet}
  {c d : Config (Shared κ AttestationCompleted (List Events.Attestation)) ι
    (Poll AttestationCompleted AttestationCompleted)}
  {c' d' : Config (Shared κ AccountWalletAddressSet (List Events.AddressMapping)) ι
    (Poll AccountWalletAddressSet AccountWalletAddressSet)}

/-- Whatever the polling services have run into, an inviter counts as verified only by an
attestation that was completed on chain, for an account that has set the address or for the
address itself. Where no save was lost and both services have caught up, the inviter counts as
verified exactly by such an attestation, and by one for the address itself only when no account
has set it. -/
theorem verified_inviter_iff {w : World} (inviter : Lower)
    (hstart : Events.Started (Events.fetchAttestations attestationChain) c)
    (hstart' : Events.Started (Events.fetchAddressMappings mappingChain) c')
    (hempty : c.shared.store = []) (hempty' : c'.shared.store = [])
    (hattestations : w.attestations = d.shared.store.map ofAttestation)
    (hmappings : w.addressMappings = d'.shared.store.map ofAddressMapping) :
    (Run (Events.machine (Events.fetchAttestations attestationChain) inst) anyStep c d →
      Run (Events.machine (Events.fetchAddressMappings mappingChain) inst) anyStep c' d' →
      isAddressVerified w inviter = true →
      ∃ account identifier, Attested attestationChain d.shared.head account identifier ∧
        (Mapped mappingChain d'.shared.head inviter account ∨ account = inviter) ∧
        w.verified account identifier = true) ∧
    (Run (Events.machine (Events.fetchAttestations attestationChain) inst)
        (Events.Saves Events.attestations) c d →
      Run (Events.machine (Events.fetchAddressMappings mappingChain) inst)
        (Events.Saves Events.addressMappings) c' d' →
      CaughtUp (Events.fetchAttestations attestationChain) d.shared →
      CaughtUp (Events.fetchAddressMappings mappingChain) d'.shared →
      (isAddressVerified w inviter = true ↔
        ∃ account identifier, Attested attestationChain d.shared.head account identifier ∧
          (Mapped mappingChain d'.shared.head inviter account ∨
            (∀ a, ¬ Mapped mappingChain d'.shared.head inviter a) ∧ account = inviter) ∧
          w.verified account identifier = true)) := by
  have hmapping : ∀ a, ⟨inviter, a⟩ ∈ w.addressMappings →
      ∃ r ∈ d'.shared.store, ofAddressMapping r = ⟨inviter, a⟩ := by
    intro a ha
    exact List.mem_map.mp (hmappings ▸ ha)
  constructor
  · intro hrun hrun' hverified
    obtain ⟨attestation, hmem, haccount, hverified⟩ := (isAddressVerified_iff inviter).mp hverified
    obtain ⟨r, hr, rfl⟩ := List.mem_map.mp (hattestations ▸ hmem)
    refine ⟨_, _, attested_of_row hstart.task hempty hrun hr, ?_, hverified⟩
    rcases mem_findAccountAddresses.mp haccount with hset | ⟨-, hself⟩
    · obtain ⟨m, hm, heq⟩ := hmapping _ hset
      have hmapped := mapped_of_row hstart'.task hempty' hrun' hm
      rw [heq] at hmapped
      exact .inl hmapped
    · exact .inr hself
  · intro hrun hrun' hcaught hcaught'
    have hany : Run (Events.machine (Events.fetchAttestations attestationChain) inst) anyStep c d :=
      hrun.mono fun _ _ _ => trivial
    have hany' : Run (Events.machine (Events.fetchAddressMappings mappingChain) inst) anyStep
        c' d' := hrun'.mono fun _ _ _ => trivial
    have hset : ∀ a, ⟨inviter, a⟩ ∈ w.addressMappings ↔
        Mapped mappingChain d'.shared.head inviter a := by
      intro a
      constructor
      · intro ha
        obtain ⟨m, hm, heq⟩ := hmapping a ha
        have hmapped := mapped_of_row hstart'.task hempty' hany' hm
        rwa [heq] at hmapped
      · intro ha
        obtain ⟨m, hm, heq⟩ := row_of_mapped hstart' hrun' hcaught' ha
        exact hmappings ▸ List.mem_map.mpr ⟨m, hm, heq⟩
    simp only [isAddressVerified_iff, mem_findAccountAddresses, hset]
    constructor
    · rintro ⟨attestation, hmem, haccount, hverified⟩
      obtain ⟨r, hr, rfl⟩ := List.mem_map.mp (hattestations ▸ hmem)
      exact ⟨_, _, attested_of_row hstart.task hempty hany hr, haccount, hverified⟩
    · rintro ⟨account, identifier, hattested, haccount, hverified⟩
      obtain ⟨r, hr, heq⟩ := row_of_attested hstart hrun hcaught hattested
      exact ⟨⟨account, identifier⟩, hattestations ▸ List.mem_map.mpr ⟨r, hr, heq⟩, haccount,
        hverified⟩

end Main

/-- What the conditions find in these tables, where every completed attestation still counts. -/
def polled (attestations : List Events.Attestation) (addressMappings : List Events.AddressMapping) :
    World where
  getTransaction _ := ⟨none, []⟩
  verified _ _ := true
  addressMappings := addressMappings.map ofAddressMapping
  attestations := attestations.map ofAttestation
  inviteRewards := []
  now := 0
  inviteRewardsAtSave := []
  uuid := 0
  savedAt := 0

/-- The account of the two attestations has set the inviter as its wallet address. -/
theorem verified_inviter_iff_mapped :
    ∃ d d', Run (Events.machine (Events.fetchAttestations Events.twoTransactions)
          fun _ : Fin 1 => ()) (Events.Saves Events.attestations) (Events.onePoll _ _) d ∧
      Run (Events.machine (Events.fetchAddressMappings Events.oneMapping)
          fun _ : Fin 1 => ()) (Events.Saves Events.addressMappings) (Events.onePoll _ _) d' ∧
      isAddressVerified (polled d.shared.store d'.shared.store) (lower "0xC".toList) = true := by
  obtain ⟨d, hrun, hd⟩ := Run.exists_of_exec
    (M := Events.machine (Events.fetchAttestations Events.twoTransactions) fun _ : Fin 1 => ())
    (P := Events.Saves Events.attestations) (c := Events.onePoll _ _)
    (q := fun d => d.shared.find "attestation" = some ⟨7, "attestation", 2⟩ ∧ 2 ≤ d.shared.head)
    (Events.pollOnce (Events.twoTransactions.events 2) [.saved 1 0, .saved 2 0])
    (by decide +kernel)
  obtain ⟨d', hrun', hd'⟩ := Run.exists_of_exec
    (M := Events.machine (Events.fetchAddressMappings Events.oneMapping) fun _ : Fin 1 => ())
    (P := Events.Saves Events.addressMappings) (c := Events.onePoll _ _)
    (q := fun d => d.shared.find "addressMappings" = some ⟨7, "addressMappings", 2⟩ ∧
      2 ≤ d.shared.head)
    (Events.pollOnce (Events.oneMapping.events 2) [.saved 1 0]) (by decide +kernel)
  refine ⟨d, d', hrun, hrun', ?_⟩
  refine ((verified_inviter_iff (w := polled d.shared.store d'.shared.store) _
    ⟨fun _ => rfl, rfl, rfl⟩ ⟨fun _ => rfl, rfl, rfl⟩ rfl rfl rfl rfl).2 hrun hrun' ?_ ?_).mpr ?_
  · refine ⟨_, hd.1, fun n _ hn => ?_⟩
    obtain rfl : n = 2 := by
      by_contra hne
      exact hn (if_neg hne)
    exact ⟨Nat.two_pos, le_rfl⟩
  · refine ⟨_, hd'.1, fun n _ hn => ?_⟩
    obtain rfl : n = 2 := by
      by_contra hne
      exact hn (if_neg hne)
    exact ⟨Nat.two_pos, le_rfl⟩
  · exact ⟨lower "0xA".toList, "0x51".toList,
      ⟨⟨2, "0x7", "0x51", "0xB", "0xA"⟩, ⟨2, hd.2, List.mem_cons_self⟩, rfl, rfl⟩,
      .inl ⟨⟨2, "0x7", "0xA", "0xC"⟩, ⟨2, hd'.2, List.mem_cons_self⟩, rfl, rfl⟩, rfl⟩

end Komenci.Eligibility
