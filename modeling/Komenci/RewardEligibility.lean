import Komenci.HexText
import Komenci.RewardService

/-! Which withdrawals are rewarded, with addresses as the texts they arrive as: checksummed
from the chain, as somebody has written them in the configuration, and in lower case in
the tables. -/
namespace Komenci.Eligibility
open HexText
open Rewards (StableToken RewardStatus WEEKLY_INVITE_LIMIT startOfWeek)

/-- An address as the tables store it. -/
abbrev Lower := { t : Text // toLowerCase t = t }

def lower (t : Text) : Lower := ⟨toLowerCase t, toLowerCase_idem t⟩

/-- The same address, in whatever case. -/
def SameAddress (a b : Text) : Prop := toLowerCase a = toLowerCase b

instance (a b : Text) : Decidable (SameAddress a b) := inferInstanceAs (Decidable (_ = _))

inductive InviteNotRewardedReason
  | NotStableTokenInvite
  | NoInviteeFound
  | NotKomenciRedeem
  | InviterNotVerified
  | InviteeNotVerified
  | InviterReachedWeeklyLimit
  | InviteeAlreadyInvited
  deriving DecidableEq

structure NetworkConfig where
  /-- The `externalAccount` of each relayer. -/
  relayers : List Text

/-- What the registry of the chain says. -/
structure Registry where
  StableToken : Text
  StableTokenEUR : Text

structure Transaction where
  recipient : Option Text
  sender : Text

structure AddressMapping where
  walletAddress : Lower
  accountAddress : Lower

structure Attestation where
  address : Lower
  identifier : Text
  deriving DecidableEq

/-- A withdrawal as it comes from the chain, and a row as it is stored. -/
abbrev WithdrawalEvent := Rewards.EventLog Text Text

abbrev InviteReward := Rewards.InviteRewardRow Lower Text

/-- What the handler finds: the chain, and the tables when the conditions are checked and when
the row is saved. -/
structure World where
  getTransaction : Text → Transaction
  /-- `isAccountConsideredVerified` of what `getAttestationStat` says. -/
  verified : Lower → Text → Bool
  addressMappings : List AddressMapping
  attestations : List Attestation
  inviteRewards : List InviteReward
  now : ℕ
  inviteRewardsAtSave : List InviteReward
  uuid : ℕ
  savedAt : ℕ

section Service
variable (network : NetworkConfig) (registry : Registry) (w : World)

/-- The addresses of the tokens are lower-cased when they are looked up. -/
def getInviteToken (token : Text) : Option StableToken :=
  if toLowerCase registry.StableToken = token then some .cUSD
  else if toLowerCase registry.StableTokenEUR = token then some .cEUR
  else none

def isKomenciSender (address : Text) : Bool := network.relayers.contains (toLowerCase address)

def findAccountAddresses (walletAddress : Lower) : List Lower :=
  let accountAddresses :=
    (w.addressMappings.filter fun mapping => mapping.walletAddress = walletAddress).map
      AddressMapping.accountAddress
  if 0 < accountAddresses.length then accountAddresses else [walletAddress]

def isAddressVerifiedWithIdentifier (address : Lower) (identifier : Text) : Bool :=
  w.verified address identifier

def isAddressVerified (address : Lower) : Bool :=
  let accountAddresses := findAccountAddresses w address
  let attestations := (w.attestations.filter fun attestation =>
    attestation.address ∈ accountAddresses).dedup
  attestations.any fun attestation =>
    isAddressVerifiedWithIdentifier w attestation.address attestation.identifier

def inviterHasNotReachedWeeklyLimit (inviter : Lower) : Bool :=
  (w.inviteRewards.filter fun row =>
    row.inviter = inviter && row.state ≠ .Failed && startOfWeek w.now ≤ row.createdAt).length <
      WEEKLY_INVITE_LIMIT

def inviteeRewardNotInProgress (invitee : Lower) : Bool :=
  !w.inviteRewards.any fun row => row.invitee = invitee

/-- The reasons for which the conditions are not met. -/
def inviteRewardConditions (inviter invitee : Lower) (identifier : Text) :
    List InviteNotRewardedReason :=
  let checks := [
    (isAddressVerified w inviter, InviteNotRewardedReason.InviterNotVerified),
    (isAddressVerifiedWithIdentifier w invitee identifier, .InviteeNotVerified),
    (inviterHasNotReachedWeeklyLimit w inviter, .InviterReachedWeeklyLimit),
    (inviteeRewardNotInProgress w invitee, .InviteeAlreadyInvited)]
  (checks.filter fun check => !check.1).map Prod.snd

/-- `none` is a violated unique constraint. -/
def createInviteReward (inviter invitee : Lower) (inviteeIdentifier : Text)
    (inviteToken : StableToken) : Option InviteReward :=
  let inviteReward : InviteReward :=
    ⟨w.uuid, inviter, invitee, inviteeIdentifier, .Created, none, inviteToken, w.savedAt⟩
  if w.inviteRewardsAtSave.all fun row =>
    row.invitee ≠ invitee && row.inviteeIdentifier ≠ inviteeIdentifier
  then some inviteReward else none

/-- The row that is inserted, or the reasons for which none is. -/
def handleWithdrawalEvent (withdrawalEvent : WithdrawalEvent) :
    Except (List InviteNotRewardedReason) InviteReward :=
  let inviter := lower withdrawalEvent.recipient
  match getInviteToken registry (toLowerCase withdrawalEvent.token) with
  | none => .error [.NotStableTokenInvite]
  | some inviteToken =>
    let tx := w.getTransaction withdrawalEvent.transactionHash
    match tx.recipient.filter (· ≠ []) with
    | none => .error [.NoInviteeFound]
    | some to_ =>
      let invitee := lower to_
      if !isKomenciSender network tx.sender then .error [.NotKomenciRedeem]
      else
        match inviteRewardConditions w inviter invitee withdrawalEvent.identifier with
        | [] =>
          match createInviteReward w inviter invitee withdrawalEvent.identifier inviteToken with
          | some inviteReward => .ok inviteReward
          | none => .error []
        | reasons => .error reasons

/-- The sender is a relayer, in whatever case the configuration has it. -/
def SentByRelayer (sender : Text) : Prop :=
  ∃ externalAccount ∈ network.relayers, SameAddress externalAccount sender

/-- The conditions of a reward, on addresses. -/
structure Eligible (withdrawalEvent : WithdrawalEvent) (to_ : Text) : Prop where
  token : SameAddress withdrawalEvent.token registry.StableToken ∨
    SameAddress withdrawalEvent.token registry.StableTokenEUR
  recipient : (w.getTransaction withdrawalEvent.transactionHash).recipient = some to_ ∧ to_ ≠ []
  sender : SentByRelayer network (w.getTransaction withdrawalEvent.transactionHash).sender
  inviter : ∃ attestation ∈ w.attestations,
    attestation.address ∈ findAccountAddresses w (lower withdrawalEvent.recipient) ∧
      w.verified attestation.address attestation.identifier = true
  invitee : w.verified (lower to_) withdrawalEvent.identifier = true
  limit : (w.inviteRewards.filter fun row => SameAddress row.inviter withdrawalEvent.recipient ∧
    row.state ≠ .Failed ∧ startOfWeek w.now ≤ row.createdAt).length < WEEKLY_INVITE_LIMIT
  unrewarded : ∀ row ∈ w.inviteRewards, ¬ SameAddress row.invitee to_
  unique : ∀ row ∈ w.inviteRewardsAtSave,
    ¬ SameAddress row.invitee to_ ∧ row.inviteeIdentifier ≠ withdrawalEvent.identifier

end Service

variable {network : NetworkConfig} {registry : Registry} {w : World}
  {withdrawalEvent : WithdrawalEvent} {to_ : Text}

/-- What the tables have of an address is what its spelling stands for. -/
lemma eq_lower_iff (a : Lower) (t : Text) : a = lower t ↔ SameAddress a t := by
  rw [Subtype.ext_iff, SameAddress, a.2, lower]

lemma isAddressVerified_iff (address : Lower) :
    isAddressVerified w address = true ↔ ∃ attestation ∈ w.attestations,
      attestation.address ∈ findAccountAddresses w address ∧
        w.verified attestation.address attestation.identifier = true := by
  simp [isAddressVerified, isAddressVerifiedWithIdentifier, and_assoc]

lemma inviterHasNotReachedWeeklyLimit_iff (t : Text) :
    inviterHasNotReachedWeeklyLimit w (lower t) = true ↔
      (w.inviteRewards.filter fun row => SameAddress row.inviter t ∧
        row.state ≠ .Failed ∧ startOfWeek w.now ≤ row.createdAt).length < WEEKLY_INVITE_LIMIT := by
  simp [inviterHasNotReachedWeeklyLimit, eq_lower_iff, Bool.and_assoc]

lemma inviteeRewardNotInProgress_iff (t : Text) :
    inviteeRewardNotInProgress w (lower t) = true ↔
      ∀ row ∈ w.inviteRewards, ¬ SameAddress row.invitee t := by
  simp [inviteeRewardNotInProgress, eq_lower_iff]

lemma inviteRewardConditions_iff (inviter invitee : Lower) (identifier : Text) :
    inviteRewardConditions w inviter invitee identifier = [] ↔
      isAddressVerified w inviter = true ∧
        isAddressVerifiedWithIdentifier w invitee identifier = true ∧
        inviterHasNotReachedWeeklyLimit w inviter = true ∧
        inviteeRewardNotInProgress w invitee = true := by
  simp [inviteRewardConditions]

lemma createInviteReward_iff (inviter : Lower) (t inviteeIdentifier : Text)
    (inviteToken : StableToken) :
    (createInviteReward w inviter (lower t) inviteeIdentifier inviteToken).isSome = true ↔
      ∀ row ∈ w.inviteRewardsAtSave,
        ¬ SameAddress row.invitee t ∧ row.inviteeIdentifier ≠ inviteeIdentifier := by
  simp [createInviteReward, eq_lower_iff]

lemma getInviteToken_iff (token : Text) :
    (getInviteToken registry (toLowerCase token)).isSome = true ↔
      SameAddress token registry.StableToken ∨ SameAddress token registry.StableTokenEUR := by
  unfold getInviteToken SameAddress
  split_ifs <;> simp_all [eq_comm]

/-- A sender that is listed is one of the relayers. -/
lemma sentByRelayer_of_listed {sender : Text} (h : isKomenciSender network sender = true) :
    SentByRelayer network sender :=
  ⟨toLowerCase sender, by simpa [isKomenciSender] using h, toLowerCase_idem sender⟩

/-- A row is inserted exactly for an eligible withdrawal whose sender is listed. -/
lemma handleWithdrawalEvent_iff :
    (∃ row, handleWithdrawalEvent network registry w withdrawalEvent = .ok row) ↔
      (∃ to_, Eligible network registry w withdrawalEvent to_) ∧
        isKomenciSender network
          (w.getTransaction withdrawalEvent.transactionHash).sender = true := by
  constructor
  · rintro ⟨row, h⟩
    simp only [handleWithdrawalEvent] at h
    split at h
    · cases h
    · rename_i inviteToken htoken
      split at h
      · cases h
      · rename_i to_ hto
        split_ifs at h with hsender
        split at h
        · rename_i hconditions
          split at h
          · rename_i inviteReward hcreate
            obtain ⟨hinviter, hinvitee, hlimit, hprogress⟩ :=
              (inviteRewardConditions_iff _ _ _).mp hconditions
            have hlisted : isKomenciSender network
                (w.getTransaction withdrawalEvent.transactionHash).sender = true := by
              simpa using hsender
            refine ⟨⟨to_, ?_⟩, hlisted⟩
            exact {
              token := (getInviteToken_iff _).mp (Option.isSome_iff_exists.mpr ⟨_, htoken⟩)
              recipient := by simpa using Option.filter_eq_some_iff.mp hto
              sender := sentByRelayer_of_listed hlisted
              inviter := (isAddressVerified_iff _).mp hinviter
              invitee := hinvitee
              limit := (inviterHasNotReachedWeeklyLimit_iff _).mp hlimit
              unrewarded := (inviteeRewardNotInProgress_iff _).mp hprogress
              unique := (createInviteReward_iff _ _ _ _).mp
                (Option.isSome_iff_exists.mpr ⟨_, hcreate⟩) }
          · cases h
        · cases h
  · rintro ⟨⟨to_, he⟩, hsender⟩
    obtain ⟨inviteToken, htoken⟩ :=
      Option.isSome_iff_exists.mp ((getInviteToken_iff _).mpr he.token)
    have hto : (w.getTransaction withdrawalEvent.transactionHash).recipient.filter (· ≠ []) =
        some to_ := by
      rw [Option.filter_eq_some_iff]
      simpa using he.recipient
    have hconditions : inviteRewardConditions w (lower withdrawalEvent.recipient) (lower to_)
        withdrawalEvent.identifier = [] := by
      rw [inviteRewardConditions_iff, isAddressVerified_iff, inviterHasNotReachedWeeklyLimit_iff,
        inviteeRewardNotInProgress_iff]
      exact ⟨he.inviter, he.invitee, he.limit, he.unrewarded⟩
    obtain ⟨inviteReward, hcreate⟩ := Option.isSome_iff_exists.mp
      ((createInviteReward_iff (lower withdrawalEvent.recipient) to_ withdrawalEvent.identifier
        inviteToken).mpr he.unique)
    exact ⟨inviteReward, by
      simp only [handleWithdrawalEvent, htoken, hto, hsender, hconditions, hcreate]; rfl⟩

/-- Rows are inserted for exactly the eligible withdrawals, unless the sender of one is listed
in another case only. -/
theorem rewarded_iff_eligible (network : NetworkConfig) (registry : Registry) (w : World)
    (withdrawalEvent : WithdrawalEvent) :
    ((∃ row, handleWithdrawalEvent network registry w withdrawalEvent = .ok row) ↔
        ∃ to_, Eligible network registry w withdrawalEvent to_) ↔
      ¬ ((∃ to_, Eligible network registry w withdrawalEvent to_) ∧
        toLowerCase (w.getTransaction withdrawalEvent.transactionHash).sender ∉
          network.relayers) := by
  rw [handleWithdrawalEvent_iff]
  simp only [isKomenciSender, List.contains_iff_mem]
  tauto

section Samples

/-- The relayers of the main network. The last two are not in lower case. -/
def rc1 : NetworkConfig := ⟨[
  "0x21888ae301658cdff7ce8c33cdf83a330a5e6273".toList,
  "0x1438128a2dcc645f0b9706350c1f5dad04845fe6".toList,
  "0x1e36bf42272a0693eba69332a6f623ce37694a27".toList,
  "0xd5afaaa7256c9eb86376c4214635dd56dffbd3a8".toList,
  "0xb09eba8bc1c8bedadd634a8219c0b09042170903".toList,
  "0x85a1e716608a84f455d7e07befb76c9b540ac040".toList,
  "0x2a094e77acf3faebb63279eb60e26d144b9048a2".toList,
  "0x2f23f9a8f68294a9d6b479c3dbe3dff4de510ced".toList,
  "0x3db3150c1267d3adeb7f960f3eef11c1dd47a38b".toList,
  "0xe170915ce32bb8e2ce2a4fcd9113e5298a2e10d2".toList,
  "0x198e0D8601AB509ABf1B0B99Fd8f234583Ef1309".toList,
  "0xbDD68B64e288171B37F01346042BEe6Eb7dFAE4f".toList]⟩

def sampleRegistry : Registry := ⟨"0xC1".toList, "0xC2".toList⟩

/-- A first withdrawal, relayed by `sender`, with everything in order. -/
def sampleWorld (sender : Text) : World where
  getTransaction _ := ⟨some "0xB1".toList, sender⟩
  verified _ _ := true
  addressMappings := []
  attestations := [⟨lower "0xA1".toList, "0x06".toList⟩]
  inviteRewards := []
  now := 0
  inviteRewardsAtSave := []
  uuid := 0
  savedAt := 0

def sampleEvent : WithdrawalEvent := ⟨"0x04".toList, "0x07".toList, "0xC1".toList, "0xA1".toList⟩

lemma sampleWorld_eligible {sender : Text} (h : SentByRelayer rc1 sender) :
    Eligible rc1 sampleRegistry (sampleWorld sender) sampleEvent "0xB1".toList where
  token := .inl rfl
  recipient := ⟨rfl, by decide⟩
  sender := h
  inviter := ⟨_, List.mem_singleton.mpr rfl, List.mem_singleton.mpr rfl, rfl⟩
  invitee := rfl
  limit := by simp [sampleWorld, WEEKLY_INVITE_LIMIT]
  unrewarded := by simp [sampleWorld]
  unique := by simp [sampleWorld]

/-- The next to last relayer has sent the transaction. -/
theorem eligible_not_rewarded :
    Eligible rc1 sampleRegistry
        (sampleWorld "0x198e0D8601AB509ABf1B0B99Fd8f234583Ef1309".toList) sampleEvent
        "0xB1".toList ∧
      handleWithdrawalEvent rc1 sampleRegistry
        (sampleWorld "0x198e0D8601AB509ABf1B0B99Fd8f234583Ef1309".toList) sampleEvent =
          .error [.NotKomenciRedeem] := by
  constructor
  · refine sampleWorld_eligible ⟨"0x198e0D8601AB509ABf1B0B99Fd8f234583Ef1309".toList, ?_, rfl⟩
    decide +kernel
  · rfl

end Samples

end Komenci.Eligibility
