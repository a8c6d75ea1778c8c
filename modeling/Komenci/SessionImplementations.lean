import Komenci.SessionAccounts
import Komenci.SessionLookup
import Komenci.WalletVerification

/-! Which implementations count as known. `deployWallet` looks the text of the request up among
the keys of the configuration, `verifyWallet` compares normalised addresses. -/
namespace Komenci.Sessions
open HexText Wallet

/-- The keys that every object inherits. -/
def objectPrototype : List Text :=
  ["constructor", "__defineGetter__", "__defineSetter__", "hasOwnProperty", "__lookupGetter__",
    "__lookupSetter__", "isPrototypeOf", "propertyIsEnumerable", "toString", "valueOf",
    "__proto__", "toLocaleString"].map String.toList

/-- `implementationAddress in MetaTransactionWalletVersions` -/
def isValidImplementation (versions : List Text) (implementationAddress : Text) : Bool :=
  versions.contains implementationAddress || objectPrototype.contains implementationAddress

structure InvalidImplementation where
  address : Text
  deriving DecidableEq

/-- What `deployWallet` goes on with. -/
inductive Deployment
  | inProgress (txHash : ℕ)
  | submit (owner implementationAddress : Text)
  deriving DecidableEq

/-- `deployWallet`, up to the transaction that it submits. In a record the address is the number
`name` gives it. -/
def deployWallet (name : Text → ℕ) (cfg : AppConfig) (versions : List Text) (session : Session)
    (now : ℕ) (implementationAddress : Text) : Except InvalidImplementation Deployment :=
  if !isValidImplementation versions implementationAddress then
    .error ⟨implementationAddress⟩
  else
    match session.pendingDeploy cfg now (some (name implementationAddress)) with
    | some d => .ok (.inProgress d.txHash)
    | none => .ok (.submit session.externalAccount implementationAddress)

/-- A wallet on the chain whose bytecode and signer are right. Its implementation is the address
`a`, which the decoder spells with a prefix. -/
structure WalletOf (soliditySha3 : Text → Option Text) (chain : Chain) (wallet signer a : Text) :
    Prop where
  code : ∃ code, chain.getCode wallet = some code ∧
    soliditySha3 (stripBzz code) = some PROXY_BYTECODE_SHA3
  implementation : ∃ digits, Digits digits ∧ toLowerCase digits = account a ∧
    chain.getImplementation wallet = some ('0' :: 'x' :: digits)
  signer : ∃ actualSigner, chain.signer wallet = some actualSigner ∧
    normalizeAddress actualSigner = normalizeAddress signer

/-- One of the versions is the address in some spelling. -/
def Configured (versions : List Text) (a : Text) : Prop :=
  ∃ k ∈ versions, normalizeAddress k = account a

instance (versions : List Text) (a : Text) : Decidable (Configured versions a) :=
  inferInstanceAs (Decidable (∃ k ∈ versions, _))

/-- A configured address is spelled as in the configuration, where an upper-case prefix alone
does not make it configured. -/
def AsConfigured (versions : List Text) (a : Text) : Prop :=
  (Configured versions a → a ∈ versions) ∧ (a ∈ versions → UpperPrefix a → Configured versions a)

instance (versions : List Text) (a : Text) : Decidable (AsConfigured versions a) :=
  inferInstanceAs (Decidable (_ ∧ _))

section Spelled
variable {versions : List Text} {a : Text}

/-- What is inherited is too short for an address. -/
lemma not_inherited (h : Spelled a) : a ∉ objectPrototype := by
  have hshort : ∀ k ∈ objectPrototype, k.length < 40 := by decide
  intro ha
  have hle := h.length_le
  have hlt := hshort a ha
  omega

lemma isValidImplementation_iff (h : Spelled a) :
    isValidImplementation versions a = true ↔ a ∈ versions := by
  simp [isValidImplementation, not_inherited h]

lemma deployWallet_ok_iff {name : Text → ℕ} {cfg : AppConfig} {session : Session} {now : ℕ}
    (h : Spelled a) :
    (∃ r, deployWallet name cfg versions session now a = .ok r) ↔ a ∈ versions := by
  rw [← isValidImplementation_iff h]
  unfold deployWallet
  cases isValidImplementation versions a
  · simp
  · cases session.pendingDeploy cfg now (some (name a)) <;> simp

/-- The verification goes by the address alone. -/
lemma verifyWallet_iff {soliditySha3 : Text → Option Text} {chain : Chain} {wallet signer : Text}
    (h : WalletOf soliditySha3 chain wallet signer a) :
    verifyWallet soliditySha3 chain wallet versions signer = some (.ok ()) ↔
      Configured versions a := by
  obtain ⟨digits, hdigits, haccount, himpl⟩ := h.implementation
  have hnormal : normalizeAddress ('0' :: 'x' :: digits) = account a := haccount
  rw [verifyWallet_ok_iff]
  constructor
  · rintro ⟨-, ⟨implementation, himpl', hmem⟩, -⟩
    obtain rfl := Option.some.inj (himpl.symm.trans himpl')
    obtain ⟨k, hk, heq⟩ := List.mem_map.mp hmem
    exact ⟨k, hk, heq.trans hnormal⟩
  · rintro ⟨k, hk, heq⟩
    exact ⟨h.code, ⟨_, himpl, List.mem_map.mpr ⟨k, hk, heq.trans hnormal.symm⟩⟩, h.signer⟩

/-- A verbatim key without an upper-case prefix is a spelling of the address. -/
lemma configured_of_mem (h : Spelled a) (hupper : ¬ UpperPrefix a) (hmem : a ∈ versions) :
    Configured versions a := by
  obtain ⟨heq, -⟩ | ⟨-, hupper'⟩ := normalizeAddress_spelled h
  · exact ⟨a, hmem, heq⟩
  · exact absurd hupper' hupper

end Spelled

/-- Deployment and verification agree on an implementation exactly when it is spelled as in the
configuration, or not configured. -/
theorem implementations_agree_iff (isAddress : Text → Bool)
    (hisAddress : ∀ t, isAddress t = true → Spelled t) (name : Text → ℕ) (cfg : AppConfig)
    (versions : List Text) (session : Session) (now : ℕ) (soliditySha3 : Text → Option Text)
    (chain : Chain) (wallet signer a : Text) (ha : isAddress a = true)
    (hwallet : WalletOf soliditySha3 chain wallet signer a) :
    ((∃ r, deployWallet name cfg versions session now a = .ok r) ↔
        verifyWallet soliditySha3 chain wallet versions signer = some (.ok ())) ↔
      AsConfigured versions a := by
  have hspelled := hisAddress a ha
  rw [deployWallet_ok_iff hspelled, verifyWallet_iff hwallet]
  constructor
  · intro h
    exact ⟨h.mpr, fun hmem _ => h.mp hmem⟩
  · intro ⟨hconfigured, hupper⟩
    refine ⟨fun hmem => ?_, hconfigured⟩
    by_cases hzerox : UpperPrefix a
    · exact hupper hmem hzerox
    · exact configured_of_mem hspelled hzerox hmem

section Samples

/-- The versions of the test network. -/
def alfajoresVersions : List Text :=
  ["0x88a2b9B8387A1823D821E406b4e951337fa1D46D", "0x786ec5A4F8DCad3A58D5B1A04cc99B019E426065",
    "0x5C9a6E3c3E862eD306E2E3348EBC8b8310A99e5A"].map String.toList

/-- The first of them, as it is configured and in lower case. -/
def checksumVersion : Text := "0x88a2b9B8387A1823D821E406b4e951337fa1D46D".toList

def lowerVersion : Text := "0x88a2b9b8387a1823d821e406b4e951337fa1d46d".toList

def unknownVersion : Text := '0' :: 'x' :: List.replicate 40 '7'

def proxySha3 (code : Text) : Option Text :=
  if code = "proxy".toList then some PROXY_BYTECODE_SHA3 else none

/-- A wallet of the owner with this implementation. -/
def chainWith (digits : Text) : Chain where
  getCode _ := some "proxy".toList
  getImplementation _ := some ('0' :: 'x' :: digits)
  signer _ := some sampleOwner

def nameOf (t : Text) : ℕ := Encodable.encode (t.map Char.toNat)

lemma digits_of_all {t : Text}
    (h : (t.length = 40 && t.all fun c => (digitValue c).isSome) = true) : Digits t := by
  simpa [Digits] using h

/-- An address has its digits in one case, or the checksum of this one. -/
def isAddressChecked (t : Text) : Bool := isAddressOneCase t || t = checksumVersion

lemma isAddressChecked_spelled (t : Text) (h : isAddressChecked t = true) : Spelled t := by
  rcases Bool.or_eq_true_iff.mp h with h | h
  · exact isAddressOneCase_spelled t h
  · obtain rfl := of_decide_eq_true h
    exact .leading0x (digits_of_all (by decide +kernel))

lemma unknownWallet : WalletOf proxySha3 (chainWith (List.replicate 40 '7')) [] sampleOwner
    unknownVersion where
  code := ⟨_, rfl, by decide⟩
  implementation := ⟨_, digits_of_all (by decide +kernel), by decide +kernel, rfl⟩
  signer := ⟨_, rfl, rfl⟩

lemma checksumWallet : WalletOf proxySha3 (chainWith (lowerVersion.drop 2)) [] sampleOwner
    checksumVersion where
  code := ⟨_, rfl, by decide⟩
  implementation := ⟨_, digits_of_all (by decide +kernel), by decide +kernel, rfl⟩
  signer := ⟨_, rfl, rfl⟩

lemma lowerWallet : WalletOf proxySha3 (chainWith (lowerVersion.drop 2)) [] sampleOwner
    lowerVersion where
  code := ⟨_, rfl, by decide⟩
  implementation := ⟨_, digits_of_all (by decide +kernel), by decide +kernel, rfl⟩
  signer := ⟨_, rfl, rfl⟩

/-- Both take the implementation that is configured, whose wallet reads back in lower case, and
neither one that is not. -/
theorem implementations_agree_configured :
    ((∃ r, deployWallet nameOf sampleConfig alfajoresVersions createdNull 5 checksumVersion =
        .ok r) ∧
      verifyWallet proxySha3 (chainWith (lowerVersion.drop 2)) [] alfajoresVersions sampleOwner =
        some (.ok ())) ∧
    ¬ (∃ r, deployWallet nameOf sampleConfig alfajoresVersions createdNull 5 unknownVersion =
        .ok r) ∧
      verifyWallet proxySha3 (chainWith (List.replicate 40 '7')) [] alfajoresVersions sampleOwner ≠
        some (.ok ()) := by
  have hchecked := implementations_agree_iff isAddressChecked isAddressChecked_spelled nameOf
    sampleConfig alfajoresVersions createdNull 5 proxySha3 (chainWith (lowerVersion.drop 2)) []
    sampleOwner checksumVersion (by decide +kernel) checksumWallet
  have hunknown := implementations_agree_iff isAddressChecked isAddressChecked_spelled nameOf
    sampleConfig alfajoresVersions createdNull 5 proxySha3 (chainWith (List.replicate 40 '7')) []
    sampleOwner unknownVersion (by decide +kernel) unknownWallet
  have hdeploy : ∃ r, deployWallet nameOf sampleConfig alfajoresVersions createdNull 5
      checksumVersion = .ok r := ⟨.submit createdNull.externalAccount checksumVersion,
    by decide +kernel⟩
  have hrefused : ¬ ∃ r, deployWallet nameOf sampleConfig alfajoresVersions createdNull 5
      unknownVersion = .ok r := by
    rintro ⟨r, hr⟩
    have herror : deployWallet nameOf sampleConfig alfajoresVersions createdNull 5 unknownVersion =
        .error ⟨unknownVersion⟩ := by decide +kernel
    cases herror.symm.trans hr
  refine ⟨⟨hdeploy, (hchecked.mpr (by decide +kernel)).mp hdeploy⟩, hrefused, fun hverified => ?_⟩
  exact hrefused ((hunknown.mpr (by decide +kernel)).mpr hverified)

/-- The lower-case spelling of a configured implementation cannot be deployed, though a wallet
that has it is valid. -/
theorem implementation_refused : isAddressOneCase lowerVersion = true ∧
    WalletOf proxySha3 (chainWith (lowerVersion.drop 2)) [] sampleOwner lowerVersion ∧
    deployWallet nameOf sampleConfig alfajoresVersions createdNull 5 lowerVersion =
      .error ⟨lowerVersion⟩ ∧
    verifyWallet proxySha3 (chainWith (lowerVersion.drop 2)) [] alfajoresVersions sampleOwner =
      some (.ok ()) :=
  ⟨by decide +kernel, lowerWallet, by decide +kernel, by decide +kernel⟩

end Samples

end Komenci.Sessions
