import Komenci.WalletEvasion

/-! The check that an address is a wallet of the session's owner, `verifyWallet` of the
kit and `isValidWallet` of the API. What throws is `none`. -/
namespace Komenci.Wallet
open HexText

/-- What the node answers for an address; a call that throws has no answer. -/
structure Chain where
  getCode : Text → Option Text
  /-- The implementation address, decoded. -/
  getImplementation : Text → Option Text
  signer : Text → Option Text

inductive WalletValidationError
  | InvalidBytecode (walletAddress : Text)
  | InvalidImplementation (walletAddress implementation : Text) (allowed : List Text)
  | InvalidSigner (walletAddress actualSigner expectedSigner : Text)
  deriving DecidableEq, Repr

def PROXY_BYTECODE_SHA3 : Text :=
  "0x69f56de93d0b1eb15364c67a2756afbc0b3112e544f64c4bf2c7bcdf287f0a91".toList

def bzzPrefix : Text := "a265627a7a72315820".toList

/-- `bytecode.split('a265627a7a72315820')[0]` -/
def stripBzz : Text → Text
  | [] => []
  | c :: rest => if bzzPrefix.isPrefixOf (c :: rest) then [] else c :: stripBzz rest

/-- The hash function gives `none` for `null`, its answer to the empty text. -/
def verifyWallet (soliditySha3 : Text → Option Text) (chain : Chain) (metaTxWalletAddress : Text)
    (allowedImplementations : List Text) (expectedSigner : Text) :
    Option (Except WalletValidationError Unit) :=
  match chain.getCode metaTxWalletAddress with
  | none => none
  | some code =>
    if soliditySha3 (stripBzz code) ≠ some PROXY_BYTECODE_SHA3 then
      some (.error (.InvalidBytecode metaTxWalletAddress))
    else
      match (chain.getImplementation metaTxWalletAddress).map normalizeAddress with
      | none => none
      | some actualImplementation =>
        let allowed := allowedImplementations.map normalizeAddress
        if actualImplementation ∉ allowed then
          some (.error (.InvalidImplementation metaTxWalletAddress actualImplementation allowed))
        else
          match (chain.signer metaTxWalletAddress).map normalizeAddress with
          | none => none
          | some actualSigner =>
            if actualSigner ≠ normalizeAddress expectedSigner then
              some (.error (.InvalidSigner metaTxWalletAddress actualSigner
                (normalizeAddress expectedSigner)))
            else some (.ok ())

/-- An address passes when its code, its implementation and its signer are the right ones. -/
theorem verifyWallet_ok_iff (soliditySha3 : Text → Option Text) (chain : Chain) (wallet : Text)
    (allowed : List Text) (expectedSigner : Text) :
    verifyWallet soliditySha3 chain wallet allowed expectedSigner = some (.ok ()) ↔
      (∃ code, chain.getCode wallet = some code ∧
        soliditySha3 (stripBzz code) = some PROXY_BYTECODE_SHA3) ∧
      (∃ implementation, chain.getImplementation wallet = some implementation ∧
        normalizeAddress implementation ∈ allowed.map normalizeAddress) ∧
      ∃ signer, chain.signer wallet = some signer ∧
        normalizeAddress signer = normalizeAddress expectedSigner := by
  unfold verifyWallet
  cases hcode : chain.getCode wallet with
  | none => simp
  | some code =>
    by_cases hsha : soliditySha3 (stripBzz code) = some PROXY_BYTECODE_SHA3
    · cases himpl : chain.getImplementation wallet with
      | none => simp [hsha]
      | some implementation =>
        by_cases hin : normalizeAddress implementation ∈ allowed.map normalizeAddress
        · cases hsigner : chain.signer wallet with
          | none => simp [hsha]
          | some signer => simp_all
        · simp_all
    · simp [hsha]

/-- The configuration and what the API is built on. -/
structure ApiEnvironment where
  soliditySha3 : Text → Option Text
  /-- The keys of `MetaTransactionWalletVersions`. -/
  implementations : List Text
  txParser : TxParserService

structure InvalidWallet where
  reason : WalletValidationError
  deriving DecidableEq, Repr

def isValidWallet (env : ApiEnvironment) (chain : Chain) (walletAddress expectedSigner : Text) :
    Option (Except InvalidWallet Unit) :=
  (verifyWallet env.soliditySha3 chain walletAddress env.implementations expectedSigner).map
    fun valid => valid.mapError InvalidWallet.mk

lemma isValidWallet_ok {env : ApiEnvironment} {chain : Chain} {walletAddress expectedSigner : Text}
    (h : isValidWallet env chain walletAddress expectedSigner = some (.ok ())) :
    verifyWallet env.soliditySha3 chain walletAddress env.implementations expectedSigner =
      some (.ok ()) := by
  obtain ⟨valid, hv, hok⟩ := Option.map_eq_some_iff.mp h
  cases valid with
  | error e => cases hok
  | ok u => exact hv

end Komenci.Wallet
