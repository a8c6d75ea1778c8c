import Komenci.WalletExecution

/-! Signed meta-transactions: how they are encoded and parsed, and what the wallet makes of them
on chain with its nonce and its signer. -/
namespace Komenci.Wallet
open HexText AbiWords

abbrev Word := {w : Bytes // w.length = 32}

structure Signature where
  v : Word
  r : Word
  s : Word
  deriving DecidableEq

/-- The arguments of `executeMetaTransaction`. -/
def signedValues (c : Call) (signature : Signature) : List Value :=
  [.word (addressWord c.destination), .word (ofNat 32 c.value), .bytes c.data,
    .word signature.v.val, .word signature.r.val, .word signature.s.val]

def encodeSigned (c : Call) (signature : Signature) : Bytes :=
  executeMetaTransactionId.val ++ encode (signedValues c signature)

def signedTransaction (walletAddress value : Text) (tx : Call) (signature : Signature) :
    RawTransactionDto :=
  ⟨walletAddress, value, '0' :: 'x' :: toHex (encodeSigned tx signature)⟩

/-- `executeMetaTransaction` of the wallet's wrapper, as a raw transaction. -/
def executeMetaTransaction (walletAddress : Text) (tx : Call) (signature : Signature) :
    RawTransactionDto := signedTransaction walletAddress "0".toList tx signature

def decodeSignature (calldata : Bytes) : Option Signature :=
  match AbiWords.decode metaLayout (calldata.drop 4) with
  | some [_, _, _, .word v, .word r, .word s] =>
    if h : v.length = 32 ∧ r.length = 32 ∧ s.length = 32 then
      some ⟨⟨v, h.1⟩, ⟨r, h.2.1⟩, ⟨s, h.2.2⟩⟩
    else none
  | _ => none

/-- Value and call data can be encoded. -/
structure Call.Fits (c : Call) : Prop where
  value : c.value < 256 ^ 32
  data : c.data.length + 1024 ≤ 256 ^ 32

section Encoding
variable {c : Call} {signature : Signature}

lemma signedValues_sized (c : Call) (signature : Signature) :
    ∀ v ∈ signedValues c signature, v.Sized := by
  simp [signedValues, Value.Sized, signature.v.property, signature.r.property,
    signature.s.property]

lemma encode_signed_length (c : Call) (signature : Signature) :
    (encode (signedValues c signature)).length ≤ c.data.length + 512 := by
  have hheads := heads_length (signedValues c signature) (32 * (signedValues c signature).length)
    (signedValues_sized c signature)
  rw [encode, List.length_append, hheads]
  simp [signedValues, tail, pad]
  omega

lemma encodeSigned_length (c : Call) (signature : Signature) :
    (encodeSigned c signature).length ≤ c.data.length + 516 := by
  have hlength := encode_signed_length c signature
  have hselector : executeMetaTransactionId.val.length = 4 := rfl
  rw [encodeSigned, List.length_append, hselector]
  omega

lemma decode_signed (hc : c.Fits) :
    AbiWords.decode metaLayout ((encodeSigned c signature).drop 4) =
      some (signedValues c signature) := by
  have hlength := encode_signed_length c signature
  have hdata := hc.data
  have hdrop : (encodeSigned c signature).drop 4 = encode (signedValues c signature) :=
    List.drop_left' rfl
  rw [hdrop]
  exact decode_encode _ (signedValues_sized c signature) (by omega)

/-- The contract reads back the call and its signature. -/
lemma decodeMetaCall_signed (hc : c.Fits) : decodeMetaCall (encodeSigned c signature) = some c := by
  have htake : (encodeSigned c signature).take 4 = executeMetaTransactionId.val := List.take_left' rfl
  rw [decodeMetaCall, if_pos htake, decode_signed hc]
  simp only [signedValues, wordAddress_addressWord, toNat_ofNat 32 _ hc.value, Option.map_some]

lemma decodeSignature_signed (hc : c.Fits) :
    decodeSignature (encodeSigned c signature) = some signature := by
  rw [decodeSignature, decode_signed hc]
  simp [signedValues, signature.v.property, signature.r.property, signature.s.property]

end Encoding

/-- What `executeMetaTransaction` reads and writes of the wallet. -/
structure MetaTransactionWallet where
  nonce : ℕ
  signer : Address
  deriving DecidableEq

section Contract
variable (getMetaTransactionSigner : Address → Call → ℕ → Signature → Address) (self : Address)

/-- The wallet after the call and the calls it has made, or `none` where it reverts. What a call
of the wallet to itself does, other than a batch, is left out. -/
def MetaTransactionWallet.executeMetaTransaction (wallet : MetaTransactionWallet)
    (calldata : Bytes) : Option (MetaTransactionWallet × List Call) := do
  let call ← decodeMetaCall calldata
  let signature ← decodeSignature calldata
  if getMetaTransactionSigner self call wallet.nonce signature = wallet.signer ∧
      wallet.nonce + 1 < 2 ^ 256 then
    (performed self calldata).map fun calls => ({ wallet with nonce := wallet.nonce + 1 }, calls)
  else none

/-- The wallet while the calls of a transaction are made, some of them to it. -/
def MetaTransactionWallet.receive :
    MetaTransactionWallet → List Call → Option (MetaTransactionWallet × List Call)
  | wallet, [] => some (wallet, [])
  | wallet, c :: cs =>
    if c.destination = self then
      (wallet.executeMetaTransaction getMetaTransactionSigner self c.data).bind fun first =>
        (first.1.receive cs).map fun rest => (rest.1, first.2 ++ rest.2)
    else wallet.receive cs

end Contract

section Wrapped
variable {env : ApiEnvironment} {walletAddress value : Text} {w : Address} {c : Call}
  {signature : Signature}

lemma parseHex_signed (c : Call) (signature : Signature) :
    parseHex ('0' :: 'x' :: toHex (encodeSigned c signature)) = some (encodeSigned c signature) := by
  rw [parseHex, trimLeading0x, parseDigits_toHex]

/-- A call of another contract is made as it was signed. -/
lemma performed_signed (hc : c.Fits) (hself : c.destination ≠ w) :
    performed w (encodeSigned c signature) = some [c] := by
  have hnot : ¬ (c.destination = w ∧ c.data.take 4 = executeTransactionsId.val) :=
    fun h => hself h.1
  simp only [performed, decodeMetaCall_signed hc, Option.bind_eq_bind, Option.bind_some,
    if_neg hnot]

lemma performedBy_signed (hc : c.Fits) (hself : c.destination ≠ w) :
    performedBy w (signedTransaction walletAddress value c signature).raw = some [c] := by
  rw [performedBy, signedTransaction, RawTransactionDto.raw]
  simp only [parseHex_signed, Option.bind_some, performed_signed hc hself]

lemma isCallTo_signed (hw : normalizeAddress walletAddress = toHex w.val) :
    isCallTo (signedTransaction walletAddress value c signature).raw (contractAddress walletAddress)
      executeMetaTransactionId = .ok true := by
  have haddress := account_of_normalizeAddress hw
  have hid : extractMethodId ('0' :: 'x' :: toHex (encodeSigned c signature)) =
      toHex executeMetaTransactionId.val := extractMethodId_of_parseHex (parseHex_signed c signature)
  simp [isCallTo, signedTransaction, RawTransactionDto.raw, hid, hw, haddress,
    normalizeAddress_contractAddress, normalizeMethodId_methodIdText]

/-- The parser finds the call that was wrapped, and lets it pass when its method is known. -/
lemma parse_signed_iff (hd : Faithful env.txParser.decodeData)
    (hw : normalizeAddress walletAddress = toHex w.val) (hc : c.Fits) (hself : c.destination ≠ w)
    (F : MethodFilter) :
    (∃ children, parseDto env (some (signedTransaction walletAddress value c signature)) walletAddress
      (some F) = .ok children) ↔ F.Allowed c := by
  have hp : performedBy w (signedTransaction walletAddress value c signature).raw = some [c] :=
    performedBy_signed hc hself
  obtain ⟨c', child, hcalls, hrecovers, hchildren⟩ | ⟨hshape, -⟩ :=
    getChildren_of_performed hd env.txParser.defaultFilter (account_of_normalizeAddress hw) hp
  · obtain rfl : c = c' := List.singleton_inj.mp hcalls
    obtain ⟨destination, number, data⟩ := child
    obtain ⟨⟨a, rfl, ha⟩, -, rfl⟩ := hrecovers
    rw [← F.find_iff number ha]
    constructor
    · rintro ⟨methods, h⟩
      obtain ⟨tx, htx, hparse, -⟩ := parseDto_ok h
      cases htx
      obtain ⟨-, children, hsame, hfind⟩ := parse_ok hparse
      obtain rfl := Except.ok.inj (Except.ok.inj (hchildren.symm.trans hsame))
      exact hfind _ (List.mem_singleton_self _)
    · intro hfind
      obtain ⟨methods, hparse⟩ := parse_of_children (F := F) (isCallTo_signed hw) hchildren
        fun _ h => List.mem_singleton.mp h ▸ hfind
      exact ⟨methods, congrArg throwIfError hparse⟩
  · simp [shapeOf, signedTransaction, RawTransactionDto.raw, parseHex_signed,
      decodeMetaCall_signed hc, hself] at hshape

end Wrapped

section Runs
variable {getMetaTransactionSigner : Address → Call → ℕ → Signature → Address} {w : Address}
  {wallet : MetaTransactionWallet} {c : Call} {signature : Signature} {cs : List Call}

/-- A call that is signed for the nonce is made, and the nonce counted. -/
lemma executeMetaTransaction_signed (hc : c.Fits) (hself : c.destination ≠ w)
    (hsigner : getMetaTransactionSigner w c wallet.nonce signature = wallet.signer)
    (hnonce : wallet.nonce + 1 < 2 ^ 256) :
    wallet.executeMetaTransaction getMetaTransactionSigner w (encodeSigned c signature) =
      some (⟨wallet.nonce + 1, wallet.signer⟩, [c]) := by
  have hvalid : getMetaTransactionSigner w c wallet.nonce signature = wallet.signer ∧
      wallet.nonce + 1 < 2 ^ 256 := ⟨hsigner, hnonce⟩
  simp only [MetaTransactionWallet.executeMetaTransaction, decodeMetaCall_signed hc,
    decodeSignature_signed hc, Option.bind_eq_bind, Option.bind_some, if_pos hvalid,
    performed_signed hc hself, Option.map_some]

lemma receive_other (hself : c.destination ≠ w) :
    wallet.receive getMetaTransactionSigner w (c :: cs) =
      wallet.receive getMetaTransactionSigner w cs := by
  rw [MetaTransactionWallet.receive, if_neg hself]

lemma receive_signed (wallet : MetaTransactionWallet) (value : ℕ) (hc : c.Fits)
    (hself : c.destination ≠ w)
    (hsigner : getMetaTransactionSigner w c wallet.nonce signature = wallet.signer)
    (hnonce : wallet.nonce + 1 < 2 ^ 256) {after : MetaTransactionWallet} {made : List Call}
    (h : MetaTransactionWallet.receive getMetaTransactionSigner w
      ⟨wallet.nonce + 1, wallet.signer⟩ cs = some (after, made)) :
    wallet.receive getMetaTransactionSigner w (⟨w, value, encodeSigned c signature⟩ :: cs) =
      some (after, c :: made) := by
  rw [MetaTransactionWallet.receive, if_pos rfl,
    executeMetaTransaction_signed hc hself hsigner hnonce, Option.bind_some, h]
  rfl

end Runs

end Komenci.Wallet
