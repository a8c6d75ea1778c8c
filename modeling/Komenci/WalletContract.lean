import Komenci.AbiWords
import Komenci.WalletTxParser

/-! What the wallet contract does with call data, from the contract source in
`contracts/artefacts/MetaTransactionWallet.json`, and what is relied on of the
third-party decoder: that it reads arguments as the contract does. -/
namespace Komenci.Wallet
open HexText DecimalText AbiWords

structure Call where
  destination : Address
  value : ℕ
  data : Bytes
  deriving DecidableEq, Repr

/-- The four-byte selector, which shorter call data does not have. -/
def Call.selector (c : Call) : Option Selector :=
  if h : (c.data.take 4).length = 4 then some ⟨c.data.take 4, h⟩ else none

/-- The arguments of `executeTransactions`. -/
structure BatchCall where
  destinations : List Address
  values : List ℕ
  data : Bytes
  dataLengths : List ℕ
  deriving DecidableEq, Repr

def addressWord (a : Address) : Bytes := List.replicate 12 0 ++ a.val

def wordAddress (w : Bytes) : Option Address :=
  if h : (w.drop 12).length = 20 then some ⟨w.drop 12, h⟩ else none

def metaLayout : List Layout := [.word, .word, .bytes, .word, .word, .word]

def batchLayout : List Layout := [.words, .words, .bytes, .words]

/-- The call wrapped in call data of `executeMetaTransaction`. The last three
arguments are the signature. -/
def decodeMetaCall (calldata : Bytes) : Option Call :=
  if calldata.take 4 = executeMetaTransactionId.val then
    match AbiWords.decode metaLayout (calldata.drop 4) with
    | some [.word destination, .word value, .bytes data, _, _, _] =>
      (wordAddress destination).map fun a => ⟨a, toNat value, data⟩
    | _ => none
  else none

def decodeBatchCall (calldata : Bytes) : Option BatchCall :=
  if calldata.take 4 = executeTransactionsId.val then
    match AbiWords.decode batchLayout (calldata.drop 4) with
    | some [.words destinations, .words values, .bytes data, .words dataLengths] =>
      (destinations.mapM wordAddress).map fun as =>
        ⟨as, values.map toNat, data, dataLengths.map toNat⟩
    | _ => none
  else none

/-- A sum that overflows a word passes the bound check of `slice` but not the
`SafeMath` addition after it, so it fails as a slice past the end does. -/
def sliceData (data : Bytes) (start length : ℕ) : Option Bytes :=
  if length = 0 then some []
  else if start + length ≤ data.length then some ((data.drop start).take length)
  else none

/-- The loop of `executeTransactions` from `dataPosition` on. -/
def executeFrom (data : Bytes) :
    ℕ → List Address → List ℕ → List ℕ → Option (List Call)
  | dataPosition, d :: ds, v :: vs, l :: ls => do
      let slice ← sliceData data dataPosition l
      let calls ← executeFrom data (dataPosition + l) ds vs ls
      some (⟨d, v, slice⟩ :: calls)
  | dataPosition, [], _, _ => if dataPosition = data.length then some [] else none
  | _, _ :: _, _, _ => none

/-- The calls made, or `none` where the contract reverts. -/
def executeTransactions (b : BatchCall) : Option (List Call) :=
  if b.destinations.length = b.values.length ∧ b.values.length = b.dataLengths.length then
    executeFrom b.data 0 b.destinations b.values b.dataLengths
  else none

/-- The calls the wallet at `w` directly performs when it executes `calldata`: the
inner call, or the calls of the batch it asks the wallet itself for. -/
def performed (w : Address) (calldata : Bytes) : Option (List Call) := do
  let call ← decodeMetaCall calldata
  if call.destination = w ∧ call.data.take 4 = executeTransactionsId.val then
    (decodeBatchCall call.data).bind executeTransactions
  else some [call]

/-- The third-party decoder reads the arguments as the contract does: addresses as
hex texts, bytes as a buffer, integers as big-number objects. -/
structure Faithful (decodeData : InputDataDecoder) : Prop where
  executeMetaTransaction : ∀ text calldata call, parseHex text = some calldata →
    decodeMetaCall calldata = some call →
    ∃ a v r s, decodeData text = .ok ⟨some "executeMetaTransaction",
      [.address a, .bn ⟨call.value⟩, .buffer call.data, v, r, s]⟩ ∧
      normalizeAddress a = toHex call.destination.val
  executeTransactions : ∀ text calldata b, parseHex text = some calldata →
    decodeBatchCall calldata = some b →
    ∃ as, decodeData text = .ok ⟨some "executeTransactions",
      [.addresses as, .bns (b.values.map BN.mk), .buffer b.data, .bns (b.dataLengths.map BN.mk)]⟩ ∧
      as.map normalizeAddress = b.destinations.map fun d => toHex d.val

/-- A decoder with nothing but the arguments the contract reads. -/
def contractDecoder : InputDataDecoder := fun text =>
  match parseHex text with
  | none => .error "not hexadecimal"
  | some calldata =>
    match decodeMetaCall calldata with
    | some call => .ok ⟨some "executeMetaTransaction", [.address (toHex call.destination.val),
        .bn ⟨call.value⟩, .buffer call.data, .other, .other, .other]⟩
    | none =>
      match decodeBatchCall calldata with
      | some b => .ok ⟨some "executeTransactions",
          [.addresses (b.destinations.map fun d => toHex d.val), .bns (b.values.map BN.mk),
            .buffer b.data, .bns (b.dataLengths.map BN.mk)]⟩
      | none => .ok ⟨none, []⟩

lemma decodeMetaCall_of_batch {calldata : Bytes} {b : BatchCall}
    (h : decodeBatchCall calldata = some b) : decodeMetaCall calldata = none := by
  have hs : calldata.take 4 = executeTransactionsId.val := by
    by_contra hne
    simp [decodeBatchCall, hne] at h
  have hne : executeTransactionsId.val ≠ executeMetaTransactionId.val := by decide
  simp [decodeMetaCall, hs, hne]

theorem contractDecoder_faithful : Faithful contractDecoder where
  executeMetaTransaction text calldata call ht hc :=
    ⟨_, _, _, _, by simp [contractDecoder, ht, hc]; exact ⟨rfl, rfl, rfl, rfl⟩, by simp⟩
  executeTransactions text calldata b ht hb :=
    ⟨_, by simp [contractDecoder, ht, decodeMetaCall_of_batch hb, hb]; rfl,
      by simp [Function.comp_def]⟩

end Komenci.Wallet
