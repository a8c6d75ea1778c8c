import Komenci.DecimalText

/-! The decoding of meta-transactions, `api/src/wallet/decode-txs.ts`. The
third-party decoder is a parameter. What JavaScript computes on values whose type
is not the declared one is spelled out: the decoder's integers are big-number
objects, not numbers. -/
namespace Komenci.Wallet
open HexText DecimalText

/-- A thrown `TypeError`. -/
inductive TypeError
  | typeError
  deriving DecidableEq, Repr

/-- An object of the big-number library. -/
structure BN where
  toNat : ℕ
  deriving DecidableEq, Repr

/-- The decimal text, as `BN.toString()` gives it. -/
def BN.toString (n : BN) : Text := decimal n.toNat

/-- `n === k` compares an object with a number. -/
def BN.strictEquals (_ : BN) (_ : ℕ) : Bool := false

/-- What the variable `offset` holds: a number at first, a text once an object has
been added to it. -/
inductive Offset
  | number (n : ℕ)
  | text (t : Text)
  deriving DecidableEq, Repr

def Offset.toString : Offset → Text
  | .number n => decimal n
  | .text t => t

/-- `offset + dataLength`: adding an object concatenates the texts. -/
def Offset.add (o : Offset) (n : BN) : Offset := .text (o.toString ++ n.toString)

/-- The coercion to an integer. Numbers past `2 ^ 53` are rounded by the language;
they lie past the end of every buffer, where `slice` clamps them. -/
def Offset.toInteger : Offset → ℕ
  | .number n => n
  | .text t => value t

/-- `Buffer.slice`, which clamps both ends to the buffer. -/
def sliceBuffer (b : Bytes) (start stop : Offset) : Bytes :=
  (b.take stop.toInteger).drop start.toInteger

/-- `destination` is `none` where the code reads past the end of an array. -/
structure RawTransaction where
  destination : Option Text
  value : Text
  data : Text
  deriving DecidableEq, Repr

inductive DecodedInput
  | address (a : Text)
  | bn (n : BN)
  | buffer (b : Bytes)
  | addresses (as : List Text)
  | bns (ns : List BN)
  | other
  deriving DecidableEq, Repr

structure DecodedData where
  method : Option String
  inputs : List DecodedInput
  deriving DecidableEq, Repr

/-- `decodeData` of the third-party decoder over the wallet's ABI; an error is the
message of what it throws. -/
abbrev InputDataDecoder := Text → Except String DecodedData

inductive TxParseErrors
  | InvalidRootTransaction (tx : RawTransaction)
  | TransactionNotAllowed (tx : RawTransaction)
  | TransactionDecodeError (tx : RawTransaction) (message : String)
  deriving DecidableEq, Repr

/-- A `Result`, or a thrown error. -/
abbrev Outcome (α : Type) := Except TypeError (Except TxParseErrors α)

def EXECUTE_TRANSACTIONS_INPUTS : ℕ := 4
def EXECUTE_META_TRANSACTION_INPUTS : ℕ := 6

def decode (decodeData : InputDataDecoder) (tx : RawTransaction) (method : String)
    (expectedInputsLength : ℕ) : Except TxParseErrors (List DecodedInput) :=
  match decodeData tx.data with
  | .error e => .error (.TransactionDecodeError tx e)
  | .ok decodedData =>
    if decodedData.method = none then
      .error (.TransactionDecodeError tx "Could not find method")
    else if decodedData.method ≠ some method then
      .error (.TransactionDecodeError tx "Method does not match")
    else if decodedData.inputs.length ≠ expectedInputsLength then
      .error (.TransactionDecodeError tx "Invalid inputs length")
    else .ok decodedData.inputs

def decodeExecuteMetaTransaction (decodeData : InputDataDecoder) (tx : RawTransaction) :
    Outcome RawTransaction :=
  match decode decodeData tx "executeMetaTransaction" EXECUTE_META_TRANSACTION_INPUTS with
  | .error e => .ok (.error e)
  | .ok (.address destination :: .bn value :: .buffer data :: _) =>
    .ok (.ok ⟨some destination, value.toString, toHex data⟩)
  | .ok _ => .error .typeError

/-- The four inputs of `executeTransactions`. -/
structure BatchInputs where
  destinations : List Text
  values : List BN
  data : Bytes
  dataLengths : List BN

/-- The callback of `inputs[3].map`, with the captured `offset`. -/
def decodeChild (inputs : BatchInputs) (offset : Offset) (idx : ℕ) (dataLength : BN) :
    Except TypeError (RawTransaction × Offset) :=
  let (data, offset) :=
    if dataLength.strictEquals 0 then ([], offset)
    else (toHex (sliceBuffer inputs.data offset (offset.add dataLength)), offset.add dataLength)
  match inputs.values[idx]? with
  | none => .error .typeError
  | some value => .ok (⟨inputs.destinations[idx]?, value.toString, data⟩, offset)

def decodeChildren (inputs : BatchInputs) :
    Offset → ℕ → List BN → Except TypeError (List RawTransaction)
  | _, _, [] => .ok []
  | offset, idx, dataLength :: rest => do
      let (child, offset) ← decodeChild inputs offset idx dataLength
      let children ← decodeChildren inputs offset (idx + 1) rest
      .ok (child :: children)

def decodeExecuteTransactions (decodeData : InputDataDecoder) (tx : RawTransaction) :
    Outcome (List RawTransaction) :=
  match decode decodeData tx "executeTransactions" EXECUTE_TRANSACTIONS_INPUTS with
  | .error e => .ok (.error e)
  | .ok [.addresses destinations, .bns values, .buffer data, .bns dataLengths] =>
    (decodeChildren ⟨destinations, values, data, dataLengths⟩ (.number 0) 0 dataLengths).map .ok
  | .ok _ => .error .typeError

lemma decodeExecuteMetaTransaction_of_decoded {decodeData : InputDataDecoder}
    {tx : RawTransaction} {a : Text} {n : BN} {b : Bytes} {v r s : DecodedInput}
    (h : decodeData tx.data = .ok ⟨some "executeMetaTransaction",
      [.address a, .bn n, .buffer b, v, r, s]⟩) :
    decodeExecuteMetaTransaction decodeData tx = .ok (.ok ⟨some a, n.toString, toHex b⟩) := by
  simp [decodeExecuteMetaTransaction, decode, h, EXECUTE_META_TRANSACTION_INPUTS]

lemma decodeExecuteTransactions_of_decoded {decodeData : InputDataDecoder}
    {tx : RawTransaction} (inputs : BatchInputs)
    (h : decodeData tx.data = .ok ⟨some "executeTransactions",
      [.addresses inputs.destinations, .bns inputs.values, .buffer inputs.data,
        .bns inputs.dataLengths]⟩) :
    decodeExecuteTransactions decodeData tx =
      (decodeChildren inputs (.number 0) 0 inputs.dataLengths).map .ok := by
  simp [decodeExecuteTransactions, decode, h, EXECUTE_TRANSACTIONS_INPUTS]

/-- What `offset` holds after the lengths `l` have been added to it. -/
def offsetAfter (l : List BN) : Offset := l.foldl Offset.add (.number 0)

@[simp] lemma offsetAfter_nil : offsetAfter [] = .number 0 := rfl

@[simp] lemma offsetAfter_snoc (l : List BN) (n : BN) :
    offsetAfter (l ++ [n]) = (offsetAfter l).add n := by simp [offsetAfter]

@[simp] lemma Offset.add_toString (o : Offset) (n : BN) :
    (o.add n).toString = o.toString ++ n.toString := rfl

lemma Offset.toInteger_eq_value (o : Offset) : o.toInteger = value o.toString := by
  cases o with
  | number n => simp [toInteger, toString]
  | text t => rfl

lemma offsetAfter_toString (l : List BN) :
    (offsetAfter l).toString = '0' :: (l.map BN.toNat).flatMap decimal := by
  induction l using List.reverseRecOn with
  | nil => rfl
  | append_singleton l n ih => simp [ih, BN.toString]

/-- The offset is the number written by the earlier lengths, not their sum. -/
lemma offsetAfter_toInteger (l : List BN) :
    (offsetAfter l).toInteger = concat (l.map BN.toNat) := by
  rw [Offset.toInteger_eq_value, offsetAfter_toString]
  simp [value, concat, Nat.ofDigitChars_cons]

/-- The child read for the length at `idx`, as the code slices it. -/
def childAt (inputs : BatchInputs) (done : List BN) (value : BN) (dataLength : BN) :
    RawTransaction :=
  ⟨inputs.destinations[done.length]?, value.toString,
    toHex ((inputs.data.take (concat ((done ++ [dataLength]).map BN.toNat))).drop
      (concat (done.map BN.toNat)))⟩

lemma decodeChild_eq (inputs : BatchInputs) (done : List BN) (dataLength value : BN)
    (hv : inputs.values[done.length]? = some value) :
    decodeChild inputs (offsetAfter done) done.length dataLength =
      .ok (childAt inputs done value dataLength, offsetAfter (done ++ [dataLength])) := by
  simp [decodeChild, BN.strictEquals, hv, childAt, sliceBuffer, offsetAfter_toInteger,
    ← offsetAfter_snoc]

/-- The children the code reads, given a value for each length. -/
def childrenFrom (inputs : BatchInputs) : List BN → List (BN × BN) → List RawTransaction
  | _, [] => []
  | done, (value, dataLength) :: rest =>
    childAt inputs done value dataLength :: childrenFrom inputs (done ++ [dataLength]) rest

lemma decodeChildren_eq (inputs : BatchInputs) (done : List BN) (values lengths : List BN)
    (hv : inputs.values.drop done.length = values) (hl : lengths.length ≤ values.length) :
    decodeChildren inputs (offsetAfter done) done.length lengths =
      .ok (childrenFrom inputs done (values.zip lengths)) := by
  induction lengths generalizing done values with
  | nil => simp [decodeChildren, childrenFrom]
  | cons n lengths ih =>
    cases values with
    | nil => simp at hl
    | cons v values =>
      have hget : inputs.values[done.length]? = some v := by
        rw [← List.head?_drop, hv]
        rfl
      have hdrop : inputs.values.drop (done ++ [n]).length = values := by
        rw [List.length_append, ← List.drop_drop, hv]
        rfl
      have hi := ih (done ++ [n]) values hdrop (by simpa using hl)
      simp only [List.length_append, List.length_singleton] at hi
      rw [decodeChildren, decodeChild_eq inputs done n v hget]
      simp only [bind, Except.bind, hi, List.zip_cons_cons, childrenFrom]

lemma childrenFrom_length (inputs : BatchInputs) (done : List BN) (rest : List (BN × BN)) :
    (childrenFrom inputs done rest).length = rest.length := by
  induction rest generalizing done with
  | nil => rfl
  | cons p rest ih => simp [childrenFrom, ih]

end Komenci.Wallet
