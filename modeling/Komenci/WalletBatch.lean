import Komenci.WalletContract

/-! Batches of calls: their call data, and which of them
`decodeExecuteTransactions` recovers. -/
namespace Komenci.Wallet
open HexText DecimalText AbiWords

/-- The arguments under which a list of calls is batched. -/
def batchOf (txs : List Call) : BatchCall :=
  ⟨txs.map Call.destination, txs.map Call.value, txs.flatMap Call.data,
    txs.map fun t => t.data.length⟩

def batchValues (b : BatchCall) : List Value :=
  [.words (b.destinations.map addressWord), .words (b.values.map (ofNat 32)), .bytes b.data,
    .words (b.dataLengths.map (ofNat 32))]

def encodeBatchCall (b : BatchCall) : Bytes :=
  executeTransactionsId.val ++ encode (batchValues b)

def metaValues (c : Call) : List Value :=
  [.word (addressWord c.destination), .word (ofNat 32 c.value), .bytes c.data,
    .word (ofNat 32 0), .word (ofNat 32 0), .word (ofNat 32 0)]

/-- A meta-transaction around `c`, with an empty signature. -/
def encodeMetaCall (c : Call) : Bytes := executeMetaTransactionId.val ++ encode (metaValues c)

/-- Every integer fits in a word, and so does the length of the call data. -/
structure BatchCall.Fits (b : BatchCall) : Prop where
  values : ∀ v ∈ b.values, v < 256 ^ 32
  dataLengths : ∀ l ∈ b.dataLengths, l < 256 ^ 32
  encoded : (encode (batchValues b)).length < 256 ^ 32

instance (b : BatchCall) : Decidable b.Fits :=
  decidable_of_iff ((∀ v ∈ b.values, v < 256 ^ 32) ∧ (∀ l ∈ b.dataLengths, l < 256 ^ 32) ∧
    (encode (batchValues b)).length < 256 ^ 32)
    ⟨fun ⟨hv, hl, he⟩ => ⟨hv, hl, he⟩, fun ⟨hv, hl, he⟩ => ⟨hv, hl, he⟩⟩

@[simp] lemma addressWord_length (a : Address) : (addressWord a).length = 32 := by
  simp [addressWord, a.property]

@[simp] lemma wordAddress_addressWord (a : Address) : wordAddress (addressWord a) = some a := by
  have hd : (addressWord a).drop 12 = a.val := List.drop_left' (by simp)
  simp [wordAddress, hd, a.property]

lemma mapM_wordAddress (as : List Address) : (as.map addressWord).mapM wordAddress = some as := by
  induction as with
  | nil => rfl
  | cons a as ih => simp [ih]

lemma map_toNat_ofNat {ns : List ℕ} (h : ∀ n ∈ ns, n < 256 ^ 32) :
    (ns.map (ofNat 32)).map toNat = ns := by
  induction ns with
  | nil => rfl
  | cons n ns ih =>
    have hn := toNat_ofNat 32 n (h n (by simp))
    have hi := ih fun m hm => h m (by simp [hm])
    simp only [List.map_cons, hn, hi]

lemma batchValues_sized (b : BatchCall) : ∀ v ∈ batchValues b, v.Sized := by
  simp only [batchValues, List.forall_mem_cons]
  exact ⟨words_map_sized _ addressWord_length _, words_map_sized _ (ofNat_length 32) _, trivial,
    words_map_sized _ (ofNat_length 32) _, by simp⟩

lemma metaValues_sized (c : Call) : ∀ v ∈ metaValues c, v.Sized := by
  simp [metaValues, Value.Sized]

/-- The contract reads back the arguments of encoded call data. -/
theorem decodeBatchCall_encode (b : BatchCall) (h : b.Fits) :
    decodeBatchCall (encodeBatchCall b) = some b := by
  have hd := decode_encode (batchValues b) (batchValues_sized b) h.encoded
  have htake : (encodeBatchCall b).take 4 = executeTransactionsId.val := List.take_left' rfl
  have hdrop : (encodeBatchCall b).drop 4 = encode (batchValues b) := List.drop_left' rfl
  have hl : (batchValues b).map Value.layout = batchLayout := rfl
  rw [decodeBatchCall, if_pos htake, hdrop, ← hl, hd]
  simp only [batchValues, mapM_wordAddress, map_toNat_ofNat h.values,
    map_toNat_ofNat h.dataLengths, Option.map_some]

theorem decodeMetaCall_encode (c : Call) (hv : c.value < 256 ^ 32)
    (he : (encode (metaValues c)).length < 256 ^ 32) :
    decodeMetaCall (encodeMetaCall c) = some c := by
  have hd := decode_encode (metaValues c) (metaValues_sized c) he
  have htake : (encodeMetaCall c).take 4 = executeMetaTransactionId.val := List.take_left' rfl
  have hdrop : (encodeMetaCall c).drop 4 = encode (metaValues c) := List.drop_left' rfl
  have hl : (metaValues c).map Value.layout = metaLayout := rfl
  rw [decodeMetaCall, if_pos htake, hdrop, ← hl, hd]
  simp only [metaValues, wordAddress_addressWord, toNat_ofNat 32 _ hv, Option.map_some]

lemma sliceData_eq_some {data slice : Bytes} {p l : ℕ} (h : sliceData data p l = some slice) :
    slice.length = l ∧ data.drop p = slice ++ data.drop (p + l) := by
  rw [sliceData] at h
  split_ifs at h with h0 hle
  · obtain rfl := Option.some.inj h
    simp [h0]
  · obtain rfl := Option.some.inj h
    rw [← List.drop_drop, List.take_append_drop, List.length_take, List.length_drop]
    exact ⟨by omega, rfl⟩

lemma sliceData_append (as bs cs : Bytes) :
    sliceData (as ++ (bs ++ cs)) as.length bs.length = some bs := by
  have hle : as.length + bs.length ≤ (as ++ (bs ++ cs)).length := by
    simp only [List.length_append]
    omega
  by_cases h0 : bs.length = 0
  · rw [sliceData, if_pos h0, List.length_eq_zero_iff.mp h0]
  · rw [sliceData, if_neg h0, if_pos hle, List.drop_left, List.take_left]

/-- The calls the contract makes use up the data from where they start. -/
lemma executeFrom_eq_some {data : Bytes} {p : ℕ} {ds : List Address} {vs ls : List ℕ}
    {calls : List Call} (h : executeFrom data p ds vs ls = some calls)
    (hv : ds.length = vs.length) (hl : vs.length = ls.length) :
    ds = calls.map Call.destination ∧ vs = calls.map Call.value ∧
      ls = calls.map (fun t => t.data.length) ∧ data.drop p = calls.flatMap Call.data := by
  induction ds generalizing p vs ls calls with
  | nil =>
    cases vs with
    | cons v vs => simp at hv
    | nil =>
      cases ls with
      | cons l ls => simp at hl
      | nil =>
        simp only [executeFrom] at h
        split_ifs at h with hp
        obtain rfl := Option.some.inj h
        simp [hp]
  | cons d ds ih =>
    cases vs with
    | nil => simp at hv
    | cons v vs =>
      cases ls with
      | nil => simp at hl
      | cons l ls =>
        simp only [executeFrom, Option.bind_eq_bind, Option.bind_eq_some_iff] at h
        obtain ⟨slice, hs, rest, hr, hc⟩ := h
        obtain rfl := Option.some.inj hc
        obtain ⟨rfl, rfl, rfl, hd⟩ := ih hr (by simpa using hv) (by simpa using hl)
        obtain ⟨rfl, hdrop⟩ := sliceData_eq_some hs
        simp [hdrop, hd]

lemma executeFrom_calls (pre : Bytes) (calls : List Call) :
    executeFrom (pre ++ calls.flatMap Call.data) pre.length (calls.map Call.destination)
      (calls.map Call.value) (calls.map fun t => t.data.length) = some calls := by
  induction calls generalizing pre with
  | nil => simp [executeFrom]
  | cons t calls ih =>
    have hi := ih (pre ++ t.data)
    simp only [List.append_assoc, List.length_append] at hi
    simp only [List.map_cons, List.flatMap_cons, executeFrom, sliceData_append, hi,
      Option.bind_eq_bind, Option.bind_some]

/-- The contract makes the calls of a batch and of nothing else. -/
theorem executeTransactions_eq_some_iff (b : BatchCall) (calls : List Call) :
    executeTransactions b = some calls ↔ b = batchOf calls := by
  constructor
  · intro h
    rw [executeTransactions] at h
    split_ifs at h with hlen
    obtain ⟨hd, hv, hl, hdata⟩ := executeFrom_eq_some h hlen.1 hlen.2
    rw [List.drop_zero] at hdata
    rw [batchOf, ← hd, ← hv, ← hl, ← hdata]
  · rintro rfl
    have h := executeFrom_calls [] calls
    simpa [executeTransactions, batchOf] using h

/-- The decoded child is the given call: same destination as an address, the value
in decimal, the call data in hexadecimal. -/
def Recovers (t : Call) (child : RawTransaction) : Prop :=
  (∃ d, child.destination = some d ∧ normalizeAddress d = toHex t.destination.val) ∧
    child.value = decimal t.value ∧ child.data = toHex t.data

/-- After the first entry that is not zero only the next one may be so, too. -/
def OnlyNextNonzero (lengths : List ℕ) : Prop :=
  ∀ n ∈ (lengths.dropWhile (· = 0)).drop 2, n = 0

instance (lengths : List ℕ) : Decidable (OnlyNextNonzero lengths) :=
  inferInstanceAs (Decidable (∀ n ∈ _, n = 0))

/-- The bytes the code slices out for a length `l` after the lengths `done`. -/
def sliceAt (data : Bytes) (done : List ℕ) (l : ℕ) : Bytes :=
  (data.take (concat (done ++ [l]))).drop (concat done)

def lengthBN (t : Call) : BN := ⟨t.data.length⟩

lemma childAt_eq (inputs : BatchInputs) (done : List BN) (value dataLength : BN) :
    childAt inputs done value dataLength = ⟨inputs.destinations[done.length]?, value.toString,
      toHex (sliceAt inputs.data (done.map BN.toNat) dataLength.toNat)⟩ := by
  simp [childAt, sliceAt]

/-- All children are as wanted exactly when each is, wherever the list is split. -/
lemma forall₂_childrenFrom {R : Call → RawTransaction → Prop} (inputs : BatchInputs)
    (done : List BN) (txs : List Call) :
    List.Forall₂ R txs (childrenFrom inputs done (txs.map fun t => (⟨t.value⟩, lengthBN t))) ↔
      ∀ pre t post, txs = pre ++ t :: post →
        R t (childAt inputs (done ++ pre.map lengthBN) ⟨t.value⟩ (lengthBN t)) := by
  induction txs generalizing done with
  | nil => simp [childrenFrom]
  | cons u txs ih =>
    simp only [List.map_cons, childrenFrom, List.forall₂_cons, ih]
    constructor
    · rintro ⟨hu, hrest⟩ pre t post h
      cases pre with
      | nil =>
        obtain ⟨rfl, rfl⟩ := List.cons.inj h
        simpa using hu
      | cons v pre =>
        obtain ⟨rfl, rfl⟩ := List.cons.inj h
        simpa using hrest pre t post rfl
    · intro h
      refine ⟨by simpa using h [] u txs rfl, fun pre t post he => ?_⟩
      simpa using h (u :: pre) t post (by simp [he])

lemma exists_first_nonzero {l : List ℕ} (h : ¬ ∀ n ∈ l, n = 0) :
    ∃ zs f ms, l = zs ++ f :: ms ∧ (∀ n ∈ zs, n = 0) ∧ f ≠ 0 := by
  induction l with
  | nil => simp at h
  | cons n l ih =>
    by_cases hn : n = 0
    · obtain ⟨zs, f, ms, rfl, hzs, hf⟩ := ih (by simpa [hn] using h)
      exact ⟨n :: zs, f, ms, rfl, by simpa [hn] using hzs, hf⟩
    · exact ⟨[], n, l, rfl, by simp, hn⟩

lemma flatMap_data_length (txs : List Call) :
    (txs.flatMap Call.data).length = (txs.map fun t => t.data.length).sum := by
  simp [List.length_flatMap]

lemma flatMap_data_eq_nil {txs : List Call} (h : ∀ n ∈ txs.map fun t => t.data.length, n = 0) :
    txs.flatMap Call.data = [] := by
  rw [← List.length_eq_zero_iff, flatMap_data_length]
  exact List.sum_eq_zero h

/-- Either nothing before is non-empty, or only the entry before, and nothing after,
or this entry is empty and lies past two others that hold all there is. -/
lemma OnlyNextNonzero.cases {pre post : List ℕ} {l : ℕ} (h : OnlyNextNonzero (pre ++ l :: post)) :
    (∀ n ∈ pre, n = 0) ∨
      (∃ zs f, pre = zs ++ [f] ∧ (∀ n ∈ zs, n = 0) ∧ ∀ n ∈ post, n = 0) ∨
      (l = 0 ∧ ∃ zs f g ms, pre = zs ++ f :: g :: ms ∧ (∀ n ∈ zs, n = 0) ∧ f ≠ 0 ∧
        (∀ n ∈ ms, n = 0) ∧ ∀ n ∈ post, n = 0) := by
  by_cases hz : ∀ n ∈ pre, n = 0
  · exact .inl hz
  obtain ⟨zs, f, ms, rfl, hzs, hf⟩ := exists_first_nonzero hz
  have hdrop : (zs ++ f :: ms ++ l :: post).dropWhile (· = 0) = f :: ms ++ l :: post := by
    rw [List.append_assoc, List.dropWhile_append_of_pos (by simpa using hzs)]
    simp [hf]
  rw [OnlyNextNonzero, hdrop] at h
  cases ms with
  | nil => exact .inr (.inl ⟨zs, f, rfl, hzs, by simpa using h⟩)
  | cons g ms =>
    simp only [List.cons_append, List.drop_succ_cons, List.drop_zero, List.mem_append,
      List.mem_cons] at h
    exact .inr (.inr ⟨h l (by simp), zs, f, g, ms, rfl, hzs, hf, fun n hn => h n (by simp [hn]),
      fun n hn => h n (by simp [hn])⟩)

/-- A slice whose start is right and whose end is right or past the end of all data. -/
lemma drop_take_middle {as xs cs : Bytes} {n : ℕ}
    (h : n = as.length + xs.length ∨ cs = [] ∧ as.length + xs.length ≤ n) :
    ((as ++ (xs ++ cs)).take n).drop as.length = xs := by
  rcases h with rfl | ⟨rfl, hn⟩
  · rw [← List.append_assoc, List.take_left' (by simp), List.drop_left]
  · rw [List.append_nil, List.take_of_length_le (by simpa using hn), List.drop_left]

/-- A batch of the recoverable kind is sliced where the contract slices it. -/
lemma sliceAt_of_onlyNextNonzero {pre post : List Call} {t : Call}
    (h : OnlyNextNonzero ((pre ++ t :: post).map fun u => u.data.length)) :
    sliceAt ((pre ++ t :: post).flatMap Call.data) (pre.map fun u => u.data.length)
      t.data.length = t.data := by
  have hlen := flatMap_data_length pre
  simp only [List.map_append, List.map_cons] at h
  simp only [List.flatMap_append, List.flatMap_cons, sliceAt]
  generalize pre.map (fun u => u.data.length) = ls at h hlen ⊢
  rcases h.cases with hz | ⟨zs, f, rfl, hzs, hpost⟩ | ⟨hl, zs, f, g, ms, rfl, hzs, hf, hms, hpost⟩
  · have hs := List.sum_eq_zero hz
    have h0 : concat ls = 0 := by simpa using concat_zeros_append hz []
    have h1 : concat (ls ++ [t.data.length]) = t.data.length := by
      rw [concat_zeros_append hz, concat_singleton]
    rw [h0, h1, ← hs, ← hlen]
    exact drop_take_middle (.inl (by omega))
  · have hs : (zs ++ [f]).sum = f := by simp [List.sum_eq_zero hzs]
    have h0 : concat (zs ++ [f]) = (pre.flatMap Call.data).length := by
      rw [concat_zeros_append hzs, concat_singleton, hlen, hs]
    have h1 : 10 * f + t.data.length ≤ concat (zs ++ [f] ++ [t.data.length]) := by
      rw [List.append_assoc, concat_zeros_append hzs]
      exact concat_two_cons f _ []
    rw [h0]
    exact drop_take_middle (.inr ⟨flatMap_data_eq_nil hpost, by omega⟩)
  · have ht : t.data = [] := List.length_eq_zero_iff.mp hl
    have hs : (zs ++ f :: g :: ms).sum = f + g := by
      simp [List.sum_eq_zero hzs, List.sum_eq_zero hms]
    have h0 : 10 * f + g ≤ concat (zs ++ f :: g :: ms) := by
      rw [concat_zeros_append hzs]
      exact concat_two_cons f g ms
    rw [ht, flatMap_data_eq_nil hpost, List.drop_eq_nil_iff]
    simp only [List.append_nil, List.length_take]
    omega

end Komenci.Wallet
