import Komenci.WalletBatch

/-! Which batches `decodeExecuteTransactions` recovers: those whose slices start
and end where the contract's do. -/
namespace Komenci.Wallet
open HexText DecimalText AbiWords

/-- The inputs the decoder hands over for a batch. -/
def batchInputs (as : List Text) (txs : List Call) : BatchInputs :=
  ⟨as, (txs.map Call.value).map BN.mk, txs.flatMap Call.data, txs.map lengthBN⟩

/-- The children the code reads from a batch, whatever the addresses look like. -/
def batchChildren (as : List Text) (txs : List Call) : List RawTransaction :=
  childrenFrom (batchInputs as txs) [] (txs.map fun t => (⟨t.value⟩, lengthBN t))

lemma decodeExecuteTransactions_batch {decodeData : InputDataDecoder} (hd : Faithful decodeData)
    {calldata : Bytes} {txs : List Call} (hb : decodeBatchCall calldata = some (batchOf txs))
    (tx : RawTransaction) (ht : parseHex tx.data = some calldata) :
    ∃ as, as.map normalizeAddress = txs.map (fun t => toHex t.destination.val) ∧
      decodeExecuteTransactions decodeData tx = .ok (.ok (batchChildren as txs)) := by
  obtain ⟨as, hdec, has⟩ := hd.executeTransactions tx.data calldata _ ht hb
  have hlengths : (batchOf txs).dataLengths.map BN.mk = txs.map lengthBN := by
    simp [batchOf, lengthBN]
  have hzip : ((txs.map Call.value).map BN.mk).zip (txs.map lengthBN) =
      txs.map fun t => (⟨t.value⟩, lengthBN t) := by
    simp [List.zip_map', Function.comp_def]
  have hchildren := decodeChildren_eq (batchInputs as txs) [] _ (txs.map lengthBN) rfl
    (by simp [batchInputs])
  refine ⟨as, by simpa [batchOf, Function.comp_def] using has, ?_⟩
  rw [hlengths] at hdec
  rw [decodeExecuteTransactions_of_decoded (batchInputs as txs) hdec]
  have h := hchildren.trans (congrArg (fun l => Except.ok (childrenFrom _ [] l)) hzip)
  exact congrArg (Except.map Except.ok) h

lemma getElem?_of_map {as : List Text} {txs pre post : List Call} {t : Call}
    (h : as.map normalizeAddress = txs.map fun t => toHex t.destination.val)
    (ht : txs = pre ++ t :: post) :
    ∃ d, as[pre.length]? = some d ∧ normalizeAddress d = toHex t.destination.val := by
  have hm := congrArg (·[pre.length]?) h
  simpa [ht, Option.map_eq_some_iff] using hm

/-- A child is recovered exactly when its slice is. -/
lemma recovers_childAt_iff {as : List Text} {txs pre post : List Call} {t : Call}
    (h : as.map normalizeAddress = txs.map fun t => toHex t.destination.val)
    (ht : txs = pre ++ t :: post) :
    Recovers t (childAt (batchInputs as txs) ([] ++ pre.map lengthBN) ⟨t.value⟩ (lengthBN t)) ↔
      sliceAt (txs.flatMap Call.data) (pre.map fun u => u.data.length) t.data.length = t.data := by
  obtain ⟨d, hd, hn⟩ := getElem?_of_map h ht
  have hl : (pre.map lengthBN).map BN.toNat = pre.map fun u => u.data.length := by
    simp [lengthBN]
  simp only [batchInputs, List.nil_append, childAt_eq, Recovers, List.length_map, hd, hl,
    BN.toString, toHex_injective.eq_iff, true_and]
  exact and_iff_right ⟨d, rfl, hn⟩

/-- The entry after the first non-empty one is cut too long once more data follows. -/
lemma sliceAt_ne_of_later {zs post : List Call} {f g : Call}
    (hz : ∀ n ∈ zs.map fun u => u.data.length, n = 0) (hf : f.data.length ≠ 0)
    (hpost : ¬ ∀ n ∈ post.map fun u => u.data.length, n = 0) :
    sliceAt ((zs ++ f :: g :: post).flatMap Call.data) ((zs ++ [f]).map fun u => u.data.length)
      g.data.length ≠ g.data := by
  intro h
  have hstart : concat ((zs ++ [f]).map fun u => u.data.length) = f.data.length := by
    simp [concat_zeros_append hz]
  have hstop : 10 * f.data.length + g.data.length ≤
      concat ((zs ++ [f]).map (fun u => u.data.length) ++ [g.data.length]) := by
    simp only [List.map_append, List.append_assoc, concat_zeros_append hz, List.map_cons,
      List.map_nil, List.cons_append, List.nil_append]
    exact concat_two_cons _ _ []
  have hsum : (post.map fun u => u.data.length).sum ≠ 0 := by
    simpa [List.sum_eq_zero_iff] using hpost
  have hdata := flatMap_data_length (zs ++ f :: g :: post)
  simp only [List.map_append, List.sum_append, List.map_cons, List.sum_cons,
    List.sum_eq_zero hz] at hdata
  have hlen := congrArg List.length h
  rw [sliceAt, List.length_drop, List.length_take, hstart, hdata] at hlen
  omega

lemma exists_split_of_not_onlyNextNonzero {txs : List Call}
    (h : ¬ OnlyNextNonzero (txs.map fun t => t.data.length)) :
    ∃ zs f g post, txs = zs ++ f :: g :: post ∧ (∀ n ∈ zs.map fun u => u.data.length, n = 0) ∧
      f.data.length ≠ 0 ∧ ¬ ∀ n ∈ post.map fun u => u.data.length, n = 0 := by
  induction txs with
  | nil => exact absurd (by decide) h
  | cons t txs ih =>
    by_cases ht : t.data.length = 0
    · have hrest : ¬ OnlyNextNonzero (txs.map fun t => t.data.length) := by
        simpa [OnlyNextNonzero, ht] using h
      obtain ⟨zs, f, g, post, rfl, hz, hf, hpost⟩ := ih hrest
      exact ⟨t :: zs, f, g, post, rfl, by simpa [ht] using hz, hf, hpost⟩
    · cases txs with
      | nil => exact absurd (by simp [OnlyNextNonzero, ht]) h
      | cons u txs =>
        exact ⟨[], t, u, txs, rfl, by simp, ht, by simpa [OnlyNextNonzero, ht] using h⟩

/-- All slices are right exactly for lengths of the recoverable kind. -/
theorem forall_sliceAt_iff (txs : List Call) :
    (∀ pre t post, txs = pre ++ t :: post →
      sliceAt (txs.flatMap Call.data) (pre.map fun u => u.data.length) t.data.length = t.data) ↔
      OnlyNextNonzero (txs.map fun t => t.data.length) := by
  constructor
  · intro h
    by_contra hne
    obtain ⟨zs, f, g, post, rfl, hz, hf, hpost⟩ := exists_split_of_not_onlyNextNonzero hne
    exact sliceAt_ne_of_later hz hf hpost (h (zs ++ [f]) g post (by simp))
  · rintro h pre t post rfl
    exact sliceAt_of_onlyNextNonzero h

/-- A batch comes back from its call data exactly when, after its first non-empty
call data, only the next one may be non-empty as well. -/
theorem decodeExecuteTransactions_recovers_iff (decodeData : InputDataDecoder)
    (hd : Faithful decodeData) (txs : List Call) (hfits : (batchOf txs).Fits)
    (tx : RawTransaction) (ht : parseHex tx.data = some (encodeBatchCall (batchOf txs))) :
    (∃ children, decodeExecuteTransactions decodeData tx = .ok (.ok children) ∧
      List.Forall₂ Recovers txs children) ↔
      OnlyNextNonzero (txs.map fun t => t.data.length) := by
  obtain ⟨as, has, hdec⟩ :=
    decodeExecuteTransactions_batch hd (decodeBatchCall_encode _ hfits) tx ht
  rw [← forall_sliceAt_iff]
  simp only [hdec, Except.ok.injEq, exists_eq_left', batchChildren, forall₂_childrenFrom]
  refine forall_congr' fun pre => forall_congr' fun t => forall_congr' fun post =>
    forall_congr' fun hsplit => ?_
  exact recovers_childAt_iff has hsplit

def address (b : Byte) : Address := ⟨List.replicate 20 b, rfl⟩

/-- The raw transaction that asks `to_` for a batch. -/
def batchTransaction (to_ : Address) (txs : List Call) : RawTransaction :=
  ⟨some (toHex to_.val), decimal 0, toHex (encodeBatchCall (batchOf txs))⟩

theorem decodeExecuteTransactions_recovers_two :
    ∃ children, decodeExecuteTransactions contractDecoder
      (batchTransaction (address 1) [⟨address 2, 7, [1, 2, 3]⟩, ⟨address 3, 0, [4, 5]⟩]) =
        .ok (.ok children) ∧
      List.Forall₂ Recovers [⟨address 2, 7, [1, 2, 3]⟩, ⟨address 3, 0, [4, 5]⟩] children :=
  (decodeExecuteTransactions_recovers_iff contractDecoder contractDecoder_faithful _ (by decide +kernel) _
    (parseHex_toHex _)).mpr (by decide)

/-- Three calls with one byte each: the second slice runs from 1 to 11. -/
theorem decodeExecuteTransactions_three_bytes :
    ¬ ∃ children, decodeExecuteTransactions contractDecoder (batchTransaction (address 1)
      [⟨address 2, 0, [1]⟩, ⟨address 2, 0, [2]⟩, ⟨address 2, 0, [3]⟩]) = .ok (.ok children) ∧
      List.Forall₂ Recovers
        [⟨address 2, 0, [1]⟩, ⟨address 2, 0, [2]⟩, ⟨address 2, 0, [3]⟩] children := by
  rintro ⟨children, hdec, hrec⟩
  have heval : decodeExecuteTransactions contractDecoder (batchTransaction (address 1)
      [⟨address 2, 0, [1]⟩, ⟨address 2, 0, [2]⟩, ⟨address 2, 0, [3]⟩]) =
        .ok (.ok ([toHex [1], toHex [2, 3], toHex []].map fun data =>
          ⟨some (toHex (address 2).val), decimal 0, data⟩)) := by decide +kernel
  rw [heval] at hdec
  cases hdec
  simp only [List.map_cons, List.forall₂_cons] at hrec
  exact absurd (toHex_injective hrec.2.1.2.2) (by decide)

end Komenci.Wallet
