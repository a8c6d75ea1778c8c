import Komenci.WalletSoundness

/-! Batches that evade the filter. Every slice the code reads starts with a
registered selector, while the calls the wallet makes start elsewhere. -/
namespace Komenci.Wallet
open HexText DecimalText AbiWords

/-- Position `q` holds part of a selector the code reads. -/
def Covered (lengths : List ℕ) (q : ℕ) : Prop :=
  ∃ i < lengths.length, concat (lengths.take i) ≤ q ∧ q < concat (lengths.take i) + 4

instance (lengths : List ℕ) (q : ℕ) : Decidable (Covered lengths q) :=
  inferInstanceAs (Decidable (∃ i < lengths.length, _))

/-- Zeros where the code reads selectors, and nowhere else. -/
def decoyData (lengths : List ℕ) : Bytes :=
  (List.range lengths.sum).map fun q => if Covered lengths q then 0 else 1

def decoyCalls (a : Address) (lengths : List ℕ) : List Call :=
  (lengths.splitLengths (decoyData lengths)).map fun data => ⟨a, 0, data⟩

@[simp] lemma decoyData_length (lengths : List ℕ) : (decoyData lengths).length = lengths.sum := by
  simp [decoyData]

lemma decoyCalls_lengths (a : Address) (lengths : List ℕ) :
    (decoyCalls a lengths).map (fun t => t.data.length) = lengths := by
  simpa [decoyCalls, Function.comp_def] using
    List.map_splitLengths_length (decoyData lengths) lengths (by simp)

lemma decoyCalls_data (a : Address) (lengths : List ℕ) :
    (decoyCalls a lengths).flatMap Call.data = decoyData lengths := by
  simpa [decoyCalls, List.flatMap_map, List.flatMap_def, Function.comp_def] using
    List.flatten_splitLengths (decoyData lengths) lengths (by simp)

lemma decoyCalls_destination {a : Address} {lengths : List ℕ} {c : Call}
    (h : c ∈ decoyCalls a lengths) : c.destination = a := by
  obtain ⟨data, -, rfl⟩ := List.mem_map.mp h
  rfl

def zeroSelector : Selector := ⟨[0, 0, 0, 0], rfl⟩

lemma decoyData_selector {pre post : List ℕ} {l : ℕ}
    (h : concat pre + 4 ≤ (pre ++ l :: post).sum) :
    ((decoyData (pre ++ l :: post)).drop (concat pre)).take 4 = zeroSelector.val := by
  have hlen : (((decoyData (pre ++ l :: post)).drop (concat pre)).take 4).length = 4 := by
    rw [List.length_take, List.length_drop, decoyData_length]
    omega
  refine List.ext_getElem (hlen.trans zeroSelector.property.symm) fun k hk _ => ?_
  have hk4 : k < 4 := by omega
  have hcov : Covered (pre ++ l :: post) (concat pre + k) :=
    ⟨pre.length, by simp, by simp, by simp; omega⟩
  change _ = (List.replicate 4 (0 : Byte))[k]
  rw [List.getElem_replicate]
  simp [decoyData, hcov]

/-- Each of the code's offsets leaves room for four bytes, in the slice and in the data. -/
lemma concat_room {pre post : List ℕ} {l : ℕ} (hfirst : 4 ≤ (pre ++ l :: post).headI)
    (hlast : concat (pre ++ l :: post).dropLast + 4 ≤ (pre ++ l :: post).sum) :
    concat pre + 4 ≤ concat (pre ++ [l]) ∧ concat pre + 4 ≤ (pre ++ l :: post).sum := by
  have hpre : concat pre ≤ concat (pre ++ l :: post).dropLast := by
    rw [List.dropLast_append_of_ne_nil (by simp)]
    exact concat_le_append _ _
  refine ⟨?_, by omega⟩
  cases pre with
  | nil => simpa using hfirst
  | cons n pre =>
    have hn : n ≤ concat (n :: pre) := by simpa using concat_le_append [n] pre
    have hshift := ten_mul_concat_le (n :: pre) l
    simp only [List.cons_append, List.headI] at hfirst hshift ⊢
    omega

/-- What the code reads of the decoy is a registered selector each time. -/
lemma decoyCalls_slices {F : MethodFilter} {a : Address} {lengths : List ℕ}
    (hF : F.Registered a zeroSelector) (hfirst : 4 ≤ lengths.headI)
    (hlast : concat lengths.dropLast + 4 ≤ lengths.sum) {pre post : List Call} {t : Call}
    (ht : decoyCalls a lengths = pre ++ t :: post) :
    F.Allowed { t with
      data := sliceAt ((decoyCalls a lengths).flatMap Call.data)
        (pre.map fun u => u.data.length) t.data.length } := by
  have hl := decoyCalls_lengths a lengths
  have hmem : t ∈ decoyCalls a lengths := by simp [ht]
  have hdest := decoyCalls_destination hmem
  rw [decoyCalls_data]
  rw [ht, List.map_append, List.map_cons] at hl
  generalize pre.map (fun u => u.data.length) = done at hl ⊢
  subst hl
  obtain ⟨hslice, hdata⟩ := concat_room hfirst hlast
  have hsel : (sliceAt (decoyData (done ++ t.data.length :: post.map fun u => u.data.length)) done
      t.data.length).take 4 = zeroSelector.val := by
    rw [sliceAt, List.drop_take, List.take_take, min_eq_left (by omega), decoyData_selector hdata]
  exact ⟨zeroSelector, (Call.selector_eq_some_iff _ _).mpr hsel, hdest ▸ hF⟩

/-- No selector of the code covers the last byte of the third call's selector. -/
lemma not_covered_third {l₀ l₁ : ℕ} (l₂ : ℕ) (rest : List ℕ) (h₀ : 4 ≤ l₀) (h₁ : l₁ ≠ 0) :
    ¬ Covered (l₀ :: l₁ :: l₂ :: rest) (l₀ + l₁ + 3) := by
  rintro ⟨i, -, hle, hlt⟩
  cases i with
  | zero =>
    simp only [List.take_zero, concat_nil] at hlt
    omega
  | succ i =>
    cases i with
    | zero =>
      simp only [zero_add, List.take_succ_cons, List.take_zero, concat_singleton] at hlt
      omega
    | succ i =>
      have hbig := concat_two_cons l₀ l₁ ((l₂ :: rest).take i)
      simp only [List.take_succ_cons] at hle
      omega

/-- The second or the third call of the decoy is not the one the filter knows. -/
lemma decoyCalls_not_allowed {F : MethodFilter} {a : Address} {l₀ l₁ l₂ : ℕ} {rest : List ℕ}
    (hF : ∀ s, F.Registered a s → s = zeroSelector) (h₀ : 4 ≤ l₀) :
    ∃ c ∈ decoyCalls a (l₀ :: l₁ :: l₂ :: rest), ¬ F.Allowed c := by
  by_contra hall
  push Not at hall
  simp only [decoyCalls, List.splitLengths_cons, List.map_cons, List.forall_mem_cons] at hall
  obtain ⟨-, h1, h2, -⟩ := hall
  have hl1 := h1.length_le
  have hl2 := h2.length_le
  simp only [List.length_take, List.length_drop, decoyData_length] at hl1 hl2
  obtain ⟨s, hs, hreg⟩ := h2
  obtain rfl := hF s hreg
  rw [Call.selector_eq_some_iff] at hs
  have hget := congrArg (·[3]?) hs
  have hcov := not_covered_third l₂ rest h₀ (show l₁ ≠ 0 by omega)
  have hlt : l₀ + l₁ + 3 < (l₀ :: l₁ :: l₂ :: rest).sum := by
    simp only [List.sum_cons]
    omega
  have hlast : zeroSelector.val[3]? = some 0 := rfl
  simp only [List.drop_drop, List.take_take, hlast] at hget
  rw [List.getElem?_take_of_lt (by omega), List.getElem?_drop, decoyData, List.getElem?_map,
    List.getElem?_range hlt, Option.map_some, if_neg hcov] at hget
  exact absurd hget (by decide)

/-- A wrapper at `a` whose methods are selectors. -/
def wrapperAt (a : Address) : BaseWrapper Selector where
  address := toHex a.val
  methodIds := methodIdText
  methodName _ := "method"
  address_spelled := toHex_spelled a
  methodIds_spelled s := ⟨s, normalizeMethodId_methodIdText s⟩

lemma registered_wrapperAt_iff (name : String) (a b : Address) (selectors : List Selector)
    (s : Selector) :
    (MethodFilter.empty.addContract name (wrapperAt a) selectors).Registered b s ↔
      a = b ∧ s ∈ selectors := by
  have hempty : ¬ MethodFilter.empty.Registered b s := by
    simp [MethodFilter.registered_iff, MethodFilter.empty]
  simp only [MethodFilter.registered_addContract, hempty, or_false, wrapperAt,
    normalizeAddress_toHex, normalizeMethodId_methodIdText, toHex_injective.eq_iff,
    ← Subtype.ext_iff]
  constructor
  · rintro ⟨m, hm, ha, rfl⟩
    exact ⟨ha, hm⟩
  · rintro ⟨ha, hm⟩
    exact ⟨s, hm, ha, rfl⟩

/-- The meta-transaction by which the wallet at `w` performs a batch. -/
def metaTransaction (w : Address) (txs : List Call) : RawTransaction :=
  ⟨some (toHex w.val), decimal 0,
    toHex (encodeMetaCall ⟨w, 0, encodeBatchCall (batchOf txs)⟩)⟩

lemma encodeBatchCall_length (txs : List Call) :
    (encodeBatchCall (batchOf txs)).length ≤
      4 + 128 + 4 * 32 + 96 * txs.length + (txs.map fun t => t.data.length).sum + 31 := by
  have hwords : ∀ {α : Type} (f : α → Bytes) (hf : ∀ a, (f a).length = 32) (l : List α),
      ((l.map f).flatten).length = 32 * l.length := fun f hf l => by
    simpa using flatten_length (words_map_sized f hf l)
  have hsel : executeTransactionsId.val.length = 4 := rfl
  have hdata := flatMap_data_length txs
  simp only [encodeBatchCall, encode, List.length_append,
    heads_length _ _ (batchValues_sized (batchOf txs)), hsel]
  simp only [batchValues, batchOf, tail, pad, List.flatMap_cons, List.flatMap_nil,
    List.length_append, ofNat_length, hwords _ addressWord_length, hwords _ (ofNat_length 32),
    List.length_map, List.length_cons, List.length_nil, List.length_replicate, hdata]
  omega

lemma encode_metaValues_length (c : Call) :
    (encode (metaValues c)).length ≤ 6 * 32 + 32 + c.data.length + 31 := by
  simp only [encode, List.length_append, heads_length _ _ (metaValues_sized c)]
  simp only [metaValues, tail, pad, List.flatMap_cons, List.flatMap_nil, List.length_append,
    List.length_nil, ofNat_length, List.length_cons, List.length_replicate]
  omega

section MetaTransaction
variable {txs : List Call} (hv : ∀ t ∈ txs, t.value = 0)
  (he : (CallShape.batch (txs.map fun t => t.data.length)).Encodable)
include hv he

lemma batchOf_fits : (batchOf txs).Fits := by
  have hlen := encodeBatchCall_length txs
  simp only [CallShape.Encodable, List.length_map] at he
  refine ⟨?_, ?_, ?_⟩
  · intro v hm
    obtain ⟨t, ht, rfl⟩ := List.mem_map.mp hm
    rw [hv t ht]
    positivity
  · intro l hl
    have hle := List.le_sum_of_mem hl
    simp only [batchOf] at hle
    omega
  · simp only [encodeBatchCall, List.length_append] at hlen
    omega

omit hv in
lemma decode_metaTransaction (w : Address) :
    decodeMetaCall (encodeMetaCall ⟨w, 0, encodeBatchCall (batchOf txs)⟩) =
      some ⟨w, 0, encodeBatchCall (batchOf txs)⟩ := by
  have hlen := encodeBatchCall_length txs
  have hmeta := encode_metaValues_length ⟨w, 0, encodeBatchCall (batchOf txs)⟩
  simp only [CallShape.Encodable, List.length_map] at he
  simp only at hmeta
  exact decodeMetaCall_encode _ (by positivity) (by omega)

lemma shapeOf_metaTransaction (w : Address) :
    shapeOf w (metaTransaction w txs) = some (.batch (txs.map fun t => t.data.length)) := by
  have hsel : (encodeBatchCall (batchOf txs)).take 4 = executeTransactionsId.val :=
    List.take_left' rfl
  simp [shapeOf, metaTransaction, decode_metaTransaction he,
    decodeBatchCall_encode _ (batchOf_fits hv he), hsel]
  rfl

lemma performedBy_metaTransaction (w : Address) :
    performedBy w (metaTransaction w txs) = some txs := by
  have hsel : (encodeBatchCall (batchOf txs)).take 4 = executeTransactionsId.val :=
    List.take_left' rfl
  have hexec := (executeTransactions_eq_some_iff (batchOf txs) txs).mpr rfl
  simp [performedBy, performed, metaTransaction, decode_metaTransaction he,
    decodeBatchCall_encode _ (batchOf_fits hv he), hsel, hexec]

end MetaTransaction

lemma isCallTo_metaTransaction (w : Address) (txs : List Call) :
    isCallTo (metaTransaction w txs) (contractAddress (toHex w.val)) executeMetaTransactionId =
      .ok true := by
  have hsel : (encodeMetaCall ⟨w, 0, encodeBatchCall (batchOf txs)⟩).take 4 =
      executeMetaTransactionId.val := List.take_left' rfl
  have h := isCallTo_toHex (decimal 0) (encodeMetaCall ⟨w, 0, encodeBatchCall (batchOf txs)⟩)
    executeMetaTransactionId (normalizeAddress_toHex w.val)
    ((normalizeAddress_contractAddress (toHex w.val)).trans (account_toHex w))
  simpa [metaTransaction, hsel] using h

lemma exists_cons_cons_cons {l : List ℕ} (h : 2 < l.length) :
    ∃ a b c r, l = a :: b :: c :: r := by
  match l, h with
  | a :: b :: c :: r, _ => exact ⟨a, b, c, r, rfl⟩

/-- The decoy of a harmful shape is let through. -/
lemma not_sound_of_not_harmless {decodeData : InputDataDecoder} (hd : Faithful decodeData)
    {lengths : List ℕ} (he : (CallShape.batch lengths).Encodable)
    (hh : ¬ (CallShape.batch lengths).Harmless) : ¬ Sound decodeData (.batch lengths) := by
  intro hsound
  simp only [CallShape.Harmless, not_or, not_le, not_lt] at hh
  obtain ⟨hlen, hfirst, hlast⟩ := hh
  obtain ⟨l₀, l₁, l₂, rest, rfl⟩ := exists_cons_cons_cons hlen
  have hl := decoyCalls_lengths (address 2) (l₀ :: l₁ :: l₂ :: rest)
  have hv : ∀ t ∈ decoyCalls (address 2) (l₀ :: l₁ :: l₂ :: rest), t.value = 0 := by
    simp [decoyCalls]
  have he' := he
  rw [← hl] at he'
  have hreg := registered_wrapperAt_iff "contract" (address 2) (address 2) [zeroSelector]
  have hperf := performedBy_metaTransaction hv he' (address 1)
  have hshape := shapeOf_metaTransaction hv he' (address 1)
  rw [hl] at hshape
  rcases getChildren_of_performed hd MethodFilter.empty (account_toHex (address 1))
    hperf with ⟨c, child, hone, -⟩ | ⟨-, as, has, hget⟩
  · rw [hone] at hl
    simp only [← hl, List.length_map, List.length_singleton] at hlen
    omega
  · obtain ⟨methods, hparse⟩ := parse_of_children (isCallTo_metaTransaction _ _) hget
      ((forall_find_batchChildren_iff _ has).mpr fun pre t post ht =>
        decoyCalls_slices ((hreg zeroSelector).mpr ⟨rfl, by simp⟩) hfirst hlast ht)
    have hall := hsound _ _ _ _ _ _ _ (account_toHex _) hshape hparse hperf
    obtain ⟨c, hc, hnot⟩ := decoyCalls_not_allowed
      (fun s hs => by simpa using ((hreg s).mp hs).2) hfirst
    exact hnot (hall c hc)

/-- The filter is sound for a shape exactly when the shape is harmless. -/
theorem parse_sound_iff (decodeData : InputDataDecoder) (hd : Faithful decodeData)
    (shape : CallShape) (he : shape.Encodable) :
    Sound decodeData shape ↔ shape.Harmless := by
  refine ⟨fun h => ?_, Sound.of_harmless hd⟩
  cases shape with
  | single => trivial
  | batch lengths => exact by_contra fun hh => not_sound_of_not_harmless hd he hh h

theorem parse_sound_iff_of_two :
    Sound contractDecoder (.batch [4, 4]) ↔ (CallShape.batch [4, 4]).Harmless :=
  parse_sound_iff contractDecoder contractDecoder_faithful (.batch [4, 4])
    (by simp [CallShape.Encodable])

/-- Three calls, whose selectors the code reads at 0, 4 and 44 where the contract
reads them at 0, 4 and 8. -/
def smuggled : List Call :=
  [⟨address 2, 0, [1, 1, 1, 1]⟩, ⟨address 2, 0, [2, 2, 2, 2]⟩,
    ⟨address 2, 0, [6, 6, 6, 6] ++ List.replicate 32 0 ++ [3, 3, 3, 3]⟩]

def smuggledFilter : MethodFilter :=
  MethodFilter.empty.addContract "Attestations" (wrapperAt (address 2))
    [⟨[1, 1, 1, 1], rfl⟩, ⟨[2, 2, 2, 2], rfl⟩, ⟨[3, 3, 3, 3], rfl⟩]

theorem parse_smuggled :
    ∃ methods, parse ⟨contractDecoder, MethodFilter.empty⟩ (metaTransaction (address 1) smuggled)
      (toHex (address 1).val) (some smuggledFilter) = .ok (.ok methods) ∧
      performedBy (address 1) (metaTransaction (address 1) smuggled) = some smuggled ∧
      ¬ ∀ c ∈ smuggled, smuggledFilter.Allowed c := by
  refine ⟨[[1, 1, 1, 1], [2, 2, 2, 2] ++ [6, 6, 6, 6] ++ List.replicate 32 0, [3, 3, 3, 3]].map
    fun data => ⟨⟨some (toHex (address 2).val), decimal 0, toHex data⟩, toHex (data.take 4),
      "method", "Attestations"⟩, ?_, ?_, ?_⟩
  all_goals decide +kernel

end Komenci.Wallet
