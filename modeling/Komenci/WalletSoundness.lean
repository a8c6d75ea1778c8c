import Komenci.WalletRecovery

/-! Soundness of the method filter: which shapes of transactions it lets through
only if every call the wallet makes is registered. -/
namespace Komenci.Wallet
open HexText DecimalText AbiWords

/-- The filter knows the selector of the call at its destination. -/
def MethodFilter.Allowed (F : MethodFilter) (c : Call) : Prop :=
  ∃ s, c.selector = some s ∧ F.Registered c.destination s

instance (F : MethodFilter) (c : Call) : Decidable (F.Allowed c) :=
  decidable_of_iff (c.selector.any fun s => F.Registered c.destination s)
    (by simp [MethodFilter.Allowed, Option.any_eq_true])

lemma Call.selector_eq_some_iff (c : Call) (s : Selector) :
    c.selector = some s ↔ c.data.take 4 = s.val := by
  have hs := s.property
  by_cases h : (c.data.take 4).length = 4
  · simp [selector, h, Subtype.ext_iff]
  · simp only [selector, h, dite_false, reduceCtorEq, false_iff]
    exact fun he => h (he ▸ hs)

lemma MethodFilter.Allowed.length_le {F : MethodFilter} {c : Call} (h : F.Allowed c) :
    4 ≤ c.data.length := by
  obtain ⟨s, hs, -⟩ := h
  have hl := congrArg List.length ((c.selector_eq_some_iff s).mp hs)
  rw [List.length_take, s.property] at hl
  omega

/-- The filter finds a decoded child exactly when the call read there is allowed. -/
lemma MethodFilter.find_iff (F : MethodFilter) (value : Text) {d : Text} {c : Call}
    (hd : normalizeAddress d = toHex c.destination.val) :
    (∃ t, F.find ⟨some d, value, toHex c.data⟩ = .ok (some t)) ↔ F.Allowed c := by
  constructor
  · rintro ⟨t, ht⟩
    obtain ⟨a, s, ha, hs, hr⟩ := find_eq_some ht
    obtain rfl : a = c.destination := Subtype.ext (toHex_injective (ha.symm.trans hd))
    exact ⟨s, (c.selector_eq_some_iff s).mpr hs, hr⟩
  · rintro ⟨s, hs, hr⟩
    exact find_of_registered hd ((c.selector_eq_some_iff s).mp hs) hr

/-- What a transaction asks the wallet for: one call, or a batch with these lengths
of call data. -/
inductive CallShape
  | single
  | batch (lengths : List ℕ)
  deriving DecidableEq, Repr

def shapeOf (w : Address) (tx : RawTransaction) : Option CallShape := do
  let calldata ← parseHex tx.data
  let call ← decodeMetaCall calldata
  if call.destination = w ∧ call.data.take 4 = executeTransactionsId.val then
    (decodeBatchCall call.data).map fun b => .batch b.dataLengths
  else some .single

def performedBy (w : Address) (tx : RawTransaction) : Option (List Call) :=
  (parseHex tx.data).bind (performed w)

/-- Whatever the filter, a transaction of the shape that is let through has only
registered calls. -/
def Sound (decodeData : InputDataDecoder) (shape : CallShape) : Prop :=
  ∀ (defaultFilter F : MethodFilter) (w : Address) (wallet : Text) (tx : RawTransaction)
    (methods : List TransactionWithMetadata) (calls : List Call),
    account wallet = toHex w.val → shapeOf w tx = some shape →
    parse ⟨decodeData, defaultFilter⟩ tx wallet (some F) = .ok (.ok methods) →
    performedBy w tx = some calls → ∀ c ∈ calls, F.Allowed c

/-- At most two calls, or the slice of the first or of the last is too short for a
selector, so that the batch is refused. -/
def CallShape.Harmless : CallShape → Prop
  | .single => True
  | .batch lengths => lengths.length ≤ 2 ∨ lengths.headI < 4 ∨
      lengths.sum < concat lengths.dropLast + 4

/-- The call data of the batch is no longer than a word can tell. -/
def CallShape.Encodable : CallShape → Prop
  | .single => True
  | .batch lengths => 96 * lengths.length + lengths.sum + 1024 ≤ 256 ^ 32

/-- The children `parse` checks against the calls the wallet makes. -/
lemma getChildren_of_performed {decodeData : InputDataDecoder} (hd : Faithful decodeData)
    (defaultFilter : MethodFilter) {w : Address} {wallet : Text} {tx : RawTransaction}
    {calls : List Call} (hw : account wallet = toHex w.val)
    (hp : performedBy w tx = some calls) :
    (∃ c child, calls = [c] ∧ Recovers c child ∧
      getChildren ⟨decodeData, defaultFilter⟩ tx (contractAddress wallet) = .ok (.ok [child])) ∨
    (shapeOf w tx = some (.batch (calls.map fun t => t.data.length)) ∧
      ∃ as, as.map normalizeAddress = calls.map (fun t => toHex t.destination.val) ∧
        getChildren ⟨decodeData, defaultFilter⟩ tx (contractAddress wallet) =
          .ok (.ok (batchChildren as calls))) := by
  obtain ⟨calldata, ht, hp⟩ := Option.bind_eq_some_iff.mp hp
  obtain ⟨call, hcall, hp⟩ := Option.bind_eq_some_iff.mp hp
  obtain ⟨a, v, r, s, hdec, ha⟩ := hd.executeMetaTransaction tx.data calldata call ht hcall
  have hchild := decodeExecuteMetaTransaction_of_decoded hdec
  have haddress := (normalizeAddress_contractAddress wallet).trans hw
  have hto := isCallTo_toHex (BN.toString ⟨call.value⟩) call.data executeTransactionsId ha haddress
  by_cases hself : call.destination = w ∧ call.data.take 4 = executeTransactionsId.val
  · rw [if_pos hself] at hp
    obtain ⟨b, hb, hexec⟩ := Option.bind_eq_some_iff.mp hp
    obtain rfl := (executeTransactions_eq_some_iff b calls).mp hexec
    obtain ⟨as, has, hbatch⟩ := decodeExecuteTransactions_batch hd hb
      ⟨some a, BN.toString ⟨call.value⟩, toHex call.data⟩ (parseHex_toHex _)
    refine .inr ⟨by simp [shapeOf, ht, hcall, hself, hb, batchOf], as, has, ?_⟩
    simp [getChildren, hchild, hto, hself, hbatch]
  · rw [if_neg hself] at hp
    obtain rfl := Option.some.inj hp
    refine .inl ⟨call, ⟨some a, BN.toString ⟨call.value⟩, toHex call.data⟩, rfl,
      ⟨⟨a, rfl, ha⟩, rfl, rfl⟩, ?_⟩
    simp [getChildren, hchild, hto, hself]

lemma forall₂_right {α β : Type*} {P : β → Prop} {l : List α} {m : List β}
    (hl : l.length = m.length) : List.Forall₂ (fun _ b => P b) l m ↔ ∀ b ∈ m, P b := by
  induction l generalizing m with
  | nil =>
    obtain rfl := List.length_eq_zero_iff.mp hl.symm
    simp
  | cons a l ih =>
    cases m with
    | nil => simp at hl
    | cons b m => simp [ih (by simpa using hl)]

/-- The children of a batch pass when each call with the data read for it is allowed. -/
lemma forall_find_batchChildren_iff (F : MethodFilter) {as : List Text} {txs : List Call}
    (has : as.map normalizeAddress = txs.map fun t => toHex t.destination.val) :
    (∀ child ∈ batchChildren as txs, ∃ m, F.find child = .ok (some m)) ↔
      ∀ pre t post, txs = pre ++ t :: post → F.Allowed { t with
        data := sliceAt (txs.flatMap Call.data) (pre.map fun u => u.data.length)
          t.data.length } := by
  rw [← forall₂_right (l := txs) (by simp [batchChildren, childrenFrom_length]), batchChildren,
    forall₂_childrenFrom]
  refine forall_congr' fun pre => forall_congr' fun t => forall_congr' fun post =>
    forall_congr' fun ht => ?_
  obtain ⟨d, hd, hn⟩ := getElem?_of_map has ht
  have hl : (pre.map lengthBN).map BN.toNat = pre.map fun u => u.data.length := by
    simp [lengthBN]
  have hfind := F.find_iff (BN.toString ⟨t.value⟩) (d := d) (c := { t with
    data := sliceAt (txs.flatMap Call.data) (pre.map fun u => u.data.length) t.data.length }) hn
  rw [← hfind]
  simp [childAt_eq, batchInputs, hd, hl, lengthBN]

lemma sliceAt_length (data : Bytes) (done : List ℕ) (l : ℕ) :
    (sliceAt data done l).length = min (concat (done ++ [l])) data.length - concat done := by
  simp [sliceAt]

/-- The slices that pass the filter are those of the contract, or the batch does not pass. -/
lemma allowed_of_slices {F : MethodFilter} {txs : List Call}
    (hh : (CallShape.batch (txs.map fun t => t.data.length)).Harmless)
    (h : ∀ pre t post, txs = pre ++ t :: post → F.Allowed { t with
      data := sliceAt (txs.flatMap Call.data) (pre.map fun u => u.data.length) t.data.length }) :
    ∀ c ∈ txs, F.Allowed c := by
  rcases hh with hshort | hfirst | hlast
  · have honly : OnlyNextNonzero (txs.map fun t => t.data.length) := by
      have hle := ((txs.map fun t => t.data.length).dropWhile_suffix (· = 0)).length_le
      have hnil : ((txs.map fun t => t.data.length).dropWhile (· = 0)).drop 2 = [] := by
        rw [List.drop_eq_nil_iff]
        omega
      simp only [OnlyNextNonzero, hnil, List.not_mem_nil, false_imp_iff, implies_true]
    intro c hc
    obtain ⟨pre, post, rfl⟩ := List.append_of_mem hc
    have hc' := h pre c post rfl
    rwa [sliceAt_of_onlyNextNonzero honly] at hc'
  · cases txs with
    | nil => simp
    | cons t txs =>
      have hl := (h [] t txs rfl).length_le
      simp only [List.map_cons, List.headI] at hfirst
      simp only [List.map_nil, sliceAt_length, List.nil_append, concat_singleton,
        concat_nil] at hl
      omega
  · rcases List.eq_nil_or_concat' txs with rfl | ⟨pre, t, rfl⟩
    · simp
    · have hl := (h pre t [] (by simp)).length_le
      have hdata := flatMap_data_length (pre ++ [t])
      simp only [List.map_append, List.map_cons, List.map_nil, List.dropLast_concat]
        at hlast hdata
      rw [sliceAt_length, hdata] at hl
      omega

/-- Transactions of a harmless shape are filtered soundly. -/
lemma Sound.of_harmless {decodeData : InputDataDecoder} (hd : Faithful decodeData)
    {shape : CallShape} (hh : shape.Harmless) : Sound decodeData shape := by
  intro defaultFilter F w wallet tx methods calls hw hshape hparse hperf
  obtain ⟨-, children, hchildren, hfind⟩ := parse_ok hparse
  rcases getChildren_of_performed hd defaultFilter hw hperf with
    ⟨c, child, rfl, ⟨⟨d, hdest, hn⟩, hvalue, hdata⟩, hget⟩ | ⟨hbatch, as, has, hget⟩
  · rw [hget] at hchildren
    cases hchildren
    have hc := hfind child (by simp)
    have hchild : child = ⟨some d, decimal c.value, toHex c.data⟩ := by
      rw [← hdest, ← hvalue, ← hdata]
    rw [hchild, F.find_iff _ hn] at hc
    simpa using hc
  · rw [hget] at hchildren
    cases hchildren
    obtain rfl := Option.some.inj (hshape.symm.trans hbatch)
    exact allowed_of_slices hh ((forall_find_batchChildren_iff F has).mp hfind)

end Komenci.Wallet
