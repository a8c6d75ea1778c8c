import Komenci.WalletAddresses
import Komenci.WalletDecodeTxs

/-! Method identifiers and the filter of allowed methods, `core/src/hex.ts` and
`api/src/wallet/method-filter.ts`. -/
namespace Komenci.Wallet
open HexText

def extractMethodId (calldata : Text) : Text := toLowerCase ((trimLeading0x calldata).take 8)

def normalizeMethodId (methodId : Text) : Text := toLowerCase (trimLeading0x methodId)

abbrev Selector := {s : Bytes // s.length = 4}

/-- A contract wrapper with methods `M`: its address and method ids are spellings
of an address and of selectors. -/
structure BaseWrapper (M : Type) where
  address : Text
  methodIds : M → Text
  methodName : M → String
  address_spelled : ∃ a : Address, normalizeAddress address = toHex a.val
  methodIds_spelled : ∀ m, ∃ s : Selector, normalizeMethodId (methodIds m) = toHex s.val

structure Method where
  methodName : String
  contractName : String
  deriving DecidableEq, Repr

structure TransactionWithMetadata where
  raw : RawTransaction
  methodId : Text
  methodName : String
  contractName : String
  deriving DecidableEq, Repr

def buildKey (contractAddress methodId : Text) : Text :=
  normalizeAddress contractAddress ++ ':' :: normalizeMethodId methodId

def keyOf (a : Address) (s : Selector) : Text := toHex a.val ++ ':' :: toHex s.val

/-- The map from keys to methods, the latest entry of a key first. -/
structure MethodFilter where
  methods : List (Text × Method)
  keyed : ∀ e ∈ methods, ∃ a s, e.1 = keyOf a s

namespace MethodFilter

def empty : MethodFilter := ⟨[], by simp⟩

lemma buildKey_wrapper {M : Type} (wrapper : BaseWrapper M) (m : M) :
    ∃ a s, buildKey wrapper.address (wrapper.methodIds m) = keyOf a s := by
  obtain ⟨a, ha⟩ := wrapper.address_spelled
  obtain ⟨s, hs⟩ := wrapper.methodIds_spelled m
  exact ⟨a, s, by rw [buildKey, ha, hs, keyOf]⟩

def addContract {M : Type} (F : MethodFilter) (name : String) (wrapper : BaseWrapper M)
    (methods : List M) : MethodFilter where
  methods := (methods.map fun m => (buildKey wrapper.address (wrapper.methodIds m),
    (⟨wrapper.methodName m, name⟩ : Method))).reverse ++ F.methods
  keyed := by
    intro e he
    rcases List.mem_append.mp he with he | he
    · obtain ⟨m, -, rfl⟩ := List.mem_map.mp (List.mem_reverse.mp he)
      exact buildKey_wrapper wrapper m
    · exact F.keyed e he

/-- `none` is the error of an unknown method. -/
def find (F : MethodFilter) (raw : RawTransaction) :
    Except TypeError (Option TransactionWithMetadata) :=
  match raw.destination with
  | none => .error .typeError
  | some destination =>
    let methodId := extractMethodId raw.data
    .ok ((F.methods.lookup (buildKey destination methodId)).map fun method =>
      ⟨raw, methodId, method.methodName, method.contractName⟩)

/-- The filter knows the selector at the address. -/
def Registered (F : MethodFilter) (a : Address) (s : Selector) : Prop :=
  ∃ method, F.methods.lookup (keyOf a s) = some method

instance (F : MethodFilter) (a : Address) (s : Selector) : Decidable (F.Registered a s) :=
  decidable_of_iff (F.methods.lookup (keyOf a s)).isSome (by simp [Registered, Option.isSome_iff_exists])

end MethodFilter

lemma keyOf_injective {a b : Address} {s r : Selector} (h : keyOf a s = keyOf b r) :
    a = b ∧ s = r := by
  have hk := (List.append_cons_inj_of_notMem (colon_not_mem_toHex a.val)
    (colon_not_mem_toHex s.val)).mp h
  exact ⟨Subtype.ext (toHex_injective hk.1), Subtype.ext (toHex_injective hk.2.2)⟩

@[simp] lemma normalizeMethodId_toHex (bs : Bytes) : normalizeMethodId (toHex bs) = toHex bs := by
  simp [normalizeMethodId]

/-- The method id of call data is the text of its first four bytes. -/
@[simp] lemma extractMethodId_toHex (bs : Bytes) :
    extractMethodId (toHex bs) = toHex (bs.take 4) := by
  rw [extractMethodId, trimLeading0x_toHex, toHex_take bs 4, toLowerCase_toHex]

lemma extractMethodId_of_parseHex {t : Text} {bs : Bytes} (h : parseHex t = some bs) :
    extractMethodId t = toHex (bs.take 4) := by
  have hlower : toLowerCase (trimLeading0x t) = toHex bs := toLowerCase_of_parseDigits h
  rw [extractMethodId, toLowerCase, List.map_take, ← toLowerCase, hlower, toHex_take bs 4]

lemma MethodFilter.registered_of_lookup {F : MethodFilter} {destination : Text} {data : Bytes}
    {method : Method}
    (h : F.methods.lookup (buildKey destination (toHex (data.take 4))) = some method) :
    ∃ (a : Address) (s : Selector), normalizeAddress destination = toHex a.val ∧
      data.take 4 = s.val ∧ F.Registered a s := by
  obtain ⟨l, r, hm, -⟩ := List.lookup_eq_some_iff.mp h
  obtain ⟨a, s, hk⟩ := F.keyed (buildKey destination (toHex (data.take 4)), method) (by simp [hm])
  refine ⟨a, s, ?_, ?_, method, hk ▸ h⟩
  all_goals
    simp only [keyOf, buildKey, normalizeMethodId_toHex] at hk
    have hk := (List.append_cons_inj_of_notMem (colon_not_mem_toHex a.val)
      (colon_not_mem_toHex s.val)).mp hk.symm
  · exact hk.1.symm
  · exact (toHex_injective hk.2.2).symm

/-- A call that is found has four bytes of selector, and the filter knows them. -/
lemma MethodFilter.find_eq_some {F : MethodFilter} {destination value : Text} {data : Bytes}
    {t : TransactionWithMetadata}
    (h : F.find ⟨some destination, value, toHex data⟩ = .ok (some t)) :
    ∃ (a : Address) (s : Selector), normalizeAddress destination = toHex a.val ∧
      data.take 4 = s.val ∧ F.Registered a s := by
  simp only [find, extractMethodId_toHex, Except.ok.injEq, Option.map_eq_some_iff] at h
  obtain ⟨method, hm, -⟩ := h
  exact registered_of_lookup hm

/-- Conversely a call whose selector is registered is found. -/
lemma MethodFilter.find_of_registered {F : MethodFilter} {destination value : Text} {data : Bytes}
    {a : Address} {s : Selector} (ha : normalizeAddress destination = toHex a.val)
    (hs : data.take 4 = s.val) (h : F.Registered a s) :
    ∃ t, F.find ⟨some destination, value, toHex data⟩ = .ok (some t) := by
  obtain ⟨method, hm⟩ := h
  have hk : buildKey destination (toHex (data.take 4)) = keyOf a s := by
    rw [buildKey, normalizeMethodId_toHex, ha, hs, keyOf]
  simp [find, hk, hm]

lemma MethodFilter.registered_iff (F : MethodFilter) (a : Address) (s : Selector) :
    F.Registered a s ↔ ∃ e ∈ F.methods, e.1 = keyOf a s := by
  simp only [Registered, ← Option.isSome_iff_exists, List.lookup_isSome_iff, beq_iff_eq]
  simp only [eq_comm]

/-- Adding a contract registers its listed methods and forgets nothing. -/
theorem MethodFilter.registered_addContract {M : Type} (F : MethodFilter) (name : String)
    (wrapper : BaseWrapper M) (methods : List M) (a : Address) (s : Selector) :
    (F.addContract name wrapper methods).Registered a s ↔
      (∃ m ∈ methods, normalizeAddress wrapper.address = toHex a.val ∧
        normalizeMethodId (wrapper.methodIds m) = toHex s.val) ∨ F.Registered a s := by
  simp only [registered_iff, addContract, List.mem_append, List.mem_reverse, List.mem_map,
    or_and_right, exists_or]
  refine or_congr ⟨?_, ?_⟩ Iff.rfl
  · rintro ⟨_, ⟨m, hm, rfl⟩, he⟩
    obtain ⟨b, hb⟩ := wrapper.address_spelled
    obtain ⟨r, hr⟩ := wrapper.methodIds_spelled m
    have hk : keyOf b r = keyOf a s := by rw [← he, buildKey, hb, hr, keyOf]
    obtain ⟨rfl, rfl⟩ := keyOf_injective hk
    exact ⟨m, hm, hb, hr⟩
  · rintro ⟨m, hm, ha, hs⟩
    exact ⟨_, ⟨m, hm, rfl⟩, by rw [buildKey, ha, hs, keyOf]⟩

end Komenci.Wallet
