import Mathlib

/-! JavaScript values as they go over the wire in JSON, and codecs that check the type of what
has arrived. A codec that is met by a value is met by what is left of it on the wire. -/
namespace JsonCodec

/-- A value without functions and cycles. An object lists its keys, an array its length. -/
inductive Value
  | undefined
  | null
  | bool (b : Bool)
  | number (q : ℚ)
  | string (s : String)
  | array (length : ℕ) (item : ℕ → Value)
  | object (keys : List String) (get : String → Value)

namespace Value

def isUndefined : Value → Bool
  | undefined => true
  | _ => false

/-- The value in a condition. -/
def truthy : Value → Bool
  | undefined | null => false
  | bool b => b
  | number q => q ≠ 0
  | string s => s ≠ ""
  | _ => true

/-- The property of an object, `undefined` where it has none. -/
def property (key : String) : Value → Value
  | object keys get => if key ∈ keys then get key else undefined
  | _ => undefined

/-- The read of a property. It throws where there is nothing to read it of. -/
def read (key : String) : Value → Option Value
  | undefined | null => none
  | v => some (v.property key)

lemma read_eq_none_iff {key : String} {v : Value} :
    v.read key = none ↔ v = null ∨ v = undefined := by
  cases v <;> simp [read]

def asString : Value → Option String
  | string s => some s
  | _ => none

def asNumber : Value → Option ℚ
  | number q => some q
  | _ => none

@[simp] lemma asString_string (s : String) : (string s).asString = some s := rfl

@[simp] lemma asNumber_number (q : ℚ) : (number q).asNumber = some q := rfl

/-- The object with these fields. -/
def ofFields (fields : List (String × Value)) : Value :=
  object (fields.map Prod.fst) fun key => (fields.lookup key).getD undefined

/-- What `JSON.parse` makes of what `JSON.stringify` has written: a property that is `undefined`
is left out, an item that is `undefined` is `null`. -/
def wire : Value → Value
  | array length item => array length fun i => if (item i).isUndefined then null else (item i).wire
  | object keys get => object (keys.filter fun key => !(get key).isUndefined) fun key => (get key).wire
  | v => v

@[simp] lemma wire_string (s : String) : (string s).wire = string s := rfl

@[simp] lemma wire_number (q : ℚ) : (number q).wire = number q := rfl

@[simp] lemma wire_undefined : undefined.wire = undefined := rfl

@[simp] lemma isUndefined_wire (v : Value) : v.wire.isUndefined = v.isUndefined := by
  cases v <;> rfl

lemma eq_undefined_of_isUndefined {v : Value} (h : v.isUndefined = true) : v = undefined := by
  cases v <;> first | rfl | cases h

/-- A property survives on the wire. -/
@[simp] lemma property_wire (key : String) (v : Value) :
    v.wire.property key = (v.property key).wire := by
  cases v with
  | object keys get =>
    by_cases hkey : key ∈ keys
    · by_cases hundefined : (get key).isUndefined = true
      · simp [wire, property, hkey, eq_undefined_of_isUndefined hundefined]
      · simp [wire, property, hkey, hundefined]
    · simp [wire, property, hkey]
  | _ => rfl

/-- Only a text is a text on the wire. -/
@[simp] lemma wire_eq_string {v : Value} {s : String} : v.wire = string s ↔ v = string s := by
  cases v <;> simp [wire]

@[simp] lemma asString_wire (v : Value) : v.wire.asString = v.asString := by cases v <;> rfl

@[simp] lemma asNumber_wire (v : Value) : v.wire.asNumber = v.asNumber := by cases v <;> rfl

/-- A property of an object that is written out. -/
lemma property_ofFields (fields : List (String × Value)) (key : String) :
    (ofFields fields).property key = (fields.lookup key).getD undefined := by
  by_cases hkey : key ∈ fields.map Prod.fst
  · simp [ofFields, property, hkey]
  · have hnone : fields.lookup key = none := by
      refine List.lookup_eq_none_iff.mpr fun p hp => ?_
      have hne : key ≠ p.1 := fun h => hkey (h ▸ List.mem_map_of_mem hp)
      simpa using hne
    simp [ofFields, property, hkey, hnone]

/-- A property of an object of which only some keys are left. -/
lemma property_filter (p : String → Bool) (keys : List String) (get : String → Value)
    (key : String) : (object (keys.filter p) get).property key =
      if p key then (object keys get).property key else undefined := by
  by_cases hkey : key ∈ keys <;> by_cases hp : p key = true <;> simp [property, hkey, hp]

end Value

open Value

/-- Whether a value is of the codec's type. Decoding returns the value itself. -/
abbrev Codec := Value → Bool

namespace Codec

def unknown : Codec := fun _ => true

def undefined : Codec
  | .undefined => true
  | _ => false

def null : Codec
  | .null => true
  | _ => false

def string : Codec
  | .string _ => true
  | _ => false

def number : Codec
  | .number _ => true
  | _ => false

def literal (text : String) : Codec
  | .string s => s = text
  | _ => false

def type (props : List (String × Codec)) : Codec
  | .object keys get => props.all fun p => p.2 ((Value.object keys get).property p.1)
  | _ => false

def union (codecs : List Codec) : Codec := fun v => codecs.any fun c => c v

/-- The keys are texts. -/
def record (codomain : Codec) : Codec
  | .object keys get => keys.all fun key => codomain (get key)
  | _ => false

def decode (c : Codec) (v : Value) : Option Value := if c v then some v else none

/-- What meets the codec meets it on the wire. -/
def Stable (c : Codec) : Prop := ∀ v, c v = true → c v.wire = true

lemma string_iff {v : Value} : string v = true ↔ ∃ s, v = .string s := by
  cases v <;> simp [string]

/-- An object meets the codec property by property. -/
lemma type_object {props : List (String × Codec)} {keys : List String} {get : String → Value} :
    type props (.object keys get) = true ↔
      ∀ p ∈ props, p.2 ((Value.object keys get).property p.1) = true := List.all_eq_true

@[simp] lemma stable_unknown : Stable unknown := fun _ _ => rfl

/-- A codec that no array or object meets. -/
lemma stable_of_flat {c : Codec} (harray : ∀ length item, c (.array length item) = false)
    (hobject : ∀ keys get, c (.object keys get) = false) : Stable c := by
  intro v h
  cases v with
  | array length item => simp [harray] at h
  | object keys get => simp [hobject] at h
  | _ => exact h

@[simp] lemma stable_undefined : Stable undefined := stable_of_flat (fun _ _ => rfl) fun _ _ => rfl

@[simp] lemma stable_null : Stable null := stable_of_flat (fun _ _ => rfl) fun _ _ => rfl

@[simp] lemma stable_string : Stable string := stable_of_flat (fun _ _ => rfl) fun _ _ => rfl

@[simp] lemma stable_number : Stable number := stable_of_flat (fun _ _ => rfl) fun _ _ => rfl

@[simp] lemma stable_literal (text : String) : Stable (literal text) :=
  stable_of_flat (fun _ _ => rfl) fun _ _ => rfl

@[simp] lemma stable_type {props : List (String × Codec)} (h : ∀ p ∈ props, Stable p.2) :
    Stable (type props) := by
  intro v hv
  cases v with
  | object keys get =>
    refine List.all_eq_true.mpr fun p hp => ?_
    have hwire := property_wire p.1 (Value.object keys get)
    simp only [wire] at hwire
    rw [hwire]
    exact h p hp _ (List.all_eq_true.mp hv p hp)
  | _ => cases hv

@[simp] lemma stable_union {codecs : List Codec} (h : ∀ c ∈ codecs, Stable c) : Stable (union codecs) := by
  intro v hv
  obtain ⟨c, hc, hcv⟩ := List.any_eq_true.mp hv
  exact List.any_eq_true.mpr ⟨c, hc, h c hc v hcv⟩

@[simp] lemma stable_record {codomain : Codec} (h : Stable codomain) : Stable (record codomain) := by
  intro v hv
  cases v with
  | object keys get =>
    refine List.all_eq_true.mpr fun key hkey => ?_
    exact h _ (List.all_eq_true.mp hv key (List.mem_of_mem_filter hkey))
  | _ => cases hv

end Codec

/-- A field that is left out reads as `undefined`, before and after. -/
example : Codec.type [("token", Codec.string), ("url", Codec.union [Codec.undefined, Codec.string])]
    (ofFields [("token", .string "t"), ("url", .undefined)]).wire = true := rfl

end JsonCodec
