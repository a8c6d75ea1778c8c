import Komenci.HexText

/-! The head and tail encoding of call arguments in 32-byte words, for the three
layouts that occur: a word, a byte string and an array of words. -/
namespace Komenci.AbiWords
open HexText

inductive Layout
  | word
  | bytes
  | words
  deriving DecidableEq, Repr

inductive Value
  | word (w : Bytes)
  | bytes (b : Bytes)
  | words (ws : List Bytes)
  deriving DecidableEq, Repr

def Value.layout : Value → Layout
  | .word _ => .word
  | .bytes _ => .bytes
  | .words _ => .words

/-- Words are 32 bytes long. -/
def Value.Sized : Value → Prop
  | .word w => w.length = 32
  | .bytes _ => True
  | .words ws => ∀ w ∈ ws, w.length = 32

lemma words_map_sized {α : Type*} (f : α → Bytes) (hf : ∀ a, (f a).length = 32) (l : List α) :
    (Value.words (l.map f)).Sized := by
  intro w hw
  obtain ⟨a, -, rfl⟩ := List.mem_map.mp hw
  exact hf a

def pad (b : Bytes) : Bytes := b ++ List.replicate ((32 - b.length % 32) % 32) 0

def tail : Value → Bytes
  | .word _ => []
  | .bytes b => ofNat 32 b.length ++ pad b
  | .words ws => ofNat 32 ws.length ++ ws.flatten

/-- A word stands in the head; of the others the head holds the offset `o`. -/
def heads : ℕ → List Value → Bytes
  | _, [] => []
  | o, .word w :: vs => w ++ heads o vs
  | o, v :: vs => ofNat 32 o ++ heads (o + (tail v).length) vs

def encode (vs : List Value) : Bytes := heads (32 * vs.length) vs ++ vs.flatMap tail

def splitWords : ℕ → Bytes → List Bytes
  | 0, _ => []
  | n + 1, bs => bs.take 32 :: splitWords n (bs.drop 32)

def readWord (data : Bytes) (p : ℕ) : Option Bytes :=
  let w := (data.drop p).take 32
  if w.length = 32 then some w else none

/-- Reads the value that starts at `o`, failing where it runs past the end. -/
def readTail (data : Bytes) (o : ℕ) : Layout → Option Value
  | .word => none
  | .bytes => do
      let n := toNat (← readWord data o)
      let body := data.drop (o + 32)
      if n ≤ body.length then some (.bytes (body.take n)) else none
  | .words => do
      let n := toNat (← readWord data o)
      let body := data.drop (o + 32)
      if 32 * n ≤ body.length then some (.words (splitWords n body)) else none

def readValue (data : Bytes) (p : ℕ) (l : Layout) : Option Value := do
  let w ← readWord data p
  if l = .word then some (.word w) else readTail data (toNat w) l

def decodeFrom (data : Bytes) : ℕ → List Layout → Option (List Value)
  | _, [] => some []
  | p, l :: ls => do
      let v ← readValue data p l
      let vs ← decodeFrom data (p + 32) ls
      some (v :: vs)

def decode (ls : List Layout) (data : Bytes) : Option (List Value) := decodeFrom data 0 ls

lemma readWord_of_drop {data w rest : Bytes} {p : ℕ} (hw : w.length = 32)
    (h : data.drop p = w ++ rest) : readWord data p = some w := by
  simp [readWord, h, ← hw]

lemma drop_add_of_drop {data w rest : Bytes} {p n : ℕ} (hn : w.length = n)
    (h : data.drop p = w ++ rest) : data.drop (p + n) = rest := by
  rw [← List.drop_drop, h, ← hn, List.drop_left]

lemma splitWords_flatten (ws : List Bytes) (rest : Bytes) (h : ∀ w ∈ ws, w.length = 32) :
    splitWords ws.length (ws.flatten ++ rest) = ws := by
  induction ws with
  | nil => rfl
  | cons w ws ih =>
    have hw : w.length = 32 := h w (by simp)
    have hi := ih fun v hv => h v (by simp [hv])
    simp only [List.length_cons, splitWords, List.flatten_cons, List.append_assoc]
    rw [← hw, List.take_left, List.drop_left, hi]

lemma flatten_length {ws : List Bytes} (h : ∀ w ∈ ws, w.length = 32) :
    ws.flatten.length = 32 * ws.length := by
  induction ws with
  | nil => rfl
  | cons w ws ih =>
    have hw : w.length = 32 := h w (by simp)
    have hi := ih fun v hv => h v (by simp [hv])
    simp only [List.flatten_cons, List.length_append, List.length_cons, hw, hi]
    omega

/-- The tail of a value is read back wherever it starts. -/
lemma readTail_tail {data rest : Bytes} {o : ℕ} {v : Value} (hl : v.layout ≠ .word)
    (hs : v.Sized) (hlen : (tail v).length < 256 ^ 32) (h : data.drop o = tail v ++ rest) :
    readTail data o v.layout = some v := by
  cases v with
  | word w => exact absurd rfl hl
  | bytes b =>
    simp only [tail, pad, List.append_assoc] at h hlen
    have hb : b.length < 256 ^ 32 := by
      simp only [List.length_append] at hlen
      omega
    have hbody := drop_add_of_drop (ofNat_length 32 b.length) h
    simp [Value.layout, readTail, readWord_of_drop (ofNat_length 32 _) h, toNat_ofNat 32 _ hb,
      hbody]
  | words ws =>
    simp only [tail, List.append_assoc] at h hlen
    have hw := flatten_length hs
    have hb : ws.length < 256 ^ 32 := by
      simp only [List.length_append, hw] at hlen
      omega
    have hbody := drop_add_of_drop (ofNat_length 32 ws.length) h
    simp [Value.layout, readTail, readWord_of_drop (ofNat_length 32 _) h, toNat_ofNat 32 _ hb,
      hbody, hw, splitWords_flatten ws rest hs]

/-- Reading from any point where the heads stand, with the tails where they point. -/
lemma decodeFrom_heads {data : Bytes} (vs : List Value) (p o : ℕ) (rest more : Bytes)
    (hs : ∀ v ∈ vs, v.Sized) (hlen : o + (vs.flatMap tail).length < 256 ^ 32)
    (hp : data.drop p = heads o vs ++ rest) (ho : data.drop o = vs.flatMap tail ++ more) :
    decodeFrom data p (vs.map Value.layout) = some vs := by
  induction vs generalizing p o with
  | nil => rfl
  | cons v vs ih =>
    have hsv : v.Sized := hs v (by simp)
    have hsvs : ∀ u ∈ vs, u.Sized := fun u hu => hs u (by simp [hu])
    simp only [List.flatMap_cons, List.length_append, List.append_assoc] at hlen ho
    cases v with
    | word w =>
      simp only [heads, List.append_assoc] at hp
      have hi := ih (p + 32) o hsvs (by omega) (drop_add_of_drop hsv hp) ho
      simp [decodeFrom, readValue, Value.layout, readWord_of_drop hsv hp, hi]
    | bytes b =>
      simp only [heads, List.append_assoc] at hp
      have hi := ih (p + 32) (o + (tail (.bytes b)).length) hsvs (by omega)
        (drop_add_of_drop (ofNat_length 32 o) hp) (drop_add_of_drop rfl ho)
      have ht := readTail_tail (by simp [Value.layout]) hsv (by omega) ho
      simp only [Value.layout] at ht
      simp [decodeFrom, readValue, Value.layout, readWord_of_drop (ofNat_length 32 o) hp,
        toNat_ofNat 32 o (by omega), ht, hi]
    | words ws =>
      simp only [heads, List.append_assoc] at hp
      have hi := ih (p + 32) (o + (tail (.words ws)).length) hsvs (by omega)
        (drop_add_of_drop (ofNat_length 32 o) hp) (drop_add_of_drop rfl ho)
      have ht := readTail_tail (by simp [Value.layout]) hsv (by omega) ho
      simp only [Value.layout] at ht
      simp [decodeFrom, readValue, Value.layout, readWord_of_drop (ofNat_length 32 o) hp,
        toNat_ofNat 32 o (by omega), ht, hi]

lemma heads_length (vs : List Value) (o : ℕ) (hs : ∀ v ∈ vs, v.Sized) :
    (heads o vs).length = 32 * vs.length := by
  induction vs generalizing o with
  | nil => rfl
  | cons v vs ih =>
    have hsv : v.Sized := hs v (by simp)
    have hi := fun o => ih o fun u hu => hs u (by simp [hu])
    cases v with
    | word w =>
      have hw : w.length = 32 := hsv
      simp [heads, hi, hw]
      omega
    | bytes b => simp [heads, hi]; omega
    | words ws => simp [heads, hi]; omega

/-- Decoding undoes encoding, as long as every offset fits in a word. -/
theorem decode_encode (vs : List Value) (hs : ∀ v ∈ vs, v.Sized)
    (hlen : (encode vs).length < 256 ^ 32) :
    decode (vs.map Value.layout) (encode vs) = some vs := by
  have hh := heads_length vs (32 * vs.length) hs
  simp only [encode, List.length_append, hh] at hlen
  refine decodeFrom_heads vs 0 (32 * vs.length) (vs.flatMap tail) [] hs hlen rfl ?_
  rw [List.append_nil]
  exact List.drop_left' hh

end Komenci.AbiWords
