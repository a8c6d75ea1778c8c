import Mathlib

/-! Bytes and their text in hexadecimal. A text is a list of characters. -/
namespace Komenci.HexText

abbrev Text := List Char
abbrev Byte := Fin 256
abbrev Bytes := List Byte

instance byte_neZero : NeZero (256 : ℕ) := ⟨by decide⟩

def hexDigit (n : ℕ) : Char := Nat.digitChar n

def hexByte (b : Byte) : Text := [hexDigit (b.val / 16), hexDigit (b.val % 16)]

/-- Lower-case text of a byte string, two digits a byte. -/
def toHex (bs : Bytes) : Text := bs.flatMap hexByte

def digitValue (c : Char) : Option ℕ :=
  if '0' ≤ c ∧ c ≤ '9' then some (c.toNat - 48)
  else if 'a' ≤ c ∧ c ≤ 'f' then some (c.toNat - 87)
  else if 'A' ≤ c ∧ c ≤ 'F' then some (c.toNat - 55)
  else none

/-- Reads two digits a byte, of either case. -/
def parseDigits : Text → Option Bytes
  | [] => some []
  | [_] => none
  | c :: d :: rest => do
      let hi ← digitValue c
      let lo ← digitValue d
      let bs ← parseDigits rest
      some (Fin.ofNat 256 (16 * hi + lo) :: bs)

def trimLeading0x : Text → Text
  | '0' :: 'x' :: rest => rest
  | t => t

lemma trimLeading0x_cases (t : Text) :
    trimLeading0x t = t ∨ ∃ rest, t = '0' :: 'x' :: rest := by
  unfold trimLeading0x
  split
  · exact .inr ⟨_, rfl⟩
  · exact .inl rfl

def toLowerCase (t : Text) : Text := t.map Char.toLower

/-- The bytes a hex text stands for, with or without its prefix. -/
def parseHex (t : Text) : Option Bytes := parseDigits (trimLeading0x t)

@[simp] lemma toHex_nil : toHex [] = [] := rfl

@[simp] lemma toHex_cons (b : Byte) (bs : Bytes) :
    toHex (b :: bs) = hexDigit (b.val / 16) :: hexDigit (b.val % 16) :: toHex bs := rfl

@[simp] lemma toHex_append (as bs : Bytes) : toHex (as ++ bs) = toHex as ++ toHex bs := by
  simp [toHex]

@[simp] lemma toHex_length (bs : Bytes) : (toHex bs).length = 2 * bs.length := by
  induction bs with
  | nil => rfl
  | cons b bs ih => simp [ih]; omega

/-- Two digits of text are one byte of the string. -/
lemma toHex_take (bs : Bytes) (n : ℕ) : (toHex bs).take (2 * n) = toHex (bs.take n) := by
  induction bs generalizing n with
  | nil => simp
  | cons b bs ih =>
    cases n with
    | zero => rfl
    | succ n => simp [Nat.mul_add, ih]

lemma digitValue_hexDigit : ∀ n : Fin 16, digitValue (hexDigit n.val) = some n.val := by decide

lemma hexDigit_toLower : ∀ n : Fin 16, (hexDigit n.val).toLower = hexDigit n.val := by decide

lemma hexDigit_ne_x : ∀ n : Fin 16, hexDigit n.val ≠ 'x' := by decide

lemma hexDigit_ne_colon : ∀ n : Fin 16, hexDigit n.val ≠ ':' := by decide

lemma hi_lt (b : Byte) : b.val / 16 < 16 := by omega

lemma lo_lt (b : Byte) : b.val % 16 < 16 := by omega

@[simp] lemma trimLeading0x_toHex (bs : Bytes) : trimLeading0x (toHex bs) = toHex bs := by
  cases bs with
  | nil => rfl
  | cons b bs =>
    have hx := hexDigit_ne_x ⟨b.val % 16, lo_lt b⟩
    rw [toHex_cons, trimLeading0x]
    intro rest h
    simp only [List.cons.injEq] at h
    exact hx h.2.1

@[simp] lemma toLowerCase_toHex (bs : Bytes) : toLowerCase (toHex bs) = toHex bs := by
  induction bs with
  | nil => rfl
  | cons b bs ih =>
    simp only [toLowerCase] at ih
    simp [toLowerCase, ih, hexDigit_toLower ⟨b.val / 16, hi_lt b⟩,
      hexDigit_toLower ⟨b.val % 16, lo_lt b⟩]

@[simp] lemma parseDigits_toHex (bs : Bytes) : parseDigits (toHex bs) = some bs := by
  induction bs with
  | nil => rfl
  | cons b bs ih =>
    have hb : Fin.ofNat 256 (16 * (b.val / 16) + b.val % 16) = b := by
      ext
      simp only [Fin.val_ofNat]
      omega
    have hhi := digitValue_hexDigit ⟨b.val / 16, hi_lt b⟩
    have hlo := digitValue_hexDigit ⟨b.val % 16, lo_lt b⟩
    simp only [toHex_cons, parseDigits, hhi, hlo, ih, Option.bind_eq_bind, Option.bind_some, hb]

@[simp] lemma parseHex_toHex (bs : Bytes) : parseHex (toHex bs) = some bs := by
  simp [parseHex]

lemma toHex_injective : Function.Injective toHex := by
  intro as bs h
  simpa using congrArg parseDigits h

lemma digitValue_spec {c : Char} {n : ℕ} (h : digitValue c = some n) :
    n < 16 ∧ c.toLower = hexDigit n := by
  have hc : c = Char.ofNat c.toNat := (Char.ofNat_toNat c).symm
  have hrange : 48 ≤ c.toNat ∧ c.toNat ≤ 57 ∧ n = c.toNat - 48 ∨
      97 ≤ c.toNat ∧ c.toNat ≤ 102 ∧ n = c.toNat - 87 ∨
      65 ≤ c.toNat ∧ c.toNat ≤ 70 ∧ n = c.toNat - 55 := by
    unfold digitValue at h
    split_ifs at h with hdigit hlower hupper
    · exact .inl ⟨hdigit.1, hdigit.2, (Option.some.inj h).symm⟩
    · exact .inr (.inl ⟨hlower.1, hlower.2, (Option.some.inj h).symm⟩)
    · exact .inr (.inr ⟨hupper.1, hupper.2, (Option.some.inj h).symm⟩)
  generalize c.toNat = m at hc hrange
  subst hc
  rcases hrange with ⟨hle, hge, rfl⟩ | ⟨hle, hge, rfl⟩ | ⟨hle, hge, rfl⟩ <;>
    interval_cases m <;> decide

/-- Digits of either case spell their bytes. -/
lemma toLowerCase_of_parseDigits {t : Text} {bs : Bytes} (h : parseDigits t = some bs) :
    toLowerCase t = toHex bs := by
  induction t using parseDigits.induct generalizing bs with
  | case1 =>
    cases h
    rfl
  | case2 => cases h
  | case3 c d rest ih =>
    simp only [parseDigits, Option.bind_eq_bind, Option.bind_eq_some_iff] at h
    obtain ⟨hi, hhi, lo, hlo, bs, hbs, h⟩ := h
    cases h
    obtain ⟨hhi16, hc⟩ := digitValue_spec hhi
    obtain ⟨hlo16, hd⟩ := digitValue_spec hlo
    have hval : (Fin.ofNat 256 (16 * hi + lo)).val = 16 * hi + lo :=
      Nat.mod_eq_of_lt (by omega)
    have hdiv : (16 * hi + lo) / 16 = hi := by omega
    have hmod : (16 * hi + lo) % 16 = lo := by omega
    have hrest : List.map Char.toLower rest = toHex bs := ih hbs
    simp only [toLowerCase, List.map_cons, toHex_cons, hval, hdiv, hmod, hc, hd, hrest]

lemma digitValue_of_upper : ∀ m : Fin 26, ∀ n : Fin 16,
    (Char.ofNat (65 + m.val)).toLower = hexDigit n.val →
      digitValue (Char.ofNat (65 + m.val)) = some n.val := by decide

lemma digitValue_of_toLower {c : Char} {n : ℕ} (hn : n < 16) (h : c.toLower = hexDigit n) :
    digitValue c = some n := by
  by_cases hupper : c.isUpper = true
  · have hc : c = Char.ofNat c.toNat := (Char.ofNat_toNat c).symm
    have hrange : 65 ≤ c.toNat ∧ c.toNat ≤ 90 := by
      simpa [Char.isUpper, UInt32.le_iff_toNat_le] using hupper
    obtain ⟨m, hm⟩ := Nat.exists_eq_add_of_le hrange.1
    rw [hc, hm] at h ⊢
    exact digitValue_of_upper ⟨m, by omega⟩ ⟨n, hn⟩ h
  · rw [Char.toLower_eq_of_not_isUpper (by simpa using hupper)] at h
    exact h ▸ digitValue_hexDigit ⟨n, hn⟩

lemma parseDigits_of_toLowerCase {t : Text} {bs : Bytes} (h : toLowerCase t = toHex bs) :
    parseDigits t = some bs := by
  induction bs generalizing t with
  | nil =>
    obtain rfl := List.map_eq_nil_iff.mp h
    rfl
  | cons b bs ih =>
    obtain ⟨c, t, rfl, hc, h⟩ := List.map_eq_cons_iff.mp h
    obtain ⟨d, t, rfl, hd, h⟩ := List.map_eq_cons_iff.mp h
    have hb : Fin.ofNat 256 (16 * (b.val / 16) + b.val % 16) = b := by
      ext
      simp only [Fin.val_ofNat]
      omega
    simp only [parseDigits, digitValue_of_toLower (hi_lt b) hc, digitValue_of_toLower (lo_lt b) hd,
      ih h, Option.bind_eq_bind, Option.bind_some, hb]

@[simp] lemma toLowerCase_length (t : Text) : (toLowerCase t).length = t.length := by
  simp [toLowerCase]

lemma toLowerCase_idem (t : Text) : toLowerCase (toLowerCase t) = toLowerCase t := by
  have htoLower : ∀ c : Char, c.toLower.toLower = c.toLower :=
    fun c => Char.toLower_eq_of_not_isUpper (by simp)
  simp [toLowerCase, Function.comp_def, htoLower]

lemma colon_not_mem_toHex (bs : Bytes) : ':' ∉ toHex bs := by
  induction bs with
  | nil => simp
  | cons b bs ih =>
    simp only [toHex_cons, List.mem_cons, not_or]
    exact ⟨(hexDigit_ne_colon ⟨b.val / 16, hi_lt b⟩).symm,
      (hexDigit_ne_colon ⟨b.val % 16, lo_lt b⟩).symm, ih⟩

/-- Big-endian value of a byte string. -/
def toNat (bs : Bytes) : ℕ := bs.foldl (fun a b => 256 * a + b.val) 0

/-- The `k` low bytes of a number, most significant first. -/
def ofNat : ℕ → ℕ → Bytes
  | 0, _ => []
  | k + 1, n => ofNat k (n / 256) ++ [Fin.ofNat 256 n]

@[simp] lemma ofNat_length (k n : ℕ) : (ofNat k n).length = k := by
  induction k generalizing n with
  | zero => rfl
  | succ k ih => simp [ofNat, ih]

lemma toNat_ofNat (k n : ℕ) (h : n < 256 ^ k) : toNat (ofNat k n) = n := by
  induction k generalizing n with
  | zero =>
    have : n = 0 := by simpa using h
    subst this
    rfl
  | succ k ih =>
    have hq : n / 256 < 256 ^ k := Nat.div_lt_of_lt_mul (by rwa [pow_succ'] at h)
    have hi := ih (n / 256) hq
    simp only [toNat] at hi
    simp only [ofNat, toNat, List.foldl_append, hi, List.foldl_cons, List.foldl_nil,
      Fin.val_ofNat]
    omega

end Komenci.HexText
