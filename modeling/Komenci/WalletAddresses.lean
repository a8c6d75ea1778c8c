import Komenci.HexText

/-! The spellings of an address: with or without a prefix, with digits of either case. -/
namespace Komenci.Wallet
open HexText

abbrev Address := {a : Bytes // a.length = 20}

def normalizeAddress (a : Text) : Text := toLowerCase (trimLeading0x a)

/-- Forty hex digits of either case. -/
def Digits (t : Text) : Prop := t.length = 40 ∧ ∀ c ∈ t, (digitValue c).isSome

/-- The shapes of the texts that `isAddress` of web3 admits. -/
inductive Spelled : Text → Prop
  | plain {t} : Digits t → Spelled t
  | leading0x {t} : Digits t → Spelled ('0' :: 'x' :: t)
  | leading0X {t} : Digits t → Spelled ('0' :: 'X' :: t)

/-- The address a spelling stands for: the digits, in lower case. -/
def account (t : Text) : Text := toLowerCase (t.drop (t.length - 40))

/-- The spelling begins with `0X`. -/
def UpperPrefix (t : Text) : Prop := ['0', 'X'] <+: t

instance (t : Text) : Decidable (UpperPrefix t) := inferInstanceAs (Decidable (_ <+: _))

variable {a t : Text}

lemma Digits.account_eq {t : Text} (h : Digits t) : account t = toLowerCase t := by
  simp [account, h.1]

lemma Digits.account_prefixed {t : Text} (h : Digits t) (c d : Char) :
    account (c :: d :: t) = toLowerCase t := by
  have hdrop : t.length + 1 + 1 - 40 = 2 := by rw [h.1]
  simp [account, hdrop]

lemma account_length_le (t : Text) : (account t).length ≤ 40 := by
  simp only [account, toLowerCase_length, List.length_drop]
  omega

lemma Digits.trimLeading0x_eq {t : Text} (h : Digits t) : trimLeading0x t = t := by
  unfold trimLeading0x
  split
  · have hx := h.2 'x' (by simp)
    exact absurd hx (by decide)
  · rfl

lemma Digits.not_upperPrefix {t : Text} (h : Digits t) : ¬ UpperPrefix t := by
  rintro ⟨rest, rfl⟩
  exact absurd (h.2 'X' (by simp)) (by decide)

lemma account_toLowerCase (t : Text) : account (toLowerCase t) = account t := by
  have hdrop : ∀ n, (toLowerCase t).drop n = toLowerCase (t.drop n) := by
    intro n
    simp [toLowerCase]
  rw [account, toLowerCase_length, hdrop, toLowerCase_idem, account]

lemma Spelled.length_le (h : Spelled a) : 40 ≤ a.length := by
  cases h with
  | plain h => exact h.1.ge
  | leading0x h | leading0X h => simp [h.1]

/-- What is left without the prefix stands for the address of the spelling. -/
lemma account_trimLeading0x (ha : Spelled a) : account (trimLeading0x a) = account a := by
  cases ha with
  | plain h => rw [h.trimLeading0x_eq]
  | leading0x h => exact h.account_eq.trans (h.account_prefixed _ _).symm
  | leading0X h => rfl

lemma account_normalizeAddress (ha : Spelled a) : account (normalizeAddress a) = account a := by
  rw [normalizeAddress, account_toLowerCase, account_trimLeading0x ha]

/-- A key has the digits alone, unless an upper-case prefix was taken for a digit. -/
lemma normalizeAddress_spelled (ha : Spelled a) :
    (normalizeAddress a = account a ∧ ¬ UpperPrefix a) ∨
      (normalizeAddress a = '0' :: 'x' :: account a ∧ UpperPrefix a) := by
  cases ha with
  | plain h =>
    refine .inl ⟨?_, h.not_upperPrefix⟩
    rw [normalizeAddress, h.trimLeading0x_eq, h.account_eq]
  | leading0x h =>
    refine .inl ⟨(h.account_prefixed _ _).symm, ?_⟩
    simp [UpperPrefix]
  | leading0X h =>
    refine .inr ⟨?_, ⟨_, rfl⟩⟩
    rw [h.account_prefixed]
    rfl

/-- A text that normalises to an address is a spelling of it. -/
lemma account_of_normalizeAddress {w : Address} (h : normalizeAddress t = toHex w.val) :
    account t = toHex w.val := by
  have hlength : (trimLeading0x t).length = 40 := by
    have hl := congrArg List.length h
    rwa [normalizeAddress, toLowerCase_length, toHex_length, w.property] at hl
  have hdrop : t.drop (t.length - 40) = trimLeading0x t := by
    rcases trimLeading0x_cases t with htrim | ⟨rest, rfl⟩
    · rw [htrim] at hlength ⊢
      simp [hlength]
    · have hrest : rest.length = 40 := hlength
      simp [trimLeading0x, hrest]
  rw [account, hdrop]
  exact h

@[simp] lemma normalizeAddress_toHex (bs : Bytes) : normalizeAddress (toHex bs) = toHex bs := by
  simp [normalizeAddress]

lemma toHex_spelled (a : Address) : ∃ b : Address, normalizeAddress (toHex a.val) = toHex b.val :=
  ⟨a, normalizeAddress_toHex a.val⟩

lemma normalizeAddress_account (t : Text) :
    normalizeAddress ('0' :: 'x' :: account t) = account t :=
  toLowerCase_idem _

@[simp] lemma account_toHex (a : Address) : account (toHex a.val) = toHex a.val :=
  account_of_normalizeAddress (normalizeAddress_toHex a.val)

/-- The spelling begins with `0x`. -/
def Prefixed (t : Text) : Prop := ['0', 'x'] <+: t

instance (t : Text) : Decidable (Prefixed t) := inferInstanceAs (Decidable (_ <+: _))

/-- The text of an address, as it is commonly written. -/
def addressText (a : Address) : Text := '0' :: 'x' :: toHex a.val

lemma normalizeAddress_of_parseHex {t : Text} {bs : Bytes} (h : parseHex t = some bs) :
    normalizeAddress t = toHex bs := toLowerCase_of_parseDigits h

/-- A text stands for bytes exactly when it spells them. -/
lemma parseHex_iff {t : Text} {bs : Bytes} : parseHex t = some bs ↔ normalizeAddress t = toHex bs :=
  ⟨normalizeAddress_of_parseHex, parseDigits_of_toLowerCase⟩

def textAddress (t : Text) : Option Address :=
  (parseHex t).bind fun bs => if h : bs.length = 20 then some ⟨bs, h⟩ else none

lemma textAddress_spec {t : Text} {a : Address} (h : textAddress t = some a) :
    normalizeAddress t = toHex a.val := by
  obtain ⟨bs, hbs, h⟩ := Option.bind_eq_some_iff.mp h
  split_ifs at h
  cases h
  exact normalizeAddress_of_parseHex hbs

lemma textAddress_iff {t : Text} {a : Address} :
    textAddress t = some a ↔ normalizeAddress t = toHex a.val := by
  refine ⟨textAddress_spec, fun h => ?_⟩
  simp [textAddress, parseHex_iff.mpr h, a.property]

/-- What web3 says of digits in one case, where it checks no checksum. -/
def isAddressOneCase (t : Text) : Bool :=
  let digits :=
    match t with
    | '0' :: 'x' :: rest => rest
    | '0' :: 'X' :: rest => rest
    | t => t
  digits.length = 40 && digits.all (fun c => (digitValue c).isSome) &&
    (!digits.any Char.isUpper || !digits.any Char.isLower)

lemma isAddressOneCase_spelled (t : Text) (h : isAddressOneCase t = true) : Spelled t := by
  unfold isAddressOneCase at h
  split at h
  all_goals
    simp only [Bool.and_eq_true, decide_eq_true_eq, List.all_eq_true] at h
  · exact .leading0x h.1
  · exact .leading0X h.1
  · exact .plain h.1

end Komenci.Wallet
