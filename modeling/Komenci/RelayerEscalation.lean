import Komenci.RelayerSteps

/-! How a chain of dead letters raises the price of a nonce. -/
namespace Komenci.Relayer
open DecimalText

lemma toFixed_of_nonneg {q : ℚ} (hq : 0 ≤ q) : toFixed q = ⌊q + 1 / 2⌋ := if_pos hq

/-- From two wei on the rounded prices differ by a tenth when the exact ones do by two fifths. -/
lemma toFixed_bump {p q : ℚ} (hp : 2 ≤ p) (hq : p * (7 / 5) ≤ q) :
    11 * toFixed p ≤ 10 * toFixed q := by
  rw [toFixed_of_nonneg (by linarith), toFixed_of_nonneg (by linarith)]
  have hle : (⌊p + 1 / 2⌋ : ℚ) ≤ p + 1 / 2 := Int.floor_le _
  have hlt : q + 1 / 2 < ⌊q + 1 / 2⌋ + 1 := Int.lt_floor_add_one _
  have htwo : 2 ≤ ⌊p + 1 / 2⌋ := Int.le_floor.mpr (by push_cast; linarith)
  rcases le_or_gt 4 ⌊p + 1 / 2⌋ with hfour | hsmall
  · have hcast : (4 : ℚ) ≤ ⌊p + 1 / 2⌋ := by exact_mod_cast hfour
    have hbump : (11 * ⌊p + 1 / 2⌋ : ℚ) < 10 * ⌊q + 1 / 2⌋ + 1 := by linarith
    have hbump' : 11 * ⌊p + 1 / 2⌋ < 10 * ⌊q + 1 / 2⌋ + 1 := by exact_mod_cast hbump
    omega
  -- Below four the two values that are left lie on the right side of a half.
  · have hcases : ⌊p + 1 / 2⌋ = 2 ∨ ⌊p + 1 / 2⌋ = 3 := by omega
    rcases hcases with hfloor | hfloor
    · have hthree : 3 ≤ ⌊q + 1 / 2⌋ := Int.le_floor.mpr (by push_cast; linarith)
      omega
    · rw [hfloor] at hle
      have hfour : 4 ≤ ⌊q + 1 / 2⌋ := Int.le_floor.mpr (by push_cast at hle ⊢; linarith)
      omega

variable {P ι : Type} [DecidableEq P] {cfg : AppConfig} {policy : Policy P ι}

/-- A hash with what is cached of it. -/
abbrev Entry (P : Type) := Tx P × TxCachedData

/-- A call of `deadLetter` replaces an entry by another. Its last try takes up the service's
price in one state and caches in a later one. -/
inductive Link (cfg : AppConfig) (policy : Policy P ι) (gasPrice : ℚ) (a b : Entry P) : Prop
  | mk {tries g tx s s' t t'} : s.service.gasPrice = gasPrice →
      deadLetter cfg policy s ⟨a.1, some a.2, tx⟩ (.ready tries) .resume =
        some (s', .send tries g b.1) →
      deadLetter cfg policy t ⟨a.1, some a.2, tx⟩ (.replied tries g b.1 .accept) .resume =
        some (t', .finished) →
      t'.service.transactions b.1 = some b.2 → Link cfg policy gasPrice a b

/-- Dead letters one after the other, each with the service's price at its own time. -/
inductive Escalation (cfg : AppConfig) (policy : Policy P ι) (a : Entry P) :
    List ℚ → Entry P → Prop
  | refl : Escalation cfg policy a [] a
  | snoc {gasPrices gasPrice b c} : Escalation cfg policy a gasPrices b →
      Link cfg policy gasPrice b c → Escalation cfg policy a (gasPrices ++ [gasPrice]) c

/-- What one dead letter sends and caches. -/
lemma Link.spec {gasPrice : ℚ} {a b : Entry P} (h : Link cfg policy gasPrice a b) :
    b.1.nonce = a.2.nonce ∧ b.1.gasPrice = toFixed b.2.gasPrice ∧ b.2.nonce = a.2.nonce ∧
      b.2.gasPrice = max (a.2.gasPrice * (7 / 5)) gasPrice ∧ b.2.expireIn = a.2.expireIn * 2 := by
  obtain ⟨rfl, hsend, hcache, hentry⟩ := h
  simp only [deadLetter, Option.some.injEq, Prod.mk.injEq, LetterPhase.send.injEq, true_and] at hsend
  obtain ⟨-, rfl, htx⟩ := hsend
  simp only [deadLetter, Option.some.injEq, Prod.mk.injEq, and_true] at hcache
  subst hcache
  simp only [Service.watchTransaction, Function.update_self, Option.some.injEq] at hentry
  rw [← hentry, ← htx]
  exact ⟨rfl, rfl, rfl, rfl, rfl⟩

/-- What a chain keeps, raises and doubles. -/
lemma Escalation.spec {gasPrices : List ℚ} {a b : Entry P}
    (h : Escalation cfg policy a gasPrices b) :
    b.2.nonce = a.2.nonce ∧ (7 / 5) ^ gasPrices.length * a.2.gasPrice ≤ b.2.gasPrice ∧
      b.2.expireIn = 2 ^ gasPrices.length * a.2.expireIn := by
  induction h with
  | refl => simp
  | @snoc gasPrices gasPrice b c _ hlink ih =>
    obtain ⟨hnonce, hprice, hexpire⟩ := ih
    obtain ⟨-, -, hnonce', hprice', hexpire'⟩ := hlink.spec
    refine ⟨hnonce'.trans hnonce, ?_, ?_⟩
    · calc (7 / 5) ^ (gasPrices ++ [gasPrice]).length * a.2.gasPrice
          = (7 / 5) ^ gasPrices.length * a.2.gasPrice * (7 / 5) := by
            rw [List.length_append, List.length_singleton, pow_succ]
            ring
        _ ≤ b.2.gasPrice * (7 / 5) := by gcongr
        _ ≤ c.2.gasPrice := hprice' ▸ le_max_left _ _
    · rw [hexpire', hexpire, List.length_append, List.length_singleton, pow_succ]
      ring

/-- Every dead letter of a chain keeps the nonce, multiplies the first price by 1.4 for each
link and is not below the service's, doubles the expiry for each link, and sends a price
that is a tenth above the rounded one it replaces. -/
theorem dead_letter_escalates (cfg : AppConfig) (policy : Policy P ι) (a b c : Entry P)
    (gasPrices : List ℚ) (gasPrice : ℚ) (hstart : 2 ≤ a.2.gasPrice)
    (hchain : Escalation cfg policy a gasPrices b) (hlink : Link cfg policy gasPrice b c) :
    (c.1.nonce = a.2.nonce ∧ c.2.nonce = a.2.nonce) ∧
      (7 / 5) ^ (gasPrices.length + 1) * a.2.gasPrice ≤ c.2.gasPrice ∧ gasPrice ≤ c.2.gasPrice ∧
      c.2.expireIn = 2 ^ (gasPrices.length + 1) * a.2.expireIn ∧
      c.1.gasPrice = toFixed c.2.gasPrice ∧ 11 * toFixed b.2.gasPrice ≤ 10 * c.1.gasPrice := by
  obtain ⟨hnonce, hprice, hexpire⟩ := (hchain.snoc hlink).spec
  obtain ⟨hsent, hfixed, hkept, hmax, -⟩ := hlink.spec
  obtain ⟨-, hbefore, -⟩ := hchain.spec
  have htwo : 2 ≤ b.2.gasPrice := by
    have hone : (1 : ℚ) ≤ (7 / 5) ^ gasPrices.length := one_le_pow₀ (by norm_num)
    calc (2 : ℚ) ≤ a.2.gasPrice := hstart
      _ ≤ (7 / 5) ^ gasPrices.length * a.2.gasPrice := le_mul_of_one_le_left (by linarith) hone
      _ ≤ b.2.gasPrice := hbefore
  simp only [List.length_append, List.length_singleton] at hprice hexpire
  refine ⟨⟨hsent.trans (hkept.symm.trans hnonce), hnonce⟩, hprice, ?_, hexpire, hfixed, ?_⟩
  · rw [hmax]
    exact le_max_right _ _
  · rw [hfixed, hmax]
    exact toFixed_bump htwo (le_max_left _ _)

/-- A dead letter that the node accepts is a link, whatever the states it runs in. -/
lemma Link.of_accept (cfg : AppConfig) (policy : Policy P ι) (a : Entry P) {gasPrice : ℚ}
    {s : Shared P ι} (t : Shared P ι) (hprice : s.service.gasPrice = gasPrice) :
    Link cfg policy gasPrice a
      (⟨a.2.nonce, toFixed (max (a.2.gasPrice * (7 / 5)) gasPrice), .deadLetter⟩,
        ⟨a.2.nonce, max (a.2.gasPrice * (7 / 5)) gasPrice, t.clock, a.2.expireIn * 2⟩) := by
  subst hprice
  exact @Link.mk P ι _ cfg policy _ a _ 1 _ .pending s s t _ rfl rfl rfl
    (by simp [Service.watchTransaction])

/-- Two dead letters of a transaction sent for three wei, with a lower price in force. -/
theorem dead_letter_escalates_small :
    ∃ b c : Entry ℕ,
      Escalation sampleConfig (Policy.standard : Policy ℕ ℕ)
        (⟨0, 3, .payload 0⟩, ⟨0, 5 / 2, 0, 60000⟩) [1] b ∧
      Link sampleConfig (Policy.standard : Policy ℕ ℕ) 1 b c ∧
      b.1.gasPrice = 4 ∧ c.1.gasPrice = 5 ∧ c.2.expireIn = 240000 ∧
      11 * toFixed b.2.gasPrice ≤ 10 * c.1.gasPrice := by
  have hprice : (sample.shared.updateGasPrice sampleConfig (some (1 / 5))).service.gasPrice = 1 := by
    decide +kernel
  have hfirst := Link.of_accept sampleConfig (Policy.standard : Policy ℕ ℕ)
    (⟨0, 3, .payload 0⟩, ⟨0, 5 / 2, 0, 60000⟩) sample.shared hprice
  have hsecond := fun b => Link.of_accept sampleConfig (Policy.standard : Policy ℕ ℕ) b
    sample.shared hprice
  refine ⟨_, _, Escalation.refl.snoc hfirst, hsecond _, by decide +kernel, by decide +kernel, rfl,
    ?_⟩
  exact (dead_letter_escalates sampleConfig Policy.standard _ _ _ _ _ (by norm_num)
    (Escalation.refl.snoc hfirst) (hsecond _)).2.2.2.2.2

end Komenci.Relayer
