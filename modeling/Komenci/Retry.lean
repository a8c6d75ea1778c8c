import Mathlib

/-! The `retry` decorator of the kit and the relayer. Its loop has four exits; which invocation is
the last, and what is called until then, depends on the outcomes of the invocations alone. -/
namespace Komenci.Retry

/-- What the promise of an invocation settles to. -/
inductive Outcome (ρ ε ξ : Type)
  | ok (result : ρ)
  | err (error : ε)
  | rejected (reason : ξ)
  deriving DecidableEq

def Outcome.error {ρ ε ξ : Type} : Outcome ρ ε ξ → Option ε
  | .err error => some error
  | _ => none

/-- `κ` are the callbacks that may be given as `onRetry`. -/
structure RetryOptions (ε τ κ : Type) where
  tries : ℕ
  bailOnErrorTypes : Option (List τ)
  shouldRetry : Option (ε → Bool)
  onRetry : Option κ

/-- What the wrapper calls for its effect. -/
inductive Call (θ α ε κ : Type)
  | actual (this : θ) (args : α)
  | onRetry (callback : κ) (target : θ) (args : α) (error : ε) (attempt : ℕ)
  deriving DecidableEq

def Call.invocation {θ α ε κ : Type} : Call θ α ε κ → Option (θ × α)
  | .actual this args => some (this, args)
  | .onRetry _ _ _ _ _ => none

def Call.retried {θ α ε κ : Type} : Call θ α ε κ → Option (κ × θ × α × ε × ℕ)
  | .actual _ _ => none
  | .onRetry callback target args error attempt => some (callback, target, args, error, attempt)

variable {θ α ρ ε ξ τ κ : Type} [DecidableEq τ]

/-- After this try, which has failed, another one follows. -/
def RetryOptions.again (options : RetryOptions ε τ κ) (errorType : ε → τ) (tries : ℕ) (error : ε) :
    Bool :=
  if tries = options.tries then false
  else if options.bailOnErrorTypes.any fun types => errorType error ∈ types then false
  else if options.shouldRetry.any fun shouldRetry => shouldRetry error = false then false
  else true

/-- The last try that the options allow is the last. -/
lemma RetryOptions.ne_of_again {options : RetryOptions ε τ κ} {errorType : ε → τ} {tries : ℕ}
    {error : ε} (h : options.again errorType tries error = true) : tries ≠ options.tries := by
  rintro rfl
  simp [again] at h

/-- The call of `onRetry`, if there is one. -/
def RetryOptions.notify (options : RetryOptions ε τ κ) (target : θ) (args : α) (error : ε)
    (tries : ℕ) : List (Call θ α ε κ) :=
  match options.onRetry with
  | some callback => [.onRetry callback target args error tries]
  | none => []

/-- The `while` loop from the try `tries` on. The invocation of a try settles to
`actual this args tries`, whatever the method does. -/
def loop (errorType : ε → τ) (options : RetryOptions ε τ κ) (target : θ)
    (actual : θ → α → ℕ → Outcome ρ ε ξ) (this : θ) (args : α) :
    ℕ → ℕ → Option (List (Call θ α ε κ) × Outcome ρ ε ξ)
  | 0, _ => none
  | fuel + 1, tries =>
    match actual this args tries with
    | .rejected reason => some ([.actual this args], .rejected reason)
    | .ok result => some ([.actual this args], .ok result)
    | .err error =>
      let calls := .actual this args :: options.notify target args error tries
      if tries = options.tries then some (calls, .err error)
      else if options.bailOnErrorTypes.any fun types => errorType error ∈ types then
        some (calls, .err error)
      else if options.shouldRetry.any fun shouldRetry => shouldRetry error = false then
        some (calls, .err error)
      else (loop errorType options target actual this args fuel (tries + 1)).map fun r =>
        (calls ++ r.1, r.2)

/-- The method of an instance as the accessor returns it: the wrapper, bound to the instance
whatever receiver it is called with. -/
def get (errorType : ε → τ) (options : RetryOptions ε τ κ) (target : θ)
    (actual : θ → α → ℕ → Outcome ρ ε ξ) (this : θ) (_receiver : θ) (args : α) (fuel : ℕ) :
    Option (List (Call θ α ε κ) × Outcome ρ ε ξ) :=
  loop errorType options target actual this args fuel 1

/-- No try follows the `i`-th, where the outcomes are `r`. -/
def Last (errorType : ε → τ) (options : RetryOptions ε τ κ) (r : ℕ → Outcome ρ ε ξ)
    (i : ℕ) : Prop :=
  (∃ result, r i = .ok result) ∨ (∃ reason, r i = .rejected reason) ∨ i = options.tries ∨
    (∃ error, r i = .err error ∧ ∃ types ∈ options.bailOnErrorTypes, errorType error ∈ types) ∨
    ∃ error, r i = .err error ∧ ∃ shouldRetry ∈ options.shouldRetry, shouldRetry error = false

section Loop
variable {errorType : ε → τ} {options : RetryOptions ε τ κ} {target this : θ} {args : α}
  {actual : θ → α → ℕ → Outcome ρ ε ξ} {fuel tries n i : ℕ} {error : ε}

/-- After a failed try the options decide. -/
lemma last_of_err {r : ℕ → Outcome ρ ε ξ} (h : r i = .err error) :
    Last errorType options r i ↔ i = options.tries ∨
      (options.bailOnErrorTypes.any fun types => errorType error ∈ types) = true ∨
      (options.shouldRetry.any fun shouldRetry => shouldRetry error = false) = true := by
  simp [Last, h, Option.any_eq_true]

/-- The methods of the kit and the relayer go on after exactly the tries that are not the last. -/
theorem again_iff {r : ℕ → Outcome ρ ε ξ} (h : r i = .err error) :
    options.again errorType i error = true ↔ ¬ Last errorType options r i := by
  rw [last_of_err h]
  unfold RetryOptions.again
  split_ifs with htries hbail hretry <;> simp_all

/-- What is called in the `i`-th try. -/
def callsOf (options : RetryOptions ε τ κ) (target : θ) (actual : θ → α → ℕ → Outcome ρ ε ξ)
    (this : θ) (args : α) (i : ℕ) : List (Call θ α ε κ) :=
  .actual this args :: match actual this args i with
    | .err error => options.notify target args error i
    | _ => []

/-- The last try. -/
lemma loop_last (h : Last errorType options (actual this args) tries) :
    loop errorType options target actual this args (fuel + 1) tries =
      some (callsOf options target actual this args tries, actual this args tries) := by
  cases hr : actual this args tries with
  | ok result => simp [loop, callsOf, hr]
  | rejected reason => simp [loop, callsOf, hr]
  | err error =>
    rw [last_of_err hr] at h
    simp only [loop, callsOf, hr]
    split_ifs with htries hbail hretry
    · rfl
    · rfl
    · rfl
    · exact absurd h (by tauto)

/-- A try that another one follows. -/
lemma loop_again (h : ¬ Last errorType options (actual this args) tries) :
    loop errorType options target actual this args (fuel + 1) tries =
      (loop errorType options target actual this args fuel (tries + 1)).map fun r =>
        (callsOf options target actual this args tries ++ r.1, r.2) := by
  cases hr : actual this args tries with
  | ok result => exact absurd (.inl ⟨result, hr⟩) h
  | rejected reason => exact absurd (.inr (.inl ⟨reason, hr⟩)) h
  | err error =>
    rw [last_of_err hr, not_or, not_or] at h
    simp only [loop, callsOf, hr]
    rw [if_neg h.1, if_neg h.2.1, if_neg h.2.2]

/-- With the last try `n` tries ahead, the loop makes those and no more. -/
lemma loop_upTo (hlast : Last errorType options (actual this args) (tries + n))
    (hbefore : ∀ i, tries ≤ i → i < tries + n → ¬ Last errorType options (actual this args) i)
    (hfuel : n < fuel) :
    loop errorType options target actual this args fuel tries =
      some ((List.range' tries (n + 1)).flatMap (callsOf options target actual this args),
        actual this args (tries + n)) := by
  induction n generalizing fuel tries with
  | zero =>
    obtain ⟨fuel, rfl⟩ := Nat.exists_eq_succ_of_ne_zero hfuel.ne'
    simpa using loop_last hlast
  | succ n ih =>
    obtain ⟨fuel, rfl⟩ := Nat.exists_eq_succ_of_ne_zero (Nat.ne_of_gt (Nat.zero_lt_of_lt hfuel))
    have hnext : tries + 1 + n = tries + (n + 1) := by omega
    have hrest := @ih fuel (tries + 1) (hnext ▸ hlast)
      (fun i hi hlt => hbefore i (by omega) (by omega)) (by omega)
    rw [Nat.succ_eq_add_one, loop_again (hbefore tries le_rfl (by omega)), hrest, hnext]
    rfl

omit [DecidableEq τ] in
/-- Every try invokes the method once, with the same receiver and arguments. -/
lemma invocations_callsOf (is : List ℕ) :
    (is.flatMap (callsOf options target actual this args)).filterMap Call.invocation =
      List.replicate is.length (this, args) := by
  induction is with
  | nil => rfl
  | cons i is ih =>
    have hone : (callsOf options target actual this args i).filterMap Call.invocation =
        [(this, args)] := by
      unfold callsOf RetryOptions.notify
      split
      · split <;> rfl
      · rfl
    rw [List.flatMap_cons, List.filterMap_append, hone, ih]
    rfl

omit [DecidableEq τ] in
/-- Every failed try is reported once. -/
lemma retried_callsOf (is : List ℕ) :
    (is.flatMap (callsOf options target actual this args)).filterMap Call.retried =
      options.onRetry.elim [] fun callback => is.filterMap fun i =>
        (actual this args i).error.map fun error => (callback, target, args, error, i) := by
  induction is with
  | nil => cases options.onRetry <;> rfl
  | cons i is ih =>
    rw [List.flatMap_cons, List.filterMap_append, ih]
    cases hcallback : options.onRetry <;> cases hr : actual this args i <;>
      simp [callsOf, RetryOptions.notify, hcallback, hr, List.filterMap_cons, Call.retried,
        Outcome.error]

end Loop

/-- The tries go on until the least `k` that is the last. All of them invoke the method alike,
`k` settles the wrapper, and every failed try is reported under its number. The callbacks of the
options return, and leave the arguments as they are. -/
theorem retry_spec (errorType : ε → τ) (options : RetryOptions ε τ κ) (target : θ)
    (actual : θ → α → ℕ → Outcome ρ ε ξ) (this receiver : θ) (args : α)
    (htries : 1 ≤ options.tries) :
    ∃ k, IsLeast {i | 1 ≤ i ∧ Last errorType options (actual this args) i} k ∧
      ∃ calls, (∀ fuel, options.tries ≤ fuel →
          get errorType options target actual this receiver args fuel =
            some (calls, actual this args k)) ∧
        calls.filterMap Call.invocation = List.replicate k (this, args) ∧
        calls.filterMap Call.retried = options.onRetry.elim [] fun callback =>
          (List.range' 1 k).filterMap fun i => (actual this args i).error.map fun error =>
            (callback, target, args, error, i) := by
  classical
  have hex : ∃ i, 1 ≤ i ∧ Last errorType options (actual this args) i :=
    ⟨options.tries, htries, .inr (.inr (.inl rfl))⟩
  obtain ⟨hk, hlast⟩ := Nat.find_spec hex
  obtain ⟨n, hn⟩ := Nat.exists_eq_add_of_le hk
  have hle : Nat.find hex ≤ options.tries := Nat.find_le ⟨htries, .inr (.inr (.inl rfl))⟩
  have hleast : IsLeast {i | 1 ≤ i ∧ Last errorType options (actual this args) i}
      (Nat.find hex) := ⟨⟨hk, hlast⟩, fun i hi => Nat.find_min' hex hi⟩
  refine ⟨Nat.find hex, hleast, _, fun fuel hfuel => ?_, ?_, retried_callsOf (List.range' 1 _)⟩
  · have hloop : loop errorType options target actual this args fuel 1 = some
        ((List.range' 1 (n + 1)).flatMap (callsOf options target actual this args),
          actual this args (1 + n)) :=
      loop_upTo (hn ▸ hlast) (fun i hi hlt hlast => Nat.find_min hex (hn ▸ hlt) ⟨hi, hlast⟩)
        (by omega)
    rw [← hn, show n + 1 = Nat.find hex by omega] at hloop
    exact hloop
  · rw [invocations_callsOf, List.length_range']

/-- The options of a submission by the kit. -/
def sampleOptions : RetryOptions String String Unit :=
  ⟨3, some ["Unauthorised", "ServiceUnavailable", "QuotaExceededError", "Revert"], none, some ()⟩

/-- A submission times out, is reverted, and would succeed. -/
def timeoutThenRevert (_this : Unit) (_args : ℕ) : ℕ → Outcome ℕ String Empty
  | 1 => .err "Timeout"
  | 2 => .err "Revert"
  | _ => .ok 0

/-- The second try is the last, and both are reported. -/
example : get id sampleOptions () timeoutThenRevert () () 7 3 =
    some ([.actual () 7, .onRetry () () 7 "Timeout" 1, .actual () 7, .onRetry () () 7 "Revert" 2],
      .err "Revert") := by decide

theorem retry_spec_timeoutThenRevert :
    ∃ k, IsLeast {i | 1 ≤ i ∧ Last id sampleOptions (timeoutThenRevert () 7) i} k ∧
      ∃ calls, (∀ fuel, 3 ≤ fuel →
          get id sampleOptions () timeoutThenRevert () () 7 fuel =
            some (calls, timeoutThenRevert () 7 k)) ∧
        calls.filterMap Call.invocation = List.replicate k ((), 7) ∧
        calls.filterMap Call.retried =
          (List.range' 1 k).filterMap fun i => (timeoutThenRevert () 7 i).error.map fun error =>
            ((), (), 7, error, i) :=
  retry_spec id sampleOptions () timeoutThenRevert () () 7 (by decide)

end Komenci.Retry
