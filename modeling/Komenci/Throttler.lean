import Mathlib

/-! The throttler guard. A check-only request reads the records of its key and leaves none. -/
namespace Komenci.Throttler

/-- What the `Throttle` decorator sets on a handler or a class. -/
structure ThrottleOptions where
  key : Option String
  checkOnly : Option Bool
  deriving DecidableEq

structure ExecutionContext where
  handler : ThrottleOptions
  cls : ThrottleOptions
  tracker : String
  userAgent : String
  deriving DecidableEq

/-- When the records of each key expire, in milliseconds. -/
abbrev Storage := String → List ℚ

/-- The records of the key that have not expired. -/
def Storage.getRecord (s : Storage) (now : ℚ) (key : String) : List ℚ :=
  (s key).filter fun expiry => now < expiry

/-- The time to live is in seconds. -/
def Storage.addRecord (s : Storage) (now : ℚ) (key : String) (ttl : ℚ) : Storage :=
  Function.update s key (s key ++ [now + ttl * 1000])

/-- What the base class takes from the options of the module and from the request. -/
structure Guard where
  ignoreUserAgents : Option (List (String → Bool))
  generateKey : ExecutionContext → String

structure Headers where
  limit : ℕ
  remaining : ℕ
  reset : ℤ
  deriving DecidableEq

inductive Outcome
  /-- The request of an ignored user agent passes without headers. -/
  | pass (headers : Option Headers)
  | throttlerException (retryAfter : ℤ)
  deriving DecidableEq

def Outcome.passes : Outcome → Bool
  | .pass _ => true
  | .throttlerException _ => false

/-- The first of the two that is defined. -/
def getAllAndOverride {α : Type} (context : ExecutionContext) (metadata : ThrottleOptions → Option α) :
    Option α :=
  (metadata context.handler).or (metadata context.cls)

def getCheckOnly (context : ExecutionContext) : Bool :=
  (getAllAndOverride context ThrottleOptions.checkOnly).getD false

def Guard.getKey (g : Guard) (context : ExecutionContext) : String :=
  (getAllAndOverride context ThrottleOptions.key).getD (g.generateKey context)

def Guard.ignores (g : Guard) (context : ExecutionContext) : Bool :=
  match g.ignoreUserAgents with
  | some patterns => patterns.any fun pattern => pattern context.userAgent
  | none => false

def nearestExpiryTime (now : ℚ) : List ℚ → ℤ
  | [] => 0
  | expiry :: _ => ⌈(expiry - now) / 1000⌉

def Guard.handleRequest (g : Guard) (limit : ℕ) (ttl now : ℚ) (context : ExecutionContext)
    (s : Storage) : Outcome × Storage :=
  if g.ignores context then (.pass none, s)
  else
    let checkOnly := getCheckOnly context
    let key := g.getKey context
    let ttls := s.getRecord now key
    if limit ≤ ttls.length then (.throttlerException (nearestExpiryTime now ttls), s)
    else
      (.pass (some ⟨limit, limit - (ttls.length + 1), nearestExpiryTime now ttls⟩),
        if checkOnly then s else s.addRecord now key ttl)

structure Request where
  time : ℚ
  context : ExecutionContext
  deriving DecidableEq

/-- The requests one after the other, each with its outcome. -/
def Guard.run (g : Guard) (limit : ℕ) (ttl : ℚ) (s : Storage) : List Request → List (Request × Outcome)
  | [] => []
  | r :: rs =>
    let (o, s') := g.handleRequest limit ttl r.time r.context s
    (r, o) :: g.run limit ttl s' rs

variable {g : Guard} {limit : ℕ} {ttl now : ℚ} {s : Storage}

/-- A check-only request changes no record. -/
lemma handleRequest_checkOnly {context : ExecutionContext} (h : getCheckOnly context = true) :
    (g.handleRequest limit ttl now context s).2 = s := by
  simp only [Guard.handleRequest, h, if_true]
  split_ifs <;> rfl

/-- The outcome depends on the key and its records, whether the request counts or not. -/
lemma handleRequest_outcome {context context' : ExecutionContext}
    (hkey : g.getKey context = g.getKey context') (hignores : g.ignores context = g.ignores context') :
    (g.handleRequest limit ttl now context s).1 = (g.handleRequest limit ttl now context' s).1 := by
  simp only [Guard.handleRequest, hignores, hkey]
  split_ifs <;> rfl

/-- A request that leaves a record when it passes. -/
def Guard.counts (g : Guard) (r : Request) : Bool := !getCheckOnly r.context && !g.ignores r.context

/-- The counted requests of the key that pass in a window of `ttl`. -/
def Guard.inWindow (g : Guard) (ttl : ℚ) (key : String) (start : ℚ) (p : Request × Outcome) : Bool :=
  g.counts p.1 && g.getKey p.1.context = key && p.2.passes && start ≤ p.1.time &&
    p.1.time < start + ttl * 1000

/-- The records of the key that have not expired when the window ends. -/
def Storage.outlasting (s : Storage) (ttl : ℚ) (key : String) (start : ℚ) : ℕ :=
  ((s key).filter fun expiry => start + ttl * 1000 ≤ expiry).length

variable {key : String} {start : ℚ} {r : Request} {rs : List Request}

/-- What a request may do to the records. -/
lemma handleRequest_cases (g : Guard) (limit : ℕ) (ttl : ℚ) (s : Storage) (r : Request) :
    (g.handleRequest limit ttl r.time r.context s).2 = s ∧
      (g.counts r && (g.handleRequest limit ttl r.time r.context s).1.passes) = false ∨
    (g.handleRequest limit ttl r.time r.context s).2 =
        s.addRecord r.time (g.getKey r.context) ttl ∧
      (s.getRecord r.time (g.getKey r.context)).length < limit := by
  simp only [Guard.handleRequest, Guard.counts]
  split_ifs with hignores hlimit hcheckOnly
  · simp [hignores]
  · simp [Outcome.passes]
  · simp [hcheckOnly]
  · exact .inr ⟨rfl, not_le.mp hlimit⟩

/-- A record lives to the end of a window that was open when it was added. -/
lemma outlasting_addRecord (s : Storage) (ttl : ℚ) (key key' : String) (start time : ℚ) :
    s.outlasting ttl key start ≤ (s.addRecord time key' ttl).outlasting ttl key start ∧
      (key' = key → start ≤ time →
        (s.addRecord time key' ttl).outlasting ttl key start = s.outlasting ttl key start + 1) := by
  by_cases hkey : key = key'
  · subst hkey
    constructor
    · simp [Storage.outlasting, Storage.addRecord]
    · intro _ hstart
      simp [Storage.outlasting, Storage.addRecord, hstart]
  · constructor
    · simp [Storage.outlasting, Storage.addRecord, hkey]
    · intro h
      exact absurd h.symm hkey

/-- Within the window the outlasting records have not expired. -/
lemma outlasting_le_getRecord (s : Storage) (key : String) {time : ℚ} (htime : time < start + ttl * 1000) :
    s.outlasting ttl key start ≤ (s.getRecord time key).length := by
  apply List.Sublist.length_le
  apply List.monotone_filter_right
  intro expiry hexpiry
  simp only [decide_eq_true_eq] at hexpiry ⊢
  exact htime.trans_le hexpiry

/-- What passes in a window and what already outlasts it stay within the limit. -/
lemma window_le (g : Guard) (limit : ℕ) (ttl : ℚ) (key : String) (start : ℚ) (s : Storage)
    (rs : List Request) :
    (g.run limit ttl s rs).countP (g.inWindow ttl key start) = 0 ∨
      (g.run limit ttl s rs).countP (g.inWindow ttl key start) + s.outlasting ttl key start ≤
        limit := by
  induction rs generalizing s with
  | nil => exact .inl rfl
  | cons r rs ih =>
    simp only [Guard.run, List.countP_cons]
    rcases handleRequest_cases g limit ttl s r with ⟨hsame, hnot⟩ | ⟨hadd, hlimit⟩
    · have hout : g.inWindow ttl key start
          (r, (g.handleRequest limit ttl r.time r.context s).1) = false := by
        by_contra hin
        simp only [Guard.inWindow, Bool.not_eq_false, Bool.and_eq_true] at hin
        simp [hin.1.1.1.1, hin.1.1.2] at hnot
      simpa [hout, hsame] using ih s
    · rw [hadd]
      obtain ⟨hgrows, hcounted⟩ := outlasting_addRecord s ttl key (g.getKey r.context) start r.time
      have hlater := ih (s.addRecord r.time (g.getKey r.context) ttl)
      by_cases hin : g.inWindow ttl key start
          (r, (g.handleRequest limit ttl r.time r.context s).1) = true
      · rw [if_pos hin]
        simp only [Guard.inWindow, Bool.and_eq_true, decide_eq_true_eq] at hin
        obtain ⟨⟨⟨⟨-, hkey⟩, -⟩, hstart⟩, htime⟩ := hin
        have hone := hcounted hkey hstart
        have halive := outlasting_le_getRecord s key htime
        rw [hkey] at hlimit
        omega
      · rw [if_neg hin]
        omega

/-- The requests that only check leave no trace in the outcomes of the others. -/
lemma run_filter_checkOnly (g : Guard) (limit : ℕ) (ttl : ℚ) (s : Storage) (rs : List Request) :
    g.run limit ttl s (rs.filter fun r => !getCheckOnly r.context) =
      (g.run limit ttl s rs).filter fun p => !getCheckOnly p.1.context := by
  induction rs generalizing s with
  | nil => rfl
  | cons r rs ih =>
    cases hcheck : getCheckOnly r.context with
    | true => simp [Guard.run, hcheck, ih, handleRequest_checkOnly hcheck]
    | false => simp [Guard.run, hcheck, ih]

/-- Requests that only check change no other outcome, their own is that of a request that
counts, and the guard lets no more than the limit through in any window. -/
theorem checkOnly_invisible_and_truthful (g : Guard) (limit : ℕ) (ttl : ℚ) (s : Storage)
    (rs : List Request) :
    g.run limit ttl s (rs.filter fun r => !getCheckOnly r.context) =
        (g.run limit ttl s rs).filter (fun p => !getCheckOnly p.1.context) ∧
      (∀ now context context', g.getKey context = g.getKey context' →
        g.ignores context = g.ignores context' →
        (g.handleRequest limit ttl now context s).1 =
          (g.handleRequest limit ttl now context' s).1) ∧
      ∀ key start, (g.run limit ttl s rs).countP (g.inWindow ttl key start) ≤ limit := by
  refine ⟨run_filter_checkOnly g limit ttl s rs, fun now context context' => ?_, fun key start => ?_⟩
  · exact handleRequest_outcome
  · have hwindow := window_le g limit ttl key start s rs
    omega

section Endpoints

/-- The options of the API name no user agents. -/
def apiGuard : Guard := ⟨none, ExecutionContext.tracker⟩

/-- `GET ready`. -/
def ready (tracker userAgent : String) : ExecutionContext :=
  ⟨⟨some "start-session", some true⟩, ⟨none, none⟩, tracker, userAgent⟩

/-- `POST startSession`. -/
def startSession (tracker userAgent : String) : ExecutionContext :=
  ⟨⟨some "start-session", none⟩, ⟨none, none⟩, tracker, userAgent⟩

/-- `ready` says whether `startSession` would be let in. -/
theorem ready_tells_startSession :
    (apiGuard.handleRequest 2 60 5 (ready "a" "Valora") fun _ => [7000]).1 =
        (apiGuard.handleRequest 2 60 5 (startSession "b" "curl") fun _ => [7000]).1 ∧
      (apiGuard.handleRequest 2 60 5 (ready "a" "Valora") fun _ => [7000]).1.passes = true := by
  refine ⟨?_, by decide +kernel⟩
  exact (checkOnly_invisible_and_truthful apiGuard 2 60 (fun _ => [7000]) []).2.1 5 _ _ rfl rfl

end Endpoints

end Komenci.Throttler
