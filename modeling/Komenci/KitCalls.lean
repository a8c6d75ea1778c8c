import Komenci.ApiReplies
import Komenci.WalletVerification

/-! A call of the kit is retried around a client that retries: how many requests one call can
make, and how many it makes of a failure that lasts. What a method awaits before its request may
reject, and then there is none. -/
namespace Komenci.Kit
open JsonCodec Errors HexText Sessions Wallet Retry

inductive KitErrorType
  | common (errorType : ErrorType)
  | InvalidWallet
  deriving DecidableEq

inductive KitError
  | fetch (error : FetchError)
  | tx (error : TxError)
  | invalidWallet (error : WalletValidationError)

def txErrorType : TxError → ErrorType
  | .Timeout => .Timeout
  | .Revert _ => .Revert
  | .EventNotFound _ _ => .EventNotFound

def KitError.errorType : KitError → KitErrorType
  | .fetch error => .common error.errorType
  | .tx error => .common (txErrorType error)
  | .invalidWallet _ => .InvalidWallet

def getDistributedBlindedPepperBails : List KitErrorType :=
  [.common .Unauthorised, .common .ServiceUnavailable, .common .QuotaExceededError]

def deployWalletBails : List KitErrorType :=
  [.common .Unauthorised, .common .ServiceUnavailable, .common .Revert, .InvalidWallet]

section Calls
variable {ρ ξ : Type} (url : Text) (codec : Codec) (replies : ℕ → Fetched) (prepare : ℕ → Option ξ)

/-- What a try of `exec` settles to, when `first` requests have been made before its call. -/
def execTry (first tries : ℕ) : Outcome Value FetchError Empty :=
  match exec url codec (replies (first + (tries - 1))) with
  | .ok v => .ok v
  | .error error => .err error

/-- A call of the client: how many requests it makes, and what it returns. -/
def execCall (first fuel : ℕ) : Option (ℕ × Outcome Value FetchError Empty) :=
  (get FetchError.errorType (retryOptions 3 execBails) ()
      (fun _ _ tries => execTry url codec replies first tries) () () () fuel).map fun r =>
    ((r.1.filterMap Call.invocation).length, r.2)

/-- The requests that the first `i` tries of a method make. In try `i` the steps before the call
of the client reject with the reason `prepare i`, if it is one. -/
def requestsOf : ℕ → ℕ
  | 0 => 0
  | i + 1 =>
    match prepare (i + 1) with
    | some _ => requestsOf i
    | none => requestsOf i + ((execCall url codec replies (requestsOf i) 3).map Prod.fst).getD 0

/-- A try of a method: the blinding, or the contracts, the nonce and the signatures that it awaits
come first; `finish` is what it does with what the client returns. -/
def methodTry (finish : ℕ → Value → Outcome ρ KitError ξ) (i : ℕ) : Outcome ρ KitError ξ :=
  match prepare i with
  | some reason => .rejected reason
  | none =>
    match execCall url codec replies (requestsOf url codec replies prepare (i - 1)) 3 with
    | some (_, .ok v) => finish i v
    | some (_, .err error) => .err (.fetch error)
    | _ => .err (.fetch .NetworkError)

/-- A decorated method: how many requests it makes, and what it returns. -/
def methodCall (bails : List KitErrorType) (finish : ℕ → Value → Outcome ρ KitError ξ)
    (fuel : ℕ) : Option (ℕ × Outcome ρ KitError ξ) :=
  (get KitError.errorType (retryOptions 3 bails) ()
      (fun _ _ i => methodTry url codec replies prepare finish i) () () () fuel).map fun r =>
    (requestsOf url codec replies prepare (r.1.filterMap Call.invocation).length, r.2)

end Calls

section Spec
variable {ρ ξ : Type} {url : Text} {codec : Codec} {replies : ℕ → Fetched}
  {prepare : ℕ → Option ξ}

/-- A decorated call tries until the last try, and returns what that one settles to. -/
lemma get_upTo_last {ε τ : Type} [DecidableEq τ] (errorType : ε → τ)
    (options : Retry.RetryOptions ε τ Unit) (r : ℕ → Outcome ρ ε ξ) (htries : 1 ≤ options.tries) :
    ∃ k, IsLeast {i | 1 ≤ i ∧ Last errorType options r i} k ∧
      ∀ fuel, options.tries ≤ fuel → ∃ calls,
        get errorType options () (fun (_ _ : Unit) i => r i) () () () fuel = some (calls, r k) ∧
          (calls.filterMap Call.invocation).length = k := by
  have hleast : IsLeast {i | 1 ≤ i ∧ Last errorType options r i}
      (sInf {i | 1 ≤ i ∧ Last errorType options r i}) :=
    ⟨Nat.sInf_mem ⟨options.tries, htries, .inr (.inr (.inl rfl))⟩, fun i hi => Nat.sInf_le hi⟩
  generalize sInf {i | 1 ≤ i ∧ Last errorType options r i} = k at hleast
  obtain ⟨n, rfl⟩ := Nat.exists_eq_add_of_le hleast.1.1
  have hle : 1 + n ≤ options.tries := hleast.2 ⟨htries, .inr (.inr (.inl rfl))⟩
  refine ⟨1 + n, hleast, fun fuel hfuel => ⟨_, loop_upTo hleast.1.2 (fun i hi hlt hlast => ?_)
    (by omega), ?_⟩⟩
  · exact absurd (hleast.2 ⟨hi, hlast⟩) (Nat.not_le_of_lt hlt)
  · rw [invocations_callsOf, List.length_replicate, List.length_range', Nat.add_comm]

/-- The client tries until the last try, and returns what that one settles to. -/
lemma execCall_spec (url : Text) (codec : Codec) (replies : ℕ → Fetched) (first : ℕ) :
    ∃ k, IsLeast {i | 1 ≤ i ∧ Last FetchError.errorType
        (retryOptions 3 execBails : Retry.RetryOptions FetchError ErrorType Unit)
        (execTry url codec replies first) i} k ∧
      execCall url codec replies first 3 = some (k, execTry url codec replies first k) := by
  obtain ⟨k, hk, hget⟩ := get_upTo_last FetchError.errorType (retryOptions 3 execBails)
    (execTry url codec replies first) (by decide)
  obtain ⟨calls, hcalls, hlength⟩ := hget 3 (by decide)
  refine ⟨k, hk, ?_⟩
  rw [execCall, hcalls, Option.map_some, hlength]

/-- And so does a method. -/
lemma methodCall_spec (bails : List KitErrorType) (finish : ℕ → Value → Outcome ρ KitError ξ) :
    ∃ k, IsLeast {i | 1 ≤ i ∧ Last KitError.errorType
        (retryOptions 3 bails : Retry.RetryOptions KitError KitErrorType Unit)
        (methodTry url codec replies prepare finish) i} k ∧
      ∀ fuel, 3 ≤ fuel → methodCall url codec replies prepare bails finish fuel = some
        (requestsOf url codec replies prepare k, methodTry url codec replies prepare finish k) := by
  obtain ⟨k, hk, hget⟩ := get_upTo_last KitError.errorType (retryOptions 3 bails)
    (methodTry url codec replies prepare finish) (show 1 ≤ 3 by decide)
  refine ⟨k, hk, fun fuel hfuel => ?_⟩
  obtain ⟨calls, hcalls, hlength⟩ := hget fuel hfuel
  rw [methodCall, hcalls, Option.map_some, hlength]

section Last
variable {ε τ : Type} [DecidableEq τ] {errorType : ε → τ} {bails : List τ}
  {r : ℕ → Outcome ρ ε ξ} {k i : ℕ} {error : ε}

omit [DecidableEq τ] in
/-- The last try is at most the third. -/
lemma le_three (hk : IsLeast {i | 1 ≤ i ∧ Last errorType
    (retryOptions 3 bails : Retry.RetryOptions ε τ Unit) r i} k) : k ≤ 3 :=
  hk.2 ⟨by decide, .inr (.inr (.inl rfl))⟩

lemma last_iff (h : r i = .err error) : Last errorType
    (retryOptions 3 bails : Retry.RetryOptions ε τ Unit) r i ↔ i = 3 ∨ errorType error ∈ bails := by
  simp [last_of_err h, retryOptions]

/-- A try that another one follows has not failed with a type to bail on. -/
lemma not_bails_of_lt (hk : IsLeast {i | 1 ≤ i ∧ Last errorType
    (retryOptions 3 bails : Retry.RetryOptions ε τ Unit) r i} k) (hi : 1 ≤ i) (hlt : i < k)
    (h : r i = .err error) : errorType error ∉ bails := fun hbails =>
  absurd (hk.2 ⟨hi, (last_iff h).mpr (.inr hbails)⟩) (by omega)

/-- Tries that all fail with one type are one or three. -/
lemma steady_tries {t : τ} (hk : IsLeast {i | 1 ≤ i ∧ Last errorType
    (retryOptions 3 bails : Retry.RetryOptions ε τ Unit) r i} k)
    (h : ∀ i, 1 ≤ i → ∃ error, r i = .err error ∧ errorType error = t) :
    k = if t ∈ bails then 1 else 3 := by
  obtain ⟨error, hr, rfl⟩ := h k hk.1.1
  obtain ⟨first, hfirst, htype⟩ := h 1 (by decide)
  split_ifs with hbails
  · have hle := hk.2 ⟨le_refl 1, (last_iff hfirst).mpr (.inr (htype ▸ hbails))⟩
    have hge := hk.1.1
    omega
  · exact ((last_iff hr).mp hk.1.2).resolve_right hbails

end Last

/-- The requests of one more try are those of its call of the client. -/
lemma requestsOf_succ {i : ℕ} (hprepare : prepare (i + 1) = none) : ∃ m, 1 ≤ m ∧ m ≤ 3 ∧
    requestsOf url codec replies prepare (i + 1) = requestsOf url codec replies prepare i + m ∧
    IsLeast {j | 1 ≤ j ∧ Last FetchError.errorType
      (retryOptions 3 execBails : Retry.RetryOptions FetchError ErrorType Unit)
      (execTry url codec replies (requestsOf url codec replies prepare i)) j} m ∧
    execCall url codec replies (requestsOf url codec replies prepare i) 3 =
      some (m, execTry url codec replies (requestsOf url codec replies prepare i) m) := by
  obtain ⟨m, hm, hcall⟩ := execCall_spec url codec replies (requestsOf url codec replies prepare i)
  refine ⟨m, hm.1.1, le_three hm, ?_, hm, hcall⟩
  simp only [requestsOf, hprepare, hcall]
  rfl

/-- A try that is rejected before its call of the client makes none. -/
lemma requestsOf_rejected {i : ℕ} {reason : ξ} (hprepare : prepare (i + 1) = some reason) :
    requestsOf url codec replies prepare (i + 1) = requestsOf url codec replies prepare i := by
  simp only [requestsOf, hprepare]

lemma requestsOf_le (i : ℕ) : requestsOf url codec replies prepare i ≤ 3 * i := by
  induction i with
  | zero => exact le_refl 0
  | succ i ih =>
    cases hprepare : prepare (i + 1) with
    | none =>
      obtain ⟨m, -, hthree, hsucc, -⟩ := @requestsOf_succ _ url codec replies _ _ hprepare
      omega
    | some reason =>
      rw [requestsOf_rejected hprepare]
      omega

/-- The first try makes a request, if it comes to it. -/
lemma requestsOf_pos {i : ℕ} (hprepare : prepare 1 = none) (hi : 1 ≤ i) :
    1 ≤ requestsOf url codec replies prepare i := by
  induction i, hi using Nat.le_induction with
  | base =>
    obtain ⟨m, hone, -, hsucc, -⟩ := @requestsOf_succ _ url codec replies _ 0 hprepare
    rw [Nat.zero_add] at hsucc
    omega
  | succ i hi ih =>
    cases hnext : prepare (i + 1) with
    | none =>
      obtain ⟨m, -, -, hsucc, -⟩ := @requestsOf_succ _ url codec replies _ _ hnext
      omega
    | some reason => rwa [requestsOf_rejected hnext]

/-- A request is made in one of the tries that come to their call of the client. -/
lemma exists_try {j k : ℕ} (h : j < requestsOf url codec replies prepare k) :
    ∃ i < k, prepare (i + 1) = none ∧ requestsOf url codec replies prepare i ≤ j ∧
      j < requestsOf url codec replies prepare (i + 1) := by
  induction k with
  | zero => exact absurd h (Nat.not_lt_zero j)
  | succ k ih =>
    by_cases hk : j < requestsOf url codec replies prepare k
    · obtain ⟨i, hi, htry⟩ := ih hk
      exact ⟨i, by omega, htry⟩
    · cases hprepare : prepare (k + 1) with
      | none => exact ⟨k, by omega, hprepare, not_lt.mp hk, h⟩
      | some reason => exact absurd (requestsOf_rejected hprepare ▸ h) hk

/-- What a request settles to is what the client's try of it does. -/
lemma execTry_of_exec {first j : ℕ} (hfirst : first ≤ j) :
    execTry url codec replies first (j - first + 1) =
      match exec url codec (replies j) with
      | .ok v => .ok v
      | .error error => .err error := by
  have hindex : first + (j - first + 1 - 1) = j := by omega
  rw [execTry, hindex]

/-- A request after which the client does not try again is the last one of its call. -/
lemma last_request {first m j : ℕ} (hfirst : first ≤ j) (hlt : j < first + m)
    (hm : IsLeast {i | 1 ≤ i ∧ Last FetchError.errorType
      (retryOptions 3 execBails : Retry.RetryOptions FetchError ErrorType Unit)
      (execTry url codec replies first) i} m)
    (hj : Last FetchError.errorType
      (retryOptions 3 execBails : Retry.RetryOptions FetchError ErrorType Unit)
      (execTry url codec replies first) (j - first + 1)) : j - first + 1 = m := by
  have hle := hm.2 ⟨Nat.le_add_left _ _, hj⟩
  omega

/-- A refused request is the last one of its call of the client. -/
lemma last_of_unauthorised {first m j : ℕ} (hfirst : first ≤ j) (hlt : j < first + m)
    (hm : IsLeast {i | 1 ≤ i ∧ Last FetchError.errorType
      (retryOptions 3 execBails : Retry.RetryOptions FetchError ErrorType Unit)
      (execTry url codec replies first) i} m)
    (hj : exec url codec (replies j) = .error .Unauthorised) :
    j + 1 = first + m ∧ execTry url codec replies first m = .err .Unauthorised := by
  have htry := @execTry_of_exec url codec replies first j hfirst
  rw [hj] at htry
  have hlast := last_request hfirst hlt hm ((last_iff htry).mpr (.inr (by decide)))
  exact ⟨by omega, hlast ▸ htry⟩

/-- And so is an answered one. -/
lemma last_of_ok {first m j : ℕ} {v : Value} (hfirst : first ≤ j) (hlt : j < first + m)
    (hm : IsLeast {i | 1 ≤ i ∧ Last FetchError.errorType
      (retryOptions 3 execBails : Retry.RetryOptions FetchError ErrorType Unit)
      (execTry url codec replies first) i} m)
    (hj : exec url codec (replies j) = .ok v) :
    j + 1 = first + m ∧ execTry url codec replies first m = .ok v := by
  have htry := @execTry_of_exec url codec replies first j hfirst
  rw [hj] at htry
  have hlast := last_request hfirst hlt hm (.inl ⟨v, htry⟩)
  exact ⟨by omega, hlast ▸ htry⟩

/-- The answer a client's call returns is that of its last request. -/
lemma exec_of_execTry {first m : ℕ} {v : Value} (hm : 1 ≤ m)
    (h : execTry url codec replies first m = .ok v) :
    exec url codec (replies (first + m - 1)) = .ok v := by
  rw [execTry, ← Nat.add_sub_assoc hm] at h
  cases hexec : exec url codec (replies (first + m - 1)) with
  | ok w => simpa [hexec] using h
  | error error => simp [hexec] at h

/-- A method whose client fails, fails with it. -/
lemma methodTry_err {finish : ℕ → Value → Outcome ρ KitError ξ} {i m : ℕ} {error : FetchError}
    (hprepare : prepare (i + 1) = none)
    (hcall : execCall url codec replies (requestsOf url codec replies prepare i) 3 =
      some (m, .err error)) :
    methodTry url codec replies prepare finish (i + 1) = .err (.fetch error) := by
  simp [methodTry, hprepare, hcall]

lemma methodTry_ok {finish : ℕ → Value → Outcome ρ KitError ξ} {i m : ℕ} {v : Value}
    (hprepare : prepare (i + 1) = none)
    (hcall : execCall url codec replies (requestsOf url codec replies prepare i) 3 =
      some (m, .ok v)) :
    methodTry url codec replies prepare finish (i + 1) = finish (i + 1) v := by
  simp [methodTry, hprepare, hcall]

lemma methodTry_rejected {finish : ℕ → Value → Outcome ρ KitError ξ} {i : ℕ} {reason : ξ}
    (hprepare : prepare i = some reason) :
    methodTry url codec replies prepare finish i = .rejected reason := by
  simp [methodTry, hprepare]

/-- What the client returns is of the action's type. -/
lemma codec_of_exec {fetched : Fetched} {v : Value} (h : exec url codec fetched = .ok v) :
    codec v = true := by
  unfold exec at h
  split at h
  · cases h
  · split_ifs at h
    · split at h
      · cases h
      · next payload =>
        by_cases hcodec : codec payload = true
        · simp only [Codec.decode, hcodec, if_true, Except.ok.injEq] at h
          exact h ▸ hcodec
        · simp [Codec.decode, hcodec] at h
    · split at h <;> cases h

/-- Where every request fails with one type, every try of a method makes as many of them. -/
lemma steady_requests {t : ErrorType} (hprepare : ∀ i, prepare i = none)
    (ht : ∀ j, ∃ error, exec url codec (replies j) = .error error ∧ error.errorType = t) (i : ℕ) :
    requestsOf url codec replies prepare i = i * (if t ∈ execBails then 1 else 3) ∧
      ∃ m error, execCall url codec replies (requestsOf url codec replies prepare i) 3 =
        some (m, .err error) ∧ error.errorType = t := by
  have htry : ∀ first j, ∃ error, execTry url codec replies first j = .err error ∧
      error.errorType = t := by
    intro first j
    obtain ⟨error, hexec, htype⟩ := ht (first + (j - 1))
    exact ⟨error, by rw [execTry, hexec], htype⟩
  constructor
  · induction i with
    | zero => rw [Nat.zero_mul]; rfl
    | succ i ih =>
      obtain ⟨m, -, -, hsucc, hm, -⟩ := @requestsOf_succ _ url codec replies _ _ (hprepare (i + 1))
      rw [hsucc, ih, steady_tries hm fun j _ => htry _ j, Nat.succ_mul]
  · obtain ⟨m, -, -, -, -, hclient⟩ := @requestsOf_succ _ url codec replies _ _ (hprepare (i + 1))
    obtain ⟨error, herr, htype⟩ := htry (requestsOf url codec replies prepare i) m
    exact ⟨m, error, herr ▸ hclient, htype⟩

end Spec

/-- A call of a method makes at most nine requests, and none only when it is rejected on the way
to the first. None follows a refused one, if the method bails on `Unauthorised`; when all fail
alike, and no try is rejected before, it makes them once or three times, each of them once or
three times, as the type of the error has it. -/
theorem kit_requests_bounded {ρ ξ : Type} (url : Text) (codec : Codec) (replies : ℕ → Fetched)
    (prepare : ℕ → Option ξ) (bails : List KitErrorType)
    (finish : ℕ → Value → Outcome ρ KitError ξ) :
    ∃ n outcome, (∀ fuel, 3 ≤ fuel →
        methodCall url codec replies prepare bails finish fuel = some (n, outcome)) ∧
      n ≤ 9 ∧ (prepare 1 = none → 1 ≤ n) ∧
      (∀ reason, prepare 1 = some reason → n = 0 ∧ outcome = .rejected reason) ∧
      (.common .Unauthorised ∈ bails → ∀ j, j + 1 < n →
        exec url codec (replies j) ≠ .error .Unauthorised) ∧
      ∀ t, (∀ i, prepare i = none) →
        (∀ j, ∃ error, exec url codec (replies j) = .error error ∧ error.errorType = t) →
        n = (if .common t ∈ bails then 1 else 3) * if t ∈ execBails then 1 else 3 := by
  obtain ⟨k, hk, hcall⟩ := @methodCall_spec ρ ξ url codec replies prepare bails finish
  have hpos := hk.1.1
  have hthree := le_three hk
  have hle := @requestsOf_le ξ url codec replies prepare k
  refine ⟨_, _, hcall, by omega, fun hprepare => requestsOf_pos hprepare hpos,
    fun reason hprepare => ?_, fun hbails j hj hrefused => ?_, fun t hprepare ht => ?_⟩
  · have hlast := hk.2 ⟨le_refl 1, .inr (.inl ⟨reason, methodTry_rejected hprepare⟩)⟩
    obtain rfl : k = 1 := by omega
    exact ⟨requestsOf_rejected hprepare, methodTry_rejected hprepare⟩
  · obtain ⟨i, hi, hprepare, hfirst, hlt⟩ :=
      exists_try (show j < requestsOf url codec replies prepare k by omega)
    obtain ⟨m, -, -, hsucc, hm, hclient⟩ := @requestsOf_succ _ url codec replies _ _ hprepare
    obtain ⟨hlast, herr⟩ := last_of_unauthorised hfirst (hsucc ▸ hlt) hm hrefused
    rw [herr] at hclient
    have hnext : i + 1 ≠ k := by
      rintro rfl
      omega
    exact not_bails_of_lt hk (by omega) (by omega) (methodTry_err hprepare hclient) hbails
  · have hmethod : ∀ i, 1 ≤ i → ∃ error, methodTry url codec replies prepare finish i =
        .err error ∧ error.errorType = .common t := by
      intro i hi
      obtain ⟨i, rfl⟩ := Nat.exists_eq_add_of_le' hi
      obtain ⟨m, error, hclient, htype⟩ := (steady_requests hprepare ht i).2
      exact ⟨_, methodTry_err (hprepare _) hclient, congrArg KitErrorType.common htype⟩
    rw [(steady_requests hprepare ht k).1, steady_tries hk hmethod]

section Samples

/-- The service is down, or its replies are refused. -/
def allFail (status : ℕ) (_ : ℕ) : Fetched := .response status none

/-- The method returns what it gets. -/
def returned (_ : ℕ) (v : Value) : Outcome Value KitError Unit := .ok v

/-- The node answers in every try, or never. -/
def signed (_ : ℕ) : Option Unit := none

def unsigned (_ : ℕ) : Option Unit := some ()

/-- What a submission makes of a server that does not know the path, asking for a pepper of a
service that is down, and a submission that its wallet does not sign. -/
theorem kit_requests_bounded_steady :
    (∃ outcome, methodCall [] SubmitMetaTransactionResp (allFail 404) signed
      (submitBails.map .common) returned 3 = some (9, outcome)) ∧
    (∃ outcome, methodCall [] GetCombinedSignatureResp (allFail 503) signed
      getDistributedBlindedPepperBails returned 3 = some (3, outcome)) ∧
    methodCall [] SubmitMetaTransactionResp (allFail 404) unsigned (submitBails.map .common)
      returned 3 = some (0, .rejected ()) := by
  refine ⟨?_, ?_, ?_⟩
  · obtain ⟨n, outcome, hcall, -, -, -, -, hsteady⟩ :=
      kit_requests_bounded [] SubmitMetaTransactionResp (allFail 404) signed
        (submitBails.map .common) returned
    obtain rfl : n = 9 := hsteady .NotFoundError (fun _ => rfl) fun _ => ⟨_, rfl, rfl⟩
    exact ⟨outcome, hcall 3 (le_refl 3)⟩
  · obtain ⟨n, outcome, hcall, -, -, -, -, hsteady⟩ := kit_requests_bounded []
      GetCombinedSignatureResp (allFail 503) signed getDistributedBlindedPepperBails returned
    obtain rfl : n = 3 := hsteady .ServiceUnavailable (fun _ => rfl) fun _ => ⟨_, rfl, rfl⟩
    exact ⟨outcome, hcall 3 (le_refl 3)⟩
  · obtain ⟨n, outcome, hcall, -, -, hrejected, -⟩ :=
      kit_requests_bounded [] SubmitMetaTransactionResp (allFail 404) unsigned
        (submitBails.map .common) returned
    obtain ⟨rfl, rfl⟩ := hrejected () rfl
    exact hcall 3 (le_refl 3)

end Samples

end Komenci.Kit
