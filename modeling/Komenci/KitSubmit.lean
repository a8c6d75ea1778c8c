import Komenci.KitService

/-! The wallet executes what a call signs at most once, in a run where no try reads the
nonce of the wallet after an earlier one was executed. -/
namespace Komenci.Kit
open Interleaving

variable {ι : Type} [DecidableEq ι] {options : KomenciOptions} {call : ι → Call}
  {c d : Config (Shared ι) ι Phase} {l : Label ι Event}

/-- The steps of a call. -/
inductive SubmitStep (options : KomenciOptions) (call : ι → Call) (i : ι) (s : Shared ι) :
    Phase → Event → Shared ι → Phase → Prop
  | again {p e tries} : SubmitStep options call i s p e s (tryOnce (call i) tries)
  | nonce {tries} : SubmitStep options call i s (.nonce tries) .nonce s (.sign tries s.nonce)
  | sign {tries nonce} : SubmitStep options call i s (.sign tries nonce) .sign s (.exec tries nonce 1)
  | fetch {tries nonce execTries} : SubmitStep options call i s (.exec tries nonce execTries) .fetch
      { s with posted := s.posted ++ [⟨i, nonce⟩] }
      (.response tries nonce execTries s.posted.length)
  | refetch {tries nonce execTries request e} :
      SubmitStep options call i s (.response tries nonce execTries request) e s
        (.exec tries nonce (execTries + 1))
  | heard {tries nonce execTries request txHash waited} : s.submitted txHash = some request →
      SubmitStep options call i s (.response tries nonce execTries request) (.response txHash) s
        (.waitForReceipt tries txHash waited)
  | wait {tries txHash waited waited'} :
      SubmitStep options call i s (.waitForReceipt tries txHash waited) .receipt s
        (.waitForReceipt tries txHash waited')
  | reverted {tries txHash waited} : s.receipts txHash = some false →
      SubmitStep options call i s (.waitForReceipt tries txHash waited) .receipt s
        (.resolved (some .Revert))
  | resolved {p e error} : error ≠ some .Revert → SubmitStep options call i s p e s (.resolved error)
  | rejected {p e} : SubmitStep options call i s p e s .rejected

omit [DecidableEq ι] in
lemma failed_step {i : ι} {s : Shared ι} {p : Phase} {e : Event} (tries : ℕ) {error : ErrorType}
    (herror : error ≠ .Revert) :
    SubmitStep options call i s p e s (failed (call i) tries error) := by
  unfold failed
  split_ifs
  · exact .again
  · exact .resolved (by simpa using herror)

/-- A revert is never tried again. -/
lemma failed_revert (call : Call) (tries : ℕ) :
    failed call tries .Revert = .resolved (some .Revert) := by
  simp [failed, Retry.RetryOptions.again, submitRetry, retryOptions, submitBails]

omit [DecidableEq ι] in
lemma submit_step {i : ι} {s : Shared ι} {p : Phase} {e : Event} {r : Shared ι × Phase}
    (h : submit options call i s p e = some r) : SubmitStep options call i s p e r.1 r.2 := by
  unfold submit at h
  split at h
  case h_1 =>
    cases h
    exact .again
  case h_2 =>
    cases h
    exact .nonce
  case h_3 =>
    cases h
    exact .sign
  case h_4 =>
    cases h
    exact .fetch
  case h_5 =>
    split_ifs at h with hsubmitted
    cases h
    unfold whileWaiting
    split_ifs
    · exact .heard hsubmitted
    · exact failed_step _ (by simp)
  case h_6 =>
    split_ifs at h with hfetch
    cases h
    unfold execFailed
    split_ifs
    · exact .refetch
    · refine failed_step _ ?_
      rintro rfl
      cases hfetch
  case h_7 =>
    split at h <;> cases h
    · unfold whileWaiting
      split_ifs
      · exact .wait
      · exact failed_step _ (by simp)
    · exact .resolved (by simp)
    · rw [failed_revert]
      exact .reverted ‹_›
  case h_11 => cases h
  all_goals
    cases h
    exact .rejected

/-- The steps of the whole system. -/
inductive Step (options : KomenciOptions) (call : ι → Call) (c : Config (Shared ι) ι Phase) :
    Label ι Event → Config (Shared ι) ι Phase → Prop
  | call {i p e s p'} : c.task i = p → SubmitStep options call i c.shared p e s p' →
      Step options call c (.task i e) (c.resume i (s, p'))
  | submit {request txHash} : request < c.shared.posted.length →
      c.shared.submitted txHash = none →
      Step options call c (.env (.submit request txHash)) ⟨{ c.shared with
        submitted := Function.update c.shared.submitted txHash (some request) }, c.task⟩
  | execute {txHash status request signed} : c.shared.submitted txHash = some request →
      c.shared.posted[request]? = some signed → c.shared.receipts txHash = none →
      signed.nonce = c.shared.nonce →
      Step options call c (.env (.mine txHash status)) ⟨{ c.shared with
        nonce := c.shared.nonce + (call signed.call).count
        executed := Function.update c.shared.executed signed.call (c.shared.executed signed.call + 1)
        receipts := Function.update c.shared.receipts txHash (some true) }, c.task⟩
  | revert {txHash status} : c.shared.receipts txHash = none →
      Step options call c (.env (.mine txHash status)) ⟨{ c.shared with
        receipts := Function.update c.shared.receipts txHash (some false) }, c.task⟩
  | other {count} : Step options call c (.env (.other count))
      ⟨{ c.shared with nonce := c.shared.nonce + count }, c.task⟩

lemma step_cases (h : (machine options call).step c l = some d) : Step options call c l d := by
  rcases Machine.step_cases h with ⟨i, e, r, rfl, hr, rfl⟩ | ⟨e, rfl, he⟩
  · exact .call rfl (submit_step hr)
  · change world call e c = some d at he
    unfold world at he
    split at he
    · split_ifs at he with hsubmit
      cases he
      exact .submit hsubmit.1 hsubmit.2
    · obtain ⟨s, hs, rfl⟩ := Option.map_eq_some_iff.mp he
      unfold executeMetaTransaction at hs
      split at hs
      · rename_i hsigned hreceipt
        split_ifs at hs with hn
        · cases hs
          obtain ⟨request, hsubmitted, hposted⟩ := Option.bind_eq_some_iff.mp hsigned
          exact .execute hsubmitted hposted hreceipt hn.1
        · cases hs
          exact .revert hreceipt
      · cases hs
    · cases he
      exact .other
    · cases he

/-- No try reads the nonce when an earlier one was executed. -/
def Unexecuted (c : Config (Shared ι) ι Phase) : Label ι Event → Prop
  | .task i .nonce => c.shared.executed i = 0
  | _ => True

instance (c : Config (Shared ι) ι Phase) (l : Label ι Event) : Decidable (Unexecuted c l) := by
  unfold Unexecuted
  induction l using Label.casesOn with
  | env e => infer_instance
  | task i e => induction e using Event.casesOn <;> infer_instance

/-- The nonce that a call is going to post. -/
def Phase.signs : Phase → Option ℕ
  | .sign _ n | .exec _ n _ | .response _ n _ _ => some n
  | _ => none

/-- A signature of a call is over the nonce it was given or over one of the past, and once the
call was executed it is spent. -/
structure Signature (call : ι → Call) (s : Shared ι) (i : ι) (nonce : ℕ) : Prop where
  given : ∀ n, (call i).nonce = some n → nonce = n
  read : (call i).nonce = none → nonce ≤ s.nonce
  spent : s.executed i ≠ 0 → nonce < s.nonce

structure AtMostOnce (call : ι → Call) (c : Config (Shared ι) ι Phase) : Prop where
  posted : ∀ signed ∈ c.shared.posted, Signature call c.shared signed.call signed.nonce
  signs : ∀ i n, (c.task i).signs = some n → Signature call c.shared i n
  reads : ∀ i tries, c.task i = .nonce tries → (call i).nonce = none
  used : ∀ i n, (call i).nonce = some n → c.shared.executed i ≠ 0 → n < c.shared.nonce
  once : ∀ i, c.shared.executed i ≤ 1

omit [DecidableEq ι] in
lemma Signature.mono {s s' : Shared ι} {i : ι} {n : ℕ} (h : Signature call s i n)
    (hnonce : s.nonce ≤ s'.nonce) (hexecuted : s'.executed i = s.executed i) :
    Signature call s' i n where
  given := h.given
  read hnone := (h.read hnone).trans hnonce
  spent hne := (h.spent (hexecuted ▸ hne)).trans_le hnonce

omit [DecidableEq ι] in
/-- Nothing is executed, and the calls stand where they were. -/
lemma AtMostOnce.mono {s : Shared ι} (h : AtMostOnce call c) (hposted : s.posted = c.shared.posted)
    (hnonce : c.shared.nonce ≤ s.nonce) (hexecuted : s.executed = c.shared.executed) :
    AtMostOnce call ⟨s, c.task⟩ where
  posted signed hs := (h.posted signed (hposted ▸ hs)).mono hnonce (congrFun hexecuted _)
  signs i n hi := (h.signs i n hi).mono hnonce (congrFun hexecuted _)
  reads := h.reads
  used i n hi hne := (h.used i n hi (by rwa [hexecuted] at hne)).trans_le hnonce
  once i := hexecuted ▸ h.once i

/-- A call goes on, and what it signs next is right. -/
lemma AtMostOnce.resume {i : ι} {s : Shared ι} {p : Phase} (h : AtMostOnce call c)
    (hposted : ∀ signed ∈ s.posted, signed ∈ c.shared.posted ∨
      signed.call = i ∧ (c.task i).signs = some signed.nonce)
    (hnonce : s.nonce = c.shared.nonce) (hexecuted : s.executed = c.shared.executed)
    (hsigns : ∀ n, p.signs = some n → Signature call c.shared i n)
    (hreads : ∀ tries, p = .nonce tries → (call i).nonce = none) :
    AtMostOnce call (c.resume i (s, p)) := by
  have hsame : ∀ {j n}, Signature call c.shared j n → Signature call s j n :=
    fun hs => hs.mono hnonce.ge (congrFun hexecuted _)
  constructor
  · intro signed hs
    rcases hposted signed hs with hs | ⟨rfl, hs⟩
    · exact hsame (h.posted signed hs)
    · exact hsame (h.signs _ _ hs)
  · apply Config.forall_resume (Q := fun j (p : Phase) => ∀ n, p.signs = some n → Signature call s j n)
    · exact fun n hn => hsame (hsigns n hn)
    · exact fun j _ n hn => hsame (h.signs j n hn)
  · exact Config.forall_resume (Q := fun j (p : Phase) => ∀ tries, p = .nonce tries →
      (call j).nonce = none) hreads fun j _ => h.reads j
  · intro j n hj hne
    simp only [Config.resume_shared] at hne ⊢
    rw [hnonce]
    exact h.used j n hj (by rwa [hexecuted] at hne)
  · exact fun j => hexecuted ▸ h.once j

/-- The wallet executes what a call has signed, for the first time. Its other signatures are
over the same nonce or over an earlier one. -/
lemma AtMostOnce.execute {signed : Signed ι} {receipts : ℕ → Option Bool} (h : AtMostOnce call c)
    (hmem : signed ∈ c.shared.posted) (hn : signed.nonce = c.shared.nonce) :
    AtMostOnce call ⟨{ c.shared with
      nonce := c.shared.nonce + (call signed.call).count
      executed := Function.update c.shared.executed signed.call (c.shared.executed signed.call + 1)
      receipts }, c.task⟩ := by
  have hcount : 0 < (call signed.call).count := by
    cases call signed.call <;> simp [Call.count]
  have hsigned := h.posted signed hmem
  have hzero : c.shared.executed signed.call = 0 := by
    by_contra hne
    have hlt := hsigned.spent hne
    omega
  have hnext : ∀ {i n}, Signature call c.shared i n → Signature call { c.shared with
      nonce := c.shared.nonce + (call signed.call).count
      executed := Function.update c.shared.executed signed.call (c.shared.executed signed.call + 1)
      receipts } i n := by
    intro i n hs
    refine ⟨hs.given, fun hnone => (hs.read hnone).trans (by simp), fun hne => ?_⟩
    by_cases hi : i = signed.call
    · subst hi
      cases hgiven : (call signed.call).nonce with
      | none =>
        have hle := hs.read hgiven
        simp only
        omega
      | some m =>
        have hm := hs.given m hgiven
        have hm' := hsigned.given m hgiven
        simp only
        omega
    · have hlt := hs.spent (by simpa [hi] using hne)
      simp only
      omega
  constructor
  · exact fun s hs => hnext (h.posted s hs)
  · exact fun i n hi => hnext (h.signs i n hi)
  · exact h.reads
  · intro i n hi hne
    by_cases heq : i = signed.call
    · subst heq
      have hn' := hsigned.given n hi
      simp only
      omega
    · have hlt := h.used i n hi (by simpa [heq] using hne)
      simp only
      omega
  · intro i
    by_cases heq : i = signed.call
    · subst heq
      simp [hzero]
    · simpa [heq] using h.once i

/-- Every step in which no nonce is read too late keeps the signatures apart. -/
lemma step_once (h : AtMostOnce call c) (hun : Unexecuted c l)
    (hstep : (machine options call).step c l = some d) : AtMostOnce call d := by
  cases step_cases hstep with
  | @call i p e s p' hi hs =>
    have hkeep : ∀ {n}, p.signs = some n → Signature call c.shared i n :=
      fun hn => h.signs i _ (hi ▸ hn)
    cases hs with
    | @again _ _ tries =>
      refine h.resume (fun _ hs => .inl hs) rfl rfl (fun n hn => ?_) fun _ heq => ?_
      · cases hgiven : (call i).nonce with
        | none => simp [tryOnce, hgiven, Phase.signs] at hn
        | some m =>
          simp only [tryOnce, hgiven, Phase.signs, Option.some.injEq] at hn
          subst hn
          refine ⟨fun n hn => Option.some.inj (hgiven.symm.trans hn), fun hnone => ?_,
            h.used i _ hgiven⟩
          rw [hgiven] at hnone
          cases hnone
      · unfold tryOnce at heq
        split at heq
        · cases heq
        · assumption
    | @nonce tries =>
      have hnone := h.reads i tries hi
      refine h.resume (fun _ hs => .inl hs) rfl rfl (fun n hn => ?_) (by simp)
      simp only [Phase.signs, Option.some.injEq] at hn
      subst hn
      refine ⟨fun n hn => ?_, fun _ => le_refl _, fun hne => absurd hun hne⟩
      rw [hnone] at hn
      cases hn
    | sign | refetch =>
      exact h.resume (fun _ hs => .inl hs) rfl rfl (fun n hn => hkeep hn) (by simp)
    | @fetch tries n execTries =>
      refine h.resume (fun signed hs => ?_) rfl rfl (fun n hn => hkeep hn) (by simp)
      rcases List.mem_append.mp hs with hs | hs
      · exact .inl hs
      · rw [List.mem_singleton] at hs
        subst hs
        exact .inr ⟨rfl, by rw [hi]; rfl⟩
    | heard | wait | reverted | resolved | rejected =>
      exact h.resume (fun _ hs => .inl hs) rfl rfl (by simp [Phase.signs]) (by simp)
  | submit | revert => exact h.mono (by rfl) (le_refl _) (by rfl)
  | other => exact h.mono (by rfl) (by simp) (by rfl)
  | execute _ hposted _ hn => exact h.execute (List.mem_of_getElem? hposted) hn

/-- No call has begun. -/
structure Started (c : Config (Shared ι) ι Phase) : Prop where
  task : ∀ i, c.task i = .start
  posted : c.shared.posted = []
  executed : ∀ i, c.shared.executed i = 0

/-- The wallet executes what a call signs at most once, in a run where no try reads the nonce
of the wallet after an earlier try of the call was executed. -/
theorem executed_at_most_once (options : KomenciOptions) (call : ι → Call) (hstart : Started c)
    (hrun : Run (machine options call) Unexecuted c d) (i : ι) : d.shared.executed i ≤ 1 := by
  have hinit : AtMostOnce call c := by
    constructor
    · simp [hstart.posted]
    · intro i n hi
      rw [hstart.task i] at hi
      cases hi
    · intro i tries hi
      rw [hstart.task i] at hi
      cases hi
    · exact fun i n _ hne => absurd (hstart.executed i) hne
    · exact fun i => by rw [hstart.executed i]; omega
  exact (hrun.invariant (J := AtMostOnce call) (fun _ _ _ h hp hs => step_once h hp hs) hinit).once i

section Samples

/-- One call, and a wallet that was never used. -/
def oneCall : Config (Shared (Fin 1)) (Fin 1) Phase :=
  ⟨⟨0, [], fun _ => none, fun _ => none, fun _ => 0⟩, fun _ => .start⟩

lemma oneCall_started : Started oneCall := ⟨fun _ => rfl, rfl, fun _ => rfl⟩

/-- A try that reads the nonce and is answered with a transaction. -/
def attempt (i : Fin 1) (request txHash : ℕ) : List (Label (Fin 1) Event) :=
  [.task i .nonce, .task i .sign, .task i .fetch, .env (.submit request txHash),
    .task i (.response txHash)]

/-- The receipt is polled until the timeout. -/
def timesOut (i : Fin 1) : List (Label (Fin 1) Event) := List.replicate 200 (.task i .receipt)

theorem executed_at_most_once_retried :
    ∃ d, Run (machine DEFAULT_OPTIONS fun _ => .submitMetaTransaction none) Unexecuted oneCall d ∧
      d.shared.executed 0 = 1 ∧ d.shared.executed 0 ≤ 1 := by
  obtain ⟨d, hrun, hd⟩ := Run.exists_of_exec
    (M := machine DEFAULT_OPTIONS fun _ : Fin 1 => .submitMetaTransaction none) (P := Unexecuted)
    (c := oneCall) (q := fun d => d.shared.executed 0 = 1)
    ([.task 0 .start] ++ attempt 0 0 900 ++ timesOut 0 ++ attempt 0 1 901 ++
      [.env (.mine 900 true), .env (.mine 901 true)]) (by decide +kernel)
  exact ⟨d, hrun, hd, executed_at_most_once DEFAULT_OPTIONS _ oneCall_started hrun 0⟩

/-- The first transaction is included after the timeout, before the next try reads the nonce. -/
theorem executed_twice :
    Started oneCall ∧
      (∃ d, Run (machine DEFAULT_OPTIONS fun _ => .submitMetaTransaction none) anyStep oneCall d ∧
        d.shared.executed 0 = 2) ∧
      ∃ d, Run (machine DEFAULT_OPTIONS fun _ => .requestAttestations) anyStep oneCall d ∧
        d.shared.executed 0 = 2 := by
  refine ⟨oneCall_started, Run.exists_of_exec ([.task 0 .start] ++ attempt 0 0 900 ++ timesOut 0 ++
    [.env (.mine 900 true)] ++ attempt 0 1 901 ++ [.env (.mine 901 true)]) ?_,
    Run.exists_of_exec ([.task 0 .start] ++ attempt 0 0 900 ++ timesOut 0 ++
    [.env (.mine 900 true)] ++ attempt 0 1 901 ++ [.env (.mine 901 true)]) ?_⟩ <;>
  decide +kernel

end Samples

end Komenci.Kit
