import Komenci.RelayerWatch

/-! The counter agrees with the node. When every answer reaches the service and nobody
else sends from the wallet, the counter stands at the node's next nonce whenever the
mutex is free. -/
namespace Komenci.Relayer
open Interleaving

variable {P ι : Type} {cfg : AppConfig} {policy : Policy P ι}

/-- No answer is lost, and the wallet sends nothing but the service's transactions. -/
def Reported (_ : Config (Shared P ι) ι (Task P)) : Label ι (Event P) → Prop
  | .task _ (.submit .lost) => False
  | .task _ (.check (.letter _ .lost)) => False
  | .task _ (.odis (.selfTransfer _ _)) => False
  | .task _ (.odis (.lost _)) => False
  | _ => True

instance (c : Config (Shared P ι) ι (Task P)) (l : Label ι (Event P)) :
    Decidable (Reported c l) := by
  unfold Reported
  induction l using Label.casesOn with
  | env e => infer_instance
  | task i e =>
    induction e using Event.casesOn with
    | submit e => induction e using SubmitEvent.casesOn <;> infer_instance
    | check e =>
      induction e using CheckEvent.casesOn with
      | letter k e => induction e using LetterEvent.casesOn <;> infer_instance
      | _ => infer_instance
    | odis e => induction e using OdisEvent.casesOn <;> infer_instance
    | _ => infer_instance

/-- The nonces accepted for calls of `submitTransaction`, in order. -/
def Node.submittedNonces (n : Node P ι) : List ℕ :=
  n.accepted.filterMap fun r =>
    match r.origin with
    | .submit _ => some r.tx.nonce
    | _ => none

structure Counted (first : ℕ) (s : Shared P ι) : Prop where
  below : ∀ k ∈ s.node.nonces, k < s.node.next
  consecutive : s.node.submittedNonces = List.range' first s.node.submittedNonces.length
  next : s.node.next = first + s.node.submittedNonces.length
  free : s.service.nonceLock = none → s.service.nonce = s.node.next
  limbo : s.node.limbo = []

/-- Where a call that holds the mutex stands to the node. -/
def CountedTask (s : Shared P ι) : Task P → Prop
  | .submitTransaction _ (.send _ _) => s.service.nonce = s.node.next
  | .submitTransaction _ (.replied _ _ .accept) => s.service.nonce + 1 = s.node.next
  | .submitTransaction _ (.replied _ _ (.reject _)) => s.service.nonce = s.node.next
  | .submitTransaction _ (.refresh _) => s.service.nonce = s.node.next
  | .submitTransaction _ (.refreshed _ k) => s.service.nonce = s.node.next ∧ k = s.node.next
  | _ => True

/-- The step leaves the node's count alone if the mutex is with `i`. -/
def KeepsNext (i : ι) (s s' : Shared P ι) : Prop :=
  s.service.nonceLock = some i → s'.node.next = s.node.next

lemma CountedTask.mono {i : ι} {s s' : Shared P ι} {t : Task P} (hr : RightTask i s t)
    (hk : KeepsLock i s s') (hn : KeepsNext i s s') (h : CountedTask s t) : CountedTask s' t := by
  have hkeep : s.service.nonceLock = some i →
      s'.service.nonce = s.service.nonce ∧ s'.node.next = s.node.next :=
    fun hl => ⟨(hk hl).2, hn hl⟩
  cases t with
  | submitTransaction p phase =>
    cases phase with
    | send tries tx =>
      obtain ⟨h1, h2⟩ := hkeep hr.1
      simp only [CountedTask] at h ⊢
      omega
    | replied tries tx a =>
      obtain ⟨h1, h2⟩ := hkeep hr.1
      cases a
      all_goals
        simp only [CountedTask] at h ⊢
        omega
    | refresh tries =>
      obtain ⟨h1, h2⟩ := hkeep hr
      simp only [CountedTask] at h ⊢
      omega
    | refreshed tries k =>
      obtain ⟨h1, h2⟩ := hkeep hr
      simp only [CountedTask] at h ⊢
      omega
    | _ => trivial
  | _ => trivial

lemma Counted.of_node {first : ℕ} {s s' : Shared P ι} (h : Counted first s)
    (hn : s'.node = s.node) (hf : s'.service.nonceLock = none → s'.service.nonce = s.node.next) :
    Counted first s' := by
  obtain ⟨hb, hc, hx, -, hl⟩ := h
  exact ⟨by rwa [hn], by rwa [hn], by rwa [hn], by rwa [hn], by rwa [hn]⟩

lemma Counted.of_eq {first : ℕ} {s s' : Shared P ι} (h : Counted first s)
    (hn : s'.node = s.node) (hl : s'.service.nonceLock = s.service.nonceLock)
    (hc : s'.service.nonce = s.service.nonce) : Counted first s' :=
  h.of_node hn fun hf => hc.trans (h.free (hl ▸ hf))

lemma submittedNonces_accept_submit (n : Node P ι) (tx : Tx P) (i : ι) :
    (n.accept ⟨tx, .submit i⟩).submittedNonces = n.submittedNonces ++ [tx.nonce] := by
  simp [Node.submittedNonces]

lemma submittedNonces_accept_deadLetter (n : Node P ι) (tx h : Tx P) :
    (n.accept ⟨tx, .deadLetter h⟩).submittedNonces = n.submittedNonces := by
  simp [Node.submittedNonces]

/-- An accepted payload moves the count by one. -/
lemma Counted.accept_submit {first : ℕ} {s : Shared P ι} {tx : Tx P} {i j : ι}
    (h : Counted first s) (hl : s.service.nonceLock = some j) (hx : tx.nonce = s.node.next) :
    Counted first (s.handle ⟨tx, .submit i⟩ .accept) ∧
      (s.handle ⟨tx, .submit i⟩ .accept).node.next = s.node.next + 1 := by
  have hnext : (s.node.accept ⟨tx, .submit i⟩).next = s.node.next + 1 :=
    Node.next_accept_of_eq h.below hx
  refine ⟨⟨fun k hk => ?_, ?_, ?_, fun hf => ?_, h.limbo⟩, hnext⟩
  · exact Node.below_accept h.below hx.le k hk
  · change (s.node.accept ⟨tx, .submit i⟩).submittedNonces =
      List.range' first (s.node.accept ⟨tx, .submit i⟩).submittedNonces.length
    rw [submittedNonces_accept_submit, List.length_append, List.length_singleton,
      List.range'_concat, ← h.consecutive, hx, h.next, Nat.one_mul]
  · change (s.node.accept ⟨tx, .submit i⟩).next =
      first + (s.node.accept ⟨tx, .submit i⟩).submittedNonces.length
    rw [hnext, submittedNonces_accept_submit, List.length_append, List.length_singleton, h.next]
    omega
  · exact absurd (hl.symm.trans hf) (by simp)

/-- An accepted dead letter replaces a transaction and moves nothing. -/
lemma Counted.accept_deadLetter {first : ℕ} {s : Shared P ι} {tx h : Tx P}
    (hs : Counted first s) (hx : tx.nonce < s.node.next) :
    Counted first (s.handle ⟨tx, .deadLetter h⟩ .accept) ∧
      (s.handle ⟨tx, .deadLetter h⟩ .accept).node.next = s.node.next := by
  have hnext : (s.node.accept ⟨tx, .deadLetter h⟩).next = s.node.next :=
    Node.next_accept_of_lt hs.below hx
  refine ⟨⟨fun k hk => ?_, ?_, ?_, fun hf => ?_, hs.limbo⟩, hnext⟩
  · exact Node.below_accept hs.below hx.le k hk
  · change (s.node.accept ⟨tx, .deadLetter h⟩).submittedNonces =
      List.range' first (s.node.accept ⟨tx, .deadLetter h⟩).submittedNonces.length
    rw [submittedNonces_accept_deadLetter, ← hs.consecutive]
  · change (s.node.accept ⟨tx, .deadLetter h⟩).next =
      first + (s.node.accept ⟨tx, .deadLetter h⟩).submittedNonces.length
    rw [hnext, submittedNonces_accept_deadLetter, hs.next]
  · change s.service.nonce = (s.node.accept ⟨tx, .deadLetter h⟩).next
    rw [hnext]
    exact hs.free hf

lemma nextSubmit_counted (s : Shared P ι) (p : P) (tries : ℕ) (error : NodeError) :
    CountedTask s (.submitTransaction p (nextSubmit tries error)) := by
  rcases nextSubmit_cases (P := P) tries error with ⟨t, ht⟩ | ht
  all_goals
    rw [ht]
    trivial

lemma KeepsNext.of_eq {i : ι} {s s' : Shared P ι} (h : s'.node = s.node) : KeepsNext i s s' :=
  fun _ => by rw [h]

lemma KeepsNext.of_held {i j : ι} {s s' : Shared P ι} (h : s.service.nonceLock = some i)
    (hj : j ≠ i) : KeepsNext j s s' := fun hl => absurd (Option.some.inj (hl.symm.trans h)) hj

variable [DecidableEq P]

lemma submitStep_counted {first : ℕ} {i : ι} {p : P} {s s' : Shared P ι}
    {phase phase' : SubmitPhase P} {e : SubmitEvent}
    (hcounts : ∀ n k, policy.counts n k = true → k = n.next) (hs : Counted first s)
    (hr : RightSubmit i s phase) (ht : CountedTask s (.submitTransaction p phase))
    (he : e ≠ .lost) (h : SubmitStep cfg policy i p s phase e s' phase') :
    Counted first s' ∧ CountedTask s' (.submitTransaction p phase') ∧
      ∀ j ≠ i, KeepsNext j s s' := by
  cases h with
  | acquire hl => exact ⟨hs.of_node rfl (by simp [Shared.setLock]), hs.free hl, fun j _ => .of_eq rfl⟩
  | @answered tries tx a ha =>
    cases a with
    | accept =>
      obtain ⟨hs', hnext⟩ := hs.accept_submit (i := i) hr.1 (hr.2.trans ht)
      refine ⟨hs', ?_, fun j hj => .of_held hr.1 hj⟩
      change s.service.nonce + 1 = _
      rw [hnext, show s.service.nonce = s.node.next from ht]
    | reject e => exact ⟨hs, ht, fun j _ => .of_eq rfl⟩
  | lost => exact absurd rfl he
  | sent => exact ⟨hs.of_node rfl fun _ => ht, trivial, fun j _ => .of_eq rfl⟩
  | priced => exact ⟨hs.of_node rfl fun _ => ht, trivial, fun j _ => .of_eq rfl⟩
  | tooLow => exact ⟨hs.of_node rfl fun _ => ht, trivial, fun j _ => .of_eq rfl⟩
  | failed =>
    exact ⟨hs.of_node rfl fun _ => ht, nextSubmit_counted _ _ _ _, fun j _ => .of_eq rfl⟩
  | watch => exact ⟨hs.of_eq rfl rfl rfl, trivial, fun j _ => .of_eq rfl⟩
  | gasPrice =>
    refine ⟨hs.of_eq rfl ?_ ?_, nextSubmit_counted _ _ _ _, fun j _ => .of_eq rfl⟩
    all_goals simp [Shared.updateGasPrice]
  | acquireRefresh hl =>
    exact ⟨hs.of_node rfl (by simp [Shared.setLock]), hs.free hl, fun j _ => .of_eq rfl⟩
  | counted hk => exact ⟨hs, ⟨ht, hcounts _ _ hk⟩, fun j _ => .of_eq rfl⟩
  | uncounted => exact ⟨hs.of_node rfl fun _ => ht, trivial, fun j _ => .of_eq rfl⟩
  | refreshed =>
    exact ⟨hs.of_node rfl fun _ => ht.2, nextSubmit_counted _ _ _ _, fun j _ => .of_eq rfl⟩

lemma letterStep_counted {first : ℕ} {s s' : Shared P ι} {txs : TxSummary P}
    {phase phase' : LetterPhase P} {e : LetterEvent} (hs : Counted first s)
    (hr : RightLetter s.node ⟨txs, phase⟩) (he : e ≠ .lost)
    (h : LetterStep cfg policy s txs phase e s' phase') :
    Counted first s' ∧ s'.node.next = s.node.next := by
  cases h with
  | @answered tries g tx a ha =>
    cases a with
    | accept =>
      obtain ⟨⟨d, -, hright⟩, hnonce⟩ := hr
      have hlt := hs.below _ hright.2.nonce_mem
      exact hs.accept_deadLetter (lt_of_eq_of_lt hnonce hlt)
    | reject e => exact ⟨hs, rfl⟩
  | lost => exact absurd rfl he
  | gasPrice =>
    refine ⟨hs.of_eq rfl ?_ ?_, rfl⟩
    all_goals simp [Shared.updateGasPrice]
  | _ => exact ⟨hs.of_eq rfl rfl rfl, rfl⟩

lemma checkStep_counted {first : ℕ} {s s' : Shared P ι} {phase phase' : CheckPhase P}
    {e : CheckEvent} (hc : CacheInv s) (hs : Counted first s) (hr : RightCheck s.node phase)
    (he : ∀ k, e ≠ .letter k .lost) (h : CheckStep cfg policy s phase e s' phase') :
    Counted first s' ∧ s'.node.next = s.node.next := by
  cases h with
  | @lowLetter ls exp compl k l e s' ph hk hls =>
    exact letterStep_counted hs (hr.1 _ (List.mem_of_getElem? hk)) (fun h => he k (h ▸ rfl)) hls
  | @expiredLetter ls compl k l e s' ph hk hls =>
    exact letterStep_counted hs (hr.1 _ (List.mem_of_getElem? hk)) (fun h => he k (h ▸ rfl)) hls
  | receipts _ =>
    obtain ⟨-, hl, hn⟩ := finalizeAll_right s hc _
    exact ⟨hs.of_eq (finalizeAll_node _ _) hl hn, by rw [finalizeAll_node]⟩
  | _ => exact ⟨hs, rfl⟩

lemma submittedNonces_initial {c : Config (Shared P ι) ι (Task P)} (h : Initial cfg c) :
    c.shared.node.submittedNonces = [] := by
  refine List.filterMap_eq_nil_iff.mpr fun r hr => ?_
  rw [h.origin r hr]

section Outline
variable [DecidableEq ι]

/-- On top of what is right: the counter. -/
def countedOutline (cfg : AppConfig) (policy : Policy P ι)
    (hcounts : ∀ n k, policy.counts n k = true → k = n.next) (first : ℕ) :
    Outline (machine cfg policy) fun c l => Reported c l ∧ (rightOutline cfg policy).Holds c where
  inv := Counted first
  at_ _ := CountedTask
  task c d i e hp hs hat h := by
    have hstep := step_cases h
    have hright : ∀ j, RightTask j c.shared (c.task j) := hp.2.2
    cases hstep with
    | @submit _ p phase e s phase' hci hsub =>
      have hr := hright i
      have hself := hat i
      rw [hci] at hr hself
      obtain ⟨-, -, -, hk⟩ := submitStep_right hp.2.1 hr hsub
      have he : e ≠ .lost := fun he => by simp [he, Reported] at hp
      obtain ⟨hs', hself', hn⟩ := submitStep_counted hcounts hs hr hself he hsub
      refine ⟨hs', ?_, fun j hj => (hat j).mono (hright j) (hk j hj) (hn j hj)⟩
      rwa [Config.resume_self]
    | @check _ phase e s phase' hci hcheck =>
      have hr := hright i
      rw [hci] at hr
      obtain ⟨-, -, -, hk⟩ := checkStep_right hp.2.1 hr hcheck
      have he : ∀ k, e ≠ .letter k .lost := fun k he => by simp [he, Reported] at hp
      obtain ⟨hs', hn⟩ := checkStep_counted hp.2.1 hs hr he hcheck
      refine ⟨hs', ?_, fun j _ => (hat j).mono (hright j) (hk j) fun _ => hn⟩
      rw [Config.resume_self]
      trivial
    | @odis _ phase e s phase' hci hodis =>
      have hquiet : s = c.shared := by
        cases hodis with
        | quiet _ => rfl
        | answered _ => simp [Reported] at hp
        | lost => simp [Reported] at hp
      subst hquiet
      refine ⟨hs, ?_, fun j _ => hat j⟩
      rw [Config.resume_self]
      trivial
  env c d e hp hs hat h := by
    have hright : ∀ j, RightTask j c.shared (c.task j) := hp.2.2
    have hkeep : d.task = c.task ∧ d.shared.service.nonceLock = c.shared.service.nonceLock ∧
        d.shared.service.nonce = c.shared.service.nonce ∧
        Counted first d.shared ∧ d.shared.node.next = c.shared.node.next := by
      cases step_cases h with
      | mine hm =>
        obtain ⟨-, -, rfl⟩ := Node.mine_eq_some hm
        exact ⟨rfl, rfl, rfl, ⟨hs.below, hs.consecutive, hs.next, hs.free, hs.limbo⟩, rfl⟩
      | arrive hr _ => simp [hs.limbo] at hr
      | gasPrice =>
        refine ⟨rfl, ?_, ?_, hs.of_eq rfl ?_ ?_, rfl⟩
        all_goals simp [Shared.updateGasPrice]
      | tick => exact ⟨rfl, rfl, rfl, hs.of_eq rfl rfl rfl, rfl⟩
    obtain ⟨htask, hl, hc, hs', hn⟩ := hkeep
    refine ⟨hs', fun j => ?_⟩
    rw [htask]
    exact (hat j).mono (hright j) (.of_eq hl hc) fun _ => hn

lemma Initial.counted {c : Config (Shared P ι) ι (Task P)} (h : Initial cfg c)
    (hcounts : ∀ n k, policy.counts n k = true → k = n.next) :
    (countedOutline cfg policy hcounts c.shared.node.next).Holds c := by
  have hnil := submittedNonces_initial h
  refine ⟨⟨h.nonces, by simp [hnil], by simp [hnil], fun _ => h.nonce_eq, h.limbo⟩, fun i => ?_⟩
  have hf := h.task i
  change CountedTask c.shared (c.task i)
  cases ht : c.task i with
  | submitTransaction p phase =>
    rw [ht, Task.fresh] at hf
    exact hf ▸ trivial
  | _ => trivial

/-- Whenever the mutex is free the counter is the node's next nonce, and the nonces
accepted for `submitTransaction` are consecutive from the first on. -/
theorem nonce_agrees {c d : Config (Shared P ι) ι (Task P)}
    (hcounts : ∀ n k, policy.counts n k = true → k = n.next) (hc : Initial cfg c)
    (hrun : Run (machine cfg policy) Reported c d) :
    (d.shared.service.nonceLock = none → d.shared.service.nonce = d.shared.node.next) ∧
      ∃ k, d.shared.node.submittedNonces = List.range' c.shared.node.next k := by
  have hright := hrun.with_invariant (J := (rightOutline cfg policy).Holds)
    (fun _ _ _ hc _ hs => (rightOutline cfg policy).step hc trivial hs) hc.right
  obtain ⟨hs, -⟩ := (countedOutline cfg policy hcounts c.shared.node.next).run hright
    (hc.counted hcounts)
  exact ⟨hs.free, _, hs.consecutive⟩

/-- Two calls, the second of which waits for the mutex. -/
theorem nonce_agrees_after_two :
    ∃ d, Run (machine sampleConfig Policy.standard) Reported sample d ∧
      d.shared.node.submittedNonces = [0, 1] ∧ d.shared.service.nonce = d.shared.node.next := by
  obtain ⟨d, hrun, hfree, hnonces⟩ := Run.exists_of_exec
    (M := machine sampleConfig Policy.standard) (P := Reported) (c := sample)
    (q := fun d => d.shared.service.nonceLock = none ∧ d.shared.node.submittedNonces = [0, 1])
    (submits 0 [.resume, .answer .accept, .resume] ++ submits 1 [.resume] ++
      submits 0 [.resume] ++ submits 1 [.answer .accept, .resume, .resume]) (by decide +kernel)
  exact ⟨d, hrun, hnonces, (nonce_agrees Policy.standard_counts sample_initial hrun).1 hfree⟩

end Outline

end Komenci.Relayer
