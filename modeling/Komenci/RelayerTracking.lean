import Komenci.RelayerWatch

/-! No nonce of a successful call is forgotten: it stays in the watch list until a
transaction that bears it is in a block. -/
namespace Komenci.Relayer
open Interleaving

variable {P ι : Type} {cfg : AppConfig} {policy : Policy P ι}

/-- Some watched hash is cached with this nonce. -/
def Service.Watches (s : Service P ι) (nonce : ℕ) : Prop :=
  ∃ h ∈ s.watchedTransactions, ∃ d, s.transactions h = some d ∧ d.nonce = nonce

/-- The nonce of every call that has returned `Ok` is watched or in a block. -/
def Tracked (s : Shared P ι) : Prop :=
  ∀ h nonce, .TxSubmitted h nonce ∈ s.log → s.service.Watches nonce ∨ s.node.Mined nonce

/-- A letter that was told that its nonce is too low bears a mined nonce. -/
def Letter.Late (n : Node P ι) (l : Letter P) : Prop :=
  ∀ tries g tx, l.phase = .replied tries g tx (.reject .nonceTooLow) → n.Mined tx.nonce

def LateLetters (n : Node P ι) : Task P → Prop
  | .checkTransactions phase => ∀ l ∈ phase.letters, l.Late n
  | _ => True

lemma Letter.Late.mono {n m : Node P ι} {l : Letter P} (hs : n.included ⊆ m.included)
    (h : l.Late n) : l.Late m := fun tries g tx hp => (h tries g tx hp).mono hs

lemma LateLetters.mono {n m : Node P ι} {t : Task P} (hs : n.included ⊆ m.included)
    (h : LateLetters n t) : LateLetters m t := by
  cases t with
  | checkTransactions phase => exact fun l hl => (h l hl).mono hs
  | _ => trivial

lemma letters_late {n : Node P ι} {txs : List (TxSummary P)} : ∀ l ∈ letters txs, l.Late n := by
  intro l hl tries g tx hp
  obtain ⟨t, -, rfl⟩ := List.mem_map.mp hl
  simp at hp

lemma nextLetter_late (n : Node P ι) (txs : TxSummary P) (tries : ℕ) (error : NodeError) :
    Letter.Late n ⟨txs, nextLetter tries error⟩ := by
  intro tries' g tx hp
  rcases nextLetter_cases (P := P) tries error with ⟨t, ht⟩ | ht
  all_goals simp [ht] at hp

lemma Tracked.of_eq {s s' : Shared P ι} (h : Tracked s) (hl : s'.log = s.log)
    (hw : s'.service.watchedTransactions = s.service.watchedTransactions)
    (ht : s'.service.transactions = s.service.transactions)
    (hi : s.node.included ⊆ s'.node.included) : Tracked s' := by
  intro t nonce hmem
  rcases h t nonce (hl ▸ hmem) with hwatch | hmined
  · exact .inl (by rwa [Service.Watches, hw, ht])
  · exact .inr (hmined.mono hi)

/-- The node confirms only what is in a block. -/
lemma mem_included_of_truthful {n : Node P ι} {completed : List (TxSummary P)} {found : List Bool}
    (h : Truthful n (completed.map TxSummary.hash) found) :
    ∀ c ∈ completed.zip found, c.2 = true → c.1.hash ∈ n.included := by
  intro c hc
  refine h.2 (c.1.hash, c.2) ?_
  rw [List.zip_map_left, List.mem_map]
  exact ⟨c, hc, rfl⟩

variable [DecidableEq P]

lemma Service.watches_watch_self (s : Service P ι) (h : Tx P) (d : TxCachedData) :
    (s.watchTransaction h d).Watches d.nonce :=
  ⟨h, by simp [watchTransaction], d, by simp [watchTransaction], rfl⟩

/-- Watching again under the same nonce forgets nothing. -/
lemma Service.Watches.watch {s : Service P ι} {h : Tx P} {d : TxCachedData} {nonce : ℕ}
    (hd : ∀ e, s.transactions h = some e → e.nonce = d.nonce) (hw : s.Watches nonce) :
    (s.watchTransaction h d).Watches nonce := by
  obtain ⟨t, ht, e, he, rfl⟩ := hw
  by_cases hth : t = h
  · subst hth
    exact hd e he ▸ s.watches_watch_self t d
  · exact ⟨t, by simp [watchTransaction, ht], e, by simp [watchTransaction, hth, he], rfl⟩

/-- Unwatching a hash forgets at most the nonce it is cached with. -/
lemma Service.Watches.unwatch {s : Service P ι} {h : Tx P} {nonce : ℕ} (hw : s.Watches nonce) :
    (s.unwatchTransaction h).Watches nonce ∨
      ∃ d, s.transactions h = some d ∧ d.nonce = nonce := by
  obtain ⟨t, ht, e, he, rfl⟩ := hw
  by_cases hth : t = h
  · subst hth
    exact .inr ⟨e, he, rfl⟩
  · exact .inl ⟨t, by simp [unwatchTransaction, ht, hth], e, by simp [unwatchTransaction, hth, he],
      rfl⟩

/-- A hash may be unwatched once its nonce is in a block. -/
lemma Tracked.unwatch {s : Shared P ι} {h : Tx P} {log : List (LogEvent P)} (hc : CacheInv s)
    (ht : Tracked s) (hm : s.node.Mined h.nonce)
    (hlog : ∀ t n, .TxSubmitted t n ∈ log → .TxSubmitted t n ∈ s.log) :
    Tracked { s with service := s.service.unwatchTransaction h, log := log } := by
  intro t nonce hmem
  rcases ht t nonce (hlog t nonce hmem) with hw | hmined
  · rcases hw.unwatch with hw | ⟨d, hd, rfl⟩
    · exact .inl hw
    · exact .inr ((hc.right h d hd).1 ▸ hm)
  · exact .inr hmined

lemma submitStep_tracked {i : ι} {p : P} {s s' : Shared P ι} {phase phase' : SubmitPhase P}
    {e : SubmitEvent} (hs : CacheInv s) (hr : RightSubmit i s phase) (ht : Tracked s)
    (h : SubmitStep cfg policy i p s phase e s' phase') : Tracked s' := by
  cases h with
  | @watch tx nonce =>
    obtain ⟨rfl, -⟩ := hr
    intro t n hmem
    simp only [List.mem_append, List.mem_singleton, LogEvent.TxSubmitted.injEq] at hmem
    rcases hmem with hmem | ⟨-, rfl⟩
    · exact (ht t n hmem).imp (fun hw => hw.watch fun e he => (hs.right tx e he).1) id
    · exact .inl (Service.watches_watch_self _ tx _)
  | gasPrice =>
    refine ht.of_eq rfl ?_ ?_ (List.Subset.refl _)
    all_goals simp [Shared.updateGasPrice]
  | answered _ => exact ht.of_eq rfl rfl rfl (by simp [Shared.handle])
  | _ => exact ht.of_eq rfl rfl rfl (List.Subset.refl _)

lemma finalizeAll_tracked (s : Shared P ι) (hs : CacheInv s) (ht : Tracked s)
    (completed : List (TxSummary P × Bool))
    (hc : ∀ c ∈ completed, c.2 = true → c.1.hash ∈ s.node.included) :
    Tracked (finalizeAll s completed) := by
  refine (finalizeAll_keeps (J := fun s' => CacheInv s' ∧ Tracked s' ∧ s'.node = s.node) ?_
    ⟨hs, ht, rfl⟩).2.1
  intro s' ⟨hs', ht', hnode⟩ c hmem hreceipt
  have hmined : s'.node.Mined c.1.hash.nonce := ⟨_, hnode ▸ hc c hmem hreceipt, rfl⟩
  exact ⟨hs'.unwatch, ht'.unwatch hs' hmined fun _ _ h => by simpa using h, hnode⟩

section Policy
variable (hpolicy : ∀ n t, policy.answers n t (.reject .nonceTooLow) = true → n.Mined t.nonce)
include hpolicy

lemma letterStep_tracked {s s' : Shared P ι} {txs : TxSummary P} {phase phase' : LetterPhase P}
    {e : LetterEvent} (hs : CacheInv s) (hr : RightLetter s.node ⟨txs, phase⟩)
    (hl : Letter.Late s.node ⟨txs, phase⟩) (ht : Tracked s)
    (h : LetterStep cfg policy s txs phase e s' phase') :
    Tracked s' ∧ Letter.Late s'.node ⟨txs, phase'⟩ := by
  obtain ⟨⟨d, hd, hright⟩, hphase⟩ := hr
  cases h with
  | throw _ => exact ⟨ht, fun _ _ _ hp => by simp at hp⟩
  | start _ => exact ⟨ht, fun _ _ _ hp => by simp at hp⟩
  | @answered tries g tx a ha =>
    refine ⟨ht.of_eq rfl rfl rfl (by simp [Shared.handle]), fun tries' g' tx' hp => ?_⟩
    cases hp
    exact (hpolicy _ _ ha).mono (by simp [Shared.handle])
  | lost =>
    exact ⟨ht.of_eq rfl rfl rfl (List.Subset.refl _), fun _ _ _ hp => by simp at hp⟩
  | @sent tries g tx d' hd' =>
    obtain rfl := Option.some.inj (hd.symm.trans hd')
    refine ⟨fun t nonce hmem => ?_, fun _ _ _ hp => by simp at hp⟩
    have hmem' : .TxSubmitted t nonce ∈ s.log := by simpa using hmem
    have hnonce : ∀ e, (s.service.unwatchTransaction txs.hash).transactions tx = some e →
        e.nonce = d.nonce := by
      intro e he
      have hun : CacheInv { s with service := s.service.unwatchTransaction txs.hash } := hs.unwatch
      rw [(hun.right tx e he).1, hphase.1, hright.1]
    rcases ht t nonce hmem' with hw | hmined
    · refine .inl ?_
      rcases hw.unwatch (h := txs.hash) with hw | ⟨e, he, rfl⟩
      · exact hw.watch hnonce
      · rw [(hs.right _ e he).1, ← hright.1]
        exact Service.watches_watch_self _ tx ⟨d.nonce, g, s.clock, d.expireIn * 2⟩
    · exact .inr hmined
  | @tooLow tries g tx =>
    have hm : s.node.Mined txs.hash.nonce := hphase.1 ▸ hl tries g tx rfl
    exact ⟨ht.unwatch hs hm fun _ _ h => h, nextLetter_late _ _ _ _⟩
  | priced => exact ⟨ht, fun _ _ _ hp => by simp at hp⟩
  | failed => exact ⟨ht, nextLetter_late _ _ _ _⟩
  | gasPrice =>
    refine ⟨ht.of_eq rfl ?_ ?_ (List.Subset.refl _), nextLetter_late _ _ _ _⟩
    all_goals simp [Shared.updateGasPrice]

lemma checkStep_tracked {s s' : Shared P ι} {phase phase' : CheckPhase P} {e : CheckEvent}
    (hs : CacheInv s) (hr : RightCheck s.node phase)
    (hl : LateLetters s.node (.checkTransactions phase)) (ht : Tracked s)
    (h : CheckStep cfg policy s phase e s' phase') :
    Tracked s' ∧ LateLetters s'.node (.checkTransactions phase') := by
  cases h with
  | lowLetter hk hls =>
    have hmem := List.mem_of_getElem? hk
    obtain ⟨-, -, hg, -⟩ := letterStep_right hs (hr.1 _ hmem) hls
    obtain ⟨ht', hl'⟩ := letterStep_tracked hpolicy hs (hr.1 _ hmem) (hl _ hmem) ht hls
    exact ⟨ht', forall_letters_set (fun m hm => (hl m hm).mono hg.included) hl'⟩
  | expiredLetter hk hls =>
    have hmem := List.mem_of_getElem? hk
    obtain ⟨-, -, hg, -⟩ := letterStep_right hs (hr.1 _ hmem) hls
    obtain ⟨ht', hl'⟩ := letterStep_tracked hpolicy hs (hr.1 _ hmem) (hl _ hmem) ht hls
    exact ⟨ht', forall_letters_set (fun m hm => (hl m hm).mono hg.included) hl'⟩
  | filtered => exact ⟨ht, letters_late⟩
  | lowSettled _ =>
    refine ⟨ht, ?_⟩
    split_ifs
    · exact fun l hl => by simp [CheckPhase.letters] at hl
    · exact letters_late
  | expiredSettled _ =>
    refine ⟨ht, ?_⟩
    split_ifs
    all_goals exact fun l hl => by simp [CheckPhase.letters] at hl
  | receipts htrue =>
    exact ⟨finalizeAll_tracked s hs ht _ (mem_included_of_truthful htrue),
      fun l hl => by simp [CheckPhase.letters] at hl⟩
  | _ => exact ⟨ht, fun l hl => by simp [CheckPhase.letters] at hl⟩

end Policy

/-- A call that has returned `Ok` has logged its transaction. -/
def Logged (s : Shared P ι) : Task P → Prop
  | .submitTransaction _ (.finished (some tx)) => .TxSubmitted tx tx.nonce ∈ s.log
  | _ => True

omit [DecidableEq P] in
lemma Logged.mono {s s' : Shared P ι} {t : Task P} (hl : s.log ⊆ s'.log) (h : Logged s t) :
    Logged s' t := by
  unfold Logged at h ⊢
  split
  · exact hl h
  · trivial

lemma finalizeAll_log (s : Shared P ι) (completed : List (TxSummary P × Bool)) :
    s.log ⊆ (finalizeAll s completed).log :=
  finalizeAll_keeps (J := fun s' => s.log ⊆ s'.log)
    (fun _ hs _ _ _ => List.subset_append_of_subset_left _ hs) (List.Subset.refl _)

lemma letterStep_log {s s' : Shared P ι} {txs : TxSummary P} {phase phase' : LetterPhase P}
    {e : LetterEvent} (h : LetterStep cfg policy s txs phase e s' phase') : s.log ⊆ s'.log := by
  cases h with
  | sent _ => exact List.subset_append_left _ _
  | _ => exact List.Subset.refl _

lemma submitStep_logged {i : ι} {p : P} {s s' : Shared P ι} {phase phase' : SubmitPhase P}
    {e : SubmitEvent} (hr : RightSubmit i s phase)
    (h : SubmitStep cfg policy i p s phase e s' phase') :
    s.log ⊆ s'.log ∧ Logged s' (.submitTransaction p phase') := by
  have hnext : ∀ tries error, Logged s' (.submitTransaction p (nextSubmit tries error)) := by
    intro tries error
    rcases nextSubmit_cases (P := P) tries error with ⟨t, ht⟩ | ht
    all_goals
      rw [ht]
      trivial
  cases h with
  | watch =>
    obtain ⟨rfl, -⟩ := hr
    exact ⟨List.subset_append_left _ _, by simp [Logged]⟩
  | failed | gasPrice | refreshed => exact ⟨List.Subset.refl _, hnext _ _⟩
  | _ => exact ⟨List.Subset.refl _, trivial⟩

lemma checkStep_log {s s' : Shared P ι} {phase phase' : CheckPhase P} {e : CheckEvent}
    (h : CheckStep cfg policy s phase e s' phase') : s.log ⊆ s'.log := by
  cases h with
  | lowLetter _ hls | expiredLetter _ hls => exact letterStep_log hls
  | receipts _ => exact finalizeAll_log _ _
  | _ => exact List.Subset.refl _

variable [DecidableEq ι]

/-- On top of what is right: what is tracked. -/
def trackedOutline (cfg : AppConfig) (policy : Policy P ι)
    (hpolicy : ∀ n t, policy.answers n t (.reject .nonceTooLow) = true → n.Mined t.nonce) :
    Outline (machine cfg policy) fun c l => anyStep c l ∧ (rightOutline cfg policy).Holds c where
  inv := Tracked
  at_ _ s t := LateLetters s.node t ∧ Logged s t
  task c d i e hp ht hat h := by
    have hstep := step_cases h
    obtain ⟨-, hi⟩ := node_grows hstep
    have hright := hp.2.2 i
    change RightTask i c.shared (c.task i) at hright
    have hothers : c.shared.log ⊆ d.shared.log → ∀ j, j ≠ i →
        LateLetters d.shared.node (c.task j) ∧ Logged d.shared (c.task j) :=
      fun hl j _ => ⟨(hat j).1.mono hi, (hat j).2.mono hl⟩
    cases hstep with
    | @submit _ p phase e s phase' hci hs =>
      rw [hci] at hright
      obtain ⟨hl, hlogged⟩ := submitStep_logged hright hs
      refine ⟨submitStep_tracked hp.2.1 hright ht hs, ?_, hothers hl⟩
      rw [Config.resume_self]
      exact ⟨trivial, hlogged⟩
    | @check _ phase e s phase' hci hs =>
      have hself := (hat i).1
      rw [hci] at hright hself
      obtain ⟨ht', hl'⟩ := checkStep_tracked hpolicy hp.2.1 hright hself ht hs
      refine ⟨ht', ?_, hothers (checkStep_log hs)⟩
      rw [Config.resume_self]
      exact ⟨hl', trivial⟩
    | @odis _ phase e s phase' hci hs =>
      have hkeep : s.log = c.shared.log ∧ s.service = c.shared.service := by
        cases hs <;> exact ⟨rfl, rfl⟩
      refine ⟨ht.of_eq hkeep.1 (by simp [hkeep.2]) (by simp [hkeep.2]) hi, ?_,
        hothers (by simp [hkeep.1])⟩
      rw [Config.resume_self]
      exact ⟨trivial, trivial⟩
  env c d e hp ht hat h := by
    have hstep := step_cases h
    obtain ⟨-, hi⟩ := node_grows hstep
    have hkeep : d.task = c.task ∧ d.shared.log = c.shared.log ∧
        d.shared.service.watchedTransactions = c.shared.service.watchedTransactions ∧
        d.shared.service.transactions = c.shared.service.transactions := by
      cases hstep <;> simp [Shared.updateGasPrice]
    obtain ⟨htask, hl, hw, htr⟩ := hkeep
    refine ⟨ht.of_eq hl hw htr hi, fun j => ?_⟩
    rw [htask]
    exact ⟨(hat j).1.mono hi, (hat j).2.mono (by simp [hl])⟩

lemma Initial.tracked {c : Config (Shared P ι) ι (Task P)} (h : Initial cfg c)
    (hpolicy : ∀ n t, policy.answers n t (.reject .nonceTooLow) = true → n.Mined t.nonce) :
    (trackedOutline cfg policy hpolicy).Holds c := by
  refine ⟨fun t n hmem => by simp [h.log] at hmem, fun i => ?_⟩
  have hf := h.task i
  change LateLetters c.shared.node (c.task i) ∧ Logged c.shared (c.task i)
  cases ht : c.task i with
  | submitTransaction p phase =>
    rw [ht, Task.fresh] at hf
    exact ⟨trivial, hf ▸ trivial⟩
  | checkTransactions phase =>
    rw [ht, Task.fresh] at hf
    exact ⟨hf ▸ fun l hl => by simp [CheckPhase.letters] at hl, trivial⟩
  | getPhoneNumberSignature phase => exact ⟨trivial, trivial⟩

/-- For every nonce under which a call has returned `Ok`, a watched hash is cached with
it or a transaction that bears it is in a block. -/
theorem submitted_nonce_tracked {c d : Config (Shared P ι) ι (Task P)}
    (hpolicy : ∀ n t, policy.answers n t (.reject .nonceTooLow) = true → n.Mined t.nonce)
    (hc : Initial cfg c) (hrun : Run (machine cfg policy) anyStep c d) {i : ι} {p : P} {tx : Tx P}
    (hok : d.task i = .submitTransaction p (.finished (some tx))) :
    d.shared.service.Watches tx.nonce ∨ d.shared.node.Mined tx.nonce := by
  have hright := hrun.with_invariant (J := (rightOutline cfg policy).Holds)
    (fun _ _ _ hc hp hs => (rightOutline cfg policy).step hc hp hs) hc.right
  obtain ⟨htracked, hat⟩ := (trackedOutline cfg policy hpolicy).run hright (hc.tracked hpolicy)
  have hlogged := (hat i).2
  rw [hok] at hlogged
  exact htracked tx tx.nonce hlogged

/-- A finalized transaction is no longer watched, but it is in a block. -/
theorem submitted_nonce_tracked_finalized :
    ∃ d, Run (machine sampleConfig Policy.standard) anyStep sample d ∧
      d.shared.service.watchedTransactions = [] ∧
      (d.shared.service.Watches 0 ∨ d.shared.node.Mined 0) := by
  obtain ⟨d, hrun, hd⟩ := Run.exists_of_exec
    (M := machine sampleConfig Policy.standard) (P := anyStep) (c := sample)
    (q := fun d => d.task 0 = .submitTransaction 0 (.finished (some ⟨0, 1000, .payload 0⟩)) ∧
      d.shared.service.watchedTransactions = [])
    (submits 0 [.resume, .answer .accept, .resume, .resume] ++ checks 2 [.resume] ++
      [.env (.mine ⟨0, 1000, .payload 0⟩)] ++
      checks 2 [.summaries [.included], .resume, .resume, .resume, .receipts [true]])
    (by decide +kernel)
  exact ⟨d, hrun, hd.2, submitted_nonce_tracked Policy.standard_nonceTooLow sample_initial hrun
    hd.1⟩

end Komenci.Relayer
