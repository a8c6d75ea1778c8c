import Komenci.RelayerDisposal

/-! The nonces of the watched transactions. The counter never falls, a call takes its
nonce from it once, and a dead letter takes over the nonce of what it replaces. -/
namespace Komenci.Relayer
open Interleaving

variable {P ι : Type} {cfg : AppConfig} {policy : Policy P ι}
variable {c d : Config (Shared P ι) ι (Task P)} {l : Label ι (Event P)}

/-- The transaction is watched, or its call is about to watch it. -/
def Acked (c : Config (Shared P ι) ι (Task P)) (t : Tx P) : Prop :=
  t ∈ c.shared.service.watchedTransactions ∨
    ∃ i p n, c.task i = .submitTransaction p (.watch t n)

structure Spread (c : Config (Shared P ι) ι (Task P)) : Prop where
  counter : c.shared.service.nonce ≤ c.shared.node.next
  nonces : ∀ k ∈ c.shared.node.nonces, k < c.shared.node.next
  known : ∀ r, Known c r → r.tx.nonce ≤ c.shared.node.next
  refreshed : ∀ i p tries k, c.task i = .submitTransaction p (.refreshed tries k) →
    c.shared.service.nonce ≤ k ∧ k ≤ c.shared.node.next
  below : ∀ t, Acked c t → t.nonce < c.shared.service.nonce
  distinct : ∀ t u, Acked c t → Acked c u → t.nonce = u.nonce → t = u

/-- What a step does to the counter and to what it stands for. -/
inductive AckStep (c d : Config (Shared P ι) ι (Task P)) : Prop
  | kept : c.shared.service.nonce ≤ d.shared.service.nonce →
      d.shared.service.nonce ≤ c.shared.node.next → (∀ t, Acked d t → Acked c t) → AckStep c d
  | sent {tx} : c.shared.node.Holds tx → tx.nonce = c.shared.service.nonce →
      d.shared.service.nonce = c.shared.service.nonce + 1 →
      (∀ t, Acked d t → Acked c t ∨ t = tx) → AckStep c d
  | replaced {h tx} : d.shared.service.nonce = c.shared.service.nonce → Acked c h →
      tx.nonce = h.nonce → (∀ t, Acked d t → Acked c t ∧ t ≠ h ∨ t = tx) → AckStep c d

lemma nextSubmit_ne_watch {tries : ℕ} {error : NodeError} {t : Tx P} {n : ℕ} :
    nextSubmit tries error ≠ .watch t n := by
  rcases nextSubmit_cases (P := P) tries error with ⟨u, hu⟩ | hu
  all_goals simp [hu]

lemma nextSubmit_ne_refreshed {tries tries' : ℕ} {error : NodeError} {k : ℕ} :
    (nextSubmit tries error : SubmitPhase P) ≠ .refreshed tries' k := by
  rcases nextSubmit_cases (P := P) tries error with ⟨u, hu⟩ | hu
  all_goals simp [hu]

lemma rightLetter_of_mem {n : Node P ι} {phase : CheckPhase P} (hr : RightCheck n phase)
    {letter : Letter P} (hl : letter ∈ phase.letters) : RightLetter n letter := by
  cases phase with
  | gasTooLow ls exp compl | expired ls compl => exact hr.1 letter hl
  | _ => exact absurd hl List.not_mem_nil

/-- A pass owns the dead letters of its that were accepted and not processed. -/
lemma owned_of_letter {phase : CheckPhase P} {letter : Letter P} {tries : ℕ} {g : ℚ} {tx : Tx P}
    (hl : letter ∈ phase.letters) (hp : letter.phase = .replied tries g tx .accept) :
    (⟨tx, .deadLetter letter.txs.hash⟩ : Request P ι) ∈ phase.view.owned := by
  have hown : (⟨tx, .deadLetter letter.txs.hash⟩ : Request P ι) ∈ letter.owned := by
    simp [Letter.owned, hp]
  cases phase with
  | gasTooLow ls exp compl | expired ls compl => exact List.mem_flatMap.mpr ⟨letter, hl, hown⟩
  | _ => exact absurd hl List.not_mem_nil

section Tasks
variable [DecidableEq P]

lemma letterStep_watched {s s' : Shared P ι} {txs : TxSummary P} {phase phase' : LetterPhase P}
    {e : LetterEvent} (h : LetterStep cfg policy s txs phase e s' phase') :
    s'.service.nonce = s.service.nonce ∧
      (s'.service.watchedTransactions ⊆ s.service.watchedTransactions ∨
        ∃ tries g tx, phase = .replied tries g tx .accept ∧
          ∀ t ∈ s'.service.watchedTransactions,
            t ∈ s.service.watchedTransactions ∧ t ≠ txs.hash ∨ t = tx) := by
  cases h with
  | @sent tries g tx d hd =>
    refine ⟨rfl, .inr ⟨tries, g, tx, rfl, fun t ht => ?_⟩⟩
    simp only [Service.watchTransaction, Service.unwatchTransaction, List.mem_insert_iff,
      List.mem_filter, decide_eq_true_eq] at ht
    exact ht.symm
  | tooLow => exact ⟨rfl, .inl (List.filter_subset_self _)⟩
  | gasPrice => simp [Shared.updateGasPrice]
  | _ => exact ⟨rfl, .inl (List.Subset.refl _)⟩

lemma finalizeAll_watched (s : Shared P ι) (completed : List (TxSummary P × Bool)) :
    (finalizeAll s completed).service.watchedTransactions ⊆ s.service.watchedTransactions :=
  finalizeAll_keeps
    (J := fun s' => s'.service.watchedTransactions ⊆ s.service.watchedTransactions)
    (fun _ hs _ _ _ => List.Subset.trans (List.filter_subset_self _) hs) (List.Subset.refl _)

lemma checkStep_watched {s s' : Shared P ι} (hs : CacheInv s) {phase phase' : CheckPhase P}
    {e : CheckEvent} (h : CheckStep cfg policy s phase e s' phase') :
    s'.service.nonce = s.service.nonce ∧
      (s'.service.watchedTransactions ⊆ s.service.watchedTransactions ∨
        ∃ letter ∈ phase.letters, ∃ tries g tx, letter.phase = .replied tries g tx .accept ∧
          ∀ t ∈ s'.service.watchedTransactions,
            t ∈ s.service.watchedTransactions ∧ t ≠ letter.txs.hash ∨ t = tx) := by
  cases h with
  | lowLetter hk hls | expiredLetter hk hls =>
    obtain ⟨hn, hw⟩ := letterStep_watched hls
    exact ⟨hn, hw.imp id fun hw => ⟨_, List.mem_of_getElem? hk, hw⟩⟩
  | receipts _ => exact ⟨(finalizeAll_right s hs _).2.2, .inl (finalizeAll_watched s _)⟩
  | _ => exact ⟨rfl, .inl (List.Subset.refl _)⟩

variable [DecidableEq ι]

omit [DecidableEq P] in
/-- After a step of task `i`, what is watched or about to be is so because of that step
or was about to be before. -/
lemma acked_resume {i : ι} {s : Shared P ι} {task : Task P} {t : Tx P}
    (h : Acked (c.resume i (s, task)) t) :
    t ∈ s.service.watchedTransactions ∨ (∃ p n, task = .submitTransaction p (.watch t n)) ∨
      ∃ j p n, c.task j = .submitTransaction p (.watch t n) := by
  rcases h with h | ⟨j, p, n, hj⟩
  · exact .inl h
  · by_cases hji : j = i
    · subst hji
      exact .inr (.inl ⟨p, n, by simpa using hj⟩)
    · exact .inr (.inr ⟨j, p, n, by simpa [hji] using hj⟩)

omit [DecidableEq P] in
/-- A step of a task that neither watches anything new nor moves the counter. -/
lemma AckStep.quiet (hs : Spread c) {i : ι} {s : Shared P ι} {task : Task P}
    (hn : s.service.nonce = c.shared.service.nonce)
    (hw : s.service.watchedTransactions ⊆ c.shared.service.watchedTransactions)
    (ht : ∀ p t n, task ≠ .submitTransaction p (.watch t n)) :
    AckStep c (c.resume i (s, task)) := by
  refine .kept hn.ge (hn.trans_le hs.counter) fun t hack => ?_
  rcases acked_resume hack with h | ⟨p, n, h⟩ | h
  · exact .inl (hw h)
  · exact absurd h (ht p t n)
  · exact .inr h

lemma submitStep_ack (hs : Spread c) {i : ι} {p : P} {s : Shared P ι}
    {phase phase' : SubmitPhase P} {e : SubmitEvent} (hr : RightSubmit i c.shared phase)
    (hi : c.task i = .submitTransaction p phase)
    (h : SubmitStep cfg policy i p c.shared phase e s phase') :
    AckStep c (c.resume i (s, .submitTransaction p phase')) := by
  cases h with
  | @sent tries tx =>
    obtain ⟨-, hnonce, hholds⟩ := hr
    refine .sent (hholds rfl) hnonce rfl fun t hack => ?_
    rcases acked_resume hack with h | ⟨p', n, h⟩ | h
    · exact .inl (.inl h)
    · cases h
      exact .inr rfl
    · exact .inl (.inr h)
  | @watch tx nonce =>
    refine .kept le_rfl hs.counter fun t hack => ?_
    rcases acked_resume hack with h | ⟨p', n, h⟩ | h
    · rcases List.mem_insert_iff.mp h with rfl | h
      · exact .inr ⟨i, p, nonce, hi⟩
      · exact .inl h
    · cases h
    · exact .inr h
  | @refreshed tries k =>
    obtain ⟨hle, hnext⟩ := hs.refreshed i p tries k hi
    refine .kept hle hnext fun t hack => ?_
    rcases acked_resume hack with h | ⟨p', n, h⟩ | h
    · exact .inl h
    · exact absurd (Task.submitTransaction.inj h).2 nextSubmit_ne_watch
    · exact .inr h
  | failed =>
    exact .quiet hs rfl (List.Subset.refl _) fun _ _ _ h =>
      nextSubmit_ne_watch (Task.submitTransaction.inj h).2
  | gasPrice =>
    refine .quiet hs ?_ ?_ fun _ _ _ h => nextSubmit_ne_watch (Task.submitTransaction.inj h).2
    all_goals simp [Shared.updateGasPrice]
  | _ => exact .quiet hs rfl (List.Subset.refl _) fun _ _ _ h => by cases h

lemma checkStep_ack (hs : Spread c) (hc : CacheInv c.shared) (hl : Ledger c.shared (views c)) {i : ι}
    {s : Shared P ι} {phase phase' : CheckPhase P} {e : CheckEvent}
    (hr : RightCheck c.shared.node phase) (hi : c.task i = .checkTransactions phase)
    (h : CheckStep cfg policy c.shared phase e s phase') :
    AckStep c (c.resume i (s, .checkTransactions phase')) := by
  obtain ⟨hn, hw | ⟨letter, hletter, tries, g, tx, hphase, hw⟩⟩ := checkStep_watched hc h
  · exact .quiet hs hn hw fun _ _ _ h => by cases h
  · obtain ⟨-, hnonce⟩ := rightLetter_of_mem hr hletter
    rw [hphase] at hnonce
    have hwatched : letter.txs.hash ∈ c.shared.service.watchedTransactions := by
      have howned : ⟨tx, .deadLetter letter.txs.hash⟩ ∈ (views c i).owned := by
        rw [views, hi]
        exact owned_of_letter hletter hphase
      exact ((hl.view i).todo _ (List.mem_append_right _ (View.mem_replaced howned rfl))).1
    refine .replaced (h := letter.txs.hash) hn (.inl hwatched) hnonce.1 fun t hack => ?_
    rcases acked_resume hack with h | ⟨p, n, h⟩ | ⟨j, p, n, hj⟩
    · exact (hw t h).imp (fun h => ⟨.inl h.1, h.2⟩) id
    · cases h
    · refine .inl ⟨.inr ⟨j, p, n, hj⟩, fun heq => ?_⟩
      have howned : ⟨t, .submit j⟩ ∈ (views c j).owned := by simp [views, hj, Task.view,
        SubmitPhase.view]
      exact ((hl.view j).owned _ howned).2.1 (heq ▸ hwatched)

lemma ack_step (hs : Spread c) (hright : (rightOutline cfg policy).Holds c)
    (hl : Ledger c.shared (views c)) (h : Step cfg policy c l d) : AckStep c d := by
  have hr : ∀ i, RightTask i c.shared (c.task i) := hright.2
  have henv : ∀ s : Shared P ι, s.service.nonce = c.shared.service.nonce →
      s.service.watchedTransactions = c.shared.service.watchedTransactions →
      AckStep c ⟨s, c.task⟩ := by
    intro s hn hw
    exact .kept hn.ge (hn.trans_le hs.counter) fun t hack => hack.imp (fun h => hw ▸ h) id
  cases h with
  | @submit i p phase e s phase' hi hsub =>
    have hri := hr i
    rw [hi] at hri
    exact submitStep_ack hs hri hi hsub
  | @check i phase e s phase' hi hcheck =>
    have hri := hr i
    rw [hi] at hri
    exact checkStep_ack hs hright.1 hl hri hi hcheck
  | @odis i phase e s phase' hi hodis =>
    have hservice := odisStep_service hodis
    exact .quiet hs (by rw [hservice]) (by rw [hservice]; exact List.Subset.refl _)
      fun _ _ _ h => by cases h
  | mine | arrive | tick => exact henv _ rfl rfl
  | gasPrice =>
    refine henv _ ?_ ?_
    all_goals simp [Shared.updateGasPrice]

/-- The others leave the counter alone while `i` holds the mutex. -/
lemma keepsLock_of_step (hright : (rightOutline cfg policy).Holds c)
    (h : Step cfg policy c l d) {i : ι} (hi : ∀ e, l ≠ .task i e) :
    KeepsLock i c.shared d.shared ∧ d.task i = c.task i := by
  have hr : ∀ i, RightTask i c.shared (c.task i) := hright.2
  have hne : ∀ {j : ι} {e : Event P}, l = .task j e → i ≠ j := by
    rintro j e rfl rfl
    exact hi e rfl
  cases h with
  | @submit j p phase e s phase' hj hsub =>
    have hrj := hr j
    rw [hj] at hrj
    obtain ⟨-, -, -, hk⟩ := submitStep_right hright.1 hrj hsub
    exact ⟨hk i (hne rfl), by simp [hne rfl]⟩
  | @check j phase e s phase' hj hcheck =>
    have hrj := hr j
    rw [hj] at hrj
    obtain ⟨-, -, -, hk⟩ := checkStep_right hright.1 hrj hcheck
    exact ⟨hk i, by simp [hne rfl]⟩
  | @odis j phase e s phase' hj hodis =>
    exact ⟨(odisStep_right hright.1 hodis).2.2 i, by simp [hne rfl]⟩
  | mine | arrive | tick => exact ⟨.of_eq rfl rfl, rfl⟩
  | gasPrice =>
    refine ⟨.of_eq ?_ ?_, rfl⟩
    all_goals simp [Shared.updateGasPrice]

/-- What a request asks for is at most the node's next nonce. -/
lemma Spread.creates (hs : Spread c) (hright : (rightOutline cfg policy).Holds c)
    {r : Request P ι} (h : Creates c l r) : r.tx.nonce ≤ c.shared.node.next := by
  cases h with
  | submit hi => exact hs.counter
  | @deadLetter i phase k letter dat g hi hl hd =>
    have hri : RightTask i c.shared (c.task i) := hright.2 i
    rw [hi] at hri
    obtain ⟨⟨dat', hd', hnonce, hholds⟩, -⟩ := rightLetter_of_mem hri (List.mem_of_getElem? hl)
    obtain rfl := Option.some.inj (hd.symm.trans hd')
    exact (hnonce.trans_lt (hs.nonces _ hholds.nonce_mem)).le
  | replenish => exact le_rfl

lemma Spread.node (hs : Spread c) (hright : (rightOutline cfg policy).Holds c)
    (h : Step cfg policy c l d) :
    c.shared.node.next ≤ d.shared.node.next ∧ ∀ k ∈ d.shared.node.nonces, k < d.shared.node.next := by
  cases node_step h with
  | same hn =>
    rw [hn]
    exact ⟨le_rfl, hs.nonces⟩
  | @handle r a limbo hh ha hsub hn =>
    rw [hn]
    refine ⟨Node.next_le_handle _ _ _, ?_⟩
    cases a with
    | accept =>
      exact Node.below_accept hs.nonces ((handled_known hh).elim (hs.known r) (hs.creates hright))
    | reject _ => exact hs.nonces
  | lose _ hn =>
    rw [hn]
    exact ⟨le_rfl, hs.nonces⟩
  | mine hm =>
    obtain ⟨-, -, hn⟩ := Node.mine_eq_some hm
    rw [hn]
    exact ⟨le_rfl, hs.nonces⟩

/-- A refreshed count that was taken before the step still bounds the counter. -/
lemma Spread.refreshed_step (hs : Spread c) (hright : (rightOutline cfg policy).Holds c)
    (hcounts : ∀ n k, policy.counts n k = true → k = n.next) (h : Step cfg policy c l d)
    {i : ι} {p : P} {tries k : ℕ} (hi : d.task i = .submitTransaction p (.refreshed tries k)) :
    d.shared.service.nonce ≤ k ∧ k ≤ c.shared.node.next := by
  by_cases hl : ∀ e, l ≠ .task i e
  · obtain ⟨hk, htask⟩ := keepsLock_of_step hright h hl
    have hri : RightTask i c.shared (c.task i) := hright.2 i
    rw [htask] at hi
    rw [hi] at hri
    rw [(hk hri).2]
    exact hs.refreshed i p tries k hi
  · push Not at hl
    obtain ⟨e, rfl⟩ := hl
    cases h with
    | submit hci hsub =>
      rw [Config.resume_self] at hi
      cases hi
      generalize hph : SubmitPhase.refreshed tries k = phase' at hsub
      cases hsub with
      | counted hk =>
        cases hph
        obtain rfl := hcounts _ _ hk
        exact ⟨hs.counter, le_rfl⟩
      | failed | gasPrice | refreshed => exact absurd hph.symm nextSubmit_ne_refreshed
      | _ => cases hph
    | check _ _ | odis _ _ =>
      rw [Config.resume_self] at hi
      cases hi

theorem Spread.step (hs : Spread c) (hright : (rightOutline cfg policy).Holds c)
    (hl : Ledger c.shared (views c))
    (hcounts : ∀ n k, policy.counts n k = true → k = n.next) (h : Step cfg policy c l d) :
    Spread d := by
  obtain ⟨hgrow, hnonces⟩ := hs.node hright h
  have hknown : ∀ r, Known d r → r.tx.nonce ≤ d.shared.node.next := fun r hr =>
    ((known_of_step h hr).elim (hs.known r) (hs.creates hright)).trans hgrow
  have hrefreshed : ∀ i p tries k, d.task i = .submitTransaction p (.refreshed tries k) →
      d.shared.service.nonce ≤ k ∧ k ≤ d.shared.node.next := fun i p tries k hi =>
    (hs.refreshed_step hright hcounts h hi).imp id fun hk => hk.trans hgrow
  cases ack_step hs hright hl h with
  | kept hle hnext hack =>
    exact ⟨hnext.trans hgrow, hnonces, hknown, hrefreshed,
      fun t ht => (hs.below t (hack t ht)).trans_le hle,
      fun t u ht hu => hs.distinct t u (hack t ht) (hack u hu)⟩
  | @sent tx hholds hnonce hd hack =>
    have hlt := hs.nonces _ hholds.nonce_mem
    refine ⟨by omega, hnonces, hknown, hrefreshed, fun t ht => ?_, fun t u ht hu htu => ?_⟩
    · rcases hack t ht with ht | rfl
      · have := hs.below t ht
        omega
      · omega
    · rcases hack t ht with ht | rfl
      · rcases hack u hu with hu | rfl
        · exact hs.distinct t u ht hu htu
        · have := hs.below t ht
          omega
      · rcases hack u hu with hu | rfl
        · have := hs.below u hu
          omega
        · rfl
  | @replaced g tx hd hg hnonce hack =>
    have hbelow := hs.below g hg
    refine ⟨hd ▸ hs.counter.trans hgrow, hnonces, hknown, hrefreshed, fun t ht => ?_,
      fun t u ht hu htu => ?_⟩
    · rcases hack t ht with ⟨ht, -⟩ | rfl
      · exact hd ▸ hs.below t ht
      · rwa [hd, hnonce]
    · rcases hack t ht with ⟨ht, htg⟩ | rfl
      · rcases hack u hu with ⟨hu, -⟩ | rfl
        · exact hs.distinct t u ht hu htu
        · exact absurd (hs.distinct t g ht hg (htu.trans hnonce)) htg
      · rcases hack u hu with ⟨hu, hug⟩ | rfl
        · exact absurd (hs.distinct u g hu hg (htu.symm.trans hnonce)) hug
        · rfl

omit [DecidableEq ι] in
lemma Initial.acked_pending (h : Initial cfg c) : ∃ pending : List (Tx P),
    (∀ t, Acked c t → t ∈ pending) ∧ (∀ t ∈ pending, c.shared.node.Holds t) ∧
      pending.Pairwise fun t u => t.nonce ≠ u.nonce := by
  obtain ⟨raw, pending, hservice, hholds, hpair⟩ := h.service
  refine ⟨pending, fun t hack => ?_, hholds, hpair⟩
  rcases hack with ht | ⟨i, p, n, hi⟩
  · rw [hservice, onModuleInit] at ht
    refine watchAll_keeps (J := fun s => s.watchedTransactions ⊆ pending) ?_ (by simp) ht
    intro s u hu hs v hv
    rcases List.mem_insert_iff.mp hv with rfl | hv
    · exact hu
    · exact hs hv
  · have hf := h.task i
    rw [hi, Task.fresh] at hf
    cases hf

omit [DecidableEq ι] in
lemma Initial.spread (h : Initial cfg c) : Spread c := by
  obtain ⟨pending, hack, hholds, hpair⟩ := h.acked_pending
  refine ⟨h.nonce_eq.le, h.nonces, fun r hr => ?_, fun i p tries k hi => ?_, fun t ht => ?_,
    fun t u ht hu htu => ?_⟩
  · exact (h.nonces _ (List.mem_map_of_mem (h.known_accepted hr))).le
  · have hf := h.task i
    rw [hi, Task.fresh] at hf
    cases hf
  · rw [h.nonce_eq]
    exact h.nonces _ (hholds t (hack t ht)).nonce_mem
  · by_contra hne
    have : Std.Symm fun t u : Tx P => t.nonce ≠ u.nonce := ⟨fun _ _ h => h.symm⟩
    exact hpair.forall (hack t ht) (hack u hu) hne htu

/-- Each transaction is disposed of at most once, by an accepted dead letter or by
`TxConfirmed`, and no two that are watched are cached with one nonce. -/
theorem disposed_once (hfresh : ∀ n t, policy.answers n t .accept = true → ¬ n.Holds t)
    (hcounts : ∀ n k, policy.counts n k = true → k = n.next) (hc : Initial cfg c)
    (hrun : Run (machine cfg policy) KeepsApart c d) :
    (∀ h, disposals d.shared h ≤ 1) ∧
      ∀ t ∈ d.shared.service.watchedTransactions, ∀ u ∈ d.shared.service.watchedTransactions,
        (d.shared.service.transactions t).map TxCachedData.nonce =
          (d.shared.service.transactions u).map TxCachedData.nonce → t = u := by
  have h := hrun.invariant
    (J := fun c => (rightOutline cfg policy).Holds c ∧ Apart c ∧ Spread c)
    (fun _ _ _ hc hp hs => ⟨(rightOutline cfg policy).step hc.1 trivial hs,
      hc.2.1.step hfresh hp (step_cases hs),
      hc.2.2.step hc.1 hc.2.1.ledger hcounts (step_cases hs)⟩)
    ⟨hc.right, hc.apart, hc.spread⟩
  obtain ⟨⟨hcache, -⟩, hapart, hspread⟩ := h
  refine ⟨hapart.ledger.once, fun t ht u hu htu => hspread.distinct t u (.inl ht) (.inl hu) ?_⟩
  change CacheInv d.shared at hcache
  obtain ⟨dt, hdt⟩ := Option.isSome_iff_exists.mp ((hcache.watched t).mp ht)
  obtain ⟨du, hdu⟩ := Option.isSome_iff_exists.mp ((hcache.watched u).mp hu)
  rw [hdt, hdu] at htu
  have hnonce : dt.nonce = du.nonce := by simpa using htu
  rw [← (hcache.right t dt hdt).1, ← (hcache.right u du hdu).1, hnonce]

/-- An expired transaction gets a dead letter, which the next pass confirms. -/
theorem disposed_once_letter_confirmed :
    ∃ d, Run (machine sampleConfig Policy.standard) KeepsApart smallSample d ∧
      (∀ h, disposals d.shared h ≤ 1) ∧ disposals d.shared ⟨0, 1000, .payload 0⟩ = 1 ∧
      disposals d.shared ⟨0, 1400, .deadLetter⟩ = 1 := by
  obtain ⟨d, hrun, hd⟩ := Run.exists_of_exec
    (M := machine sampleConfig Policy.standard) (P := KeepsApart) (c := smallSample)
    (q := fun d => disposals d.shared ⟨0, 1000, .payload 0⟩ = 1 ∧
      disposals d.shared ⟨0, 1400, .deadLetter⟩ = 1)
    ([.env (.tick 1)] ++ submits 0 [.resume, .answer .accept, .resume, .resume] ++
      [.env (.tick 60001)] ++ checks 2 [.resume, .summaries [.pending], .resume, .resume,
        .letter 0 .resume, .letter 0 (.answer .accept), .letter 0 .resume, .resume,
        .receipts []] ++ [.env (.mine ⟨0, 1400, .deadLetter⟩)] ++
      checks 3 [.resume, .summaries [.included], .resume, .resume, .resume, .receipts [true]])
    (by decide +kernel)
  exact ⟨d, hrun, (disposed_once Policy.standard_fresh Policy.standard_counts
    smallSample_initial hrun).1, hd⟩

/-- An item both under-priced and expired gets two dead letters in one pass, as the gas
price rises between them, and both are watched under one nonce. -/
theorem disposed_twice :
    ∃ d, Run (machine sampleConfig Policy.standard) anyStep smallSample d ∧
      disposals d.shared ⟨0, 1000, .payload 0⟩ = 2 ∧
      d.shared.service.watchedTransactions =
        [⟨0, 4000, .deadLetter⟩, ⟨0, 2000, .deadLetter⟩] :=
  Run.exists_of_exec
    ([.env (.tick 1)] ++ submits 0 [.resume, .answer .accept, .resume, .resume] ++
      [.env (.gasPrice (some 400)), .env (.tick 60001)] ++ checks 2 [.resume,
        .summaries [.pending], .resume, .letter 0 .resume, .letter 0 (.answer .accept),
        .letter 0 .resume, .resume] ++ [.env (.gasPrice (some 800))] ++
      checks 2 [.letter 0 .resume, .letter 0 (.answer .accept), .letter 0 .resume])
    (by decide +kernel)

end Tasks

end Komenci.Relayer
