import Komenci.RelayerRequests

/-! What the service keeps of its transactions is right: each entry of the watch list
was accepted by the node and is cached with its own nonce. Carried by the mutex: the
counter does not move between a call's send and its increment. -/
namespace Komenci.Relayer
open Interleaving

variable {P ι : Type} {cfg : AppConfig} {policy : Policy P ι}

/-- The cached data are about the accepted transaction `h`. -/
def Right (n : Node P ι) (h : Tx P) (d : TxCachedData) : Prop := d.nonce = h.nonce ∧ n.Holds h

structure CacheInv (s : Shared P ι) : Prop where
  right : ∀ h d, s.service.transactions h = some d → Right s.node h d
  watched : ∀ h, h ∈ s.service.watchedTransactions ↔ (s.service.transactions h).isSome

def RightSummary (n : Node P ι) (txs : TxSummary P) : Prop :=
  ∃ d, txs.cachedTx = some d ∧ Right n txs.hash d

/-- A letter bears the nonce of the transaction it is to replace. -/
def RightLetter (n : Node P ι) (l : Letter P) : Prop :=
  RightSummary n l.txs ∧
    match l.phase with
    | .send _ _ tx => tx.nonce = l.txs.hash.nonce
    | .replied _ _ tx a => tx.nonce = l.txs.hash.nonce ∧ (a = .accept → n.Holds tx)
    | _ => True

def RightSubmit (i : ι) (s : Shared P ι) : SubmitPhase P → Prop
  | .send _ tx => s.service.nonceLock = some i ∧ tx.nonce = s.service.nonce
  | .replied _ tx a => s.service.nonceLock = some i ∧ tx.nonce = s.service.nonce ∧
      (a = .accept → s.node.Holds tx)
  | .watch tx nonce => nonce = tx.nonce ∧ s.node.Holds tx
  | .refresh _ => s.service.nonceLock = some i
  | .refreshed _ _ => s.service.nonceLock = some i
  | _ => True

def RightCheck (n : Node P ι) : CheckPhase P → Prop
  | .getTxSummaries watched => ∀ w ∈ watched, ∃ d, w.2 = some d ∧ Right n w.1 d
  | .logBalance txs low => (∀ t ∈ txs, RightSummary n t) ∧ ∀ t ∈ low, RightSummary n t
  | .gasTooLow ls exp compl => (∀ l ∈ ls, RightLetter n l) ∧ (∀ t ∈ exp, RightSummary n t) ∧
      ∀ t ∈ compl, RightSummary n t
  | .expired ls compl => (∀ l ∈ ls, RightLetter n l) ∧ ∀ t ∈ compl, RightSummary n t
  | .withReceipts compl => ∀ t ∈ compl, RightSummary n t
  | _ => True

def RightTask (i : ι) (s : Shared P ι) : Task P → Prop
  | .submitTransaction _ phase => RightSubmit i s phase
  | .checkTransactions phase => RightCheck s.node phase
  | .getPhoneNumberSignature _ => True

/-- What a step does not take back. -/
structure Grows (s s' : Shared P ι) : Prop where
  accepted : s.node.accepted ⊆ s'.node.accepted
  included : s.node.included ⊆ s'.node.included

/-- The step leaves the counter alone if the mutex is with `i`. -/
def KeepsLock (i : ι) (s s' : Shared P ι) : Prop :=
  s.service.nonceLock = some i → s'.service.nonceLock = some i ∧ s'.service.nonce = s.service.nonce

lemma Grows.of_eq {s s' : Shared P ι} (ha : s'.node.accepted = s.node.accepted)
    (hi : s'.node.included = s.node.included) : Grows s s' :=
  ⟨fun _ h => ha ▸ h, fun _ h => hi ▸ h⟩

lemma Grows.handle (s : Shared P ι) (r : Request P ι) (a : Answer) : Grows s (s.handle r a) :=
  ⟨Node.subset_handle _ _ _, by simp [Shared.handle]⟩

lemma Right.mono {n m : Node P ι} {h : Tx P} {d : TxCachedData} (hs : n.accepted ⊆ m.accepted)
    (hr : Right n h d) : Right m h d := ⟨hr.1, hr.2.mono hs⟩

lemma RightSummary.mono {n m : Node P ι} {t : TxSummary P} (hs : n.accepted ⊆ m.accepted)
    (hr : RightSummary n t) : RightSummary m t := by
  obtain ⟨d, hd, h⟩ := hr
  exact ⟨d, hd, h.mono hs⟩

lemma RightLetter.mono {n m : Node P ι} {l : Letter P} (hs : n.accepted ⊆ m.accepted)
    (hr : RightLetter n l) : RightLetter m l := by
  obtain ⟨hsum, hl⟩ := hr
  refine ⟨hsum.mono hs, ?_⟩
  split at hl <;> simp_all only
  exact ⟨trivial, fun ha => (hl.2 ha).mono hs⟩

lemma RightCheck.mono {n m : Node P ι} {phase : CheckPhase P} (hs : n.accepted ⊆ m.accepted)
    (hr : RightCheck n phase) : RightCheck m phase := by
  cases phase with
  | getTxSummaries watched =>
    intro w hw
    obtain ⟨d, hd, h⟩ := hr w hw
    exact ⟨d, hd, h.mono hs⟩
  | logBalance txs low =>
    exact ⟨fun t ht => (hr.1 t ht).mono hs, fun t ht => (hr.2 t ht).mono hs⟩
  | gasTooLow ls exp compl =>
    exact ⟨fun l hl => (hr.1 l hl).mono hs, fun t ht => (hr.2.1 t ht).mono hs,
      fun t ht => (hr.2.2 t ht).mono hs⟩
  | expired ls compl =>
    exact ⟨fun l hl => (hr.1 l hl).mono hs, fun t ht => (hr.2 t ht).mono hs⟩
  | withReceipts compl => exact fun t ht => (hr t ht).mono hs
  | _ => trivial

lemma RightSubmit.mono {i : ι} {s s' : Shared P ι} {phase : SubmitPhase P} (hg : Grows s s')
    (hk : KeepsLock i s s') (hr : RightSubmit i s phase) : RightSubmit i s' phase := by
  cases phase with
  | send tries tx => exact ⟨(hk hr.1).1, hr.2.trans (hk hr.1).2.symm⟩
  | replied tries tx a =>
    exact ⟨(hk hr.1).1, hr.2.1.trans (hk hr.1).2.symm, fun ha => (hr.2.2 ha).mono hg.accepted⟩
  | watch tx nonce => exact ⟨hr.1, hr.2.mono hg.accepted⟩
  | refresh tries => exact (hk hr).1
  | refreshed tries k => exact (hk hr).1
  | _ => trivial

/-- The steps of the others do not disturb where a task stands. -/
lemma RightTask.mono {i : ι} {s s' : Shared P ι} {t : Task P} (hg : Grows s s')
    (hk : KeepsLock i s s') (hr : RightTask i s t) : RightTask i s' t := by
  cases t with
  | submitTransaction p phase => exact RightSubmit.mono hg hk hr
  | checkTransactions phase => exact RightCheck.mono hg.accepted hr
  | getPhoneNumberSignature phase => trivial

lemma KeepsLock.of_eq {i : ι} {s s' : Shared P ι}
    (hl : s'.service.nonceLock = s.service.nonceLock) (hn : s'.service.nonce = s.service.nonce) :
    KeepsLock i s s' := fun h => ⟨hl.trans h, hn⟩

lemma KeepsLock.of_held {i j : ι} {s s' : Shared P ι} (h : s.service.nonceLock = some i)
    (hj : j ≠ i) : KeepsLock j s s' := fun hl => absurd (Option.some.inj (hl.symm.trans h)) hj

lemma KeepsLock.of_free {j : ι} {s s' : Shared P ι} (h : s.service.nonceLock = none) :
    KeepsLock j s s' := fun hl => by simp [h] at hl

lemma nextSubmit_right (i : ι) (s : Shared P ι) (tries : ℕ) (error : NodeError) :
    RightSubmit i s (nextSubmit tries error) := by
  rcases nextSubmit_cases (P := P) tries error with ⟨t, ht⟩ | ht
  all_goals
    rw [ht]
    trivial

lemma nextLetter_right {n : Node P ι} {txs : TxSummary P} (h : RightSummary n txs) (tries : ℕ)
    (error : NodeError) : RightLetter n ⟨txs, nextLetter tries error⟩ := by
  rcases nextLetter_cases (P := P) tries error with ⟨t, ht⟩ | ht
  all_goals
    rw [ht]
    exact ⟨h, trivial⟩

lemma CacheInv.of_node {s s' : Shared P ι} (h : CacheInv s)
    (ht : s'.service.transactions = s.service.transactions)
    (hw : s'.service.watchedTransactions = s.service.watchedTransactions)
    (hs : s.node.accepted ⊆ s'.node.accepted) : CacheInv s' where
  right t d hd := (h.right t d (ht ▸ hd)).mono hs
  watched t := by rw [hw, ht, h.watched]

lemma summaries_right {n : Node P ι} {watched : List (Tx P × Option TxCachedData)}
    (answers : List TxStatus) (h : RightCheck n (.getTxSummaries watched)) :
    ∀ t ∈ summaries watched answers, RightSummary n t := by
  intro t ht
  obtain ⟨⟨w, a⟩, hw, rfl⟩ := List.mem_map.mp ht
  exact h w (List.of_mem_zip hw).1

lemma letters_right {n : Node P ι} {txs : List (TxSummary P)} (h : ∀ t ∈ txs, RightSummary n t) :
    ∀ l ∈ letters txs, RightLetter n l := by
  intro l hl
  obtain ⟨t, ht, rfl⟩ := List.mem_map.mp hl
  exact ⟨h t ht, trivial⟩

lemma odisStep_right {i : ι} {s s' : Shared P ι} {phase phase' : OdisPhase P} {e : OdisEvent}
    (hs : CacheInv s) (h : OdisStep policy i s phase e s' phase') :
    CacheInv s' ∧ Grows s s' ∧ ∀ j, KeepsLock j s s' := by
  cases h with
  | quiet _ => exact ⟨hs, .of_eq rfl rfl, fun j => .of_eq rfl rfl⟩
  | answered _ =>
    exact ⟨hs.of_node rfl rfl (Node.subset_handle _ _ _), .handle _ _ _, fun j => .of_eq rfl rfl⟩
  | lost =>
    exact ⟨hs.of_node rfl rfl (List.Subset.refl _), .of_eq rfl rfl, fun j => .of_eq rfl rfl⟩

variable [DecidableEq P]

lemma CacheInv.watch {s : Shared P ι} {h : Tx P} {d : TxCachedData} {log : List (LogEvent P)}
    (hs : CacheInv s) (hd : Right s.node h d) :
    CacheInv { s with service := s.service.watchTransaction h d, log := log } where
  right t e he := by
    rcases Service.cached_watch he with ⟨rfl, rfl⟩ | he
    · exact hd
    · exact hs.right t e he
  watched := Service.InStep.watch hs.watched h d

lemma CacheInv.unwatch {s : Shared P ι} {h : Tx P} {log : List (LogEvent P)} (hs : CacheInv s) :
    CacheInv { s with service := s.service.unwatchTransaction h, log := log } where
  right t e he := hs.right t e (Service.cached_unwatch he)
  watched := Service.InStep.unwatch hs.watched h

lemma submitStep_right {i : ι} {p : P} {s s' : Shared P ι} {phase phase' : SubmitPhase P}
    {e : SubmitEvent} (hs : CacheInv s) (hr : RightSubmit i s phase)
    (h : SubmitStep cfg policy i p s phase e s' phase') :
    CacheInv s' ∧ RightSubmit i s' phase' ∧ Grows s s' ∧ ∀ j ≠ i, KeepsLock j s s' := by
  have hsame : ∀ (l : Option ι) (n : ℕ), CacheInv { s with
      service := { s.service with nonceLock := l, nonce := n } } :=
    fun l n => hs.of_node rfl rfl (List.Subset.refl _)
  cases h with
  | acquire hl => exact ⟨hsame _ _, ⟨rfl, rfl⟩, .of_eq rfl rfl, fun j _ => .of_free hl⟩
  | @answered tries tx a ha =>
    refine ⟨hs.of_node rfl rfl (Node.subset_handle _ _ _), ⟨hr.1, hr.2, fun haccept => ?_⟩,
      .handle _ _ _, fun j _ => .of_eq rfl rfl⟩
    rw [haccept]
    exact Node.holds_accept _ _
  | lost =>
    exact ⟨hs.of_node rfl rfl (List.Subset.refl _), ⟨hr.1, hr.2, by simp⟩, .of_eq rfl rfl,
      fun j _ => .of_eq rfl rfl⟩
  | sent =>
    exact ⟨hsame _ _, ⟨hr.2.1.symm, hr.2.2 rfl⟩, .of_eq rfl rfl, fun j hj => .of_held hr.1 hj⟩
  | priced => exact ⟨hsame _ _, trivial, .of_eq rfl rfl, fun j hj => .of_held hr.1 hj⟩
  | tooLow => exact ⟨hsame _ _, trivial, .of_eq rfl rfl, fun j hj => .of_held hr.1 hj⟩
  | failed =>
    exact ⟨hsame _ _, nextSubmit_right _ _ _ _, .of_eq rfl rfl, fun j hj => .of_held hr.1 hj⟩
  | watch => exact ⟨hs.watch ⟨hr.1, hr.2⟩, trivial, .of_eq rfl rfl, fun j _ => .of_eq rfl rfl⟩
  | gasPrice =>
    refine ⟨hs.of_node ?_ ?_ (List.Subset.refl _), nextSubmit_right _ _ _ _, .of_eq rfl rfl,
      fun j _ => .of_eq ?_ ?_⟩
    all_goals simp [Shared.updateGasPrice]
  | acquireRefresh hl => exact ⟨hsame _ _, rfl, .of_eq rfl rfl, fun j _ => .of_free hl⟩
  | counted _ => exact ⟨hs, hr, .of_eq rfl rfl, fun j _ => .of_eq rfl rfl⟩
  | uncounted => exact ⟨hsame _ _, trivial, .of_eq rfl rfl, fun j hj => .of_held hr hj⟩
  | refreshed =>
    exact ⟨hsame _ _, nextSubmit_right _ _ _ _, .of_eq rfl rfl, fun j hj => .of_held hr hj⟩

lemma letterStep_right {s s' : Shared P ι} {txs : TxSummary P} {phase phase' : LetterPhase P}
    {e : LetterEvent} (hs : CacheInv s) (hr : RightLetter s.node ⟨txs, phase⟩)
    (h : LetterStep cfg policy s txs phase e s' phase') :
    CacheInv s' ∧ RightLetter s'.node ⟨txs, phase'⟩ ∧ Grows s s' ∧ ∀ j, KeepsLock j s s' := by
  obtain ⟨⟨d, hd, hright⟩, hl⟩ := hr
  have hsum : RightSummary s.node txs := ⟨d, hd, hright⟩
  cases h with
  | throw _ => exact ⟨hs, ⟨hsum, trivial⟩, .of_eq rfl rfl, fun j => .of_eq rfl rfl⟩
  | start hd' =>
    obtain rfl := Option.some.inj (hd.symm.trans hd')
    exact ⟨hs, ⟨hsum, hright.1⟩, .of_eq rfl rfl, fun j => .of_eq rfl rfl⟩
  | @answered tries g tx a ha =>
    refine ⟨hs.of_node rfl rfl (Node.subset_handle _ _ _), ⟨hsum.mono (Node.subset_handle _ _ _),
      hl, fun haccept => ?_⟩, .handle _ _ _, fun j => .of_eq rfl rfl⟩
    rw [haccept]
    exact Node.holds_accept _ _
  | lost =>
    exact ⟨hs.of_node rfl rfl (List.Subset.refl _), ⟨hsum, hl, by simp⟩, .of_eq rfl rfl,
      fun j => .of_eq rfl rfl⟩
  | sent hd' =>
    obtain rfl := Option.some.inj (hd.symm.trans hd')
    have hun : CacheInv { s with service := s.service.unwatchTransaction txs.hash } := hs.unwatch
    exact ⟨hun.watch ⟨hright.1.trans hl.1.symm, hl.2 rfl⟩, ⟨hsum, trivial⟩, .of_eq rfl rfl, fun j => .of_eq rfl rfl⟩
  | tooLow => exact ⟨hs.unwatch, nextLetter_right hsum _ _, .of_eq rfl rfl, fun j => .of_eq rfl rfl⟩
  | priced => exact ⟨hs, ⟨hsum, trivial⟩, .of_eq rfl rfl, fun j => .of_eq rfl rfl⟩
  | failed => exact ⟨hs, nextLetter_right hsum _ _, .of_eq rfl rfl, fun j => .of_eq rfl rfl⟩
  | gasPrice =>
    refine ⟨hs.of_node ?_ ?_ (List.Subset.refl _), nextLetter_right hsum _ _, .of_eq rfl rfl,
      fun j => .of_eq ?_ ?_⟩
    all_goals simp [Shared.updateGasPrice]

lemma finalizeAll_right (s : Shared P ι) (hs : CacheInv s) (completed : List (TxSummary P × Bool)) :
    CacheInv (finalizeAll s completed) ∧
      (finalizeAll s completed).service.nonceLock = s.service.nonceLock ∧
      (finalizeAll s completed).service.nonce = s.service.nonce :=
  finalizeAll_keeps (J := fun s' => CacheInv s' ∧ s'.service.nonceLock = s.service.nonceLock ∧
      s'.service.nonce = s.service.nonce)
    (fun _ h _ _ _ => ⟨h.1.unwatch, h.2⟩) ⟨hs, rfl, rfl⟩

lemma checkStep_right {s s' : Shared P ι} {phase phase' : CheckPhase P} {e : CheckEvent}
    (hs : CacheInv s) (hr : RightCheck s.node phase)
    (h : CheckStep cfg policy s phase e s' phase') :
    CacheInv s' ∧ RightCheck s'.node phase' ∧ Grows s s' ∧ ∀ j, KeepsLock j s s' := by
  cases h with
  | start =>
    refine ⟨hs, fun w hw => ?_, .of_eq rfl rfl, fun j => .of_eq rfl rfl⟩
    obtain ⟨t, ht, rfl⟩ := List.mem_map.mp hw
    obtain ⟨d, hd⟩ := Option.isSome_iff_exists.mp ((hs.watched t).mp ht)
    exact ⟨d, hd, hs.right t d hd⟩
  | @summaries watched answers _ =>
    have hall := summaries_right answers hr
    exact ⟨hs, ⟨hall, fun t ht => hall t (List.mem_of_mem_filter ht)⟩, .of_eq rfl rfl,
      fun j => .of_eq rfl rfl⟩
  | filtered =>
    exact ⟨hs, ⟨letters_right hr.2, fun t ht => hr.1 t (List.mem_of_mem_filter ht),
      fun t ht => hr.1 t (List.mem_of_mem_filter ht)⟩, .of_eq rfl rfl, fun j => .of_eq rfl rfl⟩
  | lowLetter hl hls =>
    obtain ⟨hs', hl', hg, hk⟩ := letterStep_right hs (hr.1 _ (List.mem_of_getElem? hl)) hls
    exact ⟨hs', ⟨forall_letters_set (fun m hm => (hr.1 m hm).mono hg.accepted) hl',
      fun t ht => (hr.2.1 t ht).mono hg.accepted, fun t ht => (hr.2.2 t ht).mono hg.accepted⟩, hg, hk⟩
  | expiredLetter hl hls =>
    obtain ⟨hs', hl', hg, hk⟩ := letterStep_right hs (hr.1 _ (List.mem_of_getElem? hl)) hls
    exact ⟨hs', ⟨forall_letters_set (fun m hm => (hr.1 m hm).mono hg.accepted) hl',
      fun t ht => (hr.2 t ht).mono hg.accepted⟩, hg, hk⟩
  | lowSettled _ =>
    refine ⟨hs, ?_, .of_eq rfl rfl, fun j => .of_eq rfl rfl⟩
    split_ifs
    · trivial
    · exact ⟨letters_right hr.2.1, hr.2.2⟩
  | expiredSettled _ =>
    refine ⟨hs, ?_, .of_eq rfl rfl, fun j => .of_eq rfl rfl⟩
    split_ifs
    · trivial
    · exact hr.2
  | receipts _ =>
    obtain ⟨hs', hl, hn⟩ := finalizeAll_right s hs _
    exact ⟨hs', trivial, .of_eq (by rw [finalizeAll_node]) (by rw [finalizeAll_node]),
      fun j => .of_eq hl hn⟩
  | unanswered | noBalance | noReceipts =>
    exact ⟨hs, trivial, .of_eq rfl rfl, fun j => .of_eq rfl rfl⟩

lemma Initial.cacheInv {c : Config (Shared P ι) ι (Task P)} (h : Initial cfg c) :
    CacheInv c.shared := by
  obtain ⟨raw, pending, hservice, hp, -⟩ := h.service
  have hstart : CacheInv ⟨c.shared.node, { updateGasPrice cfg raw
      (⟨[], fun _ => none, cfg.gasPriceFallback, none, 0⟩ : Service P ι) with
        nonce := c.shared.node.next }, c.shared.clock, c.shared.log⟩ :=
    ⟨fun t d hd => by simp at hd, fun t => by simp⟩
  have hc : c.shared = ⟨c.shared.node, c.shared.service, c.shared.clock, c.shared.log⟩ := rfl
  rw [hc, hservice]
  exact watchAll_keeps (J := fun s => CacheInv ⟨c.shared.node, s, c.shared.clock, c.shared.log⟩)
    (fun s t ht hs => hs.watch ⟨rfl, hp t ht⟩) hstart

lemma Initial.nonce_eq {c : Config (Shared P ι) ι (Task P)} (h : Initial cfg c) :
    c.shared.service.nonce = c.shared.node.next := by
  obtain ⟨raw, pending, hservice, -⟩ := h.service
  rw [hservice, onModuleInit]
  exact watchAll_keeps (J := fun s => s.nonce = c.shared.node.next) (fun _ _ _ hs => hs) rfl

section Outline
variable [DecidableEq ι]

/-- Whatever happens, what is kept of the transactions stays right. -/
def rightOutline (cfg : AppConfig) (policy : Policy P ι) :
    Outline (machine cfg policy) anyStep where
  inv := CacheInv
  at_ := RightTask
  task c d i e _ hs hat h := by
    cases step_cases h with
    | @submit _ p phase e s phase' hi hstep =>
      have hr := hat i
      rw [hi] at hr
      obtain ⟨hs', hr', hg, hk⟩ := submitStep_right hs hr hstep
      have hself : RightTask i s (.submitTransaction p phase') := hr'
      exact ⟨hs', by simpa using hself, fun j hj => (hat j).mono hg (hk j hj)⟩
    | @check _ phase e s phase' hi hstep =>
      have hr := hat i
      rw [hi] at hr
      obtain ⟨hs', hr', hg, hk⟩ := checkStep_right hs hr hstep
      have hself : RightTask i s (.checkTransactions phase') := hr'
      exact ⟨hs', by simpa using hself, fun j _ => (hat j).mono hg (hk j)⟩
    | @odis _ phase e s phase' hi hstep =>
      obtain ⟨hs', hg, hk⟩ := odisStep_right hs hstep
      exact ⟨hs', by simp [RightTask], fun j _ => (hat j).mono hg (hk j)⟩
  env c d e _ hs hat h := by
    have hkeep : ∀ d : Config (Shared P ι) ι (Task P), d.task = c.task → CacheInv d.shared →
        Grows c.shared d.shared → (∀ j, KeepsLock j c.shared d.shared) →
        CacheInv d.shared ∧ ∀ j, RightTask j d.shared (d.task j) :=
      fun d ht hs' hg hk => ⟨hs', fun j => ht ▸ (hat j).mono hg (hk j)⟩
    cases step_cases h with
    | mine hm =>
      obtain ⟨-, -, rfl⟩ := Node.mine_eq_some hm
      exact hkeep _ rfl (hs.of_node rfl rfl (List.Subset.refl _))
        ⟨List.Subset.refl _, List.subset_append_left _ _⟩ fun j => .of_eq rfl rfl
    | @arrive k a r hr ha =>
      exact hkeep _ rfl (hs.of_node rfl rfl (Node.subset_handle _ _ _))
        ⟨Node.subset_handle _ _ _, by simp⟩ fun j => .of_eq rfl rfl
    | gasPrice =>
      refine hkeep _ rfl (hs.of_node ?_ ?_ (List.Subset.refl _)) (.of_eq rfl rfl)
        fun j => .of_eq ?_ ?_
      all_goals simp [Shared.updateGasPrice]
    | tick =>
      exact hkeep _ rfl (hs.of_node rfl rfl (List.Subset.refl _)) (.of_eq rfl rfl)
        fun j => .of_eq rfl rfl

lemma Initial.right {c : Config (Shared P ι) ι (Task P)} (h : Initial cfg c) :
    (rightOutline cfg policy).Holds c := by
  refine ⟨h.cacheInv, fun i => ?_⟩
  have hf := h.task i
  change RightTask i c.shared (c.task i)
  cases ht : c.task i with
  | submitTransaction p phase =>
    rw [ht, Task.fresh] at hf
    exact hf ▸ trivial
  | checkTransactions phase =>
    rw [ht, Task.fresh] at hf
    exact hf ▸ trivial
  | getPhoneNumberSignature phase => trivial

end Outline

end Komenci.Relayer
