import Komenci.RelayerInit
import Komenci.RelayerRequests

/-! The watch list and the cache never diverge, so that every summary a pass has built
tells when its transaction was seen. A summary may outlive the entry it was built from:
what it has of the cache is its own copy. -/
namespace Komenci.Relayer
open Interleaving

variable {P ι : Type} {cfg : AppConfig} {policy : Policy P ι}

/-- The branch of `isExpired` that is never to be taken. -/
def logsTxNotInCache (txs : TxSummary P) : Bool :=
  match txs.tx, txs.cachedTx with
  | .included, _ => false
  | _, none => true
  | _, some cachedTx => cachedTx.seenAt = 0

lemma isExpired_iff (now : ℕ) (txs : TxSummary P) :
    isExpired now txs = true ↔ logsTxNotInCache txs = true ∨
      txs.tx ≠ .included ∧ ∃ d, txs.cachedTx = some d ∧ d.seenAt + d.expireIn < now := by
  obtain ⟨hash, cachedTx, tx⟩ := txs
  cases tx <;> cases cachedTx <;> simp [isExpired, logsTxNotInCache]

/-- The summaries a pass has, or gets with some answers of the node. -/
def CheckPhase.Has : CheckPhase P → TxSummary P → Prop
  | .getTxSummaries watched, t => ∃ answers, t ∈ summaries watched answers
  | .logBalance txs low, t => t ∈ txs ∨ t ∈ low
  | .gasTooLow ls exp compl, t => (∃ l ∈ ls, l.txs = t) ∨ t ∈ exp ∨ t ∈ compl
  | .expired ls compl, t => (∃ l ∈ ls, l.txs = t) ∨ t ∈ compl
  | .withReceipts compl, t => t ∈ compl
  | _, _ => False

/-- The copy of the cache that a summary has. -/
def TxSummary.Cached (t : TxSummary P) : Prop := ∃ d, t.cachedTx = some d ∧ 0 < d.seenAt

structure CheckPhase.Cached (phase : CheckPhase P) : Prop where
  has : ∀ t, phase.Has t → t.Cached
  letters : ∀ l ∈ phase.letters, l.txs.Cached ∧ l.phase ≠ .thrown

def ServiceTask.Cached : ServiceTask P → Prop
  | .task (.checkTransactions phase) => phase.Cached
  | _ => True

structure Synced (s : Shared P ι) : Prop where
  clock : 0 < s.clock
  inStep : s.service.InStep
  seenAt : ∀ h d, s.service.transactions h = some d → 0 < d.seenAt

/-- The step leaves both containers alone. -/
structure Calm (s s' : Shared P ι) : Prop where
  watched : s'.service.watchedTransactions = s.service.watchedTransactions
  transactions : s'.service.transactions = s.service.transactions
  clock : s.clock ≤ s'.clock

lemma Synced.calm {s s' : Shared P ι} (hs : Synced s) (h : Calm s s') : Synced s' where
  clock := lt_of_lt_of_le hs.clock h.clock
  inStep t := by rw [h.watched, h.transactions, hs.inStep]
  seenAt t d hd := hs.seenAt t d (h.transactions ▸ hd)

lemma Calm.updateGasPrice (s : Shared P ι) (raw : Option ℚ) : Calm s (s.updateGasPrice cfg raw) :=
  ⟨by simp [Shared.updateGasPrice], by simp [Shared.updateGasPrice], le_rfl⟩

lemma TxSummary.Cached.logsTxNotInCache {t : TxSummary P} (h : t.Cached) :
    logsTxNotInCache t = false := by
  obtain ⟨d, hd, hseen⟩ := h
  have hne : d.seenAt ≠ 0 := by omega
  unfold Relayer.logsTxNotInCache
  split <;> simp_all

/-- The time alone tells that it has expired. -/
lemma TxSummary.Cached.of_isExpired {t : TxSummary P} {now : ℕ} (h : t.Cached)
    (he : isExpired now t = true) :
    ∃ d, t.cachedTx = some d ∧ d.seenAt + d.expireIn < now := by
  rcases (isExpired_iff now t).mp he with hlogs | ⟨-, hlate⟩
  · simp [h.logsTxNotInCache] at hlogs
  · exact hlate

lemma odisStep_calm {i : ι} {s s' : Shared P ι} {phase phase' : OdisPhase P} {e : OdisEvent}
    (h : OdisStep policy i s phase e s' phase') : Calm s s' := by
  cases h <;> exact ⟨rfl, rfl, le_rfl⟩

lemma nextLetter_ne_thrown (tries : ℕ) (error : NodeError) :
    (nextLetter tries error : LetterPhase P) ≠ .thrown := by
  rcases nextLetter_cases (P := P) tries error with ⟨t, ht⟩ | ht
  all_goals simp [ht]

lemma letters_cached {txs : List (TxSummary P)} (h : ∀ t ∈ txs, t.Cached) :
    ∀ l ∈ letters txs, l.txs.Cached ∧ l.phase ≠ .thrown := by
  intro l hl
  obtain ⟨t, ht, rfl⟩ := List.mem_map.mp hl
  exact ⟨h t ht, by simp⟩

/-- A summary of a pass has what it had before or what is cached for a watched hash. -/
lemma checkStep_has [DecidableEq P] {s s' : Shared P ι} {phase phase' : CheckPhase P}
    {e : CheckEvent} {t : TxSummary P} (h : CheckStep cfg policy s phase e s' phase')
    (ht : phase'.Has t) : phase.Has t ∨
      t.hash ∈ s.service.watchedTransactions ∧ t.cachedTx = s.service.transactions t.hash := by
  have hletters : ∀ txs : List (TxSummary P), (∃ l ∈ letters txs, l.txs = t) → t ∈ txs := by
    intro txs h
    simpa [letters] using h
  have hset : ∀ {ls : List (Letter P)} {k : ℕ} {l : Letter P} {ph : LetterPhase P}, ls[k]? = some l →
      (∃ m ∈ ls.set k ⟨l.txs, ph⟩, m.txs = t) → ∃ m ∈ ls, m.txs = t := by
    intro ls k l ph hl ⟨m, hm, hmt⟩
    rcases mem_set_cases hm with hm | rfl
    · exact ⟨m, hm, hmt⟩
    · exact ⟨l, List.mem_of_getElem? hl, hmt⟩
  cases h with
  | start =>
    obtain ⟨answers, ht⟩ := ht
    obtain ⟨⟨w, a⟩, hw, rfl⟩ := List.mem_map.mp ht
    obtain ⟨k, hk, rfl⟩ := List.mem_map.mp (List.of_mem_zip hw).1
    exact .inr ⟨hk, rfl⟩
  | @summaries watched answers _ =>
    exact .inl ⟨answers, ht.elim id List.mem_of_mem_filter⟩
  | filtered =>
    rcases ht with ht | ht | ht
    · exact .inl (.inr (hletters _ ht))
    · exact .inl (.inl (List.mem_of_mem_filter ht))
    · exact .inl (.inl (List.mem_of_mem_filter ht))
  | lowLetter hl _ => exact .inl (Or.imp_left (hset hl) ht)
  | expiredLetter hl _ => exact .inl (Or.imp_left (hset hl) ht)
  | lowSettled _ =>
    split_ifs at ht
    · exact ht.elim
    · exact .inl (.inr (ht.imp_left (hletters _)))
  | expiredSettled _ =>
    split_ifs at ht
    · exact ht.elim
    · exact .inl (.inr ht)
  | unanswered | noBalance | receipts _ | noReceipts => exact ht.elim

section Steps
variable [DecidableEq P]

lemma Synced.watch {s : Shared P ι} {h : Tx P} {d : TxCachedData} {log : List (LogEvent P)}
    (hs : Synced s) (hd : 0 < d.seenAt) :
    Synced { s with service := s.service.watchTransaction h d, log := log } where
  clock := hs.clock
  inStep := hs.inStep.watch h d
  seenAt t e he := by
    rcases Service.cached_watch he with ⟨-, rfl⟩ | he
    · exact hd
    · exact hs.seenAt t e he

lemma Synced.unwatch {s : Shared P ι} {h : Tx P} {log : List (LogEvent P)} (hs : Synced s) :
    Synced { s with service := s.service.unwatchTransaction h, log := log } where
  clock := hs.clock
  inStep := hs.inStep.unwatch h
  seenAt t e he := hs.seenAt t e (Service.cached_unwatch he)

lemma submitStep_synced {i : ι} {p : P} {s s' : Shared P ι} {phase phase' : SubmitPhase P}
    {e : SubmitEvent} (hs : Synced s) (h : SubmitStep cfg policy i p s phase e s' phase') :
    Synced s' := by
  cases h with
  | watch => exact hs.watch hs.clock
  | gasPrice => exact hs.calm (.updateGasPrice _ _)
  | _ => exact hs.calm ⟨rfl, rfl, le_rfl⟩

/-- With its own copy a letter does not throw. -/
lemma letterStep_synced {s s' : Shared P ι} {txs : TxSummary P} {phase phase' : LetterPhase P}
    {e : LetterEvent} (hs : Synced s) (ht : txs.Cached)
    (h : LetterStep cfg policy s txs phase e s' phase') : Synced s' ∧ phase' ≠ .thrown := by
  obtain ⟨d, hd, -⟩ := ht
  cases h with
  | throw hnone => exact absurd (hd.symm.trans hnone) (by simp)
  | sent _ =>
    have hun : Synced { s with service := s.service.unwatchTransaction txs.hash } := hs.unwatch
    exact ⟨hun.watch hs.clock, by simp⟩
  | tooLow => exact ⟨hs.unwatch, nextLetter_ne_thrown _ _⟩
  | failed => exact ⟨hs, nextLetter_ne_thrown _ _⟩
  | gasPrice => exact ⟨hs.calm (.updateGasPrice _ _), nextLetter_ne_thrown _ _⟩
  | _ => exact ⟨hs.calm ⟨rfl, rfl, le_rfl⟩, by simp⟩

lemma finalizeAll_synced (s : Shared P ι) (hs : Synced s)
    (completed : List (TxSummary P × Bool)) : Synced (finalizeAll s completed) :=
  finalizeAll_keeps (fun _ hs _ _ _ => hs.unwatch) hs

lemma checkStep_synced {s s' : Shared P ι} {phase phase' : CheckPhase P} {e : CheckEvent}
    (hs : Synced s) (hp : phase.Cached) (h : CheckStep cfg policy s phase e s' phase') :
    Synced s' ∧ phase'.Cached := by
  have hhas : ∀ t, phase'.Has t → t.Cached := by
    intro t ht
    rcases checkStep_has h ht with hold | ⟨hw, hcached⟩
    · exact hp.has t hold
    · obtain ⟨d, hd⟩ := Option.isSome_iff_exists.mp ((hs.inStep t.hash).mp hw)
      exact ⟨d, hcached.trans hd, hs.seenAt _ d hd⟩
  have hnone : phase'.letters = [] → phase'.Cached :=
    fun hl => ⟨hhas, fun l hmem => by simp [hl] at hmem⟩
  cases h with
  | filtered => exact ⟨hs, hhas, letters_cached fun t ht => hp.has t (Or.inr ht)⟩
  | lowLetter hl hls | expiredLetter hl hls =>
    have hl' := (hp.letters _ (List.mem_of_getElem? hl)).1
    obtain ⟨hs', hphase⟩ := letterStep_synced hs hl' hls
    exact ⟨hs', hhas, forall_letters_set hp.letters ⟨hl', hphase⟩⟩
  | @lowSettled ls expired completed _ =>
    refine ⟨hs, hhas, ?_⟩
    split_ifs
    · simp [CheckPhase.letters]
    · exact letters_cached fun t ht => hp.has t (Or.inr (.inl ht))
  | expiredSettled _ =>
    refine ⟨hs, hnone ?_⟩
    split_ifs <;> rfl
  | receipts _ => exact ⟨finalizeAll_synced s hs _, hnone rfl⟩
  | _ => exact ⟨hs, hnone rfl⟩

/-- The recovery of the pending transactions. -/
lemma Synced.watchPending {s : Shared P ι} (hs : Synced s) (pending : List (Tx P)) :
    Synced (s.watchPending cfg pending) :=
  watchAll_keeps (J := fun service => Synced { s with service := service })
    (fun _ _ _ hs => hs.watch hs.clock) hs

lemma initStep_synced {i : ι} {s s' : Shared P ι} {phase phase' : InitPhase} {e : InitEvent P}
    (hs : Synced s) (h : InitStep cfg policy i s phase e s' phase') : Synced s' := by
  cases h with
  | gasPrice => exact hs.calm (.updateGasPrice _ _)
  | pending => exact hs.watchPending _
  | _ => exact hs.calm ⟨rfl, rfl, le_rfl⟩

lemma world_calm {e : Event P} {s s' : Shared P ι} (h : world cfg policy e s = some s') :
    Calm s s' := by
  unfold world at h
  split at h
  · obtain ⟨node, -, rfl⟩ := Option.map_eq_some_iff.mp h
    exact ⟨rfl, rfl, le_rfl⟩
  · unfold arrive at h
    split at h
    · cases h
    · split_ifs at h
      cases h
      exact ⟨rfl, rfl, le_rfl⟩
  · cases h
    exact .updateGasPrice _ _
  · cases h
    exact ⟨rfl, rfl, Nat.le_add_right _ _⟩
  · cases h

lemma segment_synced {i : ι} {e : Event P} {s : Shared P ι} {t : Task P} {r : Shared P ι × Task P}
    (hs : Synced s) (ht : (ServiceTask.task t).Cached) (h : segment cfg policy i e s t = some r) :
    Synced r.1 ∧ (ServiceTask.task r.2).Cached := by
  unfold segment at h
  split at h
  · split at h
    · obtain ⟨q, hq, rfl⟩ := Option.map_eq_some_iff.mp h
      exact ⟨submitStep_synced hs (submitTransaction_step hq), trivial⟩
    · cases h
  · split at h
    · obtain ⟨q, hq, rfl⟩ := Option.map_eq_some_iff.mp h
      exact checkStep_synced hs ht (checkTransactions_step hq)
    · cases h
  · split at h
    · obtain ⟨q, hq, rfl⟩ := Option.map_eq_some_iff.mp h
      exact ⟨hs.calm (odisStep_calm (getPhoneNumberSignature_step hq)), trivial⟩
    · cases h

variable [DecidableEq ι]

/-- What a pass has does not depend on what the others do. -/
def syncedOutline (cfg : AppConfig) (policy : Policy P ι) :
    Outline (serviceMachine cfg policy) anyStep where
  inv := Synced
  at_ _ _ := ServiceTask.Cached
  task c d i e _ hs hat h := by
    obtain ⟨r, hr, rfl⟩ := Option.map_eq_some_iff.mp h
    have hi := hat i
    suffices hstep : Synced r.1 ∧ r.2.Cached from
      ⟨hstep.1, by simpa using hstep.2, fun j _ => hat j⟩
    cases ht : c.task i with
    | onModuleInit phase =>
      rw [ht] at hr
      cases e with
      | init e =>
        obtain ⟨q, hq, rfl⟩ := Option.map_eq_some_iff.mp hr
        exact ⟨initStep_synced hs (initModule_step hq), trivial⟩
      | event e => cases hr
    | task t =>
      rw [ht] at hr hi
      cases e with
      | init e => cases hr
      | event e =>
        obtain ⟨q, hq, rfl⟩ := Option.map_eq_some_iff.mp hr
        exact segment_synced hs hi hq
  env c d e _ hs hat h := by
    cases e with
    | init e => cases h
    | event e =>
      obtain ⟨s, hw, rfl⟩ := Option.map_eq_some_iff.mp h
      exact ⟨hs.calm (world_calm hw), hat⟩

end Steps

lemma Constructed.synced [DecidableEq P] [DecidableEq ι]
    {c : Config (Shared P ι) ι (ServiceTask P)} (h : Constructed cfg c) :
    (syncedOutline cfg policy).Holds c := by
  obtain ⟨nonce, hservice⟩ := h.service
  refine ⟨⟨h.clock, fun t => by simp [hservice], fun t d hd => by simp [hservice] at hd⟩,
    fun i => ?_⟩
  have hf := h.task i
  change (c.task i).Cached
  cases ht : c.task i with
  | onModuleInit phase => trivial
  | task t =>
    rw [ht] at hf
    cases t with
    | checkTransactions phase =>
      obtain rfl : phase = .start := hf
      exact ⟨fun t ht => ht.elim, fun l hl => by simp [CheckPhase.letters] at hl⟩
    | _ => trivial

/-- Whatever calls, passes and the recovery do, in any order: the watched hashes are the
keys of the cache. So every summary has the data of its transaction, `isExpired` tells
by the time alone, and no dead letter throws. -/
theorem watch_set_is_cache [DecidableEq P] [DecidableEq ι]
    {c d : Config (Shared P ι) ι (ServiceTask P)} (hc : Constructed cfg c)
    (hrun : Run (serviceMachine cfg policy) anyStep c d) :
    (∀ h, h ∈ d.shared.service.watchedTransactions ↔
      (d.shared.service.transactions h).isSome) ∧
    ∀ i phase, d.task i = .task (.checkTransactions phase) →
      (∀ t, phase.Has t → t.cachedTx.isSome ∧ logsTxNotInCache t = false ∧
        ∀ now, isExpired now t = true →
          ∃ d, t.cachedTx = some d ∧ d.seenAt + d.expireIn < now) ∧
      ∀ l ∈ phase.letters, l.txs.cachedTx.isSome ∧ l.phase ≠ .thrown := by
  obtain ⟨hs, hat⟩ := (syncedOutline cfg policy).run hrun hc.synced
  have hsome : ∀ {t : TxSummary P}, t.Cached → t.cachedTx.isSome := by
    intro t ⟨d, hd, _⟩
    simp [hd]
  refine ⟨hs.inStep, fun i phase hi => ?_⟩
  have hp : (d.task i).Cached := hat i
  rw [hi] at hp
  refine ⟨fun t ht => ?_, fun l hl => ⟨hsome (hp.letters l hl).1, (hp.letters l hl).2⟩⟩
  have hcached := hp.has t ht
  exact ⟨hsome hcached, hcached.logsTxNotInCache, fun _ => hcached.of_isExpired⟩

/-- Two calls, two passes and the recovery. -/
def sampleService : Config (Shared ℕ ℕ) ℕ (ServiceTask ℕ) :=
  ⟨⟨⟨[], [], 0, []⟩, ⟨[], fun _ => none, sampleConfig.gasPriceFallback, none, 0⟩, 1, []⟩,
    fun i => if i = 4 then .onModuleInit .updateGasPrice else .task (sampleTask i)⟩

lemma sampleService_constructed : Constructed sampleConfig sampleService where
  service := ⟨0, rfl⟩
  clock := Nat.one_pos
  task i := by
    by_cases hi : i = 4
    · subst hi
      rfl
    · simp only [sampleService, if_neg hi]
      exact sample_initial.task i

def inits {ι : Type} (i : ι) (es : List (InitEvent ℕ)) : List (Label ι (ServiceEvent ℕ)) :=
  es.map fun e => .task i (.init e)

/-- The steps of the other tasks and of the world. -/
def others {ι : Type} (ls : List (Label ι (Event ℕ))) : List (Label ι (ServiceEvent ℕ)) :=
  ls.map fun l => match l with
    | .task i e => .task i (.event e)
    | .env e => .env (.event e)

/-- The recovery finds the transaction of a call that has not watched it yet, and a pass
sees it expire. -/
theorem watch_set_is_cache_recovered :
    ∃ d, Run (serviceMachine sampleConfig Policy.standard) anyStep sampleService d ∧
      d.shared.service.watchedTransactions = [⟨0, 1000, .payload 0⟩] ∧
      (d.shared.service.transactions ⟨0, 1000, .payload 0⟩).isSome := by
  obtain ⟨d, hrun, hd⟩ := Run.exists_of_exec
    (M := serviceMachine sampleConfig Policy.standard) (P := anyStep) (c := sampleService)
    (q := fun d => d.shared.service.watchedTransactions = [⟨0, 1000, .payload 0⟩])
    (inits 4 [.gasPrice none, .resume, .count 0, .resume] ++
      others (submits 0 [.resume, .answer .accept, .resume]) ++
      inits 4 [.pending [⟨0, 1000, .payload 0⟩]] ++
      others (submits 0 [.resume] ++ [.env (.tick 60001)] ++
        checks 3 [.resume, .summaries [.pending], .resume, .resume, .letter 0 .resume]))
    (by decide +kernel)
  exact ⟨d, hrun, hd, ((watch_set_is_cache sampleService_constructed hrun).1 _).mp (by simp [hd])⟩

end Komenci.Relayer
