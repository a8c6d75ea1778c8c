import Komenci.EventService

/-! No event is skipped: the stored block number only grows, and every event between two of
its values was handled. -/
namespace Komenci.Events
open Interleaving

variable {ι κ ε η ο δ : Type}

section GoOn
variable [DecidableEq κ] (k : κ) (s : Shared κ ε δ) (p : Poll ε η)

@[simp] lemma goOn_snd : (goOn k s p).2 = p := by cases p <;> rfl

@[simp] lemma goOn_notifiedBlocks : (goOn k s p).1.notifiedBlocks = s.notifiedBlocks := by
  cases p <;> rfl

@[simp] lemma goOn_handled : (goOn k s p).1.handled = s.handled := by cases p <;> rfl

@[simp] lemma goOn_store : (goOn k s p).1.store = s.store := by cases p <;> rfl

@[simp] lemma goOn_find (key : String) : (goOn k s p).1.find key = s.find key := by
  simp [Shared.find]

end GoOn

variable [DecidableEq κ] [DecidableEq ε] {svc : Service ε η ο δ} {inst : ι → κ}

/-- The poll has begun and has not finished. -/
def Poll.Active : Poll ε η → Prop
  | .start | .finished => False
  | _ => True

/-- The steps of a poll. -/
inductive PollStep (svc : Service ε η ο δ) (k : κ) (s : Shared κ ε δ) :
    Poll ε η → Event κ ε ο → Shared κ ε δ → Poll ε η → Prop
  | skip : PollStep svc k s .start .resume s .finished
  | begin : s.isRunning k = false →
      PollStep svc k s .start .resume (s.setRunning k true) .findOne
  | found {row} : s.find svc.key = some row →
      PollStep svc k s .findOne .findOne s (.getBlockNumber row)
  | genesis : s.find svc.key = none → svc.startingBlock = .Genesis →
      PollStep svc k s .findOne .findOne s (.insert 0)
  | latest : s.find svc.key = none → svc.startingBlock = .Latest →
      PollStep svc k s .findOne .findOne s .getStartingBlock
  | started {n} : PollStep svc k s .getStartingBlock (.blockNumber n) s (.insert n)
  | inserted {n id} : (∀ r ∈ s.notifiedBlocks, r.key ≠ svc.key) →
      PollStep svc k s (.insert n) (.insert id)
        { s with notifiedBlocks := s.notifiedBlocks ++ [⟨id, svc.key, n⟩] }
        (.getBlockNumber ⟨id, svc.key, n⟩)
  | taken {n id} : PollStep svc k s (.insert n) (.insert id) (s.setRunning k false) .finished
  | fetch {row n p} : p = whileLoop row n (row.blockNumber + 1) (row.blockNumber + 1) →
      PollStep svc k s (.getBlockNumber row) (.blockNumber n) (goOn k s p).1 p
  | fetched {row last cur maxBlock es p} : Returns svc.chain cur (toBlock cur last) es →
      p = forLoop svc row last cur maxBlock es →
      PollStep svc k s (.getPastEvents row last cur maxBlock) (.events es) (goOn k s p).1 p
  | running {row last cur maxBlock event call rest answer store call'} :
      svc.eventHandler.resume call answer s.store = some (store, .running call') →
      PollStep svc k s (.eventHandler row last cur maxBlock event call rest) (.handler answer)
        { s with store } (.eventHandler row last cur maxBlock event call' rest)
  | resolved {row last cur maxBlock event call rest answer store p} :
      svc.eventHandler.resume call answer s.store = some (store, .resolved) →
      p = forLoop svc row last cur (max maxBlock (svc.chain.blockNumber event)) rest →
      PollStep svc k s (.eventHandler row last cur maxBlock event call rest) (.handler answer)
        (goOn k (s.resolve store event) p).1 p
  | threw {row last cur maxBlock event call rest answer store} :
      svc.eventHandler.resume call answer s.store = some (store, .threw) →
      PollStep svc k s (.eventHandler row last cur maxBlock event call rest) (.handler answer)
        ({ s with store }.setRunning k false) .finished
  | updated {row last} : PollStep svc k s (.update row last) .update
      ((s.update svc row last).setRunning k false) .finished
  | failed {p} : p.Active → PollStep svc k s p .fail (s.setRunning k false) .finished

lemma poll_step {k : κ} {s : Shared κ ε δ} {p : Poll ε η} {e : Event κ ε ο}
    {r : Shared κ ε δ × Poll ε η} (h : runEventProcessingPolling svc k s p e = some r) :
    PollStep svc k s p e r.1 r.2 := by
  unfold runEventProcessingPolling at h
  split at h
  case h_1 =>
    split_ifs at h with hrunning <;> cases h
    · exact .skip
    · exact .begin (by simpa using hrunning)
  case h_2 =>
    split at h <;> cases h
    · exact .found ‹_›
    · exact .genesis ‹_› ‹_›
    · exact .latest ‹_› ‹_›
  case h_3 =>
    split_ifs at h
    cases h
    exact .started
  case h_4 =>
    split_ifs at h with hid hkey <;> cases h
    · exact .inserted hkey
    · exact .taken
  case h_5 =>
    split_ifs at h
    cases h
    rw [goOn_snd]
    exact .fetch rfl
  case h_6 =>
    split_ifs at h with hreturns
    cases h
    rw [goOn_snd]
    exact .fetched hreturns rfl
  case h_7 =>
    split at h <;> cases h
    · exact .running ‹_›
    · rw [goOn_snd]
      exact .resolved ‹_› rfl
    · exact .threw ‹_›
  case h_8 =>
    cases h
    exact .updated
  case h_15 => cases h
  all_goals
    cases h
    exact .failed trivial

variable [DecidableEq ι] {c d : Config (Shared κ ε δ) ι (Poll ε η)} {l : Label ι (Event κ ε ο)}

/-- The steps of the whole system. -/
inductive Step (svc : Service ε η ο δ) (inst : ι → κ) (c : Config (Shared κ ε δ) ι (Poll ε η)) :
    Label ι (Event κ ε ο) → Config (Shared κ ε δ) ι (Poll ε η) → Prop
  | poll {i p e s p'} : c.task i = p → PollStep svc (inst i) c.shared p e s p' →
      Step svc inst c (.task i e) (c.resume i (s, p'))
  | newBlock : Step svc inst c (.env .newBlock)
      ⟨{ c.shared with head := c.shared.head + 1 }, c.task⟩
  | restart {k} : Step svc inst c (.env (.restart k))
      ⟨c.shared.setRunning k false, fun i => if inst i = k then (c.task i).stop else c.task i⟩

lemma step_cases (h : (machine svc inst).step c l = some d) : Step svc inst c l d := by
  rcases Machine.step_cases h with ⟨i, e, r, rfl, hr, rfl⟩ | ⟨e, rfl, he⟩
  · exact .poll rfl (poll_step hr)
  · change world inst e c = some d at he
    unfold world at he
    split at he
    · cases he
      exact .newBlock
    · cases he
      exact .restart
    · cases he

/-- Every event of the blocks after `lo` and up to `hi` was handled. -/
def Covered (chain : Chain ε) (handled : List ε) (lo hi : ℕ) : Prop :=
  ∀ n, lo < n → n ≤ hi → ∀ e ∈ chain.events n, e ∈ handled

/-- The row that was read is there, and may have gone further. -/
def Stored (svc : Service ε η ο δ) (s : Shared κ ε δ) (row : NotifiedBlock) : Prop :=
  ∃ r, s.find svc.key = some r ∧ row.blockNumber ≤ r.blockNumber

/-- What a poll knows where it stands. -/
def Knows (svc : Service ε η ο δ) (s : Shared κ ε δ) : Poll ε η → Prop
  | .getStartingBlock => svc.startingBlock = .Latest
  | .insert n => svc.startingBlock = .Genesis → n = 0
  | .getBlockNumber row => Stored svc s row
  | .getPastEvents row lastBlock currentFromBlock maxBlock =>
    Stored svc s row ∧ row.blockNumber < currentFromBlock ∧ currentFromBlock < lastBlock ∧
      Covered svc.chain s.handled row.blockNumber (currentFromBlock - 1) ∧
      (maxBlock = row.blockNumber + 1 ∨ maxBlock < currentFromBlock)
  | .eventHandler row lastBlock currentFromBlock maxBlock event _ rest =>
    Stored svc s row ∧ row.blockNumber < currentFromBlock ∧ currentFromBlock < lastBlock ∧
      Covered svc.chain s.handled row.blockNumber (currentFromBlock - 1) ∧
      (maxBlock = row.blockNumber + 1 ∨ maxBlock ≤ toBlock currentFromBlock lastBlock) ∧
      (∀ e ∈ svc.chain.between currentFromBlock (toBlock currentFromBlock lastBlock),
        e ∈ s.handled ∨ e ∈ event :: rest) ∧
      ∀ e ∈ event :: rest, svc.chain.blockNumber e ≤ toBlock currentFromBlock lastBlock
  | .update row lastBlock =>
    Stored svc s row ∧ Covered svc.chain s.handled row.blockNumber lastBlock
  | _ => True

/-- A step keeps what was handled and the row, or advances the row over handled events. -/
structure Advances (svc : Service ε η ο δ) (s s' : Shared κ ε δ) : Prop where
  handled : ∀ e ∈ s.handled, e ∈ s'.handled
  stored : ∀ r, s.find svc.key = some r → ∃ r', s'.find svc.key = some r' ∧
    (r'.blockNumber = r.blockNumber ∨ r.blockNumber < r'.blockNumber ∧
      ∃ lo ≤ r.blockNumber, Covered svc.chain s'.handled lo r'.blockNumber)

section Blocks
variable {chain : Chain ε} {handled handled' : List ε} {s s' : Shared κ ε δ} {row : NotifiedBlock}
  {lo mid hi last cur maxBlock : ℕ}

omit [DecidableEq κ] [DecidableEq ε]

lemma Covered.mono (h : Covered chain handled lo hi) (hsub : ∀ e ∈ handled, e ∈ handled') :
    Covered chain handled' lo hi := fun n hn hn' e he => hsub e (h n hn hn' e he)

lemma Covered.trans (h : Covered chain handled lo mid) (g : Covered chain handled mid hi) :
    Covered chain handled lo hi := by
  intro n hn hn'
  by_cases hmid : n ≤ mid
  · exact h n hn hmid
  · exact g n (by omega) hn'

lemma mem_between {e : ε} : e ∈ chain.between lo hi ↔ ∃ n, lo ≤ n ∧ n ≤ hi ∧ e ∈ chain.events n := by
  unfold Chain.between
  constructor
  · intro h
    obtain ⟨n, hn, he⟩ := List.mem_flatMap.mp h
    rw [List.mem_range'_1] at hn
    exact ⟨n, hn.1, by omega, he⟩
  · rintro ⟨n, hlo, hhi, he⟩
    exact List.mem_flatMap.mpr ⟨n, List.mem_range'_1.mpr ⟨hlo, by omega⟩, he⟩

lemma Advances.le (h : Advances svc s s') {r : NotifiedBlock} (hr : s.find svc.key = some r) :
    ∃ r', s'.find svc.key = some r' ∧ r.blockNumber ≤ r'.blockNumber := by
  obtain ⟨r', hr', hle⟩ := h.stored r hr
  exact ⟨r', hr', by rcases hle with hle | ⟨hle, -⟩ <;> omega⟩

lemma Advances.of_eq (hh : s'.handled = s.handled) (hf : s'.find svc.key = s.find svc.key) :
    Advances svc s s' :=
  ⟨fun _ h => hh ▸ h, fun r hr => ⟨r, hf.trans hr, .inl rfl⟩⟩

lemma Stored.mono (h : Stored svc s row) (ha : Advances svc s s') : Stored svc s' row := by
  obtain ⟨r, hr, hle⟩ := h
  obtain ⟨r', hr', hle'⟩ := ha.le hr
  exact ⟨r', hr', hle.trans hle'⟩

/-- The steps of the others do not disturb what a poll knows. -/
lemma Knows.mono {p : Poll ε η} (h : Knows svc s p) (ha : Advances svc s s') : Knows svc s' p := by
  cases p with
  | getBlockNumber row => exact Stored.mono h ha
  | getPastEvents row last cur maxBlock =>
    obtain ⟨hs, hlo, hlt, hcov, hmax⟩ := h
    exact ⟨hs.mono ha, hlo, hlt, hcov.mono ha.handled, hmax⟩
  | eventHandler row last cur maxBlock event call rest =>
    obtain ⟨hs, hlo, hlt, hcov, hmax, hevents, hblocks⟩ := h
    exact ⟨hs.mono ha, hlo, hlt, hcov.mono ha.handled, hmax,
      fun e he => (hevents e he).imp_left (ha.handled e), hblocks⟩
  | update row last =>
    obtain ⟨hs, hcov⟩ := h
    exact ⟨hs.mono ha, hcov.mono ha.handled⟩
  | _ => exact h

/-- Up to the last fetched block everything was handled. -/
lemma knows_whileLoop (hs : Stored svc s row) (hlo : row.blockNumber < cur)
    (hcov : Covered svc.chain s.handled row.blockNumber (min (cur - 1) last))
    (hmax : maxBlock = row.blockNumber + 1 ∨ maxBlock ≤ min (cur - 1) last) :
    Knows svc s (whileLoop row last cur maxBlock) := by
  unfold whileLoop afterFetch
  split_ifs with hlt hgt
  · refine ⟨hs, hlo, hlt, ?_, by omega⟩
    rwa [min_eq_left (by omega)] at hcov
  · exact ⟨hs, fun n hn hn' => hcov n hn (by omega)⟩
  · trivial

/-- The events of the batch that were not handled are still to come. -/
lemma knows_forLoop {es : List ε} (hs : Stored svc s row) (hlo : row.blockNumber < cur)
    (hlt : cur < last) (hcov : Covered svc.chain s.handled row.blockNumber (cur - 1))
    (hmax : maxBlock = row.blockNumber + 1 ∨ maxBlock ≤ toBlock cur last)
    (hevents : ∀ e ∈ svc.chain.between cur (toBlock cur last), e ∈ s.handled ∨ e ∈ es)
    (hblocks : ∀ e ∈ es, svc.chain.blockNumber e ≤ toBlock cur last) :
    Knows svc s (forLoop svc row last cur maxBlock es) := by
  cases es with
  | nil =>
    have hto : min (cur + (EVENTS_BATCH_SIZE + 1) - 1) last = toBlock cur last := rfl
    apply knows_whileLoop hs (by omega)
    · rw [hto]
      refine hcov.trans fun n hn hn' e he => ?_
      simpa using hevents e (mem_between.mpr ⟨n, by omega, hn', he⟩)
    · rwa [hto]
  | cons event rest => exact ⟨hs, hlo, hlt, hcov, hmax, hevents, hblocks⟩

end Blocks

omit [DecidableEq κ] [DecidableEq ε] in
lemma update_find (s : Shared κ ε δ) (row : NotifiedBlock) (last : ℕ) :
    (s.update svc row last).find svc.key = (s.find svc.key).map fun r =>
      if r.id = row.id ∧ r.key = svc.key ∧ r.blockNumber < last then { r with blockNumber := last }
      else r := by
  simp only [Shared.find, Shared.update, List.find?_map]
  congr 2
  funext r
  simp only [Function.comp]
  split_ifs <;> rfl

omit [DecidableEq ε] in
/-- A poll keeps the row, or advances it over events it has handled. -/
lemma poll_advances {k : κ} {s s' : Shared κ ε δ} {p p' : Poll ε η} {e : Event κ ε ο}
    (hknows : Knows svc s p) (h : PollStep svc k s p e s' p') : Advances svc s s' := by
  cases h with
  | inserted hkey =>
    refine ⟨fun _ h => h, fun r hr => ?_⟩
    have hmem := List.mem_of_find?_eq_some hr
    exact absurd (by simpa using List.find?_some hr) (hkey r hmem)
  | fetch _ | fetched _ _ => exact .of_eq (by simp) (by simp)
  | resolved _ _ =>
    refine ⟨fun e he => by simp [Shared.resolve, he], fun r hr => ⟨r, ?_, .inl rfl⟩⟩
    rw [goOn_find]
    exact hr
  | @updated row last =>
    obtain ⟨⟨r, hr, hle⟩, hcov⟩ := hknows
    refine ⟨fun _ h => h, fun r' hr' => ?_⟩
    obtain rfl := Option.some.inj (hr.symm.trans hr')
    refine ⟨_, (update_find s row last).trans (by rw [hr]; rfl), ?_⟩
    dsimp only
    split_ifs with hup
    · exact .inr ⟨hup.2.2, row.blockNumber, hle, hcov⟩
    · exact .inl rfl
  | _ => exact .of_eq rfl rfl

omit [DecidableEq ε] in
lemma poll_knows {k : κ} {s s' : Shared κ ε δ} {p p' : Poll ε η} {e : Event κ ε ο}
    (hknows : Knows svc s p) (h : PollStep svc k s p e s' p') : Knows svc s' p' := by
  cases h with
  | skip | begin _ | taken | threw _ | updated | failed _ => trivial
  | @found row hrow => exact ⟨row, hrow, le_refl _⟩
  | genesis _ hg => exact fun _ => rfl
  | latest _ hl => exact hl
  | started =>
    intro hg
    rw [show svc.startingBlock = .Latest from hknows] at hg
    cases hg
  | @inserted n id hkey =>
    refine ⟨_, ?_, le_refl _⟩
    have hnone : s.notifiedBlocks.find? (fun row => row.key = svc.key) = none := by
      simpa [List.find?_eq_none] using hkey
    simp [Shared.find, List.find?_append, hnone]
  | @fetch row n _ hp =>
    obtain ⟨r, hr, hle⟩ := hknows
    subst hp
    apply knows_whileLoop
    · exact ⟨r, by simpa using hr, hle⟩
    · omega
    · exact fun n hn hn' => absurd hn' (by omega)
    · exact .inl rfl
  | @fetched row last cur maxBlock es _ hreturns hp =>
    obtain ⟨⟨r, hr, hle⟩, hlo, hlt, hcov, hmax⟩ := hknows
    have hto : cur ≤ toBlock cur last := by
      unfold toBlock
      omega
    subst hp
    apply knows_forLoop
    · exact ⟨r, by simpa using hr, hle⟩
    · exact hlo
    · exact hlt
    · simpa using hcov
    · exact hmax.imp_right fun h => by omega
    · exact fun e he => .inr (hreturns.2 e he)
    · intro e he
      obtain ⟨n, -, hn, hmem⟩ := mem_between.mp (hreturns.1 e he)
      rwa [svc.chain.blockNumber_events n e hmem]
  | running _ => exact hknows
  | @resolved row last cur maxBlock event call rest answer store _ _ hp =>
    obtain ⟨⟨r, hr, hle⟩, hlo, hlt, hcov, hmax, hevents, hblocks⟩ := hknows
    have hevent := hblocks event (by simp)
    have hto : cur ≤ toBlock cur last := by
      unfold toBlock
      omega
    subst hp
    apply knows_forLoop
    · exact ⟨r, by rw [goOn_find]; exact hr, hle⟩
    · exact hlo
    · exact hlt
    · exact hcov.mono fun e he => by simp [Shared.resolve, he]
    · right
      rcases hmax with hmax | hmax <;> omega
    · intro e he
      rcases hevents e he with h | h
      · exact .inl (by simp [Shared.resolve, h])
      · rcases List.mem_cons.mp h with rfl | h
        · exact .inl (by simp [Shared.resolve])
        · exact .inr h
    · exact fun e he => hblocks e (List.mem_cons_of_mem _ he)

/-- Every poll knows what it should after every step. -/
lemma step_knows (hk : ∀ i, Knows svc c.shared (c.task i)) (h : (machine svc inst).step c l = some d) :
    Advances svc c.shared d.shared ∧ ∀ i, Knows svc d.shared (d.task i) := by
  cases step_cases h with
  | @poll i p e s p' hi hs =>
    have ha := poll_advances (hi ▸ hk i) hs
    exact ⟨ha, Config.forall_resume (poll_knows (hi ▸ hk i) hs) fun j _ => (hk j).mono ha⟩
  | newBlock => exact ⟨.of_eq rfl rfl, fun i => (hk i).mono (.of_eq rfl rfl)⟩
  | @restart k =>
    refine ⟨.of_eq rfl rfl, fun i => ?_⟩
    simp only
    split_ifs with hi
    · cases c.task i <;> trivial
    · exact (hk i).mono (.of_eq rfl rfl)

omit [DecidableEq ε] in
/-- Where there is no row, only an insert makes one. -/
lemma poll_inserts {k : κ} {s s' : Shared κ ε δ} {p p' : Poll ε η} {e : Event κ ε ο}
    (hnone : s.find svc.key = none) (h : PollStep svc k s p e s' p') {row : NotifiedBlock}
    (hrow : s'.find svc.key = some row) : p = .insert row.blockNumber := by
  cases h with
  | @inserted n id hkey =>
    have hfind : s.notifiedBlocks.find? (fun row => row.key = svc.key) = none := hnone
    simp only [Shared.find, List.find?_append, hfind, Option.none_or] at hrow
    simp only [List.find?_singleton, decide_true, if_true, Option.some.injEq] at hrow
    rw [← hrow]
  | @updated row' last =>
    have hfind : s.find svc.key = none := hnone
    have hupdate : (s.update svc row' last).find svc.key = none := by
      rw [update_find, hfind]
      rfl
    exact absurd (hupdate.symm.trans hrow) (by simp)
  | fetch _ | fetched _ _ | resolved _ _ =>
    rw [goOn_find] at hrow
    exact absurd (hnone.symm.trans hrow) (by simp)
  | _ => exact absurd (hnone.symm.trans hrow) (by simp)

/-- Every event up to the stored block number was handled. -/
def Processed (svc : Service ε η ο δ) (s : Shared κ ε δ) : Prop :=
  ∀ row, s.find svc.key = some row → Covered svc.chain s.handled 0 row.blockNumber

/-- A poll that starts at the first block leaves no event out. -/
lemma step_processed (hstarting : svc.startingBlock = .Genesis)
    (hk : ∀ i, Knows svc c.shared (c.task i)) (hp : Processed svc c.shared)
    (h : (machine svc inst).step c l = some d) : Processed svc d.shared := by
  intro row hrow
  have ha := (step_knows hk h).1
  cases hfind : c.shared.find svc.key with
  | some r =>
    obtain ⟨r', hr', hle⟩ := ha.stored r hfind
    obtain rfl := Option.some.inj (hr'.symm.trans hrow)
    have hcov := (hp r hfind).mono ha.handled
    rcases hle with heq | ⟨-, lo, hlo, hcov'⟩
    · exact heq ▸ hcov
    · exact hcov.trans fun n hn hn' => hcov' n (by omega) hn'
  | none =>
    cases step_cases h with
    | @poll i p e s p' hi hs =>
      have hinsert := poll_inserts hfind hs hrow
      have hzero := hk i
      rw [hi, hinsert] at hzero
      have hblock : row.blockNumber = 0 := hzero hstarting
      exact fun n hn hn' => absurd hn' (by omega)
    | newBlock | restart => exact absurd (hfind.symm.trans hrow) (by simp)

/-- No poll has begun. -/
def Initial (c : Config (Shared κ ε δ) ι (Poll ε η)) : Prop := ∀ i, c.task i = .start

/-- The stored block number never decreases, and every event above one of its values and at
or below a later one was passed to a handler call that resolved. -/
theorem no_event_skipped (svc : Service ε η ο δ) (inst : ι → κ)
    {c d e : Config (Shared κ ε δ) ι (Poll ε η)} (hinit : Initial c)
    (hrun : Run (machine svc inst) anyStep c d) {first : NotifiedBlock}
    (hfirst : d.shared.find svc.key = some first) (hlater : Run (machine svc inst) anyStep d e) :
    ∃ row, e.shared.find svc.key = some row ∧ first.blockNumber ≤ row.blockNumber ∧
      ∀ n, first.blockNumber < n → n ≤ row.blockNumber →
        ∀ event ∈ svc.chain.events n, event ∈ e.shared.handled := by
  have hknows : ∀ i, Knows svc d.shared (d.task i) := by
    apply hrun.invariant (J := fun c => ∀ i, Knows svc c.shared (c.task i))
    · exact fun c l d hk _ hs => (step_knows hk hs).2
    · intro i
      rw [hinit i]
      trivial
  have hlast : (∀ i, Knows svc e.shared (e.task i)) ∧ ∃ row, e.shared.find svc.key = some row ∧
      first.blockNumber ≤ row.blockNumber ∧
      Covered svc.chain e.shared.handled first.blockNumber row.blockNumber := by
    induction hlater with
    | refl => exact ⟨hknows, first, hfirst, le_refl _, fun n hn hn' => absurd hn' (by omega)⟩
    | snoc _ _ hs ih =>
      obtain ⟨hk, row, hrow, hle, hcov⟩ := ih
      obtain ⟨ha, hk'⟩ := step_knows hk hs
      obtain ⟨row', hrow', heq | ⟨hlt, lo, hlo, hcov'⟩⟩ := ha.stored row hrow
      · refine ⟨hk', row', hrow', by omega, ?_⟩
        rw [heq]
        exact hcov.mono ha.handled
      · refine ⟨hk', row', hrow', by omega, ?_⟩
        refine (hcov.mono ha.handled).trans fun n hn hn' => ?_
        exact hcov' n (by omega) hn'
  exact hlast.2

section Samples

/-- A contract with an event in block 2 and one in block 4. -/
def sampleChain : Chain ℕ where
  events n := if n = 2 ∨ n = 4 then [n] else []
  blockNumber := id
  blockNumber_events n e he := by
    split_ifs at he <;> simp_all

/-- A handler that resolves or throws as it is answered. -/
def sampleService : Service ℕ ℕ Bool Unit where
  key := "sample"
  startingBlock := .Genesis
  chain := sampleChain
  eventHandler := ⟨id, fun _ answer _ => some ((), if answer then .resolved else .threw)⟩

def twoPolls : Config (Shared Unit ℕ Unit) (Fin 2) (Poll ℕ ℕ) :=
  ⟨⟨[], fun _ => false, 5, (), []⟩, fun _ => .start⟩

theorem no_event_skipped_twoPolls :
    ∃ d e, Run (machine sampleService fun _ : Fin 2 => ()) anyStep twoPolls d ∧
      d.shared.find "sample" = some ⟨7, "sample", 0⟩ ∧
      Run (machine sampleService fun _ : Fin 2 => ()) anyStep d e ∧
      e.shared.find "sample" = some ⟨7, "sample", 4⟩ ∧ 2 ∈ e.shared.handled := by
  obtain ⟨d, e, hrun, hd, hlater, he⟩ := Run.exists_later_of_exec
    (M := machine sampleService fun _ : Fin 2 => ()) (P := anyStep) (c := twoPolls)
    (q := fun d => d.shared.find "sample" = some ⟨7, "sample", 0⟩)
    (r := fun e => e.shared.find "sample" = some ⟨7, "sample", 4⟩)
    [.task 0 .resume, .task 0 .findOne, .task 0 (.insert 7)]
    [.task 0 (.blockNumber 5), .task 0 (.events [2, 4]), .task 0 (.handler true),
      .task 0 (.handler true), .task 0 .update] (by decide +kernel)
  obtain ⟨row, hrow, -, hcovered⟩ := no_event_skipped sampleService _ (fun _ => rfl) hrun hd hlater
  obtain rfl := Option.some.inj (he.symm.trans hrow)
  exact ⟨d, e, hrun, hd, hlater, he, hcovered 2 (by decide) (by decide) 2 (by decide)⟩

end Samples

end Komenci.Events
