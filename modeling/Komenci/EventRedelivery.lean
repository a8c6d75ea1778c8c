import Komenci.EventPolling

/-! What a poll has delivered before it returned no later poll of its instance delivers again,
in a run where every poll that returns leaves the row past its events. -/
namespace Komenci.Events
open Interleaving

variable {ι κ ε η ο δ : Type}

/-- What happens in a run: a poll passes an event to the handler, or its
`fetchAndProcessEvents` returns. -/
inductive Happening (ι ε : Type)
  | delivered (i : ι) (event : ε)
  | returned (i : ι)
  deriving DecidableEq

/-- Where the loops go on with these events. -/
def looped (i : ι) (lastBlock currentFromBlock : ℕ) : List ε → Option (Happening ι ε)
  | event :: _ => some (.delivered i event)
  | [] =>
    if currentFromBlock + (EVENTS_BATCH_SIZE + 1) < lastBlock then none else some (.returned i)

def happens (svc : Service ε η ο δ) (i : ι) (s : Shared κ ε δ) :
    Poll ε η → Event κ ε ο → Option (Happening ι ε)
  | .getBlockNumber row, .blockNumber n =>
    if row.blockNumber + 1 < n then none else some (.returned i)
  | .getPastEvents _ lastBlock currentFromBlock _, .events es =>
    looped i lastBlock currentFromBlock es
  | .eventHandler _ lastBlock currentFromBlock _ _ call rest, .handler answer =>
    match svc.eventHandler.resume call answer s.store with
    | some (_, .resolved) => looped i lastBlock currentFromBlock rest
    | _ => none
  | _, _ => none

/-- All that has happened, in order. -/
def happened (svc : Service ε η ο δ) (c : Config (Shared κ ε δ) ι (Poll ε η)) :
    Label ι (Event κ ε ο) → List (Happening ι ε) → List (Happening ι ε)
  | .task i e, h => h ++ (happens svc i c.shared (c.task i) e).toList
  | .env _, h => h

/-- The blocks whose events a poll asks for. It leaves out the last one where that is the first
of a batch. -/
def Polled (fromBlock lastBlock n : ℕ) : Prop :=
  fromBlock ≤ n ∧ n ≤ lastBlock ∧ (n = lastBlock → ¬ EVENTS_BATCH_SIZE + 1 ∣ lastBlock - fromBlock)

instance (fromBlock lastBlock n : ℕ) : Decidable (Polled fromBlock lastBlock n) :=
  inferInstanceAs (Decidable (_ ∧ _))

/-- If the first block has an event, so has another one that is polled. -/
def Later (chain : Chain ε) (fromBlock lastBlock : ℕ) : Prop :=
  Polled fromBlock lastBlock fromBlock → chain.events fromBlock ≠ [] →
    ∃ n ≤ lastBlock, fromBlock < n ∧ Polled fromBlock lastBlock n ∧ chain.events n ≠ []

instance (chain : Chain ε) (fromBlock lastBlock : ℕ) :
    Decidable (Later chain fromBlock lastBlock) :=
  inferInstanceAs (Decidable (_ → _))

def Poll.updates : Poll ε η → Bool
  | .update _ _ => true
  | _ => false

/-- The newest event is not in the first block, and the update does not fail. -/
def Poll.Advancing (chain : Chain ε) : Poll ε η → Event κ ε ο → Prop
  | .getBlockNumber row, .blockNumber n => Later chain (row.blockNumber + 1) n
  | .update _ _, .fail => False
  | _, _ => True

/-- A poll that has returned leaves the row past its events. -/
def Advancing (svc : Service ε η ο δ) (inst : ι → κ) (c : Config (Shared κ ε δ) ι (Poll ε η)) :
    Label ι (Event κ ε ο) → Prop
  | .task i e => (c.task i).Advancing svc.chain e
  | .env (.restart k) => ∀ i, inst i = k → (c.task i).updates = false
  | _ => True

/-- The row that a poll has read. -/
def Poll.row : Poll ε η → Option NotifiedBlock
  | .getBlockNumber row | .getPastEvents row _ _ _ | .eventHandler row _ _ _ _ _ _
  | .update row _ => some row
  | _ => none

/-- The row is still there, and may have gone further. -/
def Kept (svc : Service ε η ο δ) (s : Shared κ ε δ) (row : NotifiedBlock) : Prop :=
  ∃ r, s.find svc.key = some r ∧ r.id = row.id ∧ row.blockNumber ≤ r.blockNumber

section Instances
variable [DecidableEq κ] {inst : ι → κ} {k : κ} {s s' : Shared κ ε δ} {p p' : Poll ε η}
  {e : Event κ ε ο} {svc : Service ε η ο δ} {c : Config (Shared κ ε δ) ι (Poll ε η)}

/-- No two polls of an instance go on at a time. -/
structure Exclusive (inst : ι → κ) (c : Config (Shared κ ε δ) ι (Poll ε η)) : Prop where
  running : ∀ i, (c.task i).Active → c.shared.isRunning (inst i) = true
  alone : ∀ i j, inst i = inst j → (c.task i).Active → (c.task j).Active → i = j

lemma goOn_running (k : κ) (s : Shared κ ε δ) (p : Poll ε η) :
    (goOn k s p).1.isRunning = s.isRunning ∨
      ¬ p.Active ∧ (goOn k s p).1.isRunning = Function.update s.isRunning k false := by
  cases p with
  | finished => exact .inr ⟨id, rfl⟩
  | _ => exact .inl rfl

/-- A poll goes on, begins, or ends. -/
lemma poll_running (h : PollStep svc k s p e s' p') :
    (s'.isRunning = s.isRunning ∧ (p'.Active → p.Active)) ∨
      (s.isRunning k = false ∧ s'.isRunning = Function.update s.isRunning k true) ∨
      (p.Active ∧ ¬ p'.Active ∧ s'.isRunning = Function.update s.isRunning k false) := by
  cases h with
  | skip => exact .inl ⟨rfl, id⟩
  | begin hrunning => exact .inr (.inl ⟨hrunning, rfl⟩)
  | fetch _ | fetched _ _ | resolved _ _ =>
    obtain hrunning | hended := goOn_running k _ p'
    · exact .inl ⟨hrunning, fun _ => trivial⟩
    · exact .inr (.inr ⟨trivial, hended⟩)
  | taken | threw _ | updated => exact .inr (.inr ⟨trivial, id, rfl⟩)
  | failed hactive => exact .inr (.inr ⟨hactive, id, rfl⟩)
  | _ => exact .inl ⟨rfl, fun _ => trivial⟩

variable [DecidableEq ι]

lemma Exclusive.poll {i : ι} (h : Exclusive inst c)
    (hs : PollStep svc (inst i) c.shared (c.task i) e s' p') :
    Exclusive inst (c.resume i (s', p')) := by
  -- Another poll of the instance goes on only if this one did not.
  have hothers : ∀ j, j ≠ i → (c.task j).Active → s'.isRunning (inst j) = true ∧
      (inst j = inst i → ¬ p'.Active) := by
    intro j hj hactive
    have hrunning := h.running j hactive
    rcases poll_running hs with ⟨heq, hp⟩ | ⟨hidle, heq⟩ | ⟨hp, hended, heq⟩
    · rw [heq]
      exact ⟨hrunning, fun hinst hp' => hj (h.alone j i hinst hactive (hp hp'))⟩
    · have hne : inst j ≠ inst i := fun hinst => by
        rw [hinst, hidle] at hrunning
        cases hrunning
      rw [heq, Function.update_of_ne hne]
      exact ⟨hrunning, fun hinst => absurd hinst hne⟩
    · have hne : inst j ≠ inst i := fun hinst => hj (h.alone j i hinst hactive hp)
      rw [heq, Function.update_of_ne hne]
      exact ⟨hrunning, fun hinst => absurd hinst hne⟩
  constructor
  · apply Config.forall_resume
      (Q := fun j (p : Poll ε η) => p.Active → s'.isRunning (inst j) = true)
    · intro hactive
      rcases poll_running hs with ⟨heq, hp⟩ | ⟨-, heq⟩ | ⟨-, hended, -⟩
      · exact heq ▸ h.running i (hp hactive)
      · simp [heq]
      · exact absurd hactive hended
    · exact fun j hj hactive => (hothers j hj hactive).1
  · intro j j' hinst hj hj'
    by_cases hji : j = i <;> by_cases hji' : j' = i
    · rw [hji, hji']
    · subst hji
      simp only [Config.resume_self, Config.resume_ne _ _ hji'] at hj hj'
      exact absurd hj ((hothers j' hji' hj').2 hinst.symm)
    · subst hji'
      simp only [Config.resume_self, Config.resume_ne _ _ hji] at hj hj'
      exact absurd hj' ((hothers j hji hj).2 hinst)
    · simp only [Config.resume_ne _ _ hji, Config.resume_ne _ _ hji'] at hj hj'
      exact h.alone j j' hinst hj hj'

lemma stop_active (h : p.stop.Active) : False := by
  cases p <;> exact h

omit [DecidableEq ι] in
lemma Exclusive.restart (h : Exclusive inst c) (k : κ) :
    Exclusive inst ⟨c.shared.setRunning k false, fun i => if inst i = k then (c.task i).stop else c.task i⟩ := by
  have hactive : ∀ i, (if inst i = k then (c.task i).stop else c.task i).Active →
      inst i ≠ k ∧ (c.task i).Active := by
    intro i hi
    split_ifs at hi with hk
    · exact (stop_active hi).elim
    · exact ⟨hk, hi⟩
  constructor
  · intro i hi
    obtain ⟨hne, hi⟩ := hactive i hi
    simpa [Shared.setRunning, hne] using h.running i hi
  · exact fun i j hinst hi hj => h.alone i j hinst (hactive i hi).2 (hactive j hj).2

end Instances

section Rows
variable {svc : Service ε η ο δ} {k : κ} {s s' : Shared κ ε δ} {p p' : Poll ε η}
  {e : Event κ ε ο} {row : NotifiedBlock}

lemma whileLoop_row {last cur maxBlock : ℕ} {r : NotifiedBlock}
    (h : (whileLoop row last cur maxBlock : Poll ε η).row = some r) : row = r := by
  unfold whileLoop afterFetch at h
  split_ifs at h <;> cases h
  · rfl
  · rfl

lemma forLoop_row {last cur maxBlock : ℕ} {es : List ε} {r : NotifiedBlock}
    (h : (forLoop svc row last cur maxBlock es).row = some r) : row = r := by
  cases es with
  | nil => exact whileLoop_row h
  | cons event rest => exact Option.some.inj h

/-- The update does not go back, and takes the row as far as it was told to. -/
lemma Kept.update {row' : NotifiedBlock} {last : ℕ} (h : Kept svc s row) :
    Kept svc (s.update svc row' last) row := by
  obtain ⟨r, hr, hid, hle⟩ := h
  refine ⟨_, (update_find s row' last).trans (by rw [hr]; rfl), ?_⟩
  dsimp only
  split_ifs with hup
  · exact ⟨hid, hle.trans hup.2.2.le⟩
  · exact ⟨hid, hle⟩

lemma update_reached {last : ℕ} (h : Kept svc s row) :
    ∃ r, (s.update svc row last).find svc.key = some r ∧ last ≤ r.blockNumber := by
  obtain ⟨r, hr, hid, -⟩ := h
  have hkey : r.key = svc.key := by simpa using List.find?_some hr
  refine ⟨_, (update_find s row last).trans (by rw [hr]; rfl), ?_⟩
  dsimp only
  split_ifs with hup
  · exact le_refl _
  · by_contra hlt
    exact hup ⟨hid, hkey, by omega⟩

variable [DecidableEq κ]

/-- No step takes the row back. -/
lemma poll_kept (h : PollStep svc k s p e s' p') (hr : Kept svc s row) : Kept svc s' row := by
  cases h with
  | inserted hkey =>
    obtain ⟨r, hfind, -⟩ := hr
    exact absurd (by simpa using List.find?_some hfind) (hkey r (List.mem_of_find?_eq_some hfind))
  | fetch _ | fetched _ _ | resolved _ _ =>
    simp only [Kept, goOn_find]
    exact hr
  | updated => exact hr.update
  | _ => exact hr

/-- A poll keeps the row that it has read, or reads the one that is there. -/
lemma poll_row (h : PollStep svc k s p e s' p') (hrow : p'.row = some row) :
    p.row = some row ∨ s.find svc.key = some row ∨
      s.find svc.key = none ∧ s'.find svc.key = some row := by
  cases h with
  | found hfind => exact .inr (.inl (Option.some.inj hrow ▸ hfind))
  | @inserted n id hkey =>
    have hnone : s.find svc.key = none := by simpa [Shared.find, List.find?_eq_none] using hkey
    refine .inr (.inr ⟨hnone, ?_⟩)
    rw [← Option.some.inj hrow]
    rw [Shared.find] at hnone ⊢
    simp [List.find?_append, hnone]
  | fetch hp => exact .inl (congrArg some (whileLoop_row (hp ▸ hrow)))
  | fetched _ hp | resolved _ hp => exact .inl (congrArg some (forLoop_row (hp ▸ hrow)))
  | running _ => exact .inl hrow
  | _ => cases hrow

lemma poll_row_kept (h : PollStep svc k s p e s' p') (hp : ∀ r, p.row = some r → Kept svc s r)
    (hrow : p'.row = some row) : Kept svc s' row := by
  rcases poll_row h hrow with hold | hfind | ⟨-, hfind⟩
  · exact poll_kept h (hp row hold)
  · exact poll_kept h ⟨row, hfind, rfl, le_refl _⟩
  · exact ⟨row, hfind, rfl, le_refl _⟩

end Rows

section Survey
variable {svc : Service ε η ο δ} {chain : Chain ε} {h h' : List (Happening ι ε)} {i : ι}
  {row : NotifiedBlock} {last cur maxBlock upTo : ℕ} {event : ε} {es : List ε}

/-- What a poll has seen of the blocks below `upTo`, when these events are still to be handled. -/
structure Survey (chain : Chain ε) (h : List (Happening ι ε)) (i : ι) (row : NotifiedBlock)
    (lastBlock maxBlock upTo : ℕ) (pending : List ε) : Prop where
  first : row.blockNumber < maxBlock
  later : Later chain (row.blockNumber + 1) lastBlock
  ahead : ∀ e ∈ pending, row.blockNumber < chain.blockNumber e ∧
    e ∈ chain.events (chain.blockNumber e)
  delivered : ∀ e, .delivered i e ∈ h → (row.blockNumber < chain.blockNumber e ∧
    e ∈ chain.events (chain.blockNumber e)) ∧ (chain.blockNumber e ≤ maxBlock ∨ e ∈ pending)
  seen : ∀ n, row.blockNumber < n → n < upTo → n ≤ lastBlock → chain.events n ≠ [] →
    n ≤ maxBlock ∨ ∃ e ∈ pending, chain.blockNumber e = n

/-- A batch begins here. -/
structure Batch (row : NotifiedBlock) (lastBlock currentFromBlock : ℕ) : Prop where
  first : row.blockNumber < currentFromBlock
  last : currentFromBlock < lastBlock
  batches : EVENTS_BATCH_SIZE + 1 ∣ currentFromBlock - (row.blockNumber + 1)

def Surveys (chain : Chain ε) (h : List (Happening ι ε)) (i : ι) : Poll ε η → Prop
  | .getPastEvents row lastBlock currentFromBlock maxBlock =>
    Survey chain h i row lastBlock maxBlock currentFromBlock [] ∧
      Batch row lastBlock currentFromBlock
  | .eventHandler row lastBlock currentFromBlock maxBlock event _ rest =>
    Survey chain h i row lastBlock maxBlock (currentFromBlock + (EVENTS_BATCH_SIZE + 1))
      (event :: rest) ∧ Batch row lastBlock currentFromBlock
  | .update _ lastBlock => ∀ e, .delivered i e ∈ h → chain.blockNumber e ≤ lastBlock
  | .finished => True
  | _ => ∀ e, .delivered i e ∉ h

lemma Survey.start (hnone : ∀ e, .delivered i e ∉ h)
    (hlater : Later chain (row.blockNumber + 1) last) :
    Survey chain h i row last (row.blockNumber + 1) (row.blockNumber + 1) [] where
  first := by omega
  later := hlater
  ahead := nofun
  delivered e he := absurd he (hnone e)
  seen n hn hlt := by omega

lemma Survey.mono (hs : Survey chain h i row last maxBlock upTo es)
    (hsub : ∀ e, .delivered i e ∈ h' → .delivered i e ∈ h) :
    Survey chain h' i row last maxBlock upTo es :=
  { hs with delivered := fun e he => hs.delivered e (hsub e he) }

lemma Survey.deliver (hs : Survey chain h i row last maxBlock upTo (event :: es)) :
    Survey chain (h ++ [.delivered i event]) i row last maxBlock upTo (event :: es) where
  __ := hs
  delivered e he := by
    rcases List.mem_append.mp he with he | he
    · exact hs.delivered e he
    · simp only [List.mem_singleton, Happening.delivered.injEq, true_and] at he
      subst he
      exact ⟨hs.ahead e (by simp), .inr (by simp)⟩

lemma Survey.resolve (hs : Survey chain h i row last maxBlock upTo (event :: es)) :
    Survey chain h i row last (max maxBlock (chain.blockNumber event)) upTo es where
  first := hs.first.trans_le (le_max_left _ _)
  later := hs.later
  ahead e he := hs.ahead e (List.mem_cons_of_mem _ he)
  delivered e he := by
    obtain ⟨hblock, hle | hmem⟩ := hs.delivered e he
    · exact ⟨hblock, .inl (hle.trans (le_max_left _ _))⟩
    · rcases List.mem_cons.mp hmem with rfl | hmem
      · exact ⟨hblock, .inl (le_max_right _ _)⟩
      · exact ⟨hblock, .inr hmem⟩
  seen n hn hlt hle hne := by
    rcases hs.seen n hn hlt hle hne with hle | ⟨e, hmem, rfl⟩
    · exact .inl (hle.trans (le_max_left _ _))
    · rcases List.mem_cons.mp hmem with rfl | hmem
      · exact .inl (le_max_right _ _)
      · exact .inr ⟨e, hmem, rfl⟩

/-- The node returns the events of a batch. -/
lemma Survey.fetch (hs : Survey chain h i row last maxBlock cur []) (hb : Batch row last cur)
    (hreturns : Returns chain cur (toBlock cur last) es) :
    Survey chain h i row last maxBlock (cur + (EVENTS_BATCH_SIZE + 1)) es where
  first := hs.first
  later := hs.later
  ahead e he := by
    obtain ⟨n, hn, -, hmem⟩ := mem_between.mp (hreturns.1 e he)
    obtain rfl := chain.blockNumber_events n e hmem
    exact ⟨hb.first.trans_le hn, hmem⟩
  delivered e he := (hs.delivered e he).imp_right fun hle => .inl (hle.resolve_right nofun)
  seen n hn hlt hle hne := by
    by_cases hcur : n < cur
    · exact .inl ((hs.seen n hn hcur hle hne).resolve_right nofun)
    · obtain ⟨e, hmem⟩ := List.exists_mem_of_ne_nil _ hne
      have hto : n ≤ toBlock cur last := by
        unfold toBlock
        omega
      exact .inr ⟨e, hreturns.2 e (mem_between.mpr ⟨n, by omega, hto, hmem⟩),
        chain.blockNumber_events n e hmem⟩

/-- Where the first block has an event, the newest one is in a later block. -/
lemma Survey.returned (hs : Survey chain h i row last maxBlock (cur + (EVENTS_BATCH_SIZE + 1)) [])
    (hb : Batch row last cur) (hlast : ¬ cur + (EVENTS_BATCH_SIZE + 1) < last)
    (he : .delivered i event ∈ h) :
    row.blockNumber + 1 < maxBlock ∧ chain.blockNumber event ≤ maxBlock := by
  obtain ⟨⟨hblock, hmem⟩, hle⟩ := hs.delivered event he
  have hmax : chain.blockNumber event ≤ maxBlock := hle.resolve_right nofun
  refine ⟨?_, hmax⟩
  by_contra hfirst
  have hbfirst := hb.first
  have hblast := hb.last
  have hsfirst := hs.first
  have heq : chain.blockNumber event = row.blockNumber + 1 := by omega
  have hpolled : Polled (row.blockNumber + 1) last (row.blockNumber + 1) :=
    ⟨le_refl _, by omega, by omega⟩
  obtain ⟨n, hn, hlt, ⟨-, -, hdvd⟩, hne⟩ :=
    hs.later hpolled (List.ne_nil_of_mem (heq ▸ hmem))
  -- The last block is polled unless a batch would begin with it.
  have hpast : n < cur + (EVENTS_BATCH_SIZE + 1) := by
    by_contra hge
    have hnlast : last = cur + (EVENTS_BATCH_SIZE + 1) := by omega
    refine hdvd (by omega) ?_
    rw [hnlast, show cur + (EVENTS_BATCH_SIZE + 1) - (row.blockNumber + 1) =
      cur - (row.blockNumber + 1) + (EVENTS_BATCH_SIZE + 1) by omega]
    exact (Nat.dvd_add_self_right).mpr hb.batches
  have hnmax : n ≤ maxBlock := (hs.seen n (by omega) hpast hn hne).resolve_right nofun
  omega

lemma Surveys.mono {p : Poll ε η} (hs : Surveys chain h i p)
    (hsub : ∀ e, .delivered i e ∈ h' → .delivered i e ∈ h) : Surveys chain h' i p := by
  cases p with
  | getPastEvents row last cur maxBlock => exact ⟨hs.1.mono hsub, hs.2⟩
  | eventHandler row last cur maxBlock event call rest => exact ⟨hs.1.mono hsub, hs.2⟩
  | update row last => exact fun e he => hs e (hsub e he)
  | finished => trivial
  | _ => exact fun e he => hs e (hsub e he)

end Survey

section Loops
variable {svc : Service ε η ο δ} {h : List (Happening ι ε)} {i j : ι} {row : NotifiedBlock}
  {last cur maxBlock : ℕ} {event : ε} {es : List ε} {k : κ} {s s' : Shared κ ε δ}
  {p p' : Poll ε η} {e : Event κ ε ο} {x : Happening ι ε}

lemma looped_task (hx : looped i last cur es = some x) :
    (∃ event ∈ es, x = .delivered i event) ∨ x = .returned i := by
  cases es with
  | nil =>
    simp only [looped] at hx
    split_ifs at hx
    exact .inr (Option.some.inj hx).symm
  | cons event rest => exact .inl ⟨event, by simp, (Option.some.inj hx).symm⟩

lemma happens_task (hx : happens svc i s p e = some x) :
    (∃ event, x = .delivered i event) ∨ x = .returned i := by
  unfold happens at hx
  split at hx
  · split_ifs at hx
    exact .inr (Option.some.inj hx).symm
  · exact (looped_task hx).imp_left fun ⟨event, _, hx⟩ => ⟨event, hx⟩
  · split at hx
    · exact (looped_task hx).imp_left fun ⟨event, _, hx⟩ => ⟨event, hx⟩
    · cases hx
  · cases hx

lemma surveys_forLoop
    (hs : Survey svc.chain h i row last maxBlock (cur + (EVENTS_BATCH_SIZE + 1)) es)
    (hb : Batch row last cur) : Surveys svc.chain (h ++ (looped i last cur es).toList) i
      (forLoop svc row last cur maxBlock es) := by
  cases es with
  | cons event rest => exact ⟨hs.deliver, hb⟩
  | nil =>
    simp only [looped, forLoop, whileLoop, afterFetch]
    split_ifs with hlast hlt
    · have hfirst := hb.first
      refine ⟨by simpa using hs, by omega, hlast, ?_⟩
      rw [show cur + (EVENTS_BATCH_SIZE + 1) - (row.blockNumber + 1) =
        cur - (row.blockNumber + 1) + (EVENTS_BATCH_SIZE + 1) by omega]
      exact Nat.dvd_add_self_right.mpr hb.batches
    · exact fun e he => (hs.returned hb hlast (by simpa using he)).2
    · trivial

lemma forLoop_returned
    (hs : Survey svc.chain h i row last maxBlock (cur + (EVENTS_BATCH_SIZE + 1)) es)
    (hb : Batch row last cur) (hx : looped i last cur es = some (.returned j))
    (he : .delivered i event ∈ h) : ∃ row' last',
      forLoop svc row last cur maxBlock es = .update row' last' ∧
        svc.chain.blockNumber event ≤ last' := by
  cases es with
  | cons event rest => cases hx
  | nil =>
    simp only [looped] at hx
    split_ifs at hx with hlast
    obtain ⟨hlt, hle⟩ := hs.returned hb hlast he
    exact ⟨row, maxBlock, by simp [forLoop, whileLoop, afterFetch, hlast, hlt], hle⟩

/-- Where a poll stands it has come to by what is recorded. -/
def InRecord (h : List (Happening ι ε)) (i : ι) : Poll ε η → Prop
  | .eventHandler _ _ _ _ event _ _ => .delivered i event ∈ h
  | .update _ _ => .returned i ∈ h
  | _ => True

lemma inRecord_forLoop (svc : Service ε η ο δ) (h : List (Happening ι ε)) (i : ι)
    (row : NotifiedBlock) (last cur maxBlock : ℕ) (es : List ε) :
    InRecord (h ++ (looped i last cur es).toList) i (forLoop svc row last cur maxBlock es) := by
  cases es with
  | cons event rest => exact List.mem_append_right _ (by simp [looped])
  | nil =>
    simp only [looped, forLoop, whileLoop, afterFetch]
    split_ifs
    · trivial
    · exact List.mem_append_right _ (by simp)
    · trivial

variable [DecidableEq κ]

lemma poll_inRecord (hp : InRecord h i p) (hstep : PollStep svc k s p e s' p') :
    InRecord (h ++ (happens svc i s p e).toList) i p' := by
  cases hstep with
  | @fetch row n _ hp =>
    subst hp
    simp only [whileLoop, afterFetch]
    split_ifs with _ hlt
    · trivial
    · omega
    · trivial
  | fetched _ hp => exact hp ▸ inRecord_forLoop _ _ _ _ _ _ _ _
  | running _ => exact List.mem_append_left _ hp
  | resolved hres hp =>
    simp only [happens, hres]
    exact hp ▸ inRecord_forLoop _ _ _ _ _ _ _ _
  | _ => trivial

lemma poll_surveys (hs : Surveys svc.chain h i p) (hadv : p.Advancing svc.chain e)
    (hstep : PollStep svc k s p e s' p') :
    Surveys svc.chain (h ++ (happens svc i s p e).toList) i p' := by
  cases hstep with
  | skip | taken | threw _ | updated | failed _ => trivial
  | begin _ | found _ | genesis _ _ | latest _ _ | started | inserted _ =>
    exact fun event he => hs event (by simpa [happens] using he)
  | @fetch row n _ hp =>
    subst hp
    simp only [happens, whileLoop, afterFetch]
    split_ifs with hlast hlt
    · exact ⟨.start (fun event he => hs event (by simpa using he)) hadv, by omega, hlast, by simp⟩
    · omega
    · trivial
  | fetched hreturns hp => exact hp ▸ surveys_forLoop (hs.1.fetch hs.2 hreturns) hs.2
  | running hres =>
    simp only [happens, hres]
    exact ⟨hs.1.mono (by simp), hs.2⟩
  | resolved hres hp =>
    simp only [happens, hres]
    exact hp ▸ surveys_forLoop hs.1.resolve hs.2

/-- A poll that returns goes on to the update, where it has delivered an event. -/
lemma poll_returned (hs : Surveys svc.chain h i p) (hstep : PollStep svc k s p e s' p')
    (hx : happens svc i s p e = some (.returned j)) (he : .delivered i event ∈ h) :
    ∃ row last, p' = .update row last ∧ svc.chain.blockNumber event ≤ last := by
  cases hstep with
  | fetch => exact absurd he (hs event)
  | fetched hreturns hp => exact hp ▸ forLoop_returned (hs.1.fetch hs.2 hreturns) hs.2 hx he
  | resolved hres hp =>
    simp only [happens, hres] at hx
    exact hp ▸ forLoop_returned hs.1.resolve hs.2 hx he
  | running hres | threw hres =>
    simp only [happens, hres] at hx
    cases hx
  | @failed p _ => cases p <;> cases hx
  | _ => cases hx

/-- What a poll delivers is past the row that it has read. -/
lemma poll_delivered (hs : Surveys svc.chain h i p) (hstep : PollStep svc k s p e s' p')
    (hx : happens svc i s p e = some (.delivered j event)) :
    p.updates = false ∧
      ∃ row, p.row = some row ∧ row.blockNumber < svc.chain.blockNumber event := by
  cases hstep with
  | fetched hreturns _ =>
    obtain ⟨event', hmem, ⟨⟩⟩ | ⟨⟨⟩⟩ := looped_task hx
    exact ⟨rfl, _, rfl, ((hs.1.fetch hs.2 hreturns).ahead event hmem).1⟩
  | resolved hres _ =>
    simp only [happens, hres] at hx
    obtain ⟨event', hmem, ⟨⟩⟩ | ⟨⟨⟩⟩ := looped_task hx
    exact ⟨rfl, _, rfl, (hs.1.resolve.ahead event hmem).1⟩
  | fetch _ =>
    simp only [happens] at hx
    split_ifs at hx
    cases hx
  | running hres | threw hres =>
    simp only [happens, hres] at hx
    cases hx
  | @failed p _ => cases p <;> cases hx
  | _ => cases hx

end Loops

section Deliveries
variable {svc : Service ε η ο δ} {inst : ι → κ} {c d : Config (Shared κ ε δ) ι (Poll ε η)}
  {h : List (Happening ι ε)} {i : ι} {event : ε} {l : Label ι (Event κ ε ο)}

/-- The row is past the event, and so is what the polls of the instance have read of it. -/
def Settled (svc : Service ε η ο δ) (inst : ι → κ) (c : Config (Shared κ ε δ) ι (Poll ε η)) (k : κ)
    (event : ε) : Prop :=
  (∃ r, c.shared.find svc.key = some r ∧ svc.chain.blockNumber event ≤ r.blockNumber) ∧
    ∀ i row, inst i = k → (c.task i).row = some row → svc.chain.blockNumber event ≤ row.blockNumber

structure Delivering (svc : Service ε η ο δ) (inst : ι → κ)
    (c : Config (Shared κ ε δ) ι (Poll ε η)) (h : List (Happening ι ε)) : Prop where
  exclusive : Exclusive inst c
  kept : ∀ i row, (c.task i).row = some row → Kept svc c.shared row
  surveys : ∀ i, Surveys svc.chain h i (c.task i)
  settled : ∀ i event, [.delivered i event, .returned i].Sublist h →
    (∃ row last, c.task i = .update row last ∧ svc.chain.blockNumber event ≤ last) ∨
      Settled svc inst c (inst i) event
  once : ∀ i j event, inst i = inst j →
    ¬ [.delivered i event, .returned i, .delivered j event].Sublist h

/-- The end of a sequence in a record that has grown. -/
lemma sublist_record {α : Type} (xs : List α) {h : List α} {x : α} {o : Option α}
    (hsub : (xs ++ [x]).Sublist (h ++ o.toList)) :
    (xs ++ [x]).Sublist h ∨ o = some x ∧ xs.Sublist h := by
  cases o with
  | none => exact .inl (by simpa using hsub)
  | some y =>
    obtain ⟨ys, zs, heq, hys, hzs⟩ := List.sublist_append_iff.mp hsub
    rcases List.sublist_singleton.mp hzs with rfl | rfl
    · exact .inl (by simpa [heq] using hys)
    · obtain ⟨rfl, hxy⟩ := List.append_inj' heq rfl
      exact .inr ⟨by simpa using hxy.symm, hys⟩

lemma row_active {p : Poll ε η} {row : NotifiedBlock} (h : p.row = some row) : p.Active := by
  cases p <;> trivial

variable [DecidableEq κ] [DecidableEq ι]

/-- The poll of an instance is done, and with it all that the instance has read. -/
lemma Settled.updated {row : NotifiedBlock} {last : ℕ} (hexclusive : Exclusive inst c)
    (htask : c.task i = .update row last) (hkept : Kept svc c.shared row)
    (hle : svc.chain.blockNumber event ≤ last) :
    Settled svc inst (c.resume i ((c.shared.update svc row last).setRunning (inst i) false,
      .finished)) (inst i) event := by
  obtain ⟨r, hr, hlast⟩ := update_reached hkept
  refine ⟨⟨r, hr, hle.trans hlast⟩, fun j row' hinst => ?_⟩
  refine Config.forall_resume (Q := fun j (p : Poll ε η) => inst j = inst i → p.row = some row' →
    svc.chain.blockNumber event ≤ row'.blockNumber) (fun _ hrow => ?_)
    (fun j hj hinst hrow => ?_) j hinst
  · cases hrow
  have hactive : (c.task i).Active := by
    rw [htask]
    trivial
  exact absurd (hexclusive.alone j i hinst (row_active hrow) hactive) hj

/-- Later polls read the row where it is now. -/
lemma Settled.poll {k : κ} {s' : Shared κ ε δ} {p' : Poll ε η} {e : Event κ ε ο}
    (h : Settled svc inst c k event)
    (hs : PollStep svc (inst i) c.shared (c.task i) e s' p') :
    Settled svc inst (c.resume i (s', p')) k event := by
  obtain ⟨⟨r, hr, hle⟩, hrows⟩ := h
  obtain ⟨r', hr', -, hle'⟩ := poll_kept hs ⟨r, hr, rfl, le_refl _⟩
  refine ⟨⟨r', hr', hle.trans hle'⟩, fun j row hinst => ?_⟩
  refine Config.forall_resume (Q := fun j (p : Poll ε η) => inst j = k → p.row = some row →
    svc.chain.blockNumber event ≤ row.blockNumber) (fun hi hrow => ?_)
    (fun j _ hj => hrows j row hj) j hinst
  rcases poll_row hs hrow with hold | hfind | ⟨hnone, -⟩
  · exact hrows i row hi hold
  · obtain rfl := Option.some.inj (hr.symm.trans hfind)
    exact hle
  · rw [hr] at hnone
    cases hnone

lemma Delivering.poll {s' : Shared κ ε δ} {p' : Poll ε η} {e : Event κ ε ο}
    (hd : Delivering svc inst c h) (hadv : (c.task i).Advancing svc.chain e)
    (hs : PollStep svc (inst i) c.shared (c.task i) e s' p') :
    Delivering svc inst (c.resume i (s', p'))
      (h ++ (happens svc i c.shared (c.task i) e).toList) := by
  constructor
  · exact hd.exclusive.poll hs
  · apply Config.forall_resume
      (Q := fun _ (p : Poll ε η) => ∀ row, p.row = some row → Kept svc s' row)
    · exact fun row => poll_row_kept hs (hd.kept i)
    · exact fun j _ row hrow => poll_kept hs (hd.kept j row hrow)
  · apply Config.forall_resume (poll_surveys (hd.surveys i) hadv hs)
    · intro j hj
      refine (hd.surveys j).mono fun event he => ?_
      rcases List.mem_append.mp he with he | he
      · exact he
      · obtain ⟨event', heq⟩ | heq := happens_task (Option.mem_toList.mp he)
        · exact absurd (Happening.delivered.inj heq).1 hj
        · cases heq
  · intro a event hsub
    rcases sublist_record [_] hsub with hold | ⟨hreturned, hdelivered⟩
    · rcases hd.settled a event hold with ⟨row, last, htask, hle⟩ | hsettled
      · by_cases ha : a = i
        · subst ha
          have hkept : Kept svc c.shared row := hd.kept a row (by rw [htask]; rfl)
          have hupdated := Settled.updated hd.exclusive htask hkept hle
          rw [htask] at hs hadv
          cases hs with
          | updated => exact .inr hupdated
          | failed _ => exact hadv.elim
        · exact .inl ⟨row, last, by simpa [ha] using htask, hle⟩
      · exact .inr (hsettled.poll hs)
    · obtain ⟨event', heq⟩ | heq := happens_task hreturned
      · cases heq
      · obtain rfl := Happening.returned.inj heq
        left
        simpa using poll_returned (hd.surveys a) hs hreturned (List.singleton_sublist.mp hdelivered)
  · intro a b event hinst hsub
    rcases sublist_record [_, _] hsub with hold | ⟨hdelivered, hreturned⟩
    · exact hd.once a b event hinst hold
    · obtain ⟨event', heq⟩ | heq := happens_task hdelivered
      · obtain ⟨rfl, rfl⟩ := Happening.delivered.inj heq
        obtain ⟨hupdates, row, hrow, hlt⟩ := poll_delivered (hd.surveys b) hs hdelivered
        rcases hd.settled a event hreturned with ⟨row', last, htask, -⟩ | ⟨-, hrows⟩
        · have hactive : (c.task a).Active := by
            rw [htask]
            trivial
          obtain rfl := hd.exclusive.alone a b hinst hactive (row_active hrow)
          rw [htask] at hupdates
          cases hupdates
        · have hle := hrows b row hinst.symm hrow
          omega
      · cases heq

omit [DecidableEq ι] in
/-- What an instance was doing is lost; no update is. -/
lemma Delivering.restart {k : κ} (hd : Delivering svc inst c h)
    (hadv : ∀ i, inst i = k → (c.task i).updates = false) :
    Delivering svc inst ⟨c.shared.setRunning k false,
      fun i => if inst i = k then (c.task i).stop else c.task i⟩ h := by
  have hrow : ∀ {i row}, (if inst i = k then (c.task i).stop else c.task i).row = some row →
      (c.task i).row = some row := by
    intro i row hi
    split_ifs at hi
    · exact (stop_active (row_active hi)).elim
    · exact hi
  constructor
  · exact hd.exclusive.restart k
  · exact fun i row hi => hd.kept i row (hrow hi)
  · intro i
    have hi := hd.surveys i
    dsimp only
    split_ifs
    · cases htask : c.task i with
      | start =>
        rw [htask] at hi
        exact hi
      | _ => trivial
    · exact hi
  · intro i event hsub
    rcases hd.settled i event hsub with ⟨row, last, htask, hle⟩ | ⟨hfind, hrows⟩
    · have hne : inst i ≠ k := fun hk => by
        have hupdates := hadv i hk
        rw [htask] at hupdates
        cases hupdates
      exact .inl ⟨row, last, by simpa [hne] using htask, hle⟩
    · exact .inr ⟨hfind, fun j row hinst hj => hrows j row hinst (hrow hj)⟩
  · exact hd.once

lemma step_delivering [DecidableEq ε] (hd : Delivering svc inst c h) (hadv : Advancing svc inst c l)
    (hs : (machine svc inst).step c l = some d) : Delivering svc inst d (happened svc c l h) := by
  cases step_cases hs with
  | poll hi hs =>
    subst hi
    exact hd.poll hadv hs
  | newBlock =>
    exact ⟨⟨hd.exclusive.running, hd.exclusive.alone⟩, hd.kept, hd.surveys, hd.settled, hd.once⟩
  | restart => exact hd.restart hadv

/-- The record leaves nothing out: the event that a poll is handling is delivered there, and a
poll that has come to the update has returned. -/
theorem happened_recorded [DecidableEq ε] (svc : Service ε η ο δ) (inst : ι → κ)
    {P : List (Happening ι ε) → Config (Shared κ ε δ) ι (Poll ε η) → Label ι (Event κ ε ο) → Prop}
    (hinit : Initial c) (hrun : Traced (machine svc inst) (happened svc) P c [] d h) :
    ∀ i, InRecord h i (d.task i) := by
  apply hrun.invariant (J := fun c h => ∀ i, InRecord h i (c.task i))
  · intro c h l d hc _ hs
    cases step_cases hs with
    | @poll i p e s p' hi hs =>
      subst hi
      apply Config.forall_resume (poll_inRecord (hc i) hs)
      intro j _
      have hj := hc j
      cases htask : c.task j with
      | eventHandler | update =>
        rw [htask] at hj
        exact List.mem_append_left _ hj
      | _ => trivial
    | newBlock => exact hc
    | restart =>
      intro i
      dsimp only
      split_ifs
      · cases c.task i <;> trivial
      · exact hc i
  · intro i
    rw [hinit i]
    trivial

/-- What a poll has delivered before its `fetchAndProcessEvents` returned no later poll of the
instance delivers, in a run where every poll that returns leaves the row past its events. -/
theorem not_delivered_again [DecidableEq ε] (svc : Service ε η ο δ) (inst : ι → κ)
    (hinit : Initial c) (hrun : Traced (machine svc inst) (happened svc)
      (fun _ c l => Advancing svc inst c l) c [] d h) {i j : ι} (hinst : inst i = inst j)
    (event : ε) : ¬ [.delivered i event, .returned i, .delivered j event].Sublist h := by
  have hstart : Delivering svc inst c [] := by
    constructor
    · constructor
      · intro i hi
        rw [hinit i] at hi
        exact hi.elim
      · intro i j _ hi
        rw [hinit i] at hi
        exact hi.elim
    · intro i row hi
      rw [hinit i] at hi
      cases hi
    · intro i
      rw [hinit i]
      exact fun e => List.not_mem_nil
    · exact fun i event hsub => absurd hsub (by simp)
    · exact fun i j event _ => by simp
  have hd := hrun.invariant (J := Delivering svc inst) (fun c h l d hd hadv hs =>
    step_delivering hd hadv hs) hstart
  exact hd.once i j event hinst

end Deliveries

section Samples

instance (chain : Chain ε) (p : Poll ε η) (e : Event κ ε ο) : Decidable (p.Advancing chain e) := by
  unfold Poll.Advancing
  cases p <;> cases e <;> infer_instance

instance [Fintype ι] [DecidableEq κ] (svc : Service ε η ο δ) (inst : ι → κ)
    (c : Config (Shared κ ε δ) ι (Poll ε η)) (l : Label ι (Event κ ε ο)) :
    Decidable (Advancing svc inst c l) := by
  unfold Advancing
  induction l using Label.casesOn with
  | task i e => infer_instance
  | env e => induction e using Event.casesOn <;> infer_instance

/-- A poll of the blocks from `row.blockNumber + 1` on. -/
def pollSample (i : Fin 2) (events : List ℕ) : List (Label (Fin 2) (Event Unit ℕ Bool)) :=
  [.task i .resume, .task i .findOne, .task i (.blockNumber 5), .task i (.events events)] ++
    List.replicate events.length (.task i (.handler true))

def storedRow (blockNumber : ℕ) : Config (Shared Unit ℕ Unit) (Fin 2) (Poll ℕ ℕ) :=
  ⟨⟨[⟨7, "sample", blockNumber⟩], fun _ => false, 5, (), []⟩, fun _ => .start⟩

theorem not_delivered_again_storedRow :
    ∃ d h, Traced (machine sampleService fun _ : Fin 2 => ()) (happened sampleService)
        (fun _ c l => Advancing sampleService (fun _ => ()) c l) (storedRow 1) [] d h ∧
      [.delivered 0 2, .delivered 0 4, .returned 0, .returned 1].Sublist h ∧
      ¬ [.delivered 0 4, .returned 0, .delivered 1 4].Sublist h := by
  obtain ⟨⟨d, h⟩, hrun, hsub⟩ := Traced.exists_of_trace
    (M := machine sampleService fun _ : Fin 2 => ()) (f := happened sampleService)
    (P := fun _ c l => Advancing sampleService (fun _ => ()) c l) (c := storedRow 1) (h := [])
    (q := fun r => [.delivered 0 2, .delivered 0 4, .returned 0, .returned 1].Sublist r.2)
    (pollSample 0 [2, 4] ++ [.task 0 .update, .task 1 .resume, .task 1 .findOne,
      .task 1 (.blockNumber 5)]) (by decide +kernel)
  exact ⟨d, h, hrun, hsub, not_delivered_again sampleService _ (fun _ => rfl) hrun rfl 4⟩

/-- The newest event is in the first block of the range. -/
theorem delivered_again :
    Initial (storedRow 3) ∧
      ∃ d h, Traced (machine sampleService fun _ : Fin 2 => ()) (happened sampleService)
        (fun _ => anyStep) (storedRow 3) [] d h ∧
        [.delivered 0 4, .returned 0, .delivered 1 4, .returned 1].Sublist h := by
  obtain ⟨⟨d, h⟩, hrun, hsub⟩ := Traced.exists_of_trace
    (M := machine sampleService fun _ : Fin 2 => ()) (f := happened sampleService)
    (P := fun _ => anyStep) (c := storedRow 3) (h := [])
    (q := fun r => [.delivered 0 4, .returned 0, .delivered 1 4, .returned 1].Sublist r.2)
    (pollSample 0 [4] ++ pollSample 1 [4]) (by decide +kernel)
  exact ⟨fun _ => rfl, d, h, hrun, hsub⟩

end Samples

end Komenci.Events
