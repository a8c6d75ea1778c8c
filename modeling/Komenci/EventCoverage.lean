import Komenci.EventRedelivery
import Komenci.IntervalCover

/-! One call of `fetchAndProcessEvents`: the ranges of blocks that it asks for, and the events
that it delivers. It covers its whole range unless the last block begins a batch of its own. -/
namespace Komenci.Events
open Interleaving IntervalCover

section Fetch
variable {ε δ ξ : Type}

/-- What a call of `fetchAndProcessEvents` has done so far. -/
structure Fetch (ε δ : Type) where
  queried : List (ℕ × ℕ)
  delivered : List ε
  store : δ
  maxBlock : ℕ

def Fetch.query (f : Fetch ε δ) (fromBlock toBlock : ℕ) : Fetch ε δ :=
  { f with queried := f.queried ++ [(fromBlock, toBlock)] }

/-- The event is passed to the handler, which leaves the store so. -/
def Fetch.deliver (f : Fetch ε δ) (event : ε) (store : δ) : Fetch ε δ :=
  { f with delivered := f.delivered ++ [event], store }

/-- The `for` loop over the events of a batch. An error of the handler is thrown on. -/
def processEvents (chain : Chain ε) (eventHandler : ε → δ → δ × Except ξ Unit) :
    List ε → Fetch ε δ → Fetch ε δ × Except ξ Unit
  | [], f => (f, .ok ())
  | event :: rest, f =>
    match eventHandler event f.store with
    | (store, .error error) => (f.deliver event store, .error error)
    | (store, .ok ()) =>
      processEvents chain eventHandler rest
        { f.deliver event store with maxBlock := max f.maxBlock (chain.blockNumber event) }

/-- The `while` loop. -/
def fetchBatches (chain : Chain ε) (eventHandler : ε → δ → δ × Except ξ Unit)
    (lastBlock currentFromBlock : ℕ) (f : Fetch ε δ) : Fetch ε δ × Except ξ ℕ :=
  if currentFromBlock < lastBlock then
    match processEvents chain eventHandler
        (chain.between currentFromBlock (toBlock currentFromBlock lastBlock))
        (f.query currentFromBlock (toBlock currentFromBlock lastBlock)) with
    | (f, .error error) => (f, .error error)
    | (f, .ok ()) =>
      fetchBatches chain eventHandler lastBlock (currentFromBlock + (EVENTS_BATCH_SIZE + 1)) f
  else (f, .ok f.maxBlock)
termination_by lastBlock - currentFromBlock
decreasing_by omega

/-- `lastBlock` is what `getBlockNumber` has answered; the node answers every query. -/
def fetchAndProcessEvents (chain : Chain ε) (eventHandler : ε → δ → δ × Except ξ Unit)
    (lastBlock fromBlock : ℕ) (store : δ) : Fetch ε δ × Except ξ ℕ :=
  fetchBatches chain eventHandler lastBlock fromBlock ⟨[], [], store, fromBlock⟩

def NeverThrows (eventHandler : ε → δ → δ × Except ξ Unit) : Prop :=
  ∀ event store, (eventHandler event store).2 = .ok ()

/-- The ranges that the `while` loop asks for from here on. -/
def batches (lastBlock currentFromBlock : ℕ) : List (ℕ × ℕ) :=
  if currentFromBlock < lastBlock then
    (currentFromBlock, toBlock currentFromBlock lastBlock) ::
      batches lastBlock (currentFromBlock + (EVENTS_BATCH_SIZE + 1))
  else []
termination_by lastBlock - currentFromBlock
decreasing_by omega

/-- The first block after `fromBlock` that is not asked for. -/
def upTo (lastBlock fromBlock : ℕ) : ℕ :=
  if EVENTS_BATCH_SIZE + 1 ∣ lastBlock - fromBlock then lastBlock else lastBlock + 1

variable {eventHandler : ε → δ → δ × Except ξ Unit} {lastBlock fromBlock cur : ℕ}

lemma batches_of_lt (h : cur < lastBlock) : batches lastBlock cur =
    (cur, toBlock cur lastBlock) :: batches lastBlock (cur + (EVENTS_BATCH_SIZE + 1)) := by
  rw [batches, if_pos h]

lemma batches_of_not_lt (h : ¬ cur < lastBlock) : batches lastBlock cur = [] := by
  rw [batches, if_neg h]

/-- A batch further on leaves out the same block. -/
lemma upTo_add (h : cur + (EVENTS_BATCH_SIZE + 1) ≤ lastBlock) :
    upTo lastBlock (cur + (EVENTS_BATCH_SIZE + 1)) = upTo lastBlock cur := by
  have hdvd : EVENTS_BATCH_SIZE + 1 ∣ lastBlock - (cur + (EVENTS_BATCH_SIZE + 1)) ↔
      EVENTS_BATCH_SIZE + 1 ∣ lastBlock - cur := by
    rw [show lastBlock - cur =
      lastBlock - (cur + (EVENTS_BATCH_SIZE + 1)) + (EVENTS_BATCH_SIZE + 1) by omega]
    exact Nat.dvd_add_self_right.symm
  simp only [upTo, hdvd]

/-- The last batch ends with the last block. -/
lemma upTo_of_last (h : cur < lastBlock) (hlast : lastBlock < cur + (EVENTS_BATCH_SIZE + 1)) :
    upTo lastBlock cur = lastBlock + 1 := by
  refine if_neg fun hdvd => ?_
  have hle := Nat.le_of_dvd (by omega) hdvd
  omega

/-- The batches follow each other without a gap. -/
theorem batches_consecutive (h : cur ≤ lastBlock) :
    Consecutive cur (batches lastBlock cur) (upTo lastBlock cur) := by
  induction hn : lastBlock - cur using Nat.strong_induction_on generalizing cur with
  | _ n ih =>
    by_cases hlt : cur < lastBlock
    · rw [batches_of_lt hlt]
      by_cases hnext : cur + (EVENTS_BATCH_SIZE + 1) ≤ lastBlock
      · have hto : toBlock cur lastBlock + 1 = cur + (EVENTS_BATCH_SIZE + 1) := by
          unfold toBlock
          omega
        refine .cons (by omega) ?_
        rw [hto, ← upTo_add hnext]
        exact ih _ (by omega) hnext rfl
      · have hto : toBlock cur lastBlock = lastBlock := by
          unfold toBlock
          omega
        rw [batches_of_not_lt (by omega), upTo_of_last hlt (by omega), hto]
        exact .cons hlt.le (.nil _)
    · obtain rfl : cur = lastBlock := by omega
      rw [batches_of_not_lt hlt, upTo, if_pos (by simp)]
      exact .nil _

lemma processEvents_ok (chain : Chain ε) (hok : NeverThrows eventHandler) (es : List ε)
    (f : Fetch ε δ) : ∃ g : Fetch ε δ,
    processEvents chain eventHandler es f = (g, .ok ()) ∧ g.queried = f.queried ∧
      g.delivered = f.delivered ++ es := by
  induction es generalizing f with
  | nil => exact ⟨f, rfl, rfl, by simp⟩
  | cons event rest ih =>
    have hevent := hok event f.store
    cases hcall : eventHandler event f.store with
    | mk store result =>
      rw [hcall] at hevent
      dsimp only at hevent
      subst hevent
      obtain ⟨g, hg, hqueried, hdelivered⟩ := ih
        { f.deliver event store with maxBlock := max f.maxBlock (chain.blockNumber event) }
      refine ⟨g, ?_, hqueried, ?_⟩
      · rw [processEvents, hcall]
        exact hg
      · rw [hdelivered]
        simp [Fetch.deliver]

/-- The loop asks for the batches and delivers what the node returns of them. -/
lemma fetchBatches_ok (chain : Chain ε) (hok : NeverThrows eventHandler) (lastBlock cur : ℕ)
    (f : Fetch ε δ) : ∃ (g : Fetch ε δ) (maxBlock : ℕ),
    fetchBatches chain eventHandler lastBlock cur f = (g, .ok maxBlock) ∧
      g.queried = f.queried ++ batches lastBlock cur ∧
      g.delivered = f.delivered ++
        (batches lastBlock cur).flatMap fun r => chain.between r.1 r.2 := by
  induction hn : lastBlock - cur using Nat.strong_induction_on generalizing cur f with
  | _ n ih =>
    by_cases hlt : cur < lastBlock
    · obtain ⟨g, hg, hqueried, hdelivered⟩ := processEvents_ok chain hok
        (chain.between cur (toBlock cur lastBlock)) (f.query cur (toBlock cur lastBlock))
      obtain ⟨g', maxBlock, hg', hqueried', hdelivered'⟩ :=
        ih (lastBlock - (cur + (EVENTS_BATCH_SIZE + 1))) (by omega) _ g rfl
      refine ⟨g', maxBlock, ?_, ?_, ?_⟩
      · rw [fetchBatches, if_pos hlt, hg]
        exact hg'
      · rw [hqueried', hqueried, batches_of_lt hlt]
        simp [Fetch.query]
      · rw [hdelivered', hdelivered, batches_of_lt hlt]
        simp [Fetch.query]
    · refine ⟨f, f.maxBlock, ?_, ?_, ?_⟩
      · rw [fetchBatches, if_neg hlt]
      · simp [batches_of_not_lt hlt]
      · simp [batches_of_not_lt hlt]

/-- The ranges are pairwise disjoint, and their union is `[fromBlock, lastBlock]`. -/
structure CoversRange (fromBlock lastBlock : ℕ) (queried : List (ℕ × ℕ)) : Prop where
  disjoint : queried.Pairwise fun r s => Disjoint (Finset.Icc r.1 r.2) (Finset.Icc s.1 s.2)
  union : ∀ n, InRanges queried n ↔ fromBlock ≤ n ∧ n ≤ lastBlock

/-- The call returns, has covered its range and has delivered every event of it once. -/
def CoversPoll (chain : Chain ε) (fromBlock lastBlock : ℕ) (r : Fetch ε δ × Except ξ ℕ) : Prop :=
  (∃ maxBlock, r.2 = .ok maxBlock) ∧ CoversRange fromBlock lastBlock r.1.queried ∧
    r.1.delivered = chain.between fromBlock lastBlock

/-- The blocks that the batches cover. -/
lemma inRanges_batches (h : fromBlock ≤ lastBlock) (n : ℕ) :
    InRanges (batches lastBlock fromBlock) n ↔ fromBlock ≤ n ∧ n < upTo lastBlock fromBlock :=
  (batches_consecutive h).inRanges_iff

theorem fetch_covers_range_iff (chain : Chain ε) (eventHandler : ε → δ → δ × Except ξ Unit)
    (store : δ) (hok : NeverThrows eventHandler) (h : fromBlock ≤ lastBlock) :
    CoversPoll chain fromBlock lastBlock
        (fetchAndProcessEvents chain eventHandler lastBlock fromBlock store) ↔
      ¬ EVENTS_BATCH_SIZE + 1 ∣ lastBlock - fromBlock := by
  obtain ⟨g, maxBlock, hg, hqueried, hdelivered⟩ := fetchBatches_ok chain hok
    lastBlock fromBlock ⟨[], [], store, fromBlock⟩
  rw [List.nil_append] at hqueried hdelivered
  rw [fetchAndProcessEvents, hg]
  constructor
  · rintro ⟨-, ⟨-, hunion⟩, -⟩ hdvd
    have hlast := (hunion lastBlock).mpr ⟨h, le_refl _⟩
    rw [hqueried, inRanges_batches h, upTo, if_pos hdvd] at hlast
    exact absurd hlast.2 (lt_irrefl _)
  · intro hdvd
    have hupTo : upTo lastBlock fromBlock = lastBlock + 1 := if_neg hdvd
    have hcons := batches_consecutive h
    refine ⟨⟨maxBlock, rfl⟩, ⟨?_, fun n => ?_⟩, ?_⟩
    · rw [hqueried]
      exact hcons.pairwise_disjoint
    · rw [hqueried, inRanges_batches h, hupTo, Nat.lt_succ_iff]
    · dsimp only
      rw [hdelivered, Chain.between, ← hupTo]
      exact hcons.flatMap chain.events

end Fetch

/-- Every block has one event. -/
def oneEventABlock : Chain ℕ where
  events n := [n]
  blockNumber n := n
  blockNumber_events _ _ he := List.mem_singleton.mp he

/-- The handler saves what it is passed. -/
def saveEvent (event : ℕ) (store : List ℕ) : List ℕ × Except Empty Unit :=
  (store ++ [event], .ok ())

/-- A poll of the ten blocks after the stored one. -/
theorem fetch_covers_range_ten_blocks :
    CoversPoll oneEventABlock 11 20 (fetchAndProcessEvents oneEventABlock saveEvent 20 11 []) :=
  (fetch_covers_range_iff oneEventABlock saveEvent [] (fun _ _ => rfl) (by decide)).mpr
    (by decide)

/-- The event of the head is not delivered when no other block is new. -/
theorem fetch_misses_last_block : NeverThrows saveEvent ∧
    (fetchAndProcessEvents oneEventABlock saveEvent 20 20 []).1.delivered = [] ∧
    20 ∈ oneEventABlock.between 20 20 ∧
    ¬ CoversPoll oneEventABlock 20 20
      (fetchAndProcessEvents oneEventABlock saveEvent 20 20 []) := by
  have hfetch : fetchAndProcessEvents oneEventABlock saveEvent 20 20 [] =
      (⟨[], [], [], 20⟩, .ok 20) := by
    rw [fetchAndProcessEvents, fetchBatches, if_neg (by decide)]
  have hevent : oneEventABlock.between 20 20 = [20] := rfl
  rw [hfetch, hevent]
  refine ⟨fun _ _ => rfl, rfl, by decide, fun ⟨_, _, hdelivered⟩ => ?_⟩
  rw [hevent] at hdelivered
  cases hdelivered

section Polls
variable {ι κ ε η ο δ : Type} {svc : Service ε η ο δ} {inst : ι → κ}

/-- The range that a poll asks for in a step. -/
def asks : Poll ε η → Event κ ε ο → List (ℕ × ℕ)
  | .getPastEvents _ lastBlock currentFromBlock _, .events _ =>
    [(currentFromBlock, toBlock currentFromBlock lastBlock)]
  | _, _ => []

/-- The ranges that the poll `i` has asked for, in order. -/
def asked [DecidableEq ι] (i : ι) (c : Config (Shared κ ε δ) ι (Poll ε η)) :
    Label ι (Event κ ε ο) → List (ℕ × ℕ) → List (ℕ × ℕ)
  | .task j e, h => if j = i then h ++ asks (c.task j) e else h
  | .env _, h => h

/-- The ranges asked for are an initial part of the batches of `fetchAndProcessEvents`, and all
of them when the poll goes on to the update. -/
def AsksBatches (h : List (ℕ × ℕ)) : Poll ε η → Prop
  | .getPastEvents row lastBlock currentFromBlock _ => currentFromBlock < lastBlock ∧
    h ++ batches lastBlock currentFromBlock = batches lastBlock (row.blockNumber + 1)
  | .eventHandler row lastBlock currentFromBlock _ _ _ _ =>
    h ++ batches lastBlock (currentFromBlock + (EVENTS_BATCH_SIZE + 1)) =
      batches lastBlock (row.blockNumber + 1)
  | .update row _ => ∃ lastBlock, h = batches lastBlock (row.blockNumber + 1)
  | .finished => ∃ lastBlock fromBlock, h <+: batches lastBlock fromBlock
  | _ => h = []

lemma AsksBatches.finish {h : List (ℕ × ℕ)} {p : Poll ε η} (hp : AsksBatches h p) :
    AsksBatches h (.finished : Poll ε η) := by
  cases p with
  | getPastEvents row last cur _ => exact ⟨_, _, _, hp.2⟩
  | eventHandler row last cur _ _ _ _ => exact ⟨_, _, _, hp⟩
  | update row _ =>
    obtain ⟨last, rfl⟩ := hp
    exact ⟨last, _, List.prefix_rfl⟩
  | finished => exact hp
  | _ => exact ⟨0, 0, by simp [show h = [] from hp]⟩

lemma AsksBatches.whileLoop {h : List (ℕ × ℕ)} {row : NotifiedBlock} {last cur maxBlock : ℕ}
    (hp : h ++ batches last cur = batches last (row.blockNumber + 1)) :
    AsksBatches h (whileLoop row last cur maxBlock : Poll ε η) := by
  unfold Events.whileLoop
  split_ifs with hlt
  · exact ⟨hlt, hp⟩
  · rw [batches_of_not_lt hlt, List.append_nil] at hp
    unfold afterFetch
    split_ifs
    · exact ⟨last, hp⟩
    · exact ⟨last, row.blockNumber + 1, hp ▸ List.prefix_rfl⟩

lemma AsksBatches.forLoop {h : List (ℕ × ℕ)} {row : NotifiedBlock} {last cur maxBlock : ℕ}
    {es : List ε} (hp : h ++ batches last (cur + (EVENTS_BATCH_SIZE + 1)) =
      batches last (row.blockNumber + 1)) :
    AsksBatches h (forLoop svc row last cur maxBlock es) := by
  cases es with
  | nil => exact .whileLoop hp
  | cons event rest => exact hp

/-- A restart does not make a poll ask for anything. -/
lemma stop_asks {h : List (ℕ × ℕ)} {p : Poll ε η} (hp : AsksBatches h p) :
    AsksBatches h p.stop := by
  cases p with
  | start => exact hp
  | _ => exact hp.finish

variable [DecidableEq κ]

lemma poll_asks {k : κ} {s s' : Shared κ ε δ} {p p' : Poll ε η} {e : Event κ ε ο}
    {h : List (ℕ × ℕ)} (hstep : PollStep svc k s p e s' p') (hp : AsksBatches h p) :
    AsksBatches (h ++ asks p e) p' := by
  have hnone (hasks : asks p e = []) (hp' : AsksBatches h p') : AsksBatches (h ++ asks p e) p' := by
    rwa [hasks, List.append_nil]
  cases hstep with
  | fetch heq =>
    obtain rfl : h = [] := hp
    exact heq ▸ .whileLoop rfl
  | fetched _ heq =>
    obtain ⟨hlt, hp⟩ := hp
    refine heq ▸ .forLoop ?_
    rw [batches_of_lt hlt] at hp
    simpa [asks] using hp
  | resolved _ heq => exact hnone rfl (heq ▸ .forLoop hp)
  | skip | taken | threw _ | updated => exact hnone rfl hp.finish
  | failed _ => exact hnone (by cases p <;> rfl) hp.finish
  | _ => exact hnone rfl hp

variable [DecidableEq ι] [DecidableEq ε]

/-- Along every run a poll asks for the batches of `fetchAndProcessEvents`, in their order. -/
theorem polls_ask_batches {c d : Config (Shared κ ε δ) ι (Poll ε η)} {h : List (ℕ × ℕ)} {i : ι}
    {P : List (ℕ × ℕ) → Config (Shared κ ε δ) ι (Poll ε η) → Label ι (Event κ ε ο) → Prop}
    (hinit : Initial c) (hrun : Traced (machine svc inst) (asked i) P c [] d h) :
    AsksBatches h (d.task i) := by
  refine hrun.invariant (J := fun c h => AsksBatches h (c.task i)) ?_ ?_
  · intro c h l d hJ _ hs
    obtain ⟨j, e, r, rfl, hr, rfl⟩ | ⟨e, rfl, hr⟩ := Machine.step_cases hs
    · by_cases hj : j = i
      · subst hj
        rw [Config.resume_self, asked, if_pos rfl]
        exact poll_asks (poll_step hr) hJ
      · rw [Config.resume_ne _ _ (Ne.symm hj), asked, if_neg hj]
        exact hJ
    · cases e with
      | newBlock =>
        obtain rfl := Option.some.inj hr
        exact hJ
      | restart k =>
        obtain rfl := Option.some.inj hr
        dsimp only [asked]
        split_ifs
        · exact stop_asks hJ
        · exact hJ
      | _ => cases hr
  · rw [hinit i]
    rfl

end Polls

end Komenci.Events
