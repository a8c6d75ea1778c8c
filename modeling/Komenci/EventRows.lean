import Komenci.EventTables

/-! The tables hold nothing but events: every row is that of an event that has happened, and no
two rows share their key, however often an event is delivered and whatever fails. -/
namespace Komenci.Events
open Interleaving

variable {ι κ ε ρ β γ : Type} [DecidableEq β]

/-- The event is in a block that the chain has reached. -/
def OnChain (chain : Chain ε) (head : ℕ) (event : ε) : Prop :=
  ∃ n ≤ head, event ∈ chain.events n

structure HoldsEvents (table : Table ε ρ β γ) (chain : Chain ε) (head : ℕ) (rows : List ρ) :
    Prop where
  unique : (rows.map table.unique).Nodup
  event : ∀ r ∈ rows, ∃ event id createdAt, OnChain chain head event ∧
    r = table.row event id createdAt

/-- A poll delivers only events that have happened. -/
def Delivers (chain : Chain ε) (head : ℕ) : Poll ε ε → Prop
  | .getPastEvents _ lastBlock _ _ => lastBlock ≤ head
  | .eventHandler _ lastBlock _ _ event call rest =>
    lastBlock ≤ head ∧ call = event ∧ ∀ e ∈ event :: rest, OnChain chain head e
  | _ => True

section Steps
variable {table : Table ε ρ β γ} {svc : Service ε ε SaveAnswer (List ρ)} {chain : Chain ε}
  {head head' : ℕ} {rows rows' : List ρ}

lemma OnChain.mono (hle : head ≤ head') {event : ε} (h : OnChain chain head event) :
    OnChain chain head' event := by
  obtain ⟨n, hn, hevent⟩ := h
  exact ⟨n, hn.trans hle, hevent⟩

omit [DecidableEq β] in
lemma HoldsEvents.mono (hle : head ≤ head') (h : HoldsEvents table chain head rows) :
    HoldsEvents table chain head' rows where
  unique := h.unique
  event r hr := by
    obtain ⟨event, id, createdAt, hevent, heq⟩ := h.event r hr
    exact ⟨event, id, createdAt, hevent.mono hle, heq⟩

lemma Delivers.mono (hle : head ≤ head') {p : Poll ε ε} (h : Delivers chain head p) :
    Delivers chain head' p := by
  cases p with
  | getPastEvents row last cur maxBlock => exact le_trans h hle
  | eventHandler row last cur maxBlock event call rest =>
    exact ⟨h.1.trans hle, h.2.1, fun e he => (h.2.2 e he).mono hle⟩
  | _ => trivial

/-- A save adds the row of its event, unless the key is taken. -/
lemma HoldsEvents.create {event : ε} (hh : HoldsEvents table chain head rows)
    (hevent : OnChain chain head event) {answer : SaveAnswer} {result : HandlerResult ε}
    (h : table.create event rows answer = some (rows', result)) :
    HoldsEvents table chain head rows' := by
  unfold Table.create at h
  split at h
  · rename_i id createdAt
    split_ifs at h with hid hunique <;> cases h
    · constructor
      · rw [List.map_append, List.map_singleton, table.unique_row]
        refine List.nodup_append.mpr ⟨hh.unique, List.nodup_singleton _, fun b hb b' hb' => ?_⟩
        obtain ⟨r, hr, rfl⟩ := List.mem_map.mp hb
        exact List.mem_singleton.mp hb' ▸ hunique r hr
      · intro r hr
        rcases List.mem_append.mp hr with hr | hr
        · exact hh.event r hr
        · exact ⟨event, id, createdAt, hevent, List.mem_singleton.mp hr⟩
    · exact hh
  · cases h
    exact hh

lemma delivers_whileLoop {row : NotifiedBlock} {last cur maxBlock : ℕ} (hle : last ≤ head) :
    Delivers chain head (whileLoop row last cur maxBlock) := by
  unfold whileLoop afterFetch
  split_ifs <;> first | exact hle | trivial

lemma delivers_forLoop (hhandler : svc.eventHandler = table.handler) {row : NotifiedBlock}
    {last cur maxBlock : ℕ} {es : List ε} (hle : last ≤ head)
    (hes : ∀ e ∈ es, OnChain chain head e) :
    Delivers chain head (forLoop svc row last cur maxBlock es) := by
  cases es with
  | nil => exact delivers_whileLoop hle
  | cons e es => exact ⟨hle, by rw [hhandler]; rfl, hes⟩

variable [DecidableEq ι] [DecidableEq κ] [DecidableEq ε] {inst : ι → κ}
  {c d : Config (Shared κ ε (List ρ)) ι (Poll ε ε)} {l : Label ι (Event κ ε SaveAnswer)}

omit [DecidableEq β] [DecidableEq ε] in
@[simp] lemma goOn_head (k : κ) (s : Shared κ ε (List ρ)) (p : Poll ε ε) :
    (goOn k s p).1.head = s.head := by cases p <;> rfl

/-- The node does not tell of blocks that are not there. -/
lemma blockNumber_le_head {i : ι} {row : NotifiedBlock} {n : ℕ}
    (hi : c.task i = .getBlockNumber row)
    (h : (machine svc inst).step c (.task i (.blockNumber n)) = some d) : n ≤ c.shared.head := by
  obtain ⟨r, hr, -⟩ := Option.map_eq_some_iff.mp h
  change runEventProcessingPolling svc (inst i) c.shared (c.task i) (.blockNumber n) = some r at hr
  rw [hi] at hr
  simp only [runEventProcessingPolling] at hr
  split_ifs at hr with hn
  exact hn

lemma step_holdsEvents (hhandler : svc.eventHandler = table.handler)
    (hh : HoldsEvents table svc.chain c.shared.head c.shared.store)
    (hp : ∀ i, Delivers svc.chain c.shared.head (c.task i))
    (h : (machine svc inst).step c l = some d) :
    HoldsEvents table svc.chain d.shared.head d.shared.store ∧
      ∀ i, Delivers svc.chain d.shared.head (d.task i) := by
  cases step_cases h with
  | @poll i p e s p' hi hs =>
    have hpi := hp i
    rw [hi] at hpi
    obtain ⟨hhead, hstore, hp'⟩ : s.head = c.shared.head ∧
        HoldsEvents table svc.chain c.shared.head s.store ∧
          Delivers svc.chain c.shared.head p' := by
      cases hs with
      | fetch hloop =>
        refine ⟨goOn_head _ _ _, by rwa [goOn_store], ?_⟩
        exact hloop ▸ delivers_whileLoop (blockNumber_le_head hi h)
      | @fetched row last cur maxBlock es _ hreturns hloop =>
        refine ⟨goOn_head _ _ _, by rwa [goOn_store], hloop ▸ delivers_forLoop hhandler hpi ?_⟩
        intro e he
        obtain ⟨n, -, hn, hevent⟩ := mem_between.mp (hreturns.1 e he)
        exact ⟨n, hn.trans ((min_le_right _ _).trans hpi), hevent⟩
      | running hresume =>
        rw [hhandler] at hresume
        cases create_resolved hresume
      | threw hresume =>
        rw [hhandler] at hresume
        cases create_resolved hresume
      | @resolved row last cur maxBlock event call rest answer store _ hresume hloop =>
        obtain ⟨hle, rfl, hevents⟩ := hpi
        rw [hhandler] at hresume
        refine ⟨goOn_head _ _ _, ?_, hloop ▸ delivers_forLoop hhandler hle fun e he => ?_⟩
        · rw [goOn_store]
          exact hh.create (hevents call List.mem_cons_self) hresume
        · exact hevents e (List.mem_cons_of_mem _ he)
      | _ => exact ⟨rfl, hh, trivial⟩
    refine ⟨by simpa [hhead] using hstore, fun j => ?_⟩
    by_cases hj : j = i
    · subst hj
      simpa [hhead] using hp'
    · simpa [hj, hhead] using hp j
  | newBlock =>
    exact ⟨hh.mono (Nat.le_succ _), fun i => (hp i).mono (Nat.le_succ _)⟩
  | @restart k =>
    refine ⟨hh, fun i => ?_⟩
    change Delivers svc.chain c.shared.head (if inst i = k then (c.task i).stop else c.task i)
    split_ifs
    · cases htask : c.task i <;> trivial
    · exact hp i

/-- After every run, with any number of instances and whatever fails, the table holds at most one
row for a key and only rows of events that have happened. -/
lemma run_holdsEvents (hhandler : svc.eventHandler = table.handler) (hinit : Initial c)
    (hstore : c.shared.store = []) (hrun : Run (machine svc inst) anyStep c d) :
    HoldsEvents table svc.chain d.shared.head d.shared.store := by
  refine (hrun.invariant (J := fun c => HoldsEvents table svc.chain c.shared.head c.shared.store ∧
    ∀ i, Delivers svc.chain c.shared.head (c.task i)) ?_ ⟨⟨?_, ?_⟩, fun i => ?_⟩).1
  · exact fun c l d hc _ hs => step_holdsEvents hhandler hc.1 hc.2 hs
  · simp [hstore]
  · simp [hstore]
  · rw [hinit i]
    trivial

end Steps

section Main
variable {ι κ : Type} [DecidableEq ι] [DecidableEq κ]

/-- After every run, with any number of instances and whatever is delivered again or fails, each
of the tables holds at most one row for a key and only rows of events that have happened. -/
theorem tables_hold_events (inst : ι → κ) :
    (∀ (chain : Chain AttestationCompleted)
      (c d : Config (Shared κ AttestationCompleted (List Attestation)) ι _),
      Initial c → c.shared.store = [] → Run (machine (fetchAttestations chain) inst) anyStep c d →
      HoldsEvents attestations chain d.shared.head d.shared.store) ∧
    ∀ (chain : Chain AccountWalletAddressSet)
      (c d : Config (Shared κ AccountWalletAddressSet (List AddressMapping)) ι _),
      Initial c → c.shared.store = [] →
      Run (machine (fetchAddressMappings chain) inst) anyStep c d →
      HoldsEvents addressMappings chain d.shared.head d.shared.store :=
  ⟨fun _ _ _ hinit hstore hrun => run_holdsEvents rfl hinit hstore hrun,
    fun _ _ _ hinit hstore hrun => run_holdsEvents rfl hinit hstore hrun⟩

/-- Two attestations of one transaction share their key: the second leaves no row. -/
theorem tables_hold_events_once :
    ∃ d, Run (machine (fetchAttestations oneTransaction) fun _ : Fin 1 => ()) anyStep
        (onePoll _ _) d ∧
      d.shared.store.length = 1 ∧
      HoldsEvents attestations oneTransaction d.shared.head d.shared.store := by
  obtain ⟨d, hrun, hd⟩ := Run.exists_of_exec
    (M := machine (fetchAttestations oneTransaction) fun _ : Fin 1 => ()) (P := anyStep)
    (c := onePoll _ _) (q := fun d => d.shared.store.length = 1)
    (pollOnce (oneTransaction.events 2) [.saved 1 0, .saved 2 0]) (by decide +kernel)
  exact ⟨d, hrun, hd, (tables_hold_events _).1 _ _ d (fun _ => rfl) rfl hrun⟩

end Main

end Komenci.Events
