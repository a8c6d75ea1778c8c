import Komenci.EventPolling

/-! The attestations and the address mappings. Their handlers save a row and swallow every
error, so an event is stored in a run where no save fails and no other row takes its place. -/
namespace Komenci.Events
open Interleaving

/-- `fails` is every error but a duplicate. -/
inductive SaveAnswer
  | saved (id createdAt : ℕ)
  | fails
  deriving DecidableEq

/-- How the rows of a table are made and told apart. `content` is what identifies an event. -/
structure Table (ε ρ β γ : Type) where
  row : ε → ℕ → ℕ → ρ
  id : ρ → ℕ
  unique : ρ → β
  content : ρ → γ
  eventUnique : ε → β
  eventContent : ε → γ
  unique_row : ∀ e id createdAt, unique (row e id createdAt) = eventUnique e
  content_row : ∀ e id createdAt, content (row e id createdAt) = eventContent e

section Save
variable {ε ρ β γ : Type} [DecidableEq β] (table : Table ε ρ β γ)

/-- The handler of both services: `save`, and a `catch` that ignores duplicates and only
reports the rest. -/
def Table.create (event : ε) (rows : List ρ) : SaveAnswer → Option (List ρ × HandlerResult ε)
  | .saved id createdAt =>
    -- A fresh uuid is no id in use.
    if ∀ r ∈ rows, table.id r ≠ id then
      if ∀ r ∈ rows, table.unique r ≠ table.eventUnique event then
        some (rows ++ [table.row event id createdAt], .resolved)
      else some (rows, .resolved)
    else none
  | .fails => some (rows, .resolved)

def Table.handler : EventHandler ε ε SaveAnswer (List ρ) where
  call event := event
  resume event answer rows := table.create event rows answer

end Save

structure AttestationCompleted where
  blockNumber : ℕ
  transactionHash : String
  identifier : String
  issuer : String
  account : String
  deriving DecidableEq

structure Attestation where
  id : ℕ
  txHash : String
  issuer : String
  address : String
  identifier : String
  createdAt : ℕ
  deriving DecidableEq

/-- `handleAttestationRequest` and `createAttestation` -/
def attestations : Table AttestationCompleted Attestation (String × String)
    (String × String × String) where
  row e id createdAt :=
    ⟨id, e.transactionHash, e.issuer, e.account.toLower, e.identifier, createdAt⟩
  id := Attestation.id
  unique r := (r.issuer, r.txHash)
  content r := (r.address, r.identifier, r.issuer)
  eventUnique e := (e.issuer, e.transactionHash)
  eventContent e := (e.account.toLower, e.identifier, e.issuer)
  unique_row _ _ _ := rfl
  content_row _ _ _ := rfl

structure AccountWalletAddressSet where
  blockNumber : ℕ
  transactionHash : String
  account : String
  walletAddress : String
  deriving DecidableEq

structure AddressMapping where
  id : ℕ
  txHash : String
  accountAddress : String
  walletAddress : String
  createdAt : ℕ
  deriving DecidableEq

/-- `handleAddressMappingsEvent` and `createAddressMapping` -/
def addressMappings : Table AccountWalletAddressSet AddressMapping (String × String)
    (String × String) where
  row e id createdAt :=
    ⟨id, e.transactionHash, e.account.toLower, e.walletAddress.toLower, createdAt⟩
  id := AddressMapping.id
  unique r := (r.accountAddress, r.walletAddress)
  content r := (r.accountAddress, r.walletAddress)
  eventUnique e := (e.account.toLower, e.walletAddress.toLower)
  eventContent e := (e.account.toLower, e.walletAddress.toLower)
  unique_row _ _ _ := rfl
  content_row _ _ _ := rfl

/-- `fetchAttestations` -/
def fetchAttestations (chain : Chain AttestationCompleted) :
    Service AttestationCompleted AttestationCompleted SaveAnswer (List Attestation) :=
  ⟨"attestation", .Genesis, chain, attestations.handler⟩

/-- `fetchAddressMappings` -/
def fetchAddressMappings (chain : Chain AccountWalletAddressSet) :
    Service AccountWalletAddressSet AccountWalletAddressSet SaveAnswer (List AddressMapping) :=
  ⟨"addressMappings", .Genesis, chain, addressMappings.handler⟩

section Runs
variable {ι κ ε ρ β γ : Type} [DecidableEq β] [DecidableEq γ]

/-- A save does not fail, and is a duplicate only of a row that says the same. -/
def Saves (table : Table ε ρ β γ) (c : Config (Shared κ ε (List ρ)) ι (Poll ε ε)) :
    Label ι (Event κ ε SaveAnswer) → Prop
  | .task i (.handler answer) =>
    match c.task i with
    | .eventHandler _ _ _ _ event _ _ => answer ≠ .fails ∧ ∀ r ∈ c.shared.store,
        table.unique r = table.eventUnique event → table.content r = table.eventContent event
    | _ => True
  | _ => True

instance (table : Table ε ρ β γ) (c : Config (Shared κ ε (List ρ)) ι (Poll ε ε))
    (l : Label ι (Event κ ε SaveAnswer)) : Decidable (Saves table c l) := by
  unfold Saves
  induction l using Label.casesOn with
  | env e => infer_instance
  | task i e =>
    induction e using Event.casesOn with
    | handler answer =>
      dsimp only
      generalize c.task i = t
      induction t using Poll.casesOn <;> infer_instance
    | _ => infer_instance

/-- The service before it has ever run. -/
structure Started (svc : Service ε ε SaveAnswer (List ρ))
    (c : Config (Shared κ ε (List ρ)) ι (Poll ε ε)) : Prop where
  task : Initial c
  notifiedBlock : c.shared.find svc.key = none
  handled : c.shared.handled = []

/-- Every event that was handled has its row, and a handler works on the event of its loop. -/
structure Recorded (table : Table ε ρ β γ) (c : Config (Shared κ ε (List ρ)) ι (Poll ε ε)) :
    Prop where
  rows : ∀ e ∈ c.shared.handled, ∃ r ∈ c.shared.store, table.content r = table.eventContent e
  call : ∀ i row lastBlock currentFromBlock maxBlock event call rest,
    c.task i = .eventHandler row lastBlock currentFromBlock maxBlock event call rest → call = event

variable {table : Table ε ρ β γ} {svc : Service ε ε SaveAnswer (List ρ)} {inst : ι → κ}
  {c d : Config (Shared κ ε (List ρ)) ι (Poll ε ε)} {l : Label ι (Event κ ε SaveAnswer)}

omit [DecidableEq γ] in
/-- A save that meets the condition leaves a row for the event, and those that were there. -/
lemma create_row {event : ε} {rows rows' : List ρ} {answer : SaveAnswer} {result : HandlerResult ε}
    (hsaves : answer ≠ .fails ∧ ∀ r ∈ rows,
      table.unique r = table.eventUnique event → table.content r = table.eventContent event)
    (h : table.create event rows answer = some (rows', result)) :
    (∀ r ∈ rows, r ∈ rows') ∧ ∃ r ∈ rows', table.content r = table.eventContent event := by
  unfold Table.create at h
  split at h
  · split_ifs at h with hid hunique <;> cases h
    · exact ⟨fun r hr => by simp [hr], _, List.mem_append_right _ (List.mem_singleton.mpr rfl),
        table.content_row _ _ _⟩
    · push Not at hunique
      obtain ⟨r, hr, hu⟩ := hunique
      exact ⟨fun _ hr => hr, r, hr, hsaves.2 r hr hu⟩
  · exact absurd rfl hsaves.1

omit [DecidableEq γ] in
lemma create_resolved {event : ε} {rows rows' : List ρ} {answer : SaveAnswer}
    {result : HandlerResult ε} (h : table.create event rows answer = some (rows', result)) :
    result = .resolved := by
  unfold Table.create at h
  split at h
  · split_ifs at h <;> cases h <;> rfl
  · cases h
    rfl

omit [DecidableEq γ] in
lemma call_forLoop (hhandler : svc.eventHandler = table.handler) {row row' : NotifiedBlock}
    {last cur maxBlock last' cur' maxBlock' : ℕ} {es rest : List ε} {event call : ε}
    (h : forLoop svc row last cur maxBlock es =
      .eventHandler row' last' cur' maxBlock' event call rest) : call = event := by
  cases es with
  | nil =>
    unfold forLoop whileLoop afterFetch at h
    split_ifs at h
  | cons e es =>
    unfold forLoop at h
    cases h
    rw [hhandler]
    rfl

variable [DecidableEq ι] [DecidableEq κ] [DecidableEq ε]

omit [DecidableEq γ] in
/-- Every step in which a save meets the condition keeps the record. -/
lemma step_recorded (hhandler : svc.eventHandler = table.handler) (hr : Recorded table c)
    (hsaves : Saves table c l) (h : (machine svc inst).step c l = some d) : Recorded table d := by
  cases step_cases h with
  | @poll i p e s p' hi hs =>
    -- The rows and the log, and the call that the poll makes afterwards.
    obtain ⟨hrows, hcall⟩ : (∀ e ∈ s.handled, ∃ r ∈ s.store, table.content r = table.eventContent e) ∧
        ∀ row last cur maxBlock event call rest,
          p' = .eventHandler row last cur maxBlock event call rest → call = event := by
      cases hs with
      | @fetch row n _ hp =>
        refine ⟨by simpa using hr.rows, fun row last cur maxBlock event call rest heq => ?_⟩
        rw [hp] at heq
        unfold whileLoop afterFetch at heq
        split_ifs at heq
      | fetched _ hp =>
        refine ⟨by simpa using hr.rows, fun row last cur maxBlock event call rest heq => ?_⟩
        exact call_forLoop hhandler (hp ▸ heq)
      | running hresume =>
        rw [hhandler] at hresume
        cases create_resolved hresume
      | threw hresume =>
        rw [hhandler] at hresume
        cases create_resolved hresume
      | @resolved row last cur maxBlock event call rest answer store _ hresume hp =>
        simp only [Saves, hi] at hsaves
        obtain rfl := hr.call i _ _ _ _ _ _ _ hi
        rw [hhandler] at hresume
        obtain ⟨hkeep, hrow⟩ := create_row hsaves hresume
        constructor
        · intro e he
          simp only [goOn_handled, Shared.resolve, List.mem_append, List.mem_singleton] at he
          simp only [goOn_store, Shared.resolve]
          rcases he with he | rfl
          · obtain ⟨r, hmem, hcontent⟩ := hr.rows e he
            exact ⟨r, hkeep r hmem, hcontent⟩
          · exact hrow
        · intro row last cur maxBlock event' call' rest heq
          exact call_forLoop hhandler (hp ▸ heq)
      | _ => exact ⟨hr.rows, by simp⟩
    refine ⟨hrows, fun j row last cur maxBlock event call rest hj => ?_⟩
    by_cases hji : j = i
    · subst hji
      exact hcall row last cur maxBlock event call rest (by simpa using hj)
    · exact hr.call j row last cur maxBlock event call rest (by simpa [hji] using hj)
  | newBlock => exact ⟨hr.rows, hr.call⟩
  | @restart k =>
    refine ⟨hr.rows, fun j row last cur maxBlock event call rest hj => ?_⟩
    simp only at hj
    split_ifs at hj with hk
    · cases htask : c.task j <;> simp [htask, Poll.stop] at hj
    · exact hr.call j row last cur maxBlock event call rest hj

omit [DecidableEq γ] in
/-- Every event up to the stored block number has its row. -/
lemma run_recorded (hhandler : svc.eventHandler = table.handler)
    (hstarting : svc.startingBlock = .Genesis) (hstart : Started svc c)
    (hrun : Run (machine svc inst) (Saves table) c d) {row : NotifiedBlock}
    (hrow : d.shared.find svc.key = some row) {n : ℕ} (hn : 0 < n) (hn' : n ≤ row.blockNumber)
    {event : ε} (hevent : event ∈ svc.chain.events n) :
    ∃ r ∈ d.shared.store, table.content r = table.eventContent event := by
  have hholds : Recorded table d ∧ (∀ i, Knows svc d.shared (d.task i)) ∧
      Processed svc d.shared := by
    apply hrun.invariant (J := fun c => Recorded table c ∧ (∀ i, Knows svc c.shared (c.task i)) ∧
      Processed svc c.shared)
    · rintro c l d ⟨hr, hk, hp⟩ hs h
      exact ⟨step_recorded hhandler hr hs h, (step_knows hk h).2, step_processed hstarting hk hp h⟩
    · refine ⟨⟨by simp [hstart.handled], ?_⟩, ?_, ?_⟩
      · intro i row last cur maxBlock event call rest hi
        rw [hstart.task i] at hi
        cases hi
      · intro i
        rw [hstart.task i]
        trivial
      · intro row hrow
        rw [hstart.notifiedBlock] at hrow
        cases hrow
  obtain ⟨hr, -, hp⟩ := hholds
  exact hr.rows event (hp row hrow n hn hn' event hevent)

end Runs

section Claims
variable {ι κ : Type} [DecidableEq ι] [DecidableEq κ]

/-- Once the stored block number has reached the block of an event, its row is there, in a run
where no save fails and no save is a duplicate of a row that says something else. -/
theorem processed_events_stored (inst : ι → κ) :
    (∀ (chain : Chain AttestationCompleted)
      (c d : Config (Shared κ AttestationCompleted (List Attestation)) ι _) (row : NotifiedBlock),
      Started (fetchAttestations chain) c →
      Run (machine (fetchAttestations chain) inst) (Saves attestations) c d →
      d.shared.find "attestation" = some row →
      ∀ n, 0 < n → n ≤ row.blockNumber → ∀ event ∈ chain.events n,
        ∃ r ∈ d.shared.store, r.address = event.account.toLower ∧
          r.identifier = event.identifier ∧ r.issuer = event.issuer) ∧
    ∀ (chain : Chain AccountWalletAddressSet)
      (c d : Config (Shared κ AccountWalletAddressSet (List AddressMapping)) ι _)
      (row : NotifiedBlock),
      Started (fetchAddressMappings chain) c →
      Run (machine (fetchAddressMappings chain) inst) (Saves addressMappings) c d →
      d.shared.find "addressMappings" = some row →
      ∀ n, 0 < n → n ≤ row.blockNumber → ∀ event ∈ chain.events n,
        ∃ r ∈ d.shared.store, r.accountAddress = event.account.toLower ∧
          r.walletAddress = event.walletAddress.toLower := by
  constructor
  · intro chain c d row hstart hrun hrow n hn hn' event hevent
    obtain ⟨r, hr, hcontent⟩ := run_recorded rfl rfl hstart hrun hrow hn hn' hevent
    simp only [attestations, Prod.mk.injEq] at hcontent
    exact ⟨r, hr, hcontent⟩
  · intro chain c d row hstart hrun hrow n hn hn' event hevent
    obtain ⟨r, hr, hcontent⟩ := run_recorded rfl rfl hstart hrun hrow hn hn' hevent
    simp only [addressMappings, Prod.mk.injEq] at hcontent
    exact ⟨r, hr, hcontent⟩

end Claims

section Samples

/-- Two attestations of one account by one issuer, completed in one transaction. -/
def oneTransaction : Chain AttestationCompleted where
  events n := if n = 2 then [⟨2, "0x7", "0x51", "0xB", "0xA"⟩, ⟨2, "0x7", "0x52", "0xB", "0xA"⟩] else []
  blockNumber := AttestationCompleted.blockNumber
  blockNumber_events n e he := by
    split_ifs at he <;> simp_all
    rcases he with rfl | rfl <;> rfl

/-- The same in two transactions. -/
def twoTransactions : Chain AttestationCompleted where
  events n := if n = 2 then [⟨2, "0x7", "0x51", "0xB", "0xA"⟩, ⟨2, "0x8", "0x52", "0xB", "0xA"⟩] else []
  blockNumber := AttestationCompleted.blockNumber
  blockNumber_events n e he := by
    split_ifs at he <;> simp_all
    rcases he with rfl | rfl <;> rfl

def oneMapping : Chain AccountWalletAddressSet where
  events n := if n = 2 then [⟨2, "0x7", "0xA", "0xC"⟩] else []
  blockNumber := AccountWalletAddressSet.blockNumber
  blockNumber_events n e he := by
    split_ifs at he <;> simp_all

def onePoll (ε ρ : Type) : Config (Shared Unit ε (List ρ)) (Fin 1) (Poll ε ε) :=
  ⟨⟨[], fun _ => false, 3, [], []⟩, fun _ => .start⟩

/-- A poll whose saves are answered so. -/
def pollOnce {ε : Type} (es : List ε) (answers : List SaveAnswer) :
    List (Label (Fin 1) (Event Unit ε SaveAnswer)) :=
  [.task 0 .resume, .task 0 .findOne, .task 0 (.insert 7), .task 0 (.blockNumber 3),
    .task 0 (.events es)] ++ answers.map (fun answer => .task 0 (.handler answer)) ++ [.task 0 .update]

theorem processed_events_stored_once :
    (∃ d, Run (machine (fetchAttestations twoTransactions) fun _ : Fin 1 => ()) (Saves attestations)
        (onePoll _ _) d ∧
      ∃ r ∈ d.shared.store, r.address = "0xa" ∧ r.identifier = "0x52" ∧ r.issuer = "0xB") ∧
    ∃ d, Run (machine (fetchAddressMappings oneMapping) fun _ : Fin 1 => ()) (Saves addressMappings)
        (onePoll _ _) d ∧
      ∃ r ∈ d.shared.store, r.accountAddress = "0xa" ∧ r.walletAddress = "0xc" := by
  constructor
  · obtain ⟨d, hrun, hd⟩ := Run.exists_of_exec
      (M := machine (fetchAttestations twoTransactions) fun _ : Fin 1 => ()) (P := Saves attestations)
      (c := onePoll _ _) (q := fun d => d.shared.find "attestation" = some ⟨7, "attestation", 2⟩)
      (pollOnce (twoTransactions.events 2) [.saved 1 0, .saved 2 0]) (by decide +kernel)
    obtain ⟨r, hr, haddress, hidentifier, hissuer⟩ := (processed_events_stored _).1 twoTransactions
      _ d _ ⟨fun _ => rfl, rfl, rfl⟩ hrun hd 2 (by decide) (by decide)
      ⟨2, "0x8", "0x52", "0xB", "0xA"⟩ (by decide)
    exact ⟨d, hrun, r, hr, haddress.trans (by decide +kernel), hidentifier, hissuer⟩
  · obtain ⟨d, hrun, hd⟩ := Run.exists_of_exec
      (M := machine (fetchAddressMappings oneMapping) fun _ : Fin 1 => ()) (P := Saves addressMappings)
      (c := onePoll _ _) (q := fun d => d.shared.find "addressMappings" =
        some ⟨7, "addressMappings", 2⟩)
      (pollOnce (oneMapping.events 2) [.saved 1 0]) (by decide +kernel)
    obtain ⟨r, hr, haccount, hwallet⟩ := (processed_events_stored _).2 oneMapping
      _ d _ ⟨fun _ => rfl, rfl, rfl⟩ hrun hd 2 (by decide) (by decide)
      ⟨2, "0x7", "0xA", "0xC"⟩ (by decide)
    exact ⟨d, hrun, r, hr, haccount.trans (by decide +kernel), hwallet.trans (by decide +kernel)⟩

/-- The second attestation of the transaction is taken for a duplicate of the first, and the
mapping is not saved because the database is down. The block number passes both. -/
theorem processed_events_lost :
    (∃ d, Run (machine (fetchAttestations oneTransaction) fun _ : Fin 1 => ()) anyStep
        (onePoll _ _) d ∧
      d.shared.find "attestation" = some ⟨7, "attestation", 2⟩ ∧
      ∃ event ∈ oneTransaction.events 2, ∀ r ∈ d.shared.store, r.identifier ≠ event.identifier) ∧
    ∃ d, Run (machine (fetchAddressMappings oneMapping) fun _ : Fin 1 => ()) anyStep (onePoll _ _) d ∧
      d.shared.find "addressMappings" = some ⟨7, "addressMappings", 2⟩ ∧
      d.shared.store = [] := by
  constructor
  · apply Run.exists_of_exec (pollOnce (oneTransaction.events 2) [.saved 1 0, .saved 2 0])
    decide +kernel
  · apply Run.exists_of_exec (pollOnce (oneMapping.events 2) [.fails])
    decide +kernel

end Samples

end Komenci.Events
