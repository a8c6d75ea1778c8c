import Komenci.Interleaving

/-! The polling of contract events. Any number of instances share the row that says up to
which block the events of a contract were processed. -/
namespace Komenci.Events
open Interleaving

inductive StartingBlock
  | Genesis
  | Latest
  deriving DecidableEq

structure NotifiedBlock where
  id : ℕ
  key : String
  blockNumber : ℕ
  deriving DecidableEq

def EVENTS_BATCH_SIZE : ℕ := 10000

/-- The events of a contract, block by block. -/
structure Chain (ε : Type) where
  events : ℕ → List ε
  blockNumber : ε → ℕ
  blockNumber_events : ∀ n, ∀ e ∈ events n, blockNumber e = n

inductive HandlerResult (η : Type)
  | running (call : η)
  | resolved
  | threw

/-- A call of the handler goes on from one `await` to the next with the answer it gets,
and may change the store. -/
structure EventHandler (ε η ο δ : Type) where
  call : ε → η
  resume : η → ο → δ → Option (δ × HandlerResult η)

/-- What a service passes to `runEventProcessingPolling`. -/
structure Service (ε η ο δ : Type) where
  key : String
  startingBlock : StartingBlock
  chain : Chain ε
  eventHandler : EventHandler ε η ο δ

/-- `handled` are the events whose handler call resolved. -/
structure Shared (κ ε δ : Type) where
  notifiedBlocks : List NotifiedBlock
  isRunning : κ → Bool
  head : ℕ
  store : δ
  handled : List ε

/-- Where a call of `runEventProcessingPolling` stands. -/
inductive Poll (ε η : Type)
  | start
  | findOne
  | getStartingBlock
  | insert (blockNumber : ℕ)
  | getBlockNumber (row : NotifiedBlock)
  | getPastEvents (row : NotifiedBlock) (lastBlock currentFromBlock maxBlock : ℕ)
  | eventHandler (row : NotifiedBlock) (lastBlock currentFromBlock maxBlock : ℕ) (event : ε)
      (call : η) (rest : List ε)
  | update (row : NotifiedBlock) (lastBlock : ℕ)
  | finished

/-- `fail` is an error of the node or of the database. The last two are steps of the outside
world: the chain grows, an instance restarts. -/
inductive Event (κ ε ο : Type)
  | resume
  | findOne
  | blockNumber (n : ℕ)
  | insert (id : ℕ)
  | events (es : List ε)
  | handler (answer : ο)
  | update
  | fail
  | newBlock
  | restart (instanceId : κ)

section Steps
variable {ι κ ε η ο δ : Type} [DecidableEq κ] [DecidableEq ε] (svc : Service ε η ο δ) (inst : ι → κ)

def Shared.find (s : Shared κ ε δ) (key : String) : Option NotifiedBlock :=
  s.notifiedBlocks.find? fun row => row.key = key

def Shared.setRunning (s : Shared κ ε δ) (k : κ) (b : Bool) : Shared κ ε δ :=
  { s with isRunning := Function.update s.isRunning k b }

def Shared.resolve (s : Shared κ ε δ) (store : δ) (event : ε) : Shared κ ε δ :=
  { s with store, handled := s.handled ++ [event] }

/-- The update of the row, unless it has gone further. -/
def Shared.update (s : Shared κ ε δ) (row : NotifiedBlock) (lastBlock : ℕ) : Shared κ ε δ :=
  { s with notifiedBlocks := s.notifiedBlocks.map fun r =>
      if r.id = row.id ∧ r.key = svc.key ∧ r.blockNumber < lastBlock then
        { r with blockNumber := lastBlock }
      else r }

def toBlock (currentFromBlock lastBlock : ℕ) : ℕ := min (currentFromBlock + EVENTS_BATCH_SIZE) lastBlock

def Chain.between (chain : Chain ε) (fromBlock toBlock : ℕ) : List ε :=
  (List.range' fromBlock (toBlock + 1 - fromBlock)).flatMap chain.events

/-- The node returns all events of the range. -/
def Returns (chain : Chain ε) (fromBlock toBlock : ℕ) (es : List ε) : Prop :=
  (∀ e ∈ es, e ∈ chain.between fromBlock toBlock) ∧ ∀ e ∈ chain.between fromBlock toBlock, e ∈ es

instance (chain : Chain ε) (fromBlock toBlock : ℕ) (es : List ε) :
    Decidable (Returns chain fromBlock toBlock es) :=
  inferInstanceAs (Decidable (_ ∧ _))

/-- `fetchAndProcessEvents` has returned. -/
def afterFetch (row : NotifiedBlock) (maxBlock : ℕ) : Poll ε η :=
  if row.blockNumber + 1 < maxBlock then .update row maxBlock else .finished

def whileLoop (row : NotifiedBlock) (lastBlock currentFromBlock maxBlock : ℕ) : Poll ε η :=
  if currentFromBlock < lastBlock then .getPastEvents row lastBlock currentFromBlock maxBlock
  else afterFetch row maxBlock

def forLoop (row : NotifiedBlock) (lastBlock currentFromBlock maxBlock : ℕ) : List ε → Poll ε η
  | [] => whileLoop row lastBlock (currentFromBlock + (EVENTS_BATCH_SIZE + 1)) maxBlock
  | event :: rest => .eventHandler row lastBlock currentFromBlock maxBlock event
      (svc.eventHandler.call event) rest

/-- The `finally` of a call that has returned or thrown. -/
def goOn (k : κ) (s : Shared κ ε δ) : Poll ε η → Shared κ ε δ × Poll ε η
  | .finished => (s.setRunning k false, .finished)
  | poll => (s, poll)

def runEventProcessingPolling (k : κ) (s : Shared κ ε δ) :
    Poll ε η → Event κ ε ο → Option (Shared κ ε δ × Poll ε η)
  | .start, .resume =>
    if s.isRunning k then some (s, .finished) else some (s.setRunning k true, .findOne)
  | .findOne, .findOne =>
    match s.find svc.key, svc.startingBlock with
    | some row, _ => some (s, .getBlockNumber row)
    | none, .Genesis => some (s, .insert 0)
    | none, .Latest => some (s, .getStartingBlock)
  | .getStartingBlock, .blockNumber n => if n ≤ s.head then some (s, .insert n) else none
  | .insert n, .insert id =>
    -- A fresh uuid is no id in use.
    if ∀ r ∈ s.notifiedBlocks, r.id ≠ id then
      if ∀ r ∈ s.notifiedBlocks, r.key ≠ svc.key then
        some ({ s with notifiedBlocks := s.notifiedBlocks ++ [⟨id, svc.key, n⟩] },
          .getBlockNumber ⟨id, svc.key, n⟩)
      else some (goOn k s .finished)
    else none
  | .getBlockNumber row, .blockNumber n =>
    if n ≤ s.head then
      some (goOn k s (whileLoop row n (row.blockNumber + 1) (row.blockNumber + 1)))
    else none
  | .getPastEvents row lastBlock currentFromBlock maxBlock, .events es =>
    if Returns svc.chain currentFromBlock (toBlock currentFromBlock lastBlock) es then
      some (goOn k s (forLoop svc row lastBlock currentFromBlock maxBlock es))
    else none
  | .eventHandler row lastBlock currentFromBlock maxBlock event call rest, .handler answer =>
    match svc.eventHandler.resume call answer s.store with
    | none => none
    | some (store, .running call) =>
      some ({ s with store }, .eventHandler row lastBlock currentFromBlock maxBlock event call rest)
    | some (store, .resolved) =>
      some (goOn k (s.resolve store event) (forLoop svc row lastBlock currentFromBlock
        (max maxBlock (svc.chain.blockNumber event)) rest))
    | some (store, .threw) => some (goOn k { s with store } .finished)
  | .update row lastBlock, .update => some (goOn k (s.update svc row lastBlock) .finished)
  | .findOne, .fail | .getStartingBlock, .fail | .insert _, .fail | .getBlockNumber _, .fail
  | .getPastEvents _ _ _ _, .fail | .update _ _, .fail => some (goOn k s .finished)
  | _, _ => none

/-- What the process was doing is lost; what it has not begun it may do afterwards. -/
def Poll.stop : Poll ε η → Poll ε η
  | .start => .start
  | _ => .finished

def world (e : Event κ ε ο) (c : Config (Shared κ ε δ) ι (Poll ε η)) :
    Option (Config (Shared κ ε δ) ι (Poll ε η)) :=
  match e with
  | .newBlock => some ⟨{ c.shared with head := c.shared.head + 1 }, c.task⟩
  | .restart k => some ⟨c.shared.setRunning k false,
      fun i => if inst i = k then (c.task i).stop else c.task i⟩
  | _ => none

def machine : Machine (Shared κ ε δ) ι (Poll ε η) (Event κ ε ο) where
  seg i e s p := runEventProcessingPolling svc (inst i) s p e
  env := world inst

end Steps

end Komenci.Events
