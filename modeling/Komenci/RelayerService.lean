import Komenci.DecimalText
import Komenci.RelayerNode
import Komenci.Retry

/-! The relayer's `TransactionService` and the refill of the quota by its `OdisService`,
as tasks that resume one segment at a time. A segment is what runs between two awaits.
A request to the node is three segments: it leaves, the node handles it, and the reply
is processed. -/
namespace Komenci.Relayer
open Interleaving DecimalText

structure AppConfig where
  gasPriceFallback : ℚ
  gasPriceMultiplier : ℚ
  maxGasPrice : ℚ
  transactionTimeoutMs : ℕ

structure TxCachedData where
  nonce : ℕ
  gasPrice : ℚ
  seenAt : ℕ
  expireIn : ℕ
  deriving DecidableEq

structure Service (P ι : Type) where
  watchedTransactions : List (Tx P)
  transactions : Tx P → Option TxCachedData
  gasPrice : ℚ
  /-- Who holds the mutex. -/
  nonceLock : Option ι
  nonce : ℕ

inductive LogEvent (P : Type)
  | TxSubmitted (txHash : Tx P) (nonce : ℕ)
  | TxConfirmed (txHash : Tx P)
  | TxDeadletter (txHash deadLetterHash : Tx P)
  deriving DecidableEq

structure Shared (P ι : Type) where
  node : Node P ι
  service : Service P ι
  clock : ℕ
  log : List (LogEvent P)

section Service
variable {P ι : Type} [DecidableEq P]

def Service.watchTransaction (s : Service P ι) (hash : Tx P) (cachedTx : TxCachedData) :
    Service P ι :=
  { s with
    watchedTransactions := s.watchedTransactions.insert hash
    transactions := Function.update s.transactions hash (some cachedTx) }

def Service.unwatchTransaction (s : Service P ι) (hash : Tx P) : Service P ι :=
  { s with
    watchedTransactions := s.watchedTransactions.filter (· ≠ hash)
    transactions := Function.update s.transactions hash none }

/-- `none` is a call that failed. -/
def updateGasPrice (cfg : AppConfig) (gasPriceMinimum : Option ℚ) (s : Service P ι) :
    Service P ι :=
  match gasPriceMinimum with
  | some raw => { s with gasPrice := min (raw * cfg.gasPriceMultiplier) cfg.maxGasPrice }
  | none => if s.gasPrice = 0 then { s with gasPrice := cfg.gasPriceFallback } else s

/-- The service once `onModuleInit` is through, with the answers it got: a price, the
count of transactions and the pool's pending ones. -/
def onModuleInit (cfg : AppConfig) (gasPriceMinimum : Option ℚ) (count : ℕ) (pending : List (Tx P))
    (now : ℕ) : Service P ι :=
  let s : Service P ι := updateGasPrice cfg gasPriceMinimum
    ⟨[], fun _ => none, cfg.gasPriceFallback, none, 0⟩
  pending.foldl
    (fun s t => s.watchTransaction t ⟨t.nonce, t.gasPrice, now, cfg.transactionTimeoutMs⟩)
    { s with nonce := count }

end Service

/-- Where a call of `submitTransaction` stands: waiting for the mutex, waiting for the
node while it holds it, the answer there but not processed, and so on. -/
inductive SubmitPhase (P : Type)
  | acquire (tries : ℕ)
  | send (tries : ℕ) (tx : Tx P)
  | replied (tries : ℕ) (tx : Tx P) (answer : Answer)
  | watch (txHash : Tx P) (nonce : ℕ)
  | updateGasPrice (tries : ℕ)
  | acquireRefresh (tries : ℕ)
  | refresh (tries : ℕ)
  | refreshed (tries : ℕ) (count : ℕ)
  | finished (result : Option (Tx P))
  deriving DecidableEq

inductive SubmitEvent
  | resume
  | answer (a : Answer)
  | lost
  | gasPrice (gasPriceMinimum : Option ℚ)
  | count (k : ℕ)
  | fail
  deriving DecidableEq

/-- What `getTransaction` tells of a hash: nothing, a transaction without a block hash,
or one with. -/
inductive TxStatus
  | unknown
  | pending
  | included
  deriving DecidableEq

structure TxSummary (P : Type) where
  hash : Tx P
  cachedTx : Option TxCachedData
  tx : TxStatus
  deriving DecidableEq

inductive LetterPhase (P : Type)
  | ready (tries : ℕ)
  | send (tries : ℕ) (gasPrice : ℚ) (tx : Tx P)
  | replied (tries : ℕ) (gasPrice : ℚ) (tx : Tx P) (answer : Answer)
  | updateGasPrice (tries : ℕ)
  | finished
  | thrown
  deriving DecidableEq

/-- A call of `deadLetter` within a pass. -/
structure Letter (P : Type) where
  txs : TxSummary P
  phase : LetterPhase P
  deriving DecidableEq

inductive LetterEvent
  | resume
  | answer (a : Answer)
  | lost
  | gasPrice (gasPriceMinimum : Option ℚ)
  deriving DecidableEq

/-- Where a pass of `checkTransactions` stands. -/
inductive CheckPhase (P : Type)
  | start
  | getTxSummaries (watched : List (Tx P × Option TxCachedData))
  | logBalance (txs gasTooLow : List (TxSummary P))
  | gasTooLow (letters : List (Letter P)) (expired completed : List (TxSummary P))
  | expired (letters : List (Letter P)) (completed : List (TxSummary P))
  | withReceipts (completed : List (TxSummary P))
  | finished
  deriving DecidableEq

inductive CheckEvent
  | resume
  | summaries (answers : List TxStatus)
  | receipts (found : List Bool)
  | letter (k : ℕ) (e : LetterEvent)
  | fail
  deriving DecidableEq

inductive OdisResult
  | ok
  | OutOfQuota
  | Unknown
  | Timeout
  deriving DecidableEq

/-- Where a call of `getPhoneNumberSignature` stands. -/
inductive OdisPhase (P : Type)
  | query (tries : ℕ)
  | replenishQuota (tries : ℕ)
  | receipt (tries : ℕ) (tx : Tx P)
  | finished
  deriving DecidableEq

inductive OdisEvent
  | result (r : OdisResult)
  | selfTransfer (gasPrice : ℤ) (a : Answer)
  | lost (gasPrice : ℤ)
  | receipt
  | fail
  deriving DecidableEq

inductive Task (P : Type)
  | submitTransaction (p : P) (phase : SubmitPhase P)
  | checkTransactions (phase : CheckPhase P)
  | getPhoneNumberSignature (phase : OdisPhase P)
  deriving DecidableEq

/-- The last four are steps of the outside world: a block, the arrival of a request
that was given up, the timer of the gas price, the passing of time. -/
inductive Event (P : Type)
  | submit (e : SubmitEvent)
  | check (e : CheckEvent)
  | odis (e : OdisEvent)
  | mine (t : Tx P)
  | arrive (k : ℕ) (a : Answer)
  | gasPrice (gasPriceMinimum : Option ℚ)
  | tick (ms : ℕ)
  deriving DecidableEq

section Steps
variable {P ι : Type} [DecidableEq P] [DecidableEq ι] (cfg : AppConfig) (policy : Policy P ι)

def Shared.handle (s : Shared P ι) (r : Request P ι) (a : Answer) : Shared P ι :=
  { s with node := s.node.handle r a }

def Shared.lose (s : Shared P ι) (r : Request P ι) : Shared P ι :=
  { s with node := s.node.lose r }

def Shared.setLock (s : Shared P ι) (holder : Option ι) : Shared P ι :=
  { s with service := { s.service with nonceLock := holder } }

def Shared.setNonce (s : Shared P ι) (nonce : ℕ) : Shared P ι :=
  { s with service := { s.service with nonce := nonce } }

def Shared.updateGasPrice (s : Shared P ι) (gasPriceMinimum : Option ℚ) : Shared P ι :=
  { s with service := Relayer.updateGasPrice cfg gasPriceMinimum s.service }

def submitRetry : Retry.RetryOptions NodeError NodeError Unit := ⟨3, none, none, none⟩

def nextSubmit (tries : ℕ) (error : NodeError) : SubmitPhase P :=
  if submitRetry.again id tries error then .acquire (tries + 1) else .finished none

/-- `submitTransaction(p)`, on behalf of the caller `i`. -/
def submitTransaction (i : ι) (p : P) (s : Shared P ι) :
    SubmitPhase P → SubmitEvent → Option (Shared P ι × SubmitPhase P)
  | .acquire tries, .resume =>
    if s.service.nonceLock = none then
      some (s.setLock (some i),
        .send tries ⟨s.service.nonce, toFixed s.service.gasPrice, .payload p⟩)
    else none
  | .send tries tx, .answer a =>
    if policy.answers s.node tx a then
      some (s.handle ⟨tx, .submit i⟩ a, .replied tries tx a)
    else none
  -- The connection fails; the request may or may not get through later.
  | .send tries tx, .lost => some (s.lose ⟨tx, .submit i⟩, .replied tries tx (.reject .other))
  | .replied _ tx .accept, .resume =>
    some ((s.setNonce (s.service.nonce + 1)).setLock none, .watch tx s.service.nonce)
  | .replied tries _ (.reject .gasPriceBelowMinimum), .resume =>
    some (s.setLock none, .updateGasPrice tries)
  | .replied tries _ (.reject .nonceTooLow), .resume => some (s.setLock none, .acquireRefresh tries)
  | .replied tries _ (.reject .other), .resume => some (s.setLock none, nextSubmit tries .other)
  | .watch txHash nonce, .resume =>
    some ({ s with
      service := s.service.watchTransaction txHash
        ⟨nonce, s.service.gasPrice, s.clock, cfg.transactionTimeoutMs⟩
      log := s.log ++ [.TxSubmitted txHash nonce] }, .finished (some txHash))
  | .updateGasPrice tries, .gasPrice gasPriceMinimum =>
    some (s.updateGasPrice cfg gasPriceMinimum, nextSubmit tries .gasPriceBelowMinimum)
  | .acquireRefresh tries, .resume =>
    if s.service.nonceLock = none then some (s.setLock (some i), .refresh tries) else none
  | .refresh tries, .count k =>
    if policy.counts s.node k then some (s, .refreshed tries k) else none
  -- The error of the count leaves the `catch` block and ends the call.
  | .refresh _, .fail => some (s.setLock none, .finished none)
  | .refreshed tries k, .resume =>
    some ((s.setNonce k).setLock none, nextSubmit tries .nonceTooLow)
  | _, _ => none

def hasGasTooLow (gasPrice : ℚ) (txs : TxSummary P) : Bool :=
  match txs.tx, txs.cachedTx with
  | .included, _ => false
  | _, none => false
  | _, some cachedTx => cachedTx.gasPrice < gasPrice

def isExpired (now : ℕ) (txs : TxSummary P) : Bool :=
  match txs.tx, txs.cachedTx with
  | .included, _ => false
  | _, none => true
  | _, some cachedTx => cachedTx.seenAt = 0 || cachedTx.seenAt + cachedTx.expireIn < now

def deadLetterRetry : Retry.RetryOptions NodeError NodeError Unit :=
  ⟨3, some [.nonceTooLow], none, none⟩

def nextLetter (tries : ℕ) (error : NodeError) : LetterPhase P :=
  if deadLetterRetry.again id tries error then .ready (tries + 1) else .finished

/-- `deadLetter(txs)`. -/
def deadLetter (s : Shared P ι) (txs : TxSummary P) :
    LetterPhase P → LetterEvent → Option (Shared P ι × LetterPhase P)
  | .ready tries, .resume =>
    match txs.cachedTx with
    | none => some (s, .thrown)
    | some cachedTx =>
      let gasPrice := max (cachedTx.gasPrice * (7 / 5)) s.service.gasPrice
      some (s, .send tries gasPrice ⟨cachedTx.nonce, toFixed gasPrice, .deadLetter⟩)
  | .send tries gasPrice tx, .answer a =>
    if policy.answers s.node tx a then
      some (s.handle ⟨tx, .deadLetter txs.hash⟩ a, .replied tries gasPrice tx a)
    else none
  | .send tries gasPrice tx, .lost =>
    some (s.lose ⟨tx, .deadLetter txs.hash⟩, .replied tries gasPrice tx (.reject .other))
  | .replied _ gasPrice tx .accept, .resume =>
    match txs.cachedTx with
    | none => none
    | some cachedTx =>
      some ({ s with
        service := (s.service.unwatchTransaction txs.hash).watchTransaction tx
          ⟨cachedTx.nonce, gasPrice, s.clock, cachedTx.expireIn * 2⟩
        log := s.log ++ [.TxDeadletter txs.hash tx] }, .finished)
  | .replied tries _ _ (.reject .nonceTooLow), .resume =>
    some ({ s with service := s.service.unwatchTransaction txs.hash },
      nextLetter tries .nonceTooLow)
  | .replied tries _ _ (.reject .gasPriceBelowMinimum), .resume => some (s, .updateGasPrice tries)
  | .replied tries _ _ (.reject .other), .resume => some (s, nextLetter tries .other)
  | .updateGasPrice tries, .gasPrice gasPriceMinimum =>
    some (s.updateGasPrice cfg gasPriceMinimum, nextLetter tries .gasPriceBelowMinimum)
  | _, _ => none

/-- One of the calls that `Promise.all` waits for goes on. -/
def deadLetters (s : Shared P ι) (letters : List (Letter P)) (k : ℕ) (e : LetterEvent) :
    Option (Shared P ι × List (Letter P)) :=
  match letters[k]? with
  | none => none
  | some letter =>
    (deadLetter cfg policy s letter.txs letter.phase e).map fun r =>
      (r.1, letters.set k ⟨letter.txs, r.2⟩)

def letters (txs : List (TxSummary P)) : List (Letter P) := txs.map fun t => ⟨t, .ready 1⟩

/-- All calls have ended, and one of them by an exception. -/
def Letter.settled (l : Letter P) : Bool := l.phase = .finished || l.phase = .thrown

def anyThrown (ls : List (Letter P)) : Bool := ls.any fun l => l.phase = .thrown

def finalizeTransaction (s : Shared P ι) (txs : TxSummary P) (receipt : Bool) : Shared P ι :=
  if receipt then
    { s with
      service := s.service.unwatchTransaction txs.hash
      log := s.log ++ [.TxConfirmed txs.hash] }
  else s

def finalizeAll (s : Shared P ι) (completed : List (TxSummary P × Bool)) : Shared P ι :=
  completed.foldl (fun s c => finalizeTransaction s c.1 c.2) s

/-- The node tells of inclusion only what is so. -/
def Truthful (n : Node P ι) (hashes : List (Tx P)) (included : List Bool) : Prop :=
  hashes.length = included.length ∧
    ∀ c ∈ hashes.zip included, c.2 = true → c.1 ∈ n.included

instance (n : Node P ι) (hashes : List (Tx P)) (included : List Bool) :
    Decidable (Truthful n hashes included) := inferInstanceAs (Decidable (_ ∧ _))

def summaries (watched : List (Tx P × Option TxCachedData)) (answers : List TxStatus) :
    List (TxSummary P) :=
  (watched.zip answers).map fun p => ⟨p.1.1, p.1.2, p.2⟩

def isCompleted (txs : TxSummary P) : Bool := txs.tx = .included

/-- A pass of `checkTransactions`. -/
def checkTransactions (s : Shared P ι) :
    CheckPhase P → CheckEvent → Option (Shared P ι × CheckPhase P)
  | .start, .resume =>
    some (s, .getTxSummaries
      (s.service.watchedTransactions.map fun h => (h, s.service.transactions h)))
  | .getTxSummaries watched, .summaries answers =>
    if Truthful s.node (watched.map Prod.fst) (answers.map (· = .included)) then
      let txs := summaries watched answers
      some (s, .logBalance txs (txs.filter (hasGasTooLow s.service.gasPrice)))
    else none
  | .getTxSummaries _, .fail => some (s, .finished)
  | .logBalance txs gasTooLow, .resume =>
    some (s, .gasTooLow (letters gasTooLow) (txs.filter (isExpired s.clock))
      (txs.filter isCompleted))
  | .logBalance txs _, .fail =>
    if txs.any isCompleted then some (s, .finished) else none
  | .gasTooLow ls expired completed, .letter k e =>
    (deadLetters cfg policy s ls k e).map fun r => (r.1, .gasTooLow r.2 expired completed)
  | .gasTooLow ls expired completed, .resume =>
    if ls.all Letter.settled then
      some (s, if anyThrown ls then .finished else .expired (letters expired) completed)
    else none
  | .expired ls completed, .letter k e =>
    (deadLetters cfg policy s ls k e).map fun r => (r.1, .expired r.2 completed)
  | .expired ls completed, .resume =>
    if ls.all Letter.settled then
      some (s, if anyThrown ls then .finished else .withReceipts completed)
    else none
  | .withReceipts completed, .receipts found =>
    if Truthful s.node (completed.map TxSummary.hash) found then
      some (finalizeAll s (completed.zip found), .finished)
    else none
  | .withReceipts _, .fail => some (s, .finished)
  | _, _ => none

def odisRetry : Retry.RetryOptions OdisResult OdisResult Unit := ⟨2, some [.Unknown], none, none⟩

def nextQuery (tries : ℕ) (error : OdisResult) : OdisPhase P :=
  if odisRetry.again id tries error then .query (tries + 1) else .finished

/-- `getPhoneNumberSignature`, on behalf of the caller `i`. The self-transfer is sent
without a nonce, so it gets the node's next one. -/
def getPhoneNumberSignature (i : ι) (s : Shared P ι) :
    OdisPhase P → OdisEvent → Option (Shared P ι × OdisPhase P)
  | .query _, .result .ok => some (s, .finished)
  | .query tries, .result .OutOfQuota => some (s, .replenishQuota tries)
  | .query tries, .result error => some (s, nextQuery tries error)
  | .replenishQuota tries, .selfTransfer gasPrice a =>
    let tx : Tx P := ⟨s.node.next, gasPrice, .selfTransfer⟩
    if policy.answers s.node tx a then
      some (s.handle ⟨tx, .replenish i⟩ a,
        if a = .accept then .receipt tries tx else .finished)
    else none
  | .replenishQuota _, .lost gasPrice =>
    some (s.lose ⟨⟨s.node.next, gasPrice, .selfTransfer⟩, .replenish i⟩, .finished)
  | .replenishQuota _, .fail => some (s, .finished)
  | .receipt tries tx, .receipt =>
    if tx ∈ s.node.included then some (s, nextQuery tries .OutOfQuota) else none
  | .receipt _ _, .fail => some (s, .finished)
  | _, _ => none

def segment (i : ι) (e : Event P) (s : Shared P ι) : Task P → Option (Shared P ι × Task P)
  | .submitTransaction p phase =>
    match e with
    | .submit e => (submitTransaction cfg policy i p s phase e).map
        fun r => (r.1, .submitTransaction p r.2)
    | _ => none
  | .checkTransactions phase =>
    match e with
    | .check e => (checkTransactions cfg policy s phase e).map
        fun r => (r.1, .checkTransactions r.2)
    | _ => none
  | .getPhoneNumberSignature phase =>
    match e with
    | .odis e => (getPhoneNumberSignature policy i s phase e).map
        fun r => (r.1, .getPhoneNumberSignature r.2)
    | _ => none

/-- A given-up request is handled after all. -/
def arrive (k : ℕ) (a : Answer) (s : Shared P ι) : Option (Shared P ι) :=
  match s.node.limbo[k]? with
  | none => none
  | some r =>
    if policy.answers s.node r.tx a then
      some { s with node := { s.node.handle r a with limbo := s.node.limbo.eraseIdx k } }
    else none

def world (e : Event P) (s : Shared P ι) : Option (Shared P ι) :=
  match e with
  | .mine t => (s.node.mine t).map fun node => { s with node := node }
  | .arrive k a => arrive policy k a s
  | .gasPrice gasPriceMinimum => some (s.updateGasPrice cfg gasPriceMinimum)
  | .tick ms => some { s with clock := s.clock + ms }
  | _ => none

def machine : Machine (Shared P ι) ι (Task P) (Event P) where
  seg := segment cfg policy
  env e c := (world cfg policy e c.shared).map fun s => ⟨s, c.task⟩

end Steps

/-- A task that has not started. -/
def Task.fresh {P : Type} : Task P → Prop
  | .submitTransaction _ phase => phase = .acquire 1
  | .checkTransactions phase => phase = .start
  | .getPhoneNumberSignature phase => phase = .query 1

/-- The relayer right after `onModuleInit`: whatever the node holds of the wallet was
sent earlier, one transaction for each nonce, below the count. -/
structure Initial {P ι : Type} [DecidableEq P] (cfg : AppConfig)
    (c : Config (Shared P ι) ι (Task P)) : Prop where
  service : ∃ gasPriceMinimum pending, c.shared.service =
    onModuleInit cfg gasPriceMinimum c.shared.node.next pending c.shared.clock ∧
      (∀ t ∈ pending, c.shared.node.Holds t) ∧
      pending.Pairwise fun t u => t.nonce ≠ u.nonce
  nonces : ∀ k ∈ c.shared.node.nonces, k < c.shared.node.next
  distinct : c.shared.node.accepted.Pairwise fun r q => r.tx.nonce ≠ q.tx.nonce
  origin : ∀ r ∈ c.shared.node.accepted, r.origin = .earlier
  included : ∀ t ∈ c.shared.node.included, c.shared.node.Holds t
  limbo : c.shared.node.limbo = []
  log : c.shared.log = []
  task : ∀ i, (c.task i).fresh

/-- A relayer that has never sent anything. -/
def newRelayer {P ι : Type} [DecidableEq P] (cfg : AppConfig) (task : ι → Task P) :
    Config (Shared P ι) ι (Task P) :=
  ⟨⟨⟨[], [], 0, []⟩, onModuleInit cfg none 0 [] 0, 0, []⟩, task⟩

lemma newRelayer_initial {P ι : Type} [DecidableEq P] (cfg : AppConfig) {task : ι → Task P}
    (h : ∀ i, (task i).fresh) : Initial cfg (newRelayer cfg task) where
  service := ⟨none, [], rfl, by simp, by simp⟩
  nonces := by simp [newRelayer, Node.nonces]
  distinct := by simp [newRelayer]
  origin := by simp [newRelayer]
  included := by simp [newRelayer]
  limbo := rfl
  log := rfl
  task := h

/-- Two calls of `submitTransaction`, two passes, and queries of the quota. -/
def sampleTask : ℕ → Task ℕ
  | 0 => .submitTransaction 0 (.acquire 1)
  | 1 => .submitTransaction 1 (.acquire 1)
  | 2 => .checkTransactions .start
  | 3 => .checkTransactions .start
  | _ => .getPhoneNumberSignature (.query 1)

def sampleConfig : AppConfig := ⟨1000, 5, 100000, 60000⟩

def sample : Config (Shared ℕ ℕ) ℕ (Task ℕ) := newRelayer sampleConfig sampleTask

lemma sample_initial : Initial sampleConfig sample := by
  refine newRelayer_initial _ fun i => ?_
  unfold sampleTask
  split <;> rfl

/-- The same tasks, finitely many. -/
def smallSample : Config (Shared ℕ (Fin 4)) (Fin 4) (Task ℕ) :=
  newRelayer sampleConfig fun i => sampleTask i

lemma smallSample_initial : Initial sampleConfig smallSample :=
  newRelayer_initial _ fun i => sample_initial.task i

def submits {ι : Type} (i : ι) (es : List SubmitEvent) : List (Label ι (Event ℕ)) :=
  es.map fun e => .task i (.submit e)

def checks {ι : Type} (i : ι) (es : List CheckEvent) : List (Label ι (Event ℕ)) :=
  es.map fun e => .task i (.check e)

end Komenci.Relayer
