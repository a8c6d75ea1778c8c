import Komenci.DecimalText
import Komenci.Interleaving

/-! The rewards service: the event handler that creates a reward and sends it, and the
two cron jobs of the reward sender. Any number of instances share one database, and
their commands go to the relayer, which answers late, never, or not at all. -/
namespace Komenci.Rewards
open Interleaving DecimalText

inductive StableToken
  | cUSD
  | cEUR
  deriving DecidableEq

inductive RewardStatus
  | Created
  | Submitted
  | Completed
  | Failed
  | DeadLettered
  deriving DecidableEq

/-- A row of the table, with addresses `α`, and identifiers and hashes `ν`. -/
structure InviteRewardRow (α ν : Type) where
  id : ℕ
  inviter : α
  invitee : α
  inviteeIdentifier : ν
  state : RewardStatus
  rewardTxHash : Option ν
  inviteToken : StableToken
  createdAt : ℕ
  deriving DecidableEq

/-- Here all of them are numbers. -/
abbrev InviteReward := InviteRewardRow ℕ ℕ

structure AppConfig where
  inviteRewardAmountInCusd : ℚ
  cUsdTokenAddress : ℕ
  cEurTokenAddress : ℕ
  komenciAddresses : List ℕ

def WEI_PER_UNIT : ℚ := 1000000000000000000
def MAX_INVITES_PER_QUERY : ℕ := 100
def WEEKLY_INVITE_LIMIT : ℕ := 20

/-- Thirty minutes, in milliseconds. -/
def retryAfterMs : ℕ := 30 * 60 * 1000

/-- What `repository.update` sets. -/
structure RowUpdate where
  state : RewardStatus
  rewardTxHash : Option ℕ
  deriving DecidableEq

def InviteRewardRow.update (row : InviteReward) (u : RowUpdate) : InviteReward :=
  { row with state := u.state, rewardTxHash := u.rewardTxHash.or row.rewardTxHash }

/-- A transfer the relayer is asked for. -/
structure Command where
  inviteId : ℕ
  token : StableToken
  recipient : ℕ
  value : ℤ
  /-- The hash once the relayer has executed the command. -/
  txHash : Option ℕ
  deriving DecidableEq

structure WatchedInvite where
  inviteId : ℕ
  txHash : ℕ
  markAsDeadLetterIfFailed : Bool
  deriving DecidableEq

/-- `ι` are the tasks, `κ` the instances of the service. -/
structure Shared (ι κ : Type) where
  rows : List InviteReward
  /-- The rows a transaction has locked. -/
  locks : ℕ → Option ι
  commands : List Command
  /-- The status in the receipt of a transaction that is in a block. -/
  receipts : ℕ → Option Bool
  watchedInvites : κ → List WatchedInvite
  checkingWatchedInvites : κ → Bool
  checkingFailedInvites : κ → Bool
  now : ℕ

inductive TxStatus
  | Completed
  | Failed
  | Pending
  deriving DecidableEq

/-- Where a call of `sendInviteReward` stands: before the transfer is made up, waiting for
the relayer, the answer there but not written, and so on. -/
inductive SendPhase
  | prepare
  | awaiting (k : ℕ)
  | failed
  | submitted (txHash : ℕ)
  | finished (written : Option RowUpdate)
  deriving DecidableEq

/-- `error` is a timeout, a broken connection or an error of the relayer. -/
inductive SendEvent
  | prepared
  | throw
  | reply
  | error
  | write
  | writeFails
  deriving DecidableEq

structure EventLog (α ν : Type) where
  transactionHash : ν
  identifier : ν
  token : α
  recipient : α
  deriving DecidableEq

inductive HandlerPhase
  | start
  | getTransaction (inviteToken : StableToken)
  | conditions (inviteToken : StableToken) (invitee : ℕ)
  | save (inviteToken : StableToken) (invitee : ℕ)
  | send (invite : InviteReward) (phase : SendPhase)
  | finished
  deriving DecidableEq

inductive HandlerEvent
  | resume
  | transaction (recipient : Option ℕ) (sender : ℕ)
  | conditions (inviterVerified inviteeVerified : Bool)
  | save (id : ℕ)
  | fail
  | send (e : SendEvent)
  deriving DecidableEq

/-- Where a pass of `checkFailedInvites` stands with one of its rows. -/
inductive ItemPhase
  | status
  | complete
  | send (phase : SendPhase)
  | settled (written : Option RowUpdate)
  deriving DecidableEq

inductive ItemEvent
  | status
  | fail
  | write
  | send (e : SendEvent)
  deriving DecidableEq

inductive FailedPhase
  | start
  | select
  | running (ids : List ℕ) (item : ℕ → Option (InviteReward × ItemPhase)) (aborted : Bool)
  | finished

inductive FailedEvent
  | resume
  | select (ids : List ℕ)
  | fail
  | item (id : ℕ) (e : ItemEvent)
  | commit
  | rollback
  deriving DecidableEq

inductive WatchPhase
  | status
  | update (s : RewardStatus)
  | settled
  deriving DecidableEq

inductive WatchEvent
  | status
  | fail
  | write
  deriving DecidableEq

inductive WatchedPhase
  | start
  | running (items : List (WatchedInvite × WatchPhase))
  | finished
  deriving DecidableEq

inductive WatchedEvent
  | resume
  | item (k : ℕ) (e : WatchEvent)
  deriving DecidableEq

inductive Task
  | handleWithdrawalEvent (event : EventLog ℕ ℕ) (phase : HandlerPhase)
  | checkFailedInvites (phase : FailedPhase)
  | checkWatchedInvites (phase : WatchedPhase)
  | stopped

/-- The last four are steps of the outside world: the relayer executes a command, a
transaction gets into a block, an instance restarts, time passes. -/
inductive Event (κ : Type)
  | handler (e : HandlerEvent)
  | failed (e : FailedEvent)
  | watched (e : WatchedEvent)
  | execute (k txHash : ℕ)
  | mine (txHash : ℕ) (status : Bool)
  | restart (instanceId : κ)
  | tick (ms : ℕ)
  deriving DecidableEq

section Steps
variable {ι κ : Type} [DecidableEq ι] [DecidableEq κ] (cfg : AppConfig) (inst : ι → κ)

def Shared.update (s : Shared ι κ) (id : ℕ) (u : RowUpdate) : Shared ι κ :=
  { s with rows := s.rows.map fun row => if row.id = id then row.update u else row }

def Shared.watch (s : Shared ι κ) (k : κ) (w : WatchedInvite) : Shared ι κ :=
  { s with watchedInvites := Function.update s.watchedInvites k (s.watchedInvites k ++ [w]) }

/-- The answer to a command, when the relayer has executed it. -/
def answer (commands : List Command) (k : ℕ) : Option ℕ := commands[k]?.bind Command.txHash

def getTxStatus (s : Shared ι κ) (txHash : ℕ) : TxStatus :=
  match s.receipts txHash with
  | none => .Pending
  | some true => .Completed
  | some false => .Failed

def rewardTransfer (invite : InviteReward) : Command :=
  ⟨invite.id, invite.inviteToken, invite.inviter,
    toFixed (cfg.inviteRewardAmountInCusd * WEI_PER_UNIT), none⟩

/-- `sendInviteReward`. The row is written by the caller, who knows the repository. -/
def sendInviteReward (k : κ) (invite : InviteReward) (isRetry : Bool) (s : Shared ι κ) :
    SendPhase → SendEvent → Option (Shared ι κ × SendPhase)
  | .prepare, .prepared =>
    some ({ s with commands := s.commands ++ [rewardTransfer cfg invite] },
      .awaiting s.commands.length)
  | .prepare, .throw => some (s, .finished none)
  | .awaiting j, .reply => (answer s.commands j).map fun txHash => (s, .submitted txHash)
  -- The relayer may have executed the command or may do so later.
  | .awaiting _, .error => some (s, .failed)
  | .failed, .write =>
    some (s, .finished (some ⟨if isRetry then .DeadLettered else .Failed, none⟩))
  | .failed, .writeFails => some (s, .finished none)
  | .submitted txHash, .write =>
    some (s.watch k ⟨invite.id, txHash, isRetry⟩, .finished (some ⟨.Submitted, some txHash⟩))
  | .submitted _, .writeFails => some (s, .finished none)
  | _, _ => none

def getInviteToken (token : ℕ) : Option StableToken :=
  if cfg.cUsdTokenAddress = token then some .cUSD
  else if cfg.cEurTokenAddress = token then some .cEUR
  else none

def dayMs : ℕ := 24 * 60 * 60 * 1000

/-- The calendar week of a time, in milliseconds since 1970, which began on a Thursday. -/
def weekOf (t : ℕ) : ℕ := (t + 3 * dayMs) / (7 * dayMs)

/-- `date_trunc('week', current_date)` -/
def startOfWeek (now : ℕ) : ℕ := weekOf now * (7 * dayMs) - 3 * dayMs

def inviterHasNotReachedWeeklyLimit (s : Shared ι κ) (inviter : ℕ) : Bool :=
  (s.rows.filter fun row =>
    row.inviter = inviter && row.state ≠ .Failed && startOfWeek s.now ≤ row.createdAt).length <
      WEEKLY_INVITE_LIMIT

def inviteeRewardNotInProgress (s : Shared ι κ) (invitee : ℕ) : Bool :=
  !s.rows.any fun row => row.invitee = invitee

/-- The unique constraints hold for the new row. -/
def Unique (rows : List InviteReward) (row : InviteReward) : Prop :=
  ∀ r ∈ rows, r.invitee ≠ row.invitee ∧ r.inviteeIdentifier ≠ row.inviteeIdentifier

instance (rows : List InviteReward) (row : InviteReward) : Decidable (Unique rows row) :=
  inferInstanceAs (Decidable (∀ r ∈ rows, _))

/-- `handleWithdrawalEvent`, with the send that it fires off. -/
def handleWithdrawalEvent (k : κ) (event : EventLog ℕ ℕ) (s : Shared ι κ) :
    HandlerPhase → HandlerEvent → Option (Shared ι κ × HandlerPhase)
  | .start, .resume =>
    match getInviteToken cfg event.token with
    | none => some (s, .finished)
    | some inviteToken => some (s, .getTransaction inviteToken)
  | .getTransaction inviteToken, .transaction recipient sender =>
    match recipient with
    | none => some (s, .finished)
    | some invitee =>
      if sender ∈ cfg.komenciAddresses then some (s, .conditions inviteToken invitee)
      else some (s, .finished)
  | .conditions inviteToken invitee, .conditions inviterVerified inviteeVerified =>
    if inviterVerified && inviteeVerified && inviterHasNotReachedWeeklyLimit s event.recipient &&
      inviteeRewardNotInProgress s invitee
    then some (s, .save inviteToken invitee)
    else some (s, .finished)
  | .save inviteToken invitee, .save id =>
    let row : InviteReward :=
      ⟨id, event.recipient, invitee, event.identifier, .Created, none, inviteToken, s.now⟩
    -- A fresh uuid is no id in use.
    if ∀ r ∈ s.rows, r.id ≠ id then
      if Unique s.rows row then some ({ s with rows := s.rows ++ [row] }, .send row .prepare)
      else some (s, .finished)
    else none
  | .send invite phase, .send e =>
    match sendInviteReward cfg k invite false s phase e with
    | none => none
    | some (s', .finished none) => some (s', .finished)
    | some (s', .finished (some u)) =>
      -- The update waits for a transaction that has locked the row.
      if s'.locks invite.id = none then some (s'.update invite.id u, .finished) else none
    | some (s', phase') => some (s', .send invite phase')
  | .getTransaction _, .fail => some (s, .finished)
  | .conditions _ _, .fail => some (s, .finished)
  | .save _ _, .fail => some (s, .finished)
  | _, _ => none

def Shared.candidates (s : Shared ι κ) : List InviteReward :=
  s.rows.filter fun row =>
    (row.state = .Created || row.state = .Submitted || row.state = .Failed) &&
      row.createdAt + retryAfterMs ≤ s.now

/-- What the query of `checkFailedInvites` may return. -/
def Selects (s : Shared ι κ) (ids : List ℕ) : Prop :=
  ids.Nodup ∧ (∀ id ∈ ids, ∃ row ∈ s.candidates, row.id = id) ∧
    ids.length = min MAX_INVITES_PER_QUERY s.candidates.length

instance (s : Shared ι κ) (ids : List ℕ) : Decidable (Selects s ids) :=
  inferInstanceAs (Decidable (_ ∧ _ ∧ _))

def Shared.find (s : Shared ι κ) (id : ℕ) : Option InviteReward := s.rows.find? fun r => r.id = id

/-- One of the rows `promiseAllSettled` waits for. In an aborted transaction no more
statement succeeds. -/
def checkInvite (k : κ) (invite : InviteReward) (aborted : Bool) (s : Shared ι κ) :
    ItemPhase → ItemEvent → Option (Shared ι κ × ItemPhase)
  | .status, .status =>
    match invite.rewardTxHash.elim .Failed (getTxStatus s) with
    | .Completed => some (s, .complete)
    | .Failed => some (s, .send .prepare)
    | .Pending => some (s, .settled none)
  | .status, .fail => some (s, .settled none)
  | .complete, .write =>
    if aborted then none else some (s, .settled (some ⟨.Completed, none⟩))
  | .complete, .fail => some (s, .settled none)
  | .send phase, .send e =>
    if aborted = true ∧ e = .write then none
    else
      match sendInviteReward cfg k invite true s phase e with
      | none => none
      | some (s', .finished u) => some (s', .settled u)
      | some (s', phase') => some (s', .send phase')
  | _, _ => none

/-- A statement of the transaction fails in this step. -/
def aborts : ItemPhase → ItemEvent → Bool
  | .complete, .fail => true
  | .send _, .send .writeFails => true
  | _, _ => false

def ItemPhase.isSettled : ItemPhase → Bool
  | .settled _ => true
  | _ => false

/-- The rows with the updates of the transaction. -/
def commitRows (rows : List InviteReward) (item : ℕ → Option (InviteReward × ItemPhase)) :
    List InviteReward :=
  rows.map fun row =>
    match item row.id with
    | some (_, .settled (some u)) => row.update u
    | _ => row

def Shared.unlock (s : Shared ι κ) (i : ι) : Shared ι κ :=
  { s with locks := fun id => if s.locks id = some i then none else s.locks id }

def Shared.setCheckingFailed (s : Shared ι κ) (k : κ) (b : Bool) : Shared ι κ :=
  { s with checkingFailedInvites := Function.update s.checkingFailedInvites k b }

def Shared.setCheckingWatched (s : Shared ι κ) (k : κ) (b : Bool) : Shared ι κ :=
  { s with checkingWatchedInvites := Function.update s.checkingWatchedInvites k b }

def allSettled (ids : List ℕ) (item : ℕ → Option (InviteReward × ItemPhase)) : Bool :=
  ids.all fun id => (item id).all fun p => p.2.isSettled

/-- A pass of `checkFailedInvites`. -/
def checkFailedInvites (i : ι) (k : κ) (s : Shared ι κ) :
    FailedPhase → FailedEvent → Option (Shared ι κ × FailedPhase)
  | .start, .resume =>
    if s.checkingFailedInvites k then some (s, .finished)
    else some (s.setCheckingFailed k true, .select)
  | .select, .select ids =>
    if Selects s ids then
      if ∀ id ∈ ids, s.locks id = none then
        some ({ s with locks := fun id => if id ∈ ids then some i else s.locks id },
          .running ids
            (fun id => if id ∈ ids then (s.find id).map fun row => (row, .status) else none) false)
      -- could not obtain lock on row in relation
      else some (s.setCheckingFailed k false, .finished)
    else none
  | .select, .fail => some (s.setCheckingFailed k false, .finished)
  | .running ids item aborted, .item id e =>
    match item id with
    | none => none
    | some (invite, phase) =>
      (checkInvite cfg k invite aborted s phase e).map fun r =>
        (r.1, .running ids (Function.update item id (some (invite, r.2)))
          (aborted || aborts phase e))
  | .running ids item aborted, .commit =>
    if allSettled ids item && !aborted then
      some (({ s with rows := commitRows s.rows item }.unlock i).setCheckingFailed k false, .finished)
    else none
  | .running ids item _, .rollback =>
    if allSettled ids item then some ((s.unlock i).setCheckingFailed k false, .finished) else none
  | _, _ => none

/-- One of the invites `checkWatchedInvites` looks at. -/
def checkWatched (k : κ) (invite : WatchedInvite) (s : Shared ι κ) :
    WatchPhase → WatchEvent → Option (Shared ι κ × WatchPhase)
  | .status, .status =>
    match getTxStatus s invite.txHash with
    | .Completed => some (s, .update .Completed)
    | .Failed => some (s, .update (if invite.markAsDeadLetterIfFailed then .DeadLettered else .Failed))
    | .Pending => some (s, .settled)
  | .status, .fail => some (s, .settled)
  | .update state, .write =>
    if s.locks invite.inviteId = none then
      some ({ s.update invite.inviteId ⟨state, none⟩ with
        watchedInvites := Function.update s.watchedInvites k
          ((s.watchedInvites k).erase invite) }, .settled)
    else none
  | .update _, .fail => some (s, .settled)
  | _, _ => none

/-- A pass of `checkWatchedInvites`. -/
def checkWatchedInvites (k : κ) (s : Shared ι κ) :
    WatchedPhase → WatchedEvent → Option (Shared ι κ × WatchedPhase)
  | .start, .resume =>
    if s.checkingWatchedInvites k then some (s, .finished)
    else some (s.setCheckingWatched k true,
      .running ((s.watchedInvites k).map fun w => (w, .status)))
  | .running items, .item n e =>
    match items[n]? with
    | none => none
    | some (invite, phase) =>
      (checkWatched k invite s phase e).map fun r => (r.1, .running (items.set n (invite, r.2)))
  | .running items, .resume =>
    if items.all fun p => p.2 = .settled then some (s.setCheckingWatched k false, .finished)
    else none
  | _, _ => none

def segment (i : ι) (e : Event κ) (s : Shared ι κ) : Task → Option (Shared ι κ × Task)
  | .handleWithdrawalEvent event phase =>
    match e with
    | .handler e => (handleWithdrawalEvent cfg (inst i) event s phase e).map
        fun r => (r.1, .handleWithdrawalEvent event r.2)
    | _ => none
  | .checkFailedInvites phase =>
    match e with
    | .failed e => (checkFailedInvites cfg i (inst i) s phase e).map
        fun r => (r.1, .checkFailedInvites r.2)
    | _ => none
  | .checkWatchedInvites phase =>
    match e with
    | .watched e => (checkWatchedInvites (inst i) s phase e).map
        fun r => (r.1, .checkWatchedInvites r.2)
    | _ => none
  | .stopped => none

def Task.isFresh : Task → Bool
  | .handleWithdrawalEvent _ .start => true
  | .checkFailedInvites .start => true
  | .checkWatchedInvites .start => true
  | _ => false

/-- What the process was doing is lost; what it has not begun it may do afterwards. -/
def Task.stop (t : Task) : Task := if t.isFresh then t else .stopped

def Shared.restart (s : Shared ι κ) (k : κ) : Shared ι κ :=
  { s with
    locks := fun id => (s.locks id).filter fun i => inst i ≠ k
    watchedInvites := Function.update s.watchedInvites k []
    checkingWatchedInvites := Function.update s.checkingWatchedInvites k false
    checkingFailedInvites := Function.update s.checkingFailedInvites k false }

/-- The relayer executes a command, whether its caller still waits or not. -/
def execute (k txHash : ℕ) (s : Shared ι κ) : Option (Shared ι κ) :=
  match s.commands[k]? with
  | none => none
  | some command =>
    if command.txHash = none ∧ s.receipts txHash = none ∧
      ∀ c ∈ s.commands, c.txHash ≠ some txHash then
      some { s with commands := s.commands.set k { command with txHash := some txHash } }
    else none

def mine (txHash : ℕ) (status : Bool) (s : Shared ι κ) : Option (Shared ι κ) :=
  if s.receipts txHash = none ∧ ∃ c ∈ s.commands, c.txHash = some txHash then
    some { s with receipts := Function.update s.receipts txHash (some status) }
  else none

def world (e : Event κ) (c : Config (Shared ι κ) ι Task) : Option (Config (Shared ι κ) ι Task) :=
  match e with
  | .execute k txHash => (execute k txHash c.shared).map fun s => ⟨s, c.task⟩
  | .mine txHash status => (mine txHash status c.shared).map fun s => ⟨s, c.task⟩
  | .restart k => some ⟨c.shared.restart inst k,
      fun i => if inst i = k then (c.task i).stop else c.task i⟩
  | .tick ms => some ⟨{ c.shared with now := c.shared.now + ms }, c.task⟩
  | _ => none

def machine : Machine (Shared ι κ) ι Task (Event κ) where
  seg := segment cfg inst
  env := world inst

end Steps

end Komenci.Rewards
