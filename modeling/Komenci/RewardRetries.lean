import Komenci.RewardPaidOnce
import Komenci.RewardRows

/-! What was sent of each row: a third transfer is handed to the relayer only when a row is resent
after two. -/
namespace Komenci.Rewards
open Interleaving

variable {ι κ : Type}

/-- How many transfers for a row were handed to the relayer. -/
def sent (commands : List Command) (id : ℕ) : ℕ := commands.countP fun q => q.inviteId = id

def SendPhase.prepares : SendPhase → Bool
  | .prepare => true
  | _ => false

/-- The task makes up a transfer for the row. -/
def Task.prepares (id : ℕ) : Task → Bool
  | .handleWithdrawalEvent _ (.send invite phase) => invite.id = id && phase.prepares
  | .checkFailedInvites (.running _ item _) =>
    match item id with
    | some (_, .send phase) => phase.prepares
    | _ => false
  | _ => false

/-- The task is the handler that has made the row, and still sends. -/
def Task.handles (id : ℕ) : Task → Bool
  | .handleWithdrawalEvent _ (.send invite _) => invite.id = id
  | _ => false

/-- At most one transfer for the row was handed over or is made up. -/
def SentOnce (c : Config (Shared ι κ) ι Task) (id : ℕ) : Prop :=
  sent c.shared.commands id = 0 ∨
    sent c.shared.commands id = 1 ∧ ∀ i, (c.task i).prepares id = false

/-- A row that is going to be resent was sent at most once. -/
def AtMostOnce (c : Config (Shared ι κ) ι Task) : Label ι (Event κ) → Prop
  | .task i (.failed (.item id .status)) =>
    match c.task i with
    | .checkFailedInvites (.running _ item _) =>
      match item id with
      | some (invite, .status) =>
        invite.rewardTxHash.elim .Failed (getTxStatus c.shared) = .Failed → SentOnce c id
      | _ => True
    | _ => True
  | _ => True

/-- What was sent and what may still be sent of each row. -/
structure Retries (c : Config (Shared ι κ) ι Task) : Prop where
  known : ∀ q ∈ c.shared.commands, ∃ row ∈ c.shared.rows, row.id = q.inviteId
  made : ∀ i id, (c.task i).handles id = true → ∃ row ∈ c.shared.rows, row.id = id
  handler : ∀ i j id, (c.task i).handles id = true → (c.task j).handles id = true → i = j
  sent_le : ∀ id, sent c.shared.commands id ≤ 2
  one : ∀ i id, (c.task i).prepares id = true → sent c.shared.commands id ≤ 1
  apart : ∀ i j id, i ≠ j → (c.task i).prepares id = true → (c.task j).prepares id = true →
    sent c.shared.commands id = 0

section Tasks
variable {s : Shared ι κ} {i : ι} {t : Task} {id : ℕ}

/-- Only the handler of a row and who keeps it locked make up a transfer for it. -/
lemma prepares_cases (hr : RightTask i s t) (h : t.prepares id = true) :
    t.handles id = true ∨ s.locks id = some i ∧ ∃ row ∈ s.rows, row.id = id := by
  match t with
  | .handleWithdrawalEvent event (.send invite phase) =>
    simp only [Task.prepares, Bool.and_eq_true, decide_eq_true_eq] at h
    exact .inl (by simp [Task.handles, h.1])
  | .checkFailedInvites (.running ids item aborted) =>
    cases hitem : item id with
    | none => simp [Task.prepares, hitem] at h
    | some p =>
      obtain ⟨-, hlock, ⟨row, hrow, hid, -⟩, -, -⟩ := hr id p.1 p.2 hitem
      exact .inr ⟨hlock, row, hrow, hid⟩
  | .handleWithdrawalEvent _ .start | .handleWithdrawalEvent _ (.getTransaction _)
  | .handleWithdrawalEvent _ (.conditions _ _) | .handleWithdrawalEvent _ (.save _ _)
  | .handleWithdrawalEvent _ .finished | .checkFailedInvites .start
  | .checkFailedInvites .select | .checkFailedInvites .finished
  | .checkWatchedInvites _ | .stopped => cases h

lemma prepares_fresh (h : t.isFresh = true) : t.prepares id = false ∧ t.handles id = false := by
  unfold Task.isFresh at h
  split at h
  all_goals first | exact ⟨rfl, rfl⟩ | cases h

lemma prepares_stop (t : Task) (id : ℕ) :
    t.stop.prepares id = false ∧ t.stop.handles id = false := by
  unfold Task.stop
  split_ifs with h
  · exact prepares_fresh h
  · exact ⟨rfl, rfl⟩

/-- A row with no transfer, or with a reverted one, counts as failed. -/
lemma status_reverted {invite : InviteReward}
    (h : ∀ txHash, invite.rewardTxHash = some txHash → s.receipts txHash = some false) :
    invite.rewardTxHash.elim .Failed (getTxStatus s) = .Failed := by
  cases hhash : invite.rewardTxHash with
  | none => rfl
  | some txHash => simp [getTxStatus, h txHash hhash]

lemma sent_append (commands : List Command) (q : Command) (id : ℕ) :
    sent (commands ++ [q]) id = sent commands id + if q.inviteId = id then 1 else 0 := by
  simp [sent, List.countP_append, List.countP_cons]

/-- What the relayer executes was sent before. -/
lemma sent_execute {commands : List Command} {k txHash : ℕ} {q : Command}
    (h : commands[k]? = some q) (id : ℕ) :
    sent (commands.set k { q with txHash := some txHash }) id = sent commands id := by
  obtain ⟨pre, post, hold, hset⟩ := exists_split_set h { q with txHash := some txHash }
  rw [hset]
  simp only [sent, hold, List.countP_append, List.countP_cons]

lemma sent_eq_zero {commands : List Command} (h : ∀ q ∈ commands, q.inviteId ≠ id) :
    sent commands id = 0 := by
  simpa [sent, List.countP_eq_zero] using h

end Tasks

namespace Retries
variable {c d : Config (Shared ι κ) ι Task} {i : ι} {row : ℕ}

/-- Nothing new is sent or made up. -/
lemma mono (hr : Retries c)
    (hrows : ∀ r ∈ c.shared.rows, ∃ r' ∈ d.shared.rows, r'.id = r.id)
    (hknown : ∀ q ∈ d.shared.commands, ∃ q' ∈ c.shared.commands, q'.inviteId = q.inviteId)
    (hsent : ∀ id, sent d.shared.commands id = sent c.shared.commands id)
    (hprepares : ∀ i id, (d.task i).prepares id = true → (c.task i).prepares id = true)
    (hhandles : ∀ i id, (d.task i).handles id = true → (c.task i).handles id = true) :
    Retries d := by
  constructor
  · intro q hq
    obtain ⟨q', hq', hid⟩ := hknown q hq
    obtain ⟨r, hr, hrid⟩ := hr.known q' hq'
    obtain ⟨r', hr', hrid'⟩ := hrows r hr
    exact ⟨r', hr', (hrid'.trans hrid).trans hid⟩
  · intro i id h
    obtain ⟨r, hr, hid⟩ := hr.made i id (hhandles i id h)
    obtain ⟨r', hr', hid'⟩ := hrows r hr
    exact ⟨r', hr', hid'.trans hid⟩
  · exact fun i j id hi hj => hr.handler i j id (hhandles i id hi) (hhandles j id hj)
  · exact fun id => hsent id ▸ hr.sent_le id
  · exact fun i id h => hsent id ▸ hr.one i id (hprepares i id h)
  · exact fun i j id hij hi hj =>
      hsent id ▸ hr.apart i j id hij (hprepares i id hi) (hprepares j id hj)

/-- No three tasks make up a transfer for one row. -/
lemma no_three (hr : Retries c) (hright : ∀ j, RightTask j c.shared (c.task j)) {i j k : ι} {id : ℕ}
    (hij : i ≠ j) (hik : i ≠ k) (hjk : j ≠ k) (hi : (c.task i).prepares id = true)
    (hj : (c.task j).prepares id = true) (hk : (c.task k).prepares id = true) : False := by
  have hlock : ∀ {a b : ι}, c.shared.locks id = some a → c.shared.locks id = some b → a = b :=
    fun ha hb => Option.some.inj (ha.symm.trans hb)
  rcases prepares_cases (hright i) hi with hi | ⟨hi, -⟩ <;>
    rcases prepares_cases (hright j) hj with hj | ⟨hj, -⟩ <;>
    rcases prepares_cases (hright k) hk with hk | ⟨hk, -⟩
  · exact hij (hr.handler i j id hi hj)
  · exact hij (hr.handler i j id hi hj)
  · exact hik (hr.handler i k id hi hk)
  · exact hjk (hlock hj hk)
  · exact hjk (hr.handler j k id hj hk)
  · exact hik (hlock hi hk)
  · exact hij (hlock hi hj)
  · exact hij (hlock hi hj)

/-- The transfer that a task has made up is handed over. -/
lemma send (hr : Retries c) (hright : ∀ j, RightTask j c.shared (c.task j)) {q : Command}
    (hrows : d.shared.rows = c.shared.rows)
    (hcommands : d.shared.commands = c.shared.commands ++ [q])
    (hrow : q.inviteId = row) (hi : (c.task i).prepares row = true)
    (hi' : (d.task i).prepares row = false)
    (hprepares : ∀ j id, (d.task j).prepares id = true → (c.task j).prepares id = true)
    (hhandles : ∀ j id, (d.task j).handles id = true → (c.task j).handles id = true) :
    Retries d := by
  have hsent : ∀ id, sent d.shared.commands id =
      sent c.shared.commands id + if row = id then 1 else 0 := by
    intro id
    rw [hcommands, sent_append, hrow]
  have hne : ∀ j id, row = id → (d.task j).prepares id = true → i ≠ j := by
    rintro j id rfl hj rfl
    simp [hi'] at hj
  constructor
  · intro a ha
    rw [hcommands, List.mem_append, List.mem_singleton] at ha
    rw [hrows]
    rcases ha with ha | rfl
    · exact hr.known a ha
    · rw [hrow]
      rcases prepares_cases (hright i) hi with h | ⟨-, h⟩
      · exact hr.made i row h
      · exact h
  · exact fun j id h => hrows ▸ hr.made j id (hhandles j id h)
  · exact fun j k id hj hk => hr.handler j k id (hhandles j id hj) (hhandles k id hk)
  · intro id
    rw [hsent]
    split_ifs with hid
    · subst hid
      have hone := hr.one i row hi
      omega
    · simpa using hr.sent_le id
  · intro j id hj
    rw [hsent]
    split_ifs with hid
    · have hzero := hr.apart i j id (hne j id hid hj) (hid ▸ hi) (hprepares j id hj)
      omega
    · simpa using hr.one j id (hprepares j id hj)
  · intro j k id hjk hj hk
    rw [hsent]
    split_ifs with hid
    · exact (hr.no_three hright (hne j id hid hj) (hne k id hid hk) hjk (hid ▸ hi)
        (hprepares j id hj) (hprepares k id hk)).elim
    · simpa using hr.apart j k id hjk (hprepares j id hj) (hprepares k id hk)

/-- A task begins to make up a transfer for a row that was sent at most once. -/
lemma retry (hr : Retries c) (honce : SentOnce c row) (hrows : d.shared.rows = c.shared.rows)
    (hcommands : d.shared.commands = c.shared.commands)
    (hprepares : ∀ j id, (d.task j).prepares id = true →
      (c.task j).prepares id = true ∨ j = i ∧ id = row)
    (hhandles : ∀ j id, (d.task j).handles id = true → (c.task j).handles id = true) :
    Retries d := by
  have hother : ∀ j, (c.task j).prepares row = true → sent c.shared.commands row = 0 := by
    intro j hj
    rcases honce with hzero | ⟨-, hnone⟩
    · exact hzero
    · rw [hnone] at hj
      cases hj
  constructor
  · rw [hcommands, hrows]
    exact hr.known
  · exact fun j id h => hrows ▸ hr.made j id (hhandles j id h)
  · exact fun j k id hj hk => hr.handler j k id (hhandles j id hj) (hhandles k id hk)
  · rw [hcommands]
    exact hr.sent_le
  · intro j id hj
    rw [hcommands]
    rcases hprepares j id hj with hj | ⟨rfl, rfl⟩
    · exact hr.one j id hj
    · rcases honce with hzero | ⟨hone, -⟩ <;> omega
  · intro j k id hjk hj hk
    rw [hcommands]
    rcases hprepares j id hj with hj | ⟨rfl, rfl⟩
    · rcases hprepares k id hk with hk | ⟨rfl, rfl⟩
      · exact hr.apart j k id hjk hj hk
      · exact hother j hj
    · rcases hprepares k id hk with hk | ⟨rfl, -⟩
      · exact hother k hk
      · exact absurd rfl hjk

/-- A handler saves a new row and makes up its transfer. -/
lemma save (hr : Retries c) {r : InviteReward}
    (hnew : ∀ r' ∈ c.shared.rows, r'.id ≠ r.id) (hrows : d.shared.rows = c.shared.rows ++ [r])
    (hcommands : d.shared.commands = c.shared.commands)
    (hprepares : ∀ j id, (d.task j).prepares id = true →
      (c.task j).prepares id = true ∨ j = i ∧ id = r.id)
    (hhandles : ∀ j id, (d.task j).handles id = true →
      (c.task j).handles id = true ∨ j = i ∧ id = r.id) : Retries d := by
  have hmem : ∀ a ∈ c.shared.rows, a ∈ d.shared.rows := fun a ha => by simp [hrows, ha]
  have hzero : sent c.shared.commands r.id = 0 := by
    apply sent_eq_zero
    intro q hq hid
    obtain ⟨r', hr', hid'⟩ := hr.known q hq
    exact hnew r' hr' (hid'.trans hid)
  have hnone : ∀ j, (c.task j).handles r.id ≠ true := by
    intro j hj
    obtain ⟨r', hr', hid⟩ := hr.made j r.id hj
    exact hnew r' hr' hid
  constructor
  · intro q hq
    obtain ⟨r', hr', hid⟩ := hr.known q (hcommands ▸ hq)
    exact ⟨r', hmem r' hr', hid⟩
  · intro j id hj
    rcases hhandles j id hj with hj | ⟨-, rfl⟩
    · obtain ⟨r', hr', hid⟩ := hr.made j id hj
      exact ⟨r', hmem r' hr', hid⟩
    · exact ⟨r, by simp [hrows], rfl⟩
  · intro j k id hj hk
    rcases hhandles j id hj with hj | ⟨rfl, rfl⟩
    · rcases hhandles k id hk with hk | ⟨rfl, rfl⟩
      · exact hr.handler j k id hj hk
      · exact absurd hj (hnone j)
    · rcases hhandles k _ hk with hk | ⟨rfl, -⟩
      · exact absurd hk (hnone k)
      · rfl
  · rw [hcommands]
    exact hr.sent_le
  · intro j id hj
    rw [hcommands]
    rcases hprepares j id hj with hj | ⟨rfl, rfl⟩
    · exact hr.one j id hj
    · omega
  · intro j k id hjk hj hk
    rw [hcommands]
    rcases hprepares j id hj with hj | ⟨rfl, rfl⟩
    · rcases hprepares k id hk with hk | ⟨rfl, rfl⟩
      · exact hr.apart j k id hjk hj hk
      · exact hzero
    · exact hzero

end Retries

section Steps
variable [DecidableEq ι] [DecidableEq κ] {cfg : AppConfig} {inst : ι → κ}
  {c d : Config (Shared ι κ) ι Task} {l : Label ι (Event κ)} {i : ι} {s : Shared ι κ} {t : Task}

omit [DecidableEq κ] in
/-- What a task does not prepare or handle afterwards unless it did before. -/
lemma resume_mono {p : ℕ → Task → Bool} {id : ℕ} (h : p id t = true → p id (c.task i) = true)
    (j : ι) (hj : p id ((c.resume i (s, t)).task j) = true) : p id (c.task j) = true :=
  Config.forall_resume (Q := fun j (task : Task) => p id task = true → p id (c.task j) = true) h
    (fun _ _ hj => hj) j hj

omit [DecidableEq κ] in
/-- The same where the task may begin with one row. -/
lemma resume_mono_or {p : ℕ → Task → Bool} {row : ℕ}
    (h : ∀ id, p id t = true → p id (c.task i) = true ∨ id = row)
    (j : ι) (id : ℕ) (hj : p id ((c.resume i (s, t)).task j) = true) :
    p id (c.task j) = true ∨ j = i ∧ id = row := by
  by_cases hji : j = i
  · subst hji
    exact (h id (by simpa using hj)).imp_right fun hid => ⟨rfl, hid⟩
  · exact .inl (by simpa [hji] using hj)

omit [DecidableEq ι] in
/-- A send hands over the transfer it has made up, or it hands over none. -/
lemma sendStep_commands {k : κ} {invite : InviteReward} {isRetry : Bool} {s s' : Shared ι κ}
    {phase phase' : SendPhase} {e : SendEvent}
    (h : SendStep cfg k invite isRetry s phase e s' phase') : phase'.prepares = false ∧
      (phase = .prepare ∧ s'.commands = s.commands ++ [rewardTransfer cfg invite] ∨
        s'.commands = s.commands) := by
  cases h with
  | prepared => exact ⟨rfl, .inl ⟨rfl, rfl⟩⟩
  | _ => exact ⟨rfl, .inr rfl⟩

omit [DecidableEq κ] in
/-- A task that goes on without a new transfer. -/
lemma Retries.resume (hr : Retries c)
    (hrows : ∀ r ∈ c.shared.rows, ∃ r' ∈ s.rows, r'.id = r.id)
    (hcommands : s.commands = c.shared.commands)
    (hprepares : ∀ id, t.prepares id = true → (c.task i).prepares id = true)
    (hhandles : ∀ id, t.handles id = true → (c.task i).handles id = true) :
    Retries (c.resume i (s, t)) := by
  apply hr.mono hrows
  · intro q hq
    exact ⟨q, hcommands ▸ hq, rfl⟩
  · intro id
    rw [Config.resume_shared, hcommands]
  · exact fun j id => resume_mono (p := Task.prepares) (hprepares id) j
  · exact fun j id => resume_mono (p := Task.handles) (hhandles id) j

lemma handler_retries {event : EventLog ℕ ℕ} {phase phase' : HandlerPhase} {e : HandlerEvent}
    (hr : Retries c) (hright : ∀ j, RightTask j c.shared (c.task j))
    (hrows : ∀ r ∈ c.shared.rows, ∃ r' ∈ s.rows, r'.id = r.id)
    (hi : c.task i = .handleWithdrawalEvent event phase)
    (h : HandlerStep cfg (inst i) event c.shared phase e s phase') :
    Retries (c.resume i (s, .handleWithdrawalEvent event phase')) := by
  cases h with
  | quiet _ hne =>
    have hoff : ∀ id, (Task.handleWithdrawalEvent event phase').prepares id = false ∧
        (Task.handleWithdrawalEvent event phase').handles id = false := by
      intro id
      cases phase' with
      | send invite p => exact absurd rfl (hne invite p)
      | _ => exact ⟨rfl, rfl⟩
    apply hr.resume hrows rfl
    · intro id h
      rw [(hoff id).1] at h
      cases h
    · intro id h
      rw [(hoff id).2] at h
      cases h
  | @save inviteToken invitee row _ hid _ =>
    refine hr.save (i := i) hid (by rfl) (by rfl) ?_ ?_
    · apply resume_mono_or (p := Task.prepares)
      intro id h
      simp only [Task.prepares, Bool.and_eq_true, decide_eq_true_eq] at h
      exact .inr h.1.symm
    · apply resume_mono_or (p := Task.handles)
      intro id h
      simp only [Task.handles, decide_eq_true_eq] at h
      exact .inr h.symm
  | @send invite p e _ p' hs _ =>
    obtain ⟨hp', hcommands⟩ := sendStep_commands hs
    have hoff : ∀ id, (Task.handleWithdrawalEvent event (.send invite p')).prepares id = false := by
      simp [Task.prepares, hp']
    have hprepares : ∀ id, (Task.handleWithdrawalEvent event (.send invite p')).prepares id = true →
        (c.task i).prepares id = true := by
      intro id h
      rw [hoff] at h
      cases h
    have hhandles : ∀ id, (Task.handleWithdrawalEvent event (.send invite p')).handles id = true →
        (c.task i).handles id = true := by
      intro id h
      rw [hi]
      exact h
    rcases hcommands with ⟨rfl, hcommands⟩ | hcommands
    · refine hr.send hright (i := i) (q := rewardTransfer cfg invite) (sendStep_right hs).1 hcommands
        (by rfl) ?_ ?_ ?_ ?_
      · rw [hi]
        simp [Task.prepares, SendPhase.prepares, rewardTransfer]
      · simpa using hoff _
      · exact fun j id => resume_mono (p := Task.prepares) (hprepares id) j
      · exact fun j id => resume_mono (p := Task.handles) (hhandles id) j
    · exact hr.resume hrows hcommands hprepares hhandles
  | thrown hs =>
    rcases sendStep_commands hs with ⟨-, ⟨rfl, -⟩ | hcommands⟩
    · cases hs
      exact hr.resume hrows rfl (fun _ h => by cases h) (fun _ h => by cases h)
    · exact hr.resume hrows hcommands (fun _ h => by cases h) (fun _ h => by cases h)
  | written hs _ =>
    rcases sendStep_commands hs with ⟨-, ⟨rfl, -⟩ | hcommands⟩
    · cases hs
    · exact hr.resume hrows hcommands (fun _ h => by cases h) (fun _ h => by cases h)

/-- A pass of `checkFailedInvites` goes on with one of its rows. -/
lemma item_retries {ids : List ℕ} {item : ℕ → Option (InviteReward × ItemPhase)}
    {aborted aborted' : Bool} {id : ℕ} {invite : InviteReward} {phase phase' : ItemPhase}
    {e : ItemEvent} (hr : Retries c) (hright : ∀ j, RightTask j c.shared (c.task j))
    (hone : AtMostOnce c (.task i (.failed (.item id e)) : Label ι (Event κ)))
    (hi : c.task i = .checkFailedInvites (.running ids item aborted))
    (hitem : item id = some (invite, phase))
    (h : ItemStep cfg (inst i) invite c.shared phase e s phase') :
    Retries (c.resume i (s, .checkFailedInvites
      (.running ids (Function.update item id (some (invite, phase'))) aborted'))) := by
  have hrows : ∀ r ∈ c.shared.rows, ∃ r' ∈ s.rows, r'.id = r.id := by
    rw [(itemStep_right h).1]
    exact fun r hr => ⟨r, hr, rfl⟩
  have hri := hright i
  rw [hi] at hri
  have hinvite : invite.id = id := (hri id invite phase hitem).invite
  have hself : ∀ row, (Task.checkFailedInvites (.running ids
      (Function.update item id (some (invite, phase'))) aborted')).prepares row = true →
        (c.task i).prepares row = true ∨ row = id := by
    intro row hrow
    by_cases hid : row = id
    · exact .inr hid
    · left
      rw [hi]
      simpa [Task.prepares, Function.update_of_ne hid] using hrow
  have hquiet : (∀ p, phase' = .send p → p.prepares = false) → ∀ row,
      (Task.checkFailedInvites (.running ids
        (Function.update item id (some (invite, phase'))) aborted')).prepares row = true →
          (c.task i).prepares row = true := by
    intro hp row hrow
    rcases hself row hrow with hrow | rfl
    · exact hrow
    · cases phase' with
      | send p => simp [Task.prepares, hp p rfl] at hrow
      | _ => simp [Task.prepares] at hrow
  cases h with
  | completed _ _ =>
    exact hr.resume hrows rfl (hquiet (by simp)) (fun _ h => by cases h)
  | unsent _ _ =>
    exact hr.resume hrows rfl (hquiet (by simp)) (fun _ h => by cases h)
  | retry hreverted =>
    simp only [AtMostOnce, hi, hitem] at hone
    refine hr.retry (hone (status_reverted hreverted)) (by rfl) (by rfl)
      (resume_mono_or (p := Task.prepares) hself) ?_
    exact fun j id => resume_mono (p := Task.handles) (fun h => by cases h) j
  | @send p e _ p' hs _ =>
    obtain ⟨hp', hcommands⟩ := sendStep_commands hs
    have hprepares := hquiet (by simpa using hp')
    rcases hcommands with ⟨rfl, hcommands⟩ | hcommands
    · refine hr.send hright (i := i) (q := rewardTransfer cfg invite) (sendStep_right hs).1 hcommands
        hinvite ?_ ?_ ?_ ?_
      · rw [hi]
        simp [Task.prepares, hitem, SendPhase.prepares]
      · simp [Task.prepares, hp']
      · exact fun j row => resume_mono (p := Task.prepares) (hprepares row) j
      · exact fun j row => resume_mono (p := Task.handles) (fun h => by cases h) j
    · exact hr.resume hrows hcommands hprepares (fun _ h => by cases h)
  | settled hs =>
    have hprepares := hquiet (by simp)
    rcases sendStep_commands hs with ⟨-, ⟨rfl, -⟩ | hcommands⟩
    · cases hs
      exact hr.resume hrows rfl hprepares (fun _ h => by cases h)
    · exact hr.resume hrows hcommands hprepares (fun _ h => by cases h)

lemma failed_retries {phase phase' : FailedPhase} {e : FailedEvent} (hr : Retries c)
    (hright : ∀ j, RightTask j c.shared (c.task j))
    (hone : AtMostOnce c (.task i (.failed e) : Label ι (Event κ)))
    (hrows : ∀ r ∈ c.shared.rows, ∃ r' ∈ s.rows, r'.id = r.id)
    (hi : c.task i = .checkFailedInvites phase)
    (h : FailedStep cfg i (inst i) c.shared phase e s phase') :
    Retries (c.resume i (s, .checkFailedInvites phase')) := by
  cases h with
  | skip | begin | giveUp | commit _ | rollback _ =>
    exact hr.resume hrows rfl (fun _ h => by cases h) (fun _ h => by cases h)
  | @select ids _ _ =>
    refine hr.resume hrows (by rfl) (fun id h => ?_) (fun _ h => by cases h)
    simp only [Task.prepares] at h
    split at h
    · rename_i hitem
      split_ifs at hitem
      obtain ⟨row, -, hrow⟩ := Option.map_eq_some_iff.mp hitem
      cases hrow
    · cases h
  | item hitem hs => exact item_retries hr hright hone hi hitem hs

/-- The bound is kept by every step in which a row is resent only after at most one transfer. -/
lemma step_retries (hr : Retries c) (hright : ∀ j, RightTask j c.shared (c.task j))
    (hone : AtMostOnce c l) (h : (machine cfg inst).step c l = some d) : Retries d := by
  have hrows : ∀ r ∈ c.shared.rows, ∃ r' ∈ d.shared.rows, r'.id = r.id := by
    intro r hr
    obtain ⟨r', hr', hid, -⟩ := step_row_stays hr h
    exact ⟨r', hr', hid⟩
  cases step_cases h with
  | handler hi hs => exact handler_retries hr hright hrows hi hs
  | failed hi hs => exact failed_retries hr hright hone hrows hi hs
  | watched hi hs =>
    exact hr.resume hrows hs.touches.2.1 (fun _ h => by cases h) (fun _ h => by cases h)
  | @execute k txHash q hk hq _ _ =>
    refine hr.mono hrows (fun a ha => ?_) (fun id => sent_execute hk id) (fun _ _ h => h)
      (fun _ _ h => h)
    rcases List.mem_or_eq_of_mem_set ha with ha | rfl
    · exact ⟨a, ha, rfl⟩
    · exact ⟨q, List.mem_of_getElem? hk, rfl⟩
  | mine _ | tick =>
    exact hr.mono hrows (fun q hq => ⟨q, hq, rfl⟩) (fun _ => rfl) (fun _ _ h => h) (fun _ _ h => h)
  | @restart k =>
    refine hr.mono hrows (fun q hq => ⟨q, hq, rfl⟩) (fun _ => rfl) (fun i id h => ?_) fun i id h => ?_
    · simp only at h
      split_ifs at h with hk
      · rw [(prepares_stop (c.task i) id).1] at h
        cases h
      · exact h
    · simp only at h
      split_ifs at h with hk
      · rw [(prepares_stop (c.task i) id).2] at h
        cases h
      · exact h

omit [DecidableEq ι] [DecidableEq κ] in
lemma initial_retries (h : Initial c) : Retries c := by
  have hnone : ∀ i id, (c.task i).prepares id = false ∧ (c.task i).handles id = false :=
    fun i _ => prepares_fresh (h.task i)
  constructor
  · simp [h.commands]
  · intro i id hi
    rw [(hnone i id).2] at hi
    cases hi
  · intro i j id hi _
    rw [(hnone i id).2] at hi
    cases hi
  · simp [h.commands, sent]
  · simp [h.commands, sent]
  · simp [h.commands, sent]

end Steps

section Samples

/-- The first transfer is submitted and reverts. -/
def firstReverts : List (Label (Fin 3) (Event Unit)) :=
  [.task 0 (.handler .resume), .task 0 (.handler (.transaction (some 8) 9)),
    .task 0 (.handler (.conditions true true)), .task 0 (.handler (.save 100)),
    .task 0 (.handler (.send .prepared)), .env (.execute 0 500),
    .task 0 (.handler (.send .reply)), .task 0 (.handler (.send .write)),
    .env (.mine 500 false), .env (.tick retryAfterMs)]

/-- A pass hands another transfer for the row to the relayer. -/
def resends (i : Fin 3) : List (Label (Fin 3) (Event Unit)) :=
  [.task i (.failed .resume), .task i (.failed (.select [100])),
    .task i (.failed (.item 100 .status)), .task i (.failed (.item 100 (.send .prepared)))]

end Samples

end Komenci.Rewards
