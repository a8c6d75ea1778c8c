import Komenci.RewardService

/-! What each segment of the rewards service can do, said once. -/
namespace Komenci.Rewards
open Interleaving

variable {ι κ : Type} [DecidableEq κ] {cfg : AppConfig} {inst : ι → κ}

/-- The steps of a call of `sendInviteReward`. -/
inductive SendStep (cfg : AppConfig) (k : κ) (invite : InviteReward) (isRetry : Bool)
    (s : Shared ι κ) : SendPhase → SendEvent → Shared ι κ → SendPhase → Prop
  | prepared : SendStep cfg k invite isRetry s .prepare .prepared
      { s with commands := s.commands ++ [rewardTransfer cfg invite] } (.awaiting s.commands.length)
  | throw : SendStep cfg k invite isRetry s .prepare .throw s (.finished none)
  | reply {j txHash} : answer s.commands j = some txHash →
      SendStep cfg k invite isRetry s (.awaiting j) .reply s (.submitted txHash)
  | error {j} : SendStep cfg k invite isRetry s (.awaiting j) .error s .failed
  | failed : SendStep cfg k invite isRetry s .failed .write s
      (.finished (some ⟨if isRetry then .DeadLettered else .Failed, none⟩))
  | unwritten : SendStep cfg k invite isRetry s .failed .writeFails s (.finished none)
  | submitted {txHash} : SendStep cfg k invite isRetry s (.submitted txHash) .write
      (s.watch k ⟨invite.id, txHash, isRetry⟩) (.finished (some ⟨.Submitted, some txHash⟩))
  | unrecorded {txHash} : SendStep cfg k invite isRetry s (.submitted txHash) .writeFails s
      (.finished none)

lemma sendInviteReward_step {k : κ} {invite : InviteReward} {isRetry : Bool} {s : Shared ι κ}
    {phase : SendPhase} {e : SendEvent} {r : Shared ι κ × SendPhase}
    (h : sendInviteReward cfg k invite isRetry s phase e = some r) :
    SendStep cfg k invite isRetry s phase e r.1 r.2 := by
  unfold sendInviteReward at h
  split at h
  case h_3 =>
    obtain ⟨txHash, ht, rfl⟩ := Option.map_eq_some_iff.mp h
    exact .reply ht
  all_goals
    cases h <;> constructor

/-- The steps of `handleWithdrawalEvent`. -/
inductive HandlerStep (cfg : AppConfig) (k : κ) (event : EventLog ℕ ℕ) (s : Shared ι κ) :
    HandlerPhase → HandlerEvent → Shared ι κ → HandlerPhase → Prop
  | quiet {phase e phase'} : (∀ invite p, phase ≠ .send invite p) →
      (∀ invite p, phase' ≠ .send invite p) → HandlerStep cfg k event s phase e s phase'
  | save {inviteToken invitee row} :
      row = ⟨row.id, event.recipient, invitee, event.identifier, .Created, none, inviteToken, s.now⟩ →
      (∀ r ∈ s.rows, r.id ≠ row.id) → Unique s.rows row →
      HandlerStep cfg k event s (.save inviteToken invitee) (.save row.id)
        { s with rows := s.rows ++ [row] } (.send row .prepare)
  | send {invite phase e s' phase'} : SendStep cfg k invite false s phase e s' phase' →
      (∀ u, phase' ≠ .finished u) →
      HandlerStep cfg k event s (.send invite phase) (.send e) s' (.send invite phase')
  | thrown {invite phase e s'} : SendStep cfg k invite false s phase e s' (.finished none) →
      HandlerStep cfg k event s (.send invite phase) (.send e) s' .finished
  | written {invite phase e s' u} : SendStep cfg k invite false s phase e s' (.finished (some u)) →
      s'.locks invite.id = none →
      HandlerStep cfg k event s (.send invite phase) (.send e) (s'.update invite.id u) .finished

lemma handleWithdrawalEvent_step {k : κ} {event : EventLog ℕ ℕ} {s : Shared ι κ}
    {phase : HandlerPhase} {e : HandlerEvent} {r : Shared ι κ × HandlerPhase}
    (h : handleWithdrawalEvent cfg k event s phase e = some r) :
    HandlerStep cfg k event s phase e r.1 r.2 := by
  unfold handleWithdrawalEvent at h
  split at h
  case h_1 => split at h <;> cases h <;> exact .quiet (by simp) (by simp)
  case h_2 =>
    split at h
    · cases h
      exact .quiet (by simp) (by simp)
    · split_ifs at h <;> cases h <;> exact .quiet (by simp) (by simp)
  case h_3 => split_ifs at h <;> cases h <;> exact .quiet (by simp) (by simp)
  case h_4 =>
    simp only at h
    split_ifs at h with hid hunique
    · cases h
      exact .save rfl hid hunique
    · cases h
      exact .quiet (by simp) (by simp)
  case h_5 =>
    split at h
    · cases h
    · rename_i hs
      cases h
      exact .thrown (sendInviteReward_step hs)
    · rename_i hs
      split_ifs at h with hl
      cases h
      exact .written (sendInviteReward_step hs) hl
    · rename_i hne1 hne2 hs
      cases h
      refine .send (sendInviteReward_step hs) fun u hu => ?_
      cases u with
      | none => exact hne1 hu
      | some u => exact hne2 _ hu
  all_goals
    cases h <;> exact .quiet (by simp) (by simp)

/-- The steps of a pass of `checkFailedInvites` on one row. -/
inductive ItemStep (cfg : AppConfig) (k : κ) (invite : InviteReward) (s : Shared ι κ) :
    ItemPhase → ItemEvent → Shared ι κ → ItemPhase → Prop
  | completed {e txHash} : invite.rewardTxHash = some txHash → s.receipts txHash = some true →
      ItemStep cfg k invite s .status e s .complete
  | unsent {phase e u} : phase = .status ∨ phase = .complete →
      (∀ v, u = some v → phase = .complete ∧ v = ⟨.Completed, none⟩) →
      ItemStep cfg k invite s phase e s (.settled u)
  | retry : (∀ txHash, invite.rewardTxHash = some txHash → s.receipts txHash = some false) →
      ItemStep cfg k invite s .status .status s (.send .prepare)
  | send {phase e s' phase'} : SendStep cfg k invite true s phase e s' phase' →
      (∀ u, phase' ≠ .finished u) →
      ItemStep cfg k invite s (.send phase) (.send e) s' (.send phase')
  | settled {phase e s' u} : SendStep cfg k invite true s phase e s' (.finished u) →
      ItemStep cfg k invite s (.send phase) (.send e) s' (.settled u)

lemma checkInvite_step {k : κ} {invite : InviteReward} {aborted : Bool} {s : Shared ι κ}
    {phase : ItemPhase} {e : ItemEvent} {r : Shared ι κ × ItemPhase}
    (h : checkInvite cfg k invite aborted s phase e = some r) :
    ItemStep cfg k invite s phase e r.1 r.2 := by
  unfold checkInvite at h
  split at h
  case h_1 =>
    split at h
    · rename_i hcompleted
      cases h
      cases hhash : invite.rewardTxHash with
      | none => simp [hhash] at hcompleted
      | some txHash =>
        rw [hhash] at hcompleted
        simp only [Option.elim, getTxStatus] at hcompleted
        split at hcompleted
        · cases hcompleted
        · exact .completed hhash ‹_›
        · cases hcompleted
    · rename_i hfailed
      cases h
      refine .retry fun txHash hhash => ?_
      rw [hhash] at hfailed
      simp only [Option.elim, getTxStatus] at hfailed
      split at hfailed <;> simp_all
    · cases h
      exact .unsent (.inl rfl) (by simp)
  case h_2 =>
    cases h
    exact .unsent (.inl rfl) (by simp)
  case h_3 =>
    split_ifs at h
    cases h
    exact .unsent (.inr rfl) (by simp)
  case h_4 =>
    cases h
    exact .unsent (.inr rfl) (by simp)
  case h_5 =>
    split_ifs at h
    split at h
    · cases h
    · rename_i hs
      cases h
      exact .settled (sendInviteReward_step hs)
    · rename_i hne hs
      cases h
      exact .send (sendInviteReward_step hs) fun u hu => hne _ hu
  case h_6 => cases h

/-- What a pass of `checkWatchedInvites` may do to what the others see: set the state of
a row that is not locked. -/
def Touches (s s' : Shared ι κ) : Prop :=
  s'.locks = s.locks ∧ s'.commands = s.commands ∧ s'.receipts = s.receipts ∧
    (s'.rows = s.rows ∨
      ∃ id state, s.locks id = none ∧ s'.rows = (s.update id ⟨state, none⟩).rows)

omit [DecidableEq κ] in
lemma Touches.of_eq {s s' : Shared ι κ} (hl : s'.locks = s.locks)
    (hc : s'.commands = s.commands) (hr : s'.receipts = s.receipts) (hrows : s'.rows = s.rows) :
    Touches s s' := ⟨hl, hc, hr, .inl hrows⟩

/-- The state that a receipt gives a watched invite. -/
def WatchedInvite.verdict (invite : WatchedInvite) : Bool → RewardStatus
  | true => .Completed
  | false => if invite.markAsDeadLetterIfFailed then .DeadLettered else .Failed

/-- The receipt decides what will be written. -/
lemma checkWatched_status {k : κ} {invite : WatchedInvite} {s s' : Shared ι κ} {phase : WatchPhase}
    (h : checkWatched k invite s .status .status = some (s', phase)) : s' = s ∧
      ∀ state, phase = .update state →
        ∃ status, s.receipts invite.txHash = some status ∧ state = invite.verdict status := by
  unfold checkWatched getTxStatus at h
  cases hreceipt : s.receipts invite.txHash with
  | none =>
    simp only [hreceipt, Option.some.injEq, Prod.mk.injEq] at h
    obtain ⟨rfl, rfl⟩ := h
    exact ⟨rfl, by simp⟩
  | some status =>
    cases status <;> simp only [hreceipt, Option.some.injEq, Prod.mk.injEq] at h <;>
      obtain ⟨rfl, rfl⟩ := h <;> refine ⟨rfl, ?_⟩ <;> rintro _ ⟨⟩
    · exact ⟨false, rfl, rfl⟩
    · exact ⟨true, rfl, rfl⟩

/-- The steps of a pass of `checkWatchedInvites`. -/
inductive WatchedStep (k : κ) (s : Shared ι κ) :
    WatchedPhase → WatchedEvent → Shared ι κ → WatchedPhase → Prop
  | skip {e} : WatchedStep k s .start e s .finished
  | begin {e} : s.checkingWatchedInvites k = false → WatchedStep k s .start e
      (s.setCheckingWatched k true) (.running ((s.watchedInvites k).map fun w => (w, .status)))
  | look {items n e invite phase phase'} : items[n]? = some (invite, phase) → phase ≠ .settled →
      (∀ state, phase' = .update state →
        ∃ status, s.receipts invite.txHash = some status ∧ state = invite.verdict status) →
      WatchedStep k s (.running items) (.item n e) s (.running (items.set n (invite, phase')))
  | write {items n invite state} : items[n]? = some (invite, .update state) →
      s.locks invite.inviteId = none →
      WatchedStep k s (.running items) (.item n .write)
        { s.update invite.inviteId ⟨state, none⟩ with
          watchedInvites := Function.update s.watchedInvites k
            ((s.watchedInvites k).erase invite) }
        (.running (items.set n (invite, .settled)))
  | finish {items e} : (items.all fun p => p.2 = .settled) = true →
      WatchedStep k s (.running items) e (s.setCheckingWatched k false) .finished

lemma checkWatchedInvites_step {k : κ} {s : Shared ι κ} {phase : WatchedPhase}
    {e : WatchedEvent} {r : Shared ι κ × WatchedPhase}
    (h : checkWatchedInvites k s phase e = some r) : WatchedStep k s phase e r.1 r.2 := by
  unfold checkWatchedInvites at h
  split at h
  case h_1 =>
    split_ifs at h with hflag
    · cases h
      exact .skip
    · cases h
      exact .begin (by simpa using hflag)
  case h_2 =>
    split at h
    · cases h
    · rename_i hitem
      obtain ⟨q, hq, rfl⟩ := Option.map_eq_some_iff.mp h
      obtain ⟨s', phase'⟩ := q
      unfold checkWatched at hq
      split at hq
      case h_1 =>
        obtain ⟨rfl, hverdict⟩ := checkWatched_status (k := k) hq
        exact .look hitem (by simp) hverdict
      case h_3 =>
        split_ifs at hq with hl
        cases hq
        exact .write hitem hl
      case h_5 => cases hq
      all_goals
        cases hq
        exact .look hitem (by simp) (by simp)
  case h_3 =>
    split_ifs at h with hset
    cases h
    exact .finish hset
  case h_4 => cases h

lemma WatchedStep.touches {k : κ} {s s' : Shared ι κ} {phase phase' : WatchedPhase}
    {e : WatchedEvent} (h : WatchedStep k s phase e s' phase') : Touches s s' := by
  cases h with
  | write _ hl => exact ⟨rfl, rfl, rfl, .inr ⟨_, _, hl, rfl⟩⟩
  | _ => exact .of_eq rfl rfl rfl rfl

variable [DecidableEq ι]

/-- The steps of a pass of `checkFailedInvites`. -/
inductive FailedStep (cfg : AppConfig) (i : ι) (k : κ) (s : Shared ι κ) :
    FailedPhase → FailedEvent → Shared ι κ → FailedPhase → Prop
  | skip {e} : FailedStep cfg i k s .start e s .finished
  | begin {e} : FailedStep cfg i k s .start e (s.setCheckingFailed k true) .select
  | giveUp {e} : FailedStep cfg i k s .select e (s.setCheckingFailed k false) .finished
  | select {ids} : Selects s ids → (∀ id ∈ ids, s.locks id = none) →
      FailedStep cfg i k s .select (.select ids)
        { s with locks := fun id => if id ∈ ids then some i else s.locks id }
        (.running ids
          (fun id => if id ∈ ids then (s.find id).map fun row => (row, .status) else none) false)
  | item {ids item aborted id invite phase e s' phase'} : item id = some (invite, phase) →
      ItemStep cfg k invite s phase e s' phase' →
      FailedStep cfg i k s (.running ids item aborted) (.item id e) s'
        (.running ids (Function.update item id (some (invite, phase'))) (aborted || aborts phase e))
  | commit {ids item} : allSettled ids item = true →
      FailedStep cfg i k s (.running ids item false) .commit
        (({ s with rows := commitRows s.rows item }.unlock i).setCheckingFailed k false) .finished
  | rollback {ids item aborted} : allSettled ids item = true →
      FailedStep cfg i k s (.running ids item aborted) .rollback
        ((s.unlock i).setCheckingFailed k false) .finished

lemma checkFailedInvites_step {i : ι} {k : κ} {s : Shared ι κ} {phase : FailedPhase}
    {e : FailedEvent} {r : Shared ι κ × FailedPhase}
    (h : checkFailedInvites cfg i k s phase e = some r) : FailedStep cfg i k s phase e r.1 r.2 := by
  unfold checkFailedInvites at h
  split at h
  case h_1 =>
    split_ifs at h
    · cases h
      exact .skip
    · cases h
      exact .begin
  case h_2 =>
    split_ifs at h with hsel hfree
    · cases h
      exact .select hsel hfree
    · cases h
      exact .giveUp
  case h_3 =>
    cases h
    exact .giveUp
  case h_4 =>
    split at h
    · cases h
    · obtain ⟨q, hq, rfl⟩ := Option.map_eq_some_iff.mp h
      exact .item ‹_› (checkInvite_step hq)
  case h_5 =>
    split_ifs at h with hset
    cases h
    simp only [Bool.and_eq_true, Bool.not_eq_true'] at hset
    obtain ⟨hset, rfl⟩ := hset
    exact .commit hset
  case h_6 =>
    split_ifs at h with hset
    cases h
    exact .rollback hset
  case h_7 => cases h

variable {c d : Config (Shared ι κ) ι Task} {l : Label ι (Event κ)}

/-- The steps of the whole system. -/
inductive Step (cfg : AppConfig) (inst : ι → κ) (c : Config (Shared ι κ) ι Task) :
    Label ι (Event κ) → Config (Shared ι κ) ι Task → Prop
  | handler {i event phase e s phase'} : c.task i = .handleWithdrawalEvent event phase →
      HandlerStep cfg (inst i) event c.shared phase e s phase' →
      Step cfg inst c (.task i (.handler e)) (c.resume i (s, .handleWithdrawalEvent event phase'))
  | failed {i phase e s phase'} : c.task i = .checkFailedInvites phase →
      FailedStep cfg i (inst i) c.shared phase e s phase' →
      Step cfg inst c (.task i (.failed e)) (c.resume i (s, .checkFailedInvites phase'))
  | watched {i phase e s phase'} : c.task i = .checkWatchedInvites phase →
      WatchedStep (inst i) c.shared phase e s phase' →
      Step cfg inst c (.task i (.watched e)) (c.resume i (s, .checkWatchedInvites phase'))
  | execute {k txHash command} : c.shared.commands[k]? = some command → command.txHash = none →
      c.shared.receipts txHash = none → (∀ q ∈ c.shared.commands, q.txHash ≠ some txHash) →
      Step cfg inst c (.env (.execute k txHash)) ⟨{ c.shared with
        commands := c.shared.commands.set k { command with txHash := some txHash } }, c.task⟩
  | mine {txHash status} : c.shared.receipts txHash = none →
      Step cfg inst c (.env (.mine txHash status)) ⟨{ c.shared with
        receipts := Function.update c.shared.receipts txHash (some status) }, c.task⟩
  | restart {k} : Step cfg inst c (.env (.restart k))
      ⟨c.shared.restart inst k, fun i => if inst i = k then (c.task i).stop else c.task i⟩
  | tick {ms} : Step cfg inst c (.env (.tick ms))
      ⟨{ c.shared with now := c.shared.now + ms }, c.task⟩

lemma step_of_segment {i : ι} {e : Event κ} {r : Shared ι κ × Task}
    (h : segment cfg inst i e c.shared (c.task i) = some r) :
    Step cfg inst c (.task i e) (c.resume i r) := by
  unfold segment at h
  split at h
  · split at h
    · obtain ⟨q, hq, rfl⟩ := Option.map_eq_some_iff.mp h
      exact .handler ‹_› (handleWithdrawalEvent_step hq)
    · cases h
  · split at h
    · obtain ⟨q, hq, rfl⟩ := Option.map_eq_some_iff.mp h
      exact .failed ‹_› (checkFailedInvites_step hq)
    · cases h
  · split at h
    · obtain ⟨q, hq, rfl⟩ := Option.map_eq_some_iff.mp h
      exact .watched ‹_› (checkWatchedInvites_step hq)
    · cases h
  · cases h

lemma step_of_world {e : Event κ} (h : world inst e c = some d) : Step cfg inst c (.env e) d := by
  unfold world at h
  split at h
  · obtain ⟨s, hs, rfl⟩ := Option.map_eq_some_iff.mp h
    unfold execute at hs
    split at hs
    · cases hs
    · split_ifs at hs with hx
      cases hs
      exact .execute ‹_› hx.1 hx.2.1 hx.2.2
  · obtain ⟨s, hs, rfl⟩ := Option.map_eq_some_iff.mp h
    unfold mine at hs
    split_ifs at hs with hx
    cases hs
    exact .mine hx.1
  · cases h
    exact .restart
  · cases h
    exact .tick
  · cases h

lemma step_cases (h : (machine cfg inst).step c l = some d) : Step cfg inst c l d := by
  rcases Machine.step_cases h with ⟨i, e, r, rfl, hr, rfl⟩ | ⟨e, rfl, he⟩
  · exact step_of_segment hr
  · exact step_of_world he

end Komenci.Rewards
