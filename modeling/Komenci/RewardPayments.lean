import Komenci.RewardRows

/-! No invitee is paid twice as long as no answer of the relayer and no record of a transfer
is lost: what each task is at work on, and that every step keeps the ledger. -/
namespace Komenci.Rewards
open Interleaving

variable {ι κ : Type}

/-- `rest` is what the task does with the row when it is not sending. -/
def SendPhase.work (commands : List Command) (rest : Work) : SendPhase → Work
  | .prepare => .sending none
  | .awaiting k => .sending (answer commands k)
  | .submitted txHash => .sending (some txHash)
  | .failed | .finished _ => rest

/-- A row stays locked until the transaction ends, and a hash unrecorded until it commits. -/
def writtenWork : Option RowUpdate → Work
  | some ⟨_, some txHash⟩ => .sending (some txHash)
  | _ => .locked

def ItemPhase.work (commands : List Command) : ItemPhase → Work
  | .status | .complete => .locked
  | .send phase => phase.work commands .locked
  | .settled written => writtenWork written

def Task.work (commands : List Command) (id : ℕ) : Task → Work
  | .handleWithdrawalEvent _ (.send invite phase) =>
    if invite.id = id then phase.work commands .off else .off
  | .checkFailedInvites (.running _ item _) =>
    match item id with
    | some (_, phase) => phase.work commands
    | none => .off
  | _ => .off

def works (c : Config (Shared ι κ) ι Task) (i : ι) (id : ℕ) : Work :=
  (c.task i).work c.shared.commands id

def SendPhase.waitsFor (k : ℕ) : SendPhase → Bool
  | .awaiting j => j = k
  | _ => false

def Task.waitsFor (k : ℕ) : Task → Bool
  | .handleWithdrawalEvent _ (.send _ phase) => phase.waitsFor k
  | .checkFailedInvites (.running ids item _) => ids.any fun id =>
    match item id with
    | some (_, .send phase) => phase.waitsFor k
    | _ => false
  | _ => false

def Work.unrecorded : Work → Bool
  | .sending (some _) => true
  | _ => false

/-- The task holds the hash of a transfer that no row has. -/
def Task.unrecorded (commands : List Command) (t : Task) : Bool :=
  match t with
  | .handleWithdrawalEvent _ (.send invite _) => (t.work commands invite.id).unrecorded
  | .checkFailedInvites (.running ids _ _) => ids.any fun id => (t.work commands id).unrecorded
  | _ => false

/-- The handler that has made the row is still sending its transfer. -/
def Task.sendsFirst (commands : List Command) (id : ℕ) (t : Task) : Bool :=
  match t with
  | .handleWithdrawalEvent _ _ => t.work commands id ≠ .off
  | _ => false

/-- No answer is given up that is there, and a hash is recorded. -/
def SafeSend (commands : List Command) : SendPhase → SendEvent → Prop
  | .awaiting k, .error => answer commands k = none
  | .submitted _, .writeFails => False
  | _, _ => True

def SafeStep (c : Config (Shared ι κ) ι Task) (i : ι) : Task → Event κ → Prop
  | .handleWithdrawalEvent _ (.send _ phase), .handler (.send e) =>
    SafeSend c.shared.commands phase e
  | .checkFailedInvites .select, .failed (.select ids) =>
    ∀ id ∈ ids, ∀ j, (c.task j).sendsFirst c.shared.commands id = false
  | .checkFailedInvites (.running _ item _), .failed (.item id (.send e)) =>
    match item id with
    | some (_, .send phase) => SafeSend c.shared.commands phase e
    | _ => True
  | .checkFailedInvites (.running _ _ _), .failed .rollback =>
    (c.task i).unrecorded c.shared.commands = false
  | _, _ => True

/-- The steps on which nothing is lost: the relayer executes only commands somebody waits
for, and no task that holds an unrecorded hash is ended. -/
def Reliable (inst : ι → κ) (c : Config (Shared ι κ) ι Task) : Label ι (Event κ) → Prop
  | .task i e => SafeStep c i (c.task i) e
  | .env (.execute k _) => ∃ i, (c.task i).waitsFor k = true
  | .env (.restart k) => ∀ i, inst i = k → (c.task i).unrecorded c.shared.commands = false
  | .env _ => True

/-- Nothing has happened yet. -/
structure Initial (c : Config (Shared ι κ) ι Task) : Prop where
  rows : c.shared.rows = []
  commands : c.shared.commands = []
  task : ∀ i, (c.task i).isFresh = true

section Work
variable {s : Shared ι κ} {i : ι} {t : Task}

lemma answer_append {commands : List Command} {k : ℕ} {c q : Command}
    (h : commands[k]? = some c) : answer (commands ++ [q]) k = answer commands k := by
  have hlt := (List.getElem?_eq_some_iff.mp h).1
  simp [answer, List.getElem?_append_left hlt]

lemma answer_new (commands : List Command) (q : Command) :
    answer (commands ++ [q]) commands.length = q.txHash := by
  simp [answer]

lemma answer_set {commands : List Command} {k j : ℕ} (q : Command) (h : j ≠ k) :
    answer (commands.set k q) j = answer commands j := by
  simp [answer, List.getElem?_set_ne (Ne.symm h)]

lemma work_fresh (h : t.isFresh = true) (commands : List Command) (id : ℕ) :
    t.work commands id = .off := by
  unfold Task.isFresh at h
  split at h
  all_goals first | rfl | cases h

lemma work_stop (t : Task) (commands : List Command) (id : ℕ) : t.stop.work commands id = .off := by
  unfold Task.stop
  split_ifs with h
  · exact work_fresh h commands id
  · rfl

/-- Work changes with the commands only where one is waited for. -/
lemma sendWork_congr {commands commands' : List Command} {phase : SendPhase} (rest : Work)
    (h : ∀ k, phase = .awaiting k → answer commands' k = answer commands k) :
    phase.work commands' rest = phase.work commands rest := by
  cases phase with
  | awaiting k => simp [SendPhase.work, h k rfl]
  | _ => rfl

lemma work_congr {commands' : List Command} (id : ℕ) (hr : RightTask i s t)
    (h : ∀ k c, s.commands[k]? = some c → c.inviteId = id →
      t.work s.commands id ≠ .off → answer commands' k = answer s.commands k) :
    t.work commands' id = t.work s.commands id := by
  match t with
  | .handleWithdrawalEvent event (.send invite phase) =>
    by_cases hid : invite.id = id
    · subst hid
      simp only [Task.work, if_true]
      apply sendWork_congr
      rintro k rfl
      obtain ⟨c, hc, hcid⟩ := hr
      exact h k c hc hcid (by simp [Task.work, SendPhase.work])
    · simp [Task.work, hid]
  | .checkFailedInvites (.running ids item aborted) =>
    cases hitem : item id with
    | none => simp [Task.work, hitem]
    | some p =>
      obtain ⟨invite, phase⟩ := p
      have hright := hr id invite phase hitem
      cases phase with
      | send phase =>
        simp only [Task.work, hitem, ItemPhase.work]
        apply sendWork_congr
        rintro k rfl
        obtain ⟨c, hc, hcid⟩ := hright.send _ rfl
        exact h k c hc hcid (by simp [Task.work, hitem, ItemPhase.work, SendPhase.work])
      | _ => simp [Task.work, hitem, ItemPhase.work]
  | .handleWithdrawalEvent _ .start | .handleWithdrawalEvent _ (.getTransaction _)
  | .handleWithdrawalEvent _ (.conditions _ _) | .handleWithdrawalEvent _ (.save _ _)
  | .handleWithdrawalEvent _ .finished | .checkFailedInvites .start
  | .checkFailedInvites .select | .checkFailedInvites .finished
  | .checkWatchedInvites _ | .stopped => rfl

/-- A new command changes nobody's work. -/
lemma work_append (hr : RightTask i s t) (q : Command) (id : ℕ) :
    t.work (s.commands ++ [q]) id = t.work s.commands id :=
  work_congr id hr fun _ _ hc _ _ => answer_append hc

lemma not_unrecorded (hr : RightTask i s t) {commands : List Command}
    (h : t.unrecorded commands = false) (id txHash : ℕ) :
    t.work commands id ≠ .sending (some txHash) := by
  intro hw
  match t with
  | .handleWithdrawalEvent event (.send invite phase) =>
    by_cases hid : invite.id = id
    · subst hid
      simp [Task.unrecorded, hw, Work.unrecorded] at h
    · simp [Task.work, hid] at hw
  | .checkFailedInvites (.running ids item aborted) =>
    cases hitem : item id with
    | none => simp [Task.work, hitem] at hw
    | some p =>
      have hmem := (hr id p.1 p.2 hitem).mem
      simp only [Task.unrecorded, List.any_eq_false] at h
      have hid := h id hmem
      simp [hw, Work.unrecorded] at hid
  | .handleWithdrawalEvent _ .start | .handleWithdrawalEvent _ (.getTransaction _)
  | .handleWithdrawalEvent _ (.conditions _ _) | .handleWithdrawalEvent _ (.save _ _)
  | .handleWithdrawalEvent _ .finished | .checkFailedInvites .start
  | .checkFailedInvites .select | .checkFailedInvites .finished
  | .checkWatchedInvites _ | .stopped => simp [Task.work] at hw

end Work

section Resume
variable [DecidableEq ι] {c : Config (Shared ι κ) ι Task} {i : ι} {s : Shared ι κ} {t : Task}

@[simp] lemma works_resume_self (id : ℕ) :
    works (c.resume i (s, t)) i id = t.work s.commands id := by
  simp [works]

lemma works_resume_ne {j : ι} (hj : j ≠ i) (id : ℕ)
    (h : (c.task j).work s.commands id = works c j id) :
    works (c.resume i (s, t)) j id = works c j id := by
  simpa [works, hj] using h

/-- A task settles what it was at, and writes the hashes it was sending. -/
lemma task_settle (hl : Ledger c.shared (works c)) {g : ℕ → Option RowUpdate}
    (hrows : s.rows = c.shared.rows.map (rewrite g)) (hcommands : s.commands = c.shared.commands)
    (hreceipts : s.receipts = c.shared.receipts)
    (hwrites : ∀ id u txHash, g id = some u → u.rewardTxHash = some txHash →
      works c i id = .sending (some txHash))
    (hwork : ∀ id, t.work s.commands id = works c i id ∨ t.work s.commands id = .off ∨
      t.work s.commands id = .locked ∧ works c i id ≠ .off ∨
      t.work s.commands id = .sending none ∧ works c i id = .locked ∧ Spent c.shared id none)
    (hheld : ∀ id txHash, works c i id = .sending (some txHash) →
      t.work s.commands id = works c i id ∨ ∃ u, g id = some u ∧ u.rewardTxHash = some txHash) :
    Ledger s (works (c.resume i (s, t))) := by
  have hother : ∀ j, j ≠ i → ∀ id, works (c.resume i (s, t)) j id = works c j id := by
    intro j hj id
    apply works_resume_ne hj
    rw [hcommands]
    rfl
  apply hl.settle hrows hcommands hreceipts
  · exact fun row => ⟨rewrite_id g row, rewrite_invitee g row⟩
  · intro row _
    rw [rewrite_rewardTxHash]
    cases hu : (g row.id).bind RowUpdate.rewardTxHash with
    | none => exact .inl Option.none_or
    | some txHash =>
      obtain ⟨u, hg, hh⟩ := Option.bind_eq_some_iff.mp hu
      exact .inr ⟨i, txHash, hwrites _ _ _ hg hh, Option.some_or⟩
  · intro j id
    by_cases hj : j = i
    · subst hj
      simpa using hwork id
    · exact .inl (hother j hj id)
  · intro j id txHash h
    by_cases hj : j = i
    · subst hj
      refine (hheld id txHash h).imp (fun heq => by simpa using heq) ?_
      rintro ⟨u, hg, hh⟩ row _ hid
      simp [rewrite_rewardTxHash, hid, hg, hh]
    · exact .inl (hother j hj id)

/-- The same without a change to the rows. -/
lemma task_settle_rows (hl : Ledger c.shared (works c)) (hrows : s.rows = c.shared.rows)
    (hcommands : s.commands = c.shared.commands) (hreceipts : s.receipts = c.shared.receipts)
    (hwork : ∀ id, t.work s.commands id = works c i id ∨ t.work s.commands id = .off ∨
      t.work s.commands id = .locked ∧ works c i id ≠ .off ∨
      t.work s.commands id = .sending none ∧ works c i id = .locked ∧ Spent c.shared id none)
    (hheld : ∀ id txHash, works c i id = .sending (some txHash) →
      t.work s.commands id = works c i id) :
    Ledger s (works (c.resume i (s, t))) := by
  apply task_settle hl (g := fun _ => none) (by rw [rewrite_none, hrows]) hcommands hreceipts
  · exact fun _ _ _ hg => by cases hg
  · exact hwork
  · exact fun id txHash h => .inl (hheld id txHash h)

end Resume

section Steps
variable {cfg : AppConfig} {inst : ι → κ} {c d : Config (Shared ι κ) ι Task} {i : ι}
  {s : Shared ι κ} {t : Task}

/-- What a safe step of a send does to its work: it sends the command, it goes on or ends
with nothing executed, or it ends with the hash in its update. -/
lemma sendStep_work [DecidableEq κ] {k : κ} {invite : InviteReward} {isRetry : Bool} {s s' : Shared ι κ}
    {phase phase' : SendPhase} {e : SendEvent} (rest : Work)
    (h : SendStep cfg k invite isRetry s phase e s' phase') (hsafe : SafeSend s.commands phase e) :
    (phase = .prepare ∧ phase' = .awaiting s.commands.length ∧
      s'.commands = s.commands ++ [rewardTransfer cfg invite]) ∨
    s'.commands = s.commands ∧
      ((∀ u, phase' = .finished (some u) → u.rewardTxHash = none) ∧
        (phase'.work s.commands rest = phase.work s.commands rest ∨
          phase.work s.commands rest = .sending none ∧ phase'.work s.commands rest = rest) ∨
      ∃ txHash, phase.work s.commands rest = .sending (some txHash) ∧
        phase' = .finished (some ⟨.Submitted, some txHash⟩)) := by
  cases h with
  | prepared => exact .inl ⟨rfl, rfl, rfl⟩
  | throw => exact .inr ⟨rfl, .inl ⟨by simp, .inr ⟨rfl, rfl⟩⟩⟩
  | reply ht => exact .inr ⟨rfl, .inl ⟨by simp, .inl (by simp [SendPhase.work, ht])⟩⟩
  | error =>
    have hnone : answer s.commands _ = none := hsafe
    exact .inr ⟨rfl, .inl ⟨by simp, .inr ⟨by simp [SendPhase.work, hnone], rfl⟩⟩⟩
  | failed =>
    refine .inr ⟨rfl, .inl ⟨?_, .inl rfl⟩⟩
    rintro _ ⟨⟩
    rfl
  | unwritten => exact .inr ⟨rfl, .inl ⟨by simp, .inl rfl⟩⟩
  | submitted => exact .inr ⟨rfl, .inr ⟨_, rfl, rfl⟩⟩
  | unrecorded => exact absurd hsafe id

variable [DecidableEq ι]

/-- A send goes on, or it is given up with nothing executed. -/
lemma send_goes_on (hl : Ledger c.shared (works c)) {row : ℕ} {old new : Work}
    (hrows : s.rows = c.shared.rows) (hcommands : s.commands = c.shared.commands)
    (hreceipts : s.receipts = c.shared.receipts) (hold : works c i row = old)
    (hnew : t.work s.commands row = new)
    (hother : ∀ id, id ≠ row → t.work s.commands id = works c i id)
    (h : new = old ∨ old = .sending none ∧ (new = .off ∨ new = .locked)) :
    Ledger s (works (c.resume i (s, t))) := by
  apply task_settle_rows hl hrows hcommands hreceipts
  · intro id
    by_cases hid : id = row
    · subst hid
      rw [hnew, hold]
      rcases h with rfl | ⟨rfl, rfl | rfl⟩
      · exact .inl rfl
      · exact .inr (.inl rfl)
      · exact .inr (.inr (.inl ⟨rfl, by simp⟩))
    · exact .inl (hother id hid)
  · intro id txHash hheld
    by_cases hid : id = row
    · subst hid
      rw [hnew]
      rcases h with h | ⟨h, -⟩
      · rw [h, hold]
      · rw [hold, h] at hheld
        cases hheld
    · exact hother id hid

/-- The command of a send goes out. -/
lemma send_goes_out (hl : Ledger c.shared (works c))
    (hright : ∀ j, RightTask j c.shared (c.task j)) {q : Command}
    (hrows : s.rows = c.shared.rows) (hcommands : s.commands = c.shared.commands ++ [q])
    (hreceipts : s.receipts = c.shared.receipts) (hq : q.txHash = none)
    (hold : works c i q.inviteId ≠ .off) (hself : ∀ id, t.work s.commands id = works c i id) :
    Ledger s (works (c.resume i (s, t))) := by
  apply hl.append hrows hcommands hreceipts hq (hl.row i _ hold)
  funext j id
  by_cases hj : j = i
  · subst hj
    simpa using hself id
  · apply works_resume_ne hj
    rw [hcommands, work_append (hright j)]
    rfl

omit [DecidableEq ι] in
lemma handlerWork_off {event : EventLog ℕ ℕ} {phase : HandlerPhase}
    (h : ∀ invite p, phase ≠ .send invite p) (commands : List Command) (id : ℕ) :
    (Task.handleWithdrawalEvent event phase).work commands id = .off := by
  cases phase with
  | send invite p => exact absurd rfl (h invite p)
  | _ => rfl

variable [DecidableEq κ]

lemma handler_ledger {event : EventLog ℕ ℕ} {phase phase' : HandlerPhase} {e : HandlerEvent}
    (hl : Ledger c.shared (works c)) (hright : ∀ j, RightTask j c.shared (c.task j))
    (hi : c.task i = .handleWithdrawalEvent event phase)
    (hsafe : SafeStep c i (c.task i) (.handler e : Event κ))
    (h : HandlerStep cfg (inst i) event c.shared phase e s phase') :
    Ledger s (works (c.resume i (s, .handleWithdrawalEvent event phase'))) := by
  have hworks : ∀ id, works c i id =
      (Task.handleWithdrawalEvent event phase).work c.shared.commands id := by
    intro id
    rw [works, hi]
  rw [hi] at hsafe
  cases h with
  | quiet hne hne' =>
    apply task_settle_rows hl rfl rfl rfl
    · exact fun id => .inr (.inl (handlerWork_off hne' _ id))
    · intro id txHash hheld
      rw [hworks, handlerWork_off hne] at hheld
      cases hheld
  | @save inviteToken invitee row _ hid hunique =>
    refine hl.create (i := i) (by rfl) (by rfl) (by rfl) hid (fun r hr => (hunique r hr).1) fun j id => ?_
    by_cases hj : j = i
    · subst hj
      by_cases hrow : id = row.id
      · exact .inr ⟨rfl, hrow, by simp [Task.work, hrow, SendPhase.work]⟩
      · refine .inl ?_
        rw [works_resume_self, hworks]
        simp [Task.work, Ne.symm hrow]
    · exact .inl (works_resume_ne hj id rfl)
  | @send invite p e' _ p' hs hne =>
    obtain ⟨hrows, -, hreceipts, -, -⟩ := sendStep_right hs
    rcases sendStep_work .off hs hsafe with ⟨rfl, rfl, hc⟩ | ⟨hc, ⟨-, hw⟩ | ⟨txHash, -, rfl⟩⟩
    · apply send_goes_out hl hright hrows hc hreceipts rfl
      · rw [hworks]
        simp [Task.work, rewardTransfer, SendPhase.work]
      · intro id
        rw [hworks, hc]
        by_cases hid : invite.id = id
        · simp [Task.work, hid, SendPhase.work, answer_new, rewardTransfer]
        · simp [Task.work, hid]
    · apply send_goes_on hl hrows hc hreceipts (hworks invite.id) rfl
      · intro id hid
        rw [hworks]
        simp [Task.work, Ne.symm hid]
      · simp only [Task.work, if_true, hc]
        exact hw.imp_right fun h => ⟨h.1, .inl h.2⟩
    · exact absurd rfl (hne _)
  | @thrown invite p e' _ hs =>
    obtain ⟨hrows, -, hreceipts, -, -⟩ := sendStep_right hs
    rcases sendStep_work .off hs hsafe with ⟨-, ⟨⟩, -⟩ | ⟨hc, ⟨-, hw⟩ | ⟨txHash, -, ⟨⟩⟩⟩
    apply send_goes_on hl hrows hc hreceipts (hworks invite.id) rfl
    · intro id hid
      rw [hworks]
      simp [Task.work, Ne.symm hid]
    · simp only [Task.work, if_true]
      exact hw.imp_right fun h => ⟨h.1, by simp⟩
  | @written invite p e' s'' u hs hfree =>
    obtain ⟨hrows, -, hreceipts, -, -⟩ := sendStep_right hs
    rcases sendStep_work .off hs hsafe with ⟨-, ⟨⟩, -⟩ | ⟨hc, hw⟩
    have hself : works c i invite.id = p.work c.shared.commands .off := by
      rw [hworks]
      simp [Task.work]
    apply task_settle hl ((update_rewrite s'' invite.id u).trans (by rw [hrows])) hc hreceipts
    · intro id v txHash hv hh
      split_ifs at hv with hid
      cases hv
      rcases hw with ⟨hu, -⟩ | ⟨txHash', hw, hu⟩
      · simp [hu u rfl] at hh
      · cases hu
        cases hh
        rw [hid, hself, hw]
    · exact fun id => .inr (.inl rfl)
    · intro id txHash hheld
      by_cases hid : id = invite.id
      · rw [hid, hself] at hheld
        rw [hheld] at hw
        rcases hw with ⟨-, hw | ⟨hw, -⟩⟩ | ⟨txHash', hw, hu⟩
        · cases hw
        · cases hw
        · cases hw
          cases hu
          exact .inr ⟨_, if_pos hid, rfl⟩
      · rw [hworks] at hheld
        simp [Task.work, Ne.symm hid] at hheld

omit [DecidableEq ι] [DecidableEq κ] in
lemma writtenWork_locked {u : Option RowUpdate} (h : ∀ v, u = some v → v.rewardTxHash = none) :
    writtenWork u = .locked := by
  cases u with
  | none => rfl
  | some v =>
    obtain ⟨state, hash⟩ := v
    obtain rfl : hash = none := h _ rfl
    rfl

lemma item_ledger {ids : List ℕ} {item : ℕ → Option (InviteReward × ItemPhase)}
    {aborted aborted' : Bool} {id : ℕ} {invite : InviteReward} {phase phase' : ItemPhase}
    {e : ItemEvent} (hl : Ledger c.shared (works c))
    (hright : ∀ j, RightTask j c.shared (c.task j))
    (hi : c.task i = .checkFailedInvites (.running ids item aborted))
    (hitem : item id = some (invite, phase))
    (hsafe : SafeStep c i (c.task i) (.failed (.item id e) : Event κ))
    (h : ItemStep cfg (inst i) invite c.shared phase e s phase') :
    Ledger s (works (c.resume i (s, .checkFailedInvites
      (.running ids (Function.update item id (some (invite, phase'))) aborted')))) := by
  have hri := hright i
  rw [hi] at hri hsafe
  obtain ⟨-, -, ⟨row, hrow, hrid, hrhash⟩, hinvite, -⟩ := hri id invite phase hitem
  have hworks : ∀ id', works c i id' = (Task.checkFailedInvites (.running ids item aborted)).work
      c.shared.commands id' := by
    intro id'
    rw [works, hi]
  have hold : works c i id = phase.work c.shared.commands := by
    rw [hworks]
    simp [Task.work, hitem]
  have hnew : ∀ commands, (Task.checkFailedInvites
      (.running ids (Function.update item id (some (invite, phase'))) aborted')).work commands id =
        phase'.work commands := by
    intro commands
    simp [Task.work]
  have hother : ∀ commands, ∀ id', id' ≠ id → (Task.checkFailedInvites
      (.running ids (Function.update item id (some (invite, phase'))) aborted')).work commands id' =
        (Task.checkFailedInvites (.running ids item aborted)).work commands id' := by
    intro commands id' hid
    simp [Task.work, Function.update_of_ne hid]
  obtain ⟨hrows, -, hreceipts, -, -⟩ := itemStep_right h
  -- Without a new command only the work on this item changes.
  have hgoes : s.commands = c.shared.commands → (phase'.work c.shared.commands =
        phase.work c.shared.commands ∨ phase.work c.shared.commands = .sending none ∧
          (phase'.work c.shared.commands = .off ∨ phase'.work c.shared.commands = .locked)) →
      Ledger s (works (c.resume i (s, .checkFailedInvites
        (.running ids (Function.update item id (some (invite, phase'))) aborted')))) := by
    intro hc hw
    apply send_goes_on hl hrows hc hreceipts hold (hnew _)
    · intro id' hid
      rw [hother _ id' hid, hworks, hc]
    · rw [hc]
      exact hw
  cases h with
  | completed _ _ => exact hgoes rfl (.inl rfl)
  | @unsent _ _ u hp hu =>
    have hnone : ∀ v, u = some v → v.rewardTxHash = none := fun v hv => by rw [(hu v hv).2]
    refine hgoes rfl (.inl ?_)
    rcases hp with rfl | rfl <;> exact writtenWork_locked hnone
  | retry hreverted =>
    have hspent : Spent c.shared id none := by
      rw [← hrid]
      apply hl.spent_of_row hrow (i := i)
      · rw [hrid, hold]
        rfl
      · intro txHash hh
        exact hreverted txHash (hrhash ▸ hh)
    apply task_settle_rows hl rfl rfl rfl
    · intro id'
      by_cases hid : id' = id
      · subst hid
        exact .inr (.inr (.inr ⟨hnew _, hold, hspent⟩))
      · exact .inl (by rw [hother _ id' hid, hworks])
    · intro id' txHash hheld
      by_cases hid : id' = id
      · subst hid
        rw [hold] at hheld
        cases hheld
      · rw [hother _ id' hid, hworks]
  | @send p e' _ p' hs hne =>
    simp only [SafeStep, hitem] at hsafe
    rcases sendStep_work .locked hs hsafe with ⟨rfl, rfl, hc⟩ | ⟨hc, ⟨-, hw⟩ | ⟨txHash, -, rfl⟩⟩
    · apply send_goes_out hl hright hrows hc hreceipts rfl
      · simp only [rewardTransfer, hinvite]
        rw [hold]
        simp [ItemPhase.work, SendPhase.work]
      · intro id'
        by_cases hid : id' = id
        · subst hid
          rw [hnew, hold, hc]
          simp [ItemPhase.work, SendPhase.work, answer_new, rewardTransfer]
        · have happend := work_append (hright i) (rewardTransfer cfg invite) id'
          rw [hother _ id' hid, hworks, hc, ← hi, happend]
    · exact hgoes hc (hw.imp_right fun h => ⟨h.1, .inr h.2⟩)
    · exact absurd rfl (hne _)
  | @settled p e' _ u hs =>
    simp only [SafeStep, hitem] at hsafe
    rcases sendStep_work .locked hs hsafe with ⟨-, ⟨⟩, -⟩ | ⟨hc, hw⟩
    refine hgoes hc ?_
    rcases hw with ⟨hu, hw⟩ | ⟨txHash, hw, hu⟩
    · have hlocked : writtenWork u = .locked := by
        apply writtenWork_locked
        rintro v rfl
        exact hu v rfl
      simp only [ItemPhase.work, hlocked]
      exact hw.imp_right fun h => ⟨h.1, by simp⟩
    · cases hu
      exact .inl hw.symm

omit [DecidableEq ι] [DecidableEq κ] in
/-- Nobody is at work on a row that is not locked and that no handler still sends. -/
lemma work_off_of_free {id : ℕ} (hright : ∀ j, RightTask j c.shared (c.task j))
    (hfree : c.shared.locks id = none)
    (hfirst : ∀ j, (c.task j).sendsFirst c.shared.commands id = false) (j : ι) :
    works c j id = .off := by
  have hr := hright j
  have hf := hfirst j
  rw [works]
  match ht : c.task j with
  | .handleWithdrawalEvent event phase =>
    rw [ht] at hf
    simpa [Task.sendsFirst] using hf
  | .checkFailedInvites (.running ids item aborted) =>
    rw [ht] at hr
    cases hitem : item id with
    | none => simp [Task.work, hitem]
    | some p =>
      have hlock := (hr id p.1 p.2 hitem).lock
      rw [hfree] at hlock
      cases hlock
  | .checkFailedInvites .start | .checkFailedInvites .select | .checkFailedInvites .finished
  | .checkWatchedInvites _ | .stopped => rfl

omit [DecidableEq κ] in
/-- A commit writes every hash that its pass has still to record. -/
lemma commit_ledger (hl : Ledger c.shared (works c)) {ids : List ℕ}
    {item : ℕ → Option (InviteReward × ItemPhase)} {aborted : Bool}
    (hri : RightTask i c.shared (c.task i))
    (hi : c.task i = .checkFailedInvites (.running ids item aborted))
    (hset : allSettled ids item = true)
    (hrows : s.rows = commitRows c.shared.rows item) (hcommands : s.commands = c.shared.commands)
    (hreceipts : s.receipts = c.shared.receipts) :
    Ledger s (works (c.resume i (s, .checkFailedInvites .finished))) := by
  have hworks : ∀ id, works c i id =
      (Task.checkFailedInvites (.running ids item aborted)).work c.shared.commands id := by
    intro id
    rw [works, hi]
  rw [hi] at hri
  apply task_settle hl (hrows.trans (commit_rewrite _ _)) hcommands hreceipts
  · rintro id ⟨state, hash⟩ txHash hu rfl
    obtain ⟨invite, hitem⟩ := committed_item hu
    rw [hworks]
    simp [Task.work, hitem, ItemPhase.work, writtenWork]
  · exact fun id => .inr (.inl rfl)
  · intro id txHash hw
    rw [hworks] at hw
    cases hitem : item id with
    | none => simp [Task.work, hitem] at hw
    | some p =>
      obtain ⟨invite, ph⟩ := p
      have hmem := (hri id invite ph hitem).mem
      have hsettled := List.all_eq_true.mp hset id hmem
      simp only [hitem, Option.all_some] at hsettled
      cases ph with
      | settled u =>
        simp only [Task.work, hitem, ItemPhase.work, writtenWork] at hw
        split at hw
        · cases hw
          rename_i state
          refine .inr ⟨⟨state, some txHash⟩, ?_, rfl⟩
          rw [committed, hitem]
        · cases hw
      | _ => cases hsettled

lemma failed_ledger {phase phase' : FailedPhase} {e : FailedEvent}
    (hl : Ledger c.shared (works c)) (hright : ∀ j, RightTask j c.shared (c.task j))
    (hi : c.task i = .checkFailedInvites phase)
    (hsafe : SafeStep c i (c.task i) (.failed e : Event κ))
    (h : FailedStep cfg i (inst i) c.shared phase e s phase') :
    Ledger s (works (c.resume i (s, .checkFailedInvites phase'))) := by
  have hworks : ∀ id, works c i id = (Task.checkFailedInvites phase).work c.shared.commands id := by
    intro id
    rw [works, hi]
  have hquiet : (∀ id, (Task.checkFailedInvites phase).work c.shared.commands id = .off) →
      ∀ id txHash, works c i id ≠ .sending (some txHash) := by
    intro hoff id txHash hheld
    rw [hworks, hoff] at hheld
    cases hheld
  cases h with
  | skip | begin | giveUp =>
    refine task_settle_rows hl (by rfl) (by rfl) (by rfl) ?_ ?_
    · exact fun id => .inr (.inl rfl)
    · exact fun id txHash hheld => absurd hheld (hquiet (fun _ => rfl) id txHash)
  | @select ids hsel hfree =>
    rw [hi] at hsafe
    refine hl.select (i := i) (by rfl) (by rfl) (by rfl) fun j id => ?_
    by_cases hj : j = i
    · subst hj
      rw [works_resume_self, hworks]
      by_cases hid : id ∈ ids
      · obtain ⟨row, hrow, hrid⟩ := hsel.2.1 id hid
        have hmem : row ∈ c.shared.rows := (List.mem_filter.mp hrow).1
        have hfind : (c.shared.find id).isSome := by
          simp only [Shared.find, List.find?_isSome, decide_eq_true_eq]
          exact ⟨row, hmem, hrid⟩
        obtain ⟨found, hfound⟩ := Option.isSome_iff_exists.mp hfind
        refine .inr ⟨rfl, ?_, work_off_of_free hright (hfree id hid) (hsafe id hid),
          row, hmem, hrid⟩
        simp [Task.work, hid, hfound, ItemPhase.work]
      · exact .inl (by simp [Task.work, hid])
    · exact .inl (works_resume_ne hj id rfl)
  | @item ids item aborted id invite ph e' _ ph' hitem hs =>
    exact item_ledger hl hright hi hitem hsafe hs
  | commit hset => exact commit_ledger hl (hright i) hi hset (by rfl) (by rfl) (by rfl)
  | @rollback ids item aborted hset =>
    have hnone : (c.task i).unrecorded c.shared.commands = false := by
      rw [hi] at hsafe ⊢
      simpa [SafeStep, hi] using hsafe
    refine task_settle_rows hl (by rfl) (by rfl) (by rfl) ?_ ?_
    · exact fun id => .inr (.inl rfl)
    · exact fun id txHash hheld => absurd hheld (not_unrecorded (hright i) hnone id txHash)

end Steps

end Komenci.Rewards
