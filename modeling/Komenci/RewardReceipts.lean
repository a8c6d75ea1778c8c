import Komenci.RewardPaidOnce
import Komenci.RewardTerminal

/-! What the rows say of the transfers has happened: a hash is that of a transfer for the very
row, and a Completed row was paid on chain, whatever was lost on the way. -/
namespace Komenci.Rewards
open Interleaving DecimalText

variable {ι κ : Type}

/-- The relayer has executed a transfer for the row under the hash. -/
def Issued (s : Shared ι κ) (id txHash : ℕ) : Prop :=
  ∃ q ∈ s.commands, q.inviteId = id ∧ q.txHash = some txHash

/-- A transfer for the row succeeded on chain. -/
def Paid (s : Shared ι κ) (id : ℕ) : Prop :=
  ∃ txHash, Issued s id txHash ∧ s.receipts txHash = some true

structure Backed (s : Shared ι κ) (row : InviteReward) : Prop where
  hash : ∀ txHash, row.rewardTxHash = some txHash → Issued s row.id txHash
  created : row.state = .Created → row.rewardTxHash = none
  submitted : row.state = .Submitted → row.rewardTxHash ≠ none
  completed : row.state = .Completed → Paid s row.id

/-- An update that leaves a backed row backed. -/
structure Founded (s : Shared ι κ) (id : ℕ) (u : RowUpdate) : Prop where
  hash : ∀ txHash, u.rewardTxHash = some txHash → Issued s id txHash
  created : u.state ≠ .Created
  submitted : u.state = .Submitted → u.rewardTxHash ≠ none
  completed : u.state = .Completed → Paid s id

lemma Backed.update {s : Shared ι κ} {row : InviteReward} {u : RowUpdate} (hb : Backed s row)
    (hu : Founded s row.id u) : Backed s (row.update u) where
  hash txHash h := by
    rcases Option.or_eq_some_iff.mp h with h | ⟨-, h⟩
    · exact hu.hash txHash h
    · exact hb.hash txHash h
  created h := absurd h hu.created
  submitted h hnone := hu.submitted h (Option.or_eq_none_iff.mp hnone).1
  completed := hu.completed

/-- The transfer is that of a row. -/
def Transfers (cfg : AppConfig) (s : Shared ι κ) (q : Command) : Prop :=
  ∃ row ∈ s.rows, q = { rewardTransfer cfg row with txHash := q.txHash }

/-- What is true of the rows and of the chain stays true. -/
structure Grows (cfg : AppConfig) (s s' : Shared ι κ) : Prop where
  issued : ∀ id txHash, Issued s id txHash → Issued s' id txHash
  receipts : ∀ txHash status, s.receipts txHash = some status → s'.receipts txHash = some status
  rows : ∀ row ∈ s.rows, ∃ row' ∈ s'.rows, rewardTransfer cfg row' = rewardTransfer cfg row

section Grow
variable {cfg : AppConfig} {s s' : Shared ι κ}

lemma Grows.trans {s'' : Shared ι κ} (hg : Grows cfg s s') (hg' : Grows cfg s' s'') :
    Grows cfg s s'' where
  issued id txHash h := hg'.issued id txHash (hg.issued id txHash h)
  receipts txHash status h := hg'.receipts txHash status (hg.receipts txHash status h)
  rows row hrow := by
    obtain ⟨row', hrow', heq⟩ := hg.rows row hrow
    obtain ⟨row'', hrow'', heq'⟩ := hg'.rows row' hrow'
    exact ⟨row'', hrow'', heq'.trans heq⟩

lemma Grows.paid (hg : Grows cfg s s') {id : ℕ} (h : Paid s id) : Paid s' id := by
  obtain ⟨txHash, hissued, hreceipt⟩ := h
  exact ⟨txHash, hg.issued id txHash hissued, hg.receipts txHash true hreceipt⟩

lemma Backed.mono (hg : Grows cfg s s') {row : InviteReward} (h : Backed s row) : Backed s' row where
  hash txHash hh := hg.issued _ txHash (h.hash txHash hh)
  created := h.created
  submitted := h.submitted
  completed hc := hg.paid (h.completed hc)

lemma Founded.mono (hg : Grows cfg s s') {id : ℕ} {u : RowUpdate} (h : Founded s id u) :
    Founded s' id u where
  hash txHash hh := hg.issued id txHash (h.hash txHash hh)
  created := h.created
  submitted := h.submitted
  completed hc := hg.paid (h.completed hc)

lemma Transfers.mono (hg : Grows cfg s s') {q : Command} (h : Transfers cfg s q) :
    Transfers cfg s' q := by
  obtain ⟨row, hrow, hq⟩ := h
  obtain ⟨row', hrow', heq⟩ := hg.rows row hrow
  exact ⟨row', hrow', heq ▸ hq⟩

end Grow

/-- What the shared state says of the transfers. -/
structure Books (cfg : AppConfig) (s : Shared ι κ) : Prop where
  rows : ∀ row ∈ s.rows, Backed s row
  watched : ∀ k, ∀ w ∈ s.watchedInvites k, Issued s w.inviteId w.txHash
  commands : ∀ q ∈ s.commands, Transfers cfg s q

/-- What a send is about to write is founded. -/
def BackedSend (s : Shared ι κ) (id : ℕ) : SendPhase → Prop
  | .submitted txHash => Issued s id txHash
  | .finished (some u) => Founded s id u
  | _ => True

/-- A pass of `checkFailedInvites` works on a copy of the row. -/
structure BackedItem (cfg : AppConfig) (s : Shared ι κ) (invite : InviteReward)
    (phase : ItemPhase) : Prop where
  copied : Transfers cfg s (rewardTransfer cfg invite)
  hash : ∀ txHash, invite.rewardTxHash = some txHash → Issued s invite.id txHash
  complete : phase = .complete → Paid s invite.id
  send : ∀ p, phase = .send p → BackedSend s invite.id p
  settled : ∀ u, phase = .settled (some u) → Founded s invite.id u

structure BackedWatch (s : Shared ι κ) (invite : WatchedInvite) (phase : WatchPhase) : Prop where
  issued : Issued s invite.inviteId invite.txHash
  update : ∀ state, phase = .update state →
    ∃ status, s.receipts invite.txHash = some status ∧ state = invite.verdict status

def BackedTask (cfg : AppConfig) (s : Shared ι κ) : Task → Prop
  | .handleWithdrawalEvent _ (.send invite p) =>
    Transfers cfg s (rewardTransfer cfg invite) ∧ BackedSend s invite.id p
  | .checkFailedInvites (.running _ item _) =>
    ∀ id invite phase, item id = some (invite, phase) → BackedItem cfg s invite phase
  | .checkWatchedInvites (.running items) => ∀ p ∈ items, BackedWatch s p.1 p.2
  | _ => True

section Grow
variable {cfg : AppConfig} {s s' : Shared ι κ}

lemma BackedSend.mono (hg : Grows cfg s s') {id : ℕ} {p : SendPhase} (h : BackedSend s id p) :
    BackedSend s' id p := by
  unfold BackedSend at h ⊢
  split
  · exact hg.issued id _ h
  · exact Founded.mono hg h
  · trivial

lemma BackedItem.mono (hg : Grows cfg s s') {invite : InviteReward} {phase : ItemPhase}
    (h : BackedItem cfg s invite phase) : BackedItem cfg s' invite phase where
  copied := h.copied.mono hg
  hash txHash hh := hg.issued _ txHash (h.hash txHash hh)
  complete hc := hg.paid (h.complete hc)
  send p hp := (h.send p hp).mono hg
  settled u hu := (h.settled u hu).mono hg

lemma BackedWatch.mono (hg : Grows cfg s s') {invite : WatchedInvite} {phase : WatchPhase}
    (h : BackedWatch s invite phase) : BackedWatch s' invite phase where
  issued := hg.issued _ _ h.issued
  update state hstate := by
    obtain ⟨status, hreceipt, hverdict⟩ := h.update state hstate
    exact ⟨status, hg.receipts _ status hreceipt, hverdict⟩

/-- The steps of the others do not take away what a task goes by. -/
lemma BackedTask.mono (hg : Grows cfg s s') {t : Task} (h : BackedTask cfg s t) :
    BackedTask cfg s' t := by
  unfold BackedTask at h ⊢
  split
  · exact ⟨Transfers.mono hg h.1, BackedSend.mono hg h.2⟩
  · exact fun id invite phase hitem => (h id invite phase hitem).mono hg
  · exact fun p hp => (h p hp).mono hg
  · trivial

lemma backedTask_fresh {t : Task} (h : t.isFresh = true) : BackedTask cfg s t := by
  unfold Task.isFresh at h
  split at h <;> trivial

lemma backedTask_stop (t : Task) : BackedTask cfg s t.stop := by
  unfold Task.stop
  split_ifs with h
  · exact backedTask_fresh h
  · trivial

lemma rewardTransfer_rewrite (g : ℕ → Option RowUpdate) (row : InviteReward) :
    rewardTransfer cfg (rewrite g row) = rewardTransfer cfg row := by
  unfold rewrite
  cases g row.id <;> rfl

/-- Founded updates are written, and some transfers may no longer be watched. -/
lemma Books.rewrite (hb : Books cfg s) {g : ℕ → Option RowUpdate}
    (hrows : s'.rows = s.rows.map (rewrite g)) (hcommands : s'.commands = s.commands)
    (hreceipts : s'.receipts = s.receipts)
    (hwatched : ∀ k, ∀ w ∈ s'.watchedInvites k, w ∈ s.watchedInvites k)
    (hg : ∀ id u, g id = some u → Founded s id u) : Grows cfg s s' ∧ Books cfg s' := by
  have hgrows : Grows cfg s s' := by
    refine ⟨fun id txHash h => ?_, fun txHash status h => hreceipts ▸ h, fun row hrow => ?_⟩
    · unfold Issued at h ⊢
      rwa [hcommands]
    · exact ⟨Rewards.rewrite g row, hrows ▸ List.mem_map_of_mem hrow, rewardTransfer_rewrite g row⟩
  refine ⟨hgrows, ⟨fun row' hrow' => ?_, fun k w hw => ?_, fun q hq => ?_⟩⟩
  · obtain ⟨row, hrow, rfl⟩ := List.mem_map.mp (hrows ▸ hrow')
    apply Backed.mono hgrows
    cases hu : g row.id with
    | none => exact (rewrite_of_none hu).symm ▸ hb.rows row hrow
    | some u =>
      have hupdate : Rewards.rewrite g row = row.update u := by simp [Rewards.rewrite, hu]
      exact hupdate ▸ (hb.rows row hrow).update (hg row.id u hu)
  · exact hgrows.issued _ _ (hb.watched k w (hwatched k w hw))
  · exact (hb.commands q (hcommands ▸ hq)).mono hgrows

/-- Nothing is written. -/
lemma Books.quiet (hb : Books cfg s) (hrows : s'.rows = s.rows)
    (hcommands : s'.commands = s.commands) (hreceipts : s'.receipts = s.receipts)
    (hwatched : ∀ k, ∀ w ∈ s'.watchedInvites k, w ∈ s.watchedInvites k) :
    Grows cfg s s' ∧ Books cfg s' :=
  hb.rewrite (by rw [rewrite_none, hrows]) hcommands hreceipts hwatched (by simp)

/-- Commands are handed over or executed, or a transaction gets into a block. -/
lemma Books.chain (hb : Books cfg s) (hrows : s'.rows = s.rows)
    (hwatched : s'.watchedInvites = s.watchedInvites)
    (hreceipts : ∀ txHash status, s.receipts txHash = some status →
      s'.receipts txHash = some status)
    (hissued : ∀ id txHash, Issued s id txHash → Issued s' id txHash)
    (hcommands : ∀ q ∈ s'.commands, Transfers cfg s q) : Grows cfg s s' ∧ Books cfg s' := by
  have hgrows : Grows cfg s s' := ⟨hissued, hreceipts, fun row hrow => ⟨row, hrows ▸ hrow, rfl⟩⟩
  refine ⟨hgrows, ⟨fun row hrow => ?_, fun k w hw => ?_, fun q hq => ?_⟩⟩
  · exact (hb.rows row (hrows ▸ hrow)).mono hgrows
  · exact hissued _ _ (hb.watched k w (hwatched ▸ hw))
  · exact (hcommands q hq).mono hgrows

end Grow

section Steps
variable [DecidableEq κ] {cfg : AppConfig} {inst : ι → κ} {s s' : Shared ι κ}

lemma sendStep_backed {k : κ} {invite : InviteReward} {isRetry : Bool} {phase phase' : SendPhase}
    {e : SendEvent} (hb : Books cfg s) (hcopied : Transfers cfg s (rewardTransfer cfg invite))
    (hright : RightSend s invite.id phase) (hsend : BackedSend s invite.id phase)
    (h : SendStep cfg k invite isRetry s phase e s' phase') :
    Grows cfg s s' ∧ Books cfg s' ∧ BackedSend s' invite.id phase' := by
  have hrefl : Grows cfg s s := (hb.quiet rfl rfl rfl fun _ _ h => h).1
  cases h with
  | prepared =>
    refine and_assoc.mp ⟨hb.chain rfl rfl (fun _ _ h => h) (fun id txHash h => ?_) fun q hq => ?_,
      trivial⟩
    · obtain ⟨q, hq, h⟩ := h
      exact ⟨q, List.mem_append_left _ hq, h⟩
    · rcases List.mem_append.mp hq with hq | hq
      · exact hb.commands q hq
      · exact List.mem_singleton.mp hq ▸ hcopied
  | reply hanswer =>
    obtain ⟨q, hq, hid⟩ := hright
    simp only [answer, hq, Option.bind_some] at hanswer
    exact ⟨hrefl, hb, q, List.mem_of_getElem? hq, hid, hanswer⟩
  | failed =>
    refine ⟨hrefl, hb, ?_⟩
    constructor <;> cases isRetry <;> simp
  | @submitted txHash =>
    have hissued : Issued s invite.id txHash := hsend
    have hgrows : Grows cfg s (s.watch k ⟨invite.id, txHash, isRetry⟩) :=
      ⟨fun _ _ h => h, fun _ _ h => h, fun row h => ⟨row, h, rfl⟩⟩
    refine ⟨hgrows, ⟨fun row h => (hb.rows row h).mono hgrows, fun j w hw => ?_,
      fun q hq => (hb.commands q hq).mono hgrows⟩, ?_⟩
    · by_cases hj : j = k
      · subst hj
        simp only [Shared.watch, Function.update_self, List.mem_append, List.mem_singleton] at hw
        rcases hw with hw | rfl
        · exact hb.watched j w hw
        · exact hissued
      · simp only [Shared.watch, Function.update_of_ne hj] at hw
        exact hb.watched j w hw
    · refine ⟨fun txHash h => ?_, by simp, by simp, by simp⟩
      cases h
      exact hissued
  | _ => exact ⟨hrefl, hb, trivial⟩

lemma handlerStep_backed {i : ι} {k : κ} {event : EventLog ℕ ℕ} {phase phase' : HandlerPhase}
    {e : HandlerEvent} (hb : Books cfg s)
    (hright : RightTask i s (.handleWithdrawalEvent event phase))
    (ht : BackedTask cfg s (.handleWithdrawalEvent event phase))
    (h : HandlerStep cfg k event s phase e s' phase') :
    Grows cfg s s' ∧ Books cfg s' ∧ BackedTask cfg s' (.handleWithdrawalEvent event phase') := by
  have hrefl : Grows cfg s s := (hb.quiet rfl rfl rfl fun _ _ h => h).1
  cases h with
  | quiet _ hne =>
    refine ⟨hrefl, hb, ?_⟩
    cases phase' with
    | send invite p => exact absurd rfl (hne invite p)
    | _ => trivial
  | @save inviteToken invitee row hrow _ _ =>
    have hgrows : Grows cfg s { s with rows := s.rows ++ [row] } :=
      ⟨fun _ _ h => h, fun _ _ h => h, fun r h => ⟨r, List.mem_append_left _ h, rfl⟩⟩
    refine ⟨hgrows, ⟨fun r hr => ?_, fun j w hw => hb.watched j w hw,
      fun q hq => (hb.commands q hq).mono hgrows⟩, ⟨row, by simp, rfl⟩, trivial⟩
    rcases List.mem_append.mp hr with hr | hr
    · exact (hb.rows r hr).mono hgrows
    · rw [List.mem_singleton.mp hr, hrow]
      constructor <;> simp
  | send hs _ =>
    obtain ⟨hgrows, hbooks, hsend⟩ := sendStep_backed hb ht.1 hright ht.2 hs
    exact ⟨hgrows, hbooks, ht.1.mono hgrows, hsend⟩
  | thrown hs =>
    obtain ⟨hgrows, hbooks, -⟩ := sendStep_backed hb ht.1 hright ht.2 hs
    exact ⟨hgrows, hbooks, trivial⟩
  | @written invite phase e s'' u hs _ =>
    obtain ⟨hgrows, hbooks, hfounded⟩ := sendStep_backed hb ht.1 hright ht.2 hs
    have hupdate : Grows cfg s'' (s''.update invite.id u) ∧ Books cfg (s''.update invite.id u) := by
      refine hbooks.rewrite (update_rewrite s'' invite.id u) rfl rfl (fun _ _ h => h)
        fun id v hv => ?_
      split_ifs at hv with hid
      cases hv
      exact hid ▸ hfounded
    exact ⟨hgrows.trans hupdate.1, hupdate.2, trivial⟩

/-- A row that is found to be Completed was paid, and what a send settles is founded. -/
lemma itemStep_backed {k : κ} {invite : InviteReward} {phase phase' : ItemPhase} {e : ItemEvent}
    (hb : Books cfg s) (hright : ∀ p, phase = .send p → RightSend s invite.id p)
    (hi : BackedItem cfg s invite phase) (h : ItemStep cfg k invite s phase e s' phase') :
    Grows cfg s s' ∧ Books cfg s' ∧ BackedItem cfg s' invite phase' := by
  have hrefl : Grows cfg s s := (hb.quiet rfl rfl rfl fun _ _ h => h).1
  cases h with
  | @completed _ txHash hhash hreceipt =>
    exact ⟨hrefl, hb, hi.copied, hi.hash, fun _ => ⟨txHash, hi.hash txHash hhash, hreceipt⟩,
      by simp, by simp⟩
  | @unsent _ _ u _ hu =>
    refine ⟨hrefl, hb, hi.copied, hi.hash, by simp, by simp, fun v hv => ?_⟩
    obtain ⟨hphase, rfl⟩ := hu v (ItemPhase.settled.inj hv)
    exact ⟨by simp, by simp, by simp, fun _ => hi.complete hphase⟩
  | retry _ =>
    refine ⟨hrefl, hb, hi.copied, hi.hash, by simp, fun p hp => ?_, by simp⟩
    cases hp
    trivial
  | send hs _ =>
    obtain ⟨hgrows, hbooks, hsend⟩ :=
      sendStep_backed hb hi.copied (hright _ rfl) (hi.send _ rfl) hs
    have hi' := hi.mono hgrows
    refine ⟨hgrows, hbooks, hi'.copied, hi'.hash, by simp, fun p hp => ?_, by simp⟩
    cases hp
    exact hsend
  | settled hs =>
    obtain ⟨hgrows, hbooks, hsend⟩ :=
      sendStep_backed hb hi.copied (hright _ rfl) (hi.send _ rfl) hs
    have hi' := hi.mono hgrows
    refine ⟨hgrows, hbooks, hi'.copied, hi'.hash, by simp, by simp, fun u hu => ?_⟩
    cases hu
    exact hsend

omit [DecidableEq κ] in
/-- What a query selects are rows. -/
lemma Books.backedItem (hb : Books cfg s) {row : InviteReward} (hrow : row ∈ s.rows) :
    BackedItem cfg s row .status where
  copied := ⟨row, hrow, rfl⟩
  hash := (hb.rows row hrow).hash
  complete h := by cases h
  send p h := by cases h
  settled u h := by cases h

omit [DecidableEq κ] in
/-- The verdict of the receipt is founded. -/
lemma BackedWatch.founded {invite : WatchedInvite} {state : RewardStatus}
    (h : BackedWatch s invite (.update state)) : Founded s invite.inviteId ⟨state, none⟩ := by
  obtain ⟨status, hreceipt, rfl⟩ := h.update state rfl
  cases status with
  | true =>
    have hpaid : Paid s invite.inviteId := ⟨invite.txHash, h.issued, hreceipt⟩
    exact ⟨by simp, by simp [WatchedInvite.verdict], by simp [WatchedInvite.verdict], fun _ => hpaid⟩
  | false =>
    have hstate : invite.verdict false = .DeadLettered ∨ invite.verdict false = .Failed :=
      ite_eq_or_eq _ _ _
    rcases hstate with hv | hv <;> rw [hv] <;> constructor <;> simp

lemma watchedStep_backed {k : κ} {phase phase' : WatchedPhase} {e : WatchedEvent}
    (hb : Books cfg s) (ht : BackedTask cfg s (.checkWatchedInvites phase))
    (h : WatchedStep k s phase e s' phase') :
    Grows cfg s s' ∧ Books cfg s' ∧ BackedTask cfg s' (.checkWatchedInvites phase') := by
  have hrefl : Grows cfg s s := (hb.quiet rfl rfl rfl fun _ _ h => h).1
  cases h with
  | skip => exact ⟨hrefl, hb, trivial⟩
  | begin _ =>
    refine and_assoc.mp ⟨hb.quiet rfl rfl rfl fun _ _ h => h, fun p hp => ?_⟩
    obtain ⟨w, hw, rfl⟩ := List.mem_map.mp hp
    exact ⟨hb.watched k w hw, by simp⟩
  | look hitem _ hverdict =>
    refine ⟨hrefl, hb, fun p hp => ?_⟩
    rcases List.mem_or_eq_of_mem_set hp with hp | rfl
    · exact ht p hp
    · exact ⟨(ht _ (List.mem_of_getElem? hitem)).issued, hverdict⟩
  | @write items n invite state hitem _ =>
    have hw := ht _ (List.mem_of_getElem? hitem)
    obtain ⟨hgrows, hbooks⟩ : Grows cfg s { s.update invite.inviteId ⟨state, none⟩ with
        watchedInvites := Function.update s.watchedInvites k ((s.watchedInvites k).erase invite) } ∧
        Books cfg { s.update invite.inviteId ⟨state, none⟩ with
          watchedInvites :=
            Function.update s.watchedInvites k ((s.watchedInvites k).erase invite) } := by
      refine hb.rewrite (update_rewrite s invite.inviteId ⟨state, none⟩) rfl rfl
        (fun j w hmem => ?_) fun id u hu => ?_
      · by_cases hj : j = k
        · subst hj
          simp only [Function.update_self] at hmem
          exact List.mem_of_mem_erase hmem
        · simp only [Function.update_of_ne hj] at hmem
          exact hmem
      · split_ifs at hu with hid
        cases hu
        exact hid ▸ hw.founded
    refine ⟨hgrows, hbooks, fun p hp => ?_⟩
    rcases List.mem_or_eq_of_mem_set hp with hp | rfl
    · exact (ht p hp).mono hgrows
    · exact ⟨hgrows.issued _ _ hw.issued, by simp⟩
  | finish _ => exact and_assoc.mp ⟨hb.quiet rfl rfl rfl fun _ _ h => h, trivial⟩

variable [DecidableEq ι]

/-- A commit writes what its pass has settled. -/
lemma failedStep_backed {i : ι} {k : κ} {phase phase' : FailedPhase} {e : FailedEvent}
    (hb : Books cfg s) (hright : RightTask i s (.checkFailedInvites phase))
    (ht : BackedTask cfg s (.checkFailedInvites phase))
    (h : FailedStep cfg i k s phase e s' phase') :
    Grows cfg s s' ∧ Books cfg s' ∧ BackedTask cfg s' (.checkFailedInvites phase') := by
  cases h with
  | skip | begin | giveUp | rollback _ =>
    exact and_assoc.mp ⟨hb.quiet rfl rfl rfl fun _ _ h => h, trivial⟩
  | @select ids _ _ =>
    have hsame : Grows cfg s { s with locks := fun id => if id ∈ ids then some i else s.locks id } ∧
        Books cfg { s with locks := fun id => if id ∈ ids then some i else s.locks id } :=
      hb.quiet rfl rfl rfl fun _ _ h => h
    refine and_assoc.mp ⟨hsame, fun id invite ph hitem => ?_⟩
    simp only at hitem
    split_ifs at hitem
    obtain ⟨row, hrow, heq⟩ := Option.map_eq_some_iff.mp hitem
    cases heq
    exact hsame.2.backedItem (List.mem_of_find?_eq_some hrow)
  | @item ids item aborted id invite ph e s' ph' hitem hs =>
    obtain ⟨-, -, -, hinvite, hsend⟩ := hright id invite ph hitem
    obtain ⟨hgrows, hbooks, hi⟩ := itemStep_backed hb (fun p hp => hinvite ▸ hsend p hp)
      (ht id invite ph hitem) hs
    refine ⟨hgrows, hbooks, fun id' invite' q hq => ?_⟩
    by_cases hid : id' = id
    · subst hid
      simp only [Function.update_self, Option.some.injEq, Prod.mk.injEq] at hq
      obtain ⟨rfl, rfl⟩ := hq
      exact hi
    · rw [Function.update_of_ne hid] at hq
      exact (ht id' invite' q hq).mono hgrows
  | @commit ids item _ =>
    refine and_assoc.mp ⟨hb.rewrite (commit_rewrite s.rows item) rfl rfl (fun _ _ h => h)
      fun id u hu => ?_, trivial⟩
    obtain ⟨invite, hitem⟩ := committed_item hu
    exact (hright id invite _ hitem).invite ▸ (ht id invite _ hitem).settled u rfl

/-- The books are kept by every task, and by what the relayer and the chain do. -/
def booksOutline (cfg : AppConfig) (inst : ι → κ) :
    Outline (machine cfg inst) fun c _ => (rightOutline cfg inst).Holds c where
  inv := Books cfg
  at_ _ := BackedTask cfg
  task c d i e hright hb hat h := by
    have hri := hright.2 i
    have hti := hat i
    cases step_cases h with
    | handler hi hs =>
      change RightTask _ _ _ at hri
      rw [hi] at hri hti
      obtain ⟨hgrows, hbooks, ht⟩ := handlerStep_backed hb hri hti hs
      exact ⟨hbooks, by simpa using ht, fun j _ => (hat j).mono hgrows⟩
    | failed hi hs =>
      change RightTask _ _ _ at hri
      rw [hi] at hri hti
      obtain ⟨hgrows, hbooks, ht⟩ := failedStep_backed hb hri hti hs
      exact ⟨hbooks, by simpa using ht, fun j _ => (hat j).mono hgrows⟩
    | watched hi hs =>
      rw [hi] at hti
      obtain ⟨hgrows, hbooks, ht⟩ := watchedStep_backed hb hti hs
      exact ⟨hbooks, by simpa using ht, fun j _ => (hat j).mono hgrows⟩
  env c d e _ hb hat h := by
    have hkept : ∀ {s : Shared ι κ}, Grows cfg c.shared s ∧ Books cfg s →
        Books cfg s ∧ ∀ j, BackedTask cfg s (c.task j) :=
      fun hs => ⟨hs.2, fun j => (hat j).mono hs.1⟩
    cases step_cases h with
    | @execute k txHash command hk hnone _ _ =>
      refine hkept (hb.chain rfl rfl (fun _ _ h => h) (fun id h hissued => ?_) fun q hq => ?_)
      · obtain ⟨q, hq, hid, hh⟩ := hissued
        obtain ⟨j, hj⟩ := List.mem_iff_getElem?.mp hq
        have hjk : k ≠ j := by
          rintro rfl
          obtain rfl := Option.some.inj (hk.symm.trans hj)
          simp [hnone] at hh
        exact ⟨q, List.mem_of_getElem? ((List.getElem?_set_ne hjk).trans hj), hid, hh⟩
      · rcases List.mem_or_eq_of_mem_set hq with hq | rfl
        · exact hb.commands q hq
        · obtain ⟨row, hrow, heq⟩ := hb.commands command (List.mem_of_getElem? hk)
          exact ⟨row, hrow, by rw [heq]⟩
    | @mine txHash status hnone =>
      refine hkept (hb.chain rfl rfl (fun h b hb' => ?_) (fun _ _ h => h) hb.commands)
      have hne : h ≠ txHash := by
        rintro rfl
        simp [hnone] at hb'
      exact (Function.update_of_ne hne _ _).trans hb'
    | @restart k =>
      have hsub : ∀ j, ∀ w ∈ (c.shared.restart inst k).watchedInvites j,
          w ∈ c.shared.watchedInvites j := by
        intro j w hw
        by_cases hj : j = k
        · subst hj
          simp [Shared.restart] at hw
        · simpa [Shared.restart, hj] using hw
      obtain ⟨hgrows, hbooks⟩ : Grows cfg c.shared (c.shared.restart inst k) ∧
          Books cfg (c.shared.restart inst k) := hb.quiet rfl rfl rfl hsub
      refine ⟨hbooks, fun j => ?_⟩
      change BackedTask cfg _ (if inst j = k then (c.task j).stop else c.task j)
      split_ifs
      · exact backedTask_stop _
      · exact (hat j).mono hgrows
    | tick => exact hkept (hb.quiet rfl rfl rfl fun _ _ h => h)

/-- The books are right after every run. -/
lemma run_books {c d : Config (Shared ι κ) ι Task} (hinit : Started c)
    (hrun : Run (machine cfg inst) anyStep c d) : Books cfg d.shared := by
  have hholds : (rightOutline cfg inst).Holds c :=
    ⟨trivial, fun i => rightTask_fresh (hinit.task i)⟩
  have hboth := hrun.with_invariant (J := (rightOutline cfg inst).Holds)
    (fun _ _ _ hc hp hs => (rightOutline cfg inst).step hc hp hs) hholds
  refine ((booksOutline cfg inst).run (hboth.mono fun _ _ h => h.2)
    ⟨⟨?_, ?_, ?_⟩, fun i => backedTask_fresh (hinit.task i)⟩).1
  · simp [hinit.rows]
  · simp [hinit.watchedInvites]
  · simp [hinit.commands]

/-- After every run, whatever was lost on the way, each transfer the relayer was ever asked for
is that of a row, to its inviter and over the reward of the configuration; the hash in a row is
that of a transfer for the row; and a Completed row has one that succeeded on chain. -/
theorem rows_backed (cfg : AppConfig) (inst : ι → κ) {c d : Config (Shared ι κ) ι Task}
    (hinit : Started c) (hrun : Run (machine cfg inst) anyStep c d) :
    (∀ q ∈ d.shared.commands, ∃ row ∈ d.shared.rows, q.inviteId = row.id ∧
      q.recipient = row.inviter ∧ q.token = row.inviteToken ∧
        q.value = toFixed (cfg.inviteRewardAmountInCusd * WEI_PER_UNIT)) ∧
      ∀ row ∈ d.shared.rows, Backed d.shared row := by
  have hbooks : Books cfg d.shared := run_books hinit hrun
  refine ⟨fun q hq => ?_, hbooks.rows⟩
  obtain ⟨row, hrow, heq⟩ := hbooks.commands q hq
  refine ⟨row, hrow, ?_⟩
  rw [heq]
  exact ⟨rfl, rfl, rfl, rfl⟩

end Steps

theorem rows_backed_completed :
    Started onePass ∧ ∃ d, Run (machine sampleConfig fun _ => ()) anyStep onePass d ∧
      ∃ row ∈ d.shared.rows, row.state = .Completed ∧ Paid d.shared row.id := by
  obtain ⟨d, hrun, row, hrow, hstate⟩ := Run.exists_of_exec
    (M := machine sampleConfig fun _ => ()) (P := anyStep) (c := onePass)
    (q := fun d => ∃ row ∈ d.shared.rows, row.state = .Completed) (completes 0 2)
    (by decide +kernel)
  have hbacked := (rows_backed sampleConfig _ onePass_started hrun).2 row hrow
  exact ⟨onePass_started, d, hrun, row, hrow, hstate, hbacked.completed hstate⟩

end Komenci.Rewards
