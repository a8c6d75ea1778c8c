import Komenci.RewardTerminal

/-! At most two transfers for a row are handed to the relayer in a run where a row is resent only
when nothing earlier can still be written for it, and what is known of a retry is not lost. -/
namespace Komenci.Rewards
open Interleaving

variable {ι κ : Type}

/-- The pass has handed over another transfer for the row, and what it writes of it is not
committed yet. -/
def ItemPhase.resent : ItemPhase → Bool
  | .send phase => !phase.prepares
  | .settled (some u) => u.state ≠ .Completed
  | _ => false

def Task.resent (id : ℕ) : Task → Bool
  | .checkFailedInvites (.running _ item _) => (item id).any fun p => p.2.resent
  | _ => false

/-- The pass has resent some row. -/
def Task.resentAny : Task → Bool
  | .checkFailedInvites (.running ids item _) => ids.any fun id => (item id).any fun p => p.2.resent
  | _ => false

/-- What a pass has resent is written and committed, and the watched invite of a retry is not lost
in a restart. -/
def RetryKept (inst : ι → κ) (c : Config (Shared ι κ) ι Task) : Label ι (Event κ) → Prop
  | .task _ (.failed (.item _ (.send .writeFails))) => False
  | .task i (.failed .rollback) => (c.task i).resentAny = false
  | .env (.restart k) => (∀ i, inst i = k → (c.task i).resentAny = false) ∧
      ∀ w ∈ c.shared.watchedInvites k, w.markAsDeadLetterIfFailed = false
  | _ => True

/-- A row is resent only when nothing earlier can still be written for it, and what is known of
the retry is kept. -/
def OneRetry (inst : ι → κ) (c : Config (Shared ι κ) ι Task) (l : Label ι (Event κ)) : Prop :=
  Undisturbed c l ∧ RetryKept inst c l

instance [Fintype ι] [DecidableEq κ] (inst : ι → κ) (c : Config (Shared ι κ) ι Task)
    (l : Label ι (Event κ)) : Decidable (RetryKept inst c l) := by
  unfold RetryKept
  induction l using Label.casesOn with
  | env e => induction e using Event.casesOn <;> infer_instance
  | task i e =>
    induction e using Event.casesOn with
    | failed e =>
      induction e using FailedEvent.casesOn with
      | item id e =>
        induction e using ItemEvent.casesOn with
        | send e => induction e using SendEvent.casesOn <;> infer_instance
        | _ => infer_instance
      | _ => infer_instance
    | _ => infer_instance

instance [Fintype ι] [Fintype κ] [DecidableEq κ] (inst : ι → κ) (c : Config (Shared ι κ) ι Task)
    (l : Label ι (Event κ)) : Decidable (OneRetry inst c l) := inferInstanceAs (Decidable (_ ∧ _))

/-- The handler of the row makes up its first transfer. -/
def Task.first (id : ℕ) (t : Task) : Bool := t.handles id && t.prepares id

/-- The row has a second transfer: nothing more may be done with it, or a pass or a watched invite
knows of the retry. -/
def Retried (c : Config (Shared ι κ) ι Task) (id : ℕ) : Prop :=
  (∃ row ∈ c.shared.rows, row.id = id ∧ row.state.terminal = true) ∨
    (∃ i, (c.task i).resent id = true) ∨
    ∃ k, ∃ w ∈ c.shared.watchedInvites k, w.inviteId = id ∧ w.markAsDeadLetterIfFailed = true

/-- The row has at most its first transfer. -/
def FirstOnly (c : Config (Shared ι κ) ι Task) (id : ℕ) : Prop :=
  sent c.shared.commands id = 0 ∨
    sent c.shared.commands id = 1 ∧ ∀ i, (c.task i).first id = false

/-- What a pass is going to commit makes an end of the row, or the transfer is watched. -/
def Noted (s : Shared ι κ) (k : κ) (id : ℕ) : ItemPhase → Prop
  | .settled (some u) => u.state.terminal = true ∨
      ∃ w ∈ s.watchedInvites k, w.inviteId = id ∧ w.markAsDeadLetterIfFailed = true
  | _ => True

def NotedTask (s : Shared ι κ) (k : κ) : Task → Prop
  | .checkFailedInvites (.running _ item _) =>
    ∀ id invite phase, item id = some (invite, phase) → Noted s k id phase
  | _ => True

/-- What is known of the retries. -/
structure Known (inst : ι → κ) (c : Config (Shared ι κ) ι Task) : Prop where
  kept : Kept inst c
  retries : Retries c
  noted : ∀ i, NotedTask c.shared (inst i) (c.task i)
  once : ∀ id, Retried c id ∨ FirstOnly c id

section Tasks
variable {s s' : Shared ι κ} {k : κ} {t : Task} {i : ι} {id : ℕ}

lemma resent_item (h : t.resent id = true) : ∃ ids item aborted invite phase,
    t = .checkFailedInvites (.running ids item aborted) ∧ item id = some (invite, phase) ∧
      phase.resent = true := by
  unfold Task.resent at h
  split at h
  · rename_i ids item aborted
    obtain ⟨⟨invite, phase⟩, hitem, hresent⟩ := (Option.any_eq_true _ _).mp h
    exact ⟨ids, item, aborted, invite, phase, rfl, hitem, hresent⟩
  · cases h

lemma resentAny_of_resent (hr : RightTask i s t) (h : t.resent id = true) :
    t.resentAny = true := by
  obtain ⟨ids, item, aborted, invite, phase, rfl, hitem, hresent⟩ := resent_item h
  exact List.any_eq_true.mpr ⟨id, (hr id invite phase hitem).mem, by simp [hitem, hresent]⟩

lemma resent_locked (hr : RightTask i s t) (h : t.resent id = true) : s.locks id = some i := by
  obtain ⟨ids, item, aborted, invite, phase, rfl, hitem, -⟩ := resent_item h
  exact (hr id invite phase hitem).lock

/-- The entries for rows that a task keeps locked are left. -/
lemma NotedTask.mono (hr : RightTask i s t)
    (hwatched : ∀ w ∈ s.watchedInvites k, s.locks w.inviteId = some i → w ∈ s'.watchedInvites k)
    (h : NotedTask s k t) : NotedTask s' k t := by
  unfold NotedTask at h ⊢
  split
  · intro id invite phase hitem
    have hnoted := h id invite phase hitem
    have hlock := (hr id invite phase hitem).lock
    unfold Noted at hnoted ⊢
    split
    · refine hnoted.imp_right fun ⟨w, hw, hid, hflag⟩ => ?_
      exact ⟨w, hwatched w hw (hid ▸ hlock), hid, hflag⟩
    · trivial
  · trivial

lemma notedTask_fresh (h : t.isFresh = true) : NotedTask s k t := by
  unfold Task.isFresh at h
  split at h <;> trivial

lemma notedTask_stop (t : Task) : NotedTask s k t.stop := by
  unfold Task.stop
  split_ifs with h
  · exact notedTask_fresh h
  · trivial

end Tasks

section Steps
variable [DecidableEq ι] [DecidableEq κ] {cfg : AppConfig} {inst : ι → κ}
  {c d : Config (Shared ι κ) ι Task} {l : Label ι (Event κ)} {i : ι} {s : Shared ι κ} {t : Task}

omit [DecidableEq ι] in
/-- A pass goes on with a row that it has resent. -/
lemma itemStep_resent {k : κ} {invite : InviteReward} {s s' : Shared ι κ} {phase phase' : ItemPhase}
    {e : ItemEvent} (hlost : e ≠ .send .writeFails) (h : ItemStep cfg k invite s phase e s' phase')
    (hresent : phase.resent = true) : phase'.resent = true := by
  cases h with
  | completed _ _ => cases hresent
  | unsent hp _ => rcases hp with rfl | rfl <;> cases hresent
  | retry _ => cases hresent
  | send hs hne =>
    have hprepares := (sendStep_commands hs).1
    simp [ItemPhase.resent, hprepares]
  | settled hs =>
    cases hs with
    | failed | submitted => rfl
    | throw => cases hresent
    | unwritten | unrecorded => exact absurd rfl hlost

omit [DecidableEq ι] in
/-- What a pass settles in a step makes an end of the row, or it watches the transfer. -/
lemma itemStep_noted {k : κ} {invite : InviteReward} {s s' : Shared ι κ}
    {phase phase' : ItemPhase} {e : ItemEvent} (h : ItemStep cfg k invite s phase e s' phase') :
    Noted s' k invite.id phase' := by
  cases h with
  | @unsent _ _ u _ hu =>
    cases u with
    | none => trivial
    | some u =>
      obtain ⟨-, rfl⟩ := hu u rfl
      exact .inl rfl
  | settled hs =>
    cases hs with
    | failed => exact .inl rfl
    | @submitted txHash =>
      exact .inr ⟨⟨invite.id, txHash, true⟩, Custody.mem_watch.mpr (.inr ⟨rfl, rfl⟩), rfl, rfl⟩
    | _ => trivial
  | _ => trivial

omit [DecidableEq κ] in
/-- A task other than the one that goes on still has the row to commit. -/
lemma resent_resume {id : ℕ} {j : ι} (hi : (c.task i).resent id = true)
    (hself : j = i → t.resent id = true) : ((c.resume j (s, t)).task i).resent id = true := by
  by_cases hij : j = i
  · subst hij
    simpa using hself rfl
  · rwa [Config.resume_ne _ _ (Ne.symm hij)]

omit [DecidableEq ι] [DecidableEq κ] in
/-- A commit makes an end of a row that was resent, or its transfer is watched. -/
lemma commit_retried {ids : List ℕ} {item : ℕ → Option (InviteReward × ItemPhase)} {k : κ}
    {id : ℕ} (hright : RightTask i c.shared (c.task i)) (hnoted : NotedTask c.shared k (c.task i))
    (hi : c.task i = .checkFailedInvites (.running ids item false))
    (hset : allSettled ids item = true) (hresent : (c.task i).resent id = true) :
    (∃ row ∈ commitRows c.shared.rows item, row.id = id ∧ row.state.terminal = true) ∨
      ∃ w ∈ c.shared.watchedInvites k, w.inviteId = id ∧ w.markAsDeadLetterIfFailed = true := by
  rw [hi] at hright hnoted hresent
  obtain ⟨_, _, _, invite, phase, heq, hitem, hphase⟩ := resent_item hresent
  cases heq
  obtain ⟨hmem, -, ⟨row, hrow, rfl, -⟩, -, -⟩ := hright id invite phase hitem
  have hsettled := List.all_eq_true.mp hset row.id hmem
  rw [hitem, Option.all_some] at hsettled
  obtain ⟨u, rfl⟩ : ∃ u, phase = .settled (some u) := by
    unfold ItemPhase.resent at hphase
    split at hphase
    · cases hsettled
    · exact ⟨_, rfl⟩
    · cases hphase
  refine (hnoted row.id invite _ hitem).imp_left fun hterminal => ?_
  refine ⟨rewrite (committed item) row, ?_, rewrite_id _ row, ?_⟩
  · rw [commit_rewrite]
    exact List.mem_map_of_mem hrow
  · rwa [rewrite_of_some (u := u) (by simp [committed, hitem])]

/-- What a pass has resent it still has to commit after the step, or it is known otherwise. -/
lemma step_resent (hk : Known inst c) (hone : RetryKept inst c l)
    (h : (machine cfg inst).step c l = some d) {id : ℕ} (hi : (c.task i).resent id = true) :
    Retried d id := by
  have hright := hk.kept.right i
  cases step_cases h with
  | @handler j _ _ _ _ _ hj _ | @watched j _ _ _ _ hj _ =>
    refine .inr (.inl ⟨i, resent_resume hi fun hji => ?_⟩)
    rw [← hji, hj] at hi
    cases hi
  | @failed j phase e s phase' hj hs =>
    by_cases hji : j = i
    · subst hji
      have hnoted := hk.noted j
      cases hs with
      | skip | begin | giveUp | select _ _ =>
        rw [hj] at hi
        cases hi
      | @item ids item aborted id' invite phase e _ phase' hitem hs =>
        refine .inr (.inl ⟨j, resent_resume hi fun _ => ?_⟩)
        rw [hj] at hi
        by_cases hid : id = id'
        · subst hid
          simp only [Task.resent, hitem, Option.any_some, Function.update_self] at hi ⊢
          refine itemStep_resent ?_ hs hi
          rintro rfl
          exact hone
        · simpa [Task.resent, hid] using hi
      | commit hset =>
        rcases commit_retried hright hnoted hj hset hi with hrow | hwatched
        · exact .inl hrow
        · exact .inr (.inr ⟨inst j, hwatched⟩)
      | rollback _ =>
        have hnone : (c.task j).resentAny = false := hone
        rw [resentAny_of_resent hright hi] at hnone
        cases hnone
    · exact .inr (.inl ⟨i, resent_resume hi fun heq => absurd heq hji⟩)
  | @restart k =>
    refine .inr (.inl ⟨i, ?_⟩)
    have hne : inst i ≠ k := by
      intro hinst
      have hnone := hone.1 i hinst
      rw [resentAny_of_resent hright hi] at hnone
      cases hnone
    simpa [hne] using hi
  | execute _ _ _ _ | mine _ | tick => exact .inr (.inl ⟨i, hi⟩)

omit [DecidableEq ι] in
/-- The others are still watched when one is taken off. -/
lemma mem_watched_erase {watchedInvites : κ → List WatchedInvite} {k k' : κ} {v w : WatchedInvite}
    (hw : w ∈ watchedInvites k') (hne : ¬ (w = v ∧ k' = k)) :
    w ∈ Function.update watchedInvites k ((watchedInvites k).erase v) k' := by
  by_cases hk : k' = k
  · subst hk
    have hwv : w ≠ v := fun heq => hne ⟨heq, rfl⟩
    simpa using (List.mem_erase_of_ne hwv).mpr hw
  · simpa [hk] using hw

/-- A retry that is watched stays so until an end is made of the row. -/
lemma step_watchedRetry (hk : Known inst c) (hone : RetryKept inst c l)
    (h : (machine cfg inst).step c l = some d) {k : κ} {w : WatchedInvite}
    (hw : w ∈ c.shared.watchedInvites k) (hflag : w.markAsDeadLetterIfFailed = true) :
    Retried d w.inviteId := by
  cases step_cases h with
  | handler _ hs => exact .inr (.inr ⟨k, w, (handlerStep_watching hs).2.2 k w hw, rfl, hflag⟩)
  | failed _ hs => exact .inr (.inr ⟨k, w, (failedStep_watching hs).2.2 k w hw, rfl, hflag⟩)
  | @watched i _ _ _ _ hi hs =>
    cases hs with
    | @write items n invite state hitem _ =>
      by_cases hwi : w = invite ∧ k = inst i
      · obtain ⟨rfl, rfl⟩ := hwi
        obtain ⟨row, hrow, hrid, -⟩ := hk.kept.custody.watched _ w hw
        obtain ⟨status, -, hstate⟩ := (hk.kept.looks.running i items hi).verdict _
          (List.mem_of_getElem? hitem) _ rfl
        refine .inl ⟨row.update ⟨state, none⟩, ?_, hrid, ?_⟩
        · exact List.mem_map.mpr ⟨row, hrow, if_pos hrid⟩
        · cases status
          all_goals
            simp [InviteRewardRow.update, hstate, WatchedInvite.verdict, hflag,
              RewardStatus.terminal]
      · exact .inr (.inr ⟨k, w, mem_watched_erase hw hwi, rfl, hflag⟩)
    | _ => exact .inr (.inr ⟨k, w, hw, rfl, hflag⟩)
  | @restart k' =>
    have hne : k ≠ k' := by
      rintro rfl
      rw [hone.2 w hw] at hflag
      cases hflag
    exact .inr (.inr ⟨k, w, by simpa [Shared.restart, hne] using hw, rfl, hflag⟩)
  | execute _ _ _ _ | mine _ | tick => exact .inr (.inr ⟨k, w, hw, rfl, hflag⟩)

/-- A row that was resent is known to be. -/
lemma step_retried (hk : Known inst c) (hone : RetryKept inst c l)
    (h : (machine cfg inst).step c l = some d) {id : ℕ} (hid : Retried c id) : Retried d id := by
  rcases hid with ⟨row, hrow, rfl, hterminal⟩ | ⟨i, hi⟩ | ⟨k, w, hw, rfl, hflag⟩
  · obtain ⟨row', hrow', hid', hstate'⟩ := step_terminal hk.kept hrow hterminal h
    exact .inl ⟨row', hrow', hid', hstate' ▸ hterminal⟩
  · exact step_resent hk hone h hi
  · exact step_watchedRetry hk hone h hw hflag

omit [DecidableEq ι] [DecidableEq κ] in
lemma FirstOnly.mono {id : ℕ} (h : FirstOnly c id)
    (hsent : sent d.shared.commands id = sent c.shared.commands id)
    (hfirst : ∀ i, (d.task i).first id = true → (c.task i).first id = true) : FirstOnly d id := by
  refine h.imp (fun hzero => hsent.trans hzero) fun ⟨hone, hnone⟩ => ⟨hsent.trans hone, fun i => ?_⟩
  by_contra hi
  simpa [hnone i] using hfirst i (by simpa using hi)

omit [DecidableEq κ] in
/-- A task goes on that hands over nothing, and makes up no first transfer that it did not make up
before. -/
lemma FirstOnly.resume {id : ℕ} (h : FirstOnly c id)
    (hsent : sent s.commands id = sent c.shared.commands id)
    (hfirst : t.first id = true → (c.task i).first id = true) :
    FirstOnly (c.resume i (s, t)) id :=
  h.mono hsent (resume_mono (p := Task.first) hfirst)

omit [DecidableEq ι] in
/-- A send that ends hands over nothing. -/
lemma sendStep_ended {k : κ} {invite : InviteReward} {isRetry : Bool} {s s' : Shared ι κ}
    {phase : SendPhase} {u : Option RowUpdate} {e : SendEvent}
    (h : SendStep cfg k invite isRetry s phase e s' (.finished u)) : s'.commands = s.commands := by
  cases h <;> rfl

/-- A handler hands over the first transfer, if any. -/
lemma handler_firstOnly {event : EventLog ℕ ℕ} {phase phase' : HandlerPhase} {e : HandlerEvent}
    (hr : Retries c) (hi : c.task i = .handleWithdrawalEvent event phase)
    (h : HandlerStep cfg (inst i) event c.shared phase e s phase') {id : ℕ} (hid : FirstOnly c id) :
    FirstOnly (c.resume i (s, .handleWithdrawalEvent event phase')) id := by
  cases h with
  | quiet _ hne =>
    refine hid.resume rfl fun hfirst => ?_
    cases phase' with
    | send invite p => exact absurd rfl (hne invite p)
    | _ => cases hfirst
  | @save inviteToken invitee row _ hnew _ =>
    by_cases hrow : row.id = id
    · subst hrow
      refine .inl (sent_eq_zero fun q hq hid => ?_)
      obtain ⟨r, hmem, hrid⟩ := hr.known q hq
      exact hnew r hmem (hrid.trans hid)
    · exact hid.resume rfl fun hfirst => by simp [Task.first, Task.handles, hrow] at hfirst
  | @send invite p e _ p' hs _ =>
    obtain ⟨hp', hcommands⟩ := sendStep_commands hs
    have hself : (Task.handleWithdrawalEvent event (.send invite p')).first id = false := by
      simp [Task.first, Task.prepares, hp']
    rcases hcommands with ⟨rfl, hcommands⟩ | hcommands
    · by_cases hrow : invite.id = id
      · have hfirst : (c.task i).first id = true := by
          simp [hi, Task.first, Task.handles, Task.prepares, SendPhase.prepares, hrow]
        have hzero : sent c.shared.commands id = 0 := by
          rcases hid with hzero | ⟨-, hnone⟩
          · exact hzero
          · simp [hnone i] at hfirst
        refine .inr ⟨?_, fun j => ?_⟩
        · rw [Config.resume_shared, hcommands, sent_append, hzero]
          simp [rewardTransfer, hrow]
        · by_cases hji : j = i
          · subst hji
            rw [Config.resume_self, hself]
          · rw [Config.resume_ne _ _ hji]
            by_contra hj
            simp only [Task.first, Bool.not_eq_false, Bool.and_eq_true] at hj hfirst
            exact hji (hr.handler j i id hj.1 hfirst.1)
      · refine hid.resume ?_ fun h => by simp [hself] at h
        rw [hcommands, sent_append]
        simp [rewardTransfer, hrow]
    · exact hid.resume (by rw [hcommands]) fun h => by simp [hself] at h
  | thrown hs => exact hid.resume (by rw [sendStep_ended hs]) fun h => by cases h
  | written hs _ =>
    exact hid.resume (by simp only [Shared.update, sendStep_ended hs]) fun h => by cases h

/-- A pass that hands over a transfer has resent the row. -/
lemma item_firstOnly {ids : List ℕ} {item : ℕ → Option (InviteReward × ItemPhase)}
    {aborted aborted' : Bool} {row : ℕ} {invite : InviteReward} {phase phase' : ItemPhase}
    {e : ItemEvent} (hright : RightTask i c.shared (c.task i))
    (hi : c.task i = .checkFailedInvites (.running ids item aborted))
    (hitem : item row = some (invite, phase))
    (h : ItemStep cfg (inst i) invite c.shared phase e s phase') {id : ℕ} (hid : FirstOnly c id) :
    Retried (c.resume i (s, .checkFailedInvites
        (.running ids (Function.update item row (some (invite, phase'))) aborted'))) id ∨
      FirstOnly (c.resume i (s, .checkFailedInvites
        (.running ids (Function.update item row (some (invite, phase'))) aborted'))) id := by
  rw [hi] at hright
  have hinvite := (hright row invite phase hitem).invite
  have hquiet : s.commands = c.shared.commands → FirstOnly (c.resume i (s, .checkFailedInvites
      (.running ids (Function.update item row (some (invite, phase'))) aborted'))) id :=
    fun hcommands => hid.resume (by rw [hcommands]) fun h => by cases h
  cases h with
  | completed _ _ | unsent _ _ | retry _ => exact .inr (hquiet rfl)
  | settled hs => exact .inr (hquiet (sendStep_ended hs))
  | @send p e _ p' hs _ =>
    obtain ⟨hp', ⟨-, hcommands⟩ | hcommands⟩ := sendStep_commands hs
    · by_cases hrow : row = id
      · subst hrow
        refine .inl (.inr (.inl ⟨i, ?_⟩))
        simp [Task.resent, ItemPhase.resent, hp']
      · refine .inr (hid.resume ?_ fun h => by cases h)
        rw [hcommands, sent_append]
        simp [rewardTransfer, hinvite, hrow]
    · exact .inr (hquiet hcommands)

/-- A row with one transfer gets its second from a pass. -/
lemma step_firstOnly (hk : Known inst c) (h : (machine cfg inst).step c l = some d) {id : ℕ}
    (hid : FirstOnly c id) : Retried d id ∨ FirstOnly d id := by
  cases step_cases h with
  | handler hi hs => exact .inr (handler_firstOnly hk.retries hi hs hid)
  | @failed i _ _ _ _ hi hs =>
    cases hs with
    | item hitem hs => exact item_firstOnly (hk.kept.right i) hi hitem hs hid
    | _ => exact .inr (hid.resume rfl fun h => by cases h)
  | watched _ hs => exact .inr (hid.resume (by rw [hs.touches.2.1]) fun h => by cases h)
  | execute hk _ _ _ => exact .inr (hid.mono (sent_execute hk id) fun _ h => h)
  | mine _ | tick => exact .inr (hid.mono rfl fun _ h => h)
  | @restart k =>
    refine .inr (hid.mono rfl fun i h => ?_)
    simp only at h
    split_ifs at h with hinst
    · simp [Task.first, prepares_stop] at h
    · exact h

lemma step_noted (hk : Known inst c) (h : (machine cfg inst).step c l = some d) (j : ι) :
    NotedTask d.shared (inst j) (d.task j) := by
  have hall : ∀ {s : Shared ι κ}, (∀ w ∈ c.shared.watchedInvites (inst j),
      c.shared.locks w.inviteId = some j → w ∈ s.watchedInvites (inst j)) →
        NotedTask s (inst j) (c.task j) :=
    fun hwatched => (hk.noted j).mono (hk.kept.right j) hwatched
  cases step_cases h with
  | @handler i event _ _ s phase' hi hs =>
    refine Config.forall_resume (Q := fun j t => NotedTask s (inst j) t) ?_ (fun j _ => ?_) j
    · trivial
    · exact (hk.noted j).mono (hk.kept.right j) fun w hw _ => (handlerStep_watching hs).2.2 _ w hw
  | @watched i _ _ s phase' hi hs =>
    refine Config.forall_resume (Q := fun j t => NotedTask s (inst j) t) ?_ (fun j _ => ?_) j
    · trivial
    refine (hk.noted j).mono (hk.kept.right j) fun w hw hlock => ?_
    cases hs with
    | @write items n invite state _ hfree =>
      refine mem_watched_erase hw ?_
      rintro ⟨rfl, -⟩
      rw [hfree] at hlock
      cases hlock
    | _ => exact hw
  | @failed i phase _ s phase' hi hs =>
    have hwatched := (failedStep_watching hs).2.2
    refine Config.forall_resume (Q := fun j t => NotedTask s (inst j) t) ?_ (fun j _ => ?_) j
    · have hnoted : NotedTask s (inst i) (c.task i) :=
        (hk.noted i).mono (hk.kept.right i) fun w hw _ => hwatched _ w hw
      have hright := hk.kept.right i
      rw [hi] at hnoted hright
      cases hs with
      | @item ids item aborted id invite ph _ _ ph' hitem hs =>
        intro id' invite' q hq
        by_cases hid : id' = id
        · subst hid
          simp only [Function.update_self, Option.some.injEq, Prod.mk.injEq] at hq
          obtain ⟨rfl, rfl⟩ := hq
          exact (hright id' invite ph hitem).invite ▸ itemStep_noted hs
        · rw [Function.update_of_ne hid] at hq
          exact hnoted id' invite' q hq
      | select _ _ =>
        intro id' invite' q hq
        simp only at hq
        split_ifs at hq
        obtain ⟨row, -, hrow⟩ := Option.map_eq_some_iff.mp hq
        cases hrow
        trivial
      | _ => trivial
    · exact (hk.noted j).mono (hk.kept.right j) fun w hw _ => hwatched _ w hw
  | @restart k =>
    simp only
    split_ifs with hinst
    · exact notedTask_stop _
    · exact hall fun w hw _ => by simpa [Shared.restart, hinst] using hw
  | execute _ _ _ _ | mine _ | tick => exact hall fun w hw _ => hw

omit [DecidableEq ι] [DecidableEq κ] in
/-- What a pass resends has at most its first transfer. -/
lemma Known.atMostOnce (hk : Known inst c) (hun : Undisturbed c l) : AtMostOnce c l := by
  unfold AtMostOnce
  split
  · rename_i i id
    split
    · rename_i ids item aborted hi
      split
      · rename_i invite hitem
        intro hreverted
        simp only [Undisturbed, hi, hitem] at hun
        obtain ⟨hhandles, hunwatched⟩ := hun hreverted
        have hright := hk.kept.right i
        rw [hi] at hright
        obtain ⟨-, hlock, ⟨row, hrow, hrid, -⟩, -, -⟩ := hright id invite _ hitem
        have hfirst : FirstOnly c id := by
          refine (hk.once id).resolve_left ?_
          rintro (⟨row', hrow', hid', hterminal⟩ | ⟨j, hj⟩ | ⟨k, w, hw, hid, -⟩)
          · have hheld : holds c i id ≠ .off := by
              simp [holds, hi, Task.hold, hitem, ItemPhase.hold]
            rw [(hk.kept.custody.right hrow' hid' hheld).1] at hterminal
            cases hterminal
          · obtain rfl := Option.some.inj (hlock.symm.trans (resent_locked (hk.kept.right j) hj))
            simp [hi, Task.resent, hitem, ItemPhase.resent] at hj
          · exact hunwatched k w hw hid
        refine hfirst.imp_right fun hone => ⟨hone.1, fun j => ?_⟩
        by_contra hj
        rcases prepares_cases (hk.kept.right j) (by simpa using hj) with hj' | ⟨hj', -⟩
        · simp [hhandles j] at hj'
        · obtain rfl := Option.some.inj (hlock.symm.trans hj')
          simp [hi, Task.prepares, hitem] at hj
      · trivial
    · trivial
  · trivial

/-- What is known is kept by every step on which nothing known of a retry is lost. -/
lemma step_known (hk : Known inst c) (hone : OneRetry inst c l)
    (h : (machine cfg inst).step c l = some d) : Known inst d where
  kept := step_kept hk.kept hone.1 h
  retries := step_retries hk.retries hk.kept.right (hk.atMostOnce hone.1) h
  noted := step_noted hk h
  once id := (hk.once id).elim (fun hid => .inl (step_retried hk hone.2 h hid))
    (step_firstOnly hk h)

omit [DecidableEq ι] [DecidableEq κ] in
lemma started_known (h : Started c) : Known inst c where
  kept := started_kept h
  retries := initial_retries h.toInitial
  noted i := notedTask_fresh (h.task i)
  once id := .inr (.inl (by simp [h.commands, sent]))

lemma run_retries (hstart : Started c) (hrun : Run (machine cfg inst) (OneRetry inst) c d) :
    Retries d :=
  (hrun.invariant (J := Known inst) (fun _ _ _ hk hp hs => step_known hk hp hs)
    (started_known hstart)).retries

/-- At most two transfers for a row are handed to the relayer, in a run where a row is resent only
when nothing earlier can still be written for it and what is known of the retry is kept. -/
theorem sent_at_most_twice (cfg : AppConfig) (inst : ι → κ) (hstart : Started c)
    (hrun : Run (machine cfg inst) (OneRetry inst) c d) (id : ℕ) :
    sent d.shared.commands id ≤ 2 :=
  (run_retries hstart hrun).sent_le id

end Steps

section Samples

/-- A watched invite that was reverted is written. -/
def looked (i : Fin 3) : List (Label (Fin 3) (Event Unit)) :=
  [.task i (.watched .resume), .task i (.watched (.item 0 .status)),
    .task i (.watched (.item 0 .write))]

theorem sent_at_most_twice_once_resent :
    Started onePass ∧ ∃ d, Run (machine sampleConfig fun _ => ()) (OneRetry fun _ => ()) onePass d ∧
      1 < sent d.shared.commands 100 ∧ sent d.shared.commands 100 ≤ 2 := by
  obtain ⟨d, hrun, hd⟩ := Run.exists_of_exec (M := machine sampleConfig fun _ => ())
    (P := OneRetry fun _ => ()) (c := onePass) (q := fun d => 1 < sent d.shared.commands 100)
    (firstReverts ++ looked 2 ++ resends 1) (by decide +kernel)
  exact ⟨onePass_started, d, hrun, hd,
    sent_at_most_twice sampleConfig (fun _ => ()) onePass_started hrun 100⟩

/-- One withdrawal event, and two passes of `checkFailedInvites`. -/
def twoPasses : Config (Shared (Fin 3) Unit) (Fin 3) Task :=
  ⟨.empty, ![.handleWithdrawalEvent ⟨40, 11, 1, 7⟩ .start, .checkFailedInvites .start,
    .checkFailedInvites .start]⟩

/-- The retry reverts too, and the next pass finds the row still Submitted. -/
theorem sent_three_times :
    Started twoPasses ∧ ∃ d, Run (machine sampleConfig fun _ => ()) anyStep twoPasses d ∧
      sent d.shared.commands 100 = 3 := by
  refine ⟨⟨⟨rfl, rfl, fun i => by fin_cases i <;> rfl⟩, fun _ => rfl⟩, Run.exists_of_exec
    (firstReverts ++ resends 1 ++ [.env (.execute 1 501),
      .task 1 (.failed (.item 100 (.send .reply))), .task 1 (.failed (.item 100 (.send .write))),
      .task 1 (.failed .commit), .env (.mine 501 false)] ++ resends 2) ?_⟩
  decide +kernel

end Samples

end Komenci.Rewards
