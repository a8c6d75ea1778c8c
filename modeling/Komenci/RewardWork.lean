import Komenci.RewardLedger

/-! What the tasks of the rewards service know of the shared state, and what each is at
work on. A pass of `checkFailedInvites` keeps its rows locked from the query on. -/
namespace Komenci.Rewards
open Interleaving

variable {ι κ : Type}

/-- The command a send waits for is for its row. -/
def RightSend (s : Shared ι κ) (id : ℕ) : SendPhase → Prop
  | .awaiting k => ∃ c, s.commands[k]? = some c ∧ c.inviteId = id
  | _ => True

structure RightItem (i : ι) (s : Shared ι κ) (ids : List ℕ) (id : ℕ) (invite : InviteReward)
    (phase : ItemPhase) : Prop where
  mem : id ∈ ids
  lock : s.locks id = some i
  row : ∃ row ∈ s.rows, row.id = id ∧ row.rewardTxHash = invite.rewardTxHash
  invite : invite.id = id
  send : ∀ p, phase = .send p → RightSend s id p

def RightTask (i : ι) (s : Shared ι κ) : Task → Prop
  | .handleWithdrawalEvent _ (.send invite p) => RightSend s invite.id p
  | .checkFailedInvites (.running ids item _) =>
    ∀ id invite phase, item id = some (invite, phase) → RightItem i s ids id invite phase
  | _ => True

/-- What a step leaves alone as far as `i` is concerned: commands keep their rows, and
locked rows their hashes. -/
structure Keeps (i : ι) (s s' : Shared ι κ) : Prop where
  commands : ∀ (k : ℕ) (c : Command), s.commands[k]? = some c →
    ∃ c' : Command, s'.commands[k]? = some c' ∧ c'.inviteId = c.inviteId
  locks : ∀ id, s.locks id = some i → s'.locks id = some i
  rows : ∀ row ∈ s.rows, s.locks row.id = some i → ∃ row' ∈ s'.rows, row'.id = row.id ∧
    row'.rewardTxHash = row.rewardTxHash

lemma Keeps.of_eq {i : ι} {s s' : Shared ι κ} (hc : s'.commands = s.commands)
    (hl : s'.locks = s.locks) (hr : s'.rows = s.rows) : Keeps i s s' where
  commands _ c h := ⟨c, hc ▸ h, rfl⟩
  locks _ h := hl ▸ h
  rows row h _ := ⟨row, hr ▸ h, rfl, rfl⟩

lemma RightSend.mono {i : ι} {s s' : Shared ι κ} {id : ℕ} {p : SendPhase} (hk : Keeps i s s')
    (h : RightSend s id p) : RightSend s' id p := by
  cases p with
  | awaiting k =>
    obtain ⟨c, hc, hid⟩ := h
    obtain ⟨c', hc', hid'⟩ := hk.commands k c hc
    exact ⟨c', hc', hid'.trans hid⟩
  | _ => trivial

lemma RightItem.mono {i : ι} {s s' : Shared ι κ} {ids : List ℕ} {id : ℕ} {invite : InviteReward}
    {phase : ItemPhase} (hk : Keeps i s s') (h : RightItem i s ids id invite phase) :
    RightItem i s' ids id invite phase := by
  obtain ⟨hmem, hlock, ⟨row, hrow, hid, hhash⟩, hinvite, hsend⟩ := h
  obtain ⟨row', hrow', hid', hhash'⟩ := hk.rows row hrow (hid ▸ hlock)
  exact ⟨hmem, hk.locks id hlock, ⟨row', hrow', hid'.trans hid, hhash'.trans hhash⟩, hinvite,
    fun p hp => (hsend p hp).mono hk⟩

/-- The steps of the others do not disturb what a task knows. -/
lemma RightTask.mono {i : ι} {s s' : Shared ι κ} {t : Task} (hk : Keeps i s s')
    (h : RightTask i s t) : RightTask i s' t := by
  unfold RightTask at h ⊢
  split
  · exact RightSend.mono hk h
  · exact fun id invite phase hitem => (h id invite phase hitem).mono hk
  · trivial

lemma rightTask_fresh {i : ι} {s : Shared ι κ} {t : Task} (h : t.isFresh = true) :
    RightTask i s t := by
  unfold Task.isFresh at h
  split at h <;> trivial

lemma rightTask_stop (i : ι) (s : Shared ι κ) (t : Task) : RightTask i s t.stop := by
  unfold Task.stop
  split_ifs with h
  · exact rightTask_fresh h
  · trivial

section Steps
variable [DecidableEq κ] {cfg : AppConfig} {inst : ι → κ}

/-- A send touches only the commands, by a new one for its row, and the watch list. -/
lemma sendStep_right {k : κ} {invite : InviteReward} {isRetry : Bool} {s s' : Shared ι κ}
    {phase phase' : SendPhase} {e : SendEvent}
    (h : SendStep cfg k invite isRetry s phase e s' phase') :
    s'.rows = s.rows ∧ s'.locks = s.locks ∧ s'.receipts = s.receipts ∧ (∀ i, Keeps i s s') ∧
      RightSend s' invite.id phase' := by
  cases h with
  | prepared =>
    refine ⟨rfl, rfl, rfl, fun i => ⟨fun k c hc => ⟨c, ?_, rfl⟩, fun _ h => h,
      fun row h _ => ⟨row, h, rfl, rfl⟩⟩, ⟨_, List.getElem?_concat_length, rfl⟩⟩
    exact List.getElem?_append_left (List.getElem?_eq_some_iff.mp hc).1 ▸ hc
  | _ => exact ⟨rfl, rfl, rfl, fun i => .of_eq rfl rfl rfl, trivial⟩

omit [DecidableEq κ] in
lemma update_keeps {i : ι} {s : Shared ι κ} {id : ℕ} (u : RowUpdate) (hl : s.locks id ≠ some i) :
    Keeps i s (s.update id u) where
  commands _ c h := ⟨c, h, rfl⟩
  locks _ h := h
  rows row h hlock := by
    refine ⟨row, List.mem_map.mpr ⟨row, h, if_neg ?_⟩, rfl, rfl⟩
    rintro rfl
    exact hl hlock

lemma handlerStep_right {k : κ} {s s' : Shared ι κ} {phase phase' : HandlerPhase}
    {e : HandlerEvent} {event : EventLog ℕ ℕ}
    (h : HandlerStep cfg k event s phase e s' phase') (i : ι) :
    RightTask i s' (.handleWithdrawalEvent event phase') ∧ ∀ j, Keeps j s s' := by
  cases h with
  | quiet _ hne =>
    refine ⟨?_, fun j => .of_eq rfl rfl rfl⟩
    cases phase' with
    | send invite p => exact absurd rfl (hne invite p)
    | _ => trivial
  | save _ _ _ =>
    exact ⟨trivial, fun j => ⟨fun _ c hc => ⟨c, hc, rfl⟩, fun _ h => h,
      fun row h _ => ⟨row, List.mem_append_left _ h, rfl, rfl⟩⟩⟩
  | send hs _ =>
    obtain ⟨-, -, -, hk, hr⟩ := sendStep_right hs
    exact ⟨hr, hk⟩
  | thrown hs => exact ⟨trivial, (sendStep_right hs).2.2.2.1⟩
  | @written invite phase e s'' u hs hl =>
    obtain ⟨-, -, -, hk, -⟩ := sendStep_right hs
    have hu : ∀ j, Keeps j s'' (s''.update invite.id u) := fun j => update_keeps u (by simp [hl])
    refine ⟨trivial, fun j => ⟨fun k c hc => ?_, fun id h => (hu j).locks id ((hk j).locks id h),
      fun row hrow hlock => ?_⟩⟩
    · exact (hk j).commands k c hc
    · obtain ⟨row', hrow', hid, hhash⟩ := (hk j).rows row hrow hlock
      obtain ⟨row'', hrow'', hid', hhash'⟩ := (hu j).rows row' hrow'
        ((hk j).locks _ (hid ▸ hlock))
      exact ⟨row'', hrow'', hid'.trans hid, hhash'.trans hhash⟩

lemma itemStep_right {k : κ} {invite : InviteReward} {s s' : Shared ι κ} {phase phase' : ItemPhase}
    {e : ItemEvent} (h : ItemStep cfg k invite s phase e s' phase') :
    s'.rows = s.rows ∧ s'.locks = s.locks ∧ s'.receipts = s.receipts ∧ (∀ i, Keeps i s s') ∧
      ∀ p, phase' = .send p → RightSend s' invite.id p := by
  cases h with
  | completed _ _ | unsent _ _ => exact ⟨rfl, rfl, rfl, fun i => .of_eq rfl rfl rfl, by simp⟩
  | retry _ =>
    refine ⟨rfl, rfl, rfl, fun i => .of_eq rfl rfl rfl, fun p hp => ?_⟩
    cases hp
    trivial
  | send hs _ =>
    obtain ⟨h1, h2, h3, hk, hr⟩ := sendStep_right hs
    refine ⟨h1, h2, h3, hk, fun p hp => ?_⟩
    cases hp
    exact hr
  | settled hs =>
    obtain ⟨h1, h2, h3, hk, -⟩ := sendStep_right hs
    exact ⟨h1, h2, h3, hk, by simp⟩

omit [DecidableEq κ] in
lemma touches_keeps {s s' : Shared ι κ} (h : Touches s s') (i : ι) : Keeps i s s' := by
  obtain ⟨hl, hc, -, hrows | ⟨id, state, hfree, hrows⟩⟩ := h
  · exact .of_eq hc hl hrows
  · have hu : Keeps i s (s.update id ⟨state, none⟩) := update_keeps _ (by simp [hfree])
    exact ⟨fun k c h => ⟨c, hc ▸ h, rfl⟩, fun _ h => hl ▸ h, fun row hr hlock =>
      hrows ▸ hu.rows row hr hlock⟩

variable [DecidableEq ι]

/-- A commit changes only the rows its pass has locked. -/
lemma commit_keeps {i j : ι} {s : Shared ι κ} {item : ℕ → Option (InviteReward × ItemPhase)}
    (hlock : ∀ id p, item id = some p → s.locks id = some i) (hj : j ≠ i) (k : κ) :
    Keeps j s (({ s with rows := commitRows s.rows item }.unlock i).setCheckingFailed k false) where
  commands _ c h := ⟨c, h, rfl⟩
  locks id h := by
    simp only [Shared.setCheckingFailed, Shared.unlock, h, Option.some.injEq, hj, if_false]
  rows row h hr := by
    have hnone : item row.id = none := by
      by_contra hne
      obtain ⟨p, hp⟩ := Option.ne_none_iff_exists'.mp hne
      exact hj (Option.some.inj (hr.symm.trans (hlock row.id p hp)))
    exact ⟨row, List.mem_map.mpr ⟨row, h, by simp [hnone]⟩, rfl, rfl⟩

lemma failedStep_right {i : ι} {k : κ} {s s' : Shared ι κ} {phase phase' : FailedPhase}
    {e : FailedEvent} (hr : RightTask i s (.checkFailedInvites phase))
    (h : FailedStep cfg i k s phase e s' phase') :
    RightTask i s' (.checkFailedInvites phase') ∧ ∀ j, j ≠ i → Keeps j s s' := by
  cases h with
  | skip => exact ⟨trivial, fun j _ => .of_eq rfl rfl rfl⟩
  | begin => exact ⟨trivial, fun j _ => .of_eq rfl rfl rfl⟩
  | giveUp => exact ⟨trivial, fun j _ => .of_eq rfl rfl rfl⟩
  | @select ids hsel hfree =>
    refine ⟨fun id invite ph hitem => ?_, fun j hj => ⟨fun _ c hc => ⟨c, hc, rfl⟩, fun id h => ?_,
      fun row h _ => ⟨row, h, rfl, rfl⟩⟩⟩
    · simp only at hitem
      split_ifs at hitem with hid
      obtain ⟨row, hrow, heq⟩ := Option.map_eq_some_iff.mp hitem
      cases heq
      have hrid : invite.id = id := by simpa using List.find?_some hrow
      exact ⟨hid, if_pos hid, ⟨invite, List.mem_of_find?_eq_some hrow, hrid, rfl⟩, hrid, by simp⟩
    · have hid : id ∉ ids := fun hid => by simp [hfree id hid] at h
      simpa [hid] using h
  | @item ids item aborted id invite ph e s' ph' hitem hs =>
    obtain ⟨-, -, -, hk, hsend⟩ := itemStep_right hs
    refine ⟨fun id' invite' q hq => ?_, fun j _ => hk j⟩
    by_cases hid : id' = id
    · subst hid
      simp only [Function.update_self, Option.some.injEq, Prod.mk.injEq] at hq
      obtain ⟨rfl, rfl⟩ := hq
      obtain ⟨hmem, hlock, hrow, hinvite, hold⟩ := (hr id' invite ph hitem).mono (hk i)
      exact ⟨hmem, hlock, hrow, hinvite, fun p hp => hinvite ▸ hsend p hp⟩
    · rw [Function.update_of_ne hid] at hq
      exact (hr id' invite' q hq).mono (hk i)
  | commit _ =>
    exact ⟨trivial, fun j hj => commit_keeps (fun id p hp => (hr id p.1 p.2 hp).lock) hj k⟩
  | rollback _ =>
    refine ⟨trivial, fun j hj => ⟨fun _ c hc => ⟨c, hc, rfl⟩, fun id h => ?_,
      fun row h _ => ⟨row, h, rfl, rfl⟩⟩⟩
    simp only [Shared.setCheckingFailed, Shared.unlock, h, Option.some.injEq, hj, if_false]

/-- What each task knows stays true whatever the others do. -/
def rightOutline (cfg : AppConfig) (inst : ι → κ) : Outline (machine cfg inst) anyStep where
  inv _ := True
  at_ := RightTask
  task c d i e _ _ hat h := by
    cases step_cases h with
    | @handler _ event phase e s phase' hi hs =>
      obtain ⟨hr, hk⟩ := handlerStep_right hs i
      exact ⟨trivial, by simpa using hr, fun j _ => (hat j).mono (hk j)⟩
    | @failed _ phase e s phase' hi hs =>
      have hri := hat i
      rw [hi] at hri
      obtain ⟨hr, hk⟩ := failedStep_right hri hs
      exact ⟨trivial, by simpa using hr, fun j hj => (hat j).mono (hk j hj)⟩
    | watched hi ht =>
      exact ⟨trivial, by simp [RightTask], fun j _ => (hat j).mono (touches_keeps ht.touches j)⟩
  env c d e _ _ hat h := by
    refine ⟨trivial, ?_⟩
    have hkeep : ∀ s : Shared ι κ, (∀ j, Keeps j c.shared s) → ∀ j, RightTask j s (c.task j) :=
      fun s hk j => (hat j).mono (hk j)
    cases step_cases h with
    | @execute k txHash command hk _ _ _ =>
      refine hkeep _ fun j => ⟨fun k' q hq => ?_, fun _ h => h, fun row h _ => ⟨row, h, rfl, rfl⟩⟩
      by_cases hkk : k' = k
      · subst hkk
        obtain rfl := Option.some.inj (hk.symm.trans hq)
        exact ⟨_, List.getElem?_set_self (List.getElem?_eq_some_iff.mp hk).1, rfl⟩
      · exact ⟨q, (List.getElem?_set_ne (Ne.symm hkk)).trans hq, rfl⟩
    | mine _ => exact hkeep _ fun j => .of_eq rfl rfl rfl
    | @restart k =>
      intro j
      change RightTask j _ (if inst j = k then (c.task j).stop else c.task j)
      split_ifs with hj
      · exact rightTask_stop _ _ _
      · have hk : Keeps j c.shared (c.shared.restart inst k) := by
          refine ⟨fun _ q hq => ⟨q, hq, rfl⟩, fun id h => ?_, fun row h _ => ⟨row, h, rfl, rfl⟩⟩
          simp [Shared.restart, h, hj]
        exact (hat j).mono hk
    | tick => exact hkeep _ fun j => .of_eq rfl rfl rfl

end Steps

end Komenci.Rewards
