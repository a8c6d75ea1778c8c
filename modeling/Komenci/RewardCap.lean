import Komenci.RewardPaidOnce
import Komenci.RewardRows

/-! The weekly cap bounds the paid invites of an inviter in a run where no two events of one
inviter are between the check and the save, and the check finds no Failed row of the week. -/
namespace Komenci.Rewards
open Interleaving

variable {ι κ : Type}

/-- The rows of an inviter that were created in a week, in whatever state. -/
def weekRows (s : Shared ι κ) (inviter week : ℕ) : List InviteReward :=
  s.rows.filter fun row => row.inviter = inviter && weekOf row.createdAt = week

/-- An event of the inviter has passed its checks and its row is not saved yet. -/
def Task.saves (inviter : ℕ) : Task → Bool
  | .handleWithdrawalEvent event (.save _ _) => event.recipient = inviter
  | _ => false

/-- The check sees all that counts: no other event of the inviter is about to be saved, and no
row of the week is Failed, so that it would be left out. -/
def SeesAll (c : Config (Shared ι κ) ι Task) (inviter : ℕ) : Prop :=
  (∀ j, (c.task j).saves inviter = false) ∧
    ∀ row ∈ weekRows c.shared inviter (weekOf c.shared.now), row.state ≠ .Failed

/-- Where the weekly limit lets an event through, it has seen all that counts. -/
def CheckedAlone (c : Config (Shared ι κ) ι Task) : Label ι (Event κ) → Prop
  | .task i (.handler (.conditions _ _)) =>
    match c.task i with
    | .handleWithdrawalEvent event (.conditions _ _) =>
      inviterHasNotReachedWeeklyLimit c.shared event.recipient = true → SeesAll c event.recipient
    | _ => True
  | _ => True

instance [Fintype ι] (c : Config (Shared ι κ) ι Task) (inviter : ℕ) :
    Decidable (SeesAll c inviter) := inferInstanceAs (Decidable (_ ∧ _))

instance [Fintype ι] (c : Config (Shared ι κ) ι Task) (l : Label ι (Event κ)) :
    Decidable (CheckedAlone c l) := by
  unfold CheckedAlone
  induction l using Label.casesOn with
  | env e => infer_instance
  | task i e =>
    induction e using Event.casesOn with
    | handler e =>
      induction e using HandlerEvent.casesOn with
      | conditions inviterVerified inviteeVerified =>
        dsimp only
        generalize c.task i = t
        induction t using Task.casesOn with
        | handleWithdrawalEvent event phase => induction phase using HandlerPhase.casesOn <;> infer_instance
        | _ => infer_instance
      | _ => infer_instance
    | _ => infer_instance

def RewardStatus.paid : RewardStatus → Bool
  | .Submitted | .Completed => true
  | _ => false

section Steps
variable [DecidableEq ι] [DecidableEq κ] {cfg : AppConfig} {inst : ι → κ}
  {c d : Config (Shared ι κ) ι Task} {l : Label ι (Event κ)}

omit [DecidableEq ι] [DecidableEq κ] in
lemma weekRows_rewrite {s s' : Shared ι κ} {g : ℕ → Option RowUpdate}
    (h : s'.rows = s.rows.map (rewrite g)) (inviter week : ℕ) :
    (weekRows s' inviter week).length = (weekRows s inviter week).length := by
  simp [weekRows, h, List.filter_map, Function.comp_def]

omit [DecidableEq ι] [DecidableEq κ] in
lemma weekRows_save {s s' : Shared ι κ} {row : InviteReward} (h : s'.rows = s.rows ++ [row])
    (inviter week : ℕ) : (weekRows s' inviter week).length = (weekRows s inviter week).length +
      if row.inviter = inviter ∧ weekOf row.createdAt = week then 1 else 0 := by
  by_cases hrow : row.inviter = inviter ∧ weekOf row.createdAt = week
  · simp [weekRows, h, hrow]
  · rw [not_and_or] at hrow
    rcases hrow with hrow | hrow <;> simp [weekRows, h, hrow]

omit [DecidableEq ι] [DecidableEq κ] in
/-- What the check has counted, where no row was left out. -/
lemma weekRows_of_check {inviter : ℕ} (h : inviterHasNotReachedWeeklyLimit c.shared inviter = true)
    (hsees : SeesAll c inviter) :
    (weekRows c.shared inviter (weekOf c.shared.now)).length < WEEKLY_INVITE_LIMIT := by
  refine lt_of_le_of_lt ?_ (of_decide_eq_true h)
  apply List.Sublist.length_le
  have hfailed : weekRows c.shared inviter (weekOf c.shared.now) =
      (weekRows c.shared inviter (weekOf c.shared.now)).filter fun row => row.state ≠ .Failed :=
    (List.filter_eq_self.mpr fun row hrow => decide_eq_true (hsees.2 row hrow)).symm
  rw [hfailed, weekRows, List.filter_filter]
  apply List.monotone_filter_right
  intro row hrow
  simp only [Bool.and_eq_true, decide_eq_true_eq] at hrow ⊢
  refine ⟨⟨hrow.2.1, hrow.1⟩, ?_⟩
  have hweek : weekOf c.shared.now * (7 * dayMs) ≤ row.createdAt + 3 * dayMs :=
    hrow.2.2 ▸ Nat.div_mul_le_self _ _
  unfold startOfWeek
  omega

omit [DecidableEq ι] in
/-- An event gets to the save through the check. -/
lemma handleWithdrawalEvent_save {k : κ} {event : EventLog ℕ ℕ} {s : Shared ι κ}
    {phase : HandlerPhase} {e : HandlerEvent} {r : Shared ι κ × HandlerPhase}
    {inviteToken : StableToken} {invitee : ℕ}
    (h : handleWithdrawalEvent cfg k event s phase e = some r)
    (hr : r.2 = .save inviteToken invitee) :
    phase = .conditions inviteToken invitee ∧ (∃ v w, e = .conditions v w) ∧
      inviterHasNotReachedWeeklyLimit s event.recipient = true ∧ r.1 = s := by
  unfold handleWithdrawalEvent at h
  split at h
  case h_3 =>
    split_ifs at h with hmet
    · cases h
      cases hr
      simp only [Bool.and_eq_true] at hmet
      exact ⟨rfl, ⟨_, _, rfl⟩, hmet.1.2, rfl⟩
    · cases h
      cases hr
  case h_1 => split at h <;> cases h <;> cases hr
  case h_2 =>
    split at h
    · cases h
      cases hr
    · split_ifs at h <;> cases h <;> cases hr
  case h_4 =>
    simp only at h
    split_ifs at h <;> cases h <;> cases hr
  case h_5 =>
    split at h
    · cases h
    · cases h
      cases hr
    · split_ifs at h
      cases h
      cases hr
    · cases h
      cases hr
  all_goals
    cases h <;> cases hr

omit [DecidableEq ι] [DecidableEq κ] in
lemma saves_phase {t : Task} {inviter : ℕ} (h : t.saves inviter = true) :
    ∃ event inviteToken invitee, t = .handleWithdrawalEvent event (.save inviteToken invitee) ∧
      event.recipient = inviter := by
  unfold Task.saves at h
  split at h
  · exact ⟨_, _, _, rfl, of_decide_eq_true h⟩
  · cases h

/-- A task that is about to save has been let through in this step, or is not the one that goes
on. -/
lemma step_saves {i : ι} {inviter : ℕ} (h : (machine cfg inst).step c l = some d)
    (hi : (d.task i).saves inviter = true) :
    ((c.task i).saves inviter = true ∧ ∀ e, l ≠ .task i e) ∨
    ∃ event inviteToken invitee v w, l = .task i (.handler (.conditions v w)) ∧
      c.task i = .handleWithdrawalEvent event (.conditions inviteToken invitee) ∧
      event.recipient = inviter ∧
      inviterHasNotReachedWeeklyLimit c.shared inviter = true ∧ d.shared = c.shared := by
  rcases Machine.step_cases h with ⟨j, e, r, rfl, hr, rfl⟩ | ⟨e, rfl, he⟩
  · by_cases hij : i = j
    · subst hij
      rw [Config.resume_self] at hi
      obtain ⟨event, inviteToken, invitee, hsave, rfl⟩ := saves_phase hi
      change segment cfg inst i e c.shared (c.task i) = some r at hr
      unfold segment at hr
      split at hr
      · rename_i event' phase htask
        split at hr
        · obtain ⟨q, hq, rfl⟩ := Option.map_eq_some_iff.mp hr
          simp only [Task.handleWithdrawalEvent.injEq] at hsave
          obtain ⟨rfl, hphase⟩ := hsave
          obtain ⟨rfl, ⟨v, w, rfl⟩, hlimit, hshared⟩ := handleWithdrawalEvent_save hq hphase
          exact .inr ⟨event', inviteToken, invitee, v, w, rfl, htask, rfl, hlimit, hshared⟩
        · cases hr
      · split at hr
        · obtain ⟨q, -, rfl⟩ := Option.map_eq_some_iff.mp hr
          cases hsave
        · cases hr
      · split at hr
        · obtain ⟨q, -, rfl⟩ := Option.map_eq_some_iff.mp hr
          cases hsave
        · cases hr
      · cases hr
    · rw [Config.resume_ne _ _ hij] at hi
      exact .inl ⟨hi, fun e' heq => hij (by cases heq; rfl)⟩
  · refine .inl ⟨?_, by simp⟩
    cases step_cases h with
    | @restart k =>
      simp only at hi
      split_ifs at hi
      · unfold Task.stop at hi
        split_ifs at hi
        · exact hi
        · cases hi
      · exact hi
    | _ => exact hi

/-- What the check and the saves leave of the limit. -/
structure Capped (c : Config (Shared ι κ) ι Task) : Prop where
  past : ∀ row ∈ c.shared.rows, row.createdAt ≤ c.shared.now
  cap : ∀ inviter week, (weekRows c.shared inviter week).length ≤ WEEKLY_INVITE_LIMIT
  room : ∀ i inviter, (c.task i).saves inviter = true → ∀ week, weekOf c.shared.now ≤ week →
    (weekRows c.shared inviter week).length < WEEKLY_INVITE_LIMIT
  alone : ∀ i j inviter, (c.task i).saves inviter = true → (c.task j).saves inviter = true → i = j

omit [DecidableEq ι] [DecidableEq κ] in
/-- There are no rows of a week to come. -/
lemma weekRows_later {s : Shared ι κ} (hpast : ∀ row ∈ s.rows, row.createdAt ≤ s.now)
    {inviter week : ℕ} (h : weekOf s.now < week) : weekRows s inviter week = [] := by
  apply List.filter_eq_nil_iff.mpr
  intro row hrow hweek
  simp only [Bool.and_eq_true, decide_eq_true_eq] at hweek
  have hle : weekOf row.createdAt ≤ weekOf s.now :=
    Nat.div_le_div_right (Nat.add_le_add_right (hpast row hrow) _)
  omega

omit [DecidableEq ι] in
lemma sendStep_now {k : κ} {invite : InviteReward} {isRetry : Bool} {s s' : Shared ι κ}
    {phase phase' : SendPhase} {e : SendEvent}
    (h : SendStep cfg k invite isRetry s phase e s' phase') : s'.now = s.now := by
  cases h <;> rfl

lemma step_now (h : (machine cfg inst).step c l = some d) : c.shared.now ≤ d.shared.now := by
  cases step_cases h with
  | handler _ hs =>
    cases hs with
    | send hs _ | thrown hs => exact (sendStep_now hs).ge
    | written hs _ => exact (sendStep_now hs).ge
    | _ => exact le_rfl
  | failed _ hs =>
    cases hs with
    | item _ hs =>
      cases hs with
      | send hs _ | settled hs => exact (sendStep_now hs).ge
      | _ => exact le_rfl
    | _ => exact le_rfl
  | watched _ hs => cases hs <;> exact le_rfl
  | tick => exact Nat.le_add_right _ _
  | _ => exact le_rfl

/-- Whoever is about to save after the step was so before, or has been let through and has seen
all that counts. -/
lemma saves_seen {i : ι} {inviter : ℕ} (hsees : CheckedAlone c l)
    (h : (machine cfg inst).step c l = some d) (hi : (d.task i).saves inviter = true) :
    ((c.task i).saves inviter = true ∧ ∀ e, l ≠ .task i e) ∨
      (∃ v w, l = .task i (.handler (.conditions v w))) ∧ SeesAll c inviter ∧
        (weekRows c.shared inviter (weekOf c.shared.now)).length < WEEKLY_INVITE_LIMIT ∧
        d.shared = c.shared := by
  rcases step_saves h hi with hbefore |
    ⟨event, inviteToken, invitee, v, w, rfl, htask, rfl, hlimit, hshared⟩
  · exact .inl hbefore
  · simp only [CheckedAlone, htask] at hsees
    exact .inr ⟨⟨v, w, rfl⟩, hsees hlimit, weekRows_of_check hlimit (hsees hlimit), hshared⟩

/-- A step that sees all that counts keeps the limit. -/
lemma step_capped (hc : Capped c) (hsees : CheckedAlone c l)
    (h : (machine cfg inst).step c l = some d) : Capped d := by
  have hnow := step_now h
  have hweek : weekOf c.shared.now ≤ weekOf d.shared.now :=
    Nat.div_le_div_right (Nat.add_le_add_right hnow _)
  have halone : ∀ i j inviter, (d.task i).saves inviter = true →
      (d.task j).saves inviter = true → i = j := by
    intro i j inviter hi hj
    rcases saves_seen hsees h hi with ⟨hi, hli⟩ | ⟨⟨v, w, hl⟩, hsees', -⟩ <;>
      rcases saves_seen hsees h hj with ⟨hj, hlj⟩ | ⟨⟨v', w', hl'⟩, hsees'', -⟩
    · exact hc.alone i j inviter hi hj
    · rw [hsees''.1 i] at hi
      cases hi
    · rw [hsees'.1 j] at hj
      cases hj
    · rw [hl] at hl'
      cases hl'
      rfl
  rcases step_rows (step_cases h) with ⟨row, hsave, hrows⟩ | ⟨g, hrows, -⟩
  · obtain ⟨i, event, inviteToken, invitee, rfl, htask, hrow⟩ := hsave.step
    have hinviter : row.inviter = event.recipient := by rw [hrow]
    have hcreated : row.createdAt = c.shared.now := by rw [hrow]
    have hsaves : (c.task i).saves row.inviter = true := by simp [htask, Task.saves, hinviter]
    refine ⟨fun r hr => ?_, fun inviter week => ?_, fun j inviter hj week hle => ?_, halone⟩
    · rw [hrows, List.mem_append, List.mem_singleton] at hr
      rcases hr with hr | rfl
      · exact (hc.past r hr).trans hnow
      · exact hcreated.le.trans hnow
    · rw [weekRows_save hrows]
      split_ifs with hsame
      · exact hsame.1 ▸ hc.room i row.inviter hsaves week (hsame.2 ▸ hcreated ▸ le_rfl)
      · exact hc.cap inviter week
    · obtain ⟨hj, hne⟩ : (c.task j).saves inviter = true ∧
          ∀ e, (.task i (.handler (.save row.id)) : Label ι (Event κ)) ≠ .task j e := by
        rcases saves_seen hsees h hj with hj | ⟨⟨v, w, hl⟩, -⟩
        · exact hj
        · cases hl
      have hother : row.inviter ≠ inviter := by
        rintro rfl
        obtain rfl := hc.alone i j row.inviter hsaves hj
        exact hne _ rfl
      rw [weekRows_save hrows, if_neg (fun hsame => hother hsame.1)]
      exact hc.room j inviter hj week (hweek.trans hle)
  · refine ⟨fun r hr => ?_, fun inviter week => ?_, fun j inviter hj week hle => ?_, halone⟩
    · rw [hrows] at hr
      obtain ⟨r', hr', rfl⟩ := List.mem_map.mp hr
      exact (rewrite_createdAt g r').trans_le ((hc.past r' hr').trans hnow)
    · rw [weekRows_rewrite hrows]
      exact hc.cap inviter week
    · rcases saves_seen hsees h hj with ⟨hj, -⟩ | ⟨-, -, hroom, hshared⟩
      · rw [weekRows_rewrite hrows]
        exact hc.room j inviter hj week (hweek.trans hle)
      · rw [hshared] at hle ⊢
        rcases hle.eq_or_lt with rfl | hlt
        · exact hroom
        · rw [weekRows_later hc.past hlt]
          exact Nat.succ_pos _

/-- On the way from `c` to `d` the row was in state Submitted or Completed. -/
def EverPaid (cfg : AppConfig) (inst : ι → κ)
    (P : Config (Shared ι κ) ι Task → Label ι (Event κ) → Prop)
    (c d : Config (Shared ι κ) ι Task) (inviter week id : ℕ) : Prop :=
  ∃ e, Run (machine cfg inst) P c e ∧ Run (machine cfg inst) P e d ∧ ∃ row ∈ e.shared.rows,
    row.id = id ∧ row.inviter = inviter ∧ weekOf row.createdAt = week ∧ row.state.paid = true

lemma run_capped (hinit : Initial c) (hrun : Run (machine cfg inst) CheckedAlone c d) :
    Capped d := by
  have hnone : ∀ i inviter, (c.task i).saves inviter ≠ true := by
    intro i inviter hi
    obtain ⟨_, _, _, htask, -⟩ := saves_phase hi
    have hfresh := hinit.task i
    rw [htask] at hfresh
    cases hfresh
  refine hrun.invariant (J := Capped) (fun c l d hc hp hs => step_capped hc hp hs) ⟨?_, ?_, ?_, ?_⟩
  · simp [hinit.rows]
  · simp [weekRows, hinit.rows]
  · exact fun i inviter hi => absurd hi (hnone i inviter)
  · exact fun i _ inviter hi => absurd hi (hnone i inviter)

/-- No inviter has more rows of a week that were ever paid than the limit, in a run where the
check sees all that counts. -/
theorem weekly_cap (cfg : AppConfig) (inst : ι → κ) (hinit : Initial c)
    (hrun : Run (machine cfg inst) CheckedAlone c d) (inviter week : ℕ) (ids : List ℕ)
    (hids : ids.Nodup) (hpaid : ∀ id ∈ ids, EverPaid cfg inst CheckedAlone c d inviter week id) :
    ids.length ≤ WEEKLY_INVITE_LIMIT := by
  have hcap := (run_capped hinit hrun).cap
  have hsub : ids ⊆ (weekRows d.shared inviter week).map InviteRewardRow.id := by
    intro id hid
    obtain ⟨e, -, hed, row, hrow, hrid, hinviter, hweek, -⟩ := hpaid id hid
    obtain ⟨row', hmem, hid', hinviter', hcreated'⟩ := run_row_stays hrow hed
    refine List.mem_map.mpr ⟨row', List.mem_filter.mpr ⟨hmem, ?_⟩, hid'.trans hrid⟩
    simp [hinviter', hinviter, hcreated', hweek]
  have hlen := (hids.subperm hsub).length_le
  rw [List.length_map] at hlen
  exact hlen.trans (hcap inviter week)

end Steps

section Samples

/-- The whole way of one withdrawal event to a submitted transfer, in three parts. -/
def checked {n : ℕ} (i : Fin n) : List (Label (Fin n) (Event Unit)) :=
  [.task i (.handler .resume), .task i (.handler (.transaction (some i) 9)),
    .task i (.handler (.conditions true true))]

def submitted {n : ℕ} (i : Fin n) : List (Label (Fin n) (Event Unit)) :=
  [.task i (.handler (.save i)), .task i (.handler (.send .prepared)), .env (.execute i (500 + i)),
    .task i (.handler (.send .reply)), .task i (.handler (.send .write))]

/-- Withdrawal events of one inviter. -/
def manyInvites (n : ℕ) : Config (Shared (Fin n) Unit) (Fin n) Task :=
  ⟨.empty, fun i => .handleWithdrawalEvent ⟨i, i, 1, 7⟩ .start⟩

lemma manyInvites_initial (n : ℕ) : Initial (manyInvites n) := ⟨rfl, rfl, fun _ => rfl⟩

theorem weekly_cap_one :
    ∃ d, Run (machine sampleConfig fun _ => ()) CheckedAlone (manyInvites 1) d ∧
      EverPaid sampleConfig (fun _ => ()) CheckedAlone (manyInvites 1) d 7 0 0 ∧
      [0].length ≤ WEEKLY_INVITE_LIMIT := by
  obtain ⟨d, hrun, hd⟩ := Run.exists_of_exec (M := machine sampleConfig fun _ => ())
    (P := CheckedAlone) (c := manyInvites 1)
    (q := fun d => ∃ row ∈ d.shared.rows,
      row.id = 0 ∧ row.inviter = 7 ∧ weekOf row.createdAt = 0 ∧ row.state.paid = true)
    (checked 0 ++ submitted 0) (by decide +kernel)
  have hpaid : EverPaid sampleConfig (fun _ => ()) CheckedAlone (manyInvites 1) d 7 0 0 :=
    ⟨d, hrun, .refl d, hd⟩
  refine ⟨d, hrun, hpaid, weekly_cap sampleConfig _ (manyInvites_initial 1) hrun 7 0 [0]
    (List.nodup_singleton 0) fun id hid => ?_⟩
  rw [List.mem_singleton.mp hid]
  exact hpaid

/-- Twenty-one events are checked before any of them is saved. -/
theorem weekly_cap_exceeded :
    Initial (manyInvites 21) ∧
      ∃ d, Run (machine sampleConfig fun _ => ()) anyStep (manyInvites 21) d ∧
        (d.shared.rows.filter fun row =>
          row.inviter = 7 && weekOf row.createdAt = 0 && row.state.paid).length = 21 ∧
        (d.shared.rows.map InviteRewardRow.id).Nodup := by
  refine ⟨manyInvites_initial 21, Run.exists_of_exec
    ((List.finRange 21).flatMap checked ++ (List.finRange 21).flatMap submitted) ?_⟩
  decide +kernel

end Samples

end Komenci.Rewards
