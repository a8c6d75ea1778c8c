import Komenci.RewardCustody
import Komenci.RewardRetries
import Komenci.RewardWatching

/-! A row that is Completed or DeadLettered keeps its state, in a run where a row is resent
only when its handler has written and no instance watches an earlier transfer of it. -/
namespace Komenci.Rewards
open Interleaving

variable {ι κ : Type}

def ItemPhase.hold : ItemPhase → Hold
  | .status | .settled none => .locked
  | .complete | .settled (some ⟨.Completed, none⟩) => .completing
  | .settled (some ⟨.Submitted, some txHash⟩) => .submitted txHash
  | .send _ | .settled (some _) => .resending

def Task.hold (id : ℕ) : Task → Hold
  | .handleWithdrawalEvent _ (.send invite _) => if invite.id = id then .handling else .off
  | .checkFailedInvites (.running _ item _) => (item id).elim .off fun p => p.2.hold
  | _ => .off

def holds (c : Config (Shared ι κ) ι Task) (i : ι) (id : ℕ) : Hold := (c.task i).hold id

/-- A row is resent only when nothing earlier can still be written for it. -/
def Undisturbed (c : Config (Shared ι κ) ι Task) : Label ι (Event κ) → Prop
  | .task i (.failed (.item id .status)) =>
    match c.task i with
    | .checkFailedInvites (.running _ item _) =>
      match item id with
      | some (invite, .status) =>
        invite.rewardTxHash.elim .Failed (getTxStatus c.shared) = .Failed →
          (∀ j, (c.task j).handles id = false) ∧ Unwatched c.shared id
      | _ => True
    | _ => True
  | _ => True

instance [Fintype κ] (s : Shared ι κ) (id : ℕ) : Decidable (Unwatched s id) :=
  inferInstanceAs (Decidable (∀ k, ∀ w ∈ s.watchedInvites k, w.inviteId ≠ id))

instance [Fintype ι] [Fintype κ] (c : Config (Shared ι κ) ι Task) (l : Label ι (Event κ)) :
    Decidable (Undisturbed c l) := by
  unfold Undisturbed
  induction l using Label.casesOn with
  | env e => infer_instance
  | task i e =>
    induction e using Event.casesOn with
    | failed e =>
      induction e using FailedEvent.casesOn with
      | item id e =>
        induction e using ItemEvent.casesOn with
        | status =>
          dsimp only
          generalize c.task i = t
          induction t using Task.casesOn with
          | checkFailedInvites phase =>
            induction phase using FailedPhase.casesOn with
            | running ids item seen =>
              dsimp only
              generalize item id = entry
              induction entry using Option.casesOn with
              | none => infer_instance
              | some entry =>
                induction entry using Prod.casesOn with
                | mk invite phase => induction phase using ItemPhase.casesOn <;> infer_instance
            | _ => infer_instance
          | _ => infer_instance
        | _ => infer_instance
      | _ => infer_instance
    | _ => infer_instance

/-- The service before anything has happened. -/
structure Started (c : Config (Shared ι κ) ι Task) : Prop extends Initial c where
  watchedInvites : ∀ k, c.shared.watchedInvites k = []

section Steps
variable [DecidableEq ι] [DecidableEq κ] {cfg : AppConfig} {inst : ι → κ}
  {c d : Config (Shared ι κ) ι Task} {l : Label ι (Event κ)} {i : ι} {s : Shared ι κ} {t : Task}

omit [DecidableEq κ] in
/-- What holds of the task that goes on and of the others holds of all. -/
lemma resume_holds {Q : ι → ℕ → Hold → Prop} (hself : ∀ id, Q i id (t.hold id))
    (hother : ∀ j id, j ≠ i → Q j id (holds c j id)) (j : ι) (id : ℕ) :
    Q j id (holds (c.resume i (s, t)) j id) :=
  Config.forall_resume (Q := fun j (task : Task) => ∀ id, Q j id (task.hold id)) hself
    (fun j hj id => hother j id hj) j id

omit [DecidableEq κ] in
/-- A task goes on, and writes no row. -/
lemma Custody.resume (hc : Custody c.shared (holds c)) (hrows : s.rows = c.shared.rows)
    (hreceipts : s.receipts = c.shared.receipts)
    (hwatched : s.watchedInvites = c.shared.watchedInvites)
    (hlocks : ∀ j id, j ≠ i → c.shared.locks id = some j → s.locks id = some j)
    (hlock : ∀ id, (t.hold id).locks = true → s.locks id = some i)
    (hmoves : ∀ id, t.hold id = .off ∨ Moves c.shared (holds c) id (holds c i id) (t.hold id)) :
    Custody s (holds (c.resume i (s, t))) := by
  apply hc.quiet hrows
  · exact fun h b hb => hreceipts ▸ hb
  · exact fun k => hwatched ▸ List.Sublist.refl _
  · apply resume_holds (Q := fun j id h => h.locks = true → s.locks id = some j) hlock
    exact fun j id hji h => hlocks j id hji (hc.lock j id h)
  · apply resume_holds (Q := fun j id h => h = .off ∨ Moves c.shared (holds c) id (holds c j id) h)
      hmoves
    exact fun j id _ => .inr (.inl rfl)

omit [DecidableEq ι] in
/-- A send writes nothing before it is finished, and watches a transfer when it is submitted. -/
lemma sendStep_watched {k : κ} {invite : InviteReward} {isRetry : Bool} {s s' : Shared ι κ}
    {phase phase' : SendPhase} {e : SendEvent}
    (h : SendStep cfg k invite isRetry s phase e s' phase') :
    (s'.watchedInvites = s.watchedInvites ∧ ∀ u, phase' = .finished (some u) →
      u = ⟨if isRetry then .DeadLettered else .Failed, none⟩) ∨
    ∃ txHash, s' = s.watch k ⟨invite.id, txHash, isRetry⟩ ∧
      phase' = .finished (some ⟨.Submitted, some txHash⟩) := by
  cases h with
  | failed =>
    refine .inl ⟨rfl, ?_⟩
    rintro _ ⟨⟩
    rfl
  | submitted => exact .inr ⟨_, rfl, rfl⟩
  | _ => exact .inl ⟨rfl, by simp⟩

lemma handler_hold {event : EventLog ℕ ℕ} {phase : HandlerPhase}
    (h : ∀ invite p, phase ≠ .send invite p) (id : ℕ) :
    (Task.handleWithdrawalEvent event phase).hold id = .off := by
  cases phase with
  | send invite p => exact absurd rfl (h invite p)
  | _ => rfl

omit [DecidableEq κ] in
/-- The handler writes the row it has made and is done with it. -/
lemma Custody.handled (hc : Custody c.shared (holds c)) {event : EventLog ℕ ℕ}
    {invite : InviteReward} {phase : SendPhase}
    (hi : c.task i = .handleWithdrawalEvent event (.send invite phase))
    (hfree : c.shared.locks invite.id = none) (u : RowUpdate) :
    Custody (c.shared.update invite.id u) (holds (c.resume i (c.shared.update invite.id u,
      .handleWithdrawalEvent event .finished))) ∧
    Unwatched c.shared invite.id ∧
    (∀ j, (holds (c.resume i (c.shared.update invite.id u,
      .handleWithdrawalEvent event .finished)) j invite.id) = .off) ∧
    ∃ row ∈ c.shared.rows, row.id = invite.id := by
  have hself : holds c i invite.id = .handling := by simp [holds, hi, Task.hold]
  obtain ⟨row, hrow, hid, -, hright⟩ := hc.held i invite.id (by simp [hself])
  rw [hself] at hright
  have hun : Unwatched c.shared invite.id := hid ▸ hright.2
  have hothers : ∀ j, j ≠ i → holds c j invite.id = .off := by
    intro j hji
    by_contra hne
    have hj := hc.eq_handling (by simp [hfree]) hne
    exact hji (hc.handler j i _ hj (by simp [hself, Hold.decided]))
  have hoff : ∀ j, (holds (c.resume i (c.shared.update invite.id u,
      .handleWithdrawalEvent event .finished)) j invite.id) = .off := by
    intro j
    by_cases hji : j = i
    · subst hji
      simp [holds, Task.hold]
    · simpa [holds, hji] using hothers j hji
  refine ⟨?_, hun, hoff, row, hrow, hid⟩
  apply hc.change (update_rewrite c.shared invite.id u)
  · exact fun _ _ h => h
  · exact fun _ => List.Sublist.refl _
  · apply resume_holds (Q := fun j id h => h.locks = true → c.shared.locks id = some j)
    · exact fun id h => by cases h
    · exact fun j id _ h => hc.lock j id h
  · intro j id
    by_cases hid : id = invite.id
    · exact .inl (hid ▸ hoff j)
    · by_cases hji : j = i
      · subst hji
        exact .inl (by simp [holds, Task.hold])
      · exact .inr ⟨if_neg hid, .inl (by simp [holds, hji])⟩
  · intro k w hw r hr hrid v hv _
    split_ifs at hv with hid
    exact absurd (hrid.symm.trans hid) (hun k w hw)

lemma handler_custody {event : EventLog ℕ ℕ} {phase phase' : HandlerPhase} {e : HandlerEvent}
    (hc : Custody c.shared (holds c)) (hi : c.task i = .handleWithdrawalEvent event phase)
    (h : HandlerStep cfg (inst i) event c.shared phase e s phase') :
    Custody s (holds (c.resume i (s, .handleWithdrawalEvent event phase'))) := by
  cases h with
  | quiet _ hne =>
    apply hc.resume rfl rfl rfl (fun _ _ _ h => h)
    · intro id h
      rw [handler_hold hne] at h
      cases h
    · exact fun id => .inl (handler_hold hne id)
  | @save inviteToken invitee row hrow hid _ =>
    refine hc.save (i := i) (by rfl) (by rfl) (by rfl) (by rfl) hid (by rw [hrow]; rfl)
      (by rw [hrow]) ?_
    apply resume_holds (Q := fun j id h => h = holds c j id ∨ j = i ∧ id = row.id ∧ h = .handling)
    · intro id
      by_cases hrid : row.id = id
      · exact .inr ⟨rfl, hrid.symm, by simp [Task.hold, hrid]⟩
      · exact .inl (by simp [holds, hi, Task.hold, hrid])
    · exact fun j id _ => .inl rfl
  | @send invite p e _ p' hs hne =>
    obtain ⟨hrows, hlocks, hreceipts, -, -⟩ := sendStep_right hs
    rcases sendStep_watched hs with ⟨hwatched, -⟩ | ⟨txHash, -, hp'⟩
    · apply hc.resume hrows hreceipts hwatched (fun _ _ _ h => hlocks ▸ h)
      · intro id h
        simp only [Task.hold] at h
        split_ifs at h <;> cases h
      · intro id
        exact .inr (.inl (by simp [holds, hi, Task.hold]))
    · exact absurd hp' (hne _)
  | @thrown invite p e _ hs =>
    obtain ⟨hrows, hlocks, hreceipts, -, -⟩ := sendStep_right hs
    rcases sendStep_watched hs with ⟨hwatched, -⟩ | ⟨txHash, -, hp'⟩
    · apply hc.resume hrows hreceipts hwatched (fun _ _ _ h => hlocks ▸ h)
      · exact fun id h => by cases h
      · exact fun id => .inl rfl
    · cases hp'
  | @written invite p e s u hs hfree =>
    obtain ⟨hrows, hlocks, hreceipts, -, -⟩ := sendStep_right hs
    obtain ⟨hcustody, hun, hoff, row, hrow, hid⟩ := hc.handled hi (hlocks ▸ hfree) u
    rcases sendStep_watched hs with ⟨hwatched, -⟩ | ⟨txHash, rfl, hp'⟩
    · apply hcustody.quiet
      · simp only [Shared.update, hrows]
      · exact fun h b hb => by simpa [Shared.update, hreceipts] using hb
      · exact fun k => by simp [Shared.update, hwatched]
      · intro j id h
        have hlock := hcustody.lock j id h
        simpa [Shared.update, hlocks] using hlock
      · exact fun j id => .inr (.inl rfl)
    · cases hp'
      have hmem : row.update ⟨.Submitted, some txHash⟩ ∈
          (c.shared.update invite.id ⟨.Submitted, some txHash⟩).rows := by
        exact List.mem_map.mpr ⟨row, hrow, if_pos hid⟩
      refine hcustody.watch (k := inst i) (w := ⟨invite.id, txHash, false⟩) hmem hid ?_ hun ?_
      · exact ⟨.inl rfl, fun h => by cases h⟩
      · intro j hj
        rw [hoff j] at hj
        cases hj

omit [DecidableEq κ] in
/-- What a pass of `checkFailedInvites` has to do with its rows when one of them goes on. -/
lemma item_hold {ids : List ℕ} {item : ℕ → Option (InviteReward × ItemPhase)} {id : ℕ}
    {invite : InviteReward} {phase : ItemPhase} {aborted : Bool} (id' : ℕ) :
    (Task.checkFailedInvites (.running ids (Function.update item id (some (invite, phase)))
      aborted)).hold id' = if id' = id then phase.hold else (item id').elim .off fun p => p.2.hold := by
  by_cases hid : id' = id
  · subst hid
    simp [Task.hold]
  · simp [Task.hold, hid]

lemma item_locks (phase : ItemPhase) : phase.hold.locks = true := by
  unfold ItemPhase.hold
  split <;> rfl

lemma hold_handles {id : ℕ} (h : t.hold id = .handling) : t.handles id = true := by
  unfold Task.hold at h
  split at h
  · split_ifs at h with hid
    simpa [Task.handles] using hid
  · rename_i item _
    cases hitem : item id with
    | none => simp [hitem] at h
    | some p =>
      have hlocks := item_locks p.2
      simp only [hitem, Option.elim_some] at h
      simp [h, Hold.locks] at hlocks
  · cases h

section Item
variable {ids : List ℕ} {item : ℕ → Option (InviteReward × ItemPhase)} {aborted aborted' : Bool}
  {id : ℕ} {invite : InviteReward} {phase phase' : ItemPhase}

omit [DecidableEq κ] in
/-- A pass goes on with one of its rows, and writes none. -/
lemma Custody.item_resume (hc : Custody c.shared (holds c))
    (hi : c.task i = .checkFailedInvites (.running ids item aborted))
    (hself : holds c i id = phase.hold) (hlock : c.shared.locks id = some i)
    (hrows : s.rows = c.shared.rows) (hreceipts : s.receipts = c.shared.receipts)
    (hlocks : s.locks = c.shared.locks) (hwatched : s.watchedInvites = c.shared.watchedInvites)
    (hmoves : Moves c.shared (holds c) id phase.hold phase'.hold) :
    Custody s (holds (c.resume i (s, .checkFailedInvites
      (.running ids (Function.update item id (some (invite, phase'))) aborted')))) := by
  apply hc.resume hrows hreceipts hwatched (fun _ _ _ h => hlocks ▸ h)
  · intro id' h
    rw [item_hold] at h
    rw [hlocks]
    split_ifs at h with hid
    · exact hid ▸ hlock
    · exact hc.lock i id' (by simpa [holds, hi, Task.hold] using h)
  · intro id'
    rw [item_hold]
    split_ifs with hid
    · subst hid
      exact .inr (hself ▸ hmoves)
    · exact .inr (.inl (by simp [holds, hi, Task.hold]))

omit [DecidableEq ι] [DecidableEq κ] in
/-- A row that a pass is going to write is no handler's any more. -/
lemma Custody.unhandled (hc : Custody c.shared (holds c)) (hself : holds c i id = phase.hold)
    (hdecided : phase.hold.decided = true) (j : ι) : holds c j id ≠ .handling := by
  intro hj
  have hji := hc.handler j i id hj (hself ▸ hdecided)
  have hlocks := item_locks phase
  rw [← hself, ← hji, hj] at hlocks
  cases hlocks

/-- The retry of a row is submitted, and its transfer is watched. -/
lemma Custody.resent (hc : Custody c.shared (holds c))
    (hi : c.task i = .checkFailedInvites (.running ids item aborted)) {p : SendPhase}
    (hself : holds c i invite.id = (ItemPhase.send p).hold)
    (hlock : c.shared.locks invite.id = some i) (k : κ) (txHash : ℕ) :
    Custody (c.shared.watch k ⟨invite.id, txHash, true⟩) (holds (c.resume i
      (c.shared.watch k ⟨invite.id, txHash, true⟩, .checkFailedInvites
        (.running ids (Function.update item invite.id
          (some (invite, .settled (some ⟨.Submitted, some txHash⟩)))) aborted')))) := by
  obtain ⟨row, hrow, hrid, hstate, hright⟩ := hc.held i invite.id (by simp [hself, ItemPhase.hold])
  rw [hself] at hright
  obtain ⟨hreverted, hun⟩ := hright
  have hunhandled := hc.unhandled hself (by rfl)
  have hsettled : Custody c.shared (holds (c.resume i (c.shared, .checkFailedInvites
      (.running ids (Function.update item invite.id
        (some (invite, .settled (some ⟨.Submitted, some txHash⟩)))) aborted')))) :=
    hc.item_resume hi hself hlock rfl rfl rfl rfl (.inr ⟨.inr ⟨rfl, hunhandled⟩, row, hrow, hrid,
      hstate, hreverted, fun k w hw hid => absurd hid (hun k w hw)⟩)
  refine hsettled.watch (k := k) (w := ⟨invite.id, txHash, true⟩) hrow hrid
    ⟨.inr hreverted, fun ht => ?_⟩ (hrid ▸ hun) fun j hj => ?_
  · rw [hstate] at ht
    cases ht
  · by_cases hji : j = i
    · subst hji
      simp [holds, item_hold, ItemPhase.hold]
    · simp only [holds, Config.resume_ne _ _ hji] at hj
      have hoff : holds c j invite.id ≠ .off := by
        intro hoff
        change (holds c j invite.id).decided = true at hj
        simp [hoff, Hold.decided] at hj
      exact absurd (hc.eq_handling (by simpa [hlock] using Ne.symm hji) hoff) (hunhandled j)

lemma item_custody {e : ItemEvent} (hc : Custody c.shared (holds c))
    (hright : ∀ j, RightTask j c.shared (c.task j))
    (hun : Undisturbed c (.task i (.failed (.item id e)) : Label ι (Event κ)))
    (hi : c.task i = .checkFailedInvites (.running ids item aborted))
    (hitem : item id = some (invite, phase))
    (h : ItemStep cfg (inst i) invite c.shared phase e s phase') :
    Custody s (holds (c.resume i (s, .checkFailedInvites
      (.running ids (Function.update item id (some (invite, phase'))) aborted')))) := by
  have hri := hright i
  rw [hi] at hri
  obtain ⟨-, hlock, ⟨row, hrow, hrid, hhash⟩, rfl, -⟩ := hri id invite phase hitem
  have hself : holds c i invite.id = phase.hold := by simp [holds, hi, Task.hold, hitem]
  have hne : holds c i invite.id ≠ .off := by
    intro hoff
    have hlocks := item_locks phase
    simp [← hself, hoff, Hold.locks] at hlocks
  have hstate := (hc.right hrow hrid hne).1
  obtain ⟨hrows, hlocks, hreceipts, -, -⟩ := itemStep_right h
  cases h with
  | @completed _ txHash hh hreceipt =>
    refine hc.item_resume hi hself hlock rfl rfl rfl rfl
      (.inr ⟨.inr ⟨rfl, fun j hj => ?_⟩, row, hrow, hrid, hstate, ?_⟩)
    · have hnone := (hc.right (i := j) hrow hrid (by simp [hj])).2
      rw [hj] at hnone
      rw [← hhash, hnone.1] at hh
      cases hh
    · exact ⟨txHash, hhash.trans hh, hreceipt⟩
  | @unsent _ _ u hp hu =>
    refine hc.item_resume hi hself hlock rfl rfl rfl rfl ?_
    cases u with
    | none => exact .inr ⟨.inl rfl, row, hrow, hrid, hstate, trivial⟩
    | some u =>
      obtain ⟨rfl, rfl⟩ := hu u rfl
      exact .inl rfl
  | retry hreverted =>
    simp only [Undisturbed, hi, hitem] at hun
    obtain ⟨hhandles, hunwatched⟩ := hun (status_reverted hreverted)
    refine hc.item_resume hi hself hlock rfl rfl rfl rfl
      (.inr ⟨.inr ⟨rfl, fun j hj => ?_⟩, row, hrow, hrid, hstate, ?_⟩)
    · have hnot := hhandles j
      rw [hold_handles hj] at hnot
      cases hnot
    · exact ⟨fun txHash hh => hreverted txHash (hhash ▸ hh), hrid.symm ▸ hunwatched⟩
  | @send p e _ p' hs hne =>
    rcases sendStep_watched hs with ⟨hwatched, -⟩ | ⟨txHash, -, hp'⟩
    · exact hc.item_resume hi hself hlock hrows hreceipts hlocks hwatched (.inl rfl)
    · exact absurd hp' (hne _)
  | @settled p e _ u hs =>
    rcases sendStep_watched hs with ⟨hwatched, hu⟩ | ⟨txHash, rfl, hu⟩
    · refine hc.item_resume hi hself hlock hrows hreceipts hlocks hwatched ?_
      cases u with
      | none => exact .inr ⟨.inl rfl, row, hrow, hrid, hstate, trivial⟩
      | some u =>
        obtain rfl := hu u rfl
        exact .inl rfl
    · cases hu
      exact hc.resent hi hself hlock (inst i) txHash

end Item

omit [DecidableEq ι] [DecidableEq κ] in
/-- A commit writes what its pass has settled for the rows it keeps locked. -/
lemma commit_follows {row : InviteReward} {w : WatchedInvite} {k : κ} {u : RowUpdate}
    (hright : (ItemPhase.settled (some u)).hold.Right s row) (hw : w ∈ s.watchedInvites k)
    (hid : row.id = w.inviteId) (hf : Follows s row w) : Follows s (row.update u) w := by
  unfold ItemPhase.hold at hright
  split at hright
  case h_4 hu =>
    cases hu
    obtain ⟨txHash, hh, hreceipt⟩ := hright
    refine ⟨hf.1, fun _ => ⟨rfl, ?_⟩⟩
    rcases hf.1 with hhash | hreverted
    · rw [hh] at hhash
      exact Option.some.inj hhash ▸ hreceipt
    · rw [hreverted txHash hh] at hreceipt
      cases hreceipt
  case h_5 hu =>
    cases hu
    have htx := hright.2 k w hw hid.symm
    exact ⟨.inl (by simp [InviteRewardRow.update, htx]), fun h => by cases h⟩
  case h_7 => exact absurd hid.symm (hright.2 k w hw)
  all_goals
    rename_i hu
    cases hu

lemma settled_decided (u : RowUpdate) : (ItemPhase.settled (some u)).hold.decided = true := by
  unfold ItemPhase.hold
  split <;> first | rfl | (rename_i hu; cases hu)

omit [DecidableEq κ] in
/-- What a query selects is locked and has not been decided yet. -/
lemma Custody.select (hc : Custody c.shared (holds c)) {ids : List ℕ}
    (hsel : Selects c.shared ids) (hfree : ∀ id ∈ ids, c.shared.locks id = none) :
    Custody { c.shared with locks := fun id => if id ∈ ids then some i else c.shared.locks id }
      (holds (c.resume i
        ({ c.shared with locks := fun id => if id ∈ ids then some i else c.shared.locks id },
          .checkFailedInvites (.running ids (fun id => if id ∈ ids then
            (c.shared.find id).map fun row => (row, .status) else none) false)))) := by
  apply hc.resume (by rfl) (by rfl) (by rfl)
  · intro j id _ hj
    have hid : id ∉ ids := fun hid => by simp [hfree id hid] at hj
    simpa [hid] using hj
  · intro id h
    by_cases hid : id ∈ ids
    · exact if_pos hid
    · simp [Task.hold, hid, Hold.locks] at h
  · intro id
    by_cases hid : id ∈ ids
    · obtain ⟨row, hrow, hrid⟩ := hsel.2.1 id hid
      simp only [Shared.candidates, List.mem_filter, Bool.and_eq_true, Bool.or_eq_true,
        decide_eq_true_eq] at hrow
      have hstate : row.state.terminal = false := by
        rcases hrow.2.1 with (hs | hs) | hs <;> rw [hs] <;> rfl
      cases hfind : c.shared.find id with
      | none => exact .inl (by simp [Task.hold, hid, hfind])
      | some invite =>
        refine .inr (.inr ⟨.inl (by simp [Task.hold, hid, hfind, ItemPhase.hold]), row, hrow.1, hrid,
          hstate, ?_⟩)
        simp [Task.hold, hid, hfind, ItemPhase.hold, Hold.Right]
    · exact .inl (by simp [Task.hold, hid])

/-- A commit writes the rows that its pass has settled, and unlocks them. -/
lemma Custody.commit (hc : Custody c.shared (holds c)) {ids : List ℕ}
    {item : ℕ → Option (InviteReward × ItemPhase)} {aborted : Bool}
    (hri : RightTask i c.shared (c.task i))
    (hi : c.task i = .checkFailedInvites (.running ids item aborted)) (k : κ) :
    Custody (({ c.shared with rows := commitRows c.shared.rows item }.unlock i).setCheckingFailed
      k false) (holds (c.resume i
        ((({ c.shared with rows := commitRows c.shared.rows item }.unlock i).setCheckingFailed
          k false), .checkFailedInvites .finished))) := by
  rw [hi] at hri
  have hself : ∀ {id u}, committed item id = some u →
      c.shared.locks id = some i ∧ holds c i id = (ItemPhase.settled (some u)).hold := by
    intro id u hu
    obtain ⟨invite, hitem⟩ := committed_item hu
    exact ⟨(hri id invite _ hitem).lock, by simp [holds, hi, Task.hold, hitem]⟩
  apply hc.change (g := committed item) (commit_rewrite _ _)
  · exact fun _ _ h => h
  · exact fun _ => List.Sublist.refl _
  · apply resume_holds (Q := fun j id h => h.locks = true → _ = some j)
    · exact fun id h => by cases h
    · intro j id hji h
      have hj := hc.lock j id h
      simp only [Shared.setCheckingFailed, Shared.unlock, hj, Option.some.injEq, hji, if_false]
  · apply resume_holds (Q := fun j id h => h = .off ∨
      committed item id = none ∧ Moves c.shared (holds c) id (holds c j id) h)
    · exact fun _ => .inl rfl
    · intro j id hji
      by_cases hoff : holds c j id = .off
      · exact .inl hoff
      refine .inr ⟨?_, .inl rfl⟩
      by_contra hsome
      obtain ⟨u, hu⟩ := Option.ne_none_iff_exists'.mp hsome
      obtain ⟨hlock, hhold⟩ := hself hu
      have hj := hc.eq_handling (by simpa [hlock] using Ne.symm hji) hoff
      exact hji (hc.handler j i id hj (hhold ▸ settled_decided u))
  · intro k w hw row hrow hid u hu hf
    obtain ⟨-, hhold⟩ := hself hu
    have hne : holds c i row.id ≠ .off := by
      intro hoff
      have hdecided := settled_decided u
      simp [← hhold, hoff, Hold.decided] at hdecided
    exact commit_follows (hhold ▸ (hc.right hrow rfl hne).2) hw hid hf

lemma failed_custody {phase phase' : FailedPhase} {e : FailedEvent}
    (hc : Custody c.shared (holds c)) (hright : ∀ j, RightTask j c.shared (c.task j))
    (hun : Undisturbed c (.task i (.failed e) : Label ι (Event κ)))
    (hi : c.task i = .checkFailedInvites phase)
    (h : FailedStep cfg i (inst i) c.shared phase e s phase') :
    Custody s (holds (c.resume i (s, .checkFailedInvites phase'))) := by
  cases h with
  | skip | begin | giveUp =>
    exact hc.resume rfl rfl rfl (fun _ _ _ h => h) (fun _ h => by cases h) fun _ => .inl rfl
  | select hsel hfree => exact hc.select hsel hfree
  | item hitem hs => exact item_custody hc hright hun hi hitem hs
  | @rollback ids item aborted _ =>
    refine hc.resume (by rfl) (by rfl) (by rfl) ?_ (fun _ h => by cases h) fun _ => .inl rfl
    intro j id hji hj
    simp only [Shared.setCheckingFailed, Shared.unlock, hj, Option.some.injEq, hji, if_false]
  | commit _ => exact hc.commit (hright i) hi (inst i)

lemma watched_custody {phase phase' : WatchedPhase} {e : WatchedEvent}
    (hc : Custody c.shared (holds c)) (hl : Looks inst c)
    (hi : c.task i = .checkWatchedInvites phase)
    (h : WatchedStep (inst i) c.shared phase e s phase') :
    Custody s (holds (c.resume i (s, .checkWatchedInvites phase'))) := by
  cases h with
  | @write items n invite state hitem hfree =>
    have hmem : invite ∈ c.shared.watchedInvites (inst i) :=
      (hl.running i items hi).pending (invite, .update state) (List.mem_of_getElem? hitem) (by simp)
    refine hc.change (g := fun id => if id = invite.inviteId then some ⟨state, none⟩ else none)
      (by exact update_rewrite c.shared invite.inviteId ⟨state, none⟩) (fun _ _ h => h) ?_ ?_ ?_ ?_
    · intro k
      by_cases hk : k = inst i
      · subst hk
        simpa [Shared.update] using List.erase_sublist
      · simp [hk]
    · apply resume_holds (Q := fun j id h => h.locks = true → c.shared.locks id = some j)
      · exact fun id h => by cases h
      · exact fun j id _ h => hc.lock j id h
    · apply resume_holds (Q := fun j id h => h = .off ∨
        (if id = invite.inviteId then some (⟨state, none⟩ : RowUpdate) else none) = none ∧
          Moves c.shared (holds c) id (holds c j id) h)
      · exact fun _ => .inl rfl
      · intro j id _
        by_cases hid : id = invite.inviteId
        · subst hid
          left
          by_contra hoff
          obtain ⟨row, hrow, hrid, -, hright⟩ := hc.held j _ hoff
          rw [hc.eq_handling (by simp [hfree]) hoff] at hright
          exact hright.2 _ invite hmem hrid.symm
        · exact .inr ⟨if_neg hid, .inl rfl⟩
    · intro k w hw row hrow hid u hu _
      split_ifs at hu with hrid
      exfalso
      have hw' : w ∈ c.shared.watchedInvites k := by
        by_cases hk : k = inst i
        · subst hk
          exact List.mem_of_mem_erase (by simpa [Shared.update] using hw)
        · simpa [Shared.update, hk] using hw
      obtain ⟨rfl, rfl⟩ := hc.single k (inst i) w invite hw' hmem (hid.symm.trans hrid)
      simp [(hc.nodup _).mem_erase_iff] at hw
  | _ => exact hc.resume rfl rfl rfl (fun _ _ _ h => h) (fun _ h => by cases h) fun _ => .inl rfl

omit [DecidableEq ι] [DecidableEq κ] in
lemma hold_fresh (h : t.isFresh = true) (id : ℕ) : t.hold id = .off := by
  unfold Task.isFresh at h
  split at h
  all_goals first | rfl | cases h

omit [DecidableEq ι] [DecidableEq κ] in
lemma hold_stop (t : Task) (id : ℕ) : t.stop.hold id = .off := by
  unfold Task.stop
  split_ifs with h
  · exact hold_fresh h id
  · rfl

/-- What is to be written agrees with the rows. -/
structure Kept (inst : ι → κ) (c : Config (Shared ι κ) ι Task) : Prop where
  custody : Custody c.shared (holds c)
  looks : Looks inst c
  right : ∀ i, RightTask i c.shared (c.task i)

omit [DecidableEq ι] in
lemma restart_custody (hc : Custody c.shared (holds c)) (k : κ) :
    Custody (c.shared.restart inst k) (holds ⟨c.shared.restart inst k,
      fun i => if inst i = k then (c.task i).stop else c.task i⟩) := by
  apply hc.quiet (by rfl)
  · exact fun _ _ h => h
  · intro k'
    by_cases hk : k' = k
    · subst hk
      simp [Shared.restart]
    · simp [Shared.restart, hk]
  · intro i id h
    by_cases hi : inst i = k
    · simp [holds, hi, hold_stop, Hold.locks] at h
    · have hlock := hc.lock i id (by simpa [holds, hi] using h)
      simp [Shared.restart, hlock, hi]
  · intro i id
    by_cases hi : inst i = k
    · exact .inl (by simp [holds, hi, hold_stop])
    · exact .inr (.inl (by simp [holds, hi]))

omit [DecidableEq ι] in
lemma restart_looks (hl : Looks inst c) (k : κ) : Looks inst ⟨c.shared.restart inst k,
    fun i => if inst i = k then (c.task i).stop else c.task i⟩ := by
  apply hl.mono
  · intro i items hi
    simp only at hi
    split_ifs at hi with hk
    · unfold Task.stop at hi
      split_ifs at hi with hfresh
      rw [hi] at hfresh
      cases hfresh
    · exact ⟨hi, by simp [Shared.restart, hk], fun w hw => by simpa [Shared.restart, hk] using hw⟩
  · exact fun _ _ h => h

/-- Every step in which nothing is resent too early keeps it. -/
lemma step_kept (hk : Kept inst c) (hun : Undisturbed c l)
    (h : (machine cfg inst).step c l = some d) : Kept inst d := by
  obtain ⟨hc, hl, hright⟩ := hk
  have hholds : (rightOutline cfg inst).Holds c := ⟨trivial, hright⟩
  have hright' := ((rightOutline cfg inst).step hholds trivial h).2
  cases step_cases h with
  | handler hi hs =>
    obtain ⟨hflag, hreceipts, hwatched⟩ := handlerStep_watching hs
    exact ⟨handler_custody hc hi hs, hl.resume (by simp) hflag hwatched hreceipts, hright'⟩
  | failed hi hs =>
    obtain ⟨hflag, hreceipts, hwatched⟩ := failedStep_watching hs
    exact ⟨failed_custody hc hright hun hi hs, hl.resume (by simp) hflag hwatched hreceipts, hright'⟩
  | @watched i _ _ _ _ hi hs =>
    exact ⟨watched_custody hc hl hi hs, watched_looks hl (hc.nodup (inst i)) hi hs, hright'⟩
  | execute _ _ _ _ | tick =>
    refine ⟨hc.quiet (by rfl) (fun _ _ h => h) (fun _ => List.Sublist.refl _) hc.lock
      fun _ _ => .inr (.inl rfl), ?_, hright'⟩
    exact hl.mono (fun i items hi => ⟨hi, rfl, fun _ h => h⟩) fun _ _ h => h
  | @mine txHash status hreceipt =>
    have hreceipts : ∀ h b, c.shared.receipts h = some b →
        Function.update c.shared.receipts txHash (some status) h = some b := by
      intro h b hb
      have hne : h ≠ txHash := fun heq => by simp [heq, hreceipt] at hb
      rw [Function.update_of_ne hne, hb]
    refine ⟨hc.quiet (by rfl) hreceipts (fun _ => List.Sublist.refl _) hc.lock
      fun _ _ => .inr (.inl rfl), ?_, hright'⟩
    exact hl.mono (fun i items hi => ⟨hi, rfl, fun _ h => h⟩) hreceipts
  | restart => exact ⟨restart_custody hc _, restart_looks hl _, hright'⟩

omit [DecidableEq ι] [DecidableEq κ] in
lemma started_kept (h : Started c) : Kept inst c where
  custody := by
    have hoff : ∀ i id, holds c i id = .off := fun i id => hold_fresh (h.task i) id
    constructor
    · simp [h.rows]
    · exact fun i id hne => absurd (hoff i id) hne
    · simp [h.watchedInvites]
    · exact fun i j id hi _ => by simp [hoff] at hi
    · exact fun i id hi => by simp [hoff, Hold.locks] at hi
    · simp [h.watchedInvites]
    · simp [h.watchedInvites]
  looks := by
    have hnone : ∀ i items, c.task i ≠ .checkWatchedInvites (.running items) := by
      intro i items hi
      have hfresh := h.task i
      rw [hi] at hfresh
      cases hfresh
    exact ⟨fun i items hi => absurd hi (hnone i items),
      fun i j items _ hi _ _ => absurd hi (hnone i items)⟩
  right i := rightTask_fresh (h.task i)

omit [DecidableEq ι] [DecidableEq κ] in
/-- Who may write a row that is Completed or DeadLettered writes the same state. -/
lemma writes_same (hk : Kept inst c) {row : InviteReward} (hrow : row ∈ c.shared.rows)
    (hterminal : row.state.terminal = true) {u : RowUpdate} (h : Writes c i row.id u) :
    u.state = row.state := by
  have hoff : holds c i row.id = .off := by
    by_contra hne
    have hstate := (hk.custody.right hrow rfl hne).1
    rw [hterminal] at hstate
    cases hstate
  generalize hid : row.id = id at h hoff
  cases h with
  | handler hi => simp [holds, hi, Task.hold] at hoff
  | failed hi hitem =>
    have hdecided := settled_decided u
    simp only [holds, hi, Task.hold, hitem, Option.elim_some] at hoff
    simp [hoff, Hold.decided] at hdecided
  | watched hi hitem _ =>
    have hmem := List.mem_of_getElem? hitem
    have hlooking := hk.looks.running i _ hi
    obtain ⟨status, hreceipt, hv⟩ := hlooking.verdict _ hmem _ rfl
    have hf := hk.custody.follows hrow (hlooking.pending _ hmem (by simp)) hid
    obtain ⟨hcompleted, hsucceeded⟩ := hf.2 hterminal
    rw [hreceipt] at hsucceeded
    obtain rfl := Option.some.inj hsucceeded
    exact hv.trans hcompleted.symm

/-- One step. -/
lemma step_terminal (hk : Kept inst c) {row : InviteReward} (hrow : row ∈ c.shared.rows)
    (hterminal : row.state.terminal = true) (h : (machine cfg inst).step c l = some d) :
    ∃ row' ∈ d.shared.rows, row'.id = row.id ∧ row'.state = row.state := by
  rcases step_rows (step_cases h) with ⟨new, -, hrows⟩ | ⟨g, hrows, hwrites⟩
  · exact ⟨row, by simp [hrows, hrow], rfl, rfl⟩
  · refine ⟨rewrite g row, by rw [hrows]; exact List.mem_map_of_mem hrow, by simp, ?_⟩
    cases hg : g row.id with
    | none => rw [rewrite_of_none hg]
    | some u =>
      obtain ⟨i, hi⟩ := hwrites row.id u hg
      rw [rewrite_of_some hg]
      exact writes_same hk hrow hterminal hi

/-- A row that is Completed or DeadLettered keeps its state, in a run where a row is resent
only when nothing earlier can still be written for it. -/
theorem terminal_stays (cfg : AppConfig) (inst : ι → κ) {c d e : Config (Shared ι κ) ι Task}
    (hstart : Started c) (hrun : Run (machine cfg inst) Undisturbed c d) {row : InviteReward}
    (hrow : row ∈ d.shared.rows) (hterminal : row.state.terminal = true)
    (hlater : Run (machine cfg inst) Undisturbed d e) :
    (∃ row' ∈ e.shared.rows, row'.id = row.id) ∧
      ∀ row' ∈ e.shared.rows, row'.id = row.id → row'.state = row.state := by
  have hkept : Kept inst d :=
    hrun.invariant (J := Kept inst) (fun _ _ _ hk hp hs => step_kept hk hp hs) (started_kept hstart)
  have hlast : Kept inst e ∧ ∃ row' ∈ e.shared.rows, row'.id = row.id ∧ row'.state = row.state := by
    induction hlater with
    | refl => exact ⟨hkept, row, hrow, rfl, rfl⟩
    | snoc _ hp hs ih =>
      obtain ⟨hk, row₁, hrow₁, hid₁, hstate₁⟩ := ih
      obtain ⟨row₂, hrow₂, hid₂, hstate₂⟩ :=
        step_terminal hk hrow₁ (by rw [hstate₁, hterminal]) hs
      exact ⟨step_kept hk hp hs, row₂, hrow₂, hid₂.trans hid₁, hstate₂.trans hstate₁⟩
  obtain ⟨hk, row₁, hrow₁, hid₁, hstate₁⟩ := hlast
  refine ⟨⟨row₁, hrow₁, hid₁⟩, fun row' hrow' hid' => ?_⟩
  rw [hk.custody.row_unique hrow' hrow₁ (hid'.trans hid₁.symm), hstate₁]

end Steps

section Samples

/-- One withdrawal event, and a pass of each of the two jobs. -/
def onePass : Config (Shared (Fin 3) Unit) (Fin 3) Task :=
  ⟨.empty, ![.handleWithdrawalEvent ⟨40, 11, 1, 7⟩ .start, .checkFailedInvites .start,
    .checkWatchedInvites .start]⟩

lemma onePass_started : Started onePass where
  rows := rfl
  commands := rfl
  task i := by fin_cases i <;> rfl
  watchedInvites _ := rfl

/-- The transfer succeeds, and the watched invite is written. -/
def completes (i j : Fin 3) : List (Label (Fin 3) (Event Unit)) :=
  [.task i (.handler .resume), .task i (.handler (.transaction (some 8) 9)),
    .task i (.handler (.conditions true true)), .task i (.handler (.save 100)),
    .task i (.handler (.send .prepared)), .env (.execute 0 500),
    .task i (.handler (.send .reply)), .task i (.handler (.send .write)),
    .env (.mine 500 true), .task j (.watched .resume), .task j (.watched (.item 0 .status)),
    .task j (.watched (.item 0 .write))]

theorem terminal_stays_completed :
    Started onePass ∧ ∃ d e, Run (machine sampleConfig fun _ => ()) Undisturbed onePass d ∧
      (∃ row ∈ d.shared.rows, row.id = 100 ∧ row.state = .Completed) ∧
      Run (machine sampleConfig fun _ => ()) Undisturbed d e ∧
      ∀ row' ∈ e.shared.rows, row'.id = 100 → row'.state = .Completed := by
  obtain ⟨d, e, hrun, hd, hlater, -⟩ := Run.exists_later_of_exec
    (M := machine sampleConfig fun _ => ()) (P := Undisturbed) (c := onePass)
    (q := fun d => ∃ row ∈ d.shared.rows, row.id = 100 ∧ row.state = .Completed)
    (r := fun _ => True) (completes 0 2)
    [.env (.tick retryAfterMs), .task 1 (.failed .resume), .task 1 (.failed (.select []))]
    (by decide +kernel)
  obtain ⟨row, hrow, hid, hstate⟩ := hd
  have hstays := terminal_stays sampleConfig _ onePass_started hrun hrow (by rw [hstate]; rfl) hlater
  refine ⟨onePass_started, d, e, hrun, ⟨row, hrow, hid, hstate⟩, hlater, fun row' hrow' hid' => ?_⟩
  exact (hstays.2 row' hrow' (hid'.trans hid.symm)).trans hstate

/-- The first transfer was reverted and is still watched when the second one succeeds. Its
receipt is written last. -/
theorem terminal_overwritten :
    Started onePass ∧ ∃ d e, Run (machine sampleConfig fun _ => ()) anyStep onePass d ∧
      (∃ row ∈ d.shared.rows, row.id = 100 ∧ row.state = .Completed) ∧
      Run (machine sampleConfig fun _ => ()) anyStep d e ∧
      ∃ row ∈ e.shared.rows, row.id = 100 ∧ row.state = .Failed := by
  refine ⟨onePass_started, Run.exists_later_of_exec (firstReverts ++ resends 1 ++
    [.env (.execute 1 501), .task 1 (.failed (.item 100 (.send .reply))),
      .task 1 (.failed (.item 100 (.send .write))), .task 1 (.failed .commit),
      .env (.mine 501 true), .task 2 (.watched .resume), .task 2 (.watched (.item 0 .status)),
      .task 2 (.watched (.item 1 .status)), .task 2 (.watched (.item 1 .write))])
    [.task 2 (.watched (.item 0 .write))] ?_⟩
  decide +kernel

end Samples

end Komenci.Rewards
