import Komenci.RewardWork

/-! How the rows change: a step saves a new row, or somebody writes the states and hashes of
rows that are there. -/
namespace Komenci.Rewards
open Interleaving

variable {ι κ : Type}

/-- The rows with the updates of `g`. -/
def rewrite (g : ℕ → Option RowUpdate) (row : InviteReward) : InviteReward :=
  (g row.id).elim row row.update

section Rewrite
variable (g : ℕ → Option RowUpdate) (row : InviteReward)

@[simp] lemma rewrite_id : (rewrite g row).id = row.id := by
  unfold rewrite
  cases g row.id <;> rfl

@[simp] lemma rewrite_inviter : (rewrite g row).inviter = row.inviter := by
  unfold rewrite
  cases g row.id <;> rfl

@[simp] lemma rewrite_invitee : (rewrite g row).invitee = row.invitee := by
  unfold rewrite
  cases g row.id <;> rfl

lemma rewrite_rewardTxHash : (rewrite g row).rewardTxHash =
    ((g row.id).bind RowUpdate.rewardTxHash).or row.rewardTxHash := by
  unfold rewrite
  cases g row.id <;> rfl

@[simp] lemma rewrite_createdAt : (rewrite g row).createdAt = row.createdAt := by
  unfold rewrite
  cases g row.id <;> rfl

lemma rewrite_of_none {g : ℕ → Option RowUpdate} {row : InviteReward} (h : g row.id = none) :
    rewrite g row = row := by
  simp [rewrite, h]

lemma rewrite_of_some {g : ℕ → Option RowUpdate} {row : InviteReward} {u : RowUpdate}
    (h : g row.id = some u) : (rewrite g row).state = u.state := by
  simp [rewrite, h, InviteRewardRow.update]

end Rewrite

/-- Who may write which update in the next step: the handler that has made the row, a pass
over the watched invites, and a pass over the failed ones when it commits. -/
inductive Writes (c : Config (Shared ι κ) ι Task) : ι → ℕ → RowUpdate → Prop
  | handler {i event invite phase u} : c.task i = .handleWithdrawalEvent event (.send invite phase) →
      Writes c i invite.id u
  | watched {i invite state} {items : List (WatchedInvite × WatchPhase)} {n : ℕ} : c.task i = .checkWatchedInvites (.running items) →
      items[n]? = some (invite, .update state) → c.shared.locks invite.inviteId = none →
      Writes c i invite.inviteId ⟨state, none⟩
  | failed {i ids item id invite u} : c.task i = .checkFailedInvites (.running ids item false) →
      item id = some (invite, .settled (some u)) → Writes c i id u

lemma rewrite_none (rows : List InviteReward) : rows.map (rewrite fun _ => none) = rows := by
  have hid : rewrite (fun _ => none) = id := rfl
  rw [hid, List.map_id]

lemma update_rewrite (s : Shared ι κ) (id : ℕ) (u : RowUpdate) :
    (s.update id u).rows = s.rows.map (rewrite fun id' => if id' = id then some u else none) := by
  simp only [Shared.update]
  congr 1
  funext row
  by_cases h : row.id = id <;> simp [rewrite, h]

/-- The updates that a commit writes. -/
def committed (item : ℕ → Option (InviteReward × ItemPhase)) (id : ℕ) : Option RowUpdate :=
  match item id with
  | some (_, .settled u) => u
  | _ => none

lemma commit_rewrite (rows : List InviteReward) (item : ℕ → Option (InviteReward × ItemPhase)) :
    commitRows rows item = rows.map (rewrite (committed item)) := by
  simp only [commitRows]
  congr 1
  funext row
  unfold rewrite committed
  split
  · rename_i h
    simp [h]
  · rename_i hnone
    split
    · rename_i invite u h
      cases u with
      | none => rfl
      | some u => exact absurd h (hnone invite u)
    · rfl

lemma committed_item {item : ℕ → Option (InviteReward × ItemPhase)} {id : ℕ} {u : RowUpdate}
    (h : committed item id = some u) : ∃ invite, item id = some (invite, .settled (some u)) := by
  unfold committed at h
  split at h
  · rename_i hitem
    cases h
    exact ⟨_, hitem⟩
  · cases h

variable [DecidableEq ι] [DecidableEq κ] {cfg : AppConfig} {inst : ι → κ}
  {c d : Config (Shared ι κ) ι Task} {l : Label ι (Event κ)}

/-- A handler saves a new row. -/
structure Saves (c : Config (Shared ι κ) ι Task) (l : Label ι (Event κ)) (row : InviteReward) :
    Prop where
  new : ∀ r ∈ c.shared.rows, r.id ≠ row.id
  unique : Unique c.shared.rows row
  step : ∃ i event inviteToken invitee,
    l = .task i (.handler (.save row.id)) ∧
    c.task i = .handleWithdrawalEvent event (.save inviteToken invitee) ∧
    row = ⟨row.id, event.recipient, invitee, event.identifier, .Created, none, inviteToken,
      c.shared.now⟩

/-- A step saves a row, or somebody writes. -/
lemma step_rows (h : Step cfg inst c l d) :
    (∃ row, Saves c l row ∧ d.shared.rows = c.shared.rows ++ [row]) ∨
    ∃ g, d.shared.rows = c.shared.rows.map (rewrite g) ∧
      ∀ id u, g id = some u → ∃ i, Writes c i id u := by
  have hsame : d.shared.rows = c.shared.rows → ∃ g,
      d.shared.rows = c.shared.rows.map (rewrite g) ∧
        ∀ id u, g id = some u → ∃ i, Writes c i id u := by
    intro heq
    exact ⟨fun _ => none, by rw [rewrite_none, heq], by simp⟩
  cases h with
  | @handler i event phase e s phase' hi hs =>
    cases hs with
    | quiet _ _ => exact .inr (hsame rfl)
    | save hrow hid hunique => exact .inl ⟨_, ⟨hid, hunique, i, event, _, _, rfl, hi, hrow⟩, rfl⟩
    | send hs _ => exact .inr (hsame (sendStep_right hs).1)
    | thrown hs => exact .inr (hsame (sendStep_right hs).1)
    | @written invite p e s u hs _ =>
      refine .inr ⟨_, (update_rewrite s invite.id u).trans (by rw [(sendStep_right hs).1]), ?_⟩
      intro id v hv
      split_ifs at hv with hid
      cases hv
      exact ⟨i, hid ▸ .handler hi⟩
  | @failed i phase e s phase' hi hs =>
    cases hs with
    | item _ hs => exact .inr (hsame (itemStep_right hs).1)
    | @commit ids item _ =>
      refine .inr ⟨committed item, commit_rewrite _ _, fun id u hu => ?_⟩
      obtain ⟨invite, hitem⟩ := committed_item hu
      exact ⟨i, .failed hi hitem⟩
    | _ => exact .inr (hsame rfl)
  | @watched i phase e s phase' hi hs =>
    cases hs with
    | @write items n invite state hitem hl =>
      refine .inr ⟨_, update_rewrite c.shared invite.inviteId ⟨state, none⟩, fun id u hu => ?_⟩
      split_ifs at hu with hid
      cases hu
      exact ⟨i, hid ▸ .watched hi hitem hl⟩
    | _ => exact .inr (hsame rfl)
  | execute _ _ _ _ | mine _ | restart | tick => exact .inr (hsame rfl)

/-- Rows stay, with their inviter and their time. -/
lemma step_row_stays {row : InviteReward} (hrow : row ∈ c.shared.rows)
    (h : (machine cfg inst).step c l = some d) : ∃ row' ∈ d.shared.rows, row'.id = row.id ∧
      row'.inviter = row.inviter ∧ row'.createdAt = row.createdAt := by
  rcases step_rows (step_cases h) with ⟨new, -, hrows⟩ | ⟨g, hrows, -⟩
  · exact ⟨row, by simp [hrows, hrow], rfl, rfl, rfl⟩
  · exact ⟨rewrite g row, by rw [hrows]; exact List.mem_map_of_mem hrow, by simp, by simp, by simp⟩

lemma run_row_stays {P : Config (Shared ι κ) ι Task → Label ι (Event κ) → Prop}
    {row : InviteReward} (hrow : row ∈ c.shared.rows) (hrun : Run (machine cfg inst) P c d) :
    ∃ row' ∈ d.shared.rows, row'.id = row.id ∧ row'.inviter = row.inviter ∧
      row'.createdAt = row.createdAt := by
  induction hrun with
  | refl => exact ⟨row, hrow, rfl, rfl, rfl⟩
  | snoc _ _ hs ih =>
    obtain ⟨row₁, hmem, hid, hinviter, hcreated⟩ := ih
    obtain ⟨row₂, hmem₂, hid₂, hinviter₂, hcreated₂⟩ := step_row_stays hmem hs
    exact ⟨row₂, hmem₂, hid₂.trans hid, hinviter₂.trans hinviter, hcreated₂.trans hcreated⟩

end Komenci.Rewards
