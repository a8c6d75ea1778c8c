import Komenci.RewardRows

/-! What is still to be written for a row, by a task or for a watched invite. Once the row is
Completed or DeadLettered, nothing else is. -/
namespace Komenci.Rewards
open Interleaving

def RewardStatus.terminal : RewardStatus → Bool
  | .Completed | .DeadLettered => true
  | _ => false

/-- What a task has to do with a row: nothing, to send it as the handler that made it, to keep
it locked, to complete it, to resend it, to record that it was resent. -/
inductive Hold
  | off
  | handling
  | locked
  | completing
  | resending
  | submitted (txHash : ℕ)
  deriving DecidableEq

/-- The task is in a pass of `checkFailedInvites`. -/
def Hold.locks : Hold → Bool
  | .off | .handling => false
  | _ => true

/-- The task is going to write the row. -/
def Hold.decided : Hold → Bool
  | .off | .locked => false
  | _ => true

lemma Hold.eq_handling {h : Hold} (hoff : h ≠ .off) (hlocks : h.locks = false) : h = .handling := by
  cases h <;> first | rfl | contradiction

variable {ι κ : Type}

/-- The transfer recorded in the row, if any, was reverted. -/
def Reverted (s : Shared ι κ) (row : InviteReward) : Prop :=
  ∀ txHash, row.rewardTxHash = some txHash → s.receipts txHash = some false

/-- No instance watches a transfer for the row. -/
def Unwatched (s : Shared ι κ) (id : ℕ) : Prop := ∀ k, ∀ w ∈ s.watchedInvites k, w.inviteId ≠ id

/-- The row records the watched transfer or one that was reverted, and when nothing may
change it any more, then it is because the watched transfer succeeded. -/
def Follows (s : Shared ι κ) (row : InviteReward) (w : WatchedInvite) : Prop :=
  (row.rewardTxHash = some w.txHash ∨ Reverted s row) ∧
    (row.state.terminal = true → row.state = .Completed ∧ s.receipts w.txHash = some true)

/-- What is known of a row while a task has something to do with it. -/
def Hold.Right (s : Shared ι κ) (row : InviteReward) : Hold → Prop
  | .off | .locked => True
  | .handling => row.rewardTxHash = none ∧ Unwatched s row.id
  | .completing => ∃ txHash, row.rewardTxHash = some txHash ∧ s.receipts txHash = some true
  | .resending => Reverted s row ∧ Unwatched s row.id
  | .submitted txHash => Reverted s row ∧
    ∀ k, ∀ w ∈ s.watchedInvites k, w.inviteId = row.id → w.txHash = txHash

structure Custody (s : Shared ι κ) (hold : ι → ℕ → Hold) : Prop where
  ids : (s.rows.map InviteRewardRow.id).Nodup
  held : ∀ i id, hold i id ≠ .off →
    ∃ row ∈ s.rows, row.id = id ∧ row.state.terminal = false ∧ (hold i id).Right s row
  watched : ∀ k, ∀ w ∈ s.watchedInvites k, ∃ row ∈ s.rows, row.id = w.inviteId ∧ Follows s row w
  handler : ∀ i j id, hold i id = .handling → (hold j id).decided = true → i = j
  lock : ∀ i id, (hold i id).locks = true → s.locks id = some i
  single : ∀ k k' w w', w ∈ s.watchedInvites k → w' ∈ s.watchedInvites k' →
    w.inviteId = w'.inviteId → k = k' ∧ w = w'
  nodup : ∀ k, (s.watchedInvites k).Nodup

/-- What a task has to do with a row may change so, unless somebody writes the row. -/
def Moves (s : Shared ι κ) (hold : ι → ℕ → Hold) (id : ℕ) (h h' : Hold) : Prop :=
  h' = h ∨ (h' = .locked ∨ h'.locks = true ∧ ∀ j, hold j id ≠ .handling) ∧
    ∃ row ∈ s.rows, row.id = id ∧ row.state.terminal = false ∧ h'.Right s row

section Mono
variable {s s' : Shared ι κ} {row : InviteReward} {w : WatchedInvite}

lemma Follows.mono (hreceipts : ∀ h b, s.receipts h = some b → s'.receipts h = some b)
    (h : Follows s row w) : Follows s' row w := by
  obtain ⟨hhash, hterminal⟩ := h
  constructor
  · exact hhash.imp_right fun hr txHash hh => hreceipts _ _ (hr txHash hh)
  · intro ht
    exact ⟨(hterminal ht).1, hreceipts _ _ (hterminal ht).2⟩

lemma Hold.Right.mono {h : Hold} (hreceipts : ∀ h b, s.receipts h = some b → s'.receipts h = some b)
    (hsub : ∀ k, ∀ w ∈ s'.watchedInvites k, w.inviteId = row.id → w ∈ s.watchedInvites k)
    (hr : h.Right s row) : h.Right s' row := by
  have hun : Unwatched s row.id → Unwatched s' row.id :=
    fun hun k w hw hid => hun k w (hsub k w hw hid) hid
  cases h with
  | off | locked => trivial
  | handling => exact ⟨hr.1, hun hr.2⟩
  | completing =>
    obtain ⟨txHash, hh, hreceipt⟩ := hr
    exact ⟨txHash, hh, hreceipts _ _ hreceipt⟩
  | resending => exact ⟨fun txHash hh => hreceipts _ _ (hr.1 txHash hh), hun hr.2⟩
  | submitted txHash =>
    exact ⟨fun a hh => hreceipts _ _ (hr.1 a hh), fun k w hw hid => hr.2 k w (hsub k w hw hid) hid⟩

end Mono

namespace Custody
variable {s s' : Shared ι κ} {hold hold' : ι → ℕ → Hold} {i : ι}

lemma row_unique (hc : Custody s hold) {row row' : InviteReward} (h : row ∈ s.rows)
    (h' : row' ∈ s.rows) (hid : row.id = row'.id) : row = row' :=
  List.inj_on_of_nodup_map hc.ids h h' hid

/-- What a task knows of its row. -/
lemma right (hc : Custody s hold) {row : InviteReward} (hrow : row ∈ s.rows) {id : ℕ}
    (hid : row.id = id) (h : hold i id ≠ .off) :
    row.state.terminal = false ∧ (hold i id).Right s row := by
  obtain ⟨row', hrow', hid', hstate, hr⟩ := hc.held i id h
  obtain rfl := hc.row_unique hrow hrow' (hid.trans hid'.symm)
  exact ⟨hstate, hr⟩

lemma follows (hc : Custody s hold) {row : InviteReward} (hrow : row ∈ s.rows) {k : κ}
    {w : WatchedInvite} (hw : w ∈ s.watchedInvites k) (hid : row.id = w.inviteId) :
    Follows s row w := by
  obtain ⟨row', hrow', hid', hf⟩ := hc.watched k w hw
  obtain rfl := hc.row_unique hrow hrow' (hid.trans hid'.symm)
  exact hf

/-- A task that has something to do with a row and does not lock it is its handler. -/
lemma eq_handling (hc : Custody s hold) {id : ℕ} (hlock : s.locks id ≠ some i)
    (hoff : hold i id ≠ .off) : hold i id = .handling := by
  cases hlocks : (hold i id).locks with
  | true => exact absurd (hc.lock i id hlocks) hlock
  | false => exact Hold.eq_handling hoff hlocks

/-- The rows `g` updates are written, by who has nothing to do with them afterwards. -/
lemma change (hc : Custody s hold) {g : ℕ → Option RowUpdate}
    (hrows : s'.rows = s.rows.map (rewrite g))
    (hreceipts : ∀ h b, s.receipts h = some b → s'.receipts h = some b)
    (hsub : ∀ k, (s'.watchedInvites k).Sublist (s.watchedInvites k))
    (hlock : ∀ i id, (hold' i id).locks = true → s'.locks id = some i)
    (hhold : ∀ i id, hold' i id = .off ∨ g id = none ∧ Moves s hold id (hold i id) (hold' i id))
    (hwrite : ∀ k, ∀ w ∈ s'.watchedInvites k, ∀ row ∈ s.rows, row.id = w.inviteId → ∀ u,
      g row.id = some u → Follows s row w → Follows s (row.update u) w) : Custody s' hold' := by
  have hmem : ∀ k, ∀ w ∈ s'.watchedInvites k, w ∈ s.watchedInvites k := fun k _ h => (hsub k).subset h
  have hhandling : ∀ i id, hold' i id = .handling → hold i id = .handling := by
    intro i id h
    rcases hhold i id with heq | ⟨-, heq | ⟨heq | ⟨heq, -⟩, -⟩⟩
    · simp [heq] at h
    · exact heq ▸ h
    · simp [heq] at h
    · simp [h, Hold.locks] at heq
  constructor
  · rw [hrows, List.map_map]
    exact (List.map_congr_left fun row _ => rewrite_id g row).symm ▸ hc.ids
  · intro i id h
    have hrow : g id = none ∧
        ∃ row ∈ s.rows, row.id = id ∧ row.state.terminal = false ∧ (hold' i id).Right s row := by
      rcases hhold i id with heq | ⟨hg, heq | ⟨-, hrow⟩⟩
      · exact absurd heq h
      · exact ⟨hg, heq ▸ hc.held i id (heq ▸ h)⟩
      · exact ⟨hg, hrow⟩
    obtain ⟨hg, row, hrow, rfl, hstate, hr⟩ := hrow
    refine ⟨row, ?_, rfl, hstate, hr.mono hreceipts fun k w hw _ => hmem k w hw⟩
    rw [hrows]
    exact List.mem_map.mpr ⟨row, hrow, rewrite_of_none hg⟩
  · intro k w hw
    obtain ⟨row, hrow, hid, hf⟩ := hc.watched k w (hmem k w hw)
    refine ⟨rewrite g row, ?_, (rewrite_id g row).trans hid, ?_⟩
    · rw [hrows]
      exact List.mem_map_of_mem hrow
    · apply Follows.mono hreceipts
      cases hg : g row.id with
      | none => exact (rewrite_of_none hg).symm ▸ hf
      | some u =>
        have hu : rewrite g row = row.update u := by simp [rewrite, hg]
        exact hu ▸ hwrite k w hw row hrow hid u hg hf
  · intro i j id hi hj
    have hi' := hhandling i id hi
    rcases hhold j id with heq | ⟨-, heq | ⟨heq | ⟨-, hnone⟩, -⟩⟩
    · simp [heq, Hold.decided] at hj
    · exact hc.handler i j id hi' (heq ▸ hj)
    · simp [heq, Hold.decided] at hj
    · exact absurd hi' (hnone i)
  · exact hlock
  · exact fun k k' w w' hw hw' => hc.single k k' w w' (hmem k w hw) (hmem k' w' hw')
  · exact fun k => (hc.nodup k).sublist (hsub k)

/-- Nobody writes. -/
lemma quiet (hc : Custody s hold) (hrows : s'.rows = s.rows)
    (hreceipts : ∀ h b, s.receipts h = some b → s'.receipts h = some b)
    (hsub : ∀ k, (s'.watchedInvites k).Sublist (s.watchedInvites k))
    (hlock : ∀ i id, (hold' i id).locks = true → s'.locks id = some i)
    (hhold : ∀ i id, hold' i id = .off ∨ Moves s hold id (hold i id) (hold' i id)) :
    Custody s' hold' := by
  apply hc.change (g := fun _ => none)
  · rw [rewrite_none, hrows]
  · exact hreceipts
  · exact hsub
  · exact hlock
  · exact fun i id => (hhold i id).imp_right fun h => ⟨rfl, h⟩
  · simp

/-- A handler saves a row and is going to send it. -/
lemma save (hc : Custody s hold) {row : InviteReward} (hrows : s'.rows = s.rows ++ [row])
    (hreceipts : s'.receipts = s.receipts) (hwatched : s'.watchedInvites = s.watchedInvites)
    (hlocks : s'.locks = s.locks) (hnew : ∀ r ∈ s.rows, r.id ≠ row.id)
    (hstate : row.state.terminal = false) (hhash : row.rewardTxHash = none)
    (hhold : ∀ j id, hold' j id = hold j id ∨ j = i ∧ id = row.id ∧ hold' j id = .handling) :
    Custody s' hold' := by
  have hsub : ∀ r ∈ s.rows, r ∈ s'.rows := fun r hr => hrows ▸ List.mem_append_left _ hr
  have hmono : ∀ {r : InviteReward} {h : Hold}, h.Right s r → h.Right s' r := by
    intro r h hr
    exact hr.mono (fun _ _ h => hreceipts ▸ h) fun k w hw _ => hwatched ▸ hw
  have hoff : ∀ j, hold j row.id = .off := by
    intro j
    by_contra h
    obtain ⟨r, hr, hid, -⟩ := hc.held j row.id h
    exact hnew r hr hid
  have hun : Unwatched s' row.id := by
    intro k w hw hid
    obtain ⟨r, hr, hrid, -⟩ := hc.watched k w (hwatched ▸ hw)
    exact hnew r hr (hrid.trans hid)
  constructor
  · rw [hrows, List.map_append, List.nodup_append]
    refine ⟨hc.ids, by simp, ?_⟩
    rintro a ha b hb rfl
    obtain ⟨r, hr, rfl⟩ := List.mem_map.mp ha
    exact hnew r hr (by simpa using hb)
  · intro j id h
    rcases hhold j id with heq | ⟨-, rfl, heq⟩
    · obtain ⟨r, hr, hid, hs, hright⟩ := hc.held j id (heq ▸ h)
      exact ⟨r, hsub r hr, hid, hs, heq ▸ hmono hright⟩
    · exact ⟨row, by simp [hrows], rfl, hstate, by rw [heq]; exact ⟨hhash, hun⟩⟩
  · intro k w hw
    obtain ⟨r, hr, hid, hf⟩ := hc.watched k w (hwatched ▸ hw)
    exact ⟨r, hsub r hr, hid, hf.mono fun _ _ h => hreceipts ▸ h⟩
  · intro j k id hj hk
    rcases hhold j id with hj' | ⟨rfl, rfl, -⟩
    · rcases hhold k id with hk' | ⟨rfl, rfl, -⟩
      · exact hc.handler j k id (hj' ▸ hj) (hk' ▸ hk)
      · rw [hj', hoff j] at hj
        cases hj
    · rcases hhold k row.id with hk' | ⟨rfl, -, -⟩
      · rw [hk', hoff k] at hk
        cases hk
      · rfl
  · intro j id h
    rw [hlocks]
    rcases hhold j id with heq | ⟨-, -, heq⟩
    · exact hc.lock j id (heq ▸ h)
    · simp [heq, Hold.locks] at h
  · rw [hwatched]
    exact hc.single
  · rw [hwatched]
    exact hc.nodup

section Watch
variable [DecidableEq κ] {k k' : κ} {v w : WatchedInvite}

lemma mem_watch : v ∈ (s.watch k w).watchedInvites k' ↔
    v ∈ s.watchedInvites k' ∨ k' = k ∧ v = w := by
  by_cases hk : k' = k
  · subst hk
    simp [Shared.watch]
  · simp [Shared.watch, hk]

/-- A transfer for a row that nobody watches is watched. -/
lemma watch (hc : Custody s hold) {row : InviteReward} (hrow : row ∈ s.rows)
    (hid : row.id = w.inviteId) (hfollows : Follows s row w) (hun : Unwatched s w.inviteId)
    (hhold : ∀ i, (hold i w.inviteId).decided = true → hold i w.inviteId = .submitted w.txHash) :
    Custody (s.watch k w) hold := by
  constructor
  · exact hc.ids
  · intro i id h
    obtain ⟨r, hr, rfl, hs, hright⟩ := hc.held i id h
    refine ⟨r, hr, rfl, hs, ?_⟩
    by_cases hrw : r.id = w.inviteId
    · cases hd : (hold i r.id).decided with
      | false =>
        have hlocked : hold i r.id = .locked := by
          cases hi : hold i r.id <;> simp_all [Hold.decided]
        rw [hlocked]
        trivial
      | true =>
        have hsub := hhold i (hrw ▸ hd)
        rw [← hrw] at hsub
        rw [hsub] at hright ⊢
        refine ⟨hright.1, fun k' v hv hvid => ?_⟩
        rcases mem_watch.mp hv with hv | ⟨-, rfl⟩
        · exact absurd (hvid.trans hrw) (hun k' v hv)
        · rfl
    · refine Hold.Right.mono (s := s) (fun _ _ h => h) ?_ hright
      intro k' v hv hvid
      rcases mem_watch.mp hv with hv | ⟨-, rfl⟩
      · exact hv
      · exact absurd hvid.symm hrw
  · intro k' v hv
    rcases mem_watch.mp hv with hv | ⟨-, rfl⟩
    · exact hc.watched k' v hv
    · exact ⟨row, hrow, hid, hfollows⟩
  · exact hc.handler
  · exact hc.lock
  · intro a b v v' hv hv' hvid
    rcases mem_watch.mp hv with hold | ⟨rfl, rfl⟩ <;>
      rcases mem_watch.mp hv' with hold' | ⟨rfl, rfl⟩
    · exact hc.single a b v v' hold hold' hvid
    · exact absurd hvid (hun a v hold)
    · exact absurd hvid.symm (hun b v' hold')
    · exact ⟨rfl, rfl⟩
  · intro k'
    by_cases hk : k' = k
    · subst hk
      have hnot : w ∉ s.watchedInvites k' := fun hw => hun k' w hw rfl
      simpa [Shared.watch, List.nodup_append, hnot] using
        ⟨hc.nodup k', fun a ha heq => hnot (heq ▸ ha)⟩
    · simpa [Shared.watch, hk] using hc.nodup k'

end Watch

end Custody

end Komenci.Rewards
