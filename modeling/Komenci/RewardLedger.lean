import Komenci.RewardSteps

/-! Who is at work on which row. At most one task is at a time, and a transfer that was
not reverted is recorded in its row or held by the task at work on it. -/
namespace Komenci.Rewards
open Interleaving

/-- What a task does with a row: nothing, keep it locked, or send a transfer, which the
relayer may have executed. -/
inductive Work
  | off
  | locked
  | sending (txHash : Option ℕ)
  deriving DecidableEq

variable {ι κ : Type}

/-- Every transfer executed for the row was reverted, but for this one. -/
def Spent (s : Shared ι κ) (id : ℕ) (current : Option ℕ) : Prop :=
  ∀ c ∈ s.commands, c.inviteId = id → ∀ txHash, c.txHash = some txHash →
    current = some txHash ∨ s.receipts txHash = some false

structure Ledger (s : Shared ι κ) (work : ι → ℕ → Work) : Prop where
  ids : (s.rows.map InviteRewardRow.id).Nodup
  invitees : (s.rows.map InviteRewardRow.invitee).Nodup
  hashes : (s.commands.filterMap Command.txHash).Nodup
  known : ∀ c ∈ s.commands, ∃ row ∈ s.rows, row.id = c.inviteId
  row : ∀ i id, work i id ≠ .off → ∃ row ∈ s.rows, row.id = id
  exclusive : ∀ i j id, work i id ≠ .off → work j id ≠ .off → i = j
  spent : ∀ i id current, work i id = .sending current → Spent s id current
  live : ∀ c ∈ s.commands, ∀ txHash, c.txHash = some txHash → s.receipts txHash ≠ some false →
    (∃ row ∈ s.rows, row.id = c.inviteId ∧ row.rewardTxHash = some txHash) ∨
      ∃ i, work i c.inviteId = .sending (some txHash)

namespace Ledger
variable {s s' : Shared ι κ} {work work' : ι → ℕ → Work}

lemma row_unique (hl : Ledger s work) {row row' : InviteReward} (h : row ∈ s.rows)
    (h' : row' ∈ s.rows) (hid : row.id = row'.id) : row = row' :=
  List.inj_on_of_nodup_map hl.ids h h' hid

/-- Two transfers for one row that were not reverted are the same. -/
lemma live_unique (hl : Ledger s work) {c q : Command} (hc : c ∈ s.commands)
    (hq : q ∈ s.commands) (hid : c.inviteId = q.inviteId) {a b : ℕ} (ha : c.txHash = some a)
    (hb : q.txHash = some b) (hra : s.receipts a ≠ some false) (hrb : s.receipts b ≠ some false) :
    a = b := by
  rcases hl.live c hc a ha hra with ⟨row, hrow, hrid, hrh⟩ | ⟨i, hi⟩
  · rcases hl.live q hq b hb hrb with ⟨row', hrow', hrid', hrh'⟩ | ⟨j, hj⟩
    · obtain rfl := hl.row_unique hrow hrow' ((hrid.trans hid).trans hrid'.symm)
      exact Option.some.inj (hrh.symm.trans hrh')
    · rcases hl.spent j _ _ hj c hc hid a ha with heq | hrev
      · exact (Option.some.inj heq).symm
      · exact absurd hrev hra
  · rcases hl.spent i _ _ hi q hq hid.symm b hb with heq | hrev
    · exact Option.some.inj heq
    · exact absurd hrev hrb

/-- A row whose recorded transfer was reverted, or that has none, may be paid by the
task that keeps it locked. -/
lemma spent_of_row (hl : Ledger s work) {i : ι} {row : InviteReward} (hrow : row ∈ s.rows)
    (hi : work i row.id = .locked)
    (hhash : ∀ txHash, row.rewardTxHash = some txHash → s.receipts txHash = some false) :
    Spent s row.id none := by
  intro c hc hid a ha
  by_contra hne
  rw [not_or] at hne
  rcases hl.live c hc a ha hne.2 with ⟨row', hrow', hrid, hrh⟩ | ⟨j, hj⟩
  · obtain rfl := hl.row_unique hrow hrow' (hid.symm.trans hrid.symm)
    exact hne.2 (hhash a hrh)
  · rw [hid] at hj
    obtain rfl := hl.exclusive i j row.id (by simp [hi]) (by simp [hj])
    simp [hi] at hj

/-- Rows are updated and tasks give up what they were at. A task gives up a transfer
only when it is recorded, and starts to send only when there is none. -/
lemma settle (hl : Ledger s work) {f : InviteReward → InviteReward}
    (hrows : s'.rows = s.rows.map f) (hcommands : s'.commands = s.commands)
    (hreceipts : s'.receipts = s.receipts)
    (hf : ∀ row, (f row).id = row.id ∧ (f row).invitee = row.invitee)
    (hhash : ∀ row ∈ s.rows, (f row).rewardTxHash = row.rewardTxHash ∨
      ∃ i txHash, work i row.id = .sending (some txHash) ∧ (f row).rewardTxHash = some txHash)
    (hwork : ∀ i id, work' i id = work i id ∨ work' i id = .off ∨
      work' i id = .locked ∧ work i id ≠ .off ∨
      work' i id = .sending none ∧ work i id = .locked ∧ Spent s id none)
    (hheld : ∀ i id txHash, work i id = .sending (some txHash) → work' i id = work i id ∨
      ∀ row ∈ s.rows, row.id = id → (f row).rewardTxHash = some txHash) :
    Ledger s' work' := by
  have hspent : ∀ id current, Spent s id current → Spent s' id current := by
    intro id current h c hc
    rw [hreceipts]
    exact h c (hcommands ▸ hc)
  have hoff : ∀ i id, work' i id ≠ .off → work i id ≠ .off := by
    intro i id h
    rcases hwork i id with heq | heq | ⟨-, hne⟩ | ⟨-, heq, -⟩
    · exact heq ▸ h
    · exact absurd heq h
    · exact hne
    · simp [heq]
  have hmem : ∀ row ∈ s.rows, f row ∈ s'.rows := fun row hrow =>
    hrows ▸ List.mem_map_of_mem hrow
  constructor
  · rw [hrows, List.map_map]
    exact (List.map_congr_left fun row _ => (hf row).1).symm ▸ hl.ids
  · rw [hrows, List.map_map]
    exact (List.map_congr_left fun row _ => (hf row).2).symm ▸ hl.invitees
  · rw [hcommands]
    exact hl.hashes
  · intro c hc
    obtain ⟨row, hrow, hid⟩ := hl.known c (hcommands ▸ hc)
    exact ⟨f row, hmem row hrow, (hf row).1.trans hid⟩
  · intro i id h
    obtain ⟨row, hrow, hid⟩ := hl.row i id (hoff i id h)
    exact ⟨f row, hmem row hrow, (hf row).1.trans hid⟩
  · exact fun i j id hi hj => hl.exclusive i j id (hoff i id hi) (hoff j id hj)
  · intro i id current h
    rcases hwork i id with heq | heq | ⟨heq, -⟩ | ⟨heq, -, hsp⟩
    · exact hspent _ _ (hl.spent i id current (heq ▸ h))
    · simp [heq] at h
    · simp [heq] at h
    · rw [heq] at h
      cases h
      exact hspent _ _ hsp
  · intro c hc a ha hra
    rw [hcommands] at hc
    rw [hreceipts] at hra
    rcases hl.live c hc a ha hra with ⟨row, hrow, hid, hh⟩ | ⟨i, hi⟩
    · refine .inl ⟨f row, hmem row hrow, (hf row).1.trans hid, ?_⟩
      rcases hhash row hrow with heq | ⟨i, b, hi, hb⟩
      · rw [heq, hh]
      · rcases hl.spent i row.id _ hi c hc hid.symm a ha with heq | hrev
        · rw [hb, heq]
        · exact absurd hrev hra
    · rcases hheld i _ a hi with heq | hrec
      · exact .inr ⟨i, heq.trans hi⟩
      · obtain ⟨row, hrow, hid⟩ := hl.row i c.inviteId (by simp [hi])
        exact .inl ⟨f row, hmem row hrow, (hf row).1.trans hid, hrec row hrow hid⟩

/-- A task locks rows that nobody is at work on. -/
lemma select (hl : Ledger s work) {i : ι} (hrows : s'.rows = s.rows)
    (hcommands : s'.commands = s.commands) (hreceipts : s'.receipts = s.receipts)
    (hwork : ∀ j id, work' j id = work j id ∨ j = i ∧ work' j id = .locked ∧
      (∀ k, work k id = .off) ∧ ∃ row ∈ s.rows, row.id = id) : Ledger s' work' := by
  constructor
  · exact hrows ▸ hl.ids
  · exact hrows ▸ hl.invitees
  · exact hcommands ▸ hl.hashes
  · exact fun c hc => hrows ▸ hl.known c (hcommands ▸ hc)
  · intro j id h
    rw [hrows]
    rcases hwork j id with heq | ⟨-, -, -, hrow⟩
    · exact hl.row j id (heq ▸ h)
    · exact hrow
  · intro j k id hj hk
    rcases hwork j id with hj' | ⟨rfl, -, hoff, -⟩
    · rcases hwork k id with hk' | ⟨rfl, -, hoff, -⟩
      · exact hl.exclusive j k id (hj' ▸ hj) (hk' ▸ hk)
      · exact absurd (hj'.trans (hoff j)) hj
    · rcases hwork k id with hk' | ⟨rfl, -, -, -⟩
      · exact absurd (hk'.trans (hoff k)) hk
      · rfl
  · intro j id current h
    rcases hwork j id with heq | ⟨-, heq, -⟩
    · intro c hc
      rw [hreceipts]
      exact hl.spent j id current (heq ▸ h) c (hcommands ▸ hc)
    · simp [heq] at h
  · intro c hc a ha hra
    rw [hrows]
    rcases hl.live c (hcommands ▸ hc) a ha (hreceipts ▸ hra) with hrow | ⟨j, hj⟩
    · exact .inl hrow
    · refine .inr ⟨j, ?_⟩
      rcases hwork j c.inviteId with heq | ⟨-, -, hoff, -⟩
      · exact heq.trans hj
      · simp [hoff j] at hj

/-- A new row, and the task that made it is to send its transfer. -/
lemma create (hl : Ledger s work) {i : ι} {row : InviteReward} (hrows : s'.rows = s.rows ++ [row])
    (hcommands : s'.commands = s.commands) (hreceipts : s'.receipts = s.receipts)
    (hid : ∀ r ∈ s.rows, r.id ≠ row.id) (hinvitee : ∀ r ∈ s.rows, r.invitee ≠ row.invitee)
    (hwork : ∀ j id, work' j id = work j id ∨
      j = i ∧ id = row.id ∧ work' j id = .sending none) : Ledger s' work' := by
  have hsub : ∀ r ∈ s.rows, r ∈ s'.rows := fun r hr => hrows ▸ List.mem_append_left _ hr
  have hnew : row ∈ s'.rows := by simp [hrows]
  have hoff : ∀ j, work j row.id = .off := by
    intro j
    by_contra h
    obtain ⟨r, hr, hrid⟩ := hl.row j row.id h
    exact hid r hr hrid
  constructor
  · rw [hrows, List.map_append, List.nodup_append]
    refine ⟨hl.ids, by simp, ?_⟩
    rintro a ha b hb rfl
    obtain ⟨r, hr, rfl⟩ := List.mem_map.mp ha
    exact hid r hr (by simpa using hb)
  · rw [hrows, List.map_append, List.nodup_append]
    refine ⟨hl.invitees, by simp, ?_⟩
    rintro a ha b hb rfl
    obtain ⟨r, hr, rfl⟩ := List.mem_map.mp ha
    exact hinvitee r hr (by simpa using hb)
  · exact hcommands ▸ hl.hashes
  · intro c hc
    obtain ⟨r, hr, hrid⟩ := hl.known c (hcommands ▸ hc)
    exact ⟨r, hsub r hr, hrid⟩
  · intro j id h
    rcases hwork j id with heq | ⟨-, rfl, -⟩
    · obtain ⟨r, hr, hrid⟩ := hl.row j id (heq ▸ h)
      exact ⟨r, hsub r hr, hrid⟩
    · exact ⟨row, hnew, rfl⟩
  · intro j k id hj hk
    rcases hwork j id with hj' | ⟨rfl, rfl, -⟩
    · rcases hwork k id with hk' | ⟨rfl, rfl, -⟩
      · exact hl.exclusive j k id (hj' ▸ hj) (hk' ▸ hk)
      · exact absurd (hj'.trans (hoff j)) hj
    · rcases hwork k row.id with hk' | ⟨rfl, -, -⟩
      · exact absurd (hk'.trans (hoff k)) hk
      · rfl
  · intro j id current h c hc hcid a ha
    rw [hreceipts]
    rw [hcommands] at hc
    rcases hwork j id with heq | ⟨-, rfl, -⟩
    · exact hl.spent j id current (heq ▸ h) c hc hcid a ha
    · obtain ⟨r, hr, hrid⟩ := hl.known c hc
      exact absurd (hrid.trans hcid) (hid r hr)
  · intro c hc a ha hra
    rcases hl.live c (hcommands ▸ hc) a ha (hreceipts ▸ hra) with ⟨r, hr, hrest⟩ | ⟨j, hj⟩
    · exact .inl ⟨r, hsub r hr, hrest⟩
    · refine .inr ⟨j, ?_⟩
      rcases hwork j c.inviteId with heq | ⟨-, heq, -⟩
      · exact heq.trans hj
      · rw [heq, hoff j] at hj
        cases hj

/-- A command goes to the relayer. -/
lemma append (hl : Ledger s work) {c : Command} (hrows : s'.rows = s.rows)
    (hcommands : s'.commands = s.commands ++ [c]) (hreceipts : s'.receipts = s.receipts)
    (hc : c.txHash = none) (hrow : ∃ row ∈ s.rows, row.id = c.inviteId)
    (hwork : work' = work) : Ledger s' work' := by
  subst hwork
  have hmem : ∀ q ∈ s'.commands, q ∈ s.commands ∨ q = c := by simp [hcommands]
  constructor
  · exact hrows ▸ hl.ids
  · exact hrows ▸ hl.invitees
  · simpa [hcommands, hc] using hl.hashes
  · intro q hq
    rw [hrows]
    rcases hmem q hq with hq | rfl
    · exact hl.known q hq
    · exact hrow
  · exact fun i id h => hrows ▸ hl.row i id h
  · exact hl.exclusive
  · intro i id current h q hq hid a ha
    rw [hreceipts]
    rcases hmem q hq with hq | rfl
    · exact hl.spent i id current h q hq hid a ha
    · simp [hc] at ha
  · intro q hq a ha hra
    rw [hrows]
    rcases hmem q hq with hq | rfl
    · exact hl.live q hq a ha (hreceipts ▸ hra)
    · simp [hc] at ha

/-- The relayer executes a command whose caller still waits for it. -/
lemma execute (hl : Ledger s work) {i : ι} {k h : ℕ} {c : Command} (hrows : s'.rows = s.rows)
    (hk : s.commands[k]? = some c) (hc : c.txHash = none)
    (hcommands : s'.commands = s.commands.set k { c with txHash := some h })
    (hreceipts : s'.receipts = s.receipts) (hnew : ∀ q ∈ s.commands, q.txHash ≠ some h)
    (hi : work i c.inviteId = .sending none) (hi' : work' i c.inviteId = .sending (some h))
    (hwork : ∀ j id, ¬ (j = i ∧ id = c.inviteId) → work' j id = work j id) : Ledger s' work' := by
  obtain ⟨pre, post, hold, hset⟩ := exists_split_set hk { c with txHash := some h }
  rw [hset] at hcommands
  have hmem : ∀ q ∈ s'.commands, q ∈ s.commands ∨ q = { c with txHash := some h } := by
    intro q hq
    simp only [hcommands, List.mem_append, List.mem_cons] at hq
    simp only [hold, List.mem_append, List.mem_cons]
    tauto
  have hcmem : c ∈ s.commands := List.mem_of_getElem? hk
  have hoff : ∀ j id, work' j id ≠ .off → work j id ≠ .off := by
    intro j id hj
    by_cases hji : j = i ∧ id = c.inviteId
    · obtain ⟨rfl, rfl⟩ := hji
      simp [hi]
    · exact hwork j id hji ▸ hj
  constructor
  · exact hrows ▸ hl.ids
  · exact hrows ▸ hl.invitees
  · have hnd := hl.hashes
    have hfresh : ∀ q ∈ s.commands.filterMap Command.txHash, q ≠ h := by
      rintro q hq rfl
      obtain ⟨cmd, hcmd, hx⟩ := List.mem_filterMap.mp hq
      exact hnew cmd hcmd hx
    rw [hold] at hnd hfresh
    rw [hcommands]
    simp only [List.filterMap_append, List.filterMap_cons, hc] at hnd hfresh ⊢
    refine (List.perm_middle.nodup_iff).mpr (List.nodup_cons.mpr ⟨fun hm => ?_, hnd⟩)
    exact hfresh h hm rfl
  · intro q hq
    rw [hrows]
    rcases hmem q hq with hq | rfl
    · exact hl.known q hq
    · exact hl.known c hcmem
  · exact fun j id hj => hrows ▸ hl.row j id (hoff j id hj)
  · exact fun j k id hj hk => hl.exclusive j k id (hoff j id hj) (hoff k id hk)
  · intro j id current hj q hq hid a ha
    rw [hreceipts]
    by_cases hji : j = i ∧ id = c.inviteId
    · obtain ⟨rfl, rfl⟩ := hji
      rw [hi'] at hj
      cases hj
      rcases hmem q hq with hq | rfl
      · exact .inr ((hl.spent j _ _ hi q hq hid a ha).resolve_left (by simp))
      · exact .inl ha
    · rw [hwork j id hji] at hj
      rcases hmem q hq with hq | rfl
      · exact hl.spent j id current hj q hq hid a ha
      · obtain rfl := hl.exclusive j i id (by simp [hj]) (by simp [← hid, hi])
        exact absurd ⟨rfl, hid.symm⟩ hji
  · intro q hq a ha hra
    rw [hreceipts] at hra
    rcases hmem q hq with hq | rfl
    · rw [hrows]
      rcases hl.live q hq a ha hra with hrow | ⟨j, hj⟩
      · exact .inl hrow
      · refine .inr ⟨j, ?_⟩
        by_cases hji : j = i ∧ q.inviteId = c.inviteId
        · rw [hji.1, hji.2, hi] at hj
          cases hj
        · rw [hwork j _ hji, hj]
    · cases ha
      exact .inr ⟨i, hi'⟩

/-- A transaction gets into a block. -/
lemma mine (hl : Ledger s work) {h : ℕ} {b : Bool} (hrows : s'.rows = s.rows)
    (hcommands : s'.commands = s.commands) (hh : s.receipts h = none)
    (hreceipts : s'.receipts = Function.update s.receipts h (some b)) : Ledger s' work := by
  have hold : ∀ a, s.receipts a = some false → s'.receipts a = some false := by
    intro a ha
    have hne : a ≠ h := by
      rintro rfl
      simp [hh] at ha
    rw [hreceipts, Function.update_of_ne hne, ha]
  refine ⟨hrows ▸ hl.ids, hrows ▸ hl.invitees, hcommands ▸ hl.hashes,
    fun c hc => hrows ▸ hl.known c (hcommands ▸ hc), fun i id h => hrows ▸ hl.row i id h,
    hl.exclusive, fun i id current hi c hc hid a ha => ?_, fun c hc a ha hra => ?_⟩
  · exact (hl.spent i id current hi c (hcommands ▸ hc) hid a ha).imp (fun h => h) (hold a)
  · exact hrows ▸ hl.live c (hcommands ▸ hc) a ha fun hr => hra (hold a hr)

end Ledger

end Komenci.Rewards
