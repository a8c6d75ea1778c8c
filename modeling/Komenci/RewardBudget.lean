import Komenci.RewardCap
import Komenci.RewardReceipts
import Komenci.RewardResends

/-! What the rewards of one inviter and one week may cost. -/
namespace Komenci.Rewards
open Interleaving DecimalText

section Count
variable {α β : Type*} [DecidableEq β]

/-- Entries of a list whose keys are among `ks`, at most `b` of each. -/
lemma length_le_mul {f : α → β} {b : ℕ} {ks : List β} {l : List α} (hmem : ∀ a ∈ l, f a ∈ ks)
    (hcount : ∀ k ∈ ks, l.countP (fun a => f a = k) ≤ b) : l.length ≤ b * ks.length := by
  induction ks generalizing l with
  | nil =>
    have hnil : l = [] := List.eq_nil_iff_forall_not_mem.mpr fun a ha => by simpa using hmem a ha
    simp [hnil]
  | cons k ks ih =>
    have hrest : (l.filter fun a => f a ≠ k).length ≤ b * ks.length := by
      apply ih
      · intro a ha
        obtain ⟨ha, hne⟩ := List.mem_filter.mp ha
        simpa [of_decide_eq_true hne] using hmem a ha
      · intro j hj
        exact List.filter_sublist.countP_le.trans (hcount j (List.mem_cons_of_mem k hj))
    have hsplit := List.length_eq_countP_add_countP (fun a => decide (f a = k)) (l := l)
    have hk := hcount k List.mem_cons_self
    rw [← List.countP_eq_length_filter] at hrest
    simp only [decide_eq_true_eq, ne_eq] at hsplit hrest
    rw [List.length_cons, Nat.mul_succ]
    omega

end Count

variable {ι κ : Type}

/-- The transfers that were handed to the relayer for the rows of an inviter and a week. -/
def handedOver (s : Shared ι κ) (inviter week : ℕ) : List Command :=
  s.commands.filter fun q => (weekRows s inviter week).any fun row => row.id = q.inviteId

/-- Those that succeeded on chain. -/
def payouts (s : Shared ι κ) (inviter week : ℕ) : List Command :=
  (handedOver s inviter week).filter fun q => q.paid s.receipts

def AppConfig.reward (cfg : AppConfig) : ℤ := toFixed (cfg.inviteRewardAmountInCusd * WEI_PER_UNIT)

/-- So many rewards, and all of them to the inviter. -/
def Amounts (cfg : AppConfig) (inviter n : ℕ) (transfers : List Command) : Prop :=
  (transfers.map Command.value).sum = n * cfg.reward ∧ ∀ q ∈ transfers, q.recipient = inviter

section Money
variable {cfg : AppConfig} {s : Shared ι κ} {inviter week : ℕ}

lemma handedOver_row {q : Command} (h : q ∈ handedOver s inviter week) :
    q.inviteId ∈ (weekRows s inviter week).map InviteRewardRow.id := by
  obtain ⟨-, h⟩ := List.mem_filter.mp h
  obtain ⟨row, hrow, hid⟩ := List.any_eq_true.mp h
  exact List.mem_map.mpr ⟨row, hrow, of_decide_eq_true hid⟩

/-- Transfers of rows are as many rewards as there are transfers. -/
lemma Books.amounts (hb : Books cfg s) (hids : (s.rows.map InviteRewardRow.id).Nodup)
    {transfers : List Command} (hsub : transfers.Sublist (handedOver s inviter week)) :
    Amounts cfg inviter transfers.length transfers := by
  have htransfer : ∀ q ∈ transfers, q.value = cfg.reward ∧ q.recipient = inviter := by
    intro q hq
    have hover := hsub.subset hq
    obtain ⟨row, hrow, hid⟩ := List.mem_map.mp (handedOver_row hover)
    obtain ⟨hrow, hweek⟩ := List.mem_filter.mp hrow
    obtain ⟨row', hrow', heq⟩ := hb.commands q (List.mem_of_mem_filter hover)
    have hid' : q.inviteId = row'.id := by rw [heq]; rfl
    obtain rfl := List.inj_on_of_nodup_map hids hrow hrow' (hid.trans hid')
    simp only [Bool.and_eq_true, decide_eq_true_eq] at hweek
    rw [heq]
    exact ⟨rfl, hweek.1⟩
  refine ⟨?_, fun q hq => (htransfer q hq).2⟩
  have hvalues : transfers.map Command.value = List.replicate transfers.length cfg.reward := by
    rw [← List.map_const']
    exact List.map_congr_left fun q hq => (htransfer q hq).1
  rw [hvalues, List.sum_replicate, nsmul_eq_mul]

/-- With at most `b` transfers for a row there are `b` for every row that the limit allows. -/
lemma length_le_limit {b : ℕ} {transfers : List Command}
    (hcap : (weekRows s inviter week).length ≤ WEEKLY_INVITE_LIMIT)
    (hsub : transfers.Sublist (handedOver s inviter week))
    (hcount : ∀ id, transfers.countP (fun q => q.inviteId = id) ≤ b) :
    transfers.length ≤ b * WEEKLY_INVITE_LIMIT := by
  have hlen : transfers.length ≤ b * ((weekRows s inviter week).map InviteRewardRow.id).length :=
    length_le_mul (fun q hq => handedOver_row (hsub.subset hq)) fun id _ => hcount id
  rw [List.length_map] at hlen
  exact hlen.trans (Nat.mul_le_mul_left b hcap)

end Money

section Steps
variable [DecidableEq ι] [DecidableEq κ] {cfg : AppConfig} {inst : ι → κ}
  {c d : Config (Shared ι κ) ι Task}

/-- A new row has a new id, and rows keep theirs. -/
lemma run_ids (hinit : Initial c) (hrun : Run (machine cfg inst) anyStep c d) :
    (d.shared.rows.map InviteRewardRow.id).Nodup := by
  apply hrun.invariant (J := fun c => (c.shared.rows.map InviteRewardRow.id).Nodup)
  · intro c l d hids _ hs
    rcases step_rows (step_cases hs) with ⟨row, hsave, hrows⟩ | ⟨g, hrows, -⟩
    · rw [hrows, List.map_append, List.map_singleton]
      refine List.nodup_append.mpr ⟨hids, List.nodup_singleton _, fun id hid id' hid' => ?_⟩
      obtain ⟨r, hr, rfl⟩ := List.mem_map.mp hid
      exact List.mem_singleton.mp hid' ▸ hsave.new r hr
    · rw [hrows, List.map_map]
      exact (List.map_congr_left fun row _ => rewrite_id g row).symm ▸ hids
  · simp [hinit.rows]

/-- What the rewards of an inviter and a week cost, in a run where the check of the limit sees all
that counts: where also a row is resent only when nothing earlier can still be written for it and
what is known of a retry is kept, the relayer is asked for at most twice the limit, and where
nothing is lost, at most the limit is paid. -/
theorem weekly_payout (cfg : AppConfig) (inst : ι → κ) (hinit : Started c) (inviter week : ℕ) :
    (Run (machine cfg inst) (fun c l => OneRetry inst c l ∧ CheckedAlone c l) c d →
      ∃ n ≤ 2 * WEEKLY_INVITE_LIMIT, Amounts cfg inviter n (handedOver d.shared inviter week)) ∧
    (Run (machine cfg inst) (fun c l => Reliable inst c l ∧ CheckedAlone c l) c d →
      ∃ n ≤ WEEKLY_INVITE_LIMIT, Amounts cfg inviter n (payouts d.shared inviter week)) := by
  have hany : ∀ {P : Config (Shared ι κ) ι Task → Label ι (Event κ) → Prop},
      Run (machine cfg inst) (fun c l => P c l ∧ CheckedAlone c l) c d →
        Books cfg d.shared ∧ (d.shared.rows.map InviteRewardRow.id).Nodup ∧
          (weekRows d.shared inviter week).length ≤ WEEKLY_INVITE_LIMIT := fun hrun =>
    have hall := hrun.mono fun _ _ _ => trivial
    ⟨run_books hinit hall, run_ids hinit.toInitial hall,
      (run_capped hinit.toInitial (hrun.mono fun _ _ h => h.2)).cap inviter week⟩
  refine ⟨fun hrun => ?_, fun hrun => ?_⟩
  · obtain ⟨hbooks, hids, hcap⟩ := hany hrun
    have hretries := run_retries hinit (hrun.mono fun _ _ h => h.1)
    refine ⟨_, length_le_limit hcap (List.Sublist.refl _) fun id => ?_,
      hbooks.amounts hids (List.Sublist.refl _)⟩
    exact List.filter_sublist.countP_le.trans (hretries.sent_le id)
  · obtain ⟨hbooks, hids, hcap⟩ := hany hrun
    have hledger := run_ledger hinit.toInitial (hrun.mono fun _ _ h => h.1)
    have hone : ∀ id, (payouts d.shared inviter week).countP (fun q => q.inviteId = id) ≤ 1 := by
      intro id
      refine le_trans ?_ (hledger.paid_le_one id)
      rw [List.countP_eq_length_filter, payouts, handedOver, List.filter_filter, List.filter_filter]
      apply List.Sublist.length_le
      exact List.monotone_filter_right _ fun q hq => by simp_all
    have hlen := length_le_limit hcap List.filter_sublist hone
    exact ⟨_, by rwa [one_mul] at hlen, hbooks.amounts hids List.filter_sublist⟩

end Steps

theorem weekly_payout_one :
    Started onePass ∧ ∃ d, Run (machine sampleConfig fun _ => ())
      (fun c l => (OneRetry (fun _ => ()) c l ∧ Reliable (fun _ => ()) c l) ∧ CheckedAlone c l)
      onePass d ∧ (payouts d.shared 7 0).length = 1 ∧
      (∃ n ≤ 2 * WEEKLY_INVITE_LIMIT, Amounts sampleConfig 7 n (handedOver d.shared 7 0)) ∧
      ∃ n ≤ WEEKLY_INVITE_LIMIT, Amounts sampleConfig 7 n (payouts d.shared 7 0) := by
  obtain ⟨d, hrun, hd⟩ := Run.exists_of_exec (M := machine sampleConfig fun _ => ())
    (P := fun c l => (OneRetry (fun _ => ()) c l ∧ Reliable (fun _ => ()) c l) ∧ CheckedAlone c l)
    (c := onePass) (q := fun d => (payouts d.shared 7 0).length = 1) (completes 0 2)
    (by decide +kernel)
  have hpayout := weekly_payout sampleConfig (fun _ => ()) (d := d) onePass_started 7 0
  exact ⟨onePass_started, d, hrun, hd, hpayout.1 (hrun.mono fun _ _ h => ⟨h.1.1, h.2⟩),
    hpayout.2 (hrun.mono fun _ _ h => ⟨h.1.2, h.2⟩)⟩

end Komenci.Rewards
