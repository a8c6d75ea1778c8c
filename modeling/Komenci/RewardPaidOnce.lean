import Komenci.RewardPayments

/-! At most one transfer for a row succeeds in a run on which nothing is lost. -/
namespace Komenci.Rewards
open Interleaving

variable {ι κ : Type}

section Execute
variable {s : Shared ι κ} {i : ι} {t : Task}

lemma sendPhase_waitsFor {phase : SendPhase} {k : ℕ} (h : phase.waitsFor k = true) :
    phase = .awaiting k := by
  cases phase <;> simp_all [SendPhase.waitsFor]

/-- A task that waits for a command is sending for the row of the command. -/
lemma work_of_waitsFor {k : ℕ} {q : Command} (hr : RightTask i s t) (h : t.waitsFor k = true)
    (hk : s.commands[k]? = some q) (commands : List Command) :
    t.work commands q.inviteId = .sending (answer commands k) := by
  match t with
  | .handleWithdrawalEvent event (.send invite phase) =>
    obtain rfl := sendPhase_waitsFor h
    obtain ⟨c, hc, hid⟩ := hr
    obtain rfl := Option.some.inj (hk.symm.trans hc)
    simp [Task.work, hid, SendPhase.work]
  | .checkFailedInvites (.running ids item aborted) =>
    obtain ⟨id, hid, hw⟩ := List.any_eq_true.mp h
    cases hitem : item id with
    | none => simp [hitem] at hw
    | some p =>
      obtain ⟨invite, phase⟩ := p
      rw [hitem] at hw
      cases phase with
      | send phase =>
        obtain rfl := sendPhase_waitsFor hw
        obtain ⟨c, hc, hcid⟩ := (hr id invite _ hitem).send _ rfl
        obtain rfl := Option.some.inj (hk.symm.trans hc)
        simp [Task.work, hcid, hitem, ItemPhase.work, SendPhase.work]
      | _ => cases hw
  | .handleWithdrawalEvent _ .start | .handleWithdrawalEvent _ (.getTransaction _)
  | .handleWithdrawalEvent _ (.conditions _ _) | .handleWithdrawalEvent _ (.save _ _)
  | .handleWithdrawalEvent _ .finished | .checkFailedInvites .start
  | .checkFailedInvites .select | .checkFailedInvites .finished
  | .checkWatchedInvites _ | .stopped => cases h

end Execute

section Steps
variable [DecidableEq ι] [DecidableEq κ] {cfg : AppConfig} {inst : ι → κ}
  {c d : Config (Shared ι κ) ι Task}

omit [DecidableEq κ] in
lemma touches_ledger {i : ι} {s : Shared ι κ} {phase phase' : WatchedPhase}
    (hl : Ledger c.shared (works c)) (hi : c.task i = .checkWatchedInvites phase)
    (h : Touches c.shared s) : Ledger s (works (c.resume i (s, .checkWatchedInvites phase'))) := by
  obtain ⟨-, hcommands, hreceipts, hrows⟩ := h
  obtain ⟨g, hg, hnone⟩ : ∃ g, s.rows = c.shared.rows.map (rewrite g) ∧
      ∀ id u, g id = some u → u.rewardTxHash = none := by
    rcases hrows with hrows | ⟨id, state, -, hrows⟩
    · exact ⟨fun _ => none, by rw [rewrite_none, hrows], fun _ _ h => by cases h⟩
    · refine ⟨_, hrows.trans (update_rewrite c.shared id ⟨state, none⟩), fun id' u hu => ?_⟩
      split_ifs at hu
      cases hu
      rfl
  have hoff : ∀ id, works c i id = .off := by
    intro id
    rw [works, hi]
    rfl
  refine task_settle hl hg hcommands hreceipts ?_ ?_ ?_
  · exact fun id u txHash hu hh => by simp [hnone id u hu] at hh
  · exact fun id => .inr (.inl rfl)
  · intro id txHash hheld
    rw [hoff] at hheld
    cases hheld

omit [DecidableEq ι] [DecidableEq κ] in
/-- A command is executed that somebody waits for. -/
lemma execute_ledger {k txHash : ℕ} {q : Command} (hl : Ledger c.shared (works c))
    (hright : ∀ j, RightTask j c.shared (c.task j)) (hwaits : ∃ i, (c.task i).waitsFor k = true)
    (hk : c.shared.commands[k]? = some q) (hq : q.txHash = none)
    (hnew : ∀ a ∈ c.shared.commands, a.txHash ≠ some txHash) :
    Ledger { c.shared with commands := c.shared.commands.set k { q with txHash := some txHash } }
      (works ⟨{ c.shared with
        commands := c.shared.commands.set k { q with txHash := some txHash } }, c.task⟩) := by
  obtain ⟨i, hi⟩ := hwaits
  have hlt := (List.getElem?_eq_some_iff.mp hk).1
  have hold : works c i q.inviteId = .sending none := by
    rw [works, work_of_waitsFor (hright i) hi hk]
    simp [answer, hk, hq]
  refine hl.execute (i := i) (h := txHash) (by rfl) hk hq (by rfl) (by rfl) hnew hold ?_ ?_
  · rw [works, work_of_waitsFor (hright i) hi hk]
    simp [answer, List.getElem?_set_self hlt]
  · intro j id hne
    apply work_congr id (hright j)
    intro k' a hk' haid hoff
    by_cases hkk : k' = k
    · subst hkk
      obtain rfl := Option.some.inj (hk.symm.trans hk')
      subst haid
      have hji : j = i := hl.exclusive j i q.inviteId hoff (by simp [hold])
      exact absurd ⟨hji, rfl⟩ hne
    · exact answer_set _ hkk

/-- The ledger is kept by every step on which nothing is lost. -/
lemma step_ledger {l : Label ι (Event κ)} (hl : Ledger c.shared (works c))
    (hright : ∀ j, RightTask j c.shared (c.task j)) (hsafe : Reliable inst c l)
    (h : (machine cfg inst).step c l = some d) : Ledger d.shared (works d) := by
  cases step_cases h with
  | handler hi hs => exact handler_ledger hl hright hi hsafe hs
  | failed hi hs => exact failed_ledger hl hright hi hsafe hs
  | watched hi ht => exact touches_ledger hl hi ht.touches
  | execute hk hq _ hnew => exact execute_ledger hl hright hsafe hk hq hnew
  | mine hreceipt => exact hl.mine rfl rfl hreceipt rfl
  | @restart k =>
    refine hl.settle (f := id) (by simp [Shared.restart]) (by rfl) (by rfl)
      (fun _ => ⟨rfl, rfl⟩) (fun _ _ => .inl rfl) (fun i row => ?_) fun i row txHash hheld => ?_
    · by_cases hi : inst i = k
      · exact .inr (.inl (by simp [works, hi, work_stop]))
      · exact .inl (by simp [works, hi, Shared.restart])
    · by_cases hi : inst i = k
      · exact absurd hheld (not_unrecorded (hright i) (hsafe i hi) row txHash)
      · exact .inl (by simp [works, hi, Shared.restart])
  | tick =>
    refine hl.settle (f := id) ?_ (by rfl) (by rfl) (fun _ => ⟨rfl, rfl⟩) ?_ ?_ ?_
    · exact (List.map_id _).symm
    · exact fun _ _ => .inl rfl
    · exact fun _ _ => .inl rfl
    · exact fun _ _ _ _ => .inl rfl

omit [DecidableEq ι] [DecidableEq κ] in
lemma initial_ledger (h : Initial c) : Ledger c.shared (works c) := by
  have hoff : ∀ i id, works c i id = .off := fun i id => work_fresh (h.task i) _ id
  constructor
  · simp [h.rows]
  · simp [h.rows]
  · simp [h.commands]
  · simp [h.commands]
  · exact fun i id hne => absurd (hoff i id) hne
  · exact fun i j id hne _ => absurd (hoff i id) hne
  · intro i id current hw
    rw [hoff] at hw
    cases hw
  · simp [h.commands]

/-- The ledger holds after every run on which nothing is lost. -/
theorem run_ledger (hinit : Initial c) (hrun : Run (machine cfg inst) (Reliable inst) c d) :
    Ledger d.shared (works d) := by
  have hholds : (rightOutline cfg inst).Holds c :=
    ⟨trivial, fun i => rightTask_fresh (hinit.task i)⟩
  have hstep : ∀ c l d, Ledger c.shared (works c) ∧ (rightOutline cfg inst).Holds c →
      Reliable inst c l → (machine cfg inst).step c l = some d →
        Ledger d.shared (works d) ∧ (rightOutline cfg inst).Holds d := by
    rintro c l d ⟨hl, hr⟩ hsafe h
    exact ⟨step_ledger hl hr.2 hsafe h, (rightOutline cfg inst).step hr trivial h⟩
  exact (hrun.invariant (J := fun c => Ledger c.shared (works c) ∧ (rightOutline cfg inst).Holds c)
    hstep ⟨initial_ledger hinit, hholds⟩).1

end Steps

/-- The transfer was executed and succeeded on chain. -/
def Command.paid (receipts : ℕ → Option Bool) (q : Command) : Bool :=
  q.txHash.any fun txHash => receipts txHash = some true

/-- The transfers for a row that succeeded. -/
def paidTransfers (s : Shared ι κ) (id : ℕ) : List Command :=
  s.commands.filter fun q => q.inviteId = id && q.paid s.receipts

lemma length_le_one {α : Type*} {l : List α} (hn : l.Nodup) (h : ∀ a ∈ l, ∀ b ∈ l, a = b) :
    l.length ≤ 1 := by
  match l with
  | [] => simp
  | [a] => simp
  | a :: b :: l =>
    obtain rfl := h a (by simp) b (by simp)
    simp at hn

/-- A ledger has at most one paid transfer for a row. -/
lemma Ledger.paid_le_one {s : Shared ι κ} {work : ι → ℕ → Work} (hl : Ledger s work) (id : ℕ) :
    (paidTransfers s id).length ≤ 1 := by
  have hhash : ∀ q ∈ paidTransfers s id, ∃ txHash, q.txHash = some txHash ∧
      s.receipts txHash = some true ∧ q ∈ s.commands ∧ q.inviteId = id := by
    intro q hq
    obtain ⟨hmem, hq⟩ := List.mem_filter.mp hq
    simp only [Bool.and_eq_true, decide_eq_true_eq, Command.paid, Option.any_eq_true] at hq
    obtain ⟨hid, txHash, hh, hpaid⟩ := hq
    exact ⟨txHash, hh, hpaid, hmem, hid⟩
  have hlen : ((paidTransfers s id).filterMap Command.txHash).length =
      (paidTransfers s id).length := by
    apply List.filterMap_length_eq_length.mpr
    intro q hq
    obtain ⟨txHash, hh, -⟩ := hhash q hq
    simp [hh]
  rw [← hlen]
  apply length_le_one
  · exact hl.hashes.sublist (List.filter_sublist.filterMap _)
  · intro a ha b hb
    obtain ⟨q, hq, hqa⟩ := List.mem_filterMap.mp ha
    obtain ⟨r, hr, hrb⟩ := List.mem_filterMap.mp hb
    obtain ⟨x, hx, hpx, hqm, hqid⟩ := hhash q hq
    obtain ⟨y, hy, hpy, hrm, hrid⟩ := hhash r hr
    obtain rfl : x = a := Option.some.inj (hx.symm.trans hqa)
    obtain rfl : y = b := Option.some.inj (hy.symm.trans hrb)
    exact hl.live_unique hqm hrm (hqid.trans hrid.symm) hx hy (by simp [hpx]) (by simp [hpy])

section Main
variable [DecidableEq ι] [DecidableEq κ] {c d : Config (Shared ι κ) ι Task}

/-- No invitee is paid twice in a run on which no answer of the relayer and no record of a
transfer is lost. -/
theorem paid_once (cfg : AppConfig) (inst : ι → κ) (hinit : Initial c)
    (hrun : Run (machine cfg inst) (Reliable inst) c d) (id : ℕ) :
    (paidTransfers d.shared id).length ≤ 1 :=
  (run_ledger hinit hrun).paid_le_one id

end Main

section Samples

def sampleConfig : AppConfig := ⟨1, 1, 2, [9]⟩

def Shared.empty : Shared ι κ :=
  ⟨[], fun _ => none, [], fun _ => none, fun _ => [], fun _ => false, fun _ => false, 0⟩

/-- One instance with one withdrawal event and one pass of `checkFailedInvites`. -/
def oneInvite : Config (Shared (Fin 2) Unit) (Fin 2) Task :=
  ⟨.empty, ![.handleWithdrawalEvent ⟨40, 11, 1, 7⟩ .start, .checkFailedInvites .start]⟩

lemma oneInvite_initial : Initial oneInvite :=
  ⟨rfl, rfl, fun i => by fin_cases i <;> rfl⟩

/-- The handler makes the row and hands its transfer to the relayer. -/
def handed (i : Fin 2) (id : ℕ) : List (Label (Fin 2) (Event Unit)) :=
  [.task i (.handler .resume), .task i (.handler (.transaction (some 8) 9)),
    .task i (.handler (.conditions true true)), .task i (.handler (.save id)),
    .task i (.handler (.send .prepared))]

instance (commands : List Command) (phase : SendPhase) (e : SendEvent) :
    Decidable (SafeSend commands phase e) := by
  unfold SafeSend
  induction phase using SendPhase.casesOn <;> induction e using SendEvent.casesOn <;> infer_instance

instance [Fintype ι] (c : Config (Shared ι κ) ι Task) (i : ι) (t : Task) (e : Event κ) :
    Decidable (SafeStep c i t e) := by
  unfold SafeStep
  induction t using Task.casesOn with
  | handleWithdrawalEvent event phase =>
    induction phase using HandlerPhase.casesOn with
    | send invite phase =>
      induction e using Event.casesOn with
      | handler e => induction e using HandlerEvent.casesOn <;> infer_instance
      | _ => infer_instance
    | _ => infer_instance
  | checkFailedInvites phase =>
    induction phase using FailedPhase.casesOn with
    | select =>
      induction e using Event.casesOn with
      | failed e => induction e using FailedEvent.casesOn <;> infer_instance
      | _ => infer_instance
    | running ids item aborted =>
      induction e using Event.casesOn with
      | failed e =>
        induction e using FailedEvent.casesOn with
        | item id e =>
          induction e using ItemEvent.casesOn with
          | send e =>
            dsimp only
            generalize item id = entry
            induction entry using Option.casesOn with
            | none => infer_instance
            | some entry =>
              induction entry using Prod.casesOn with
              | mk invite phase => induction phase using ItemPhase.casesOn <;> infer_instance
          | _ => infer_instance
        | _ => infer_instance
      | _ => infer_instance
    | _ => infer_instance
  | checkWatchedInvites phase => infer_instance
  | stopped => infer_instance

instance [Fintype ι] [DecidableEq κ] (inst : ι → κ) (c : Config (Shared ι κ) ι Task)
    (l : Label ι (Event κ)) : Decidable (Reliable inst c l) := by
  unfold Reliable
  induction l using Label.casesOn with
  | env e => induction e using Event.casesOn <;> infer_instance
  | task i e => infer_instance

theorem paid_once_answered :
    Initial oneInvite ∧ ∃ d, Run (machine sampleConfig fun _ => ()) (Reliable fun _ => ()) oneInvite d ∧
      d.shared.rows.map InviteRewardRow.id = [100] ∧ (paidTransfers d.shared 100).length ≤ 1 := by
  obtain ⟨d, hrun, hd⟩ := Run.exists_of_exec (M := machine sampleConfig fun _ => ())
    (P := Reliable fun _ => ()) (c := oneInvite)
    (q := fun d => d.shared.rows.map InviteRewardRow.id = [100])
    (handed 0 100 ++ [.env (.execute 0 500), .task 0 (.handler (.send .reply)),
      .task 0 (.handler (.send .write)), .env (.mine 500 true)])
    (by decide +kernel)
  exact ⟨oneInvite_initial, d, hrun, hd, paid_once sampleConfig _ oneInvite_initial hrun 100⟩

/-- The relayer executes the first transfer after its caller has given up. The row is
Failed and has no hash, so half an hour later the transfer is sent again. -/
theorem paid_twice :
    Initial oneInvite ∧ ∃ d, Run (machine sampleConfig fun _ => ()) anyStep oneInvite d ∧
      (paidTransfers d.shared 100).length = 2 := by
  refine ⟨oneInvite_initial, Run.exists_of_exec (handed 0 100 ++
    [.task 0 (.handler (.send .error)), .task 0 (.handler (.send .write)),
      .env (.execute 0 500), .env (.mine 500 true), .env (.tick retryAfterMs),
      .task 1 (.failed .resume), .task 1 (.failed (.select [100])),
      .task 1 (.failed (.item 100 .status)), .task 1 (.failed (.item 100 (.send .prepared))),
      .env (.execute 1 501), .env (.mine 501 true)]) ?_⟩
  decide +kernel

end Samples

end Komenci.Rewards
