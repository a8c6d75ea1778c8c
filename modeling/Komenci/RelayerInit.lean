import Komenci.RelayerSteps

/-! `onModuleInit` as a task of its own: it takes up the pool's pending transactions
while calls and passes may be under way already. -/
namespace Komenci.Relayer
open Interleaving

/-- Where `onModuleInit` stands. -/
inductive InitPhase
  | updateGasPrice
  | acquire
  | refresh
  | refreshed (count : ℕ)
  | getPendingTransactions
  | finished
  deriving DecidableEq

/-- A pool that cannot be fetched counts as an empty one. -/
inductive InitEvent (P : Type)
  | gasPrice (gasPriceMinimum : Option ℚ)
  | resume
  | count (k : ℕ)
  | fail
  | pending (txs : List (Tx P))
  deriving DecidableEq

inductive ServiceTask (P : Type)
  | onModuleInit (phase : InitPhase)
  | task (t : Task P)
  deriving DecidableEq

inductive ServiceEvent (P : Type)
  | init (e : InitEvent P)
  | event (e : Event P)
  deriving DecidableEq

section Steps
variable {P ι : Type} [DecidableEq P] (cfg : AppConfig) (policy : Policy P ι)

def Shared.watchPending (s : Shared P ι) (pending : List (Tx P)) : Shared P ι :=
  { s with
    service := pending.foldl
      (fun service t => service.watchTransaction t
        ⟨t.nonce, t.gasPrice, s.clock, cfg.transactionTimeoutMs⟩) s.service }

/-- The segments of `onModuleInit`, on behalf of the caller `i`. -/
def initModule (i : ι) (s : Shared P ι) :
    InitPhase → InitEvent P → Option (Shared P ι × InitPhase)
  | .updateGasPrice, .gasPrice gasPriceMinimum =>
    some (s.updateGasPrice cfg gasPriceMinimum, .acquire)
  | .acquire, .resume =>
    if s.service.nonceLock = none then some (s.setLock (some i), .refresh) else none
  | .refresh, .count k => if policy.counts s.node k then some (s, .refreshed k) else none
  -- The error of the count ends the call, and with it the process.
  | .refresh, .fail => some (s.setLock none, .finished)
  | .refreshed k, .resume => some ((s.setNonce k).setLock none, .getPendingTransactions)
  | .getPendingTransactions, .pending txs => some (s.watchPending cfg txs, .finished)
  | _, _ => none

def serviceMachine [DecidableEq ι] :
    Machine (Shared P ι) ι (ServiceTask P) (ServiceEvent P) where
  seg i e s t :=
    match t, e with
    | .onModuleInit phase, .init e =>
      (initModule cfg policy i s phase e).map fun r => (r.1, .onModuleInit r.2)
    | .task t, .event e => (segment cfg policy i e s t).map fun r => (r.1, .task r.2)
    | _, _ => none
  env e c :=
    match e with
    | .event e => (world cfg policy e c.shared).map fun s => ⟨s, c.task⟩
    | .init _ => none

end Steps

def ServiceTask.fresh {P : Type} : ServiceTask P → Prop
  | .onModuleInit phase => phase = .updateGasPrice
  | .task t => t.fresh

/-- The service right after its constructor. The counter is not set yet. -/
structure Constructed {P ι : Type} (cfg : AppConfig)
    (c : Config (Shared P ι) ι (ServiceTask P)) : Prop where
  service : ∃ nonce, c.shared.service = ⟨[], fun _ => none, cfg.gasPriceFallback, none, nonce⟩
  clock : 0 < c.shared.clock
  task : ∀ i, (c.task i).fresh

variable {P ι : Type} {cfg : AppConfig} {policy : Policy P ι} [DecidableEq P]

/-- The steps of `onModuleInit`. -/
inductive InitStep (cfg : AppConfig) (policy : Policy P ι) (i : ι) (s : Shared P ι) :
    InitPhase → InitEvent P → Shared P ι → InitPhase → Prop
  | gasPrice {raw} : InitStep cfg policy i s .updateGasPrice (.gasPrice raw)
      (s.updateGasPrice cfg raw) .acquire
  | acquire : s.service.nonceLock = none →
      InitStep cfg policy i s .acquire .resume (s.setLock (some i)) .refresh
  | counted {k} : policy.counts s.node k = true →
      InitStep cfg policy i s .refresh (.count k) s (.refreshed k)
  | uncounted : InitStep cfg policy i s .refresh .fail (s.setLock none) .finished
  | refreshed {k} : InitStep cfg policy i s (.refreshed k) .resume
      ((s.setNonce k).setLock none) .getPendingTransactions
  | pending {txs} : InitStep cfg policy i s .getPendingTransactions (.pending txs)
      (s.watchPending cfg txs) .finished

lemma initModule_step {i : ι} {s : Shared P ι} {phase : InitPhase} {e : InitEvent P}
    {r : Shared P ι × InitPhase} (h : initModule cfg policy i s phase e = some r) :
    InitStep cfg policy i s phase e r.1 r.2 := by
  unfold initModule at h
  split at h
  case h_2 =>
    split_ifs at h with hl
    cases h
    exact .acquire hl
  case h_3 =>
    split_ifs at h with hc
    cases h
    exact .counted hc
  all_goals
    cases h <;> constructor

variable [DecidableEq ι]

lemma step_initModule {c : Config (Shared P ι) ι (ServiceTask P)} {i : ι} {phase : InitPhase}
    {e : InitEvent P} {r : Shared P ι × InitPhase} (hi : c.task i = .onModuleInit phase)
    (h : initModule cfg policy i c.shared phase e = some r) :
    (serviceMachine cfg policy).step c (.task i (.init e)) =
      some (c.resume i (r.1, .onModuleInit r.2)) := by
  simp [Machine.step, serviceMachine, hi, h]

/-- Run without an interruption, the segments leave what `onModuleInit` describes. -/
theorem run_onModuleInit {c : Config (Shared P ι) ι (ServiceTask P)} {i : ι} {raw : Option ℚ}
    {k : ℕ} {txs : List (Tx P)} (hc : Constructed cfg c)
    (hi : c.task i = .onModuleInit .updateGasPrice) (hk : policy.counts c.shared.node k = true) :
    ∃ d, Run (serviceMachine cfg policy) anyStep c d ∧ d.task i = .onModuleInit .finished ∧
      d.shared = { c.shared with service := onModuleInit cfg raw k txs c.shared.clock } := by
  obtain ⟨nonce, hservice⟩ := hc.service
  let s₁ := c.shared.updateGasPrice cfg raw
  let s₂ := s₁.setLock (some i)
  let s₃ := (s₂.setNonce k).setLock none
  have hlock : s₁.service.nonceLock = none := by simp [s₁, Shared.updateGasPrice, hservice]
  have hcount : policy.counts s₂.node k = true := hk
  have h₁ : initModule cfg policy i c.shared .updateGasPrice (.gasPrice raw) =
      some (s₁, .acquire) := rfl
  have h₂ : initModule cfg policy i s₁ .acquire .resume = some (s₂, .refresh) := if_pos hlock
  have h₃ : initModule cfg policy i s₂ .refresh (.count k) = some (s₂, .refreshed k) := if_pos hcount
  have h₄ : initModule cfg policy i s₂ (.refreshed k) .resume =
      some (s₃, .getPendingTransactions) := rfl
  have h₅ : initModule cfg policy i s₃ .getPendingTransactions (.pending txs) =
      some (s₃.watchPending cfg txs, .finished) := rfl
  have hrun := Run.refl (M := serviceMachine cfg policy) (P := anyStep) c
  replace hrun := hrun.snoc trivial (step_initModule hi h₁)
  replace hrun := hrun.snoc trivial (step_initModule (Config.resume_self _ _ _) h₂)
  replace hrun := hrun.snoc trivial (step_initModule (Config.resume_self _ _ _) h₃)
  replace hrun := hrun.snoc trivial (step_initModule (Config.resume_self _ _ _) h₄)
  replace hrun := hrun.snoc trivial (step_initModule (Config.resume_self _ _ _) h₅)
  refine ⟨_, hrun, Config.resume_self _ _ _, ?_⟩
  have hs₃ : s₃.service = { updateGasPrice cfg raw
      (⟨[], fun _ => none, cfg.gasPriceFallback, none, 0⟩ : Service P ι) with nonce := k } := by
    simp only [s₃, s₂, s₁, Shared.setLock, Shared.setNonce, Shared.updateGasPrice, hservice,
      updateGasPrice]
    cases raw with
    | some raw => rfl
    | none => split_ifs <;> rfl
  rw [Config.resume_shared, Shared.watchPending, hs₃]
  rfl

end Komenci.Relayer
