import Komenci.RelayerCosts

/-! How a call of the relayer ends: the mutex is with a call in its critical section or with
nobody, and no call is ever stuck. -/
namespace Komenci.Relayer
open Interleaving

variable {P ι : Type} {cfg : AppConfig} {policy : Policy P ι}

section Lock
variable [DecidableEq P] {i : ι} {s s' : Shared P ι}

/-- A segment takes the mutex when it is free and enters the critical section, gives it back when
it leaves, or does neither. -/
lemma submitStep_lock {p : P} {phase phase' : SubmitPhase P} {e : SubmitEvent}
    (h : SubmitStep cfg policy i p s phase e s' phase') (ht : phase.Tried) :
    (s'.service.nonceLock = s.service.nonceLock ∧ phase'.holds = phase.holds) ∨
      (s.service.nonceLock = none ∧ s'.service.nonceLock = some i ∧ phase'.holds = true) ∨
      phase.holds = true ∧ s'.service.nonceLock = none ∧ phase'.holds = false := by
  cases h with
  | acquire hl | acquireRefresh hl => exact .inr (.inl ⟨hl, rfl, rfl⟩)
  | failed | refreshed => exact .inr (.inr ⟨rfl, rfl, (nextSubmit_bounds ht _).2.2.2⟩)
  | gasPrice =>
    refine .inl ⟨?_, (nextSubmit_bounds ht _).2.2.2⟩
    simp [Shared.updateGasPrice]
  | sent | priced | tooLow | uncounted => exact .inr (.inr ⟨rfl, rfl, rfl⟩)
  | _ => exact .inl ⟨rfl, rfl⟩

end Lock

section Machine
variable [DecidableEq P] [DecidableEq ι] {c d : Config (Shared P ι) ι (Task P)}

/-- The mutex is with the call that is in its critical section, and no call has more tries than
it may have. -/
structure Orderly (c : Config (Shared P ι) ι (Task P)) : Prop where
  lock : ∀ i, c.shared.service.nonceLock = some i ↔
    ∃ p phase, c.task i = .submitTransaction p phase ∧ phase.holds = true
  tried : ∀ i p phase, c.task i = .submitTransaction p phase → phase.Tried

omit [DecidableEq P] [DecidableEq ι] in
/-- A step that neither touches the mutex nor a call of `submitTransaction` changes nothing. -/
lemma Orderly.keep (hc : Orderly c)
    (hlock : d.shared.service.nonceLock = c.shared.service.nonceLock)
    (htask : ∀ i p phase, d.task i = .submitTransaction p phase ↔
      c.task i = .submitTransaction p phase) : Orderly d where
  lock i := by simp only [hlock, hc.lock i, htask]
  tried i p phase hi := hc.tried i p phase ((htask i p phase).mp hi)

omit [DecidableEq P] in
/-- A task of another kind goes on. -/
lemma Orderly.resume_other (hc : Orderly c) {i : ι} {s : Shared P ι} {t : Task P}
    (hlock : s.service.nonceLock = c.shared.service.nonceLock)
    (hold : ∀ p phase, c.task i ≠ .submitTransaction p phase)
    (hnew : ∀ p phase, t ≠ .submitTransaction p phase) : Orderly (c.resume i (s, t)) := by
  refine hc.keep hlock fun j p phase => ?_
  by_cases hj : j = i
  · subst hj
    simp [hold p phase, hnew p phase]
  · rw [Config.resume_ne _ _ hj]

/-- A call of `submitTransaction` goes on. -/
lemma Orderly.resume_submit (hc : Orderly c) {i : ι} {p : P} {phase phase' : SubmitPhase P}
    {e : SubmitEvent} {s : Shared P ι} (hi : c.task i = .submitTransaction p phase)
    (h : SubmitStep cfg policy i p c.shared phase e s phase') :
    Orderly (c.resume i (s, .submitTransaction p phase')) := by
  have ht := hc.tried i p phase hi
  have hother : ∀ j ≠ i, s.service.nonceLock = some j ↔ c.shared.service.nonceLock = some j := by
    intro j hj
    have hne : some i ≠ some j := fun heq => hj (Option.some.inj heq).symm
    obtain ⟨hlock, -⟩ | ⟨hfree, hlock, -⟩ | ⟨hholds, hlock, -⟩ := submitStep_lock h ht
    · rw [hlock]
    · simp [hfree, hlock, hne]
    · rw [hlock, (hc.lock i).mpr ⟨p, phase, hi, hholds⟩]
      simp [hne]
  have hself : s.service.nonceLock = some i ↔ phase'.holds = true := by
    have hold : c.shared.service.nonceLock = some i ↔ phase.holds = true := by
      rw [hc.lock i]
      constructor
      · rintro ⟨q, phase₀, hq, hholds⟩
        obtain ⟨rfl, rfl⟩ := Task.submitTransaction.inj (hi.symm.trans hq)
        exact hholds
      · exact fun hholds => ⟨p, phase, hi, hholds⟩
    obtain ⟨hlock, hholds⟩ | ⟨-, hlock, hholds⟩ | ⟨-, hlock, hholds⟩ := submitStep_lock h ht
    · rw [hlock, hold, hholds]
    · simp [hlock, hholds]
    · simp [hlock, hholds]
  constructor
  · intro j
    by_cases hj : j = i
    · subst hj
      rw [Config.resume_shared, Config.resume_self, hself]
      exact ⟨fun hholds => ⟨p, phase', rfl, hholds⟩, fun ⟨q, phase₀, heq, hholds⟩ =>
        (Task.submitTransaction.inj heq).2 ▸ hholds⟩
    · rw [Config.resume_shared, Config.resume_ne _ _ hj, hother j hj, hc.lock j]
  · intro j q phase₀ hq
    by_cases hj : j = i
    · subst hj
      rw [Config.resume_self] at hq
      obtain ⟨rfl, rfl⟩ := Task.submitTransaction.inj hq
      exact (submitStep_cost h ht).1
    · exact hc.tried j q phase₀ (by rwa [Config.resume_ne _ _ hj] at hq)

lemma Orderly.step {l : Label ι (Event P)} (hc : Orderly c)
    (h : (machine cfg policy).step c l = some d) : Orderly d := by
  cases step_cases h with
  | submit hi hs => exact hc.resume_submit hi hs
  | check hi hs =>
    exact hc.resume_other (checkStep_lock hs) (by simp [hi]) fun _ _ h => by cases h
  | odis hi hs =>
    refine hc.resume_other ?_ (by simp [hi]) fun _ _ h => by cases h
    cases hs <;> rfl
  | mine _ | arrive _ _ | tick => exact hc.keep rfl fun _ _ _ => Iff.rfl
  | gasPrice => exact hc.keep (by simp [Shared.updateGasPrice]) fun _ _ _ => Iff.rfl

omit [DecidableEq ι] in
lemma Initial.orderly (h : Initial cfg c) : Orderly c := by
  have hphase : ∀ i p phase, c.task i = .submitTransaction p phase → phase = .acquire 1 := by
    intro i p phase hi
    have hfresh := h.task i
    rwa [hi] at hfresh
  refine ⟨fun i => ?_, fun i p phase hi => ?_⟩
  · have hfree : c.shared.service.nonceLock = none := by
      obtain ⟨raw, pending, hservice, -⟩ := h.service
      rw [hservice, onModuleInit]
      exact watchAll_keeps (J := fun s => s.nonceLock = none) (fun _ _ _ hs => hs)
        (by simp)
    rw [hfree]
    constructor
    · intro hnone
      cases hnone
    · rintro ⟨p, phase, hi, hholds⟩
      rw [hphase i p phase hi] at hholds
      cases hholds
  · rw [hphase i p phase hi]
    exact Nat.le_add_left 1 2

omit [DecidableEq ι] in
/-- A call that has not ended can go on, if the mutex is free where it has to take it: the node may
always fail to answer. -/
lemma submit_enabled {i : ι} {p : P} {s : Shared P ι} {phase : SubmitPhase P}
    (hphase : ∀ r, phase ≠ .finished r)
    (hfree : phase.holds = false → s.service.nonceLock = none) :
    ∃ e r, submitTransaction cfg policy i p s phase e = some r := by
  cases phase with
  | acquire tries => exact ⟨.resume, _, if_pos (hfree rfl)⟩
  | send tries tx => exact ⟨.lost, _, rfl⟩
  | replied tries tx answer =>
    refine ⟨.resume, ?_⟩
    cases answer with
    | accept => exact ⟨_, rfl⟩
    | reject error => cases error <;> exact ⟨_, rfl⟩
  | watch txHash nonce => exact ⟨.resume, _, rfl⟩
  | updateGasPrice tries => exact ⟨.gasPrice none, _, rfl⟩
  | acquireRefresh tries => exact ⟨.resume, _, if_pos (hfree rfl)⟩
  | refresh tries => exact ⟨.fail, _, rfl⟩
  | refreshed tries count => exact ⟨.resume, _, rfl⟩
  | finished r => exact absurd rfl (hphase r)

lemma run_submit {i : ι} {p : P} {phase : SubmitPhase P} {e : SubmitEvent}
    {r : Shared P ι × SubmitPhase P} (hi : c.task i = .submitTransaction p phase)
    (h : submitTransaction cfg policy i p c.shared phase e = some r) :
    Run (machine cfg policy) anyStep c (c.resume i (r.1, .submitTransaction p r.2)) := by
  refine (Run.refl c).snoc trivial (l := .task i (.submit e)) ?_
  simp [Machine.step, machine, segment, hi, h]

/-- The holder of the mutex can give it back, and nobody else has to move for it. -/
lemma Orderly.release {i j : ι} {p : P} {phase : SubmitPhase P} (hc : Orderly c)
    (hi : c.task i = .submitTransaction p phase) (hholds : phase.holds = true) (hj : j ≠ i) :
    ∃ d, Run (machine cfg policy) anyStep c d ∧ Orderly d ∧ d.shared.service.nonceLock = none ∧
      d.task j = c.task j := by
  induction hleft : phase.left using Nat.strong_induction_on generalizing c phase with
  | _ left ih =>
    subst hleft
    have hphase : ∀ r, phase ≠ .finished r := fun r heq => by rw [heq] at hholds; cases hholds
    obtain ⟨e, r, hr⟩ := @submit_enabled P ι cfg policy _ i p c.shared phase hphase
      fun h => by rw [h] at hholds; cases hholds
    have hstep := submitTransaction_step hr
    have hrun := run_submit hi hr
    have horderly := hc.resume_submit hi hstep
    have ht := hc.tried i p phase hi
    have hself : (c.resume i (r.1, .submitTransaction p r.2)).task i = .submitTransaction p r.2 :=
      Config.resume_self _ _ _
    have hsame : (c.resume i (r.1, .submitTransaction p r.2)).task j = c.task j :=
      Config.resume_ne _ _ hj
    by_cases hnext : r.2.holds = true
    · obtain ⟨d, hd, hod, hlock, htask⟩ :=
        ih r.2.left (submitStep_cost hstep ht).2.1 horderly hself hnext rfl
      exact ⟨d, hrun.trans hd, hod, hlock, htask.trans hsame⟩
    · refine ⟨_, hrun, horderly, ?_, hsame⟩
      obtain ⟨-, hheld⟩ | ⟨-, -, hheld⟩ | ⟨-, hlock, -⟩ := submitStep_lock hstep ht
      · exact absurd (hheld.trans hholds) hnext
      · exact absurd hheld hnext
      · exact hlock

/-- From wherever it stands a call can be brought to its end. -/
lemma Orderly.finishes {i : ι} {p : P} {phase : SubmitPhase P} (hc : Orderly c)
    (hi : c.task i = .submitTransaction p phase) :
    ∃ d r, Run (machine cfg policy) anyStep c d ∧ d.task i = .submitTransaction p (.finished r) := by
  induction hleft : phase.left using Nat.strong_induction_on generalizing c phase with
  | _ left ih =>
    subst hleft
    by_cases hend : ∃ r, phase = .finished r
    · obtain ⟨r, rfl⟩ := hend
      exact ⟨c, r, .refl c, hi⟩
    -- Whoever is in the way gives the mutex back first.
    obtain ⟨d, hd, hod, hdi, hfree⟩ : ∃ d, Run (machine cfg policy) anyStep c d ∧ Orderly d ∧
        d.task i = .submitTransaction p phase ∧
        (phase.holds = false → d.shared.service.nonceLock = none) := by
      cases hlock : c.shared.service.nonceLock with
      | none => exact ⟨c, .refl c, hc, hi, fun _ => hlock⟩
      | some j =>
        obtain ⟨q, phase₀, hj, hholds⟩ := (hc.lock j).mp hlock
        by_cases hij : i = j
        · subst hij
          obtain ⟨rfl, rfl⟩ := Task.submitTransaction.inj (hi.symm.trans hj)
          exact ⟨c, .refl c, hc, hi, fun h => by rw [h] at hholds; cases hholds⟩
        · obtain ⟨d, hd, hod, hnone, htask⟩ := @Orderly.release P ι cfg policy _ _ c j i q phase₀
            hc hj hholds hij
          exact ⟨d, hd, hod, htask.trans hi, fun _ => hnone⟩
    obtain ⟨e, r, hr⟩ := @submit_enabled P ι cfg policy _ i p d.shared phase
      (fun r heq => hend ⟨r, heq⟩) hfree
    have hstep := submitTransaction_step hr
    obtain ⟨b, result, hb, hresult⟩ := ih r.2.left
      (submitStep_cost hstep (hod.tried i p phase hdi)).2.1 (hod.resume_submit hdi hstep)
      (Config.resume_self _ _ _) rfl
    exact ⟨b, result, (hd.trans (run_submit hdi hr)).trans hb, hresult⟩

/-- In every reachable state the mutex is with exactly the call that is in its critical section, or
free, and every call of `submitTransaction` can still be brought to its end: there is no deadlock
and no lost mutex, whatever the node has answered or failed to answer. -/
theorem submit_never_stuck (hc : Initial cfg c) (hrun : Run (machine cfg policy) anyStep c d) :
    (∀ i, d.shared.service.nonceLock = some i ↔
      ∃ p phase, d.task i = .submitTransaction p phase ∧ phase.holds = true) ∧
    ∀ i p phase, d.task i = .submitTransaction p phase →
      ∃ e r, Run (machine cfg policy) anyStep d e ∧
        e.task i = .submitTransaction p (.finished r) := by
  have horderly := hrun.invariant (J := Orderly) (fun _ _ _ hc _ hs => hc.step hs) hc.orderly
  exact ⟨horderly.lock, fun i p phase hi => horderly.finishes hi⟩

section Samples

/-- The second call waits for the mutex while the first one's request is lost. -/
theorem submit_never_stuck_waiting :
    ∃ d, Run (machine sampleConfig Policy.standard) anyStep sample d ∧
      d.shared.service.nonceLock = some 0 ∧ ∃ e r,
        Run (machine sampleConfig Policy.standard) anyStep d e ∧
        e.task 1 = .submitTransaction 1 (.finished r) := by
  obtain ⟨d, hrun, hlock, htask⟩ := Run.exists_of_exec
    (M := machine sampleConfig Policy.standard) (P := anyStep) (c := sample)
    (q := fun d => d.shared.service.nonceLock = some 0 ∧
      d.task 1 = .submitTransaction 1 (.acquire 1))
    (submits 0 [.resume, .lost]) (by decide +kernel)
  exact ⟨d, hrun, hlock, (submit_never_stuck sample_initial hrun).2 1 1 _ htask⟩

end Samples

end Machine

end Komenci.Relayer
