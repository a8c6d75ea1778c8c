import Mathlib

/-! Tasks that run in atomic segments over one shared state, in any order. A
segment is what a task does between two suspension points; what the outside
world answers is part of the event. The rules at the end are the only inductions
over runs that the rest of the development uses. -/
namespace Komenci.Interleaving

/-- The shared state, and where each task stands. -/
structure Config (σ ι τ : Type*) where
  shared : σ
  task : ι → τ

inductive Label (ι ε : Type*)
  | task (i : ι) (event : ε)
  | env (event : ε)
  deriving DecidableEq

/-- `seg i e s t` resumes task `i`, standing at `t`, with event `e`; `env` is a
step of the outside world, which may also end tasks. -/
structure Machine (σ ι τ ε : Type*) where
  seg : ι → ε → σ → τ → Option (σ × τ)
  env : ε → Config σ ι τ → Option (Config σ ι τ)

variable {σ ι τ ε : Type*} [DecidableEq ι]

def Config.resume (c : Config σ ι τ) (i : ι) (r : σ × τ) : Config σ ι τ :=
  ⟨r.1, Function.update c.task i r.2⟩

@[simp] lemma Config.resume_shared (c : Config σ ι τ) (i : ι) (r : σ × τ) :
    (c.resume i r).shared = r.1 := rfl

@[simp] lemma Config.resume_self (c : Config σ ι τ) (i : ι) (r : σ × τ) :
    (c.resume i r).task i = r.2 := by simp [resume]

@[simp] lemma Config.resume_ne (c : Config σ ι τ) {i j : ι} (r : σ × τ) (h : j ≠ i) :
    (c.resume i r).task j = c.task j := by simp [resume, h]

/-- What holds of the task that goes on and of the others holds of all. -/
lemma Config.forall_resume {c : Config σ ι τ} {i : ι} {r : σ × τ} {Q : ι → τ → Prop}
    (hself : Q i r.2) (hothers : ∀ j, j ≠ i → Q j (c.task j)) (j : ι) :
    Q j ((c.resume i r).task j) := by
  by_cases hj : j = i
  · subst hj
    rwa [Config.resume_self]
  · rw [Config.resume_ne _ _ hj]
    exact hothers j hj

def Machine.step (M : Machine σ ι τ ε) (c : Config σ ι τ) : Label ι ε → Option (Config σ ι τ)
  | .task i e => (M.seg i e c.shared (c.task i)).map (c.resume i)
  | .env e => M.env e c

/-- A step is a segment of one task or a step of the outside world. -/
lemma Machine.step_cases {M : Machine σ ι τ ε} {c d : Config σ ι τ} {l : Label ι ε}
    (h : M.step c l = some d) :
    (∃ i e r, l = .task i e ∧ M.seg i e c.shared (c.task i) = some r ∧ d = c.resume i r) ∨
      (∃ e, l = .env e ∧ M.env e c = some d) := by
  cases l with
  | task i e =>
    obtain ⟨r, hr, rfl⟩ := Option.map_eq_some_iff.mp h
    exact .inl ⟨i, e, r, rfl, hr, rfl⟩
  | env e => exact .inr ⟨e, rfl, h⟩

/-- The runs all of whose steps meet `P`, a condition on the configuration before
the step and on the label. -/
inductive Run (M : Machine σ ι τ ε) (P : Config σ ι τ → Label ι ε → Prop) :
    Config σ ι τ → Config σ ι τ → Prop
  | refl (c) : Run M P c c
  | snoc {c d e l} : Run M P c d → P d l → M.step d l = some e → Run M P c e

/-- No condition on the steps. -/
def anyStep (_ : Config σ ι τ) (_ : Label ι ε) : Prop := True

instance (c : Config σ ι τ) (l : Label ι ε) : Decidable (anyStep c l) := .isTrue trivial

lemma Run.trans {M : Machine σ ι τ ε} {P : Config σ ι τ → Label ι ε → Prop}
    {c d e : Config σ ι τ} (h : Run M P c d) (g : Run M P d e) : Run M P c e := by
  induction g with
  | refl => exact h
  | snoc _ hp hs ih => exact ih.snoc hp hs

lemma Run.mono {M : Machine σ ι τ ε} {P Q : Config σ ι τ → Label ι ε → Prop}
    (hpq : ∀ c l, P c l → Q c l) {c d : Config σ ι τ} (h : Run M P c d) : Run M Q c d := by
  induction h with
  | refl => exact .refl _
  | snoc _ hp hs ih => exact ih.snoc (hpq _ _ hp) hs

/-- Executes a list of labels, each of which has to meet `P`. -/
def Machine.exec (M : Machine σ ι τ ε) (P : Config σ ι τ → Label ι ε → Prop)
    [∀ c l, Decidable (P c l)] (c : Config σ ι τ) : List (Label ι ε) → Option (Config σ ι τ)
  | [] => some c
  | l :: ls => if P c l then (M.step c l).bind fun d => M.exec P d ls else none

/-- An execution is a run. -/
lemma Run.of_exec {M : Machine σ ι τ ε} {P : Config σ ι τ → Label ι ε → Prop}
    [∀ c l, Decidable (P c l)] {c d : Config σ ι τ} {ls : List (Label ι ε)}
    (h : M.exec P c ls = some d) : Run M P c d := by
  induction ls generalizing c with
  | nil =>
    simp only [Machine.exec, Option.some.injEq] at h
    exact h ▸ .refl c
  | cons l ls ih =>
    simp only [Machine.exec] at h
    split_ifs at h with hp
    obtain ⟨b, hb, hd⟩ := Option.bind_eq_some_iff.mp h
    exact (Run.snoc (.refl c) hp hb).trans (ih hd)

/-- A run to a configuration with a property that can be evaluated. -/
lemma Run.exists_of_exec {M : Machine σ ι τ ε} {P : Config σ ι τ → Label ι ε → Prop}
    [∀ c l, Decidable (P c l)] {c : Config σ ι τ} {q : Config σ ι τ → Prop} [DecidablePred q]
    (ls : List (Label ι ε))
    (h : (M.exec P c ls).any (fun d => decide (q d)) = true) : ∃ d, Run M P c d ∧ q d := by
  cases hd : M.exec P c ls with
  | none => simp [hd] at h
  | some d => exact ⟨d, Run.of_exec hd, by simpa [hd] using h⟩

/-- The same in two stretches. -/
lemma Run.exists_later_of_exec {M : Machine σ ι τ ε} {P : Config σ ι τ → Label ι ε → Prop}
    [∀ c l, Decidable (P c l)] {c : Config σ ι τ} {q r : Config σ ι τ → Prop} [DecidablePred q]
    [DecidablePred r] (ls ls' : List (Label ι ε))
    (h : (M.exec P c ls).any (fun d => decide (q d) &&
      (M.exec P d ls').any fun e => decide (r e)) = true) :
    ∃ d e, Run M P c d ∧ q d ∧ Run M P d e ∧ r e := by
  cases hd : M.exec P c ls with
  | none => simp [hd] at h
  | some d =>
    simp only [hd, Option.any_some, Bool.and_eq_true, decide_eq_true_eq] at h
    obtain ⟨e, hrun, he⟩ := Run.exists_of_exec ls' h.2
    exact ⟨d, e, Run.of_exec hd, h.1, hrun, he⟩

/-- What holds at the start and is kept by every step that meets `P` holds after
every run. -/
theorem Run.invariant {M : Machine σ ι τ ε} {P : Config σ ι τ → Label ι ε → Prop}
    {J : Config σ ι τ → Prop} (hstep : ∀ c l d, J c → P c l → M.step c l = some d → J d)
    {c d : Config σ ι τ} (h : Run M P c d) (hc : J c) : J d := by
  induction h with
  | refl => exact hc
  | snoc _ hp hs ih => exact hstep _ _ _ ih hp hs

/-- An invariant may be added to the conditions on the steps. -/
lemma Run.with_invariant {M : Machine σ ι τ ε} {P : Config σ ι τ → Label ι ε → Prop}
    {J : Config σ ι τ → Prop} (hstep : ∀ c l d, J c → P c l → M.step c l = some d → J d)
    {c d : Config σ ι τ} (h : Run M P c d) (hc : J c) : Run M (fun c l => P c l ∧ J c) c d := by
  induction h with
  | refl => exact .refl _
  | snoc hr hp hs ih => exact ih.snoc ⟨hp, hr.invariant (J := J) hstep hc⟩ hs

/-- With an invariant one condition on the steps gives another. -/
lemma Run.of_invariant {M : Machine σ ι τ ε} {P Q : Config σ ι τ → Label ι ε → Prop}
    {J : Config σ ι τ → Prop} (hpq : ∀ c l d, J c → P c l → M.step c l = some d → Q c l)
    (hstep : ∀ c l d, J c → P c l → M.step c l = some d → J d)
    {c d : Config σ ι τ} (h : Run M P c d) (hc : J c) : Run M Q c d := by
  induction h with
  | refl => exact .refl _
  | snoc hr hp hs ih => exact ih.snoc (hpq _ _ _ (hr.invariant (J := J) hstep hc) hp hs) hs

section Traced
variable {η : Type*}

/-- The runs with a record of what has happened, from which the condition on the steps may
tell more than from the configuration. -/
inductive Traced (M : Machine σ ι τ ε) (f : Config σ ι τ → Label ι ε → η → η)
    (P : η → Config σ ι τ → Label ι ε → Prop) (c₀ : Config σ ι τ) (h₀ : η) :
    Config σ ι τ → η → Prop
  | refl : Traced M f P c₀ h₀ c₀ h₀
  | snoc {c h l d} : Traced M f P c₀ h₀ c h → P h c l → M.step c l = some d →
      Traced M f P c₀ h₀ d (f c l h)

variable {M : Machine σ ι τ ε} {f : Config σ ι τ → Label ι ε → η → η}
  {P : η → Config σ ι τ → Label ι ε → Prop} {c₀ c d : Config σ ι τ} {h₀ h h' : η}

/-- The rule for invariants of the configuration and the record. -/
theorem Traced.invariant {J : Config σ ι τ → η → Prop}
    (hstep : ∀ c h l d, J c h → P h c l → M.step c l = some d → J d (f c l h))
    (hrun : Traced M f P c₀ h₀ c h) (h0 : J c₀ h₀) : J c h := by
  induction hrun with
  | refl => exact h0
  | snoc _ hp hs ih => exact hstep _ _ _ _ ih hp hs

/-- The record is only looked at: what is left without it is a run. -/
lemma Traced.run (hrun : Traced M f P c₀ h₀ c h) : Run M anyStep c₀ c := by
  induction hrun with
  | refl => exact .refl _
  | snoc _ _ hs ih => exact ih.snoc trivial hs

/-- A run has a record, and the condition on it follows from an invariant. -/
lemma Traced.of_run {Q : Config σ ι τ → Label ι ε → Prop} {J : Config σ ι τ → η → Prop}
    (hpq : ∀ c h l d, J c h → Q c l → M.step c l = some d → P h c l)
    (hstep : ∀ c h l d, J c h → Q c l → M.step c l = some d → J d (f c l h))
    (hrun : Run M Q c₀ c) (h0 : J c₀ h₀) : ∃ h, Traced M f P c₀ h₀ c h ∧ J c h := by
  induction hrun with
  | refl => exact ⟨h₀, .refl, h0⟩
  | snoc _ hq hs ih =>
    obtain ⟨h, hrun, hj⟩ := ih
    exact ⟨_, hrun.snoc (hpq _ _ _ _ hj hq hs) hs, hstep _ _ _ _ hj hq hs⟩

lemma Traced.trans (hrun : Traced M f P c₀ h₀ c h) (g : Traced M f P c h d h') :
    Traced M f P c₀ h₀ d h' := by
  induction g with
  | refl => exact hrun
  | snoc _ hp hs ih => exact ih.snoc hp hs

/-- Executes a list of labels with a record. -/
def Machine.trace (M : Machine σ ι τ ε) (f : Config σ ι τ → Label ι ε → η → η)
    (P : η → Config σ ι τ → Label ι ε → Prop) [∀ h c l, Decidable (P h c l)] (c : Config σ ι τ)
    (h : η) : List (Label ι ε) → Option (Config σ ι τ × η)
  | [] => some (c, h)
  | l :: ls => if P h c l then (M.step c l).bind fun d => M.trace f P d (f c l h) ls else none

lemma Traced.of_trace [∀ h c l, Decidable (P h c l)] {ls : List (Label ι ε)}
    {r : Config σ ι τ × η} (hr : M.trace f P c h ls = some r) : Traced M f P c h r.1 r.2 := by
  induction ls generalizing c h with
  | nil =>
    simp only [Machine.trace, Option.some.injEq] at hr
    exact hr ▸ .refl
  | cons l ls ih =>
    simp only [Machine.trace] at hr
    split_ifs at hr with hp
    obtain ⟨d, hd, hr⟩ := Option.bind_eq_some_iff.mp hr
    exact (Traced.refl.snoc hp hd).trans (ih hr)

/-- A run to a configuration and a record with a property that can be evaluated. -/
lemma Traced.exists_of_trace [∀ h c l, Decidable (P h c l)] {q : Config σ ι τ × η → Prop}
    [DecidablePred q] (ls : List (Label ι ε))
    (hq : (M.trace f P c h ls).any (fun r => decide (q r)) = true) :
    ∃ r : Config σ ι τ × η, Traced M f P c h r.1 r.2 ∧ q r := by
  cases hr : M.trace f P c h ls with
  | none => simp [hr] at hq
  | some r => exact ⟨r, .of_trace hr, by simpa [hr] using hq⟩

end Traced

/-- A proof outline in the manner of Owicki and Gries: an invariant of the shared
state and an assertion for each place a task can stand at. A segment keeps the
invariant, reaches its own next assertion and does not disturb the others. -/
structure Outline (M : Machine σ ι τ ε) (P : Config σ ι τ → Label ι ε → Prop) where
  inv : σ → Prop
  at_ : ι → σ → τ → Prop
  task : ∀ (c d : Config σ ι τ) i e, P c (.task i e) → inv c.shared →
    (∀ j, at_ j c.shared (c.task j)) → M.step c (.task i e) = some d →
      inv d.shared ∧ at_ i d.shared (d.task i) ∧ ∀ j, j ≠ i → at_ j d.shared (c.task j)
  env : ∀ (c d : Config σ ι τ) e, P c (.env e) → inv c.shared →
    (∀ j, at_ j c.shared (c.task j)) → M.step c (.env e) = some d →
      inv d.shared ∧ ∀ j, at_ j d.shared (d.task j)

/-- The configurations a proof outline describes. -/
def Outline.Holds {M : Machine σ ι τ ε} {P : Config σ ι τ → Label ι ε → Prop}
    (O : Outline M P) (c : Config σ ι τ) : Prop :=
  O.inv c.shared ∧ ∀ i, O.at_ i c.shared (c.task i)

lemma Outline.step {M : Machine σ ι τ ε} {P : Config σ ι τ → Label ι ε → Prop}
    (O : Outline M P) {c d : Config σ ι τ} {l : Label ι ε} (hc : O.Holds c) (hp : P c l)
    (h : M.step c l = some d) : O.Holds d := by
  obtain ⟨hinv, hat⟩ := hc
  cases l with
  | task i e =>
    obtain ⟨hinv', hself, hother⟩ := O.task c d i e hp hinv hat h
    obtain ⟨r, -, rfl⟩ := Option.map_eq_some_iff.mp h
    refine ⟨hinv', fun j => ?_⟩
    by_cases hj : j = i
    · exact hj ▸ hself
    · simpa [hj] using hother j hj
  | env e => exact O.env c d e hp hinv hat h

/-- The rule of the outline: it describes every configuration of a run that starts
in one it describes. -/
theorem Outline.run {M : Machine σ ι τ ε} {P : Config σ ι τ → Label ι ε → Prop}
    (O : Outline M P) {c d : Config σ ι τ} (h : Run M P c d) (hc : O.Holds c) : O.Holds d :=
  h.invariant (J := O.Holds) (fun _ _ _ hc hp hs => O.step hc hp hs) hc

/-- One entry of a list is replaced, and what stands before and after it stays. -/
lemma exists_split_set {α : Type*} {xs : List α} {k : ℕ} {x : α} (h : xs[k]? = some x) (y : α) :
    ∃ pre post, xs = pre ++ x :: post ∧ xs.set k y = pre ++ y :: post := by
  obtain ⟨hlt, rfl⟩ := List.getElem?_eq_some_iff.mp h
  obtain ⟨pre, post, hxs, -, hset⟩ := List.exists_of_set hlt
  exact ⟨pre, post, hxs, hset⟩

end Komenci.Interleaving
