import Mathlib.Data.List.Induction
import Mathlib.Data.List.Nodup
import Mathlib.Logic.Function.Basic

/-! A record that is filled by assignments, one after the other. A key that is assigned again
loses its value, so all values are there exactly when no key is assigned twice. -/
namespace Komenci.RecordAssign

variable {κ ν : Type*} [DecidableEq κ]

/-- The record after the assignments, which begins empty. -/
def assign (kvs : List (κ × ν)) : κ → Option ν :=
  kvs.foldl (fun record p => Function.update record p.1 (some p.2)) fun _ => none

@[simp] lemma assign_nil (k : κ) : assign ([] : List (κ × ν)) k = none := rfl

@[simp] lemma assign_append_singleton (kvs : List (κ × ν)) (p : κ × ν) :
    assign (kvs ++ [p]) = Function.update (assign kvs) p.1 (some p.2) := by
  simp [assign]

/-- A key has the value of its last assignment. -/
lemma assign_eq_some_iff {kvs : List (κ × ν)} {k : κ} {v : ν} :
    assign kvs k = some v ↔ ∃ pre post, kvs = pre ++ (k, v) :: post ∧ k ∉ post.map Prod.fst := by
  induction kvs using List.reverseRecOn with
  | nil => simp
  | append_singleton kvs p ih =>
    rw [assign_append_singleton]
    by_cases hk : k = p.1
    · subst hk
      rw [Function.update_self, Option.some.injEq]
      constructor
      · rintro rfl
        exact ⟨kvs, [], rfl, by simp⟩
      · rintro ⟨pre, post, heq, hpost⟩
        rcases List.eq_nil_or_concat' post with rfl | ⟨post, q, rfl⟩
        · have hp := (List.append_inj' heq rfl).2
          rw [(List.cons.inj hp).1]
        · have hq : [p] = [q] := by
            rw [← List.cons_append, ← List.append_assoc] at heq
            exact (List.append_inj' heq rfl).2
          rw [(List.cons.inj hq).1] at hpost
          simp at hpost
    · rw [Function.update_of_ne hk, ih]
      constructor
      · rintro ⟨pre, post, rfl, hpost⟩
        exact ⟨pre, post ++ [p], by simp, by simpa [hk] using hpost⟩
      · rintro ⟨pre, post, heq, hpost⟩
        rcases List.eq_nil_or_concat' post with rfl | ⟨post, q, rfl⟩
        · have hp := (List.append_inj' heq rfl).2
          exact absurd (by rw [(List.cons.inj hp).1]) hk
        · rw [← List.cons_append, ← List.append_assoc] at heq
          refine ⟨pre, post, (List.append_inj' heq rfl).1, ?_⟩
          simp only [List.map_append, List.mem_append, not_or] at hpost
          exact hpost.1

/-- A value that is there was assigned. -/
lemma mem_of_assign {kvs : List (κ × ν)} {k : κ} {v : ν} (h : assign kvs k = some v) :
    (k, v) ∈ kvs := by
  obtain ⟨pre, post, rfl, -⟩ := assign_eq_some_iff.mp h
  simp

/-- Of values that differ none is lost exactly when no key is assigned twice. -/
theorem assign_keeps_iff {kvs : List (κ × ν)} (hvalues : (kvs.map Prod.snd).Nodup) :
    (∀ v ∈ kvs.map Prod.snd, ∃ k, assign kvs k = some v) ↔ (kvs.map Prod.fst).Nodup := by
  simp only [assign_eq_some_iff]
  constructor
  · intro h
    induction kvs with
    | nil => simp
    | cons p rest ih =>
      rw [List.map_cons, List.nodup_cons] at hvalues
      have hkept : ∀ v ∈ rest.map Prod.snd, ∃ k pre post,
          rest = pre ++ (k, v) :: post ∧ k ∉ post.map Prod.fst := by
        intro v hv
        obtain ⟨k, pre, post, heq, hpost⟩ := h v (List.mem_cons_of_mem _ hv)
        cases pre with
        | nil =>
          have hp : p.2 = v := by rw [(List.cons.inj heq).1]
          exact absurd (hp ▸ hv) hvalues.1
        | cons q pre => exact ⟨k, pre, post, (List.cons.inj heq).2, hpost⟩
      obtain ⟨k, pre, post, heq, hpost⟩ := h p.2 List.mem_cons_self
      rw [List.map_cons, List.nodup_cons]
      refine ⟨?_, ih hvalues.2 hkept⟩
      cases pre with
      | nil =>
        obtain ⟨hp, rfl⟩ := List.cons.inj heq
        have hkey : p.1 = k := by rw [hp]
        rwa [hkey]
      | cons q pre =>
        refine absurd ?_ hvalues.1
        rw [(List.cons.inj heq).2]
        simp
  · intro hkeys v hv
    obtain ⟨⟨k, v⟩, hmem, rfl⟩ := List.mem_map.mp hv
    obtain ⟨pre, post, rfl⟩ := List.append_of_mem hmem
    refine ⟨k, pre, post, rfl, ?_⟩
    simp only [List.map_append, List.map_cons] at hkeys
    exact (List.nodup_cons.mp (List.nodup_append.mp hkeys).2.1).1

end Komenci.RecordAssign
