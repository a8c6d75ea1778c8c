import Komenci.RelayerRequests

/-! The ledger of watched transactions: how often each has been disposed of, by an
accepted dead letter or by `TxConfirmed`, and which task is to dispose of it. A task
shows the ledger what it owns and what it has still to do, and the rules below say
how each kind of step moves the entries. -/
namespace Komenci.Relayer
open Interleaving

variable {P ι : Type}

/-- What a task shows the ledger: the requests of its that were accepted and not yet
watched, the watched transactions it has still to deal with, whether it is a pass. -/
structure View (P ι : Type) where
  owned : List (Request P ι)
  todo : List (Tx P)
  active : Prop

/-- The transaction a request was sent to replace. -/
def Request.replaces (r : Request P ι) : Option (Tx P) :=
  match r.origin with
  | .deadLetter h => some h
  | _ => none

lemma Request.replaces_eq_some {r : Request P ι} {h : Tx P} :
    r.replaces = some h ↔ r.origin = .deadLetter h := by
  unfold replaces
  split <;> simp_all

@[simp] lemma Request.replaces_submit (tx : Tx P) (i : ι) :
    (⟨tx, .submit i⟩ : Request P ι).replaces = none := rfl

@[simp] lemma Request.replaces_deadLetter (tx h : Tx P) :
    (⟨tx, .deadLetter h⟩ : Request P ι).replaces = some h := rfl

/-- What the owned dead letters replace. -/
def View.replaced (v : View P ι) : List (Tx P) := v.owned.filterMap Request.replaces

variable [DecidableEq P] [DecidableEq ι]

/-- How often `h` has been disposed of. -/
def disposals (s : Shared P ι) (h : Tx P) : ℕ :=
  s.node.accepted.countP (fun r => r.origin = .deadLetter h) + s.log.count (.TxConfirmed h)

/-- The view of a task agrees with the state. -/
structure View.Right (s : Shared P ι) (i : ι) (w : View P ι) : Prop where
  owned : ∀ r ∈ w.owned, r ∈ s.node.accepted ∧ r.tx ∉ s.service.watchedTransactions ∧
    disposals s r.tx = 0 ∧ (r.origin = .submit i ∨ r.replaces.isSome)
  nodup : (w.todo ++ w.replaced).Nodup
  todo : ∀ h ∈ w.todo ++ w.replaced, h ∈ s.service.watchedTransactions ∧ w.active

structure Ledger (s : Shared P ι) (v : ι → View P ι) : Prop where
  unique : (s.node.accepted.map Request.tx).Nodup
  holds : ∀ h, disposals s h ≠ 0 → s.node.Holds h
  once : ∀ h, disposals s h ≤ 1
  nodup : s.service.watchedTransactions.Nodup
  watched : ∀ h ∈ s.service.watchedTransactions, s.node.Holds h
  fresh : ∀ h ∈ s.service.watchedTransactions, disposals s h = 0 ∨ ∃ i, h ∈ (v i).replaced
  view : ∀ i, (v i).Right s i
  single : ∀ i j, (v i).active → (v j).active → i = j

lemma disposals_congr {s s' : Shared P ι} (ha : s'.node.accepted = s.node.accepted)
    (hlog : ∀ h, s'.log.count (.TxConfirmed h) = s.log.count (.TxConfirmed h)) (h : Tx P) :
    disposals s' h = disposals s h := by simp [disposals, ha, hlog]

lemma disposals_accept {s s' : Shared P ι} {r : Request P ι}
    (ha : s'.node.accepted = s.node.accepted ++ [r]) (hlog : s'.log = s.log) (h : Tx P) :
    disposals s' h = disposals s h + if r.replaces = some h then 1 else 0 := by
  simp only [disposals, ha, hlog, List.countP_append, List.countP_singleton,
    Request.replaces_eq_some, decide_eq_true_eq]
  omega

omit [DecidableEq P] [DecidableEq ι] in
lemma View.mem_replaced {w : View P ι} {r : Request P ι} {h : Tx P} (hr : r ∈ w.owned)
    (hh : r.replaces = some h) : h ∈ w.replaced := List.mem_filterMap.mpr ⟨r, hr, hh⟩

namespace Ledger
variable {s s' : Shared P ι} {v : ι → View P ι} {i : ι} {w : View P ι}

/-- What is still to do has not been disposed of. -/
lemma todo_fresh (hl : Ledger s v) {h : Tx P} (hh : h ∈ (v i).todo) : disposals s h = 0 := by
  obtain ⟨hw, hi⟩ := (hl.view i).todo h (List.mem_append_left _ hh)
  rcases hl.fresh h hw with hz | ⟨j, hj⟩
  · exact hz
  · obtain rfl := hl.single _ _ hi ((hl.view j).todo h (List.mem_append_right _ hj)).2
    exact absurd hj ((List.nodup_append.mp (hl.view i).nodup).2.2 h hh h · rfl)

/-- A transaction the node does not hold is new to the ledger. -/
lemma new (hl : Ledger s v) {h : Tx P} (hh : ¬ s.node.Holds h) :
    disposals s h = 0 ∧ h ∉ s.service.watchedTransactions :=
  ⟨by_contra fun hd => hh (hl.holds h hd), fun hw => hh (hl.watched h hw)⟩

/-- An accepted transaction that is not watched yet belongs to one task. -/
lemma owner (hl : Ledger s v) {j : ι} {r q : Request P ι} (hr : r ∈ (v i).owned)
    (hq : q ∈ (v j).owned) (h : q.tx = r.tx) : q = r ∧ j = i := by
  obtain ⟨hra, -, -, hro⟩ := (hl.view i).owned r hr
  obtain ⟨hqa, -, -, hqo⟩ := (hl.view j).owned q hq
  obtain rfl := List.inj_on_of_nodup_map hl.unique hqa hra h
  refine ⟨rfl, ?_⟩
  have hactive : ∀ k, q ∈ (v k).owned → q.replaces.isSome → (v k).active := by
    intro k hk hs
    obtain ⟨t, ht⟩ := Option.isSome_iff_exists.mp hs
    exact ((hl.view k).todo t (List.mem_append_right _ (View.mem_replaced hk ht))).2
  rcases hro with hro | hro
  · rcases hqo with hqo | hqo
    · simpa using hqo.symm.trans hro
    · simp [Request.replaces, hro] at hqo
  · exact hl.single _ _ (hactive j hq hro) (hactive i hr hro)

/-- A dead letter is owned once. -/
lemma not_owned_twice (hl : Ledger s v) {r : Request P ι} {os : List (Request P ι)}
    (ho : (v i).owned.Perm (r :: os)) (hr : r.replaces.isSome) : r ∉ os := by
  obtain ⟨h, hh⟩ := Option.isSome_iff_exists.mp hr
  have hperm : (v i).replaced.Perm (h :: os.filterMap Request.replaces) := by
    simpa [View.replaced, List.filterMap_cons, hh] using ho.filterMap Request.replaces
  have hnd := hperm.nodup_iff.mp (hl.view i).nodup.of_append_right
  exact fun hm => (List.nodup_cons.mp hnd).1 (List.mem_filterMap.mpr ⟨r, hm, hh⟩)

/-- The ledger depends on nothing else in the state. -/
lemma congr (hl : Ledger s v) (ha : s'.node.accepted = s.node.accepted)
    (hlog : ∀ h, s'.log.count (.TxConfirmed h) = s.log.count (.TxConfirmed h))
    (hwatch : s'.service.watchedTransactions = s.service.watchedTransactions) :
    Ledger s' v := by
  have hd := disposals_congr ha hlog
  have hh : ∀ h, s'.node.Holds h ↔ s.node.Holds h := fun h => by simp [Node.Holds, ha]
  exact {
    unique := by simpa only [ha] using hl.unique
    holds := by simpa only [hd, hh] using hl.holds
    once := by simpa only [hd] using hl.once
    nodup := by simpa only [hwatch] using hl.nodup
    watched := by simpa only [hh, hwatch] using hl.watched
    fresh := by simpa only [hd, hwatch] using hl.fresh
    view := fun j => ⟨by simpa only [ha, hd, hwatch] using (hl.view j).owned, (hl.view j).nodup,
      by simpa only [hwatch] using (hl.view j).todo⟩
    single := hl.single }

lemma single_update (hl : Ledger s v) (hw : w.active → (v i).active) :
    ∀ j k, (Function.update v i w j).active → (Function.update v i w k).active → j = k := by
  have hold : ∀ j, (Function.update v i w j).active → (v j).active :=
    (Function.forall_update_iff v fun j u => u.active → (v j).active).mpr ⟨hw, fun _ _ h => h⟩
  exact fun j k hj hk => hl.single j k (hold j hj) (hold k hk)

omit [DecidableEq P] in
/-- Somebody still owns what is to replace a transaction. -/
lemma replaced_update {h : Tx P} (hv : ∃ j, h ∈ (v j).replaced)
    (hi : h ∈ (v i).replaced → h ∈ w.replaced) : ∃ j, h ∈ (Function.update v i w j).replaced := by
  obtain ⟨j, hj⟩ := hv
  refine ⟨j, ?_⟩
  by_cases hji : j = i
  · subst hji
    simpa using hi hj
  · simpa [hji] using hj

/-- A task shows something else, and the state stays. -/
lemma setView (hl : Ledger s v) (hw : w.Right s i)
    (hr : ∀ h ∈ (v i).replaced, h ∈ w.replaced)
    (hactive : w.active → (v i).active ∨ ∀ j, ¬ (v j).active) :
    Ledger s (Function.update v i w) := by
  refine ⟨hl.unique, hl.holds, hl.once, hl.nodup, hl.watched, fun h hm => ?_, ?_, ?_⟩
  · exact (hl.fresh h hm).imp_right fun hv => replaced_update hv (hr h)
  · exact (Function.forall_update_iff v fun j u => u.Right s j).mpr ⟨hw, fun j _ => hl.view j⟩
  · intro j k hj hk
    by_cases hji : j = i
    · by_cases hki : k = i
      · rw [hji, hki]
      · rw [hji, Function.update_self] at hj
        rw [Function.update_of_ne hki] at hk
        rcases hactive hj with hi | hnone
        · exact hji.trans (hl.single _ _ hi hk)
        · exact absurd hk (hnone k)
    · rw [Function.update_of_ne hji] at hj
      by_cases hki : k = i
      · rw [hki, Function.update_self] at hk
        rcases hactive hk with hi | hnone
        · exact (hl.single _ _ hj hi).trans hki.symm
        · exact absurd hj (hnone j)
      · rw [Function.update_of_ne hki] at hk
        exact hl.single _ _ hj hk

/-- A task may drop what it has still to do. -/
lemma weaken (hl : Ledger s v) (ho : w.owned = (v i).owned) (ht : w.todo.Subperm (v i).todo)
    (hw : w.active → (v i).active) (hact : w.todo ++ w.replaced ≠ [] → w.active) :
    Ledger s (Function.update v i w) := by
  have hr : w.replaced = (v i).replaced := by simp [View.replaced, ho]
  have hsub : (w.todo ++ w.replaced).Subperm ((v i).todo ++ (v i).replaced) := by
    rw [hr]
    exact ht.append (List.Subperm.refl _)
  refine hl.setView ⟨ho ▸ (hl.view i).owned, ?_, fun h hm => ?_⟩ (fun h hm => hr ▸ hm)
    fun h => .inl (hw h)
  · obtain ⟨u, hu, hus⟩ := hsub
    exact hu.nodup_iff.mp ((hl.view i).nodup.sublist hus)
  · exact ⟨((hl.view i).todo h (hsub.subset hm)).1, hact (List.ne_nil_of_mem hm)⟩

/-- A pass takes stock of what is watched while no other is under way. -/
lemma start (hl : Ledger s v) (ho : (v i).owned = []) (hnone : ∀ j, ¬ (v j).active) :
    Ledger s (Function.update v i ⟨[], s.service.watchedTransactions, True⟩) := by
  refine hl.setView ⟨by simp, ?_, ?_⟩ (by simp [View.replaced, ho]) fun _ => .inr hnone
  · simpa [View.replaced] using hl.nodup
  · simp [View.replaced]

/-- The node accepts a request that is no dead letter. -/
lemma accept (hl : Ledger s v) {r : Request P ι} (hr : r.replaces = none)
    (hnew : ¬ s.node.Holds r.tx) (ha : s'.node.accepted = s.node.accepted ++ [r])
    (hlog : s'.log = s.log)
    (hwatch : s'.service.watchedTransactions = s.service.watchedTransactions) :
    Ledger s' v := by
  have hd : ∀ h, disposals s' h = disposals s h := fun h => by
    simp [disposals_accept ha hlog, hr]
  have hmono : s.node.accepted ⊆ s'.node.accepted := ha ▸ List.subset_append_left _ _
  constructor
  · rw [ha, List.map_append, List.nodup_append]
    refine ⟨hl.unique, by simp, ?_⟩
    rintro t ht u hu rfl
    rw [List.map_singleton, List.mem_singleton] at hu
    obtain ⟨q, hq, rfl⟩ := List.mem_map.mp ht
    exact hnew ⟨q, hq, hu⟩
  · exact fun h hh => (hl.holds h (hd h ▸ hh)).mono hmono
  · exact fun h => hd h ▸ hl.once h
  · exact hwatch ▸ hl.nodup
  · exact fun h hh => (hl.watched h (hwatch ▸ hh)).mono hmono
  · exact fun h hh => hd h ▸ hl.fresh h (hwatch ▸ hh)
  · refine fun j => ⟨fun q hq => ?_, (hl.view j).nodup, hwatch ▸ (hl.view j).todo⟩
    obtain ⟨hqa, hqw, hqd, hqo⟩ := (hl.view j).owned q hq
    exact ⟨hmono hqa, hwatch ▸ hqw, (hd _).trans hqd, hqo⟩
  · exact hl.single

/-- The node accepts the request of a call of `submitTransaction`. -/
lemma accept_submit (hl : Ledger s v) {tx : Tx P} (ho : (v i).owned = [])
    (hnew : ¬ s.node.Holds tx) (ha : s'.node.accepted = s.node.accepted ++ [⟨tx, .submit i⟩])
    (hlog : s'.log = s.log)
    (hwatch : s'.service.watchedTransactions = s.service.watchedTransactions) :
    Ledger s' (Function.update v i ⟨[⟨tx, .submit i⟩], [], False⟩) := by
  obtain ⟨hd, hw⟩ := hl.new hnew
  have hl' : Ledger s' v := hl.accept (by simp) hnew ha hlog hwatch
  refine hl'.setView ⟨fun q hq => ?_, ?_, ?_⟩ ?_ False.elim
  · obtain rfl := List.mem_singleton.mp hq
    refine ⟨by simp [ha], hwatch ▸ hw, ?_, .inl rfl⟩
    simp [disposals_accept ha hlog, hd]
  all_goals simp [View.replaced, List.filterMap_cons, ho]

/-- The node accepts a dead letter: its transaction has been disposed of, and the pass
owns the letter. -/
lemma accept_letter (hl : Ledger s v) {tx h : Tx P}
    (ht : (v i).todo.Perm (h :: w.todo)) (ho : w.owned.Perm (⟨tx, .deadLetter h⟩ :: (v i).owned))
    (hw : w.active) (hnew : ¬ s.node.Holds tx)
    (ha : s'.node.accepted = s.node.accepted ++ [⟨tx, .deadLetter h⟩]) (hlog : s'.log = s.log)
    (hwatch : s'.service.watchedTransactions = s.service.watchedTransactions) :
    Ledger s' (Function.update v i w) := by
  have hmem : h ∈ (v i).todo := ht.symm.subset (by simp)
  have hfresh := hl.todo_fresh hmem
  obtain ⟨hwatched, hactive⟩ := (hl.view i).todo h (List.mem_append_left _ hmem)
  obtain ⟨hdtx, hwtx⟩ := hl.new hnew
  have hd : ∀ g, disposals s' g = disposals s g + if g = h then 1 else 0 := fun g => by
    simp [disposals_accept ha hlog, eq_comm]
  have hmono : s.node.accepted ⊆ s'.node.accepted := ha ▸ List.subset_append_left _ _
  have hreplaced : w.replaced.Perm (h :: (v i).replaced) := by
    simpa [View.replaced, List.filterMap_cons] using ho.filterMap Request.replaces
  have hperm : (w.todo ++ w.replaced).Perm ((v i).todo ++ (v i).replaced) :=
    (hreplaced.append_left _).trans (List.perm_middle.trans (ht.symm.append_right _))
  have hkeep : ∀ j, ∀ q ∈ (v j).owned, q ∈ s'.node.accepted ∧
      q.tx ∉ s'.service.watchedTransactions ∧ disposals s' q.tx = 0 ∧
      (q.origin = .submit j ∨ q.replaces.isSome) := by
    intro j q hq
    obtain ⟨hqa, hqw, hqd, hqo⟩ := (hl.view j).owned q hq
    refine ⟨hmono hqa, hwatch ▸ hqw, ?_, hqo⟩
    rw [hd, hqd, if_neg fun heq : q.tx = h => hqw (heq ▸ hwatched)]
  constructor
  · rw [ha, List.map_append, List.nodup_append]
    refine ⟨hl.unique, by simp, ?_⟩
    rintro t htm u hu rfl
    rw [List.map_singleton, List.mem_singleton] at hu
    obtain ⟨q, hq, rfl⟩ := List.mem_map.mp htm
    exact hnew ⟨q, hq, hu⟩
  · intro g hg
    by_cases hgh : g = h
    · exact (hgh ▸ hl.watched h hwatched).mono hmono
    · exact (hl.holds g (by simpa [hd, hgh] using hg)).mono hmono
  · intro g
    by_cases hgh : g = h
    · simp [hd, hgh, hfresh]
    · simpa [hd, hgh] using hl.once g
  · exact hwatch ▸ hl.nodup
  · exact fun g hg => (hl.watched g (hwatch ▸ hg)).mono hmono
  · intro g hg
    by_cases hgh : g = h
    · exact .inr ⟨i, by simpa [hgh] using hreplaced.symm.subset (List.mem_cons_self ..)⟩
    · rcases hl.fresh g (hwatch ▸ hg) with hz | hv
      · exact .inl (by simp [hd, hgh, hz])
      · exact .inr (replaced_update hv fun hm =>
          hreplaced.symm.subset (List.mem_cons_of_mem _ hm))
  · refine (Function.forall_update_iff v fun j u => u.Right s' j).mpr ⟨⟨fun q hq => ?_, ?_, ?_⟩,
      fun j _ => ⟨hkeep j, (hl.view j).nodup, hwatch ▸ (hl.view j).todo⟩⟩
    · rcases List.mem_cons.mp (ho.subset hq) with rfl | hq
      · refine ⟨by simp [ha], hwatch ▸ hwtx, ?_, .inr rfl⟩
        rw [hd, hdtx, if_neg fun heq : tx = h => hwtx (heq ▸ hwatched)]
      · exact hkeep i q hq
    · exact hperm.nodup_iff.mpr (hl.view i).nodup
    · exact fun g hg => ⟨hwatch ▸ ((hl.view i).todo g (hperm.subset hg)).1, hw⟩
  · exact hl.single_update fun _ => hactive

/-- An owned transaction is watched from now on, and what it replaces no longer. -/
lemma watch (hl : Ledger s v) {r : Request P ι} (ho : (v i).owned.Perm (r :: w.owned))
    (hr : r ∉ w.owned) (ht : w.todo = (v i).todo) (hw : w.active → (v i).active)
    (hact : w.todo ++ w.replaced ≠ [] → w.active) (ha : s'.node.accepted = s.node.accepted)
    (hlog : ∀ h, s'.log.count (.TxConfirmed h) = s.log.count (.TxConfirmed h))
    (hnodup : s'.service.watchedTransactions.Nodup)
    (hmem : ∀ h, h ∈ s'.service.watchedTransactions ↔
      h = r.tx ∨ h ∈ s.service.watchedTransactions ∧ r.replaces ≠ some h) :
    Ledger s' (Function.update v i w) := by
  have hd := disposals_congr ha hlog
  have hh : ∀ h, s'.node.Holds h ↔ s.node.Holds h := fun h => by simp [Node.Holds, ha]
  have hri : r ∈ (v i).owned := ho.symm.subset (List.mem_cons_self ..)
  obtain ⟨hra, -, hrd, -⟩ := (hl.view i).owned r hri
  have hreplaced : (v i).replaced.Perm (r.replaces.toList ++ w.replaced) := by
    have hmap := ho.filterMap Request.replaces
    cases hrep : r.replaces <;> simpa [View.replaced, List.filterMap_cons, hrep] using hmap
  have hperm : ((v i).todo ++ (v i).replaced).Perm
      (r.replaces.toList ++ (w.todo ++ w.replaced)) := by
    rw [ht]
    exact (hreplaced.append_left _).trans (List.perm_append_comm_assoc _ _ _)
  have hnd := hperm.nodup_iff.mp (hl.view i).nodup
  have hown : ∀ j, ∀ q ∈ (v j).owned, (j = i → q ≠ r) → q ∈ s'.node.accepted ∧
      q.tx ∉ s'.service.watchedTransactions ∧ disposals s' q.tx = 0 ∧
      (q.origin = .submit j ∨ q.replaces.isSome) := by
    intro j q hq hne
    obtain ⟨hqa, hqw, hqd, hqo⟩ := (hl.view j).owned q hq
    refine ⟨ha ▸ hqa, fun hm => ?_, (hd _).trans hqd, hqo⟩
    rcases (hmem _).mp hm with heq | ⟨hm, -⟩
    · obtain ⟨hqr, hji⟩ := hl.owner hri hq heq
      exact hne hji hqr
    · exact hqw hm
  refine ⟨ha ▸ hl.unique, fun h hh' => (hh h).mpr (hl.holds h (hd h ▸ hh')),
    fun h => hd h ▸ hl.once h, hnodup, fun h hm => (hh h).mpr ?_, fun h hm => ?_, ?_, ?_⟩
  · rcases (hmem h).mp hm with rfl | ⟨hm, -⟩
    · exact ⟨r, hra, rfl⟩
    · exact hl.watched h hm
  · rw [hd]
    rcases (hmem h).mp hm with rfl | ⟨hm, hrep⟩
    · exact .inl hrd
    · refine (hl.fresh h hm).imp_right fun hv => replaced_update hv fun hm => ?_
      simpa [hrep] using hreplaced.subset hm
  · refine (Function.forall_update_iff v fun j u => u.Right s' j).mpr
      ⟨⟨fun q hq => ?_, ?_, fun h hm => ?_⟩, fun j hji => ⟨fun q hq => ?_, (hl.view j).nodup,
        fun h hm => ?_⟩⟩
    · exact hown i q (ho.symm.subset (List.mem_cons_of_mem _ hq)) fun _ heq => hr (heq ▸ hq)
    · exact hnd.of_append_right
    · refine ⟨(hmem h).mpr (.inr ⟨?_, fun hrep => ?_⟩), hact (List.ne_nil_of_mem hm)⟩
      · exact ((hl.view i).todo h (hperm.symm.subset (List.mem_append_right _ hm))).1
      · exact (List.nodup_append.mp hnd).2.2 h (by simp [hrep]) h hm rfl
    · exact hown j q hq fun h => absurd h hji
    · obtain ⟨hwatched, hj⟩ := (hl.view j).todo h hm
      refine ⟨(hmem h).mpr (.inr ⟨hwatched, fun hrep => hji ?_⟩), hj⟩
      exact hl.single _ _ hj
        ((hl.view i).todo h (List.mem_append_right _ (View.mem_replaced hri hrep))).2
  · exact hl.single_update hw

/-- A pass is done with a transaction, which it has confirmed or not. -/
lemma unwatch (hl : Ledger s v) {h : Tx P} (ht : (v i).todo.Perm (h :: w.todo))
    (ho : w.owned = (v i).owned) (hw : w.active → (v i).active)
    (hact : w.todo ++ w.replaced ≠ [] → w.active) (ha : s'.node.accepted = s.node.accepted)
    (hd : ∀ g, disposals s' g = disposals s g ∨ g = h ∧ disposals s' g = disposals s g + 1)
    (hwatch : ∀ g, g ∈ s'.service.watchedTransactions ↔
      g ∈ s.service.watchedTransactions ∧ g ≠ h)
    (hnodup : s'.service.watchedTransactions.Nodup) :
    Ledger s' (Function.update v i w) := by
  have hh : ∀ h, s'.node.Holds h ↔ s.node.Holds h := fun h => by simp [Node.Holds, ha]
  have hmem : h ∈ (v i).todo := ht.symm.subset (List.mem_cons_self ..)
  have hfresh := hl.todo_fresh hmem
  obtain ⟨hwatched, hactive⟩ := (hl.view i).todo h (List.mem_append_left _ hmem)
  have hne : ∀ g, g ≠ h → disposals s' g = disposals s g := fun g hg => by
    rcases hd g with heq | ⟨heq, -⟩
    · exact heq
    · exact absurd heq hg
  have hown : ∀ j, ∀ q ∈ (v j).owned, q ∈ s'.node.accepted ∧
      q.tx ∉ s'.service.watchedTransactions ∧ disposals s' q.tx = 0 ∧
      (q.origin = .submit j ∨ q.replaces.isSome) := by
    intro j q hq
    obtain ⟨hqa, hqw, hqd, hqo⟩ := (hl.view j).owned q hq
    refine ⟨ha ▸ hqa, fun hm => hqw ((hwatch _).mp hm).1, ?_, hqo⟩
    rw [hne _ fun heq : q.tx = h => hqw (heq ▸ hwatched), hqd]
  have hrep : w.replaced = (v i).replaced := by simp [View.replaced, ho]
  have hperm : ((v i).todo ++ (v i).replaced).Perm (h :: (w.todo ++ w.replaced)) :=
    hrep ▸ ht.append_right _
  have hnd := hperm.nodup_iff.mp (hl.view i).nodup
  refine ⟨ha ▸ hl.unique, fun g hg => (hh g).mpr ?_, fun g => ?_, hnodup,
    fun g hg => (hh g).mpr (hl.watched g ((hwatch g).mp hg).1), fun g hg => ?_, ?_, ?_⟩
  · by_cases hgh : g = h
    · exact hgh ▸ hl.watched h hwatched
    · exact hl.holds g (hne g hgh ▸ hg)
  · rcases hd g with heq | ⟨rfl, heq⟩
    · exact heq ▸ hl.once g
    · rw [heq, hfresh]
  · obtain ⟨hgw, hgh⟩ := (hwatch g).mp hg
    rw [hne g hgh]
    exact (hl.fresh g hgw).imp_right fun hv => replaced_update hv fun hm => hrep ▸ hm
  · refine (Function.forall_update_iff v fun j u => u.Right s' j).mpr
      ⟨⟨ho ▸ hown i, (List.nodup_cons.mp hnd).2, fun g hm => ⟨(hwatch g).mpr ⟨?_, ?_⟩,
        hact (List.ne_nil_of_mem hm)⟩⟩, fun j hji => ⟨hown j, (hl.view j).nodup, fun g hm => ?_⟩⟩
    · exact ((hl.view i).todo g (hperm.symm.subset (List.mem_cons_of_mem _ hm))).1
    · rintro rfl
      exact (List.nodup_cons.mp hnd).1 hm
    · obtain ⟨hgw, hj⟩ := (hl.view j).todo g hm
      refine ⟨(hwatch g).mpr ⟨hgw, fun _ => hji (hl.single _ _ hj hactive)⟩, hj⟩
  · exact hl.single_update hw

end Ledger

end Komenci.Relayer
