import Komenci.RewardSteps

/-! The passes over the watched invites: an instance runs one at a time, and what a pass has
not settled yet is still watched. -/
namespace Komenci.Rewards
open Interleaving

variable {ι κ : Type}

/-- What a pass of `checkWatchedInvites` goes by. -/
structure Looking (s : Shared ι κ) (k : κ) (items : List (WatchedInvite × WatchPhase)) : Prop where
  flag : s.checkingWatchedInvites k = true
  nodup : (items.map Prod.fst).Nodup
  pending : ∀ p ∈ items, p.2 ≠ .settled → p.1 ∈ s.watchedInvites k
  verdict : ∀ p ∈ items, ∀ state, p.2 = .update state →
    ∃ status, s.receipts p.1.txHash = some status ∧ state = p.1.verdict status

structure Looks (inst : ι → κ) (c : Config (Shared ι κ) ι Task) : Prop where
  running : ∀ i items, c.task i = .checkWatchedInvites (.running items) →
    Looking c.shared (inst i) items
  alone : ∀ i j items items', c.task i = .checkWatchedInvites (.running items) →
    c.task j = .checkWatchedInvites (.running items') → inst i = inst j → i = j

section Items
variable {inst : ι → κ} {s s' : Shared ι κ} {k : κ} {items : List (WatchedInvite × WatchPhase)}
  {n : ℕ} {invite : WatchedInvite} {phase phase' : WatchPhase}

lemma Looking.mono (h : Looking s k items)
    (hflag : s'.checkingWatchedInvites k = s.checkingWatchedInvites k)
    (hwatched : ∀ w ∈ s.watchedInvites k, w ∈ s'.watchedInvites k)
    (hreceipts : ∀ h b, s.receipts h = some b → s'.receipts h = some b) : Looking s' k items where
  flag := hflag.trans h.flag
  nodup := h.nodup
  pending p hp hne := hwatched _ (h.pending p hp hne)
  verdict p hp state hstate := by
    obtain ⟨status, hs, hv⟩ := h.verdict p hp state hstate
    exact ⟨status, hreceipts _ _ hs, hv⟩

lemma map_fst_set (hitem : items[n]? = some (invite, phase)) :
    (items.set n (invite, phase')).map Prod.fst = items.map Prod.fst := by
  obtain ⟨pre, post, hold, hset⟩ := exists_split_set hitem (invite, phase')
  rw [hset, hold]
  simp

/-- One invite is looked at. -/
lemma Looking.look (h : Looking s k items) (hitem : items[n]? = some (invite, phase))
    (hne : phase ≠ .settled) (hverdict : ∀ state, phase' = .update state →
      ∃ status, s.receipts invite.txHash = some status ∧ state = invite.verdict status) :
    Looking s k (items.set n (invite, phase')) where
  flag := h.flag
  nodup := (map_fst_set hitem).symm ▸ h.nodup
  pending p hp hsettled := by
    rcases List.mem_or_eq_of_mem_set hp with hp | rfl
    · exact h.pending p hp hsettled
    · have hmem := h.pending (invite, phase) (List.mem_of_getElem? hitem) hne
      exact hmem
  verdict p hp state hstate := by
    rcases List.mem_or_eq_of_mem_set hp with hp | rfl
    · exact h.verdict p hp state hstate
    · exact hverdict state hstate

/-- One invite is written and no longer watched. The others are different ones. -/
lemma Looking.write (h : Looking s k items) (hitem : items[n]? = some (invite, phase))
    (hflag : s'.checkingWatchedInvites k = s.checkingWatchedInvites k)
    (hwatched : s'.watchedInvites k = (s.watchedInvites k).erase invite)
    (hreceipts : s'.receipts = s.receipts) : Looking s' k (items.set n (invite, .settled)) := by
  have hsplit : ∀ p ∈ items.set n (invite, .settled), p.2 ≠ .settled →
      p ∈ items ∧ p.1 ≠ invite := by
    obtain ⟨pre, post, hold, hset⟩ := exists_split_set hitem (invite, WatchPhase.settled)
    have hnodup := h.nodup
    rw [hold, List.map_append, List.map_cons, List.nodup_middle, List.nodup_cons] at hnodup
    intro p hp hsettled
    rw [hset, List.mem_append, List.mem_cons] at hp
    have hmem : p ∈ pre ∨ p ∈ post := by
      rcases hp with hp | rfl | hp
      · exact .inl hp
      · exact absurd rfl hsettled
      · exact .inr hp
    constructor
    · rw [hold]
      rcases hmem with hp | hp <;> simp [hp]
    · rintro rfl
      apply hnodup.1
      rw [List.mem_append]
      exact hmem.imp (fun hp => List.mem_map.mpr ⟨p, hp, rfl⟩) fun hp => List.mem_map.mpr ⟨p, hp, rfl⟩
  constructor
  · exact hflag.trans h.flag
  · exact (map_fst_set hitem).symm ▸ h.nodup
  · intro p hp hsettled
    obtain ⟨hp, hne⟩ := hsplit p hp hsettled
    rw [hwatched, List.mem_erase_of_ne hne]
    exact h.pending p hp hsettled
  · intro p hp state hstate
    rw [hreceipts]
    exact h.verdict p (hsplit p hp (by simp [hstate])).1 state hstate

end Items

section Looks
variable [DecidableEq ι] {inst : ι → κ} {c : Config (Shared ι κ) ι Task} {s : Shared ι κ} {i : ι}
  {t : Task}

omit [DecidableEq ι] in
lemma Looks.mono {d : Config (Shared ι κ) ι Task} (hl : Looks inst c)
    (htask : ∀ i items, d.task i = .checkWatchedInvites (.running items) →
      c.task i = .checkWatchedInvites (.running items) ∧
      d.shared.checkingWatchedInvites (inst i) = c.shared.checkingWatchedInvites (inst i) ∧
      ∀ w ∈ c.shared.watchedInvites (inst i), w ∈ d.shared.watchedInvites (inst i))
    (hreceipts : ∀ h b, c.shared.receipts h = some b → d.shared.receipts h = some b) :
    Looks inst d where
  running i items hi := by
    obtain ⟨hi', hflag, hwatched⟩ := htask i items hi
    exact (hl.running i items hi').mono hflag hwatched hreceipts
  alone i j items items' hi hj hinst :=
    hl.alone i j items items' (htask i items hi).1 (htask j items' hj).1 hinst

/-- A task other than a pass over the watched invites goes on. -/
lemma Looks.resume (hl : Looks inst c) (ht : ∀ items, t ≠ .checkWatchedInvites (.running items))
    (hflag : s.checkingWatchedInvites = c.shared.checkingWatchedInvites)
    (hwatched : ∀ k, ∀ w ∈ c.shared.watchedInvites k, w ∈ s.watchedInvites k)
    (hreceipts : s.receipts = c.shared.receipts) : Looks inst (c.resume i (s, t)) := by
  apply hl.mono
  · intro j items hj
    by_cases hji : j = i
    · subst hji
      exact absurd (by simpa using hj) (ht items)
    · exact ⟨by simpa [hji] using hj, congrFun hflag _, hwatched _⟩
  · exact fun h b hb => hreceipts ▸ hb

/-- A pass over the watched invites of its instance goes on, the only one there. -/
lemma Looks.pass (hl : Looks inst c)
    (hself : ∀ items, t = .checkWatchedInvites (.running items) → Looking s (inst i) items)
    (hothers : ∀ j items, j ≠ i → c.task j = .checkWatchedInvites (.running items) →
      inst j ≠ inst i)
    (hk : ∀ k, k ≠ inst i →
      s.checkingWatchedInvites k = c.shared.checkingWatchedInvites k ∧
        s.watchedInvites k = c.shared.watchedInvites k)
    (hreceipts : s.receipts = c.shared.receipts) : Looks inst (c.resume i (s, t)) := by
  have hother : ∀ j items, j ≠ i →
      (c.resume i (s, t)).task j = .checkWatchedInvites (.running items) →
        c.task j = .checkWatchedInvites (.running items) := by
    intro j items hji hj
    simpa [hji] using hj
  constructor
  · intro j items hj
    by_cases hji : j = i
    · subst hji
      exact hself items (by simpa using hj)
    · have hj' := hother j items hji hj
      obtain ⟨hflag, hwatched⟩ := hk (inst j) (hothers j items hji hj')
      exact (hl.running j items hj').mono hflag (fun w hw => hwatched ▸ hw)
        fun _ _ h => hreceipts ▸ h
  · intro j k items items' hj hk' hinst
    by_cases hji : j = i
    · by_cases hki : k = i
      · exact hji.trans hki.symm
      · exact absurd (hji ▸ hinst).symm (hothers k items' hki (hother k items' hki hk'))
    · by_cases hki : k = i
      · exact absurd (hki ▸ hinst) (hothers j items hji (hother j items hji hj))
      · exact hl.alone j k items items' (hother j items hji hj) (hother k items' hki hk') hinst

section Steps
variable [DecidableEq κ] {cfg : AppConfig} {k : κ} {s' : Shared ι κ}

/-- What the passes over the watched invites go by is kept by every step of the others. -/
def Watching (s s' : Shared ι κ) : Prop :=
  s'.checkingWatchedInvites = s.checkingWatchedInvites ∧ s'.receipts = s.receipts ∧
    ∀ k, ∀ w ∈ s.watchedInvites k, w ∈ s'.watchedInvites k

omit [DecidableEq ι] [DecidableEq κ] in
lemma Watching.of_eq (hf : s'.checkingWatchedInvites = s.checkingWatchedInvites)
    (hr : s'.receipts = s.receipts) (hw : s'.watchedInvites = s.watchedInvites) : Watching s s' :=
  ⟨hf, hr, fun _ _ h => hw ▸ h⟩

omit [DecidableEq ι] in
lemma sendStep_watching {invite : InviteReward} {isRetry : Bool} {phase phase' : SendPhase}
    {e : SendEvent} (h : SendStep cfg k invite isRetry s phase e s' phase') : Watching s s' := by
  cases h with
  | submitted =>
    refine ⟨rfl, rfl, fun k' w hw => ?_⟩
    by_cases hk : k' = k
    · subst hk
      simp [Shared.watch, hw]
    · simpa [Shared.watch, hk] using hw
  | _ => exact .of_eq rfl rfl rfl

omit [DecidableEq ι] in
lemma handlerStep_watching {event : EventLog ℕ ℕ} {phase phase' : HandlerPhase} {e : HandlerEvent}
    (h : HandlerStep cfg k event s phase e s' phase') : Watching s s' := by
  cases h with
  | send hs _ | thrown hs => exact sendStep_watching hs
  | written hs _ =>
    obtain ⟨hflag, hreceipts, hwatched⟩ := sendStep_watching hs
    exact ⟨hflag, hreceipts, hwatched⟩
  | _ => exact .of_eq rfl rfl rfl

lemma failedStep_watching {phase phase' : FailedPhase} {e : FailedEvent}
    (h : FailedStep cfg i k s phase e s' phase') : Watching s s' := by
  cases h with
  | item _ hs =>
    cases hs with
    | send hs _ | settled hs => exact sendStep_watching hs
    | _ => exact .of_eq rfl rfl rfl
  | _ => exact .of_eq rfl rfl rfl

/-- A pass over the watched invites keeps what it goes by. -/
lemma watched_looks {phase phase' : WatchedPhase} {e : WatchedEvent} (hl : Looks inst c)
    (hnodup : (c.shared.watchedInvites (inst i)).Nodup)
    (hi : c.task i = .checkWatchedInvites phase)
    (h : WatchedStep (inst i) c.shared phase e s phase') :
    Looks inst (c.resume i (s, .checkWatchedInvites phase')) := by
  have halone : ∀ items, phase = .running items → ∀ j items', j ≠ i →
      c.task j = .checkWatchedInvites (.running items') → inst j ≠ inst i := by
    rintro items rfl j items' hji hj hinst
    exact hji (hl.alone j i items' items hj hi hinst)
  cases h with
  | skip => exact hl.resume (by simp) rfl (fun _ _ h => h) rfl
  | begin hflag =>
    apply hl.pass
    · intro items hitems
      cases hitems
      constructor
      · simp [Shared.setCheckingWatched]
      · simpa [List.map_map, Function.comp_def] using hnodup
      · intro p hp _
        obtain ⟨w, hw, rfl⟩ := List.mem_map.mp hp
        exact hw
      · intro p hp state hstate
        obtain ⟨w, -, rfl⟩ := List.mem_map.mp hp
        cases hstate
    · intro j items' _ hj hinst
      have hset := (hl.running j items' hj).flag
      rw [hinst, hflag] at hset
      cases hset
    · exact fun k hk => ⟨by simp [Shared.setCheckingWatched, hk], rfl⟩
    · rfl
  | @look items n e invite ph ph' hitem hne hverdict =>
    apply hl.pass
    · intro items' hitems
      cases hitems
      exact (hl.running i items hi).look hitem hne hverdict
    · exact halone items rfl
    · exact fun k _ => ⟨rfl, rfl⟩
    · rfl
  | @write items n invite state hitem hfree =>
    apply hl.pass
    · intro items' hitems
      cases hitems
      exact (hl.running i items hi).write hitem rfl (by simp) rfl
    · exact halone items rfl
    · exact fun k hk => ⟨rfl, by simp [hk]⟩
    · rfl
  | @finish items e hset =>
    apply hl.pass
    · simp
    · exact halone items rfl
    · exact fun k hk => ⟨by simp [Shared.setCheckingWatched, hk], rfl⟩
    · rfl

end Steps

end Looks

end Komenci.Rewards
