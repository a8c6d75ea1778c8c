import Komenci.RelayerRequests

/-! At most one transaction of a call of `submitTransaction` gets into a block, as long
as no try moves on to another nonce while an earlier one may have got through. None does
where no reply is lost. -/
namespace Komenci.Relayer
open Interleaving

variable {P ι : Type} {cfg : AppConfig} {policy : Policy P ι}

/-- A try takes the mutex only while the counter stands at the nonce of whatever its
call has sent that the node has accepted or may still receive. -/
def ReusesNonce (c : Config (Shared P ι) ι (Task P)) :
    Label ι (Event P) → Prop
  | .task i (.submit .resume) =>
    match c.task i with
    | .submitTransaction _ (.acquire _) =>
      ∀ r ∈ c.shared.node.accepted ++ c.shared.node.limbo, r.origin = .submit i →
        r.tx.nonce = c.shared.service.nonce
    | _ => True
  | _ => True

instance [DecidableEq ι] [DecidableEq P] (c : Config (Shared P ι) ι (Task P))
    (l : Label ι (Event P)) : Decidable (ReusesNonce c l) := by
  unfold ReusesNonce
  induction l using Label.casesOn with
  | env e => infer_instance
  | task i e =>
    induction e using Event.casesOn with
    | submit e =>
      induction e using SubmitEvent.casesOn with
      | resume =>
        dsimp only
        generalize c.task i = t
        induction t using Task.casesOn with
        | submitTransaction p phase => induction phase using SubmitPhase.casesOn <;> infer_instance
        | _ => infer_instance
      | _ => infer_instance
    | _ => infer_instance

/-- All that is known of a call's requests bears one nonce. -/
def OneNonce (c : Config (Shared P ι) ι (Task P)) : Prop :=
  ∀ i t u, Known c ⟨t, .submit i⟩ → Known c ⟨u, .submit i⟩ → t.nonce = u.nonce

/-- Only accepted transactions are in blocks, one for each nonce. -/
structure Chain (n : Node P ι) : Prop where
  holds : ∀ t ∈ n.included, n.Holds t
  nonce : ∀ t ∈ n.included, ∀ u ∈ n.included, t.nonce = u.nonce → t = u

/-- A transaction sent for the call `i` is in a block. -/
def IncludedFor (n : Node P ι) (i : ι) (t : Tx P) : Prop :=
  t ∈ n.included ∧ ⟨t, .submit i⟩ ∈ n.accepted

instance [DecidableEq ι] [DecidableEq P] (n : Node P ι) (i : ι) (t : Tx P) :
    Decidable (IncludedFor n i t) := inferInstanceAs (Decidable (_ ∧ _))

variable {c d : Config (Shared P ι) ι (Task P)} {l : Label ι (Event P)}

/-- While a try waits for the mutex nothing of its call is in flight. -/
lemma known_of_acquire {i : ι} {p : P} {tries : ℕ} {t : Tx P}
    (hi : c.task i = .submitTransaction p (.acquire tries)) (h : Known c ⟨t, .submit i⟩) :
    (⟨t, .submit i⟩ : Request P ι) ∈ c.shared.node.accepted ++ c.shared.node.limbo := by
  rcases h with h | h | ⟨j, hj⟩
  · exact List.mem_append_left _ h
  · exact List.mem_append_right _ h
  · unfold Task.Sends at hj
    split at hj
    · cases hj
      simp_all
    · obtain ⟨letter, -, hr⟩ := hj
      unfold Letter.request? at hr
      split at hr <;> cases hr
    · exact hj.elim

variable [DecidableEq P]

lemma Initial.oneNonce (h : Initial cfg c) : OneNonce c :=
  fun _ _ _ ht _ => absurd (h.known_earlier ht) (by simp)

lemma Initial.chain (h : Initial cfg c) : Chain c.shared.node where
  holds := h.included
  nonce t ht u hu htu := by
    obtain ⟨r, hr, rfl⟩ := h.included t ht
    obtain ⟨q, hq, rfl⟩ := h.included u hu
    by_contra hne
    have hrq : r ≠ q := fun he => hne (he ▸ rfl)
    have : Std.Symm fun r q : Request P ι => r.tx.nonce ≠ q.tx.nonce := ⟨fun _ _ h => h.symm⟩
    exact h.distinct.forall hr hq hrq htu

variable [DecidableEq ι]

lemma Chain.step (hc : Chain c.shared.node) (h : Step cfg policy c l d) : Chain d.shared.node := by
  cases node_step h with
  | same hn => exact hn ▸ hc
  | handle _ _ _ hn =>
    rw [hn]
    refine ⟨fun t ht => ?_, by simpa using hc.nonce⟩
    exact (hc.holds t (by simpa using ht)).mono (Node.subset_handle _ _ _)
  | lose _ hn =>
    rw [hn]
    exact ⟨hc.holds, hc.nonce⟩
  | mine hm =>
    obtain ⟨hacc, hmined, hn⟩ := Node.mine_eq_some hm
    rw [hn]
    refine ⟨fun t ht => ?_, fun t ht u hu htu => ?_⟩
    · rcases List.mem_append.mp ht with ht | ht
      · exact hc.holds t ht
      · exact List.mem_singleton.mp ht ▸ hacc
    · simp only [List.mem_append, List.mem_singleton] at ht hu
      rcases ht with ht | rfl
      · rcases hu with hu | rfl
        · exact hc.nonce t ht u hu htu
        · exact absurd ⟨t, ht, htu⟩ hmined
      · rcases hu with hu | rfl
        · exact absurd ⟨u, hu, htu.symm⟩ hmined
        · rfl

lemma OneNonce.step (hc : OneNonce c) (hp : ReusesNonce c l) (h : Step cfg policy c l d) :
    OneNonce d := by
  intro i t u ht hu
  have hcreate : ∀ v w : Tx P, Known c ⟨v, .submit i⟩ → Creates c l ⟨w, .submit i⟩ →
      v.nonce = w.nonce := by
    intro v w hv hw
    cases hw with
    | submit hi =>
      have hnonce := hp
      simp only [ReusesNonce, hi] at hnonce
      exact hnonce _ (known_of_acquire hi hv) rfl
  rcases known_of_step h ht with ht | ht
  · rcases known_of_step h hu with hu | hu
    · exact hc i t u ht hu
    · exact hcreate t u ht hu
  · rcases known_of_step h hu with hu | hu
    · exact (hcreate u t hu ht).symm
    · cases ht with
      | submit hi =>
        cases hu
        rfl

section Replied

/-- No reply to a call of `submitTransaction` is lost. -/
def Replied (_ : Config (Shared P ι) ι (Task P)) : Label ι (Event P) → Prop
  | .task _ (.submit .lost) => False
  | _ => True

/-- The node has accepted what the call sent, or the call is over. -/
def Task.Through : Task P → Prop
  | .submitTransaction _ (.replied _ _ .accept) | .submitTransaction _ (.watch _ _)
  | .submitTransaction _ (.finished _) => True
  | _ => False

/-- A call whose request is accepted or under way does not try again. -/
def AllThrough (c : Config (Shared P ι) ι (Task P)) : Prop :=
  ∀ r ∈ c.shared.node.accepted ++ c.shared.node.limbo, ∀ i, r.origin = .submit i →
    (c.task i).Through

omit [DecidableEq ι] in
lemma Initial.allThrough (h : Initial cfg c) : AllThrough c := by
  intro r hr i hi
  rw [h.limbo, List.append_nil] at hr
  rw [h.origin r hr] at hi
  cases hi

/-- A call that is through stays so. -/
lemma Task.Through.step (h : Step cfg policy c l d) {i : ι} (hi : (c.task i).Through) :
    (d.task i).Through := by
  cases h with
  | @submit j p phase e s phase' hj hs =>
    by_cases hij : i = j
    · subst hij
      rw [hj] at hi
      rw [Config.resume_self]
      cases hs with
      | sent | watch => trivial
      | _ => exact hi.elim
    · rwa [Config.resume_ne _ _ hij]
  | @check j _ _ _ _ hj _ | @odis j _ _ _ _ hj _ =>
    by_cases hij : i = j
    · rw [hij, hj] at hi
      exact hi.elim
    · rwa [Config.resume_ne _ _ hij]
  | _ => exact hi

omit [DecidableEq P] [DecidableEq ι] in
lemma Node.known_handle {n : Node P ι} {q r : Request P ι} {a : Answer}
    (hr : r ∈ (n.handle q a).accepted ++ (n.handle q a).limbo) :
    r ∈ n.accepted ++ n.limbo ∨ a = .accept ∧ r = q := by
  rw [Node.handle_limbo] at hr
  rcases List.mem_append.mp hr with hr | hr
  · exact (Node.mem_handle.mp hr).imp_left (List.mem_append_left _)
  · exact .inl (List.mem_append_right _ hr)

omit [DecidableEq P] [DecidableEq ι] in
lemma Node.known_lose {n : Node P ι} {q r : Request P ι}
    (hr : r ∈ (n.lose q).accepted ++ (n.lose q).limbo) : r ∈ n.accepted ++ n.limbo ∨ r = q := by
  rw [Node.lose_limbo, Node.lose_accepted, ← List.append_assoc] at hr
  exact (List.mem_append.mp hr).imp_right List.mem_singleton.mp

/-- What the node learns of a call, it learns with the answer the call gets. -/
lemma through_of_step (hreplied : Replied c l) (h : Step cfg policy c l d) {r : Request P ι}
    (hr : r ∈ d.shared.node.accepted ++ d.shared.node.limbo) {i : ι}
    (hi : r.origin = .submit i) :
    r ∈ c.shared.node.accepted ++ c.shared.node.limbo ∨ (d.task i).Through := by
  cases h with
  | submit hj hs =>
    cases hs with
    | answered _ =>
      rcases Node.known_handle hr with hold | ⟨rfl, rfl⟩
      · exact .inl hold
      · cases hi
        rw [Config.resume_self]
        exact .inr trivial
    | lost => exact hreplied.elim
    | _ => exact .inl hr
  | check _ hs =>
    rw [Config.resume_shared] at hr
    rcases checkStep_node hs with hn | ⟨k, e, letter, s'', phase, rfl, -, hl, hn⟩
    · exact .inl (hn ▸ hr)
    · rw [hn] at hr
      rcases letterStep_node hl with hn | ⟨-, -, tx, -, ⟨a, -, -, hn⟩ | hn⟩
      · exact .inl (hn ▸ hr)
      · rw [hn] at hr
        rcases Node.known_handle hr with hold | ⟨-, rfl⟩
        · exact .inl hold
        · cases hi
      · rw [hn] at hr
        rcases Node.known_lose hr with hold | rfl
        · exact .inl hold
        · cases hi
  | odis _ hs =>
    cases hs with
    | quiet _ => exact .inl hr
    | answered _ =>
      rcases Node.known_handle hr with hold | ⟨-, rfl⟩
      · exact .inl hold
      · cases hi
    | lost =>
      rcases Node.known_lose hr with hold | rfl
      · exact .inl hold
      · cases hi
  | mine hm =>
    obtain ⟨-, -, rfl⟩ := Node.mine_eq_some hm
    exact .inl hr
  | arrive hq _ =>
    rcases List.mem_append.mp hr with hr | hr
    · rcases Node.mem_handle.mp hr with hold | ⟨-, rfl⟩
      · exact .inl (List.mem_append_left _ hold)
      · exact .inl (List.mem_append_right _ (List.mem_of_getElem? hq))
    · exact .inl (List.mem_append_right _ (List.eraseIdx_subset hr))
  | gasPrice => exact .inl hr
  | tick => exact .inl hr

lemma AllThrough.step (hc : AllThrough c) (hreplied : Replied c l) (h : Step cfg policy c l d) :
    AllThrough d := by
  intro r hr i hi
  rcases through_of_step hreplied h hr hi with hold | hthrough
  · exact (hc r hold i hi).step h
  · exact hthrough

omit [DecidableEq P] [DecidableEq ι] in
lemma AllThrough.reusesNonce (hc : AllThrough c) : ReusesNonce c l := by
  unfold ReusesNonce
  split
  · split
    · rename_i i _ _ _ hi
      intro r hr horigin
      have hthrough := hc r hr i horigin
      rw [hi] at hthrough
      exact hthrough.elim
    · trivial
  · trivial

/-- Where no reply is lost, every try finds the nonce of what its call has sent. -/
theorem reusesNonce_of_replied (hc : Initial cfg c)
    (hrun : Run (machine cfg policy) Replied c d) : Run (machine cfg policy) ReusesNonce c d :=
  hrun.of_invariant (J := AllThrough) (fun _ _ _ hc _ _ => hc.reusesNonce)
    (fun _ _ _ hc hp hs => hc.step hp (step_cases hs)) hc.allThrough

end Replied

/-- At most one transaction that is sent for a call gets into a block. -/
theorem submitTransaction_at_most_once (hc : Initial cfg c)
    (hrun : Run (machine cfg policy) ReusesNonce c d) (i : ι) (t u : Tx P)
    (ht : IncludedFor d.shared.node i t) (hu : IncludedFor d.shared.node i u) : t = u := by
  have h := hrun.invariant (J := fun c => OneNonce c ∧ Chain c.shared.node)
    (fun _ _ _ hc hp hs => ⟨hc.1.step hp (step_cases hs), hc.2.step (step_cases hs)⟩)
    ⟨hc.oneNonce, hc.chain⟩
  exact h.2.nonce t ht.1 u hu.1 (h.1 i t u (.inl ht.2) (.inl hu.2))

/-- The first try's reply is lost and the second sends the same transaction again. -/
theorem submitTransaction_resent :
    ∃ d, Run (machine sampleConfig Policy.standard) ReusesNonce sample d ∧
      IncludedFor d.shared.node 0 ⟨0, 1000, .payload 0⟩ ∧
      ∀ t, IncludedFor d.shared.node 0 t → t = ⟨0, 1000, .payload 0⟩ := by
  obtain ⟨d, hrun, hd⟩ := Run.exists_of_exec
    (M := machine sampleConfig Policy.standard) (P := ReusesNonce) (c := sample)
    (q := fun d => IncludedFor d.shared.node 0 ⟨0, 1000, .payload 0⟩)
    (submits 0 [.resume, .lost] ++ [.env (.arrive 0 .accept)] ++
      submits 0 [.resume, .resume, .answer (.reject .other), .resume] ++
      [.env (.mine ⟨0, 1000, .payload 0⟩)]) (by decide +kernel)
  exact ⟨d, hrun, hd, fun t ht => submitTransaction_at_most_once
    sample_initial hrun 0 t _ ht hd⟩

/-- The first try's transaction is in a block before the second try, whose refusal
moves the counter, and the third try sends the payload again. -/
theorem submitTransaction_twice :
    ∃ d, Run (machine sampleConfig Policy.standard) anyStep sample d ∧
      IncludedFor d.shared.node 0 ⟨0, 1000, .payload 0⟩ ∧
      IncludedFor d.shared.node 0 ⟨1, 1000, .payload 0⟩ :=
  Run.exists_of_exec
    (submits 0 [.resume, .lost] ++
      [.env (.arrive 0 .accept), .env (.mine ⟨0, 1000, .payload 0⟩)] ++
      submits 0 [.resume, .resume, .answer (.reject .nonceTooLow), .resume, .resume, .count 1,
        .resume, .resume, .answer .accept] ++
      [.env (.mine ⟨1, 1000, .payload 0⟩)]) (by decide +kernel)

end Komenci.Relayer
