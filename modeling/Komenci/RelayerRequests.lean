import Komenci.RelayerSteps

/-! The requests of the relayer: which are in flight, which step makes a new one, and
which the node handles. -/
namespace Komenci.Relayer
open Interleaving DecimalText

variable {P ι : Type} {cfg : AppConfig} {policy : Policy P ι}

def CheckPhase.letters : CheckPhase P → List (Letter P)
  | .gasTooLow ls _ _ => ls
  | .expired ls _ => ls
  | _ => []

/-- The letter waits for the node's answer to this transaction. -/
def Letter.request? (l : Letter P) : Option (Request P ι) :=
  match l.phase with
  | .send _ _ tx => some ⟨tx, .deadLetter l.txs.hash⟩
  | _ => none

/-- The requests the task waits for. -/
def Task.Sends (i : ι) : Task P → Request P ι → Prop
  | .submitTransaction _ (.send _ tx), r => r = ⟨tx, .submit i⟩
  | .checkTransactions phase, r => ∃ l ∈ phase.letters, l.request? = some r
  | _, _ => False

/-- A request that has left and was not refused. -/
def Known (c : Config (Shared P ι) ι (Task P)) (r : Request P ι) : Prop :=
  r ∈ c.shared.node.accepted ∨ r ∈ c.shared.node.limbo ∨ ∃ i, (c.task i).Sends i r

/-- The step makes a request that is neither answered nor lost at once. -/
inductive Creates (c : Config (Shared P ι) ι (Task P)) :
    Label ι (Event P) → Request P ι → Prop
  | submit {i p tries} : c.task i = .submitTransaction p (.acquire tries) →
      Creates c (.task i (.submit .resume))
        ⟨⟨c.shared.service.nonce, toFixed c.shared.service.gasPrice, .payload p⟩, .submit i⟩
  | deadLetter {i phase k l d g} : c.task i = .checkTransactions phase →
      phase.letters[k]? = some l → l.txs.cachedTx = some d →
      Creates c (.task i (.check (.letter k .resume)))
        ⟨⟨d.nonce, g, .deadLetter⟩, .deadLetter l.txs.hash⟩
  | replenish {i e g} : Creates c (.task i (.odis e))
      ⟨⟨c.shared.node.next, g, .selfTransfer⟩, .replenish i⟩

/-- The request the node handles in this step. -/
def handled (c : Config (Shared P ι) ι (Task P)) : Label ι (Event P) → Option (Request P ι)
  | .task i (.submit (.answer _)) =>
    match c.task i with
    | .submitTransaction _ (.send _ tx) => some ⟨tx, .submit i⟩
    | _ => none
  | .task i (.check (.letter k (.answer _))) =>
    match c.task i with
    | .checkTransactions phase => phase.letters[k]?.bind Letter.request?
    | _ => none
  | .task i (.odis (.selfTransfer g _)) =>
    some ⟨⟨c.shared.node.next, g, .selfTransfer⟩, .replenish i⟩
  | .env (.arrive k _) => c.shared.node.limbo[k]?
  | _ => none

@[simp] lemma nextLetter_request (txs : TxSummary P) (tries : ℕ) (error : NodeError) :
    ((⟨txs, nextLetter tries error⟩ : Letter P).request? : Option (Request P ι)) = none := by
  rcases nextLetter_cases (P := P) tries error with ⟨t, ht⟩ | ht
  all_goals simp [Letter.request?, ht]

lemma nextSubmit_sends {i : ι} {p : P} {tries : ℕ} {error : NodeError} {r : Request P ι} :
    ¬ (Task.submitTransaction p (nextSubmit tries error)).Sends i r := by
  rcases nextSubmit_cases (P := P) tries error with ⟨t, ht⟩ | ht
  all_goals simp [Task.Sends, ht]

lemma letters_request {txs : List (TxSummary P)} {l : Letter P} (h : l ∈ letters txs) :
    (l.request? : Option (Request P ι)) = none := by
  obtain ⟨t, -, rfl⟩ := List.mem_map.mp h
  rfl

lemma mem_set_cases {ls : List (Letter P)} {k : ℕ} {l m : Letter P} (h : l ∈ ls.set k m) :
    l ∈ ls ∨ l = m := (List.mem_or_eq_of_mem_set h)

/-- What holds of the letter that goes on and of the others holds of all. -/
lemma forall_letters_set {J : Letter P → Prop} {ls : List (Letter P)} {k : ℕ} {l : Letter P}
    (hls : ∀ m ∈ ls, J m) (hl : J l) : ∀ m ∈ ls.set k l, J m := by
  intro m hm
  rcases mem_set_cases hm with hm | rfl
  · exact hls m hm
  · exact hl

lemma handled_known {c : Config (Shared P ι) ι (Task P)} {l : Label ι (Event P)}
    {r : Request P ι} (h : handled c l = some r) : Known c r ∨ Creates c l r := by
  unfold handled at h
  split at h
  · rename_i i _
    split at h
    · cases h
      exact .inl (.inr (.inr ⟨i, by simp [*, Task.Sends]⟩))
    · cases h
  · rename_i i _ _
    split at h
    · obtain ⟨letter, hl, hr⟩ := Option.bind_eq_some_iff.mp h
      refine .inl (.inr (.inr ⟨i, ?_⟩))
      simp only [*, Task.Sends]
      exact ⟨letter, List.mem_of_getElem? hl, hr⟩
    · cases h
  · cases h
    exact .inr .replenish
  · exact .inl (.inr (.inl (List.mem_of_getElem? h)))
  · cases h

variable [DecidableEq P]

/-- What a step does to the node: nothing, or it handles a request, or loses one,
or takes a transaction into a block. -/
inductive NodeStep (policy : Policy P ι) (c : Config (Shared P ι) ι (Task P))
    (l : Label ι (Event P)) (n : Node P ι) : Prop
  | same : n = c.shared.node → NodeStep policy c l n
  | handle {r a limbo} : handled c l = some r → policy.answers c.shared.node r.tx a = true →
      limbo ⊆ c.shared.node.limbo → n = { c.shared.node.handle r a with limbo := limbo } →
      NodeStep policy c l n
  | lose {i r} : (c.task i).Sends i r ∨ Creates c l r → n = c.shared.node.lose r →
      NodeStep policy c l n
  | mine {t} : c.shared.node.mine t = some n → NodeStep policy c l n

lemma submitStep_sends {i : ι} {p : P} {s s' : Shared P ι} {phase phase' : SubmitPhase P}
    {e : SubmitEvent} {r : Request P ι} (h : SubmitStep cfg policy i p s phase e s' phase')
    (hr : (Task.submitTransaction p phase').Sends i r) :
    ∃ tries, phase = .acquire tries ∧ e = .resume ∧
      r = ⟨⟨s.service.nonce, toFixed s.service.gasPrice, .payload p⟩, .submit i⟩ := by
  cases h with
  | acquire _ => exact ⟨_, rfl, rfl, hr⟩
  | failed | gasPrice | refreshed => exact absurd hr nextSubmit_sends
  | _ => exact hr.elim

lemma letterStep_request {s s' : Shared P ι} {txs : TxSummary P} {phase phase' : LetterPhase P}
    {e : LetterEvent} {r : Request P ι} (h : LetterStep cfg policy s txs phase e s' phase')
    (hr : (⟨txs, phase'⟩ : Letter P).request? = some r) :
    ∃ d g, e = .resume ∧ txs.cachedTx = some d ∧
      r = ⟨⟨d.nonce, g, .deadLetter⟩, .deadLetter txs.hash⟩ := by
  cases h with
  | @start tries d hd =>
    obtain rfl := Option.some.inj hr
    exact ⟨d, _, rfl, hd, rfl⟩
  | tooLow | failed | gasPrice => simp at hr
  | _ => cases hr

/-- A new request of a pass comes from one of its letters. -/
lemma checkStep_sends {i : ι} {s s' : Shared P ι} {phase phase' : CheckPhase P} {e : CheckEvent}
    {r : Request P ι} (h : CheckStep cfg policy s phase e s' phase')
    (hr : (Task.checkTransactions phase').Sends i r) :
    (Task.checkTransactions phase).Sends i r ∨
      ∃ k l d g, e = .letter k .resume ∧ phase.letters[k]? = some l ∧ l.txs.cachedTx = some d ∧
        r = ⟨⟨d.nonce, g, .deadLetter⟩, .deadLetter l.txs.hash⟩ := by
  cases h with
  | lowLetter hl hs | expiredLetter hl hs =>
    obtain ⟨m, hm, hreq⟩ := hr
    rcases mem_set_cases hm with hm | rfl
    · exact .inl ⟨m, hm, hreq⟩
    · obtain ⟨d, g, rfl, hd, rfl⟩ := letterStep_request hs hreq
      exact .inr ⟨_, _, d, g, rfl, hl, hd, rfl⟩
  | filtered =>
    obtain ⟨m, hm, hreq⟩ := hr
    simp [letters_request hm] at hreq
  | lowSettled _ | expiredSettled _ =>
    split_ifs at hr
    all_goals
      obtain ⟨m, hm, hreq⟩ := hr
      first
        | exact absurd hm List.not_mem_nil
        | simp [letters_request hm] at hreq
  | _ =>
    obtain ⟨m, hm, -⟩ := hr
    exact absurd hm List.not_mem_nil

lemma letterStep_node {s s' : Shared P ι} {txs : TxSummary P} {phase phase' : LetterPhase P}
    {e : LetterEvent} (h : LetterStep cfg policy s txs phase e s' phase') :
    s'.node = s.node ∨
      ∃ tries g tx, phase = .send tries g tx ∧
        ((∃ a, e = .answer a ∧ policy.answers s.node tx a = true ∧
            s'.node = s.node.handle ⟨tx, .deadLetter txs.hash⟩ a) ∨
          s'.node = s.node.lose ⟨tx, .deadLetter txs.hash⟩) := by
  cases h with
  | answered ha => exact .inr ⟨_, _, _, rfl, .inl ⟨_, rfl, ha, rfl⟩⟩
  | lost => exact .inr ⟨_, _, _, rfl, .inr rfl⟩
  | _ => exact .inl rfl

lemma finalizeAll_node (s : Shared P ι) (completed : List (TxSummary P × Bool)) :
    (finalizeAll s completed).node = s.node :=
  finalizeAll_keeps (J := fun s' => s'.node = s.node) (fun _ hs _ _ _ => hs) rfl

lemma checkStep_node {s s' : Shared P ι} {phase phase' : CheckPhase P} {e : CheckEvent}
    (h : CheckStep cfg policy s phase e s' phase') :
    s'.node = s.node ∨
      ∃ k le letter s'' ph, e = .letter k le ∧ phase.letters[k]? = some letter ∧
        LetterStep cfg policy s letter.txs letter.phase le s'' ph ∧ s'.node = s''.node := by
  cases h with
  | lowLetter hl hs => exact .inr ⟨_, _, _, _, _, rfl, hl, hs, rfl⟩
  | expiredLetter hl hs => exact .inr ⟨_, _, _, _, _, rfl, hl, hs, rfl⟩
  | receipts _ => exact .inl (finalizeAll_node _ _)
  | _ => exact .inl rfl

/-- At the start only what was sent earlier is known. -/
lemma Initial.known_accepted {c : Config (Shared P ι) ι (Task P)} {r : Request P ι}
    (h : Initial cfg c) (hr : Known c r) : r ∈ c.shared.node.accepted := by
  rcases hr with hr | hr | ⟨j, hj⟩
  · exact hr
  · simp [h.limbo] at hr
  · have hf := h.task j
    unfold Task.Sends at hj
    split at hj
    · simp_all [Task.fresh]
    · simp_all [Task.fresh, CheckPhase.letters]
    · exact hj.elim

lemma Initial.known_earlier {c : Config (Shared P ι) ι (Task P)} {r : Request P ι}
    (h : Initial cfg c) (hr : Known c r) : r.origin = .earlier := h.origin r (h.known_accepted hr)

section Machine
variable [DecidableEq ι]
variable {c d : Config (Shared P ι) ι (Task P)} {l : Label ι (Event P)}

/-- The steps of the whole system. -/
inductive Step (cfg : AppConfig) (policy : Policy P ι) (c : Config (Shared P ι) ι (Task P)) :
    Label ι (Event P) → Config (Shared P ι) ι (Task P) → Prop
  | submit {i p phase e s phase'} : c.task i = .submitTransaction p phase →
      SubmitStep cfg policy i p c.shared phase e s phase' →
      Step cfg policy c (.task i (.submit e)) (c.resume i (s, .submitTransaction p phase'))
  | check {i phase e s phase'} : c.task i = .checkTransactions phase →
      CheckStep cfg policy c.shared phase e s phase' →
      Step cfg policy c (.task i (.check e)) (c.resume i (s, .checkTransactions phase'))
  | odis {i phase e s phase'} : c.task i = .getPhoneNumberSignature phase →
      OdisStep policy i c.shared phase e s phase' →
      Step cfg policy c (.task i (.odis e)) (c.resume i (s, .getPhoneNumberSignature phase'))
  | mine {t node} : c.shared.node.mine t = some node →
      Step cfg policy c (.env (.mine t)) ⟨{ c.shared with node := node }, c.task⟩
  | arrive {k a r} : c.shared.node.limbo[k]? = some r →
      policy.answers c.shared.node r.tx a = true →
      Step cfg policy c (.env (.arrive k a)) ⟨{ c.shared with
        node := { c.shared.node.handle r a with limbo := c.shared.node.limbo.eraseIdx k } }, c.task⟩
  | gasPrice {raw} : Step cfg policy c (.env (.gasPrice raw))
      ⟨c.shared.updateGasPrice cfg raw, c.task⟩
  | tick {ms} : Step cfg policy c (.env (.tick ms))
      ⟨{ c.shared with clock := c.shared.clock + ms }, c.task⟩

lemma step_of_segment {i : ι} {e : Event P} {r : Shared P ι × Task P}
    (h : segment cfg policy i e c.shared (c.task i) = some r) :
    Step cfg policy c (.task i e) (c.resume i r) := by
  unfold segment at h
  split at h
  · split at h
    · obtain ⟨q, hq, rfl⟩ := Option.map_eq_some_iff.mp h
      exact .submit ‹_› (submitTransaction_step hq)
    · cases h
  · split at h
    · obtain ⟨q, hq, rfl⟩ := Option.map_eq_some_iff.mp h
      exact .check ‹_› (checkTransactions_step hq)
    · cases h
  · split at h
    · obtain ⟨q, hq, rfl⟩ := Option.map_eq_some_iff.mp h
      exact .odis ‹_› (getPhoneNumberSignature_step hq)
    · cases h

lemma step_of_world {e : Event P} {s : Shared P ι} (h : world cfg policy e c.shared = some s) :
    Step cfg policy c (.env e) ⟨s, c.task⟩ := by
  unfold world at h
  split at h
  · obtain ⟨node, hn, rfl⟩ := Option.map_eq_some_iff.mp h
    exact .mine hn
  · unfold arrive at h
    split at h
    · cases h
    · split_ifs at h with ha
      cases h
      exact .arrive ‹_› ha
  · cases h
    exact .gasPrice
  · cases h
    exact .tick
  · cases h

lemma step_cases (h : (machine cfg policy).step c l = some d) : Step cfg policy c l d := by
  rcases Machine.step_cases h with ⟨i, e, r, rfl, hr, rfl⟩ | ⟨e, rfl, he⟩
  · exact step_of_segment hr
  · obtain ⟨s, hs, rfl⟩ := Option.map_eq_some_iff.mp he
    exact step_of_world hs

lemma node_step (h : Step cfg policy c l d) : NodeStep policy c l d.shared.node := by
  cases h with
  | @submit i p phase e s phase' hi hs =>
    cases hs with
    | @answered tries tx a ha =>
      exact .handle (r := ⟨tx, .submit i⟩) (by simp [handled, hi]) ha (List.Subset.refl _)
        (Node.handle_eq _ _ a)
    | @lost tries tx =>
      exact .lose (i := i) (r := ⟨tx, .submit i⟩) (.inl (by simp [hi, Task.Sends])) rfl
    | _ => exact .same rfl
  | @check i phase e s phase' hi hs =>
    rcases checkStep_node hs with hn | ⟨k, le, letter, s'', ph, rfl, hl, hls, hn⟩
    · exact .same hn
    · have hmem := List.mem_of_getElem? hl
      rcases letterStep_node hls with hn' | ⟨tries, g, tx, hph, ⟨a, rfl, ha, hn'⟩ | hn'⟩
      · exact .same (hn.trans hn')
      · have hreq : handled c (.task i (.check (.letter k (.answer a)))) =
            some ⟨tx, .deadLetter letter.txs.hash⟩ := by
          simp [handled, hi, hl, Letter.request?, hph]
        exact .handle hreq ha (List.Subset.refl _) ((hn.trans hn').trans (Node.handle_eq _ _ a))
      · have hsends : (c.task i).Sends i ⟨tx, .deadLetter letter.txs.hash⟩ := by
          rw [hi]
          exact ⟨letter, hmem, by simp [Letter.request?, hph]⟩
        exact .lose (.inl hsends) (hn.trans hn')
  | @odis i phase e s phase' hi hs =>
    cases hs with
    | quiet _ => exact .same rfl
    | @answered tries g a ha =>
      exact .handle (r := ⟨⟨c.shared.node.next, g, .selfTransfer⟩, .replenish i⟩)
        (by simp [handled]) ha (List.Subset.refl _) (Node.handle_eq _ _ a)
    | lost => exact .lose (i := i) (.inr Creates.replenish) rfl
  | mine hm => exact .mine hm
  | @arrive k a r hr ha => exact .handle (by simpa [handled] using hr) ha (List.eraseIdx_subset) rfl
  | gasPrice => exact .same rfl
  | tick => exact .same rfl

lemma sends_of_step (h : Step cfg policy c l d) {i : ι} {r : Request P ι}
    (hr : (d.task i).Sends i r) : (c.task i).Sends i r ∨ Creates c l r := by
  cases h with
  | @submit j p phase e s phase' hj hs =>
    by_cases hij : i = j
    · subst hij
      rw [Config.resume_self] at hr
      obtain ⟨tries, rfl, rfl, rfl⟩ := submitStep_sends hs hr
      exact .inr (.submit hj)
    · exact .inl (by simpa [hij] using hr)
  | @check j phase e s phase' hj hs =>
    by_cases hij : i = j
    · subst hij
      rw [Config.resume_self] at hr
      rcases checkStep_sends hs hr with hold | ⟨k, letter, d, g, rfl, hl, hd, rfl⟩
      · exact .inl (hj ▸ hold)
      · exact .inr (.deadLetter hj hl hd)
    · exact .inl (by simpa [hij] using hr)
  | @odis j phase e s phase' hj hs =>
    by_cases hij : i = j
    · subst hij
      rw [Config.resume_self] at hr
      exact hr.elim
    · exact .inl (by simpa [hij] using hr)
  | _ => exact .inl hr

/-- A request is known from the step on that creates it. -/
theorem known_of_step (h : Step cfg policy c l d) {r : Request P ι} (hr : Known d r) :
    Known c r ∨ Creates c l r := by
  rcases hr with hacc | hlimbo | ⟨i, hi⟩
  · cases node_step h with
    | same hn => exact .inl (.inl (hn ▸ hacc))
    | handle hh ha hsub hn =>
      rw [hn] at hacc
      rcases Node.mem_handle.mp hacc with hold | ⟨-, rfl⟩
      · exact .inl (.inl hold)
      · exact handled_known hh
    | lose hs hn =>
      rw [hn] at hacc
      exact .inl (.inl hacc)
    | mine hm =>
      obtain ⟨-, -, hn⟩ := Node.mine_eq_some hm
      rw [hn] at hacc
      exact .inl (.inl hacc)
  · cases node_step h with
    | same hn => exact .inl (.inr (.inl (hn ▸ hlimbo)))
    | handle hh ha hsub hn =>
      rw [hn] at hlimbo
      exact .inl (.inr (.inl (hsub hlimbo)))
    | @lose i q hs hn =>
      rw [hn, Node.lose_limbo, List.mem_append, List.mem_singleton] at hlimbo
      rcases hlimbo with hold | rfl
      · exact .inl (.inr (.inl hold))
      · exact hs.imp (fun h => .inr (.inr ⟨i, h⟩)) id
    | mine hm =>
      obtain ⟨-, -, hn⟩ := Node.mine_eq_some hm
      rw [hn] at hlimbo
      exact .inl (.inr (.inl hlimbo))
  · exact (sends_of_step h hi).imp (fun h => .inr (.inr ⟨i, h⟩)) id

/-- Nothing accepted or put in a block is taken back. -/
lemma node_grows (h : Step cfg policy c l d) :
    c.shared.node.accepted ⊆ d.shared.node.accepted ∧
      c.shared.node.included ⊆ d.shared.node.included := by
  cases node_step h with
  | same hn => exact ⟨fun _ hr => hn ▸ hr, fun _ hr => hn ▸ hr⟩
  | handle _ _ _ hn =>
    rw [hn]
    exact ⟨Node.subset_handle _ _ _, by simp⟩
  | lose _ hn =>
    rw [hn]
    exact ⟨List.Subset.refl _, List.Subset.refl _⟩
  | mine hm =>
    obtain ⟨-, -, hn⟩ := Node.mine_eq_some hm
    rw [hn]
    exact ⟨List.Subset.refl _, List.subset_append_left _ _⟩

end Machine

end Komenci.Relayer
