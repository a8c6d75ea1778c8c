import Komenci.RelayerNonces

/-! The refill of the quota and the nonces. From the counter on, only self-transfers have
taken nonces, so once these are in a block a payload gets a nonce of its own, and
transactions of the wallet share a nonce only by replacement. -/
namespace Komenci.Relayer
open Interleaving

variable {P ι : Type} {cfg : AppConfig} {policy : Policy P ι}

/-- Sent by `replenishQuota`. -/
def Request.refill (r : Request P ι) : Bool :=
  match r.origin with
  | .replenish _ => true
  | _ => false

/-- The self-transfers from the counter on are in blocks. -/
def Shared.RefillsMined (s : Shared P ι) : Prop :=
  ∀ r ∈ s.node.accepted, r.refill = true → s.service.nonce ≤ r.tx.nonce → r.tx ∈ s.node.included

instance [DecidableEq P] (s : Shared P ι) : Decidable s.RefillsMined :=
  inferInstanceAs (Decidable (∀ r ∈ s.node.accepted, _))

/-- The node accepts a payload only when each self-transfer is in a block or the counter
has been refreshed since, and never accepts a request whose answer was lost. -/
def RefillsSettled (c : Config (Shared P ι) ι (Task P)) : Label ι (Event P) → Prop
  | .task _ (.submit (.answer .accept)) => c.shared.RefillsMined
  | .env (.arrive _ .accept) => False
  | _ => True

instance [DecidableEq P] (c : Config (Shared P ι) ι (Task P)) (l : Label ι (Event P)) :
    Decidable (RefillsSettled c l) := by
  unfold RefillsSettled
  induction l using Label.casesOn with
  | env e =>
    induction e using Event.casesOn with
    | arrive k a => induction a using Answer.casesOn <;> infer_instance
    | _ => infer_instance
  | task i e =>
    induction e using Event.casesOn with
    | submit e =>
      induction e using SubmitEvent.casesOn with
      | answer a => induction a using Answer.casesOn <;> infer_instance
      | _ => infer_instance
    | _ => infer_instance

/-- From `nonce` on, only self-transfers have taken nonces. -/
def Node.RefilledFrom (n : Node P ι) (nonce : ℕ) : Prop :=
  ∀ k ∈ n.nonces, nonce ≤ k → ∃ r ∈ n.accepted, r.tx.nonce = k ∧ r.refill = true

/-- What the counter will stand at when the call releases the mutex. -/
def SubmitPhase.counter (nonce : ℕ) : SubmitPhase P → ℕ
  | .replied _ _ .accept => nonce + 1
  | .refreshed _ k => k
  | _ => nonce

def RefilledTask (i : ι) (s : Shared P ι) : Task P → Prop
  | .submitTransaction _ phase =>
    s.service.nonceLock = some i → s.node.RefilledFrom (phase.counter s.service.nonce)
  | _ => True

/-- The accepted transactions with one nonce, in order. -/
def Node.withNonce (n : Node P ι) (nonce : ℕ) : List (Request P ι) :=
  n.accepted.filter fun r => r.tx.nonce = nonce

/-- Each transaction that bears the nonce of an earlier one is the dead letter created
to replace the last of these. -/
def OnlyReplaced (n : Node P ι) : Prop :=
  ∀ nonce, (n.withNonce nonce).IsChain fun r q => q.origin = .deadLetter r.tx

/-- A dead letter bears the nonce of the accepted transaction it replaces. -/
def LettersRight (c : Config (Shared P ι) ι (Task P)) : Prop :=
  ∀ tx h, Known c ⟨tx, .deadLetter h⟩ → tx.nonce = h.nonce ∧ c.shared.node.Holds h

lemma Node.RefilledFrom.of_eq {n m : Node P ι} {k : ℕ} (h : n.RefilledFrom k)
    (ha : m.accepted = n.accepted) : m.RefilledFrom k := by
  simpa only [RefilledFrom, nonces, ha] using h

/-- What is accepted below `k`, under a nonce in use or as a self-transfer changes nothing
from `k` on. -/
lemma Node.RefilledFrom.accept {n : Node P ι} {r : Request P ι} {k : ℕ} (h : n.RefilledFrom k)
    (hr : r.tx.nonce < k ∨ r.tx.nonce ∈ n.nonces ∨ r.refill = true) :
    (n.accept r).RefilledFrom k := by
  have hold : ∀ m ∈ n.nonces, k ≤ m →
      ∃ q ∈ (n.accept r).accepted, q.tx.nonce = m ∧ q.refill = true := by
    intro m hm hkm
    obtain ⟨q, hq, hqm⟩ := h m hm hkm
    exact ⟨q, List.mem_append_left _ hq, hqm⟩
  intro m hm hkm
  rw [nonces_accept, List.mem_append, List.mem_singleton] at hm
  rcases hm with hm | rfl
  · exact hold m hm hkm
  · rcases hr with hlt | hmem | hrefill
    · omega
    · exact hold _ hmem hkm
    · exact ⟨r, by simp, rfl, hrefill⟩

/-- The mutex stays with `j`, and with it what `j` knows of the nonces. -/
def Spares (j : ι) (s s' : Shared P ι) : Prop :=
  s'.service.nonceLock = some j → s.service.nonceLock = some j ∧
    s'.service.nonce = s.service.nonce ∧ ∀ k, s.node.RefilledFrom k → s'.node.RefilledFrom k

lemma RefilledTask.mono {j : ι} {s s' : Shared P ι} {t : Task P} (hs : Spares j s s')
    (h : RefilledTask j s t) : RefilledTask j s' t := by
  cases t with
  | submitTransaction p phase =>
    intro hl
    obtain ⟨hlock, hnonce, hnode⟩ := hs hl
    rw [hnonce]
    exact hnode _ (h hlock)
  | _ => trivial

lemma OnlyReplaced.of_eq {n m : Node P ι} (h : OnlyReplaced n) (ha : m.accepted = n.accepted) :
    OnlyReplaced m := fun nonce => by
  rw [Node.withNonce, ha]
  exact h nonce

lemma withNonce_accept_of_ne {n : Node P ι} {r : Request P ι} {nonce : ℕ}
    (h : r.tx.nonce ≠ nonce) : (n.accept r).withNonce nonce = n.withNonce nonce := by
  simp [Node.withNonce, List.filter_append, h]

lemma withNonce_accept_self (n : Node P ι) (r : Request P ι) :
    (n.accept r).withNonce r.tx.nonce = n.withNonce r.tx.nonce ++ [r] := by
  simp [Node.withNonce, List.filter_append]

/-- A fresh nonce has no other transaction. -/
lemma OnlyReplaced.accept_fresh {n : Node P ι} {r : Request P ι} (h : OnlyReplaced n)
    (hr : r.tx.nonce ∉ n.nonces) : OnlyReplaced (n.accept r) := by
  intro nonce
  by_cases hn : r.tx.nonce = nonce
  · subst hn
    have hnil : n.withNonce r.tx.nonce = [] := by
      refine List.filter_eq_nil_iff.mpr fun q hq => ?_
      simp only [decide_eq_true_eq]
      exact fun he => hr (he ▸ List.mem_map_of_mem hq)
    rw [withNonce_accept_self, hnil]
    exact .singleton r
  · rw [withNonce_accept_of_ne hn]
    exact h nonce

/-- The first dead letter for a transaction follows that transaction. -/
lemma OnlyReplaced.accept_deadLetter {n : Node P ι} {tx h : Tx P} (hn : OnlyReplaced n)
    (hh : n.Holds h) (htx : tx.nonce = h.nonce)
    (hfirst : ∀ q ∈ n.accepted, q.origin ≠ .deadLetter h) :
    OnlyReplaced (n.accept ⟨tx, .deadLetter h⟩) := by
  intro nonce
  by_cases hne : tx.nonce = nonce
  · subst hne
    obtain ⟨e, he, rfl⟩ := hh
    have hmem : e ∈ n.withNonce tx.nonce := by
      simp [Node.withNonce, he, htx]
    obtain ⟨pre, post, hsplit⟩ := List.append_of_mem hmem
    have hchain := hn tx.nonce
    have hself := withNonce_accept_self n ⟨tx, .deadLetter e.tx⟩
    simp only at hself
    rw [hself]
    rw [hsplit] at hchain ⊢
    cases post with
    | nil =>
      refine hchain.append (.singleton _) fun x hx y hy => ?_
      simp only [List.getLast?_append, List.getLast?_singleton, Option.some_or,
        Option.mem_def, Option.some.injEq, List.head?_cons] at hx hy
      rw [← hx, ← hy]
    | cons x post =>
      -- What follows `e` would be an earlier dead letter for it.
      have hx := (List.isChain_append_cons_cons.mp hchain).2.1
      have hxmem : x ∈ n.withNonce tx.nonce := by simp [hsplit]
      exact absurd hx (hfirst x (List.mem_of_mem_filter hxmem))
  · rw [withNonce_accept_of_ne hne]
    exact hn nonce

variable [DecidableEq P] [DecidableEq ι] {c d : Config (Shared P ι) ι (Task P)}
  {l : Label ι (Event P)}

lemma creates_deadLetter_right {tx h : Tx P} (hr : (rightOutline cfg policy).Holds c)
    (hc : Creates c l ⟨tx, .deadLetter h⟩) : tx.nonce = h.nonce ∧ c.shared.node.Holds h := by
  cases hc with
  | @deadLetter i phase k letter data g hi hk hd =>
    have hright : RightTask i c.shared (c.task i) := hr.2 i
    rw [hi] at hright
    have hletter : RightSummary c.shared.node letter.txs := by
      have hmem := List.mem_of_getElem? hk
      cases phase with
      | gasTooLow ls exp compl => exact (hright.1 letter hmem).1
      | expired ls compl => exact (hright.1 letter hmem).1
      | _ => simp [CheckPhase.letters] at hmem
    obtain ⟨data', hd', hnonce, hholds⟩ := hletter
    obtain rfl := Option.some.inj (hd.symm.trans hd')
    exact ⟨hnonce, hholds⟩

lemma LettersRight.step (hl : LettersRight c) (hr : (rightOutline cfg policy).Holds c)
    (h : Step cfg policy c l d) : LettersRight d := by
  intro tx t hknown
  have hold : tx.nonce = t.nonce ∧ c.shared.node.Holds t := by
    rcases known_of_step h hknown with hk | hk
    · exact hl tx t hk
    · exact creates_deadLetter_right hr hk
  exact ⟨hold.1, hold.2.mono (node_grows h).1⟩

/-- The counter stands below no nonce but those of self-transfers when the mutex is free. -/
def RefilledFree (s : Shared P ι) : Prop :=
  s.service.nonceLock = none → s.node.RefilledFrom s.service.nonce

omit [DecidableEq P] [DecidableEq ι] in
lemma nextSubmit_counter (nonce tries : ℕ) (error : NodeError) :
    (nextSubmit tries error : SubmitPhase P).counter nonce = nonce := by
  rcases nextSubmit_cases (P := P) tries error with ⟨t, ht⟩ | ht
  all_goals
    rw [ht]
    rfl

omit [DecidableEq ι] in
lemma submitStep_refilled {i : ι} {p : P} {s s' : Shared P ι} {phase phase' : SubmitPhase P}
    {e : SubmitEvent} (hcounts : ∀ n k, policy.counts n k = true → k = n.next)
    (hnext : ∀ k ∈ s.node.nonces, k < s.node.next) (hr : RightSubmit i s phase)
    (hs : RefilledFree s) (ht : RefilledTask i s (.submitTransaction p phase))
    (h : SubmitStep cfg policy i p s phase e s' phase') :
    RefilledFree s' ∧ RefilledTask i s' (.submitTransaction p phase') ∧
      ∀ j ≠ i, Spares j s s' := by
  have hsame : ∀ j, ∀ n : Node P ι, n.accepted = s.node.accepted →
      Spares j s { s with node := n } := fun j n ha hl => ⟨hl, rfl, fun k hk => hk.of_eq ha⟩
  have hheld : ∀ (s' : Shared P ι), s'.service.nonceLock = some i → ∀ j ≠ i, Spares j s s' :=
    fun s' hl j hj hl' => absurd (Option.some.inj (hl'.symm.trans hl)) hj
  have hfreed : ∀ (s' : Shared P ι), s'.service.nonceLock = none → ∀ j, Spares j s s' :=
    fun s' hl j hl' => by simp [hl] at hl'
  cases h with
  | acquire hl | acquireRefresh hl =>
    exact ⟨fun hl' => (Option.some_ne_none _ hl').elim, fun _ => hs hl, hheld _ rfl⟩
  | @answered tries tx a ha =>
    have hlock := hr.1
    refine ⟨fun hl => by simp [Shared.handle, hlock] at hl, fun _ => ?_, hheld _ hlock⟩
    cases a with
    | accept =>
      have hfrom : s.node.RefilledFrom (s.service.nonce + 1) :=
        fun k hk hle => ht hlock k hk ((Nat.le_succ _).trans hle)
      exact hfrom.accept (.inl (hr.2 ▸ Nat.lt_succ_self _))
    | reject e => exact ht hlock
  | lost => exact ⟨fun hl => hs hl, fun hl => ht hl, fun j _ => hsame j _ rfl⟩
  | sent | priced | tooLow | failed =>
    exact ⟨fun _ => ht hr.1, fun hl => (Option.some_ne_none _ hl.symm).elim,
      fun j _ => hfreed _ rfl j⟩
  | uncounted | refreshed =>
    exact ⟨fun _ => ht hr, fun hl => (Option.some_ne_none _ hl.symm).elim,
      fun j _ => hfreed _ rfl j⟩
  | watch => exact ⟨fun hl => hs hl, fun hl => ht hl, fun j _ hl => ⟨hl, rfl, fun _ hk => hk⟩⟩
  | gasPrice =>
    refine ⟨fun hl => ?_, fun hl => ?_, fun j _ hl => ?_⟩
    all_goals simp only [Shared.updateGasPrice, updateGasPrice_nonceLock,
      updateGasPrice_nonce, nextSubmit_counter] at hl ⊢
    · exact hs hl
    · exact ht hl
    · exact ⟨hl, trivial, fun _ hk => hk⟩
  | counted hk =>
    obtain rfl := hcounts _ _ hk
    exact ⟨hs, fun _ k hk hle => absurd (hnext k hk) (Nat.not_lt.mpr hle), fun j _ => hsame j _ rfl⟩

omit [DecidableEq ι] in
/-- A pass accepts only under nonces in use. -/
lemma checkStep_refilled {s s' : Shared P ι} {phase phase' : CheckPhase P} {e : CheckEvent}
    {k : ℕ} (hr : RightCheck s.node phase) (h : CheckStep cfg policy s phase e s' phase')
    (hk : s.node.RefilledFrom k) : s'.node.RefilledFrom k := by
  rcases checkStep_node h with hn | ⟨j, le, letter, s'', ph, -, hl, hls, hn⟩
  · exact hk.of_eq (by rw [hn])
  · rcases letterStep_node hls with hn' | ⟨tries, g, tx, hph, ⟨a, -, -, hn'⟩ | hn'⟩
    · exact hk.of_eq (by rw [hn, hn'])
    · obtain ⟨⟨d, -, -, hholds⟩, hnonce⟩ := rightLetter_of_mem hr (List.mem_of_getElem? hl)
      rw [hph] at hnonce
      rw [hn, hn']
      cases a with
      | accept => exact hk.accept (.inr (.inl (hnonce ▸ hholds.nonce_mem)))
      | reject e => exact hk
    · exact hk.of_eq (by rw [hn, hn', Node.lose_accepted])

omit [DecidableEq ι] [DecidableEq P] in
lemma odisStep_refilled {i : ι} {s s' : Shared P ι} {phase phase' : OdisPhase P} {e : OdisEvent}
    {k : ℕ} (h : OdisStep policy i s phase e s' phase') (hk : s.node.RefilledFrom k) :
    s'.node.RefilledFrom k := by
  cases h with
  | quiet _ => exact hk
  | @answered tries g a ha =>
    cases a with
    | accept => exact hk.accept (.inr (.inr rfl))
    | reject e => exact hk
  | lost => exact hk.of_eq rfl

omit [DecidableEq P] [DecidableEq ι] in
/-- A step that leaves the mutex and the counter alone. -/
lemma refilled_of_kept {s s' : Shared P ι}
    (hl : s'.service.nonceLock = s.service.nonceLock) (hn : s'.service.nonce = s.service.nonce)
    (hk : ∀ k, s.node.RefilledFrom k → s'.node.RefilledFrom k) :
    (RefilledFree s → RefilledFree s') ∧ ∀ j, Spares j s s' := by
  refine ⟨fun hs hl' => ?_, fun j hl' => ⟨hl ▸ hl', hn, hk⟩⟩
  rw [hn]
  exact hk _ (hs (hl ▸ hl'))

/-- On top of what is right: which nonces the counter has still to pass. -/
def refilledOutline (cfg : AppConfig) (policy : Policy P ι)
    (hcounts : ∀ n k, policy.counts n k = true → k = n.next) :
    Outline (machine cfg policy) fun c l =>
      RefillsSettled c l ∧ (rightOutline cfg policy).Holds c ∧ Spread c where
  inv := RefilledFree
  at_ := RefilledTask
  task c d i e hp hs hat h := by
    obtain ⟨-, ⟨hcache, hright⟩, hspread⟩ := hp
    have hr : RightTask i c.shared (c.task i) := hright i
    cases step_cases h with
    | submit hi hsub =>
      have hself := hat i
      rw [hi] at hr hself
      obtain ⟨hs', hself', hother⟩ :=
        submitStep_refilled hcounts hspread.nonces hr hs hself hsub
      exact ⟨hs', by rwa [Config.resume_self], fun j hj => (hat j).mono (hother j hj)⟩
    | check hi hcheck =>
      rw [hi] at hr
      obtain ⟨hs', hother⟩ := refilled_of_kept (checkStep_lock hcheck)
        (checkStep_watched hcache hcheck).1 fun k => checkStep_refilled hr hcheck
      exact ⟨hs' hs, by rw [Config.resume_self]; trivial, fun j _ => (hat j).mono (hother j)⟩
    | odis hi hodis =>
      have hservice := odisStep_service hodis
      obtain ⟨hs', hother⟩ := refilled_of_kept (congrArg Service.nonceLock hservice)
        (congrArg Service.nonce hservice) fun k => odisStep_refilled hodis
      exact ⟨hs' hs, by rw [Config.resume_self]; trivial, fun j _ => (hat j).mono (hother j)⟩
  env c d e hp hs hat h := by
    have hkeep : ∀ s : Shared P ι, s.service.nonceLock = c.shared.service.nonceLock →
        s.service.nonce = c.shared.service.nonce →
        s.node.accepted = c.shared.node.accepted →
        RefilledFree s ∧ ∀ j, RefilledTask j s (c.task j) := by
      intro s hl hn ha
      obtain ⟨hs', hother⟩ := refilled_of_kept hl hn fun k hk => hk.of_eq ha
      exact ⟨hs' hs, fun j => (hat j).mono (hother j)⟩
    cases step_cases h with
    | mine hm =>
      obtain ⟨-, -, rfl⟩ := Node.mine_eq_some hm
      exact hkeep _ rfl rfl rfl
    | @arrive k a r hr ha =>
      cases a with
      | accept => exact hp.1.elim
      | reject _ => exact hkeep _ rfl rfl rfl
    | gasPrice =>
      refine hkeep _ ?_ ?_ rfl
      all_goals simp [Shared.updateGasPrice]
    | tick => exact hkeep _ rfl rfl rfl

lemma Initial.refilled (h : Initial cfg c)
    (hcounts : ∀ n k, policy.counts n k = true → k = n.next) :
    (refilledOutline cfg policy hcounts).Holds c := by
  have hfrom : c.shared.node.RefilledFrom c.shared.service.nonce := fun k hk hle =>
    absurd (h.nonces k hk) (Nat.not_lt.mpr (h.nonce_eq ▸ hle))
  refine ⟨fun _ => hfrom, fun i => ?_⟩
  have hf := h.task i
  change RefilledTask i c.shared (c.task i)
  cases ht : c.task i with
  | submitTransaction p phase =>
    rw [ht, Task.fresh] at hf
    exact hf ▸ fun _ => hfrom
  | _ => trivial

/-- A payload gets a nonce of its own: a self-transfer that had taken it is in a block. -/
lemma payload_fresh (hmined : ∀ n t, policy.answers n t .accept = true → ¬ n.Mined t.nonce)
    {i : ι} {tries : ℕ} {p : P} {tx : Tx P}
    (hright : (rightOutline cfg policy).Holds c) (hat : RefilledTask i c.shared (c.task i))
    (hi : c.task i = .submitTransaction p (.send tries tx))
    (ha : policy.answers c.shared.node tx .accept = true)
    (hp : RefillsSettled c (.task i (.submit (.answer .accept)))) :
    tx.nonce ∉ c.shared.node.nonces := by
  intro hmem
  have hr : RightTask i c.shared (c.task i) := hright.2 i
  rw [hi] at hr hat
  obtain ⟨hlock, hnonce⟩ := hr
  obtain ⟨r, hr, hrnonce, hrefill⟩ := hat hlock tx.nonce hmem hnonce.ge
  have hincluded := hp r hr hrefill (hrnonce.trans hnonce).ge
  exact hmined _ _ ha ⟨r.tx, hincluded, hrnonce⟩

/-- A dead letter that brings the disposals to one is the first. -/
lemma accepted_first {s s' : Shared P ι} {tx h : Tx P}
    (hd : disposals s' h ≤ 1) (ha : s'.node.accepted = s.node.accepted ++ [⟨tx, .deadLetter h⟩]) :
    ∀ q ∈ s.node.accepted, q.origin ≠ .deadLetter h := by
  intro q hq hqh
  have hpos : 0 < s.node.accepted.countP fun r => r.origin = .deadLetter h :=
    List.countP_pos_iff.mpr ⟨q, hq, by simpa using hqh⟩
  simp only [disposals, ha, List.countP_append, List.countP_singleton, decide_true,
    if_true] at hd
  omega

/-- One step keeps the shared nonces to dead letters and what they replace. -/
lemma OnlyReplaced.step (hmined : ∀ n t, policy.answers n t .accept = true → ¬ n.Mined t.nonce)
    (hc : OnlyReplaced c.shared.node) (hletters : LettersRight c) (hspread : Spread c)
    (hright : (rightOutline cfg policy).Holds c)
    (hat : ∀ i, RefilledTask i c.shared (c.task i)) (hd : ∀ h, disposals d.shared h ≤ 1)
    (hp : RefillsSettled c l) (h : Step cfg policy c l d) : OnlyReplaced d.shared.node := by
  cases h with
  | @submit i p phase e s phase' hi hsub =>
    cases hsub with
    | @answered tries tx a ha =>
      cases a with
      | accept => exact hc.accept_fresh (payload_fresh hmined hright (hat i) hi ha hp)
      | reject e => exact hc
    | lost => exact hc.of_eq rfl
    | _ => exact hc
  | @check i phase e s phase' hi hcheck =>
    rcases checkStep_node hcheck with hn | ⟨k, le, letter, s'', ph, rfl, hl, hls, hn⟩
    · exact hc.of_eq (by rw [Config.resume_shared, hn])
    · rcases letterStep_node hls with hn' | ⟨tries, g, tx, hph, ⟨a, rfl, ha, hn'⟩ | hn'⟩
      · exact hc.of_eq (by rw [Config.resume_shared, hn, hn'])
      · have hnode : (c.resume i (s, .checkTransactions phase')).shared.node =
            c.shared.node.handle ⟨tx, .deadLetter letter.txs.hash⟩ a := hn.trans hn'
        rw [hnode]
        cases a with
        | accept =>
          have hsends : Known c ⟨tx, .deadLetter letter.txs.hash⟩ := by
            refine .inr (.inr ⟨i, ?_⟩)
            rw [hi]
            exact ⟨letter, List.mem_of_getElem? hl, by simp [Letter.request?, hph]⟩
          obtain ⟨hnonce, hholds⟩ := hletters tx _ hsends
          exact hc.accept_deadLetter hholds hnonce
            (accepted_first (hd _) (congrArg Node.accepted hnode))
        | reject e => exact hc
      · exact hc.of_eq (by rw [Config.resume_shared, hn, hn', Node.lose_accepted])
  | odis hi hodis =>
    cases hodis with
    | quiet _ => exact hc
    | @answered tries g a ha =>
      cases a with
      | accept => exact hc.accept_fresh fun hm => lt_irrefl _ (hspread.nonces _ hm)
      | reject e => exact hc
    | lost => exact hc.of_eq rfl
  | mine hm =>
    obtain ⟨-, -, rfl⟩ := Node.mine_eq_some hm
    exact hc.of_eq rfl
  | @arrive k a r hr ha =>
    cases a with
    | accept => exact hp.elim
    | reject _ => exact hc.of_eq rfl
  | gasPrice | tick => exact hc.of_eq rfl

omit [DecidableEq ι] in
lemma Initial.onlyReplaced (h : Initial cfg c) : OnlyReplaced c.shared.node := by
  intro nonce
  have hd : (c.shared.node.withNonce nonce).Pairwise fun r q => r.tx.nonce ≠ q.tx.nonce :=
    h.distinct.filter _
  have hsame : ∀ r ∈ c.shared.node.withNonce nonce, r.tx.nonce = nonce :=
    fun r hr => by simpa using (List.mem_filter.mp hr).2
  exact (hd.imp_of_mem fun hr hq hne =>
    absurd ((hsame _ hr).trans (hsame _ hq).symm) hne).isChain

/-- The invariants that the argument rests on, up to the counter. -/
structure QuotaInv (cfg : AppConfig) (policy : Policy P ι)
    (c : Config (Shared P ι) ι (Task P)) : Prop where
  right : (rightOutline cfg policy).Holds c
  apart : Apart c
  spread : Spread c
  letters : LettersRight c

lemma QuotaInv.step (hfresh : ∀ n t, policy.answers n t .accept = true → ¬ n.Holds t)
    (hcounts : ∀ n k, policy.counts n k = true → k = n.next) (hc : QuotaInv cfg policy c)
    (hp : KeepsApart c l) (h : (machine cfg policy).step c l = some d) :
    QuotaInv cfg policy d where
  right := (rightOutline cfg policy).step hc.right trivial h
  apart := hc.apart.step hfresh hp (step_cases h)
  spread := hc.spread.step hc.right hc.apart.ledger hcounts (step_cases h)
  letters := hc.letters.step hc.right (step_cases h)

/-- The tasks of the sample up to the first query of the quota. -/
def quotaSample : Config (Shared ℕ (Fin 5)) (Fin 5) (Task ℕ) :=
  newRelayer sampleConfig fun i => sampleTask i

lemma quotaSample_initial : Initial sampleConfig quotaSample :=
  newRelayer_initial _ fun i => sample_initial.task i

end Komenci.Relayer
