import Komenci.RelayerRequests

/-! The price a hash is cached with is the price it was sent with, as long as the shared
price rounds to the same when a call caches it as when it sent. It does where no update
comes between. -/
namespace Komenci.Relayer
open Interleaving DecimalText

variable {P ι : Type} {cfg : AppConfig} {policy : Policy P ι}

lemma toFixed_intCast (z : ℤ) : toFixed z = z := by
  have hhalf : ∀ y : ℤ, ⌊(y : ℚ) + 1 / 2⌋ = y := by
    intro y
    rw [Int.floor_intCast_add]
    norm_num
  unfold toFixed
  split_ifs
  · exact hhalf z
  · have hneg := hhalf (-z)
    push_cast at hneg
    rw [hneg, neg_neg]

/-- The shared price when a call has last sent its transaction. -/
def priceSent [DecidableEq ι] (c : Config (Shared P ι) ι (Task P)) (l : Label ι (Event P))
    (prices : ι → ℚ) : ι → ℚ :=
  match l with
  | .task i (.submit .resume) =>
    match c.task i with
    | .submitTransaction _ (.acquire _) => Function.update prices i c.shared.service.gasPrice
    | _ => prices
  | _ => prices

/-- When a call caches the shared price, it rounds to what it did when the call has sent. -/
def SamePrice (prices : ι → ℚ) (c : Config (Shared P ι) ι (Task P)) : Label ι (Event P) → Prop
  | .task i (.submit .resume) =>
    match c.task i with
    | .submitTransaction _ (.watch _ _) =>
      toFixed c.shared.service.gasPrice = toFixed (prices i)
    | _ => True
  | _ => True

instance (prices : ι → ℚ) (c : Config (Shared P ι) ι (Task P)) (l : Label ι (Event P)) :
    Decidable (SamePrice prices c l) := by
  unfold SamePrice
  induction l using Label.casesOn with
  | env e => infer_instance
  | task i e =>
    induction e using Event.casesOn with
    | submit e =>
      induction e using SubmitEvent.casesOn with
      | resume =>
        dsimp only
        generalize c.task i = t
        induction t using Task.casesOn with
        | submitTransaction p phase => induction phase using SubmitPhase.casesOn <;> infer_instance
        | _ => infer_instance
      | _ => infer_instance
    | _ => infer_instance

/-- The entry of a hash has the price of the transaction. -/
def Service.Priced (s : Service P ι) : Prop :=
  ∀ hash cachedTx, s.transactions hash = some cachedTx → toFixed cachedTx.gasPrice = hash.gasPrice

/-- What a letter has sent has the price it is going to cache. -/
def Letter.Priced (l : Letter P) : Prop :=
  match l.phase with
  | .send _ gasPrice tx | .replied _ gasPrice tx _ => toFixed gasPrice = tx.gasPrice
  | _ => True

def PricedSubmit (price : ℚ) : SubmitPhase P → Prop
  | .send _ tx | .replied _ tx _ | .watch tx _ => toFixed price = tx.gasPrice
  | _ => True

def PricedTask (price : ℚ) : Task P → Prop
  | .submitTransaction _ phase => PricedSubmit price phase
  | .checkTransactions phase => ∀ l ∈ phase.letters, l.Priced
  | .getPhoneNumberSignature _ => True

lemma nextSubmit_priced (price : ℚ) (tries : ℕ) (error : NodeError) :
    PricedSubmit price (nextSubmit tries error : SubmitPhase P) := by
  rcases nextSubmit_cases (P := P) tries error with ⟨t, ht⟩ | ht
  all_goals rw [ht]; trivial

lemma nextLetter_priced (txs : TxSummary P) (tries : ℕ) (error : NodeError) :
    Letter.Priced ⟨txs, nextLetter tries error⟩ := by
  rcases nextLetter_cases (P := P) tries error with ⟨t, ht⟩ | ht
  all_goals rw [ht]; trivial

lemma letters_priced (txs : List (TxSummary P)) : ∀ l ∈ letters txs, l.Priced := by
  intro l hl
  obtain ⟨t, -, rfl⟩ := List.mem_map.mp hl
  trivial

variable [DecidableEq P]

lemma Service.Priced.watch {s : Service P ι} (hs : s.Priced) {hash : Tx P} {cachedTx : TxCachedData}
    (h : toFixed cachedTx.gasPrice = hash.gasPrice) : (s.watchTransaction hash cachedTx).Priced := by
  intro hash' cachedTx' hcached
  rcases Service.cached_watch hcached with ⟨rfl, rfl⟩ | hcached
  · exact h
  · exact hs hash' cachedTx' hcached

lemma Service.Priced.unwatch {s : Service P ι} (hs : s.Priced) (hash : Tx P) :
    (s.unwatchTransaction hash).Priced :=
  fun hash' cachedTx hcached => hs hash' cachedTx (Service.cached_unwatch hcached)

lemma submitStep_priced {i : ι} {p : P} {s s' : Shared P ι} {phase phase' : SubmitPhase P}
    {e : SubmitEvent} {price price' : ℚ} (hs : s.service.Priced) (hphase : PricedSubmit price phase)
    (hacquire : ∀ tries, phase = .acquire tries → e = .resume → price' = s.service.gasPrice)
    (hkeeps : (∀ tries, phase ≠ .acquire tries) → price' = price)
    (hsame : ∀ tx nonce, phase = .watch tx nonce → e = .resume →
      toFixed s.service.gasPrice = toFixed price)
    (h : SubmitStep cfg policy i p s phase e s' phase') :
    s'.service.Priced ∧ PricedSubmit price' phase' := by
  cases h with
  | acquire _ =>
    rw [hacquire _ rfl rfl]
    exact ⟨hs, rfl⟩
  | @answered tries tx a _ =>
    rw [hkeeps (by simp)]
    exact ⟨hs, hphase⟩
  | lost =>
    rw [hkeeps (by simp)]
    exact ⟨hs, hphase⟩
  | sent =>
    rw [hkeeps (by simp)]
    exact ⟨hs, hphase⟩
  | @watch tx nonce => exact ⟨hs.watch ((hsame tx nonce rfl rfl).trans hphase), trivial⟩
  | @gasPrice tries raw =>
    refine ⟨?_, nextSubmit_priced _ _ _⟩
    intro hash cachedTx hcached
    exact hs hash cachedTx (by simpa [Shared.updateGasPrice] using hcached)
  | failed | refreshed => exact ⟨hs, nextSubmit_priced _ _ _⟩
  | _ => exact ⟨hs, trivial⟩

lemma letterStep_priced {s s' : Shared P ι} {txs : TxSummary P} {phase phase' : LetterPhase P}
    {e : LetterEvent} (hs : s.service.Priced) (hl : Letter.Priced ⟨txs, phase⟩)
    (h : LetterStep cfg policy s txs phase e s' phase') :
    s'.service.Priced ∧ Letter.Priced ⟨txs, phase'⟩ := by
  cases h with
  | start _ => exact ⟨hs, rfl⟩
  | answered _ => exact ⟨hs, hl⟩
  | lost => exact ⟨hs, hl⟩
  | sent _ => exact ⟨(hs.unwatch _).watch hl, trivial⟩
  | tooLow => exact ⟨hs.unwatch _, nextLetter_priced _ _ _⟩
  | failed => exact ⟨hs, nextLetter_priced _ _ _⟩
  | @gasPrice tries raw =>
    refine ⟨?_, nextLetter_priced _ _ _⟩
    intro hash cachedTx hcached
    exact hs hash cachedTx (by simpa [Shared.updateGasPrice] using hcached)
  | _ => exact ⟨hs, trivial⟩

lemma finalizeAll_priced (s : Shared P ι) (hs : s.service.Priced)
    (completed : List (TxSummary P × Bool)) : (finalizeAll s completed).service.Priced :=
  finalizeAll_keeps (J := fun s => s.service.Priced) (fun _ hs _ _ _ => hs.unwatch _) hs

lemma checkStep_priced {s s' : Shared P ι} {phase phase' : CheckPhase P} {e : CheckEvent}
    (hs : s.service.Priced) (hphase : ∀ l ∈ phase.letters, l.Priced)
    (h : CheckStep cfg policy s phase e s' phase') :
    s'.service.Priced ∧ ∀ l ∈ phase'.letters, l.Priced := by
  cases h with
  | lowLetter hk hstep | expiredLetter hk hstep =>
    obtain ⟨hs', hl⟩ := letterStep_priced hs (hphase _ (List.mem_of_getElem? hk)) hstep
    exact ⟨hs', forall_letters_set hphase hl⟩
  | filtered => exact ⟨hs, letters_priced _⟩
  | lowSettled _ | expiredSettled _ =>
    split_ifs
    · exact ⟨hs, by simp [CheckPhase.letters]⟩
    · first
        | exact ⟨hs, letters_priced _⟩
        | exact ⟨hs, by simp [CheckPhase.letters]⟩
  | receipts _ => exact ⟨finalizeAll_priced _ hs _, by simp [CheckPhase.letters]⟩
  | _ => exact ⟨hs, by simp [CheckPhase.letters]⟩

/-- What is cached and what is about to be has the price that was sent. -/
structure AllPriced (c : Config (Shared P ι) ι (Task P)) (prices : ι → ℚ) : Prop where
  service : c.shared.service.Priced
  task : ∀ i, PricedTask (prices i) (c.task i)

section Machine
variable [DecidableEq ι] {c d : Config (Shared P ι) ι (Task P)} {l : Label ι (Event P)}
  {prices : ι → ℚ}

omit [DecidableEq ι] in
lemma Initial.priced (h : Initial cfg c) (prices : ι → ℚ) : AllPriced c prices where
  service := by
    obtain ⟨raw, pending, hservice, -⟩ := h.service
    rw [hservice]
    refine watchAll_keeps (J := Service.Priced)
      (fun _ t _ hs => hs.watch (toFixed_intCast t.gasPrice)) ?_
    intro hash cachedTx hcached
    simp at hcached
  task i := by
    have hfresh := h.task i
    cases hi : c.task i with
    | submitTransaction p phase =>
      rw [hi, Task.fresh] at hfresh
      exact hfresh ▸ trivial
    | checkTransactions phase =>
      rw [hi, Task.fresh] at hfresh
      simp [PricedTask, hfresh, CheckPhase.letters]
    | getPhoneNumberSignature phase => trivial

omit [DecidableEq P] in
lemma priceSent_ne {i j : ι} {e : Event P} (hj : j ≠ i) :
    priceSent c (.task i e) prices j = prices j := by
  cases e with
  | submit e =>
    cases e with
    | resume =>
      cases hi : c.task i with
      | submitTransaction p phase => cases phase <;> simp [priceSent, hi, hj]
      | _ => simp [priceSent, hi]
    | _ => rfl
  | _ => rfl

omit [DecidableEq P] in
/-- A call that waits for the mutex sends with the shared price. -/
lemma priceSent_acquire {i : ι} {p : P} {tries : ℕ}
    (hi : c.task i = .submitTransaction p (.acquire tries)) :
    priceSent c (.task i (.submit .resume)) prices i = c.shared.service.gasPrice := by
  simp [priceSent, hi]

omit [DecidableEq P] in
lemma priceSent_keeps {i : ι} {p : P} {phase : SubmitPhase P} {e : SubmitEvent}
    (hi : c.task i = .submitTransaction p phase) (hphase : ∀ tries, phase ≠ .acquire tries) :
    priceSent c (.task i (.submit e)) prices = prices := by
  cases e with
  | resume =>
    simp only [priceSent, hi]
    split
    · rename_i tries heq
      cases heq
      exact absurd rfl (hphase tries)
    · rfl
  | _ => rfl

omit [DecidableEq P] in
/-- A step of a task keeps the prices of the others. -/
lemma AllPriced.resume {i : ι} {e : Event P} {s : Shared P ι} {t : Task P}
    (h : AllPriced c prices) (hs : s.service.Priced)
    (ht : PricedTask (priceSent c (.task i e) prices i) t) :
    AllPriced (c.resume i (s, t)) (priceSent c (.task i e) prices) where
  service := hs
  task j := by
    by_cases hj : j = i
    · rw [hj, Config.resume_self]
      exact ht
    · rw [Config.resume_ne _ _ hj, priceSent_ne hj]
      exact h.task j

lemma AllPriced.step (h : AllPriced c prices) (hsame : SamePrice prices c l)
    (hstep : Step cfg policy c l d) : AllPriced d (priceSent c l prices) := by
  cases hstep with
  | @submit i p phase e s phase' hi hs =>
    have hphase := h.task i
    rw [hi] at hphase
    have hacquire : ∀ tries, phase = .acquire tries → e = .resume →
        priceSent c (.task i (.submit e)) prices i = c.shared.service.gasPrice := by
      rintro tries rfl rfl
      exact priceSent_acquire hi
    have hkeeps : (∀ tries, phase ≠ .acquire tries) →
        priceSent c (.task i (.submit e)) prices i = prices i :=
      fun hne => congrFun (priceSent_keeps hi hne) i
    have hrounds : ∀ tx nonce, phase = .watch tx nonce → e = .resume →
        toFixed c.shared.service.gasPrice = toFixed (prices i) := by
      rintro tx nonce rfl rfl
      simpa only [SamePrice, hi] using hsame
    obtain ⟨hservice, hphase'⟩ := submitStep_priced h.service hphase hacquire hkeeps hrounds hs
    exact h.resume hservice hphase'
  | @check i phase e s phase' hi hs =>
    have hphase := h.task i
    rw [hi] at hphase
    obtain ⟨hservice, hletters⟩ := checkStep_priced h.service hphase hs
    exact h.resume hservice hletters
  | @odis i phase e s phase' hi hs =>
    cases hs with
    | _ => exact h.resume h.service trivial
  | mine hm =>
    obtain ⟨-, -, rfl⟩ := Node.mine_eq_some hm
    exact ⟨h.service, h.task⟩
  | arrive _ _ => exact ⟨h.service, h.task⟩
  | gasPrice =>
    refine ⟨?_, h.task⟩
    intro hash cachedTx hcached
    exact h.service hash cachedTx (by simpa [Shared.updateGasPrice] using hcached)
  | tick => exact ⟨h.service, h.task⟩

/-- The call has its transaction under way and is going to cache the shared price. -/
def Task.Sending : Task P → Prop
  | .submitTransaction _ (.send _ _) | .submitTransaction _ (.replied _ _ _)
  | .submitTransaction _ (.watch _ _) => True
  | _ => False

/-- The shared price is updated only while no call is between sending and caching. -/
def UpdatesApart (c : Config (Shared P ι) ι (Task P)) : Label ι (Event P) → Prop
  | .env (.gasPrice _) | .task _ (.submit (.gasPrice _))
  | .task _ (.check (.letter _ (.gasPrice _))) => ∀ i, ¬ (c.task i).Sending
  | _ => True

omit [DecidableEq ι] in
lemma submitStep_price {i : ι} {p : P} {s s' : Shared P ι} {phase phase' : SubmitPhase P}
    {e : SubmitEvent} (h : SubmitStep cfg policy i p s phase e s' phase') :
    (∃ raw, e = .gasPrice raw) ∨ s'.service.gasPrice = s.service.gasPrice := by
  cases h with
  | gasPrice => exact .inl ⟨_, rfl⟩
  | _ => exact .inr rfl

omit [DecidableEq ι] in
lemma letterStep_price {s s' : Shared P ι} {txs : TxSummary P} {phase phase' : LetterPhase P}
    {e : LetterEvent} (h : LetterStep cfg policy s txs phase e s' phase') :
    (∃ raw, e = .gasPrice raw) ∨ s'.service.gasPrice = s.service.gasPrice := by
  cases h with
  | gasPrice => exact .inl ⟨_, rfl⟩
  | _ => exact .inr rfl

omit [DecidableEq ι] in
lemma checkStep_price {s s' : Shared P ι} {phase phase' : CheckPhase P} {e : CheckEvent}
    (h : CheckStep cfg policy s phase e s' phase') :
    (∃ k raw, e = .letter k (.gasPrice raw)) ∨ s'.service.gasPrice = s.service.gasPrice := by
  cases h with
  | lowLetter _ hl | expiredLetter _ hl =>
    rcases letterStep_price hl with ⟨raw, rfl⟩ | hprice
    · exact .inl ⟨_, raw, rfl⟩
    · exact .inr hprice
  | receipts _ =>
    exact .inr (finalizeAll_keeps (J := fun s' => s'.service.gasPrice = s.service.gasPrice)
      (fun _ hs _ _ _ => hs) rfl)
  | _ => exact .inr rfl

/-- An update apart, a step keeps the shared price. -/
lemma step_price (hapart : UpdatesApart c l) (h : Step cfg policy c l d) :
    (∀ i, ¬ (c.task i).Sending) ∨ d.shared.service.gasPrice = c.shared.service.gasPrice := by
  cases h with
  | submit _ hs =>
    rcases submitStep_price hs with ⟨raw, rfl⟩ | hprice
    · exact .inl hapart
    · exact .inr hprice
  | check _ hs =>
    rcases checkStep_price hs with ⟨k, raw, rfl⟩ | hprice
    · exact .inl hapart
    · exact .inr hprice
  | odis _ hs =>
    refine .inr ?_
    rw [Config.resume_shared, odisStep_service hs]
  | gasPrice => exact .inl hapart
  | _ => exact .inr rfl

/-- A call that is sending has sent with the shared price. -/
def SentWith (c : Config (Shared P ι) ι (Task P)) (prices : ι → ℚ) : Prop :=
  ∀ i, (c.task i).Sending → prices i = c.shared.service.gasPrice

omit [DecidableEq P] [DecidableEq ι] in
lemma SentWith.samePrice (h : SentWith c prices) : SamePrice prices c l := by
  unfold SamePrice
  split
  · split
    · rename_i i _ _ _ _ hi
      rw [h i (by rw [hi]; trivial)]
    · trivial
  · trivial

omit [DecidableEq ι] [DecidableEq P] in
lemma nextSubmit_sending {p : P} {tries : ℕ} {error : NodeError} :
    ¬ (Task.submitTransaction p (nextSubmit tries error)).Sending := by
  rcases nextSubmit_cases (P := P) tries error with ⟨t, ht⟩ | ht
  all_goals simp [Task.Sending, ht]

omit [DecidableEq ι] in
/-- A call that is sending was so before, or takes the mutex in this step. -/
lemma submitStep_sending {i : ι} {p : P} {s s' : Shared P ι} {phase phase' : SubmitPhase P}
    {e : SubmitEvent} (h : SubmitStep cfg policy i p s phase e s' phase')
    (hsending : (Task.submitTransaction p phase').Sending) :
    (Task.submitTransaction p phase).Sending ∨ ∃ tries, phase = .acquire tries ∧ e = .resume ∧
      s'.service.gasPrice = s.service.gasPrice := by
  cases h with
  | acquire _ => exact .inr ⟨_, rfl, rfl, rfl⟩
  | answered _ | lost | sent => exact .inl trivial
  | failed | gasPrice | refreshed => exact absurd hsending nextSubmit_sending
  | _ => exact hsending.elim

lemma SentWith.step (h : SentWith c prices) (hapart : UpdatesApart c l)
    (hstep : Step cfg policy c l d) : SentWith d (priceSent c l prices) := by
  have hkeeps : ∀ i, (c.task i).Sending → priceSent c l prices i = prices i →
      priceSent c l prices i = d.shared.service.gasPrice := by
    intro i hi hprice
    rcases step_price hapart hstep with hnone | hsame
    · exact absurd hi (hnone i)
    · rw [hprice, hsame, h i hi]
  intro i hi
  cases hstep with
  | @submit j p phase e s phase' hj hs =>
    by_cases hij : i = j
    · subst hij
      rw [Config.resume_self] at hi
      rcases submitStep_sending hs hi with hsending | ⟨tries, rfl, rfl, hsame⟩
      · refine hkeeps i (by rwa [hj]) (congrFun (priceSent_keeps hj ?_) i)
        rintro tries rfl
        exact hsending.elim
      · rw [priceSent_acquire hj]
        exact hsame.symm
    · rw [Config.resume_ne _ _ hij] at hi
      exact hkeeps i hi (priceSent_ne hij)
  | @check j _ _ _ _ hj _ | @odis j _ _ _ _ hj _ =>
    by_cases hij : i = j
    · subst hij
      rw [Config.resume_self] at hi
      exact hi.elim
    · rw [Config.resume_ne _ _ hij] at hi
      exact hkeeps i hi (priceSent_ne hij)
  | _ => exact hkeeps i hi rfl

/-- Where no update comes between, every call caches the price it has sent with. -/
theorem samePrice_of_updatesApart (hinit : Initial cfg c) (prices₀ : ι → ℚ)
    (hrun : Run (machine cfg policy) UpdatesApart c d) :
    ∃ prices, Traced (machine cfg policy) priceSent SamePrice c prices₀ d prices := by
  have hfresh : SentWith c prices₀ := by
    intro i hi
    have htask := hinit.task i
    cases hi' : c.task i with
    | submitTransaction p phase =>
      rw [hi', Task.fresh] at htask
      rw [hi', htask] at hi
      exact hi.elim
    | _ =>
      rw [hi'] at hi
      exact hi.elim
  obtain ⟨prices, hrun, -⟩ := Traced.of_run (J := SentWith) (Q := UpdatesApart)
    (fun _ _ _ _ hj _ _ => hj.samePrice)
    (fun _ _ _ _ hj hq hs => hj.step hq (step_cases hs)) hrun hfresh
  exact ⟨prices, hrun⟩

/-- The price a hash is cached with is the one it was sent with in a run where the shared
price, when a call caches it, rounds to what it did when the call has sent. -/
theorem cached_price_is_sent (cfg : AppConfig) (policy : Policy P ι) (hinit : Initial cfg c)
    {prices₀ : ι → ℚ}
    (hrun : Traced (machine cfg policy) priceSent SamePrice c prices₀ d prices)
    (hash : Tx P) (cachedTx : TxCachedData)
    (hcached : d.shared.service.transactions hash = some cachedTx) :
    toFixed cachedTx.gasPrice = hash.gasPrice := by
  have hpriced := hrun.invariant (J := AllPriced)
    (fun _ _ _ _ hc hp hs => hc.step hp (step_cases hs)) (hinit.priced prices₀)
  exact hpriced.service hash cachedTx hcached

end Machine

/-- An update between sending and caching rounds to the same price. -/
theorem cached_price_is_sent_updated :
    Initial sampleConfig smallSample ∧
      ∃ r : Config (Shared ℕ (Fin 4)) (Fin 4) (Task ℕ) × (Fin 4 → ℚ),
        Traced (machine sampleConfig Policy.standard) priceSent SamePrice smallSample (fun _ => 0)
          r.1 r.2 ∧
        ∃ cachedTx, r.1.shared.service.transactions ⟨0, 1000, .payload 0⟩ = some cachedTx ∧
          cachedTx.gasPrice = 1000 + 1 / 4 ∧ toFixed cachedTx.gasPrice = 1000 := by
  obtain ⟨r, hrun, hr⟩ := Traced.exists_of_trace
    (M := machine sampleConfig (Policy.standard : Policy ℕ (Fin 4))) (f := priceSent)
    (P := SamePrice) (c := smallSample) (h := fun _ => 0)
    (q := fun r => (r.1.shared.service.transactions ⟨0, 1000, .payload 0⟩).map
      TxCachedData.gasPrice = some (1000 + 1 / 4))
    (submits 0 [.resume, .answer .accept, .resume] ++ [.env (.gasPrice (some (200 + 1 / 20)))] ++
      submits 0 [.resume]) (by decide +kernel)
  obtain ⟨cachedTx, hcached, hprice⟩ := Option.map_eq_some_iff.mp hr
  exact ⟨smallSample_initial, r, hrun, cachedTx, hcached, hprice,
    cached_price_is_sent sampleConfig Policy.standard smallSample_initial hrun _ _ hcached⟩

/-- The price falls between sending and caching. -/
theorem cached_price_below_sent :
    Initial sampleConfig smallSample ∧
      ∃ r : Config (Shared ℕ (Fin 4)) (Fin 4) (Task ℕ) × (Fin 4 → ℚ),
        Traced (machine sampleConfig Policy.standard) priceSent (fun _ _ _ => True) smallSample
          (fun _ => 0) r.1 r.2 ∧
        (r.1.shared.service.transactions ⟨0, 1000, .payload 0⟩).map TxCachedData.gasPrice =
          some 500 := by
  refine ⟨smallSample_initial, Traced.exists_of_trace (submits 0 [.resume, .answer .accept, .resume] ++
    [.env (.gasPrice (some 100))] ++ submits 0 [.resume]) ?_⟩
  decide +kernel

end Komenci.Relayer
