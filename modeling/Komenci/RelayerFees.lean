import Komenci.RelayerWatchSet

/-! How much the relayer ever offers for gas. The shared price stays under a cap; a dead letter
raises it by two fifths, and the time it waits doubles with it. -/
namespace Komenci.Relayer
open Interleaving DecimalText

variable {P ι : Type} {cfg : AppConfig} {policy : Policy P ι} {C : ℚ}

lemma toFixed_mono {p q : ℚ} (h : p ≤ q) : toFixed p ≤ toFixed q := by
  unfold toFixed
  split_ifs with hp hq hq
  · exact Int.floor_le_floor (by linarith)
  · linarith
  · have hfirst : 0 ≤ ⌊-p + 1 / 2⌋ := Int.floor_nonneg.mpr (by linarith)
    have hsecond : 0 ≤ ⌊q + 1 / 2⌋ := Int.floor_nonneg.mpr (by linarith)
    omega
  · exact neg_le_neg (Int.floor_le_floor (by linarith))

/-- The event tells of a dead letter under the nonce. -/
def LogEvent.replaces (nonce : ℕ) : LogEvent P → Bool
  | .TxDeadletter _ deadLetterHash => deadLetterHash.nonce = nonce
  | _ => false

/-- How often a transaction with the nonce has been replaced. -/
def letterCount (log : List (LogEvent P)) (nonce : ℕ) : ℕ := log.countP (LogEvent.replaces nonce)

lemma letterCount_le_append (log events : List (LogEvent P)) (nonce : ℕ) :
    letterCount log nonce ≤ letterCount (log ++ events) nonce := by
  rw [letterCount, letterCount, List.countP_append]
  exact Nat.le_add_right _ _

lemma letterCount_letter (log : List (LogEvent P)) (hash tx : Tx P) :
    letterCount (log ++ [.TxDeadletter hash tx]) tx.nonce = letterCount log tx.nonce + 1 := by
  simp [letterCount, List.countP_append, LogEvent.replaces]

/-- An entry of the cache: the price was raised as often as the time was doubled, and not more
often than the log tells. -/
def Capped (cfg : AppConfig) (C : ℚ) (log : List (LogEvent P)) (d : TxCachedData) : Prop :=
  ∃ k ≤ letterCount log d.nonce, d.expireIn = 2 ^ k * cfg.transactionTimeoutMs ∧
    d.gasPrice ≤ (7 / 5) ^ k * C

/-- The price of a request. -/
def RequestCapped (C : ℚ) (log : List (LogEvent P)) (r : Request P ι) : Prop :=
  match r.origin with
  | .submit _ => r.tx.gasPrice ≤ toFixed C
  | .deadLetter _ => r.tx.gasPrice ≤ toFixed ((7 / 5) ^ (letterCount log r.tx.nonce + 1) * C)
  | _ => True

structure Fees (cfg : AppConfig) (C : ℚ) (s : Shared P ι) : Prop where
  price : s.service.gasPrice ≤ C
  cached : ∀ h d, s.service.transactions h = some d → Capped cfg C s.log d
  requests : ∀ r ∈ s.node.accepted ++ s.node.limbo, RequestCapped C s.log r

/-- What a letter has sent for its entry. -/
def Letter.Raised (C : ℚ) (l : Letter P) : Prop :=
  match l.phase with
  | .send _ gasPrice tx | .replied _ gasPrice tx _ => ∃ d, l.txs.cachedTx = some d ∧
      tx.nonce = d.nonce ∧ tx.gasPrice = toFixed gasPrice ∧ gasPrice ≤ max (d.gasPrice * (7 / 5)) C
  | _ => True

def FeesTask (cfg : AppConfig) (C : ℚ) (log : List (LogEvent P)) : Task P → Prop
  | .submitTransaction _ (.send _ tx) | .submitTransaction _ (.replied _ tx _) =>
    tx.gasPrice ≤ toFixed C
  | .checkTransactions phase =>
    (∀ t, phase.Has t → ∀ d, t.cachedTx = some d → Capped cfg C log d) ∧
      ∀ l ∈ phase.letters, l.Raised C
  | _ => True

/-- What has been logged stays. -/
def LogGrows (s s' : Shared P ι) : Prop := ∃ events, s'.log = s.log ++ events

lemma LogGrows.of_eq {s s' : Shared P ι} (h : s'.log = s.log) : LogGrows s s' :=
  ⟨[], by rw [h, List.append_nil]⟩

section Prices
variable {log log' : List (LogEvent P)}

lemma Capped.mono {d : TxCachedData} (hlog : ∀ nonce, letterCount log nonce ≤ letterCount log' nonce)
    (h : Capped cfg C log d) : Capped cfg C log' d := by
  obtain ⟨k, hk, hrest⟩ := h
  exact ⟨k, hk.trans (hlog _), hrest⟩

/-- The price of a letter for an entry is at most two fifths over the bound of the entry. -/
lemma Capped.raised (hC : 0 ≤ C) {d : TxCachedData} (h : Capped cfg C log d) {gasPrice : ℚ}
    (hg : gasPrice ≤ max (d.gasPrice * (7 / 5)) C) :
    ∃ k ≤ letterCount log d.nonce, d.expireIn = 2 ^ k * cfg.transactionTimeoutMs ∧
      gasPrice ≤ (7 / 5) ^ (k + 1) * C := by
  obtain ⟨k, hk, hexpire, hprice⟩ := h
  refine ⟨k, hk, hexpire, hg.trans (max_le ?_ ?_)⟩
  · rw [pow_succ]
    linarith
  · exact le_mul_of_one_le_left hC (one_le_pow₀ (by norm_num))

lemma RequestCapped.mono (hC : 0 ≤ C) {r : Request P ι}
    (hlog : ∀ nonce, letterCount log nonce ≤ letterCount log' nonce) (h : RequestCapped C log r) :
    RequestCapped C log' r := by
  obtain ⟨tx, origin⟩ := r
  cases origin with
  | deadLetter replaced =>
    refine h.trans (toFixed_mono (mul_le_mul_of_nonneg_right ?_ hC))
    exact pow_le_pow_right₀ (by norm_num) (Nat.add_le_add_right (hlog _) 1)
  | _ => exact h

lemma FeesTask.mono {t : Task P} (hlog : ∀ nonce, letterCount log nonce ≤ letterCount log' nonce)
    (h : FeesTask cfg C log t) : FeesTask cfg C log' t := by
  cases t with
  | checkTransactions phase => exact ⟨fun t ht d hd => (h.1 t ht d hd).mono hlog, h.2⟩
  | submitTransaction p phase => cases phase <;> exact h
  | getPhoneNumberSignature phase => trivial

end Prices

section Steps
variable {s s' : Shared P ι}

lemma LogGrows.count_le (h : LogGrows s s') (nonce : ℕ) :
    letterCount s.log nonce ≤ letterCount s'.log nonce := by
  obtain ⟨events, hlog⟩ := h
  exact hlog ▸ letterCount_le_append s.log events nonce

/-- The shared price never gets over a cap that is over the configured ones. -/
lemma updateGasPrice_le (hmax : cfg.maxGasPrice ≤ C) (hfallback : cfg.gasPriceFallback ≤ C)
    (raw : Option ℚ) {service : Service P ι} (h : service.gasPrice ≤ C) :
    (updateGasPrice cfg raw service).gasPrice ≤ C := by
  unfold updateGasPrice
  split
  · exact (min_le_right _ _).trans hmax
  · split_ifs
    · exact hfallback
    · exact h

lemma Fees.updateGasPrice (hmax : cfg.maxGasPrice ≤ C) (hfallback : cfg.gasPriceFallback ≤ C)
    (h : Fees cfg C s) (raw : Option ℚ) : Fees cfg C (s.updateGasPrice cfg raw) where
  price := updateGasPrice_le hmax hfallback raw h.price
  cached t d hd := h.cached t d (by simpa [Shared.updateGasPrice] using hd)
  requests := h.requests

/-- Neither the cache nor the price is touched. -/
lemma Fees.of_service (h : Fees cfg C s) (hprice : s'.service.gasPrice = s.service.gasPrice)
    (hcache : s'.service.transactions = s.service.transactions) (hlog : s'.log = s.log)
    (hrequests : ∀ r ∈ s'.node.accepted ++ s'.node.limbo, RequestCapped C s.log r) :
    Fees cfg C s' where
  price := hprice ▸ h.price
  cached t d hd := hlog ▸ h.cached t d (hcache ▸ hd)
  requests := hlog ▸ hrequests

lemma mem_handle_cases {n : Node P ι} {r q : Request P ι} {a : Answer}
    (hq : q ∈ (n.handle r a).accepted ++ (n.handle r a).limbo) : q ∈ n.accepted ++ n.limbo ∨ q = r := by
  rw [List.mem_append, Node.mem_handle, Node.handle_limbo] at hq
  rw [List.mem_append]
  tauto

lemma Fees.handle (h : Fees cfg C s) {r : Request P ι} (hr : RequestCapped C s.log r) (a : Answer) :
    Fees cfg C (s.handle r a) := by
  refine h.of_service rfl rfl rfl fun q hq => ?_
  rcases mem_handle_cases hq with hq | rfl
  · exact h.requests q hq
  · exact hr

lemma Fees.lose (h : Fees cfg C s) {r : Request P ι} (hr : RequestCapped C s.log r) :
    Fees cfg C (s.lose r) := by
  refine h.of_service rfl rfl rfl fun q hq => ?_
  rw [Shared.lose, Node.lose_limbo, Node.lose_accepted, ← List.append_assoc, List.mem_append,
    List.mem_singleton] at hq
  rcases hq with hq | rfl
  · exact h.requests q hq
  · exact hr

lemma nextSubmit_fees {log : List (LogEvent P)} (p : P) (tries : ℕ) (error : NodeError) :
    FeesTask cfg C log (.submitTransaction p (nextSubmit tries error)) := by
  rcases nextSubmit_cases (P := P) tries error with ⟨t, ht⟩ | ht
  all_goals rw [ht]; trivial

lemma nextLetter_raised (txs : TxSummary P) (tries : ℕ) (error : NodeError) :
    Letter.Raised C ⟨txs, nextLetter tries error⟩ := by
  rcases nextLetter_cases (P := P) tries error with ⟨t, ht⟩ | ht
  all_goals rw [ht]; trivial

lemma letters_raised (txs : List (TxSummary P)) : ∀ l ∈ letters txs, l.Raised C := by
  intro l hl
  obtain ⟨t, -, rfl⟩ := List.mem_map.mp hl
  trivial

variable [DecidableEq P]

/-- An entry more, with what has happened of it logged. -/
lemma Fees.watch (hC : 0 ≤ C) (h : Fees cfg C s) {hash : Tx P} {d : TxCachedData}
    {events : List (LogEvent P)} (hd : Capped cfg C (s.log ++ events) d) :
    Fees cfg C { s with
      service := s.service.watchTransaction hash d, log := s.log ++ events } where
  price := h.price
  cached t e he := by
    rcases Service.cached_watch he with ⟨-, rfl⟩ | he
    · exact hd
    · exact (h.cached t e he).mono (letterCount_le_append s.log events)
  requests r hr := (h.requests r hr).mono hC (letterCount_le_append s.log events)

lemma Fees.unwatch (hC : 0 ≤ C) (h : Fees cfg C s) {hash : Tx P} {events : List (LogEvent P)} :
    Fees cfg C { s with
      service := s.service.unwatchTransaction hash, log := s.log ++ events } where
  price := h.price
  cached t e he := (h.cached t e (Service.cached_unwatch he)).mono
    (letterCount_le_append s.log events)
  requests r hr := (h.requests r hr).mono hC (letterCount_le_append s.log events)

lemma submitStep_fees (hC : 0 ≤ C) (hmax : cfg.maxGasPrice ≤ C)
    (hfallback : cfg.gasPriceFallback ≤ C) {i : ι} {p : P} {phase phase' : SubmitPhase P}
    {e : SubmitEvent} (hs : Fees cfg C s) (ht : FeesTask cfg C s.log (.submitTransaction p phase))
    (h : SubmitStep cfg policy i p s phase e s' phase') :
    Fees cfg C s' ∧ FeesTask cfg C s'.log (.submitTransaction p phase') ∧ LogGrows s s' := by
  have hsame : ∀ (l : Option ι) (n : ℕ), Fees cfg C { s with
      service := { s.service with nonceLock := l, nonce := n } } :=
    fun _ _ => hs.of_service rfl rfl rfl hs.requests
  cases h with
  | acquire _ => exact ⟨hsame _ _, toFixed_mono hs.price, .of_eq rfl⟩
  | @answered tries tx a _ => exact ⟨hs.handle (r := ⟨tx, .submit i⟩) ht a, ht, .of_eq rfl⟩
  | @lost tries tx => exact ⟨hs.lose (r := ⟨tx, .submit i⟩) ht, ht, .of_eq rfl⟩
  | @watch tx nonce =>
    have hcapped : Capped cfg C (s.log ++ [.TxSubmitted tx nonce])
        ⟨nonce, s.service.gasPrice, s.clock, cfg.transactionTimeoutMs⟩ :=
      ⟨0, Nat.zero_le _, (Nat.one_mul _).symm, by simpa using hs.price⟩
    exact ⟨hs.watch hC hcapped, trivial, _, rfl⟩
  | gasPrice => exact ⟨hs.updateGasPrice hmax hfallback _, nextSubmit_fees _ _ _, .of_eq rfl⟩
  | failed | refreshed => exact ⟨hsame _ _, nextSubmit_fees _ _ _, .of_eq rfl⟩
  | counted _ => exact ⟨hs, trivial, .of_eq rfl⟩
  | _ => exact ⟨hsame _ _, trivial, .of_eq rfl⟩

lemma letterStep_fees (hC : 0 ≤ C) (hmax : cfg.maxGasPrice ≤ C)
    (hfallback : cfg.gasPriceFallback ≤ C) {txs : TxSummary P} {phase phase' : LetterPhase P}
    {e : LetterEvent} (hs : Fees cfg C s)
    (htxs : ∀ d, txs.cachedTx = some d → Capped cfg C s.log d)
    (hl : Letter.Raised C ⟨txs, phase⟩) (h : LetterStep cfg policy s txs phase e s' phase') :
    Fees cfg C s' ∧ Letter.Raised C ⟨txs, phase'⟩ ∧ LogGrows s s' := by
  have hrequest : ∀ {gasPrice : ℚ} {tx : Tx P} {d : TxCachedData}, txs.cachedTx = some d →
      tx.nonce = d.nonce → tx.gasPrice = toFixed gasPrice →
      gasPrice ≤ max (d.gasPrice * (7 / 5)) C →
      RequestCapped C s.log (⟨tx, .deadLetter txs.hash⟩ : Request P ι) := by
    intro gasPrice tx d hd hnonce hfixed hg
    obtain ⟨k, hk, -, hprice⟩ := (htxs d hd).raised hC hg
    refine hfixed.trans_le (toFixed_mono (hprice.trans (mul_le_mul_of_nonneg_right ?_ hC)))
    exact pow_le_pow_right₀ (by norm_num) (Nat.add_le_add_right (hnonce ▸ hk) 1)
  cases h with
  | start hd =>
    exact ⟨hs, ⟨_, hd, rfl, rfl, max_le_max_left _ hs.price⟩, .of_eq rfl⟩
  | @answered tries g tx a _ =>
    obtain ⟨d, hd, hnonce, hfixed, hg⟩ := hl
    exact ⟨hs.handle (hrequest hd hnonce hfixed hg) a, ⟨d, hd, hnonce, hfixed, hg⟩, .of_eq rfl⟩
  | @lost tries g tx =>
    obtain ⟨d, hd, hnonce, hfixed, hg⟩ := hl
    exact ⟨hs.lose (hrequest hd hnonce hfixed hg), ⟨d, hd, hnonce, hfixed, hg⟩, .of_eq rfl⟩
  | @sent tries g tx d hd =>
    obtain ⟨d', hd', hnonce, hfixed, hg⟩ := hl
    obtain rfl := Option.some.inj (hd.symm.trans hd')
    obtain ⟨k, hk, hexpire, hprice⟩ := (htxs d hd).raised hC hg
    -- The letter is logged together with the entry it makes.
    have hcount := letterCount_letter s.log txs.hash tx
    rw [hnonce] at hcount
    have hcapped : Capped cfg C (s.log ++ [.TxDeadletter txs.hash tx])
        ⟨d.nonce, g, s.clock, d.expireIn * 2⟩ := by
      refine ⟨k + 1, ?_, ?_, hprice⟩
      · rw [hcount]
        omega
      · simp only [hexpire, pow_succ]
        ring
    have hun : Fees cfg C { s with
        service := s.service.unwatchTransaction txs.hash, log := s.log ++ [] } := hs.unwatch hC
    rw [List.append_nil] at hun
    exact ⟨hun.watch hC hcapped, trivial, _, rfl⟩
  | tooLow =>
    have hun : Fees cfg C { s with
        service := s.service.unwatchTransaction txs.hash, log := s.log ++ [] } := hs.unwatch hC
    rw [List.append_nil] at hun
    exact ⟨hun, nextLetter_raised _ _ _, .of_eq rfl⟩
  | failed => exact ⟨hs, nextLetter_raised _ _ _, .of_eq rfl⟩
  | gasPrice => exact ⟨hs.updateGasPrice hmax hfallback _, nextLetter_raised _ _ _, .of_eq rfl⟩
  | _ => exact ⟨hs, trivial, .of_eq rfl⟩

lemma finalizeAll_fees (hC : 0 ≤ C) (hs : Fees cfg C s) (completed : List (TxSummary P × Bool)) :
    Fees cfg C (finalizeAll s completed) ∧ LogGrows s (finalizeAll s completed) := by
  refine finalizeAll_keeps (J := fun s' => Fees cfg C s' ∧ LogGrows s s') ?_ ⟨hs, .of_eq rfl⟩
  rintro s' ⟨hs', events, hlog⟩ c - -
  exact ⟨hs'.unwatch hC, events ++ [.TxConfirmed c.1.hash], by simp [hlog]⟩

lemma checkStep_fees (hC : 0 ≤ C) (hmax : cfg.maxGasPrice ≤ C)
    (hfallback : cfg.gasPriceFallback ≤ C) {phase phase' : CheckPhase P} {e : CheckEvent}
    (hs : Fees cfg C s) (ht : FeesTask cfg C s.log (.checkTransactions phase))
    (h : CheckStep cfg policy s phase e s' phase') :
    Fees cfg C s' ∧ FeesTask cfg C s'.log (.checkTransactions phase') ∧ LogGrows s s' := by
  obtain ⟨hhas, hletters⟩ := ht
  have hhas' : LogGrows s s' →
      ∀ t, phase'.Has t → ∀ d, t.cachedTx = some d → Capped cfg C s'.log d := by
    intro hgrows t ht d hd
    refine Capped.mono hgrows.count_le ?_
    rcases checkStep_has h ht with hold | ⟨-, hcached⟩
    · exact hhas t hold d hd
    · exact hs.cached _ d (hcached ▸ hd)
  have hnone : Fees cfg C s' → LogGrows s s' → (∀ l ∈ phase'.letters, l.Raised C) →
      Fees cfg C s' ∧ FeesTask cfg C s'.log (.checkTransactions phase') ∧ LogGrows s s' :=
    fun hfees hgrows hraised => ⟨hfees, ⟨hhas' hgrows, hraised⟩, hgrows⟩
  cases h with
  | filtered => exact hnone hs (.of_eq rfl) (letters_raised _)
  | lowLetter hk hstep | expiredLetter hk hstep =>
    have hmem := List.mem_of_getElem? hk
    obtain ⟨hfees, hraised, hgrows⟩ := letterStep_fees hC hmax hfallback hs
      (fun d hd => hhas _ (.inl ⟨_, hmem, rfl⟩) d hd) (hletters _ hmem) hstep
    exact hnone hfees hgrows (forall_letters_set hletters hraised)
  | lowSettled _ =>
    refine hnone hs (.of_eq rfl) ?_
    split_ifs
    · simp [CheckPhase.letters]
    · exact letters_raised _
  | expiredSettled _ =>
    refine hnone hs (.of_eq rfl) ?_
    split_ifs <;> simp [CheckPhase.letters]
  | receipts _ =>
    obtain ⟨hfees, hgrows⟩ := finalizeAll_fees hC hs _
    exact hnone hfees hgrows (by simp [CheckPhase.letters])
  | _ => exact hnone hs (.of_eq rfl) (by simp [CheckPhase.letters])

end Steps

section Outline
variable [DecidableEq P] [DecidableEq ι] {c d : Config (Shared P ι) ι (Task P)}

/-- Whatever happens, no price gets over its bound. -/
def feesOutline (cfg : AppConfig) (policy : Policy P ι) (hC : 0 ≤ C) (hmax : cfg.maxGasPrice ≤ C)
    (hfallback : cfg.gasPriceFallback ≤ C) : Outline (machine cfg policy) anyStep where
  inv := Fees cfg C
  at_ _ s := FeesTask cfg C s.log
  task c d i e _ hs hat h := by
    have hi := hat i
    cases step_cases h with
    | @submit _ p phase e s phase' htask hstep =>
      rw [htask] at hi
      obtain ⟨hfees, hself, hgrows⟩ := submitStep_fees hC hmax hfallback hs hi hstep
      exact ⟨hfees, by simpa using hself, fun j _ => (hat j).mono hgrows.count_le⟩
    | @check _ phase e s phase' htask hstep =>
      rw [htask] at hi
      obtain ⟨hfees, hself, hgrows⟩ := checkStep_fees hC hmax hfallback hs hi hstep
      exact ⟨hfees, by simpa using hself, fun j _ => (hat j).mono hgrows.count_le⟩
    | @odis _ phase e s phase' htask hstep =>
      have hself : FeesTask cfg C s.log (.getPhoneNumberSignature phase') := trivial
      refine ⟨?_, by simpa using hself, fun j _ => ?_⟩
      · cases hstep with
        | quiet _ => exact hs
        | @answered tries g a _ =>
          exact hs.handle (r := ⟨⟨c.shared.node.next, g, .selfTransfer⟩, .replenish i⟩) trivial a
        | @lost tries g =>
          exact hs.lose (r := ⟨⟨c.shared.node.next, g, .selfTransfer⟩, .replenish i⟩) trivial
      · cases hstep <;> exact hat j
  env c d e _ hs hat h := by
    cases step_cases h with
    | mine hm =>
      obtain ⟨-, -, rfl⟩ := Node.mine_eq_some hm
      exact ⟨hs.of_service rfl rfl rfl hs.requests, hat⟩
    | @arrive k a r hk _ =>
      refine ⟨hs.of_service rfl rfl rfl fun q hq => ?_, hat⟩
      have hsub : q ∈ (c.shared.node.handle r a).accepted ++ (c.shared.node.handle r a).limbo := by
        rw [List.mem_append] at hq ⊢
        exact hq.imp id fun hq => by
          rw [Node.handle_limbo]
          exact List.eraseIdx_subset hq
      rcases mem_handle_cases hsub with hq | rfl
      · exact hs.requests q hq
      · exact hs.requests q (List.mem_append_right _ (List.mem_of_getElem? hk))
    | gasPrice => exact ⟨hs.updateGasPrice hmax hfallback _, hat⟩
    | tick => exact ⟨hs.of_service rfl rfl rfl hs.requests, hat⟩

/-- The recovered transactions have the timeout of a first one. -/
lemma Initial.fees (hmax : cfg.maxGasPrice ≤ C) (hfallback : cfg.gasPriceFallback ≤ C)
    (h : Initial cfg c) (hpending : ∀ hash d, c.shared.service.transactions hash = some d →
      d.gasPrice ≤ C) (hC : 0 ≤ C) : (feesOutline cfg policy hC hmax hfallback).Holds c := by
  obtain ⟨raw, pending, hservice, -⟩ := h.service
  have hkeeps : (onModuleInit cfg raw c.shared.node.next pending c.shared.clock :
      Service P ι).gasPrice ≤ C ∧ ∀ hash d, (onModuleInit cfg raw c.shared.node.next pending
        c.shared.clock : Service P ι).transactions hash = some d →
        d.expireIn = cfg.transactionTimeoutMs := by
    refine watchAll_keeps (J := fun s : Service P ι => s.gasPrice ≤ C ∧
      ∀ hash d, s.transactions hash = some d → d.expireIn = cfg.transactionTimeoutMs) ?_ ?_
    · rintro s t - ⟨hprice, hexpire⟩
      refine ⟨hprice, fun hash d hd => ?_⟩
      rcases Service.cached_watch hd with ⟨-, rfl⟩ | hd
      · rfl
      · exact hexpire hash d hd
    · exact ⟨updateGasPrice_le hmax hfallback raw hfallback, by simp⟩
  rw [← hservice] at hkeeps
  refine ⟨⟨hkeeps.1, fun hash d hd => ⟨0, Nat.zero_le _, ?_, ?_⟩, fun r hr => ?_⟩, fun i => ?_⟩
  · rw [hkeeps.2 hash d hd, pow_zero, Nat.one_mul]
  · rw [pow_zero, one_mul]
    exact hpending hash d hd
  · rw [h.limbo, List.append_nil] at hr
    simp [RequestCapped, h.origin r hr]
  · have hfresh := h.task i
    change FeesTask cfg C c.shared.log (c.task i)
    cases htask : c.task i with
    | submitTransaction p phase =>
      rw [htask] at hfresh
      obtain rfl : phase = .acquire 1 := hfresh
      trivial
    | checkTransactions phase =>
      rw [htask] at hfresh
      obtain rfl : phase = .start := hfresh
      exact ⟨fun t ht => ht.elim, by simp [CheckPhase.letters]⟩
    | getPhoneNumberSignature phase => trivial

/-- In every run the shared price stays under any cap that is over the configured ones and those
of the recovered transactions, and so does the price of every call's request. Behind what is
cached are as many raises by two fifths as doublings of the time to wait, at most one for each
logged dead letter under the nonce, and no dead letter costs more than one raise over that. -/
theorem prices_capped (hC : 0 ≤ C) (hmax : cfg.maxGasPrice ≤ C)
    (hfallback : cfg.gasPriceFallback ≤ C) (hc : Initial cfg c)
    (hpending : ∀ hash d, c.shared.service.transactions hash = some d → d.gasPrice ≤ C)
    (hrun : Run (machine cfg policy) anyStep c d) :
    d.shared.service.gasPrice ≤ C ∧
    (∀ hash e, d.shared.service.transactions hash = some e →
      ∃ k ≤ letterCount d.shared.log e.nonce,
        e.expireIn = 2 ^ k * cfg.transactionTimeoutMs ∧ e.gasPrice ≤ (7 / 5) ^ k * C) ∧
    ∀ r ∈ d.shared.node.accepted ++ d.shared.node.limbo,
      (∀ i, r.origin = .submit i → r.tx.gasPrice ≤ toFixed C) ∧
      ∀ replaced, r.origin = .deadLetter replaced → r.tx.gasPrice ≤
        toFixed ((7 / 5) ^ (letterCount d.shared.log r.tx.nonce + 1) * C) := by
  obtain ⟨hs, -⟩ := (feesOutline cfg policy hC hmax hfallback).run hrun
    (hc.fees hmax hfallback hpending hC)
  refine ⟨hs.price, hs.cached, fun r hr => ⟨fun i hi => ?_, fun replaced hi => ?_⟩⟩
  · simpa [RequestCapped, hi] using hs.requests r hr
  · simpa [RequestCapped, hi] using hs.requests r hr

/-- One dead letter, at two fifths over the fallback price. -/
theorem prices_capped_letter :
    ∃ d, Run (machine sampleConfig Policy.standard) anyStep smallSample d ∧
      letterCount d.shared.log 0 = 1 ∧
      (⟨⟨0, 1400, .deadLetter⟩, .deadLetter ⟨0, 1000, .payload 0⟩⟩ : Request ℕ (Fin 4)) ∈
        d.shared.node.accepted ∧
      (1400 : ℤ) ≤ toFixed ((7 / 5) ^ (1 + 1) * 100000) := by
  obtain ⟨d, hrun, hcount, hmem⟩ := Run.exists_of_exec
    (M := machine sampleConfig Policy.standard) (P := anyStep) (c := smallSample)
    (q := fun d => letterCount d.shared.log 0 = 1 ∧
      ⟨⟨0, 1400, .deadLetter⟩, .deadLetter ⟨0, 1000, .payload 0⟩⟩ ∈ d.shared.node.accepted)
    ([.env (.tick 1)] ++ submits 0 [.resume, .answer .accept, .resume, .resume] ++
      [.env (.tick 60001)] ++ checks 2 [.resume, .summaries [.pending], .resume, .resume,
        .letter 0 .resume, .letter 0 (.answer .accept), .letter 0 .resume])
    (by decide +kernel)
  have hcapped := prices_capped (C := 100000) (by norm_num) (by simp [sampleConfig])
    (by norm_num [sampleConfig]) smallSample_initial
    (fun hash e he => by simp [smallSample, newRelayer, onModuleInit, updateGasPrice] at he) hrun
  have hletter := (hcapped.2.2 _ (List.mem_append_left _ hmem)).2 _ rfl
  rw [hcount] at hletter
  exact ⟨d, hrun, hcount, hmem, hletter⟩

end Outline

end Komenci.Relayer
