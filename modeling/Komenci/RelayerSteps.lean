import Komenci.RelayerService

/-! What each segment of the relayer's tasks can do, said once. -/
namespace Komenci.Relayer
open Interleaving DecimalText

variable {P ι : Type} {cfg : AppConfig} {policy : Policy P ι}

lemma updateGasPrice_eq (cfg : AppConfig) (r : Option ℚ) (s : Service P ι) :
    ∃ g, updateGasPrice cfg r s = { s with gasPrice := g } := by
  unfold updateGasPrice
  split
  · exact ⟨_, rfl⟩
  · split_ifs
    · exact ⟨_, rfl⟩
    · exact ⟨s.gasPrice, rfl⟩

@[simp] lemma updateGasPrice_watchedTransactions (r : Option ℚ) (s : Service P ι) :
    (updateGasPrice cfg r s).watchedTransactions = s.watchedTransactions := by
  obtain ⟨g, hg⟩ := updateGasPrice_eq cfg r s
  rw [hg]

@[simp] lemma updateGasPrice_transactions (r : Option ℚ) (s : Service P ι) :
    (updateGasPrice cfg r s).transactions = s.transactions := by
  obtain ⟨g, hg⟩ := updateGasPrice_eq cfg r s
  rw [hg]

@[simp] lemma updateGasPrice_nonceLock (r : Option ℚ) (s : Service P ι) :
    (updateGasPrice cfg r s).nonceLock = s.nonceLock := by
  obtain ⟨g, hg⟩ := updateGasPrice_eq cfg r s
  rw [hg]

@[simp] lemma updateGasPrice_nonce (r : Option ℚ) (s : Service P ι) :
    (updateGasPrice cfg r s).nonce = s.nonce := by
  obtain ⟨g, hg⟩ := updateGasPrice_eq cfg r s
  rw [hg]

lemma nextSubmit_cases (tries : ℕ) (error : NodeError) :
    (∃ t, (nextSubmit tries error : SubmitPhase P) = .acquire t) ∨
      (nextSubmit tries error : SubmitPhase P) = .finished none := by
  unfold nextSubmit
  split
  · exact .inl ⟨_, rfl⟩
  · exact .inr rfl

lemma nextLetter_cases (tries : ℕ) (error : NodeError) :
    (∃ t, (nextLetter tries error : LetterPhase P) = .ready t) ∨
      (nextLetter tries error : LetterPhase P) = .finished := by
  unfold nextLetter
  split
  · exact .inl ⟨_, rfl⟩
  · exact .inr rfl

variable [DecidableEq P]

/-- The watch list has the keys of the cache. -/
def Service.InStep (s : Service P ι) : Prop :=
  ∀ h, h ∈ s.watchedTransactions ↔ (s.transactions h).isSome

lemma Service.InStep.watch {s : Service P ι} (hs : s.InStep) (h : Tx P) (d : TxCachedData) :
    (s.watchTransaction h d).InStep := by
  intro t
  by_cases ht : t = h
  · simp [watchTransaction, ht]
  · simp [watchTransaction, ht, hs t]

lemma Service.InStep.unwatch {s : Service P ι} (hs : s.InStep) (h : Tx P) :
    (s.unwatchTransaction h).InStep := by
  intro t
  by_cases ht : t = h
  · simp [unwatchTransaction, ht]
  · simp [unwatchTransaction, ht, hs t]

lemma Service.cached_watch {s : Service P ι} {h t : Tx P} {d e : TxCachedData}
    (he : (s.watchTransaction h d).transactions t = some e) :
    t = h ∧ e = d ∨ s.transactions t = some e := by
  by_cases ht : t = h
  · subst ht
    simp only [watchTransaction, Function.update_self, Option.some.injEq] at he
    exact .inl ⟨rfl, he.symm⟩
  · simp only [watchTransaction, Function.update_of_ne ht] at he
    exact .inr he

lemma Service.cached_unwatch {s : Service P ι} {h t : Tx P} {e : TxCachedData}
    (he : (s.unwatchTransaction h).transactions t = some e) : s.transactions t = some e := by
  by_cases ht : t = h
  · simp [unwatchTransaction, ht] at he
  · simpa only [unwatchTransaction, Function.update_of_ne ht] using he

/-- What watching each pending transaction keeps, the recovery of all of them keeps. -/
lemma watchAll_keeps {J : Service P ι → Prop} {now expireIn : ℕ} {pending : List (Tx P)}
    (hstep : ∀ s, ∀ t ∈ pending, J s →
      J (s.watchTransaction t ⟨t.nonce, t.gasPrice, now, expireIn⟩)) {s : Service P ι} (hs : J s) :
    J (pending.foldl (fun s t => s.watchTransaction t ⟨t.nonce, t.gasPrice, now, expireIn⟩) s) := by
  induction pending generalizing s with
  | nil => exact hs
  | cons t pending ih =>
    exact ih (fun s u hu => hstep s u (List.mem_cons_of_mem _ hu))
      (hstep s t List.mem_cons_self hs)

/-- The steps of a call of `submitTransaction`. -/
inductive SubmitStep (cfg : AppConfig) (policy : Policy P ι) (i : ι) (p : P) (s : Shared P ι) :
    SubmitPhase P → SubmitEvent → Shared P ι → SubmitPhase P → Prop
  | acquire {tries} : s.service.nonceLock = none →
      SubmitStep cfg policy i p s (.acquire tries) .resume (s.setLock (some i))
        (.send tries ⟨s.service.nonce, toFixed s.service.gasPrice, .payload p⟩)
  | answered {tries tx a} : policy.answers s.node tx a = true →
      SubmitStep cfg policy i p s (.send tries tx) (.answer a) (s.handle ⟨tx, .submit i⟩ a)
        (.replied tries tx a)
  | lost {tries tx} : SubmitStep cfg policy i p s (.send tries tx) .lost
      (s.lose ⟨tx, .submit i⟩) (.replied tries tx (.reject .other))
  | sent {tries tx} : SubmitStep cfg policy i p s (.replied tries tx .accept) .resume
      ((s.setNonce (s.service.nonce + 1)).setLock none) (.watch tx s.service.nonce)
  | priced {tries tx} : SubmitStep cfg policy i p s
      (.replied tries tx (.reject .gasPriceBelowMinimum)) .resume (s.setLock none)
      (.updateGasPrice tries)
  | tooLow {tries tx} : SubmitStep cfg policy i p s
      (.replied tries tx (.reject .nonceTooLow)) .resume (s.setLock none) (.acquireRefresh tries)
  | failed {tries tx} : SubmitStep cfg policy i p s (.replied tries tx (.reject .other)) .resume
      (s.setLock none) (nextSubmit tries .other)
  | watch {tx nonce} : SubmitStep cfg policy i p s (.watch tx nonce) .resume
      { s with
        service := s.service.watchTransaction tx
          ⟨nonce, s.service.gasPrice, s.clock, cfg.transactionTimeoutMs⟩
        log := s.log ++ [.TxSubmitted tx nonce] } (.finished (some tx))
  | gasPrice {tries raw} : SubmitStep cfg policy i p s (.updateGasPrice tries) (.gasPrice raw)
      (s.updateGasPrice cfg raw) (nextSubmit tries .gasPriceBelowMinimum)
  | acquireRefresh {tries} : s.service.nonceLock = none →
      SubmitStep cfg policy i p s (.acquireRefresh tries) .resume (s.setLock (some i))
        (.refresh tries)
  | counted {tries k} : policy.counts s.node k = true →
      SubmitStep cfg policy i p s (.refresh tries) (.count k) s (.refreshed tries k)
  | uncounted {tries} : SubmitStep cfg policy i p s (.refresh tries) .fail (s.setLock none)
      (.finished none)
  | refreshed {tries k} : SubmitStep cfg policy i p s (.refreshed tries k) .resume
      ((s.setNonce k).setLock none) (nextSubmit tries .nonceTooLow)

lemma submitTransaction_step {i : ι} {p : P} {s : Shared P ι} {phase : SubmitPhase P}
    {e : SubmitEvent} {r : Shared P ι × SubmitPhase P}
    (h : submitTransaction cfg policy i p s phase e = some r) :
    SubmitStep cfg policy i p s phase e r.1 r.2 := by
  unfold submitTransaction at h
  split at h
  case h_1 =>
    split_ifs at h with hl
    cases h
    exact .acquire hl
  case h_2 =>
    split_ifs at h with ha
    cases h
    exact .answered ha
  case h_10 =>
    split_ifs at h with hl
    cases h
    exact .acquireRefresh hl
  case h_11 =>
    split_ifs at h with hc
    cases h
    exact .counted hc
  all_goals
    cases h <;> constructor

/-- The steps of a call of `deadLetter`. -/
inductive LetterStep (cfg : AppConfig) (policy : Policy P ι) (s : Shared P ι) (txs : TxSummary P) :
    LetterPhase P → LetterEvent → Shared P ι → LetterPhase P → Prop
  | throw {tries} : txs.cachedTx = none →
      LetterStep cfg policy s txs (.ready tries) .resume s .thrown
  | start {tries d} : txs.cachedTx = some d →
      LetterStep cfg policy s txs (.ready tries) .resume s
        (.send tries (max (d.gasPrice * (7 / 5)) s.service.gasPrice)
          ⟨d.nonce, toFixed (max (d.gasPrice * (7 / 5)) s.service.gasPrice), .deadLetter⟩)
  | answered {tries g tx a} : policy.answers s.node tx a = true →
      LetterStep cfg policy s txs (.send tries g tx) (.answer a)
        (s.handle ⟨tx, .deadLetter txs.hash⟩ a) (.replied tries g tx a)
  | lost {tries g tx} : LetterStep cfg policy s txs (.send tries g tx) .lost
      (s.lose ⟨tx, .deadLetter txs.hash⟩) (.replied tries g tx (.reject .other))
  | sent {tries g tx d} : txs.cachedTx = some d →
      LetterStep cfg policy s txs (.replied tries g tx .accept) .resume
        { s with
          service := (s.service.unwatchTransaction txs.hash).watchTransaction tx
            ⟨d.nonce, g, s.clock, d.expireIn * 2⟩
          log := s.log ++ [.TxDeadletter txs.hash tx] } .finished
  | tooLow {tries g tx} : LetterStep cfg policy s txs
      (.replied tries g tx (.reject .nonceTooLow)) .resume
      { s with service := s.service.unwatchTransaction txs.hash } (nextLetter tries .nonceTooLow)
  | priced {tries g tx} : LetterStep cfg policy s txs
      (.replied tries g tx (.reject .gasPriceBelowMinimum)) .resume s (.updateGasPrice tries)
  | failed {tries g tx} : LetterStep cfg policy s txs (.replied tries g tx (.reject .other)) .resume
      s (nextLetter tries .other)
  | gasPrice {tries raw} : LetterStep cfg policy s txs (.updateGasPrice tries) (.gasPrice raw)
      (s.updateGasPrice cfg raw) (nextLetter tries .gasPriceBelowMinimum)

lemma deadLetter_step {s : Shared P ι} {txs : TxSummary P} {phase : LetterPhase P}
    {e : LetterEvent} {r : Shared P ι × LetterPhase P}
    (h : deadLetter cfg policy s txs phase e = some r) :
    LetterStep cfg policy s txs phase e r.1 r.2 := by
  unfold deadLetter at h
  split at h
  case h_1 =>
    split at h
    · cases h
      exact .throw ‹_›
    · cases h
      exact .start ‹_›
  case h_2 =>
    split_ifs at h with ha
    cases h
    exact .answered ha
  case h_4 =>
    split at h
    · cases h
    · cases h
      exact .sent ‹_›
  all_goals
    cases h <;> constructor

lemma deadLetters_step {s : Shared P ι} {ls : List (Letter P)} {k : ℕ} {e : LetterEvent}
    {r : Shared P ι × List (Letter P)} (h : deadLetters cfg policy s ls k e = some r) :
    ∃ l phase, ls[k]? = some l ∧ LetterStep cfg policy s l.txs l.phase e r.1 phase ∧
      r.2 = ls.set k ⟨l.txs, phase⟩ := by
  unfold deadLetters at h
  split at h
  · cases h
  · obtain ⟨q, hq, rfl⟩ := Option.map_eq_some_iff.mp h
    exact ⟨_, q.2, ‹_›, deadLetter_step hq, rfl⟩

/-- What each finalization with a receipt keeps, all of them keep. -/
lemma finalizeAll_keeps {J : Shared P ι → Prop} {completed : List (TxSummary P × Bool)}
    (hstep : ∀ s, J s → ∀ c ∈ completed, c.2 = true →
      J { s with
        service := s.service.unwatchTransaction c.1.hash
        log := s.log ++ [.TxConfirmed c.1.hash] }) {s : Shared P ι} (hs : J s) :
    J (finalizeAll s completed) := by
  induction completed generalizing s with
  | nil => exact hs
  | cons c completed ih =>
    have hnext : J (finalizeTransaction s c.1 c.2) := by
      unfold finalizeTransaction
      split_ifs with hreceipt
      · exact hstep s hs c List.mem_cons_self hreceipt
      · exact hs
    exact ih (fun s hs c hc => hstep s hs c (List.mem_cons_of_mem _ hc)) hnext

omit [DecidableEq P] in
/-- There is a summary of each watched transaction, in the order of the list. -/
lemma summaries_hash {watched : List (Tx P × Option TxCachedData)} {answers : List TxStatus}
    (h : watched.length = answers.length) :
    (summaries watched answers).map TxSummary.hash = watched.map Prod.fst := by
  have hzip : (watched.zip answers).map Prod.fst = watched := List.map_fst_zip h.le
  rw [summaries, List.map_map]
  conv_rhs => rw [← hzip, List.map_map]
  rfl

/-- The steps of a pass of `checkTransactions`. -/
inductive CheckStep (cfg : AppConfig) (policy : Policy P ι) (s : Shared P ι) :
    CheckPhase P → CheckEvent → Shared P ι → CheckPhase P → Prop
  | start : CheckStep cfg policy s .start .resume s (.getTxSummaries
      (s.service.watchedTransactions.map fun h => (h, s.service.transactions h)))
  | summaries {watched answers} :
      Truthful s.node (watched.map Prod.fst) (answers.map (· = .included)) →
      CheckStep cfg policy s (.getTxSummaries watched) (.summaries answers) s
        (.logBalance (summaries watched answers)
          ((summaries watched answers).filter (hasGasTooLow s.service.gasPrice)))
  | unanswered {watched} : CheckStep cfg policy s (.getTxSummaries watched) .fail s .finished
  | filtered {txs low} : CheckStep cfg policy s (.logBalance txs low) .resume s
      (.gasTooLow (letters low) (txs.filter (isExpired s.clock)) (txs.filter isCompleted))
  | noBalance {txs low} : CheckStep cfg policy s (.logBalance txs low) .fail s .finished
  | lowLetter {ls exp compl k l e s' phase} : ls[k]? = some l →
      LetterStep cfg policy s l.txs l.phase e s' phase →
      CheckStep cfg policy s (.gasTooLow ls exp compl) (.letter k e) s'
        (.gasTooLow (ls.set k ⟨l.txs, phase⟩) exp compl)
  | lowSettled {ls exp compl} : ls.all Letter.settled = true →
      CheckStep cfg policy s (.gasTooLow ls exp compl) .resume s
        (if anyThrown ls then .finished else .expired (letters exp) compl)
  | expiredLetter {ls compl k l e s' phase} : ls[k]? = some l →
      LetterStep cfg policy s l.txs l.phase e s' phase →
      CheckStep cfg policy s (.expired ls compl) (.letter k e) s'
        (.expired (ls.set k ⟨l.txs, phase⟩) compl)
  | expiredSettled {ls compl} : ls.all Letter.settled = true →
      CheckStep cfg policy s (.expired ls compl) .resume s
        (if anyThrown ls then .finished else .withReceipts compl)
  | receipts {compl found} : Truthful s.node (compl.map TxSummary.hash) found →
      CheckStep cfg policy s (.withReceipts compl) (.receipts found)
        (finalizeAll s (compl.zip found)) .finished
  | noReceipts {compl} : CheckStep cfg policy s (.withReceipts compl) .fail s .finished

lemma checkTransactions_step {s : Shared P ι} {phase : CheckPhase P} {e : CheckEvent}
    {r : Shared P ι × CheckPhase P} (h : checkTransactions cfg policy s phase e = some r) :
    CheckStep cfg policy s phase e r.1 r.2 := by
  unfold checkTransactions at h
  split at h
  case h_2 =>
    split_ifs at h with ht
    cases h
    exact .summaries ht
  case h_5 =>
    split_ifs at h
    cases h
    exact .noBalance
  case h_6 =>
    obtain ⟨q, hq, rfl⟩ := Option.map_eq_some_iff.mp h
    obtain ⟨l, phase, hl, hstep, hset⟩ := deadLetters_step hq
    simp only [hset]
    exact .lowLetter hl hstep
  case h_7 ls expired completed =>
    by_cases hset : ls.all Letter.settled = true
    · rw [if_pos hset] at h
      cases h
      exact .lowSettled hset
    · rw [if_neg hset] at h
      cases h
  case h_8 =>
    obtain ⟨q, hq, rfl⟩ := Option.map_eq_some_iff.mp h
    obtain ⟨l, phase, hl, hstep, hset⟩ := deadLetters_step hq
    simp only [hset]
    exact .expiredLetter hl hstep
  case h_9 ls completed =>
    by_cases hset : ls.all Letter.settled = true
    · rw [if_pos hset] at h
      cases h
      exact .expiredSettled hset
    · rw [if_neg hset] at h
      cases h
  case h_10 =>
    split_ifs at h with ht
    cases h
    exact .receipts ht
  all_goals
    cases h <;> constructor

/-- A pass does not touch the mutex. -/
lemma checkStep_lock {s s' : Shared P ι} {phase phase' : CheckPhase P} {e : CheckEvent}
    (h : CheckStep cfg policy s phase e s' phase') :
    s'.service.nonceLock = s.service.nonceLock := by
  have hletter : ∀ {txs : TxSummary P} {phase phase' : LetterPhase P} {e : LetterEvent},
      LetterStep cfg policy s txs phase e s' phase' →
      s'.service.nonceLock = s.service.nonceLock := by
    intro txs phase phase' e h
    cases h with
    | gasPrice => simp [Shared.updateGasPrice]
    | _ => rfl
  cases h with
  | lowLetter _ hl | expiredLetter _ hl => exact hletter hl
  | receipts _ =>
    exact finalizeAll_keeps (J := fun s' => s'.service.nonceLock = s.service.nonceLock)
      (fun _ hs _ _ _ => hs) rfl
  | _ => rfl

/-- The steps of a call of `getPhoneNumberSignature`. -/
inductive OdisStep (policy : Policy P ι) (i : ι) (s : Shared P ι) :
    OdisPhase P → OdisEvent → Shared P ι → OdisPhase P → Prop
  | quiet {phase e phase'} : (∀ g a, e ≠ .selfTransfer g a) → OdisStep policy i s phase e s phase'
  | answered {tries g a} : policy.answers s.node ⟨s.node.next, g, .selfTransfer⟩ a = true →
      OdisStep policy i s (.replenishQuota tries) (.selfTransfer g a)
        (s.handle ⟨⟨s.node.next, g, .selfTransfer⟩, .replenish i⟩ a)
        (if a = .accept then .receipt tries ⟨s.node.next, g, .selfTransfer⟩ else .finished)
  | lost {tries g} : OdisStep policy i s (.replenishQuota tries) (.lost g)
      (s.lose ⟨⟨s.node.next, g, .selfTransfer⟩, .replenish i⟩) .finished

omit [DecidableEq P] in
lemma odisStep_service {i : ι} {s s' : Shared P ι} {phase phase' : OdisPhase P} {e : OdisEvent}
    (h : OdisStep policy i s phase e s' phase') : s'.service = s.service := by
  cases h <;> rfl

lemma getPhoneNumberSignature_step {i : ι} {s : Shared P ι} {phase : OdisPhase P} {e : OdisEvent}
    {r : Shared P ι × OdisPhase P} (h : getPhoneNumberSignature policy i s phase e = some r) :
    OdisStep policy i s phase e r.1 r.2 := by
  unfold getPhoneNumberSignature at h
  split at h
  case h_4 tries g a =>
    by_cases ha : policy.answers s.node ⟨s.node.next, g, .selfTransfer⟩ a = true
    · simp only [ha, if_true] at h
      cases h
      exact .answered ha
    · simp only [ha] at h
      cases h
  case h_5 =>
    cases h
    exact .lost
  case h_7 =>
    split_ifs at h
    cases h
    exact .quiet (by simp)
  all_goals
    cases h <;> exact .quiet (by simp)

end Komenci.Relayer
