import Komenci.RelayerRequests

/-! What the relayer's tasks can cost: the segments and the requests of a call are bounded, and so
are the requests that a pass makes for a transaction it watches, whatever becomes of them. -/
namespace Komenci.Relayer
open Interleaving DecimalText

variable {P ι : Type} {cfg : AppConfig} {policy : Policy P ι}

section Record

/-- The request that leaves in a segment of a dead letter. -/
def Letter.leaves (s : Shared P ι) (letter : Letter P) (e : LetterEvent) : Option (Request P ι) :=
  match letter.phase, e with
  | .ready _, .resume => letter.txs.cachedTx.map fun cachedTx =>
    let gasPrice := max (cachedTx.gasPrice * (7 / 5)) s.service.gasPrice
    ⟨⟨cachedTx.nonce, toFixed gasPrice, .deadLetter⟩, .deadLetter letter.txs.hash⟩
  | _, _ => none

/-- The request that leaves in a segment of a task, whether it is accepted, refused or lost. -/
def Task.leaves (i : ι) (s : Shared P ι) : Task P → Event P → Option (Request P ι)
  | .submitTransaction p (.acquire _), .submit .resume =>
    some ⟨⟨s.service.nonce, toFixed s.service.gasPrice, .payload p⟩, .submit i⟩
  | .checkTransactions phase, .check (.letter k e) =>
    phase.letters[k]?.bind fun letter => letter.leaves s e
  | .getPhoneNumberSignature (.replenishQuota _), .odis (.selfTransfer gasPrice _) =>
    some ⟨⟨s.node.next, gasPrice, .selfTransfer⟩, .replenish i⟩
  | .getPhoneNumberSignature (.replenishQuota _), .odis (.lost gasPrice) =>
    some ⟨⟨s.node.next, gasPrice, .selfTransfer⟩, .replenish i⟩
  | _, _ => none

/-- The segments that each task has taken, and the requests that have left in them. -/
structure Spent (P ι : Type) where
  segments : ι → ℕ
  requests : ι → List (Request P ι)

def Spent.nothing : Spent P ι := ⟨fun _ => 0, fun _ => []⟩

def spend [DecidableEq ι] (c : Config (Shared P ι) ι (Task P)) (l : Label ι (Event P))
    (spent : Spent P ι) : Spent P ι :=
  match l with
  | .task i e => ⟨Function.update spent.segments i (spent.segments i + 1),
      Function.update spent.requests i
        (spent.requests i ++ (Task.leaves i c.shared (c.task i) e).toList)⟩
  | .env _ => spent

end Record

/-- Whose call the request is made for. -/
def Origin.caller : Origin P ι → Option ι
  | .submit i => some i
  | .replenish i => some i
  | _ => none

section Counts
variable [DecidableEq ι]

/-- How many requests for a call the node has accepted or may still get. -/
def Node.kept (n : Node P ι) (i : ι) : ℕ :=
  (n.accepted ++ n.limbo).countP fun r => r.origin.caller = some i

/-- One request more, if it is of the call. -/
def Request.one (r : Request P ι) (i : ι) : ℕ := if r.origin.caller = some i then 1 else 0

lemma kept_handle_le (n : Node P ι) (r : Request P ι) (a : Answer) (i : ι) :
    (n.handle r a).kept i ≤ n.kept i + r.one i := by
  cases a with
  | reject e => exact Nat.le_add_right _ _
  | accept =>
    simp only [Node.kept, Node.handle, Node.accept_accepted, Node.accept_limbo, List.countP_append,
      List.countP_singleton, Request.one, decide_eq_true_eq]
    omega

lemma kept_lose (n : Node P ι) (r : Request P ι) (i : ι) :
    (n.lose r).kept i = n.kept i + r.one i := by
  simp only [Node.kept, Node.lose_accepted, Node.lose_limbo, List.countP_append,
    List.countP_singleton, Request.one, decide_eq_true_eq]
  omega

/-- A request that arrives late is not made a second time. -/
lemma kept_arrive_le {n : Node P ι} {r : Request P ι} {k : ℕ} (hk : n.limbo[k]? = some r)
    (a : Answer) (i : ι) :
    ({ n.handle r a with limbo := n.limbo.eraseIdx k } : Node P ι).kept i ≤ n.kept i := by
  obtain ⟨hlt, hr⟩ := List.getElem?_eq_some_iff.mp hk
  have hlimbo : n.limbo.countP (fun r => decide (r.origin.caller = some i)) =
      (n.limbo.eraseIdx k).countP (fun r => decide (r.origin.caller = some i)) + r.one i := by
    have hperm := (List.getElem_cons_eraseIdx_perm hlt).countP_eq
      fun r : Request P ι => decide (r.origin.caller = some i)
    rw [← hperm, List.countP_cons, hr]
    simp [Request.one]
  have hhandle := kept_handle_le n r a i
  simp only [Node.kept, Node.handle_limbo, List.countP_append] at hhandle ⊢
  omega

end Counts

def SubmitPhase.Tried : SubmitPhase P → Prop
  | .acquire tries | .send tries _ | .replied tries _ _ | .updateGasPrice tries
  | .acquireRefresh tries | .refresh tries | .refreshed tries _ => tries ≤ 3
  | _ => True

/-- How many requests the call may still make. -/
def SubmitPhase.budget : SubmitPhase P → ℕ
  | .acquire tries => 4 - tries
  | .send tries _ | .replied tries _ _ | .updateGasPrice tries | .acquireRefresh tries
  | .refresh tries | .refreshed tries _ => 3 - tries
  | .watch _ _ | .finished _ => 0

/-- A request of the call is on its way. -/
def SubmitPhase.waiting : SubmitPhase P → ℕ
  | .send _ _ => 1
  | _ => 0

/-- How many segments the call may still take. -/
def SubmitPhase.left : SubmitPhase P → ℕ
  | .acquire tries => 6 * (3 - tries) + 6
  | .send tries _ => 6 * (3 - tries) + 5
  | .replied tries _ _ => 6 * (3 - tries) + 4
  | .acquireRefresh tries => 6 * (3 - tries) + 3
  | .refresh tries => 6 * (3 - tries) + 2
  | .updateGasPrice tries | .refreshed tries _ => 6 * (3 - tries) + 1
  | .watch _ _ => 1
  | .finished _ => 0

/-- The call is in its critical section. -/
def SubmitPhase.holds : SubmitPhase P → Bool
  | .send _ _ | .replied _ _ _ | .refresh _ | .refreshed _ _ => true
  | _ => false

def OdisPhase.Tried : OdisPhase P → Prop
  | .query tries | .replenishQuota tries | .receipt tries _ => tries ≤ 2
  | .finished => True

def OdisPhase.budget : OdisPhase P → ℕ
  | .query tries | .replenishQuota tries => 3 - tries
  | .receipt tries _ => 2 - tries
  | .finished => 0

def OdisPhase.left : OdisPhase P → ℕ
  | .query tries => 3 * (2 - tries) + 3
  | .replenishQuota tries => 3 * (2 - tries) + 2
  | .receipt tries _ => 3 * (2 - tries) + 1
  | .finished => 0

def LetterPhase.Tried : LetterPhase P → Prop
  | .ready tries | .send tries _ _ | .replied tries _ _ _ | .updateGasPrice tries => tries ≤ 3
  | .finished | .thrown => True

def LetterPhase.budget : LetterPhase P → ℕ
  | .ready tries => 4 - tries
  | .send tries _ _ | .replied tries _ _ _ | .updateGasPrice tries => 3 - tries
  | .finished | .thrown => 0

section Passes
variable [DecidableEq P]

/-- What the dead letters of this transaction may still cost. -/
def lettersBudget (hash : Tx P) (ls : List (Letter P)) : ℕ :=
  (ls.map fun l => if l.txs.hash = hash then l.phase.budget else 0).sum

/-- A list of transactions names none twice, and no letter has more tries than it may have. -/
def CheckPhase.Tried : CheckPhase P → Prop
  | .getTxSummaries watched => (watched.map Prod.fst).Nodup
  | .gasTooLow ls _ _ | .expired ls _ => ∀ l ∈ ls, l.phase.Tried
  | _ => True

/-- How many requests the pass may still make for this transaction. -/
def CheckPhase.budget (hash : Tx P) : CheckPhase P → ℕ
  | .start | .getTxSummaries _ => 6
  | .logBalance txs low =>
    3 * (low.map TxSummary.hash).count hash + 3 * (txs.map TxSummary.hash).count hash
  | .gasTooLow ls txs _ =>
    lettersBudget hash ls + 3 * (txs.map TxSummary.hash).count hash
  | .expired ls _ => lettersBudget hash ls
  | .withReceipts _ | .finished => 0

end Passes

/-- The try after a failed one is within the bound, or there is none. -/
lemma nextSubmit_bounds {tries : ℕ} (h : tries ≤ 3) (error : NodeError) :
    (nextSubmit tries error : SubmitPhase P).Tried ∧
      (nextSubmit tries error : SubmitPhase P).budget ≤ 3 - tries ∧
      (nextSubmit tries error : SubmitPhase P).left ≤ 6 * (3 - tries) ∧
      (nextSubmit tries error : SubmitPhase P).holds = false := by
  unfold nextSubmit
  split_ifs with hagain
  · have hne : tries ≠ 3 := Retry.RetryOptions.ne_of_again hagain
    refine ⟨?_, ?_, ?_, rfl⟩
    all_goals
      simp only [SubmitPhase.Tried, SubmitPhase.budget, SubmitPhase.left]
      omega
  · exact ⟨trivial, Nat.zero_le _, Nat.zero_le _, rfl⟩

lemma nextQuery_bounds {tries : ℕ} (h : tries ≤ 2) (error : OdisResult) :
    (nextQuery tries error : OdisPhase P).Tried ∧
      (nextQuery tries error : OdisPhase P).budget ≤ 2 - tries ∧
      (nextQuery tries error : OdisPhase P).left ≤ 3 * (2 - tries) := by
  unfold nextQuery
  split_ifs with hagain
  · have hne : tries ≠ 2 := Retry.RetryOptions.ne_of_again hagain
    simp only [OdisPhase.Tried, OdisPhase.budget, OdisPhase.left]
    omega
  · exact ⟨trivial, Nat.zero_le _, Nat.zero_le _⟩

@[simp] lemma nextSubmit_waiting (tries : ℕ) (error : NodeError) :
    (nextSubmit tries error : SubmitPhase P).waiting = 0 := by
  rcases nextSubmit_cases (P := P) tries error with ⟨t, ht⟩ | ht
  all_goals rw [ht]; rfl

lemma nextLetter_bounds {tries : ℕ} (h : tries ≤ 3) (error : NodeError) :
    (nextLetter tries error : LetterPhase P).Tried ∧
      (nextLetter tries error : LetterPhase P).budget ≤ 3 - tries := by
  unfold nextLetter
  split_ifs with hagain
  · have hne : tries ≠ 3 := Retry.RetryOptions.ne_of_again hagain
    simp only [LetterPhase.Tried, LetterPhase.budget]
    omega
  · exact ⟨trivial, Nat.zero_le _⟩

section Segments
variable [DecidableEq ι] {i : ι} {s s' : Shared P ι}

lemma one_self (tx : Tx P) (i : ι) : (⟨tx, .submit i⟩ : Request P ι).one i = 1 ∧
    (⟨tx, .replenish i⟩ : Request P ι).one i = 1 := ⟨if_pos rfl, if_pos rfl⟩

lemma one_other {i j : ι} (tx : Tx P) (h : j ≠ i) : (⟨tx, .submit i⟩ : Request P ι).one j = 0 ∧
    (⟨tx, .replenish i⟩ : Request P ι).one j = 0 := by
  have hne : some i ≠ some j := fun heq => h (Option.some.inj heq).symm
  exact ⟨if_neg hne, if_neg hne⟩

variable [DecidableEq P]

/-- What a segment of a call uses up. -/
lemma submitStep_cost {p : P} {phase phase' : SubmitPhase P} {e : SubmitEvent}
    (h : SubmitStep cfg policy i p s phase e s' phase') (ht : phase.Tried) :
    phase'.Tried ∧ phase'.left < phase.left ∧
      (Task.leaves i s (.submitTransaction p phase) (.submit e)).toList.length + phase'.budget ≤
        phase.budget ∧
      s'.node.kept i + phase'.waiting ≤ s.node.kept i + phase.waiting +
        (Task.leaves i s (.submitTransaction p phase) (.submit e)).toList.length ∧
      ∀ j ≠ i, s'.node.kept j ≤ s.node.kept j := by
  cases h with
  | acquire _ =>
    refine ⟨ht, Nat.lt_succ_self _, ?_, le_refl _, fun j _ => le_refl _⟩
    simp only [SubmitPhase.Tried] at ht
    simp only [Task.leaves, Option.toList_some, List.length_singleton, SubmitPhase.budget]
    omega
  | @answered tries tx a ha =>
    have hself := kept_handle_le s.node ⟨tx, .submit i⟩ a i
    rw [(one_self tx i).1] at hself
    refine ⟨ht, Nat.lt_succ_self _, le_of_eq (Nat.zero_add _), hself, fun j hj => ?_⟩
    have hother := kept_handle_le s.node ⟨tx, .submit i⟩ a j
    rwa [(one_other tx hj).1] at hother
  | @lost tries tx =>
    have hself := kept_lose s.node ⟨tx, .submit i⟩ i
    rw [(one_self tx i).1] at hself
    refine ⟨ht, Nat.lt_succ_self _, le_of_eq (Nat.zero_add _), hself.le, fun j hj => ?_⟩
    rw [Shared.lose, kept_lose, (one_other tx hj).1, Nat.add_zero]
  | failed | gasPrice | refreshed =>
    obtain ⟨htried, hbudget, hleft, -⟩ := nextSubmit_bounds (P := P) ht _
    refine ⟨htried, hleft.trans_lt ?_, (Nat.zero_add _).trans_le hbudget, ?_, fun j _ => le_refl _⟩
    · simp only [SubmitPhase.left]
      omega
    · rw [nextSubmit_waiting]
      exact le_refl _
  | _ =>
    refine ⟨by first | exact ht | trivial, ?_, ?_, le_refl _, fun j _ => le_refl _⟩
    · simp only [SubmitPhase.left]
      omega
    · simp [Task.leaves, SubmitPhase.budget]

lemma odis_cost {phase : OdisPhase P} {e : OdisEvent} {r : Shared P ι × OdisPhase P}
    (h : getPhoneNumberSignature policy i s phase e = some r) (ht : phase.Tried) :
    r.2.Tried ∧ r.2.left < phase.left ∧
      (Task.leaves i s (.getPhoneNumberSignature phase) (.odis e)).toList.length + r.2.budget ≤
        phase.budget ∧
      r.1.node.kept i ≤ s.node.kept i +
        (Task.leaves i s (.getPhoneNumberSignature phase) (.odis e)).toList.length ∧
      ∀ j ≠ i, r.1.node.kept j ≤ s.node.kept j := by
  unfold getPhoneNumberSignature at h
  split at h
  case h_3 tries error _ _ =>
    cases h
    obtain ⟨htried, hbudget, hleft⟩ := nextQuery_bounds (P := P) ht error
    refine ⟨htried, hleft.trans_lt ?_, (Nat.zero_add _).trans_le (hbudget.trans ?_), le_refl _,
      fun j _ => le_refl _⟩
    · simp only [OdisPhase.left]
      omega
    · simp only [OdisPhase.budget]
      omega
  case h_4 tries g a =>
    by_cases ha : policy.answers s.node ⟨s.node.next, g, .selfTransfer⟩ a = true
    · simp only [ha, if_true] at h
      cases h
      have hself := kept_handle_le s.node ⟨⟨s.node.next, g, .selfTransfer⟩, .replenish i⟩ a i
      rw [(one_self _ i).2] at hself
      simp only [OdisPhase.Tried] at ht
      refine ⟨?_, ?_, ?_, hself, fun j hj => ?_⟩
      · split_ifs
        · exact ht
        · trivial
      · split_ifs
        · exact Nat.lt_succ_self _
        · exact Nat.succ_pos _
      · simp only [Task.leaves, Option.toList_some, List.length_singleton]
        split_ifs <;> simp only [OdisPhase.budget] <;> omega
      · have hother := kept_handle_le s.node
          ⟨⟨s.node.next, g, .selfTransfer⟩, .replenish i⟩ a j
        rwa [(one_other _ hj).2] at hother
    · simp only [ha] at h
      cases h
  case h_5 tries g =>
    cases h
    have hself := kept_lose s.node ⟨⟨s.node.next, g, .selfTransfer⟩, .replenish i⟩ i
    rw [(one_self _ i).2] at hself
    simp only [OdisPhase.Tried] at ht
    refine ⟨trivial, Nat.succ_pos _, ?_, hself.le, fun j hj => ?_⟩
    · simp only [Task.leaves, Option.toList_some, List.length_singleton, OdisPhase.budget]
      omega
    · rw [Shared.lose, kept_lose, (one_other _ hj).2, Nat.add_zero]
  case h_7 tries tx =>
    split_ifs at h with hmined
    cases h
    obtain ⟨htried, hbudget, hleft⟩ := nextQuery_bounds (P := P) ht .OutOfQuota
    exact ⟨htried, hleft.trans_lt (Nat.lt_succ_self _), (Nat.zero_add _).trans_le hbudget,
      le_refl _, fun j _ => le_refl _⟩
  case h_9 => cases h
  all_goals
    cases h
    refine ⟨by first | exact ht | trivial, ?_, ?_, le_refl _, fun j _ => le_refl _⟩
    · simp only [OdisPhase.left]
      omega
    · simp [Task.leaves, OdisPhase.budget]

/-- A pass makes no request for a call. -/
lemma checkStep_kept {phase phase' : CheckPhase P} {e : CheckEvent}
    (h : CheckStep cfg policy s phase e s' phase') (j : ι) : s'.node.kept j ≤ s.node.kept j := by
  rcases checkStep_node h with hn | ⟨k, le, letter, s'', ph, -, -, hls, hn⟩
  · rw [hn]
  · rw [hn]
    rcases letterStep_node hls with hn' | ⟨tries, g, tx, -, ⟨a, -, -, hn'⟩ | hn'⟩
    · rw [hn']
    · rw [hn']
      exact kept_handle_le s.node _ a j
    · rw [hn', kept_lose]
      exact le_refl _

omit [DecidableEq ι] in
/-- A dead letter that leaves is one try less. -/
lemma letterStep_cost {txs : TxSummary P} {phase phase' : LetterPhase P} {e : LetterEvent}
    (h : LetterStep cfg policy s txs phase e s' phase') (ht : phase.Tried) :
    phase'.Tried ∧
      ((⟨txs, phase⟩ : Letter P).leaves s e).toList.length + phase'.budget ≤ phase.budget ∧
      ∀ r ∈ (⟨txs, phase⟩ : Letter P).leaves s e, r.origin = .deadLetter txs.hash := by
  cases h with
  | @start tries d hd =>
    simp only [LetterPhase.Tried] at ht
    refine ⟨ht, ?_, fun r hr => ?_⟩
    · simp only [Letter.leaves, hd, Option.map_some, Option.toList_some, List.length_singleton,
        LetterPhase.budget]
      omega
    · simp only [Letter.leaves, hd, Option.map_some, Option.mem_def, Option.some.injEq] at hr
      exact hr ▸ rfl
  | throw hd =>
    refine ⟨trivial, ?_, fun r hr => ?_⟩
    · simp [Letter.leaves, hd, LetterPhase.budget]
    · simp [Letter.leaves, hd] at hr
  | tooLow | failed | gasPrice =>
    obtain ⟨htried, hbudget⟩ := nextLetter_bounds (P := P) ht _
    exact ⟨htried, (Nat.zero_add _).trans_le hbudget, fun r hr => by cases hr⟩
  | sent _ => exact ⟨trivial, Nat.zero_le _, fun r hr => by cases hr⟩
  | _ => exact ⟨ht, le_of_eq (Nat.zero_add _), fun r hr => by cases hr⟩

omit [DecidableEq ι] in
lemma lettersBudget_letters (hash : Tx P) (txs : List (TxSummary P)) :
    lettersBudget hash (letters txs) = 3 * (txs.map TxSummary.hash).count hash := by
  induction txs with
  | nil => rfl
  | cons t txs ih =>
    simp only [lettersBudget, letters, List.map_cons, List.sum_cons, List.count_cons] at ih ⊢
    rw [ih]
    split_ifs with h <;> simp_all [LetterPhase.budget]; omega

omit [DecidableEq ι] in
/-- The letter that goes on costs what it has cost, and the others are as before. -/
lemma lettersBudget_set {ls : List (Letter P)} {k : ℕ} {l : Letter P} (hl : ls[k]? = some l)
    (phase : LetterPhase P) (hash : Tx P) :
    lettersBudget hash (ls.set k ⟨l.txs, phase⟩) +
        (if l.txs.hash = hash then l.phase.budget else 0) =
      lettersBudget hash ls + if l.txs.hash = hash then phase.budget else 0 := by
  obtain ⟨pre, post, hold, hnew⟩ := exists_split_set hl ⟨l.txs, phase⟩
  rw [hnew, hold]
  simp only [lettersBudget, List.map_append, List.map_cons, List.sum_append, List.sum_cons]
  omega

/-- A dead letter that goes on is paid for by what the letters of its transaction may cost. -/
lemma lettersBudget_step {ls : List (Letter P)} {k : ℕ} {l : Letter P} {phase : LetterPhase P}
    {e : LetterEvent} (hl : ls[k]? = some l)
    (h : LetterStep cfg policy s l.txs l.phase e s' phase) (ht : l.phase.Tried) (hash : Tx P) :
    (l.leaves s e).toList.countP (fun r => r.origin = .deadLetter hash) +
      lettersBudget hash (ls.set k ⟨l.txs, phase⟩) ≤ lettersBudget hash ls := by
  obtain ⟨-, hcost, horigin⟩ : _ ∧ (l.leaves s e).toList.length + _ ≤ _ ∧ _ := letterStep_cost h ht
  have hset := lettersBudget_set hl phase hash
  by_cases hhash : l.txs.hash = hash
  · have hle := List.countP_le_length (p := fun r : Request P ι => decide
      (r.origin = .deadLetter hash)) (l := (l.leaves s e).toList)
    rw [if_pos hhash, if_pos hhash] at hset
    omega
  · have hzero : (l.leaves s e).toList.countP
        (fun r : Request P ι => r.origin = .deadLetter hash) = 0 := by
      refine List.countP_eq_zero.mpr fun r hr => ?_
      simp [horigin r (Option.mem_toList.mp hr), hhash]
    rw [if_neg hhash, if_neg hhash] at hset
    omega

/-- What a segment of a pass uses up of what the pass may cost for each transaction. -/
lemma checkStep_cost {phase phase' : CheckPhase P} {e : CheckEvent}
    (h : CheckStep cfg policy s phase e s' phase') (ht : phase.Tried)
    (hs : s.service.watchedTransactions.Nodup) :
    phase'.Tried ∧
      (∀ r ∈ Task.leaves i s (.checkTransactions phase) (.check e),
        ∃ hash, r.origin = .deadLetter hash) ∧
      ∀ hash, (Task.leaves i s (.checkTransactions phase) (.check e)).toList.countP
          (fun r => r.origin = .deadLetter hash) + phase'.budget hash ≤ phase.budget hash := by
  cases h with
  | start =>
    refine ⟨?_, fun r hr => (by cases hr), fun hash => le_of_eq rfl⟩
    simpa [CheckPhase.Tried, Function.comp_def] using hs
  | @summaries watched answers htruth =>
    refine ⟨trivial, fun r hr => (by cases hr), fun hash => ?_⟩
    have hnodup : ((summaries watched answers).map TxSummary.hash).Nodup := by
      rw [summaries_hash (by simpa using htruth.1)]
      exact ht
    have hlow : (((summaries watched answers).filter
        (hasGasTooLow s.service.gasPrice)).map TxSummary.hash).Nodup :=
      hnodup.sublist (List.filter_sublist.map _)
    have hone := List.nodup_iff_count_le_one.mp hnodup hash
    have hlowOne := List.nodup_iff_count_le_one.mp hlow hash
    simp only [Task.leaves, Option.toList_none, List.countP_nil, CheckPhase.budget]
    omega
  | @filtered txs low =>
    refine ⟨fun l hl => ?_, fun r hr => (by cases hr), fun hash => ?_⟩
    · obtain ⟨t, -, rfl⟩ := List.mem_map.mp hl
      exact Nat.le_add_left 1 2
    · have hle : ((txs.filter (isExpired s.clock)).map TxSummary.hash).count hash ≤
          (txs.map TxSummary.hash).count hash := (List.filter_sublist.map _).count_le hash
      simp only [Task.leaves, Option.toList_none, List.countP_nil, CheckPhase.budget,
        lettersBudget_letters]
      omega
  | @lowLetter ls txs completed k l e _ phase hl hls =>
    have htry := ht l (List.mem_of_getElem? hl)
    obtain ⟨htried, -, horigin⟩ := letterStep_cost (ι := ι) hls htry
    have hleaves : Task.leaves i s (.checkTransactions (.gasTooLow ls txs completed))
        (.check (.letter k e)) = l.leaves s e := by
      simp only [Task.leaves, CheckPhase.letters, hl, Option.bind_some]
    rw [hleaves]
    refine ⟨forall_letters_set ht htried, fun r hr => ⟨_, horigin r hr⟩, fun hash => ?_⟩
    have hpaid := lettersBudget_step (ι := ι) hl hls htry hash
    simp only [CheckPhase.budget]
    omega
  | @expiredLetter ls completed k l e _ phase hl hls =>
    have htry := ht l (List.mem_of_getElem? hl)
    obtain ⟨htried, -, horigin⟩ := letterStep_cost (ι := ι) hls htry
    have hleaves : Task.leaves i s (.checkTransactions (.expired ls completed))
        (.check (.letter k e)) = l.leaves s e := by
      simp only [Task.leaves, CheckPhase.letters, hl, Option.bind_some]
    rw [hleaves]
    refine ⟨forall_letters_set ht htried, fun r hr => ⟨_, horigin r hr⟩, fun hash => ?_⟩
    exact lettersBudget_step (ι := ι) hl hls htry hash
  | @lowSettled ls txs _ _ =>
    split_ifs
    · exact ⟨trivial, fun r hr => (by cases hr), fun hash => Nat.zero_le _⟩
    · refine ⟨fun l hl => ?_, fun r hr => (by cases hr), fun hash => ?_⟩
      · obtain ⟨t, -, rfl⟩ := List.mem_map.mp hl
        exact Nat.le_add_left 1 2
      · simp only [Task.leaves, Option.toList_none, List.countP_nil, CheckPhase.budget,
          lettersBudget_letters]
        omega
  | expiredSettled _ =>
    split_ifs <;> exact ⟨trivial, fun r hr => (by cases hr), fun hash => Nat.zero_le _⟩
  | _ => exact ⟨trivial, fun r hr => (by cases hr), fun hash => Nat.zero_le _⟩

omit [DecidableEq ι] in
/-- The watch list names no transaction twice. -/
lemma step_nodup {c d : Config (Shared P ι) ι (Task P)} {l : Label ι (Event P)} [DecidableEq ι]
    (h : Step cfg policy c l d) (hc : c.shared.service.watchedTransactions.Nodup) :
    d.shared.service.watchedTransactions.Nodup := by
  have hletter : ∀ {s s' : Shared P ι} {txs : TxSummary P} {phase phase' : LetterPhase P}
      {e : LetterEvent}, LetterStep cfg policy s txs phase e s' phase' →
      s.service.watchedTransactions.Nodup → s'.service.watchedTransactions.Nodup := by
    intro s s' txs phase phase' e h hs
    cases h with
    | sent _ => exact (hs.filter _).insert
    | tooLow => exact hs.filter _
    | gasPrice => simpa [Shared.updateGasPrice] using hs
    | _ => exact hs
  cases h with
  | submit _ hs =>
    cases hs with
    | watch => exact hc.insert
    | gasPrice => simpa [Shared.updateGasPrice] using hc
    | _ => exact hc
  | check _ hs =>
    cases hs with
    | lowLetter _ hls | expiredLetter _ hls => exact hletter hls hc
    | receipts _ =>
      exact finalizeAll_keeps (J := fun s => s.service.watchedTransactions.Nodup)
        (fun _ hs _ _ _ => hs.filter _) hc
    | _ => exact hc
  | odis _ hs =>
    rw [Config.resume_shared, odisStep_service hs]
    exact hc
  | gasPrice => simpa [Shared.updateGasPrice] using hc
  | mine _ | arrive _ _ | tick => exact hc

end Segments

section Machine
variable [DecidableEq P] [DecidableEq ι] {c d : Config (Shared P ι) ι (Task P)}

/-- What has been spent on a task, with what is left of it. -/
def Task.Costs (kept segments : ℕ) (requests : List (Request P ι)) : Task P → Prop
  | .submitTransaction _ phase => phase.Tried ∧ segments + phase.left ≤ 18 ∧
    requests.length + phase.budget ≤ 3 ∧ kept + phase.waiting ≤ requests.length
  | .checkTransactions phase => phase.Tried ∧
    (∀ r ∈ requests, ∃ hash, r.origin = .deadLetter hash) ∧
    ∀ hash, requests.countP (fun r => r.origin = .deadLetter hash) + phase.budget hash ≤ 6
  | .getPhoneNumberSignature phase => phase.Tried ∧ segments + phase.left ≤ 6 ∧
    requests.length + phase.budget ≤ 2 ∧ kept ≤ requests.length

lemma Task.Costs.mono {kept kept' segments : ℕ} {requests : List (Request P ι)}
    {t : Task P} (h : t.Costs kept segments requests) (hle : kept' ≤ kept) :
    t.Costs kept' segments requests := by
  cases t with
  | submitTransaction p phase =>
    obtain ⟨htried, hsegments, hrequests, hkept⟩ := h
    exact ⟨htried, hsegments, hrequests, by omega⟩
  | checkTransactions phase => exact h
  | getPhoneNumberSignature phase =>
    obtain ⟨htried, hsegments, hrequests, hkept⟩ := h
    exact ⟨htried, hsegments, hrequests, by omega⟩

/-- A segment of one task is paid for by that task. -/
lemma segment_costs {i : ι} {e : Event P} {s : Shared P ι} {t : Task P} {r : Shared P ι × Task P}
    {segments : ℕ} {requests : List (Request P ι)} (h : segment cfg policy i e s t = some r)
    (ht : t.Costs (s.node.kept i) segments requests)
    (hs : s.service.watchedTransactions.Nodup) :
    r.2.Costs (r.1.node.kept i) (segments + 1) (requests ++ (Task.leaves i s t e).toList) ∧
      ∀ j ≠ i, r.1.node.kept j ≤ s.node.kept j := by
  unfold segment at h
  split at h
  · split at h
    · obtain ⟨q, hq, rfl⟩ := Option.map_eq_some_iff.mp h
      obtain ⟨htried, hsegments, hrequests, hkept⟩ := ht
      obtain ⟨htried', hleft, hbudget, hwaiting, hother⟩ :=
        submitStep_cost (submitTransaction_step hq) htried
      refine ⟨⟨htried', by omega, ?_, ?_⟩, hother⟩
      all_goals
        simp only [List.length_append]
        omega
    · cases h
  · split at h
    · obtain ⟨q, hq, rfl⟩ := Option.map_eq_some_iff.mp h
      obtain ⟨htried, horigins, hrequests⟩ := ht
      obtain ⟨htried', horigin, hbudget⟩ :=
        checkStep_cost (i := i) (checkTransactions_step hq) htried hs
      refine ⟨⟨htried', fun r hr => ?_, fun hash => ?_⟩, fun j _ =>
        checkStep_kept (checkTransactions_step hq) j⟩
      · rcases List.mem_append.mp hr with hr | hr
        · exact horigins r hr
        · exact horigin r (Option.mem_toList.mp hr)
      · have hhash := hrequests hash
        have hnew := hbudget hash
        rw [List.countP_append]
        omega
    · cases h
  · split at h
    · obtain ⟨q, hq, rfl⟩ := Option.map_eq_some_iff.mp h
      obtain ⟨htried, hsegments, hrequests, hkept⟩ := ht
      obtain ⟨htried', hleft, hbudget, hkept', hother⟩ := odis_cost hq htried
      refine ⟨⟨htried', by omega, ?_, ?_⟩, hother⟩
      all_goals
        simp only [List.length_append]
        omega
    · cases h

lemma world_kept_le {e : Event P} {s s' : Shared P ι} (h : world cfg policy e s = some s') (j : ι) :
    s'.node.kept j ≤ s.node.kept j := by
  unfold world at h
  split at h
  · obtain ⟨node, hn, rfl⟩ := Option.map_eq_some_iff.mp h
    obtain ⟨-, -, rfl⟩ := Node.mine_eq_some hn
    exact le_refl _
  · unfold arrive at h
    split at h
    · cases h
    · split_ifs at h
      cases h
      exact kept_arrive_le ‹_› _ j
  · cases h
    exact le_refl _
  · cases h
    exact le_refl _
  · cases h

/-- Every task has been paid for, and no transaction is watched twice. -/
structure Accounted (c : Config (Shared P ι) ι (Task P)) (spent : Spent P ι) : Prop where
  nodup : c.shared.service.watchedTransactions.Nodup
  costs : ∀ i, (c.task i).Costs (c.shared.node.kept i) (spent.segments i) (spent.requests i)

lemma Accounted.step {l : Label ι (Event P)} {spent : Spent P ι} (hc : Accounted c spent)
    (h : (machine cfg policy).step c l = some d) : Accounted d (spend c l spent) := by
  refine ⟨step_nodup (step_cases h) hc.nodup, ?_⟩
  obtain ⟨i, e, r, rfl, hr, rfl⟩ | ⟨e, rfl, he⟩ := Machine.step_cases h
  · obtain ⟨hself, hothers⟩ := segment_costs hr (hc.costs i) hc.nodup
    intro j
    by_cases hj : j = i
    · subst hj
      simpa [spend] using hself
    · simpa [spend, hj] using (hc.costs j).mono (hothers j hj)
  · obtain ⟨s, hs, rfl⟩ := Option.map_eq_some_iff.mp he
    exact fun i => (hc.costs i).mono (world_kept_le hs i)

lemma Initial.accounted (h : Initial cfg c) : Accounted c .nothing := by
  refine ⟨?_, fun i => ?_⟩
  · obtain ⟨raw, pending, hservice, -⟩ := h.service
    rw [hservice, onModuleInit]
    exact watchAll_keeps (J := fun s => s.watchedTransactions.Nodup) (fun _ _ _ hs => hs.insert)
      (by simp)
  · have hkept : c.shared.node.kept i = 0 := by
      rw [Node.kept, h.limbo, List.append_nil, List.countP_eq_zero]
      intro r hr
      simp [h.origin r hr, Origin.caller]
    have hfresh := h.task i
    rw [hkept]
    unfold Task.fresh at hfresh
    split at hfresh
    all_goals
      simp [Task.Costs, Spent.nothing, *, SubmitPhase.Tried, SubmitPhase.budget, SubmitPhase.left,
        SubmitPhase.waiting, CheckPhase.Tried, CheckPhase.budget, OdisPhase.Tried,
        OdisPhase.budget, OdisPhase.left]

/-- In every run a call of `submitTransaction` takes at most eighteen segments and makes at most
three requests, and a call of `getPhoneNumberSignature` at most six and two, whether the node
accepts them, refuses them or never gets them. What a pass makes are dead letters, at most six for
each transaction. -/
theorem calls_bounded {spent : Spent P ι} (hc : Initial cfg c)
    (hrun : Traced (machine cfg policy) spend (fun _ _ _ => True) c .nothing d spent) (i : ι) :
    match d.task i with
    | .submitTransaction _ _ => spent.segments i ≤ 18 ∧ (spent.requests i).length ≤ 3 ∧
      d.shared.node.kept i ≤ (spent.requests i).length
    | .checkTransactions _ => (∀ r ∈ spent.requests i, ∃ hash, r.origin = .deadLetter hash) ∧
      ∀ hash, (spent.requests i).countP (fun r => r.origin = .deadLetter hash) ≤ 6
    | .getPhoneNumberSignature _ => spent.segments i ≤ 6 ∧ (spent.requests i).length ≤ 2 ∧
      d.shared.node.kept i ≤ (spent.requests i).length := by
  have hcosts := (hrun.invariant (J := Accounted) (fun _ _ _ _ hc _ hs => hc.step hs)
    hc.accounted).costs i
  cases htask : d.task i with
  | submitTransaction p phase =>
    rw [htask] at hcosts
    obtain ⟨-, hsegments, hrequests, hkept⟩ := hcosts
    exact ⟨by omega, by omega, by omega⟩
  | checkTransactions phase =>
    rw [htask] at hcosts
    obtain ⟨-, horigin, hrequests⟩ := hcosts
    exact ⟨horigin, fun hash => (Nat.le_add_right _ _).trans (hrequests hash)⟩
  | getPhoneNumberSignature phase =>
    rw [htask] at hcosts
    obtain ⟨-, hsegments, hrequests, hkept⟩ := hcosts
    exact ⟨by omega, by omega, hkept⟩

section Samples

/-- The first of three tries is lost and arrives late, so that the node refuses the others, which
send the same transaction again. -/
theorem calls_bounded_refused :
    ∃ r : Config (Shared ℕ ℕ) ℕ (Task ℕ) × Spent ℕ ℕ,
      Traced (machine sampleConfig (Policy.standard : Policy ℕ ℕ)) spend
        (fun _ _ _ => True) sample .nothing r.1 r.2 ∧
      r.1.task 0 = .submitTransaction 0 (.finished none) ∧ r.2.segments 0 = 9 ∧
      r.1.shared.node.kept 0 = 1 ∧ (r.2.requests 0).length = 3 ∧ (r.2.requests 0).length ≤ 3 := by
  obtain ⟨r, hrun, htask, hsegments, hkept, hrequests⟩ := Traced.exists_of_trace
    (M := machine sampleConfig (Policy.standard : Policy ℕ ℕ)) (f := spend)
    (P := fun _ _ _ => True) (c := sample) (h := .nothing)
    (q := fun r => r.1.task 0 = .submitTransaction 0 (.finished none) ∧ r.2.segments 0 = 9 ∧
      r.1.shared.node.kept 0 = 1 ∧ (r.2.requests 0).length = 3)
    (submits 0 [.resume, .lost] ++ [.env (.arrive 0 .accept)] ++
      submits 0 [.resume, .resume, .answer (.reject .other), .resume, .resume,
        .answer (.reject .other), .resume])
    (by decide +kernel)
  have hbounded := calls_bounded sample_initial hrun 0
  rw [htask] at hbounded
  exact ⟨r, hrun, htask, hsegments, hkept, hrequests, hbounded.2.1⟩

end Samples

end Machine

end Komenci.Relayer
