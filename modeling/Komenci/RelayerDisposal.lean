import Komenci.RelayerLedger
import Komenci.RelayerWatch

/-! Each watched transaction is disposed of once, by an accepted dead letter or by
`TxConfirmed`, as long as passes do not overlap, no item is both under-priced and
expired, and no dead letter arrives that was given up. -/
namespace Komenci.Relayer
open Interleaving

variable {P ι : Type} {cfg : AppConfig} {policy : Policy P ι}

def Letter.todo (l : Letter P) : List (Tx P) :=
  match l.phase with
  | .replied _ _ _ .accept => []
  | .finished => []
  | .thrown => []
  | _ => [l.txs.hash]

def Letter.owned (l : Letter P) : List (Request P ι) :=
  match l.phase with
  | .replied _ _ tx .accept => [⟨tx, .deadLetter l.txs.hash⟩]
  | _ => []

def View.idle : View P ι := ⟨[], [], False⟩

/-- What a pass shows that is busy with letters, with more to deal with after them. -/
def View.letters (ls : List (Letter P)) (rest : List (TxSummary P)) : View P ι :=
  ⟨ls.flatMap Letter.owned, ls.flatMap Letter.todo ++ rest.map TxSummary.hash, True⟩

def CheckPhase.view : CheckPhase P → View P ι
  | .start => .idle
  | .getTxSummaries watched => ⟨[], watched.map Prod.fst, True⟩
  | .logBalance txs _ => .letters [] txs
  | .gasTooLow ls exp compl => .letters ls (exp ++ compl)
  | .expired ls compl => .letters ls compl
  | .withReceipts compl => .letters [] compl
  | .finished => .idle

def SubmitPhase.view (i : ι) : SubmitPhase P → View P ι
  | .replied _ tx .accept => ⟨[⟨tx, .submit i⟩], [], False⟩
  | .watch tx _ => ⟨[⟨tx, .submit i⟩], [], False⟩
  | _ => .idle

def Task.view (i : ι) : Task P → View P ι
  | .submitTransaction _ phase => phase.view i
  | .checkTransactions phase => phase.view
  | .getPhoneNumberSignature _ => .idle

lemma nextSubmit_view (i : ι) (tries : ℕ) (error : NodeError) :
    (nextSubmit tries error : SubmitPhase P).view i = .idle := by
  rcases nextSubmit_cases (P := P) tries error with ⟨t, ht⟩ | ht
  all_goals
    rw [ht]
    rfl

lemma nextLetter_view (txs : TxSummary P) (tries : ℕ) (error : NodeError) :
    ((⟨txs, nextLetter tries error⟩ : Letter P).owned : List (Request P ι)) = [] ∧
      (⟨txs, nextLetter tries error⟩ : Letter P).todo.Sublist [txs.hash] := by
  rcases nextLetter_cases (P := P) tries error with ⟨t, ht⟩ | ht
  all_goals
    rw [ht]
    simp [Letter.owned, Letter.todo]

/-- `deadLetter` gives up when the nonce is too low. -/
lemma nextLetter_nonceTooLow (tries : ℕ) :
    (nextLetter tries .nonceTooLow : LetterPhase P) = .finished := by
  simp [nextLetter, Retry.RetryOptions.again, deadLetterRetry]

lemma view_letters (txs : List (TxSummary P)) (rest : List (TxSummary P)) :
    (.letters (letters txs) rest : View P ι) = .letters [] (txs ++ rest) := by
  have hmap : ∀ ts : List (TxSummary P), ((letters ts).flatMap Letter.owned : List (Request P ι)) = [] ∧
      (letters ts).flatMap Letter.todo = ts.map TxSummary.hash := by
    intro ts
    induction ts with
    | nil => exact ⟨rfl, rfl⟩
    | cons t ts ih =>
      simp only [letters] at ih
      simp [letters, Letter.owned, Letter.todo, ih]
  simp [View.letters, hmap]

variable [DecidableEq P]

/-- Letters that have all ended leave only what comes after them. -/
lemma view_settled {ls : List (Letter P)} (h : ls.all Letter.settled = true)
    (rest : List (TxSummary P)) : (.letters ls rest : View P ι) = .letters [] rest := by
  have hnil : ∀ l ∈ ls, (l.owned : List (Request P ι)) = [] ∧ l.todo = [] := by
    intro l hl
    have hs := List.all_eq_true.mp h l hl
    simp only [Letter.settled, Bool.or_eq_true, decide_eq_true_eq] at hs
    rcases hs with hs | hs
    all_goals simp [Letter.owned, Letter.todo, hs]
  have howned : (ls.flatMap Letter.owned : List (Request P ι)) = [] :=
    List.flatMap_eq_nil_iff.mpr fun l hl => (hnil l hl).1
  have htodo : ls.flatMap Letter.todo = [] := List.flatMap_eq_nil_iff.mpr fun l hl => (hnil l hl).2
  simp [View.letters, howned, htodo]

section Steps
variable [DecidableEq ι] {s s' : Shared P ι} {v : ι → View P ι} {i : ι}

/-- A letter goes on without an accepted dead letter. -/
lemma Ledger.letter_goes_on {l m : Letter P} {pre post : List (Letter P)}
    {rest : List (TxSummary P)} (hl : Ledger s v) (hv : v i = .letters (pre ++ l :: post) rest)
    (ho : (m.owned : List (Request P ι)) = l.owned) (ht : m.todo.Sublist l.todo) :
    Ledger s (Function.update v i (.letters (pre ++ m :: post) rest)) := by
  refine hl.weaken ?_ ?_ (fun _ => hv ▸ trivial) fun _ => trivial
  · simp [hv, View.letters, ho]
  · simp only [hv, View.letters, List.flatMap_append, List.flatMap_cons]
    exact (((List.Sublist.refl _).append (ht.append_right _)).append_right _).subperm

lemma letterStep_ledger (hpolicy : ∀ n t, policy.answers n t .accept = true → ¬ n.Holds t)
    {txs : TxSummary P} {phase phase' : LetterPhase P} {e : LetterEvent}
    {pre post : List (Letter P)} {rest : List (TxSummary P)} (hl : Ledger s v)
    (hv : v i = .letters (pre ++ ⟨txs, phase⟩ :: post) rest)
    (h : LetterStep cfg policy s txs phase e s' phase') :
    Ledger s' (Function.update v i (.letters (pre ++ ⟨txs, phase'⟩ :: post) rest)) := by
  cases h with
  | throw _ => exact hl.letter_goes_on hv rfl (by simp [Letter.todo])
  | start _ => exact hl.letter_goes_on hv rfl (by simp [Letter.todo])
  | @answered tries g tx a ha =>
    cases a with
    | accept =>
      refine hl.accept_letter (h := txs.hash) ?_ ?_ trivial (hpolicy _ _ ha) rfl rfl rfl
      · simp [hv, View.letters, Letter.todo]
      · simp [hv, View.letters, Letter.owned]
    | reject _ =>
      exact (hl.congr rfl (fun _ => rfl) rfl).letter_goes_on hv rfl (by simp [Letter.todo])
  | @lost tries g tx =>
    have hl' : Ledger (s.lose ⟨tx, .deadLetter txs.hash⟩) v := hl.congr rfl (fun _ => rfl) rfl
    exact hl'.letter_goes_on hv rfl (by simp [Letter.todo])
  | @sent tries g tx d hd =>
    have ho : (v i).owned.Perm (⟨tx, .deadLetter txs.hash⟩ ::
        (.letters (pre ++ ⟨txs, .finished⟩ :: post) rest : View P ι).owned) := by
      simp [hv, View.letters, Letter.owned]
    refine hl.watch ho (hl.not_owned_twice ho (by simp)) ?_ (fun _ => hv ▸ trivial)
      (fun _ => trivial) rfl (fun _ => by simp [List.count_append]) ?_ fun g => ?_
    · simp [hv, View.letters, Letter.todo]
    · exact (hl.nodup.filter _).insert
    · simp [Service.watchTransaction, Service.unwatchTransaction, @eq_comm _ txs.hash g]
  | @tooLow tries g tx =>
    rw [nextLetter_nonceTooLow]
    refine hl.unwatch (h := txs.hash) ?_ ?_ (fun _ => hv ▸ trivial) (fun _ => trivial) rfl
      (fun _ => .inl rfl) (fun g => ?_) (hl.nodup.filter _)
    · simp [hv, View.letters, Letter.todo]
    · simp [hv, View.letters, Letter.owned]
    · simp [Service.unwatchTransaction]
  | priced => exact hl.letter_goes_on hv rfl (by simp [Letter.todo])
  | failed =>
    obtain ⟨ho, ht⟩ := @nextLetter_view P ι txs _ .other
    exact hl.letter_goes_on hv ho ht
  | @gasPrice tries raw =>
    obtain ⟨ho, ht⟩ := @nextLetter_view P ι txs tries .gasPriceBelowMinimum
    have hl' : Ledger (s.updateGasPrice cfg raw) v :=
      hl.congr rfl (fun _ => rfl) (by simp [Shared.updateGasPrice])
    exact hl'.letter_goes_on hv ho ht

/-- A step that the ledger does not see. -/
lemma Ledger.same (hl : Ledger s v) {w : View P ι} (h : w = v i)
    (ha : s'.node.accepted = s.node.accepted)
    (hlog : ∀ h, s'.log.count (.TxConfirmed h) = s.log.count (.TxConfirmed h))
    (hwatch : s'.service.watchedTransactions = s.service.watchedTransactions) :
    Ledger s' (Function.update v i w) := by
  rw [h, Function.update_eq_self]
  exact hl.congr ha hlog hwatch

lemma Ledger.idle (hl : Ledger s v) (ho : (v i).owned = []) :
    Ledger s (Function.update v i .idle) :=
  hl.weaken (by simp [View.idle, ho]) (List.nil_subperm) False.elim
    (by simp [View.idle, View.replaced])

lemma submitStep_ledger (hpolicy : ∀ n t, policy.answers n t .accept = true → ¬ n.Holds t)
    {p : P} {phase phase' : SubmitPhase P} {e : SubmitEvent} (hl : Ledger s v)
    (hv : v i = phase.view i) (h : SubmitStep cfg policy i p s phase e s' phase') :
    Ledger s' (Function.update v i (phase'.view i)) := by
  cases h with
  | @answered tries tx a ha =>
    cases a with
    | accept =>
      have ho : (v i).owned = [] := by simp [hv, SubmitPhase.view, View.idle]
      exact hl.accept_submit ho (hpolicy _ _ ha) rfl rfl rfl
    | reject _ => exact hl.same hv.symm rfl (fun _ => rfl) rfl
  | @watch tx nonce =>
    refine hl.watch (r := ⟨tx, .submit i⟩) ?_ ?_ ?_ False.elim ?_ rfl
      (fun _ => by simp [List.count_append]) hl.nodup.insert fun g => ?_
    · simp [hv, SubmitPhase.view, View.idle]
    · simp [SubmitPhase.view, View.idle]
    · simp [hv, SubmitPhase.view, View.idle]
    · simp [SubmitPhase.view, View.idle, View.replaced]
    · simp [Service.watchTransaction]
  | failed => exact hl.same ((nextSubmit_view i _ _).trans hv.symm) rfl (fun _ => rfl) rfl
  | refreshed => exact hl.same ((nextSubmit_view i _ _).trans hv.symm) rfl (fun _ => rfl) rfl
  | gasPrice =>
    exact hl.same ((nextSubmit_view i _ _).trans hv.symm) rfl (fun _ => rfl)
      (by simp [Shared.updateGasPrice])
  | _ => exact hl.same hv.symm rfl (fun _ => rfl) rfl

lemma odisStep_ledger (hpolicy : ∀ n t, policy.answers n t .accept = true → ¬ n.Holds t)
    {phase phase' : OdisPhase P} {e : OdisEvent} (hl : Ledger s v)
    (h : OdisStep policy i s phase e s' phase') : Ledger s' v := by
  cases h with
  | quiet _ => exact hl
  | @answered tries g a ha =>
    cases a with
    | accept => exact hl.accept rfl (hpolicy _ _ ha) rfl rfl rfl
    | reject _ => exact hl.congr rfl (fun _ => rfl) rfl
  | lost => exact hl.congr rfl (fun _ => rfl) rfl

/-- The pass ends by confirming what has a receipt. -/
lemma finalizeAll_ledger (hl : Ledger s v) (completed : List (TxSummary P × Bool))
    (hv : v i = .letters [] (completed.map Prod.fst)) :
    Ledger (finalizeAll s completed) (Function.update v i .idle) := by
  induction completed generalizing s v with
  | nil => exact hl.idle (by simp [hv, View.letters])
  | cons c completed ih =>
    have hnext : Ledger (finalizeTransaction s c.1 c.2)
        (Function.update v i (.letters [] (completed.map Prod.fst))) := by
      unfold finalizeTransaction
      split_ifs
      · refine hl.unwatch (h := c.1.hash) ?_ ?_ (fun _ => hv ▸ trivial) (fun _ => trivial) rfl
          (fun g => ?_) (fun g => ?_) (hl.nodup.filter _)
        · simp [hv, View.letters]
        · simp [hv, View.letters]
        · by_cases hg : g = c.1.hash
          · exact .inr ⟨hg, by simp [disposals, hg, Nat.add_assoc]⟩
          · exact .inl (by simp [disposals, List.count_append, Ne.symm hg])
        · simp [Service.unwatchTransaction]
      · refine hl.weaken (by simp [hv, View.letters]) ?_ (fun _ => hv ▸ trivial) fun _ => trivial
        simpa [hv, View.letters] using (List.sublist_cons_self _ _).subperm
    rw [finalizeAll, List.foldl_cons, ← finalizeAll]
    have hrest := ih hnext (by simp)
    rwa [Function.update_idem] at hrest

/-- What a pass takes for under-priced it has seen outside of any block. -/
def CheckPhase.Sorted : CheckPhase P → Prop
  | .logBalance txs low => low.Sublist txs ∧ ∀ t ∈ low, isCompleted t = false
  | _ => True

omit [DecidableEq P] [DecidableEq ι] in
lemma not_completed_of_low {g : ℚ} {t : TxSummary P} (h : hasGasTooLow g t = true) :
    isCompleted t = false := by
  unfold hasGasTooLow at h
  split at h <;> simp_all [isCompleted]

omit [DecidableEq P] [DecidableEq ι] in
lemma not_expired_of_completed {now : ℕ} {t : TxSummary P} (h : isCompleted t = true) :
    isExpired now t = false := by
  have ht : t.tx = .included := by simpa [isCompleted] using h
  simp [isExpired, ht]

omit [DecidableEq P] [DecidableEq ι] in
/-- The three lists of a pass share nothing, unless an item is both under-priced and
expired. -/
lemma filtered_subperm {now : ℕ} {txs low : List (TxSummary P)} (hnd : txs.Nodup)
    (hs : (CheckPhase.logBalance txs low).Sorted) (hlow : ∀ t ∈ low, isExpired now t = false) :
    (low ++ (txs.filter (isExpired now) ++ txs.filter isCompleted)).Subperm txs := by
  obtain ⟨hsub, hpend⟩ := hs
  refine List.subperm_of_subset ?_ ?_
  · refine List.nodup_append.mpr ⟨hnd.sublist hsub, List.nodup_append.mpr
      ⟨hnd.filter _, hnd.filter _, ?_⟩, ?_⟩
    · rintro t ht u hu rfl
      have hcompl : isExpired now t = false := not_expired_of_completed (List.mem_filter.mp hu).2
      simp [(List.mem_filter.mp ht).2] at hcompl
    · rintro t ht u hu rfl
      rcases List.mem_append.mp hu with hu | hu
      · simp [hlow t ht] at hu
      · simp [hpend t ht] at hu
  · refine List.append_subset.mpr ⟨hsub.subset, List.append_subset.mpr ⟨?_, ?_⟩⟩
    all_goals exact List.filter_subset_self _

lemma checkStep_ledger (hpolicy : ∀ n t, policy.answers n t .accept = true → ¬ n.Holds t)
    {phase phase' : CheckPhase P} {e : CheckEvent} (hl : Ledger s v) (hv : v i = phase.view)
    (hstart : phase = .start → ∀ j, ¬ (v j).active)
    (hlow : ∀ txs low, phase = .logBalance txs low → e = .resume →
      ∀ t ∈ low, isExpired s.clock t = false)
    (hsorted : phase.Sorted) (h : CheckStep cfg policy s phase e s' phase') :
    Ledger s' (Function.update v i phase'.view) := by
  have hidle : (v i).owned = [] → Ledger s (Function.update v i .idle) := fun ho => hl.idle ho
  cases h with
  | start =>
    have hnext := hl.start (i := i) (by simp [hv, CheckPhase.view, View.idle]) (hstart rfl)
    simpa [CheckPhase.view, Function.comp_def] using hnext
  | @summaries watched answers ht =>
    refine hl.same ?_ rfl (fun _ => rfl) rfl
    have hmap : (summaries watched answers).map TxSummary.hash = watched.map Prod.fst :=
      summaries_hash (by simpa using ht.1)
    simp [hv, CheckPhase.view, View.letters, hmap]
  | @filtered txs low =>
    have hnd : (txs.map TxSummary.hash).Nodup := by
      have h := (hl.view i).nodup.of_append_left
      simpa [hv, CheckPhase.view, View.letters] using h
    obtain ⟨u, hu, hus⟩ := filtered_subperm hnd.of_map hsorted (hlow txs low rfl rfl)
    simp only [CheckPhase.view, view_letters]
    refine hl.weaken (by simp [hv, CheckPhase.view, View.letters]) ?_
      (fun _ => hv ▸ trivial) fun _ => trivial
    refine ⟨u.map TxSummary.hash, ?_, ?_⟩
    · simpa [View.letters] using hu.map TxSummary.hash
    · simpa [hv, CheckPhase.view, View.letters] using hus.map TxSummary.hash
  | lowLetter hk hls | expiredLetter hk hls =>
    obtain ⟨pre, post, hold, hnew⟩ := exists_split_set hk ⟨_, _⟩
    rw [CheckPhase.view, hnew]
    exact letterStep_ledger hpolicy hl (by rw [hv, CheckPhase.view, hold]) hls
  | lowSettled hset =>
    split_ifs
    · exact hidle (by rw [hv, CheckPhase.view, view_settled hset]; rfl)
    · refine hl.same ?_ rfl (fun _ => rfl) rfl
      simp only [hv, CheckPhase.view, view_settled hset, view_letters]
  | expiredSettled hset =>
    split_ifs
    · exact hidle (by rw [hv, CheckPhase.view, view_settled hset]; rfl)
    · refine hl.same ?_ rfl (fun _ => rfl) rfl
      simp only [hv, CheckPhase.view, view_settled hset]
  | @receipts compl found ht =>
    have hlen : compl.length ≤ found.length := by simpa using ht.1.le
    exact finalizeAll_ledger hl _ (by rw [hv, CheckPhase.view, List.map_fst_zip hlen])
  | _ => exact hidle (by simp [hv, CheckPhase.view, View.letters])

omit [DecidableEq ι] in
lemma checkStep_sorted {phase phase' : CheckPhase P} {e : CheckEvent}
    (h : CheckStep cfg policy s phase e s' phase') : phase'.Sorted := by
  cases h with
  | summaries _ =>
    exact ⟨List.filter_sublist, fun t ht => not_completed_of_low (List.mem_filter.mp ht).2⟩
  | lowSettled _ | expiredSettled _ => split_ifs <;> trivial
  | _ => trivial

end Steps

/-- The task is a pass under way. -/
def Task.passing : Task P → Bool
  | .checkTransactions .start => false
  | .checkTransactions .finished => false
  | .checkTransactions _ => true
  | _ => false

/-- A pass starts while no other is under way and finds nothing both under-priced and
expired, and the node accepts no dead letter that was given up. -/
def KeepsApart (c : Config (Shared P ι) ι (Task P)) : Label ι (Event P) → Prop
  | .task i (.check .resume) =>
    match c.task i with
    | .checkTransactions .start => ∀ j, (c.task j).passing = false
    | .checkTransactions (.logBalance _ low) => ∀ t ∈ low, isExpired c.shared.clock t = false
    | _ => True
  | .env (.arrive k .accept) => ∀ r ∈ c.shared.node.limbo[k]?, r.replaces = none
  | _ => True

instance [Fintype ι] (c : Config (Shared P ι) ι (Task P)) (l : Label ι (Event P)) :
    Decidable (KeepsApart c l) := by
  unfold KeepsApart
  induction l using Label.casesOn with
  | env e =>
    induction e using Event.casesOn with
    | arrive k a => induction a using Answer.casesOn <;> infer_instance
    | _ => infer_instance
  | task i e =>
    induction e using Event.casesOn with
    | check e =>
      induction e using CheckEvent.casesOn with
      | resume =>
        dsimp only
        generalize c.task i = t
        induction t using Task.casesOn with
        | checkTransactions phase => induction phase using CheckPhase.casesOn <;> infer_instance
        | _ => infer_instance
      | _ => infer_instance
    | _ => infer_instance

variable {c d : Config (Shared P ι) ι (Task P)} {l : Label ι (Event P)}

/-- What the tasks show the ledger. -/
def views (c : Config (Shared P ι) ι (Task P)) (i : ι) : View P ι := (c.task i).view i

omit [DecidableEq P] in
lemma not_active_of_not_passing {i : ι} (h : (c.task i).passing = false) :
    ¬ (views c i).active := by
  unfold views
  cases ht : c.task i with
  | submitTransaction p phase =>
    cases phase with
    | replied tries tx a => cases a <;> exact id
    | _ => exact id
  | checkTransactions phase =>
    rw [ht] at h
    cases phase with
    | start | finished => exact id
    | _ => simp [Task.passing] at h
  | getPhoneNumberSignature phase => exact id

structure Apart [DecidableEq ι] (c : Config (Shared P ι) ι (Task P)) : Prop where
  ledger : Ledger c.shared (views c)
  sorted : ∀ i phase, c.task i = .checkTransactions phase → phase.Sorted

section Machine
variable [DecidableEq ι]

omit [DecidableEq P] in
lemma views_resume (i : ι) (s : Shared P ι) (t : Task P) :
    views (c.resume i (s, t)) = Function.update (views c) i (t.view i) := by
  funext j
  by_cases hj : j = i
  · subst hj
    simp [views]
  · simp [views, hj]

omit [DecidableEq P] in
lemma sorted_resume (hs : ∀ i phase, c.task i = .checkTransactions phase → phase.Sorted) {i : ι}
    {s : Shared P ι} {t : Task P} (ht : ∀ phase, t = .checkTransactions phase → phase.Sorted) :
    ∀ j phase, (c.resume i (s, t)).task j = .checkTransactions phase → phase.Sorted :=
  Config.forall_resume (Q := fun _ (task : Task P) => ∀ phase, task = .checkTransactions phase →
    phase.Sorted) ht fun j _ => hs j

theorem Apart.step (hpolicy : ∀ n t, policy.answers n t .accept = true → ¬ n.Holds t)
    (hc : Apart c) (hp : KeepsApart c l) (h : Step cfg policy c l d) : Apart d := by
  obtain ⟨hl, hsorted⟩ := hc
  cases h with
  | @submit i p phase e s phase' hi hs =>
    refine ⟨?_, sorted_resume hsorted fun _ ht => by cases ht⟩
    rw [views_resume]
    exact submitStep_ledger hpolicy hl (by simp [views, hi, Task.view]) hs
  | @check i phase e s phase' hi hs =>
    refine ⟨?_, sorted_resume hsorted fun _ ht => ?_⟩
    · rw [views_resume]
      refine checkStep_ledger hpolicy hl (by simp [views, hi, Task.view]) ?_ ?_
        (hsorted i phase hi) hs
      · rintro rfl j
        cases hs
        simp only [KeepsApart, hi] at hp
        exact not_active_of_not_passing (hp j)
      · rintro txs low rfl rfl
        simpa only [KeepsApart, hi] using hp
    · cases ht
      exact checkStep_sorted hs
  | @odis i phase e s phase' hi hs =>
    refine ⟨?_, sorted_resume hsorted fun _ ht => by cases ht⟩
    rw [views_resume]
    exact (odisStep_ledger hpolicy hl hs).same (by simp [views, hi, Task.view]) rfl (fun _ => rfl)
      rfl
  | mine hm =>
    obtain ⟨-, -, rfl⟩ := Node.mine_eq_some hm
    exact ⟨hl.congr rfl (fun _ => rfl) rfl, hsorted⟩
  | @arrive k a r hr ha =>
    refine ⟨?_, hsorted⟩
    cases a with
    | accept =>
      have hrep : r.replaces = none := hp r hr
      exact hl.accept hrep (hpolicy _ _ ha) rfl rfl rfl
    | reject _ => exact hl.congr rfl (fun _ => rfl) rfl
  | gasPrice =>
    exact ⟨hl.congr rfl (fun _ => rfl) (by simp [Shared.updateGasPrice]), hsorted⟩
  | tick => exact ⟨hl.congr rfl (fun _ => rfl) rfl, hsorted⟩

lemma Initial.disposals (h : Initial cfg c) (t : Tx P) : disposals c.shared t = 0 := by
  have hnone : c.shared.node.accepted.countP (fun r => r.origin = .deadLetter t) = 0 := by
    refine List.countP_eq_zero.mpr fun r hr => ?_
    simp [h.origin r hr]
  simp [Relayer.disposals, hnone, h.log]

omit [DecidableEq ι] in
lemma Initial.idle (h : Initial cfg c) (i : ι) : views c i = .idle := by
  have hf := h.task i
  unfold views
  cases ht : c.task i with
  | submitTransaction p phase | checkTransactions phase =>
    rw [ht, Task.fresh] at hf
    exact hf ▸ rfl
  | getPhoneNumberSignature phase => rfl

lemma Initial.apart (h : Initial cfg c) : Apart c := by
  have hwatched : ∀ t ∈ c.shared.service.watchedTransactions, c.shared.node.Holds t := by
    intro t ht
    obtain ⟨d, hd⟩ := Option.isSome_iff_exists.mp ((h.cacheInv.watched t).mp ht)
    exact (h.cacheInv.right t d hd).2
  refine ⟨⟨?_, fun t ht => absurd (h.disposals t) ht, fun t => by simp [h.disposals t], ?_,
    hwatched, fun t _ => .inl (h.disposals t), fun i => ?_, fun i j hi => ?_⟩, fun i phase hi => ?_⟩
  · exact List.pairwise_map.mpr (h.distinct.imp fun hne heq => hne (congrArg Tx.nonce heq))
  · obtain ⟨raw, pending, hservice, -⟩ := h.service
    rw [hservice, onModuleInit]
    exact watchAll_keeps (J := fun s => s.watchedTransactions.Nodup)
      (fun _ _ _ hs => hs.insert) (by simp)
  · rw [h.idle i]
    exact ⟨by simp [View.idle], by simp [View.idle, View.replaced],
      by simp [View.idle, View.replaced]⟩
  · rw [h.idle i] at hi
    exact hi.elim
  · have hf := h.task i
    rw [hi, Task.fresh] at hf
    exact hf ▸ trivial

end Machine

end Komenci.Relayer
