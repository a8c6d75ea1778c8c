import Komenci.KitSubmit

/-! A call that returns a revert was not executed, in a run where the service makes no
transaction of a call that is following another one. It makes none where no reply and no
receipt is lost, and then no try reads the nonce too late either. -/
namespace Komenci.Kit
open Interleaving

variable {ι : Type} {options : KomenciOptions} {call : ι → Call}
  {c d : Config (Shared ι) ι Phase} {l : Label ι Event} {s s' : Shared ι} {i : ι}

/-- The service has made the transaction of a request of the call. -/
def MadeFor (s : Shared ι) (i : ι) (txHash : ℕ) : Prop :=
  ∃ request signed, s.submitted txHash = some request ∧ s.posted[request]? = some signed ∧
    signed.call = i

def Reverted (s : Shared ι) (txHash : ℕ) : Prop := s.receipts txHash = some false

/-- The call follows no other transaction and has not returned a revert; and if it waits for
the reply to this request, what was made of it before has reverted. -/
def Alone (s : Shared ι) (i : ι) (request : ℕ) : Phase → Prop
  | .response _ _ _ awaited => (∀ txHash, s.submitted txHash ≠ some awaited) ∧
      (awaited = request → ∀ txHash, MadeFor s i txHash → Reverted s txHash)
  | .waitForReceipt _ _ _ => False
  | .resolved (some .Revert) => False
  | _ => True

/-- The service makes a transaction of a request only when it is alone. -/
def SubmitsAlone (c : Config (Shared ι) ι Phase) : Label ι Event → Prop
  | .env (.submit request _) => ∀ signed, c.shared.posted[request]? = some signed →
      Alone c.shared signed.call request (c.task signed.call)
  | _ => True

/-- What was made of the call has reverted, except for the transaction. -/
def OthersReverted (s : Shared ι) (i : ι) (txHash : ℕ) : Prop :=
  ∀ t, MadeFor s i t → t ≠ txHash → Reverted s t

/-- Whatever the call hears of is the only transaction of it that may have succeeded. -/
def Followed (s : Shared ι) (i : ι) : Phase → Prop
  | .response _ _ _ request => (∃ signed, s.posted[request]? = some signed ∧ signed.call = i) ∧
      ∀ txHash, s.submitted txHash = some request → OthersReverted s i txHash
  | .waitForReceipt _ txHash _ => OthersReverted s i txHash
  | .resolved (some .Revert) => ∀ txHash, MadeFor s i txHash → Reverted s txHash
  | _ => True

/-- What is executed was executed in a transaction that has a receipt. -/
structure Accounted (s : Shared ι) : Prop where
  submitted : ∀ txHash request, s.submitted txHash = some request → request < s.posted.length
  executed : ∀ i, s.executed i ≠ 0 → ∃ txHash, MadeFor s i txHash ∧ s.receipts txHash = some true

lemma Followed.mono {p : Phase} (h : Followed s i p)
    (hposted : ∀ (request : ℕ) (signed : Signed ι), s.posted[request]? = some signed →
      s'.posted[request]? = some signed)
    (hsubmitted : ∀ (txHash request : ℕ) (signed : Signed ι), s.posted[request]? = some signed →
      signed.call = i → s'.submitted txHash = some request → s.submitted txHash = some request)
    (hmade : ∀ txHash, MadeFor s' i txHash → MadeFor s i txHash)
    (hreverted : ∀ txHash, Reverted s txHash → Reverted s' txHash) : Followed s' i p := by
  cases p with
  | response tries nonce execTries request =>
    obtain ⟨⟨signed, hsigned, hcall⟩, hothers⟩ := h
    refine ⟨⟨signed, hposted _ _ hsigned, hcall⟩, fun txHash htx t ht hne => ?_⟩
    have hold := hsubmitted txHash request signed hsigned hcall htx
    exact hreverted t (hothers txHash hold t (hmade t ht) hne)
  | waitForReceipt tries txHash waited =>
    exact fun t ht hne => hreverted t (h t (hmade t ht) hne)
  | resolved error =>
    rcases error with _ | error
    · trivial
    · cases error with
      | Revert => exact fun t ht => hreverted t (h t (hmade t ht))
      | _ => trivial
  | _ => trivial

lemma followed_resolved {error : Option ErrorType} (h : error ≠ some .Revert) :
    Followed s i (.resolved error) := by
  rcases error with _ | error
  · trivial
  · cases error with
    | Revert => exact absurd rfl h
    | _ => trivial

lemma followed_tryOnce (call : Call) (tries : ℕ) : Followed s i (tryOnce call tries) := by
  unfold tryOnce
  split <;> trivial

section Post
variable {signed : Signed ι}

lemma posted_append {request : ℕ} {signed' : Signed ι} (h : s.posted[request]? = some signed') :
    (s.posted ++ [signed])[request]? = some signed' := by
  rw [List.getElem?_append_left (List.getElem?_eq_some_iff.mp h).1]
  exact h

/-- A request that is posted is not one that a transaction was made of. -/
lemma madeFor_append (h : Accounted s) {txHash : ℕ} :
    MadeFor { s with posted := s.posted ++ [signed] } i txHash ↔ MadeFor s i txHash := by
  constructor
  · rintro ⟨request, signed', hsubmitted, hsigned, hcall⟩
    have hlt : request < s.posted.length := h.submitted txHash request hsubmitted
    simp only [List.getElem?_append_left hlt] at hsigned
    exact ⟨request, signed', hsubmitted, hsigned, hcall⟩
  · rintro ⟨request, signed', hsubmitted, hsigned, hcall⟩
    exact ⟨request, signed', hsubmitted, posted_append hsigned, hcall⟩

lemma Accounted.post (h : Accounted s) : Accounted { s with posted := s.posted ++ [signed] } where
  submitted txHash request htx := by
    have hlt : request < s.posted.length := h.submitted txHash request htx
    simp only [List.length_append]
    omega
  executed j hj := by
    obtain ⟨txHash, hmade, hreceipt⟩ := h.executed j hj
    exact ⟨txHash, (madeFor_append h).mpr hmade, hreceipt⟩

lemma Followed.post {p : Phase} (hs : Accounted s) (h : Followed s i p) :
    Followed { s with posted := s.posted ++ [signed] } i p :=
  h.mono (fun _ _ => posted_append) (fun _ _ _ _ _ htx => htx)
    (fun _ => (madeFor_append hs).mp) fun _ ht => ht

end Post

/-- What was known stays where something new is added. -/
lemma update_some {β : Type} {f : ℕ → Option β} {a b : ℕ} {x y : β} (hnone : f a = none)
    (h : f b = some y) : Function.update f a (some x) b = some y := by
  have hne : b ≠ a := by
    rintro rfl
    rw [hnone] at h
    cases h
  rwa [Function.update_of_ne hne]

/-- A transaction that has no receipt yet gets one. -/
lemma Followed.mine {s' : Shared ι} {p : Phase} {txHash : ℕ} {status : Bool}
    (hp : Followed s i p) (hnone : s.receipts txHash = none) (hposted : s'.posted = s.posted)
    (hsubmitted : s'.submitted = s.submitted)
    (hreceipts : s'.receipts = Function.update s.receipts txHash (some status)) :
    Followed s' i p := by
  refine hp.mono (fun _ _ h => hposted ▸ h) (fun _ _ _ _ _ h => hsubmitted ▸ h) ?_ ?_
  · rintro t ⟨request, signed, htx, hsigned, hcall⟩
    exact ⟨request, signed, hsubmitted ▸ htx, hposted ▸ hsigned, hcall⟩
  · intro t ht
    rw [Reverted, hreceipts]
    exact update_some hnone ht

/-- The service makes a transaction of a request. -/
lemma Followed.submit {p : Phase} {request txHash : ℕ} (hp : Followed s i p)
    (halone : ∀ signed, s.posted[request]? = some signed → signed.call = i → Alone s i request p) :
    Followed { s with submitted := Function.update s.submitted txHash (some request) } i p := by
  -- The transaction is new. If it is one of the call, the call is alone.
  have hmade : ∀ {t}, MadeFor { s with
      submitted := Function.update s.submitted txHash (some request) } i t →
      MadeFor s i t ∨ t = txHash ∧ Alone s i request p := by
    rintro t ⟨r, signed, hr, hsigned, hcall⟩
    by_cases ht : t = txHash
    · subst ht
      simp only [Function.update_self, Option.some.injEq] at hr
      subst hr
      exact .inr ⟨rfl, halone signed hsigned hcall⟩
    · simp only [Function.update_of_ne ht] at hr
      exact .inl ⟨r, signed, hr, hsigned, hcall⟩
  cases p with
  | response tries nonce execTries awaited =>
    obtain ⟨⟨signed, hsigned, hcall⟩, hothers⟩ := hp
    refine ⟨⟨signed, hsigned, hcall⟩, fun t ht t' ht' hne => ?_⟩
    dsimp only at ht
    by_cases heq : t = txHash
    · subst heq
      simp only [Function.update_self, Option.some.injEq] at ht
      subst ht
      obtain hold | ⟨rfl, -⟩ := hmade ht'
      · exact (halone signed hsigned hcall).2 rfl t' hold
      · exact absurd rfl hne
    · rw [Function.update_of_ne heq] at ht
      obtain hold | ⟨-, hno, -⟩ := hmade ht'
      · exact hothers t ht t' hold hne
      · exact absurd ht (hno t)
  | waitForReceipt tries followed waited =>
    intro t ht hne
    obtain hold | ⟨-, ⟨⟩⟩ := hmade ht
    exact hp t hold hne
  | resolved error =>
    rcases error with _ | error
    · trivial
    · cases error with
      | Revert =>
        intro t ht
        obtain hold | ⟨-, ⟨⟩⟩ := hmade ht
        exact hp t hold
      | _ => trivial
  | _ => trivial

lemma Accounted.submit {request txHash : ℕ} (hs : Accounted s)
    (hlt : request < s.posted.length) (hnone : s.submitted txHash = none) :
    Accounted { s with submitted := Function.update s.submitted txHash (some request) } where
  submitted t r ht := by
    by_cases heq : t = txHash
    · subst heq
      simp only [Function.update_self, Option.some.injEq] at ht
      exact ht ▸ hlt
    · exact hs.submitted t r (by simpa [heq] using ht)
  executed j hj := by
    obtain ⟨t, ⟨r, signed, ht, hsigned, hcall⟩, hreceipt⟩ := hs.executed j hj
    exact ⟨t, ⟨r, signed, update_some hnone ht, hsigned, hcall⟩, hreceipt⟩

lemma Accounted.revert {txHash : ℕ} (hs : Accounted s) (hnone : s.receipts txHash = none) :
    Accounted { s with receipts := Function.update s.receipts txHash (some false) } where
  submitted := hs.submitted
  executed j hj := by
    obtain ⟨t, hmade, hreceipt⟩ := hs.executed j hj
    exact ⟨t, hmade, update_some hnone hreceipt⟩

/-- A step of a call, and what it follows afterwards. -/
lemma submitStep_followed {p p' : Phase} {e : Event} (hs : Accounted s) (hp : Followed s i p)
    (h : SubmitStep options call i s p e s' p') :
    Accounted s' ∧ Followed s' i p' ∧ ∀ {j q}, Followed s j q → Followed s' j q := by
  cases h with
  | again => exact ⟨hs, followed_tryOnce _ _, id⟩
  | fetch =>
    refine ⟨hs.post, ⟨⟨_, List.getElem?_concat_length, rfl⟩, fun txHash htx => ?_⟩, .post hs⟩
    have hlt := hs.submitted txHash _ htx
    omega
  | heard hsubmitted => exact ⟨hs, hp.2 _ hsubmitted, id⟩
  | wait => exact ⟨hs, hp, id⟩
  | @reverted tries txHash waited hreceipt =>
    refine ⟨hs, fun t ht => ?_, id⟩
    by_cases heq : t = txHash
    · exact heq ▸ hreceipt
    · exact hp t ht heq
  | resolved herror => exact ⟨hs, followed_resolved herror, id⟩
  | nonce | sign | refetch | rejected => exact ⟨hs, trivial, id⟩

variable [DecidableEq ι]

lemma Accounted.execute {txHash request nonce : ℕ} {signed : Signed ι} (hs : Accounted s)
    (hsubmitted : s.submitted txHash = some request) (hsigned : s.posted[request]? = some signed)
    (hnone : s.receipts txHash = none) :
    Accounted { s with
      nonce
      executed := Function.update s.executed signed.call (s.executed signed.call + 1)
      receipts := Function.update s.receipts txHash (some true) } where
  submitted := hs.submitted
  executed j hj := by
    by_cases hcall : signed.call = j
    · exact ⟨txHash, ⟨request, signed, hsubmitted, hsigned, hcall⟩, by simp⟩
    · obtain ⟨t, hmade, hreceipt⟩ := hs.executed j (by simpa [Ne.symm hcall] using hj)
      exact ⟨t, hmade, update_some hnone hreceipt⟩

/-- What each call follows, step by step. -/
def following (options : KomenciOptions) (call : ι → Call) :
    Outline (machine options call) SubmitsAlone where
  inv := Accounted
  at_ i s p := Followed s i p
  task c d i e _ hinv hat h := by
    cases step_cases h with
    | call hi hs =>
      obtain ⟨hinv', hself, hothers⟩ := submitStep_followed hinv (hi ▸ hat i) hs
      exact ⟨hinv', by simpa using hself, fun j _ => hothers (hat j)⟩
  env c d e hp hinv hat h := by
    cases step_cases h with
    | submit hlt hnone =>
      refine ⟨hinv.submit hlt hnone, fun j => (hat j).submit fun signed hsigned hcall => ?_⟩
      exact hcall ▸ hp signed hsigned
    | execute hsubmitted hsigned hnone _ =>
      exact ⟨hinv.execute hsubmitted hsigned hnone, fun j => (hat j).mine hnone rfl rfl rfl⟩
    | revert hnone => exact ⟨hinv.revert hnone, fun j => (hat j).mine hnone rfl rfl rfl⟩
    | other => exact ⟨⟨hinv.submitted, hinv.executed⟩, fun j => (hat j).mono (fun _ _ h => h)
        (fun _ _ _ _ _ h => h) (fun _ h => h) fun _ h => h⟩

/-- No call has begun, and the service has made no transaction. -/
structure Fresh (c : Config (Shared ι) ι Phase) extends Started c where
  submitted : ∀ txHash, c.shared.submitted txHash = none

lemma Fresh.holds (h : Fresh c) : (following options call).Holds c := by
  refine ⟨⟨fun txHash request htx => ?_, fun i hi => absurd (h.executed i) hi⟩, fun i => ?_⟩
  · rw [h.submitted txHash] at htx
    cases htx
  · rw [h.task i]
    trivial

section Answered

/-- No reply and no receipt is lost. The service makes one transaction of a request, while the
call waits for the reply; an error is the reply only to a request it makes none of; and receipts
come before the timeout. -/
def Answered (options : KomenciOptions) (c : Config (Shared ι) ι Phase) : Label ι Event → Prop
  | .env (.submit request _) => (∀ txHash, c.shared.submitted txHash ≠ some request) ∧
      ∀ signed, c.shared.posted[request]? = some signed →
        ∃ tries nonce execTries, c.task signed.call = .response tries nonce execTries request
  | .task i (.error _) => ∀ tries nonce execTries request,
      c.task i = .response tries nonce execTries request →
        ∀ txHash, c.shared.submitted txHash ≠ some request
  | .task _ (.response _) => 0 < options.txRetryTimeoutMs
  | .task i .receipt => ∀ tries txHash waited, c.task i = .waitForReceipt tries txHash waited →
      c.shared.receipts txHash = none →
        waited + options.txPollingIntervalMs < options.txRetryTimeoutMs
  | _ => True

/-- Before a call is answered, only its last request can have become a transaction. -/
def Untouched (s : Shared ι) (i : ι) : Phase → Prop
  | .start | .nonce _ | .sign _ _ | .exec _ _ _ => ∀ txHash, ¬ MadeFor s i txHash
  | .response _ _ _ request => ∀ txHash, MadeFor s i txHash → s.submitted txHash = some request
  | _ => True

omit [DecidableEq ι] in
lemma untouched_tryOnce {call : Call} {tries : ℕ} (h : ∀ txHash, ¬ MadeFor s i txHash) :
    Untouched s i (tryOnce call tries) := by
  unfold tryOnce
  split <;> exact h

omit [DecidableEq ι] in
lemma untouched_failed {call : Call} {tries : ℕ} {error : ErrorType}
    (h : ∀ txHash, ¬ MadeFor s i txHash) : Untouched s i (failed call tries error) := by
  unfold failed
  split_ifs
  · exact untouched_tryOnce h
  · trivial

omit [DecidableEq ι] in
/-- A request that is posted changes nothing for the calls. -/
lemma Untouched.post {signed : Signed ι} {p : Phase} (hs : Accounted s) (h : Untouched s i p) :
    Untouched { s with posted := s.posted ++ [signed] } i p := by
  unfold Untouched at h ⊢
  split at h
  all_goals first
    | trivial
    | exact fun txHash hmade => h txHash ((madeFor_append hs).mp hmade)

omit [DecidableEq ι] in
/-- A step of a call in which it loses no answer. -/
lemma submit_untouched {p : Phase} {e : Event} {r : Shared ι × Phase} (hi : c.task i = p)
    (hanswered : Answered options c (.task i e)) (hs : Accounted c.shared)
    (hu : Untouched c.shared i p) (h : submit options call i c.shared p e = some r) :
    Untouched r.1 i r.2 ∧ ∀ {j q}, Untouched c.shared j q → Untouched r.1 j q := by
  unfold submit at h
  split at h
  case h_1 =>
    cases h
    exact ⟨untouched_tryOnce hu, id⟩
  case h_2 | h_3 =>
    cases h
    exact ⟨hu, id⟩
  case h_4 =>
    cases h
    refine ⟨fun txHash hmade => ?_, fun hj => hj.post hs⟩
    exact absurd ((madeFor_append hs).mp hmade) (hu txHash)
  case h_5 =>
    split_ifs at h
    cases h
    have hwaits : 0 < options.txRetryTimeoutMs := hanswered
    rw [whileWaiting, if_pos hwaits]
    exact ⟨trivial, id⟩
  case h_6 tries nonce execTries request e =>
    split_ifs at h
    cases h
    have hnone : ∀ txHash, ¬ MadeFor c.shared i txHash :=
      fun txHash hmade => hanswered _ _ _ _ hi txHash (hu txHash hmade)
    unfold execFailed
    split_ifs
    · exact ⟨hnone, id⟩
    · exact ⟨untouched_failed hnone, id⟩
  case h_7 tries txHash waited =>
    split at h <;> cases h
    · rw [whileWaiting, if_pos (hanswered _ _ _ hi ‹_›)]
      exact ⟨trivial, id⟩
    · exact ⟨trivial, id⟩
    · rw [failed_revert]
      exact ⟨trivial, id⟩
  case h_11 => cases h
  all_goals
    cases h
    exact ⟨trivial, id⟩

omit [DecidableEq ι] in
/-- The service makes a transaction of a request whose reply the call waits for. -/
lemma Untouched.submit {request txHash : ℕ} {p : Phase} (hi : c.task i = p)
    (hanswered : Answered options c (.env (.submit request txHash)))
    (h : Untouched c.shared i p) :
    Untouched { c.shared with
      submitted := Function.update c.shared.submitted txHash (some request) } i p := by
  have hmade : ∀ t, MadeFor { c.shared with
      submitted := Function.update c.shared.submitted txHash (some request) } i t →
      t = txHash ∧ (∃ tries nonce execTries, p = .response tries nonce execTries request) ∨
        t ≠ txHash ∧ MadeFor c.shared i t := by
    rintro t ⟨r, signed, hr, hsigned, hcall⟩
    by_cases ht : t = txHash
    · subst ht
      simp only [Function.update_self, Option.some.injEq] at hr
      subst hr
      obtain ⟨tries, nonce, execTries, hawaits⟩ := hanswered.2 signed hsigned
      exact .inl ⟨rfl, tries, nonce, execTries, by rw [← hi, ← hcall, hawaits]⟩
    · simp only [Function.update_of_ne ht] at hr
      exact .inr ⟨ht, r, signed, hr, hsigned, hcall⟩
  unfold Untouched at h ⊢
  split at h
  case h_5 =>
    intro t ht
    rcases hmade t ht with ⟨rfl, tries, nonce, execTries, hawaits⟩ | ⟨hne, hold⟩
    · cases hawaits
      simp
    · dsimp only
      rw [Function.update_of_ne hne]
      exact h t hold
  case h_6 => trivial
  all_goals
    intro t ht
    rcases hmade t ht with ⟨-, tries, nonce, execTries, hawaits⟩ | ⟨-, hold⟩
    · cases hawaits
    · exact h t hold

omit [DecidableEq ι] in
/-- Nothing is posted and the service makes nothing. -/
lemma Untouched.of_eq {p : Phase} (h : Untouched s i p) (hposted : s'.posted = s.posted)
    (hsubmitted : s'.submitted = s.submitted) : Untouched s' i p := by
  unfold Untouched MadeFor at h ⊢
  rwa [hposted, hsubmitted]

lemma step_untouched (h : ∀ i, Untouched c.shared i (c.task i)) (hs : Accounted c.shared)
    (hanswered : Answered options c l) (hstep : (machine options call).step c l = some d) :
    ∀ i, Untouched d.shared i (d.task i) := by
  cases l with
  | task i e =>
    obtain ⟨r, hr, rfl⟩ := Option.map_eq_some_iff.mp hstep
    obtain ⟨hself, hothers⟩ := submit_untouched rfl hanswered hs (h i) hr
    exact Config.forall_resume (Q := fun j p => Untouched r.1 j p) hself fun j _ => hothers (h j)
  | env e =>
    intro i
    cases step_cases hstep with
    | submit _ _ => exact (h i).submit rfl hanswered
    | _ => exact (h i).of_eq rfl rfl

omit [DecidableEq ι] in
/-- What the service makes is of the last request of a call that hears of nothing else. -/
lemma submitsAlone_of_untouched (h : ∀ i, Untouched c.shared i (c.task i))
    (hanswered : Answered options c l) : SubmitsAlone c l := by
  unfold SubmitsAlone
  split
  · rename_i request txHash
    intro signed hsigned
    obtain ⟨tries, nonce, execTries, hawaits⟩ := hanswered.2 signed hsigned
    have hu := h signed.call
    rw [hawaits] at hu ⊢
    exact ⟨hanswered.1, fun _ t hmade => absurd (hu t hmade) (hanswered.1 t)⟩
  · trivial

/-- A call that reads the nonce has not been executed. -/
lemma unexecuted_of_untouched (h : ∀ i, Untouched c.shared i (c.task i))
    (hs : Accounted c.shared) (hstep : (machine options call).step c l = some d) :
    Unexecuted c l := by
  unfold Unexecuted
  split
  · rename_i i
    by_contra hne
    obtain ⟨txHash, hmade, -⟩ := hs.executed i hne
    obtain ⟨r, hr, -⟩ := Option.map_eq_some_iff.mp hstep
    have hu := h i
    change submit options call i c.shared (c.task i) .nonce = some r at hr
    cases hi : c.task i with
    | nonce tries =>
      rw [hi] at hu
      exact hu txHash hmade
    | _ => simp [hi, submit] at hr
  · trivial

/-- What the two conditions follow from. -/
def AllUntouched (options : KomenciOptions) (call : ι → Call) (c : Config (Shared ι) ι Phase) :
    Prop :=
  (following options call).Holds c ∧ ∀ i, Untouched c.shared i (c.task i)

lemma Fresh.untouched (h : Fresh c) : AllUntouched options call c := by
  refine ⟨h.holds, fun i => ?_⟩
  rw [h.task i]
  rintro txHash ⟨request, -, hsubmitted, -, -⟩
  rw [h.submitted txHash] at hsubmitted
  cases hsubmitted

lemma AllUntouched.step (h : AllUntouched options call c) (hanswered : Answered options c l)
    (hstep : (machine options call).step c l = some d) : AllUntouched options call d :=
  ⟨(following options call).step h.1 (submitsAlone_of_untouched h.2 hanswered) hstep,
    step_untouched h.2 h.1.1 hanswered hstep⟩

/-- Where no reply and no receipt is lost, the service finds every call alone. -/
theorem submitsAlone_of_answered (hstart : Fresh c)
    (hrun : Run (machine options call) (Answered options) c d) :
    Run (machine options call) SubmitsAlone c d :=
  hrun.of_invariant (J := AllUntouched options call)
    (fun _ _ _ h hp _ => submitsAlone_of_untouched h.2 hp) (fun _ _ _ => .step) hstart.untouched

/-- No try reads the nonce of the wallet when an earlier one was executed. -/
theorem unexecuted_of_answered (hstart : Fresh c)
    (hrun : Run (machine options call) (Answered options) c d) :
    Run (machine options call) Unexecuted c d :=
  hrun.of_invariant (J := AllUntouched options call)
    (fun _ _ _ h _ hs => unexecuted_of_untouched h.2 h.1.1 hs) (fun _ _ _ => .step)
    hstart.untouched

end Answered

/-- A call that returns a revert was not executed, in a run where the service makes a
transaction of the call only when the call follows no other one. -/
theorem reverted_not_executed (options : KomenciOptions) (call : ι → Call) (hstart : Fresh c)
    (hrun : Run (machine options call) SubmitsAlone c d) (i : ι)
    (hi : d.task i = .resolved (some .Revert)) : d.shared.executed i = 0 := by
  obtain ⟨hinv, hat⟩ := (following options call).run hrun hstart.holds
  by_contra hne
  obtain ⟨txHash, hmade, hreceipt⟩ := hinv.executed i hne
  have hfollowed : Followed d.shared i (.resolved (some .Revert)) := hi ▸ hat i
  have hreverted : d.shared.receipts txHash = some false := hfollowed txHash hmade
  rw [hreceipt] at hreverted
  cases hreverted

section Samples

lemma oneCall_fresh : Fresh oneCall := ⟨oneCall_started, fun _ => rfl⟩

/-- The wallet does not accept the only transaction of the call. -/
theorem reverted_not_executed_oneCall :
    ∃ d, Run (machine DEFAULT_OPTIONS fun _ => .submitMetaTransaction none) SubmitsAlone oneCall d ∧
      d.task 0 = .resolved (some .Revert) ∧ d.shared.executed 0 = 0 := by
  have hsigned := (((Run.refl (P := SubmitsAlone) (M := machine DEFAULT_OPTIONS fun _ : Fin 1 =>
    .submitMetaTransaction none) oneCall).snoc (l := .task 0 .start) trivial rfl).snoc
    (l := .task 0 .nonce) trivial rfl).snoc (l := .task 0 .sign) trivial rfl
  have hposted := hsigned.snoc (l := .task 0 .fetch) trivial rfl
  have hsubmitted := hposted.snoc (l := .env (.submit 0 900)) (fun signed hs => by
    obtain rfl := Option.some.inj hs
    exact ⟨fun _ => nofun, fun _ _ ⟨_, _, htx, _⟩ => nomatch htx⟩) rfl
  have hreverted := ((hsubmitted.snoc (l := .task 0 (.response 900)) trivial rfl).snoc
    (l := .env (Event.mine 900 false)) trivial rfl).snoc (l := .task 0 .receipt) trivial rfl
  exact ⟨_, hreverted, rfl, reverted_not_executed DEFAULT_OPTIONS _ oneCall_fresh hreverted 0 rfl⟩

/-- The reply to the first request is lost. It was relayed, and so is the second, which then
reverts and is the one the call follows. -/
theorem reverted_and_executed :
    Fresh oneCall ∧
      ∃ d, Run (machine DEFAULT_OPTIONS fun _ => .submitMetaTransaction none) anyStep oneCall d ∧
        d.task 0 = .resolved (some .Revert) ∧ d.shared.executed 0 = 1 := by
  refine ⟨oneCall_fresh, Run.exists_of_exec [.task 0 .start, .task 0 .nonce, .task 0 .sign,
    .task 0 .fetch, .env (.submit 0 900), .task 0 (.error .NetworkError), .task 0 .fetch,
    .env (.submit 1 901), .task 0 (.response 901), .env (.mine 900 true), .env (.mine 901 true),
    .task 0 .receipt] ?_⟩
  decide +kernel

end Samples

end Komenci.Kit
