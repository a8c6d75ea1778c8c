import Komenci.SessionRecord

/-! The quota bounds what the relayer performs for a session whose requests come one after
the other, as long as the guard looks at all the units of a request and every executed command
is counted. -/
namespace Komenci.Sessions
open Interleaving

/-- The units of an action that a request to the endpoint stands for. -/
def Endpoint.cost (endpoint : Endpoint) (action : TrackedAction) : ℚ :=
  match endpoint.tracked with
  | some (a, n) => if action = a then n else 0
  | none => 0

/-- What the relayer has performed of an action. -/
def performed (commands : List Command) (action : TrackedAction) : ℚ :=
  ((commands.filter fun c => c.txHash.isSome).map fun c => c.endpoint.cost action).sum

@[simp] lemma performed_nil (action : TrackedAction) : performed [] action = 0 := rfl

@[simp] lemma performed_send (commands : List Command) (endpoint : Endpoint)
    (action : TrackedAction) :
    performed (commands ++ [⟨endpoint, none⟩]) action = performed commands action := by
  simp [performed]

lemma performed_execute {commands : List Command} {k txHash : ℕ} {endpoint : Endpoint}
    (h : commands[k]? = some ⟨endpoint, none⟩) (action : TrackedAction) :
    performed (commands.set k ⟨endpoint, some txHash⟩) action =
      performed commands action + endpoint.cost action := by
  obtain ⟨pre, post, hold, hset⟩ := exists_split_set h ⟨endpoint, some txHash⟩
  rw [hset, hold]
  simp only [performed, List.filter_append, List.map_append, List.sum_append, List.filter_cons,
    Option.isSome_some, Option.isSome_none, if_true, Bool.false_eq_true, if_false, List.map_cons,
    List.sum_cons]
  ring

variable {ι : Type} [DecidableEq ι] {cfg : AppConfig} {c d : Config Shared ι Request}

/-- A request is taken up only when no other one is under way. -/
def InTurn (c : Config Shared ι Request) : Label ι Event → Prop
  | .task i .authenticate => ∀ j, j ≠ i → (c.task j).phase.idle = true
  | _ => True

instance [Fintype ι] (c : Config Shared ι Request) (l : Label ι Event) : Decidable (InTurn c l) := by
  unfold InTurn
  induction l using Label.casesOn with
  | env e => infer_instance
  | task i e => induction e using Event.casesOn <;> infer_instance

def Admitted (cfg : AppConfig) (endpoint : Endpoint) (session : Session) : Prop :=
  canActivate cfg.quota (endpoint.tracked.map Prod.fst) session = some (.ok true)

/-- The guard lets a request for attestations in only if it would still do so when it looked at
the units of the request too; and their sum with the count needs no rounding. -/
def Fits (cfg : AppConfig) (r : Request) : Prop :=
  match r.endpoint, r.phase with
  | .requestSubsidisedAttestations n, .authenticated session => Admitted cfg r.endpoint session →
      session.count .RequestSubsidisedAttestation + n ≤ cfg.quota .RequestSubsidisedAttestation ∧
        Doubles.Exact (session.count .RequestSubsidisedAttestation + n)
  | _, _ => True

/-- The caller gives up only a command that was not executed. -/
def Unexecuted (s : Shared) (r : Request) : Prop :=
  match r.phase with
  | .sent _ k => answer s.commands k = none
  | _ => True

def Request.waitsFor (r : Request) (k : ℕ) : Bool :=
  match r.phase with
  | .sent _ j => j = k
  | _ => false

/-- Requests come one after the other and the guard is right on attestations; what is executed is
also counted. -/
def Counted (cfg : AppConfig) (c : Config Shared ι Request) : Label ι Event → Prop
  | .task i .authenticate => ∀ j, j ≠ i → (c.task j).phase.idle = true
  | .task i .guard => Fits cfg (c.task i)
  | .task i .error => Unexecuted c.shared (c.task i)
  | .task _ .writeFails => False
  | .env (.execute k _) => ∃ i, (c.task i).waitsFor k = true
  | _ => True

/-- What the request under way has had performed and not yet counted. -/
def Request.owes (r : Request) (commands : List Command) (action : TrackedAction) : ℚ :=
  match r.phase with
  | .sent _ k => if (answer commands k).isSome then r.endpoint.cost action else 0
  | .replied _ _ => r.endpoint.cost action
  | _ => 0

/-- What the request has loaded is what is stored. -/
def SameCounts (stored session : Session) : Prop := ∀ a, session.count a = stored.count a

/-- The units of a request that was let in can be added to the stored counts. -/
structure Room (cfg : AppConfig) (stored : Session) (endpoint : Endpoint) : Prop where
  fits : ∀ a, stored.count a + endpoint.cost a ≤ cfg.quota a
  exact : ∀ p ∈ endpoint.tracked, Doubles.Exact (stored.count p.1 + p.2)

lemma Room.congr {stored session : Session} {endpoint : Endpoint}
    (h : Room cfg session endpoint) (hsame : SameCounts stored session) :
    Room cfg stored endpoint where
  fits a := hsame a ▸ h.fits a
  exact p hp := hsame p.1 ▸ h.exact p hp

/-- What holds where the request under way stands. -/
def Loaded (cfg : AppConfig) (s : Shared) (r : Request) : Prop :=
  match r.phase with
  | .start | .finished => True
  | .authenticated session => SameCounts s.session session
  | .guarded session => SameCounts s.session session ∧ Admitted cfg r.endpoint session ∧
      Room cfg s.session r.endpoint
  | .sent session k => SameCounts s.session session ∧ Admitted cfg r.endpoint session ∧
      Room cfg s.session r.endpoint ∧ ∃ txHash, s.commands[k]? = some ⟨r.endpoint, txHash⟩
  | .replied session _ => SameCounts s.session session ∧ Admitted cfg r.endpoint session ∧
      Room cfg s.session r.endpoint

/-- Actions that every request counts once have natural numbers for their counts. -/
def WholeCounts (session : Session) : Prop :=
  ∀ a ≠ .RequestSubsidisedAttestation, ∃ k : ℕ, session.count a = k

/-- The state of a session with at most one request under way, the one of `o`. -/
structure Within (cfg : AppConfig) (c : Config Shared ι Request) (o : Option ι) : Prop where
  idle : ∀ j, o ≠ some j → (c.task j).phase.idle = true
  loaded : ∀ i, o = some i → Loaded cfg c.shared (c.task i)
  counts : ∀ a, c.shared.session.count a ≤ cfg.quota a
  whole : WholeCounts c.shared.session
  bound : ∀ a, performed c.shared.commands a ≤
    c.shared.session.count a + o.elim 0 fun i => (c.task i).owes c.shared.commands a

lemma owes_idle {r : Request} (h : r.phase.idle = true) (commands : List Command)
    (a : TrackedAction) : r.owes commands a = 0 := by
  unfold Request.owes
  split <;> simp_all [Phase.idle]

omit [DecidableEq ι] in
/-- Nothing is owed when no request is under way. -/
lemma Within.rest {o : Option ι} (h : Within cfg c o) (hidle : ∀ j, (c.task j).phase.idle = true) :
    Within cfg c none := by
  refine ⟨fun j _ => hidle j, by simp, h.counts, h.whole, fun a => ?_⟩
  have hbound := h.bound a
  cases o with
  | none => exact hbound
  | some i => simpa [owes_idle (hidle i)] using hbound

omit [DecidableEq ι] in
/-- What was performed and what is stored stays within the quota. -/
lemma Within.performed_le {o : Option ι} (h : Within cfg c o) (a : TrackedAction) :
    performed c.shared.commands a ≤ cfg.quota a := by
  have hbound := h.bound a
  have hcount := h.counts a
  cases o with
  | none => exact hbound.trans (by simpa using hcount)
  | some i =>
    have hloaded := h.loaded i rfl
    apply hbound.trans
    simp only [Option.elim, Request.owes]
    simp only [Loaded] at hloaded
    split
    · rename_i session k hphase
      rw [hphase] at hloaded
      split_ifs
      · exact hloaded.2.2.1.fits a
      · simpa using hcount
    · rename_i session txHash hphase
      rw [hphase] at hloaded
      exact hloaded.2.2.fits a
    · simpa using hcount

lemma cost_le {endpoint : Endpoint} {session : Session} (hcounts : ∀ a, session.count a ≤ cfg.quota a)
    (h : ∀ p ∈ endpoint.tracked, session.count p.1 + p.2 ≤ cfg.quota p.1)
    (a : TrackedAction) : session.count a + endpoint.cost a ≤ cfg.quota a := by
  unfold Endpoint.cost
  split
  · rename_i b n hb
    split_ifs with hab
    · subst hab
      exact h _ hb
    · simpa using hcounts a
  · simpa using hcounts a

lemma cost_whole (endpoint : Endpoint) {a : TrackedAction} (h : a ≠ .RequestSubsidisedAttestation) :
    ∃ k : ℕ, endpoint.cost a = k := by
  cases endpoint with
  | deployWallet _ => exact ⟨0, rfl⟩
  | requestSubsidisedAttestations n => exact ⟨0, by simp [Endpoint.cost, Endpoint.tracked, h]⟩
  | _ =>
    simp only [Endpoint.cost, Endpoint.tracked]
    split_ifs
    · exact ⟨1, by simp⟩
    · exact ⟨0, by simp⟩

/-- What the guard compares. -/
lemma Admitted.count_lt {endpoint : Endpoint} {session : Session}
    (h : Admitted cfg endpoint session) {p : TrackedAction × ℚ} (hp : p ∈ endpoint.tracked) :
    session.count p.1 < cfg.quota p.1 := by
  rw [Admitted, Option.mem_def.mp hp] at h
  obtain ⟨usage, husage, hok⟩ := Option.map_eq_some_iff.mp h
  split_ifs at hok with hfull
  rw [← getActionCount_eq_count husage]
  exact not_le.mp hfull

/-- One unit fits where the guard finds a whole quota not used up. -/
lemma one_fits {a : TrackedAction} {session : Session} (hwhole : WholeCounts session)
    (ha : a ≠ .RequestSubsidisedAttestation) (hquota : ∃ k : ℕ, cfg.quota a = k ∧ k ≤ 2 ^ 53)
    (hlt : session.count a < cfg.quota a) :
    session.count a + 1 ≤ cfg.quota a ∧ Doubles.Exact (session.count a + 1) := by
  obtain ⟨k, hk⟩ := hwhole a ha
  obtain ⟨q, hq, hbound⟩ := hquota
  rw [hk, hq] at hlt
  have hle : k + 1 ≤ q := by exact_mod_cast hlt
  rw [hk, hq]
  exact ⟨by exact_mod_cast hle, by exact_mod_cast Doubles.exact_natCast (hle.trans hbound)⟩

/-- Quotas that the guard can keep: what every request counts once has a whole one. -/
def WholeQuotas (cfg : AppConfig) : Prop :=
  ∀ a ≠ .RequestSubsidisedAttestation, ∃ k : ℕ, cfg.quota a = k ∧ k ≤ 2 ^ 53

/-- What the guard lets in has room. -/
lemma Admitted.room {r : Request} {session : Session} (hquota : WholeQuotas cfg)
    (hphase : r.phase = .authenticated session) (hfits : Fits cfg r)
    (h : Admitted cfg r.endpoint session) (hcounts : ∀ a, session.count a ≤ cfg.quota a)
    (hwhole : WholeCounts session) : Room cfg session r.endpoint := by
  have hboth : ∀ p ∈ r.endpoint.tracked, session.count p.1 + p.2 ≤ cfg.quota p.1 ∧
      Doubles.Exact (session.count p.1 + p.2) := by
    intro p hp
    have hlt := h.count_lt hp
    obtain ⟨endpoint, phase⟩ := r
    subst hphase
    cases endpoint with
    | deployWallet _ => cases hp
    | requestSubsidisedAttestations n =>
      cases hp
      exact hfits h
    | distributedBlindedPepper =>
      cases hp
      exact one_fits hwhole (by decide) (hquota _ (by decide)) hlt
    | submitMetaTransaction =>
      cases hp
      exact one_fits hwhole (by decide) (hquota _ (by decide)) hlt
  exact ⟨cost_le hcounts fun p hp => (hboth p hp).1, fun p hp => (hboth p hp).2⟩

/-- A request that was let in can count. -/
lemma record_of_admitted {session : Session} {s : Shared} {endpoint : Endpoint} {txHash : ℕ}
    (h : Admitted cfg endpoint session) : s.record session txHash endpoint ≠ none := by
  unfold Shared.record
  split
  · simp
  · unfold Admitted at h
    cases ht : endpoint.tracked with
    | none => cases endpoint <;> simp_all [Endpoint.tracked]
    | some p =>
      rw [ht] at h
      obtain ⟨usage, husage, -⟩ := Option.map_eq_some_iff.mp h
      simp [Session.incrementUsage, husage]

/-- A request writes the counts it has loaded with its own units. -/
lemma record_count {session : Session} {s s' : Shared} {endpoint : Endpoint} {txHash : ℕ}
    (hexact : ∀ p ∈ endpoint.tracked, Doubles.Exact (session.count p.1 + p.2))
    (h : s.record session txHash endpoint = some s') (a : TrackedAction) :
    s'.session.count a = session.count a + endpoint.cost a := by
  rcases record_spec h with ⟨_, d, rfl, -, hc, -⟩ | ⟨action, n, htracked, -, hc, -⟩
  · simp [hc, Endpoint.cost, Endpoint.tracked]
  · rw [hc, Doubles.add_of_exact (hexact (action, n) htracked)]
    simp only [Endpoint.cost, htracked, Option.getD_some]
    split_ifs with ha
    · rw [ha]
    · rw [add_zero]

section Steps
variable {i : ι} {s : Shared} {r : Request}

/-- The request under way goes on. -/
lemma Within.resume (hidle : ∀ j, j ≠ i → (c.task j).phase.idle = true) (hloaded : Loaded cfg s r)
    (hcounts : ∀ a, s.session.count a ≤ cfg.quota a) (hwhole : WholeCounts s.session)
    (hbound : ∀ a, performed s.commands a ≤ s.session.count a + r.owes s.commands a) :
    Within cfg (c.resume i (s, r)) (some i) := by
  constructor
  · intro j hj
    have hne : j ≠ i := by
      rintro rfl
      exact hj rfl
    simpa [hne] using hidle j hne
  · rintro _ ⟨⟩
    simpa using hloaded
  · exact hcounts
  · exact hwhole
  · simpa using hbound

omit [DecidableEq ι] in
/-- A request that is not idle is the one under way. -/
lemma Within.active {o : Option ι} (hw : Within cfg c o) (h : (c.task i).phase.idle = false) :
    o = some i := by
  by_contra hne
  simp [hw.idle i hne] at h

omit [DecidableEq ι] in
lemma Within.others {o : Option ι} (hw : Within cfg c o) (h : o = some i) :
    ∀ j, j ≠ i → (c.task j).phase.idle = true := by
  intro j hj
  apply hw.idle j
  rw [h]
  rintro ⟨⟩
  exact hj rfl

lemma handle_within {o : Option ι} {e : Event} {phase phase' : Phase} (hquota : WholeQuotas cfg)
    (hw : Within cfg c o) (hphase : (c.task i).phase = phase) (hcounted : Counted cfg c (.task i e))
    (h : HandleStep cfg (c.task i).endpoint c.shared phase e s phase') :
    Within cfg (c.resume i (s, ⟨(c.task i).endpoint, phase'⟩)) (some i) := by
  have hactive : phase.idle = false → o = some i := fun hp => hw.active (hphase ▸ hp)
  have hat : o = some i → Loaded cfg c.shared ⟨(c.task i).endpoint, phase⟩ ∧
      ∀ a, performed c.shared.commands a ≤ c.shared.session.count a +
        Request.owes ⟨(c.task i).endpoint, phase⟩ c.shared.commands a := by
    rintro rfl
    have hloaded := hw.loaded i rfl
    have hbound := hw.bound
    subst hphase
    exact ⟨hloaded, hbound⟩
  cases h with
  | authenticate =>
    have hrest : Within cfg c none := by
      apply hw.rest
      intro j
      by_cases hj : j = i
      · rw [hj, hphase]
        rfl
      · exact hcounted j hj
    exact .resume hcounted (fun a => rfl) hw.counts hw.whole hrest.bound
  | @guard session hg =>
    obtain ⟨hsame, hbound⟩ := hat (hactive rfl)
    have hroom : Room cfg session (c.task i).endpoint := by
      refine Admitted.room hquota hphase hcounted hg (fun a => ?_) fun a ha => ?_
      · exact hsame a ▸ hw.counts a
      · exact hsame a ▸ hw.whole a ha
    exact .resume (hw.others (hactive rfl)) ⟨hsame, hg, hroom.congr hsame⟩ hw.counts hw.whole hbound
  | @send session _ =>
    obtain ⟨⟨hsame, hadmitted, hroom⟩, hbound⟩ := hat (hactive rfl)
    apply Within.resume (hw.others (hactive rfl))
    · exact ⟨hsame, hadmitted, hroom, none, List.getElem?_concat_length⟩
    · exact hw.counts
    · exact hw.whole
    · intro a
      simpa [Shared.send, Request.owes, answer] using hbound a
  | @reply session k txHash ht =>
    obtain ⟨⟨hsame, hadmitted, hroom, -⟩, hbound⟩ := hat (hactive rfl)
    apply Within.resume (hw.others (hactive rfl))
    · exact ⟨hsame, hadmitted, hroom⟩
    · exact hw.counts
    · exact hw.whole
    · intro a
      simpa [Request.owes, ht] using hbound a
  | @write session txHash s hs =>
    obtain ⟨⟨hsame, -, hroom⟩, hbound⟩ := hat (hactive rfl)
    have hcount : ∀ a, s.session.count a =
        c.shared.session.count a + (c.task i).endpoint.cost a := by
      intro a
      rw [record_count (fun p hp => hsame p.1 ▸ hroom.exact p hp) hs, hsame]
    apply Within.resume (hw.others (hactive rfl))
    · trivial
    · intro a
      rw [hcount]
      exact hroom.fits a
    · intro a ha
      obtain ⟨k, hk⟩ := hw.whole a ha
      obtain ⟨n, hn⟩ := cost_whole (c.task i).endpoint ha
      exact ⟨k + n, by rw [hcount, hk, hn, Nat.cast_add]⟩
    · intro a
      rw [hcount, (record_frame hs).1]
      simpa [Request.owes] using hbound a
  | @refuse _ e session hp =>
    obtain ⟨-, hbound⟩ : _ ∧ _ := hat (hactive (by rcases hp with rfl | ⟨rfl, -⟩ <;> rfl))
    apply Within.resume (hw.others (hactive (by rcases hp with rfl | ⟨rfl, -⟩ <;> rfl)))
    · trivial
    · exact hw.counts
    · exact hw.whole
    · intro a
      rcases hp with rfl | ⟨rfl, -⟩ <;> exact hbound a
  | @giveUp session k =>
    obtain ⟨-, hbound⟩ := hat (hactive rfl)
    have hnone : Unexecuted c.shared (c.task i) := hcounted
    simp only [Unexecuted, hphase] at hnone
    apply Within.resume (hw.others (hactive rfl))
    · trivial
    · exact hw.counts
    · exact hw.whole
    · intro a
      simpa [Request.owes, hnone] using hbound a
  | @unwritten session txHash e hp =>
    obtain ⟨⟨-, hadmitted, -⟩, -⟩ := hat (hactive rfl)
    rcases hp with rfl | hp
    · exact absurd hcounted id
    · exact absurd hp (record_of_admitted hadmitted)

omit [DecidableEq ι] in
/-- The relayer executes the command of the request under way. -/
lemma execute_within {o : Option ι} {k txHash : ℕ} (hw : Within cfg c o)
    (hcounted : Counted cfg c (.env (.execute k txHash)))
    (h : execute k txHash c.shared = some s) : Within cfg ⟨s, c.task⟩ o := by
  obtain ⟨i, hi⟩ := hcounted
  obtain ⟨endpoint, hk, rfl⟩ := execute_spec h
  obtain ⟨session, hphase⟩ : ∃ session, (c.task i).phase = .sent session k := by
    unfold Request.waitsFor at hi
    split at hi <;> simp_all
  obtain rfl := hw.active (i := i) (by rw [hphase]; rfl)
  have hloaded := hw.loaded i rfl
  simp only [Loaded, hphase] at hloaded
  obtain ⟨hsame, hadmitted, hroom, hash, hcommand⟩ := hloaded
  obtain ⟨rfl, rfl⟩ : endpoint = (c.task i).endpoint ∧ hash = none := by
    simpa [eq_comm] using hk.symm.trans hcommand
  have hlt := (List.getElem?_eq_some_iff.mp hk).1
  refine ⟨hw.idle, ?_, hw.counts, hw.whole, fun a => ?_⟩
  · rintro _ ⟨⟩
    simp only [Loaded, hphase]
    exact ⟨hsame, hadmitted, hroom, some txHash, by simp [hlt]⟩
  · have hbound := hw.bound a
    simp only [Option.elim, Request.owes, hphase, answer, hk, Option.bind_some, Option.isSome_none,
      Bool.false_eq_true, if_false, add_zero] at hbound
    simp only [Option.elim, Request.owes, hphase, answer, List.getElem?_set_self hlt,
      Option.bind_some, Option.isSome_some, if_true, performed_execute hk]
    linarith

end Steps

lemma step_within {o : Option ι} {l : Label ι Event} (hquota : WholeQuotas cfg)
    (hw : Within cfg c o) (hcounted : Counted cfg c l) (h : (machine cfg).step c l = some d) :
    ∃ o', Within cfg d o' := by
  rcases step_cases h with ⟨i, e, s, phase, rfl, hs, rfl⟩ | ⟨k, txHash, s, rfl, hs, rfl⟩ | ⟨ms, rfl, rfl⟩
  · exact ⟨some i, handle_within hquota hw rfl hcounted hs⟩
  · exact ⟨o, execute_within hw hcounted hs⟩
  · exact ⟨o, hw.idle, hw.loaded, hw.counts, hw.whole, hw.bound⟩

lemma quotaLeft_spec {config : TrackedAction → ℚ} {session : Session} {left : ActionCounts}
    (h : quotaLeft config session = some left) (a : TrackedAction) :
    left a = some (Doubles.sub (config a) (session.count a)) := by
  have hshaped := shaped_of_quotaLeft (Option.isSome_iff_exists.mpr ⟨left, h⟩)
  simp only [quotaLeft, TrackedAction.values, getActionCount_of_shaped hshaped, List.foldlM_cons,
    List.foldlM_nil, Option.bind_eq_bind, Option.bind_some, Option.pure_def,
    Option.some.injEq] at h
  subst h
  cases a <;> simp

/-- Nothing is performed beyond the quota in a run where requests come one after the other,
the guard is right on attestations and every executed command is counted; and the quota left is
never negative. -/
theorem performed_within_quota (cfg : AppConfig) (hquota : ∀ a, 0 ≤ cfg.quota a)
    (hwhole : WholeQuotas cfg) (hcreated : c.shared.session.Created) (hinit : Initial c)
    (hrun : Run (machine cfg) (Counted cfg) c d) :
    (∀ a, performed d.shared.commands a ≤ cfg.quota a) ∧
      ∀ left a n, quotaLeft cfg.quota d.shared.session = some left → left a = some n → 0 ≤ n := by
  have hstart : Within cfg c none := by
    refine ⟨fun j _ => ?_, by simp, fun a => ?_, fun a _ => ?_, fun a => ?_⟩
    · rw [hinit.phase]
      rfl
    · rw [hcreated.count_eq_zero]
      exact hquota a
    · exact ⟨0, by rw [hcreated.count_eq_zero, Nat.cast_zero]⟩
    · simp [hinit.commands, hcreated.count_eq_zero]
  obtain ⟨o, hw⟩ := hrun.invariant (J := fun c' => ∃ o, Within cfg c' o)
    (fun _ _ _ hc hp hs => step_within hwhole hc.choose_spec hp hs) ⟨none, hstart⟩
  refine ⟨hw.performed_le, fun left a n hleft hn => ?_⟩
  rw [quotaLeft_spec hleft a] at hn
  cases hn
  exact Doubles.rounded_nonneg (sub_nonneg.mpr (hw.counts a))

section Samples

instance (cfg : AppConfig) (endpoint : Endpoint) (session : Session) :
    Decidable (Admitted cfg endpoint session) :=
  inferInstanceAs (Decidable (canActivate _ _ _ = some (.ok true)))

instance (cfg : AppConfig) (r : Request) : Decidable (Fits cfg r) := by
  unfold Fits
  induction r using Request.casesOn with
  | mk endpoint phase =>
    induction endpoint using Endpoint.casesOn with
    | requestSubsidisedAttestations n => induction phase using Phase.casesOn <;> infer_instance
    | _ => infer_instance

instance (s : Shared) (r : Request) : Decidable (Unexecuted s r) := by
  unfold Unexecuted
  induction r using Request.casesOn with
  | mk endpoint phase => induction phase using Phase.casesOn <;> infer_instance

instance [Fintype ι] (cfg : AppConfig) (c : Config Shared ι Request) (l : Label ι Event) :
    Decidable (Counted cfg c l) := by
  unfold Counted
  induction l using Label.casesOn with
  | env e => induction e using Event.casesOn <;> infer_instance
  | task i e => induction e using Event.casesOn <;> infer_instance

lemma hundred_pos : (0 : ℚ) < 100 := by norm_num

/-- One subsidised request for a hundred attestations. -/
def hundredAttestations : Config Shared (Fin 1) Request :=
  ⟨⟨createdNull, [], 0, [], []⟩, ![⟨.requestSubsidisedAttestations ⟨100, hundred_pos⟩, .start⟩]⟩

lemma hundredAttestations_initial : Initial hundredAttestations :=
  ⟨rfl, rfl, rfl, fun i => by fin_cases i; rfl⟩

/-- Ten attestations fit into a quota of ten. -/
def tenAttestations : Config Shared (Fin 1) Request :=
  ⟨⟨createdNull, [], 0, [], []⟩, ![⟨.requestSubsidisedAttestations ⟨10, by norm_num⟩, .start⟩]⟩

def wholeRequest (i : Fin 1) : List (Label (Fin 1) Event) :=
  [.task i .authenticate, .task i .guard, .task i (.check true), .env (.execute 0 5),
    .task i .reply, .task i .write]

theorem performed_within_quota_ten :
    Initial tenAttestations ∧ ∃ d,
      Run (machine sampleConfig) (Counted sampleConfig) tenAttestations d ∧
      performed d.shared.commands .RequestSubsidisedAttestation = 10 ∧
      performed d.shared.commands .RequestSubsidisedAttestation ≤
        sampleConfig.quota .RequestSubsidisedAttestation := by
  have hinit : Initial tenAttestations := ⟨rfl, rfl, rfl, fun i => by fin_cases i; rfl⟩
  obtain ⟨d, hrun, hd⟩ := Run.exists_of_exec (M := machine sampleConfig)
    (P := Counted sampleConfig) (c := tenAttestations)
    (q := fun d => performed d.shared.commands .RequestSubsidisedAttestation = 10)
    (wholeRequest 0) (by decide +kernel)
  have hquota : ∀ a, 0 ≤ sampleConfig.quota a := by
    intro a
    norm_num [sampleConfig]
  have hwhole : WholeQuotas sampleConfig := fun _ _ => ⟨10, rfl, by norm_num⟩
  exact ⟨hinit, d, hrun, hd,
    (performed_within_quota sampleConfig hquota hwhole (.inl rfl) hinit hrun).1 _⟩

/-- The guard lets the request in because nothing has been used yet. -/
theorem quota_exceeded :
    hundredAttestations.shared.session.Created ∧ Initial hundredAttestations ∧
      ∃ d, Run (machine sampleConfig) InTurn hundredAttestations d ∧
        performed d.shared.commands .RequestSubsidisedAttestation = 100 ∧
        sampleConfig.quota .RequestSubsidisedAttestation = 10 ∧
        (quotaLeft sampleConfig.quota d.shared.session).bind
          (fun left => left .RequestSubsidisedAttestation) = some (-90) := by
  refine ⟨.inl rfl, hundredAttestations_initial, Run.exists_of_exec (wholeRequest 0) ?_⟩
  decide +kernel

end Samples

end Komenci.Sessions
