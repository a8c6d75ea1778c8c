import Komenci.SessionRequests

/-! No update of the session record is lost as long as every write starts from counts and
a deployment that are still the stored ones, and adds without rounding. -/
namespace Komenci.Sessions
open Interleaving

def Session.walletDeploy (session : Session) : Option WalletDeploy :=
  session.metadata.bind SessionMetadata.walletDeploy

/-- What all increments of an action add up to. -/
def total (increments : List (TrackedAction × ℚ)) (action : TrackedAction) : ℚ :=
  ((increments.filter fun p => p.1 = action).map Prod.snd).sum

lemma total_append (increments : List (TrackedAction × ℚ)) (action a : TrackedAction) (n : ℚ) :
    total (increments ++ [(action, n)]) a = total increments a + if a = action then n else 0 := by
  by_cases h : action = a
  · simp [total, h]
  · simp [total, h, Ne.symm h]

section Writes
variable {session : Session} {s s' : Shared} {endpoint : Endpoint} {txHash : ℕ}

lemma getActionCount_eq_count {action : TrackedAction} {n : ℚ}
    (h : session.getActionCount action = some n) : n = session.count action := by
  have hshaped := shaped_of_getActionCount (Option.isSome_iff_exists.mpr ⟨n, h⟩)
  rw [getActionCount_of_shaped hshaped] at h
  exact (Option.some.inj h).symm

/-- An increment adds to its own count and keeps everything else of what it has loaded. -/
lemma incrementUsage_spec {action : TrackedAction} {n : ℚ} {m : SessionMetadata}
    (h : session.incrementUsage action n = some m) (row : Session) :
    ({ row with metadata := some m } : Session).walletDeploy = session.walletDeploy ∧
      ∀ a, ({ row with metadata := some m } : Session).count a =
        if a = action then (Doubles.add (session.count action) n).getD 0 else session.count a := by
  simp only [Session.incrementUsage, Option.bind_eq_bind, Option.pure_def,
    Option.bind_eq_some_iff, Option.some.injEq] at h
  obtain ⟨usage, husage, rfl⟩ := h
  refine ⟨rfl, fun a => ?_⟩
  by_cases ha : a = action
  · subst ha
    simp [Session.count, getActionCount_eq_count husage]
  · cases hc : session.metadata.bind SessionMetadata.callCount <;> simp [Session.count, hc, ha]

/-- What a request writes is its own change to the row it has loaded. -/
lemma record_spec (h : s.record session txHash endpoint = some s') :
    (∃ implementationAddress d, endpoint = .deployWallet implementationAddress ∧
      s'.session.walletDeploy = some d ∧ (∀ a, s'.session.count a = session.count a) ∧
      s'.deployments = s.deployments ++ [d] ∧ s'.increments = s.increments) ∨
    ∃ action n, endpoint.tracked = some (action, n) ∧
      s'.session.walletDeploy = session.walletDeploy ∧
      (∀ a, s'.session.count a =
        if a = action then (Doubles.add (session.count action) n).getD 0 else session.count a) ∧
      s'.deployments = s.deployments ∧ s'.increments = s.increments ++ [(action, n)] := by
  unfold Shared.record at h
  split at h
  case h_1 implementationAddress =>
    cases h
    exact .inl ⟨implementationAddress, _, rfl, rfl, fun _ => rfl, rfl, rfl⟩
  case h_2 =>
    simp only [Option.bind_eq_bind, Option.pure_def, Option.bind_eq_some_iff,
      Option.some.injEq] at h
    obtain ⟨⟨action, n⟩, htracked, m, hm, rfl⟩ := h
    obtain ⟨hdeploy, hcount⟩ := incrementUsage_spec hm s.session
    exact .inr ⟨action, n, htracked, hdeploy, hcount, rfl, rfl⟩

/-- A write leaves the relayer and the clock alone. -/
lemma record_frame (h : s.record session txHash endpoint = some s') :
    s'.commands = s.commands ∧ s'.now = s.now := by
  unfold Shared.record at h
  split at h
  · cases h
    exact ⟨rfl, rfl⟩
  · simp only [Option.bind_eq_bind, Option.pure_def, Option.bind_eq_some_iff,
      Option.some.injEq] at h
    obtain ⟨p, -, m, -, rfl⟩ := h
    exact ⟨rfl, rfl⟩

end Writes

/-- The steps of a request: all but the write leave the row alone. -/
inductive HandleStep (cfg : AppConfig) (endpoint : Endpoint) (s : Shared) :
    Phase → Event → Shared → Phase → Prop
  | authenticate : HandleStep cfg endpoint s .start .authenticate s (.authenticated s.session)
  | guard {session} :
      canActivate cfg.quota (endpoint.tracked.map Prod.fst) session = some (.ok true) →
      HandleStep cfg endpoint s (.authenticated session) .guard s (.guarded session)
  | send {session} : passes cfg s.now session endpoint = true →
      HandleStep cfg endpoint s (.guarded session) (.check true) (s.send endpoint)
        (.sent session s.commands.length)
  | reply {session k txHash} : answer s.commands k = some txHash →
      HandleStep cfg endpoint s (.sent session k) .reply s (.replied session txHash)
  | write {session txHash s'} : s.record session txHash endpoint = some s' →
      HandleStep cfg endpoint s (.replied session txHash) .write s' .finished
  | refuse {phase e session} : phase = .authenticated session ∨ phase = .guarded session ∧
      (e = .check true → passes cfg s.now session endpoint = false) →
      HandleStep cfg endpoint s phase e s .finished
  | giveUp {session k} : HandleStep cfg endpoint s (.sent session k) .error s .finished
  | unwritten {session txHash e} : e = .writeFails ∨ s.record session txHash endpoint = none →
      HandleStep cfg endpoint s (.replied session txHash) e s .finished

lemma canActivate_ok {config : TrackedAction → ℚ} {action : Option TrackedAction}
    {session : Session} {b : Bool} (h : canActivate config action session = some (.ok b)) :
    b = true := by
  cases action with
  | none => simpa [canActivate] using h.symm
  | some action =>
    obtain ⟨usage, -, husage⟩ := Option.map_eq_some_iff.mp h
    split_ifs at husage
    cases husage
    rfl

lemma handle_step {cfg : AppConfig} {endpoint : Endpoint} {s : Shared} {phase : Phase} {e : Event}
    {r : Shared × Phase} (h : handle cfg endpoint s phase e = some r) :
    HandleStep cfg endpoint s phase e r.1 r.2 := by
  unfold handle at h
  split at h
  case h_1 =>
    cases h
    exact .authenticate
  case h_2 =>
    split at h
    · rename_i b hb
      cases h
      exact .guard (canActivate_ok hb ▸ hb)
    · cases h
      exact .refuse (.inl rfl)
  case h_3 passed =>
    split_ifs at h with hpassed
    · cases h
      obtain ⟨rfl, hpasses⟩ := Bool.and_eq_true_iff.mp hpassed
      exact .send hpasses
    · cases h
      refine .refuse (.inr ⟨rfl, ?_⟩)
      rintro ⟨⟩
      simpa using hpassed
  case h_4 =>
    obtain ⟨txHash, ht, rfl⟩ := Option.map_eq_some_iff.mp h
    exact .reply ht
  case h_5 =>
    cases h
    exact .giveUp
  case h_6 =>
    split at h
    · cases h
      exact .write ‹_›
    · cases h
      exact .unwritten (.inr ‹_›)
  case h_7 =>
    cases h
    exact .unwritten (.inl rfl)
  case h_8 => cases h

variable {ι : Type} [DecidableEq ι] {cfg : AppConfig} {c d : Config Shared ι Request}

/-- A step of the system is a step of one request, or one that leaves the row and the
records of the writes alone. -/
lemma step_cases {l : Label ι Event} (h : (machine cfg).step c l = some d) :
    (∃ i e s phase, l = .task i e ∧
      HandleStep cfg (c.task i).endpoint c.shared (c.task i).phase e s phase ∧
      d = c.resume i (s, ⟨(c.task i).endpoint, phase⟩)) ∨
    (∃ k txHash s, l = .env (.execute k txHash) ∧ execute k txHash c.shared = some s ∧
      d = ⟨s, c.task⟩) ∨
    ∃ ms, l = .env (.tick ms) ∧ d = ⟨{ c.shared with now := c.shared.now + ms }, c.task⟩ := by
  rcases Machine.step_cases h with ⟨i, e, r, rfl, hr, rfl⟩ | ⟨e, rfl, he⟩
  · obtain ⟨q, hq, rfl⟩ := Option.map_eq_some_iff.mp hr
    exact .inl ⟨i, e, q.1, q.2, rfl, handle_step hq, rfl⟩
  · simp only [machine] at he
    split at he
    · obtain ⟨s, hs, rfl⟩ := Option.map_eq_some_iff.mp he
      exact .inr (.inl ⟨_, _, s, rfl, hs, rfl⟩)
    · cases he
      exact .inr (.inr ⟨_, rfl, rfl⟩)
    · cases he

lemma execute_spec {k txHash : ℕ} {s s' : Shared} (h : execute k txHash s = some s') :
    ∃ endpoint, s.commands[k]? = some ⟨endpoint, none⟩ ∧
      s' = { s with commands := s.commands.set k ⟨endpoint, some txHash⟩ } := by
  unfold execute at h
  split at h
  · cases h
    exact ⟨_, ‹_›, rfl⟩
  · cases h

/-- What the request has loaded is still stored: the counts, and for an increment the
deployment too. The sum that an increment writes needs no rounding. -/
def Current (stored : Session) (endpoint : Endpoint) : Phase → Prop
  | .replied session _ => (∀ a, session.count a = stored.count a) ∧
      ∀ p ∈ endpoint.tracked, session.walletDeploy = stored.walletDeploy ∧
        Doubles.Exact (session.count p.1 + p.2)
  | _ => True

instance (stored : Session) (endpoint : Endpoint) (phase : Phase) :
    Decidable (Current stored endpoint phase) :=
  match phase with
  | .replied session _ => inferInstanceAs (Decidable ((∀ a, session.count a = stored.count a) ∧
      ∀ p ∈ endpoint.tracked, session.walletDeploy = stored.walletDeploy ∧
        Doubles.Exact (session.count p.1 + p.2)))
  | .start | .authenticated _ | .guarded _ | .sent _ _ | .finished => .isTrue trivial

/-- No write is made from a row that has changed since, and none is rounded. -/
def FreshWrite (c : Config Shared ι Request) : Label ι Event → Prop
  | .task i .write => Current c.shared.session (c.task i).endpoint (c.task i).phase
  | _ => True

instance (c : Config Shared ι Request) (l : Label ι Event) : Decidable (FreshWrite c l) := by
  unfold FreshWrite
  induction l using Label.casesOn with
  | env e => infer_instance
  | task i e => induction e using Event.casesOn <;> infer_instance

/-- The row has the writes of all requests in it. -/
structure Recorded (row : Session) (s : Shared) : Prop where
  count : ∀ a, s.session.count a = row.count a + total s.increments a
  walletDeploy : s.session.walletDeploy = s.deployments.getLast?.or row.walletDeploy

lemma record_recorded {row session : Session} {s s' : Shared} {endpoint : Endpoint} {txHash : ℕ}
    (hrec : Recorded row s) (hcurrent : Current s.session endpoint (.replied session txHash))
    (h : s.record session txHash endpoint = some s') : Recorded row s' := by
  obtain ⟨hcount, hincrement⟩ := hcurrent
  rcases record_spec h with ⟨_, d, -, hd, hc, hds, his⟩ | ⟨action, n, htracked, hd, hc, hds, his⟩
  · constructor
    · intro a
      rw [hc, hcount, his, hrec.count]
    · simp [hd, hds]
  · obtain ⟨hsame, hexact⟩ := hincrement (action, n) htracked
    constructor
    · intro a
      rw [hc, his, total_append, ← add_assoc, ← hrec.count, ← hcount]
      split_ifs with ha
      · rw [Doubles.add_of_exact hexact, Option.getD_some, ha]
      · rw [add_zero]
    · rw [hd, hsame, hds, hrec.walletDeploy]

lemma step_recorded {row : Session} {l : Label ι Event} (hrec : Recorded row c.shared)
    (hfresh : FreshWrite c l) (h : (machine cfg).step c l = some d) : Recorded row d.shared := by
  rcases step_cases h with ⟨i, e, s, phase, rfl, hs, rfl⟩ | ⟨k, txHash, s, rfl, hs, rfl⟩ | ⟨ms, rfl, rfl⟩
  · generalize hphase : (c.task i).phase = old at hs
    cases hs with
    | write hw =>
      have hcurrent : Current c.shared.session (c.task i).endpoint (c.task i).phase := hfresh
      rw [hphase] at hcurrent
      exact record_recorded hrec hcurrent hw
    | send _ => exact ⟨hrec.count, hrec.walletDeploy⟩
    | _ => exact hrec
  · obtain ⟨endpoint, -, rfl⟩ := execute_spec hs
    exact ⟨hrec.count, hrec.walletDeploy⟩
  · exact ⟨hrec.count, hrec.walletDeploy⟩

/-- No update is lost in a run without stale or rounded writes: the stored counts are the first
ones and all completed increments, and the stored deployment is the last one completed. -/
theorem no_lost_update (cfg : AppConfig) (hinit : Initial c)
    (hrun : Run (machine cfg) FreshWrite c d) :
    (∀ a, d.shared.session.count a = c.shared.session.count a + total d.shared.increments a) ∧
      d.shared.session.walletDeploy =
        d.shared.deployments.getLast?.or c.shared.session.walletDeploy := by
  have hstart : Recorded c.shared.session c.shared := by
    constructor
    · simp [hinit.increments, total]
    · simp [hinit.deployments]
  obtain ⟨hcount, hdeploy⟩ := hrun.invariant (J := fun c' => Recorded c.shared.session c'.shared)
    (fun _ _ _ hc hp hs => step_recorded hc hp hs) hstart
  exact ⟨hcount, hdeploy⟩

section Samples

/-- A pepper query and a meta-transaction of a new session. -/
def sampleRequests : Config Shared (Fin 2) Request :=
  ⟨⟨createdNull, [], 0, [], []⟩,
    ![⟨.distributedBlindedPepper, .start⟩, ⟨.submitMetaTransaction, .start⟩]⟩

lemma sampleRequests_initial : Initial sampleRequests :=
  ⟨rfl, rfl, rfl, fun i => by fin_cases i <;> rfl⟩

/-- Everything a request does before its write. -/
def beforeWrite (i : Fin 2) (k : ℕ) : List (Label (Fin 2) Event) :=
  [.task i .authenticate, .task i .guard, .task i (.check true), .env (.execute k 5),
    .task i .reply]

theorem no_lost_update_in_turn :
    Initial sampleRequests ∧ ∃ d, Run (machine sampleConfig) FreshWrite sampleRequests d ∧
      d.shared.increments = [(.DistributedBlindedPepper, 1), (.SubmitMetaTransaction, 1)] ∧
      d.shared.session.count .DistributedBlindedPepper =
        createdNull.count .DistributedBlindedPepper +
          total d.shared.increments .DistributedBlindedPepper := by
  obtain ⟨d, hrun, hd⟩ := Run.exists_of_exec (M := machine sampleConfig) (P := FreshWrite)
    (c := sampleRequests)
    (q := fun d => d.shared.increments =
      [(.DistributedBlindedPepper, 1), (.SubmitMetaTransaction, 1)])
    (beforeWrite 0 0 ++ [.task 0 .write] ++ beforeWrite 1 1 ++ [.task 1 .write])
    (by decide +kernel)
  exact ⟨sampleRequests_initial, d, hrun, hd,
    (no_lost_update sampleConfig sampleRequests_initial hrun).1 _⟩

/-- Both requests load the row before either writes, and the second write takes the
first one back. -/
theorem update_lost :
    Initial sampleRequests ∧ ∃ d, Run (machine sampleConfig) anyStep sampleRequests d ∧
      (∀ i, (d.task i).phase.isFinished = true) ∧
      d.shared.increments = [(.DistributedBlindedPepper, 1), (.SubmitMetaTransaction, 1)] ∧
      d.shared.session.count .DistributedBlindedPepper = 0 := by
  refine ⟨sampleRequests_initial, Run.exists_of_exec
    (beforeWrite 0 0 ++ beforeWrite 1 1 ++ [.task 0 .write, .task 1 .write]) ?_⟩
  decide +kernel

end Samples

end Komenci.Sessions
