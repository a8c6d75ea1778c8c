import Komenci.SessionRecord

/-! One deployment in flight. A request looks for a deployment under way in the row it has
loaded, and the row is written after the relayer has answered. -/
namespace Komenci.Sessions
open Interleaving

/-- A deployment is handed to the relayer, or the relayer has accepted it. -/
structure Submission where
  accepted : Bool
  implementationAddress : ℕ
  time : ℕ
  deriving DecidableEq

variable {ι : Type} [DecidableEq ι] {cfg : AppConfig} {c d : Config Shared ι Request}
  {h : List Submission}

/-- The record of the deployments of a session. -/
def submissions (cfg : AppConfig) (c : Config Shared ι Request) (l : Label ι Event)
    (h : List Submission) : List Submission :=
  match l with
  | .task i (.check true) =>
    match c.task i with
    | ⟨.deployWallet implementationAddress, .guarded session⟩ =>
      if passes cfg c.shared.now session (.deployWallet implementationAddress) then
        h ++ [⟨false, implementationAddress, c.shared.now⟩]
      else h
    | _ => h
  | .env (.execute k _) =>
    match c.shared.commands[k]? with
    | some ⟨.deployWallet implementationAddress, none⟩ =>
      h ++ [⟨true, implementationAddress, c.shared.now⟩]
    | _ => h
  | _ => h

/-- Once a deployment is accepted, no other one of the implementation is handed over or
accepted until the timeout. -/
def OneInFlight (timeoutMs : ℕ) (h : List Submission) : Prop :=
  h.Pairwise fun a b => a.accepted = true → a.implementationAddress = b.implementationAddress →
    a.time + timeoutMs ≤ b.time

instance (timeoutMs : ℕ) (h : List Submission) : Decidable (OneInFlight timeoutMs h) :=
  inferInstanceAs (Decidable (h.Pairwise _))

/-- The row shows the deployment that was accepted. -/
def Shows (session : Session) (a : Submission) : Prop :=
  ∃ d ∈ session.walletDeploy, d.implementationAddress = a.implementationAddress ∧
    a.time ≤ d.startedAt

instance (session : Session) (a : Submission) : Decidable (Shows session a) :=
  inferInstanceAs (Decidable (∃ d ∈ session.walletDeploy, _))

/-- When a request looks for a deployment under way, the relayer has no command of another
one, and the row the request has loaded shows what was accepted within the timeout. -/
def Informed (cfg : AppConfig) (h : List Submission) (s : Shared) (r : Request) : Prop :=
  match r with
  | ⟨.deployWallet implementationAddress, .guarded session⟩ =>
    (∀ q ∈ s.commands, q ≠ ⟨.deployWallet implementationAddress, none⟩) ∧
      ∀ a ∈ h, a.accepted = true → a.implementationAddress = implementationAddress →
        s.now < a.time + cfg.transactionTimeoutMs → Shows session a
  | _ => True

def LooksInformed (cfg : AppConfig) (h : List Submission) (c : Config Shared ι Request) :
    Label ι Event → Prop
  | .task i (.check true) => Informed cfg h c.shared (c.task i)
  | _ => True

omit [DecidableEq ι] in
lemma hasDeployInProgress_of_shows {session : Session} {a : Submission} {now : ℕ}
    (hshows : Shows session a) (hnow : now < a.time + cfg.transactionTimeoutMs) :
    session.hasDeployInProgress cfg now (some a.implementationAddress) = true := by
  obtain ⟨d, hd, himpl, htime⟩ := hshows
  have hlt : now < d.startedAt + cfg.transactionTimeoutMs := by omega
  have hsome : session.metadata.bind SessionMetadata.walletDeploy = some d := hd
  simp [Session.hasDeployInProgress, hsome, himpl, hlt]

/-- How many deployments of the implementation the relayer has still to answer. -/
def Shared.waiting (s : Shared) (implementationAddress : ℕ) : ℕ :=
  s.commands.count ⟨.deployWallet implementationAddress, none⟩

/-- The relayer has at most one deployment of an implementation, and none of one that was
accepted within the timeout. -/
structure Spaced (cfg : AppConfig) (c : Config Shared ι Request) (h : List Submission) : Prop where
  past : ∀ a ∈ h, a.time ≤ c.shared.now
  spaced : OneInFlight cfg.transactionTimeoutMs h
  single : ∀ implementationAddress, c.shared.waiting implementationAddress ≤ 1
  waits : ∀ a ∈ h, a.accepted = true → 0 < c.shared.waiting a.implementationAddress →
    a.time + cfg.transactionTimeoutMs ≤ c.shared.now

omit [DecidableEq ι] in
/-- Nothing is handed over or accepted, and time may pass. -/
lemma Spaced.mono (hs : Spaced cfg c h) (hnow : c.shared.now ≤ d.shared.now)
    (hwaiting : ∀ implementationAddress,
      d.shared.waiting implementationAddress = c.shared.waiting implementationAddress) :
    Spaced cfg d h where
  past a ha := (hs.past a ha).trans hnow
  spaced := hs.spaced
  single implementationAddress := hwaiting implementationAddress ▸ hs.single implementationAddress
  waits a ha hacc hpos := (hs.waits a ha hacc (hwaiting _ ▸ hpos)).trans hnow

/-- A submission is recorded that is as far from the accepted ones as it has to be. -/
lemma OneInFlight.concat {timeoutMs : ℕ} {b : Submission} (hh : OneInFlight timeoutMs h)
    (hb : ∀ a ∈ h, a.accepted = true → a.implementationAddress = b.implementationAddress →
      a.time + timeoutMs ≤ b.time) : OneInFlight timeoutMs (h ++ [b]) := by
  refine List.pairwise_append.mpr ⟨hh, List.pairwise_singleton _ _, ?_⟩
  intro a ha b' hb'
  rw [List.mem_singleton.mp hb']
  exact hb a ha

lemma past_concat {now : ℕ} {b : Submission} (hh : ∀ a ∈ h, a.time ≤ now) (hb : b.time = now) :
    ∀ a ∈ h ++ [b], a.time ≤ now := by
  intro a ha
  rcases List.mem_append.mp ha with ha | ha
  · exact hh a ha
  · rw [List.mem_singleton.mp ha, hb]

omit [DecidableEq ι] in
/-- A deployment is handed over when the relayer has no other one and the accepted ones are
past the timeout. -/
lemma Spaced.send (hs : Spaced cfg c h) {implementationAddress : ℕ}
    (hnone : c.shared.waiting implementationAddress = 0)
    (hold : ∀ a ∈ h, a.accepted = true → a.implementationAddress = implementationAddress →
      a.time + cfg.transactionTimeoutMs ≤ c.shared.now) (hnow : d.shared.now = c.shared.now)
    (hcommands : d.shared.commands =
      c.shared.commands ++ [⟨.deployWallet implementationAddress, none⟩]) :
    Spaced cfg d (h ++ [⟨false, implementationAddress, c.shared.now⟩]) := by
  have hother : ∀ impl, impl ≠ implementationAddress → d.shared.waiting impl = c.shared.waiting impl := by
    intro impl hne
    simp [Shared.waiting, hcommands, Ne.symm hne]
  have hself : d.shared.waiting implementationAddress = 1 := by
    simpa [Shared.waiting, hcommands] using hnone
  constructor
  · rw [hnow]
    exact past_concat hs.past rfl
  · exact hs.spaced.concat hold
  · intro impl
    by_cases himpl : impl = implementationAddress
    · rw [himpl, hself]
    · rw [hother impl himpl]
      exact hs.single impl
  · intro a ha hacc hpos
    rw [hnow]
    rcases List.mem_append.mp ha with ha | ha
    · by_cases himpl : a.implementationAddress = implementationAddress
      · exact hold a ha hacc himpl
      · rw [hother _ himpl] at hpos
        exact hs.waits a ha hacc hpos
    · rw [List.mem_singleton.mp ha] at hacc
      cases hacc

omit [DecidableEq ι] in
/-- The relayer accepts the deployment of an implementation, and then has no other one of it. -/
lemma Spaced.accept (hs : Spaced cfg c h) {implementationAddress k txHash : ℕ}
    (hk : c.shared.commands[k]? = some ⟨.deployWallet implementationAddress, none⟩)
    (hnow : d.shared.now = c.shared.now)
    (hcommands : d.shared.commands =
      c.shared.commands.set k ⟨.deployWallet implementationAddress, some txHash⟩) :
    Spaced cfg d (h ++ [⟨true, implementationAddress, c.shared.now⟩]) := by
  obtain ⟨pre, post, hold, hset⟩ :=
    exists_split_set hk ⟨.deployWallet implementationAddress, some txHash⟩
  rw [hset] at hcommands
  have hother : ∀ impl, impl ≠ implementationAddress → d.shared.waiting impl = c.shared.waiting impl := by
    intro impl hne
    simp [Shared.waiting, hcommands, hold, Ne.symm hne]
  have hpos : 0 < c.shared.waiting implementationAddress := by simp [Shared.waiting, hold]
  have hself : d.shared.waiting implementationAddress = 0 := by
    have hsingle := hs.single implementationAddress
    simp only [Shared.waiting, hold, List.count_append, List.count_cons_self] at hsingle
    simp only [Shared.waiting, hcommands, List.count_append]
    simp
    omega
  constructor
  · rw [hnow]
    exact past_concat hs.past rfl
  · apply hs.spaced.concat
    rintro a ha hacc rfl
    exact hs.waits a ha hacc hpos
  · intro impl
    by_cases himpl : impl = implementationAddress
    · rw [himpl, hself]
      omega
    · rw [hother impl himpl]
      exact hs.single impl
  · intro a ha hacc hwaiting
    rw [hnow]
    have himpl : a.implementationAddress ≠ implementationAddress := by
      intro himpl
      rw [himpl, hself] at hwaiting
      omega
    rw [hother _ himpl] at hwaiting
    rcases List.mem_append.mp ha with ha | ha
    · exact hs.waits a ha hacc hwaiting
    · rw [List.mem_singleton.mp ha] at himpl
      exact absurd rfl himpl

/-- A request that was told of no deployment under way hands over its own. -/
lemma check_spaced {i : ι} {session : Session} {implementationAddress : ℕ} {phase : Phase}
    (hs : Spaced cfg c h)
    (hi : c.task i = ⟨.deployWallet implementationAddress, .guarded session⟩)
    (hlooks : LooksInformed cfg h c (.task i (.check true) : Label ι Event))
    (hpasses : passes cfg c.shared.now session (.deployWallet implementationAddress) = true) :
    Spaced cfg (c.resume i (c.shared.send (.deployWallet implementationAddress),
        ⟨.deployWallet implementationAddress, phase⟩))
      (submissions cfg c (.task i (.check true)) h) := by
  simp only [LooksInformed, Informed, hi] at hlooks
  obtain ⟨hnone, hshows⟩ := hlooks
  simp only [submissions, hi, hpasses, if_true]
  apply hs.send
  · exact List.count_eq_zero.mpr fun hmem => hnone _ hmem rfl
  · rintro a ha hacc rfl
    by_contra hlt
    rw [not_le] at hlt
    have hprogress := hasDeployInProgress_of_shows (hshows a ha hacc rfl hlt) hlt
    simp [passes, hprogress] at hpasses
  · rfl
  · rfl

omit [DecidableEq ι] in
/-- Nothing but its check is recorded of a request. -/
lemma submissions_task {i : ι} {e : Event}
    (hi : e = .check true → ∀ session, (c.task i).phase ≠ .guarded session) :
    submissions cfg c (.task i e) h = h := by
  by_cases he : e = .check true
  · subst he
    simp only [submissions]
    split
    · rename_i session htask
      exact absurd (by rw [htask]) (hi rfl session)
    · rfl
  · unfold submissions
    split <;> simp_all

omit [DecidableEq ι] in
/-- A check that does not hand a deployment over is not recorded. -/
lemma submissions_check {i : ι} {session : Session} (hphase : (c.task i).phase = .guarded session)
    (hpasses : ∀ implementationAddress, (c.task i).endpoint = .deployWallet implementationAddress →
      passes cfg c.shared.now session (c.task i).endpoint = false) :
    submissions cfg c (.task i (.check true)) h = h := by
  simp only [submissions]
  split
  · rename_i implementationAddress session' hi
    rw [hi] at hphase hpasses
    cases hphase
    simp [hpasses implementationAddress rfl]
  · rfl

lemma waiting_send {s : Shared} {endpoint : Endpoint}
    (h : ∀ implementationAddress, endpoint ≠ .deployWallet implementationAddress) (impl : ℕ) :
    (s.send endpoint).waiting impl = s.waiting impl := by
  simp [Shared.waiting, Shared.send, h]

lemma waiting_answered {s : Shared} {endpoint : Endpoint} {k txHash : ℕ}
    (hk : s.commands[k]? = some ⟨endpoint, none⟩)
    (h : ∀ implementationAddress, endpoint ≠ .deployWallet implementationAddress) (impl : ℕ) :
    ({ s with commands := s.commands.set k ⟨endpoint, some txHash⟩ } : Shared).waiting impl =
      s.waiting impl := by
  obtain ⟨pre, post, hold, hset⟩ := exists_split_set hk ⟨endpoint, some txHash⟩
  simp only [Shared.waiting, hset]
  simp [hold, h]

/-- Of a request only the deployment that it hands over counts. -/
lemma handle_spaced {i : ι} {e : Event} {s : Shared} {phase phase' : Phase} (hs : Spaced cfg c h)
    (hphase : (c.task i).phase = phase) (hlooks : LooksInformed cfg h c (.task i e))
    (hstep : HandleStep cfg (c.task i).endpoint c.shared phase e s phase') :
    Spaced cfg (c.resume i (s, ⟨(c.task i).endpoint, phase'⟩)) (submissions cfg c (.task i e) h) := by
  cases hstep with
  | authenticate => exact hs.mono (le_refl _) fun _ => rfl
  | guard => exact hs.mono (le_refl _) fun _ => rfl
  | @send session hpasses =>
    cases hendpoint : (c.task i).endpoint with
    | deployWallet implementationAddress =>
      have hi : c.task i = ⟨.deployWallet implementationAddress, .guarded session⟩ := by
        rw [← hendpoint, ← hphase]
      rw [hendpoint] at hpasses
      exact check_spaced hs hi hlooks hpasses
    | _ =>
      rw [submissions_check hphase (by simp [hendpoint])]
      exact hs.mono (le_refl _) (waiting_send (by simp))
  | reply => exact hs.mono (le_refl _) fun _ => rfl
  | @write session txHash s hwrite =>
    obtain ⟨hcommands, hnow⟩ := record_frame hwrite
    refine hs.mono hnow.ge fun impl => ?_
    simp [Shared.waiting, hcommands]
  | @refuse _ e session hp =>
    have hsame : submissions cfg c (.task i e) h = h := by
      rcases hp with rfl | ⟨rfl, hfails⟩
      · exact submissions_task fun _ => by simp [hphase]
      · by_cases he : e = .check true
        · subst he
          exact submissions_check hphase fun _ _ => hfails rfl
        · exact submissions_task fun h => absurd h he
    rw [hsame]
    exact hs.mono (le_refl _) fun _ => rfl
  | giveUp => exact hs.mono (le_refl _) fun _ => rfl
  | unwritten he =>
    rw [submissions_task fun _ => by simp [hphase]]
    exact hs.mono (le_refl _) fun _ => rfl

lemma step_spaced {l : Label ι Event} (hs : Spaced cfg c h) (hlooks : LooksInformed cfg h c l)
    (hstep : (machine cfg).step c l = some d) : Spaced cfg d (submissions cfg c l h) := by
  rcases step_cases hstep with ⟨i, e, s, phase, rfl, hh, rfl⟩ | ⟨k, txHash, s, rfl, hh, rfl⟩ |
    ⟨ms, rfl, rfl⟩
  · exact handle_spaced hs rfl hlooks hh
  · obtain ⟨endpoint, hk, rfl⟩ := execute_spec hh
    cases endpoint with
    | deployWallet implementationAddress =>
      simp only [submissions, hk]
      exact hs.accept hk rfl rfl
    | _ =>
      simp only [submissions, hk]
      exact hs.mono (le_refl _) (waiting_answered hk (by simp))
  · exact hs.mono (by simp) fun _ => rfl

/-- One deployment of an implementation is in flight at a time in a run whose requests look
for it when the relayer has none to answer, in a row that shows the ones accepted lately. -/
theorem one_deployment_in_flight (cfg : AppConfig) (hinit : Initial c)
    (hrun : Traced (machine cfg) (submissions cfg) (LooksInformed cfg) c [] d h) :
    OneInFlight cfg.transactionTimeoutMs h := by
  have hstart : Spaced cfg c ([] : List Submission) := by
    refine ⟨by simp, .nil, fun impl => ?_, by simp⟩
    simp [Shared.waiting, hinit.commands]
  exact (hrun.invariant (J := Spaced cfg) (fun _ _ _ _ hc hp hs => step_spaced hc hp hs)
    hstart).spaced

section Samples

instance (cfg : AppConfig) (h : List Submission) (c : Config Shared ι Request)
    (l : Label ι Event) : Decidable (LooksInformed cfg h c l) := by
  unfold LooksInformed Informed
  induction l using Label.casesOn with
  | env e => infer_instance
  | task i e =>
    induction e using Event.casesOn with
    | check passed =>
      induction passed using Bool.casesOn with
      | true =>
        dsimp only
        generalize c.task i = r
        induction r using Request.casesOn with
        | mk endpoint phase =>
          induction endpoint using Endpoint.casesOn <;>
            induction phase using Phase.casesOn <;> infer_instance
      | false => infer_instance
    | _ => infer_instance

/-- A new session asks twice for a wallet, and for a meta-transaction in between. -/
def sampleDeploys : Config Shared (Fin 3) Request :=
  ⟨⟨createdNull, [], 0, [], []⟩,
    ![⟨.deployWallet 7, .start⟩, ⟨.submitMetaTransaction, .start⟩, ⟨.deployWallet 7, .start⟩]⟩

lemma sampleDeploys_initial : Initial sampleDeploys :=
  ⟨rfl, rfl, rfl, fun i => by fin_cases i <;> rfl⟩

def untilSent (i : Fin 3) : List (Label (Fin 3) Event) :=
  [.task i .authenticate, .task i .guard, .task i (.check true)]

def untilWritten (i : Fin 3) (k : ℕ) : List (Label (Fin 3) Event) :=
  [.env (.execute k 5), .task i .reply, .task i .write]

theorem one_deployment_in_turn :
    Initial sampleDeploys ∧ ∃ r : Config Shared (Fin 3) Request × List Submission,
      Traced (machine sampleConfig) (submissions sampleConfig) (LooksInformed sampleConfig)
        sampleDeploys [] r.1 r.2 ∧
      r.2 = [⟨false, 7, 0⟩, ⟨true, 7, 0⟩] ∧ (r.1.task 2).phase.isFinished = true ∧
      OneInFlight sampleConfig.transactionTimeoutMs r.2 := by
  obtain ⟨r, hrun, hr, hphase⟩ := Traced.exists_of_trace (M := machine sampleConfig)
    (f := submissions sampleConfig) (P := LooksInformed sampleConfig) (c := sampleDeploys) (h := [])
    (q := fun r => r.2 = [⟨false, 7, 0⟩, ⟨true, 7, 0⟩] ∧ (r.1.task 2).phase.isFinished = true)
    (untilSent 0 ++ untilWritten 0 0 ++ untilSent 2) (by decide +kernel)
  exact ⟨sampleDeploys_initial, r, hrun, hr, hphase,
    one_deployment_in_flight sampleConfig sampleDeploys_initial hrun⟩

/-- Two requests look before either is accepted; and the meta-transaction, which has loaded
the row before the deployment, takes its record back. -/
theorem two_deployments_in_flight :
    (∃ r : Config Shared (Fin 3) Request × List Submission,
      Traced (machine sampleConfig) (submissions sampleConfig) (fun _ _ _ => True)
        sampleDeploys [] r.1 r.2 ∧
      r.2 = [⟨false, 7, 0⟩, ⟨false, 7, 0⟩, ⟨true, 7, 0⟩, ⟨true, 7, 0⟩] ∧
      ¬ OneInFlight sampleConfig.transactionTimeoutMs r.2) ∧
    ∃ r : Config Shared (Fin 3) Request × List Submission,
      Traced (machine sampleConfig) (submissions sampleConfig) (fun _ _ _ => True)
        sampleDeploys [] r.1 r.2 ∧
      r.1.shared.deployments.length = 1 ∧ r.1.shared.session.walletDeploy = none ∧
      r.2 = [⟨false, 7, 0⟩, ⟨true, 7, 0⟩, ⟨false, 7, 0⟩, ⟨true, 7, 0⟩] ∧
      ¬ OneInFlight sampleConfig.transactionTimeoutMs r.2 := by
  constructor
  · refine Traced.exists_of_trace (untilSent 0 ++ untilSent 2 ++ untilWritten 0 0 ++
      [.env (.execute 1 6)]) ?_
    decide +kernel
  · refine Traced.exists_of_trace ([.task 1 .authenticate] ++ untilSent 0 ++
      untilWritten 0 0 ++ [.task 1 .guard, .task 1 (.check true)] ++ untilWritten 1 1 ++
      untilSent 2 ++ [.env (.execute 2 6)]) ?_
    decide +kernel

end Samples

end Komenci.Sessions
