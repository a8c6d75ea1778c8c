import Komenci.Interleaving
import Komenci.SessionMeta

/-! The requests of one session. Each loads the row when it authenticates, sends its
command to the relayer, and writes the whole column from what it had loaded. -/
namespace Komenci.Sessions
open Interleaving

inductive Endpoint
  | deployWallet (implementationAddress : ℕ)
  | distributedBlindedPepper
  | requestSubsidisedAttestations (attestationsRequested : {n : ℚ // 0 < n})
  | submitMetaTransaction
  deriving DecidableEq

/-- The action the handler is tagged with, and what `incrementUsage` adds to it. -/
def Endpoint.tracked : Endpoint → Option (TrackedAction × ℚ)
  | .deployWallet _ => none
  | .distributedBlindedPepper => some (.DistributedBlindedPepper, 1)
  | .requestSubsidisedAttestations n => some (.RequestSubsidisedAttestation, n)
  | .submitMetaTransaction => some (.SubmitMetaTransaction, 1)

structure Command where
  endpoint : Endpoint
  /-- The relayer's answer once it has executed the command. -/
  txHash : Option ℕ
  deriving DecidableEq

/-- The row and what is at the relayer. `increments` and `deployments` record the writes
that went through. -/
structure Shared where
  session : Session
  commands : List Command
  now : ℕ
  increments : List (TrackedAction × ℚ)
  deployments : List WalletDeploy

/-- Where a request stands: the row it has loaded, the command it waits for. -/
inductive Phase
  | start
  | authenticated (session : Session)
  | guarded (session : Session)
  | sent (session : Session) (k : ℕ)
  | replied (session : Session) (txHash : ℕ)
  | finished

def Phase.isFinished : Phase → Bool
  | .finished => true
  | _ => false

/-- No request is under way here. -/
def Phase.idle : Phase → Bool
  | .start | .finished => true
  | _ => false

inductive Event
  | authenticate
  | guard
  /-- What comes before the command: the wallet is not there yet, the body is valid. -/
  | check (passed : Bool)
  | reply
  /-- A timeout, a broken connection or an error of the relayer. -/
  | error
  | write
  | writeFails
  | execute (k txHash : ℕ)
  | tick (ms : ℕ)
  deriving DecidableEq

structure Request where
  endpoint : Endpoint
  phase : Phase

def Shared.store (s : Shared) (m : SessionMetadata) : Shared :=
  { s with session := { s.session with metadata := some m } }

def Shared.send (s : Shared) (endpoint : Endpoint) : Shared :=
  { s with commands := s.commands ++ [⟨endpoint, none⟩] }

def answer (commands : List Command) (k : ℕ) : Option ℕ := commands[k]?.bind Command.txHash

/-- The guards and the checks of the handler that need no answer from outside. -/
def passes (cfg : AppConfig) (now : ℕ) (session : Session) : Endpoint → Bool
  | .deployWallet implementationAddress =>
    cfg.isValidImplementation implementationAddress &&
      !session.hasDeployInProgress cfg now (some implementationAddress)
  | _ => true

/-- The write of a request when the relayer has answered. -/
def Shared.record (s : Shared) (session : Session) (txHash : ℕ) (endpoint : Endpoint) :
    Option Shared :=
  match endpoint with
  | .deployWallet implementationAddress =>
    let d : WalletDeploy := ⟨s.now, txHash, implementationAddress⟩
    some { s.store (session.setWalletDeploy d) with deployments := s.deployments ++ [d] }
  | endpoint => do
    let (action, count) ← endpoint.tracked
    let m ← session.incrementUsage action count
    return { s.store m with increments := s.increments ++ [(action, count)] }

def handle (cfg : AppConfig) (endpoint : Endpoint) (s : Shared) :
    Phase → Event → Option (Shared × Phase)
  | .start, .authenticate => some (s, .authenticated s.session)
  | .authenticated session, .guard =>
    match canActivate cfg.quota (endpoint.tracked.map Prod.fst) session with
    | some (.ok _) => some (s, .guarded session)
    | _ => some (s, .finished)
  | .guarded session, .check passed =>
    if passed && passes cfg s.now session endpoint then
      some (s.send endpoint, .sent session s.commands.length)
    else some (s, .finished)
  | .sent session k, .reply => (answer s.commands k).map fun txHash => (s, .replied session txHash)
  | .sent _ _, .error => some (s, .finished)
  | .replied session txHash, .write =>
    match s.record session txHash endpoint with
    | some s' => some (s', .finished)
    | none => some (s, .finished)
  | .replied _ _, .writeFails => some (s, .finished)
  | _, _ => none

/-- The relayer executes a command, whether its caller still waits or not. -/
def execute (k txHash : ℕ) (s : Shared) : Option Shared :=
  match s.commands[k]? with
  | some ⟨endpoint, none⟩ => some { s with commands := s.commands.set k ⟨endpoint, some txHash⟩ }
  | _ => none

variable {ι : Type} [DecidableEq ι]

def machine (cfg : AppConfig) : Machine Shared ι Request Event where
  seg _ e s r := (handle cfg r.endpoint s r.phase e).map fun q => (q.1, ⟨r.endpoint, q.2⟩)
  env e c :=
    match e with
    | .execute k txHash => (execute k txHash c.shared).map fun s => ⟨s, c.task⟩
    | .tick ms => some ⟨{ c.shared with now := c.shared.now + ms }, c.task⟩
    | _ => none

/-- Nothing has been requested of the session yet. -/
structure Initial (c : Config Shared ι Request) : Prop where
  commands : c.shared.commands = []
  increments : c.shared.increments = []
  deployments : c.shared.deployments = []
  phase : ∀ i, (c.task i).phase = .start

end Komenci.Sessions
