import Mathlib.Data.List.Basic
import Mathlib.Data.UInt
import Mathlib.Order.Basic

/-!
# The path-migration controller

The controller both ends of a session run to move it to a new path. The host prepares generation
`N + 1`, both ends prove the new path, the host commits and the client, having switched, confirms.

* `PathControl`: the records exchanged. `MigrationAction`: what a call asks of its driver.

Generations are an `u64` in the source. Instants are nanoseconds. The token
`MigrationToken::random` draws is an argument of `receive`.
-/

namespace OpenStream.Path

def FIRST_PATH_GENERATION : ℕ := 1

/-- `checked_add(1)` on an `u64`. -/
def nextGeneration (g : ℕ) : Option ℕ :=
  if g + 1 < 2 ^ 64 then some (g + 1) else none

def PATH_TOKEN_BYTES : ℕ := 16

abbrev MigrationToken : Type := Vector UInt8 PATH_TOKEN_BYTES

def zeroToken : MigrationToken := Vector.replicate PATH_TOKEN_BYTES 0

inductive PathKind
  | directUdp
  | opaqueRelay
  | ice
  deriving DecidableEq, Repr

inductive AbortReason
  | unsupported
  | timeout
  | candidateUnavailable
  | probeFailed
  | pmtuUnavailable
  | resourceLimit
  | commitUnconfirmed
  deriving DecidableEq, Repr

/-- A record of a migration exchange. -/
inductive PathControl
  | request (requestId : UInt32) (kind : PathKind)
  | prepare (generation : ℕ) (kind : PathKind) (token : MigrationToken)
  | probe (generation : ℕ) (token : MigrationToken)
  | probeAck (generation : ℕ) (token : MigrationToken)
  | ready (generation : ℕ) (token : MigrationToken) (datagramSize : ℕ)
  | commit (generation : ℕ) (token : MigrationToken)
  | commitAck (generation : ℕ) (token : MigrationToken)
  | abort (generation : ℕ) (reason : AbortReason)
  deriving DecidableEq

abbrev MigrationTarget : Type := PathKind

inductive MigrationState
  | idle
  | preparing
  | ready
  | commitPending
  | active
  | commitUnconfirmed
  | failed
  deriving DecidableEq, Repr

inductive PathMigrationError
  | capabilityNotNegotiated
  | migrationAlreadyPending
  | hostMigrationRequired
  | unsupportedIceRestart
  | commitUnconfirmed
  | pathUnavailable
  deriving DecidableEq, Repr

inductive Role
  | host
  | client
  deriving DecidableEq, Repr

def MIN_DRAIN_GRACE : ℕ := 250000000
def MAX_DRAIN_GRACE : ℕ := 2000000000
def COMMIT_RETRY : ℕ := 250000000
def MIGRATION_DEADLINE : ℕ := 5000000000

/-- The size a peer must report ready with: `MAX_DATAGRAM`. -/
def safeDatagramSize : ℕ := 1200

def drainGrace (rtt : Option ℕ) : ℕ := max MIN_DRAIN_GRACE (min (rtt.getD 0 * 3) MAX_DRAIN_GRACE)

/-- A stable ingress identity: swapping active and prepared never renames a socket. -/
structure PathSlot where
  generation : ℕ
  deriving DecidableEq

inductive MigrationAction
  | send (slot : PathSlot) (record : PathControl)
  | open (generation : ℕ) (target : MigrationTarget) (token : MigrationToken)
  | activate (generation : ℕ)
  | retire
  | discard
  deriving DecidableEq

structure PendingMigration where
  generation : ℕ
  token : MigrationToken
  target : MigrationTarget
  deadline : ℕ
  opened : Bool
  proved : Bool
  peerReady : Bool
  nextRetry : ℕ
  deriving DecidableEq

/-- One side of a migration. -/
structure MigrationController where
  role : Role
  state : MigrationState
  activeGeneration : ℕ
  pending : Option PendingMigration
  committed : Option (ℕ × MigrationToken)
  draining : Option (PathSlot × ℕ)
  oldFailed : Bool
  lastRequest : Option UInt32
  oldRtt : Option ℕ
  deriving DecidableEq

namespace MigrationController

def new (role : Role) : MigrationController :=
  { role, state := .idle, activeGeneration := FIRST_PATH_GENERATION, pending := none,
    committed := none, draining := none, oldFailed := false, lastRequest := none, oldRtt := none }

variable (m : MigrationController)

def applicationSlot : Except PathMigrationError PathSlot :=
  match m.state with
  | .commitPending => .error .migrationAlreadyPending
  | .commitUnconfirmed => .error .commitUnconfirmed
  | _ => .ok ⟨m.activeGeneration⟩

def acceptsApplication (slot : PathSlot) (now : ℕ) : Bool :=
  slot = ⟨m.activeGeneration⟩ || m.draining.any fun d => slot = d.1 && now < d.2

/-! ## Starting an attempt -/

def prepare (generation : ℕ) (target : MigrationTarget) (token : MigrationToken)
    (now : ℕ) : MigrationController × List MigrationAction :=
  ({ m with
      pending := some
        { generation, token, target, deadline := now + MIGRATION_DEADLINE, opened := false,
          proved := false, peerReady := false, nextRetry := now + COMMIT_RETRY }
      state := .preparing
      oldFailed := false },
    [.open generation target token])

def start (target : MigrationTarget) (token : MigrationToken) (now : ℕ) :
    MigrationController × Except PathMigrationError (List MigrationAction) :=
  if m.pending.isSome || m.draining.isSome || m.state = .commitUnconfirmed then
    (m, .error .migrationAlreadyPending)
  else if m.role ≠ .host then (m, .error .hostMigrationRequired)
  else if target = .ice then (m, .error .unsupportedIceRestart)
  else
    match nextGeneration m.activeGeneration with
    | none => (m, .error .pathUnavailable)
    | some generation =>
      let (m', actions) := m.prepare generation target token now
      (m', .ok (.send ⟨m.activeGeneration⟩ (.prepare generation target token) :: actions))

def opened (now : ℕ) : MigrationController × List MigrationAction :=
  match m.pending with
  | none => (m, [])
  | some p =>
    ({ m with pending := some { p with opened := true, nextRetry := now + COMMIT_RETRY } },
      [.send ⟨p.generation⟩ (.probe p.generation p.token)])

/-! ## Receiving a record -/

/-- A request to migrate; `random` is the token drawn, if one could be. -/
def receiveRequest (ingress : PathSlot) (requestId : UInt32) (kind : PathKind)
    (random : Option MigrationToken) (now : ℕ) : MigrationController × List MigrationAction :=
  if m.role ≠ .host || ingress ≠ ⟨m.activeGeneration⟩ || m.lastRequest = some requestId ||
      m.pending.isSome || m.draining.isSome then (m, [])
  else
    let m' := { m with lastRequest := some requestId }
    if kind = .ice then
      (m', [.send ingress (.abort ((nextGeneration m.activeGeneration).getD m.activeGeneration)
        .unsupported)])
    else
      match random with
      | none => (m', [])
      | some token =>
        match m'.start kind token now with
        | (m'', .ok actions) => (m'', actions)
        | (m'', .error _) => (m'', [])

def receivePrepare (ingress : PathSlot) (generation : ℕ) (kind : PathKind)
    (token : MigrationToken) (now : ℕ) : MigrationController × List MigrationAction :=
  if m.role ≠ .client || ingress ≠ ⟨m.activeGeneration⟩ ||
      nextGeneration m.activeGeneration ≠ some generation || token = zeroToken then (m, [])
  else
    match m.pending with
    | some p =>
      if p.generation ≠ generation || p.token ≠ token || p.target ≠ kind then (m, [])
      else if p.proved then (m, [.send ingress (.ready generation token safeDatagramSize)])
      else if p.opened then (m, [.send ⟨generation⟩ (.probe generation token)])
      else (m, [])
    | none =>
      if m.draining.isSome then (m, [])
      else if kind = .ice then (m, [.send ingress (.abort generation .unsupported)])
      else m.prepare generation kind token now

def receiveAbort (ingress : PathSlot) (generation : ℕ) :
    MigrationController × List MigrationAction :=
  if m.pending.any (fun p => p.generation = generation) && ingress = ⟨m.activeGeneration⟩ &&
      (m.state = .preparing || m.state = .ready) then
    ({ m with pending := none, state := .failed }, [.discard])
  else (m, [])

def activate (p : PendingMigration) (now : ℕ) : MigrationController × List MigrationAction :=
  ({ m with
      pending := none
      draining := some (⟨m.activeGeneration⟩, now + drainGrace m.oldRtt)
      activeGeneration := p.generation
      committed := some (p.generation, p.token)
      state := .active },
    [.activate p.generation])

def tryCommit (p : PendingMigration) (now : ℕ) : MigrationController × List MigrationAction :=
  if m.role = .host && p.proved && p.peerReady && m.state = .ready then
    ({ m with state := .commitPending, pending := some { p with nextRetry := now + COMMIT_RETRY } },
      [.send (if m.oldFailed then ⟨p.generation⟩ else ⟨m.activeGeneration⟩)
        (.commit p.generation p.token)])
  else ({ m with pending := some p }, [])

def receiveAttempt (p : PendingMigration) (ingress : PathSlot) (record : PathControl) (now : ℕ) :
    MigrationController × List MigrationAction :=
  let new : PathSlot := ⟨p.generation⟩
  let old : PathSlot := ⟨m.activeGeneration⟩
  match record with
  | .probe .. =>
    let (m', actions) := m.tryCommit p now
    if p.opened && ingress = new then
      (m', .send new (.probeAck p.generation p.token) :: actions)
    else (m', actions)
  | .probeAck .. =>
    if p.opened && ingress = new && !p.proved then
      let (m', actions) := { m with state := .ready }.tryCommit { p with proved := true } now
      (m', .send old (.ready p.generation p.token safeDatagramSize) :: actions)
    else m.tryCommit p now
  | .ready _ _ datagramSize =>
    if ingress = old && datagramSize = safeDatagramSize then
      m.tryCommit { p with peerReady := true } now
    else m.tryCommit p now
  | .commit .. =>
    if m.role = .client && p.proved && (ingress = old || ingress = new) then
      let (m', actions) := m.activate p now
      (m', actions ++ [.send new (.commitAck p.generation p.token)])
    else m.tryCommit p now
  | .commitAck .. =>
    if m.role = .host && m.state = .commitPending && ingress = new then m.activate p now
    else m.tryCommit p now
  | _ => (m, [])

def attemptOf : PathControl → Option (ℕ × MigrationToken)
  | .probe g t | .probeAck g t | .ready g t _ | .commit g t | .commitAck g t => some (g, t)
  | _ => none

def repeatsAck (ingress : PathSlot) (now : ℕ) : PathControl → Bool
  | .commit generation token =>
    m.role = .client && m.committed = some (generation, token) && m.acceptsApplication ingress now
  | _ => false

def receivePending (ingress : PathSlot) (record : PathControl) (now : ℕ) :
    MigrationController × List MigrationAction :=
  match m.pending, attemptOf record with
  | some p, some (generation, token) =>
    if generation ≠ p.generation || token ≠ p.token || p.deadline ≤ now then (m, [])
    else m.receiveAttempt p ingress record now
  | _, _ => (m, [])

def receive (ingress : PathSlot) (record : PathControl) (random : Option MigrationToken)
    (now : ℕ) : MigrationController × List MigrationAction :=
  match record with
  | .request requestId kind => m.receiveRequest ingress requestId kind random now
  | .prepare generation kind token => m.receivePrepare ingress generation kind token now
  | .abort generation _ => m.receiveAbort ingress generation
  | .commit generation token =>
    if m.repeatsAck ingress now (.commit generation token) then
      (m, [.send ⟨generation⟩ (.commitAck generation token)])
    else m.receivePending ingress record now
  | _ => m.receivePending ingress record now

/-! ## Failure and time -/

def oldPathFailed : MigrationController := { m with oldFailed := true }

def failPreparation (reason : AbortReason) : MigrationController × List MigrationAction :=
  if m.state = .commitPending || m.state = .commitUnconfirmed then
    ({ m with state := .commitUnconfirmed }, [.discard])
  else
    match m.pending with
    | none => (m, [])
    | some p =>
      ({ m with pending := none, state := .failed },
        [.send ⟨m.activeGeneration⟩ (.abort p.generation reason), .discard])

/-- What a retry sends for the pending attempt `p`. -/
def retries (p : PendingMigration) : List MigrationAction :=
  let old : PathSlot := ⟨m.activeGeneration⟩
  let new : PathSlot := ⟨p.generation⟩
  if m.state = .commitPending then
    [.send (if m.oldFailed then new else old) (.commit p.generation p.token)]
  else
    (if m.role = .host then [.send old (.prepare p.generation p.target p.token)] else []) ++
      (if p.opened && !p.proved then [.send new (.probe p.generation p.token)] else []) ++
      (if p.proved then [.send old (.ready p.generation p.token safeDatagramSize)] else [])

def tick (now : ℕ) : MigrationController × List MigrationAction :=
  if m.draining.any (fun d => d.2 ≤ now) then ({ m with draining := none }, [.retire])
  else
    match m.pending with
    | none => (m, [])
    | some p =>
      if p.deadline ≤ now then m.failPreparation .timeout
      else if now < p.nextRetry then (m, [])
      else ({ m with pending := some { p with nextRetry := now + COMMIT_RETRY } }, m.retries p)

end MigrationController

end OpenStream.Path
