import OpenStream.Account.Store

/-!
# The host supervisor

`HostAgent` owns the host child: it spawns it, watches it, stops it and restarts it under a policy.

* `Effect`: what a call asked of the factory or of a child, in order, with the answer it got.

An `Instant` counts nanoseconds. What the platform answers during a call is its `World`; a call may
use each answer at most once.
-/

namespace OpenStream.Agent

open Account (Text byteLen isControl U64_MAX)

/-! ## Times -/

abbrev Instant := ℕ

def fromMillis (ms : ℕ) : ℕ := ms * 1000000

def asMillis (duration : ℕ) : ℕ := duration / 1000000

def STOP_GRACE_PERIOD : ℕ := fromMillis 2000

def FRAME_HEARTBEAT_TIMEOUT : ℕ := fromMillis 3000

def FRAME_LIVENESS_STRIKES : ℕ := 3

def FIRST_FRAME_DEADLINE : ℕ := fromMillis 15000

/-! ## The vocabulary -/

inductive HostErrorCode
  | invalidConfig
  | spawnFailed
  | childFailed
  | restartLimit
  | stopFailed
  | lifetimeExceeded
  | preflightUnavailable
  | frameLivenessTimeout
  deriving DecidableEq, Repr

/-- The kind of a child's input or output error is a number here. -/
inductive AgentError
  | invalidConfig
  | spawnFailed
  | childIo (kind : ℕ)
  | stopFailed
  | unsupportedPlatform
  deriving DecidableEq, Repr

structure ChildExit where
  success : Bool
  code : Option ℤ
  signal : Option ℤ
  deriving DecidableEq, Repr

inductive ChildExitReason
  | clean
  | exitCode (code : ℤ)
  | signal (number : ℤ)
  | unknown
  | lifetimeExceeded
  | frameLivenessTimeout
  deriving DecidableEq, Repr

namespace ChildExitReason

def ofExit (exit : ChildExit) : ChildExitReason :=
  if exit.success then .clean
  else
    match exit.signal, exit.code with
    | some number, _ => .signal number
    | none, some number => .exitCode number
    | none, none => .unknown

def shouldRestart : ChildExitReason → Bool
  | .clean => false
  | _ => true

end ChildExitReason

inductive ChildState
  | stopped
  | starting
  | ready
  | stopping
  | backoff
  | failed
  deriving DecidableEq, Repr

inductive HostAgentEvent
  | started (pid : Option ℕ)
  | ready
  | childExited (reason : ChildExitReason)
  | restartScheduled (delayMs attempt : ℕ)
  | stopped
  | failed (code : HostErrorCode)
  deriving DecidableEq, Repr

inductive HostPhase
  | starting
  | waitingForPeer
  | negotiating
  | streaming
  deriving DecidableEq, Repr

def HostPhase.expectsFrames : HostPhase → Bool
  | .streaming => true
  | _ => false

inductive FrameLiveness
  | notConfigured
  | waiting
  | negotiating
  | live
  | stale
  deriving DecidableEq, Repr

def FrameLiveness.isHealthy : FrameLiveness → Bool
  | .stale => false
  | _ => true

/-- One reading of the heartbeat file; a file that cannot be read has no age. -/
structure HeartbeatObservation where
  age : Option ℕ
  phase : HostPhase
  frames : ℕ
  deriving DecidableEq, Repr

/-- A managed child, known by its handle. -/
structure Child where
  handle : ℕ
  pid : Option ℕ
  deriving DecidableEq, Repr

/-! ## The configuration -/

structure ChildPolicy where
  maxRestarts : ℕ
  baseBackoffMs : ℕ
  maxBackoffMs : ℕ
  resetAfterMs : ℕ
  deriving DecidableEq, Repr

namespace ChildPolicy

def validate (p : ChildPolicy) : Except AgentError Unit :=
  if 100 < p.maxRestarts ∨ p.baseBackoffMs = 0 ∨ p.maxBackoffMs < p.baseBackoffMs ∨
      3600000 < p.maxBackoffMs ∨ 86400000 < p.resetAfterMs then .error .invalidConfig
  else .ok ()

/-- The wait before the restart with the given number; the product saturates. -/
def delayMs (p : ChildPolicy) (attempt : ℕ) : ℕ :=
  let shift := min (attempt - 1) 63
  min (min (p.baseBackoffMs * 2 ^ shift) U64_MAX) p.maxBackoffMs

end ChildPolicy

/-- A command description. -/
structure ChildSpec where
  program : Text
  args : List Text
  env : List (Text × Text)
  pairingFile : Option Text
  deriving DecidableEq

namespace ChildSpec

def contains (marker : Text) : Text → Bool
  | [] => marker.isEmpty
  | c :: rest => marker.isPrefixOf (c :: rest) || contains marker rest

def containsSecretMarker (value : Text) : Bool :=
  let normalized := (value.map Char.toUpper).map fun c => if c = '-' then '_' else c
  ["PAIRING_JSON", "TOKEN", "PASSWORD", "PRIVATE_KEY", "SECRET", "TURN_CREDENTIAL",
    "RELAY_TICKET"].any fun marker => contains marker.toList normalized

def isPairingEnvironmentKey (key : Text) : Bool :=
  key.map Char.toUpper = "OPENSTREAM_PAIRING_JSON".toList ||
    key.map Char.toUpper = "OPENSTREAM_PAIRING_FILE".toList

def argumentRejected (text : Text) : Bool :=
  text.isEmpty || decide (4096 < byteLen text) || text.any isControl || containsSecretMarker text

def environmentRejected (key value : Text) : Bool :=
  key.isEmpty || decide (256 < byteLen key) || isPairingEnvironmentKey key ||
    key.any (fun c => !(c.isAlphanum || c = '_' || c = '-')) ||
    decide (16 * 1024 < byteLen value) || value.any (· = '\x00')

/-- The checks of a command; `pairingFile` is what the check of that file's owner and mode
answers. -/
def validate (s : ChildSpec) (pairingFile : Except AgentError Unit) : Except AgentError Unit :=
  if s.program.isEmpty || decide (4096 < byteLen s.program) || s.program.any (· = '\x00') then
    .error .invalidConfig
  else if 128 < s.args.length then .error .invalidConfig
  else if s.args.any argumentRejected then .error .invalidConfig
  else if 128 < s.env.length then .error .invalidConfig
  else if s.env.any fun e => environmentRejected e.1 e.2 then .error .invalidConfig
  else
    match s.pairingFile with
    | some _ => pairingFile
    | none => .ok ()

end ChildSpec

structure HostAgentConfig where
  child : ChildSpec
  policy : ChildPolicy
  backend : Text
  startupGraceMs : ℕ
  maxChildLifetimeMs : Option ℕ
  frameHeartbeatFile : Option Text
  configRevision : Text
  deriving DecidableEq

def HostAgentConfig.validate (c : HostAgentConfig) (pairingFile : Except AgentError Unit) :
    Except AgentError Unit := do
  c.child.validate pairingFile
  c.policy.validate
  if c.backend.isEmpty || decide (128 < byteLen c.backend) || c.backend.any isControl ||
      decide (300000 < c.startupGraceMs) ||
      c.maxChildLifetimeMs.any (fun value => !(1 ≤ value && value ≤ 86400000)) ||
      c.configRevision.isEmpty || decide (128 < byteLen c.configRevision) then
    throw .invalidConfig

/-! ## The platform -/

/-- What the platform answers during a call. -/
structure World where
  pairingFile : Except AgentError Unit
  spawn : Except AgentError Child
  tryWait : Except AgentError (Option ChildExit)
  terminate : Except AgentError Unit
  forceKill : Except AgentError Unit
  heartbeat : HeartbeatObservation

/-- What a call asked of the factory or of a child. -/
inductive Effect
  | spawn (spec : ChildSpec) (answer : Except AgentError Child)
  | tryWait (child : Child) (answer : Except AgentError (Option ChildExit))
  | cleanupAfterReap (child : Child)
  | terminate (child : Child) (answer : Except AgentError Unit)
  | forceKill (child : Child) (answer : Except AgentError Unit)

/-! ## The agent -/

/-- A supervisor of one child process. -/
structure HostAgent where
  config : HostAgentConfig
  state : ChildState
  child : Option Child
  restartCount : ℕ
  nextRestartAt : Option Instant
  startedAt : Option Instant
  lastExit : Option ChildExitReason
  lastError : Option HostErrorCode
  stopRequested : Bool
  stopDeadline : Option Instant
  pendingTermination : Option ChildExitReason
  forceKillSent : Bool
  framesSeen : ℕ
  framesAdvancedAt : Option Instant
  streamingSince : Option Instant
  livenessStrikes : ℕ

abbrev Answer := Except AgentError (List HostAgentEvent)

abbrev Outcome := HostAgent × List Effect × Answer

namespace HostAgent

/-- An agent that has done nothing. -/
def idle (config : HostAgentConfig) : HostAgent :=
  { config, state := .stopped, child := none, restartCount := 0, nextRestartAt := none,
    startedAt := none, lastExit := none, lastError := none, stopRequested := false,
    stopDeadline := none, pendingTermination := none, forceKillSent := false, framesSeen := 0,
    framesAdvancedAt := none, streamingSince := none, livenessStrikes := 0 }

def withFactory (config : HostAgentConfig) (pairingFile : Except AgentError Unit) :
    Except AgentError HostAgent := do
  config.validate pairingFile
  return idle config

variable (a : HostAgent)

def scheduleRestart (now : Instant) (error : HostErrorCode) (events : List HostAgentEvent) :
    HostAgent × List HostAgentEvent :=
  if a.config.policy.maxRestarts ≤ a.restartCount then
    ({ a with state := .failed, nextRestartAt := none, lastError := some .restartLimit },
      events ++ [.failed .restartLimit])
  else
    let attempt := min (a.restartCount + 1) (2 ^ 32 - 1)
    let delayMs := a.config.policy.delayMs attempt
    ({ a with
        restartCount := attempt, state := .backoff
        nextRestartAt := some (now + fromMillis delayMs), lastError := some error },
      events ++ [.restartScheduled delayMs attempt])

def spawn (now : Instant) (w : World) : Outcome :=
  if a.child.isSome || a.state = .stopping then (a, [], .ok [])
  else
    match w.spawn with
    | .error error =>
      let failed := { a with lastError := some .spawnFailed }
      ((failed.scheduleRestart now .spawnFailed []).1, [.spawn a.config.child (.error error)],
        .error error)
    | .ok child =>
      ({ a with
          child := some child, state := .starting, startedAt := some now, nextRestartAt := none
          stopDeadline := none, pendingTermination := none, forceKillSent := false
          framesSeen := 0, framesAdvancedAt := none, streamingSince := none
          livenessStrikes := 0 },
        [.spawn a.config.child (.ok child)], .ok [.started child.pid])

def start (now : Instant) (w : World) : Outcome :=
  if a.state = .starting ∨ a.state = .ready ∨ a.state = .stopping ∨ a.state = .backoff then
    (a, [], .ok [])
  else
    { a with restartCount := 0, lastError := none, stopRequested := false }.spawn now w

def replaceConfig (config : HostAgentConfig) (w : World) : Outcome :=
  if a.child.isSome || a.state = .stopping then (a, [], .error .invalidConfig)
  else
    match config.validate w.pairingFile with
    | .error error => (a, [], .error error)
    | .ok () => (idle config, [], .ok [])

def beginStopping (child : Child) (now : Instant) (pending : Option ChildExitReason) (w : World) :
    Outcome :=
  let stopping :=
    { a with state := .stopping, pendingTermination := pending, forceKillSent := false }
  match w.terminate with
  | .ok () =>
    ({ stopping with stopDeadline := some (now + STOP_GRACE_PERIOD) },
      [.terminate child (.ok ())], .ok [])
  | .error error =>
    ({ stopping with stopDeadline := some now, lastError := some .stopFailed },
      [.terminate child (.error error)], .error error)

def stop (now : Instant) (w : World) : Outcome :=
  if a.state = .stopped ∧ a.child = none ∧ a.nextRestartAt = none then (a, [], .ok [])
  else
    let asked := { a with stopRequested := true, nextRestartAt := none }
    match a.child with
    | none => ({ asked with startedAt := none, state := .stopped }, [], .ok [.stopped])
    | some child =>
      if a.state = .stopping then (asked, [], .ok []) else asked.beginStopping child now none w

/-- The child has run for at least `ms`. -/
def ranFor (now : Instant) (ms : ℕ) : Bool :=
  a.startedAt.any fun started => fromMillis ms ≤ now - started

/-- A child that ended by itself. -/
def handleExit (reason : ChildExitReason) (now : Instant) : HostAgent × List HostAgentEvent :=
  let wasLongRunning := a.ranFor now a.config.policy.resetAfterMs
  let gone := { a with child := none, startedAt := none, lastExit := some reason }
  if a.stopRequested || !reason.shouldRestart then
    ({ gone with nextRestartAt := none, state := .stopped }, [.childExited reason, .stopped])
  else
    let counted := if wasLongRunning then { gone with restartCount := 0 } else gone
    counted.scheduleRestart now .childFailed [.childExited reason]

def handleStopped (now : Instant) : HostAgent × List HostAgentEvent :=
  let wasLongRunning := a.ranFor now a.config.policy.resetAfterMs
  let gone :=
    { a with child := none, startedAt := none, stopDeadline := none, forceKillSent := false
             pendingTermination := none }
  match a.pendingTermination with
  | some reason =>
    let gone := { gone with lastExit := some reason }
    if a.stopRequested then
      ({ gone with nextRestartAt := none, state := .stopped }, [.childExited reason, .stopped])
    else
      let counted := if wasLongRunning then { gone with restartCount := 0 } else gone
      let error := match reason with
        | .lifetimeExceeded => HostErrorCode.lifetimeExceeded
        | .frameLivenessTimeout => .frameLivenessTimeout
        | _ => .childFailed
      counted.scheduleRestart now error [.childExited reason]
  | none => ({ gone with state := .stopped }, [.stopped])

def tickStopping (child : Child) (now : Instant) (w : World) : Outcome :=
  match w.tryWait with
  | .error error => (a, [.tryWait child (.error error)], .error error)
  | .ok (some exit) =>
    let (a', events) := a.handleStopped now
    (a', [.tryWait child (.ok (some exit)), .cleanupAfterReap child], .ok events)
  | .ok none =>
    if !a.forceKillSent && a.stopDeadline.any (· ≤ now) then
      match w.forceKill with
      | .error error =>
        ({ a with lastError := some .stopFailed },
          [.tryWait child (.ok none), .forceKill child (.error error)], .error error)
      | .ok () =>
        ({ a with forceKillSent := true },
          [.tryWait child (.ok none), .forceKill child (.ok ())], .ok [])
    else (a, [.tryWait child (.ok none)], .ok [])

def maxLifetimeReached (now : Instant) : Bool :=
  match a.config.maxChildLifetimeMs with
  | none => false
  | some lifetime => a.ranFor now lifetime

def judgeLiveness (o : HeartbeatObservation) (now : Instant) : FrameLiveness :=
  if !o.age.any (· ≤ asMillis FRAME_HEARTBEAT_TIMEOUT) then .stale
  else if !o.phase.expectsFrames then
    match o.phase with
    | .negotiating => .negotiating
    | _ => .waiting
  else if o.frames = 0 then
    if a.streamingSince.any fun since => FIRST_FRAME_DEADLINE < now - since then .stale
    else .waiting
  else if a.framesAdvancedAt.any fun at_ =>
      asMillis (now - at_) ≤ asMillis FRAME_HEARTBEAT_TIMEOUT then .live
  else .stale

def observe (now : Instant) (w : World) : HostAgent × Bool :=
  let (a', healthy) :=
    match a.config.frameHeartbeatFile with
    | none => (a, true)
    | some _ =>
      let a' := if a.framesSeen < w.heartbeat.frames then
        { a with framesSeen := w.heartbeat.frames, framesAdvancedAt := some now } else a
      let a' := if w.heartbeat.phase.expectsFrames then
        { a' with streamingSince := some (a'.streamingSince.getD now) }
        else { a' with streamingSince := none }
      (a', (a'.judgeLiveness w.heartbeat now).isHealthy)
  ({ a' with
      livenessStrikes := if healthy then 0 else min (a'.livenessStrikes + 1) (2 ^ 32 - 1) },
    healthy)

def tickChild (child : Child) (now : Instant) (w : World) : Outcome :=
  match w.tryWait with
  | .error error => (a, [.tryWait child (.error error)], .error error)
  | .ok (some exit) =>
    let (a', events) := a.handleExit (.ofExit exit) now
    (a', [.tryWait child (.ok (some exit)), .cleanupAfterReap child], .ok events)
  | .ok none =>
    let ends (a : HostAgent) (reason : ChildExitReason) : Outcome :=
      let (a', effects, answer) := a.beginStopping child now (some reason) w
      (a', .tryWait child (.ok none) :: effects, answer)
    if a.maxLifetimeReached now then ends a .lifetimeExceeded
    else
      let (a', healthy) := a.observe now w
      let timedOut := { a' with lastError := some .frameLivenessTimeout }
      if a'.state = .starting then
        if healthy then ({ a' with state := .ready }, [.tryWait child (.ok none)], .ok [.ready])
        else if a'.ranFor now a'.config.startupGraceMs then ends timedOut .frameLivenessTimeout
        else (a', [.tryWait child (.ok none)], .ok [])
      else if a'.state = .ready ∧ FRAME_LIVENESS_STRIKES ≤ a'.livenessStrikes then
        ends timedOut .frameLivenessTimeout
      else (a', [.tryWait child (.ok none)], .ok [])

def tick (now : Instant) (w : World) : Option Outcome :=
  if a.state = .stopping then a.child.map fun child => a.tickStopping child now w
  else if a.state = .backoff then
    if a.nextRestartAt.any (· ≤ now) then some ({ a with nextRestartAt := none }.spawn now w)
    else some (a, [], .ok [])
  else
    match a.child with
    | none => some (a, [], .ok [])
    | some child => some (a.tickChild child now w)

end HostAgent

/-! ## The calls -/

inductive Command
  | start
  | stop
  | tick
  | replaceConfig (config : HostAgentConfig)
  deriving DecidableEq

def HostAgent.run (a : HostAgent) (now : Instant) (w : World) : Command → Option Outcome
  | .start => some (a.start now w)
  | .stop => some (a.stop now w)
  | .tick => a.tick now w
  | .replaceConfig config => some (a.replaceConfig config w)

end OpenStream.Agent
