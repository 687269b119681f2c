import OpenStream.Lowlat.Basic

/-!
# Path MTU discovery

What one path can carry is found by probes, padded datagrams of an exact size. The controller does
no input or output of its own: it reserves a probe, and the shell tells it of the acknowledgement,
of the timeout, of a failed write and of a black hole.

* `PathConfig.maxDatagramSize`: what the outer headers leave of a path's MTU.
-/

namespace OpenStream.Lowlat

def MAX_DATAGRAM : ℕ := 2000

def DEFAULT_DATAGRAM : ℕ := 1229

def FLOOR : ℕ := DEFAULT_DATAGRAM

def CEILING : ℕ := MAX_DATAGRAM

def MAX_PROBES : ℕ := 3

def LADDER : List ℕ := [1280, 1350, 1400]

inductive Path
  | direct
  | relayIndication
  | relayChannel
  deriving DecidableEq

def Path.overhead : Path → ℕ
  | .direct => 0
  | .relayIndication => 36
  | .relayChannel => 4

inductive IpVersion
  | v4
  | v6
  deriving DecidableEq

def IpVersion.ipUdpOverhead : IpVersion → ℕ
  | .v4 => 20 + 8
  | .v6 => 40 + 8

structure PathConfig where
  path : Path
  ipVersion : IpVersion
  pathMtu : ℕ
  deriving DecidableEq

namespace PathConfig

def defaultFor (path : Path) : PathConfig := ⟨path, .v4, 1500⟩

/-- The largest datagram that fits. It can be below `FLOOR`. -/
def maxDatagramSize (config : PathConfig) : ℕ :=
  min (config.pathMtu - (config.ipVersion.ipUdpOverhead + config.path.overhead)) CEILING

end PathConfig

inductive PathMtuState
  | base
  | searching
  | searchComplete
  | error
  deriving DecidableEq

structure Probe where
  id : ℕ
  size : ℕ
  attempt : ℕ
  deriving DecidableEq

structure InFlight (F : Type) where
  probe : Probe
  sentMs : F

/-- The search for the path size. -/
structure PathMtu (F : Type) where
  config : PathConfig
  current : ℕ
  clamp : ℕ
  /-- The next entry of the ladder to consider. -/
  rung : ℕ
  state : PathMtuState
  nextProbeId : ℕ
  probeAttempts : ℕ
  probe : Option (InFlight F)
  nextActionMs : F

namespace PathMtu

variable {F : Type} [Double F]

def PROBE_TIMEOUT_MS : F := 1000.0

def REPROBE_INTERVAL_MS : F := 600000.0

def newWithConfig (config : PathConfig) (nowMs : F) : PathMtu F where
  config := config
  current := FLOOR
  clamp := config.maxDatagramSize
  rung := 0
  state := if config.maxDatagramSize < FLOOR then .error else .base
  nextProbeId := 1
  probeAttempts := 0
  probe := none
  nextActionMs := if F64.isFinite nowMs then nowMs else 0.0

def new (path : Path) : PathMtu F := newWithConfig (.defaultFor path) 0.0

variable (m : PathMtu F)

def datagramSize : ℕ := m.current

def candidate : Option ℕ :=
  match (LADDER.drop m.rung).find? fun size =>
      m.current < size && size ≤ m.clamp && size ≤ CEILING with
  | some size => some size
  | none => if m.current < m.clamp ∧ m.clamp ≤ CEILING then some m.clamp else none

def complete (nowMs : F) : PathMtu F :=
  { m with
    probe := none
    probeAttempts := 0
    state := .searchComplete
    nextActionMs :=
      if F64.isFinite nowMs then nowMs + REPROBE_INTERVAL_MS else Double.infinity }

/-- Identifiers are 32-bit numbers; the largest is never handed out. -/
def allocateProbeId : PathMtu F × ℕ :=
  let id := if m.nextProbeId = 2 ^ 32 - 1 then 1 else m.nextProbeId
  ({ m with nextProbeId := min (id + 1) (2 ^ 32 - 1) }, id)

/-- `startProbe` once the state machine may search. -/
def reserve (nowMs : F) : PathMtu F × Option Probe :=
  if F64.lt nowMs m.nextActionMs then (m, none)
  else match m.candidate with
  | none => (m.complete nowMs, none)
  | some size =>
    let m := { m with state := .searching }
    let attempt := min (m.probeAttempts + 1) 255
    if MAX_PROBES < attempt then (m.complete nowMs, none)
    else
      let (m, id) := m.allocateProbeId
      let probe : Probe := ⟨id, size, attempt⟩
      ({ m with
          probeAttempts := attempt
          probe := some ⟨probe, nowMs⟩
          nextActionMs := nowMs + PROBE_TIMEOUT_MS },
        some probe)

def startProbe (nowMs : F) : PathMtu F × Option Probe :=
  if !F64.isFinite nowMs || m.state = .error || m.probe.isSome then (m, none)
  else if m.state = .searchComplete then
    if F64.lt nowMs m.nextActionMs then (m, none)
    else reserve { m with state := .searching, probeAttempts := 0 } nowMs
  else m.reserve nowMs

/-- Milliseconds until a timer-driven call is due. -/
def nextTimerMs (nowMs : F) : F :=
  if !F64.isFinite nowMs then Double.infinity
  else
    let until_ (deadline : F) : F :=
      let left := deadline - nowMs
      if F64.lt (0.0 : F) left then left else 0.0
    match m.probe with
    | some inFlight => until_ (inFlight.sentMs + PROBE_TIMEOUT_MS)
    | none =>
      match m.state with
      | .error => Double.infinity
      | .base | .searching =>
        if m.candidate.isSome then until_ m.nextActionMs else Double.infinity
      | .searchComplete => until_ m.nextActionMs

def confirmed (size : ℕ) (nowMs : F) : PathMtu F :=
  let m := { m with probe := none, current := size, rung := min (m.rung + 1) LADDER.length,
                    probeAttempts := 0 }
  if m.candidate.isSome then { m with state := .searching, nextActionMs := nowMs }
  else m.complete nowMs

def onProbeAck (id size : ℕ) (nowMs : F) : PathMtu F × Bool :=
  match m.probe with
  | none => (m, false)
  | some inFlight =>
    if inFlight.probe.id ≠ id ∨ inFlight.probe.size ≠ size then (m, false)
    else if !F64.isFinite nowMs || F64.lt nowMs inFlight.sentMs || size < FLOOR ||
        m.clamp < size || CEILING < size then (m, false)
    else (m.confirmed size nowMs, true)

def onProbeTimeout (nowMs : F) : PathMtu F × Bool :=
  match m.probe with
  | none => (m, false)
  | some inFlight =>
    if !F64.isFinite nowMs || F64.lt nowMs (inFlight.sentMs + PROBE_TIMEOUT_MS) then (m, false)
    else if MAX_PROBES ≤ m.probeAttempts then (complete { m with probe := none } nowMs, true)
    else ({ m with probe := none, state := .searching, nextActionMs := nowMs }, true)

/-- A local write failure is not network evidence. -/
def onProbeSendFailed : PathMtu F × Bool :=
  match m.probe with
  | none => (m, false)
  | some _ =>
    ({ m with probe := none, probeAttempts := m.probeAttempts - 1, nextActionMs := 0.0 }, true)

def onTimer (nowMs : F) : PathMtu F × Option Probe :=
  let m := if m.probe.isSome then (m.onProbeTimeout nowMs).1 else m
  m.startProbe nowMs

def onBlackHole (nowMs : F) : PathMtu F × Bool :=
  if m.state = .error then (m, false)
  else
    let m := { m with probe := none, probeAttempts := 0 }
    if m.current = FLOOR then
      ({ m with state := .error, nextActionMs := Double.infinity }, true)
    else
      ({ m with
          current := FLOOR
          rung := 0
          state := .base
          nextActionMs := if F64.isFinite nowMs then nowMs else 0.0 },
        true)

/-! ## What an operation can do -/

variable {m}

/-- A probe is reserved under the next identifier, or nothing about probes changes. -/
inductive Reserves (m m' : PathMtu F) : Option Probe → Prop
  | nothing : m'.probe = none ∨ m'.probe = m.probe → m'.nextProbeId = m.nextProbeId →
      m'.current = m.current → m'.clamp = m.clamp → Reserves m m' none
  | probe (p : Probe) (sentMs : F) : m.state ≠ .error → m'.probe = some ⟨p, sentMs⟩ →
      p.id = m.allocateProbeId.2 → m'.nextProbeId = m.allocateProbeId.1.nextProbeId →
      m'.current = m.current → m'.clamp = m.clamp → m'.state = .searching → Reserves m m' (some p)

theorem reserve_cases (m : PathMtu F) (nowMs : F) (hs : m.state ≠ .error) :
    Reserves m (m.reserve nowMs).1 (m.reserve nowMs).2 := by
  unfold reserve
  split_ifs with hdue
  · exact .nothing (.inr rfl) rfl rfl rfl
  · cases hc : m.candidate with
    | none => exact .nothing (.inl rfl) rfl rfl rfl
    | some size =>
      dsimp only
      split_ifs with hattempt
      · exact .nothing (.inl rfl) rfl rfl rfl
      · exact .probe _ nowMs hs rfl rfl rfl rfl rfl rfl

theorem startProbe_cases (m : PathMtu F) (nowMs : F) :
    Reserves m (m.startProbe nowMs).1 (m.startProbe nowMs).2 := by
  unfold startProbe
  split_ifs with hidle hcomplete hdue
  · exact .nothing (.inr rfl) rfl rfl rfl
  · exact .nothing (.inr rfl) rfl rfl rfl
  · have h := reserve_cases { m with state := .searching, probeAttempts := 0 } nowMs (by simp)
    have herr : m.state ≠ .error := by rw [hcomplete]; simp
    generalize reserve { m with state := .searching, probeAttempts := 0 } nowMs = r at h ⊢
    obtain ⟨m', out⟩ := r
    cases h with
    | nothing hp hid hcur hclamp => exact .nothing hp hid hcur hclamp
    | probe p sentMs _ hp hid hnext hcur hclamp hst =>
      exact .probe p sentMs herr hp hid hnext hcur hclamp hst
  · refine reserve_cases m nowMs fun herr => hidle ?_
    simp [herr]

omit [Double F] in
theorem Reserves.current_eq {m m' : PathMtu F} {out : Option Probe} (h : Reserves m m' out) :
    m'.current = m.current := by
  cases h with
  | nothing _ _ hcurrent | probe _ _ _ _ _ _ hcurrent => exact hcurrent

theorem onProbeAck_cases (m : PathMtu F) (id size : ℕ) (nowMs : F) :
    m.onProbeAck id size nowMs = (m, false) ∨
      ∃ f, m.probe = some f ∧ f.probe.id = id ∧ f.probe.size = size ∧ FLOOR ≤ size ∧
        size ≤ m.clamp ∧ size ≤ CEILING ∧
        m.onProbeAck id size nowMs = (m.confirmed size nowMs, true) := by
  unfold onProbeAck
  cases hp : m.probe with
  | none => exact .inl rfl
  | some f =>
    dsimp only
    split_ifs with hne hbad
    · exact .inl rfl
    · exact .inl rfl
    · simp only [Bool.or_eq_true, decide_eq_true_eq, not_or, not_lt] at hbad
      push Not at hne
      obtain ⟨⟨⟨-, hfloor⟩, hclamp⟩, hceil⟩ := hbad
      exact .inr ⟨f, rfl, hne.1, hne.2, hfloor, hclamp, hceil, rfl⟩

theorem onProbeTimeout_cases (m : PathMtu F) (nowMs : F) :
    m.onProbeTimeout nowMs = (m, false) ∨
      (m.probe ≠ none ∧ (m.onProbeTimeout nowMs).2 = true ∧
        (m.onProbeTimeout nowMs).1.probe = none ∧
        (m.onProbeTimeout nowMs).1.nextProbeId = m.nextProbeId ∧
        (m.onProbeTimeout nowMs).1.current = m.current ∧
        (m.onProbeTimeout nowMs).1.clamp = m.clamp) := by
  unfold onProbeTimeout
  cases hp : m.probe with
  | none => exact .inl rfl
  | some f =>
    dsimp only
    split_ifs
    · exact .inl rfl
    · exact .inr ⟨by simp, rfl, rfl, rfl, rfl, rfl⟩
    · exact .inr ⟨by simp, rfl, rfl, rfl, rfl, rfl⟩

theorem onProbeSendFailed_cases (m : PathMtu F) :
    m.onProbeSendFailed = (m, false) ∨
      (m.onProbeSendFailed.1.probe = none ∧ m.onProbeSendFailed.1.nextProbeId = m.nextProbeId ∧
        m.onProbeSendFailed.1.current = m.current ∧ m.onProbeSendFailed.1.clamp = m.clamp) := by
  unfold onProbeSendFailed
  cases hp : m.probe with
  | none => exact .inl rfl
  | some f => exact .inr ⟨rfl, rfl, rfl, rfl⟩

theorem onBlackHole_cases (m : PathMtu F) (nowMs : F) :
    (m.state = .error ∧ m.onBlackHole nowMs = (m, false)) ∨
      ((m.onBlackHole nowMs).2 = true ∧ (m.onBlackHole nowMs).1.probe = none ∧
        (m.onBlackHole nowMs).1.nextProbeId = m.nextProbeId ∧
        (m.onBlackHole nowMs).1.current = FLOOR ∧
        (m.onBlackHole nowMs).1.clamp = m.clamp) := by
  unfold onBlackHole
  by_cases herr : m.state = .error
  · exact .inl ⟨herr, if_pos herr⟩
  · rw [if_neg herr]
    by_cases hfloor : m.current = FLOOR
    · exact .inr (by simp [hfloor])
    · exact .inr (by simp [hfloor])

@[simp] theorem confirmed_probe (size : ℕ) (nowMs : F) : (m.confirmed size nowMs).probe = none := by
  unfold confirmed
  dsimp only
  split_ifs <;> rfl

@[simp] theorem confirmed_current (size : ℕ) (nowMs : F) :
    (m.confirmed size nowMs).current = size := by
  unfold confirmed
  dsimp only
  split_ifs <;> rfl

@[simp] theorem confirmed_nextProbeId (size : ℕ) (nowMs : F) :
    (m.confirmed size nowMs).nextProbeId = m.nextProbeId := by
  unfold confirmed
  dsimp only
  split_ifs <;> rfl

end PathMtu

end OpenStream.Lowlat
