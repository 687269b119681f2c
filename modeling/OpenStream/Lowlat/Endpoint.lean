import OpenStream.Lowlat.Nonces
import OpenStream.Lowlat.Punch

/-!
# One peer, both state machines

An endpoint is a connectivity attempt, the session that uses its path, and, once the shell has
installed one, the controller of the path's size. Datagrams are told apart by their first two bytes;
output is connectivity first, then feedback, then a path probe, then the session.

* **`path_controller_agrees`**
-/

set_option linter.unusedSectionVars false

namespace OpenStream.Lowlat

open Bytes Runs Stun

inductive Datagram
  | check
  | record
  deriving DecidableEq

/-- Whatever is not shaped like a check is a record, for authentication to reject. -/
def Datagram.classify : Str → Datagram
  | high :: low :: _ :: _ => if high ≤ 1 ∧ low = 1 then .check else .record
  | _ => .record

/-- A peer: the punch and the session it hands over to. -/
structure Endpoint (n : ℕ) (F : Type) where
  conn : Conn F
  session : Session n F
  pathMtu : Option (PathMtu F)

namespace Endpoint

/-- What an inbound datagram turned out to be. -/
inductive Inbound
  | connectivity (inbound : Conn.Inbound)
  | media (inbound : Session.Inbound)
  deriving DecidableEq

/-- What became of a recovery from a black hole. -/
inductive PathMtuRecovery
  | notConfigured
  | recovered (previousDatagramSize datagramSize : ℕ) (droppedVideoFragments : UInt32)
  | blocked
  | unusable
  deriving DecidableEq

variable {n : ℕ} [NeZero n] {F : Type} [Double F]

def new (conn : Conn F) (session : Session n F) : Endpoint n F := ⟨conn, session, none⟩

variable (e : Endpoint n F)

/-- Install a controller for the selected path, at the base size. -/
def configurePathMtu (config : PathConfig) (nowMs : F) : Endpoint n F × Bool :=
  let mtu := PathMtu.newWithConfig config nowMs
  if mtu.state = .error then (e, false)
  else
    match e.session.setPathDatagramSize mtu.datagramSize with
    | (session, false) => ({ e with session }, false)
    | (session, true) => ({ e with session, pathMtu := some mtu }, true)

/-- Fall back to the base size, at the price of the queued video. -/
def recoverPathBlackHole (nowMs : F) : Endpoint n F × PathMtuRecovery :=
  match e.pathMtu with
  | none => (e, .notConfigured)
  | some mtu =>
    let previous := mtu.datagramSize
    if previous = FLOOR then ({ e with pathMtu := some (mtu.onBlackHole nowMs).1 }, .unusable)
    else if !e.session.canRecoverVideoPathDatagramSize FLOOR then (e, .blocked)
    else
      match mtu.onBlackHole nowMs with
      | (mtu, false) => ({ e with pathMtu := some mtu }, .unusable)
      | (mtu, true) =>
        let current := mtu.datagramSize
        match e.session.recoverVideoPathDatagramSize current with
        | (session, none) => ({ e with session, pathMtu := some mtu }, .blocked)
        | (session, some dropped) =>
          ({ e with session := session.resetDeliveryWatchdog nowMs, pathMtu := some mtu },
            .recovered previous current dropped)

/-- The probe acknowledgement arm of `process_input`. -/
def onProbeAck (id : UInt32) (size : ℕ) (nowMs : F) : Endpoint n F :=
  match e.pathMtu with
  | none => e
  | some mtu =>
    match mtu.onProbeAck id.toNat size nowMs with
    | (mtu', acked) =>
      if acked && mtu'.datagramSize ≠ mtu.datagramSize then
        match e.session.setPathDatagramSize mtu'.datagramSize with
        | (session, true) => { e with session, pathMtu := some mtu' }
        -- the rings cannot represent what the path was shown to carry
        | (session, false) => { e with session, pathMtu := none }
      else { e with pathMtu := some mtu' }

/-- Feed one received datagram. -/
def processInput (hashes : Hashes) (datagram : Str) (source : SocketAddr) (nowMs : F)
    (scratchLen : ℕ) : Endpoint n F × Except Error Inbound :=
  match Datagram.classify datagram with
  | .check =>
    match e.conn.processInput hashes datagram source with
    | (conn, .error error) => ({ e with conn }, .error error)
    | (conn, .ok inbound) => ({ e with conn }, .ok (.connectivity inbound))
  | .record =>
    match e.session.processInput datagram nowMs scratchLen with
    | (session, .error error) => ({ e with session }, .error error)
    | (session, .ok inbound) =>
      match inbound with
      | .probeAck id size => (onProbeAck { e with session } id size nowMs, .ok (.media inbound))
      | _ => ({ e with session }, .ok (.media inbound))

/-- Housekeeping for both engines. -/
def poll (nowMs : F) : Endpoint n F :=
  { conn := e.conn.poll nowMs
    session := e.session.poll nowMs
    pathMtu := e.pathMtu.map fun mtu =>
      if mtu.probe.isSome && F64.le (mtu.nextTimerMs nowMs) 0.0 then (mtu.onProbeTimeout nowMs).1
      else mtu }

/-- The session's next datagram, for the chosen path. -/
def mediaOutput (dest : SocketAddr) (nowMs : F) (outLen : ℕ) :
    Endpoint n F × Option (Except Error Conn.Egress) :=
  match e.session.getOutput nowMs outLen with
  | (session, out) => ({ e with session }, out.map (·.map fun bytes => ⟨dest, .default, bytes⟩))

/-- A path probe when one is due, and the session's next datagram otherwise. -/
def probeOutput (dest : SocketAddr) (nowMs : F) (outLen : ℕ) :
    Endpoint n F × Option (Except Error Conn.Egress) :=
  match e.pathMtu with
  | none => e.mediaOutput dest nowMs outLen
  | some mtu =>
    match mtu.startProbe nowMs with
    | (mtu, none) => mediaOutput { e with pathMtu := some mtu } dest nowMs outLen
    | (mtu, some probe) =>
      match e.session.emitPathProbe probe outLen with
      | (session, .ok bytes) =>
        ({ e with session, pathMtu := some mtu }, some (.ok ⟨dest, .default, bytes⟩))
      | (session, .error error) =>
        ({ e with session, pathMtu := some mtu.onProbeSendFailed.1 }, some (.error error))

/-- Emit the next datagram into a buffer of `outLen` bytes. -/
def getOutput (hashes : Hashes) (nowMs : F) (outLen : ℕ) :
    Endpoint n F × Option (Except Error Conn.Egress) :=
  match e.conn.getOutput hashes nowMs outLen with
  | (conn, some result) => ({ e with conn }, some result)
  | (conn, none) =>
    let e := { e with conn }
    match conn.path with
    | none => (e, none)
    | some dest =>
      if e.session.feedbackPending then e.mediaOutput dest nowMs outLen
      else e.probeOutput dest nowMs outLen

end Endpoint

/-! ## The pacer's bounds -/

namespace Pacer

variable {F : Type} [Double F] (p : Pacer F)

@[simp] theorem config_refill (nowMs : F) : (p.refill nowMs).config = p.config := by
  unfold refill
  repeat' split
  all_goals rfl

@[simp] theorem config_setRate (nowMs rateMbps : F) :
    (p.setRate nowMs rateMbps).config = p.config := by
  unfold setRate
  split <;> simp

@[simp] theorem config_setDatagramSize (datagramBytes : ℕ) :
    (p.setDatagramSize datagramBytes).1.config = p.config := by
  unfold setDatagramSize
  simp only
  split_ifs <;> rfl

@[simp] theorem config_tryConsume (nowMs : F) (bytes : ℕ) :
    (p.tryConsume nowMs bytes).1.config = p.config := by
  unfold tryConsume
  simp only
  split_ifs <;> simp

theorem setDatagramSize_ok {datagramBytes : ℕ} (hmin : p.config.minDatagramBytes ≤ datagramBytes)
    (hmax : datagramBytes ≤ p.config.maxDatagramBytes) :
    (p.setDatagramSize datagramBytes).2 = true := by
  unfold setDatagramSize
  rw [if_neg (by omega)]

end Pacer

namespace Session

variable {n : ℕ} [NeZero n] {F : Type} [Double F] (s : Session n F)

def Call.resizes : Call n F → Bool
  | .setPathDatagramSize _ | .recoverVideoPathDatagramSize _ | .applyPathMtu _ => true
  | _ => false

structure Kept (s s' : Session n F) : Prop where
  path : s'.pathDatagramSize = s.pathDatagramSize
  config : s'.pacer.config = s.pacer.config

theorem Kept.of_core {s s' : Session n F} (h : s'.core = s.core) : Kept s s' :=
  ⟨congrArg Core.path h, congrArg (·.pacer.config) h⟩

theorem Emits.kept {s s' : Session n F} {out : Option (Except Error Str)}
    (h : Emits s.core s'.core out) : Kept s s' := by
  refine ⟨h.path, ?_⟩
  obtain hp | ⟨nowMs, bytes, hp⟩ := h.pacer
  · exact congrArg Pacer.config hp
  · exact (congrArg Pacer.config hp).trans (s.pacer.config_tryConsume nowMs bytes)

theorem kept_emitPathProbe (probe : Probe) (outLen : ℕ) :
    Kept s (s.emitPathProbe probe outLen).1 := by
  have h : Emits s.core (s.emitPathProbe probe outLen).1.core
      (some (s.emitPathProbe probe outLen).2) := s.emits_emit _ outLen
  exact h.kept

theorem kept_run {call : Call n F} (hc : call.resizes = false) : Kept s (call.run s).1 := by
  cases call with
  | attachRecv channel ring => exact .of_core (s.core_attachRecv channel ring)
  | takeMessage channel outLen => exact .of_core (s.core_takeMessage channel outLen)
  | resetRecv channel sequence => exact .of_core (s.core_resetRecv channel sequence)
  | escapeStall channel resumable => exact .of_core (s.core_escapeStall channel resumable)
  | resetDeliveryWatchdog nowMs => exact .of_core (s.core_resetDeliveryWatchdog nowMs)
  | processInput datagram nowMs scratchLen =>
    exact .of_core (s.core_processInput datagram nowMs scratchLen)
  | poll nowMs => exact ⟨rfl, rfl⟩
  | getOutput nowMs outLen => exact (s.emits_getOutput nowMs outLen).kept
  | emitPathProbe probe outLen => exact s.kept_emitPathProbe probe outLen
  | setPacingRateMbps nowMs rateMbps => exact ⟨rfl, s.pacer.config_setRate nowMs rateMbps⟩
  | setPacingDatagramSize datagramBytes =>
    exact ⟨rfl, s.pacer.config_setDatagramSize datagramBytes⟩
  | attachSend channel ring =>
    simp only [Call.run]
    obtain h | ⟨c, ring', h⟩ := s.attachSend_cases channel ring
    · rw [h]
      exact ⟨rfl, rfl⟩
    · rw [h]
      exact ⟨rfl, rfl⟩
  | sendMessage channel header payload =>
    simp only [Call.run]
    obtain h | ⟨c, ring, message, -, h⟩ := s.sendMessage_cases channel header payload
    · rw [h]
      exact ⟨rfl, rfl⟩
    · rw [h]
      exact ⟨rfl, rfl⟩
  | setPathDatagramSize datagramBytes | applyPathMtu mtu
  | recoverVideoPathDatagramSize datagramBytes => simp [Call.resizes] at hc

theorem config_setPathDatagramSize (datagramBytes : ℕ) :
    (s.setPathDatagramSize datagramBytes).1.pacer.config = s.pacer.config := by
  obtain h | ⟨-, -, -, h⟩ := s.setPathDatagramSize_cases datagramBytes
  · rw [h]
  · rw [h]
    exact s.pacer.config_setDatagramSize datagramBytes

theorem config_recoverVideoPathDatagramSize (datagramBytes : ℕ) :
    (s.recoverVideoPathDatagramSize datagramBytes).1.pacer.config = s.pacer.config := by
  obtain h | ⟨-, -, h⟩ := s.recoverVideoPathDatagramSize_cases datagramBytes
  · rw [h]
  · rw [h]
    exact s.pacer.config_setDatagramSize datagramBytes

theorem config_run (call : Call n F) : (call.run s).1.pacer.config = s.pacer.config := by
  by_cases hc : call.resizes = false
  · exact (s.kept_run hc).config
  cases call with
  | setPathDatagramSize datagramBytes => exact s.config_setPathDatagramSize datagramBytes
  | applyPathMtu mtu =>
    simp only [Call.run, applyPathMtu]
    split
    · rfl
    · exact s.config_setPathDatagramSize mtu.datagramSize
  | recoverVideoPathDatagramSize datagramBytes =>
    exact s.config_recoverVideoPathDatagramSize datagramBytes
  | _ => exact absurd rfl hc

end Session

/-! ## Recovery -/

namespace SendChannel

variable {F : Type}

/-- The fragments of a ring, sent or not, and where the window stands over them. -/
def held (c : SendChannel F) : UInt32 × UInt32 × List (SendSlot F) :=
  (c.ring.base, c.ring.next, List.ofFn c.ring.slot)

variable [F64 F] (c : SendChannel F)

theorem held_setFragmentCapacity (capacity : ℕ) :
    (c.setFragmentCapacity capacity).1.held = c.held := by
  simp only [held, setFragmentCapacity, SendRing.setFragmentCapacity]
  split_ifs <;> rfl

theorem fragmentCapacity_setFragmentCapacity {capacity : ℕ}
    (h : c.canSetFragmentCapacity capacity = true) :
    (c.setFragmentCapacity capacity).1.fragmentCapacity = capacity := by
  simp [fragmentCapacity, setFragmentCapacity, SendRing.setFragmentCapacity,
    show c.ring.canSetFragmentCapacity capacity = true from h]

theorem discarded_setFragmentCapacity (capacity : ℕ) :
    let ring := (c.discardPending.1.setFragmentCapacity capacity).1.ring
    ring.base = ring.next ∧ ∀ i, (ring.slot i).occupied = false := by
  simp only [setFragmentCapacity, SendRing.setFragmentCapacity]
  split_ifs <;> exact ⟨rfl, fun _ => rfl⟩

theorem next_setFragmentCapacity (capacity : ℕ) :
    (c.setFragmentCapacity capacity).1.ring.next = c.ring.next :=
  congrArg (·.2.1) (c.held_setFragmentCapacity capacity)

end SendChannel

namespace Endpoint

variable {n : ℕ} [NeZero n] {F : Type} [Double F] {e : Endpoint n F}

inductive Recovers (nowMs : F) (e : Endpoint n F) : Endpoint n F × PathMtuRecovery → Prop
  | notConfigured (h : e.pathMtu = none) : Recovers nowMs e (e, .notConfigured)
  | unusable {mtu : PathMtu F} (h : e.pathMtu = some mtu) :
      mtu.datagramSize = FLOOR ∨ mtu.state = .error →
      Recovers nowMs e ({ e with pathMtu := some (mtu.onBlackHole nowMs).1 }, .unusable)
  | blocked {mtu : PathMtu F} (h : e.pathMtu = some mtu) :
      mtu.datagramSize ≠ FLOOR → e.session.canRecoverVideoPathDatagramSize FLOOR = false →
      Recovers nowMs e (e, .blocked)
  | recovered {mtu : PathMtu F} (h : e.pathMtu = some mtu) (dropped : UInt32)
      (hcan : e.session.canRecoverVideoPathDatagramSize FLOOR = true) :
      (mtu.onBlackHole nowMs).1.datagramSize = FLOOR →
      Recovers nowMs e
        ({ e with
            session := Session.resetDeliveryWatchdog
              { e.session with
                pacer := (e.session.pacer.setDatagramSize FLOOR).1
                send := fun c => (e.session.send c).map fun ring =>
                  ((if c = VIDEO_CHANNEL then ring.discardPending.1 else ring).setFragmentCapacity
                    (Session.bodyOf FLOOR)).1
                pathDatagramSize := FLOOR } nowMs
            pathMtu := some (mtu.onBlackHole nowMs).1 },
          .recovered mtu.datagramSize FLOOR dropped)

theorem recovers (hconfig : e.session.pacer.config = .compatibilityDefault F) (nowMs : F) :
    Recovers nowMs e (e.recoverPathBlackHole nowMs) := by
  have hpacer : (e.session.pacer.setDatagramSize FLOOR).2 = true := by
    apply Pacer.setDatagramSize_ok
    · rw [hconfig]
      exact Nat.le_refl FLOOR
    · rw [hconfig]
      exact (by decide : FLOOR ≤ 2000)
  unfold recoverPathBlackHole
  split
  · next h => exact .notConfigured h
  next mtu h =>
    simp only
    split_ifs with hfloor hcan
    · exact .unusable h (.inl hfloor)
    · exact .blocked h hfloor (by simpa using hcan)
    have hcases := mtu.onBlackHole_cases nowMs
    generalize hb : mtu.onBlackHole nowMs = result at hcases ⊢
    obtain ⟨mtu', told⟩ := result
    obtain ⟨herror, heq⟩ | ⟨htold, -, -, hcurrent, -⟩ := hcases
    · cases heq
      have hunusable : Recovers nowMs e _ := .unusable h (.inr herror)
      rwa [hb] at hunusable
    · cases htold
      obtain hrefused | ⟨-, -, hdone⟩ := e.session.recoverVideoPathDatagramSize_cases FLOOR
      · unfold Session.recoverVideoPathDatagramSize at hrefused
        rw [if_neg hcan] at hrefused
        generalize e.session.pacer.setDatagramSize FLOOR = set at hrefused hpacer
        obtain ⟨pacer, ok⟩ := set
        cases hpacer
        cases congrArg Prod.snd hrefused
      · have hsize : mtu'.datagramSize = FLOOR := hcurrent
        have hrecovered : Recovers nowMs e _ := .recovered h
          (((e.session.send VIDEO_CHANNEL).map fun ring => ring.discardPending.2).getD 0)
          (by simpa using hcan) (by rw [hb]; exact hsize)
        rw [hb] at hrecovered
        simp only [hsize, hdone]
        exact hrecovered

/-- All video and nothing else has gone, and both parts and every send ring are back at the base
size. -/
structure ShedsVideo (e e' : Endpoint n F) : Prop where
  path : e'.session.pathDatagramSize = FLOOR
  mtu : ∃ mtu, e'.pathMtu = some mtu ∧ mtu.datagramSize = FLOOR
  capacity : ∀ c ring, e'.session.send c = some ring →
    ring.fragmentCapacity = Session.bodyOf FLOOR
  video : ∀ ring, e'.session.send VIDEO_CHANNEL = some ring →
    ring.ring.base = ring.ring.next ∧ ∀ i, (ring.ring.slot i).occupied = false
  held : ∀ c, c ≠ VIDEO_CHANNEL →
    (e'.session.send c).map SendChannel.held = (e.session.send c).map SendChannel.held
  next : ∀ c, (e'.session.send c).map (·.ring.next) = (e.session.send c).map (·.ring.next)

theorem send_resetDeliveryWatchdog (s : Session n F) (nowMs : F) :
    (s.resetDeliveryWatchdog nowMs).send = s.send := by
  unfold Session.resetDeliveryWatchdog
  split <;> rfl

/-- Every ring of a recovery takes the base size, the video ring once it is empty. -/
theorem canSet_recovered {s : Session n F} (hcan : s.canRecoverVideoPathDatagramSize FLOOR = true)
    {c : Channel} {ring : SendChannel F} (hring : s.send c = some ring) :
    (if c = VIDEO_CHANNEL then ring.discardPending.1 else ring).canSetFragmentCapacity
      (Session.bodyOf FLOOR) = true := by
  unfold Session.canRecoverVideoPathDatagramSize at hcan
  split at hcan
  · cases hcan
  have hfits := of_decide_eq_true hcan c
  rw [hring, Option.all_some] at hfits
  split_ifs at hfits ⊢
  · have hroom : Session.bodyOf FLOOR ≤ ring.ring.slotLen := of_decide_eq_true hfits
    exact decide_eq_true ⟨by decide, hroom, by decide, fun i hi => by cases hi⟩
  · exact hfits

theorem Recovers.shedsVideo {nowMs : F} {e e' : Endpoint n F} {previous size : ℕ}
    {dropped : UInt32} (h : Recovers nowMs e (e', .recovered previous size dropped)) :
    ShedsVideo e e' := by
  cases h with
  | recovered h _ hcan hsize =>
    refine ⟨(Session.Kept.of_core (Session.core_resetDeliveryWatchdog _ nowMs)).path,
      ⟨_, rfl, hsize⟩, fun c ring hring => ?_, fun ring hring => ?_, fun c hc => ?_, fun c => ?_⟩
    · rw [send_resetDeliveryWatchdog] at hring
      obtain ⟨before, hbefore, rfl⟩ := Option.map_eq_some_iff.mp hring
      exact SendChannel.fragmentCapacity_setFragmentCapacity _ (canSet_recovered hcan hbefore)
    · rw [send_resetDeliveryWatchdog] at hring
      obtain ⟨before, -, rfl⟩ := Option.map_eq_some_iff.mp hring
      exact SendChannel.discarded_setFragmentCapacity before _
    · simp only [send_resetDeliveryWatchdog, Option.map_map, if_neg hc]
      congr 1
      funext ring
      exact ring.held_setFragmentCapacity _
    · simp only [send_resetDeliveryWatchdog, Option.map_map]
      congr 1
      funext ring
      rw [Function.comp_apply, SendChannel.next_setFragmentCapacity]
      by_cases hc : c = VIDEO_CHANNEL
      · rw [if_pos hc]
        rfl
      · rw [if_neg hc]

/-! ## Runs -/

/-- The calls of an endpoint, with those that reach one of its parts through `conn()` or
`session()`. -/
inductive Action (n : ℕ) (F : Type)
  | configurePathMtu (config : PathConfig) (nowMs : F)
  | processInput (datagram : Str) (source : SocketAddr) (nowMs : F) (scratchLen : ℕ)
  | poll (nowMs : F)
  | getOutput (nowMs : F) (outLen : ℕ)
  | recoverPathBlackHole (nowMs : F)
  | addCandidate (addr : SocketAddr)
  | addServer (addr : SocketAddr)
  | session (call : Session.Call n F)

def step (hashes : Hashes) (e : Endpoint n F) : Action n F → Endpoint n F
  | .configurePathMtu config nowMs => (e.configurePathMtu config nowMs).1
  | .processInput datagram source nowMs scratchLen =>
    (e.processInput hashes datagram source nowMs scratchLen).1
  | .poll nowMs => e.poll nowMs
  | .getOutput nowMs outLen => (e.getOutput hashes nowMs outLen).1
  | .recoverPathBlackHole nowMs => (e.recoverPathBlackHole nowMs).1
  | .addCandidate addr => { e with conn := (e.conn.addCandidate addr).1 }
  | .addServer addr => { e with conn := (e.conn.addServer addr).1 }
  | .session call => { e with session := (call.run e.session).1 }

def machine (hashes : Hashes) (start : Endpoint n F) : Machine (Endpoint n F) (Action n F) where
  start := start
  step e a := some (e.step hashes a)

/-- Nobody resizes the session behind the back of an installed controller. -/
def Leaves (e : Endpoint n F) : Action n F → Prop
  | .session call => call.resizes = false ∨ e.pathMtu.isNone = true
  | _ => True

instance (e : Endpoint n F) (a : Action n F) : Decidable (Leaves e a) := by
  cases a <;> simp only [Leaves] <;> infer_instance

/-- The session has the size of the search. -/
structure Agrees (e : Endpoint n F) : Prop where
  config : e.session.pacer.config = .compatibilityDefault F
  path : ∀ mtu, e.pathMtu = some mtu → e.session.pathDatagramSize = mtu.datagramSize

namespace Agrees

section

variable (h : Agrees e)

include h

theorem keep {conn : Conn F} {session : Session n F}
    {pathMtu : Option (PathMtu F)} (hs : Session.Kept e.session session)
    (hm : ∀ mtu', pathMtu = some mtu' →
      ∃ mtu, e.pathMtu = some mtu ∧ mtu'.datagramSize = mtu.datagramSize) :
    Agrees ⟨conn, session, pathMtu⟩ := by
  refine ⟨hs.config.trans h.config, fun mtu' hmtu' => ?_⟩
  obtain ⟨mtu, hmtu, hsize⟩ := hm mtu' hmtu'
  exact hs.path.trans ((h.path mtu hmtu).trans hsize.symm)

theorem keepSession {session : Session n F} (hs : Session.Kept e.session session) :
    Agrees { e with session } :=
  h.keep hs fun mtu hmtu => ⟨mtu, hmtu, rfl⟩

theorem keepConn (conn : Conn F) : Agrees { e with conn } :=
  h.keep ⟨rfl, rfl⟩ fun mtu hmtu => ⟨mtu, hmtu, rfl⟩

theorem setPath (mtu : PathMtu F) :
    (∃ s, e.session.setPathDatagramSize mtu.datagramSize = (s, true) ∧
      Agrees { e with session := s, pathMtu := some mtu }) ∨
    e.session.setPathDatagramSize mtu.datagramSize = (e.session, false) := by
  obtain heq | ⟨-, -, -, heq⟩ := e.session.setPathDatagramSize_cases mtu.datagramSize
  · exact .inr heq
  · refine .inl ⟨_, heq, (e.session.pacer.config_setDatagramSize _).trans h.config, ?_⟩
    intro mtu' hmtu'
    cases hmtu'
    rfl

theorem configurePathMtu (config : PathConfig) (nowMs : F) :
    Agrees (e.configurePathMtu config nowMs).1 := by
  unfold Endpoint.configurePathMtu
  simp only
  split
  · exact h
  obtain ⟨s, heq, hs⟩ | heq := h.setPath (PathMtu.newWithConfig config nowMs)
  · rw [heq]
    exact hs
  · rw [heq]
    exact h

theorem onProbeAck (id : UInt32) (size : ℕ) (nowMs : F) : Agrees (e.onProbeAck id size nowMs) := by
  unfold Endpoint.onProbeAck
  split
  · exact h
  next mtu hmtu =>
    have hcases := mtu.onProbeAck_cases id.toNat size nowMs
    split
    next mtu' acked heq =>
      rw [heq] at hcases
      split_ifs with hnew
      · obtain ⟨s, heq, hs⟩ | heq := h.setPath mtu'
        · rw [heq]
          exact hs
        · rw [heq]
          exact h.keep ⟨rfl, rfl⟩ (by simp)
      · refine h.keep ⟨rfl, rfl⟩ fun m hm => ⟨mtu, hmtu, ?_⟩
        cases hm
        -- an acknowledgement that is refused, or that repeats the size, changes no size
        obtain hsame | ⟨-, -, -, -, -, -, -, hacked⟩ := hcases
        · cases hsame
          rfl
        · cases hacked
          simpa using hnew

theorem processInput (hashes : Hashes) (datagram : Str) (source : SocketAddr)
    (nowMs : F) (scratchLen : ℕ) :
    Agrees (e.processInput hashes datagram source nowMs scratchLen).1 := by
  unfold Endpoint.processInput
  split
  · split
    · exact h.keepConn _
    · exact h.keepConn _
  have hs := h.keepSession (.of_core (e.session.core_processInput datagram nowMs scratchLen))
  split
  · next heq =>
    rw [heq] at hs
    exact hs
  next heq =>
    rw [heq] at hs
    split
    · next id size => exact hs.onProbeAck id size nowMs
    · exact hs

theorem poll (nowMs : F) : Agrees (e.poll nowMs) := by
  refine h.keep ⟨rfl, rfl⟩ fun mtu' hmtu' => ?_
  obtain ⟨mtu, hmtu, rfl⟩ := Option.map_eq_some_iff.mp hmtu'
  refine ⟨mtu, hmtu, ?_⟩
  split_ifs
  · obtain heq | ⟨-, -, -, -, hcurrent, -⟩ := mtu.onProbeTimeout_cases nowMs
    · rw [heq]
    · exact hcurrent
  · rfl

theorem mediaOutput (dest : SocketAddr) (nowMs : F) (outLen : ℕ) :
    Agrees (e.mediaOutput dest nowMs outLen).1 :=
  h.keepSession (e.session.emits_getOutput nowMs outLen).kept

theorem probeOutput (dest : SocketAddr) (nowMs : F) (outLen : ℕ) :
    Agrees (e.probeOutput dest nowMs outLen).1 := by
  unfold Endpoint.probeOutput
  split
  · exact h.mediaOutput dest nowMs outLen
  next mtu hmtu =>
    have hsize : (mtu.startProbe nowMs).1.datagramSize = mtu.datagramSize :=
      (mtu.startProbe_cases nowMs).current_eq
    split
    · next mtu' heq =>
      rw [heq] at hsize
      refine (h.keep ⟨rfl, rfl⟩ fun m hm => ⟨mtu, hmtu, ?_⟩).mediaOutput dest nowMs outLen
      cases hm
      exact hsize
    next mtu' probe heq =>
      rw [heq] at hsize
      have hkept := e.session.kept_emitPathProbe probe outLen
      split
      · next heq =>
        rw [heq] at hkept
        refine h.keep hkept fun m hm => ⟨mtu, hmtu, ?_⟩
        cases hm
        exact hsize
      · next heq =>
        rw [heq] at hkept
        refine h.keep hkept fun m hm => ⟨mtu, hmtu, ?_⟩
        cases hm
        obtain hfailed | ⟨-, -, hcurrent, -⟩ := mtu'.onProbeSendFailed_cases
        · rw [hfailed]
          exact hsize
        · exact hcurrent.trans hsize

theorem getOutput (hashes : Hashes) (nowMs : F) (outLen : ℕ) :
    Agrees (e.getOutput hashes nowMs outLen).1 := by
  unfold Endpoint.getOutput
  split
  · exact h.keepConn _
  next conn _ =>
    simp only
    split
    · exact h.keepConn conn
    split_ifs
    · exact (h.keepConn conn).mediaOutput _ nowMs outLen
    · exact (h.keepConn conn).probeOutput _ nowMs outLen

theorem recoverPathBlackHole (nowMs : F) : Agrees (e.recoverPathBlackHole nowMs).1 := by
  have hcases := recovers h.config nowMs
  generalize e.recoverPathBlackHole nowMs = result at hcases ⊢
  cases hcases with
  | notConfigured => exact h
  | blocked => exact h
  | unusable hmtu hsize =>
    next mtu =>
    refine h.keep ⟨rfl, rfl⟩ fun m hm => ⟨mtu, hmtu, ?_⟩
    cases hm
    obtain ⟨-, heq⟩ | ⟨htold, -, -, hcurrent, -⟩ := mtu.onBlackHole_cases nowMs
    · rw [heq]
    · obtain hfloor | herror := hsize
      · exact hcurrent.trans hfloor.symm
      · simp [PathMtu.onBlackHole, herror] at htold
  | recovered hmtu _ _ hsize =>
    refine ⟨?_, fun m hm => ?_⟩
    · rw [(Session.Kept.of_core (Session.core_resetDeliveryWatchdog _ nowMs)).config]
      exact (e.session.pacer.config_setDatagramSize _).trans h.config
    · cases hm
      rw [(Session.Kept.of_core (Session.core_resetDeliveryWatchdog _ nowMs)).path]
      exact hsize.symm

theorem step (hashes : Hashes) {a : Action n F} (ha : Leaves e a) : Agrees (e.step hashes a) := by
  cases a with
  | configurePathMtu config nowMs => exact h.configurePathMtu config nowMs
  | processInput datagram source nowMs scratchLen =>
    exact h.processInput hashes datagram source nowMs scratchLen
  | poll nowMs => exact h.poll nowMs
  | getOutput nowMs outLen => exact h.getOutput hashes nowMs outLen
  | recoverPathBlackHole nowMs => exact h.recoverPathBlackHole nowMs
  | addCandidate addr | addServer addr => exact h.keepConn _
  | session call =>
    obtain hc | hnone := ha
    · exact h.keepSession (e.session.kept_run hc)
    · refine ⟨(e.session.config_run call).trans h.config, fun mtu hmtu => ?_⟩
      rw [Option.isNone_iff_eq_none] at hnone
      cases hnone.symm.trans hmtu

end

end Agrees

theorem agrees_of_reach {hashes : Hashes} {conn : Conn F} {envelope : Envelope}
    {direction : Direction} {level : ℕ} {startMs : F}
    (h : (machine hashes (.new conn (.withDirection envelope direction level startMs))).ReachVia
      Leaves e) : Agrees e := by
  refine Machine.ReachVia.invariant ?_ (fun e a e' hagrees ha hstep => ?_) h
  · refine ⟨rfl, fun mtu hmtu => ?_⟩
    cases hmtu
  · cases hstep
    exact hagrees.step hashes ha

end Endpoint

open Endpoint in
/-- **Path-MTU controller and session agree** on the size. A recovery that is blocked changes
nothing; one that succeeds brings both and every send ring to the base size, drops all video and keeps
every other fragment. -/
theorem path_controller_agrees {n : ℕ} [NeZero n] {F : Type} [Double F] (hashes : Hashes)
    (conn : Conn F) (envelope : Envelope) (direction : Direction) (level : ℕ) (startMs : F)
    {e : Endpoint n F}
    (h : (machine hashes (.new conn (.withDirection envelope direction level startMs))).ReachVia
      Leaves e) :
    (∀ mtu, e.pathMtu = some mtu → e.session.pathDatagramSize = mtu.datagramSize) ∧
      ∀ nowMs,
        ((e.recoverPathBlackHole nowMs).2 = .blocked → (e.recoverPathBlackHole nowMs).1 = e) ∧
        ∀ previous size dropped,
          (e.recoverPathBlackHole nowMs).2 = .recovered previous size dropped →
          ShedsVideo e (e.recoverPathBlackHole nowMs).1 := by
  have hagrees := agrees_of_reach h
  refine ⟨hagrees.path, fun nowMs => ?_⟩
  have hcases := recovers hagrees.config nowMs
  generalize e.recoverPathBlackHole nowMs = result at hcases ⊢
  obtain ⟨e', answer⟩ := result
  refine ⟨fun hblocked => ?_, fun previous size dropped hrecovered => ?_⟩
  · cases hblocked
    cases hcases with
    | blocked => rfl
  · cases hrecovered
    exact hcases.shedsVideo

/-! ## A run -/

def plainRing (channel : Channel) : SendChannel Float :=
  ⟨4, ⟨by decide⟩, .fresh 1964 1193 channel⟩

def plainEnvelope : Envelope := ⟨.clear, [0, 0, 0, 0]⟩

/-- An endpoint whose punch has found a path. -/
def plainEndpoint : Endpoint 1 Float :=
  .new { Conn.new plainCredentials (Vector.replicate 16 0) 0 with state := .established (neighbour 1) }
    (.withDirection plainEnvelope .host 1 0)

def fromGuest (packet : ℕ → Except Error Str) : Str :=
  match packet MAX_DATAGRAM with
  | .error _ => []
  | .ok cleartext =>
    match plainEnvelope.sealInPlace Direction.guest.sealBit cleartext MAX_DATAGRAM with
    | .error _ => []
    | .ok datagram => datagram

open Endpoint in
theorem path_controller_agrees_recovers : ∃ e,
    (machine plainHashes plainEndpoint).ReachVia Leaves e ∧
      (e.recoverPathBlackHole 20).2 = .recovered 1280 1229 1 ∧
      e.pathMtu.map PathMtu.datagramSize = some 1280 ∧ e.session.pathDatagramSize = 1280 ∧
      ShedsVideo e (e.recoverPathBlackHole 20).1 := by
  obtain ⟨e, he, hanswer, hsize⟩ := Machine.exists_reachVia (M := machine plainHashes plainEndpoint)
    Leaves
    [.session (.attachSend 0 (plainRing 0)), .session (.attachSend 1 (plainRing 1)),
      .configurePathMtu (.defaultFor .direct) 0, .getOutput 0 MAX_DATAGRAM,
      .processInput (fromGuest (encodeProbeAck ⟨1, 1280⟩)) (neighbour 1) 10 MAX_DATAGRAM,
      .session (.sendMessage 1 [] [1, 2, 3])]
    (fun e => (e.recoverPathBlackHole 20).2 = .recovered 1280 1229 1 ∧
      e.pathMtu.map PathMtu.datagramSize = some 1280)
    (by decide +kernel)
  obtain ⟨hpath, hrecover⟩ := path_controller_agrees _ _ _ _ _ _ he
  obtain ⟨mtu, hmtu, hmtusize⟩ := Option.map_eq_some_iff.mp hsize
  exact ⟨e, he, hanswer, hsize, (hpath mtu hmtu).trans hmtusize, (hrecover 20).2 _ _ _ hanswer⟩

end OpenStream.Lowlat
