import OpenStream.Lib.Runs
import OpenStream.Lowlat.Peer

/-!
# What the calls of a session can do

Most of a session has nothing to do with counters or the path. What has is its `Core`: the envelope
and the next counter, the path's size and the pacer.

* **`emits_getOutput`**: output changes only the pacer's tokens and the counter, which it spends to
  seal one datagram.
* **`seals_run`**: so does every call with the counter.
-/

set_option linter.unusedSectionVars false

namespace OpenStream.Lowlat

open Bytes

variable {F : Type}

namespace Session

variable {out : Option (Except Error Str)}

/-! ## The core -/

/-- What of a session bears on the path and the counter of what it emits. -/
structure Core (F : Type) where
  envelope : Envelope
  direction : Direction
  txCounter : UInt64
  path : ℕ
  pacer : Pacer F

variable {n : ℕ} [NeZero n]

def core (s : Session n F) : Core F where
  envelope := s.envelope
  direction := s.direction
  txCounter := s.txCounter
  path := s.pathDatagramSize
  pacer := s.pacer

variable [Double F] (s : Session n F)

/-! ## Calls that leave it alone -/

variable (channel : UInt8)

theorem core_attachRecv (ring : RecvRing n) : (s.attachRecv channel ring).1.core = s.core := by
  unfold attachRecv
  split <;> rfl

theorem core_takeMessage (outLen : ℕ) : (s.takeMessage channel outLen).1.core = s.core := by
  unfold takeMessage
  split <;> rfl

theorem core_resetRecv (sequence : UInt32) : (s.resetRecv channel sequence).1.core = s.core := by
  unfold resetRecv
  split <;> rfl

theorem core_escapeStall (resumable : Str → Bool) :
    (s.escapeStall channel resumable).1.core = s.core := by
  unfold escapeStall
  split <;> rfl

theorem core_resetDeliveryWatchdog (nowMs : F) : (s.resetDeliveryWatchdog nowMs).core = s.core := by
  unfold resetDeliveryWatchdog
  split <;> rfl

theorem core_observeRtt (sampleMs : F) : (s.observeRtt sampleMs).core = s.core := by
  unfold observeRtt
  split_ifs <;> rfl

theorem core_processAck (ack : Ack) (nowMs : F) : (s.processAck ack nowMs).core = s.core := by
  unfold processAck
  split
  · rfl
  · rw [core_observeRtt]
    rfl

theorem core_processPacket (packet : Packet) (datagramLen : ℕ) (nowMs : F) :
    (s.processPacket packet datagramLen nowMs).1.core = s.core := by
  cases packet with
  | data data => rfl
  | ack ack => exact core_processAck s ack nowMs
  | probe probe =>
    simp only [processPacket]
    split_ifs <;> rfl
  | probeAck ack => rfl

def received (datagram : Str) (scratchLen : ℕ) : Option Packet :=
  if Direction.fromDatagram datagram ≠ some s.direction.opposite then none
  else
    match s.envelope.open_ datagram scratchLen with
    | .error _ => none
    | .ok opened =>
      match parse opened.cleartext with
      | .error _ => none
      | .ok packet => some packet

theorem processInput_eq (datagram : Str) (nowMs : F) (scratchLen : ℕ) :
    (s.processInput datagram nowMs scratchLen).1 =
      match s.received datagram scratchLen with
      | none => s
      | some packet =>
        (processPacket { s with lastProgressMs := nowMs } packet datagram.length nowMs).1 := by
  unfold processInput received
  split
  · rfl
  cases s.envelope.open_ datagram scratchLen with
  | error error => rfl
  | ok opened =>
    simp only
    cases parse opened.cleartext with
    | error error => rfl
    | ok packet => rfl

theorem core_processInput (datagram : Str) (nowMs : F) (scratchLen : ℕ) :
    (s.processInput datagram nowMs scratchLen).1.core = s.core := by
  rw [processInput_eq]
  split
  · rfl
  · exact core_processPacket _ _ _ _

/-! ## Calls that emit -/

def Core.Spends (k k' : Core F) : Prop :=
  k.txCounter.toNat < 2 ^ 63 ∧ k'.txCounter = k.txCounter + 1

/-- What any call may do with counters. -/
structure Seals (k k' : Core F) (out : Option (Except Error Str)) : Prop where
  envelope : k'.envelope = k.envelope
  direction : k'.direction = k.direction
  counter : k'.txCounter = k.txCounter ∨ k.Spends k'
  sealed : ∀ d, out = some (.ok d) → k.Spends k' ∧ ∃ plaintext outLen,
    k.envelope.sealInPlace (k.txCounter ||| k.direction.sealBit) plaintext outLen = .ok d

structure Emits (k k' : Core F) (out : Option (Except Error Str)) : Prop
    extends Seals k k' out where
  path : k'.path = k.path
  pacer : k'.pacer = k.pacer ∨ ∃ nowMs bytes, k'.pacer = (k.pacer.tryConsume nowMs bytes).1

theorem Seals.quiet {k k' : Core F}
    (he : k'.envelope = k.envelope) (hd : k'.direction = k.direction)
    (ht : k'.txCounter = k.txCounter) (h : ∀ d, out ≠ some (.ok d)) : Seals k k' out :=
  ⟨he, hd, .inl ht, fun d hd => absurd hd (h d)⟩

theorem Emits.quiet (k : Core F) (h : ∀ d, out ≠ some (.ok d)) : Emits k k out :=
  ⟨.quiet rfl rfl rfl h, rfl, .inl rfl⟩

theorem emits_seal (cleartext : Str) (outLen : ℕ) :
    Emits s.core (s.seal_ cleartext outLen).1.core (some (s.seal_ cleartext outLen).2) := by
  have hbit : ((1 : UInt64) <<< 63).toNat = 2 ^ 63 := by decide +kernel
  unfold seal_
  split
  · exact .quiet s.core fun d => by simp
  next htx =>
    rw [UInt64.le_iff_toNat_le, hbit, Nat.not_le] at htx
    refine ⟨⟨rfl, rfl, .inr ⟨htx, rfl⟩, fun d hd => ⟨⟨htx, rfl⟩, ?_⟩⟩, rfl, .inl rfl⟩
    exact ⟨cleartext, outLen, Option.some.inj hd⟩

theorem emits_emit (encode : ℕ → Except Error Str) (outLen : ℕ) :
    Emits s.core (s.emit encode outLen).1.core (some (s.emit encode outLen).2) := by
  unfold emit
  split
  · exact .quiet s.core fun d => by simp
  split
  · exact .quiet s.core fun d => by simp
  · next cleartext _ => exact s.emits_seal cleartext outLen

theorem pacer_seal (cleartext : Str) (outLen : ℕ) :
    (s.seal_ cleartext outLen).1.pacer = s.pacer := by
  unfold seal_
  split <;> rfl

theorem emits_release (data : Data) (channel : Channel) (nowMs : F) (outLen : ℕ) :
    Emits s.core (s.release channel data nowMs outLen).1.core
      (some (s.release channel data nowMs outLen).2) := by
  have hseal := s.emits_seal data.bytes outLen
  have hpacer := s.pacer_seal data.bytes outLen
  unfold release
  split
  · next s' e he =>
    rw [he] at hseal
    exact hseal
  · next s' d he =>
    rw [he] at hseal hpacer
    refine ⟨{ hseal with }, hseal.path, ?_⟩
    simp only [core]
    split
    · exact .inr ⟨nowMs, d.length, by rw [hpacer]⟩
    · exact .inl hpacer

theorem emits_drain (nowMs : F) (outLen : ℕ) : ∀ (m : ℕ) (s : Session n F),
    Emits s.core (drain nowMs outLen m s).1.core (drain nowMs outLen m s).2
  | 0, s => .quiet s.core fun d => by simp [drain]
  | m + 1, s => by
    -- rings and the place in the order are not of the core
    have hgo (send : Channel → Option (SendChannel F)) : Emits s.core
        (drain nowMs outLen m { s with send, drainChannel := s.drainChannel + 1 }).1.core
        (drain nowMs outLen m { s with send, drainChannel := s.drainChannel + 1 }).2 :=
      emits_drain nowMs outLen m { s with send, drainChannel := s.drainChannel + 1 }
    unfold drain
    split
    · exact .quiet s.core fun d => by simp
    next channel hchannel =>
      simp only
      split
      · split
        · exact hgo s.send
        split
        · exact .quiet s.core fun d => by simp
        split
        · exact .quiet s.core fun d => by simp
        split
        · next ring' data _ =>
          exact emits_release { s with send := Function.update s.send channel (some ring') } data
            channel nowMs outLen
        · exact .quiet s.core fun d => by simp
        · exact hgo _
      · exact hgo s.send

theorem core_beginDrain : s.beginDrain.core = s.core := by
  unfold beginDrain
  split
  · rfl
  · rfl

/-- **What `getOutput` can do.** -/
theorem emits_getOutput (nowMs : F) (outLen : ℕ) :
    Emits s.core (s.getOutput nowMs outLen).1.core (s.getOutput nowMs outLen).2 := by
  rw [← core_beginDrain s]
  unfold getOutput
  simp only
  generalize s.beginDrain = s
  have hack : Emits s.core (s.emitAck outLen).1.core (some (s.emitAck outLen).2) :=
    s.emits_emit _ outLen
  split
  · split
    · next s' e he =>
      rw [he] at hack
      exact hack
    · next s' d he =>
      rw [he] at hack
      exact hack
  split
  · next ack _ =>
    have hprobe : Emits s.core (s.emitProbeAck ack outLen).1.core
        (some (s.emitProbeAck ack outLen).2) := s.emits_emit _ outLen
    split
    · next s' e he =>
      rw [he] at hprobe
      exact hprobe
    · next s' d he =>
      rw [he] at hprobe
      exact hprobe
  · exact emits_drain nowMs outLen _ s

/-! ## Calls that change the core -/

theorem attachSend_cases (ring : SendChannel F) :
    (s.attachSend channel ring).1 = s ∨
      ∃ c ring',
        (s.attachSend channel ring).1 = { s with send := Function.update s.send c (some ring') } := by
  unfold attachSend
  simp only
  split
  · exact .inl rfl
  split
  · exact .inl rfl
  · exact .inr ⟨_, _, rfl⟩

theorem sendMessage_cases (header payload : Str) :
    (s.sendMessage channel header payload).1 = s ∨
      ∃ c ring message, s.send c = some ring ∧ (s.sendMessage channel header payload).1 =
        { s with send := Function.update s.send c (some (ring.enqueue message).1) } := by
  unfold sendMessage
  split
  · exact .inl rfl
  next c _ =>
    split
    · exact .inl rfl
    next ring hring =>
      split
      · exact .inl rfl
      · next message _ => exact .inr ⟨c, ring, message, hring, rfl⟩

theorem setPathDatagramSize_cases (datagramBytes : ℕ) :
    s.setPathDatagramSize datagramBytes = (s, false) ∨
      probeSize datagramBytes ∧
        (∀ c ring, s.send c = some ring → ring.canSetFragmentCapacity (bodyOf datagramBytes)) ∧
        (s.pacer.setDatagramSize datagramBytes).2 = true ∧
        s.setPathDatagramSize datagramBytes =
          ({ s with
              pacer := (s.pacer.setDatagramSize datagramBytes).1
              send := fun c => (s.send c).map fun ring =>
                (ring.setFragmentCapacity (bodyOf datagramBytes)).1
              pathDatagramSize := datagramBytes }, true) := by
  unfold setPathDatagramSize
  simp only
  split
  · exact .inl rfl
  next hsize =>
    split
    · exact .inl rfl
    next hrings =>
      split
      · exact .inl rfl
      · next pacer hp =>
        refine .inr ⟨by simpa using hsize, fun c ring hc => ?_, by rw [hp], by rw [hp]⟩
        by_contra hcap
        exact hrings ⟨c, by simp [hc, hcap]⟩

theorem recoverVideoPathDatagramSize_cases (datagramBytes : ℕ) :
    s.recoverVideoPathDatagramSize datagramBytes = (s, none) ∨
      s.canRecoverVideoPathDatagramSize datagramBytes ∧
        (s.pacer.setDatagramSize datagramBytes).2 = true ∧
        s.recoverVideoPathDatagramSize datagramBytes =
          ({ s with
              pacer := (s.pacer.setDatagramSize datagramBytes).1
              send := fun c => (s.send c).map fun ring =>
                ((if c = VIDEO_CHANNEL then ring.discardPending.1 else ring).setFragmentCapacity
                  (bodyOf datagramBytes)).1
              pathDatagramSize := datagramBytes },
            some (((s.send VIDEO_CHANNEL).map fun ring => ring.discardPending.2).getD 0)) := by
  unfold recoverVideoPathDatagramSize
  split
  · exact .inl rfl
  next hcan =>
    split
    · exact .inl rfl
    · next pacer hp => exact .inr ⟨by simpa using hcan, by rw [hp], by rw [hp]⟩

/-! ## All calls -/

/-- **Every call keeps the envelope and the direction and seals at most once, under a counter it
spends.** -/
theorem seals_run (call : Call n F) :
    Seals s.core (call.run s).1.core (call.run s).2 := by
  have hcore {s' : Session n F} (h : s'.core = s.core) :
      Seals s.core s'.core none := by
    rw [h]
    exact .quiet rfl rfl rfl fun d => by simp
  have hset (datagramBytes : ℕ) :
      Seals s.core (s.setPathDatagramSize datagramBytes).1.core none := by
    obtain h | ⟨-, -, -, h⟩ := s.setPathDatagramSize_cases datagramBytes
    · exact hcore (congrArg (core ·.1) h)
    · rw [h]
      exact .quiet rfl rfl rfl fun d => by simp
  cases call with
  | attachRecv channel ring => exact hcore (s.core_attachRecv channel ring)
  | takeMessage channel outLen => exact hcore (s.core_takeMessage channel outLen)
  | resetRecv channel sequence => exact hcore (s.core_resetRecv channel sequence)
  | escapeStall channel resumable => exact hcore (s.core_escapeStall channel resumable)
  | resetDeliveryWatchdog nowMs => exact hcore (s.core_resetDeliveryWatchdog nowMs)
  | processInput datagram nowMs scratchLen =>
    exact hcore (s.core_processInput datagram nowMs scratchLen)
  | poll nowMs => exact hcore rfl
  | getOutput nowMs outLen => exact (s.emits_getOutput nowMs outLen).toSeals
  | emitPathProbe probe outLen => exact (s.emits_emit _ outLen).toSeals
  | setPacingRateMbps nowMs rateMbps | setPacingDatagramSize datagramBytes =>
    exact .quiet rfl rfl rfl fun d => by simp [Call.run]
  | attachSend channel ring =>
    simp only [Call.run]
    obtain h | ⟨c, ring', h⟩ := s.attachSend_cases channel ring
    · exact hcore (congrArg core h)
    · rw [h]
      exact .quiet rfl rfl rfl fun d => by simp
  | sendMessage channel header payload =>
    simp only [Call.run]
    obtain h | ⟨c, ring, message, -, h⟩ := s.sendMessage_cases channel header payload
    · exact hcore (congrArg core h)
    · rw [h]
      exact .quiet rfl rfl rfl fun d => by simp
  | setPathDatagramSize datagramBytes => exact hset datagramBytes
  | applyPathMtu mtu =>
    simp only [Call.run, applyPathMtu]
    split
    · exact hcore rfl
    · exact hset mtu.datagramSize
  | recoverVideoPathDatagramSize datagramBytes =>
    simp only [Call.run]
    obtain h | ⟨-, -, h⟩ := s.recoverVideoPathDatagramSize_cases datagramBytes
    · exact hcore (congrArg (core ·.1) h)
    · rw [h]
      exact .quiet rfl rfl rfl fun d => by simp

/-! ## Runs -/

def calls (start : Session n F) : Runs.Machine (Session n F) (Call n F) :=
  ⟨start, fun s call => some (call.run s).1⟩

end Session

end OpenStream.Lowlat
