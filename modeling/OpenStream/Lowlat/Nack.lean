import OpenStream.Lowlat.Endpoint
import OpenStream.Lowlat.RecvRuns
import OpenStream.Lowlat.SendRuns

/-!
# Negative acknowledgements

An acknowledgement says that something is missing and names the datagram that prompted it; the peer
sends again what it has in flight on that datagram's channel. Whether something is missing is asked of
every ring, whichever channel the datagram was of.

* **`nack_names_gap`**
* **`nack_misnamed`**
-/

set_option linter.unusedSectionVars false

namespace OpenStream.Lowlat

open Bytes Runs

variable {n : ℕ} [NeZero n] {F : Type}

theorem RecvRing.hasGap_takeMessage (r : RecvRing n) (outLen : ℕ) :
    (r.takeMessage outLen).1.hasGap = r.hasGap := by
  obtain h | ⟨k, -, h⟩ := r.takeMessage_cases outLen
  · rw [h]
  · rw [h]
    rfl

/-! ## Gaps of the receiving half -/

namespace RecvHalf

def gap (h : RecvHalf n F) (channel : Channel) : Bool := (h.recv channel).any RecvRing.hasGap

def GapOnly (h : RecvHalf n F) (channel : Channel) : Prop := ∀ c, c ≠ channel → h.gap c = false

instance (h : RecvHalf n F) (channel : Channel) : Decidable (h.GapOnly channel) :=
  inferInstanceAs (Decidable (∀ c, c ≠ channel → h.gap c = false))

/-- The gaps, if any, are on the channel of the datagram that prompts the next acknowledgement. -/
def Pointed (h : RecvHalf n F) : Prop := h.GapOnly h.trigger.1

variable {h : RecvHalf n F}

theorem Pointed.congr {h' : RecvHalf n F} (hp : h.Pointed) (hrecv : h'.recv = h.recv)
    (htrigger : h'.trigger = h.trigger) : h'.Pointed := by
  intro c hc
  rw [htrigger] at hc
  have := hp c hc
  rwa [gap, ← hrecv] at this

theorem Pointed.replace (hp : h.Pointed) {channel : Channel} {ring : RecvRing n}
    (hring : h.gap channel = false → ring.hasGap = false) :
    Pointed { h with recv := Function.update h.recv channel (some ring) } := by
  intro c hc
  by_cases hch : c = channel
  · subst hch
    simp only [gap, Function.update_self, Option.any_some]
    exact hring (hp c hc)
  · simp only [gap, Function.update_of_ne hch]
    exact hp c hc

theorem Pointed.takeMessage (hp : h.Pointed) (channel : Channel) (outLen : ℕ) :
    (h.takeMessage channel outLen).1.Pointed := by
  unfold RecvHalf.takeMessage
  split
  · exact hp
  · next ring hring =>
    refine hp.replace fun hgap => ?_
    rw [RecvRing.hasGap_takeMessage]
    simpa [gap, hring] using hgap

variable [F64 F]

theorem Pointed.poll (hp : h.Pointed) (nowMs : F) : (h.poll nowMs).Pointed := by
  unfold RecvHalf.poll
  split
  · exact hp.congr rfl rfl
  · exact hp

theorem Pointed.processData (hp : h.Pointed) {data : Data} (hdata : h.GapOnly data.channel) :
    (h.processData data).1.Pointed := by
  unfold RecvHalf.processData
  split
  · exact hp
  simp only
  split
  · exact hdata
  · intro c hc
    exact (congrArg (Option.any RecvRing.hasGap) (Function.update_of_ne hc _ _)).trans (hdata c hc)

theorem Pointed.ack (hp : h.Pointed) (hnack : h.ack.nack = true) :
    h.gap h.ack.triggerChannel = true := by
  simp only [RecvHalf.ack, decide_eq_true_eq] at hnack ⊢
  obtain ⟨⟨c, hc⟩, hkind⟩ := hnack
  rw [if_neg hkind]
  by_contra hno
  have hother : c ≠ h.trigger.1 := by
    intro heq
    subst heq
    exact hno hc
  have hnone : (h.recv c).any RecvRing.hasGap = false := hp c hother
  rw [hnone] at hc
  cases hc

end RecvHalf

/-! ## Calls -/

namespace Session

variable [Double F]

variable (s : Session n F)

def incoming (datagram : Str) (scratchLen : ℕ) : Option Data :=
  match s.received datagram scratchLen with
  | some (.data data) => some data
  | _ => none

theorem half_processAck (ack : Ack) (nowMs : F) : (s.processAck ack nowMs).half = s.half := by
  unfold processAck
  simp only
  split
  · rfl
  · unfold observeRtt
    split_ifs <;> rfl

theorem half_processInput (datagram : Str) (nowMs : F) (scratchLen : ℕ) :
    (s.processInput datagram nowMs scratchLen).1.half =
      match s.incoming datagram scratchLen with
      | none => s.half
      | some data => (s.half.processData data).1 := by
  rw [processInput_eq]
  unfold incoming
  cases s.received datagram scratchLen with
  | none => rfl
  | some packet =>
    cases packet with
    | data data => rfl
    | ack ack => exact half_processAck _ ack nowMs
    | probe probe =>
      simp only [processPacket]
      split_ifs <;> rfl
    | probeAck ack => rfl

theorem half_seal (cleartext : Str) (outLen : ℕ) : (s.seal_ cleartext outLen).1.half = s.half := by
  unfold seal_
  split <;> rfl

theorem half_emit (encode : ℕ → Except Error Str) (outLen : ℕ) :
    (s.emit encode outLen).1.half = s.half := by
  unfold emit
  split
  · rfl
  split
  · rfl
  · exact half_seal s _ outLen

theorem half_release (channel : Channel) (data : Data) (nowMs : F) (outLen : ℕ) :
    (s.release channel data nowMs outLen).1.half = s.half := by
  have hseal := s.half_seal data.bytes outLen
  unfold release
  split <;> next he =>
    rw [he] at hseal
    exact hseal

theorem half_drain (nowMs : F) (outLen : ℕ) : ∀ (k : ℕ) (s : Session n F),
    (drain nowMs outLen k s).1.half = s.half
  | 0, s => rfl
  | k + 1, s => by
    unfold drain
    split
    · rfl
    simp only
    split
    · split
      · exact half_drain nowMs outLen k _
      split
      · rfl
      split
      · rfl
      split
      · exact half_release _ _ _ nowMs outLen
      · rfl
      · exact half_drain nowMs outLen k _
    · exact half_drain nowMs outLen k _

theorem half_beginDrain : s.beginDrain.half = s.half := by
  unfold beginDrain
  split <;> rfl

theorem pointed_getOutput (hp : s.half.Pointed) (nowMs : F) (outLen : ℕ) :
    (s.getOutput nowMs outLen).1.half.Pointed := by
  rw [← s.half_beginDrain] at hp
  unfold getOutput
  simp only
  generalize s.beginDrain = s at hp
  split
  · have hhalf := s.half_emit (encodeAck s.half.ack) outLen
    split
    · next he =>
      rw [show s.emit (encodeAck s.half.ack) outLen = _ from he] at hhalf
      exact hp.congr (congrArg _ hhalf) (congrArg _ hhalf)
    · next s' d he =>
      rw [show s.emit (encodeAck s.half.ack) outLen = _ from he] at hhalf
      rw [hhalf]
      unfold RecvHalf.getOutput
      split
      · exact hp.congr rfl rfl
      · exact hp
  split
  · next ack hack =>
    have hhalf := s.half_emit (encodeProbeAck ack) outLen
    split <;> next he =>
      rw [show s.emit (encodeProbeAck ack) outLen = _ from he] at hhalf
      exact hp.congr (congrArg _ hhalf) (congrArg _ hhalf)
  · rw [half_drain]
    exact hp

/-! ## The condition -/

def InTurn : Call n F → Prop
  | .processInput datagram _ scratchLen =>
    ∀ data ∈ s.incoming datagram scratchLen, s.half.GapOnly data.channel
  | .attachRecv _ ring => ring.hasGap = false
  | _ => True

instance (call : Call n F) : Decidable (s.InTurn call) := by
  unfold InTurn
  split <;> infer_instance

theorem half_setPathDatagramSize (datagramBytes : ℕ) :
    (s.setPathDatagramSize datagramBytes).1.half = s.half := by
  obtain h | ⟨-, -, -, h⟩ := s.setPathDatagramSize_cases datagramBytes
  · rw [h]
  · rw [h]

theorem pointed_run (hp : s.half.Pointed) {call : Call n F} (hok : s.InTurn call) :
    (call.run s).1.half.Pointed := by
  cases call with
  | attachRecv channel ring =>
    simp only [Call.run, attachRecv]
    split
    · exact hp
    · exact hp.replace fun _ => hok
  | takeMessage channel outLen =>
    simp only [Call.run, takeMessage]
    split
    · exact hp
    · exact hp.takeMessage _ outLen
  | resetRecv channel sequence =>
    simp only [Call.run, resetRecv]
    split
    · exact hp
    · exact hp.replace fun _ => by simp [RecvRing.hasGap, RecvRing.resetTo]
  | escapeStall channel resumable =>
    simp only [Call.run, escapeStall]
    split
    · exact hp
    · next c ring hring =>
      obtain ⟨c', -, hc⟩ := Option.bind_eq_some_iff.mp hring
      obtain ⟨ring', hring', heq⟩ := Option.map_eq_some_iff.mp hc
      cases heq
      refine hp.replace fun hgap => ?_
      have hno : ring.hasGap = false := by simpa [RecvHalf.gap, hring'] using hgap
      simp [RecvRing.escapeStall, hno]
  | processInput datagram nowMs scratchLen =>
    simp only [Call.run, half_processInput]
    split
    · exact hp
    · next data hdata => exact hp.processData (hok data hdata)
  | poll nowMs => exact hp.poll nowMs
  | getOutput nowMs outLen => exact s.pointed_getOutput hp nowMs outLen
  | emitPathProbe probe outLen =>
    have hhalf := s.half_emit (encodeProbe ⟨UInt32.ofNat probe.id, probe.size⟩) outLen
    exact hp.congr (congrArg _ hhalf) (congrArg _ hhalf)
  | attachSend channel ring =>
    simp only [Call.run]
    obtain h | ⟨c, ring', h⟩ := s.attachSend_cases channel ring
    · rw [h]
      exact hp
    · rw [h]
      exact hp
  | sendMessage channel header payload =>
    simp only [Call.run]
    obtain h | ⟨c, ring, message, -, h⟩ := s.sendMessage_cases channel header payload
    · rw [h]
      exact hp
    · rw [h]
      exact hp
  | setPacingRateMbps nowMs rateMbps => exact hp
  | setPacingDatagramSize datagramBytes => exact hp
  | setPathDatagramSize datagramBytes =>
    simp only [Call.run, half_setPathDatagramSize]
    exact hp
  | recoverVideoPathDatagramSize datagramBytes =>
    simp only [Call.run]
    obtain h | ⟨-, -, h⟩ := s.recoverVideoPathDatagramSize_cases datagramBytes
    · rw [h]
      exact hp
    · rw [h]
      exact hp
  | applyPathMtu mtu =>
    simp only [Call.run, applyPathMtu]
    split
    · exact hp
    · rw [half_setPathDatagramSize]
      exact hp
  | resetDeliveryWatchdog nowMs =>
    simp only [Call.run, resetDeliveryWatchdog]
    split
    · exact hp
    · exact hp

/-! ## What leaves -/

/-- The acknowledgement that `getOutput` lets out. -/
def ackOutput (nowMs : F) (outLen : ℕ) : Option Ack :=
  (s.half.getOutput nowMs (s.beginDrain.emitAck outLen).2.isOk).2

theorem ackOutput_eq_some {nowMs : F} {outLen : ℕ} {ack : Ack} :
    s.ackOutput nowMs outLen = some ack ↔ s.half.ackDue = true ∧
      (s.beginDrain.emitAck outLen).2.isOk = true ∧ ack = s.half.ack := by
  unfold ackOutput RecvHalf.getOutput
  split
  · next h =>
    rw [Bool.and_eq_true] at h
    simp [h, eq_comm]
  · next h =>
    rw [Bool.and_eq_true] at h
    constructor
    · simp
    · intro h'
      exact absurd ⟨h'.1, h'.2.1⟩ h

theorem getOutput_of_ackOutput {nowMs : F} {outLen : ℕ} {ack : Ack}
    (h : s.ackOutput nowMs outLen = some ack) :
    (s.getOutput nowMs outLen).2 = some (s.beginDrain.emit (encodeAck ack) outLen).2 := by
  obtain ⟨hdue, -, rfl⟩ := s.ackOutput_eq_some.mp h
  rw [← s.half_beginDrain] at hdue ⊢
  simp only [getOutput, hdue, if_true, emitAck]
  split <;> simp_all

end Session

theorem SendRing.nackBelow_onAck [F64 F] {r : SendRing n F} {ack : Ack} {nowMs : F}
    (h : (r.onAck ack nowMs).1.nackBelow ≠ r.nackBelow) :
    ack.nack = true ∧ ack.triggerChannel = r.channel := by
  by_contra hno
  obtain ⟨slot, hs⟩ := ackTrigger_eq r.base ((r.ackCumulative ack).ackNack ack) ack nowMs
  have hchannel : (r.ackCumulative ack).channel = r.channel ∧
      (r.ackCumulative ack).nackBelow = r.nackBelow := by
    obtain ⟨h, -⟩ | ⟨k, -, hk, -, -, -, h⟩ := r.ackCumulative_cases ack
    · rw [h]
      exact ⟨rfl, rfl⟩
    · have hdist : (r.base + UInt32.ofNat k - r.base).toNat = k := by
        rw [UInt32.add_comm, UInt32.add_sub_cancel, Serial.toNat_ofNat_lt (by omega)]
      obtain ⟨bytesAcked, ha⟩ := accountLoop_eq k r.base r hk
      rw [h]
      simp only [advanceBase, hdist, ha, and_self]
  have hquiet : (r.ackCumulative ack).ackNack ack = r.ackCumulative ack := by
    unfold ackNack
    rw [if_neg]
    rw [hchannel.1]
    simpa using hno
  refine h ?_
  rw [SendRing.onAck, hs, hquiet]
  exact hchannel.2

/-! ## Results -/

open Session in
/-- **A negative acknowledgement names a channel that is missing something**, in every run in which
data arrives while no other channel has a gap: what the peer sends again is on a channel with a
gap. The acknowledgement is what `getOutput` emits. -/
theorem nack_names_gap [Double F] (start : Session n F) (hstart : ∀ c, start.half.gap c = false)
    {s : Session n F} (h : (calls start).ReachVia InTurn s) (nowMs : F) (outLen : ℕ) {ack : Ack}
    (hack : s.ackOutput nowMs outLen = some ack) :
    (ack.nack = true → s.half.gap ack.triggerChannel = true) ∧
      (s.getOutput nowMs outLen).2 = some (s.beginDrain.emit (encodeAck ack) outLen).2 ∧
      ∀ {m : ℕ} [NeZero m] (ring : SendRing m F) (atMs : F),
        (ring.onAck ack atMs).1.nackBelow ≠ ring.nackBelow → s.half.gap ring.channel = true := by
  have hp : s.half.Pointed := by
    refine Machine.ReachVia.invariant (I := fun s : Session n F => s.half.Pointed)
      (fun c _ => hstart c) (fun s call s' hp hok hstep => ?_) h
    cases hstep
    exact s.pointed_run hp hok
  have hout := s.getOutput_of_ackOutput hack
  obtain ⟨-, -, rfl⟩ := s.ackOutput_eq_some.mp hack
  refine ⟨hp.ack, hout, fun ring atMs hring => ?_⟩
  obtain ⟨hnack, hchannel⟩ := SendRing.nackBelow_onAck hring
  rw [← hchannel]
  exact hp.ack hnack

def fragmentOf (channel : Channel) (seq : UInt32) : Str :=
  fromGuest fun _ => .ok (Data.bytes ⟨channel, seq, true, [0, 0, 0, 0]⟩)

def plainSession : Session 2 Float := .withDirection plainEnvelope .host 1 0

open Session in
/-- A fragment arrives past a missing one on the only channel in use. -/
theorem nack_names_gap_one_channel : ∃ s, (calls plainSession).ReachVia InTurn s ∧
    ∃ ack, s.ackOutput 1 MAX_DATAGRAM = some ack ∧ ack.nack = true ∧ ack.triggerChannel = 1 ∧
      s.half.gap ack.triggerChannel = true := by
  obtain ⟨s, hs, hack⟩ := Machine.exists_reachVia (M := calls plainSession) InTurn
    [.attachRecv 1 (.fresh 16), .attachRecv 2 (.fresh 16),
      .processInput (fragmentOf 2 0) 0 MAX_DATAGRAM, .processInput (fragmentOf 1 1) 0 MAX_DATAGRAM]
    (fun s => (s.ackOutput 1 MAX_DATAGRAM).any fun ack =>
      ack.nack && decide (ack.triggerChannel = 1))
    (by decide +kernel)
  rw [Option.any_eq_true] at hack
  obtain ⟨ack, hsome, hprop⟩ := hack
  rw [Bool.and_eq_true, decide_eq_true_iff] at hprop
  exact ⟨s, hs, ack, hsome, hprop.1, hprop.2,
    (nack_names_gap plainSession (by decide +kernel) hs 1 MAX_DATAGRAM hsome).1 hprop.1⟩

def fourSent : List (SendRing.Use Float) :=
  List.replicate 4 (.enqueue ⟨[], [7], by decide⟩) ++
    List.replicate 5 (.pollSend ⟨0, 100, 1, 64⟩)

def guestRing : Machine (SendRing 8 Float) (SendRing.Use Float) := SendRing.uses (.fresh 16 16 2)

open Session in
/-- **A gap on channel 1 makes the guest send channel 2 again**, on whose ring there is none. -/
theorem nack_misnamed : ∃ s, (calls plainSession).Reach s ∧
    ∃ ack, s.ackOutput 1 MAX_DATAGRAM = some ack ∧ ack.nack = true ∧ ack.triggerChannel = 2 ∧
      (s.half.recv 2).isSome = true ∧ s.half.gap 2 = false ∧ s.half.gap 1 = true ∧
      ∃ ring, guestRing.Reach ring ∧ (ring.polled ⟨1, 100, 1, 64⟩).2 = none ∧
        ((ring.onAck ack 1).1.polled ⟨1, 100, 1, 64⟩).2.isSome = true := by
  obtain ⟨s, hs, hrecv, hgap2, hgap1, hack⟩ := Machine.exists_reachVia (M := calls plainSession)
    (fun _ _ => True)
    [.attachRecv 1 (.fresh 16), .attachRecv 2 (.fresh 16),
      .processInput (fragmentOf 1 1) 0 MAX_DATAGRAM, .processInput (fragmentOf 2 3) 0 MAX_DATAGRAM]
    (fun s => (s.half.recv 2).isSome = true ∧ s.half.gap 2 = false ∧ s.half.gap 1 = true ∧
      (s.ackOutput 1 MAX_DATAGRAM).any fun ack => ack.nack && decide (ack.triggerChannel = 2) &&
        (guestRing.runVia (fun _ _ => True) guestRing.start fourSent).any fun ring =>
          decide ((ring.polled ⟨1, 100, 1, 64⟩).2 = none) &&
            ((ring.onAck ack 1).1.polled ⟨1, 100, 1, 64⟩).2.isSome)
    (by decide +kernel)
  simp only [Option.any_eq_true, Bool.and_eq_true, decide_eq_true_eq] at hack
  obtain ⟨ack, hsome, ⟨hnack, hchannel⟩, ring, hring, hquiet, hagain⟩ := hack
  exact ⟨s, hs, ack, hsome, hnack, hchannel, hrecv, hgap2, hgap1, ring,
    Machine.ReachVia.run .start hring, hquiet, hagain⟩

end OpenStream.Lowlat
