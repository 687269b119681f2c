import OpenStream.HostIpc.Token
import OpenStream.Inject.Release
import Mathlib.Data.Prod.Lex

/-!
# The broker's input devices

A payload is an input event, or a control message from an older client. The sink reads it, checks it
against the grant and passes it to the injector; a lease on what is held runs from the last one.

* **`NativeInputSink.opens_stretch`**: a position after a release reaches the injector if it is
  later than all before the release. **`NativeInputSink.swallowed`**: not otherwise.
-/

namespace OpenStream.HostBroker

open Bytes HostIpc Inject

inductive InputKind
  | keyboard
  | pointerMotion
  | pointerButton
  | wheel
  | gamepadButton
  | gamepadAxis
  | release
  | gamepadUnplug
  | penMotion
  | penButton
  | penProximity
  deriving DecidableEq

namespace InputKind

/-- The kinds by their bytes, from one on. -/
def all : List InputKind := [keyboard, pointerMotion, pointerButton, wheel, gamepadButton,
  gamepadAxis, release, gamepadUnplug, penMotion, penButton, penProximity]

def allowed (p : Permissions) : InputKind → Bool
  | keyboard => p.keyboard
  | pointerMotion | pointerButton | wheel => p.pointer
  | release => true
  | gamepadButton | gamepadAxis | gamepadUnplug => p.gamepad
  | penMotion | penButton | penProximity => false

end InputKind

structure InputEvent where
  kind : InputKind
  flags : BitVec 16
  deviceId : BitVec 32
  code : BitVec 32
  value : BitVec 32
  value2 : BitVec 32
  timestampUs : ℕ
  deriving DecidableEq

/-- The number in the bytes from `offset` on. -/
def field (bytes : Str) (offset len : ℕ) : ℕ := ofBe ((bytes.drop offset).take len)

/-- A control message: three words, an opcode and a body. -/
def parse (content : Str) : Option Control :=
  if content.length < 13 then none
  else some ⟨field content 12 1, .ofNat 32 (field content 0 4), .ofNat 32 (field content 4 4),
    .ofNat 32 (field content 8 4), content.drop 13⟩

namespace InputEvent

/-- `OI`, a version, the fields, and two bytes that are zero. -/
def decode (bytes : Str) : Option InputEvent :=
  if bytes.length = 32 ∧ bytes.take 3 = [79, 73, 1] ∧ bytes.drop 30 = [0, 0] then
    ((none :: InputKind.all.map some)[field bytes 3 1]?.join).map fun kind =>
      ⟨kind, .ofNat 16 (field bytes 4 2), .ofNat 32 (field bytes 6 4), .ofNat 32 (field bytes 10 4),
        .ofNat 32 (field bytes 14 4), .ofNat 32 (field bytes 18 4), field bytes 22 8⟩
  else none

variable (e : InputEvent)

def relative : Bool := e.flags &&& 1 ≠ 0

def pressed : BitVec 32 := if e.value ≠ 0 then 1 else 0

def lowlatFields : Control :=
  match e.kind with
  | .keyboard => ⟨op.KEYBOARD, e.code, e.flags.setWidth 32, e.pressed, []⟩
  | .pointerMotion => ⟨op.MOUSE_MOTION, if e.relative then 1 else 0, e.value, e.value2, []⟩
  | .pointerButton => ⟨op.MOUSE_BUTTON, e.code, e.pressed, 0, []⟩
  | .wheel => ⟨op.MOUSE_WHEEL, e.value, e.value2, 0, []⟩
  | .gamepadButton => ⟨op.GAMEPAD_BUTTON, e.code, e.pressed, e.deviceId, []⟩
  | .gamepadAxis => ⟨op.GAMEPAD_AXIS, e.code,
      (BitVec.ofInt 16 (max (-32768) (min 32767 e.value.toInt))).setWidth 32, e.deviceId, []⟩
  | .release => ⟨op.RELEASE, 0, 0, 0, []⟩
  | .gamepadUnplug => ⟨op.GAMEPAD_UNPLUG, 0, 0, e.deviceId, []⟩
  | .penMotion => ⟨op.MOUSE_MOTION, 0, e.value, e.value2, []⟩
  | .penButton => ⟨op.MOUSE_BUTTON, e.code, e.pressed, 0, []⟩
  | .penProximity => ⟨17, 0, 0, 0, []⟩

def absolute : Bool := e.kind = .pointerMotion && !e.relative

/-- What positions are ordered by. -/
def key : ℕ ×ₗ ℤ ×ₗ ℤ := toLex (e.timestampUs, toLex (e.value.toInt, e.value2.toInt))

end InputEvent

/-- The newest absolute position that was admitted. -/
abbrev MotionGate := Option (ℕ ×ₗ ℤ ×ₗ ℤ)

def MotionGate.admit (gate : MotionGate) (e : InputEvent) : Bool × MotionGate :=
  if !e.absolute then (true, gate)
  else if gate.any (e.key ≤ ·) then (false, gate)
  else (true, some e.key)

/-- The devices are there, and the calls of the injector are given back. -/
structure NativeInputSink where
  motion : MotionGate
  /-- When the lease was renewed, if it is held. -/
  lease : Option ℕ
  lastGrants : Option Permissions

namespace NativeInputSink

def new : NativeInputSink := ⟨none, none, none⟩

def grants (granted : Capabilities) : Permissions :=
  ⟨granted.contains .KEYBOARD, granted.contains .MOUSE, granted.contains .GAMEPAD⟩

def apply (s : NativeInputSink) (nowUs : ℕ) (payload : Str) (p : Permissions) :
    NativeInputSink × List Inject.Action :=
  match InputEvent.decode payload with
  | some e =>
    let admitted := s.motion.admit e
    let s := { s with motion := admitted.2 }
    if !admitted.1 || !e.kind.allowed p then (s, [])
    else
      let fields := e.lowlatFields
      ({ s with lease := if e.kind = .release then none else some nowUs },
        [if fields.opcode = op.RELEASE then .releaseAll else .control fields])
  | none =>
    match parse payload with
    | some m =>
      ({ s with lease := if m.opcode = op.RELEASE then none else some nowUs }, [.control m])
    | none => (s, [])

def inject (s : NativeInputSink) (nowUs : ℕ) (payload : Str) (granted : Capabilities) :
    NativeInputSink × List Inject.Action :=
  let p := grants granted
  let calls := if s.lastGrants = some p then [] else [.setPermissions p]
  let r := { s with lastGrants := some p }.apply nowUs payload p
  (r.1, calls ++ r.2)

/-! ## Stretches of input -/

/-- A payload with its time and the grant then. -/
structure Given where
  nowUs : ℕ
  payload : Str
  granted : Capabilities

def Given.position (x : Given) : Option InputEvent :=
  (InputEvent.decode x.payload).filter (·.absolute)

def after (s : NativeInputSink) (x : Given) : NativeInputSink :=
  (s.inject x.nowUs x.payload x.granted).1

variable {s : NativeInputSink} {x : Given} {xs : List Given} {e : InputEvent}

theorem motion_after (s : NativeInputSink) (x : Given) : (s.after x).motion =
    x.position.elim s.motion fun e => if s.motion.any (e.key ≤ ·) then s.motion else some e.key := by
  simp only [after, inject, apply, Given.position]
  cases InputEvent.decode x.payload with
  | none => cases parse x.payload <;> rfl
  | some e =>
    trans ( s.motion.admit e).2
    · dsimp only
      split_ifs <;> rfl
    · cases habs : e.absolute <;> simp only [Option.filter, MotionGate.admit, habs]
      · rfl
      · split_ifs <;> simp_all

/-- The gate holds the greatest key of the positions that came. -/
theorem motion_lt_iff {k : ℕ ×ₗ ℤ ×ₗ ℤ} : (∀ m ∈ (xs.foldl after new).motion, m < k) ↔
    ∀ y ∈ xs, ∀ e ∈ y.position, e.key < k := by
  induction xs using List.reverseRecOn with
  | nil => simp [new]
  | append_singleton xs x ih =>
    rw [List.foldl_append, List.foldl_cons, List.foldl_nil, motion_after, List.forall_mem_append,
      ← ih, List.forall_mem_singleton]
    generalize (xs.foldl after new).motion = gate
    cases x.position with
    | none => simp
    | some e =>
      cases gate with
      | none => simp
      | some m =>
        by_cases h : e.key ≤ m
        · simpa [h] using h.trans_lt
        · simpa [h] using (not_le.mp h).trans

theorem mem_inject (hx : x.position = some e) (hmouse : x.granted.contains .MOUSE = true) :
    .control e.lowlatFields ∈ (s.inject x.nowUs x.payload x.granted).2 ↔
      ∀ m ∈ s.motion, m < e.key := by
  obtain ⟨hdecode, habs⟩ := Option.filter_eq_some_iff.mp hx
  obtain ⟨hkind, -⟩ := Bool.and_eq_true_iff.mp habs
  have hkind : e.kind = .pointerMotion := of_decide_eq_true hkind
  have hgate : s.motion.any (e.key ≤ ·) = false ↔ ∀ m ∈ s.motion, m < e.key := by
    cases s.motion <;> simp
  have hallowed : e.kind.allowed (grants x.granted) = true := by rw [hkind]; exact hmouse
  have hopcode : e.lowlatFields.opcode ≠ op.RELEASE := by
    simp [InputEvent.lowlatFields, hkind, op.MOUSE_MOTION, op.RELEASE]
  rw [← hgate]
  cases hany : s.motion.any (e.key ≤ ·) with
  | false => simp [inject, apply, hdecode, MotionGate.admit, habs, hany, hallowed, hopcode]
  | true => simp [inject, apply, hdecode, MotionGate.admit, habs, hany]

/-- **The first position after a release reaches the injector** exactly if it is later than every
position before the release. -/
theorem opens_stretch {before between : List Given} {r : Given} {released : InputEvent}
    (hr : InputEvent.decode r.payload = some released) (hrelease : released.kind = .release)
    (hbetween : ∀ y ∈ between, y.position = none) (hx : x.position = some e)
    (hmouse : x.granted.contains .MOUSE = true) :
    .control e.lowlatFields ∈
        (((before ++ r :: between).foldl after new).inject x.nowUs x.payload x.granted).2 ↔
      ∀ y ∈ before, ∀ e', y.position = some e' → e'.key < e.key := by
  rw [mem_inject hx hmouse, motion_lt_iff, List.forall_mem_append, List.forall_mem_cons]
  -- neither the release nor what follows it is a position
  refine and_iff_left ⟨?_, fun y hy => ?_⟩
  · rw [Given.position, hr]
    simp [Option.filter, InputEvent.absolute, hrelease]
  · rw [hbetween y hy]
    simp

/-- An event as it comes: a position, or a release where `kind` is 7. -/
def sample (kind : UInt8) (timestampUs : ℕ) : Given :=
  ⟨0, [79, 73, 1, kind] ++ be 18 0 ++ be 8 timestampUs ++ [0, 0], .MOUSE⟩

theorem opens_stretch_later : let e : InputEvent := ⟨.pointerMotion, 0, 0, 0, 0, 0, 150⟩
    .control e.lowlatFields ∈ (([sample 2 100, sample 7 120].foldl after new).inject 0
      (sample 2 150).payload .MOUSE).2 := by
  have hr : InputEvent.decode (sample 7 120).payload = some ⟨.release, 0, 0, 0, 0, 0, 120⟩ := by
    decide +kernel
  have hx : (sample 2 150).position = some ⟨.pointerMotion, 0, 0, 0, 0, 0, 150⟩ := by decide +kernel
  have hold : (sample 2 100).position = some ⟨.pointerMotion, 0, 0, 0, 0, 0, 100⟩ := by
    decide +kernel
  refine (@opens_stretch (sample 2 150) _ [sample 2 100] [] _ _ hr rfl (nofun) hx
    (by decide)).mpr ?_
  intro y hy e he
  cases List.mem_singleton.mp hy
  cases hold.symm.trans he
  decide

/-- **A position is swallowed**: it follows a release, and its time stamp is older than that of the
last one before. -/
theorem swallowed : (sample 2 50).position.isSome = true ∧
    (([sample 2 100, sample 7 120].foldl after new).inject 0 (sample 2 50).payload .MOUSE).2 =
      [] := by
  decide +kernel

end NativeInputSink

end OpenStream.HostBroker
