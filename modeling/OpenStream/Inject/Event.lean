import OpenStream.Inject.Usage
import OpenStream.Lib.Bytes
import Mathlib.Logic.Function.Basic
import Mathlib.Data.Fin.Basic

/-!
# From control messages to kernel input events

One guest's input state, and what its messages send to its virtual devices. Every method fills the
scratch buffer from empty and hands it to the sink before it returns, so the buffer is no part of the
state.
-/

namespace OpenStream.Inject

open Function

/-! ## Events -/

def EV_SYN : ℕ := 0x00
def EV_KEY : ℕ := 0x01
def EV_REL : ℕ := 0x02
def EV_ABS : ℕ := 0x03
def EV_MSC : ℕ := 0x04

def SYN_REPORT : ℕ := 0
def MSC_SCAN : ℕ := 4

def REL_X : ℕ := 0x00
def REL_Y : ℕ := 0x01
def REL_HWHEEL : ℕ := 0x06
def REL_WHEEL : ℕ := 0x08
def REL_WHEEL_HI_RES : ℕ := 0x0b
def REL_HWHEEL_HI_RES : ℕ := 0x0c

def ABS_X : ℕ := 0x00
def ABS_Y : ℕ := 0x01

def KEY_CAPSLOCK : ℕ := 58
def KEY_NUMLOCK : ℕ := 69
def USAGE_CAPS_LOCK : ℕ := 57
def USAGE_NUM_LOCK : ℕ := 83

def MOD_NUM : BitVec 32 := 0x1000
def MOD_CAPS : BitVec 32 := 0x2000

def WHEEL_DETENT : ℤ := 120

def ABS_RANGE : ℤ := 65535

def KEY_SLOTS : ℕ := 256

def BUTTONS : ℕ := 5

def SCRATCH : ℕ := 64

structure Event where
  kind : ℕ
  code : ℕ
  value : ℤ
  deriving DecidableEq

/-- A guest's virtual devices. -/
inductive Device
  | keyboard
  | pointer
  | pointerAbsolute
  | gamepad (id : BitVec 32)
  deriving DecidableEq

/-- What the sink is given. -/
inductive Emission
  | emit (device : Device) (events : List Event)
  | unplug (pad : BitVec 32)
  deriving DecidableEq

def Emission.device : Emission → Device
  | .emit device _ => device
  | .unplug pad => .gamepad pad

def push (buffer : List Event) (e : Event) : List Event :=
  if buffer.length < SCRATCH then buffer ++ [e] else buffer

def report (buffer : List Event) : List Event := push buffer ⟨EV_SYN, SYN_REPORT, 0⟩

def batch (device : Device) (events : List Event) : Emission :=
  .emit device (report (events.foldl push []))

/-! ## The injector -/

structure Permissions where
  keyboard : Bool
  pointer : Bool
  gamepad : Bool
  deriving DecidableEq

/-- Where the captured output sits in the desktop. -/
structure Place where
  x : ℕ
  y : ℕ
  width : ℕ
  height : ℕ
  desktopWidth : ℕ
  desktopHeight : ℕ
  deriving DecidableEq

structure Extents where
  width : ℕ
  height : ℕ
  place : Place
  deriving DecidableEq

structure Pad where
  id : BitVec 32
  buttons : Bits
  deriving DecidableEq

/-- What a guest has sent, by kind. -/
structure Tally where
  keys : ℕ
  buttons : ℕ
  wheels : ℕ
  motions : ℕ
  pads : ℕ
  deriving DecidableEq

/-- What one guest holds and may do. -/
structure Injector where
  extents : Extents
  permissions : Permissions
  /-- The held keys, by kernel code. -/
  keys : Fin KEY_SLOTS → Bool
  buttons : Fin BUTTONS → Bool
  /-- The device that each held button went down on. -/
  pressedOn : Fin BUTTONS → Device
  /-- Whether the absolute pointer moved last. -/
  absolute : Bool
  lastAbs : Option (ℤ × ℤ)
  commanded : Option (ℤ × ℤ)
  hidden : Bool
  numLock : Option Bool
  capsLock : Option Bool
  /-- Whether this guest has the pointer. -/
  floor : Bool
  pads : Fin MAX_PADS → Option Pad
  tally : Tally

structure Control where
  opcode : ℕ
  a0 : BitVec 32
  a1 : BitVec 32
  a2 : BitVec 32
  body : Bytes.Str
  deriving DecidableEq

namespace op

def KEYBOARD : ℕ := 0
def MOUSE_BUTTON : ℕ := 1
def MOUSE_WHEEL : ℕ := 2
def MOUSE_MOTION : ℕ := 3
def GAMEPAD_BUTTON : ℕ := 4
def GAMEPAD_AXIS : ℕ := 5
def GAMEPAD_UNPLUG : ℕ := 6
def GAMEPAD_STATE : ℕ := 23
def RELEASE : ℕ := 24
def MOUSE_MOTION_STREAM : ℕ := 26

end op

def Tally.count (t : Tally) (opcode : ℕ) : Tally :=
  let more (n : ℕ) := min (n + 1) (2 ^ 32 - 1)
  if opcode = op.KEYBOARD then { t with keys := more t.keys }
  else if opcode = op.MOUSE_BUTTON then { t with buttons := more t.buttons }
  else if opcode = op.MOUSE_WHEEL then { t with wheels := more t.wheels }
  else if opcode = op.MOUSE_MOTION ∨ opcode = op.MOUSE_MOTION_STREAM then
    { t with motions := more t.motions }
  else if opcode = op.GAMEPAD_BUTTON ∨ opcode = op.GAMEPAD_AXIS ∨ opcode = op.GAMEPAD_STATE ∨
      opcode = op.GAMEPAD_UNPLUG then { t with pads := more t.pads }
  else t

def buttonCode (button : ℕ) : Option ℕ :=
  match button with
  | 1 => some 0x110
  | 2 => some 0x112
  | 3 => some 0x111
  | 4 => some 0x113
  | 5 => some 0x114
  | _ => none

/-- Whole detents, never none of a real movement. -/
def detents (units : ℤ) : ℤ :=
  let whole := units.tdiv WHEEL_DETENT
  if whole ≠ 0 then whole else if 0 < units then 1 else -1

/-- A coordinate in the picture, on the absolute axis of the desktop. `value` is an `i32`, so no
product reaches `2 ^ 63`. -/
def scale (value : ℤ) (extent origin within desktop : ℕ) : ℤ :=
  if extent = 0 ∨ desktop = 0 then 0
  else
    let clamped := min (max value 0) extent
    let placed := origin + clamped * within / extent
    min (max (placed * ABS_RANGE / desktop) 0) ABS_RANGE

def low16 (value : BitVec 32) : BitVec 16 := value.setWidth 16

def high16Signed (value : BitVec 32) : BitVec 16 := (value >>> 16).setWidth 16

def keyEvents (usage key : ℕ) (pressed : Bool) : List Event :=
  (scanCode usage).toList.map (fun scan => ⟨EV_MSC, MSC_SCAN, scan⟩) ++
    [⟨EV_KEY, key, if pressed then 1 else 0⟩, ⟨EV_SYN, SYN_REPORT, 0⟩]

def tap (usage key : ℕ) : List Event := keyEvents usage key true ++ keyEvents usage key false

/-- What changed between two button states of a pad. -/
def changes (before after : Bits) : List Event :=
  let changed := before ^^^ after
  KEYED_BITS.filterMap (fun bit =>
    if changed &&& bit = 0 then none
    else (keyForBit bit).map fun code => ⟨EV_KEY, code, if after &&& bit = 0 then 0 else 1⟩) ++
  if changed &&& HAT = 0 then []
  else [⟨EV_ABS, axis.HAT0X, hatX after⟩, ⟨EV_ABS, axis.HAT0Y, hatY after⟩]

def buttonsChanged (id : BitVec 32) (before after : Bits) : List Emission :=
  if (changes before after).isEmpty then [] else [batch (.gamepad id) (changes before after)]

def axisEvent (which : ℕ) (value : BitVec 16) : Option Event :=
  match which with
  | 0 => some ⟨EV_ABS, axis.X, stick value false⟩
  | 1 => some ⟨EV_ABS, axis.Y, stick value true⟩
  | 2 => some ⟨EV_ABS, axis.RX, stick value false⟩
  | 3 => some ⟨EV_ABS, axis.RY, stick value true⟩
  | 4 => some ⟨EV_ABS, axis.Z, triggerFromAxis value⟩
  | 5 => some ⟨EV_ABS, axis.RZ, triggerFromAxis value⟩
  | _ => none

namespace Injector

abbrev Done := Injector × List Emission

def new (extents : Extents) : Injector where
  extents := extents
  permissions := ⟨true, true, true⟩
  keys := fun _ => false
  buttons := fun _ => false
  pressedOn := fun _ => .pointerAbsolute
  absolute := false
  lastAbs := none
  commanded := none
  hidden := false
  numLock := none
  capsLock := none
  floor := true
  pads := fun _ => none
  tally := ⟨0, 0, 0, 0, 0⟩

variable (s : Injector)

def pointerAllowed : Bool := s.permissions.pointer && s.floor

def pointer : Device := if s.absolute then .pointerAbsolute else .pointer

/-! ### Keys -/

/-- Bring the local locks into step with those of the peer. -/
def lockSync (modifiers : BitVec 32) (injected : ℕ) : Injector × List Event :=
  let num := modifiers &&& MOD_NUM ≠ 0
  let caps := modifiers &&& MOD_CAPS ≠ 0
  ({ s with numLock := some num, capsLock := some caps },
    (if s.numLock = some (!num) && injected ≠ KEY_NUMLOCK then tap USAGE_NUM_LOCK KEY_NUMLOCK
      else []) ++
    if s.capsLock = some (!caps) && injected ≠ KEY_CAPSLOCK then tap USAGE_CAPS_LOCK KEY_CAPSLOCK
      else [])

def keyboard (code : ℕ) (modifiers : BitVec 32) (pressed : Bool) : Done :=
  if 2 ^ 16 ≤ code then (s, [])
  else
    match keyCode code with
    | none => (s, [])
    | some key =>
      if h : key < KEY_SLOTS then
        -- a release of a key that was never pressed is dropped
        if !pressed && !s.keys ⟨key, h⟩ then (s, [])
        else
          let s := { s with keys := update s.keys ⟨key, h⟩ pressed }
          let r := s.lockSync modifiers key
          (r.1, [.emit .keyboard ((r.2 ++ keyEvents code key pressed).foldl push [])])
      else (s, [])

def releaseKey (st : (Fin KEY_SLOTS → Bool) × List Event × List Emission) (key : Fin KEY_SLOTS) :
    (Fin KEY_SLOTS → Bool) × List Event × List Emission :=
  if st.1 key then
    let buffer := push st.2.1 ⟨EV_KEY, key, 0⟩
    if SCRATCH ≤ buffer.length + 1 then
      (update st.1 key false, [], st.2.2 ++ [.emit .keyboard (report buffer)])
    else (update st.1 key false, buffer, st.2.2)
  else st

def releaseKeys : Done :=
  let r := (List.finRange KEY_SLOTS).foldl releaseKey (s.keys, [], [])
  ({ s with keys := r.1, numLock := none, capsLock := none },
    r.2.2 ++ if r.2.1.isEmpty then [] else [.emit .keyboard (report r.2.1)])

/-! ### Pointers -/

def buttonSlot (button : ℕ) : Option (Fin BUTTONS) :=
  if h : 0 < button ∧ button - 1 < BUTTONS then some ⟨button - 1, h.2⟩ else none

def button (button : ℕ) (pressed : Bool) : Done :=
  match buttonSlot button, buttonCode button with
  | some index, some code =>
    if !pressed && !s.buttons index then (s, [])
    else
      -- chosen on the way down, and remembered for the way up
      let device := if pressed then s.pointer else s.pressedOn index
      ({ s with
          buttons := update s.buttons index pressed
          pressedOn := update s.pressedOn index device },
        [batch device [⟨EV_KEY, code, if pressed then 1 else 0⟩]])
  | _, _ => (s, [])

def wheel (x y : ℤ) : Done :=
  if x = 0 ∧ y = 0 then (s, [])
  else (s, [batch s.pointer
    ((if y ≠ 0 then [⟨EV_REL, REL_WHEEL, detents y⟩, ⟨EV_REL, REL_WHEEL_HI_RES, y⟩] else []) ++
      if x ≠ 0 then [⟨EV_REL, REL_HWHEEL, detents x⟩, ⟨EV_REL, REL_HWHEEL_HI_RES, x⟩] else [])])

/-- A hidden pointer moves by differences. -/
def motion (relative : Bool) (x y : ℤ) : Done :=
  if relative then
    ({ s with lastAbs := none, absolute := false },
      [batch .pointer [⟨EV_REL, REL_X, x⟩, ⟨EV_REL, REL_Y, y⟩]])
  else if s.hidden then
    let moved := { s with lastAbs := some (x, y) }
    match s.lastAbs with
    | none => (moved, [])
    | some (px, py) => ({ moved with absolute := false },
        [batch .pointer [⟨EV_REL, REL_X, (x - px).bmod (2 ^ 32)⟩,
          ⟨EV_REL, REL_Y, (y - py).bmod (2 ^ 32)⟩]])
  else
    let place := s.extents.place
    ({ s with lastAbs := none, absolute := true, commanded := some (x, y) },
      [batch .pointerAbsolute
        [⟨EV_ABS, ABS_X, scale x s.extents.width place.x place.width place.desktopWidth⟩,
          ⟨EV_ABS, ABS_Y, scale y s.extents.height place.y place.height place.desktopHeight⟩]])

/-- The buttons that went down on a device come up there. -/
def releaseButtonsOn (device : Device) : Done :=
  let released := (List.finRange BUTTONS).filter fun i => s.buttons i && s.pressedOn i = device
  ({ s with buttons := fun i => s.buttons i && !(s.pressedOn i = device) },
    if released.isEmpty then []
    else [batch device (released.filterMap fun i : Fin BUTTONS =>
      (buttonCode (i + 1)).map (⟨EV_KEY, ·, 0⟩))])

def releaseButtons : Done :=
  let r := s.releaseButtonsOn .pointerAbsolute
  let r' := r.1.releaseButtonsOn .pointer
  (r'.1, r.2 ++ r'.2)

/-! ### Pads -/

def padSlot (id : BitVec 32) : Option (Fin MAX_PADS) :=
  (List.finRange MAX_PADS).find? fun i => (s.pads i).any fun p => p.id = id

def pad (id : BitVec 32) : Option (Injector × Fin MAX_PADS) :=
  match s.padSlot id with
  | some i => some (s, i)
  | none => ((List.finRange MAX_PADS).find? fun i => (s.pads i).isNone).map fun i =>
      ({ s with pads := update s.pads i (some ⟨id, 0⟩) }, i)

def setPad (i : Fin MAX_PADS) (p : Option Pad) : Injector := { s with pads := update s.pads i p }

def gamepadButton (index : ℕ) (down : Bool) (id : BitVec 32) : Done :=
  match bitForIndex index with
  | none => (s, [])
  | some bit =>
    match s.pad id with
    | none => (s, [])
    | some (s, i) =>
      match s.pads i with
      | none => (s, [])
      | some p =>
        let after := if down then p.buttons ||| bit else p.buttons &&& ~~~bit
        (s.setPad i (some ⟨p.id, after⟩), buttonsChanged p.id p.buttons after)

def gamepadAxis (which : ℕ) (value : BitVec 16) (id : BitVec 32) : Done :=
  match s.pad id with
  | none => (s, [])
  | some (s, i) =>
    match s.pads i with
    | none => (s, [])
    | some p => (s, (axisEvent which value).toList.map fun e => batch (.gamepad p.id) [e])

def unplug (id : BitVec 32) : Done :=
  match s.padSlot id with
  | none => (s, [])
  | some i => (s.setPad i none, [.unplug id])

/-- A whole pad in one message; the first three bytes of the body are not read. -/
def padState (id : BitVec 32) (body : Bytes.Str) : Done :=
  if body.length < 15 then (s, [])
  else
    let byte (offset : ℕ) : ℕ := ((body[3 + offset]?).getD 0).toNat
    let pair (offset : ℕ) : BitVec 16 := BitVec.ofNat 16 (byte offset * 256 + byte (offset + 1))
    match s.pad id with
    | none => (s, [])
    | some (s, i) =>
      let before := ((s.pads i).map Pad.buttons).getD 0
      let s := s.setPad i ((s.pads i).map fun p => { p with buttons := pair 0 })
      (s, buttonsChanged id before (pair 0) ++ [batch (.gamepad id)
        [⟨EV_ABS, axis.X, stick (pair 2) false⟩, ⟨EV_ABS, axis.Y, stick (pair 4) true⟩,
          ⟨EV_ABS, axis.RX, stick (pair 6) false⟩, ⟨EV_ABS, axis.RY, stick (pair 8) true⟩,
          ⟨EV_ABS, axis.Z, byte 10⟩, ⟨EV_ABS, axis.RZ, byte 11⟩]])

def centred : List Event :=
  [axis.X, axis.Y, axis.RX, axis.RY, axis.Z, axis.RZ].map fun code => ⟨EV_ABS, code, 0⟩

def centrePad (r : Done) (i : Fin MAX_PADS) : Done :=
  match r.1.pads i with
  | none => r
  | some p => (r.1.setPad i (some ⟨p.id, 0⟩),
      r.2 ++ (buttonsChanged p.id p.buttons 0 ++ [batch (.gamepad p.id) centred]))

def centrePads : Done := (List.finRange MAX_PADS).foldl centrePad (s, [])

/-! ### Calls -/

/-- Everything that this guest holds is let go. -/
def releaseAll : Done :=
  let r := s.releaseKeys
  let r' := r.1.releaseButtons
  let r'' := r'.1.centrePads
  (r''.1, r.2 ++ r'.2 ++ r''.2)

def setPermissions (permissions : Permissions) : Done :=
  let was := s.permissions
  let s := { s with permissions := permissions }
  let r := if was.keyboard && !permissions.keyboard then s.releaseKeys else (s, [])
  let r' := if was.pointer && !permissions.pointer then r.1.releaseButtons else (r.1, [])
  (r'.1, r.2 ++ r'.2)

def setFloor (held : Bool) : Done :=
  let r := if s.floor && !held then s.releaseButtons else (s, [])
  ({ r.1 with floor := held }, r.2)

def setCursorHidden (hidden : Bool) : Injector :=
  { s with lastAbs := if hidden then s.lastAbs else none, hidden := hidden }

def setExtents (extents : Extents) : Injector := { s with extents := extents }

def onControl (m : Control) : Done :=
  let s := { s with tally := s.tally.count m.opcode }
  if m.opcode = op.KEYBOARD ∧ s.permissions.keyboard then
    s.keyboard m.a0.toNat m.a1 (m.a2 ≠ 0)
  else if m.opcode = op.MOUSE_BUTTON ∧ s.pointerAllowed then s.button m.a0.toNat (m.a1 ≠ 0)
  else if m.opcode = op.MOUSE_WHEEL ∧ s.pointerAllowed then s.wheel m.a0.toInt m.a1.toInt
  else if m.opcode = op.MOUSE_MOTION ∧ s.pointerAllowed then
    s.motion (m.a0 ≠ 0) m.a1.toInt m.a2.toInt
  else if m.opcode = op.MOUSE_MOTION_STREAM ∧ s.pointerAllowed then
    -- the horizontal half is unsigned, the vertical one signed
    s.motion (m.a0 &&& 1 ≠ 0) (low16 m.a1).toNat (high16Signed m.a1).toInt
  else if m.opcode = op.GAMEPAD_BUTTON ∧ s.permissions.gamepad then
    s.gamepadButton m.a0.toNat (m.a1 ≠ 0) m.a2
  else if m.opcode = op.GAMEPAD_AXIS ∧ s.permissions.gamepad then
    s.gamepadAxis m.a0.toNat (high16Signed (m.a1 <<< 16)) m.a2
  else if m.opcode = op.GAMEPAD_UNPLUG ∧ s.permissions.gamepad then s.unplug m.a2
  else if m.opcode = op.GAMEPAD_STATE ∧ s.permissions.gamepad then s.padState m.a0 m.body
  else if m.opcode = op.RELEASE then s.releaseAll
  else (s, [])

end Injector

end OpenStream.Inject
