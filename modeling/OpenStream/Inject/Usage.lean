import Mathlib.Data.BitVec
import Mathlib.Data.List.Basic

/-!
# Key codes and the pad layout
-/

namespace OpenStream.Inject

/-! ## Keys -/

/-- Usage codes zero through 255, as the kernel translates them. -/
def KERNEL_KEY : List ℕ :=
  [0, 0, 0, 0, 30, 48, 46, 32, 18, 33, 34, 35, 23, 36, 37, 38,
    50, 49, 24, 25, 16, 19, 31, 20, 22, 47, 17, 45, 21, 44, 2, 3,
    4, 5, 6, 7, 8, 9, 10, 11, 28, 1, 14, 15, 57, 12, 13, 26,
    27, 43, 43, 39, 40, 41, 51, 52, 53, 58, 59, 60, 61, 62, 63, 64,
    65, 66, 67, 68, 87, 88, 99, 70, 119, 110, 102, 104, 111, 107, 109, 106,
    105, 108, 103, 69, 98, 55, 74, 78, 96, 79, 80, 81, 75, 76, 77, 71,
    72, 73, 82, 83, 86, 127, 116, 117, 183, 184, 185, 186, 187, 188, 189, 190,
    191, 192, 193, 194, 134, 138, 130, 132, 128, 129, 131, 137, 133, 135, 136, 113,
    115, 114, 0, 0, 0, 121, 0, 89, 93, 124, 92, 94, 95, 0, 0, 0,
    122, 123, 90, 91, 85, 0, 0, 0, 0, 0, 0, 0, 111, 0, 0, 0,
    0, 0, 0, 0, 0, 0, 0, 0, 0, 0, 0, 0, 0, 0, 0, 0,
    0, 0, 0, 0, 0, 0, 179, 180, 0, 0, 0, 0, 0, 0, 0, 0,
    0, 0, 0, 0, 0, 0, 0, 0, 0, 0, 0, 0, 0, 0, 0, 0,
    0, 0, 0, 0, 0, 0, 0, 0, 111, 0, 0, 0, 0, 0, 0, 0,
    29, 42, 56, 125, 97, 54, 100, 126, 164, 166, 165, 163, 161, 115, 114, 113,
    150, 158, 159, 128, 136, 177, 178, 176, 142, 152, 173, 140, 0, 0, 0, 0]

def EXTRA_FIRST : ℕ := 258

def EXTRA : List ℕ := [163, 165, 166, 164, 113, 226]

def OVERRIDE : List (ℕ × ℕ) := [(118, 127)]

def keyCode (usage : ℕ) : Option ℕ :=
  match OVERRIDE.find? fun x => x.1 = usage with
  | some (_, code) => some code
  | none =>
    let code := if usage ≤ 255 then KERNEL_KEY[usage]?
      else if usage < EXTRA_FIRST then none else EXTRA[usage - EXTRA_FIRST]?
    code.filter fun code => code ≠ 0

def USAGE_PAGE : ℤ := 0x00070000

def scanCode (usage : ℕ) : Option ℤ := if usage ≤ 255 then some (USAGE_PAGE + usage) else none

/-! ## Pads -/

def MAX_PADS : ℕ := 4

abbrev Bits := BitVec 16

namespace bit

def DPAD_UP : Bits := 0x0001
def DPAD_DOWN : Bits := 0x0002
def DPAD_LEFT : Bits := 0x0004
def DPAD_RIGHT : Bits := 0x0008
def START : Bits := 0x0010
def BACK : Bits := 0x0020
def LEFT_THUMB : Bits := 0x0040
def RIGHT_THUMB : Bits := 0x0080
def LEFT_SHOULDER : Bits := 0x0100
def RIGHT_SHOULDER : Bits := 0x0200
def GUIDE : Bits := 0x0400
def A : Bits := 0x1000
def B : Bits := 0x2000
def X : Bits := 0x4000
def Y : Bits := 0x8000

end bit

namespace axis

def X : ℕ := 0x00
def Y : ℕ := 0x01
def Z : ℕ := 0x02
def RX : ℕ := 0x03
def RY : ℕ := 0x04
def RZ : ℕ := 0x05
def HAT0X : ℕ := 0x10
def HAT0Y : ℕ := 0x11

end axis

def STICK_RANGE : ℤ := 32767

def TRIGGER_RANGE : ℤ := 255

def bitForIndex (index : ℕ) : Option Bits :=
  [bit.A, bit.B, bit.X, bit.Y, bit.BACK, bit.GUIDE, bit.START, bit.LEFT_THUMB, bit.RIGHT_THUMB,
    bit.LEFT_SHOULDER, bit.RIGHT_SHOULDER, bit.DPAD_UP, bit.DPAD_DOWN, bit.DPAD_LEFT,
    bit.DPAD_RIGHT][index]?

def KEYED_BITS : List Bits :=
  [bit.A, bit.B, bit.X, bit.Y, bit.LEFT_SHOULDER, bit.RIGHT_SHOULDER, bit.BACK, bit.START, bit.GUIDE,
    bit.LEFT_THUMB, bit.RIGHT_THUMB]

/-- The kernel button code that a bit names; the direction pad has none. -/
def keyForBit (button : Bits) : Option ℕ :=
  if button = bit.A then some 0x130
  else if button = bit.B then some 0x131
  else if button = bit.X then some 0x133
  else if button = bit.Y then some 0x134
  else if button = bit.LEFT_SHOULDER then some 0x136
  else if button = bit.RIGHT_SHOULDER then some 0x137
  else if button = bit.BACK then some 0x13a
  else if button = bit.START then some 0x13b
  else if button = bit.GUIDE then some 0x13c
  else if button = bit.LEFT_THUMB then some 0x13d
  else if button = bit.RIGHT_THUMB then some 0x13e
  else none

/-- Both directions at once are the centre. -/
def axisOf (buttons negative positive : Bits) : ℤ :=
  match decide (buttons &&& negative ≠ 0), decide (buttons &&& positive ≠ 0) with
  | true, false => -1
  | false, true => 1
  | _, _ => 0

def hatX (buttons : Bits) : ℤ := axisOf buttons bit.DPAD_LEFT bit.DPAD_RIGHT

def hatY (buttons : Bits) : ℤ := axisOf buttons bit.DPAD_UP bit.DPAD_DOWN

def HAT : Bits := bit.DPAD_UP ||| bit.DPAD_DOWN ||| bit.DPAD_LEFT ||| bit.DPAD_RIGHT

def stick (value : BitVec 16) (vertical : Bool) : ℤ :=
  if vertical then -max value.toInt (-STICK_RANGE) else value.toInt

def triggerFromAxis (value : BitVec 16) : ℤ :=
  min (max ((TRIGGER_RANGE * value.toInt).tdiv STICK_RANGE) 0) TRIGGER_RANGE

/-! ## Bits that change -/

variable {a b m n : Bits}

theorem and_xor_right (a b m : Bits) : (a ^^^ b) &&& m = (a &&& m) ^^^ (b &&& m) := by
  apply BitVec.eq_of_getLsbD_eq
  intro i _
  simp only [BitVec.getLsbD_and, BitVec.getLsbD_xor]
  cases a.getLsbD i <;> cases b.getLsbD i <;> cases m.getLsbD i <;> rfl

theorem and_eq_of_unchanged (h : (a ^^^ b) &&& m = 0) : a &&& m = b &&& m := by
  rw [and_xor_right] at h
  exact BitVec.xor_eq_zero_iff.mp h

theorem unchanged_of_le (h : (a ^^^ b) &&& m = 0) (hn : m &&& n = n) : a &&& n = b &&& n := by
  apply and_eq_of_unchanged
  rw [← hn, ← BitVec.and_assoc, h]
  exact BitVec.zero_and

theorem hatX_eq (h : (a ^^^ b) &&& HAT = 0) : hatX a = hatX b := by
  have hl := unchanged_of_le h (by decide : HAT &&& bit.DPAD_LEFT = bit.DPAD_LEFT)
  have hr := unchanged_of_le h (by decide : HAT &&& bit.DPAD_RIGHT = bit.DPAD_RIGHT)
  rw [hatX, hatX, axisOf, axisOf, hl, hr]

theorem hatY_eq (h : (a ^^^ b) &&& HAT = 0) : hatY a = hatY b := by
  have hu := unchanged_of_le h (by decide : HAT &&& bit.DPAD_UP = bit.DPAD_UP)
  have hd := unchanged_of_le h (by decide : HAT &&& bit.DPAD_DOWN = bit.DPAD_DOWN)
  rw [hatY, hatY, axisOf, axisOf, hu, hd]

end OpenStream.Inject
