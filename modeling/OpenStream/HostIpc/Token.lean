import Mathlib.Data.BitVec
import Mathlib.Order.Basic

/-!
# Capabilities

What a session may do to a machine, as a set of bits, and the token a broker issues for it.
-/

namespace OpenStream.HostIpc

def NO_GRANT : ℕ := 0

structure Capabilities where
  bits : BitVec 32
  deriving DecidableEq

namespace Capabilities

def CAPTURE : Capabilities := ⟨1⟩

def KEYBOARD : Capabilities := ⟨2⟩

def MOUSE : Capabilities := ⟨4⟩

def GAMEPAD : Capabilities := ⟨8⟩

def CLIPBOARD : Capabilities := ⟨16⟩

def KNOWN : BitVec 32 := 31

def none : Capabilities := ⟨0⟩

def all : Capabilities := ⟨KNOWN⟩

def fromBitsTruncate (bits : BitVec 32) : Capabilities := ⟨bits &&& KNOWN⟩

def contains (a needle : Capabilities) : Bool := a.bits &&& needle.bits = needle.bits

def withCaps (a b : Capabilities) : Capabilities := ⟨a.bits ||| b.bits⟩

def clampedTo (a ceiling : Capabilities) : Capabilities := ⟨a.bits &&& ceiling.bits⟩

def isEmpty (a : Capabilities) : Bool := a.bits = 0

def Le (a b : Capabilities) : Prop := b.contains a

instance (a b : Capabilities) : Decidable (a.Le b) := inferInstanceAs (Decidable (_ = true))

variable {a b c : Capabilities}

theorem le_iff : a.Le b ↔ ∀ i, a.bits.getLsbD i = true → b.bits.getLsbD i = true := by
  simp only [Le, contains, decide_eq_true_eq]
  constructor
  · intro h i hi
    have hbit := congrArg (fun x => BitVec.getLsbD x i) h
    simp only [BitVec.getLsbD_and, hi, Bool.and_true] at hbit
    exact hbit
  · intro h
    apply BitVec.eq_of_getLsbD_eq
    intro i _
    rw [BitVec.getLsbD_and]
    cases hi : a.bits.getLsbD i with
    | false => rw [Bool.and_false]
    | true => rw [h i hi, Bool.true_and]

theorem Le.refl (a : Capabilities) : a.Le a := le_iff.mpr fun _ h => h

theorem Le.trans (h : a.Le b) (h' : b.Le c) : a.Le c :=
  le_iff.mpr fun i hi => le_iff.mp h' i (le_iff.mp h i hi)

theorem clampedTo_le_left (a b : Capabilities) : (a.clampedTo b).Le a :=
  le_iff.mpr fun i hi => by
    simp only [clampedTo, BitVec.getLsbD_and, Bool.and_eq_true] at hi
    exact hi.1

theorem clampedTo_le_right (a b : Capabilities) : (a.clampedTo b).Le b :=
  le_iff.mpr fun i hi => by
    simp only [clampedTo, BitVec.getLsbD_and, Bool.and_eq_true] at hi
    exact hi.2

theorem le_clampedTo (h : a.Le b) (h' : a.Le c) : a.Le (b.clampedTo c) :=
  le_iff.mpr fun i hi => by
    simp [clampedTo, le_iff.mp h i hi, le_iff.mp h' i hi]

theorem le_withCaps_left (a b : Capabilities) : a.Le (a.withCaps b) :=
  le_iff.mpr fun i hi => by simp [withCaps, hi]

theorem withCaps_mono {a' b' : Capabilities} (h : a.Le a') (h' : b.Le b') :
    (a.withCaps b).Le (a'.withCaps b') :=
  le_iff.mpr fun i hi => by
    simp only [withCaps, BitVec.getLsbD_or, Bool.or_eq_true] at hi ⊢
    exact hi.imp (le_iff.mp h i) (le_iff.mp h' i)

end Capabilities

/-- The grant of one peer session: an identifier and what it allows. -/
structure SessionToken where
  id : ℕ
  capabilities : Capabilities
  deriving DecidableEq

def SessionToken.grant (id : ℕ) (requested ceiling : Capabilities) : SessionToken :=
  ⟨id, requested.clampedTo ceiling⟩

end OpenStream.HostIpc
