import OpenStream.Lib.Bytes

/-!
# Emulation prevention

A payload is copied with a `3` before each byte that would complete a start code.

* **`escape_sound`**: what is written has no start code and reads back as the payload.
-/

namespace OpenStream.Encode

open Bytes List

/-- The next byte of a buffer of `len` bytes, of which `out` is written. -/
def put (len : ℕ) (out : Str) (byte : UInt8) : Option Str :=
  if out.length < len then some (out ++ [byte]) else none

/-- How many zero bytes stand before the next byte. -/
def zerosAfter (zeros : ℕ) (byte : UInt8) : ℕ := if byte = 0 then zeros + 1 else 0

def escapeLoop (len : ℕ) : Str → ℕ → Str → Option Str
  | [], _, out => some out
  | byte :: payload, zeros, out => do
    let (zeros, out) ←
      if 2 ≤ zeros ∧ byte ≤ 3 then (put len out 3).map (0, ·) else some (zeros, out)
    let out ← put len out byte
    escapeLoop len payload (zerosAfter zeros byte) out

def escape (payload : Str) (len : ℕ) : Option Str := escapeLoop len payload 0 []

/-- What a reader makes of the bytes: a `3` after two zero bytes goes. -/
def unescape : ℕ → Str → Str
  | _, [] => []
  | zeros, byte :: l =>
    if 2 ≤ zeros ∧ byte = 3 then unescape 0 l else byte :: unescape (zerosAfter zeros byte) l

/-! ## With room for everything -/

def escaped : ℕ → Str → Str
  | _, [] => []
  | zeros, byte :: payload =>
    if 2 ≤ zeros ∧ byte ≤ 3 then 3 :: byte :: escaped (zerosAfter 0 byte) payload
    else byte :: escaped (zerosAfter zeros byte) payload

theorem escapeLoop_eq (len zeros : ℕ) (payload out : Str) :
    escapeLoop len payload zeros out = (escaped zeros payload).foldlM (put len) out := by
  induction payload generalizing zeros out with
  | nil => rfl
  | cons byte payload ih =>
    rw [escapeLoop, escaped]
    split_ifs with h
    · simp only [foldlM_cons, ih]
      cases put len out 3 <;> rfl
    · simp only [foldlM_cons, ih]
      rfl

theorem foldlM_put {len : ℕ} (l : Str) {out : Str} (h : out.length ≤ len) :
    l.foldlM (put len) out = if out.length + l.length ≤ len then some (out ++ l) else none := by
  induction l generalizing out with
  | nil => simp [h]
  | cons byte l ih =>
    by_cases hlt : out.length < len
    · have hrest := @ih (out ++ [byte]) (by rw [length_append]; exact hlt)
      simp [put, hlt, hrest, Nat.add_assoc, Nat.add_comm 1]
    · rw [foldlM_cons, put, if_neg hlt, if_neg (by rw [length_cons]; omega)]
      rfl

theorem unescape_escaped (zeros : ℕ) (payload : Str) :
    unescape zeros (escaped zeros payload) = payload := by
  induction payload generalizing zeros with
  | nil => rfl
  | cons byte payload ih =>
    rw [escaped]
    split_ifs with h
    · rw [unescape, if_pos ⟨h.1, rfl⟩, unescape, if_neg (by omega), ih]
    · have hkeep : ¬(2 ≤ zeros ∧ byte = 3) := fun h' => h ⟨h'.1, UInt8.le_of_eq h'.2⟩
      rw [unescape, if_neg hkeep, ih]

/-- No byte below 3 stands after two zero bytes. -/
def Clear : ℕ → Str → Prop
  | _, [] => True
  | zeros, byte :: l => ¬(2 ≤ zeros ∧ byte ≤ 2) ∧ Clear (zerosAfter zeros byte) l

theorem clear_escaped (zeros : ℕ) (payload : Str) : Clear zeros (escaped zeros payload) := by
  induction payload generalizing zeros with
  | nil => trivial
  | cons byte payload ih =>
    rw [escaped]
    split_ifs with h
    · exact ⟨fun h' => absurd h'.2 (by decide), fun h' => absurd h'.1 (Nat.not_succ_le_zero 1), ih _⟩
    · exact ⟨fun h' => h ⟨h'.1, UInt8.le_trans h'.2 (by decide)⟩, ih _⟩

theorem Clear.no_start {zeros : ℕ} {l : Str} {byte : UInt8} (hbyte : byte ≤ 2) (h : Clear zeros l) :
    ¬[0, 0, byte] <:+: l := by
  rintro ⟨s, t, rfl⟩
  induction s generalizing zeros with
  | nil => exact h.2.2.1 ⟨Nat.le_add_left 2 zeros, hbyte⟩
  | cons _ s ih => exact ih h.2

/-- An insertion takes two zero bytes. -/
theorem length_escaped_le (zeros : ℕ) (payload : Str) :
    2 * (escaped zeros payload).length ≤ 3 * payload.length + zeros := by
  induction payload generalizing zeros with
  | nil => exact Nat.zero_le _
  | cons byte payload ih =>
    have hnext : ∀ k, zerosAfter k byte ≤ k + 1 := by
      intro k
      unfold zerosAfter
      split_ifs <;> omega
    rw [escaped]
    split_ifs with h
    · have hrest := ih (zerosAfter 0 byte)
      have hone := hnext 0
      simp only [length_cons]
      omega
    · have hrest := ih (zerosAfter zeros byte)
      have hmore := hnext zeros
      simp only [length_cons]
      omega

/-- **Escaping a payload** puts no start code into the stream and loses nothing, and it fails only
for want of room, never with half as much again. -/
theorem escape_sound (payload : Str) (len : ℕ) :
    (∀ out, escape payload len = some out → out.length ≤ len ∧ unescape 0 out = payload ∧
      ∀ byte ≤ 2, ¬[0, 0, byte] <:+: out) ∧
    (escape payload len = none → 2 * len < 3 * payload.length) := by
  have hescape : escape payload len = _ :=
    (escapeLoop_eq len 0 payload []).trans (foldlM_put _ (Nat.zero_le len))
  rw [hescape, nil_append, length_nil, Nat.zero_add]
  split_ifs with hle
  · refine ⟨?_, fun h => by cases h⟩
    rintro out ⟨⟩
    exact ⟨hle, unescape_escaped 0 payload, fun byte hb => (clear_escaped 0 payload).no_start hb⟩
  · refine ⟨fun _ h => (by cases h), fun _ => ?_⟩
    have := length_escaped_le 0 payload
    omega

end OpenStream.Encode
