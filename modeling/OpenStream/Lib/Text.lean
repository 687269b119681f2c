import Mathlib.Data.List.TakeWhile
import Mathlib.Data.Nat.Digits.Lemmas
import OpenStream.Lib.Bytes

/-!
# Numbers and bytes as text

* **`Text.unhex_hex`**, **`Text.parseU64_decimal`**: what is written is read back.
* **`Text.splitOnce_append`**, **`Text.rsplitOnce_append`**: a text is cut at the first or the last
  separator.
-/

namespace Text

open Bytes List

/-! ## Bytes -/

def hexDigit (n : ℕ) : UInt8 := UInt8.ofNat (if n < 10 then 48 + n else 87 + n)

/-- Bytes in lower-case hexadecimal. -/
def hex (l : Str) : Str := l.flatMap fun b => [hexDigit (b.toNat / 16), hexDigit (b.toNat % 16)]

/-- A hexadecimal digit of either case. -/
def digit16 (b : UInt8) : Option ℕ :=
  if 48 ≤ b ∧ b ≤ 57 then some (b.toNat - 48)
  else if 97 ≤ b ∧ b ≤ 102 then some (b.toNat - 87)
  else if 65 ≤ b ∧ b ≤ 70 then some (b.toNat - 55)
  else none

/-- The bytes that pairs of digits spell. -/
def unhex : Str → Option Str
  | a :: b :: l => do
    let high ← digit16 a
    let low ← digit16 b
    let rest ← unhex l
    some (UInt8.ofNat (high * 16 + low) :: rest)
  | _ => some []

theorem digit16_hexDigit : ∀ n < 16, digit16 (hexDigit n) = some n ∧ hexDigit n ≠ 46 := by decide

theorem unhex_hex (l : Str) : unhex (hex l) = some l := by
  induction l with
  | nil => rfl
  | cons b l ih =>
    have hb := b.toNat_lt
    have hhigh := (digit16_hexDigit (b.toNat / 16) (by omega)).1
    have hlow := (digit16_hexDigit (b.toNat % 16) (by omega)).1
    have hsum : b.toNat / 16 * 16 + b.toNat % 16 = b.toNat := by omega
    simp only [hex, flatMap_cons, cons_append, nil_append, unhex, hhigh, hlow,
      Option.bind_eq_bind, Option.bind_some, hsum, UInt8.ofNat_toNat] at ih ⊢
    rw [ih]
    rfl

theorem length_of_unhex {s d : Str} (h : unhex s = some d) : d.length = s.length / 2 := by
  induction s using unhex.induct generalizing d with
  | case1 a b l ih =>
    simp only [unhex, Option.bind_eq_bind, Option.bind_eq_some_iff, Option.some.injEq] at h
    obtain ⟨-, -, -, -, rest, hrest, rfl⟩ := h
    simp only [length_cons, ih hrest]
    omega
  | case2 s hs =>
    rcases s with _ | ⟨a, _ | ⟨b, l⟩⟩
    · cases h
      rfl
    · cases h
      simp
    · exact (hs a b l rfl).elim

theorem hex_injective : Function.Injective hex := fun l l' h =>
  Option.some.inj (by rw [← unhex_hex l, h, unhex_hex])

@[simp] theorem length_hex (l : Str) : (hex l).length = 2 * l.length := by
  simp [hex, length_flatMap, Nat.mul_comm]

theorem dot_notMem_hex (l : Str) : 46 ∉ hex l := by
  intro h
  obtain ⟨b, -, hb⟩ := mem_flatMap.mp h
  have := b.toNat_lt
  rcases mem_pair.mp hb with hb | hb
  · exact (digit16_hexDigit (b.toNat / 16) (by omega)).2 hb.symm
  · exact (digit16_hexDigit (b.toNat % 16) (by omega)).2 hb.symm

/-! ## Numbers -/

/-- A number in decimal. -/
def decimal (n : ℕ) : Str :=
  if n = 0 then [48] else ((Nat.digits 10 n).map fun d => UInt8.ofNat (48 + d)).reverse

/-- The number that decimal digits spell. -/
def natOf (s : Str) : ℕ := s.foldl (fun n b => n * 10 + (b.toNat - 48)) 0

def isDigit (b : UInt8) : Bool := 48 ≤ b && b ≤ 57

/-- An unsigned 64-bit number, with or without a sign. -/
def parseU64 (s : Str) : Option ℕ :=
  let digits := if s.head? = some 43 then s.tail else s
  if digits ≠ [] ∧ digits.all isDigit ∧ natOf digits < 2 ^ 64 then some (natOf digits) else none

theorem isDigit_of_mem_decimal {n : ℕ} {b : UInt8} (h : b ∈ decimal n) : isDigit b = true := by
  unfold decimal at h
  split_ifs at h
  · rw [mem_singleton.mp h]
    rfl
  · simp only [mem_reverse, mem_map] at h
    obtain ⟨d, hd, rfl⟩ := h
    have hlt : d < 10 := Nat.digits_lt_base (by decide) hd
    interval_cases d <;> rfl

theorem decimal_ne_nil (n : ℕ) : decimal n ≠ [] := by
  unfold decimal
  split_ifs with h
  · simp
  · simpa [Nat.digits_eq_nil_iff_eq_zero] using h

theorem natOf_decimal (n : ℕ) : natOf (decimal n) = n := by
  unfold decimal
  split_ifs with h
  · rw [h]
    rfl
  · rw [natOf, foldl_reverse, foldr_map]
    conv_rhs => rw [← Nat.ofDigits_digits 10 n, Nat.ofDigits_eq_foldr]
    refine foldr_ext _ _ 0 fun d hd m => ?_
    have hlt : d < 10 := Nat.digits_lt_base (by decide) hd
    simp
    omega

theorem parseU64_decimal {n : ℕ} (h : n < 2 ^ 64) : parseU64 (decimal n) = some n := by
  have hall : (decimal n).all isDigit = true :=
    all_eq_true.mpr fun b hb => isDigit_of_mem_decimal hb
  have hsign : (decimal n).head? ≠ some 43 := fun hs =>
    absurd (isDigit_of_mem_decimal (mem_of_head? hs)) (by decide)
  rw [parseU64, if_neg hsign, natOf_decimal, if_pos ⟨decimal_ne_nil n, hall, h⟩]

/-! ## Separators -/

/-- The text before the first separator and the text after it. -/
def splitOnce (c : UInt8) (s : Str) : Option (Str × Str) :=
  if c ∈ s then some (s.takeWhile (· ≠ c), (s.dropWhile (· ≠ c)).tail) else none

/-- The text before the last separator and the text after it. -/
def rsplitOnce (c : UInt8) (s : Str) : Option (Str × Str) :=
  (splitOnce c s.reverse).map fun x => (x.2.reverse, x.1.reverse)

variable {c : UInt8} {a b : Str}

theorem splitOnce_append (h : c ∉ a) : splitOnce c (a ++ c :: b) = some (a, b) := by
  have ha : ∀ x ∈ a, decide (x ≠ c) = true := by grind
  rw [splitOnce, if_pos (by simp), takeWhile_append_of_pos ha, dropWhile_append_of_pos ha]
  simp

theorem rsplitOnce_append (h : c ∉ b) : rsplitOnce c (a ++ c :: b) = some (a, b) := by
  have hb : c ∉ b.reverse := by simpa using h
  simp [rsplitOnce, splitOnce_append hb]

theorem length_of_rsplitOnce {s : Str} (h : rsplitOnce c s = some (a, b)) : b.length < s.length := by
  obtain ⟨x, hx, heq⟩ := Option.map_eq_some_iff.mp h
  unfold splitOnce at hx
  split_ifs at hx with hmem
  cases hx
  cases heq
  have hpre := takeWhile_prefix (fun x => decide (x ≠ c)) (l := s.reverse)
  have hne : s.reverse.takeWhile (fun x => decide (x ≠ c)) ≠ s.reverse := fun he => by
    rw [← he] at hmem
    simpa using mem_takeWhile_imp hmem
  have hlt := hpre.length_le.lt_of_ne fun hl => hne (hpre.eq_of_length hl)
  simpa using hlt

end Text
