import OpenStream.Lib.Table
import OpenStream.Media.Fragment

/-!
# The reassembler

Fragments arrive in any order. A frame is in progress until its last fragment arrives; then it waits
until every frame before it is released or given up on.

* `Assembler.push`: add a fragment, and release at most one frame.
* `Assembler.popReady`: release the next frame, past a gap once enough frames wait behind it.

The maps of the source have no order of their own. Where it picks an entry by a least or a greatest
key, only the order counter of frames in progress can repeat, once it has gone round.
-/

namespace OpenStream.Media

open Bytes

def sequenceBefore (a b : UInt32) : Bool := a ≠ b && decide ((b - a).toNat < 2 ^ 31)

inductive FragmentOutcome
  | acceptedIncomplete
  | completed
  | duplicate
  deriving DecidableEq, Repr

structure EncodedFrame where
  frameId : UInt32
  presentationTimeUs : UInt64
  keyframe : Bool
  payload : Str
  deriving DecidableEq

/-- What a fragment did to the reassembly state. -/
structure PushOutcome where
  /-- The frame whose last missing fragment this was. -/
  completed : Option UInt32
  /-- The frame released by this push. -/
  ready : Option EncodedFrame
  /-- Frames given up on. -/
  dropped : List UInt32
  fragment : FragmentOutcome

def PushOutcome.of (fragment : FragmentOutcome) : PushOutcome := ⟨none, none, [], fragment⟩

structure InProgress where
  presentationTimeUs : UInt64
  keyframe : Bool
  parts : List (Option Str)
  bytes : ℕ
  order : UInt64

/-- A reassembler. It always makes room for one frame at least. -/
structure Assembler where
  maxFrameBytes : ℕ
  maxInflight : ℕ
  inflight_pos : 0 < maxInflight
  order : UInt64
  frames : Table UInt32 InProgress
  completed : List UInt32
  ready : Table UInt32 EncodedFrame
  nextReady : Option UInt32
  lastFrameId : Option UInt32
  keyframeRequest : Bool
  gapFrames : ℕ

namespace Assembler

def new (maxFrameBytes maxInflight : ℕ) : Assembler where
  maxFrameBytes := maxFrameBytes
  maxInflight := max maxInflight 1
  inflight_pos := le_max_right maxInflight 1
  order := 0
  frames := ∅
  completed := []
  ready := ∅
  nextReady := none
  lastFrameId := none
  keyframeRequest := false
  gapFrames := 0

/-! ## Room for frames -/

/-- The loop of `evict_if_needed`: the oldest frames in progress go. -/
def evictLoop (maxInflight : ℕ) :
    ℕ → Table UInt32 InProgress → List UInt32 → Table UInt32 InProgress × List UInt32
  | 0, frames, dropped => (frames, dropped)
  | k + 1, frames, dropped =>
    if maxInflight ≤ frames.size then
      match Table.minByKey (fun e => e.2.order.toNat) frames.entries with
      | none => (frames, dropped)
      | some oldest => evictLoop maxInflight k (frames.erase oldest.1) (dropped ++ [oldest.1])
    else (frames, dropped)

variable (a : Assembler)

def evictIfNeeded : Assembler × List UInt32 :=
  let (frames, dropped) := evictLoop a.maxInflight a.frames.size a.frames []
  ({ a with frames }, dropped)

def readyLimit : ℕ := max (min (a.maxInflight * 4) (2 ^ 64 - 1)) 2

def evictReadyLoop (limit : ℕ) (nextReady : Option UInt32) :
    ℕ → Table UInt32 EncodedFrame → List UInt32 → Table UInt32 EncodedFrame × List UInt32
  | 0, ready, dropped => (ready, dropped)
  | k + 1, ready, dropped =>
    if limit < ready.size then
      match nextReady with
      | none => (ready, dropped)
      | some expected =>
        match Table.maxByKey (fun id => (id - expected).toNat) ready.keys with
        | none => (ready, dropped)
        | some farthest =>
          evictReadyLoop limit nextReady k (ready.erase farthest) (dropped ++ [farthest])
    else (ready, dropped)

/-- Keep the completed frames that wait within their limit. -/
def evictReadyIfNeeded (dropped : List UInt32) : Assembler × List UInt32 :=
  let (ready, dropped) := evictReadyLoop a.readyLimit a.nextReady a.ready.size a.ready dropped
  ({ a with ready }, dropped)

/-! ## Releasing -/

def acceptOrderedFrame (frame : EncodedFrame) : Assembler :=
  let discontinuity := match a.lastFrameId with
    | some previous => decide (frame.frameId ≠ previous + 1)
    | none => !frame.keyframe
  let request := a.keyframeRequest || (discontinuity && !frame.keyframe)
  let settled := frame.keyframe && !a.lastFrameId.any (sequenceBefore frame.frameId)
  { a with keyframeRequest := request && !settled, lastFrameId := some frame.frameId }

/-- The ids before `next` are given up on. -/
def skipTo (expected next : UInt32) : Assembler :=
  { a with
    gapFrames := min (a.gapFrames + min (next - expected).toNat (2 ^ 16 - 1)) (2 ^ 16 - 1)
    nextReady := some next }

/-- Move to a frame that is there: the expected one, or past a gap once enough frames wait. -/
def select (expected : UInt32) : Option Assembler :=
  if expected ∈ a.ready then some a
  else if a.ready.size < max a.maxInflight 2 then none
  else
    (Table.minByKey (fun id => (id - expected).toNat)
      (a.ready.keys.filter fun id => !sequenceBefore id expected)).map (a.skipTo expected)

def release (next : UInt32) (frame : EncodedFrame) : Assembler :=
  { acceptOrderedFrame { a with ready := a.ready.erase next } frame with
    nextReady := some (frame.frameId + 1) }

def popReady : Assembler × Option EncodedFrame :=
  match a.nextReady with
  | none => (a, none)
  | some expected =>
    match a.select expected with
    | none => (a, none)
    | some a =>
      match a.nextReady with
      | none => (a, none)
      | some next =>
        match a.ready.lookup next with
        | none => (a, none)
        | some frame => (a.release next frame, some frame)

/-! ## Fragments -/

def remember (frameId : UInt32) : Assembler :=
  let completed := a.completed ++ [frameId]
  { a with completed := completed.drop (completed.length - min (a.maxInflight * 16) (2 ^ 64 - 1)) }

/-- A completed frame waits for its turn. -/
def queue (encoded : EncodedFrame) : Assembler :=
  { a with
    nextReady := some (a.nextReady.getD encoded.frameId)
    ready := a.ready.orInsert encoded.frameId encoded }

/-- Whether a completed frame is from before the next one, so that it can never be decoded in
order. -/
def late (frameId : UInt32) : Bool := a.nextReady.any (sequenceBefore frameId)

/-- The last fragment of a frame has arrived. -/
def complete (encoded : EncodedFrame) (dropped : List UInt32) : Assembler × PushOutcome :=
  let a := a.remember encoded.frameId
  let outcome := { PushOutcome.of .completed with completed := some encoded.frameId }
  if a.late encoded.frameId then (a, { outcome with dropped := dropped ++ [encoded.frameId] })
  else
    let (a, dropped) := (a.queue encoded).evictReadyIfNeeded dropped
    let (a, ready) := a.popReady
    (a, { outcome with ready, dropped })

def begin (fragment : Fragment) : Assembler × List UInt32 :=
  if fragment.frameId ∈ a.frames then (a, [])
  else
    let (a, dropped) := a.evictIfNeeded
    ({ a with
        order := a.order + 1
        frames := a.frames.insert fragment.frameId
          { presentationTimeUs := fragment.presentationTimeUs
            keyframe := fragment.keyframe
            parts := List.replicate fragment.fragmentCount.toNat none
            bytes := 0
            order := a.order + 1 } }, dropped)

def add (fragment : Fragment) (frame : InProgress) (dropped : List UInt32) :
    Assembler × Except Error PushOutcome :=
  let index := fragment.fragmentIndex.toNat
  let without := { a with frames := a.frames.erase fragment.frameId }
  if frame.parts.length ≠ fragment.fragmentCount.toNat ∨
      frame.presentationTimeUs ≠ fragment.presentationTimeUs ∨
      frame.keyframe ≠ fragment.keyframe then (without, .error .metadataMismatch)
  else if (frame.parts.getD index none).isSome then
    (a, .ok { PushOutcome.of .duplicate with dropped })
  else
    let bytes := min (frame.bytes + fragment.payload.length) (2 ^ 64 - 1)
    if a.maxFrameBytes < bytes then (without, .error .tooLarge)
    else
      let frame := { frame with bytes, parts := frame.parts.set index (some fragment.payload) }
      if frame.parts.any Option.isNone then
        ({ a with frames := a.frames.insert fragment.frameId frame },
          .ok { PushOutcome.of .acceptedIncomplete with dropped })
      else
        match frame.parts.mapM id with
        | none => (without, .error .badLength)
        | some parts =>
          let (a, outcome) := without.complete
            ⟨fragment.frameId, frame.presentationTimeUs, frame.keyframe, parts.flatten⟩ dropped
          (a, .ok outcome)

structure Agrees (fragment : Fragment) (frame : InProgress) : Prop where
  count : frame.parts.length = fragment.fragmentCount.toNat
  time : frame.presentationTimeUs = fragment.presentationTimeUs
  keyframe : frame.keyframe = fragment.keyframe

section Adding

variable {a : Assembler} {fragment : Fragment} {frame : InProgress}

theorem Agrees.no_mismatch (h : Agrees fragment frame) :
    ¬(frame.parts.length ≠ fragment.fragmentCount.toNat ∨
      frame.presentationTimeUs ≠ fragment.presentationTimeUs ∨
      frame.keyframe ≠ fragment.keyframe) := by
  rintro (hne | hne | hne)
  · exact hne h.count
  · exact hne h.time
  · exact hne h.keyframe

theorem add_free (h : Agrees fragment frame)
    (hslot : frame.parts.getD fragment.fragmentIndex.toNat none = none)
    (hfits : frame.bytes + fragment.payload.length ≤ a.maxFrameBytes) {parts : List (Option Str)}
    (hparts : frame.parts.set fragment.fragmentIndex.toNat (some fragment.payload) = parts)
    (dropped : List UInt32) :
    a.add fragment frame dropped =
      if parts.any Option.isNone then
        let bytes := min (frame.bytes + fragment.payload.length) (2 ^ 64 - 1)
        ({ a with frames := a.frames.insert fragment.frameId { frame with bytes, parts } },
          .ok { PushOutcome.of .acceptedIncomplete with dropped })
      else
        let without := { a with frames := a.frames.erase fragment.frameId }
        match parts.mapM id with
        | none => (without, .error .badLength)
        | some parts =>
          let encoded :=
            ⟨fragment.frameId, fragment.presentationTimeUs, fragment.keyframe, parts.flatten⟩
          ((without.complete encoded dropped).1, .ok (without.complete encoded dropped).2) := by
  have hmin : ¬a.maxFrameBytes < min (frame.bytes + fragment.payload.length) (2 ^ 64 - 1) :=
    Nat.not_lt.mpr (Nat.le_trans (Nat.min_le_left _ _) hfits)
  unfold add
  rw [if_neg h.no_mismatch, hslot, if_neg (by simp), if_neg hmin, hparts, h.time, h.keyframe]

end Adding

def push (fragment : Fragment) : Assembler × Except Error PushOutcome :=
  let count := fragment.fragmentCount.toNat
  if count = 0 ∨ count ≤ fragment.fragmentIndex.toNat then (a, .error .fragmentIndexOutOfRange)
  else if MAX_FRAGMENTS_PER_FRAME < count then (a, .error .tooLarge)
  else if a.completed.contains fragment.frameId then (a, .ok (.of .duplicate))
  else
    let (a, dropped) := a.begin fragment
    match a.frames.lookup fragment.frameId with
    | none => (a, .error .tooManyInflight)
    | some frame => a.add fragment frame dropped

/-! ## What a gap asks for -/

def takeKeyframeRequest : Assembler × Bool :=
  ({ a with keyframeRequest := false }, a.keyframeRequest)

/-- Return and clear the count of frame ids missing before the last completed frame. -/
def takeFrameGap : Assembler × ℕ := ({ a with gapFrames := 0 }, a.gapFrames)

/-! ## What a call can do -/

theorem evictReadyLoop_of_le {limit : ℕ} {nextReady : Option UInt32}
    {ready : Table UInt32 EncodedFrame} (h : ready.size ≤ limit) (k : ℕ) (dropped : List UInt32) :
    evictReadyLoop limit nextReady k ready dropped = (ready, dropped) := by
  cases k with
  | zero => rfl
  | succ k =>
    unfold evictReadyLoop
    rw [if_neg (Nat.not_lt.mpr h)]

theorem lookup_evictReadyLoop {limit : ℕ} {nextReady : Option UInt32} (id : UInt32) :
    ∀ (k : ℕ) (ready : Table UInt32 EncodedFrame) (dropped : List UInt32),
      ((evictReadyLoop limit nextReady k ready dropped).1.lookup id = ready.lookup id ∨
        (evictReadyLoop limit nextReady k ready dropped).1.lookup id = none ∧
          id ∈ (evictReadyLoop limit nextReady k ready dropped).2) ∧
      dropped ⊆ (evictReadyLoop limit nextReady k ready dropped).2
  | 0, _, dropped => ⟨.inl rfl, List.Subset.refl dropped⟩
  | k + 1, ready, dropped => by
    unfold evictReadyLoop
    split_ifs
    · cases nextReady with
      | none => exact ⟨.inl rfl, List.Subset.refl dropped⟩
      | some expected =>
        dsimp only
        split
        · exact ⟨.inl rfl, List.Subset.refl dropped⟩
        · rename_i farthest hfar
          obtain ⟨hlook, hsub⟩ := lookup_evictReadyLoop id k (ready.erase farthest)
            (dropped ++ [farthest])
          refine ⟨?_, List.Subset.trans (List.subset_append_left dropped [farthest]) hsub⟩
          by_cases hid : id = farthest
          · subst hid
            rw [AList.lookup_erase] at hlook
            have hmem : id ∈ (evictReadyLoop limit (some expected) k (ready.erase id)
                (dropped ++ [id])).2 := hsub (by simp)
            exact .inr ⟨hlook.elim (fun h => h) And.left, hmem⟩
          · rwa [AList.lookup_erase_ne hid] at hlook
    · exact ⟨.inl rfl, List.Subset.refl dropped⟩

/-- How a pop ends: nothing is released, or the expected frame, or the nearest one past a gap. -/
inductive Popped (a : Assembler) : Assembler × Option EncodedFrame → Prop
  | idle (hnone : ∀ expected, a.nextReady = some expected → expected ∉ a.ready) :
      Popped a (a, none)
  | next {expected : UInt32} {frame : EncodedFrame} (hnext : a.nextReady = some expected)
      (hframe : a.ready.lookup expected = some frame) :
      Popped a (a.release expected frame, some frame)
  | skip {expected next : UInt32} {frame : EncodedFrame} (hnext : a.nextReady = some expected)
      (habsent : expected ∉ a.ready) (hsize : 2 ≤ a.ready.size)
      (hframe : a.ready.lookup next = some frame) (hafter : sequenceBefore next expected = false)
      (hnear : ∀ id ∈ a.ready, sequenceBefore id expected = false →
        (next - expected).toNat ≤ (id - expected).toNat) :
      Popped a ((a.skipTo expected next).release next frame, some frame)

theorem popped_popReady : Popped a a.popReady := by
  unfold popReady
  cases hnext : a.nextReady with
  | none => exact .idle fun expected he => by rw [hnext] at he; cases he
  | some expected =>
    have hidle : expected ∉ a.ready → ∀ e, a.nextReady = some e → e ∉ a.ready := by
      intro hmem e he
      rw [hnext] at he
      cases he
      exact hmem
    dsimp only
    by_cases hmem : expected ∈ a.ready
    · obtain ⟨frame, hframe⟩ := Table.exists_lookup hmem
      rw [select, if_pos hmem]
      dsimp only
      rw [hnext]
      dsimp only
      rw [hframe]
      exact .next hnext hframe
    · rw [select, if_neg hmem]
      split_ifs with hsize
      · exact .idle (hidle hmem)
      · cases hmin : Table.minByKey (fun id => (id - expected).toNat)
          (a.ready.keys.filter fun id => !sequenceBefore id expected) with
        | none => exact .idle (hidle hmem)
        | some next =>
          obtain ⟨hkey, hleast⟩ := Table.minByKey_spec _ hmin
          rw [List.mem_filter] at hkey
          obtain ⟨frame, hframe⟩ :=
            Table.exists_lookup (AList.mem_keys.mpr hkey.1)
          rw [Option.map_some]
          dsimp only [skipTo]
          rw [hframe]
          refine .skip hnext hmem (by omega) hframe (by simpa using hkey.2) fun id hid hb => ?_
          exact hleast id (List.mem_filter.mpr ⟨AList.mem_keys.mp hid, by simp [hb]⟩)

/-- The frames that wait and what decides their order are the same. -/
structure SameFront (a b : Assembler) : Prop where
  ready : a.ready = b.ready
  nextReady : a.nextReady = b.nextReady
  lastFrameId : a.lastFrameId = b.lastFrameId
  keyframeRequest : a.keyframeRequest = b.keyframeRequest
  gapFrames : a.gapFrames = b.gapFrames

theorem SameFront.rfl {a : Assembler} : a.SameFront a :=
  ⟨.refl _, .refl _, .refl _, .refl _, .refl _⟩

theorem sameFront_remember (frameId : UInt32) :
    (a.remember frameId).SameFront a := ⟨rfl, rfl, rfl, rfl, rfl⟩

theorem sameFront_begin (fragment : Fragment) : (a.begin fragment).1.SameFront a := by
  unfold begin
  split_ifs
  · exact .rfl
  · exact ⟨rfl, rfl, rfl, rfl, rfl⟩

/-- How a push ends: nothing is released, or the fragment completed its frame. -/
inductive Pushed (a : Assembler) (fragment : Fragment) :
    Assembler × Except Error PushOutcome → Prop
  | held {b : Assembler} {result : Except Error PushOutcome} (hfront : b.SameFront a)
      (hready : ∀ outcome, result = .ok outcome → outcome.ready = none) :
      Pushed a fragment (b, result)
  | completed {b : Assembler} {encoded : EncodedFrame} {dropped : List UInt32}
      (hfront : b.SameFront a) (hid : encoded.frameId = fragment.frameId) :
      Pushed a fragment ((b.complete encoded dropped).1, .ok (b.complete encoded dropped).2)

theorem pushed_add {a b : Assembler} {fragment : Fragment} {frame : InProgress}
    {dropped : List UInt32} (h : b.SameFront a) :
    Pushed a fragment (b.add fragment frame dropped) := by
  obtain ⟨h1, h2, h3, h4, h5⟩ := h
  unfold add
  dsimp only
  split_ifs
  · exact .held ⟨h1, h2, h3, h4, h5⟩ nofun
  · exact .held ⟨h1, h2, h3, h4, h5⟩ fun _ ho => by cases ho; rfl
  · exact .held ⟨h1, h2, h3, h4, h5⟩ nofun
  · exact .held ⟨h1, h2, h3, h4, h5⟩ fun _ ho => by cases ho; rfl
  · split
    · exact .held ⟨h1, h2, h3, h4, h5⟩ nofun
    · exact .completed ⟨h1, h2, h3, h4, h5⟩ rfl

theorem pushed_push (fragment : Fragment) : Pushed a fragment (a.push fragment) := by
  unfold push
  dsimp only
  split_ifs
  · exact .held .rfl nofun
  · exact .held .rfl nofun
  · exact .held .rfl fun _ ho => by cases ho; rfl
  · split
    · exact .held (a.sameFront_begin fragment) nofun
    · exact pushed_add (a.sameFront_begin fragment)

end Assembler

end OpenStream.Media
