import OpenStream.Lib.Runs
import OpenStream.Lib.Serial
import OpenStream.Media.Assembler

/-!
# Frames are released in order

A reassembler is driven by fragments whose frame ids stay within half the space of numbers, and by
pops and takes in between. Beside it stand the frames it released and how many ids it skipped.

* **`released_in_order`**
-/

namespace OpenStream.Media

open Runs Serial List AList

variable {a : Assembler} {frame : EncodedFrame} {s : Playback}

/-! ## Runs -/

/-- A reassembler, the frames it released (the last one first) and how many ids were skipped between
them since the gap count was last taken. -/
structure Playback where
  assembler : Assembler
  released : List EncodedFrame
  skipped : ℕ

namespace Playback

def between (s : Playback) (frame : EncodedFrame) : ℕ :=
  match s.released with
  | [] => 0
  | last :: _ => (frame.frameId - (last.frameId + 1)).toNat

/-- A call left `a` and released a frame or none. -/
def note (s : Playback) (a : Assembler) : Option EncodedFrame → Playback
  | none => { s with assembler := a }
  | some frame => ⟨a, frame :: s.released, s.skipped + s.between frame⟩

end Playback

/-- The calls a receiver makes. -/
inductive Call
  | push (fragment : Fragment)
  | popReady
  | takeKeyframeRequest
  | takeFrameGap

def released : Except Error PushOutcome → Option EncodedFrame
  | .ok outcome => outcome.ready
  | .error _ => none

def Call.run (s : Playback) : Call → Playback
  | .push fragment => s.note (s.assembler.push fragment).1 (released (s.assembler.push fragment).2)
  | .popReady => s.note s.assembler.popReady.1 s.assembler.popReady.2
  | .takeKeyframeRequest => { s with assembler := s.assembler.takeKeyframeRequest.1 }
  | .takeFrameGap => { s with assembler := s.assembler.takeFrameGap.1, skipped := 0 }

def playback (maxFrameBytes maxInflight : ℕ) : Machine Playback Call :=
  ⟨⟨.new maxFrameBytes maxInflight, [], 0⟩, fun s call => some (call.run s)⟩

/-- The frame ids of fragments are within `2 ^ 31` from a base. -/
def Within (base : UInt32) : Playback → Call → Prop
  | _, .push fragment => offset base fragment.frameId < 2 ^ 31
  | _, _ => True

instance (base : UInt32) (s : Playback) : (call : Call) → Decidable (Within base s call)
  | .push fragment => inferInstanceAs (Decidable (offset base fragment.frameId < 2 ^ 31))
  | .popReady => .isTrue trivial
  | .takeKeyframeRequest => .isTrue trivial
  | .takeFrameGap => .isTrue trivial

/-! ## Comparisons within the span -/

section Span

variable {base p id : UInt32}

theorem offset_next (hp : offset base p < 2 ^ 31) : offset base (p + 1) = offset base p + 1 :=
  offset_succ (by omega)

theorem not_before_next (hp : offset base p < 2 ^ 31) (h : offset base p < offset base id)
    (hid : offset base id < 2 ^ 31) : sequenceBefore id (p + 1) = false := by
  have hnext := offset_next hp
  unfold sequenceBefore
  by_cases heq : id = p + 1
  · simp [heq]
  · have hne : offset base id ≠ offset base (p + 1) := fun h' => heq (offset_inj h')
    have hd := toNat_sub_of_offset_lt base (a := p + 1) (b := id) (by omega)
    simp only [ne_eq, Bool.and_eq_false_iff, decide_eq_false_iff_not]
    exact .inr (by omega)

theorem after_of_not_before (hp : offset base p < 2 ^ 31) (h : sequenceBefore id (p + 1) = false) :
    offset base p < offset base id ∨ offset base p + 1 = 2 ^ 31 ∧ id = base := by
  by_contra hcon
  rw [not_or] at hcon
  obtain ⟨hle, hend⟩ := hcon
  have hnext := offset_next hp
  have hd := toNat_sub_of_offset_le base (a := p + 1) (b := id) (by omega)
  have hne : id ≠ p + 1 := fun he => by
    rw [he, hnext] at hle
    omega
  have hfar : ¬(p + 1 - id).toNat < 2 ^ 31 := by
    intro hlt
    simp [sequenceBefore, hne] at h
    omega
  have hzero : offset base id = offset base base := by
    rw [offset_self]
    omega
  exact hend ⟨by omega, offset_inj hzero⟩

theorem before_of_offset_lt (h : offset base p < offset base id)
    (hid : offset base id < 2 ^ 31) : sequenceBefore p id = true := by
  have hd := toNat_sub_of_offset_le base (a := id) (b := p) h.le
  have hne : p ≠ id := fun he => by
    rw [he] at h
    exact Nat.lt_irrefl _ h
  simp only [sequenceBefore, ne_eq, hne, not_false_eq_true, decide_true, Bool.true_and,
    decide_eq_true_eq]
  omega

end Span

/-! ## The invariant -/

/-- Released ids increase, the next frame is the one after the last released, and every frame that
waits is after it. At the far end of the span the first id of it may wait forever. -/
structure InOrder (base : UInt32) (s : Playback) : Prop where
  keyed : ∀ id frame, s.assembler.ready.lookup id = some frame → frame.frameId = id
  span : ∀ id ∈ s.assembler.ready, offset base id < 2 ^ 31
  releasedSpan : ∀ frame ∈ s.released, offset base frame.frameId < 2 ^ 31
  increasing : s.released.Pairwise fun later earlier =>
    offset base earlier.frameId < offset base later.frameId
  gap : s.assembler.gapFrames = min s.skipped (2 ^ 16 - 1)
  last : s.assembler.lastFrameId = s.released.head?.map EncodedFrame.frameId
  nextReady : s.assembler.nextReady = s.released.head?.map fun frame => frame.frameId + 1
  none_waits : s.released = [] → s.assembler.ready = ∅
  ahead : ∀ frame ∈ s.released.head?, ∀ id ∈ s.assembler.ready,
    offset base frame.frameId < offset base id ∨
      offset base frame.frameId + 1 = 2 ^ 31 ∧ id = base

namespace InOrder

variable {base : UInt32} {s : Playback}

theorem start (base : UInt32) (maxFrameBytes maxInflight : ℕ) :
    InOrder base ⟨.new maxFrameBytes maxInflight, [], 0⟩ where
  keyed := fun id frame h => by
    cases h
  span := fun id h => absurd h (notMem_empty id)
  releasedSpan := nofun
  increasing := .nil
  gap := rfl
  last := rfl
  nextReady := rfl
  none_waits := fun _ => rfl
  ahead := nofun

section

variable (h : InOrder base s)

include h

variable {a : Assembler}

theorem shrink (hready : ∀ id frame, a.ready.lookup id = some frame →
      s.assembler.ready.lookup id = some frame)
    (hempty : s.released = [] → a.ready = ∅) (hnext : a.nextReady = s.assembler.nextReady)
    (hlast : a.lastFrameId = s.assembler.lastFrameId)
    (hgap : a.gapFrames = s.assembler.gapFrames) : InOrder base { s with assembler := a } := by
  have hmem : ∀ id ∈ a.ready, id ∈ s.assembler.ready := by
    intro id hid
    obtain ⟨frame, hframe⟩ := Table.exists_lookup hid
    exact Table.mem_of_lookup (hready id frame hframe)
  exact
    { h with
      keyed := fun id frame hf => h.keyed id frame (hready id frame hf)
      span := fun id hid => h.span id (hmem id hid)
      gap := hgap.trans h.gap
      last := hlast.trans h.last
      nextReady := hnext.trans h.nextReady
      none_waits := hempty
      ahead := fun frame hf id hid => h.ahead frame hf id (hmem id hid) }

theorem congr (ha : a.SameFront s.assembler) :
    InOrder base { s with assembler := a } :=
  h.shrink (fun _ _ hf => ha.ready ▸ hf) (fun hnil => ha.ready.trans (h.none_waits hnil))
    ha.nextReady ha.lastFrameId ha.gapFrames

theorem ahead_of_two (hsize : 2 ≤ s.assembler.ready.size)
    {frame : EncodedFrame} (hframe : frame ∈ s.released.head?) {id : UInt32}
    (hid : id ∈ s.assembler.ready) : offset base frame.frameId < offset base id := by
  refine (h.ahead frame hframe id hid).resolve_right fun hend => ?_
  have hall : ∀ k ∈ s.assembler.ready.keys, k = base := by
    intro k hk
    rcases h.ahead frame hframe k (mem_keys.mpr hk) with hlt | ⟨-, hk⟩
    · have := h.span k (mem_keys.mpr hk)
      omega
    · exact hk
  have hrep := eq_replicate_of_mem hall
  have hnodup := s.assembler.ready.keys_nodup
  rw [hrep, nodup_replicate] at hnodup
  have hlen : s.assembler.ready.keys.length = s.assembler.ready.size :=
    length_map _
  omega

theorem release {last frame : EncodedFrame} {rest : List EncodedFrame}
    (hrel : s.released = last :: rest) {next : UInt32}
    (hframe : s.assembler.ready.lookup next = some frame)
    (hafter : offset base last.frameId < offset base next)
    (hleast : ∀ id ∈ s.assembler.ready, id ≠ next → offset base next < offset base id)
    (hready : a.ready = s.assembler.ready) (hgap : a.gapFrames =
      min (s.skipped + (next - (last.frameId + 1)).toNat) (2 ^ 16 - 1)) :
    InOrder base (s.note (a.release next frame) (some frame)) := by
  have hid := h.keyed next frame hframe
  subst hid
  have hmem : frame.frameId ∈ s.assembler.ready :=
    Table.mem_of_lookup hframe
  have hrest : ∀ id ∈ (a.release frame.frameId frame).ready,
      id ≠ frame.frameId ∧ id ∈ s.assembler.ready := by
    intro id hid
    rw [← hready]
    exact mem_erase.mp hid
  exact
    { keyed := fun id f hf => by
        have hne := (hrest id (Table.mem_of_lookup hf)).1
        refine h.keyed id f ?_
        rw [← hready, ← hf]
        exact (lookup_erase_ne hne).symm
      span := fun id hid => h.span id (hrest id hid).2
      releasedSpan := forall_mem_cons.mpr ⟨h.span _ hmem, h.releasedSpan⟩
      increasing := by
        have hinc := h.increasing
        rw [hrel] at hinc
        refine pairwise_cons.mpr ⟨fun f hf => ?_, h.increasing⟩
        rw [hrel] at hf
        rcases mem_cons.mp hf with rfl | hf
        · exact hafter
        · exact (rel_of_pairwise_cons hinc hf).trans hafter
      gap := by
        show a.gapFrames = min (s.skipped + s.between frame) _
        rw [hgap, Playback.between, hrel]
      last := rfl
      nextReady := rfl
      none_waits := nofun
      ahead := fun f hf id hid => by
        cases hf
        exact .inl (hleast id (hrest id hid).2 (hrest id hid).1) }

theorem popReady : InOrder base (s.note s.assembler.popReady.1 s.assembler.popReady.2) := by
  have hpop := s.assembler.popped_popReady
  generalize s.assembler.popReady = result at hpop ⊢
  cases hrel : s.released with
  | nil =>
    have hnone : s.assembler.nextReady = none := by rw [h.nextReady, hrel]; rfl
    cases hpop with
    | idle _ => exact h
    | next hnext => rw [hnone] at hnext; cases hnext
    | skip hnext => rw [hnone] at hnext; cases hnext
  | cons last rest =>
    have hhead : last ∈ s.released.head? := by rw [hrel]; rfl
    have hlast := h.releasedSpan last (by rw [hrel]; exact mem_cons_self)
    have hnext' : s.assembler.nextReady = some (last.frameId + 1) := by
      rw [h.nextReady, hrel]
      rfl
    have hsucc := offset_next hlast
    cases hpop with
    | idle _ => exact h
    | @next expected frame hnext hframe =>
      rw [hnext'] at hnext
      cases hnext
      have hspan := h.span _ (Table.mem_of_lookup hframe)
      refine h.release hrel hframe (by omega) (fun id hid hne => ?_) rfl ?_
      · have hoff : offset base id ≠ offset base (last.frameId + 1) :=
          fun he => hne (offset_inj he)
        rcases h.ahead last hhead id hid with hlt | ⟨hend, -⟩ <;> omega
      · rw [h.gap, UInt32.sub_self]
        rfl
    | @skip expected next frame hnext habsent hsize hframe hafter hnear =>
      rw [hnext'] at hnext
      cases hnext
      have hmem : next ∈ s.assembler.ready :=
        Table.mem_of_lookup hframe
      have hlt := h.ahead_of_two hsize hhead hmem
      refine h.release hrel hframe hlt (fun id hid hne => ?_) rfl ?_
      · have hid' := h.ahead_of_two hsize hhead hid
        have hd := hnear id hid (not_before_next hlast hid' (h.span id hid))
        rw [toNat_sub_of_offset_le base (by omega), toNat_sub_of_offset_le base (by omega)] at hd
        have hoff : offset base id ≠ offset base next := fun he => hne (offset_inj he)
        omega
      · show min (s.assembler.gapFrames + _) _ = _
        rw [h.gap]
        omega

/-! ## Completing a frame -/

variable {encoded : EncodedFrame}

theorem queue {last : EncodedFrame} {rest : List EncodedFrame}
    (hrel : s.released = last :: rest) (hspan : offset base encoded.frameId < 2 ^ 31)
    (hlate : s.assembler.late encoded.frameId = false) :
    InOrder base { s with assembler := s.assembler.queue encoded } := by
  have hlast := h.releasedSpan last (by rw [hrel]; exact mem_cons_self)
  have hnext : s.assembler.nextReady = some (last.frameId + 1) := by
    rw [h.nextReady, hrel]
    rfl
  have hbefore : sequenceBefore encoded.frameId (last.frameId + 1) = false := by
    rw [Assembler.late, hnext] at hlate
    exact hlate
  have hafter := after_of_not_before hlast hbefore
  have hlook : ∀ id frame, (s.assembler.queue encoded).ready.lookup id = some frame →
      s.assembler.ready.lookup id = some frame ∨ id = encoded.frameId ∧ frame = encoded := by
    intro id frame hf
    rw [Assembler.queue, Table.orInsert] at hf
    split_ifs at hf with hin
    · exact .inl hf
    · by_cases hid : id = encoded.frameId
      · subst hid
        rw [lookup_insert] at hf
        exact .inr ⟨rfl, (Option.some.inj hf).symm⟩
      · rw [lookup_insert_ne hid] at hf
        exact .inl hf
  have hmem : ∀ id ∈ (s.assembler.queue encoded).ready,
      id ∈ s.assembler.ready ∨ id = encoded.frameId := by
    intro id hid
    obtain ⟨frame, hframe⟩ := Table.exists_lookup hid
    rcases hlook id frame hframe with hf | ⟨hf, -⟩
    · exact .inl (Table.mem_of_lookup hf)
    · exact .inr hf
  exact
    { h with
      keyed := fun id frame hf => by
        rcases hlook id frame hf with hf | ⟨rfl, rfl⟩
        · exact h.keyed id frame hf
        · rfl
      span := fun id hid => by
        rcases hmem id hid with hid | rfl
        · exact h.span id hid
        · exact hspan
      nextReady := by
        show some (s.assembler.nextReady.getD _) = _
        rw [hnext, ← h.nextReady, hnext]
        rfl
      none_waits := fun hnil => by rw [hrel] at hnil; cases hnil
      ahead := fun frame hf id hid => by
        rcases hmem id hid with hid | rfl
        · exact h.ahead frame hf id hid
        · rw [hrel] at hf
          cases hf
          exact hafter }

theorem first (hnil : s.released = [])
    (hspan : offset base encoded.frameId < 2 ^ 31) (dropped : List UInt32) :
    InOrder base (s.note ((s.assembler.queue encoded).evictReadyIfNeeded dropped).1.popReady.1
      ((s.assembler.queue encoded).evictReadyIfNeeded dropped).1.popReady.2) := by
  have hready : (s.assembler.queue encoded).ready = insert encoded.frameId encoded ∅ := by
    rw [Assembler.queue, h.none_waits hnil, Table.orInsert, if_neg (notMem_empty _)]
  have hnext : (s.assembler.queue encoded).nextReady = some encoded.frameId := by
    rw [Assembler.queue, h.nextReady, hnil]
    rfl
  have hsize : (s.assembler.queue encoded).ready.size ≤ (s.assembler.queue encoded).readyLimit := by
    rw [hready]
    exact (show 1 ≤ 2 by decide).trans (le_max_right _ 2)
  have hevict : ((s.assembler.queue encoded).evictReadyIfNeeded dropped).1 =
      s.assembler.queue encoded := by
    rw [Assembler.evictReadyIfNeeded, Assembler.evictReadyLoop_of_le hsize]
  rw [hevict]
  have hmem : encoded.frameId ∈ (s.assembler.queue encoded).ready := by
    rw [hready]
    exact (mem_insert _).mpr (.inl rfl)
  have hpop := (s.assembler.queue encoded).popped_popReady
  generalize (s.assembler.queue encoded).popReady = result at hpop ⊢
  cases hpop with
  | idle hnone => exact absurd hmem (hnone _ hnext)
  | skip hnext' habsent =>
    rw [hnext] at hnext'
    cases hnext'
    exact absurd hmem habsent
  | @next expected frame hnext' hframe =>
    rw [hnext] at hnext'
    cases hnext'
    rw [hready, lookup_insert] at hframe
    cases hframe
    have hnone : ∀ id,
        id ∉ ((s.assembler.queue encoded).release encoded.frameId encoded).ready := by
      intro id hid
      obtain ⟨hne, hin⟩ := mem_erase.mp hid
      rw [hready, mem_insert] at hin
      exact hin.elim hne (notMem_empty id)
    exact
      { keyed := fun id f hf => absurd (Table.mem_of_lookup hf) (hnone id)
        span := fun id hid => absurd hid (hnone id)
        releasedSpan := forall_mem_cons.mpr ⟨hspan, h.releasedSpan⟩
        increasing := by
          refine pairwise_cons.mpr ⟨fun f hf => ?_, h.increasing⟩
          rw [hnil] at hf
          cases hf
        gap := by
          show s.assembler.gapFrames = min (s.skipped + s.between encoded) _
          rw [h.gap, Playback.between, hnil]
          rfl
        last := rfl
        nextReady := rfl
        none_waits := nofun
        ahead := fun _ _ id hid => absurd hid (hnone id) }

theorem complete
    (hspan : offset base encoded.frameId < 2 ^ 31) (dropped : List UInt32) :
    InOrder base (s.note (s.assembler.complete encoded dropped).1
      (s.assembler.complete encoded dropped).2.ready) := by
  have hnoted := h.congr (s.assembler.sameFront_remember encoded.frameId)
  unfold Assembler.complete
  dsimp only
  split_ifs with hlate
  · exact hnoted
  · cases hrel : s.released with
    | nil => exact hnoted.first hrel hspan dropped
    | cons last rest =>
      have hqueue := hnoted.queue hrel hspan (by simpa using hlate)
      have hevict := hqueue.shrink (a := (((s.assembler.remember encoded.frameId).queue
        encoded).evictReadyIfNeeded dropped).1) (fun id frame hf => ?_)
        (fun hnil => by rw [hrel] at hnil; cases hnil) rfl rfl rfl
      · exact hevict.popReady
      · rcases (Assembler.lookup_evictReadyLoop id _ _ dropped).1 with hsame | ⟨hnone, -⟩
        · exact hsame.symm.trans hf
        · rw [Assembler.evictReadyIfNeeded] at hf
          rw [hnone] at hf
          cases hf

/-! ## Whole runs -/

theorem run {call : Call} (hcall : Within base s call) : InOrder base (call.run s) := by
  cases call with
  | push fragment =>
    have hpush := s.assembler.pushed_push fragment
    simp only [Call.run]
    generalize s.assembler.push fragment = result at hpush ⊢
    cases hpush with
    | @held b result hfront hready =>
      have hnone : released result = none := by
        cases result with
        | ok outcome => exact hready outcome rfl
        | error e => rfl
      rw [hnone]
      exact h.congr hfront
    | @completed b encoded dropped hfront hid =>
      have hspan : offset base encoded.frameId < 2 ^ 31 := by
        rw [hid]
        exact hcall
      exact (h.congr hfront).complete hspan dropped
  | popReady => exact h.popReady
  | takeKeyframeRequest => exact { h with }
  | takeFrameGap => exact { h with gap := rfl }

end

end InOrder

/-! ## The keyframe request -/

theorem request_release (next : UInt32) (hkey : frame.keyframe = false)
    (hgap : ∀ last, a.lastFrameId = some last → frame.frameId ≠ last + 1) :
    (a.release next frame).keyframeRequest = true := by
  simp only [Assembler.release, Assembler.acceptOrderedFrame, hkey]
  cases hlast : a.lastFrameId with
  | none => simp
  | some last => simp [hgap last hlast]

theorem request_popReady (hpop : a.popReady.2 = some frame) (hkey : frame.keyframe = false)
    (hgap : ∀ last, a.lastFrameId = some last → frame.frameId ≠ last + 1) :
    a.popReady.1.keyframeRequest = true := by
  have h := a.popped_popReady
  generalize a.popReady = result at h hpop ⊢
  cases h with
  | idle _ => cases hpop
  | next _ _ | skip _ _ _ _ _ _ =>
    cases hpop
    exact request_release _ hkey hgap

theorem request_complete {encoded : EncodedFrame} {dropped : List UInt32}
    (hready : (a.complete encoded dropped).2.ready = some frame) (hkey : frame.keyframe = false)
    (hgap : ∀ last, a.lastFrameId = some last → frame.frameId ≠ last + 1) :
    (a.complete encoded dropped).1.keyframeRequest = true := by
  unfold Assembler.complete at hready ⊢
  dsimp only at hready ⊢
  split_ifs at hready ⊢ with hlate
  · cases hready
  · exact request_popReady hready hkey hgap

theorem released_note {result : Option EncodedFrame}
    (h : (s.note a result).released = frame :: s.released) :
    result = some frame := by
  cases result with
  | none => exact absurd (congrArg length h) (by simp [Playback.note])
  | some f =>
    rw [(cons.inj h).1]

theorem request_run {base : UInt32} (h : InOrder base s) {call : Call}
    (hrel : (call.run s).released = frame :: s.released)
    (hkey : frame.keyframe = false)
    (hgap : ∀ last ∈ s.released.head?, frame.frameId ≠ last.frameId + 1) :
    (call.run s).assembler.keyframeRequest = true := by
  have hgap' : ∀ last, s.assembler.lastFrameId = some last → frame.frameId ≠ last + 1 := by
    intro last hlast
    rw [h.last, Option.map_eq_some_iff] at hlast
    obtain ⟨f, hf, rfl⟩ := hlast
    exact hgap f hf
  cases call with
  | push fragment =>
    have hpush := s.assembler.pushed_push fragment
    simp only [Call.run] at hrel ⊢
    have hresult := released_note hrel
    rw [hresult]
    show (s.assembler.push fragment).1.keyframeRequest = true
    generalize s.assembler.push fragment = result at hpush hresult ⊢
    cases hpush with
    | @held b result hfront hready =>
      cases result with
      | ok outcome =>
        rw [show released (.ok outcome) = outcome.ready from rfl, hready outcome rfl] at hresult
        cases hresult
      | error e => cases hresult
    | @completed b encoded dropped hfront hid =>
      refine request_complete hresult hkey fun last hlast => hgap' last ?_
      rw [← hfront.lastFrameId, hlast]
  | popReady =>
    simp only [Call.run] at hrel ⊢
    have hresult := released_note hrel
    rw [hresult]
    exact request_popReady hresult hkey hgap'
  | takeKeyframeRequest | takeFrameGap => exact absurd (congrArg length hrel) (by simp [Call.run])

/-! ## The result -/

theorem inOrder_of_reach {maxFrameBytes maxInflight : ℕ} {base : UInt32}
    (h : (playback maxFrameBytes maxInflight).ReachVia (Within base) s) : InOrder base s := by
  refine h.invariant (InOrder.start base maxFrameBytes maxInflight) ?_
  intro s call s' hs hcall hstep
  cases hstep
  exact hs.run hcall

/-- **Frames are released in order, once, and gaps are flagged**, while frame ids are within `2 ^
31` of a base. -/
theorem released_in_order {maxFrameBytes maxInflight : ℕ} {base : UInt32} {s : Playback}
    (h : (playback maxFrameBytes maxInflight).ReachVia (Within base) s) :
    (s.released.Pairwise fun later earlier =>
        sequenceBefore earlier.frameId later.frameId = true) ∧
      (s.released.map EncodedFrame.frameId).Nodup ∧
      s.assembler.takeFrameGap.2 = min s.skipped 65535 ∧
      ∀ (call : Call) (frame : EncodedFrame), (call.run s).released = frame :: s.released →
        frame.keyframe = false → (∀ last ∈ s.released.head?, frame.frameId ≠ last.frameId + 1) →
        (call.run s).assembler.takeKeyframeRequest.2 = true := by
  have hs := inOrder_of_reach h
  refine ⟨?_, ?_, hs.gap, fun call frame hrel hkey hgap => request_run hs hrel hkey hgap⟩
  · refine hs.increasing.imp_of_mem fun {later earlier} hlater _ hlt => ?_
    exact before_of_offset_lt hlt (hs.releasedSpan later hlater)
  · refine pairwise_map.mpr (hs.increasing.imp fun {later earlier} hlt heq => ?_)
    rw [heq] at hlt
    exact Nat.lt_irrefl _ hlt

def single (frameId : UInt32) (keyframe : Bool) : Fragment := ⟨frameId, 0, 1, 0, keyframe, [1]⟩

/-- Frame 6 is lost: 7 is released once 8 waits behind it, across the gap. -/
theorem released_in_order_gap : ∃ s, (playback 1024 2).ReachVia (Within 5) s ∧
    s.released.map EncodedFrame.frameId = [7, 5] ∧ s.assembler.gapFrames = 1 ∧
    s.assembler.keyframeRequest = true ∧
    (s.released.Pairwise fun later earlier =>
      sequenceBefore earlier.frameId later.frameId = true) ∧
    s.assembler.takeFrameGap.2 = min s.skipped 65535 := by
  obtain ⟨s, hs, hids, hgap, hkey⟩ := Machine.exists_reachVia (M := playback 1024 2) (Within 5)
    [.push (single 5 true), .push (single 7 false), .push (single 8 false)]
    (fun s => s.released.map EncodedFrame.frameId = [7, 5] ∧ s.assembler.gapFrames = 1 ∧
      s.assembler.keyframeRequest = true) (by decide +kernel)
  obtain ⟨horder, -, hcount, -⟩ := released_in_order hs
  exact ⟨s, hs, hids, hgap, hkey, horder, hcount⟩

end OpenStream.Media
