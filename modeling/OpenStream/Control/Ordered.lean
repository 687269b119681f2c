import OpenStream.Control.Channel
import OpenStream.Lib.Runs
import OpenStream.Lib.Serial

/-!
# The control channel delivers once and in order

Two channels with one window size, joined by a network that keeps every frame ever made and
delivers any of them at any time and any number of times. Positions count messages from the start
and never wrap; a frame's sequence number is its position modulo `2 ^ 32`.

* `Carries`: what holds of one direction. **`Pair.carries_of_reach`**.
* **`Pair.ordered`**
-/

namespace OpenStream.Control

open Bytes List Function
open UInt32 (ofNat)

/-! ## Messages under their numbers -/

/-- Messages from position `k` on, each under its sequence number. -/
def numbered : ℕ → List Str → List (Σ _ : UInt32, Str)
  | _, [] => []
  | k, p :: l => ⟨ofNat k, p⟩ :: numbered (k + 1) l

@[simp] theorem length_numbered : ∀ (k : ℕ) (l : List Str), (numbered k l).length = l.length
  | _, [] => rfl
  | k, _ :: l => congrArg (· + 1) (length_numbered (k + 1) l)

theorem numbered_append (k : ℕ) (l : List Str) (p : Str) :
    numbered k (l ++ [p]) = numbered k l ++ [⟨ofNat (k + l.length), p⟩] := by
  induction l generalizing k with
  | nil => rfl
  | cons a l ih =>
    rw [cons_append, numbered, numbered, ih, cons_append, length_cons,
      Nat.add_assoc, Nat.add_comm 1]

theorem mem_numbered {k : ℕ} {l : List Str} {x : Σ _ : UInt32, Str} (h : x ∈ numbered k l) :
    ∃ i < l.length, x.1 = ofNat (k + i) := by
  induction l generalizing k with
  | nil => cases h
  | cons a l ih =>
    rcases mem_cons.mp h with rfl | h
    · exact ⟨0, Nat.succ_pos _, rfl⟩
    · obtain ⟨i, hi, hx⟩ := ih h
      refine ⟨i + 1, Nat.succ_lt_succ hi, hx.trans ?_⟩
      rw [Nat.add_assoc, Nat.add_comm 1 i]

theorem numbered_mem {k i : ℕ} {l : List Str} {p : Str} (h : l[i]? = some p) :
    ⟨ofNat (k + i), p⟩ ∈ numbered k l := by
  induction l generalizing k i with
  | nil => cases h
  | cons a l ih =>
    cases i with
    | zero =>
      cases h
      exact mem_cons_self
    | succ i =>
      have := ih (k := k + 1) h
      rw [Nat.add_assoc, Nat.add_comm 1 i] at this
      exact mem_cons_of_mem _ this

theorem sequenceAtOrBefore_ofNat {s a : ℕ} (h1 : a - s < 2 ^ 31) (h2 : s - a ≤ 2 ^ 31) :
    sequenceAtOrBefore (ofNat s) (ofNat a) = true ↔ s ≤ a := by
  rw [← Serial.sge_ofNat h1 h2]
  unfold sequenceAtOrBefore Serial.sge
  rw [Bool.or_eq_true, decide_eq_true_iff, decide_eq_true_iff, or_iff_right_iff_imp]
  intro h
  rw [h, UInt32.sub_self]
  decide

/-- **A cumulative acknowledgement drops the positions through its own.** -/
theorem filter_numbered {a : ℕ} : ∀ {k : ℕ} {l : List Str}, a < k + 2 ^ 31 →
    k + l.length ≤ a + 2 ^ 31 + 1 →
    (numbered k l).filter (fun e => !sequenceAtOrBefore e.1 (ofNat a)) =
      numbered (max k (a + 1)) (l.drop (a + 1 - k)) := by
  intro k l h1 h2
  induction l generalizing k with
  | nil => simp [numbered]
  | cons p l ih =>
    rw [length_cons] at h2
    have hiff := sequenceAtOrBefore_ofNat (s := k) (a := a) (by omega) (by omega)
    have ih := ih (k := k + 1) (by omega) (by omega)
    rw [numbered, filter_cons, ih]
    by_cases hk : k ≤ a
    · rw [if_neg (by rw [hiff.mpr hk]; decide)]
      rw [show max (k + 1) (a + 1) = max k (a + 1) by omega,
        show a + 1 - k = (a + 1 - (k + 1)) + 1 by omega, drop_succ_cons]
    · rw [if_pos (by rw [Bool.not_eq_true', ← Bool.not_eq_true, hiff]; exact hk)]
      rw [show max (k + 1) (a + 1) = k + 1 by omega, show max k (a + 1) = k by omega,
        show a + 1 - (k + 1) = 0 by omega, show a + 1 - k = 0 by omega]
      rfl

/-! ## Two ends and their wires -/

inductive End
  | left
  | right
  deriving DecidableEq

def End.other : End → End
  | .left => .right
  | .right => .left

/-- A frame on the wire, the position of its message and the number of messages its acknowledgement
covers. -/
structure Flight where
  frame : Frame
  index : ℕ
  covered : ℕ
  deriving DecidableEq

/-- One end: its channel, the messages queued on it, those it has delivered, and what it has sent. -/
structure Side where
  channel : Channel
  queued : List Str
  delivered : List Str
  wire : List Flight

namespace Side

variable (x : Side)

def queue (payload : Str) : Side :=
  match x.channel.queue payload with
  | (c, .ok _) => { x with channel := c, queued := x.queued ++ [payload] }
  | (c, .error _) => { x with channel := c }

def sendFrame (frame : Frame) : Side :=
  { x with wire := x.wire ++
      [⟨frame, x.queued.length - x.channel.age frame.sequence, x.delivered.length⟩] }

def receive (frame : Frame) : Side :=
  let (c, r) := x.channel.receive frame
  { x with channel := c, delivered := x.delivered ++ r.delivered }

end Side

abbrev Pair := End → Side

inductive Act
  | queue (e : End) (payload : Str)
  | nextFrame (e : End)
  | acknowledgementFrame (e : End)
  /-- The `i`-th frame the other end made arrives. -/
  | receive (e : End) (i : ℕ)

namespace Pair

def step (s : Pair) : Act → Option Pair
  | .queue e payload => some (Function.update s e ((s e).queue payload))
  | .nextFrame e =>
    (s e).channel.nextFrame.map fun f => Function.update s e ((s e).sendFrame f)
  | .acknowledgementFrame e =>
    (s e).channel.acknowledgementFrame.map fun f => Function.update s e ((s e).sendFrame f)
  | .receive e i =>
    (s e.other).wire[i]?.map fun f => Function.update s e ((s e).receive f.frame)

/-- The message of a frame is fewer than `2 ^ 31` sequence numbers old for its sender, and the one
its acknowledgement names for its receiver. -/
def Recent (s : Pair) (e : End) (f : Flight) : Prop :=
  (f.frame.ackOnly = false → (s e.other).queued.length - f.index < 2 ^ 31) ∧
    (f.frame.acknowledgement.isSome → (s e).queued.length - (f.covered - 1) < 2 ^ 31)

instance (s : Pair) (e : End) (f : Flight) : Decidable (Recent s e f) :=
  inferInstanceAs (Decidable (_ ∧ _))

def Fresh (s : Pair) : Act → Prop
  | .receive e i => ∀ f ∈ (s e.other).wire[i]?, Recent s e f
  | _ => True

instance : ∀ (s : Pair) (a : Act), Decidable (Fresh s a)
  | s, .receive e i => inferInstanceAs (Decidable (∀ f ∈ (s e.other).wire[i]?, Recent s e f))
  | _, .queue .. | _, .nextFrame _ | _, .acknowledgementFrame _ => instDecidableTrue

end Pair

/-- Two channels with window `maxPending`. -/
def pair (maxPending : ℕ) : Runs.Machine Pair Act where
  start := fun _ => ⟨.new maxPending, [], [], []⟩
  step := Pair.step

/-! ## One direction -/

/-- What holds of the direction from `x` to `y`, the first `acked` messages being acknowledged. -/
structure Carries (acked : ℕ) (x y : Side) : Prop where
  next : x.channel.nextSequence = ofNat x.queued.length
  outstanding : x.channel.outstanding.entries = (numbered acked (x.queued.drop acked)).reverse
  acked_le : acked ≤ y.delivered.length
  window : x.queued.length ≤ acked + x.channel.maxPending
  inOrder : y.delivered <+: x.queued
  expected : y.channel.expectedSequence = ofNat y.delivered.length
  /-- Only the oldest message is ever sent, so nothing arrives ahead of its turn. -/
  waiting : y.channel.waiting = ∅
  pending : ∀ a, y.channel.pendingAck = some a →
    0 < y.delivered.length ∧ a = ofNat (y.delivered.length - 1)
  data : ∀ f ∈ x.wire, f.frame.ackOnly = false → f.index ≤ y.delivered.length ∧
    f.frame.sequence = ofNat f.index ∧ x.queued[f.index]? = some f.frame.payload
  acks : ∀ f ∈ y.wire, ∀ a, f.frame.acknowledgement = some a →
    0 < f.covered ∧ f.covered ≤ y.delivered.length ∧ a = ofNat (f.covered - 1)

namespace Carries

variable {L : ℕ} {x y : Side}

theorem start (n : ℕ) :
    Carries 0 ⟨Channel.new n, [], [], []⟩ ⟨Channel.new n, [], [], []⟩ where
  next := rfl
  outstanding := rfl
  acked_le := le_rfl
  window := Nat.zero_le _
  inOrder := prefix_rfl
  expected := rfl
  waiting := rfl
  pending := by
    intro a h
    cases h
  data := by
    intro f h
    cases h
  acks := by
    intro f h
    cases h

section

variable (h : Carries L x y)

include h

theorem length_le : y.delivered.length ≤ x.queued.length := h.inOrder.length_le

theorem acked_le_queued : L ≤ x.queued.length := h.acked_le.trans h.length_le

theorem size_outstanding : x.channel.outstanding.size = x.queued.length - L := by
  rw [Table.size, h.outstanding, length_reverse, length_numbered, length_drop]

theorem lookup_outstanding {q : ℕ} {p : Str} (hq : x.queued[q]? = some p)
    (hL : L ≤ q) : x.channel.outstanding.lookup (ofNat q) = some p := by
  rw [← Option.mem_def, AList.mem_lookup_iff, h.outstanding, mem_reverse]
  have hd : (x.queued.drop L)[q - L]? = some p := by
    rw [getElem?_drop, Nat.add_sub_cancel' hL]
    exact hq
  have := numbered_mem (k := L) hd
  rwa [Nat.add_sub_cancel' hL] at this

theorem next_notMem (hw : x.channel.maxPending ≤ 2 ^ 31) :
    x.channel.nextSequence ∉ x.channel.outstanding := by
  intro hmem
  rw [h.next, AList.mem_keys, AList.keys, mem_keys, h.outstanding] at hmem
  obtain ⟨p, hp⟩ := hmem
  obtain ⟨i, hi, heq⟩ := mem_numbered (mem_reverse.mp hp)
  rw [length_drop] at hi
  have hwin := h.window
  have := Serial.ofNat_inj heq (by omega) (by omega)
  omega

/-! ## What each call keeps -/

theorem queue_sender (hw : x.channel.maxPending ≤ 2 ^ 31) (p : Str) : Carries L (x.queue p) y := by
  unfold Side.queue Channel.queue
  by_cases h1 : p.isEmpty = true
  · rw [if_pos h1]
    exact h
  rw [if_neg h1]
  by_cases h2 : MAX_PAYLOAD < p.length
  · rw [if_pos h2]
    exact h
  rw [if_neg h2]
  by_cases h3 : x.channel.maxPending ≤ x.channel.outstanding.size
  · rw [if_pos h3]
    exact h
  rw [if_neg h3]
  rw [h.size_outstanding] at h3
  have hL := h.acked_le_queued
  refine { h with next := ?_, outstanding := ?_, window := ?_, inOrder := ?_, data := ?_ }
  · show x.channel.nextSequence + 1 = ofNat (x.queued ++ [p]).length
    rw [h.next, Serial.ofNat_succ, List.length_append, List.length_singleton]
  · show (x.channel.outstanding.insert x.channel.nextSequence p).entries =
      (numbered L ((x.queued ++ [p]).drop L)).reverse
    rw [AList.entries_insert_of_notMem (h.next_notMem hw), h.outstanding,
      List.drop_append_of_le_length hL, numbered_append, List.reverse_append, h.next,
      List.length_drop, Nat.add_sub_cancel' hL]
    rfl
  · show (x.queued ++ [p]).length ≤ L + x.channel.maxPending
    rw [List.length_append, List.length_singleton]
    omega
  · exact h.inOrder.trans (List.prefix_append _ _)
  · intro f hf hd
    obtain ⟨hle, hseq, hget⟩ := h.data f hf hd
    refine ⟨hle, hseq, ?_⟩
    show (x.queued ++ [p])[f.index]? = some f.frame.payload
    rw [List.getElem?_append_left (List.getElem?_eq_some_iff.mp hget).1]
    exact hget

theorem queue_receiver (p : Str) : Carries L x (y.queue p) := by
  unfold Side.queue Channel.queue
  split_ifs <;> exact { h with }

variable {f : Frame}

theorem nextFrame_eq (hw : x.channel.maxPending ≤ 2 ^ 31)
    (hf : x.channel.nextFrame = some f) :
    L < x.queued.length ∧ f.sequence = ofNat L ∧ f.ackOnly = false ∧
      x.queued[L]? = some f.payload := by
  unfold Channel.nextFrame at hf
  rw [h.outstanding] at hf
  have hwin := h.window
  cases hd : x.queued.drop L with
  | nil =>
    rw [hd] at hf
    cases hf
  | cons p l =>
    have hlen : (x.queued.drop L).length = l.length + 1 := by rw [hd, length_cons]
    rw [length_drop] at hlen
    rw [hd, numbered, reverse_cons, Table.maxByKey_append] at hf
    · cases hf
      refine ⟨by omega, rfl, rfl, ?_⟩
      have := congrArg (·[0]?) hd
      simpa [getElem?_drop] using this
    · intro e he
      obtain ⟨i, hi, hseq⟩ := mem_numbered (mem_reverse.mp he)
      unfold Channel.age
      rw [hseq, h.next, Serial.toNat_sub_ofNat (by omega) (by omega),
        Serial.toNat_sub_ofNat (by omega) (by omega)]
      omega

theorem nextFrame_sender (hw : x.channel.maxPending ≤ 2 ^ 31)
    (hf : x.channel.nextFrame = some f) : Carries L (x.sendFrame f) y := by
  refine { h with data := forall_mem_concat h.data fun _ => ?_ }
  obtain ⟨hlt, hseq, -, hget⟩ := h.nextFrame_eq hw hf
  have hwin := h.window
  have hage : x.queued.length - x.channel.age f.sequence = L := by
    rw [Channel.age, h.next, hseq, Serial.toNat_sub_ofNat (by omega) (by omega)]
    omega
  simp only [hage]
  exact ⟨h.acked_le, hseq, hget⟩

theorem acknowledgementFrame_sender (hf : f.ackOnly = true) :
    Carries L (x.sendFrame f) y := by
  refine { h with data := forall_mem_concat h.data fun hd => ?_ }
  rw [hf] at hd
  cases hd

theorem sendFrame_receiver
    (hf : f.acknowledgement = y.channel.pendingAck) : Carries L x (y.sendFrame f) := by
  refine { h with acks := forall_mem_concat h.acks fun a ha => ?_ }
  obtain ⟨hpos, heq⟩ := h.pending a (hf.symm.trans ha)
  exact ⟨hpos, le_rfl, heq⟩

theorem acknowledged_sender (hw : x.channel.maxPending ≤ 2 ^ 31) {f : Flight}
    (hf : f ∈ y.wire) (hr : f.frame.acknowledgement.isSome →
      x.queued.length - (f.covered - 1) < 2 ^ 31) :
    ∃ L', Carries L'
      { x with channel := x.channel.acknowledged f.frame.acknowledgement } y := by
  cases ha : f.frame.acknowledgement with
  | none => exact ⟨L, { h with }⟩
  | some a =>
    obtain ⟨hpos, hle, heq⟩ := h.acks f hf a ha
    have hrec := hr (by rw [ha]; rfl)
    have hwin := h.window
    have hlen := h.length_le
    have hL := h.acked_le_queued
    refine ⟨max L f.covered, { h with outstanding := ?_, acked_le := ?_, window := ?_ }⟩
    · show (x.channel.outstanding.retain _).entries = _
      rw [Table.entries_retain, h.outstanding, filter_reverse, heq,
        filter_numbered (by omega) (by rw [length_drop]; omega), drop_drop,
        Nat.sub_add_cancel hpos]
      rw [show L + (f.covered - L) = max L f.covered by omega]
    · exact max_le h.acked_le hle
    · show x.queued.length ≤ max L f.covered + x.channel.maxPending
      omega

end

theorem concat_isPrefix {l m : List Str} {p : Str} (h : l <+: m) (hp : m[l.length]? = some p) :
    l ++ [p] <+: m := by
  obtain ⟨t, rfl⟩ := h
  rw [getElem?_append_right le_rfl, Nat.sub_self] at hp
  cases t with
  | nil => cases hp
  | cons q t =>
    cases hp
    exact ⟨t, by rw [append_assoc, singleton_append]⟩

theorem receiveData_receiver {c : Channel} {l : List Str} {w : List Flight}
    (h : Carries L x ⟨c, l, y.delivered, w⟩) {f : Flight} (hf : f ∈ x.wire)
    (hr : f.frame.ackOnly = false → x.queued.length - f.index < 2 ^ 31) :
    Carries L x ⟨(c.receiveData f.frame).1, l,
      y.delivered ++ (c.receiveData f.frame).2.delivered, w⟩ := by
  have hignored (hi : c.receiveData f.frame = (c, ⟨[], c.pendingAck⟩)) :
      Carries L x ⟨(c.receiveData f.frame).1, l,
        y.delivered ++ (c.receiveData f.frame).2.delivered, w⟩ := by
    rw [hi]
    simpa using h
  cases hack : f.frame.ackOnly with
  | true => exact hignored (Channel.receiveData_ignored (.inl hack))
  | false =>
    obtain ⟨hle, hseq, hget⟩ := h.data f hf hack
    have hexp : c.expectedSequence = ofNat y.delivered.length := h.expected
    have hrec := hr hack
    have hlen := h.length_le
    change f.index ≤ y.delivered.length at hle
    change y.delivered.length ≤ x.queued.length at hlen
    rcases hle.lt_or_eq with hlt | heq
    · refine hignored (Channel.receiveData_ignored (.inr ⟨?_, ?_⟩))
      · rw [hseq, hexp, sequenceAtOrBefore_ofNat (by omega) (by omega)]
        exact hle
      · intro h'
        rw [hseq, hexp] at h'
        have := Serial.ofNat_inj h' (by omega) (by omega)
        omega
    · have hnext : f.frame.sequence = c.expectedSequence := by rw [hseq, hexp, heq]
      rw [Channel.receiveData_next h.waiting hack hnext]
      have hlen' : (y.delivered ++ [f.frame.payload]).length = y.delivered.length + 1 :=
        length_append
      refine { h with acked_le := ?_, inOrder := ?_, expected := ?_, pending := ?_, data := ?_,
                      acks := ?_ }
      · show L ≤ (y.delivered ++ [f.frame.payload]).length
        exact h.acked_le.trans (by rw [hlen']; exact Nat.le_succ _)
      · show y.delivered ++ [f.frame.payload] <+: x.queued
        rw [heq] at hget
        exact concat_isPrefix h.inOrder hget
      · show c.expectedSequence + 1 = ofNat (y.delivered ++ [f.frame.payload]).length
        rw [hlen', hexp, Serial.ofNat_succ]
      · intro a ha
        cases ha
        show 0 < (y.delivered ++ [f.frame.payload]).length ∧
          c.expectedSequence = ofNat ((y.delivered ++ [f.frame.payload]).length - 1)
        rw [hlen', Nat.add_sub_cancel]
        exact ⟨Nat.succ_pos _, hexp⟩
      · intro g hg hd
        obtain ⟨hle', hrest⟩ := h.data g hg hd
        refine ⟨hle'.trans ?_, hrest⟩
        show y.delivered.length ≤ (y.delivered ++ [f.frame.payload]).length
        rw [hlen']
        exact Nat.le_succ _
      · intro g hg a ha
        obtain ⟨hpos, hle', hrest⟩ := h.acks g hg a ha
        refine ⟨hpos, hle'.trans ?_, hrest⟩
        show y.delivered.length ≤ (y.delivered ++ [f.frame.payload]).length
        rw [hlen']
        exact Nat.le_succ _

theorem receive_receiver (h : Carries L x y) {f : Flight} (hf : f ∈ x.wire)
    (hr : f.frame.ackOnly = false → x.queued.length - f.index < 2 ^ 31) :
    Carries L x (y.receive f.frame) := by
  have hs := y.channel.acknowledged_receiving f.frame.acknowledgement
  refine receiveData_receiver (y := y) (c := y.channel.acknowledged f.frame.acknowledgement)
    { h with expected := ?_, waiting := ?_, pending := ?_ } hf hr
  · exact hs.expectedSequence.trans h.expected
  · exact hs.waiting.trans h.waiting
  · intro a ha
    exact h.pending a (hs.pendingAck.symm.trans ha)

theorem receive_sender (h : Carries L x y) (hw : x.channel.maxPending ≤ 2 ^ 31) {f : Flight}
    (hf : f ∈ y.wire) (hr : f.frame.acknowledgement.isSome →
      x.queued.length - (f.covered - 1) < 2 ^ 31) : ∃ L', Carries L' (x.receive f.frame) y := by
  obtain ⟨L', h'⟩ := h.acknowledged_sender hw hf hr
  have hs := Channel.receiveData_sending (c := x.channel.acknowledged f.frame.acknowledgement)
    f.frame
  refine ⟨L', { h' with next := ?_, outstanding := ?_, window := ?_ }⟩
  · exact hs.nextSequence.trans h'.next
  · exact (congrArg AList.entries hs.outstanding).trans h'.outstanding
  · exact h'.window.trans (le_of_eq (congrArg (L' + ·) hs.maxPending.symm))

end Carries

/-! ## Every run -/

namespace Pair

variable {n : ℕ} {s s' : Pair}

/-- Both directions carry, and the windows have the size they were made with. -/
structure Inv (n : ℕ) (s : Pair) : Prop where
  maxPending : ∀ e, (s e).channel.maxPending = max n 1
  carries : ∀ e, ∃ L, Carries L (s e) (s e.other)

theorem Inv.start (n : ℕ) : Inv n (pair n).start :=
  ⟨fun _ => rfl, fun _ => ⟨0, .start n⟩⟩

theorem Inv.update (h : Inv n s) (e : End) {x : Side} (hm : x.channel.maxPending = max n 1)
    (hsend : ∀ L, Carries L (s e) (s e.other) → ∃ L', Carries L' x (s e.other))
    (hrecv : ∀ L, Carries L (s e.other) (s e) → Carries L (s e.other) x) :
    Inv n (update s e x) := by
  have hne : e.other ≠ e := by cases e <;> decide
  have hoo : e.other.other = e := by cases e <;> rfl
  refine ⟨fun d => ?_, fun d => ?_⟩
  · by_cases hd : d = e
    · rw [hd, update_self]
      exact hm
    · rw [update_of_ne hd]
      exact h.maxPending d
  · by_cases hd : d = e
    · rw [hd, update_self, update_of_ne hne]
      obtain ⟨L, hL⟩ := h.carries e
      exact hsend L hL
    · have hd' : d = e.other := by
        cases d <;> cases e <;> first | rfl | exact absurd rfl hd
      rw [hd', update_of_ne hne, hoo, update_self]
      obtain ⟨L, hL⟩ := h.carries e.other
      rw [hoo] at hL
      exact ⟨L, hrecv L hL⟩

theorem maxPending_queue (x : Side) (p : Str) :
    (x.queue p).channel.maxPending = x.channel.maxPending := by
  unfold Side.queue Channel.queue
  split_ifs <;> rfl

theorem maxPending_receive (x : Side) (f : Frame) :
    (x.receive f).channel.maxPending = x.channel.maxPending := by
  refine (Channel.receiveData_sending (c := x.channel.acknowledged f.acknowledgement) f).maxPending.trans ?_
  cases f.acknowledgement <;> rfl

theorem Inv.step (hn : n ≤ 2 ^ 31) (h : Inv n s) {a : Act} (ha : Fresh s a)
    (hst : Pair.step s a = some s') : Inv n s' := by
  have hw (e : End) : (s e).channel.maxPending ≤ 2 ^ 31 := by
    rw [h.maxPending e]
    exact max_le hn (by decide)
  cases a with
  | queue e p =>
    cases hst
    exact h.update e ((maxPending_queue _ p).trans (h.maxPending e))
      (fun L hL => ⟨L, hL.queue_sender (hw e) p⟩) (fun L hL => hL.queue_receiver p)
  | nextFrame e =>
    obtain ⟨f, hf, rfl⟩ := Option.map_eq_some_iff.mp hst
    refine h.update e (h.maxPending e) (fun L hL => ⟨L, hL.nextFrame_sender (hw e) hf⟩)
      (fun L hL => hL.sendFrame_receiver ?_)
    obtain ⟨x, -, rfl⟩ := Option.map_eq_some_iff.mp hf
    rfl
  | acknowledgementFrame e =>
    obtain ⟨f, hf, rfl⟩ := Option.map_eq_some_iff.mp hst
    obtain ⟨a, ha', rfl⟩ := Option.map_eq_some_iff.mp hf
    exact h.update e (h.maxPending e) (fun L hL => ⟨L, hL.acknowledgementFrame_sender rfl⟩)
      (fun L hL => hL.sendFrame_receiver ha'.symm)
  | receive e i =>
    obtain ⟨f, hf, rfl⟩ := Option.map_eq_some_iff.mp hst
    have hrec : Recent s e f := ha f hf
    have hmem := mem_of_getElem? hf
    exact h.update e ((maxPending_receive _ _).trans (h.maxPending e))
      (fun L hL => hL.receive_sender (hw e) hmem hrec.2)
      (fun L hL => hL.receive_receiver hmem hrec.1)

theorem inv_of_reach (hn : n ≤ 2 ^ 31) (h : (pair n).ReachVia Fresh s) : Inv n s :=
  h.invariant (Inv.start n) fun _ _ _ hi ha hst => hi.step hn ha hst

/-- **Messages are delivered once and in the order they were queued, none leaves the sender's window
before it is delivered, and both windows stay bounded.** -/
theorem ordered (hn : n ≤ 2 ^ 31) (h : (pair n).ReachVia Fresh s) (e : End) :
    (s e.other).delivered <+: (s e).queued ∧
      (∀ q p, (s e).queued[q]? = some p → (s e.other).delivered.length ≤ q →
        (s e).channel.outstanding.lookup (ofNat q) = some p) ∧
      (s e).channel.outstanding.size ≤ (s e).channel.maxPending ∧
      (s e).channel.waiting.size ≤ (s e).channel.maxPending := by
  have hi := inv_of_reach hn h
  obtain ⟨L, hL⟩ := hi.carries e
  obtain ⟨L', hL'⟩ := hi.carries e.other
  rw [show e.other.other = e by cases e <;> rfl] at hL'
  refine ⟨hL.inOrder, fun q p hq hd => hL.lookup_outstanding hq (hL.acked_le.trans hd), ?_, ?_⟩
  · rw [hL.size_outstanding]
    have := hL.window
    omega
  · rw [hL'.waiting]
    exact Nat.zero_le _

/-- A message is sent twice, both copies arrive, and the first acknowledgement is lost. -/
theorem ordered_duplicated : ∃ s : Pair, (pair 2).ReachVia Fresh s ∧
    (s .right).delivered = [[7], [8]] ∧ (s .left).channel.outstanding.size = 1 ∧
    (s End.left.other).delivered <+: (s .left).queued := by
  obtain ⟨s, hs, h1, h2⟩ := (pair 2).exists_reachVia Fresh
    [.queue .left [7], .queue .left [8], .queue .left [9], .nextFrame .left, .nextFrame .left,
      .receive .right 1, .acknowledgementFrame .right, .receive .right 0,
      .acknowledgementFrame .right, .receive .left 1, .nextFrame .left, .receive .right 2]
    (fun s => (s .right).delivered = [[7], [8]] ∧ (s .left).channel.outstanding.size = 1)
    (by decide +kernel)
  exact ⟨s, hs, h1, h2, (ordered (by decide) hs .left).1⟩

end Pair

end OpenStream.Control
