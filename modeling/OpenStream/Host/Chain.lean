import OpenStream.Host.Stream
import Mathlib.Data.List.Chain

/-!
# What a guest is sent is decodable

A frame that is not a keyframe refers to the frame encoded just before it. The frames a guest's
session accepts should be runs: a keyframe, then the frames encoded after it with none left out.

* `Run`, `Chained`: the runs, and the same said of neighbours; **`exists_runs_iff`**.
* **`Stream.accepted_runs`**
-/

namespace OpenStream.Host

open List Function

/-! ## Runs of frames -/

/-- `b` can be decoded right after `a`. -/
def Next (a b : Frame) : Prop := b.keyframe = true ∨ b.position = a.position + 1

instance (a b : Frame) : Decidable (Next a b) := inferInstanceAs (Decidable (_ ∨ _))

def Run (l : List Frame) : Prop :=
  (∃ k t, l = k :: t ∧ k.keyframe = true) ∧ l.IsChain fun a b => b.position = a.position + 1

/-- The first frame is a keyframe and every other follows the one before it. -/
structure Chained (l : List Frame) : Prop where
  first : ∀ f ∈ l.head?, f.keyframe = true
  next : l.IsChain Next

theorem Chained.nil : Chained [] := ⟨by simp, .nil⟩

variable {l : List Frame}

theorem exists_cut {a : Frame} (h : (a :: l).IsChain Next) :
    ∃ (t : List Frame) (runs : List (List Frame)), a :: l = a :: t ++ runs.flatten ∧
      (a :: t).IsChain (fun a b => b.position = a.position + 1) ∧ ∀ r ∈ runs, Run r := by
  induction l generalizing a with
  | nil => exact ⟨[], [], rfl, .singleton a, by simp⟩
  | cons b l ih =>
    obtain ⟨hab, hl⟩ := isChain_cons_cons.mp h
    obtain ⟨t, runs, heq, ht, hr⟩ := ih hl
    by_cases hpos : b.position = a.position + 1
    · exact ⟨b :: t, runs, by rw [heq]; rfl, isChain_cons_cons.mpr ⟨hpos, ht⟩, hr⟩
    · have hkey : b.keyframe = true := hab.resolve_right hpos
      refine ⟨[], (b :: t) :: runs, by rw [heq]; rfl, .singleton a, ?_⟩
      intro r hmem
      rcases mem_cons.mp hmem with rfl | hmem
      · exact ⟨⟨b, t, rfl, hkey⟩, ht⟩
      · exact hr r hmem

theorem chained_flatten {runs : List (List Frame)} (h : ∀ r ∈ runs, Run r) :
    Chained runs.flatten := by
  induction runs with
  | nil => exact .nil
  | cons r runs ih =>
    obtain ⟨⟨k, t, rfl, hk⟩, hchain⟩ := h r mem_cons_self
    have ih := ih fun r hr => h r (mem_cons_of_mem _ hr)
    refine ⟨?_, isChain_append.mpr ⟨hchain.imp fun _ _ => .inr, ih.next, ?_⟩⟩
    · intro f hf
      cases hf
      exact hk
    · intro _ _ f hf
      exact .inl (ih.first f hf)

/-- **To be a concatenation of runs is a matter of neighbours.** -/
theorem exists_runs_iff :
    (∃ runs : List (List Frame), l = runs.flatten ∧ ∀ r ∈ runs, Run r) ↔ Chained l := by
  constructor
  · rintro ⟨runs, rfl, h⟩
    exact chained_flatten h
  · intro h
    cases l with
    | nil => exact ⟨[], rfl, by simp⟩
    | cons a l =>
      obtain ⟨t, runs, heq, ht, hr⟩ := exists_cut h.next
      refine ⟨(a :: t) :: runs, heq, fun r hmem => ?_⟩
      rcases mem_cons.mp hmem with rfl | hmem
      · exact ⟨⟨a, t, rfl, h.first a rfl⟩, ht⟩
      · exact hr r hmem

theorem Chained.of_append {m : List Frame} (h : Chained (l ++ m)) : Chained l := by
  refine ⟨fun f hf => h.first f ?_, (isChain_append.mp h.next).1⟩
  cases l with
  | nil => cases hf
  | cons a l => exact hf

theorem Chained.concat (h : Chained l) {f : Frame}
    (hf : f.keyframe = true ∨ ∃ g, l.getLast? = some g ∧ f.position = g.position + 1) :
    Chained (l ++ [f]) := by
  refine ⟨fun x hx => ?_, isChain_append.mpr ⟨h.next, .singleton f, ?_⟩⟩
  · cases l with
    | nil =>
      cases hx
      rcases hf with hf | ⟨g, hg, -⟩
      · exact hf
      · cases hg
    | cons a l => exact h.first x hx
  · intro x hx y hy
    cases hy
    rcases hf with hf | ⟨g, hg, hpos⟩
    · exact .inl hf
    · rw [Option.mem_def, hg] at hx
      cases hx
      exact .inr hpos

theorem Chained.lose {m : List Frame} {x : Frame} (h : Chained (l ++ x :: m))
    (hm : ∀ f ∈ m.head?, f.keyframe = true) : Chained (l ++ m) := by
  obtain ⟨hl, hxm, -⟩ := isChain_append.mp h.next
  refine ⟨fun f hf => ?_, isChain_append.mpr ⟨hl, hxm.tail, fun _ _ f hf => .inl (hm f hf)⟩⟩
  cases l with
  | nil => exact hm f hf
  | cons a l => exact h.first f hf

theorem Chained.previous {p : List Frame} {f : Frame} (h : Chained l) (hp : p ++ [f] <+: l)
    (hf : f.keyframe = false) : ∃ g, p.getLast? = some g ∧ f.position = g.position + 1 := by
  obtain ⟨t, rfl⟩ := hp
  have hpf := h.of_append
  obtain ⟨-, -, hlast⟩ := isChain_append.mp hpf.next
  cases hg : p.getLast? with
  | none =>
    rw [getLast?_eq_none_iff] at hg
    subst hg
    have := hpf.first f rfl
    rw [hf] at this
    cases this
  | some g =>
    refine ⟨g, rfl, ?_⟩
    rcases hlast g hg f rfl with hk | hpos
    · rw [hf] at hk
      cases hk
    · exact hpos

/-! ## The way of a frame to a guest -/

variable {n : ℕ} {F : Type} [F64 F]

namespace Stream

variable {s s' : Stream n F} {i : Fin n}

def pipeline (s : Stream n F) (i : Fin n) : List Frame :=
  (s.senders i).accepted ++ ((s.senders i).claimed.toList ++ (s.seats i).ring)

/-- The pipeline is decodable, and ends at the newest frame unless a loss is latched or reported. -/
structure Sound (s : Stream n F) (i : Fin n) : Prop where
  chained : Chained (s.pipeline i)
  current : (s.guests i).pendingKeyframe = false → (s.seats i).missed = 0 →
    ∃ g, (s.pipeline i).getLast? = some g ∧ g.position + 1 = s.encoded

/-- A refusal finds nothing dependent queued behind it and does not wrap the count of losses; no
dependent frame is published while a guest that is not latched has a loss to report. -/
def Heard (s : Stream n F) : Act n F → Prop
  | .sendFrame i outcome => outcome = .accepted ∨
    ((∀ f ∈ (s.seats i).ring.head?, f.keyframe = true) ∧ (s.seats i).missed + 1 ≠ 0)
  | .collect _ keyframe starved _ => keyframe = true ∨ starved = true ∨
    ∀ i, (s.seats i).missed ≠ 0 → (s.guests i).pendingKeyframe = true
  | _ => True

instance (s : Stream n F) (a : Act n F) : Decidable (Heard s a) :=
  match a with
  | .sendFrame _ _ => inferInstanceAs (Decidable (_ ∨ _))
  | .collect _ _ _ _ => inferInstanceAs (Decidable (_ ∨ _))
  | .tickRate | .setRate _ | .nextFrame _ | .window _ _ => isTrue trivial

omit [F64 F] in
theorem Sound.of_same (h : Sound s i) (hp : s'.pipeline i = s.pipeline i)
    (he : s'.encoded = s.encoded)
    (hg : (s'.guests i).pendingKeyframe = false → (s.guests i).pendingKeyframe = false ∧
      ((s'.seats i).missed = 0 → (s.seats i).missed = 0)) : Sound s' i := by
  refine ⟨by rw [hp]; exact h.chained, fun hl hm => ?_⟩
  obtain ⟨hl', hm'⟩ := hg hl
  rw [hp, he]
  exact h.current hl' (hm' hm)

omit [F64 F] in
theorem Sound.of_latched (h : Sound s i) (hp : s'.pipeline i = s.pipeline i)
    (hg : (s'.guests i).pendingKeyframe = true) : Sound s' i := by
  refine ⟨by rw [hp]; exact h.chained, fun hl => ?_⟩
  rw [hg] at hl
  cases hl

omit [F64 F] in
theorem deliver_cases (s : Stream n F) (picked : Fin n → Bool) (frame : Frame) (i : Fin n) :
    (picked i = false ∧ (s.deliver picked frame).guests i = s.guests i ∧
      (s.deliver picked frame).seats i = s.seats i) ∨
    (((s.deliver picked frame).guests i).pendingKeyframe = true ∧
      (s.deliver picked frame).seats i = s.seats i) ∨
    (picked i = true ∧ (s.deliver picked frame).seats i =
      { s.seats i with ring := (s.seats i).ring ++ [frame] }) := by
  unfold deliver
  cases hp : picked i with
  | false => exact .inl (by simp [hp])
  | true =>
    right
    by_cases hfull : PUBLISH_DEPTH ≤ (s.seats i).ring.length
    · exact .inl (by simp [hp, Seat.push, hfull, Guest.markSkipping])
    · exact .inr (by simp [hp, Seat.push, hfull])

/-- **What a finished frame does to a guest**: it is latched, or the frame is in its ring, which
takes a keyframe or a guest that was not latched. -/
theorem collect_cases (s : Stream n F) (len : ℕ) (keyframe starved : Bool) (nowMs : F) (i : Fin n) :
    (((s.collect len keyframe starved nowMs).guests i).pendingKeyframe = true ∧
      (s.collect len keyframe starved nowMs).seats i = s.seats i) ∨
    ((s.collect len keyframe starved nowMs).seats i =
        { s.seats i with ring := (s.seats i).ring ++ [⟨s.encoded, keyframe⟩] } ∧
      starved = false ∧ ((s.guests i).pendingKeyframe = true → keyframe = true)) := by
  unfold collect
  by_cases h1 : starved = true
  · rw [if_pos h1]
    exact .inl ⟨rfl, rfl⟩
  rw [if_neg h1]
  by_cases h2 : maxFrameBytes < len
  · rw [if_pos h2]
    exact .inl ⟨rfl, rfl⟩
  rw [if_neg h2]
  obtain ⟨hlatch, hkey⟩ := (s.guests i).admitFrame_latched (fragmentsFor len)
    (s.gate.counted (fragmentsFor len) nowMs).mark keyframe
  simp only [Gate.admitFrame]
  rcases deliver_cases _ _ ⟨s.encoded, keyframe⟩ i with ⟨hp, hg, hs⟩ | ⟨hg, hs⟩ | ⟨hp, hs⟩
  · refine .inl ⟨?_, hs⟩
    rw [hg]
    exact hlatch.trans (congrArg (!·) hp)
  · exact .inl ⟨hg, hs⟩
  · exact .inr ⟨hs, by simpa using h1, hkey hp⟩

theorem collect_rest (s : Stream n F) (len : ℕ) (keyframe starved : Bool) (nowMs : F) :
    (s.collect len keyframe starved nowMs).senders = s.senders ∧
      (s.collect len keyframe starved nowMs).encoded = s.encoded + 1 := by
  unfold collect
  split_ifs
  · exact ⟨rfl, rfl⟩
  · exact ⟨rfl, rfl⟩
  · exact ⟨rfl, rfl⟩

theorem Sound.collect (h : Sound s i) {len : ℕ} {keyframe starved : Bool} {nowMs : F}
    (ha : Heard s (.collect len keyframe starved nowMs)) :
    Sound (s.collect len keyframe starved nowMs) i := by
  obtain ⟨hsend, henc⟩ := s.collect_rest len keyframe starved nowMs
  rcases s.collect_cases len keyframe starved nowMs i with ⟨hl, hseat⟩ | ⟨hseat, hst, hkey⟩
  · exact h.of_latched (by rw [pipeline, pipeline, hsend, hseat]) hl
  · have hp : (s.collect len keyframe starved nowMs).pipeline i =
        s.pipeline i ++ [⟨s.encoded, keyframe⟩] := by
      rw [pipeline, pipeline, hsend, hseat, append_assoc, append_assoc]
    refine ⟨?_, fun _ _ => ⟨⟨s.encoded, keyframe⟩, ?_, henc.symm⟩⟩
    · rw [hp]
      refine h.chained.concat ?_
      cases hk : keyframe with
      | true => exact .inl rfl
      | false =>
        -- a dependent frame: the guest was not latched and has no loss to report
        subst hk hst
        have hnl : (s.guests i).pendingKeyframe = false := by
          rw [← Bool.not_eq_true]
          exact fun hl => absurd (hkey hl) (by decide)
        have hm : (s.seats i).missed = 0 := by
          rcases ha with ha | ha | ha
          · cases ha
          · cases ha
          · by_contra hne
            rw [ha i hne] at hnl
            cases hnl
        obtain ⟨g, hg, hpos⟩ := h.current hnl hm
        exact .inr ⟨g, hg, hpos.symm⟩
    · rw [hp, getLast?_concat]

omit [F64 F] in
theorem Sound.tickRate (h : Sound s i) : Sound s.tickRate i := by
  by_cases hm : (s.seats i).missed = 0
  · refine h.of_same rfl rfl fun hl => ⟨?_, fun _ => hm⟩
    simpa [Stream.tickRate, hm, Guest.setOutstanding] using hl
  · refine h.of_latched rfl ?_
    simp [Stream.tickRate, hm, Guest.markSkipping]

omit [F64 F] in
theorem Sound.nextFrame (h : Sound s i) {j : Fin n} (hst : s.nextFrame j = some s') :
    Sound s' i := by
  unfold Stream.nextFrame at hst
  split at hst
  · rename_i frame ring hc hr
    cases hst
    by_cases hij : i = j
    · subst hij
      refine h.of_same ?_ rfl fun hl => ⟨hl, fun hm => ?_⟩
      · simp [pipeline, update_self, hc, hr]
      · simpa using hm
    · refine h.of_same ?_ rfl fun hl => ⟨hl, fun hm => ?_⟩
      · simp [pipeline, update_of_ne hij]
      · simpa [update_of_ne hij] using hm
  · cases hst

omit [F64 F] in
theorem Sound.missedFrame (h : Sound s i) {j : Fin n} {frame : Frame}
    (hc : (s.senders j).claimed = some frame)
    (ha : (∀ f ∈ (s.seats j).ring.head?, f.keyframe = true) ∧ (s.seats j).missed + 1 ≠ 0) :
    Sound (Stream.missedFrame { s with
      senders := update s.senders j { s.senders j with claimed := none } } j) i := by
  by_cases hij : i = j
  · subst hij
    refine ⟨?_, fun _ hm => ?_⟩
    · have hch := h.chained
      rw [pipeline, hc] at hch
      simp only [pipeline, Stream.missedFrame, update_self, Option.toList_none,
        nil_append]
      exact hch.lose ha.1
    · simp only [Stream.missedFrame, update_self] at hm
      exact absurd hm ha.2
  · refine h.of_same ?_ rfl fun hl => ⟨hl, fun hm => ?_⟩
    · simp [pipeline, Stream.missedFrame, update_of_ne hij]
    · simpa [Stream.missedFrame, update_of_ne hij] using hm

omit [F64 F] in
theorem Sound.sendFrame (h : Sound s i) {j : Fin n} {outcome : Outcome}
    (ha : Heard s (.sendFrame j outcome)) (hst : s.sendFrame j outcome = some s') : Sound s' i := by
  obtain ⟨frame, hc, rfl⟩ := Option.map_eq_some_iff.mp hst
  cases outcome with
  | noHeader | refused => exact h.missedFrame hc (ha.resolve_left (by decide))
  | accepted =>
    refine h.of_same ?_ rfl fun hl => ⟨hl, id⟩
    by_cases hij : i = j
    · subst hij
      simp [pipeline, update_self, hc]
    · simp [pipeline, update_of_ne hij]

theorem Sound.step (h : Sound s i) {a : Act n F} (ha : Heard s a) (hst : s.step a = some s') :
    Sound s' i := by
  cases a with
  | collect len keyframe starved nowMs =>
    cases hst
    exact h.collect ha
  | tickRate =>
    cases hst
    exact h.tickRate
  | setRate rateMbps =>
    cases hst
    exact h.of_same rfl rfl fun hl => ⟨hl, id⟩
  | nextFrame j => exact h.nextFrame hst
  | sendFrame j outcome => exact h.sendFrame ha hst
  | window j fragments =>
    cases hst
    by_cases hij : i = j
    · subst hij
      exact h.of_same (by simp [pipeline]) rfl fun hl => ⟨hl, by simp⟩
    · exact h.of_same (by simp [pipeline, update_of_ne hij]) rfl
        fun hl => ⟨hl, by simp [update_of_ne hij]⟩

theorem sound_start (rateMbps : F) (i : Fin n) : Sound (stream n rateMbps).start i := by
  refine ⟨.nil, fun hl => ?_⟩
  cases hl

theorem sound_of_reach {rateMbps : F} (h : (stream n rateMbps).ReachVia Heard s) (i : Fin n) :
    Sound s i :=
  h.invariant (I := fun s => Sound s i) (sound_start rateMbps i)
    fun _ _ _ hi ha hst => hi.step ha hst

/-- **The frames a guest's session accepts are runs: each starts with a keyframe, and every other
frame of it was encoded right after the one before.** -/
theorem accepted_runs {rateMbps : F} (h : (stream n rateMbps).ReachVia Heard s) (i : Fin n) :
    (∃ runs : List (List Frame), (s.senders i).accepted = runs.flatten ∧ ∀ r ∈ runs, Run r) ∧
      ∀ p f, p ++ [f] <+: (s.senders i).accepted → f.keyframe = false →
        ∃ g, p.getLast? = some g ∧ f.position = g.position + 1 := by
  have hch := (sound_of_reach h i).chained.of_append
  exact ⟨exists_runs_iff.mpr hch, fun p f hp hf => hch.previous hp hf⟩

/-- A refusal with nothing queued behind it, heard of before the next frame: a keyframe follows. -/
theorem accepted_runs_refused : ∃ s : Stream 1 ℚ, (stream 1 (30 : ℚ)).ReachVia Heard s ∧
    (s.senders 0).accepted = [⟨0, true⟩, ⟨1, false⟩, ⟨4, true⟩] ∧
    ∃ runs : List (List Frame), (s.senders 0).accepted = runs.flatten ∧ ∀ r ∈ runs, Run r := by
  obtain ⟨s, hs, ha⟩ := (stream 1 (30 : ℚ)).exists_reachVia Heard
    [.collect 100 true false 0, .nextFrame 0, .sendFrame 0 .accepted, .collect 100 false false 16,
      .nextFrame 0, .sendFrame 0 .accepted, .collect 100 false false 32, .nextFrame 0,
      .sendFrame 0 .refused, .tickRate, .collect 100 false false 48, .collect 100 true false 64,
      .nextFrame 0, .sendFrame 0 .accepted]
    (fun s => (s.senders 0).accepted = [⟨0, true⟩, ⟨1, false⟩, ⟨4, true⟩]) (by decide +kernel)
  exact ⟨s, hs, ha, (accepted_runs hs 0).1⟩

/-- **A refused frame is skipped over**: the frame queued behind it depends on it and is accepted. -/
theorem refusal_breaks_chain : ∃ s : Stream 1 ℚ, (stream 1 (30 : ℚ)).Reach s ∧
    (s.senders 0).accepted = [⟨0, true⟩, ⟨2, false⟩] ∧
    ¬ ∃ runs : List (List Frame), (s.senders 0).accepted = runs.flatten ∧ ∀ r ∈ runs, Run r := by
  obtain ⟨s, hs, ha⟩ := (stream 1 (30 : ℚ)).exists_reachVia (fun _ _ => True)
    [.collect 100 true false 0, .nextFrame 0, .sendFrame 0 .accepted, .collect 100 false false 16,
      .collect 100 false false 32, .nextFrame 0, .sendFrame 0 .refused, .nextFrame 0,
      .sendFrame 0 .accepted]
    (fun s => (s.senders 0).accepted = [⟨0, true⟩, ⟨2, false⟩]) (by decide +kernel)
  refine ⟨s, hs, ha, fun h => ?_⟩
  rw [ha, exists_runs_iff] at h
  exact absurd (isChain_cons_cons.mp h.next).1 (by decide)

end Stream

end OpenStream.Host
