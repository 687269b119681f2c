import OpenStream.Lowlat.PathMtu
import OpenStream.Lib.Runs

/-!
# The search for a path's size

Beside a run of the controller stand the sizes of the probes that it has counted as lost in the
present round. A round begins at a reset, at a black hole and when the maintenance timer wakes a
completed search.

* **`Search.search_sound`**
-/

namespace OpenStream.Lowlat

open Runs List PathMtu

theorem le_of_find? {l : List ℕ} (hl : l.Pairwise (· ≤ ·)) {p : ℕ → Bool} {a b : ℕ}
    (ha : l.find? p = some a) (hb : b ∈ l) (hpb : p b = true) : a ≤ b := by
  obtain ⟨-, before, after, rfl, hbefore⟩ := find?_eq_some_iff_append.mp ha
  rw [mem_append, mem_cons] at hb
  obtain hb | rfl | hb := hb
  · have := hbefore b hb
    simp [hpb] at this
  · exact Nat.le_refl b
  · exact rel_of_pairwise_cons (pairwise_append.mp hl).2.1 hb

namespace PathMtu

variable {F : Type}

/-! ## The ladder -/

theorem ladder_ordered : LADDER.Pairwise (· ≤ ·) := by decide

theorem probes_pos : 0 < MAX_PROBES := by decide

theorem candidate_bounds {m : PathMtu F} {size : ℕ} (h : m.candidate = some size) :
    m.current < size ∧ size ≤ m.clamp ∧ size ≤ CEILING := by
  unfold candidate at h
  split at h
  · next found hfind =>
    cases h
    simpa [and_assoc] using find?_some hfind
  · split_ifs at h with hclamp
    cases h
    exact ⟨hclamp.1, Nat.le_refl _, hclamp.2⟩

structure Climbs (m : PathMtu F) : Prop where
  ceiling : m.clamp ≤ CEILING
  floor : FLOOR ≤ m.current
  clamp : m.state ≠ .error → m.current ≤ m.clamp
  ids : 0 < m.nextProbeId ∧ m.nextProbeId ≤ 2 ^ 32 - 1
  /-- The rungs already left behind are confirmed or not for this path. -/
  rungs : ∀ size ∈ LADDER.take m.rung, size ≤ m.current ∨ m.clamp < size
  tried : m.probe = none → m.probeAttempts < MAX_PROBES
  flight : ∀ f, m.probe = some f → m.state = .searching ∧ m.candidate = some f.probe.size ∧
    0 < f.probe.id ∧ f.probe.id < 2 ^ 32 - 1 ∧ f.probe.attempt = m.probeAttempts ∧
    0 < f.probe.attempt ∧ f.probe.attempt ≤ MAX_PROBES

namespace Climbs

variable {m : PathMtu F}

/-- **No rung is skipped.** The candidate is at most every rung that the path allows. -/
theorem candidate_le (h : Climbs m) {size rung : ℕ} (hc : m.candidate = some size)
    (hmem : rung ∈ LADDER) (habove : m.current < rung) (hallowed : rung ≤ m.clamp) :
    size ≤ rung := by
  have hahead : rung ∈ LADDER.drop m.rung := by
    rw [← take_append_drop m.rung LADDER, mem_append] at hmem
    obtain hbehind | hahead := hmem
    · have := h.rungs rung hbehind
      omega
    · exact hahead
  have hpass : (decide (m.current < rung) && decide (rung ≤ m.clamp) &&
      decide (rung ≤ CEILING)) = true := by
    simp [habove, hallowed, hallowed.trans h.ceiling]
  unfold candidate at hc
  split at hc
  · next found hfind =>
    cases hc
    exact le_of_find? (ladder_ordered.sublist (drop_sublist _ _)) hfind hahead hpass
  · next hnone =>
    have := find?_eq_none.mp hnone rung hahead
    exact absurd hpass this

theorem rungs_succ (h : Climbs m) {size : ℕ} (hc : m.candidate = some size) :
    ∀ rung ∈ LADDER.take (min (m.rung + 1) LADDER.length), rung ≤ size ∨ m.clamp < rung := by
  have hbounds := candidate_bounds hc
  intro rung hmem
  have hmem := (take_subset_take_left LADDER (Nat.min_le_left _ _)) hmem
  rw [take_add_one, mem_append, Option.mem_toList] at hmem
  obtain hbehind | hat := hmem
  · have := h.rungs rung hbehind
    omega
  · by_contra hskipped
    rw [not_or, Nat.not_le, Nat.not_lt] at hskipped
    -- it would have been found first
    have hdrop : LADDER.drop m.rung = rung :: LADDER.drop (m.rung + 1) :=
      (drop_eq_getElem?_toList_append).trans (by rw [hat]; rfl)
    have hfind : m.candidate = some rung := by
      unfold candidate
      rw [hdrop, find?_cons_of_pos]
      simp only [Bool.and_eq_true, decide_eq_true_eq]
      exact ⟨⟨by omega, hskipped.2⟩, hskipped.2.trans h.ceiling⟩
    cases hfind.symm.trans hc
    omega

end Climbs

/-! ## Starting a probe -/

variable [Double F]

def wakes (m : PathMtu F) (nowMs : F) : Bool :=
  F64.isFinite nowMs && m.state = .searchComplete && m.probe.isNone && !F64.lt nowMs m.nextActionMs

inductive Starts (nowMs : F) (m : PathMtu F) : PathMtu F × Option Probe → Prop
  | idle (hwakes : m.wakes nowMs = false) : Starts nowMs m (m, none)
  | completed (hwakes : m.state = .searchComplete → m.wakes nowMs = true)
      (hstate : m.state ≠ .error) (hprobe : m.probe = none)
      (hdone : m.candidate = none ∨ MAX_PROBES ≤ m.probeAttempts) :
      Starts nowMs m (m.complete nowMs, none)
  | probe (hfinite : F64.isFinite nowMs = true)
      (hwakes : m.state = .searchComplete → m.wakes nowMs = true)
      (hstate : m.state ≠ .error) (hprobe : m.probe = none) {size attempt : ℕ}
      (hsize : m.candidate = some size)
      (hattempt : attempt = (if m.state = .searchComplete then 0 else m.probeAttempts) + 1)
      (hmax : attempt ≤ MAX_PROBES) :
      Starts nowMs m
        ({ m.allocateProbeId.1 with
            state := .searching
            probeAttempts := attempt
            probe := some ⟨⟨m.allocateProbeId.2, size, attempt⟩, nowMs⟩
            nextActionMs := nowMs + PROBE_TIMEOUT_MS },
          some ⟨m.allocateProbeId.2, size, attempt⟩)

theorem starts (m : PathMtu F) (nowMs : F) : Starts nowMs m (m.startProbe nowMs) := by
  have hcap : MAX_PROBES = 3 := rfl
  unfold startProbe
  split
  · next hidle =>
    refine .idle ?_
    simp only [Bool.or_eq_true, Bool.not_eq_true', decide_eq_true_eq, Option.isSome_iff_ne_none]
      at hidle
    obtain (hfinite | herror) | hprobe := hidle
    · simp [wakes, hfinite]
    · simp [wakes, herror]
    · simp [wakes, hprobe]
  next hidle =>
  simp only [Bool.or_eq_true, Bool.not_eq_true', decide_eq_true_eq, not_or, Bool.not_eq_false,
    Bool.not_eq_true, Option.isSome_eq_false_iff, Option.isNone_iff_eq_none] at hidle
  obtain ⟨⟨hfinite, hstate⟩, hprobe⟩ := hidle
  split_ifs with hcomplete hdue
  · exact .idle (by simp [wakes, hdue])
  · have hwakes : m.wakes nowMs = true := by simp [wakes, hfinite, hcomplete, hprobe, hdue]
    unfold reserve
    rw [if_neg hdue]
    split
    · next hnone => exact .completed (fun _ => hwakes) hstate hprobe (.inl hnone)
    · next size hsize =>
      exact .probe hfinite (fun _ => hwakes) hstate hprobe hsize (by simp [hcomplete]) probes_pos
  · have hwakes : m.state = .searchComplete → m.wakes nowMs = true := fun h => absurd h hcomplete
    unfold reserve
    split_ifs with hwait
    · exact .idle (by simp [wakes, hcomplete])
    split
    · next hnone => exact .completed hwakes hstate hprobe (.inl hnone)
    next size hsize =>
      simp only
      split_ifs with hspent
      · exact .completed hwakes hstate hprobe (.inr (by omega))
      · have hattempt : min (m.probeAttempts + 1) 255 = m.probeAttempts + 1 := by omega
        rw [hattempt] at hspent ⊢
        exact .probe hfinite hwakes hstate hprobe hsize (by simp [hcomplete])
          (Nat.le_of_not_lt hspent)

theorem timesOut {m : PathMtu F} {f : InFlight F} (hf : m.probe = some f) (nowMs : F) :
    m.onProbeTimeout nowMs = (m, false) ∨
    m.onProbeTimeout nowMs = ({ m with probe := none }.complete nowMs, true) ∨
    m.probeAttempts < MAX_PROBES ∧ m.onProbeTimeout nowMs =
      ({ m with probe := none, state := .searching, nextActionMs := nowMs }, true) := by
  simp only [onProbeTimeout, hf]
  split_ifs with hearly hspent
  · exact .inl rfl
  · exact .inr (.inl rfl)
  · exact .inr (.inr ⟨Nat.lt_of_not_le hspent, rfl⟩)

namespace Climbs

variable {m : PathMtu F}

theorem newWithConfig (config : PathConfig) (nowMs : F) : Climbs (newWithConfig config nowMs) where
  ceiling := Nat.min_le_right _ _
  floor := Nat.le_refl FLOOR
  clamp hstate := by
    simp only [PathMtu.newWithConfig] at hstate ⊢
    split_ifs at hstate with hlow
    · exact absurd rfl hstate
    · exact Nat.le_of_not_lt hlow
  ids := ⟨Nat.one_pos, (by decide : 1 ≤ 2 ^ 32 - 1)⟩
  rungs := by simp [PathMtu.newWithConfig]
  tried _ := probes_pos
  flight f hf := by cases hf

section

variable (h : Climbs m)

include h

theorem complete (hstate : m.state ≠ .error) (nowMs : F) : Climbs (m.complete nowMs) :=
  ⟨h.ceiling, h.floor, fun _ => h.clamp hstate, h.ids, h.rungs, fun _ => probes_pos,
    nofun⟩

theorem startProbe (nowMs : F) : Climbs (m.startProbe nowMs).1 := by
  have hstarts := m.starts nowMs
  generalize m.startProbe nowMs = result at hstarts ⊢
  cases hstarts with
  | idle => exact h
  | completed _ hstate => exact h.complete hstate nowMs
  | probe _ _ hstate _ hsize hattempt hmax =>
    have hids := h.ids
    refine ⟨h.ceiling, h.floor, fun _ => h.clamp hstate, ?_, h.rungs, fun hp => ?_, fun f hf => ?_⟩
    · simp only [allocateProbeId]
      split <;> omega
    · cases hp
    cases hf
    refine ⟨rfl, hsize, ?_, ?_, rfl, by rw [hattempt]; exact Nat.succ_pos _, hmax⟩
    · simp only [allocateProbeId]
      split <;> omega
    · simp only [allocateProbeId]
      split <;> omega

theorem confirmed {size : ℕ} (hc : m.candidate = some size)
    (hstate : m.state ≠ .error) (nowMs : F) : Climbs (m.confirmed size nowMs) := by
  have hbounds := candidate_bounds hc
  have hfloor := h.floor
  have hnext : Climbs { m with
      probe := none, current := size, rung := min (m.rung + 1) LADDER.length, probeAttempts := 0 } :=
    ⟨h.ceiling, by dsimp only; omega, fun _ => hbounds.2.1, h.ids, h.rungs_succ hc,
      fun _ => probes_pos, nofun⟩
  unfold PathMtu.confirmed
  simp only
  split
  · exact { hnext with clamp := fun _ => hbounds.2.1, flight := nofun }
  · exact hnext.complete hstate nowMs

theorem onProbeAck (id size : ℕ) (nowMs : F) : Climbs (m.onProbeAck id size nowMs).1 := by
  obtain heq | ⟨f, hf, -, hsize, -, -, -, heq⟩ := m.onProbeAck_cases id size nowMs
  · rw [heq]
    exact h
  · rw [heq]
    obtain ⟨hstate, hc, -⟩ := h.flight f hf
    rw [hsize] at hc
    exact h.confirmed hc (by rw [hstate]; decide) nowMs

theorem onProbeTimeout (nowMs : F) : Climbs (m.onProbeTimeout nowMs).1 := by
  cases hf : m.probe with
  | none =>
    rw [PathMtu.onProbeTimeout, hf]
    exact h
  | some f =>
    have herror : m.state ≠ .error := by
      rw [(h.flight f hf).1]
      decide
    obtain heq | heq | ⟨hleft, heq⟩ := timesOut hf nowMs
    · rw [heq]
      exact h
    · rw [heq]
      exact ⟨h.ceiling, h.floor, fun _ => h.clamp herror, h.ids, h.rungs, fun _ => probes_pos,
        nofun⟩
    · rw [heq]
      exact ⟨h.ceiling, h.floor, fun _ => h.clamp herror, h.ids, h.rungs, fun _ => hleft,
        nofun⟩

theorem onProbeSendFailed : Climbs m.onProbeSendFailed.1 := by
  unfold PathMtu.onProbeSendFailed
  split
  · exact h
  next f hf =>
    obtain ⟨-, -, -, -, hattempt, hpos, hmax⟩ := h.flight f hf
    refine { h with tried := fun _ => ?_, flight := nofun }
    dsimp only
    omega

theorem onTimer (nowMs : F) : Climbs (m.onTimer nowMs).1 := by
  unfold PathMtu.onTimer
  split
  · exact (h.onProbeTimeout nowMs).startProbe nowMs
  · exact h.startProbe nowMs

theorem onBlackHole (nowMs : F) : Climbs (m.onBlackHole nowMs).1 := by
  unfold PathMtu.onBlackHole
  split
  · exact h
  next herror =>
    have hfloor := h.floor
    have hclamp := h.clamp herror
    dsimp only
    split
    · exact ⟨h.ceiling, hfloor, absurd rfl, h.ids, h.rungs,
        fun _ => probes_pos, nofun⟩
    · exact ⟨h.ceiling, Nat.le_refl FLOOR, fun _ => hfloor.trans hclamp, h.ids, by simp,
        fun _ => probes_pos, nofun⟩

end

end Climbs

end PathMtu

/-! ## Rounds -/

/-- The controller with the sizes of the probes lost in this round, the newest first. -/
structure Search (F : Type) where
  mtu : PathMtu F
  lost : List ℕ

namespace Search

variable {F : Type} [Double F]

inductive Action (F : Type)
  | startProbe (nowMs : F)
  | onTimer (nowMs : F)
  | onProbeAck (id size : ℕ) (nowMs : F)
  | onProbeTimeout (nowMs : F)
  | onProbeSendFailed
  | onBlackHole (nowMs : F)
  | reset (path : Path)
  | resetWithConfig (config : PathConfig) (nowMs : F)

def startProbe (t : Search F) (nowMs : F) : Search F :=
  ⟨(t.mtu.startProbe nowMs).1, if t.mtu.wakes nowMs then [] else t.lost⟩

def onProbeTimeout (t : Search F) (nowMs : F) : Search F :=
  ⟨(t.mtu.onProbeTimeout nowMs).1,
    if (t.mtu.onProbeTimeout nowMs).2 then
      (t.mtu.probe.map (·.probe.size)).toList ++ t.lost
    else t.lost⟩

def step (t : Search F) : Action F → Search F
  | .startProbe nowMs => t.startProbe nowMs
  | .onTimer nowMs =>
    (if t.mtu.probe.isSome then t.onProbeTimeout nowMs else t).startProbe nowMs
  | .onProbeAck id size nowMs => { t with mtu := (t.mtu.onProbeAck id size nowMs).1 }
  | .onProbeTimeout nowMs => t.onProbeTimeout nowMs
  | .onProbeSendFailed => { t with mtu := t.mtu.onProbeSendFailed.1 }
  | .onBlackHole nowMs =>
    ⟨(t.mtu.onBlackHole nowMs).1, if (t.mtu.onBlackHole nowMs).2 then [] else t.lost⟩
  | .reset path => ⟨.new path, []⟩
  | .resetWithConfig config nowMs => ⟨.newWithConfig config nowMs, []⟩

theorem mtu_onTimer (t : Search F) (nowMs : F) :
    (t.step (.onTimer nowMs)).mtu = (t.mtu.onTimer nowMs).1 := by
  simp only [step, startProbe, onTimer]
  split <;> rfl

def machine (config : PathConfig) (nowMs : F) : Machine (Search F) (Action F) where
  start := ⟨.newWithConfig config nowMs, []⟩
  step t a := some (t.step a)

/-- The losses of the round, against the attempts that the controller counts. -/
structure Counted (t : Search F) : Prop where
  count : ∀ size, t.lost.count size ≤ MAX_PROBES
  /-- Whatever was lost is confirmed since, or is being tried. -/
  past : ∀ size ∈ t.lost, size ≤ t.mtu.current ∨ t.mtu.candidate = some size
  tries : t.mtu.state ≠ .searchComplete → ∀ size, t.mtu.candidate = some size →
    t.lost.count size + (if t.mtu.probe.isSome then 1 else 0) = t.mtu.probeAttempts

namespace Counted

variable {t : Search F}

omit [Double F] in
theorem fresh {mtu : PathMtu F} (hprobe : mtu.probe = none) (hattempts : mtu.probeAttempts = 0) :
    Counted ⟨mtu, []⟩ :=
  ⟨by simp, by simp, by simp [hprobe, hattempts]⟩

section

variable (h : Counted t)
include h

theorem complete (nowMs : F) : Counted { t with mtu := t.mtu.complete nowMs } :=
  ⟨h.count, h.past, absurd rfl⟩

theorem startProbe (nowMs : F) : Counted (t.startProbe nowMs) := by
  unfold Search.startProbe
  have hstarts := t.mtu.starts nowMs
  generalize t.mtu.startProbe nowMs = result at hstarts ⊢
  cases hstarts with
  | idle hwakes =>
    rw [hwakes]
    exact h
  | completed hwakes =>
    by_cases hstate : t.mtu.state = .searchComplete
    · rw [hwakes hstate]
      exact fresh rfl rfl
    · have : t.mtu.wakes nowMs = false := by simp [wakes, hstate]
      rw [this]
      exact h.complete nowMs
  | probe _ hwakes _ hprobe hsize hattempt =>
    by_cases hstate : t.mtu.state = .searchComplete
    · rw [hwakes hstate]
      rw [if_pos hstate] at hattempt
      exact ⟨by simp, by simp, fun _ size _ => by simp [hattempt]⟩
    · have hwakes : t.mtu.wakes nowMs = false := by simp [wakes, hstate]
      rw [hwakes]
      rw [if_neg hstate] at hattempt
      refine ⟨h.count, h.past, fun _ size hc => ?_⟩
      have htries := h.tries hstate size hc
      rw [hprobe] at htries
      simp only [Option.isSome_none, Bool.false_eq_true, if_false, Option.isSome_some, if_true]
        at htries ⊢
      omega

theorem onProbeTimeout (hclimbs : t.mtu.Climbs) (nowMs : F) : Counted (t.onProbeTimeout nowMs) := by
  unfold Search.onProbeTimeout
  cases hf : t.mtu.probe with
  | none =>
    rw [PathMtu.onProbeTimeout, hf]
    exact h
  | some f =>
    obtain ⟨hstate, hc, -, -, hattempt, -, hmax⟩ := hclimbs.flight f hf
    have htries := h.tries (by rw [hstate]; decide) f.probe.size hc
    simp only [hf, Option.isSome_some, if_true] at htries
    have hself : (f.probe.size :: t.lost).count f.probe.size = t.mtu.probeAttempts := by
      rw [count_cons_self, htries]
    have hcount : ∀ size, (f.probe.size :: t.lost).count size ≤ MAX_PROBES := by
      intro size
      by_cases hsize : f.probe.size = size
      · rw [← hsize, hself, ← hattempt]
        exact hmax
      · rw [count_cons_of_ne hsize]
        exact h.count size
    have hpast : ∀ size ∈ f.probe.size :: t.lost,
        size ≤ t.mtu.current ∨ t.mtu.candidate = some size := by
      intro size hmem
      obtain rfl | hmem := mem_cons.mp hmem
      · exact .inr hc
      · exact h.past size hmem
    obtain heq | heq | ⟨-, heq⟩ := PathMtu.timesOut hf nowMs
    · rw [heq]
      exact h
    · rw [heq]
      exact ⟨hcount, hpast, absurd rfl⟩
    · rw [heq]
      refine ⟨hcount, hpast, fun _ size hsize => ?_⟩
      cases hsize.symm.trans hc
      exact hself

theorem onProbeAck (hclimbs : t.mtu.Climbs) (id size : ℕ) (nowMs : F) :
    Counted { t with mtu := (t.mtu.onProbeAck id size nowMs).1 } := by
  obtain heq | ⟨f, hf, -, hsize, -, -, -, heq⟩ := t.mtu.onProbeAck_cases id size nowMs
  · rw [heq]
    exact h
  rw [heq]
  obtain ⟨-, hc, -⟩ := hclimbs.flight f hf
  rw [hsize] at hc
  have hbounds := candidate_bounds hc
  have hbelow : ∀ lost ∈ t.lost, lost ≤ size := by
    intro lost hlost
    obtain hle | hcand := h.past lost hlost
    · omega
    · cases hcand.symm.trans hc
      exact Nat.le_refl _
  refine ⟨h.count, fun lost hlost => .inl ?_, fun _ next hnext => ?_⟩
  · rw [confirmed_current]
    exact hbelow lost hlost
  · -- the next size lies above everything tried so far
    have hnext := (candidate_bounds hnext).1
    rw [confirmed_current] at hnext
    have hcount : t.lost.count next = 0 := by
      rw [count_eq_zero]
      intro hmem
      have := hbelow next hmem
      omega
    rw [hcount, confirmed_probe]
    simp [confirmed]
    split <;> rfl

theorem onProbeSendFailed : Counted { t with mtu := t.mtu.onProbeSendFailed.1 } := by
  unfold PathMtu.onProbeSendFailed
  cases hf : t.mtu.probe with
  | none => exact h
  | some f =>
    refine ⟨h.count, h.past, fun hstate size hsize => ?_⟩
    have htries := h.tries hstate size hsize
    simp only [hf, Option.isSome_some, if_true] at htries
    simp only [Option.isSome_none, Bool.false_eq_true, if_false]
    omega

theorem onBlackHole (nowMs : F) : Counted (t.step (.onBlackHole nowMs)) := by
  simp only [step, PathMtu.onBlackHole]
  by_cases herror : t.mtu.state = .error
  · simp only [herror, if_true]
    exact h
  · simp only [herror, if_false]
    split
    · exact fresh rfl rfl
    · exact fresh rfl rfl

end

end Counted

/-! ## Runs -/

variable {t : Search F}

theorem current_step (t : Search F) (a : Action F) :
    (t.step a).mtu.current = t.mtu.current ∨
    (∃ id nowMs f, a = .onProbeAck id (t.step a).mtu.current nowMs ∧ t.mtu.probe = some f ∧
      f.probe.id = id ∧ f.probe.size = (t.step a).mtu.current) ∨
    (t.step a).mtu.current = FLOOR ∧ ((∃ nowMs, a = .onBlackHole nowMs) ∨
      (∃ path, a = .reset path) ∨ ∃ config nowMs, a = .resetWithConfig config nowMs) := by
  have hstart (m : PathMtu F) (nowMs : F) : (m.startProbe nowMs).1.current = m.current :=
    (m.startProbe_cases nowMs).current_eq
  have htimeout (m : PathMtu F) (nowMs : F) : (m.onProbeTimeout nowMs).1.current = m.current := by
    obtain heq | ⟨-, -, -, -, hcurrent, -⟩ := m.onProbeTimeout_cases nowMs
    · rw [heq]
    · exact hcurrent
  cases a with
  | startProbe nowMs => exact .inl (hstart t.mtu nowMs)
  | onProbeTimeout nowMs => exact .inl (htimeout t.mtu nowMs)
  | onTimer nowMs =>
    refine .inl ?_
    rw [mtu_onTimer, onTimer, hstart]
    split
    · exact htimeout t.mtu nowMs
    · rfl
  | onProbeSendFailed =>
    refine .inl ?_
    obtain heq | ⟨-, -, hcurrent, -⟩ := t.mtu.onProbeSendFailed_cases
    · simp [step, heq]
    · exact hcurrent
  | onProbeAck id size nowMs =>
    obtain heq | ⟨f, hf, hid, hsize, -, -, -, heq⟩ := t.mtu.onProbeAck_cases id size nowMs
    · exact .inl (by simp only [step, heq])
    · have hcurrent : (t.step (.onProbeAck id size nowMs)).mtu.current = size := by
        simp [step, heq, confirmed_current]
      rw [hcurrent]
      exact .inr (.inl ⟨id, nowMs, f, rfl, hf, hid, hsize⟩)
  | onBlackHole nowMs =>
    obtain ⟨-, heq⟩ | ⟨-, -, -, hcurrent, -⟩ := t.mtu.onBlackHole_cases nowMs
    · exact .inl (by simp only [step, heq])
    · exact .inr (.inr ⟨hcurrent, .inl ⟨nowMs, rfl⟩⟩)
  | reset path => exact .inr (.inr ⟨rfl, .inr (.inl ⟨path, rfl⟩)⟩)
  | resetWithConfig config nowMs => exact .inr (.inr ⟨rfl, .inr (.inr ⟨config, nowMs, rfl⟩)⟩)

theorem climbs_step (hclimbs : t.mtu.Climbs) (a : Action F) : (t.step a).mtu.Climbs := by
  cases a with
  | startProbe nowMs => exact hclimbs.startProbe nowMs
  | onTimer nowMs =>
    rw [mtu_onTimer]
    exact hclimbs.onTimer nowMs
  | onProbeAck id size nowMs => exact hclimbs.onProbeAck id size nowMs
  | onProbeTimeout nowMs => exact hclimbs.onProbeTimeout nowMs
  | onProbeSendFailed => exact hclimbs.onProbeSendFailed
  | onBlackHole nowMs => exact hclimbs.onBlackHole nowMs
  | reset path => exact .newWithConfig _ _
  | resetWithConfig config nowMs => exact .newWithConfig config nowMs

theorem counted_step (hcounted : t.Counted) (hclimbs : t.mtu.Climbs) (a : Action F) :
    (t.step a).Counted := by
  cases a with
  | startProbe nowMs => exact hcounted.startProbe nowMs
  | onTimer nowMs =>
    simp only [step]
    split
    · exact (hcounted.onProbeTimeout hclimbs nowMs).startProbe nowMs
    · exact hcounted.startProbe nowMs
  | onProbeAck id size nowMs => exact hcounted.onProbeAck hclimbs id size nowMs
  | onProbeTimeout nowMs => exact hcounted.onProbeTimeout hclimbs nowMs
  | onProbeSendFailed => exact hcounted.onProbeSendFailed
  | onBlackHole nowMs => exact hcounted.onBlackHole nowMs
  | reset path | resetWithConfig config nowMs => exact .fresh rfl rfl

theorem invariant_of_reach {config : PathConfig} {startMs : F}
    (h : (machine config startMs).Reach t) : t.mtu.Climbs ∧ t.Counted := by
  refine Machine.ReachVia.invariant (I := fun t => t.mtu.Climbs ∧ t.Counted) ?_ ?_ h
  · exact ⟨.newWithConfig config startMs, .fresh rfl rfl⟩
  · rintro t a t' ⟨hclimbs, hcounted⟩ - hstep
    cases hstep
    exact ⟨climbs_step hclimbs a, counted_step hcounted hclimbs a⟩

/-- **The state machine of the search**: its bounds hold whatever calls are made and at whatever
times, and the size rises only by the exact acknowledgement of the probe in flight. -/
theorem search_sound (config : PathConfig) (startMs : F) (h : (machine config startMs).Reach t) :
    (t.mtu.state ≠ .error →
      FLOOR ≤ t.mtu.current ∧ t.mtu.current ≤ t.mtu.clamp ∧ t.mtu.clamp ≤ CEILING) ∧
    (∀ f, t.mtu.probe = some f →
      t.mtu.current < f.probe.size ∧ f.probe.size ≤ t.mtu.clamp ∧
      0 < f.probe.id ∧ f.probe.id < 2 ^ 32 - 1 ∧
      1 ≤ f.probe.attempt ∧ f.probe.attempt ≤ MAX_PROBES) ∧
    (∀ size, t.lost.count size ≤ MAX_PROBES) ∧
    ∀ a,
      (t.mtu.current < (t.step a).mtu.current →
        (∃ id nowMs f, a = .onProbeAck id (t.step a).mtu.current nowMs ∧ t.mtu.probe = some f ∧
          f.probe.id = id ∧ f.probe.size = (t.step a).mtu.current) ∧
        ∀ rung ∈ LADDER, t.mtu.current < rung → rung ≤ t.mtu.clamp →
          (t.step a).mtu.current ≤ rung) ∧
      ((t.step a).mtu.current < t.mtu.current → (∃ nowMs, a = .onBlackHole nowMs) ∨
        (∃ path, a = .reset path) ∨ ∃ config nowMs, a = .resetWithConfig config nowMs) := by
  obtain ⟨hclimbs, hcounted⟩ := invariant_of_reach h
  refine ⟨fun hstate => ⟨hclimbs.floor, hclimbs.clamp hstate, hclimbs.ceiling⟩, fun f hf => ?_,
    hcounted.count, fun a => ?_⟩
  · obtain ⟨-, hc, hpos, hid, -, hattempt, hmax⟩ := hclimbs.flight f hf
    obtain ⟨habove, hclamp, -⟩ := candidate_bounds hc
    exact ⟨habove, hclamp, hpos, hid, hattempt, hmax⟩
  · have hfloor := hclimbs.floor
    obtain heq | ⟨id, nowMs, f, ha, hf, hid, hsize⟩ | ⟨heq, ha⟩ := t.current_step a
    · exact ⟨fun hup => absurd hup (by omega), fun hdown => absurd hdown (by omega)⟩
    · obtain ⟨-, hc, -⟩ := hclimbs.flight f hf
      have habove := (candidate_bounds hc).1
      rw [hsize] at hc habove
      exact ⟨fun _ => ⟨⟨id, nowMs, f, ha, hf, hid, hsize⟩,
        fun rung => hclimbs.candidate_le hc⟩, fun hdown => absurd hdown (by omega)⟩
    · exact ⟨fun hup => absurd hup (by omega), fun _ => ha⟩

/-- Two probes are lost; the third is under way. -/
theorem search_sound_losses : ∃ t, (machine (.defaultFor .direct) (0.0 : Float)).Reach t ∧
    t.lost = [1280, 1280] ∧ t.mtu.probe.map (·.probe) = some ⟨3, 1280, 3⟩ ∧
    t.mtu.current < (t.step (.onProbeAck 3 1280 2100)).mtu.current ∧
    ∀ rung ∈ LADDER, t.mtu.current < rung → rung ≤ t.mtu.clamp →
      (t.step (.onProbeAck 3 1280 2100)).mtu.current ≤ rung := by
  obtain ⟨t, ht, hlost, hprobe, hup⟩ := Machine.exists_reachVia
    (M := machine (.defaultFor .direct) (0.0 : Float)) (fun _ _ => True)
    [.startProbe 0, .onTimer 1000, .onTimer 2000]
    (fun t => t.lost = [1280, 1280] ∧ t.mtu.probe.map (·.probe) = some ⟨3, 1280, 3⟩ ∧
      t.mtu.current < (t.step (.onProbeAck 3 1280 2100)).mtu.current)
    (by decide +kernel)
  exact ⟨t, ht, hlost, hprobe, hup, (((search_sound _ _ ht).2.2.2 _).1 hup).2⟩

end Search

end OpenStream.Lowlat
