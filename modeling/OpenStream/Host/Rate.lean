import OpenStream.Lowlat.Controller

/-!
# The rate of a stream

The configured rate is divided among the guests, and the encoder runs at the smallest rate that a
guest's controller gives. Rates are exact here.

* **`Budget.not_oversubscribed`**: a tick leaves the guests and the sound within the configured rate.
* **`Budget.oversubscribed`**: a negative floor breaks it.
-/

namespace OpenStream.Host

open Lowlat Runs List

def DEADBAND_MBPS : ℚ := 0.01

structure Sample where
  window : ℕ
  stale : ℕ
  measuredMbps : ℚ

structure Budget where
  configuredMbps : ℚ
  minMbps : ℚ
  guests : ℕ
  appliedMbps : ℚ
  audioMbps : ℚ

/-- The budget and the controllers of the guests. -/
abbrev Room : Type := Budget × List (Controller ℚ)

namespace Budget

def new (configuredMbps minMbps : ℚ) : Budget := ⟨configuredMbps, minMbps, 0, 0, 0⟩

section Model

variable (b : Budget) (controllers : List (Controller ℚ))

def ceiling : ℚ :=
  max (max (b.configuredMbps - b.audioMbps) 0 / (max b.guests 1 : ℕ)) b.minMbps

def rebound (guests : ℕ) : Room :=
  let b := { b with guests }
  (b, controllers.map (·.setBounds b.minMbps b.ceiling))

def setAudio (audioMbps : ℚ) : Room :=
  rebound { b with audioMbps := max audioMbps 0 } controllers b.guests

/-- The floor moves with the ceiling. -/
def reconfigure (configuredMbps minMbps : ℚ) : Room :=
  rebound { b with configuredMbps, minMbps := min minMbps configuredMbps } controllers b.guests

/-- A pass over the guests; the answer is a rate that moved past the deadband. -/
def tick (samples : List Sample) : Room × Option ℚ :=
  let ticked := (controllers.zip samples).map fun (c, s) => c.tick s.window s.stale s.measuredMbps
  let controllers := ticked.map Prod.fst ++ controllers.drop samples.length
  match (ticked.map Prod.snd).min? with
  | none => ((b, controllers), none)
  | some best =>
    if |best - b.appliedMbps| ≤ DEADBAND_MBPS then ((b, controllers), none)
    else (({ b with appliedMbps := best }, controllers), some best)

end Model

inductive Call
  /-- Who is seated changes, and the budget is told. -/
  | rebound (controllers : List (Controller ℚ))
  | setAudio (audioMbps : ℚ)
  | reconfigure (configuredMbps minMbps : ℚ)
  | tick (samples : List Sample)

def run : Room → Call → Option Room
  | (b, _), .rebound controllers => some (b.rebound controllers controllers.length)
  | (b, controllers), .setAudio audioMbps => some (b.setAudio controllers audioMbps)
  | (b, controllers), .reconfigure configuredMbps minMbps =>
    some (b.reconfigure controllers configuredMbps minMbps)
  | (b, controllers), .tick samples =>
    if samples.length = controllers.length then some (b.tick controllers samples).1 else none

def runs (configuredMbps minMbps : ℚ) : Machine Room Call :=
  ⟨(new configuredMbps minMbps, []), run⟩

/-- Every guest's controller has the bounds in force. -/
structure Bound (s : Room) : Prop where
  guests : s.1.guests = s.2.length
  bounds : ∀ c ∈ s.2, c.minMbps = s.1.minMbps ∧ c.maxMbps = s.1.ceiling

variable {b : Budget} {cs : List (Controller ℚ)} {samples : List Sample}

theorem bound_rebound (b : Budget) {guests : ℕ} (h : guests = cs.length) :
    Bound (b.rebound cs guests) := by
  refine ⟨by simp [rebound, h], fun c hc => ?_⟩
  obtain ⟨c, -, rfl⟩ := mem_map.mp hc
  exact ⟨rfl, rfl⟩

theorem clamp_mem (x : ℚ) {lo hi : ℚ} (hb : lo ≤ hi) :
    lo ≤ F64.clamp x lo hi ∧ F64.clamp x lo hi ≤ hi := by
  simp only [F64.clamp, F64.lt, decide_eq_true_eq]
  split_ifs <;> constructor <;> linarith

theorem Bound.rate {s : Room} (h : Bound s) {c : Controller ℚ} (hc : c ∈ s.2) :
    s.1.minMbps ≤ c.rateMbps ∧ c.rateMbps ≤ s.1.ceiling := by
  obtain ⟨hmin, hmax⟩ := h.bounds c hc
  rw [Controller.rateMbps, hmin, hmax]
  exact clamp_mem c.currentMbps (le_max_right _ _)

theorem tick_bounds (c : Controller ℚ) (window stale : ℕ) (m : ℚ) :
    (c.tick window stale m).1.minMbps = c.minMbps ∧
      (c.tick window stale m).1.maxMbps = c.maxMbps := by
  unfold Controller.tick Controller.slow Controller.climb
  dsimp only
  split_ifs <;> exact ⟨rfl, rfl⟩

/-- **The step lemma of a tick** with one sample for each guest. -/
theorem tick_spec (h : Bound (b, cs)) (hlen : samples.length = cs.length) :
    ∃ applied after, (b.tick cs samples).1 = ({ b with appliedMbps := applied }, after) ∧
      Bound ({ b with appliedMbps := applied }, after) ∧ (cs ≠ [] →
        ∃ c ∈ after, |applied - c.rateMbps| ≤ DEADBAND_MBPS ∧
          ∀ d ∈ after, c.rateMbps ≤ d.rateMbps) := by
  set after := (cs.zip samples).map
    fun (c, s) => (c.tick s.window s.stale s.measuredMbps).1 with hafter
  have hlength : after.length = cs.length := by simp [hafter, hlen]
  have hbound (applied : ℚ) : Bound ({ b with appliedMbps := applied }, after) := by
    refine ⟨h.guests.trans hlength.symm, fun c hc => ?_⟩
    obtain ⟨⟨c, x⟩, hmem, rfl⟩ := mem_map.mp hc
    obtain ⟨hmin, hmax⟩ := tick_bounds c x.window x.stale x.measuredMbps
    dsimp only
    rw [hmin, hmax]
    exact h.bounds c (of_mem_zip hmem).1
  have hrates : ((cs.zip samples).map fun (c, s) =>
      c.tick s.window s.stale s.measuredMbps).map Prod.snd = after.map Controller.rateMbps := by
    simp only [hafter, map_map]
    rfl
  simp only [tick, hrates, map_map, hlen, drop_length, append_nil]
  cases hbest : (after.map Controller.rateMbps).min? with
  | none =>
    refine ⟨b.appliedMbps, after, rfl, hbound _, fun hne => absurd ?_ hne⟩
    rwa [min?_eq_none_iff, map_eq_nil_iff, ← length_eq_zero_iff, hlength, length_eq_zero_iff] at hbest
  | some best =>
    obtain ⟨hmem, hle⟩ := min?_eq_some_iff.mp hbest
    obtain ⟨c, hc, rfl⟩ := mem_map.mp hmem
    have hmin : ∀ d ∈ after, c.rateMbps ≤ d.rateMbps := fun d hd => hle _ (mem_map_of_mem hd)
    dsimp only
    split_ifs with hband
    · exact ⟨b.appliedMbps, after, rfl, hbound _, fun _ => ⟨c, hc, by rwa [abs_sub_comm], hmin⟩⟩
    · exact ⟨c.rateMbps, after, rfl, hbound _,
        fun _ => ⟨c, hc, by norm_num [DEADBAND_MBPS], hmin⟩⟩

theorem bound_of_reach {configured floor : ℚ} {s : Room} (h : (runs configured floor).Reach s) :
    Bound s := by
  refine h.invariant (I := Bound) ⟨rfl, by simp [runs]⟩ ?_
  rintro ⟨b, cs⟩ call s' hs - hstep
  cases call with
  | rebound cs =>
    cases hstep
    exact bound_rebound b rfl
  | setAudio | reconfigure =>
    cases hstep
    exact bound_rebound _ hs.guests
  | tick samples =>
    simp only [runs, run] at hstep
    split_ifs at hstep with hlen
    cases hstep
    obtain ⟨applied, after, htick, hbound, -⟩ := tick_spec hs hlen
    rwa [htick]

/-- **The uplink is not oversubscribed**: if the floor is not negative and there is room for it,
a tick leaves the guests and the sound within the configured rate, up to the deadband; in any case
every controller is within its bounds, and the applied rate follows the smallest. -/
theorem not_oversubscribed {configured floor : ℚ}
    (h : (runs configured floor).Reach (b, cs)) (hseated : 1 ≤ cs.length)
    (hlen : samples.length = cs.length) :
    let s := (b.tick cs samples).1
    (0 ≤ b.minMbps → b.minMbps * cs.length ≤ b.configuredMbps - b.audioMbps →
      cs.length * s.1.appliedMbps + s.1.audioMbps ≤
        s.1.configuredMbps + cs.length * DEADBAND_MBPS) ∧
      (∀ c ∈ s.2, s.1.minMbps ≤ c.rateMbps ∧ c.rateMbps ≤ s.1.ceiling) ∧
      ∃ c ∈ s.2, |s.1.appliedMbps - c.rateMbps| ≤ DEADBAND_MBPS ∧
        ∀ d ∈ s.2, c.rateMbps ≤ d.rateMbps := by
  have hb := bound_of_reach h
  obtain ⟨applied, after, htick, hbound, hbest⟩ := tick_spec hb hlen
  obtain ⟨c, hc, hband, hmin⟩ := hbest (ne_nil_of_length_pos hseated)
  have hn : (1 : ℚ) ≤ cs.length := by exact_mod_cast hseated
  dsimp only
  rw [htick]
  refine ⟨fun hfloor hroom => ?_, fun d hd => hbound.rate hd, c, hc, hband, hmin⟩
  -- there is room for the floor, so the ceiling is the guest's part of what sound leaves
  have hceiling : cs.length * b.ceiling = b.configuredMbps - b.audioMbps := by
    have hleft : 0 ≤ b.configuredMbps - b.audioMbps := le_trans (by positivity) hroom
    rw [ceiling, hb.guests, max_eq_left hleft, max_eq_left hseated,
      max_eq_left ((le_div_iff₀ (by linarith)).mpr hroom)]
    exact mul_div_cancel₀ _ (by linarith)
  have hrate : c.rateMbps ≤ b.ceiling := (hbound.rate hc).2
  have happlied : applied ≤ b.ceiling + DEADBAND_MBPS := by linarith [(abs_le.mp hband).2]
  have hall := mul_le_mul_of_nonneg_left happlied (zero_le_one.trans hn)
  dsimp only
  linarith

theorem not_oversubscribed_pair : ∃ s, (runs 30 1).Reach s ∧ s.2.length = 2 ∧
    let t := (s.1.tick s.2 (replicate 2 ⟨0, 0, 0⟩)).1.1
    s.2.length * t.appliedMbps + t.audioMbps ≤ t.configuredMbps + s.2.length * DEADBAND_MBPS := by
  obtain ⟨s, hs, hlen, hfloor, hroom⟩ := Machine.exists_reachVia (M := runs 30 1) (fun _ _ => True)
    [.setAudio 2, .rebound (replicate 2 (.new 1 1 30))]
    (fun s => s.2.length = 2 ∧ 0 ≤ s.1.minMbps ∧
      s.1.minMbps * s.2.length ≤ s.1.configuredMbps - s.1.audioMbps) (by decide +kernel)
  have hsamples : (replicate 2 (⟨0, 0, 0⟩ : Sample)).length = s.2.length := hlen.symm
  exact ⟨s, hs, hlen, (not_oversubscribed hs (by omega) hsamples).1 hfloor hroom⟩

/-- **A negative floor has room although sound costs more than the configured rate**: the ceiling
is then nought, and a cut from the peak measured takes the controller there. -/
theorem oversubscribed : ∃ s, (runs 1 (-5)).Reach s ∧ s.2.length = 1 ∧
    s.1.minMbps * s.2.length ≤ s.1.configuredMbps - s.1.audioMbps ∧
    let t := (s.1.tick s.2 [⟨200, 100, 0⟩]).1.1
    t.configuredMbps + s.2.length * DEADBAND_MBPS < s.2.length * t.appliedMbps + t.audioMbps :=
  Machine.exists_reachVia (M := runs 1 (-5)) (fun _ _ => True)
    ([.setAudio 2, .rebound [.new 1 (-5) 1]] ++ replicate 60 (.tick [⟨0, 0, 100⟩])) _
    (by decide +kernel)

end Budget

end OpenStream.Host
