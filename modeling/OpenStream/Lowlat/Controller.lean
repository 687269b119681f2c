import OpenStream.Lib.Binary64
import OpenStream.Lib.Runs
import OpenStream.Lowlat.SendRing

/-!
# The rate controller

Rates climb by steps while a channel is clean and are cut when it is congested. The cut is made of a
peak, which the measured throughput raises by itself.

* **`congestion_slows_down`**: in doubles, while no more is measured than the controller has reached,
  a congested tick never raises the rate.
* **`congestion_speeds_up`**: when more is measured, a congested tick can raise it.
-/

namespace OpenStream.Lowlat

open Binary64 Runs

/-- What a tick is told; a rate is given only where the transport can measure it. -/
structure CongestionObservation (F : Type) where
  inFlight : Option ℕ
  stale : Option ℕ
  deliveryRateMbps : Option F

def WINDOW_FLOOR : ℕ := 100
def INCREASE_PERIOD : ℕ := 30
def DECREASE_PERIOD : ℕ := 60
def STEP_GROWTH : ℕ := 2
def STEP_CAP : ℕ := 5

/-- A rate between two bounds. -/
structure Controller (F : Type) where
  level : ℕ
  minMbps : F
  maxMbps : F
  currentMbps : F
  peakMbps : F
  increaseTicks : UInt32
  decreaseTicks : UInt32
  step : ℕ
  resetPending : Bool
  totalDecreases : ℕ

namespace Controller

section Model

variable {F : Type} [F64 F] [Div F]

def new (level : ℕ) (minMbps maxMbps : F) : Controller F :=
  ⟨level, minMbps, maxMbps, minMbps, minMbps, 0, 0, 1, true, 0⟩

variable (c : Controller F)

def setBounds (minMbps maxMbps : F) : Controller F :=
  { c with
    minMbps
    maxMbps
    currentMbps := if F64.lt maxMbps c.currentMbps then maxMbps else c.currentMbps
    peakMbps := if F64.lt maxMbps c.peakMbps then maxMbps else c.peakMbps
    resetPending := true }

def rateMbps : F := F64.clamp c.currentMbps c.minMbps c.maxMbps

def isCongested (window stale : ℕ) : Bool :=
  if window ≤ WINDOW_FLOOR then false
  else F64.lt (Lowlat.level F c.level).staleRatio (F64.ofNat stale / F64.ofNat window)

/-- A congested tick: the first one cuts, and then every sixtieth. -/
def slow : Controller F :=
  let c' := { c with decreaseTicks := c.decreaseTicks + 1 }
  if c.decreaseTicks.toNat % DECREASE_PERIOD = 0 then
    { c' with
      totalDecreases := satAdd 32 c.totalDecreases 1
      increaseTicks := 0
      peakMbps := c.peakMbps * 0.7
      currentMbps := c.peakMbps * 0.7 }
  else c'

/-- A clean tick: every thirtieth raises the rate, the first of them to the floor. -/
def climb (measuredMbps : F) : Controller F :=
  let c' := { c with increaseTicks := c.increaseTicks + 1 }
  if c'.increaseTicks.toNat % INCREASE_PERIOD = 0 then
    if c.resetPending then
      { c' with
        decreaseTicks := 0
        currentMbps := c.minMbps
        peakMbps := c.minMbps
        resetPending := false }
    else
      { c' with
        decreaseTicks := 0
        peakMbps := if F64.lt c.peakMbps measuredMbps then measuredMbps else c.peakMbps
        currentMbps := c.currentMbps + F64.ofNat (min c.step STEP_CAP) * 0.15
        step := satAdd 32 c.step STEP_GROWTH }
  else c'

def tick (window stale : ℕ) (measuredMbps : F) : Controller F × F :=
  let c := if c.isCongested window stale then c.slow else c.climb measuredMbps
  (c, c.rateMbps)

def tickObservation (o : CongestionObservation F) : Controller F × Option F :=
  match o.inFlight, o.stale with
  | some window, some stale =>
    let (c, rate) := c.tick window stale (o.deliveryRateMbps.getD 0.0)
    (c, some rate)
  | _, _ => (c, none)

inductive Call (F : Type)
  | tick (window stale : ℕ) (measuredMbps : F)
  | tickObservation (o : CongestionObservation F)
  | setBounds (minMbps maxMbps : F)

def Call.run : Call F → Controller F
  | .tick window stale measuredMbps => (c.tick window stale measuredMbps).1
  | .tickObservation o => (c.tickObservation o).1
  | .setBounds minMbps maxMbps => c.setBounds minMbps maxMbps

def runs (level : ℕ) (minMbps maxMbps : F) : Machine (Controller F) (Call F) :=
  ⟨new level minMbps maxMbps, fun c call => some (call.run c)⟩

def Given (_ : Controller F) : Call F → Bool
  | .tick _ _ measuredMbps => F64.le (0.0 : F) measuredMbps
  | .tickObservation o => F64.le (0.0 : F) (o.deliveryRateMbps.getD 0.0)
  | .setBounds minMbps maxMbps => F64.le minMbps maxMbps

def Reached : Call F → Bool
  | .tick _ _ measuredMbps => F64.le measuredMbps c.currentMbps
  | .tickObservation o => F64.le (o.deliveryRateMbps.getD 0.0) c.currentMbps
  | .setBounds minMbps _ => F64.le (0.0 : F) minMbps

end Model

/-! ## Cuts -/

/-- No more was measured than was reached. -/
structure Tame (c : Controller Float) : Prop where
  bounds : c.minMbps ≤ c.maxMbps
  floor : 0.0 ≤ c.minMbps
  peak : 0.0 ≤ c.peakMbps
  reached : c.peakMbps ≤ c.currentMbps

variable {c : Controller Float}

theorem Tame.slow (h : c.Tame) : c.slow.Tame ∧ c.slow.currentMbps ≤ c.currentMbps := by
  obtain ⟨hb, hf, hp, hr⟩ := h
  have hn := not_notANumber_of_le hr
  unfold Controller.slow
  split_ifs
  · obtain ⟨hpos, hcut⟩ := mul_le (y := 0.7) hp (by decide +kernel) (by decide +kernel)
      (by decide +kernel)
    exact ⟨⟨hb, hf, hpos, le_refl (not_notANumber_of_le hcut).1⟩, le_trans hcut hr⟩
  · exact ⟨⟨hb, hf, hp, hr⟩, le_refl hn.2⟩

theorem le_step (x : Float) (hx : un x ≠ .notANumber) (step : ℕ) :
    x ≤ x + F64.ofNat (min step STEP_CAP) * 0.15 := by
  have hsteps : ∀ k < STEP_CAP + 1,
      (Float.ofNat k * 0.15).isFinite = true ∧ 0.0 ≤ Float.ofNat k * 0.15 := by
    decide +kernel
  obtain ⟨hfin, hpos⟩ := hsteps (min step STEP_CAP) (Nat.lt_succ_of_le (Nat.min_le_right _ _))
  exact le_add hx hfin ((le_iff rfl hfin).mp hpos)

theorem Tame.climb (h : c.Tame) {m : Float} (hm : m ≤ c.currentMbps) : (c.climb m).Tame := by
  obtain ⟨hb, hf, hp, hr⟩ := h
  have hstep := le_step c.currentMbps (not_notANumber_of_le hr).2 c.step
  unfold Controller.climb
  dsimp only
  split_ifs with _ _ hlt
  · exact ⟨hb, hf, hf, le_refl (not_notANumber_of_le hf).2⟩
  · exact ⟨hb, hf, le_trans hp (le_of_lt (of_decide_eq_true hlt)), le_trans hm hstep⟩
  · exact ⟨hb, hf, hp, le_trans hr hstep⟩
  · exact ⟨hb, hf, hp, hr⟩

theorem Tame.tick (h : c.Tame) (window stale : ℕ) {m : Float} (hm : m ≤ c.currentMbps) :
    (c.tick window stale m).1.Tame := by
  unfold Controller.tick
  split_ifs
  · exact h.slow.1
  · exact h.climb hm

theorem Tame.setBounds (h : c.Tame) {lo hi : Float} (hlo : 0.0 ≤ lo) (hhi : lo ≤ hi) :
    (c.setBounds lo hi).Tame := by
  obtain ⟨hb, hf, hp, hr⟩ := h
  have hn := (not_notANumber_of_le hhi).2
  refine ⟨hhi, hlo, ?_, ?_⟩ <;> simp only [Controller.setBounds, F64.lt, decide_eq_true_eq]
  · split_ifs
    · exact le_trans hlo hhi
    · exact hp
  · split_ifs with hpeak hcur hcur
    · exact le_refl hn
    · exact le_trans (le_of_lt hpeak) hr
    · exact le_of_not_lt hn (not_notANumber_of_le hr).1 hpeak
    · exact hr

theorem Tame.run (h : c.Tame) {call : Call Float} (hg : c.Given call) (hr : c.Reached call) :
    (call.run c).Tame := by
  cases call with
  | tick window stale m => exact h.tick window stale (of_decide_eq_true hr)
  | tickObservation o =>
    simp only [Call.run, Controller.tickObservation]
    split
    · exact h.tick _ _ (of_decide_eq_true hr)
    · exact h
  | setBounds lo hi => exact h.setBounds (of_decide_eq_true hr) (of_decide_eq_true hg)

/-- **Congestion never speeds the encoder up**, in every run in which no more is measured than the
controller has reached and no bound is negative: a congested tick does not raise the rate, and the
rate is within the bounds. Rates are doubles, infinities included. -/
theorem congestion_slows_down {level : ℕ} {lo hi : Float} (hlo : 0.0 ≤ lo) (hhi : lo ≤ hi)
    {c : Controller Float}
    (h : (runs level lo hi).ReachVia (fun c call => c.Given call ∧ c.Reached call) c) :
    (∀ window stale m, c.isCongested window stale →
      (c.tick window stale m).1.rateMbps ≤ c.rateMbps) ∧
    c.minMbps ≤ c.rateMbps ∧ c.rateMbps ≤ c.maxMbps := by
  have hc : c.Tame := by
    refine h.invariant ⟨hhi, hlo, hlo, le_refl (not_notANumber_of_le hlo).2⟩ ?_
    intro c call c' hc hok hstep
    cases hstep
    exact hc.run hok.1 hok.2
  refine ⟨fun window stale m hcong => ?_,
    clamp_mem (not_notANumber_of_le hc.reached).2 hc.bounds⟩
  have hbounds : c.slow.minMbps = c.minMbps ∧ c.slow.maxMbps = c.maxMbps := by
    unfold Controller.slow
    split_ifs <;> exact ⟨rfl, rfl⟩
  rw [Controller.tick, if_pos hcong, rateMbps, rateMbps, hbounds.1, hbounds.2]
  exact clamp_mono hc.slow.2 hc.bounds

theorem congestion_slows_down_after_climb :
    ∃ c, (runs 1 2.0 100.0 : Machine (Controller Float) _).ReachVia
      (fun c call => c.Given call ∧ c.Reached call) c ∧ 2.1 < c.rateMbps ∧ c.isCongested 200 100 ∧
      (c.tick 200 100 0.0).1.rateMbps ≤ c.rateMbps := by
  obtain ⟨c, hc, hrate, hcong⟩ := Machine.exists_reachVia (M := runs 1 2.0 100.0)
    (fun (c : Controller Float) call => c.Given call ∧ c.Reached call)
    (List.replicate 60 (.tick 10 0 2.0))
    (fun c => 2.1 < c.rateMbps ∧ c.isCongested 200 100) (by decide +kernel)
  exact ⟨c, hc, hrate, hcong,
    (congestion_slows_down (by decide +kernel) (by decide +kernel) hc).1 200 100 0.0 hcong⟩

/-- **A congested tick raises the rate**, in doubles: 50 Mbps are measured while the rate is 2. -/
theorem congestion_speeds_up : ∃ c, (runs 1 2.0 100.0 : Machine (Controller Float) _).ReachVia
    (fun c call => c.Given call) c ∧ c.isCongested 200 100 ∧ c.rateMbps < 2.2 ∧
    34.9 < (c.tick 200 100 0.0).1.rateMbps :=
  Machine.exists_reachVia (M := runs 1 2.0 100.0) (fun (c : Controller Float) call => c.Given call)
    (List.replicate 60 (.tick 10 0 50.0)) _ (by decide +kernel)

end Controller

end OpenStream.Lowlat
