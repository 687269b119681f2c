import OpenStream.Inject.Event
import OpenStream.Lib.Runs

/-!
# What the devices show

The emissions of an injector, replayed on each device by itself.

* `Emission.Settles`: an emission that presses nothing. **`Rests.append`**: what rests then stays.
-/

namespace OpenStream.Inject

open List

/-! ## Replay -/

section

variable {α : Type} (on : α → Event → α) (idle : α)

def Emission.replay (d : Device) (x : α) : Emission → α
  | .emit device events => if device = d then events.foldl on x else x
  | .unplug pad => if d = .gamepad pad then idle else x

def replay (d : Device) (log : List Emission) : α :=
  log.foldl (fun x em => em.replay on idle d x) idle

variable {on idle} {d : Device} {log ems : List Emission}

theorem replay_append : replay on idle d (log ++ ems) =
    ems.foldl (fun x em => em.replay on idle d x) (replay on idle d log) :=
  foldl_append

theorem replay_emit (events : List Event) :
    replay on idle d (log ++ [.emit d events]) = events.foldl on (replay on idle d log) := by
  rw [replay_append, foldl_cons, foldl_nil, Emission.replay, if_pos rfl]

theorem replay_unplug (pad : BitVec 32) :
    replay on idle (.gamepad pad) (log ++ [.unplug pad]) = idle := by
  rw [replay_append, foldl_cons, foldl_nil, Emission.replay, if_pos rfl]

theorem replay_other (h : ∀ em ∈ ems, em.device ≠ d) :
    replay on idle d (log ++ ems) = replay on idle d log := by
  rw [replay_append]
  generalize replay on idle d log = x
  induction ems with
  | nil => rfl
  | cons em ems ih =>
    have hem : em.replay on idle d x = x := by
      have hd := h em mem_cons_self
      cases em with
      | emit device events => exact if_neg hd
      | unplug pad => exact if_neg (Ne.symm hd)
    rw [foldl_cons, hem]
    exact ih fun em hmem => h em (mem_cons_of_mem _ hmem)

theorem replay_induction {P : α → Prop} (hidle : P idle) (hlog : P (replay on idle d log))
    (hems : ∀ events, .emit d events ∈ ems → ∀ e ∈ events, ∀ x, P x → P (on x e)) :
    P (replay on idle d (log ++ ems)) := by
  rw [replay_append]
  generalize replay on idle d log = x at hlog
  induction ems generalizing x with
  | nil => exact hlog
  | cons em ems ih =>
    refine ih (fun events hmem => hems events (mem_cons_of_mem _ hmem)) _ ?_
    cases em with
    | emit device events =>
      simp only [Emission.replay]
      split_ifs with hd
      · subst hd
        have hkeep := hems events mem_cons_self
        clear ih hems
        induction events generalizing x with
        | nil => exact hlog
        | cons e events ih =>
          refine ih _ (hkeep e mem_cons_self x hlog) fun e' he' => ?_
          exact hkeep e' (mem_cons_of_mem _ he')
      · exact hlog
    | unplug pad =>
      simp only [Emission.replay]
      split_ifs
      · exact hidle
      · exact hlog

end

/-! ## Keys and axes -/

def press (code : ℕ) (down : Bool) (e : Event) : Bool :=
  if e.kind = EV_KEY ∧ e.code = code then
    if e.value = 1 then true else if e.value = 0 then false else down
  else down

def turn (code : ℕ) (value : ℤ) (e : Event) : ℤ :=
  if e.kind = EV_ABS ∧ e.code = code then e.value else value

def isDown (log : List Emission) (d : Device) (code : ℕ) : Bool := replay (press code) false d log

def axisAt (log : List Emission) (d : Device) (code : ℕ) : ℤ := replay (turn code) 0 d log

variable {code : ℕ} {b : Bool} {v : ℤ} {e : Event} {events : List Event} {d : Device}
  {log ems : List Emission}

theorem press_of_ne (h : e.kind ≠ EV_KEY ∨ e.code ≠ code) : press code b e = b :=
  if_neg fun he => h.elim (· he.1) (· he.2)

theorem turn_of_ne (h : e.kind ≠ EV_ABS ∨ e.code ≠ code) : turn code v e = v :=
  if_neg fun he => h.elim (· he.1) (· he.2)

theorem foldl_press_of_ne (h : ∀ e ∈ events, e.kind ≠ EV_KEY ∨ e.code ≠ code) :
    events.foldl (press code) b = b :=
  Runs.foldl_eq_self fun e he => press_of_ne (h e he)

theorem foldl_turn_of_ne (h : ∀ e ∈ events, e.kind ≠ EV_ABS ∨ e.code ≠ code) :
    events.foldl (turn code) v = v :=
  Runs.foldl_eq_self fun e he => turn_of_ne (h e he)

theorem foldl_press_release (h : ∀ e ∈ events, e.kind = EV_KEY → e.value = 0) :
    events.foldl (press code) b =
      (b && !events.any fun e => e.kind = EV_KEY && e.code = code) := by
  induction events generalizing b with
  | nil => simp
  | cons e events ih =>
    rw [foldl_cons, ih fun e he => h e (mem_cons_of_mem _ he), any_cons]
    by_cases he : e.kind = EV_KEY ∧ e.code = code
    · have hv := h e mem_cons_self he.1
      simp [press, he, hv]
    · have hne : press code b e = b := if_neg he
      have hf : (e.kind = EV_KEY && e.code = code) = false := by simpa using he
      rw [hne, hf, Bool.false_or]

/-! ## The scratch buffer -/

theorem foldl_push : ∀ {events buffer : List Event}, buffer.length + events.length ≤ SCRATCH →
    events.foldl push buffer = buffer ++ events
  | [], buffer, _ => (append_nil buffer).symm
  | e :: events, buffer, h => by
    rw [length_cons] at h
    have hroom : push buffer e = buffer ++ [e] := if_pos (by omega)
    rw [foldl_cons, hroom, foldl_push, append_assoc]
    · rfl
    · rw [length_append, length_singleton]
      omega

theorem batch_eq (h : events.length < SCRATCH) :
    batch d events = .emit d (events ++ [⟨EV_SYN, SYN_REPORT, 0⟩]) := by
  have hroom : push events ⟨EV_SYN, SYN_REPORT, 0⟩ = events ++ [⟨EV_SYN, SYN_REPORT, 0⟩] := if_pos h
  have hfold : events.foldl push [] = events := by
    rw [foldl_push (by rw [length_nil, Nat.zero_add]; exact h.le), nil_append]
  rw [batch, report, hfold, hroom]

theorem isDown_batch (h : events.length < SCRATCH) :
    isDown (log ++ [batch d events]) d code = events.foldl (press code) (isDown log d code) := by
  rw [batch_eq h, isDown, replay_emit, foldl_append]
  rfl

theorem axisAt_batch (h : events.length < SCRATCH) :
    axisAt (log ++ [batch d events]) d code = events.foldl (turn code) (axisAt log d code) := by
  rw [batch_eq h, axisAt, replay_emit, foldl_append]
  rfl

@[simp] theorem device_batch : (batch d events).device = d := rfl

/-! ## Devices at rest -/

inductive Kind
  | keyboard
  | pointer
  | gamepad
  deriving DecidableEq

/-- The class of devices that a permission is about. -/
def Device.kind : Device → Kind
  | .keyboard => .keyboard
  | .pointer => .pointer
  | .pointerAbsolute => .pointer
  | .gamepad _ => .gamepad

/-- Nothing is down on a device, and if it is a pad its axes are at zero. -/
structure Rests (log : List Emission) (d : Device) : Prop where
  up : ∀ code, isDown log d code = false
  centred : d.kind = .gamepad → ∀ code, axisAt log d code = 0

/-- **All devices of a class are at rest.** -/
def AtRest (log : List Emission) (k : Kind) : Prop := ∀ d, d.kind = k → Rests log d

/-- Nothing is pressed, and no axis moved off zero. -/
def Emission.Settles : Emission → Prop
  | .emit _ events =>
    ∀ e ∈ events, (e.kind = EV_KEY → e.value = 0) ∧ (e.kind = EV_ABS → e.value = 0)
  | .unplug _ => True

theorem Rests.append (h : Rests log d) (hs : ∀ em ∈ ems, em.device = d → em.Settles) :
    Rests (log ++ ems) d := by
  have hem {events : List Event} (hmem : .emit d events ∈ ems) : (Emission.emit d events).Settles :=
    hs _ hmem rfl
  refine ⟨fun code => ?_, fun hd code => ?_⟩
  · refine replay_induction (P := (· = false)) rfl (h.up code) fun events hmem e he x hx => ?_
    have hval := (hem hmem e he).1
    unfold press
    split_ifs with hk h1
    · rw [hval hk.1] at h1
      cases h1
    · rfl
    · exact hx
    · exact hx
  · refine replay_induction (P := (· = 0)) rfl (h.centred hd code) fun events hmem e he x hx => ?_
    unfold turn
    split_ifs with hk
    · exact (hem hmem e he).2 hk.1
    · exact hx

theorem AtRest.append {k : Kind} (h : AtRest log k)
    (hs : ∀ em ∈ ems, em.device.kind = k → em.Settles) : AtRest (log ++ ems) k :=
  fun d hd => (h d hd).append fun em hem he => hs em hem (he ▸ hd)

theorem settles_batch (hlen : events.length < SCRATCH)
    (h : ∀ e ∈ events, (e.kind = EV_KEY → e.value = 0) ∧ (e.kind = EV_ABS → e.value = 0)) :
    (batch d events).Settles := by
  rw [batch_eq hlen]
  exact forall_mem_concat h ⟨nofun, nofun⟩

end OpenStream.Inject
