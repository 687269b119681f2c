import OpenStream.Lib.Runs
import Mathlib.Data.Fin.Basic
import Mathlib.Logic.Function.Basic

/-!
# Seats on the stream

Guests' threads take seats and leave them; the stream thread admits and retires. Every load and store
of a seat's state and every operation on the queue of joins is a step of its own, so the two kinds of
threads interleave anywhere. What a seat carries besides its state is left out.

* `Taker`: a guest's thread in `Seats::take`, and with the `SeatHold` that it returns.
* `Pc`: the stream thread in `run`, `retire_leaving`, `encode_loop` and `admit_and_retire`.
* `Seating`: both, over the states of the seats; `seating` is the machine.
* `Turns`: what a step of the stream thread can do. `Moves`: what a step of a guest's thread can do.
-/

namespace OpenStream.Host

open Function Runs

def MAX_SEATS : ℕ := 16

abbrev Place := Fin MAX_SEATS

inductive SeatState
  | free
  | claimed
  | streaming
  | leaving
  deriving DecidableEq

inductive Taker
  /-- In `take`, about to try a seat. -/
  | scanning (n : ℕ)
  /-- It has claimed a seat and not yet sent its join. -/
  | sending (i : Place)
  /-- Its join could not be sent. -/
  | refused (i : Place)
  /-- It has a `SeatHold`. -/
  | holding (i : Place)
  | gone
  deriving DecidableEq

def Taker.seat : Taker → Option Place
  | .sending i => some i
  | .refused i => some i
  | .holding i => some i
  | _ => none

inductive Pc
  /-- `retire_leaving`, about to look at a seat. -/
  | retiring (n : ℕ)
  /-- It has seen a guest leaving, and empties the seat. -/
  | freeing (i : Place)
  /-- `occupied`, about to look at a seat. -/
  | occupied (n : ℕ)
  /-- Nobody is there. -/
  | idle
  /-- About to drain what was asked for. -/
  | preparing
  | building
  /-- The top of a pass of `encode_loop`. -/
  | top
  /-- `admit_and_retire`, about to receive. -/
  | admitting
  /-- It has a join, and looks at its seat. -/
  | joining (i : Place)
  /-- It has seen the seat claimed. -/
  | promoting (i : Place)
  /-- About to look at an entry of the roster. -/
  | scanning (n : ℕ)
  /-- It has seen the guest of an entry leaving. -/
  | returning (n : ℕ)
  /-- The rest of a pass. -/
  | passing
  /-- `Exit::Failed`. -/
  | failed
  | stopped
  deriving DecidableEq

/-- What the surroundings make of a step of the stream thread. -/
inductive Turn
  | plain
  | requested
  | failed
  | reconfigure
  | rediscover
  deriving DecidableEq

/-- The seats, the stream thread and the guests. -/
structure Seating where
  seats : Place → SeatState
  /-- The joins that are sent and not received. -/
  queue : List Place
  /-- The seats of the roster's entries. -/
  roster : List Place
  pc : Pc
  /-- Whether there is a codec to go back to. -/
  previous : Bool
  /-- Whether there is an output to go back to. -/
  previousOutput : Bool
  stopping : Bool
  guests : List Taker

inductive Action
  /-- A guest's thread calls `take`. -/
  | arrive
  /-- A guest's thread goes on in `take`. -/
  | guest (k : ℕ)
  /-- A guest's thread drops its `SeatHold`. -/
  | leave (k : ℕ)
  | stop
  | stream (turn : Turn)
  deriving DecidableEq

/-! ## Removing by swapping -/

/-- The last element takes the place of the one that goes. -/
def swapRemove {α : Type} (l : List α) (n : ℕ) : List α :=
  match l.getLast? with
  | none => []
  | some x => (l.set n x).dropLast

section

variable {α : Type} {l : List α} {n j : ℕ} {x : α}

theorem length_swapRemove (h : n < l.length) : (swapRemove l n).length + 1 = l.length := by
  have hne : l ≠ [] := List.ne_nil_of_length_pos (by omega)
  rw [swapRemove, List.getLast?_eq_some_getLast hne]
  simp only [List.length_dropLast, List.length_set]
  omega

theorem getElem?_swapRemove (h : n < l.length) (hj : l[j]? = some x) (hne : j ≠ n) :
    ∃ j', (swapRemove l n)[j']? = some x ∧ (n ≤ j → n ≤ j') := by
  have hlen : j < l.length := (List.getElem?_eq_some_iff.mp hj).1
  have hnil : l ≠ [] := List.ne_nil_of_length_pos (by omega)
  rw [swapRemove, List.getLast?_eq_some_getLast hnil]
  by_cases hlast : j = l.length - 1
  · refine ⟨n, ?_, fun _ => le_rfl⟩
    have hx : l.getLast hnil = x := by
      have hget : l[l.length - 1]? = some (l.getLast hnil) := by
        rw [← List.getLast?_eq_getElem?, List.getLast?_eq_some_getLast hnil]
      rw [← hlast, hj] at hget
      exact (Option.some.inj hget).symm
    rw [List.getElem?_dropLast, if_pos (by rw [List.length_set]; omega),
      List.getElem?_set_self h, hx]
  · refine ⟨j, ?_, id⟩
    rw [List.getElem?_dropLast, if_pos (by rw [List.length_set]; omega),
      List.getElem?_set_ne (Ne.symm hne), hj]

end

namespace Seating

/-! ## Threads -/

variable (g : Seating)

/-- A step of a guest's thread inside `take`. -/
def move (k : ℕ) : Option Seating :=
  match g.guests[k]? with
  | some (.scanning n) =>
    if h : n < MAX_SEATS then
      if g.seats ⟨n, h⟩ = .free then
        some { g with
          seats := update g.seats ⟨n, h⟩ .claimed
          guests := g.guests.set k (.sending ⟨n, h⟩) }
      else some { g with guests := g.guests.set k (.scanning (n + 1)) }
    else some { g with guests := g.guests.set k .gone }
  | some (.sending i) =>
    -- the receiver is gone once the stream thread has returned
    if g.pc = .stopped then some { g with guests := g.guests.set k (.refused i) }
    else some { g with queue := g.queue ++ [i], guests := g.guests.set k (.holding i) }
  | some (.refused i) =>
    some { g with seats := update g.seats i .free, guests := g.guests.set k .gone }
  | _ => none

def leave (k : ℕ) : Option Seating :=
  match g.guests[k]? with
  | some (.holding i) =>
    some { g with seats := update g.seats i .leaving, guests := g.guests.set k .gone }
  | _ => none

/-- A step of the stream thread that does not depend on its surroundings. -/
def advance : Option Seating :=
  match g.pc with
  | .retiring n =>
    if h : n < MAX_SEATS then
      if g.seats ⟨n, h⟩ = .leaving then some { g with pc := .freeing ⟨n, h⟩ }
      else some { g with pc := .retiring (n + 1) }
    else some { g with pc := .occupied 0 }
  | .freeing i => some { g with seats := update g.seats i .free, pc := .retiring (i + 1) }
  | .occupied n =>
    if h : n < MAX_SEATS then
      if g.seats ⟨n, h⟩ = .free then some { g with pc := .occupied (n + 1) }
      else some { g with pc := .preparing }
    else some { g with pc := .idle }
  | .idle => some { g with pc := if g.stopping then .stopped else .retiring 0 }
  | .preparing => some { g with pc := .building }
  | .building => some { g with pc := .top }
  | .top => some { g with pc := if g.stopping then .stopped else .admitting }
  | .admitting =>
    match g.queue with
    | [] => some { g with pc := .scanning 0 }
    | i :: rest => some { g with queue := rest, pc := .joining i }
  | .joining i =>
    -- a guest that gave up between claiming and being admitted is not
    some { g with pc := if g.seats i = .claimed then .promoting i else .admitting }
  | .promoting i => some { g with
      seats := update g.seats i .streaming
      roster := g.roster ++ [i]
      pc := .admitting }
  | .scanning n =>
    match g.roster[n]? with
    | none => some { g with pc := .passing }
    | some i => some { g with
        pc := if g.seats i = .leaving then .returning n else .scanning (n + 1) }
  | .returning n =>
    match g.roster[n]? with
    | none => none
    | some i => some { g with
        seats := update g.seats i .free
        roster := swapRemove g.roster n
        pc := .scanning n }
  | .passing => some { g with pc := .top }
  | .failed =>
    if g.previousOutput then some { g with previousOutput := false, pc := .retiring 0 }
    else if g.previous then some { g with previous := false, pc := .retiring 0 }
    else some { g with roster := [], pc := .retiring 0 }
  | .stopped => none

/-- A step of the stream thread. A pass with nobody in the roster has no exit. -/
def turn : Turn → Option Seating
  | .plain => g.advance
  | .requested =>
    if g.pc = .preparing then some { g with previousOutput := true, pc := .building } else none
  | .failed =>
    if g.pc = .building ∨ g.pc = .passing ∧ g.roster ≠ [] then some { g with pc := .failed } else none
  | .reconfigure =>
    if g.pc = .passing ∧ g.roster ≠ [] then
      some { g with previous := true, previousOutput := false, pc := .retiring 0 }
    else none
  | .rediscover =>
    if g.pc = .passing ∧ g.roster ≠ [] then
      some { g with previousOutput := false, pc := .retiring 0 }
    else none

def step (g : Seating) : Action → Option Seating
  | .arrive => some { g with guests := g.guests ++ [.scanning 0] }
  | .guest k => g.move k
  | .leave k => g.leave k
  | .stop => some { g with stopping := true }
  | .stream turn => g.turn turn

/-- A stream that has just been started. -/
def seating : Machine Seating Action where
  start := {
    seats := fun _ => .free
    queue := []
    roster := []
    pc := .retiring 0
    previous := false
    previousOutput := false
    stopping := false
    guests := [] }
  step := step

/-! ## What a step can do -/

variable {g} {g' : Seating}

/-- What a step of the stream thread can do. -/
inductive Turns (g : Seating) : Turn → Seating → Prop
  | past (i : Place) : g.pc = .retiring i → g.seats i ≠ .leaving →
      Turns g .plain { g with pc := .retiring (i + 1) }
  | seen (i : Place) : g.pc = .retiring i → g.seats i = .leaving →
      Turns g .plain { g with pc := .freeing i }
  | retired (n : ℕ) : g.pc = .retiring n → MAX_SEATS ≤ n → Turns g .plain { g with pc := .occupied 0 }
  | freed (i : Place) : g.pc = .freeing i →
      Turns g .plain { g with seats := update g.seats i .free, pc := .retiring (i + 1) }
  | vacant (i : Place) : g.pc = .occupied i → g.seats i = .free →
      Turns g .plain { g with pc := .occupied (i + 1) }
  | found (i : Place) : g.pc = .occupied i → g.seats i ≠ .free →
      Turns g .plain { g with pc := .preparing }
  | nobody (n : ℕ) : g.pc = .occupied n → MAX_SEATS ≤ n → Turns g .plain { g with pc := .idle }
  | waited : g.pc = .idle → g.stopping = false → Turns g .plain { g with pc := .retiring 0 }
  | quit : g.pc = .idle ∨ g.pc = .top → g.stopping = true → Turns g .plain { g with pc := .stopped }
  | prepared : g.pc = .preparing → Turns g .plain { g with pc := .building }
  | requested : g.pc = .preparing →
      Turns g .requested { g with previousOutput := true, pc := .building }
  | built : g.pc = .building → Turns g .plain { g with pc := .top }
  | broke : g.pc = .building ∨ g.pc = .passing ∧ g.roster ≠ [] →
      Turns g .failed { g with pc := .failed }
  | began : g.pc = .top → g.stopping = false → Turns g .plain { g with pc := .admitting }
  | received (i : Place) (rest : List Place) : g.pc = .admitting → g.queue = i :: rest →
      Turns g .plain { g with queue := rest, pc := .joining i }
  | drained : g.pc = .admitting → g.queue = [] → Turns g .plain { g with pc := .scanning 0 }
  | accepted (i : Place) : g.pc = .joining i → g.seats i = .claimed →
      Turns g .plain { g with pc := .promoting i }
  | skipped (i : Place) : g.pc = .joining i → g.seats i ≠ .claimed →
      Turns g .plain { g with pc := .admitting }
  | promoted (i : Place) : g.pc = .promoting i →
      Turns g .plain { g with
        seats := update g.seats i .streaming
        roster := g.roster ++ [i]
        pc := .admitting }
  | kept (n : ℕ) (i : Place) : g.pc = .scanning n → g.roster[n]? = some i → g.seats i ≠ .leaving →
      Turns g .plain { g with pc := .scanning (n + 1) }
  | noticed (n : ℕ) (i : Place) : g.pc = .scanning n → g.roster[n]? = some i →
      g.seats i = .leaving → Turns g .plain { g with pc := .returning n }
  | scanned (n : ℕ) : g.pc = .scanning n → g.roster[n]? = none → Turns g .plain { g with pc := .passing }
  | returned (n : ℕ) (i : Place) : g.pc = .returning n → g.roster[n]? = some i →
      Turns g .plain { g with
        seats := update g.seats i .free
        roster := swapRemove g.roster n
        pc := .scanning n }
  | again : g.pc = .passing → Turns g .plain { g with pc := .top }
  | rebuilt (turn : Turn) (previous : Bool) : g.pc = .passing → g.roster ≠ [] → turn ≠ .plain →
      Turns g turn { g with previous := previous, previousOutput := false, pc := .retiring 0 }
  | reverted (previous : Bool) : g.pc = .failed → g.previousOutput = true ∨ g.previous = true →
      Turns g .plain { g with previous := previous, previousOutput := false, pc := .retiring 0 }
  | reset : g.pc = .failed → g.previousOutput = false → g.previous = false →
      Turns g .plain { g with roster := [], pc := .retiring 0 }

theorem Turns.running {turn : Turn} (h : Turns g turn g') : g.pc ≠ .stopped := by
  intro hstop
  cases h <;> simp_all

theorem advance_turns (h : g.advance = some g') : Turns g .plain g' := by
  unfold advance at h
  split at h
  · next n hpc =>
    split_ifs at h with hn hl
    · cases h
      exact .seen ⟨n, hn⟩ hpc hl
    · cases h
      exact .past ⟨n, hn⟩ hpc hl
    · cases h
      exact .retired n hpc (Nat.le_of_not_lt hn)
  · next i hpc =>
    cases h
    exact .freed i hpc
  · next n hpc =>
    split_ifs at h with hn hf
    · cases h
      exact .vacant ⟨n, hn⟩ hpc hf
    · cases h
      exact .found ⟨n, hn⟩ hpc hf
    · cases h
      exact .nobody n hpc (Nat.le_of_not_lt hn)
  · next hpc =>
    split_ifs at h with hs
    · cases h
      exact .quit (.inl hpc) hs
    · cases h
      exact .waited hpc (Bool.eq_false_iff.mpr hs)
  · next hpc =>
    cases h
    exact .prepared hpc
  · next hpc =>
    cases h
    exact .built hpc
  · next hpc =>
    split_ifs at h with hs
    · cases h
      exact .quit (.inr hpc) hs
    · cases h
      exact .began hpc (Bool.eq_false_iff.mpr hs)
  · next hpc =>
    split at h
    · next hq =>
      cases h
      exact .drained hpc hq
    · next i rest hq =>
      cases h
      exact .received i rest hpc hq
  · next i hpc =>
    split_ifs at h with hc
    · cases h
      exact .accepted i hpc hc
    · cases h
      exact .skipped i hpc hc
  · next i hpc =>
    cases h
    exact .promoted i hpc
  · next n hpc =>
    split at h
    · next hr =>
      cases h
      exact .scanned n hpc hr
    · next i hr =>
      split_ifs at h with hl
      · cases h
        exact .noticed n i hpc hr hl
      · cases h
        exact .kept n i hpc hr hl
  · next n hpc =>
    split at h
    · cases h
    · next i hr =>
      cases h
      exact .returned n i hpc hr
  · next hpc =>
    cases h
    exact .again hpc
  · next hpc =>
    split_ifs at h with ho hp
    · cases h
      exact .reverted g.previous hpc (.inl ho)
    · cases h
      have ho' : g.previousOutput = false := Bool.eq_false_iff.mpr ho
      rw [ho']
      exact .reverted false hpc (.inr hp)
    · cases h
      exact .reset hpc (Bool.eq_false_iff.mpr ho) (Bool.eq_false_iff.mpr hp)
  · cases h

theorem turn_turns {turn : Turn} (h : g.turn turn = some g') : Turns g turn g' := by
  cases turn with
  | plain => exact advance_turns h
  | requested =>
    simp only [Seating.turn] at h
    split_ifs at h with hpc
    cases h
    exact .requested hpc
  | failed =>
    simp only [Seating.turn] at h
    split_ifs at h with hpc
    cases h
    exact .broke hpc
  | reconfigure =>
    simp only [Seating.turn] at h
    split_ifs at h with hpc
    cases h
    exact .rebuilt _ true hpc.1 hpc.2 (by decide)
  | rediscover =>
    simp only [Seating.turn] at h
    split_ifs at h with hpc
    cases h
    exact .rebuilt _ g.previous hpc.1 hpc.2 (by decide)

/-- What a step of a guest's thread can do. -/
inductive Moves (g : Seating) (k : ℕ) : Seating → Prop
  | claimed (i : Place) : g.guests[k]? = some (.scanning i) → g.seats i = .free →
      Moves g k { g with
        seats := update g.seats i .claimed
        guests := g.guests.set k (.sending i) }
  | wandered (t u : Taker) : g.guests[k]? = some t → t.seat = none → u.seat = none →
      Moves g k { g with guests := g.guests.set k u }
  | sent (i : Place) : g.guests[k]? = some (.sending i) → g.pc ≠ .stopped →
      Moves g k { g with queue := g.queue ++ [i], guests := g.guests.set k (.holding i) }
  | unsent (i : Place) : g.guests[k]? = some (.sending i) → g.pc = .stopped →
      Moves g k { g with guests := g.guests.set k (.refused i) }
  | gaveBack (i : Place) : g.guests[k]? = some (.refused i) →
      Moves g k { g with seats := update g.seats i .free, guests := g.guests.set k .gone }

theorem move_moves {k : ℕ} (h : g.move k = some g') : Moves g k g' := by
  unfold move at h
  split at h
  · next n hk =>
    split_ifs at h with hn hf
    · cases h
      exact .claimed ⟨n, hn⟩ hk hf
    · cases h
      exact .wandered _ _ hk rfl rfl
    · cases h
      exact .wandered _ _ hk rfl rfl
  · next i hk =>
    split_ifs at h with hs
    · cases h
      exact .unsent i hk hs
    · cases h
      exact .sent i hk hs
  · next i hk =>
    cases h
    exact .gaveBack i hk
  · cases h

theorem leave_leaves {k : ℕ} (h : g.leave k = some g') :
    ∃ i, g.guests[k]? = some (.holding i) ∧
      g' = { g with seats := update g.seats i .leaving, guests := g.guests.set k .gone } := by
  unfold leave at h
  split at h
  · next i hk =>
    cases h
    exact ⟨i, hk, rfl⟩
  · cases h

end Seating

end OpenStream.Host
