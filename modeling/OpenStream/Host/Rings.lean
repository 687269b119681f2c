import OpenStream.Host.Seating
import OpenStream.Host.Stream

/-!
# The rings of the seats

Each seat has a ring of pictures and a ring of sound. The stream thread pushes pictures to the seats
of its roster, the audio thread pushes sound to the seats that it has seen streaming, the guest with
the `SeatHold` pops both, and the stream thread empties both in `release`. Every push, every pop and
every load of the audio thread is a step of its own.

* `Rings`: the seats with their rings, over `Seating`; `ringing` is the machine. A seat's tenure is
  the number of times it has been claimed, and every item, every roster entry and every join is marked
  with the tenure in which it was made.
* `Rings.Clean`: what a guest finds was published for it, nobody empties a ring that is held, and no
  tenure has two entries or joins.
-/

namespace OpenStream.Host

open Function Runs

/-- Where `release` is: it empties the sound, then the pictures. -/
inductive Stage
  | audio
  | video
  deriving DecidableEq

/-- Where the audio thread is in `publish_audio`. -/
inductive Sound
  | idle
  /-- About to look at a seat, with the seats it has found streaming. -/
  | looking (n : ℕ) (picked : List Place)
  /-- About to push to the first of these seats. -/
  | pushing (picked : List Place)
  deriving DecidableEq

/-- The seats that the audio thread will push to. -/
def Sound.picked : Sound → List Place
  | .idle => []
  | .looking _ picked => picked
  | .pushing picked => picked

def Sound.picks (sound : Sound) (i : Place) : Bool := sound.picked.contains i

structure Rings where
  seating : Seating
  /-- The tenure in which each queued picture was pushed. -/
  video : Place → List ℕ
  /-- The tenure in which each queued packet of sound was pushed. -/
  audio : Place → List ℕ
  /-- How often a seat has been claimed. -/
  tenure : Place → ℕ
  /-- The tenure in which each entry of the roster was made. -/
  stamps : List ℕ
  /-- The tenure in which each join was sent. -/
  tickets : List ℕ
  /-- The seat that the stream thread is emptying. -/
  draining : Option (Place × Stage)
  sound : Sound

inductive RingAction
  | seat (a : Action)
  /-- The stream thread goes on in `release`. -/
  | drain
  /-- The stream thread pushes a picture to a seat of its roster. -/
  | deliver (i : Place)
  /-- A guest's thread pops a picture. -/
  | nextFrame (k : ℕ)
  /-- A guest's thread pops a packet of sound. -/
  | nextAudio (k : ℕ)
  /-- The audio thread goes on; `listens` is whether the seat it looks at wants this encoding. -/
  | sound (listens : Bool)
  deriving DecidableEq

namespace Rings

variable (s : Rings)

def push (depth : ℕ) (ring : Place → List ℕ) (i : Place) : Place → List ℕ :=
  if (ring i).length < depth then update ring i (ring i ++ [s.tenure i]) else ring

/-- What a step of the stream thread on the seats means for the rest. It empties a seat where it has
seen the guest leaving, and where a join turns out to be of no use. -/
def followed (g' : Seating) : Rings :=
  match s.seating.pc, g'.pc with
  | .retiring _, .freeing i => { s with seating := g', draining := some (i, .audio) }
  | .scanning _, .returning n => { s with
      seating := g'
      draining := g'.roster[n]?.map fun i => (i, .audio) }
  | .joining i, .admitting => { s with
      seating := g'
      tickets := s.tickets.tail
      draining := some (i, .audio) }
  | .promoting i, _ => { s with
      seating := g'
      tickets := s.tickets.tail
      stamps := s.stamps ++ [s.tenure i] }
  | .returning n, _ => { s with seating := g', stamps := swapRemove s.stamps n }
  | .failed, _ => { s with seating := g', stamps := if g'.roster = [] then [] else s.stamps }
  | _, _ => { s with seating := g' }

/-- What a step of a guest's thread in `take` means for the rest. -/
def taken (k : ℕ) (g' : Seating) : Rings :=
  match s.seating.guests[k]?, g'.guests[k]? with
  | some (.scanning _), some (.sending i) =>
    { s with seating := g', tenure := update s.tenure i (s.tenure i + 1) }
  | some (.sending _), some (.holding i) =>
    { s with seating := g', tickets := s.tickets ++ [s.tenure i] }
  | _, _ => { s with seating := g' }

def drain : Option Rings :=
  match s.draining with
  | none => none
  | some (i, .audio) =>
    match s.audio i with
    | [] => some { s with draining := some (i, .video) }
    | _ :: rest => some { s with audio := update s.audio i rest }
  | some (i, .video) =>
    match s.video i with
    | [] => some { s with draining := none }
    | _ :: rest => some { s with video := update s.video i rest }

def listen (listens : Bool) : Rings :=
  match s.sound with
  | .idle => { s with sound := .looking 0 [] }
  | .looking n picked =>
    if h : n < MAX_SEATS then
      if s.seating.seats ⟨n, h⟩ = .streaming ∧ listens then
        { s with sound := .looking (n + 1) (picked ++ [⟨n, h⟩]) }
      else { s with sound := .looking (n + 1) picked }
    else { s with sound := .pushing picked }
  | .pushing [] => { s with sound := .idle }
  | .pushing (i :: rest) =>
    { s with audio := s.push AUDIO_DEPTH s.audio i, sound := .pushing rest }

def step (s : Rings) : RingAction → Option Rings
  | .seat (.stream turn) =>
    if s.draining = none then (s.seating.step (.stream turn)).map s.followed else none
  | .seat (.guest k) => (s.seating.step (.guest k)).map (s.taken k)
  | .seat a => (s.seating.step a).map fun g' => { s with seating := g' }
  | .drain => s.drain
  | .deliver i =>
    if s.seating.pc = .passing ∧ s.seating.roster.contains i then
      some { s with video := s.push PUBLISH_DEPTH s.video i }
    else none
  | .nextFrame k =>
    match s.seating.guests[k]? with
    | some (.holding i) => some { s with video := update s.video i (s.video i).tail }
    | _ => none
  | .nextAudio k =>
    match s.seating.guests[k]? with
    | some (.holding i) => some { s with audio := update s.audio i (s.audio i).tail }
    | _ => none
  | .sound listens => some (s.listen listens)

/-- A stream that has just been started. -/
def ringing : Machine Rings RingAction where
  start := {
    seating := Seating.seating.start
    video := fun _ => []
    audio := fun _ => []
    tenure := fun _ => 0
    stamps := []
    tickets := []
    draining := none
    sound := .idle }
  step := step

/-- The tenures that the entries of the roster and the joins still to be dealt with stand for. -/
def occupations : List (Place × ℕ) :=
  s.seating.roster.zip s.stamps ++ s.seating.joins.zip s.tickets

/-- **What a guest may rely on.** -/
structure Clean (s : Rings) : Prop where
  /-- What a guest can pop was published after it took the seat. -/
  fresh : ∀ (k : ℕ) (i : Place), s.seating.guests[k]? = some (Taker.holding i) →
    ∀ x, x ∈ s.video i ∨ x ∈ s.audio i → x = s.tenure i
  /-- Nobody else pops the rings of a seat that is held. -/
  alone : ∀ (k : ℕ) (i : Place), s.seating.guests[k]? = some (Taker.holding i) →
    ∀ stage, s.draining ≠ some (i, stage)
  /-- No tenure has two entries or joins. -/
  once : s.occupations.Nodup

end Rings

end OpenStream.Host
