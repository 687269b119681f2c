import OpenStream.Host.Gate
import OpenStream.Lib.Runs

/-!
# The encode thread and the guest threads

The encode thread collects finished pictures, asks the gate who takes each and publishes it to their
rings; each guest's thread takes pictures from its ring and hands them to its session. The pool the
pictures lie in is left out: a ring holds the picture itself, and whether a pool slot is free is
part of the action. The guests are seated throughout, the `i`-th guest in seat `i`.

* `Stream.tickRate`: the pass over every guest that takes the losses reported.
* `Stream.nextFrame`, `Stream.sendFrame`: one turn of `send_frames`, cut between taking a frame and
  what the session makes of it, for the encode thread runs in between.
-/

namespace OpenStream.Host

/-- Pictures a seat's ring holds. -/
def PUBLISH_DEPTH : ℕ := 2

/-- Sound packets a seat's ring holds. -/
def AUDIO_DEPTH : ℕ := 5

/-- The body of a fragment: `DEFAULT_DATAGRAM` less the envelope and the packet header. -/
def FRAGMENT_BODY : ℕ := 1229 - 29 - 7

def VIDEO_HEADER_LEN : ℕ := 10

def LENGTH_PREFIX_LEN : ℕ := 4

def maxFrameBytes : ℕ := 4000 * FRAGMENT_BODY - LENGTH_PREFIX_LEN - VIDEO_HEADER_LEN

def fragmentsFor (len : ℕ) : ℕ :=
  (len + VIDEO_HEADER_LEN + LENGTH_PREFIX_LEN + FRAGMENT_BODY - 1) / FRAGMENT_BODY

/-- An encoded frame: its place in the order of encoding and whether it depends on nothing. -/
structure Frame where
  position : ℕ
  keyframe : Bool
  deriving DecidableEq

structure Seat where
  ring : List Frame
  window : ℕ
  /-- Frames this guest lost after the gate had admitted them. -/
  missed : UInt32
  deriving DecidableEq

/-- One guest's thread: the frame it holds, and those its session has accepted. -/
structure Sender where
  claimed : Option Frame
  accepted : List Frame
  deriving DecidableEq

/-- What becomes of a frame a guest's thread holds. -/
inductive Outcome
  | noHeader
  | refused
  | accepted
  deriving DecidableEq

/-- A host that streams to `n` seats. -/
structure Stream (n : ℕ) (F : Type) where
  gate : Gate F
  guests : Fin n → Guest
  seats : Fin n → Seat
  senders : Fin n → Sender
  /-- The number of frames the encoder has finished. -/
  encoded : ℕ

inductive Act (n : ℕ) (F : Type)
  /-- The encoder finished a frame of `len` bytes; `starved`: no pool slot is free for it. -/
  | collect (len : ℕ) (keyframe starved : Bool) (nowMs : F)
  | tickRate
  | setRate (rateMbps : F)
  | nextFrame (i : Fin n)
  | sendFrame (i : Fin n) (outcome : Outcome)
  /-- The guest's thread publishes how many fragments its session has outstanding. -/
  | window (i : Fin n) (fragments : ℕ)

variable {n : ℕ} {F : Type} [F64 F]

def Seat.push (seat : Seat) (frame : Frame) : Seat × Bool :=
  if PUBLISH_DEPTH ≤ seat.ring.length then (seat, false)
  else ({ seat with ring := seat.ring ++ [frame] }, true)

namespace Stream

variable (s : Stream n F)

def deliver (picked : Fin n → Bool) (frame : Frame) : Stream n F :=
  { s with
    seats := fun i => if picked i then ((s.seats i).push frame).1 else s.seats i
    guests := fun i =>
      if picked i && !((s.seats i).push frame).2 then (s.guests i).markSkipping else s.guests i }

/-- The frame is dropped for every guest, and a refresh is asked for. -/
def dropForAll (nowMs : F) : Stream n F :=
  { s with gate := (s.gate.requestKeyframe nowMs).1
           guests := fun i => (s.guests i).markSkipping
           encoded := s.encoded + 1 }

def collect (len : ℕ) (keyframe starved : Bool) (nowMs : F) : Stream n F :=
  if starved then s.dropForAll nowMs
  else if maxFrameBytes < len then s.dropForAll nowMs
  else
    let ((gate, _), guests, picked) := s.gate.admitFrame (fragmentsFor len) keyframe nowMs s.guests
    { s with gate, guests, encoded := s.encoded + 1 }.deliver picked ⟨s.encoded, keyframe⟩

/-- One pass of the controller over every guest. -/
def tickRate : Stream n F :=
  { s with
    guests := fun i =>
      let guest := (s.guests i).setOutstanding (s.seats i).window
      if (s.seats i).missed ≠ 0 then guest.markSkipping else guest
    seats := fun i => { s.seats i with missed := 0 } }

def nextFrame (i : Fin n) : Option (Stream n F) :=
  match (s.senders i).claimed, (s.seats i).ring with
  | none, frame :: ring => some { s with
      seats := Function.update s.seats i { s.seats i with ring }
      senders := Function.update s.senders i { s.senders i with claimed := some frame } }
  | _, _ => none

def missedFrame (i : Fin n) : Stream n F :=
  { s with seats := Function.update s.seats i { s.seats i with missed := (s.seats i).missed + 1 } }

/-- Hand the frame held to the session. -/
def sendFrame (i : Fin n) (outcome : Outcome) : Option (Stream n F) :=
  (s.senders i).claimed.map fun frame =>
    let idle := { s with
      senders := Function.update s.senders i { s.senders i with claimed := none } }
    match outcome with
    | .noHeader => idle.missedFrame i
    | .refused => idle.missedFrame i
    | .accepted => { s with
        senders := Function.update s.senders i ⟨none, (s.senders i).accepted ++ [frame]⟩ }

def step (s : Stream n F) : Act n F → Option (Stream n F)
  | .collect len keyframe starved nowMs => some (s.collect len keyframe starved nowMs)
  | .tickRate => some s.tickRate
  | .setRate rateMbps => some { s with guests := fun i => (s.guests i).setRate rateMbps }
  | .nextFrame i => s.nextFrame i
  | .sendFrame i outcome => s.sendFrame i outcome
  | .window i fragments => some { s with
      seats := Function.update s.seats i { s.seats i with window := fragments } }

end Stream

def stream (n : ℕ) (rateMbps : F) : Runs.Machine (Stream n F) (Act n F) where
  start := ⟨.new, fun _ => .joining rateMbps, fun _ => ⟨[], 0, 0⟩, fun _ => ⟨none, []⟩, 0⟩
  step := Stream.step

end OpenStream.Host
