import OpenStream.Lib.Runs
import OpenStream.Lowlat.Session

/-!
# One channel, from its sender to its receiver

A send ring and a session joined by a network that loses, duplicates and reorders: everything ever
put on the wire stays in a list, and a delivery picks any member of it at any time.

* `Link`: both ends, the two wires, and three histories no step reads: the messages queued, the
  sequences the receiver's ring accepted and the messages its reader took.
* `Act`, `Link.step`, `link`: every operation of either end as an action; `Link.Moves` lists the ways
  each can end.
* `Link.log`: the fragment bodies in the order of their sequence numbers.
-/

namespace OpenStream.Lowlat

open Bytes

structure Setup where
  channel : Channel
  storageLen : ℕ
  fragmentCapacity : ℕ
  slotLen : ℕ
  capacity_pos : 0 < fragmentCapacity
  capacity_le : fragmentCapacity ≤ storageLen
  capacity_lt : fragmentCapacity ≤ 2 ^ 16 - 1
  /-- A receiver's slot holds a fragment of the sender's capacity. -/
  capacity_le_slotLen : fragmentCapacity ≤ slotLen

def Setup.small : Setup where
  channel := 1
  storageLen := 16
  fragmentCapacity := 16
  slotLen := 16
  capacity_pos := by decide
  capacity_le := by decide
  capacity_lt := by decide
  capacity_le_slotLen := by decide

/-- Both ends of a channel, the wires between them and the histories. -/
structure Link (n : ℕ) (F : Type) where
  sender : SendRing n F
  receiver : RecvHalf n F
  dataWire : List Data
  ackWire : List Ack
  queued : List (Message × ℕ)
  /-- The sequences for which `store` answered `Accepted`. -/
  stored : List UInt32
  /-- The `Ok` results of `take_message`. -/
  taken : List Str

/-- An operation of either end, or a delivery. -/
inductive Act (F : Type)
  | enqueue (message : Message)
  | setFragmentCapacity (capacity : ℕ)
  | beginPass
  | pollSend (nowMs srttMs : F) (levelIndex outLen : ℕ)
  | deliverAck (i : ℕ) (nowMs : F)
  | deliverData (i : ℕ)
  /-- A data packet of another channel reaches the receiver. -/
  | otherData (data : Data)
  | poll (nowMs : F)
  | getOutput (nowMs : F) (sealed : Bool)
  | takeMessage (outLen : ℕ)

section

variable {n : ℕ} [NeZero n] {F : Type} [F64 F]

/-- The sequence a session's answer says was accepted. -/
def Inbound.accepted (data : Data) : Except Error Inbound → List UInt32
  | .ok (.data _ .accepted) => [data.seq]
  | _ => []

namespace Link

def log (s : Link n F) : List Str := s.queued.flatMap fun m => m.1.fragments m.2

def contents (s : Link n F) : List Str := s.queued.map fun m => m.1.content

def receive (s : Link n F) (data : Data) : Link n F :=
  let (receiver, result) := s.receiver.processData data
  { s with receiver, stored := s.stored ++ Inbound.accepted data result }

/-- One action. `none` where it is not enabled: a delivery of something never sent, another
channel's packet on this channel, a capacity the receiver's slots do not hold. -/
def step (p : Setup) (s : Link n F) : Act F → Option (Link n F)
  | .enqueue message =>
    match s.sender.enqueue message with
    | (sender, .ok _) =>
      some { s with sender, queued := s.queued ++ [(message, s.sender.fragmentCapacity)] }
    | (sender, .error _) => some { s with sender }
  | .setFragmentCapacity capacity =>
    if capacity ≤ p.slotLen then
      some { s with sender := (s.sender.setFragmentCapacity capacity).1 }
    else none
  | .beginPass => some { s with sender := s.sender.beginPass }
  | .pollSend nowMs srttMs levelIndex outLen =>
    match s.sender.pollSend nowMs srttMs levelIndex outLen with
    | (sender, some (.ok data)) => some { s with sender, dataWire := s.dataWire ++ [data] }
    | (sender, _) => some { s with sender }
  | .deliverAck i nowMs => do
    let ack ← s.ackWire[i]?
    some { s with sender := (s.sender.onAck ack nowMs).1 }
  | .deliverData i => do
    let data ← s.dataWire[i]?
    some (s.receive data)
  | .otherData data =>
    if data.channel ≠ p.channel then some { s with receiver := (s.receiver.processData data).1 }
    else none
  | .poll nowMs => some { s with receiver := s.receiver.poll nowMs }
  | .getOutput nowMs sealed =>
    match s.receiver.getOutput nowMs sealed with
    | (receiver, some ack) => some { s with receiver, ackWire := s.ackWire ++ [ack] }
    | (receiver, none) => some { s with receiver }
  | .takeMessage outLen =>
    match s.receiver.takeMessage p.channel outLen with
    | (receiver, some (.ok bytes)) => some { s with receiver, taken := s.taken ++ [bytes] }
    | (receiver, _) => some { s with receiver }

/-- What an action can do, one case for each way it can end. -/
inductive Moves (p : Setup) (s : Link n F) : Act F → Link n F → Prop
  | queued {m : Message} {k : ℕ} (h : (s.sender.enqueue m).2 = .ok k) :
    Moves p s (.enqueue m) { s with
      sender := (s.sender.enqueue m).1, queued := s.queued ++ [(m, s.sender.fragmentCapacity)] }
  | refused {m : Message} {e : Error} (h : (s.sender.enqueue m).2 = .error e) :
    Moves p s (.enqueue m) { s with sender := (s.sender.enqueue m).1 }
  | capacity {c : ℕ} (h : c ≤ p.slotLen) :
    Moves p s (.setFragmentCapacity c) { s with sender := (s.sender.setFragmentCapacity c).1 }
  | pass : Moves p s .beginPass { s with sender := s.sender.beginPass }
  | emitted {nowMs srttMs : F} {levelIndex outLen : ℕ} {d : Data}
    (h : (s.sender.pollSend nowMs srttMs levelIndex outLen).2 = some (.ok d)) :
    Moves p s (.pollSend nowMs srttMs levelIndex outLen) { s with
      sender := (s.sender.pollSend nowMs srttMs levelIndex outLen).1
      dataWire := s.dataWire ++ [d] }
  | scanned {nowMs srttMs : F} {levelIndex outLen : ℕ} :
    Moves p s (.pollSend nowMs srttMs levelIndex outLen)
      { s with sender := (s.sender.pollSend nowMs srttMs levelIndex outLen).1 }
  | acked {i : ℕ} {a : Ack} {nowMs : F} (hi : s.ackWire[i]? = some a) :
    Moves p s (.deliverAck i nowMs) { s with sender := (s.sender.onAck a nowMs).1 }
  | received {i : ℕ} {d : Data} (hi : s.dataWire[i]? = some d) :
    Moves p s (.deliverData i) (s.receive d)
  | other {d : Data} (h : d.channel ≠ p.channel) :
    Moves p s (.otherData d) { s with receiver := (s.receiver.processData d).1 }
  | polled {nowMs : F} : Moves p s (.poll nowMs) { s with receiver := s.receiver.poll nowMs }
  | answered {nowMs : F} {sealed : Bool} {a : Ack}
    (h : (s.receiver.getOutput nowMs sealed).2 = some a) :
    Moves p s (.getOutput nowMs sealed) { s with
      receiver := (s.receiver.getOutput nowMs sealed).1, ackWire := s.ackWire ++ [a] }
  | silent {nowMs : F} {sealed : Bool} :
    Moves p s (.getOutput nowMs sealed)
      { s with receiver := (s.receiver.getOutput nowMs sealed).1 }
  | took {outLen : ℕ} {bytes : Str}
    (h : (s.receiver.takeMessage p.channel outLen).2 = some (.ok bytes)) :
    Moves p s (.takeMessage outLen) { s with
      receiver := (s.receiver.takeMessage p.channel outLen).1, taken := s.taken ++ [bytes] }
  | waited {outLen : ℕ}
    (h : ∀ bytes, (s.receiver.takeMessage p.channel outLen).2 ≠ some (.ok bytes)) :
    Moves p s (.takeMessage outLen)
      { s with receiver := (s.receiver.takeMessage p.channel outLen).1 }

theorem moves_of_step {p : Setup} {s s' : Link n F} {a : Act F} (h : step p s a = some s') :
    Moves p s a s' := by
  cases a with
  | enqueue m =>
    simp only [step] at h
    split at h
    · rename_i x k hx
      cases h
      have := Moves.queued (p := p) (congrArg Prod.snd hx)
      rwa [hx] at this
    · rename_i x e hx
      cases h
      have := Moves.refused (p := p) (congrArg Prod.snd hx)
      rwa [hx] at this
  | setFragmentCapacity c =>
    simp only [step] at h
    split_ifs at h with hc
    cases h
    exact .capacity hc
  | beginPass =>
    cases h
    exact .pass
  | pollSend nowMs srttMs levelIndex outLen =>
    simp only [step] at h
    split at h
    · rename_i x d hx
      cases h
      have := Moves.emitted (p := p) (congrArg Prod.snd hx)
      rwa [hx] at this
    · rename_i x _ _ hx
      cases h
      have : Moves p s (.pollSend nowMs srttMs levelIndex outLen)
        { s with sender := (s.sender.pollSend nowMs srttMs levelIndex outLen).1 } := .scanned
      rwa [hx] at this
  | deliverAck i nowMs =>
    simp only [step, Option.bind_eq_bind, Option.bind_eq_some_iff] at h
    obtain ⟨a, ha, h⟩ := h
    cases h
    exact .acked ha
  | deliverData i =>
    simp only [step, Option.bind_eq_bind, Option.bind_eq_some_iff] at h
    obtain ⟨d, hd, h⟩ := h
    cases h
    exact .received hd
  | otherData d =>
    simp only [step] at h
    split_ifs at h with hd
    cases h
    exact .other hd
  | poll nowMs =>
    cases h
    exact .polled
  | getOutput nowMs sealed =>
    simp only [step] at h
    split at h
    · rename_i x a hx
      cases h
      have := Moves.answered (p := p) (congrArg Prod.snd hx)
      rwa [hx] at this
    · rename_i x hx
      cases h
      have : Moves p s (.getOutput nowMs sealed)
        { s with receiver := (s.receiver.getOutput nowMs sealed).1 } := .silent
      rwa [hx] at this
  | takeMessage outLen =>
    simp only [step] at h
    split at h
    · rename_i x bytes hx
      cases h
      have := Moves.took (p := p) (congrArg Prod.snd hx)
      rwa [hx] at this
    · rename_i x res hne hx
      cases h
      have : Moves p s (.takeMessage outLen)
          { s with receiver := (s.receiver.takeMessage p.channel outLen).1 } :=
        .waited fun bytes hb => hne bytes ((congrArg Prod.snd hx).symm.trans hb)
      rwa [hx] at this

end Link

def Setup.start (p : Setup) (others : Channel → Option (RecvRing n)) (nowMs : F) : Link n F :=
  { sender := SendRing.fresh p.storageLen p.fragmentCapacity p.channel
    receiver := RecvHalf.new
      (Function.update others p.channel (some (RecvRing.fresh p.slotLen))) nowMs
    dataWire := []
    ackWire := []
    queued := []
    stored := []
    taken := [] }

/-- The two ends and their network as a machine. -/
def link (p : Setup) (others : Channel → Option (RecvRing n)) (nowMs : F) :
    Runs.Machine (Link n F) (Act F) where
  start := p.start others nowMs
  step := Link.step p

end

end OpenStream.Lowlat
