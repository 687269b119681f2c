import Mathlib.Data.List.Basic
import Mathlib.Logic.Function.Basic
import Mathlib.Tactic.Ring

/-!
# A session of the signal server: sockets and the establishment epoch

A session joins a host and a client. Each has at most one current socket, numbered by a generation;
once both are there the server publishes an establishment epoch to both and forwards establishment
records of that epoch between them.

* `Net`: the bounded outbound queues, with a log of everything ever queued.

Instants are milliseconds. The cancellation channels are left out: what they do is end a socket's
task, which a task may do at any time. A bearer token is drawn with the identifier it belongs to,
and one number stands for both.
-/

namespace OpenStream.Signal

def U64 : ℕ := 2 ^ 64

def MAX_PENDING_MESSAGES : ℕ := 128

def MAX_OUTBOUND_MESSAGES : ℕ := MAX_PENDING_MESSAGES + 3

def MAX_PENDING_BYTES : ℕ := 1024 * 1024

inductive PrimaryRole
  | host
  | client
  deriving DecidableEq

def PrimaryRole.opposite : PrimaryRole → PrimaryRole
  | .host => .client
  | .client => .host

/-- The two families of establishment messages: direct and ICE. -/
inductive Family
  | direct
  | ice
  deriving DecidableEq

inductive ResetReason
  | deliveryFailed
  | roleReplaced
  | peerDisconnected
  deriving DecidableEq

/-- A message a socket sends, once validated: a record of an establishment epoch, or one that
belongs to none. -/
inductive Envelope
  | record (family : Family) (generation len : ℕ)
  | path (len : ℕ)
  deriving DecidableEq

namespace Envelope

/-- Wire bytes a queued message holds. -/
def messageLen : Envelope → ℕ
  | .record _ _ len => len
  | .path len => len

def isEstablishmentMessage : Envelope → Bool
  | .record .. => true
  | .path _ => false

/-- `direct_message_generation`, or else `ice_message_generation`. -/
def generation : Envelope → Option ℕ
  | .record _ g _ => some g
  | .path _ => none

end Envelope

inductive Message
  | signal (m : Envelope)
  | relayProof (socketGeneration proof : ℕ)
  | ready (family : Family) (generation : ℕ)
  | reset (family : Family) (generation : ℕ) (reason : ResetReason)
  | parked
  | promoted
  | close
  /-- Pings, pongs and error replies. -/
  | service
  deriving DecidableEq

/-! ## Outbound queues -/

/-- A message was queued to a channel, in the turn of an action. -/
structure Entry where
  turn : ℕ
  channel : ℕ
  message : Message
  deriving DecidableEq

/-- Every channel: what was queued, how much of it the writer has taken, whether the writer is
gone. -/
structure Net where
  log : List Entry
  taken : ℕ → ℕ
  closed : ℕ → Bool
  turn : ℕ

namespace Net

variable (net : Net)

def queued (channel : ℕ) : ℕ := net.log.countP fun e => e.channel = channel

def hasRoom (channel : ℕ) : Bool :=
  !net.closed channel && net.queued channel < net.taken channel + MAX_OUTBOUND_MESSAGES

/-- Queue a message, unless the queue is full or its reader gone. -/
def trySend (channel : ℕ) (m : Message) : Net × Bool :=
  if net.hasRoom channel then ({ net with log := net.log ++ [⟨net.turn, channel, m⟩] }, true)
  else (net, false)

/-- Two messages, the second only after the first. -/
def trySendBoth (channel : ℕ) (m m' : Message) : Net × Bool :=
  if (net.trySend channel m).2 then (net.trySend channel m).1.trySend channel m'
  else ((net.trySend channel m).1, false)

def closeSender (channel : ℕ) : Net := (net.trySend channel .close).1

def closeOld : Option ℕ → Net
  | some channel => net.closeSender channel
  | none => net

/-- The compensation of a socket that took readiness its peer did not. -/
def compensate (channel generation : ℕ) : Net :=
  let (net, ok) := net.trySendBoth channel (.reset .direct generation .deliveryFailed)
    (.reset .ice generation .deliveryFailed)
  let net := if ok then net else net.closeSender channel
  net.closeSender channel

end Net

/-! ## The session -/

inductive Owner
  | primary (role : PrimaryRole)
  | guest (id : ℕ)
  deriving DecidableEq

structure Ticket where
  cls : PrimaryRole
  subject : Owner
  socketGeneration : ℕ
  proofDigest : Option ℕ
  deriving DecidableEq

structure RelaySlot where
  addr : ℕ
  owner : Owner
  socketGeneration : ℕ
  ticketDigest : Ticket
  lastSeen : ℕ
  windowStarted : ℕ
  windowBytes : ℕ
  windowPackets : ℕ
  deriving DecidableEq

/-- One role's current socket, and what waits for its next one. -/
structure Endpoint where
  sender : Option ℕ
  generation : ℕ
  relayProof : Option ℕ
  pending : List Envelope
  pendingBytes : ℕ
  deriving DecidableEq

structure Guest where
  id : ℕ
  input : Bool
  sender : Option ℕ
  pending : List Envelope
  pendingBytes : ℕ
  active : Bool
  generation : ℕ
  relayProof : Option ℕ
  deriving DecidableEq

structure ReadyPair where
  establishmentGeneration : ℕ
  socket : PrimaryRole → ℕ

/-- Two primaries, guests and relay slots. -/
structure Session where
  expiresAt : ℕ
  endpoint : PrimaryRole → Endpoint
  establishmentGeneration : ℕ
  readyPair : Option ReadyPair
  relay : PrimaryRole → Option RelaySlot
  guests : List Guest
  maxGuests : ℕ

inductive ReadinessError
  | counterExhausted
  | deliveryFailed
  deriving DecidableEq

inductive AdmissionError
  | socketGenerationExhausted
  | readiness (e : ReadinessError)
  deriving DecidableEq

inductive DirectRoute
  | forward (channel : ℕ)
  | dropStale
  | notReady
  | future
  | staleSocket
  deriving DecidableEq

inductive Role
  | primary (role : PrimaryRole)
  | guest (id : ℕ)
  deriving DecidableEq

namespace Session

def new (expiresAt maxGuests : ℕ) : Session where
  expiresAt := expiresAt
  endpoint := fun _ => ⟨none, 0, none, [], 0⟩
  establishmentGeneration := 0
  readyPair := none
  relay := fun _ => none
  guests := []
  maxGuests := maxGuests

variable (s : Session) (net : Net)

def sender (role : PrimaryRole) : Option ℕ := (s.endpoint role).sender

def setEndpoint (role : PrimaryRole) (e : Endpoint) : Session :=
  { s with endpoint := Function.update s.endpoint role e }

def clearRelayOwner (owner : Owner) : Session :=
  { s with relay := fun role => (s.relay role).filter fun slot => slot.owner ≠ owner }

def pruneDirectQueue (pending : List Envelope) : List Envelope :=
  pending.filter fun m => !m.isEstablishmentMessage

def bytesOf (pending : List Envelope) : ℕ := (pending.map Envelope.messageLen).sum

def pruneDirectEstablishmentMessages : Session :=
  { s with
    endpoint := fun role =>
      { s.endpoint role with
        pending := pruneDirectQueue (s.endpoint role).pending
        pendingBytes := bytesOf (pruneDirectQueue (s.endpoint role).pending) }
    guests := s.guests.map fun g =>
      { g with pending := pruneDirectQueue g.pending
               pendingBytes := bytesOf (pruneDirectQueue g.pending) } }

def withoutPair : Session :=
  let s := { s with
    endpoint := fun role => { s.endpoint role with sender := none, relayProof := none }
    readyPair := none }
  (s.clearRelayOwner (.primary .host)).clearRelayOwner (.primary .client)

/-- Remove and close both primary senders, and revoke both primary relay registrations. -/
def closePrimaryPair : Session × Net :=
  (s.withoutPair, (net.closeOld (s.sender .host)).closeOld (s.sender .client))

def expirePrimaryPair (now : ℕ) : Session × Net :=
  ({ s.withoutPair with expiresAt := now }, (s.closePrimaryPair net).2)

/-- The two enqueues of a publication, and what follows from them. -/
def announce (host client generation : ℕ) : Session × Net × Except ReadinessError ℕ :=
  let (net, acceptedHost) := net.trySendBoth host (.ready .direct generation) (.ready .ice generation)
  let (net, acceptedClient) :=
    net.trySendBoth client (.ready .direct generation) (.ready .ice generation)
  if acceptedHost && acceptedClient then
    ({ s with readyPair := some ⟨generation, fun role => (s.endpoint role).generation⟩ }, net,
      .ok generation)
  else
    let net := if acceptedHost then net.compensate host generation else net
    let net := if acceptedClient then net.compensate client generation else net
    let (s, net) := s.closePrimaryPair net
    (s, net, .error .deliveryFailed)

/-- Publish one epoch to the current host and client sockets. The generation is reserved before the
enqueues, so a failure burns it. -/
def publishReady (now : ℕ) : Session × Net × Except ReadinessError ℕ :=
  match s.sender .host, s.sender .client with
  | some host, some client =>
    if s.establishmentGeneration + 1 < U64 then
      let generation := s.establishmentGeneration + 1
      let s := { s with establishmentGeneration := generation, readyPair := none }
      s.pruneDirectEstablishmentMessages.announce net host client generation
    else
      let (s, net) := s.expirePrimaryPair net now
      (s, net, .error .counterExhausted)
  | _, _ =>
    let (s, net) := s.closePrimaryPair net
    (s, net, .error .deliveryFailed)

def invalidateReadyEpoch (reason : ResetReason) (survivor : Option PrimaryRole) :
    Session × Net × Except ReadinessError Unit :=
  match s.readyPair with
  | none => (s.pruneDirectEstablishmentMessages, net, .ok ())
  | some previous =>
    let s := { s with readyPair := none }.pruneDirectEstablishmentMessages
    match survivor.bind s.sender with
    | none => (s, net, .ok ())
    | some channel =>
      let (net, ok) :=
        net.trySendBoth channel (.reset .direct previous.establishmentGeneration reason)
          (.reset .ice previous.establishmentGeneration reason)
      if ok then (s, net, .ok ())
      else
        let (s, net) := s.closePrimaryPair net
        (s, net, .error .deliveryFailed)

def drainInto : List Envelope → Net → ℕ → List Envelope × Net × Bool
  | [], net, _ => ([], net, true)
  | m :: pending, net, channel =>
    if (net.trySend channel (.signal m)).2 then
      drainInto pending (net.trySend channel (.signal m)).1 channel
    else (m :: pending, (net.trySend channel (.signal m)).1, false)

def install (role : PrimaryRole) (channel proof : ℕ) : Session × Net :=
  let s := s.clearRelayOwner (.primary role)
  let e := s.endpoint role
  (s.setEndpoint role
    { e with sender := some channel, generation := e.generation + 1, relayProof := some proof },
    net.closeOld e.sender)

def refuse : Session × Net × Except AdmissionError ℕ :=
  (s.withoutPair, (s.closePrimaryPair net).2, .error (.readiness .deliveryFailed))

def setPending (role : PrimaryRole) (pending : List Envelope) (pendingBytes : ℕ) : Session :=
  s.setEndpoint role { s.endpoint role with pending, pendingBytes }

def complete (role : PrimaryRole) (now : ℕ) : Session × Net × Except AdmissionError ℕ :=
  if (s.sender .host).isSome && (s.sender .client).isSome then
    ((s.publishReady net now).1, (s.publishReady net now).2.1,
      match (s.publishReady net now).2.2 with
      | .ok _ => .ok (s.endpoint role).generation
      | .error err => .error (.readiness err))
  else (s, net, .ok (s.endpoint role).generation)

def catchUp (role : PrimaryRole) (channel now : ℕ) : Session × Net × Except AdmissionError ℕ :=
  let (pending, net, drained) := drainInto (s.endpoint role).pending net channel
  if drained then (s.setPending role pending 0).complete net role now
  else (s.setPending role pending (bytesOf pending)).refuse net

/-- The relay proof is queued, then the pending messages, then readiness. -/
def greet (role : PrimaryRole) (channel proof now : ℕ) : Session × Net × Except AdmissionError ℕ :=
  let (net, sent) := net.trySend channel (.relayProof (s.endpoint role).generation proof)
  if sent then s.catchUp net role channel now else s.refuse net

/-- A replaced socket ends the epoch; a missing one leaves only stale queues. -/
def replaceEpoch (role : PrimaryRole) : Session × Net × Except ReadinessError Unit :=
  if (s.sender role).isSome then s.invalidateReadyEpoch net .roleReplaced (some role.opposite)
  else (s.pruneDirectEstablishmentMessages, net, .ok ())

/-- Install a current host or client sender and, when the pair is complete, publish the next
epoch. -/
def admitPrimarySocket (role : PrimaryRole) (channel proof now : ℕ) :
    Session × Net × Except AdmissionError ℕ :=
  if (s.endpoint role).generation + 1 < U64 then
    match s.replaceEpoch net role with
    | (s, net, .error err) => (s, net, .error (.readiness err))
    | (s, net, .ok _) =>
      let (s, net) := s.install net role channel proof
      s.greet net role channel proof now
  else
    let (s, net) := s.expirePrimaryPair net now
    (s, net, .error .socketGenerationExhausted)

def survivor : Option PrimaryRole :=
  if (s.sender .host).isSome then some .host
  else if (s.sender .client).isSome then some .client
  else none

def cleanupPrimarySocket (role : PrimaryRole) (generation : ℕ) : Session × Net × Bool :=
  if (s.endpoint role).generation ≠ generation then (s, net, false)
  else
    let s := s.setEndpoint role { s.endpoint role with sender := none, relayProof := none }
    let (s, net, _) := s.invalidateReadyEpoch net .peerDisconnected s.survivor
    (s, net, true)

/-- Whether a task still owns the sender published for its role. -/
def roleSocketIsCurrent (role : Role) (generation channel : ℕ) : Bool :=
  match role with
  | .primary role =>
    (s.endpoint role).generation = generation && (s.endpoint role).sender = some channel
  | .guest id => s.guests.any fun g =>
    g.id = id && g.generation = generation && g.sender = some channel

def directMessageRoute (role : PrimaryRole) (socketGeneration establishmentGeneration : ℕ) :
    DirectRoute :=
  if (s.endpoint role).generation ≠ socketGeneration then .staleSocket
  else
    match s.readyPair with
    | none => .notReady
    | some ready =>
      if ready.socket role ≠ socketGeneration then .staleSocket
      else if establishmentGeneration < ready.establishmentGeneration then .dropStale
      else if ready.establishmentGeneration < establishmentGeneration then .future
      else
        match s.sender role.opposite with
        | some channel => .forward channel
        | none => .notReady

/-- Forward an establishment record; guests have no part in establishment. -/
def dispatchDirect (role : Role) (socketGeneration : ℕ) (m : Envelope) (generation : ℕ) : Net :=
  match role with
  | .guest _ => net
  | .primary role =>
    match s.directMessageRoute role socketGeneration generation with
    | .forward channel => (net.trySend channel (.signal m)).1
    | _ => net

/-- Queue one message for a peer that is not connected; past the bounds the new one is dropped. -/
def queuePending (pending : List Envelope) (bytes : ℕ) (m : Envelope) : List Envelope × ℕ :=
  if m.isEstablishmentMessage then (pending, bytes)
  else if MAX_PENDING_MESSAGES ≤ pending.length || MAX_PENDING_BYTES < bytes + m.messageLen then
    (pending, bytes)
  else (pending ++ [m], bytes + m.messageLen)

def peersOf : Role → List ℕ
  | .primary .host =>
    (s.sender .client).toList ++ ((s.guests.find? (·.active)).bind Guest.sender).toList
  | _ => (s.sender .host).toList

def queueAt (role : PrimaryRole) (m : Envelope) : Session :=
  let (pending, pendingBytes) :=
    queuePending (s.endpoint role).pending (s.endpoint role).pendingBytes m
  s.setPending role pending pendingBytes

def modifyFirst (p : Guest → Bool) (f : Guest → Guest) : List Guest → List Guest
  | [] => []
  | g :: guests => if p g then f g :: guests else g :: modifyFirst p f guests

/-- A message without a peer waits where the peer will be. -/
def queueFor (role : Role) (m : Envelope) : Session :=
  match role with
  | .primary .host =>
    if s.guests.any (·.active) then
      { s with guests := modifyFirst (·.active) (fun g =>
          let (pending, pendingBytes) := queuePending g.pending g.pendingBytes m
          { g with pending, pendingBytes }) s.guests }
    else s.queueAt .client m
  | _ => s.queueAt .host m

/-- Send to each peer in turn, up to the first that refuses. -/
def sendAll (m : Message) : List ℕ → Net → Net
  | [], net => net
  | channel :: channels, net =>
    if (net.trySend channel m).2 then sendAll m channels (net.trySend channel m).1
    else (net.trySend channel m).1

def dispatchGenericMessage (role : Role) (generation channel : ℕ) (m : Envelope) : Session × Net :=
  if !s.roleSocketIsCurrent role generation channel then (s, net)
  else if (s.peersOf role).isEmpty then (s.queueFor role m, net)
  else (s, sendAll (.signal m) (s.peersOf role) net)

/-- A message a socket sent, once validated. -/
def receiveSignal (role : Role) (generation channel : ℕ) (m : Envelope) : Session × Net :=
  match m.generation with
  | some g => (s, s.dispatchDirect net role generation m g)
  | none => s.dispatchGenericMessage net role generation channel m

end Session

end OpenStream.Signal
