import OpenStream.Lib.Runs
import OpenStream.Signal.Session

/-!
# A session with its guests, its relay slots and its socket tasks

* Guests: `Session.admitGuest`, `Session.cleanupGuest`, `Session.kickGuest`,
  `Session.takePromotionSender`. At most one guest is active and drives the client slot.
* `Room`, `Act`, `Room.step`: the session, its queues and the tasks of its sockets. A channel is
  made with its task, and the task's place in the list is the channel's name; `none` is a socket
  whose admission failed.
-/

namespace OpenStream.Signal

def RELAY_SLOT_IDLE : ℕ := 60 * 1000

def RELAY_BYTES_PER_SECOND : ℕ := 8 * 1024 * 1024

def RELAY_PACKETS_PER_SECOND : ℕ := 10000

namespace Session

variable (s : Session) (net : Net)

/-! ## Guests -/

def modifyGuest (id : ℕ) (f : Guest → Guest) : Session :=
  { s with guests := modifyFirst (fun g => g.id = id) f s.guests }

def findGuest (id : ℕ) : Option Guest := s.guests.find? fun g => g.id = id

def parkActive : Session × Net :=
  match s.guests.find? (·.active) with
  | none => (s, net)
  | some g =>
    let s := { s with guests := modifyFirst (·.active) (fun g => { g with active := false }) s.guests }
    (s.clearRelayOwner (.guest g.id),
      match g.sender with
      | some channel => (net.trySend channel .parked).1
      | none => net)

/-- A guest may drive the client slot if it did already, or if nobody else does. -/
def canActivate (g : Guest) : Bool :=
  g.active || ((s.sender .client).isNone && !s.guests.any fun other => other.id ≠ g.id && other.active)

def connectGuest (g : Guest) (channel proof : ℕ) (active : Bool) : Session × Net × Option ℕ :=
  let s := s.clearRelayOwner (.guest g.id)
  (s.modifyGuest g.id (fun guest => { guest with
      sender := some channel, generation := g.generation + 1, active, relayProof := some proof }),
    net.closeOld g.sender, some (g.generation + 1))

/-- The pending messages of a guest go to its new socket, which then takes over. -/
def activateGuest (g : Guest) (channel proof : ℕ) : Session × Net × Option ℕ :=
  let (pending, net, drained) := drainInto g.pending net channel
  let s := s.modifyGuest g.id (fun guest => { guest with
    pending, pendingBytes := if drained then 0 else bytesOf pending })
  if !drained then (s, net, none) else s.connectGuest net g channel proof true

def admitGuest (id channel proof : ℕ) : Session × Net × Option ℕ :=
  match s.findGuest id with
  | none => (s, net, none)
  | some g =>
    if g.generation + 1 < U64 then
      let (net, sent) := net.trySend channel (.relayProof (g.generation + 1) proof)
      if !sent then (s, net, none)
      else if s.canActivate g then s.activateGuest net g channel proof
      else
        let (net, sent) := net.trySend channel .parked
        if !sent then (s, net, none) else s.connectGuest net g channel proof false
    else (s, net, none)

def takePromotionSender : Session × Option ℕ :=
  match s.guests.find? fun g => g.sender.isSome && !g.active with
  | none => (s, none)
  | some g =>
    let guests := modifyFirst (fun g => g.sender.isSome && !g.active)
      (fun g => { g with active := true }) s.guests
    ({ s with guests }, g.sender)

def afterGuest (wasActive : Bool) : Session × Option ℕ :=
  if wasActive then s.takePromotionSender else (s, none)

def cleanupGuest (id generation : ℕ) : Session × Option ℕ :=
  match s.findGuest id with
  | none => (s, none)
  | some g =>
    if g.generation ≠ generation then (s, none)
    else
      let s := s.modifyGuest id (fun g =>
        { g with sender := none, active := false, relayProof := none })
      (s.clearRelayOwner (.guest id)).afterGuest g.active

def kickGuest (id : ℕ) : Session × Option ℕ × Option ℕ :=
  match s.findGuest id with
  | none => (s, none, none)
  | some g =>
    let s := { s with guests := s.guests.eraseP fun g => g.id = id }
    let (s, promotion) := (s.clearRelayOwner (.guest id)).afterGuest g.active
    (s, g.sender, promotion)

def createGuest (id : ℕ) (input : Bool) : Session :=
  if s.maxGuests ≤ s.guests.length then s
  else { s with guests := s.guests ++ [⟨id, input, none, [], 0, false, 0, none⟩] }

/-! ## Relay slots -/

def relayTicketMatchesProof (ticket : Ticket) (currentProof : Option ℕ) : Bool :=
  match ticket.proofDigest with
  | none => ticket.socketGeneration = 1
  | some expected => currentProof = some expected

def relayOwnerForTicket (role : PrimaryRole) (ticket : Ticket) : Option Owner :=
  match role, ticket.subject with
  | .host, .primary .host =>
    if ticket.cls = .host && (s.sender .host).isSome &&
        ticket.socketGeneration = (s.endpoint .host).generation &&
        relayTicketMatchesProof ticket (s.endpoint .host).relayProof then some (.primary .host)
    else none
  | .host, _ => none
  | .client, .primary .client =>
    if ticket.cls = .client && (s.sender .client).isSome &&
        ticket.socketGeneration = (s.endpoint .client).generation &&
        relayTicketMatchesProof ticket (s.endpoint .client).relayProof then some (.primary .client)
    else none
  | .client, .primary .host => none
  | .client, .guest id =>
    if ticket.cls = .client then
      (s.guests.find? fun g => g.active && g.sender.isSome && g.id = id &&
        g.generation = ticket.socketGeneration && relayTicketMatchesProof ticket g.relayProof).map
          fun g => .guest g.id
    else none

def setSlot (role : PrimaryRole) (slot : Option RelaySlot) : Session :=
  { s with relay := Function.update s.relay role slot }

def register (role : PrimaryRole) (source : ℕ) (ticket : Ticket) (now : ℕ) : Option Session :=
  (s.relayOwnerForTicket role ticket).map fun owner =>
    s.setSlot role (some ⟨source, owner, ticket.socketGeneration, ticket, now, now, 0, 0⟩)

/-- A cleanup clears only the exact registration it names. -/
def unregister (role : PrimaryRole) (source : ℕ) (ticket : Ticket) : Option Session :=
  (s.relayOwnerForTicket role ticket).map fun owner =>
    if (s.relay role).any fun slot => slot.addr = source && slot.owner = owner &&
        slot.socketGeneration = ticket.socketGeneration && slot.ticketDigest = ticket then
      s.setSlot role none
    else s

def evict (addr : ℕ) : Session :=
  { s with relay := fun role => (s.relay role).filter fun slot => slot.addr ≠ addr }

/-- Clear the slots that have carried nothing for long. -/
def reapSlots (now : ℕ) : Session :=
  { s with relay := fun role => (s.relay role).filter fun slot =>
      now - slot.lastSeen ≤ RELAY_SLOT_IDLE }

end Session

/-- Count a datagram against the rate window. -/
def RelaySlot.accept (slot : RelaySlot) (bytes now : ℕ) : RelaySlot × Bool :=
  let slot := if 1000 ≤ now - slot.windowStarted then
      { slot with windowStarted := now, windowBytes := 0, windowPackets := 0 }
    else slot
  if RELAY_PACKETS_PER_SECOND ≤ slot.windowPackets ||
      RELAY_BYTES_PER_SECOND < slot.windowBytes + bytes then (slot, false)
  else
    ({ slot with windowPackets := slot.windowPackets + 1, windowBytes := slot.windowBytes + bytes
                 lastSeen := now }, true)

namespace Session

variable (s : Session)

def roleOfAddr (source : ℕ) : Option (PrimaryRole × RelaySlot) :=
  match (s.relay .host).filter fun slot => slot.addr = source with
  | some slot => some (.host, slot)
  | none => ((s.relay .client).filter fun slot => slot.addr = source).map fun slot => (.client, slot)

/-- A datagram from a slot's address: where it goes, if anywhere. `none`: no slot of this session
has the address. -/
def relayDatagram (source bytes now : ℕ) : Option (Session × Option ℕ) :=
  if s.expiresAt ≤ now then none
  else (s.roleOfAddr source).map fun (role, slot) =>
    let (slot, accepted) := slot.accept bytes now
    (s.setSlot role (some slot),
      if accepted then (s.relay role.opposite).map RelaySlot.addr else none)

/-- The proof-bound ticket the current socket of a principal may ask for. -/
def sessionRelayTicket (subject : Owner) (proof : ℕ) : Option Ticket :=
  match subject with
  | .primary role =>
    if (s.sender role).isSome && (s.endpoint role).relayProof = some proof then
      some ⟨role, .primary role, (s.endpoint role).generation, some proof⟩
    else none
  | .guest id =>
    (s.guests.find? fun g => g.active && g.sender.isSome && g.id = id &&
      g.relayProof = some proof).map fun g => ⟨.client, .guest g.id, g.generation, some proof⟩

end Session

/-! ## The machine of one session -/

structure Task where
  role : Role
  generation : ℕ
  deriving DecidableEq

/-- A session with its sockets. -/
structure Room where
  session : Session
  net : Net
  tasks : List (Option Task)
  /-- How many identifiers and proofs were drawn. -/
  issued : ℕ
  /-- Notices to send once the lock is released. -/
  owed : List (ℕ × Message)
  minted : List Ticket

inductive Act
  | admitPrimary (role : PrimaryRole) (now : ℕ)
  | admitGuest (id now : ℕ)
  /-- The task of a socket ends and cleans up. -/
  | disconnect (channel now : ℕ)
  /-- A socket's task has received a message. -/
  | receive (channel : ℕ) (m : Envelope) (now : ℕ)
  /-- A socket's task pings, or answers with a pong or an error. -/
  | reply (channel : ℕ)
  /-- A notice is sent. -/
  | notify
  /-- The writer of a channel takes a message, or goes away. -/
  | write (channel : ℕ)
  | closeWriter (channel : ℕ)
  | createGuest (input : Bool) (now : ℕ)
  | kickGuest (id now : ℕ)
  | reissue (subject : Owner) (proof now : ℕ)
  | register (role : PrimaryRole) (source : ℕ) (ticket : Ticket) (now : ℕ)
  | unregister (role : PrimaryRole) (source : ℕ) (ticket : Ticket) (now : ℕ)
  | datagram (source bytes now : ℕ)
  /-- The address has registered in another session. -/
  | evict (addr : ℕ)
  | reapSlots (now : ℕ)

namespace Room

variable (r : Room)

def startTask (role : Role) (generation : Option ℕ) : Room :=
  { r with tasks := r.tasks ++ [generation.map fun g => ⟨role, g⟩] }

def admitPrimary (role : PrimaryRole) (now : ℕ) : Room :=
  let (s, net, result) :=
    r.session.admitPrimarySocket r.net role r.tasks.length r.issued now
  let r := { r with issued := r.issued + 1 }
  match result, role with
  | .ok g, .client =>
    let (s, net) := s.parkActive net
    { r with session := s, net }.startTask (.primary role) (some g)
  | .ok g, .host => { r with session := s, net }.startTask (.primary role) (some g)
  | .error _, _ => { r with session := s, net }.startTask (.primary role) none

def admitGuest (id : ℕ) : Room :=
  let (s, net, generation) := r.session.admitGuest r.net id r.tasks.length r.issued
  { r with session := s, net, issued := r.issued + 1 }.startTask (.guest id) generation

def disconnect (task : Task) : Room :=
  match task.role with
  | .primary role =>
    let (s, net, current) := r.session.cleanupPrimarySocket r.net role task.generation
    { r with session := if current then s.clearRelayOwner (.primary role) else s, net }
  | .guest id =>
    let (s, promotion) := r.session.cleanupGuest id task.generation
    { r with session := s, owed := r.owed ++ promotion.toList.map fun c => (c, .promoted) }

def receive (channel : ℕ) (task : Task) (m : Envelope) : Room :=
  let (s, net) := r.session.receiveSignal r.net task.role task.generation channel m
  { r with session := s, net }

def kickGuest (id : ℕ) : Room :=
  let (s, sender, promotion) := r.session.kickGuest id
  { r with session := s, owed := r.owed ++ sender.toList.map (fun c => (c, .close)) ++
      promotion.toList.map fun c => (c, .promoted) }

def live (now : ℕ) (next : Room) : Option Room :=
  if r.session.expiresAt ≤ now then none else some next

def act : Act → Option Room
  | .admitPrimary role now => r.live now (r.admitPrimary role now)
  | .admitGuest id now => r.live now (r.admitGuest id)
  | .disconnect channel now =>
    (r.tasks[channel]?.join).bind fun task => r.live now (r.disconnect task)
  | .receive channel m now =>
    (r.tasks[channel]?.join).bind fun task => r.live now (r.receive channel task m)
  | .reply channel =>
    (r.tasks[channel]?.join).map fun _ => { r with net := (r.net.trySend channel .service).1 }
  | .notify =>
    match r.owed with
    | [] => none
    | (channel, m) :: owed => some { r with net := (r.net.trySend channel m).1, owed }
  | .write channel => some { r with net := { r.net with
      taken := Function.update r.net.taken channel (r.net.taken channel + 1) } }
  | .closeWriter channel => some { r with net := { r.net with
      closed := Function.update r.net.closed channel true } }
  | .createGuest input now => r.live now
    { r with session := r.session.createGuest r.issued input, issued := r.issued + 1 }
  | .kickGuest id now => r.live now (r.kickGuest id)
  | .reissue subject proof now =>
    (r.session.sessionRelayTicket subject proof).bind fun ticket =>
      r.live now { r with minted := r.minted ++ [ticket] }
  | .register role source ticket now =>
    if ticket ∈ r.minted then
      (r.session.register role source ticket now).bind fun s => r.live now { r with session := s }
    else none
  | .unregister role source ticket now =>
    if ticket ∈ r.minted then
      (r.session.unregister role source ticket).bind fun s => r.live now { r with session := s }
    else none
  | .datagram source bytes now =>
    (r.session.relayDatagram source bytes now).map fun (s, _) => { r with session := s }
  | .evict addr => some { r with session := r.session.evict addr }
  | .reapSlots now => some { r with session := r.session.reapSlots now }

def step (r : Room) (a : Act) : Option Room :=
  { r with net := { r.net with turn := r.net.turn + 1 } }.act a

def pairingTickets : List Ticket :=
  [⟨.host, .primary .host, 1, none⟩, ⟨.client, .primary .client, 1, none⟩]

def new (expiresAt maxGuests : ℕ) : Room :=
  ⟨.new expiresAt maxGuests, ⟨[], fun _ => 0, fun _ => false, 0⟩, [], 0, [], pairingTickets⟩

end Room

def room (expiresAt maxGuests : ℕ) : Runs.Machine Room Act where
  start := .new expiresAt maxGuests
  step := Room.step

end OpenStream.Signal
