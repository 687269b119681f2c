import OpenStream.Lib.Slots
import OpenStream.Lowlat.Stun

/-!
# The punch

One attempt at a path: candidates in, checks out, a path or a failure. The attempt owns no socket,
so an output carries its destination and how it must be sent. Requests are answered whatever the
state, answers to checks are matched by transaction identifier, and the first candidate to answer
wins.

* `Conn.Emits`, **`Conn.emits_getOutput`**: everything a call for output can do.
* `Conn.Hears`, **`Conn.hears_processInput`**: everything a datagram can do.
-/

namespace OpenStream.Lowlat

open Bytes Stun Slots

namespace Conn

/-- How a datagram must be sent: as the socket is set, or with a hop limit too low to arrive. -/
inductive Ttl
  | default
  | probe
  deriving DecidableEq

/-- One datagram, with where it goes and how. -/
structure Egress where
  dest : SocketAddr
  ttl : Ttl
  bytes : Str
  deriving DecidableEq

/-- Why an attempt ended without a path. -/
inductive Failure
  | probeTimeout
  | noCandidates
  deriving DecidableEq

/-- Where the attempt has got to. -/
inductive State
  | checking
  | established (addr : SocketAddr)
  | failed (failure : Failure)
  deriving DecidableEq

/-- What an inbound datagram turned out to be. -/
inductive Inbound
  | checkAnswered
  | pathEstablished (addr : SocketAddr)
  | reflexive (addr : SocketAddr)
  | redundant
  deriving DecidableEq

/-- Fragments and passwords of the two sides. -/
structure Credentials where
  localUfrag : Str
  localPwd : Str
  remoteUfrag : Str
  remotePwd : Str

structure Candidate (F : Type) where
  addr : SocketAddr
  lastCheckMs : Option F
  /-- Identifier of the outstanding check. -/
  outstanding : Option TransactionId

structure Server (F : Type) where
  addr : SocketAddr
  lastProbeMs : Option F
  outstanding : Option TransactionId
  answered : Bool
  mapped : Option SocketAddr

def MAX_CANDIDATES : ℕ := 16
def MAX_PENDING : ℕ := 4
def MAX_SERVERS : ℕ := 4

section Times

variable {F : Type} [F64 F]

/-- How often a single candidate is rechecked. -/
def CHECK_CADENCE_MS : F := 500.0
/-- How long the whole attempt may run. -/
def PUNCH_WINDOW_MS : F := 7500.0
def PACING_MS : F := 10.0

end Times

end Conn

/-- One punch attempt. -/
structure Conn (F : Type) where
  credentials : Conn.Credentials
  seed : Vector UInt8 16
  candidates : Slots (Conn.Candidate F)
  servers : Slots (Conn.Server F)
  pending : Slots (SocketAddr × TransactionId)
  state : Conn.State
  startedMs : F
  lastSentMs : Option F
  probeSent : Bool
  counter : UInt32

namespace Conn

section Calls

variable {F : Type} [F64 F]

/-- The attempt begins. -/
def new (credentials : Credentials) (seed : Vector UInt8 16) (now : F) : Conn F where
  credentials := credentials
  seed := seed
  candidates := List.replicate MAX_CANDIDATES none
  servers := List.replicate MAX_SERVERS none
  pending := List.replicate MAX_PENDING none
  state := .checking
  startedMs := now
  lastSentMs := none
  probeSent := false
  counter := 0

variable (c : Conn F)

/-- The chosen path, once there is one. -/
def path : Option SocketAddr :=
  match c.state with
  | .established addr => some addr
  | _ => none

/-- Offer a remote candidate. -/
def addCandidate (addr : SocketAddr) : Conn F × Except Error Unit :=
  let addr := canonical addr
  if (Slots.taken c.candidates).any fun x => x.addr = addr then (c, .ok ())
  else
    match Slots.put ⟨addr, none, none⟩ c.candidates with
    | none => (c, .error .oversized)
    | some candidates => ({ c with candidates := candidates }, .ok ())

def addServer (addr : SocketAddr) : Conn F × Except Error Unit :=
  let addr := canonical addr
  if (Slots.taken c.servers).any fun x => x.addr = addr then (c, .ok ())
  else
    match Slots.put ⟨addr, none, none, false, none⟩ c.servers with
    | none => (c, .error .oversized)
    | some servers => ({ c with servers := servers }, .ok ())

def queueResponse (dest : SocketAddr) (tid : TransactionId) : Conn F × Except Error Unit :=
  match Slots.put (dest, tid) c.pending with
  | none => (c, .error .oversized)
  | some pending => ({ c with pending := pending }, .ok ())

variable (hashes : Hashes)

def onRequest (message : Stun.Message) (source : SocketAddr) : Conn F × Except Error Inbound :=
  if message.verify hashes c.credentials.localPwd = false then (c, .error .decrypt)
  else
    match (c.addCandidate source).1.queueResponse source message.tid with
    | (c, .error e) => (c, .error e)
    | (c, .ok ()) => (c, .ok .checkAnswered)

def expects (tid : TransactionId) (source : SocketAddr) (x : Server F) : Bool :=
  x.outstanding = some tid && x.addr = source

/-- A binding success: a server's, admitted by its identifier and source, or a peer's. -/
def onSuccess (message : Stun.Message) (source : SocketAddr) : Conn F × Except Error Inbound :=
  let tid := message.tid
  if (Slots.taken c.servers).any (expects tid source) then
    match message.mappedAddress with
    | some mapped =>
      ({ c with servers := Slots.modifyFirst (expects tid source) (fun x =>
          { x with outstanding := none, answered := true, mapped := some mapped }) c.servers },
        .ok (.reflexive mapped))
    | none =>
      ({ c with servers := Slots.modifyFirst (expects tid source) (fun x =>
          { x with outstanding := none, answered := true }) c.servers },
        .error .malformed)
  else if message.verify hashes c.credentials.remotePwd = false then (c, .error .decrypt)
  else
    match (Slots.taken c.candidates).find? fun x => x.outstanding = some tid with
    | none => (c, .ok .redundant)
    | some candidate =>
      let c := { c with
        candidates := Slots.modifyFirst (fun x => x.outstanding = some tid)
          (fun x => { x with outstanding := none }) c.candidates }
      match c.state with
      | .checking =>
        ({ c with state := .established candidate.addr }, .ok (.pathEstablished candidate.addr))
      | _ => (c, .ok .redundant)

/-- Feed one datagram that classified as a connectivity check. -/
def processInput (datagram : Str) (source : SocketAddr) : Conn F × Except Error Inbound :=
  let source := canonical source
  match Stun.Message.parse datagram with
  | .error e => (c, .error e)
  | .ok message =>
    match message.method with
    | .bindingRequest => c.onRequest hashes message source
    | .bindingSuccess => c.onSuccess hashes message source

/-- Close the window when it expires. -/
def poll (now : F) : Conn F :=
  if c.state ≠ .checking then c
  else if F64.le PUNCH_WINDOW_MS (now - c.startedMs) then
    { c with
      state := .failed (if (Slots.taken c.candidates).length = 0 then .noCandidates
        else .probeTimeout) }
  else c

/-- How long until pacing permits another datagram. -/
def paceWait (now : F) : F :=
  match c.lastSentMs with
  | some last => F64.max (last + PACING_MS - now) 0.0
  | none => 0.0

def nextTransactionId : TransactionId × Conn F :=
  (((hashes.sha1 (c.seed.toList ++ be 4 c.counter.toNat)).take 12).cast (by decide),
    { c with counter := c.counter + 1 })

def tiebreaker : Str := c.seed.toList.take 8

def emitCheck (dest : SocketAddr) (ttl : Ttl) (now : F) (outLen : ℕ) :
    Conn F × Except Error Egress :=
  let (tid, c) := c.nextTransactionId hashes
  match encodeBindingRequest hashes outLen tid c.credentials.localUfrag c.credentials.remoteUfrag
      c.tiebreaker c.credentials.remotePwd with
  | .error e => (c, .error e)
  | .ok bytes =>
    ({ c with
        candidates := Slots.modifyFirst (fun x => x.addr = dest)
          (fun x => { x with outstanding := some tid }) c.candidates
        lastSentMs := some now },
      .ok ⟨dest, ttl, bytes⟩)

def emitReflexive (index : ℕ) (dest : SocketAddr) (now : F) (outLen : ℕ) :
    Conn F × Except Error Egress :=
  let (tid, c) := c.nextTransactionId hashes
  match encodeReflexiveRequest outLen tid with
  | .error e => (c, .error e)
  | .ok bytes =>
    ({ c with
        servers := Slots.modifyAt index
          (fun x => { x with lastProbeMs := some now, outstanding := some tid }) c.servers
        lastSentMs := some now },
      .ok ⟨dest, .default, bytes⟩)

def emitResponse (dest : SocketAddr) (tid : TransactionId) (now : F)
    (outLen : ℕ) : Conn F × Except Error Egress :=
  match encodeBindingResponse hashes outLen tid dest c.credentials.localPwd with
  | .error e => (c, .error e)
  | .ok bytes => ({ c with lastSentMs := some now }, .ok ⟨dest, .default, bytes⟩)

/-- Whether the cadence permits another datagram to one destination. -/
def cadenceDue (now : F) : Option F → Bool
  | some last => F64.le CHECK_CADENCE_MS (now - last)
  | none => true

def checkDue (now : F) (outLen : ℕ) : Conn F × Option (Except Error Egress) :=
  match Slots.firstAt (fun x => cadenceDue now x.lastCheckMs) c.candidates with
  | none => (c, none)
  | some (index, candidate) =>
    match c.emitCheck hashes candidate.addr .default now outLen with
    | (c, .error e) => (c, some (.error e))
    | (c, .ok egress) =>
      ({ c with
          candidates := Slots.modifyAt index (fun x => { x with lastCheckMs := some now })
            c.candidates },
        some (.ok egress))

def serverDue (now : F) (outLen : ℕ) : Conn F × Option (Except Error Egress) :=
  match Slots.firstAt (fun x => !x.answered && cadenceDue now x.lastProbeMs) c.servers with
  | some (index, server) =>
    let (c, result) := c.emitReflexive hashes index server.addr now outLen
    (c, some result)
  | none => c.checkDue hashes now outLen

/-- Emit the next datagram into a buffer of `outLen` bytes. -/
def getOutput (now : F) (outLen : ℕ) : Conn F × Option (Except Error Egress) :=
  if F64.lt 0.0 (c.paceWait now) then (c, none)
  else
    match Slots.pop c.pending with
    | some ((dest, tid), pending) =>
      let (c, result) := { c with pending := pending }.emitResponse hashes dest tid now outLen
      (c, some result)
    | none =>
      if c.state ≠ .checking then (c, none)
      else if c.probeSent then c.serverDue hashes now outLen
      else
        match (Slots.taken c.candidates).head? with
        | some candidate =>
          let (c, result) :=
            { c with probeSent := true }.emitCheck hashes candidate.addr .probe now outLen
          (c, some result)
        | none => c.serverDue hashes now outLen

end Calls

/-! ## What a datagram can do -/

variable {F : Type} {c : Conn F}

def checks (l : Slots (Candidate F)) : List (SocketAddr × Option TransactionId) :=
  (Slots.taken l).map fun x => (x.addr, x.outstanding)

theorem addrs_checks (l : Slots (Candidate F)) :
    (checks l).map Prod.fst = (taken l).map Candidate.addr := by
  rw [checks, List.map_map]
  rfl

theorem addCandidate_cases (c : Conn F) (addr : SocketAddr) :
    (∃ result, c.addCandidate addr = (c, result)) ∨
    ∃ candidates, c.addCandidate addr = ({ c with candidates := candidates }, .ok ()) ∧
      canonical addr ∉ (checks c.candidates).map Prod.fst ∧
      (checks candidates).Perm ((canonical addr, none) :: checks c.candidates) := by
  simp only [addCandidate]
  split_ifs with hknown
  · exact .inl ⟨_, rfl⟩
  split
  · exact .inl ⟨_, rfl⟩
  next candidates hput =>
    refine .inr ⟨candidates, rfl, ?_, (perm_put hput).map _⟩
    rw [addrs_checks]
    simpa using hknown

theorem state_addCandidate (c : Conn F) (addr : SocketAddr) :
    (c.addCandidate addr).1.state = c.state := by
  rcases c.addCandidate_cases addr with ⟨result, heq⟩ | ⟨candidates, heq, -, -⟩ <;> rw [heq]

inductive Hears (hashes : Hashes) (datagram : Str) (source : SocketAddr) (c : Conn F) :
    Conn F → Prop
  | dropped : Hears hashes datagram source c c
  | server (servers : Slots (Server F)) :
      Hears hashes datagram source c { c with servers := servers }
  | request {message : Stun.Message} (hparse : Stun.Message.parse datagram = .ok message)
      (hmethod : message.method = .bindingRequest)
      (hverify : message.verify hashes c.credentials.localPwd = true)
      (pending : Slots (SocketAddr × TransactionId)) :
      Hears hashes datagram source c
        { (c.addCandidate (canonical source)).1 with pending := pending }
  | answer {message : Stun.Message} {candidate : Candidate F}
      (hparse : Stun.Message.parse datagram = .ok message)
      (hmethod : message.method = .bindingSuccess)
      (hverify : message.verify hashes c.credentials.remotePwd = true)
      (hfind : (candidate.addr, some message.tid) ∈ checks c.candidates)
      {candidates : Slots (Candidate F)}
      (haddrs : (checks candidates).map Prod.fst = (checks c.candidates).map Prod.fst)
      (hchecks : ∀ addr tid, (addr, some tid) ∈ checks candidates →
        (addr, some tid) ∈ checks c.candidates)
      {state : State}
      (hstate : c.state = .checking ∧ state = .established candidate.addr ∨
        c.state ≠ .checking ∧ state = c.state) :
      Hears hashes datagram source c { c with candidates := candidates, state := state }

theorem hears_onRequest (c : Conn F) {hashes : Hashes} {datagram : Str} {source : SocketAddr}
    {message : Stun.Message} (hparse : Stun.Message.parse datagram = .ok message)
    (hmethod : message.method = .bindingRequest) :
    Hears hashes datagram source c (c.onRequest hashes message (canonical source)).1 := by
  rw [onRequest]
  split_ifs with hverify
  · exact .dropped
  rw [Bool.not_eq_false] at hverify
  simp only [queueResponse]
  split
  next h =>
    split at h <;> cases h
    exact .request hparse hmethod hverify _
  next h =>
    split at h <;> cases h
    exact .request hparse hmethod hverify _

theorem hears_onSuccess (c : Conn F) {hashes : Hashes} {datagram : Str} {source : SocketAddr}
    {message : Stun.Message} (hparse : Stun.Message.parse datagram = .ok message)
    (hmethod : message.method = .bindingSuccess) :
    Hears hashes datagram source c (c.onSuccess hashes message (canonical source)).1 := by
  simp only [onSuccess]
  split_ifs with hserver hverify
  · split
    · exact .server _
    · exact .server _
  · exact .dropped
  rw [Bool.not_eq_false] at hverify
  split
  · exact .dropped
  next candidate hfind =>
    have hmem := List.mem_of_find?_eq_some hfind
    have htid := List.find?_some hfind
    rw [decide_eq_true_eq] at htid
    have hcheck : (candidate.addr, some message.tid) ∈ checks c.candidates := by
      rw [← htid]
      exact List.mem_map_of_mem hmem
    have haddrs : (checks (modifyFirst (fun x => x.outstanding = some message.tid)
        (fun x => { x with outstanding := none }) c.candidates)).map Prod.fst =
        (checks c.candidates).map Prod.fst := by
      rw [addrs_checks, addrs_checks]
      exact map_modifyFirst (by intro x; rfl) _
    have hchecks : ∀ addr tid, (addr, some tid) ∈
        checks (modifyFirst (fun x => x.outstanding = some message.tid)
          (fun x => { x with outstanding := none }) c.candidates) →
        (addr, some tid) ∈ checks c.candidates := by
      intro addr tid hx
      obtain ⟨y, hy, hxy⟩ := List.mem_map.mp hx
      rcases mem_modifyFirst (mem_taken.mp hy) with hy | ⟨z, -, rfl⟩
      · exact List.mem_map.mpr ⟨y, mem_taken.mpr hy, hxy⟩
      · cases congrArg Prod.snd hxy
    split
    next hstate => exact .answer hparse hmethod hverify hcheck haddrs hchecks (.inl ⟨hstate, rfl⟩)
    next hstate => exact .answer hparse hmethod hverify hcheck haddrs hchecks (.inr ⟨hstate, rfl⟩)

/-- **Everything a datagram can do.** -/
theorem hears_processInput (c : Conn F) (hashes : Hashes) (datagram : Str) (source : SocketAddr) :
    Hears hashes datagram source c (c.processInput hashes datagram source).1 := by
  simp only [processInput]
  split
  · exact .dropped
  next message hparse =>
    split
    next hmethod => exact c.hears_onRequest hparse hmethod
    next hmethod => exact c.hears_onSuccess hparse hmethod

/-! ## What a call for output can do -/

/-- The candidates once a check to `dest` is outstanding. -/
def awaiting (dest : SocketAddr) (tid : TransactionId) (l : Slots (Candidate F)) :
    Slots (Candidate F) :=
  Slots.modifyFirst (fun x => x.addr = dest) (fun x => { x with outstanding := some tid }) l

/-- The fragments fit the user name of a check. -/
def Presentable (c : Conn F) : Prop :=
  c.credentials.localUfrag.length ≤ MAX_UFRAG ∧ c.credentials.remoteUfrag.length ≤ MAX_UFRAG

theorem emitCheck_cases (c : Conn F) (hashes : Hashes) (dest : SocketAddr) (ttl : Ttl) (now : F)
    (outLen : ℕ) :
    (∃ e counter, (c.Presentable → outLen < MAX_MESSAGE) ∧
      c.emitCheck hashes dest ttl now outLen = ({ c with counter := counter }, .error e)) ∨
    ∃ tid bytes counter, Headed TYPE_BINDING_REQUEST tid bytes ∧ 20 < bytes.length ∧
      c.emitCheck hashes dest ttl now outLen =
        ({ c with
            candidates := awaiting dest tid c.candidates, counter := counter,
            lastSentMs := some now },
          .ok ⟨dest, ttl, bytes⟩) := by
  simp only [emitCheck, nextTransactionId]
  split
  · next e he =>
    refine .inl ⟨e, _, fun h => Nat.lt_of_not_le fun hroom => ?_, rfl⟩
    exact encodes_bindingRequest h.1 h.2 (by simp [tiebreaker]) hroom he
  next bytes hbytes =>
    obtain ⟨hhead, hlen⟩ := headed_encodeBindingRequest hbytes
    exact .inr ⟨_, bytes, _, hhead, hlen, rfl⟩

variable [F64 F]

theorem poll_cases (c : Conn F) (now : F) :
    c.poll now = c ∨
      ∃ failure, c.state = .checking ∧ c.poll now = { c with state := .failed failure } := by
  simp only [poll]
  split_ifs with hstate hwindow
  · exact .inl rfl
  · exact .inr ⟨_, not_not.mp hstate, rfl⟩
  · exact .inr ⟨_, not_not.mp hstate, rfl⟩
  · exact .inl rfl

/-- Everything a call for output can do. -/
inductive Emits (now : F) (outLen : ℕ) (c : Conn F) :
    Conn F → Option (Except Error Egress) → Prop
  | quiet : Emits now outLen c c none
  | failed (e : Error) (pending : Slots (SocketAddr × TransactionId)) (probeSent : Bool)
      (counter : UInt32) (hprobe : c.probeSent = true → probeSent = true)
      (hshort : c.Presentable → outLen < MAX_MESSAGE) :
      Emits now outLen c { c with pending := pending, probeSent := probeSent, counter := counter }
        (some (.error e))
  | response (dest : SocketAddr) (tid : TransactionId) (bytes : Str)
      (pending : Slots (SocketAddr × TransactionId))
      (hpace : F64.lt 0.0 (c.paceWait now) = false)
      (hhead : Headed TYPE_BINDING_SUCCESS tid bytes) :
      Emits now outLen c { c with pending := pending, lastSentMs := some now }
        (some (.ok ⟨dest, .default, bytes⟩))
  | reflexive (dest : SocketAddr) (bytes : Str) (servers : Slots (Server F)) (counter : UInt32)
      (hpace : F64.lt 0.0 (c.paceWait now) = false) (hstate : c.state = .checking)
      (hlen : bytes.length = 20) :
      Emits now outLen c { c with servers := servers, counter := counter, lastSentMs := some now }
        (some (.ok ⟨dest, .default, bytes⟩))
  | check (dest : SocketAddr) (ttl : Ttl) (tid : TransactionId) (bytes : Str)
      (candidates : Slots (Candidate F)) (probeSent : Bool) (counter : UInt32)
      (hpace : F64.lt 0.0 (c.paceWait now) = false) (hstate : c.state = .checking)
      (hhead : Headed TYPE_BINDING_REQUEST tid bytes) (hlen : 20 < bytes.length)
      (hchecks : checks candidates = checks (awaiting dest tid c.candidates))
      (hprobe : ttl = .probe ∧ c.probeSent = false ∧ probeSent = true ∨
        ttl = .default ∧ probeSent = c.probeSent) :
      Emits now outLen c
        { c with
          candidates := candidates, probeSent := probeSent, counter := counter,
          lastSentMs := some now }
        (some (.ok ⟨dest, ttl, bytes⟩))

theorem emits_checkDue {now : F} (hpace : F64.lt 0.0 (c.paceWait now) = false)
    (hstate : c.state = .checking) (hashes : Hashes) (outLen : ℕ) :
    Emits now outLen c (c.checkDue hashes now outLen).1 (c.checkDue hashes now outLen).2 := by
  rw [checkDue]
  split
  · exact .quiet
  next index candidate _ =>
    rcases c.emitCheck_cases hashes candidate.addr .default now outLen with
      ⟨e, counter, hshort, h⟩ | ⟨tid, bytes, counter, hhead, hlen, h⟩
    · rw [h]
      exact .failed e c.pending c.probeSent counter id hshort
    · rw [h]
      refine .check _ _ tid bytes _ c.probeSent counter hpace hstate hhead hlen ?_ (.inr ⟨rfl, rfl⟩)
      exact map_modifyAt (by intro x; rfl) index _

theorem emits_serverDue {now : F} (hpace : F64.lt 0.0 (c.paceWait now) = false)
    (hstate : c.state = .checking) (hashes : Hashes) (outLen : ℕ) :
    Emits now outLen c (c.serverDue hashes now outLen).1 (c.serverDue hashes now outLen).2 := by
  rw [serverDue]
  split
  · simp only [emitReflexive, nextTransactionId]
    split
    · next he =>
      refine .failed _ c.pending c.probeSent _ id fun _ => Nat.lt_of_not_le fun hroom => ?_
      exact encodes_reflexiveRequest hroom he
    next bytes hbytes =>
      exact .reflexive _ bytes _ _ hpace hstate (headed_encodeReflexiveRequest hbytes).2
  · exact emits_checkDue hpace hstate hashes outLen

/-- **Everything a call for output can do.** -/
theorem emits_getOutput (c : Conn F) (hashes : Hashes) (now : F) (outLen : ℕ) :
    Emits now outLen c (c.getOutput hashes now outLen).1 (c.getOutput hashes now outLen).2 := by
  rw [getOutput]
  by_cases hpace : F64.lt 0.0 (c.paceWait now) = true
  · rw [if_pos hpace]
    exact .quiet
  rw [if_neg hpace]
  rw [Bool.not_eq_true] at hpace
  split
  · simp only [emitResponse]
    split
    · next he =>
      refine .failed _ _ c.probeSent c.counter id fun _ => Nat.lt_of_not_le fun hroom => ?_
      exact encodes_bindingResponse hroom he
    next bytes hbytes =>
      exact .response _ _ bytes _ hpace (headed_encodeBindingResponse hbytes).1
  split_ifs with hstate hsent
  · exact .quiet
  · exact emits_serverDue hpace (not_not.mp hstate) hashes outLen
  · rw [Bool.not_eq_true] at hsent
    split
    next candidate _ =>
      rcases { c with probeSent := true }.emitCheck_cases hashes candidate.addr .probe now outLen
        with ⟨e, counter, hshort, h⟩ | ⟨tid, bytes, counter, hhead, hlen, h⟩
      · rw [h]
        exact .failed e c.pending true counter (fun _ => rfl) hshort
      · rw [h]
        exact .check _ _ tid bytes _ true counter hpace (not_not.mp hstate) hhead hlen rfl
          (.inl ⟨rfl, hsent, rfl⟩)
    · exact emits_serverDue hpace (not_not.mp hstate) hashes outLen

end Conn

end OpenStream.Lowlat
