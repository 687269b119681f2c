import OpenStream.HostIpc.Grant

/-!
# The broker's protocol logic

A broker serves one connection of the machine service: it turns requests into calls of the frame
source and the input sink, and into events. What the devices answer, the time, the next token
identifier and the leases of the other connections come from outside.

* `SessionLeases`: the approvals honoured by the server, and who holds each.
-/

namespace OpenStream.HostIpc

inductive Seat
  | empty
  | greeter
  | user
  deriving DecidableEq

inductive CaptureKind
  | scanout
  | pipeWire
  deriving DecidableEq

structure CaptureParams where
  seat : Seat
  kind : CaptureKind
  width : ℕ
  height : ℕ
  fps : ℕ
  bitrateKbps : ℕ
  deriving DecidableEq

def PROTOCOL_VERSION : ℕ := 3

inductive ServiceRequest
  | hello (protocol : ℕ)
  | openCapture (tokenId : ℕ) (grant : Bytes.Str) (requested : Capabilities)
      (params : CaptureParams)
  | switchCapture (tokenId : ℕ) (seat : Seat) (kind : CaptureKind)
  | setBitrate (kbps : ℕ)
  | requestKeyframe
  | closeCapture
  | input (tokenId : ℕ) (payload : Bytes.Str)
  | shutdown
  deriving DecidableEq

def ServiceRequest.tokenId : ServiceRequest → Option ℕ
  | .openCapture tokenId _ _ _ => some tokenId
  | .switchCapture tokenId _ _ => some tokenId
  | .input tokenId _ => some tokenId
  | _ => none

inductive BrokerEvent
  | hello (protocol : ℕ) (capabilities : Capabilities)
  | captureStarted (tokenId : ℕ) (seat : Seat) (kind : CaptureKind) (width height : ℕ)
      (granted : Capabilities)
  | frame (sequence timestampUs : ℕ) (keyframe : Bool) (data : Bytes.Str)
  | rumble (deviceId strong weak : ℕ)
  | captureError (code : ℕ) (message : String)
  | closed (reason : ℕ)
  deriving DecidableEq

end OpenStream.HostIpc

namespace OpenStream.HostBroker

open HostIpc Bytes

/-! ## Codes -/

namespace code

def PROTOCOL_VERSION : ℕ := 10

def PROTOCOL_VIOLATION : ℕ := 11

def UNAUTHORISED : ℕ := 12

def CLOSED_ON_REQUEST : ℕ := 0

end code

/-! ## Devices -/

structure OpenedCapture where
  width : ℕ
  height : ℕ
  deriving DecidableEq

structure CaptureFailure where
  code : ℕ
  message : String
  deriving DecidableEq

structure EncodedFrame where
  sequence : ℕ
  timestampUs : ℕ
  keyframe : Bool
  data : Str
  deriving DecidableEq

structure RumbleOut where
  deviceId : ℕ
  strong : ℕ
  weak : ℕ
  deriving DecidableEq

/-- A call of the frame source or of the input sink. -/
inductive DeviceCall
  | framesOpen (params : CaptureParams)
  | framesSwitch (seat : Seat) (kind : CaptureKind)
  | framesSetBitrate (kbps : ℕ)
  | framesRequestKeyframe
  | framesClose
  | inputInject (payload : Str) (granted : Capabilities)
  deriving DecidableEq

/-! ## Leases -/

structure Lease where
  nonce : ℕ
  sessionId : Str
  expiresAtMs : ℕ
  /-- The connection that runs this session. -/
  holder : Option ℕ
  deriving DecidableEq

/-- Who holds which approval. -/
structure SessionLeases where
  entries : List Lease
  deriving DecidableEq

inductive LeaseOutcome
  | granted
  | reattached
  | heldElsewhere
  | sessionMismatch
  deriving DecidableEq

namespace SessionLeases

def acquire (l : SessionLeases) (nonce : ℕ) (sessionId : Str) (expiresAtMs now connection : ℕ) :
    SessionLeases × LeaseOutcome :=
  let entries := l.entries.filter fun lease => now ≤ lease.expiresAtMs
  match entries.find? fun lease => lease.nonce = nonce with
  | some lease =>
    if lease.sessionId ≠ sessionId then (⟨entries⟩, .sessionMismatch)
    else
      match lease.holder with
      | some holder =>
        if holder = connection then (⟨entries⟩, .reattached) else (⟨entries⟩, .heldElsewhere)
      | none => (⟨entries.replaceF fun lease => if lease.nonce = nonce then
          some { lease with holder := some connection } else none⟩, .reattached)
  | none => (⟨entries ++ [⟨nonce, sessionId, expiresAtMs, some connection⟩]⟩, .granted)

end SessionLeases

/-! ## The session -/

/-- Who may say that a session was approved, and which machine this is. -/
structure GrantAuthority where
  key : Str
  deviceId : Str
  deriving DecidableEq

def GrantAuthority.isConfigured (a : GrantAuthority) : Bool :=
  !a.key.isEmpty && !a.deviceId.isEmpty

def seatCeiling : Seat → Capabilities
  | .greeter => (Capabilities.CAPTURE.withCaps .KEYBOARD).withCaps .MOUSE
  | .empty => .CAPTURE
  | .user => .all

def effectiveGrant (requested ceiling : Capabilities) (seat : Seat) : Capabilities :=
  (requested.clampedTo ceiling).clampedTo (seatCeiling seat)

/-- One connection of the broker. -/
structure BrokerSession where
  /-- The ceiling of the operator's policy. -/
  ceiling : Capabilities
  authority : GrantAuthority
  connection : ℕ
  handshaken : Bool
  done : Bool
  capturing : Bool
  requested : Capabilities
  granted : Capabilities
  seat : Seat
  grant : Option SessionToken
  approvedCapabilities : Capabilities
  sessionId : Option Str
  deriving DecidableEq

/-- What a request finds outside of the session. -/
structure Surroundings where
  now : ℕ
  /-- What the token source gives next. -/
  nextId : ℕ
  leases : SessionLeases
  /-- How the frame source answers. -/
  opened : Except CaptureFailure OpenedCapture

structure Outcome where
  session : BrokerSession
  leases : SessionLeases
  calls : List DeviceCall
  events : List BrokerEvent

namespace BrokerSession

def withParts (ceiling : Capabilities) (authority : GrantAuthority) (connection : ℕ) :
    BrokerSession :=
  ⟨ceiling, authority, connection, false, false, false, .none, .none, .empty, none, .none, none⟩

variable (hmac : Str → Str → Str) (s : BrokerSession) (out : Surroundings)

def unverified : String := "no session approval could be verified"

def verifyApproval (encoded : Str) : SessionLeases × Except String SessionGrant :=
  if !s.authority.isConfigured then (out.leases, .error unverified)
  else
    match SessionGrant.decodeAndVerify hmac encoded s.authority.key out.now s.authority.deviceId with
    | .error _ => (out.leases, .error unverified)
    | .ok approved =>
      match out.leases.acquire approved.nonce approved.sessionId approved.expiresAtMs out.now
          s.connection with
      | (leases, .granted) => (leases, .ok approved)
      | (leases, .reattached) => (leases, .ok approved)
      | (leases, .heldElsewhere) => (leases, .error unverified)
      | (leases, .sessionMismatch) => (leases, .error unverified)

def authorised (tokenId : ℕ) : Bool :=
  tokenId ≠ NO_GRANT && s.grant.any fun grant => grant.id = tokenId

def unauthorised (message : String) : BrokerEvent := .captureError code.UNAUTHORISED message

/-- What an `OpenCapture` request has to show before anything is opened. -/
def checkOpen (tokenId : ℕ) (approval : Str) : SessionLeases × Except BrokerEvent SessionGrant :=
  if tokenId ≠ NO_GRANT && !s.authorised tokenId then
    (out.leases, .error (unauthorised "unknown session grant"))
  else
    match s.verifyApproval hmac out approval with
    | (leases, .error message) => (leases, .error (unauthorised message))
    | (leases, .ok approved) =>
      if s.sessionId.any fun existing => existing ≠ approved.sessionId then
        (leases, .error (unauthorised "this connection is serving a different session"))
      else (leases, .ok approved)

def token (requested ceiling : Capabilities) : Option SessionToken :=
  match s.grant with
  | some existing => some existing
  | none =>
    if out.nextId = NO_GRANT then none else some (SessionToken.grant out.nextId requested ceiling)

def openApproved (approved : SessionGrant) (requested : Capabilities) (params : CaptureParams) :
    BrokerSession × List DeviceCall × List BrokerEvent :=
  let s := { s with sessionId := some approved.sessionId }
  let ceiling := effectiveGrant approved.capabilities s.ceiling params.seat
  match s.token out requested ceiling with
  | none => (s, [], [unauthorised "could not issue a session grant"])
  | some grant =>
    let s := { s with
      grant := some grant
      requested := requested
      approvedCapabilities := approved.capabilities
      seat := params.seat
      granted := requested.clampedTo ceiling }
    match out.opened with
    | .ok opened => ({ s with capturing := true }, [.framesOpen params],
        [.captureStarted grant.id params.seat params.kind opened.width opened.height s.granted])
    | .error failure => ({ s with capturing := false }, [.framesOpen params],
        [.captureError failure.code failure.message])

def switchAuthorised (tokenId : ℕ) (seat : Seat) (kind : CaptureKind) :
    BrokerSession × List DeviceCall × List BrokerEvent :=
  let ceiling := effectiveGrant s.approvedCapabilities s.ceiling seat
  let s := { s with seat := seat, granted := s.requested.clampedTo ceiling }
  match out.opened with
  | .ok opened => (s, [.framesSwitch seat kind],
      [.captureStarted tokenId seat kind opened.width opened.height s.granted])
  | .error failure => (s, [.framesSwitch seat kind], [.captureError failure.code failure.message])

def handleHandshake : ServiceRequest → BrokerSession × List BrokerEvent
  | .hello protocol =>
    if protocol = PROTOCOL_VERSION then
      ({ s with handshaken := true }, [.hello PROTOCOL_VERSION s.ceiling])
    else ({ s with done := true },
      [.captureError code.PROTOCOL_VERSION "unsupported protocol version"])
  | _ => ({ s with done := true },
      [.captureError code.PROTOCOL_VIOLATION "expected Hello before any other request"])

def handleRequest (request : ServiceRequest) : Outcome :=
  if !s.handshaken then
    let r := s.handleHandshake request
    ⟨r.1, out.leases, [], r.2⟩
  else
    match request with
    | .hello _ => ⟨s, out.leases, [], []⟩
    | .openCapture tokenId approval requested params =>
      match s.checkOpen hmac out tokenId approval with
      | (leases, .error event) => ⟨s, leases, [], [event]⟩
      | (leases, .ok approved) =>
        let r := s.openApproved out approved requested params
        ⟨r.1, leases, r.2.1, r.2.2⟩
    | .switchCapture tokenId seat kind =>
      if !s.authorised tokenId then ⟨s, out.leases, [], [unauthorised "unknown session grant"]⟩
      else
        let r := s.switchAuthorised out tokenId seat kind
        ⟨r.1, out.leases, r.2.1, r.2.2⟩
    | .setBitrate kbps => ⟨s, out.leases, [.framesSetBitrate kbps], []⟩
    | .requestKeyframe => ⟨s, out.leases, [.framesRequestKeyframe], []⟩
    | .closeCapture => ⟨{ s with capturing := false }, out.leases, [.framesClose],
        [.closed code.CLOSED_ON_REQUEST]⟩
    | .input tokenId payload =>
      if !s.authorised tokenId then ⟨s, out.leases, [], []⟩
      -- the sink checks each event against the grant
      else ⟨s, out.leases, [.inputInject payload s.granted], []⟩
    | .shutdown => ⟨{ s with capturing := false, done := true }, out.leases, [.framesClose], []⟩

def pump (frames : List EncodedFrame) (rumbles : List RumbleOut) : List BrokerEvent :=
  if !s.capturing then []
  else frames.map (fun x => .frame x.sequence x.timestampUs x.keyframe x.data) ++
    rumbles.map fun x => .rumble x.deviceId x.strong x.weak

end BrokerSession

end OpenStream.HostBroker
