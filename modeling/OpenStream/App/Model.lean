import OpenStream.Account.Store
import OpenStream.Lib.Runs

/-!
# The app model

What a product shell shows of a connection: an `AppState` and, beside it, what is active. Commands
come from the shell and from the runtime; each is dispatched on its own, and a refused one reports
an `AppError`.

* `Shift`, **`AppModel.dispatch_shift`**: what a command can do to what is active.
-/

namespace OpenStream.App

open Account

def DEFAULT_REQUEST_TTL_MS : ℕ := 30000

def MAX_DEVICES : ℕ := 256

def MAX_REQUEST_ID_BYTES : ℕ := 128

def MAX_USED_REQUEST_IDS : ℕ := 256

inductive DeploymentMode
  | local_
  | secure
  deriving DecidableEq

inductive AppErrorCode
  | invalidCommand
  | invalidRequest
  | invalidState
  | deviceUnavailable
  | duplicateRequest
  | expiredRequest
  | permissionDenied
  | authenticationRequired
  | unavailable
  | transport
  | internal
  deriving DecidableEq

structure AppError where
  code : AppErrorCode
  retryable : Bool
  message : String

inductive AppState
  | signedOut
  | authenticating
  | ready
  | requestingConnection (deviceId requestId : Text)
  | waitingForApproval (deviceId requestId : Text)
  | connecting (deviceId : Text)
  | negotiating (deviceId : Text)
  | connected (deviceId sessionId : Text) (generation : ℕ)
  | reconnecting (deviceId sessionId : Text)
  | disconnecting (deviceId : Text)
  | failed (code : AppErrorCode) (retryable : Bool) (message : String)

inductive HostStatus
  | disabled
  | starting
  | ready
  | failed (message : String) (retryable : Bool)

/-! ## Permissions -/

structure PermissionSet where
  view : Bool
  keyboard : Bool
  mouse : Bool
  gamepad : Bool
  clipboard : Bool
  microphone : Bool
  tablet : Bool
  virtualUsb : Bool
  deriving DecidableEq

namespace PermissionSet

def none : PermissionSet := ⟨false, false, false, false, false, false, false, false⟩

def viewOnly : PermissionSet := { none with view := true }

def full : PermissionSet := ⟨true, true, true, true, true, true, true, true⟩

def isEmpty (p : PermissionSet) : Bool :=
  !(p.view || p.keyboard || p.mouse || p.gamepad || p.clipboard || p.microphone || p.tablet ||
    p.virtualUsb)

def intersect (p available : PermissionSet) : PermissionSet :=
  { view := p.view && available.view
    keyboard := p.keyboard && available.keyboard
    mouse := p.mouse && available.mouse
    gamepad := p.gamepad && available.gamepad
    clipboard := p.clipboard && available.clipboard
    microphone := p.microphone && available.microphone
    tablet := p.tablet && available.tablet
    virtualUsb := p.virtualUsb && available.virtualUsb }

def Le (p q : PermissionSet) : Prop :=
  (p.view → q.view) ∧ (p.keyboard → q.keyboard) ∧ (p.mouse → q.mouse) ∧
    (p.gamepad → q.gamepad) ∧ (p.clipboard → q.clipboard) ∧ (p.microphone → q.microphone) ∧
    (p.tablet → q.tablet) ∧ (p.virtualUsb → q.virtualUsb)

theorem intersect_le_left (p q : PermissionSet) : (p.intersect q).Le p := by
  simp only [Le, intersect, Bool.and_eq_true]
  tauto

theorem intersect_le_right (p q : PermissionSet) : (p.intersect q).Le q := by
  simp only [Le, intersect, Bool.and_eq_true]
  tauto

end PermissionSet

/-! ## Requests, commands and events -/

/-- What `connect` reads of a device in the directory. -/
structure DeviceSummary where
  id : Text
  online : Bool
  hostingEnabled : Bool

structure ConnectionRequest where
  requestId : Text
  deviceId : Text
  requested : PermissionSet
  createdAtMs : ℕ
  expiresAtMs : ℕ

inductive ConnectionRejectReason
  | denied
  | expired

/-- What the user and the services ask for. -/
inductive AppCommand
  | beginAuthentication
  | authenticationSucceeded
  | authenticationFailed (retryable : Bool)
  | signOut
  | connect (deviceId requestId : Text) (requested : PermissionSet) (nowMs : ℕ)
  | approveRequest (requestId : Text) (available : PermissionSet) (nowMs : ℕ)
  | rejectRequest (requestId : Text) (nowMs : ℕ)
  | tick (nowMs : ℕ)
  | connectionNegotiating
  | connectionEstablished (sessionId : Text) (generation : ℕ)
  | connectionFailed (retryable : Bool)
  | connectionLost (retryable : Bool)
  | disconnect
  | disconnected
  | enableHosting
  | disableHosting
  | hostStarting
  | hostReady
  | hostFailed (message : String) (retryable : Bool)
  | clearFailure

inductive AppEvent
  | authenticationStarted
  | authenticationFailed (retryable : Bool)
  | signedOut
  | approvalRequired (request : ConnectionRequest)
  | connectionApproved (requestId : Text) (permissions : PermissionSet)
  | connectionRejected (requestId : Text) (reason : ConnectionRejectReason)
  | connectionNegotiationStarted
  | connectionReady (sessionId : Text) (generation : ℕ)
  | connectionFailed (retryable : Bool)
  | reconnectStarted
  | disconnectRequested
  | disconnected
  | hostStartRequested
  | hostStarting
  | hostReady
  | hostStopRequested
  | hostFailed (code : AppErrorCode)
  | failureCleared

def invalidState (message : String) : AppError := ⟨.invalidState, false, message⟩

def validateId (field : String) (value : Text) : Except AppError Unit :=
  if value.isEmpty || MAX_REQUEST_ID_BYTES < byteLen value || value.any isControl then
    .error ⟨.invalidRequest, false,
      field ++ " is empty, too long, or contains control characters"⟩
  else .ok ()

namespace ConnectionRequest

def isExpired (r : ConnectionRequest) (nowMs : ℕ) : Bool := r.expiresAtMs ≤ nowMs

def validate (r : ConnectionRequest) (nowMs : ℕ) : Except AppError Unit := do
  validateId "request_id" r.requestId
  validateId "device_id" r.deviceId
  if !r.requested.view then
    throw ⟨.permissionDenied, false, "a connection request must include view permission"⟩
  if r.expiresAtMs ≤ r.createdAtMs || r.isExpired nowMs then
    throw ⟨.expiredRequest, false, "connection request is expired"⟩
  if DEFAULT_REQUEST_TTL_MS < r.expiresAtMs - r.createdAtMs then
    throw ⟨.invalidRequest, false, "connection request lifetime exceeds the supported bound"⟩

end ConnectionRequest

/-! ## The model -/

/-- The state of the application. -/
structure AppModel where
  mode : DeploymentMode
  state : AppState
  hostStatus : HostStatus
  devices : List DeviceSummary
  pendingRequest : Option ConnectionRequest
  usedRequestIds : List Text
  activeDeviceId : Option Text
  activeSessionId : Option Text
  activePermissions : PermissionSet

abbrev Answer := Except AppError (List AppEvent)

namespace AppModel

/-- Where a model without a session rests. -/
def restingState : DeploymentMode → AppState
  | .local_ => .ready
  | .secure => .signedOut

/-- `from_config` on a valid configuration; `local_default` is the local one. -/
def new (mode : DeploymentMode) : AppModel :=
  { mode, state := restingState mode, hostStatus := .disabled, devices := [],
    pendingRequest := none, usedRequestIds := [], activeDeviceId := none, activeSessionId := none,
    activePermissions := .none }

variable (m : AppModel)

def clearActiveSession : AppModel :=
  { m with activeDeviceId := none, activeSessionId := none, activePermissions := .none,
           pendingRequest := none }

def addDevice (device : DeviceSummary) : AppModel :=
  if m.devices.any (·.id = device.id) then
    { m with devices := m.devices.replaceF fun d => if d.id = device.id then some device else none }
  else if m.devices.length < MAX_DEVICES then { m with devices := m.devices ++ [device] }
  else m

def replaceDevices (devices : List DeviceSummary) : AppModel :=
  { m with devices := devices.take MAX_DEVICES }

def takePending (requestId : Text) (nowMs : ℕ) : AppModel × Except AppError ConnectionRequest :=
  match m.pendingRequest with
  | none => (m, .error (invalidState "no connection request is awaiting a decision"))
  | some request =>
    if request.requestId ≠ requestId then
      (m, .error ⟨.invalidRequest, false, "request ID does not match the pending request"⟩)
    else if request.expiresAtMs ≤ nowMs then
      ({ m with pendingRequest := none, state := .ready },
        .error ⟨.expiredRequest, false, "connection request expired"⟩)
    else ({ m with pendingRequest := none }, .ok request)

/-- The checks of `connect`, and the request they let through. -/
def prepareRequest (deviceId requestId : Text) (requested : PermissionSet) (nowMs : ℕ) :
    Except AppError ConnectionRequest := do
  match m.state with
  | .ready => pure ()
  | _ => throw (invalidState "connect requires the ready state")
  validateId "device_id" deviceId
  validateId "request_id" requestId
  if requestId ∈ m.usedRequestIds then
    throw ⟨.duplicateRequest, false, "request ID has already been used"⟩
  match m.devices.find? (·.id = deviceId) with
  | none => throw ⟨.deviceUnavailable, true, "device is not in the directory"⟩
  | some device =>
    if !device.online || !device.hostingEnabled then
      throw ⟨.deviceUnavailable, true, "device is offline or hosting is disabled"⟩
  if 2 ^ 64 ≤ nowMs + DEFAULT_REQUEST_TTL_MS then
    throw ⟨.invalidRequest, false, "request timestamp overflow"⟩
  let request : ConnectionRequest :=
    { requestId, deviceId, requested, createdAtMs := nowMs,
      expiresAtMs := nowMs + DEFAULT_REQUEST_TTL_MS }
  request.validate nowMs
  return request

def connect (deviceId requestId : Text) (requested : PermissionSet) (nowMs : ℕ) :
    AppModel × Answer :=
  match m.prepareRequest deviceId requestId requested nowMs with
  | .error error => (m, .error error)
  | .ok request =>
    let used := m.usedRequestIds ++ [requestId]
    ({ m with
        usedRequestIds := if MAX_USED_REQUEST_IDS < used.length then used.tail else used
        pendingRequest := some request
        state := .waitingForApproval deviceId requestId },
      .ok [.approvalRequired request])

def approve (requestId : Text) (available : PermissionSet) (nowMs : ℕ) : AppModel × Answer :=
  match m.takePending requestId nowMs with
  | (m, .error error) => (m, .error error)
  | (m, .ok request) =>
    let permissions := request.requested.intersect available
    if request.requested.view && !permissions.view then
      (m, .error ⟨.permissionDenied, false, "host cannot grant the required view permission"⟩)
    else
      ({ m with
          activePermissions := permissions
          activeDeviceId := some request.deviceId
          state := .connecting request.deviceId },
        .ok [.connectionApproved requestId permissions])

def reject (requestId : Text) (nowMs : ℕ) : AppModel × Answer :=
  match m.takePending requestId nowMs with
  | (m, .error error) => (m, .error error)
  | (m, .ok request) =>
    ({ m with state := .ready }, .ok [.connectionRejected request.requestId .denied])

def tick (nowMs : ℕ) : AppModel × Answer :=
  match m.pendingRequest with
  | some request =>
    if request.isExpired nowMs then
      ({ m with pendingRequest := none, state := .ready },
        .ok [.connectionRejected request.requestId .expired])
    else (m, .ok [])
  | none => (m, .ok [])

def established (sessionId : Text) (generation : ℕ) : AppModel × Answer :=
  match validateId "session_id" sessionId with
  | .error error => (m, .error error)
  | .ok () =>
    if generation = 0 then
      (m, .error ⟨.invalidRequest, false, "session generation must be positive"⟩)
    else
      match m.state with
      | .connecting deviceId | .negotiating deviceId | .reconnecting deviceId _ =>
        ({ m with
            activeDeviceId := some deviceId
            activeSessionId := some sessionId
            state := .connected deviceId sessionId generation },
          .ok [.connectionReady sessionId generation])
      | _ => (m, .error (invalidState "connection established in the wrong state"))

def connectionFailed (retryable : Bool) : AppModel × Answer :=
  match m.state with
  | .requestingConnection .. | .waitingForApproval .. | .connecting _ | .negotiating _
  | .reconnecting .. =>
    ({ m.clearActiveSession with
        state := .failed (if retryable then .unavailable else .transport) retryable
          (if retryable then "connection could not be established"
           else "connection could not be established and cannot be retried") },
      .ok [.connectionFailed retryable])
  | _ => (m, .error (invalidState "connection failure requires an active connection attempt"))

def connectionLost (retryable : Bool) : AppModel × Answer :=
  match m.state with
  | .connected deviceId sessionId _ | .reconnecting deviceId sessionId =>
    if retryable then
      ({ m with state := .reconnecting deviceId sessionId }, .ok [.reconnectStarted])
    else
      ({ m.clearActiveSession with
          state := .failed .transport false "connection ended and cannot be retried" },
        .ok [.disconnected])
  | _ => (m, .error (invalidState "connection loss requires an active session"))

/-- A session that is up is torn down; an attempt that is still under way is given up at once. -/
def disconnect : AppModel × Answer :=
  match m.state with
  | .connected deviceId .. | .reconnecting deviceId _ =>
    ({ m with state := .disconnecting deviceId }, .ok [.disconnectRequested])
  | .waitingForApproval .. | .connecting _ | .negotiating _ =>
    ({ m with pendingRequest := none, state := .ready }, .ok [.disconnected])
  | _ => (m, .error (invalidState "nothing is connected"))

def dispatchHosting : AppCommand → AppModel × Answer
  | .enableHosting =>
    match m.hostStatus with
    | .disabled | .failed .. => ({ m with hostStatus := .starting }, .ok [.hostStartRequested])
    | .starting | .ready => (m, .ok [])
  | .disableHosting =>
    ({ m with hostStatus := .disabled },
      match m.hostStatus with
      | .disabled => .ok []
      | _ => .ok [.hostStopRequested])
  | .hostStarting =>
    match m.hostStatus with
    | .disabled => (m, .error ⟨.invalidState, false, "hosting is disabled"⟩)
    | .starting => (m, .ok [])
    | _ => ({ m with hostStatus := .starting }, .ok [.hostStarting])
  | .hostReady =>
    match m.hostStatus with
    | .starting | .ready => ({ m with hostStatus := .ready }, .ok [.hostReady])
    | _ => (m, .error (invalidState "host is not starting"))
  | .hostFailed message retryable =>
    match m.hostStatus with
    | .disabled => (m, .error (invalidState "disabled host cannot report a failure"))
    | _ =>
      ({ m with hostStatus := .failed message retryable },
        .ok [.hostFailed (if retryable then .unavailable else .internal)])
  | _ => (m, .ok [])

def dispatch : AppCommand → AppModel × Answer
  | .beginAuthentication =>
    if m.mode = .local_ then
      (m, .error ⟨.invalidState, false, "local mode does not require account authentication"⟩)
    else
      match m.state with
      | .signedOut => ({ m with state := .authenticating }, .ok [.authenticationStarted])
      | _ => (m, .error (invalidState "authentication can start only from signed out"))
  | .authenticationSucceeded =>
    match m.state with
    | .authenticating => ({ m with state := .ready }, .ok [])
    | _ => (m, .error (invalidState "authentication succeeded in the wrong state"))
  | .authenticationFailed retryable =>
    match m.state with
    | .authenticating => ({ m with state := .signedOut }, .ok [.authenticationFailed retryable])
    | _ => (m, .error (invalidState "authentication failed in the wrong state"))
  | .signOut =>
    match m.state with
    | .ready => ({ m.clearActiveSession with state := restingState m.mode }, .ok [.signedOut])
    | _ => (m, .error (invalidState "sign out requires an idle ready state"))
  | .connect deviceId requestId requested nowMs => m.connect deviceId requestId requested nowMs
  | .approveRequest requestId available nowMs => m.approve requestId available nowMs
  | .rejectRequest requestId nowMs => m.reject requestId nowMs
  | .tick nowMs => m.tick nowMs
  | .connectionNegotiating =>
    match m.state with
    | .connecting deviceId =>
      ({ m with state := .negotiating deviceId }, .ok [.connectionNegotiationStarted])
    | _ => (m, .error (invalidState "negotiation requires a connecting request"))
  | .connectionEstablished sessionId generation => m.established sessionId generation
  | .connectionFailed retryable => m.connectionFailed retryable
  | .connectionLost retryable => m.connectionLost retryable
  | .clearFailure =>
    match m.state with
    | .failed .. =>
      ({ m.clearActiveSession with state := restingState m.mode }, .ok [.failureCleared])
    | _ => (m, .error (invalidState "no failure to clear"))
  | .disconnect => m.disconnect
  | .disconnected =>
    match m.state with
    | .disconnecting _ => ({ m.clearActiveSession with state := .ready }, .ok [.disconnected])
    | _ => (m, .error (invalidState "disconnect completion is not expected"))
  | .enableHosting => m.dispatchHosting .enableHosting
  | .disableHosting => m.dispatchHosting .disableHosting
  | .hostStarting => m.dispatchHosting .hostStarting
  | .hostReady => m.dispatchHosting .hostReady
  | .hostFailed message retryable => m.dispatchHosting (.hostFailed message retryable)

end AppModel

/-! ## What a command can do -/

def AppState.inSession : AppState → Bool
  | .connecting _ | .negotiating _ | .connected .. | .reconnecting .. | .disconnecting _ => true
  | _ => false

/-- A connection attempt that was approved and is not up yet. -/
def AppState.attempting : AppState → Bool
  | .connecting _ | .negotiating _ => true
  | _ => false

namespace AppModel

def SameActive (m m' : AppModel) : Prop :=
  m'.activeDeviceId = m.activeDeviceId ∧ m'.activeSessionId = m.activeSessionId ∧
    m'.activePermissions = m.activePermissions

end AppModel

inductive Shift (m : AppModel) : AppCommand → AppModel → Prop
  /-- Nothing about the session changes. -/
  | stays (c : AppCommand) (m' : AppModel) : m.SameActive m' →
      m'.state.inSession = m.state.inSession →
      m'.pendingRequest = none ∨ m'.pendingRequest = m.pendingRequest → Shift m c m'
  /-- A request waits for approval, out of a ready state. -/
  | asked (c : AppCommand) (m' : AppModel) : m.SameActive m' → m.state = .ready →
      m'.state.inSession = false → Shift m c m'
  | dropped (c : AppCommand) : m.pendingRequest ≠ none →
      Shift m c { m with pendingRequest := none, state := .ready }
  | cleared (c : AppCommand) (state : AppState) : state.inSession = false →
      Shift m c { m.clearActiveSession with state }
  | approved (requestId : Text) (available : PermissionSet) (nowMs : ℕ) (r : ConnectionRequest) :
      m.pendingRequest = some r → (m.approve requestId available nowMs).2.isOk = true →
      Shift m (.approveRequest requestId available nowMs)
        { m with
          pendingRequest := none
          activePermissions := r.requested.intersect available
          activeDeviceId := some r.deviceId
          state := .connecting r.deviceId }
  | established (c : AppCommand) (deviceId sessionId : Text) (generation : ℕ) :
      m.state.inSession = true →
      Shift m c { m with
        activeDeviceId := some deviceId
        activeSessionId := some sessionId
        state := .connected deviceId sessionId generation }
  /-- An approved attempt is given up, and what is active stays. -/
  | abandoned : m.state.attempting = true →
      Shift m .disconnect { m with pendingRequest := none, state := .ready }

namespace AppModel

variable {m m' : AppModel} {c : AppCommand}

theorem SameActive.refl (m : AppModel) : m.SameActive m := ⟨rfl, rfl, rfl⟩

theorem inSession_restingState : ∀ mode, (restingState mode).inSession = false
  | .local_ => rfl
  | .secure => rfl

theorem shift_refl (m : AppModel) (c : AppCommand) : Shift m c m :=
  .stays c m (.refl m) rfl (.inr rfl)

theorem takePending_cases (requestId : Text) (nowMs : ℕ) :
    (∃ e, m.takePending requestId nowMs = (m, .error e)) ∨
      (∃ e, m.pendingRequest ≠ none ∧ m.takePending requestId nowMs =
        ({ m with pendingRequest := none, state := .ready }, .error e)) ∨
      ∃ r, m.pendingRequest = some r ∧
        m.takePending requestId nowMs = ({ m with pendingRequest := none }, .ok r) := by
  unfold takePending
  cases hp : m.pendingRequest with
  | none => exact .inl ⟨_, rfl⟩
  | some r =>
    dsimp only
    split_ifs
    · exact .inl ⟨_, rfl⟩
    · exact .inr (.inl ⟨_, by simp, rfl⟩)
    · exact .inr (.inr ⟨r, rfl, rfl⟩)

theorem shift_connect (deviceId requestId : Text) (requested : PermissionSet) (nowMs : ℕ) :
    Shift m c (m.connect deviceId requestId requested nowMs).1 := by
  unfold connect
  cases hr : m.prepareRequest deviceId requestId requested nowMs with
  | error e => exact shift_refl m c
  | ok r =>
    have hready : m.state = .ready := by
      cases hs : m.state with
      | ready => rfl
      | _ =>
        simp [prepareRequest, hs, bind, Except.bind, throw, throwThe, MonadExceptOf.throw] at hr
    exact .asked c _ (.refl m) hready rfl

theorem shift_approve (requestId : Text) (available : PermissionSet) (nowMs : ℕ) :
    Shift m (.approveRequest requestId available nowMs)
      (m.approve requestId available nowMs).1 := by
  rcases m.takePending_cases requestId nowMs with ⟨e, h⟩ | ⟨e, hp, h⟩ | ⟨r, hp, h⟩
  · rw [approve, h]
    exact shift_refl m _
  · rw [approve, h]
    exact .dropped _ hp
  · by_cases hv : (r.requested.view && !(r.requested.intersect available).view) = true
    · simp only [approve, h, if_pos hv]
      exact .stays _ _ (.refl m) rfl (.inl rfl)
    · have hok : (m.approve requestId available nowMs).2.isOk = true := by
        simp only [approve, h, if_neg hv, Except.isOk, Except.toBool]
      have hs := Shift.approved requestId available nowMs r hp hok
      simpa only [approve, h, if_neg hv] using hs

theorem shift_reject (requestId : Text) (nowMs : ℕ) : Shift m c (m.reject requestId nowMs).1 := by
  unfold reject
  rcases m.takePending_cases requestId nowMs with ⟨e, h⟩ | ⟨e, hp, h⟩ | ⟨r, hp, h⟩
  · rw [h]
    exact shift_refl m c
  · rw [h]
    exact .dropped c hp
  · rw [h]
    exact .dropped c (by rw [hp]; simp)

theorem shift_tick (nowMs : ℕ) : Shift m c (m.tick nowMs).1 := by
  unfold tick
  cases hp : m.pendingRequest with
  | none => exact shift_refl m c
  | some r =>
    dsimp only
    split_ifs
    · exact .dropped c (by rw [hp]; simp)
    · exact shift_refl m c

theorem shift_established (sessionId : Text) (generation : ℕ) :
    Shift m c (m.established sessionId generation).1 := by
  unfold established
  cases validateId "session_id" sessionId with
  | error e => exact shift_refl m c
  | ok u =>
    split_ifs
    · exact shift_refl m c
    · cases hs : m.state with
      | connecting deviceId | negotiating deviceId | reconnecting deviceId _ =>
        exact .established c deviceId sessionId generation (by rw [hs]; rfl)
      | _ => exact shift_refl m c

theorem shift_connectionFailed (retryable : Bool) : Shift m c (m.connectionFailed retryable).1 := by
  unfold connectionFailed
  split
  any_goals exact shift_refl m c
  all_goals exact .cleared c _ rfl

theorem shift_connectionLost (retryable : Bool) : Shift m c (m.connectionLost retryable).1 := by
  unfold connectionLost
  cases hs : m.state with
  | connected deviceId sessionId _ | reconnecting deviceId sessionId =>
    cases retryable with
    | true => exact .stays c _ (.refl m) (by rw [hs]; rfl) (.inr rfl)
    | false => exact .cleared c _ rfl
  | _ => exact shift_refl m c

theorem shift_disconnect : Shift m .disconnect m.disconnect.1 := by
  unfold disconnect
  cases hs : m.state with
  | connected deviceId _ _ | reconnecting deviceId _ =>
    exact .stays _ _ (.refl m) (by rw [hs]; rfl) (.inr rfl)
  | waitingForApproval => exact .stays _ _ (.refl m) (by rw [hs]; rfl) (.inl rfl)
  | connecting | negotiating => exact .abandoned (by rw [hs]; rfl)
  | _ => exact shift_refl m _

theorem shift_hosting (c d : AppCommand) : Shift m c (m.dispatchHosting d).1 := by
  have hstays (status : HostStatus) : Shift m c { m with hostStatus := status } :=
    .stays c _ (.refl m) rfl (.inr rfl)
  cases d with
  | enableHosting | hostStarting | hostReady | hostFailed =>
    unfold dispatchHosting
    dsimp only
    split <;> exact hstays _
  | disableHosting => exact hstays _
  | _ => exact shift_refl m c

/-- **What a command can do.** -/
theorem dispatch_shift (m : AppModel) (c : AppCommand) : Shift m c (m.dispatch c).1 := by
  cases c with
  | connect deviceId requestId requested nowMs =>
    exact shift_connect deviceId requestId requested nowMs
  | approveRequest requestId available nowMs => exact shift_approve requestId available nowMs
  | rejectRequest requestId nowMs => exact shift_reject requestId nowMs
  | tick nowMs => exact shift_tick nowMs
  | connectionEstablished sessionId generation => exact shift_established sessionId generation
  | connectionFailed retryable => exact shift_connectionFailed retryable
  | connectionLost retryable => exact shift_connectionLost retryable
  | disconnect => exact shift_disconnect
  | enableHosting | disableHosting | hostStarting | hostReady | hostFailed =>
    exact shift_hosting _ _
  | beginAuthentication =>
    unfold dispatch
    split_ifs
    · exact shift_refl m _
    · cases hs : m.state with
      | signedOut => exact .stays _ _ (.refl m) (by rw [hs]; rfl) (.inr rfl)
      | _ => exact shift_refl m _
  | authenticationSucceeded | authenticationFailed retryable =>
    unfold dispatch
    cases hs : m.state with
    | authenticating => exact .stays _ _ (.refl m) (by rw [hs]; rfl) (.inr rfl)
    | _ => exact shift_refl m _
  | connectionNegotiating =>
    unfold dispatch
    cases hs : m.state with
    | connecting deviceId => exact .stays _ _ (.refl m) (by rw [hs]; rfl) (.inr rfl)
    | _ => exact shift_refl m _
  | signOut =>
    unfold dispatch
    cases hs : m.state with
    | ready => exact .cleared _ _ (inSession_restingState m.mode)
    | _ => exact shift_refl m _
  | clearFailure =>
    unfold dispatch
    cases hs : m.state with
    | failed => exact .cleared _ _ (inSession_restingState m.mode)
    | _ => exact shift_refl m _
  | disconnected =>
    unfold dispatch
    cases hs : m.state with
    | disconnecting => exact .cleared _ _ rfl
    | _ => exact shift_refl m _

end AppModel

end OpenStream.App
