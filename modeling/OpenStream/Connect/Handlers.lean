import OpenStream.Account.Service
import OpenStream.Connect.Broker
import OpenStream.HostIpc.Token

/-!
# The connect handlers

The handlers of the server that work on the account store, the connect broker and the session map.
Each takes a lock at a time; between two locks any other handler may run. A `Task` is a handler with
what it still has to do, and `World.advance` does the part of it under the next lock.

* `World`: the three stores, the tasks, and what was recorded, revoked and answered.
-/

namespace OpenStream.Connect

open Account (Text AccountStore AccountPrincipal Call DeviceTrust DeviceRegistration Draws
  ControlPlaneError)
open HostIpc (Capabilities)

def MAX_LIVE_SESSIONS : ℕ := 4096

def DEFAULT_TTL : ℕ := 3600 * 1000

def SESSION_GRANT_LIFETIME_MS : ℕ := 3600 * 1000

structure SessionOwnership where
  accountId : Text
  requesterDeviceId : Text
  targetDeviceId : Text
  requestId : Text
  deriving DecidableEq

/-- What these handlers see of a session. -/
structure LiveSession where
  expiresAt : ℕ
  ownership : Option SessionOwnership
  hostToken : Text
  clientToken : Text
  deriving DecidableEq

def addIf (c : Capabilities) (given : Bool) (x : Capabilities) : Capabilities :=
  if given then c.withCaps x else c

def brokerCapabilities (p : Permissions) : Capabilities :=
  addIf (addIf (addIf (addIf .CAPTURE p.keyboard .KEYBOARD) p.mouse .MOUSE) p.gamepad .GAMEPAD)
    p.clipboard .CLIPBOARD

structure MachineGrant where
  sessionId : Text
  requesterDeviceId : Text
  targetDeviceId : Text
  capabilities : Capabilities
  issuedAtMs : ℕ
  expiresAtMs : ℕ
  nonce : ℕ
  key : ℕ

/-- Mint an approval; a device without a key gets none. The nonce is `none` when none could be
drawn. -/
def issueSessionGrant (st : AccountStore) (party : Party) (sessionId requesterDeviceId : Text)
    (capabilities : Capabilities) (now lifetime : ℕ) (nonce : Option ℕ) :
    Except ControlPlaneError (Option MachineGrant) :=
  match st.account party.accountId with
  | none => .error .notFound
  | some account =>
    match account.device party.deviceId with
    | none => .error .notFound
    | some device =>
      match device.grantKey with
      | none => .ok none
      | some key =>
        match nonce with
        | none => .error (.internal "could not draw a grant nonce")
        | some nonce => .ok (some ⟨sessionId, requesterDeviceId, party.deviceId, capabilities, now,
            Account.saturatingAdd now lifetime, nonce, key⟩)

/-- A device that was revoked or removed, and how many requests had been recorded by then. -/
structure Revocation where
  accountId : Text
  deviceId : Text
  mark : ℕ
  deriving DecidableEq

/-- A credential in the response of a handler. -/
structure Answer where
  requestId : Text
  permissions : Permissions
  sessionGrant : Option MachineGrant

/-- What an approval knows once the caller is authenticated. -/
structure ApproveCall where
  party : Party
  requestId : Text
  granted : Permissions
  now : ℕ
  deriving DecidableEq

def ApproveCall.names (call : ApproveCall) (q : ConnectRequest) : Prop :=
  q.requestId = call.requestId ∧ q.accountId = call.party.accountId ∧
    q.targetDeviceId = call.party.deviceId

instance (call : ApproveCall) (q : ConnectRequest) : Decidable (call.names q) :=
  inferInstanceAs (Decidable (_ ∧ _))

/-- Handlers that make one call of the broker. -/
inductive Simple
  | presence
  | offline
  | pending
  | deny (requestId : Text)
  deriving DecidableEq

inductive Task
  | done
  | simple (token : Text) (kind : Simple)
  | simpleTrust (party : Party) (kind : Simple)
  | simpleCall (party : Party) (kind : Simple)
  | request (token target : Text) (requested : Permissions)
  | requestTrust (party : Party) (target : Text) (requested : Permissions)
  | requestTarget (party : Party) (target : Text) (requested : Permissions)
  | requestRecord (party : Party) (target : Text) (requested : Permissions)
  | approve (token requestId : Text) (granted : Permissions)
  | approveTrust (call : ApproveCall)
  | approveRequester (call : ApproveCall)
  | approveCheck (call : ApproveCall) (requester : Text)
  | approveMark (call : ApproveCall)
  | approveLimit (call : ApproveCall) (approved : ConnectRequest)
  | approveMint (call : ApproveCall) (approved : ConnectRequest) (sessionId : Text)
  | approveInsert (call : ApproveCall) (approved : ConnectRequest)
      (sessionId hostToken clientToken : Text)
  | approvePublish (call : ApproveCall)
  | approveCollect (call : ApproveCall)
  | approveGrant (call : ApproveCall) (sessionId requester : Text) (permissions : Permissions)
  | withdraw (requestId : Text)
  | observe (token requestId : Text)
  | observeTrust (party : Party) (requestId : Text)
  | observeCollect (party : Party) (requestId : Text)
  | setTrust (token deviceId : Text) (trust : DeviceTrust)
  | setTrustChange (principal : AccountPrincipal) (deviceId : Text) (trust : DeviceTrust)
  | remove (token deviceId : Text)
  | removeChange (principal : AccountPrincipal) (deviceId : Text)
  | login (username : Text) (salt derived : ℕ) (device : Option DeviceRegistration)
  | sweep (revocation : Revocation) (success : Bool)

def Task.arrives : Task → Bool
  | .simple _ _ | .request _ _ _ | .approve _ _ _ | .observe _ _ | .setTrust _ _ _ | .remove _ _
  | .login _ _ _ _ => true
  | _ => false

def Task.records : Task → Bool
  | .requestRecord _ _ _ => true
  | _ => false

/-- What the platform gives a step: the two clocks, identifiers, what the account store draws, the
answer of the rate limiter, and the presence entry the map finds first. -/
structure Env where
  now : ℕ
  nowMs : ℕ
  draws : Draws
  requestId : Text
  grant : SessionGrant
  nonce : Option ℕ
  allow : Bool
  stalest : Text

/-- The server and its handlers in flight. -/
structure World where
  accounts : AccountStore
  connect : ConnectBroker
  sessions : Table Text LiveSession
  tasks : List Task
  /-- The requests recorded, in order. -/
  made : List ConnectRequest
  /-- The revocations and removals made, in order. -/
  revoked : List Revocation
  /-- Those whose call has returned success. -/
  returned : List Revocation
  answers : List Answer

namespace SessionOwnership

def involves (o : SessionOwnership) (accountId deviceId : Text) : Bool :=
  o.accountId = accountId && (o.requesterDeviceId = deviceId || o.targetDeviceId = deviceId)

end SessionOwnership

def LiveSession.ownedBy (s : LiveSession) (accountId deviceId : Text) : Bool :=
  s.ownership.any fun o => o.involves accountId deviceId

namespace World

variable (accountDigest : Text → ℕ) (w : World) (env : Env)

/-! ## Under one lock -/

def principal (token : Text) (next : AccountPrincipal → Task) : World × Task :=
  let r := w.accounts.authorizeAccess token env.nowMs env.draws.save
  ({ w with accounts := r.1 }, r.2.elim .done next)

def connectPrincipal (token : Text) (next : Party → Task) : World × Task :=
  w.principal env token fun p => p.deviceId.elim .done fun deviceId => next ⟨p.accountId, deviceId⟩

def requireTrusted (party : Party) (next refused : Task) : World × Task :=
  match w.accounts.canCreateSession ⟨party.accountId, some party.deviceId⟩ with
  | .ok _ => (w, next)
  | .error _ => (w, refused)

def connectable (accountId target : Text) : Bool :=
  (w.accounts.account accountId).any fun a =>
    a.devices.any fun d => d.id = target && d.trust = .trusted

def simpleCall (party : Party) : Simple → ConnectBroker
  | .presence =>
    w.connect.heartbeat accountDigest party.accountId party.deviceId env.stalest env.now
  | .offline => w.connect.goOffline party.deviceId
  | .pending => (w.connect.pendingForTarget party.accountId party.deviceId env.now).1
  | .deny requestId => (w.connect.deny requestId party.accountId party.deviceId env.now).1

/-- Publish a session unless the server is full. -/
def insertSession (id : Text) (session : LiveSession) (next refused : Task) : World × Task :=
  let sessions := Table.retain (fun _ s => env.now < s.expiresAt) w.sessions
  if MAX_LIVE_SESSIONS ≤ Table.size sessions then ({ w with sessions := sessions }, refused)
  else ({ w with sessions := sessions.insert id session }, next)

def revokeOwnedSessions (accountId deviceId : Text) : World :=
  { w with sessions := Table.retain (fun _ s => !s.ownedBy accountId deviceId) w.sessions }

def revocation (accountId deviceId : Text) : Revocation := ⟨accountId, deviceId, w.made.length⟩

/-! ## The handlers -/

/-- The part of a handler under its next lock. -/
def advance : Task → World × Task
  | .done => (w, .done)
  | .simple token kind => w.connectPrincipal env token fun party =>
      if kind = .presence then .simpleTrust party kind else .simpleCall party kind
  | .simpleTrust party kind => w.requireTrusted party (.simpleCall party kind) .done
  | .simpleCall party kind =>
    ({ w with connect := w.simpleCall accountDigest env party kind }, .done)
  | .request token target requested =>
    w.connectPrincipal env token fun party => .requestTrust party target requested
  | .requestTrust party target requested =>
    w.requireTrusted party (.requestTarget party target requested) .done
  | .requestTarget party target requested =>
    (w, if w.connectable party.accountId target then .requestRecord party target requested else .done)
  | .requestRecord party target requested =>
    let r := w.connect.requestScoped accountDigest env.requestId party.accountId party.deviceId target
      requested env.now
    ({ w with connect := r.1, made := w.made ++ r.2.toOption.toList }, .done)
  | .approve token requestId granted =>
    w.connectPrincipal env token fun party => .approveTrust ⟨party, requestId, granted, env.now⟩
  | .approveTrust call => w.requireTrusted call.party (.approveRequester call) .done
  | .approveRequester call =>
    (w, (w.connect.requesterForTarget call.requestId call.party).elim (.approveMark call)
      (.approveCheck call))
  | .approveCheck call requester => w.requireTrusted ⟨call.party.accountId, requester⟩
      (.approveMark call) (.withdraw call.requestId)
  | .approveMark call =>
    let r := w.connect.approveScoped call.requestId call.party env.grant call.granted call.now
    ({ w with connect := r.1 }, match r.2 with
      | .ok approved => .approveLimit call approved
      | .error .alreadyApproved => .approveCollect call
      | .error _ => .done)
  | .approveLimit call approved =>
    (w, if env.allow then approved.sessionId.elim (.withdraw call.requestId)
        (.approveMint call approved)
      else .withdraw call.requestId)
  | .approveMint call approved sessionId =>
    (w, match w.connect.mintedCredentials call.requestId call.party with
      | .ok (host, client) => .approveInsert call approved sessionId host client
      | .error _ => .done)
  | .approveInsert call approved sessionId host client =>
    w.insertSession env sessionId ⟨env.now + DEFAULT_TTL, some ⟨call.party.accountId,
      approved.requesterDeviceId, call.party.deviceId, call.requestId⟩, host, client⟩
      (.approvePublish call) (.withdraw call.requestId)
  | .approvePublish call =>
    ({ w with connect := w.connect.markPublished call.requestId }, .approveCollect call)
  | .approveCollect call =>
    let requester := (w.connect.requesterDevice call.requestId).getD []
    let r := w.connect.collectHostCredential call.requestId call.party call.now
    ({ w with connect := r.1 }, match r.2 with
      | .ok (sessionId, _) =>
        .approveGrant call sessionId requester (r.1.grantedPermissions call.requestId)
      | .error _ => .done)
  | .approveGrant call sessionId requester permissions =>
    match issueSessionGrant w.accounts call.party sessionId requester
      (brokerCapabilities permissions) env.nowMs SESSION_GRANT_LIFETIME_MS env.nonce with
    | .ok sessionGrant =>
      ({ w with answers := w.answers ++ [⟨call.requestId, permissions, sessionGrant⟩] }, .done)
    | .error _ => (w, .done)
  | .withdraw requestId => ({ w with connect := w.connect.withdraw requestId }, .done)
  | .observe token requestId =>
    w.connectPrincipal env token fun party => .observeTrust party requestId
  | .observeTrust party requestId =>
    w.requireTrusted party (.observeCollect party requestId) .done
  | .observeCollect party requestId =>
    let r := w.connect.observe requestId party.accountId party.deviceId env.now
    match r.2 with
    | .ok .approved =>
      let c := r.1.collectClientCredential requestId party env.now
      match c.2 with
      | .ok _ => ({ w with connect := c.1, answers := w.answers ++
          [⟨requestId, c.1.grantedPermissions requestId, none⟩] }, .done)
      | .error _ => ({ w with connect := c.1 }, .done)
    | _ => ({ w with connect := r.1 }, .done)
  | .setTrust token deviceId trust =>
    if trust = .pending then (w, .done)
    else w.principal env token fun p => .setTrustChange p deviceId trust
  | .setTrustChange p deviceId trust =>
    match w.accounts.canManageDevices p with
    | .error _ => (w, .done)
    | .ok _ =>
      let r := w.accounts.setDeviceTrust p.accountId deviceId trust env.nowMs env.draws
      match r.2 with
      | .error _ => ({ w with accounts := r.1 }, .done)
      | .ok _ =>
        if trust = .revoked then
          ({ w with accounts := r.1, revoked := w.revoked ++ [w.revocation p.accountId deviceId] },
            .sweep (w.revocation p.accountId deviceId) true)
        else ({ w with accounts := r.1 }, .done)
  | .remove token deviceId => w.principal env token fun p => .removeChange p deviceId
  | .removeChange p deviceId =>
    match w.accounts.canManageDevices p with
    | .error _ => (w, .done)
    | .ok _ =>
      let r := w.accounts.removeDevice p.accountId deviceId env.draws
      match r.2 with
      | .error _ => ({ w with accounts := r.1 }, .done)
      | .ok _ =>
        ({ w with accounts := r.1, revoked := w.revoked ++ [w.revocation p.accountId deviceId] },
          .sweep (w.revocation p.accountId deviceId) true)
  | .login username salt derived device =>
    let r := w.accounts.loginDerived username salt derived device env.nowMs env.draws
    ({ w with accounts := r.1 }, match r.2 with
      | .error (.deviceIdentityRevoked accountId deviceId) =>
        .sweep (w.revocation accountId deviceId) false
      | _ => .done)
  | .sweep ρ success =>
    let w := w.revokeOwnedSessions ρ.accountId ρ.deviceId
    ({ w with returned := w.returned ++ if success then [ρ] else [] }, .done)

end World

inductive Action
  | arrive (t : Task)
  /-- A handler gets its next lock. -/
  | step (i : ℕ) (env : Env)
  | account (c : Call) (nowMs : ℕ) (draws : Draws)
  /-- An operator provisions a session, which nobody owns. -/
  | provision (id : Text) (session : LiveSession) (env : Env)
  /-- A session is removed. -/
  | drop (id : Text)

/-- The calls of the account store that no handler above makes. -/
def direct : Call → Bool
  | .login _ _ _ _ | .setTrust _ _ _ | .remove _ _ => false
  | _ => true

def World.evicts (w : World) (env : Env) : Task → Bool
  | .simpleCall party .presence =>
    !(MAX_TRACKED_PRESENCE ≤ Table.size (w.connect.expire env.now).presence &&
      party.deviceId ∉ (w.connect.expire env.now).presence) ||
      (w.connect.expire env.now).Stalest env.stalest
  | _ => true

def World.after (accountDigest : Text → ℕ) (w : World) (i : ℕ) (env : Env) (t : Task) : World :=
  let r := w.advance accountDigest env t
  { r.1 with tasks := w.tasks.set i r.2 }

def world (accountDigest : Text → ℕ) (accounts : AccountStore) : Runs.Machine World Action where
  start := ⟨accounts, .empty, ∅, [], [], [], [], []⟩
  step := fun w a => match a with
    | .arrive t => if t.arrives then some { w with tasks := w.tasks ++ [t] } else none
    | .step i env => w.tasks[i]?.bind fun t =>
      if w.evicts env t then some (w.after accountDigest i env t) else none
    | .account c nowMs draws =>
      if direct c then some { w with accounts := (w.accounts.call nowMs draws c).1 } else none
    | .provision id session env => if session.ownership.isNone then
        some (w.insertSession env id session .done .done).1
      else none
    | .drop id => some { w with sessions := w.sessions.erase id }

def Drawn (w : World) : Action → Prop
  | .step i env => w.tasks[i]?.any Task.records → ∀ m ∈ w.made, m.requestId ≠ env.requestId
  | _ => True

instance (w : World) (a : Action) : Decidable (Drawn w a) := by
  cases a <;> simp only [Drawn] <;> infer_instance

/-! ## Two devices of one account -/

namespace Sample

def laptop : DeviceRegistration := ⟨['l'], ['l'], ['o', 's'], 1⟩

def desktop : DeviceRegistration := ⟨['d'], ['d'], ['o', 's'], 2⟩

def env : Env where
  now := 0
  nowMs := 0
  draws := ⟨[], ['5'], ['6'], ['7'], some 6, none, none⟩
  requestId := ['r']
  grant := ⟨['s'], ['h'], ['c']⟩
  nonce := some 0
  allow := true
  stalest := []

def setUp : List Action :=
  [.account (.register ['a', 'd', 'a'] 1 2 (some laptop) false) 0
      ⟨['1'], ['2'], ['3'], ['4'], some 5, none, none⟩,
    .arrive (.login ['a', 'd', 'a'] 1 2 (some desktop)), .step 0 env,
    .arrive (.setTrust ['3'] ['d'] .trusted), .step 1 env, .step 1 env,
    .arrive (.simple ['6'] .presence), .step 2 env, .step 2 env, .step 2 env]

def ask (requested : Permissions) : List Action :=
  .arrive (.request ['3'] ['d'] requested) :: List.replicate 4 (.step 3 env)

def approve (granted : Permissions) (steps : ℕ) : List Action :=
  .arrive (.approve ['6'] ['r'] granted) :: List.replicate steps (.step 4 env)

end Sample

end OpenStream.Connect
