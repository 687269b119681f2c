import OpenStream.Account.Store
import Mathlib.Order.Basic

/-!
# The connect broker

Who is online, and which connection requests are in flight.

* `ConnectBroker`: the requests, records that know their identifier, and the presence of devices.

Instants are milliseconds. The digest of an account identifier comes from the hasher of the standard
library; it is a parameter here and need not be injective.
-/

namespace OpenStream.Connect

open Account (Text)

def PRESENCE_TTL : ℕ := 90000

def REQUEST_TTL : ℕ := 120000

def APPROVAL_TTL : ℕ := 60000

def MAX_PENDING_REQUESTS : ℕ := 1024

def MAX_TRACKED_PRESENCE : ℕ := 4096

def MAX_REQUESTS_PER_ACCOUNT : ℕ := 16

structure Party where
  accountId : Text
  deviceId : Text
  deriving DecidableEq

/-- The classes a session is scoped to. -/
structure Permissions where
  view : Bool
  keyboard : Bool
  mouse : Bool
  gamepad : Bool
  clipboard : Bool
  microphone : Bool
  tablet : Bool
  virtualUsb : Bool
  deriving DecidableEq

def Permissions.none : Permissions := ⟨false, false, false, false, false, false, false, false⟩

def Permissions.Le (p q : Permissions) : Prop :=
  (p.view → q.view) ∧ (p.keyboard → q.keyboard) ∧ (p.mouse → q.mouse) ∧ (p.gamepad → q.gamepad) ∧
    (p.clipboard → q.clipboard) ∧ (p.microphone → q.microphone) ∧ (p.tablet → q.tablet) ∧
    (p.virtualUsb → q.virtualUsb)

instance (p q : Permissions) : Decidable (p.Le q) := by
  unfold Permissions.Le
  infer_instance

/-- The session an approval creates, with its two credentials. -/
structure SessionGrant where
  sessionId : Text
  hostCredential : Text
  clientCredential : Text
  deriving DecidableEq

inductive ConnectState
  | pending
  | approved
  | denied
  | expired
  deriving DecidableEq

inductive ConnectError
  | notFound
  | forbidden
  | invalidState
  | alreadyApproved
  | notPublished
  | targetOffline
  | targetNotConnectable
  | busy
  deriving DecidableEq

structure ConnectRequest where
  requestId : Text
  accountId : Text
  requesterDeviceId : Text
  targetDeviceId : Text
  state : ConnectState
  createdAt : ℕ
  expiresAt : ℕ
  requested : Permissions
  granted : Permissions
  sessionId : Option Text
  /-- Whether the session exists yet. -/
  published : Bool
  hostCredential : Option Text
  clientCredential : Option Text
  deriving DecidableEq

def ConnectRequest.terms (q : ConnectRequest) : Text × Text × Text × Text × Permissions :=
  (q.requestId, q.accountId, q.requesterDeviceId, q.targetDeviceId, q.requested)

theorem ConnectRequest.terms_eq {q r : ConnectRequest} : q.terms = r.terms ↔
    q.requestId = r.requestId ∧ q.accountId = r.accountId ∧
      q.requesterDeviceId = r.requesterDeviceId ∧ q.targetDeviceId = r.targetDeviceId ∧
      q.requested = r.requested := by
  simp [terms]

structure Presence where
  accountIdHash : ℕ
  lastSeen : ℕ

/-- Requests and the devices online. -/
structure ConnectBroker where
  requests : List ConnectRequest
  presence : Table Text Presence

abbrev Outcome (α : Type) := ConnectBroker × Except ConnectError α

namespace ConnectBroker

def empty : ConnectBroker := ⟨[], ∅⟩

variable (accountDigest : Text → ℕ) (b : ConnectBroker)

def find (requestId : Text) : Option ConnectRequest :=
  Keyed.get ConnectRequest.requestId b.requests requestId

def modify (requestId : Text) (f : ConnectRequest → ConnectRequest) : ConnectBroker :=
  { b with requests := Keyed.modify ConnectRequest.requestId b.requests requestId f }

/-- Drop what has outlived its deadline. -/
def expire (now : ℕ) : ConnectBroker where
  requests := b.requests.filter fun r => now < r.expiresAt
  presence := Table.retain (fun _ p => now - p.lastSeen < PRESENCE_TTL) b.presence

/-! ## Presence -/

def Stalest (deviceId : Text) : Prop :=
  ∃ p ∈ b.presence.lookup deviceId, ∀ e ∈ b.presence.entries, p.lastSeen ≤ e.2.lastSeen

instance (deviceId : Text) : Decidable (b.Stalest deviceId) := by
  unfold Stalest
  infer_instance

/-- A device is online. At the bound the stalest entry goes; among several the order of the map
decides, so it is an argument. -/
def heartbeat (accountId deviceId stalest : Text) (now : ℕ) : ConnectBroker :=
  let b := b.expire now
  let presence := if MAX_TRACKED_PRESENCE ≤ Table.size b.presence ∧ deviceId ∉ b.presence then
      b.presence.erase stalest
    else b.presence
  { b with presence := presence.insert deviceId ⟨accountDigest accountId, now⟩ }

def isOnline (accountId deviceId : Text) (now : ℕ) : Bool :=
  (b.presence.lookup deviceId).any fun p =>
    p.accountIdHash = accountDigest accountId && now - p.lastSeen < PRESENCE_TTL

def goOffline (deviceId : Text) : ConnectBroker := { b with presence := b.presence.erase deviceId }

/-! ## Requests -/

def requestScoped (requestId accountId requesterDeviceId targetDeviceId : Text)
    (requested : Permissions) (now : ℕ) : Outcome ConnectRequest :=
  let b := b.expire now
  if !b.isOnline accountDigest accountId targetDeviceId now then (b, .error .targetOffline)
  else if requesterDeviceId = targetDeviceId then (b, .error .targetNotConnectable)
  else if MAX_PENDING_REQUESTS ≤ b.requests.length then (b, .error .busy)
  else if MAX_REQUESTS_PER_ACCOUNT ≤ (b.requests.filter fun r => r.accountId = accountId).length then
    (b, .error .busy)
  else
    let request : ConnectRequest := ⟨requestId, accountId, requesterDeviceId, targetDeviceId,
      .pending, now, now + REQUEST_TTL, requested, .none, none, false, none, none⟩
    ({ b with requests := (b.requests.filter fun r => r.requestId ≠ requestId) ++ [request] },
      .ok request)

/-- What a device should be prompting its user about, oldest first. -/
def pendingForTarget (accountId targetDeviceId : Text) (now : ℕ) :
    ConnectBroker × List ConnectRequest :=
  let b := b.expire now
  let pending := b.requests.filter fun r =>
    r.state = .pending && r.accountId = accountId && r.targetDeviceId = targetDeviceId
  (b, pending.mergeSort fun r r' => r.createdAt ≤ r'.createdAt)

def approved (grant : SessionGrant) (granted : Permissions) (now : ℕ) (r : ConnectRequest) :
    ConnectRequest :=
  { r with
    state := .approved
    granted := granted
    sessionId := some grant.sessionId
    hostCredential := some grant.hostCredential
    clientCredential := some grant.clientCredential
    expiresAt := now + APPROVAL_TTL }

def approveScoped (requestId : Text) (answeredBy : Party) (grant : SessionGrant)
    (granted : Permissions) (now : ℕ) : Outcome ConnectRequest :=
  let b := b.expire now
  match b.find requestId with
  | none => (b, .error .notFound)
  | some request =>
    if request.accountId ≠ answeredBy.accountId || request.targetDeviceId ≠ answeredBy.deviceId then
      (b, .error .forbidden)
    else if request.state = .approved then (b, .error .alreadyApproved)
    else if request.state ≠ .pending then (b, .error .invalidState)
    else (b.modify requestId (approved grant granted now), .ok (approved grant granted now request))

def deny (requestId accountId targetDeviceId : Text) (now : ℕ) : Outcome Unit :=
  let b := b.expire now
  match b.find requestId with
  | none => (b, .error .notFound)
  | some request =>
    if request.accountId ≠ accountId || request.targetDeviceId ≠ targetDeviceId then
      (b, .error .forbidden)
    else if request.state ≠ .pending then (b, .error .invalidState)
    else (b.modify requestId fun r => { r with state := .denied, expiresAt := now + APPROVAL_TTL },
      .ok ())

/-! ## Credentials -/

def collect (entitled : ConnectRequest → Text) (credential : ConnectRequest → Option Text)
    (requestId : Text) (party : Party) (now : ℕ) : Outcome (Text × Text) :=
  let b := b.expire now
  match b.find requestId with
  | none => (b, .error .notFound)
  | some request =>
    if request.accountId ≠ party.accountId || entitled request ≠ party.deviceId then
      (b, .error .forbidden)
    else if request.state ≠ .approved then (b, .error .invalidState)
    else if !request.published then (b, .error .notPublished)
    else
      match request.sessionId with
      | none => (b, .error .invalidState)
      | some sessionId =>
        match credential request with
        | none => (b, .error .invalidState)
        | some credential => (b, .ok (sessionId, credential))

def collectHostCredential : Text → Party → ℕ → Outcome (Text × Text) :=
  b.collect ConnectRequest.targetDeviceId ConnectRequest.hostCredential

def collectClientCredential : Text → Party → ℕ → Outcome (Text × Text) :=
  b.collect ConnectRequest.requesterDeviceId ConnectRequest.clientCredential

def grantedPermissions (requestId : Text) : Permissions :=
  ((b.find requestId).map ConnectRequest.granted).getD .none

def requesterDevice (requestId : Text) : Option Text :=
  (b.find requestId).map ConnectRequest.requesterDeviceId

def requesterForTarget (requestId : Text) (target : Party) : Option Text :=
  ((b.find requestId).filter fun r =>
    r.accountId = target.accountId && r.targetDeviceId = target.deviceId).map
      ConnectRequest.requesterDeviceId

/-- Both credentials of an approval, to build the session from. -/
def mintedCredentials (requestId : Text) (answeredBy : Party) : Except ConnectError (Text × Text) :=
  match b.find requestId with
  | none => .error .notFound
  | some request =>
    if request.accountId ≠ answeredBy.accountId || request.targetDeviceId ≠ answeredBy.deviceId then
      .error .forbidden
    else
      match request.hostCredential, request.clientCredential with
      | some host, some client => .ok (host, client)
      | _, _ => .error .invalidState

def markPublished (requestId : Text) : ConnectBroker :=
  b.modify requestId fun r => { r with published := true }

def withdraw (requestId : Text) : ConnectBroker :=
  { b with requests := b.requests.filter fun r => r.requestId ≠ requestId }

def observe (requestId accountId requesterDeviceId : Text) (now : ℕ) : Outcome ConnectState :=
  let b := b.expire now
  match b.find requestId with
  | none => (b, .error .notFound)
  | some request =>
    if request.accountId ≠ accountId || request.requesterDeviceId ≠ requesterDeviceId then
      (b, .error .forbidden)
    else (b, .ok request.state)

variable {b} {now : ℕ}

/-! ## What a call does to the requests -/

theorem expire_sublist (b : ConnectBroker) (now : ℕ) :
    (b.expire now).requests.Sublist b.requests := List.filter_sublist

theorem find_expire {requestId : Text} {q : ConnectRequest}
    (h : (b.expire now).find requestId = some q) :
    q ∈ b.requests ∧ q ∈ (b.expire now).requests ∧ q.requestId = requestId ∧ now < q.expiresAt := by
  have hmem := Keyed.mem_of_get h
  have hkeep := List.mem_filter.mp hmem
  exact ⟨hkeep.1, hmem, Keyed.key_of_get h, by simpa using hkeep.2⟩

theorem requestScoped_spec (accountDigest : Text → ℕ) (b : ConnectBroker)
    (requestId accountId requester target : Text) (requested : Permissions) (now : ℕ) :
    let r := b.requestScoped accountDigest requestId accountId requester target requested now
    (r.1.requests.Sublist b.requests ∧ ∃ e, r.2 = .error e) ∨
      ∃ l : List ConnectRequest, l.Sublist b.requests ∧ (∀ q ∈ l, q.requestId ≠ requestId) ∧
        l.length < MAX_PENDING_REQUESTS ∧
        (l.filter fun q => q.accountId = accountId).length < MAX_REQUESTS_PER_ACCOUNT ∧
        let q : ConnectRequest := ⟨requestId, accountId, requester, target, .pending, now,
          now + REQUEST_TTL, requested, .none, none, false, none, none⟩
        r.1.requests = l ++ [q] ∧ r.2 = .ok q := by
  have hsub := b.expire_sublist now
  intro r
  simp only [r, requestScoped]
  split_ifs with h1 h2 h3 h4
  · exact .inl ⟨hsub, _, rfl⟩
  · exact .inl ⟨hsub, _, rfl⟩
  · exact .inl ⟨hsub, _, rfl⟩
  · exact .inl ⟨hsub, _, rfl⟩
  · refine .inr ⟨(b.expire now).requests.filter fun q => q.requestId ≠ requestId,
      List.filter_sublist.trans hsub, fun q hq => ?_, ?_, ?_, rfl, rfl⟩
    · simpa using (List.mem_filter.mp hq).2
    · exact lt_of_le_of_lt (List.length_filter_le _ _) (not_le.mp h3)
    · refine lt_of_le_of_lt (List.Sublist.length_le ?_) (not_le.mp h4)
      exact List.filter_sublist.filter _

theorem approveScoped_spec (b : ConnectBroker) (requestId : Text) (party : Party)
    (grant : SessionGrant) (granted : Permissions) (now : ℕ) :
    let r := b.approveScoped requestId party grant granted now
    (r.1.requests.Sublist b.requests ∧ ∃ e, r.2 = .error e) ∨
      ∃ q ∈ b.requests, q.requestId = requestId ∧ q.accountId = party.accountId ∧
        q.targetDeviceId = party.deviceId ∧ q.state = .pending ∧
        r.1 = (b.expire now).modify requestId (approved grant granted now) ∧
        r.2 = .ok (approved grant granted now q) := by
  have hsub := b.expire_sublist now
  intro r
  simp only [r, approveScoped]
  cases hf : (b.expire now).find requestId with
  | none => exact .inl ⟨hsub, _, rfl⟩
  | some q =>
    obtain ⟨hq, -, hid, -⟩ := find_expire hf
    simp only
    split_ifs with h1 h2 h3
    · exact .inl ⟨hsub, _, rfl⟩
    · exact .inl ⟨hsub, _, rfl⟩
    · exact .inl ⟨hsub, _, rfl⟩
    · simp only [Bool.or_eq_true, decide_eq_true_eq, not_or, not_not] at h1 h3
      exact .inr ⟨q, hq, hid, h1.1, h1.2, h3, rfl, rfl⟩

theorem deny_spec (b : ConnectBroker) (requestId accountId target : Text) (now : ℕ) :
    let r := b.deny requestId accountId target now
    r.1.requests.Sublist b.requests ∨ r.1 = (b.expire now).modify requestId
      fun q => { q with state := .denied, expiresAt := now + APPROVAL_TTL } := by
  have hsub := b.expire_sublist now
  intro r
  simp only [r, deny]
  cases (b.expire now).find requestId with
  | none => exact .inl hsub
  | some q =>
    simp only
    split_ifs
    · exact .inl hsub
    · exact .inl hsub
    · exact .inr rfl

/-- **What a collection needs**: the entitled party, an approval, a published session, and time. -/
theorem collect_spec (b : ConnectBroker) (entitled : ConnectRequest → Text)
    (credential : ConnectRequest → Option Text) (requestId : Text) (party : Party) (now : ℕ) :
    let r := b.collect entitled credential requestId party now
    r.1 = b.expire now ∧ ∀ x, r.2 = .ok x → ∃ q ∈ b.requests, q.requestId = requestId ∧
      party = ⟨q.accountId, entitled q⟩ ∧ q.state = .approved ∧ q.published = true ∧
      now < q.expiresAt ∧ q.sessionId = some x.1 ∧ credential q = some x.2 ∧
      r.1.find requestId = some q := by
  intro r
  simp only [r, collect]
  cases hf : (b.expire now).find requestId with
  | none => exact ⟨rfl, nofun⟩
  | some q =>
    obtain ⟨hq, -, hid, hexp⟩ := find_expire hf
    simp only
    split_ifs with h1 h2 h3
    · exact ⟨rfl, nofun⟩
    · exact ⟨rfl, nofun⟩
    · exact ⟨rfl, nofun⟩
    · simp only [Bool.or_eq_true, decide_eq_true_eq, not_or, not_not] at h1
      obtain ⟨acc, dev⟩ := party
      obtain ⟨rfl, rfl⟩ := h1
      cases hs : q.sessionId with
      | none => exact ⟨rfl, nofun⟩
      | some session =>
        cases hc : credential q with
        | none => exact ⟨rfl, nofun⟩
        | some c =>
          refine ⟨rfl, fun x hx => ⟨q, hq, hid, rfl, not_not.mp h2, by simpa using h3, hexp, ?_⟩⟩
          cases hx
          exact ⟨hs, hc, hf⟩

theorem observe_fst (b : ConnectBroker) (requestId accountId requester : Text) (now : ℕ) :
    (b.observe requestId accountId requester now).1 = b.expire now := by
  simp only [observe]
  cases (b.expire now).find requestId with
  | none => rfl
  | some q =>
    simp only
    split_ifs <;> rfl

/-- No request is new, none changes who asked whom for what or what was granted, and none is pending
again. -/
def Follows (b b' : ConnectBroker) : Prop :=
  ∀ q' ∈ b'.requests, ∃ q ∈ b.requests, q'.terms = q.terms ∧ q'.granted = q.granted ∧
    (q'.state = .pending → q.state = .pending)

variable {b' b'' : ConnectBroker}

theorem Follows.trans (h : Follows b b') (h' : Follows b' b'') : Follows b b'' := by
  intro q'' hq''
  obtain ⟨q', hq', ht', hg', hs'⟩ := h' q'' hq''
  obtain ⟨q, hq, ht, hg, hs⟩ := h q' hq'
  exact ⟨q, hq, ht'.trans ht, hg'.trans hg, fun hp => hs (hs' hp)⟩

theorem Follows.of_sublist (h : b'.requests.Sublist b.requests) : Follows b b' :=
  fun q hq => ⟨q, h.subset hq, rfl, rfl, id⟩

theorem Follows.refl (b : ConnectBroker) : Follows b b := .of_sublist (List.Sublist.refl _)

theorem follows_expire (b : ConnectBroker) (now : ℕ) : Follows b (b.expire now) :=
  .of_sublist (b.expire_sublist now)

theorem follows_modify (b : ConnectBroker) (requestId : Text) {f : ConnectRequest → ConnectRequest}
    (ht : ∀ q, (f q).terms = q.terms) (hg : ∀ q, (f q).granted = q.granted)
    (hs : ∀ q, (f q).state = .pending → q.state = .pending) : Follows b (b.modify requestId f) := by
  intro q' hq'
  rcases Keyed.mem_modify hq' with ⟨hq, -⟩ | ⟨q, hq, -, rfl⟩
  · exact ⟨q', hq, rfl, rfl, id⟩
  · exact ⟨q, hq, ht q, hg q, hs q⟩

theorem follows_deny (b : ConnectBroker) (requestId accountId target : Text) (now : ℕ) :
    Follows b (b.deny requestId accountId target now).1 := by
  rcases b.deny_spec requestId accountId target now with h | h
  · exact .of_sublist h
  · rw [h]
    refine (b.follows_expire now).trans (follows_modify _ _ (fun _ => rfl) (fun _ => rfl) ?_)
    intro q hq
    cases hq

theorem follows_collect (b : ConnectBroker) (entitled : ConnectRequest → Text)
    (credential : ConnectRequest → Option Text) (requestId : Text) (party : Party) (now : ℕ) :
    Follows b (b.collect entitled credential requestId party now).1 := by
  rw [(b.collect_spec entitled credential requestId party now).1]
  exact b.follows_expire now

end ConnectBroker

end OpenStream.Connect
