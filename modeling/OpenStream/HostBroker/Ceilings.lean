import OpenStream.HostBroker.Session
import OpenStream.Lib.Runs

/-!
# The ceilings of a broker connection

What is granted on a connection, when it is used and what is shown, over every sequence of requests
and pumps.

* **`Connection.ceilings`**: the grant stays below the request, the approval, the policy and the seat,
  and the devices are reached only with the token issued on the connection.
* **`Connection.timely`**: a capability is used in time exactly if the request comes in time;
  **`Connection.used_late`**: one that does not.
* **`Connection.pictured`**: pictures are shown only under the capture capability if every request and
  approval asks for it; **`Connection.pictured_without`**: pictures shown without it.
-/

namespace OpenStream.HostBroker

open HostIpc Bytes List Option BrokerSession
open Capabilities (clampedTo clampedTo_le_right clampedTo_le_left CAPTURE le_clampedTo)

/-! ## What a request can do -/

namespace BrokerSession

variable (hmac : Str → Str → Str) (out : Surroundings) (s : BrokerSession)

def verifies : ServiceRequest → Option SessionGrant
  | .openCapture tokenId approval _ _ =>
    if s.handshaken && (tokenId = NO_GRANT || s.authorised tokenId) then
      (s.verifyApproval hmac out approval).2.toOption
    else none
  | _ => none

def accepts : ServiceRequest → Option SessionGrant
  | .openCapture tokenId approval _ _ =>
    if s.handshaken then (s.checkOpen hmac out tokenId approval).2.toOption else none
  | _ => none

variable {hmac out s}

theorem ok_of_toOption {ε α : Type} {x : Except ε α} {a : α} (h : x.toOption = some a) :
    x = .ok a := by
  cases x with
  | error e => cases h
  | ok b => exact congrArg Except.ok (some.inj h)

variable {g : SessionGrant}

theorem verifyApproval_ok {encoded : Str}
    (h : (s.verifyApproval hmac out encoded).2 = .ok g) : SessionGrant.decodeAndVerify hmac encoded
      s.authority.key out.now s.authority.deviceId = .ok g := by
  unfold verifyApproval at h
  split_ifs at h
  split at h
  · cases h
  next approved hdec =>
  split at h
  · cases h
    exact hdec
  · cases h
    exact hdec
  · cases h
  · cases h

theorem checkOpen_ok {tokenId : ℕ} {approval : Str}
    (h : (s.checkOpen hmac out tokenId approval).2 = .ok g) :
    (tokenId = NO_GRANT ∨ s.authorised tokenId) ∧
      (s.verifyApproval hmac out approval).2 = .ok g ∧ ∀ x ∈ s.sessionId, x = g.sessionId := by
  unfold checkOpen at h
  split_ifs at h with hauth
  have hauth : tokenId = NO_GRANT ∨ s.authorised tokenId := by
    simpa [or_iff_not_imp_left] using hauth
  split at h
  · cases h
  next leases approved hv =>
  split_ifs at h with hsess
  cases h
  refine ⟨hauth, by rw [hv], fun x hx => ?_⟩
  rw [mem_def] at hx
  simpa [hx] using hsess

theorem accepts_some {r : ServiceRequest} (h : s.accepts hmac out r = some g) :
    s.verifies hmac out r = some g ∧ ∀ x ∈ s.sessionId, x = g.sessionId := by
  cases r with
  | openCapture tokenId approval requested params =>
    simp only [accepts] at h
    split_ifs at h with hs
    obtain ⟨hauth, hv, hsess⟩ := checkOpen_ok (ok_of_toOption h)
    refine ⟨?_, hsess⟩
    have hpass : (s.handshaken && (tokenId = NO_GRANT || s.authorised tokenId)) = true := by
      simpa [hs] using hauth
    rw [verifies, if_pos hpass, hv]
    rfl
  | _ => cases h

theorem verifies_some {r : ServiceRequest} (h : s.verifies hmac out r = some g) :
    ∃ tokenId encoded requested params, r = .openCapture tokenId encoded requested params ∧
      SessionGrant.decodeAndVerify hmac encoded s.authority.key out.now s.authority.deviceId =
        .ok g := by
  cases r with
  | openCapture tokenId approval requested params =>
    simp only [verifies] at h
    split_ifs at h
    exact ⟨tokenId, approval, requested, params, rfl, verifyApproval_ok (ok_of_toOption h)⟩
  | _ => cases h

end BrokerSession

/-- Whether a call shows or moves nothing. -/
def DeviceCall.plain : DeviceCall → Bool
  | .framesSetBitrate _ => true
  | .framesRequestKeyframe => true
  | .framesClose => true
  | _ => false

namespace BrokerSession

variable {hmac : Str → Str → Str} {out : Surroundings} {s : BrokerSession}

/-- What an accepted request leaves. -/
def grantTo (s : BrokerSession) (g : SessionGrant) (t : SessionToken) (requested : Capabilities)
    (params : CaptureParams) (capturing : Bool) : BrokerSession :=
  { s with
    sessionId := some g.sessionId
    grant := some t
    requested := requested
    approvedCapabilities := g.capabilities
    seat := params.seat
    granted := requested.clampedTo (effectiveGrant g.capabilities s.ceiling params.seat)
    capturing := capturing }

/-- What a switch leaves. -/
def regrant (s : BrokerSession) (seat : Seat) : BrokerSession :=
  { s with
    seat := seat
    granted := s.requested.clampedTo (effectiveGrant s.approvedCapabilities s.ceiling seat) }

variable (hmac out s) in
/-- **What a request can do.** -/
inductive Handled : ServiceRequest → BrokerSession → List DeviceCall → Prop
  | quiet {r : ServiceRequest} {handshaken done capturing : Bool} {calls : List DeviceCall}
      (hn : s.accepts hmac out r = none) (hb : capturing → s.capturing)
      (hc : ∀ c ∈ calls, c.plain) :
      Handled r { s with handshaken := handshaken, done := done, capturing := capturing } calls
  | unissued {r : ServiceRequest} {g : SessionGrant} (hg : s.accepts hmac out r = some g)
      (hn : s.grant = none) : Handled r { s with sessionId := some g.sessionId } []
  | opened {tokenId : ℕ} {approval : Str} {requested : Capabilities} {params : CaptureParams}
      {g : SessionGrant} {t : SessionToken} {capturing : Bool}
      (hg : s.accepts hmac out (.openCapture tokenId approval requested params) = some g)
      (ht : s.grant = some t ∨ s.grant = none ∧ t.id ≠ NO_GRANT) :
      Handled (.openCapture tokenId approval requested params)
        (s.grantTo g t requested params capturing) [.framesOpen params]
  | switched {tokenId : ℕ} {seat : Seat} {kind : CaptureKind} (h : s.authorised tokenId) :
      Handled (.switchCapture tokenId seat kind) (s.regrant seat) [.framesSwitch seat kind]
  | injected {tokenId : ℕ} {payload : Str} (h : s.authorised tokenId) :
      Handled (.input tokenId payload) s [.inputInject payload s.granted]

theorem handled_openApproved {tokenId : ℕ} {approval : Str} {requested : Capabilities}
    {params : CaptureParams} {g : SessionGrant}
    (hg : s.accepts hmac out (.openCapture tokenId approval requested params) = some g) :
    Handled hmac out s (.openCapture tokenId approval requested params)
      (s.openApproved out g requested params).1 (s.openApproved out g requested params).2.1 := by
  unfold openApproved
  simp only
  split
  · next ht =>
    refine .unissued hg ?_
    unfold token at ht
    split at ht
    · cases ht
    · assumption
  · next t ht =>
    have ht : s.grant = some t ∨ s.grant = none ∧ t.id ≠ NO_GRANT := by
      unfold token at ht
      split at ht
      · next hs => exact .inl (hs.trans ht)
      · next hs =>
        split_ifs at ht with hid
        cases ht
        exact .inr ⟨hs, hid⟩
    split
    · exact .opened hg ht
    · exact .opened hg ht

theorem handled_handleRequest (hmac : Str → Str → Str) (out : Surroundings) (s : BrokerSession)
    (r : ServiceRequest) : Handled hmac out s r (s.handleRequest hmac out r).session
      (s.handleRequest hmac out r).calls := by
  unfold handleRequest
  split_ifs with hs
  · have hn : s.accepts hmac out r = none := by
      cases r with
      | openCapture => simpa [accepts] using fun h => absurd h (by simpa using hs)
      | _ => rfl
    cases r with
    | hello protocol =>
      simp only [handleHandshake]
      split_ifs
      · exact .quiet hn id (by simp)
      · exact .quiet hn id (by simp)
    | _ => exact .quiet hn id (by simp)
  · have hs : s.handshaken = true := by simpa using hs
    cases r with
    | hello => exact .quiet rfl id (by simp)
    | openCapture tokenId approval requested params =>
      simp only
      split
      · next leases event hc =>
        exact .quiet (by simp [accepts, hs, hc, Except.toOption]) id (by simp)
      · next leases g hc => exact handled_openApproved (by simp [accepts, hs, hc, Except.toOption])
    | switchCapture tokenId seat kind =>
      simp only
      split_ifs with ha
      · exact .quiet rfl id (by simp)
      · have hswitch : Handled hmac out s (.switchCapture tokenId seat kind) (s.regrant seat)
            [.framesSwitch seat kind] := .switched (by simpa using ha)
        simp only [switchAuthorised]
        split
        · exact hswitch
        · exact hswitch
    | setBitrate | requestKeyframe => exact .quiet rfl id (by simp [DeviceCall.plain])
    | closeCapture | shutdown => exact .quiet rfl (by simp) (by simp [DeviceCall.plain])
    | input tokenId payload =>
      simp only
      split_ifs with ha
      · exact .quiet rfl id (by simp)
      · exact .injected (by simpa using ha)

theorem authorised_iff {tokenId : ℕ} : s.authorised tokenId ↔
    tokenId ≠ NO_GRANT ∧ ∃ t ∈ s.grant, t.id = tokenId := by
  simp [authorised, Option.any_eq_true]

end BrokerSession

/-! ## A connection and its history -/

inductive Deed
  | call (c : DeviceCall)
  | event (e : BrokerEvent)
  deriving DecidableEq

def Deed.drives : Deed → Bool
  | .call (.framesSwitch _ _) => true
  | .call (.inputInject _ _) => true
  | _ => false

def Deed.uses : Deed → Bool
  | .call (.framesSwitch _ _) => true
  | .call (.inputInject _ granted) => !granted.isEmpty
  | _ => false

/-- Something that was done, and how things stood then. -/
structure Entry where
  /-- The request it answers; a pump answers none. -/
  request : Option ServiceRequest
  deed : Deed
  granted : Capabilities
  now : ℕ
  /-- The approval verified last. -/
  approval : Option SessionGrant
  deriving DecidableEq

/-- Whether a picture is shown or about to be: a capture is opened or switched, or a pump returns a
frame. -/
def Entry.shows (x : Entry) : Bool :=
  match x.request, x.deed with
  | _, .call (.framesOpen _) => true
  | _, .call (.framesSwitch _ _) => true
  | none, .event (.frame _ _ _ _) => true
  | _, _ => false

/-- A session and its history. -/
structure Connection where
  session : BrokerSession
  now : ℕ
  /-- The approvals verified, and those of them that were accepted. -/
  verified : List SessionGrant
  accepted : List SessionGrant
  /-- What the requests asked for that were let through to the frame source, with their approvals. -/
  opened : List (Capabilities × SessionGrant)
  /-- The token identifiers issued. -/
  minted : List ℕ
  log : List Entry

inductive Action
  | request (r : ServiceRequest) (out : Surroundings)
  | pump (frames : List EncodedFrame) (rumbles : List RumbleOut) (now : ℕ)

def Action.now : Action → ℕ
  | .request _ out => out.now
  | .pump _ _ now => now

namespace Connection

variable (hmac : Str → Str → Str)

/-- What an `OpenCapture` request asked for, if it made some call. -/
def opens (s : BrokerSession) (out : Surroundings) (r : ServiceRequest) (calls : List DeviceCall) :
    Option (Capabilities × SessionGrant) :=
  match r with
  | .openCapture _ _ requested _ =>
    if calls.isEmpty then none else (s.accepts hmac out r).map fun g => (requested, g)
  | _ => none

def mints (before after : Option SessionToken) : Option ℕ :=
  if before.isSome then none else after.map SessionToken.id

def after (s : Connection) (out : Surroundings) (r : ServiceRequest) : Connection :=
  let o := s.session.handleRequest hmac out r
  let verified := s.verified ++ (s.session.verifies hmac out r).toList
  { session := o.session
    now := out.now
    verified := verified
    accepted := s.accepted ++ (s.session.accepts hmac out r).toList
    opened := s.opened ++ (opens hmac s.session out r o.calls).toList
    minted := s.minted ++ (mints s.session.grant o.session.grant).toList
    log := s.log ++ (o.calls.map Deed.call ++ o.events.map Deed.event).map fun d =>
      ⟨some r, d, o.session.granted, out.now, verified.getLast?⟩ }

def pumped (s : Connection) (frames : List EncodedFrame) (rumbles : List RumbleOut) (now : ℕ) :
    Connection :=
  { s with
    now := now
    log := s.log ++ (s.session.pump frames rumbles).map fun e =>
      ⟨none, .event e, s.session.granted, now, s.verified.getLast?⟩ }

end Connection

def connection (hmac : Str → Str → Str) (ceiling : Capabilities) (authority : GrantAuthority)
    (id : ℕ) : Runs.Machine Connection Action where
  start := ⟨.withParts ceiling authority id, 0, [], [], [], [], []⟩
  step := fun s a => some <| match a with
    | .request r out => s.after hmac out r
    | .pump frames rumbles now => s.pumped frames rumbles now

/-! ## Requests that happen -/

namespace Sample

def mac (key message : Str) : Str :=
  List.replicate TAG_LEN (UInt8.ofNat ((key ++ message).map UInt8.toNat).sum)

def authority : GrantAuthority := ⟨[7], [50]⟩

def approval (capabilities : Capabilities) : SessionGrant :=
  ⟨[115], [49], [50], capabilities, 0, 60000, 1⟩

def params : CaptureParams := ⟨.user, .scanout, 1920, 1080, 60, 8000⟩

/-- A request that comes at a time, when the frame source works and no lease is held. -/
def arrives (now : ℕ) (r : ServiceRequest) : Action := .request r ⟨now, 5, ⟨[]⟩, .ok ⟨1920, 1080⟩⟩

def opening (capabilities : Capabilities) : List Action :=
  [arrives 1000 (.hello PROTOCOL_VERSION), arrives 2000
    (.openCapture NO_GRANT ((approval capabilities).encode mac authority.key) capabilities params)]

end Sample

namespace Connection

variable {hmac : Str → Str → Str} {ceiling : Capabilities} {authority : GrantAuthority} {id : ℕ}
  {s : Connection} {out : Surroundings} {r : ServiceRequest}
variable {c : DeviceCall} {S : BrokerSession}

/-! ## What every run keeps -/

/-- **What every run keeps** of the session and its history. -/
structure Kept (hmac : Str → Str → Str) (ceiling : Capabilities) (authority : GrantAuthority)
    (s : Connection) : Prop where
  policy : s.session.ceiling = ceiling
  sameAuthority : s.session.authority = authority
  granted : s.session.granted = s.session.requested.clampedTo
    (effectiveGrant s.session.approvedCapabilities s.session.ceiling s.session.seat)
  last : ∀ x ∈ s.opened.getLast?,
    s.session.requested = x.1 ∧ s.session.approvedCapabilities = x.2.capabilities
  unopened : s.opened = [] → s.session.grant = none ∧ s.session.requested = .none ∧
    s.session.capturing = false
  opened : ∀ x ∈ s.opened, x.2 ∈ s.accepted
  accepted : ∀ g ∈ s.accepted, g ∈ s.verified ∧ s.session.sessionId = some g.sessionId
  verified : ∀ g ∈ s.verified, ∃ encoded now,
    SessionGrant.decodeAndVerify hmac encoded authority.key now authority.deviceId = .ok g
  minted : s.minted = (s.session.grant.map SessionToken.id).toList
  valid : ∀ t ∈ s.session.grant, t.id ≠ NO_GRANT
  driven : ∀ x ∈ s.log, x.deed.drives → ∃ id, x.request.bind ServiceRequest.tokenId = some id ∧
    s.minted = [id]

theorem mem_added {x : Entry} (hx : x ∈ (s.after hmac out r).log.drop s.log.length) :
    x.request = some r ∧ x.now = out.now ∧ x.granted = (s.after hmac out r).session.granted ∧
      x.approval = (s.after hmac out r).verified.getLast? ∧
      ((∃ c ∈ (s.session.handleRequest hmac out r).calls, x.deed = .call c) ∨
        ∃ e, x.deed = .event e) := by
  simp only [after, drop_left] at hx
  obtain ⟨d, hd, rfl⟩ := mem_map.mp hx
  refine ⟨rfl, rfl, rfl, rfl, ?_⟩
  rcases mem_append.mp hd with hd | hd
  · obtain ⟨c, hc, rfl⟩ := mem_map.mp hd
    exact .inl ⟨c, hc, rfl⟩
  · obtain ⟨e, -, rfl⟩ := mem_map.mp hd
    exact .inr ⟨e, rfl⟩

theorem mem_log_after {x : Entry} (hx : x ∈ (s.after hmac out r).log) :
    x ∈ s.log ∨ x ∈ (s.after hmac out r).log.drop s.log.length := by
  simpa only [after, drop_left, mem_append] using hx

variable {calls : List DeviceCall}

theorem authorised_of_drives {s' : BrokerSession}
    (h : BrokerSession.Handled hmac out s.session r s' calls) (hc : c ∈ calls)
    (hd : (Deed.call c).drives) : ∃ id, r.tokenId = some id ∧ s.session.authorised id := by
  cases h with
  | quiet _ _ hp =>
    have hplain := hp c hc
    cases c with
    | framesSwitch | inputInject => cases hplain
    | _ => cases hd
  | unissued => cases hc
  | opened =>
    rw [mem_singleton.mp hc] at hd
    cases hd
  | switched ha | injected ha => exact ⟨_, rfl, ha⟩

theorem Kept.minted_of_authorised (h : Kept hmac ceiling authority s) {tokenId : ℕ}
    (ha : s.session.authorised tokenId) : s.minted = [tokenId] := by
  obtain ⟨-, t, ht, rfl⟩ := authorised_iff.mp ha
  rw [h.minted, mem_def.mp ht]
  rfl

theorem mints_self (t : Option SessionToken) : mints t t = none := by
  cases t <;> rfl

theorem opens_none {s : BrokerSession}
    (h : s.accepts hmac out r = none) : opens hmac s out r calls = none := by
  unfold opens
  split
  · rw [h]
    split_ifs <;> rfl
  · rfl

section

variable (h : Kept hmac ceiling authority s)

include h

theorem Kept.verifies : ∀ g ∈ s.verified ++
    (s.session.verifies hmac out r).toList, ∃ encoded now,
      SessionGrant.decodeAndVerify hmac encoded authority.key now authority.deviceId = .ok g := by
  intro g hg
  rcases mem_append.mp hg with hg | hg
  · exact h.verified g hg
  · obtain ⟨-, encoded, -, -, -, hdec⟩ := verifies_some (mem_toList.mp hg)
    exact ⟨encoded, out.now, h.sameAuthority ▸ hdec⟩

theorem Kept.accepts {g : SessionGrant}
    (hg : s.session.accepts hmac out r = some g) : ∀ x ∈ s.accepted ++ [g],
      x ∈ s.verified ++ (s.session.verifies hmac out r).toList ∧ g.sessionId = x.sessionId := by
  obtain ⟨hver, hsess⟩ := accepts_some hg
  intro x hx
  rcases mem_append.mp hx with hx | hx
  · obtain ⟨hx, hid⟩ := h.accepted x hx
    exact ⟨mem_append_left _ hx, (hsess _ hid).symm⟩
  · rw [mem_singleton.mp hx, hver]
    exact ⟨mem_append_right _ (by simp), rfl⟩

theorem Kept.handled
    {calls : List DeviceCall} (hH : BrokerSession.Handled hmac out s.session r S calls) {now : ℕ}
    {log : List Entry}
    (hlog : ∀ x ∈ log, x.deed.drives → ∃ id, x.request.bind ServiceRequest.tokenId = some id ∧
      s.minted = [id]) :
    Kept hmac ceiling authority ⟨S, now, s.verified ++ (s.session.verifies hmac out r).toList,
      s.accepted ++ (s.session.accepts hmac out r).toList,
      s.opened ++ (opens hmac s.session out r calls).toList,
      s.minted ++ (mints s.session.grant S.grant).toList, log⟩ := by
  have hkept : ∀ g ∈ s.accepted, g ∈ s.verified ++ (s.session.verifies hmac out r).toList ∧
      s.session.sessionId = some g.sessionId :=
    fun g hg => ⟨mem_append_left _ (h.accepted g hg).1, (h.accepted g hg).2⟩
  cases hH with
  | quiet hn hb _ =>
    simp only [hn, opens_none hn, mints_self, toList_none, append_nil]
    refine { h with
      unopened := fun ho => ?_, accepted := hkept, verified := h.verifies, driven := hlog }
    obtain ⟨hgrant, hreq, hcap⟩ := h.unopened ho
    refine ⟨hgrant, hreq, Bool.eq_false_iff.mpr fun ht => ?_⟩
    exact absurd (hb ht) (by simp [hcap])
  | @unissued _ g hg hn =>
    have hopens : opens hmac s.session out r [] = none := by
      unfold opens
      split <;> rfl
    simp only [hg, hopens, mints_self, toList_none, append_nil, toList_some]
    refine { h with
      opened := fun x hx => ?_, accepted := fun x hx => ?_, verified := h.verifies, driven := hlog }
    · exact mem_append_left _ (h.opened x hx)
    · obtain ⟨hver, hid⟩ := h.accepts hg x hx
      exact ⟨hver, congrArg some hid⟩
  | @opened tokenId approval requested params g t _ hg ht =>
    have hopens : opens hmac s.session out (.openCapture tokenId approval requested params)
        [.framesOpen params] = some (requested, g) := by
      simp [opens, hg]
    rw [hg, hopens]
    simp only [toList_some]
    have hmint : s.minted ++ (mints s.session.grant (some t)).toList = [t.id] := by
      rcases ht with ht | ⟨ht, -⟩
      · rw [h.minted, ht, mints_self]
        rfl
      · rw [h.minted, ht]
        rfl
    simp only [BrokerSession.grantTo, hmint]
    refine ⟨h.policy, h.sameAuthority, rfl, fun x hx => ?_, fun ho => ?_, fun x hx => ?_,
      fun x hx => ?_, h.verifies, rfl, fun x hx => ?_, fun x hx hd => ?_⟩
    · rw [getLast?_concat] at hx
      cases hx
      exact ⟨rfl, rfl⟩
    · exact absurd ho (by simp)
    · exact forall_mem_concat (fun x hx => mem_append_left _ (h.opened x hx))
        (mem_append_right _ (by simp)) x hx
    · obtain ⟨hver, hid⟩ := h.accepts hg x hx
      exact ⟨hver, congrArg some hid⟩
    · cases hx
      rcases ht with ht | ⟨-, ht⟩
      · exact h.valid t ht
      · exact ht
    · obtain ⟨id, hid, hm⟩ := hlog x hx hd
      refine ⟨id, hid, ?_⟩
      -- a token was there before, and stays
      rcases ht with ht | ⟨ht, -⟩
      · rw [← hm, h.minted, ht]
        rfl
      · rw [h.minted, ht] at hm
        cases hm
  | switched ha =>
    simp only [BrokerSession.accepts, BrokerSession.regrant, opens, mints_self, toList_none,
      append_nil]
    exact { h with granted := rfl, accepted := hkept, verified := h.verifies, driven := hlog }
  | injected ha =>
    simp only [BrokerSession.accepts, opens, mints_self, toList_none, append_nil]
    exact { h with accepted := hkept, verified := h.verifies, driven := hlog }

theorem Kept.after (out : Surroundings) (r : ServiceRequest) :
    Kept hmac ceiling authority (s.after hmac out r) := by
  have hH := handled_handleRequest hmac out s.session r
  refine h.handled hH fun x hx hd => ?_
  rcases mem_log_after hx with hx | hx
  · exact h.driven x hx hd
  obtain ⟨hr, -, -, -, ⟨c, hc, hdeed⟩ | ⟨e, hdeed⟩⟩ := mem_added hx
  · rw [hdeed] at hd
    obtain ⟨id, hid, ha⟩ := authorised_of_drives hH hc hd
    exact ⟨id, by rw [hr, bind_some, hid], h.minted_of_authorised ha⟩
  · rw [hdeed] at hd
    cases hd

theorem Kept.pumped (frames : List EncodedFrame) (rumbles : List RumbleOut) (now : ℕ) :
    Kept hmac ceiling authority (s.pumped frames rumbles now) := by
  refine { h with driven := fun x hx hd => ?_ }
  rcases mem_append.mp hx with hx | hx
  · exact h.driven x hx hd
  · obtain ⟨e, -, rfl⟩ := mem_map.mp hx
    cases hd

end

theorem kept_start : Kept hmac ceiling authority (connection hmac ceiling authority id).start := by
  refine ⟨rfl, rfl, ?_, ?_, fun _ => ⟨rfl, rfl, rfl⟩, ?_, ?_, ?_, rfl, ?_, ?_⟩
  · simp [connection, withParts, clampedTo, Capabilities.none]
  all_goals
    intro x hx
    cases hx

theorem kept_of_reach {ok : Connection → Action → Prop}
    (h : (connection hmac ceiling authority id).ReachVia ok s) : Kept hmac ceiling authority s := by
  refine h.invariant kept_start ?_
  rintro s (⟨r, out⟩ | ⟨frames, rumbles, now⟩) s' hk - hst
  · cases hst
    exact hk.after out r
  · cases hst
    exact hk.pumped frames rumbles now

/-! ## The ceilings -/

/-- **The ceilings hold in every run**: the request, a verified approval, the policy and the seat;
and the devices are reached only with the token issued on the connection. -/
theorem ceilings (h : (connection hmac ceiling authority id).Reach s) :
    (s.opened = [] → s.session.granted = .none) ∧
    (∀ x ∈ s.opened.getLast?, s.session.granted.Le x.1 ∧ s.session.granted.Le x.2.capabilities ∧
      s.session.sessionId = some x.2.sessionId ∧ ∃ encoded now,
        SessionGrant.decodeAndVerify hmac encoded authority.key now authority.deviceId = .ok x.2) ∧
    s.session.granted.Le ceiling ∧ s.session.granted.Le (seatCeiling s.session.seat) ∧
    (∀ x ∈ s.log, x.deed.drives → ∃ id, x.request.bind ServiceRequest.tokenId = some id ∧
      s.minted = [id] ∧ id ≠ NO_GRANT) ∧
    ∀ g ∈ s.accepted, ∀ g' ∈ s.accepted, g.sessionId = g'.sessionId := by
  have hk := kept_of_reach h
  have heff : s.session.granted.Le
      (effectiveGrant s.session.approvedCapabilities s.session.ceiling s.session.seat) :=
    hk.granted ▸ clampedTo_le_right _ _
  have hclamp := heff.trans (clampedTo_le_left _ _)
  refine ⟨fun ho => ?_, fun x hx => ?_, ?_, heff.trans (clampedTo_le_right _ _),
    fun x hx hd => ?_, fun g hg g' hg' => ?_⟩
  · rw [hk.granted, (hk.unopened ho).2.1]
    simp [clampedTo, Capabilities.none]
  · obtain ⟨hreq, happ⟩ := hk.last x hx
    obtain ⟨hver, hid⟩ := hk.accepted x.2 (hk.opened x (mem_of_getLast? hx))
    refine ⟨?_, happ ▸ hclamp.trans (clampedTo_le_left _ _), hid, hk.verified _ hver⟩
    rw [hk.granted, hreq]
    exact clampedTo_le_left _ _
  · exact hk.policy ▸ hclamp.trans (clampedTo_le_right _ _)
  · obtain ⟨id, hid, hm⟩ := hk.driven x hx hd
    refine ⟨id, hid, hm, ?_⟩
    rw [hk.minted] at hm
    cases hg : s.session.grant with
    | none =>
      rw [hg] at hm
      cases hm
    | some t =>
      rw [hg] at hm
      cases hm
      exact hk.valid t hg
  · exact some.inj ((hk.accepted g hg).2.symm.trans (hk.accepted g' hg').2)

open Sample

def typing : List Action :=
  [arrives 3000 (.input 5 [1]), arrives 4000 (.switchCapture 5 .greeter .scanout)]

/-- After a switch to the greeter keyboard and mouse are left. -/
theorem ceilings_greeter : ∃ s, (connection mac .all Sample.authority 0).Reach s ∧
    s.session.seat = .greeter ∧ s.session.granted.contains .KEYBOARD ∧ s.minted = [5] ∧
    (∃ x ∈ s.opened.getLast?, s.session.granted.Le x.1 ∧ s.session.granted.Le x.2.capabilities) ∧
    s.session.granted.Le .all ∧ s.session.granted.Le (seatCeiling s.session.seat) ∧
    (∃ x ∈ s.log, x.deed.drives ∧ x.request.bind ServiceRequest.tokenId = some 5) ∧
    ∀ g ∈ s.accepted, ∀ g' ∈ s.accepted, g.sessionId = g'.sessionId := by
  obtain ⟨s, hs, hseat, hkey, hmint, ⟨e, he, hd⟩, hopen⟩ :=
    (connection mac .all Sample.authority 0).exists_reachVia (fun _ _ => True) (opening .all ++ typing)
      (fun s => s.session.seat = .greeter ∧ s.session.granted.contains .KEYBOARD ∧ s.minted = [5] ∧
        (∃ x ∈ s.log, x.deed.drives) ∧ s.opened.getLast?.isSome) (by decide +kernel)
  obtain ⟨x, hx⟩ := isSome_iff_exists.mp hopen
  obtain ⟨-, hlast, hall, hgreet, hdrive, hone⟩ := ceilings hs
  obtain ⟨id, hid, hm, -⟩ := hdrive e he hd
  refine ⟨s, hs, hseat, hkey, hmint, ⟨x, hx, (hlast x hx).1, (hlast x hx).2.1⟩, hall, hgreet,
    ⟨e, he, hd, ?_⟩, hone⟩
  rw [hid, some.injEq]
  exact (singleton_inj.mp (hmint.symm.trans hm)).symm

/-! ## Expiry -/

/-- Time does not run backwards. -/
def Clock (s : Connection) (a : Action) : Prop := s.now ≤ a.now

instance (s : Connection) (a : Action) : Decidable (Clock s a) := inferInstanceAs (Decidable (_ ≤ _))

/-- A token is used no later than the approval verified last allows. -/
def Prompt (s : Connection) : Action → Prop
  | .request (.input tokenId _) out => s.session.handshaken → s.session.authorised tokenId →
      s.session.granted.isEmpty = false → ∀ g ∈ s.verified.getLast?, out.now ≤ g.expiresAtMs
  | .request (.switchCapture tokenId _ _) out => s.session.handshaken →
      s.session.authorised tokenId → ∀ g ∈ s.verified.getLast?, out.now ≤ g.expiresAtMs
  | _ => True

instance (s : Connection) (a : Action) : Decidable (Prompt s a) := by
  unfold Prompt
  split <;> infer_instance

theorem Kept.exists_verified (h : Kept hmac ceiling authority s) {tokenId : ℕ}
    (ha : s.session.authorised tokenId) : ∃ g, s.verified.getLast? = some g := by
  obtain ⟨-, t, ht, -⟩ := authorised_iff.mp ha
  have hne : s.opened ≠ [] := fun ho => by
    rw [(h.unopened ho).1] at ht
    cases ht
  obtain ⟨x, hx⟩ := exists_mem_of_ne_nil _ hne
  have hver := (h.accepted x.2 (h.opened x hx)).1
  exact ⟨_, getLast?_eq_getLast_of_ne_nil (ne_nil_of_mem hver)⟩

theorem handshaken_of_call (hc : c ∈ (s.session.handleRequest hmac out r).calls) :
    s.session.handshaken := by
  by_contra hs
  rw [Bool.not_eq_true] at hs
  simp [handleRequest, hs] at hc

theorem used_after (hk : Kept hmac ceiling authority s) (hp : Prompt s (.request r out))
    (hc : c ∈ (s.session.handleRequest hmac out r).calls) (hu : (Deed.call c).uses) : ∃ g,
      (s.verified ++ (s.session.verifies hmac out r).toList).getLast? = some g ∧
        out.now ≤ g.expiresAtMs := by
  have hs := handshaken_of_call hc
  have hH := handled_handleRequest hmac out s.session r
  generalize (s.session.handleRequest hmac out r).session = S at hH
  generalize (s.session.handleRequest hmac out r).calls = calls at hH hc
  cases hH with
  | quiet _ _ hplain =>
    have hplain := hplain c hc
    cases c with
    | framesSwitch | inputInject => cases hplain
    | _ => cases hu
  | unissued => cases hc
  | opened =>
    rw [mem_singleton.mp hc] at hu
    cases hu
  | switched ha =>
    obtain ⟨g, hg⟩ := hk.exists_verified ha
    exact ⟨g, by simpa [verifies] using hg, hp hs ha g hg⟩
  | injected ha =>
    obtain ⟨g, hg⟩ := hk.exists_verified ha
    rw [mem_singleton.mp hc] at hu
    exact ⟨g, by simpa [verifies] using hg, hp hs ha (by simpa [Deed.uses] using hu) g hg⟩

variable (hmac) in
theorem prompt_of_used (hlaw : ∀ c ∈ (s.session.handleRequest hmac out r).calls,
      (Deed.call c).uses → ∀ g ∈ (s.verified ++ (s.session.verifies hmac out r).toList).getLast?,
        out.now ≤ g.expiresAtMs) : Prompt s (.request r out) := by
  cases r with
  | input tokenId payload =>
    intro hs ha hne g hg
    refine hlaw (.inputInject payload s.session.granted) ?_ (by simp [Deed.uses, hne]) g ?_
    · simp [handleRequest, hs, ha]
    · simpa [verifies] using hg
  | switchCapture tokenId seat kind =>
    intro hs ha g hg
    refine hlaw (.framesSwitch seat kind) ?_ rfl g ?_
    · simp only [handleRequest, hs, ha, switchAuthorised]
      cases out.opened <;> simp
    · simpa [verifies] using hg
  | _ => trivial

/-- **A capability is used in time exactly if** the request that uses it comes no later than the
approval verified last expires: the devices are reached with the token, whatever the time. -/
theorem timely (h : (connection hmac ceiling authority id).Reach s) {a : Action} {s' : Connection}
    (hst : (connection hmac ceiling authority id).step s a = some s') :
    (∀ x ∈ s'.log.drop s.log.length, x.deed.uses →
      ∃ g, x.approval = some g ∧ x.now ≤ g.expiresAtMs) ↔ Prompt s a := by
  have hk := kept_of_reach h
  cases hst
  cases a with
  | pump frames rumbles now =>
    simp only [pumped, drop_left, Prompt, iff_true]
    intro x hx hu
    obtain ⟨e, -, rfl⟩ := mem_map.mp hx
    cases hu
  | request r out =>
    refine ⟨fun hlaw => prompt_of_used hmac fun c hc hu g hg => ?_, fun hp x hx hu => ?_⟩
    · obtain ⟨g', hg', hnow⟩ := hlaw ⟨some r, .call c, _, out.now, _⟩ (by
        simp only [after, drop_left]
        exact mem_map_of_mem (mem_append_left _ (mem_map_of_mem hc))) hu
      rw [mem_def.mp hg, some.injEq] at hg'
      exact hg' ▸ hnow
    · obtain ⟨-, hnow, -, happ, ⟨c, hc, hdeed⟩ | ⟨e, hdeed⟩⟩ := mem_added hx
      · rw [hdeed] at hu
        rw [happ, hnow]
        exact used_after hk hp hc hu
      · rw [hdeed] at hu
        cases hu

/-- A key that is pressed in time. -/
theorem timely_typing : ∃ s s', (connection mac .all Sample.authority 0).Reach s ∧
    (connection mac .all Sample.authority 0).step s (arrives 3000 (.input 5 [1])) = some s' ∧
    (∃ x ∈ s'.log.drop s.log.length, x.deed.uses) ∧ ∀ x ∈ s'.log.drop s.log.length, x.deed.uses →
      ∃ g, x.approval = some g ∧ x.now ≤ g.expiresAtMs := by
  obtain ⟨s, hs, hp, hu⟩ := (connection mac .all Sample.authority 0).exists_reachVia
    (fun _ _ => True) (opening .all) (fun s => Prompt s (arrives 3000 (.input 5 [1])) ∧
      ∃ x ∈ (s.after mac ⟨3000, 5, ⟨[]⟩, .ok ⟨1920, 1080⟩⟩ (.input 5 [1])).log.drop s.log.length,
        x.deed.uses) (by decide +kernel)
  exact ⟨s, _, hs, rfl, hu, (timely hs rfl).mpr hp⟩

/-- **An expired approval still types**: it expires after 60 seconds, and a key pressed a day later
reaches the input sink, as does a switch. -/
theorem used_late : ∃ s, (connection mac .all Sample.authority 0).ReachVia Clock s ∧
    (∃ x ∈ s.log, x.request = some (.input 5 [1]) ∧ x.deed = .call (.inputInject [1] .all) ∧
      ∃ g ∈ x.approval, g.expiresAtMs = 60000 ∧ x.now = 86400000) ∧
    ∃ x ∈ s.log, x.request = some (.switchCapture 5 .greeter .scanout) ∧
      x.deed = .call (.framesSwitch .greeter .scanout) ∧
      ∃ g ∈ x.approval, g.expiresAtMs = 60000 ∧ x.now = 86400001 :=
  (connection mac .all Sample.authority 0).exists_reachVia Clock
    (opening .all ++ [arrives 86400000 (.input 5 [1]),
      arrives 86400001 (.switchCapture 5 .greeter .scanout)]) _ (by decide +kernel)

/-! ## Pictures -/

variable (hmac) in
def Asks (s : Connection) : Action → Prop
  | .request (.openCapture _ approval requested _) out => requested.contains .CAPTURE ∧
      ∀ g ∈ (SessionGrant.decodeAndVerify hmac approval s.session.authority.key out.now
        s.session.authority.deviceId).toOption, g.capabilities.contains .CAPTURE
  | _ => True

instance (s : Connection) (a : Action) : Decidable (Asks hmac s a) := by
  unfold Asks
  split <;> infer_instance

theorem capture_le_seatCeiling (seat : Seat) : CAPTURE.Le (seatCeiling seat) := by
  cases seat <;> decide

theorem Kept.captures (h : Kept hmac ceiling authority s) (hc : CAPTURE.Le ceiling)
    (ho : ∀ x ∈ s.opened, CAPTURE.Le x.1 ∧ CAPTURE.Le x.2.capabilities)
    (hne : s.opened ≠ []) : CAPTURE.Le s.session.granted := by
  obtain ⟨x, hx⟩ : ∃ x, s.opened.getLast? = some x := ⟨_, getLast?_eq_getLast_of_ne_nil hne⟩
  obtain ⟨hreq, happ⟩ := h.last x hx
  obtain ⟨hask, hall⟩ := ho x (mem_of_getLast? hx)
  rw [h.granted, hreq, happ, h.policy]
  exact le_clampedTo hask (le_clampedTo
    (le_clampedTo hall hc) (capture_le_seatCeiling _))

theorem asked_of_opens (ha : Asks hmac s (.request r out))
    {x : Capabilities × SessionGrant} (hx : opens hmac s.session out r calls = some x) :
    CAPTURE.Le x.1 ∧ CAPTURE.Le x.2.capabilities := by
  unfold opens at hx
  split at hx
  · next tokenId approval requested params =>
    split_ifs at hx
    obtain ⟨g, hg, rfl⟩ := map_eq_some_iff.mp hx
    obtain ⟨_, encoded, _, _, heq, hdec⟩ :=
      verifies_some (accepts_some hg).1
    cases heq
    exact ⟨ha.1, ha.2 g (by rw [hdec]; rfl)⟩
  · cases hx

theorem opened_of_shows (hk : Kept hmac ceiling authority s)
    (hH : BrokerSession.Handled hmac out s.session r S calls) (hc : c ∈ calls) {x : Entry}
    (hx : x.deed = .call c) (hs : x.shows) :
    s.opened ++ (opens hmac s.session out r calls).toList ≠ [] := by
  have hgrant {tokenId : ℕ} (ha : s.session.authorised tokenId) : s.opened ≠ [] := fun ho => by
    obtain ⟨-, t, ht, -⟩ := authorised_iff.mp ha
    rw [(hk.unopened ho).1] at ht
    cases ht
  cases hH with
  | quiet _ _ hplain =>
    have hplain := hplain c hc
    cases c with
    | framesOpen | framesSwitch | inputInject => cases hplain
    | _ => simp [Entry.shows, hx] at hs
  | unissued => cases hc
  | opened hg => simp [opens, hg]
  | switched ha | injected ha => exact append_ne_nil_of_left_ne_nil (hgrant ha) _

/-- **No picture without the capture capability, in runs where nobody asks for one**, if the policy
has it. -/
theorem pictured (hc : ceiling.contains .CAPTURE)
    (h : (connection hmac ceiling authority id).ReachVia (Asks hmac) s) :
    ∀ x ∈ s.log, x.shows → x.granted.contains .CAPTURE := by
  let I (s : Connection) : Prop := Kept hmac ceiling authority s ∧
    (∀ x ∈ s.opened, CAPTURE.Le x.1 ∧ CAPTURE.Le x.2.capabilities) ∧
    ∀ x ∈ s.log, x.shows → x.granted.contains .CAPTURE
  suffices hall : I s from hall.2.2
  refine h.invariant ⟨kept_start, nofun, nofun⟩ ?_
  rintro s (⟨r, out⟩ | ⟨frames, rumbles, now⟩) s' ⟨hk, ho, hlog⟩ ha hst
  · cases hst
    have hk' := hk.after out r
    have ho' : ∀ x ∈ (s.after hmac out r).opened,
        CAPTURE.Le x.1 ∧ CAPTURE.Le x.2.capabilities := by
      intro x hx
      rcases mem_append.mp hx with hx | hx
      · exact ho x hx
      · exact asked_of_opens ha (mem_toList.mp hx)
    refine ⟨hk', ho', fun x hx hs => ?_⟩
    rcases mem_log_after hx with hx | hx
    · exact hlog x hx hs
    obtain ⟨hr, -, hg, -, ⟨c, hmem, hdeed⟩ | ⟨e, hdeed⟩⟩ := mem_added hx
    · rw [hg]
      exact hk'.captures hc ho' (opened_of_shows hk
        (handled_handleRequest hmac out s.session r) hmem hdeed hs)
    -- the events of a request are no frames of a pump
    · simp [Entry.shows, hr, hdeed] at hs
  · cases hst
    refine ⟨hk.pumped frames rumbles now, ho, fun x hx hs => ?_⟩
    rcases mem_append.mp hx with hx | hx
    · exact hlog x hx hs
    · obtain ⟨e, he, rfl⟩ := mem_map.mp hx
      refine hk.captures hc ho fun hnil => ?_
      simp [pump, (hk.unopened hnil).2.2] at he

def framed : Action := .pump [⟨0, 0, true, [1]⟩] [] 3000

theorem pictured_frame : ∃ s, Capabilities.all.contains .CAPTURE ∧
    (connection mac .all Sample.authority 0).ReachVia (Asks mac) s ∧
    ∃ x ∈ s.log, x.request = none ∧ x.shows ∧ x.granted.contains .CAPTURE := by
  obtain ⟨s, hs, x, hx, hr, hsh⟩ := (connection mac .all Sample.authority 0).exists_reachVia (Asks mac)
    (opening .all ++ [framed]) (fun s => ∃ x ∈ s.log, x.request = none ∧ x.shows) (by decide +kernel)
  exact ⟨s, by decide, hs, x, hx, hr, hsh, pictured (by decide) hs x hx hsh⟩

/-- **The policy of an operator who allows nothing is no obstacle to pictures**: nothing is granted, yet
the capture is opened and its frame returned. -/
theorem pictured_without : ∃ s, (connection mac .none Sample.authority 0).Reach s ∧
    (∃ x ∈ s.log, x.deed = .call (.framesOpen params) ∧ x.granted = .none) ∧
    ∃ x ∈ s.log, x.request = none ∧ x.deed = .event (.frame 0 0 true [1]) ∧ x.granted = .none :=
  (connection mac .none Sample.authority 0).exists_reachVia (fun _ _ => True)
    (opening .all ++ [framed]) _ (by decide +kernel)

end Connection

end OpenStream.HostBroker
