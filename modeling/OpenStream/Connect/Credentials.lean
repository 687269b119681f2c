import OpenStream.Connect.Broker
import OpenStream.Lib.Runs

/-!
# Credentials reach one party each

The broker as a machine that takes calls in any order, from anybody, and keeps a log of them.

* **`Trace.isolated`**
-/

namespace OpenStream.Connect

open List ConnectBroker

open Account (Text)

/-! ## Calls and their log -/

inductive Op
  | heartbeat (accountId deviceId stalest : Text)
  | goOffline (deviceId : Text)
  | request (requestId accountId requester target : Text) (requested : Permissions)
  | pendingFor (accountId target : Text)
  | approve (requestId : Text) (party : Party) (grant : SessionGrant) (granted : Permissions)
  | deny (requestId accountId target : Text)
  | collectHost (requestId : Text) (party : Party)
  | collectClient (requestId : Text) (party : Party)
  | observe (requestId accountId requester : Text)
  | granted (requestId : Text)
  | requesterOf (requestId : Text)
  | requesterFor (requestId : Text) (target : Party)
  | minted (requestId : Text) (party : Party)
  | publish (requestId : Text)
  | withdraw (requestId : Text)
  | expire

inductive Reply
  | unit
  | request (r : Except ConnectError ConnectRequest)
  | pending (l : List ConnectRequest)
  | done (r : Except ConnectError Unit)
  | credential (r : Except ConnectError (Text × Text))
  | state (r : Except ConnectError ConnectState)
  | permissions (p : Permissions)
  | device (d : Option Text)

def Op.draws : Op → Option Text
  | .request requestId _ _ _ _ => some requestId
  | _ => none

def Op.reads : Op → Bool
  | .collectHost _ _ | .collectClient _ _ | .observe _ _ _ | .pendingFor _ _ | .granted _
  | .requesterOf _ | .requesterFor _ _ | .minted _ _ => true
  | _ => false

namespace ConnectBroker

variable (accountDigest : Text → ℕ) (b : ConnectBroker)

def call (now : ℕ) : Op → ConnectBroker × Reply
  | .heartbeat accountId deviceId stalest =>
    (b.heartbeat accountDigest accountId deviceId stalest now, .unit)
  | .goOffline deviceId => (b.goOffline deviceId, .unit)
  | .request requestId accountId requester target requested =>
    (b.requestScoped accountDigest requestId accountId requester target requested now).map id .request
  | .pendingFor accountId target => (b.pendingForTarget accountId target now).map id .pending
  | .approve requestId party grant granted =>
    (b.approveScoped requestId party grant granted now).map id .request
  | .deny requestId accountId target => (b.deny requestId accountId target now).map id .done
  | .collectHost requestId party => (b.collectHostCredential requestId party now).map id .credential
  | .collectClient requestId party =>
    (b.collectClientCredential requestId party now).map id .credential
  | .observe requestId accountId requester =>
    (b.observe requestId accountId requester now).map id .state
  | .granted requestId => (b, .permissions (b.grantedPermissions requestId))
  | .requesterOf requestId => (b, .device (b.requesterDevice requestId))
  | .requesterFor requestId target => (b, .device (b.requesterForTarget requestId target))
  | .minted requestId party => (b, .credential (b.mintedCredentials requestId party))
  | .publish requestId => (b.markPublished requestId, .unit)
  | .withdraw requestId => (b.withdraw requestId, .unit)
  | .expire => (b.expire now, .unit)

def evicts (now : ℕ) : Op → Bool
  | .heartbeat _ deviceId stalest =>
    !(MAX_TRACKED_PRESENCE ≤ Table.size (b.expire now).presence && deviceId ∉ (b.expire now).presence)
      || (b.expire now).Stalest stalest
  | _ => true

end ConnectBroker

/-- A call, when it came and what it returned. -/
structure Entry where
  op : Op
  now : ℕ
  reply : Reply

inductive Role
  | host
  | client
  deriving DecidableEq

def SessionGrant.credential (g : SessionGrant) : Role → Text
  | .host => g.hostCredential
  | .client => g.clientCredential

namespace ConnectRequest

def device (q : ConnectRequest) : Role → Text
  | .host => q.targetDeviceId
  | .client => q.requesterDeviceId

def credential (q : ConnectRequest) : Role → Option Text
  | .host => q.hostCredential
  | .client => q.clientCredential

end ConnectRequest

/-- A recorded request. -/
structure Ask where
  requestId : Text
  accountId : Text
  requester : Text
  target : Text
  deriving DecidableEq

def Ask.device (a : Ask) : Role → Text
  | .host => a.target
  | .client => a.requester

structure Approval where
  requestId : Text
  party : Party
  grant : SessionGrant
  time : ℕ
  deriving DecidableEq

/-- A credential handed out. -/
structure Collection where
  role : Role
  requestId : Text
  party : Party
  sessionId : Text
  credential : Text
  time : ℕ
  deriving DecidableEq

namespace Entry

/-- The request a call recorded. -/
def ask : Entry → Option Ask
  | ⟨.request requestId accountId requester target _, _, .request (.ok _)⟩ =>
    some ⟨requestId, accountId, requester, target⟩
  | _ => none

/-- The approval a call made. -/
def approval : Entry → Option Approval
  | ⟨.approve requestId party grant _, now, .request (.ok _)⟩ => some ⟨requestId, party, grant, now⟩
  | _ => none

def publication : Entry → Option Text
  | ⟨.publish requestId, _, _⟩ => some requestId
  | _ => none

/-- The credential a call handed out. -/
def collection : Entry → Option Collection
  | ⟨.collectHost requestId party, now, .credential (.ok (sessionId, credential))⟩ =>
    some ⟨.host, requestId, party, sessionId, credential, now⟩
  | ⟨.collectClient requestId party, now, .credential (.ok (sessionId, credential))⟩ =>
    some ⟨.client, requestId, party, sessionId, credential, now⟩
  | _ => none

end Entry

structure Trace where
  broker : ConnectBroker
  log : List Entry

namespace Trace

def after (accountDigest : Text → ℕ) (s : Trace) (op : Op) (now : ℕ) : Trace :=
  ⟨(s.broker.call accountDigest now op).1,
    s.log ++ [⟨op, now, (s.broker.call accountDigest now op).2⟩]⟩

/-- A new request has an identifier that no call has used for one. -/
def Fresh (s : Trace) (a : Op × ℕ) : Prop := ∀ id ∈ a.1.draws, ∀ e ∈ s.log, e.op.draws ≠ some id

instance (s : Trace) (a : Op × ℕ) : Decidable (s.Fresh a) := by
  unfold Fresh
  infer_instance

def Entitled (log : List Entry) (c : Collection) : Prop :=
  ∃ a ∈ log.filterMap Entry.ask, ∃ g ∈ log.filterMap Entry.approval,
    a.requestId = c.requestId ∧ c.party = ⟨a.accountId, a.device c.role⟩ ∧
    g.requestId = c.requestId ∧ g.party = ⟨a.accountId, a.target⟩ ∧
    c.requestId ∈ log.filterMap Entry.publication ∧ c.time < g.time + APPROVAL_TTL ∧
    c.sessionId = g.grant.sessionId ∧ c.credential = g.grant.credential c.role

/-- Each credential reaches its own party only, within its bounds. -/
structure Isolated (accountDigest : Text → ℕ) (s : Trace) : Prop where
  entitled : ∀ pre e post c, s.log = pre ++ e :: post → e.collection = some c → Entitled pre c
  same : ∀ c ∈ s.log.filterMap Entry.collection, ∀ c' ∈ s.log.filterMap Entry.collection,
    c.requestId = c'.requestId →
      c.sessionId = c'.sessionId ∧ (c.role = c'.role → c.credential = c'.credential)
  deadline : ∀ op now, op.reads → ∀ q ∈ (s.broker.call accountDigest now op).1.requests,
    q ∈ s.broker.requests
  total : s.broker.requests.length ≤ MAX_PENDING_REQUESTS
  perAccount : ∀ accountId, (s.broker.requests.filter fun q => q.accountId = accountId).length ≤
    MAX_REQUESTS_PER_ACCOUNT

end Trace

/-- The broker, taking any calls. -/
def brokerRuns (accountDigest : Text → ℕ) : Runs.Machine Trace (Op × ℕ) where
  start := ⟨.empty, []⟩
  step := fun s a =>
    if s.broker.evicts a.2 a.1 then some (s.after accountDigest a.1 a.2) else none

namespace Trace

/-! ## The invariant -/

structure Recorded (log : List Entry) (q : ConnectRequest) : Prop where
  asked : ⟨q.requestId, q.accountId, q.requesterDeviceId, q.targetDeviceId⟩ ∈ log.filterMap Entry.ask
  approved : q.state = .approved → ∃ g ∈ log.filterMap Entry.approval, g.requestId = q.requestId ∧
    g.party = ⟨q.accountId, q.targetDeviceId⟩ ∧ q.expiresAt = g.time + APPROVAL_TTL ∧
    q.sessionId = some g.grant.sessionId ∧ q.hostCredential = some g.grant.hostCredential ∧
    q.clientCredential = some g.grant.clientCredential
  published : q.published = true → q.requestId ∈ log.filterMap Entry.publication
  pending : q.state = .pending → ∀ g ∈ log.filterMap Entry.approval, g.requestId ≠ q.requestId

structure Approvals (log : List Entry) : Prop where
  known : ∀ g ∈ log.filterMap Entry.approval,
    ∃ a ∈ log.filterMap Entry.ask, a.requestId = g.requestId
  once : ∀ g ∈ log.filterMap Entry.approval, ∀ g' ∈ log.filterMap Entry.approval,
    g.requestId = g'.requestId → g = g'

structure Bounded (l : List ConnectRequest) : Prop where
  nodup : (l.map ConnectRequest.requestId).Nodup
  total : l.length ≤ MAX_PENDING_REQUESTS
  perAccount : ∀ accountId, (l.filter fun q => q.accountId = accountId).length ≤
    MAX_REQUESTS_PER_ACCOUNT

structure Inv (s : Trace) : Prop where
  records : ∀ q ∈ s.broker.requests, Recorded s.log q
  approvals : Approvals s.log
  bounded : Bounded s.broker.requests
  entitled : ∀ pre e post c, s.log = pre ++ e :: post → e.collection = some c → Entitled pre c

variable {accountDigest : Text → ℕ} {s : Trace} {log : List Entry} {e : Entry} {q : ConnectRequest}
  {l l' : List ConnectRequest}

theorem mem_filterMap_concat {β : Type} {f : Entry → Option β} {x : β} :
    x ∈ (log ++ [e]).filterMap f ↔ x ∈ log.filterMap f ∨ f e = some x := by
  rw [filterMap_append, mem_append]
  refine or_congr_right ?_
  rw [mem_filterMap]
  constructor
  · rintro ⟨y, hy, hx⟩
    rwa [mem_singleton.mp hy] at hx
  · exact fun hx => ⟨e, mem_cons_self, hx⟩

theorem draws_of_ask {a : Ask} (h : a ∈ log.filterMap Entry.ask) :
    ∃ e ∈ log, e.op.draws = some a.requestId := by
  obtain ⟨e, he, ha⟩ := mem_filterMap.mp h
  refine ⟨e, he, ?_⟩
  unfold Entry.ask at ha
  split at ha
  · cases ha
    rfl
  · cases ha

theorem Recorded.concat (h : Recorded log q)
    (he : q.state = .pending → ∀ g, e.approval = some g → g.requestId ≠ q.requestId) :
    Recorded (log ++ [e]) q where
  asked := mem_filterMap_concat.mpr (.inl h.asked)
  approved hq := by
    obtain ⟨g, hg, hrest⟩ := h.approved hq
    exact ⟨g, mem_filterMap_concat.mpr (.inl hg), hrest⟩
  published hq := mem_filterMap_concat.mpr (.inl (h.published hq))
  pending hq g hg := by
    rcases mem_filterMap_concat.mp hg with hg | hg
    · exact h.pending hq g hg
    · exact he hq g hg

theorem Approvals.concat (h : Approvals log) (he : e.approval = none) : Approvals (log ++ [e]) := by
  have hold {g : Approval} (hg : g ∈ (log ++ [e]).filterMap Entry.approval) :
      g ∈ log.filterMap Entry.approval := by
    rcases mem_filterMap_concat.mp hg with hg | hg
    · exact hg
    · rw [he] at hg
      cases hg
  refine ⟨fun g hg => ?_, fun g hg g' hg' => h.once g (hold hg) g' (hold hg')⟩
  obtain ⟨a, ha, hid⟩ := h.known g (hold hg)
  exact ⟨a, mem_filterMap_concat.mpr (.inl ha), hid⟩

theorem Bounded.sublist (h : Bounded l) (hs : l'.Sublist l) : Bounded l' :=
  ⟨h.nodup.sublist (hs.map _), hs.length_le.trans h.total,
    fun a => ((hs.filter _).length_le).trans (h.perAccount a)⟩

variable {requestId : Text}

theorem Bounded.modify (h : Bounded l) {f : ConnectRequest → ConnectRequest}
    (hid : ∀ q, (f q).requestId = q.requestId) (hacc : ∀ q, (f q).accountId = q.accountId) :
    Bounded (Keyed.modify ConnectRequest.requestId l requestId f) := by
  refine ⟨(Keyed.keys_modify hid).symm ▸ h.nodup, ?_, fun a => ?_⟩
  · rw [Keyed.modify, length_map]
    exact h.total
  · have hsame : ((fun q : ConnectRequest => decide (q.accountId = a)) ∘
        fun q => if q.requestId = requestId then f q else q) =
        fun q => decide (q.accountId = a) := by
      funext q
      rw [Function.comp_apply]
      split_ifs
      · rw [hacc]
      · rfl
    rw [Keyed.modify, filter_map, length_map, hsame]
    exact h.perAccount a

theorem split_concat {pre post : List Entry} {x y : Entry} (h : log ++ [x] = pre ++ y :: post) :
    (pre = log ∧ y = x) ∨ ∃ post', log = pre ++ y :: post' := by
  rcases eq_nil_or_concat post with rfl | ⟨post', z, rfl⟩
  · obtain ⟨h1, h2⟩ := append_inj' h rfl
    exact .inl ⟨h1.symm, (cons.inj h2).1.symm⟩
  · rw [concat_eq_append, ← cons_append, ← append_assoc] at h
    exact .inr ⟨post', (append_inj' h rfl).1⟩

theorem entitled_concat
    (h : ∀ pre e post c, log = pre ++ e :: post → e.collection = some c → Entitled pre c)
    (he : ∀ c, e.collection = some c → Entitled log c) :
    ∀ pre x post c, log ++ [e] = pre ++ x :: post → x.collection = some c → Entitled pre c := by
  intro pre x post c hsplit hc
  rcases split_concat hsplit with ⟨rfl, rfl⟩ | ⟨post', hlog⟩
  · exact he c hc
  · exact h pre x post' c hlog hc

theorem Recorded.entitled (h : Recorded log q) {c : Collection} (hid : q.requestId = c.requestId)
    (hstate : q.state = .approved) (hpub : q.published = true) (hexp : c.time < q.expiresAt)
    (hparty : c.party = ⟨q.accountId, q.device c.role⟩) (hsession : q.sessionId = some c.sessionId)
    (hcred : q.credential c.role = some c.credential) : Entitled log c := by
  obtain ⟨g, hg, hgid, hgparty, hdead, hs, hh, hcl⟩ := h.approved hstate
  refine ⟨_, h.asked, g, hg, hid, ?_, hgid.trans hid, hgparty, hid ▸ h.published hpub, hdead ▸ hexp,
    Option.some.inj (hsession.symm.trans hs), ?_⟩
  · rw [hparty]
    cases c.role <;> rfl
  · cases hr : c.role with
    | host =>
      rw [hr] at hcred
      exact Option.some.inj (hcred.symm.trans hh)
    | client =>
      rw [hr] at hcred
      exact Option.some.inj (hcred.symm.trans hcl)

/-! ## One call -/

theorem Inv.drops (h : Inv s) {b : ConnectBroker} (hsub : b.requests.Sublist s.broker.requests)
    (ha : e.approval = none) (hc : ∀ c, e.collection = some c → Entitled s.log c) :
    Inv ⟨b, s.log ++ [e]⟩ where
  records q hq := (h.records q (hsub.subset hq)).concat fun _ g hg => by
    rw [ha] at hg
    cases hg
  approvals := h.approvals.concat ha
  bounded := h.bounded.sublist hsub
  entitled := entitled_concat h.entitled hc

theorem Inv.edits (h : Inv s) {b : ConnectBroker}
    {f : ConnectRequest → ConnectRequest} (hsub : b.requests.Sublist s.broker.requests)
    (hid : ∀ q, (f q).requestId = q.requestId) (hacc : ∀ q, (f q).accountId = q.accountId)
    (hf : ∀ q, q.requestId = requestId → Recorded s.log q → Recorded (s.log ++ [e]) (f q))
    (ha : e.approval = none) (hc : e.collection = none) :
    Inv ⟨b.modify requestId f, s.log ++ [e]⟩ where
  records q hq := by
    rcases Keyed.mem_modify hq with ⟨hq, -⟩ | ⟨r, hr, hid, rfl⟩
    · exact (h.records q (hsub.subset hq)).concat fun _ g hg => by simp [ha] at hg
    · exact hf r hid (h.records r (hsub.subset hr))
  approvals := h.approvals.concat ha
  bounded := (h.bounded.sublist hsub).modify hid hacc
  entitled := entitled_concat h.entitled fun c hce => by simp [hc] at hce

theorem Inv.request (h : Inv s) {accountId requester target : Text}
    {requested : Permissions} {now : ℕ}
    (hf : Fresh s (.request requestId accountId requester target requested, now)) :
    Inv (s.after accountDigest (.request requestId accountId requester target requested) now) := by
  rcases s.broker.requestScoped_spec accountDigest requestId accountId requester target requested now
    with ⟨hsub, err, herr⟩ | ⟨l, hsub, hne, htotal, hacc, hreq, hok⟩
  · refine h.drops hsub ?_ fun c hc => ?_
    · rfl
    · simp [Entry.collection] at hc
  have hnew : (s.broker.call accountDigest now
      (.request requestId accountId requester target requested)).1.requests = l ++ [_] := hreq
  simp only [after]
  set e : Entry := ⟨.request requestId accountId requester target requested, now,
    (s.broker.call accountDigest now (.request requestId accountId requester target requested)).2⟩
    with he
  have hreply : e = ⟨.request requestId accountId requester target requested, now, .request (.ok
      ⟨requestId, accountId, requester, target, .pending, now, now + REQUEST_TTL, requested, .none,
        none, false, none, none⟩)⟩ := by
    rw [he, call, Prod.map_snd, hok]
  have happ : e.approval = none := by rw [hreply]; rfl
  have hask : e.ask = some ⟨requestId, accountId, requester, target⟩ := by rw [hreply]; rfl
  refine ⟨fun q hq => ?_, h.approvals.concat happ, ?_, entitled_concat h.entitled fun c hc => ?_⟩
  · rw [hnew] at hq
    rcases mem_append.mp hq with hq | hq
    · exact (h.records q (hsub.subset hq)).concat fun _ g hg => by simp [happ] at hg
    · rw [mem_singleton.mp hq]
      refine ⟨mem_filterMap_concat.mpr (.inr hask), nofun, nofun,
        fun _ g hg heq => ?_⟩
      -- an approval of this identifier would have an earlier request with it
      rcases mem_filterMap_concat.mp hg with hg | hg
      · obtain ⟨a, ha, hid⟩ := h.approvals.known g hg
        obtain ⟨x, hx, hd⟩ := draws_of_ask ha
        exact hf requestId rfl x hx (hd.trans (congrArg some (hid.trans heq)))
      · simp [happ] at hg
  · rw [hnew]
    refine ⟨?_, ?_, fun a => ?_⟩
    · rw [map_append, map_singleton]
      refine nodup_append'.mpr ⟨h.bounded.nodup.sublist (hsub.map _), nodup_singleton _,
        fun id hid hid' => ?_⟩
      obtain ⟨q, hq, rfl⟩ := mem_map.mp hid
      exact hne q hq (mem_singleton.mp hid')
    · rw [length_append]
      exact htotal
    · rw [filter_append, length_append, filter_singleton]
      by_cases ha : accountId = a
      · subst ha
        simp only [decide_true, cond_true]
        exact hacc
      · simp only [ha, decide_false, cond_false]
        exact ((hsub.filter _).length_le).trans (h.bounded.perAccount a)
  · rw [hreply] at hc
    cases hc

theorem Inv.approve (h : Inv s) (requestId : Text) (party : Party) (grant : SessionGrant)
    (granted : Permissions) (now : ℕ) :
    Inv (s.after accountDigest (.approve requestId party grant granted) now) := by
  have hsub := s.broker.expire_sublist now
  rcases s.broker.approveScoped_spec requestId party grant granted now
    with ⟨hsub, err, herr⟩ | ⟨q, hq, hid, hacc, htarget, hstate, hb, hok⟩
  · refine h.drops hsub ?_ fun c hc => ?_
    · simp only [call, Prod.map_snd, herr]
      rfl
    · simp [Entry.collection] at hc
  simp only [after]
  set e : Entry := ⟨.approve requestId party grant granted, now,
    (s.broker.call accountDigest now (.approve requestId party grant granted)).2⟩ with he
  have hreply : e = ⟨.approve requestId party grant granted, now,
      .request (.ok (approved grant granted now q))⟩ := by
    rw [he, call, Prod.map_snd, hok]
  have happ : e.approval = some ⟨requestId, party, grant, now⟩ := by rw [hreply]; rfl
  have hnew : (s.broker.call accountDigest now (.approve requestId party grant granted)).1 =
      (s.broker.expire now).modify requestId (approved grant granted now) := hb
  have hrec := h.records q hq
  -- the request was pending, so this is its first approval
  have hfirst : ∀ g ∈ s.log.filterMap Entry.approval, g.requestId ≠ requestId :=
    fun g hg => hid ▸ hrec.pending hstate g hg
  refine ⟨fun x hx => ?_, ⟨fun g hg => ?_, fun g hg g' hg' heq => ?_⟩, ?_,
    entitled_concat h.entitled fun c hc => ?_⟩
  · rw [hnew] at hx
    rcases Keyed.mem_modify hx with ⟨hx, hne⟩ | ⟨y, hy, hyid, rfl⟩
    · refine (h.records x (hsub.subset hx)).concat fun _ g hg => ?_
      rw [happ] at hg
      cases hg
      exact Ne.symm hne
    · have hyq : y = q :=
        Keyed.eq_of_key h.bounded.nodup (hsub.subset hy) hq (hyid.trans hid.symm)
      subst hyq
      refine ⟨mem_filterMap_concat.mpr (.inl hrec.asked), fun _ => ⟨_, mem_filterMap_concat.mpr
        (.inr happ), hid.symm, ?_, rfl, rfl, rfl, rfl⟩, fun hp => ?_, nofun⟩
      · obtain ⟨acc, dev⟩ := party
        simp only [approved]
        rw [hacc, htarget]
      · exact mem_filterMap_concat.mpr (.inl (hrec.published hp))
  · rcases mem_filterMap_concat.mp hg with hg | hg
    · obtain ⟨a, ha, haid⟩ := h.approvals.known g hg
      exact ⟨a, mem_filterMap_concat.mpr (.inl ha), haid⟩
    · rw [happ] at hg
      cases hg
      exact ⟨_, mem_filterMap_concat.mpr (.inl hrec.asked), hid⟩
  · rcases mem_filterMap_concat.mp hg with hg | hg <;> rcases mem_filterMap_concat.mp hg' with hg' | hg'
    · exact h.approvals.once g hg g' hg' heq
    · rw [happ] at hg'
      cases hg'
      exact absurd heq (hfirst g hg)
    · rw [happ] at hg
      cases hg
      exact absurd heq.symm (hfirst g' hg')
    · exact Option.some.inj (hg.symm.trans hg')
  · rw [hnew]
    exact (h.bounded.sublist hsub).modify (fun _ => rfl) fun _ => rfl
  · rw [hreply] at hc
    cases hc

theorem Inv.collects (h : Inv s) {role : Role} {party : Party} {now : ℕ}
    {x : Text × Text} (hx : (s.broker.collect (fun q => q.device role) (fun q => q.credential role)
      requestId party now).2 = .ok x) : Entitled s.log ⟨role, requestId, party, x.1, x.2, now⟩ := by
  obtain ⟨q, hq, hid, hparty, hstate, hpub, hexp, hs, hc, -⟩ :=
    (s.broker.collect_spec _ _ requestId party now).2 x hx
  exact (h.records q hq).entitled hid hstate hpub hexp hparty hs hc

theorem Inv.after (h : Inv s) {op : Op} {now : ℕ} (hf : Fresh s (op, now)) :
    Inv (s.after accountDigest op now) := by
  have hsub := s.broker.expire_sublist now
  have hsame : s.broker.requests.Sublist s.broker.requests := List.Sublist.refl _
  have hnone {op : Op} {r : Reply} (hop : ∀ id p, op ≠ .collectHost id p ∧ op ≠ .collectClient id p)
      (c : Collection) (hc : (⟨op, now, r⟩ : Entry).collection = some c) : Entitled s.log c := by
    unfold Entry.collection at hc
    split at hc
    · next heq => exact absurd (congrArg Entry.op heq) (hop _ _).1
    · next heq => exact absurd (congrArg Entry.op heq) (hop _ _).2
    · cases hc
  cases op with
  | heartbeat | pendingFor | expire => exact h.drops hsub rfl (hnone (by simp))
  | goOffline | granted | requesterOf | requesterFor | minted =>
    exact h.drops hsame rfl (hnone (by simp))
  | request => exact h.request hf
  | approve requestId party grant granted => exact h.approve requestId party grant granted now
  | deny requestId accountId target =>
    rcases s.broker.deny_spec requestId accountId target now with hd | hd
    · exact h.drops hd rfl (hnone (by simp))
    · simp only [Trace.after, call, Prod.map_fst, id, hd]
      refine h.edits hsub (fun _ => rfl) (fun _ => rfl) (fun q hq hr => ?_) rfl rfl
      exact ⟨mem_filterMap_concat.mpr (.inl hr.asked), nofun,
        fun hp => mem_filterMap_concat.mpr (.inl (hr.published hp)), nofun⟩
  | collectHost requestId party =>
    refine h.drops ((s.broker.collect_spec _ _ requestId party now).1 ▸ hsub) rfl fun c hc => ?_
    simp only [call, Prod.map_snd] at hc
    cases hr : (s.broker.collectHostCredential requestId party now).2 with
    | error err => simp [hr, Entry.collection] at hc
    | ok x =>
      rw [hr] at hc
      cases hc
      exact h.collects hr
  | collectClient requestId party =>
    refine h.drops ((s.broker.collect_spec _ _ requestId party now).1 ▸ hsub) rfl fun c hc => ?_
    simp only [call, Prod.map_snd] at hc
    cases hr : (s.broker.collectClientCredential requestId party now).2 with
    | error err => simp [hr, Entry.collection] at hc
    | ok x =>
      rw [hr] at hc
      cases hc
      exact h.collects hr
  | observe requestId accountId requester =>
    exact h.drops (s.broker.observe_fst requestId accountId requester now ▸ hsub) rfl (hnone (by simp))
  | publish requestId =>
    refine h.edits hsame (fun _ => rfl) (fun _ => rfl) (fun q hq hr => ?_) rfl rfl
    have hr' := hr.concat (e := ⟨.publish requestId, now, .unit⟩) nofun
    exact ⟨hr'.asked, hr'.approved, fun _ => mem_filterMap_concat.mpr (.inr (by rw [← hq]; rfl)),
      hr'.pending⟩
  | withdraw => exact h.drops filter_sublist rfl (hnone (by simp))

theorem inv_of_reach (h : (brokerRuns accountDigest).ReachVia Fresh s) : Inv s := by
  refine h.invariant (I := Inv) ?_ ?_
  · refine ⟨?_, ⟨?_, ?_⟩, ⟨?_, ?_, ?_⟩, ?_⟩ <;> simp [brokerRuns, empty]
  · intro s a s' hi hf hs
    simp only [brokerRuns] at hs
    split_ifs at hs
    cases hs
    exact hi.after hf

theorem requests_of_reads {op : Op} (hr : op.reads) (b : ConnectBroker) (now : ℕ) :
    (b.call accountDigest now op).1.requests.Sublist b.requests := by
  have hsub := b.expire_sublist now
  cases op with
  | collectHost requestId party | collectClient requestId party =>
    exact (b.collect_spec _ _ requestId party now).1 ▸ hsub
  | observe requestId accountId requester =>
    exact b.observe_fst requestId accountId requester now ▸ hsub
  | pendingFor => exact hsub
  | granted | requesterOf | requesterFor | minted => exact List.Sublist.refl _
  | heartbeat | goOffline | request | approve | deny | publish | withdraw | expire => cases hr

/-- **Each credential reaches its own party only**, in every run of the broker with new request
identifiers, whoever calls. -/
theorem isolated (h : (brokerRuns accountDigest).ReachVia Fresh s) : s.Isolated accountDigest := by
  have hi := inv_of_reach h
  refine ⟨hi.entitled, fun c hc c' hc' hid => ?_, fun op now hr q hq => ?_, hi.bounded.total,
    hi.bounded.perAccount⟩
  · have happ {c : Collection} (hc : c ∈ s.log.filterMap Entry.collection) :
        ∃ g ∈ s.log.filterMap Entry.approval, g.requestId = c.requestId ∧
          c.sessionId = g.grant.sessionId ∧ c.credential = g.grant.credential c.role := by
      obtain ⟨e, he, hce⟩ := mem_filterMap.mp hc
      obtain ⟨pre, post, hlog⟩ := append_of_mem he
      obtain ⟨a, -, g, hg, -, -, hgid, -, -, -, hs, hcr⟩ := hi.entitled pre e post c hlog hce
      refine ⟨g, ?_, hgid, hs, hcr⟩
      rw [hlog, filterMap_append]
      exact mem_append_left _ hg
    obtain ⟨g, hg, hgid, hs, hcr⟩ := happ hc
    obtain ⟨g', hg', hgid', hs', hcr'⟩ := happ hc'
    have hgg := hi.approvals.once g hg g' hg' (hgid.trans (hid.trans hgid'.symm))
    subst hgg
    exact ⟨hs.trans hs'.symm, fun hrole => by rw [hcr, hcr', hrole]⟩
  · exact (requests_of_reads hr s.broker now).subset hq

/-- Both ends of an approved request collect, and a stranger does not. -/
theorem isolated_collected : ∃ s, (brokerRuns length).ReachVia Fresh s ∧
    s.log.filterMap Entry.collection = [⟨.host, ['r'], ⟨['a'], ['h']⟩, ['s'], ['x'], 4⟩,
      ⟨.client, ['r'], ⟨['a'], ['c']⟩, ['s'], ['y'], 6⟩] ∧ s.Isolated length := by
  obtain ⟨s, hs, hc⟩ := (brokerRuns length).exists_reachVia Fresh
    [(.heartbeat ['a'] ['h'] [], 0), (.request ['r'] ['a'] ['c'] ['h'] .none, 1),
      (.collectHost ['r'] ⟨['a'], ['h']⟩, 1),
      (.approve ['r'] ⟨['a'], ['h']⟩ ⟨['s'], ['x'], ['y']⟩ .none, 2), (.publish ['r'], 3),
      (.collectHost ['r'] ⟨['a'], ['h']⟩, 4), (.collectHost ['r'] ⟨['a'], ['c']⟩, 5),
      (.collectClient ['r'] ⟨['a'], ['c']⟩, 6), (.collectClient ['r'] ⟨['a'], ['c']⟩, 60002)]
    (fun s => s.log.filterMap Entry.collection = [⟨.host, ['r'], ⟨['a'], ['h']⟩, ['s'], ['x'], 4⟩,
      ⟨.client, ['r'], ⟨['a'], ['c']⟩, ['s'], ['y'], 6⟩]) (by decide +kernel)
  exact ⟨s, hs, hc, isolated hs⟩

end Trace

end OpenStream.Connect
