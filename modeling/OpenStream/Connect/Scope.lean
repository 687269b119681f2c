import OpenStream.Connect.Steps

/-!
# The permissions of a session

The requester asks for permissions, the target grants some, and both ends are told what was granted.
The broker records what the target grants as it is.

* **`World.answers_narrow`**
-/

namespace OpenStream.Connect

open List ConnectRequest

open Account (Text AccountStore)
open HostIpc (Capabilities)

theorem addIf_mono {c c' x : Capabilities} {b b' : Bool} (hc : c.Le c') (hb : b → b') :
    (addIf c b x).Le (addIf c' b' x) := by
  cases b with
  | false =>
    cases b' with
    | false => exact hc
    | true => exact hc.trans (c'.le_withCaps_left x)
  | true =>
    rw [hb rfl]
    exact Capabilities.withCaps_mono hc (.refl x)

theorem brokerCapabilities_mono {p q : Permissions} (h : p.Le q) :
    (brokerCapabilities p).Le (brokerCapabilities q) := by
  obtain ⟨-, hkeyboard, hmouse, hgamepad, hclipboard, -, -, -⟩ := h
  exact addIf_mono (addIf_mono (addIf_mono (addIf_mono (.refl _) hkeyboard) hmouse) hgamepad)
    hclipboard

theorem capabilities_of_issue {st : AccountStore} {party : Party} {sessionId requester : Text}
    {capabilities : Capabilities} {now lifetime : ℕ} {nonce : Option ℕ} {r : Option MachineGrant}
    (h : issueSessionGrant st party sessionId requester capabilities now lifetime nonce = .ok r) :
    ∀ g ∈ r, g.capabilities = capabilities := by
  intro g hg
  unfold issueSessionGrant at h
  split at h
  · cases h
  split at h
  · cases h
  split at h
  · cases h
    cases hg
  · split at h
    · cases h
    · cases h
      cases hg
      rfl

/-- The approval a handler is about to record. -/
def Task.grants : Task → Option ApproveCall
  | .approveMark call => some call
  | _ => none

namespace World

variable {accountDigest : Text → ℕ} {w : World} {env : Env} {t : Task}
  {made made' : List ConnectRequest}

/-- An answer holds no more than the request it names asked for. -/
def Narrow (made : List ConnectRequest) (a : Answer) : Prop :=
  ∃ m ∈ made, m.requestId = a.requestId ∧ a.permissions.Le m.requested ∧
    ∀ g ∈ a.sessionGrant, g.capabilities.Le (brokerCapabilities m.requested)

/-- A handler about to answer holds no more than the request asked for. -/
def TaskNarrow (made : List ConnectRequest) : Task → Prop
  | .approveGrant call _ _ permissions =>
    ∃ m ∈ made, m.requestId = call.requestId ∧ permissions.Le m.requested
  | _ => True

theorem TaskNarrow.mono (h : TaskNarrow made t) (hm : made ⊆ made') : TaskNarrow made' t := by
  cases t with
  | approveGrant =>
    obtain ⟨m, hmem, hrest⟩ := h
    exact ⟨m, hm hmem, hrest⟩
  | _ => trivial

theorem Narrow.mono {a : Answer} (h : Narrow made a) (hm : made ⊆ made') : Narrow made' a := by
  obtain ⟨m, hmem, hrest⟩ := h
  exact ⟨m, hm hmem, hrest⟩

theorem taskNarrow_of_quiet (h : t.quiet) : TaskNarrow made t := by
  cases t with
  | approveGrant => cases h
  | _ => trivial

/-- What runs with modest approvals keep: what is granted and answered was asked for. -/
structure Scoped (w : World) : Prop extends Booked w where
  granted : ∀ q ∈ w.connect.requests, q.granted.Le q.requested
  tasks : ∀ t ∈ w.tasks, TaskNarrow w.made t
  answers : ∀ a ∈ w.answers, Narrow w.made a

/-! ## One step -/

theorem narrow_granted {requestId : Text} {q : ConnectRequest} (hb : Booked w)
    (hg : ∀ q ∈ w.connect.requests, q.granted.Le q.requested)
    (hq : w.connect.find requestId = some q) :
    ∃ m ∈ w.made, m.requestId = requestId ∧
      (w.connect.grantedPermissions requestId).Le m.requested := by
  have hmem := Keyed.mem_of_get hq
  obtain ⟨m, hm, hterms⟩ := hb.records q hmem
  obtain ⟨hid, -, -, -, hreq⟩ := terms_eq.mp hterms
  refine ⟨m, hm, hid.trans (Keyed.key_of_get hq), ?_⟩
  rw [ConnectBroker.grantedPermissions, hq, hreq]
  exact hg q hmem

variable (accountDigest env) in
theorem answers_advance (t : Task) : let r := w.advance accountDigest env t
    r.1.answers = w.answers ∨
    (∃ call sessionId requester permissions sessionGrant,
      t = .approveGrant call sessionId requester permissions ∧
      (∀ g ∈ sessionGrant, g.capabilities = brokerCapabilities permissions) ∧
      r.1.answers = w.answers ++ [⟨call.requestId, permissions, sessionGrant⟩]) ∨
    ∃ requestId q, r.1.connect.find requestId = some q ∧
      r.1.answers = w.answers ++ [⟨requestId, r.1.connect.grantedPermissions requestId, none⟩] := by
  intro r
  cases t with
  | approveGrant call sessionId requester permissions =>
    simp only [r, advance]
    split
    · rename_i sessionGrant hg
      exact .inr (.inl ⟨call, sessionId, requester, permissions, sessionGrant, rfl,
        capabilities_of_issue hg, rfl⟩)
    · exact .inl rfl
  | observeCollect party requestId =>
    simp only [r, advance]
    split
    · split
      · rename_i x hx
        obtain ⟨q, -, -, -, -, -, -, -, -, hfind⟩ := (ConnectBroker.collect_spec _
          requesterDeviceId clientCredential requestId party env.now).2
          x hx
        exact .inr (.inr ⟨requestId, q, hfind, rfl⟩)
      · exact .inl rfl
    · exact .inl rfl
  | approveInsert call approved sessionId host client =>
    simp only [r, advance]
    rw [insertSession_fst]
    exact .inl rfl
  | _ =>
    left
    simp only [r, advance, requireTrusted_fst]
    repeat' split
    all_goals rfl

variable (accountDigest env) in
theorem granted_advance (hb : Booked w) (hg : ∀ q ∈ w.connect.requests, q.granted.Le q.requested)
    (hm : ∀ call ∈ t.grants, ∀ q ∈ w.connect.requests, call.names q → q.state = .pending →
      call.granted.Le q.requested) :
    ∀ q ∈ (w.advance accountDigest env t).1.connect.requests, q.granted.Le q.requested := by
  intro q' hq'
  rcases w.connect_advance accountDigest env t with ⟨hf, -⟩ | ⟨-, q, -, -, hnone, hmem⟩ |
    ⟨call, rfl, -, q, hq, hn, hpending, hb', -⟩
  · obtain ⟨q, hq, hterms, hgr, -⟩ := hf q' hq'
    rw [hgr, (terms_eq.mp hterms).2.2.2.2]
    exact hg q hq
  · rcases hmem q' hq' with hq' | rfl
    · exact hg q' hq'
    · simp [hnone, Permissions.Le, Permissions.none]
  · rw [hb'] at hq'
    rcases Keyed.mem_modify hq' with ⟨hq', -⟩ | ⟨y, hy, hyid, rfl⟩
    · exact hg q' ((w.connect.expire_sublist call.now).subset hq')
    · have heq := hb.terms_eq hq ((w.connect.expire_sublist call.now).subset hy)
        (hn.1.trans hyid.symm)
      rw [ConnectBroker.approved, ← (terms_eq.mp heq).2.2.2.2]
      exact hm call rfl q hq hn hpending

/-! ## Every run -/

/-- An approval of a pending request grants no more than was asked for. -/
def Modest (w : World) : Action → Prop
  | .step i _ => ∀ call ∈ w.tasks[i]?.bind Task.grants, ∀ q ∈ w.connect.requests,
      call.names q → q.state = .pending → call.granted.Le q.requested
  | _ => True

instance (w : World) : (a : Action) → Decidable (Modest w a)
  | .step i _ => inferInstanceAs (Decidable (∀ call ∈ w.tasks[i]?.bind Task.grants,
      ∀ q ∈ w.connect.requests, call.names q → q.state = .pending → call.granted.Le q.requested))
  | .arrive _ | .account _ _ _ | .provision _ _ _ | .drop _ => .isTrue trivial

theorem Scoped.after (h : Scoped w) {i : ℕ} (ht : w.tasks[i]? = some t)
    (hd : Drawn w (.step i env)) (hm : Modest w (.step i env)) :
    Scoped (w.after accountDigest i env t) := by
  have hbook := h.toBooked.after accountDigest ht hd
  have hgr := granted_advance accountDigest env h.toBooked h.granted
    fun call hc => hm call (by rwa [ht])
  have htold {requestId : Text} {q : ConnectRequest}
      (hq : (w.advance accountDigest env t).1.connect.find requestId = some q) :=
    narrow_granted (w := w.after accountDigest i env t) hbook hgr hq
  have hmono : w.made ⊆ (w.after accountDigest i env t).made := by
    rcases w.made_advance accountDigest env t with hmade | ⟨-, q, hmade, -⟩
    · exact hmade ▸ List.Subset.refl _
    · exact hmade ▸ subset_append_left _ _
  refine ⟨hbook, hgr, fun u hu => ?_, fun a ha => ?_⟩
  · rcases mem_or_eq_of_mem_set hu with hu | rfl
    · exact (h.tasks u hu).mono hmono
    · have hleads := w.leads_advance accountDigest env t
      generalize hnext : (w.advance accountDigest env t).2 = next at hleads
      cases hleads with
      | quiet hq => exact taskNarrow_of_quiet hq
      | grant hfind => exact htold hfind
      | _ => trivial
  · change a ∈ (w.advance accountDigest env t).1.answers at ha
    rcases answers_advance accountDigest env (w := w) t with
      hans | ⟨call, sessionId, requester, permissions, sessionGrant, rfl, hcap, hans⟩ |
      ⟨requestId, q, hfind, hans⟩
    · exact (h.answers a (hans ▸ ha)).mono hmono
    · rw [hans] at ha
      refine forall_mem_concat (fun a ha => (h.answers a ha).mono hmono) ?_ a ha
      obtain ⟨m, hmem, hid, hle⟩ := (h.tasks _ (mem_of_getElem? ht)).mono hmono
      exact ⟨m, hmem, hid, hle, fun g hg => hcap g hg ▸ brokerCapabilities_mono hle⟩
    · rw [hans] at ha
      refine forall_mem_concat (fun a ha => (h.answers a ha).mono hmono) ?_ a ha
      obtain ⟨m, hmem, hid, hle⟩ := htold hfind
      exact ⟨m, hmem, hid, hle, nofun⟩

theorem Scoped.step {accounts : AccountStore} {w' : World} {a : Action} (h : Scoped w)
    (hd : Drawn w a) (hm : Modest w a) (hst : (world accountDigest accounts).step w a = some w') :
    Scoped w' := by
  obtain ⟨t, -, harr, rfl⟩ | ⟨i, env, t, rfl, ht, rfl⟩ | ⟨c, nowMs, draws, -, -, rfl⟩ |
    ⟨id, session, env, -, -, rfl⟩ | ⟨id, -, rfl⟩ := world_step hst
  · refine ⟨⟨h.distinct, h.records⟩, h.granted, forall_mem_concat h.tasks ?_, h.answers⟩
    cases t with
    | approveGrant => cases harr
    | _ => trivial
  · exact h.after ht hd hm
  · exact ⟨⟨h.distinct, h.records⟩, h.granted, h.tasks, h.answers⟩
  · rw [insertSession_fst]
    exact ⟨⟨h.distinct, h.records⟩, h.granted, h.tasks, h.answers⟩
  · exact ⟨⟨h.distinct, h.records⟩, h.granted, h.tasks, h.answers⟩

theorem scoped_of_reach {accounts : AccountStore}
    (h : (world accountDigest accounts).ReachVia (fun w a => Drawn w a ∧ Modest w a) w) :
    Scoped w := by
  refine h.invariant ⟨⟨nodup_nil, ?_⟩, ?_, ?_, ?_⟩
    fun _ _ _ hi hok hst => hi.step hok.1 hok.2 hst
  all_goals
    intro x hx
    cases hx

/-- **Negotiated permissions only narrow**, in every run in which approvals are modest: each request
has its own identifier, and what is answered for it, to either end or in a grant for the machine, was
asked for in it. -/
theorem answers_narrow {accounts : AccountStore}
    (h : (world accountDigest accounts).ReachVia (fun w a => Drawn w a ∧ Modest w a) w) :
    (w.made.map requestId).Nodup ∧ ∀ a ∈ w.answers, Narrow w.made a :=
  ⟨(scoped_of_reach h).distinct, (scoped_of_reach h).answers⟩

instance (made : List ConnectRequest) (a : Answer) : Decidable (Narrow made a) := by
  unfold Narrow
  infer_instance

def keyboard : Permissions := { Permissions.none with keyboard := true }

theorem answers_narrow_keyboard : ∃ w, (world length .empty).ReachVia
      (fun w a => Drawn w a ∧ Modest w a) w ∧
    (∃ a ∈ w.answers, a.permissions.keyboard ∧ a.sessionGrant.isSome) ∧
    (w.made.map requestId).Nodup ∧ ∀ a ∈ w.answers, Narrow w.made a := by
  obtain ⟨w, hw, ha⟩ := (world length .empty).exists_reachVia
    (fun w a => Drawn w a ∧ Modest w a)
    (Sample.setUp ++ Sample.ask keyboard ++ Sample.approve keyboard 11)
    (fun w => ∃ a ∈ w.answers, a.permissions.keyboard ∧ a.sessionGrant.isSome) (by decide +kernel)
  exact ⟨w, hw, ha, answers_narrow hw⟩

/-- **An approval can widen.** The laptop asks to watch, the desktop approves the keyboard, and the
answer and the grant for the machine hold it. -/
theorem answers_wider : ∃ w, (world length .empty).ReachVia Drawn w ∧
    ∃ a ∈ w.answers, ¬ Narrow w.made a := by
  exact (world length .empty).exists_reachVia Drawn
    (Sample.setUp ++ Sample.ask .none ++ Sample.approve keyboard 11)
    (fun w => ∃ a ∈ w.answers, ¬ Narrow w.made a) (by decide +kernel)

end World

end OpenStream.Connect
