import OpenStream.Connect.Steps

/-!
# Revocation and approval

A device that was revoked or removed must not get a session from a request made before. An approval
checks the trust of both ends first and inserts the session several locks later; a revocation changes
the trust under one lock and ends the sessions under another.

* **`World.revocation_final`**
-/

namespace OpenStream.Connect

open List ConnectRequest

open Account (Text AccountStore)

namespace Revocation

def Names (ρ : Revocation) (q : ConnectRequest) : Prop :=
  q.accountId = ρ.accountId ∧ (q.requesterDeviceId = ρ.deviceId ∨ q.targetDeviceId = ρ.deviceId)

instance (ρ : Revocation) (q : ConnectRequest) : Decidable (ρ.Names q) :=
  inferInstanceAs (Decidable (_ ∧ _))

def Old (ρ : Revocation) (made : List ConnectRequest) (requestId : Text) : Prop :=
  requestId ∈ (made.take ρ.mark).map ConnectRequest.requestId

instance (ρ : Revocation) (made : List ConnectRequest) (requestId : Text) :
    Decidable (ρ.Old made requestId) := inferInstanceAs (Decidable (_ ∈ _))

variable {ρ : Revocation} {made : List ConnectRequest} {requestId : Text}

theorem Old.mem (h : ρ.Old made requestId) : ∃ m ∈ made, m.requestId = requestId := by
  obtain ⟨m, hm, hid⟩ := mem_map.mp h
  exact ⟨m, mem_of_mem_take hm, hid⟩

theorem Names.congr {q q' : ConnectRequest} (h : ρ.Names q') (ht : q'.terms = q.terms) :
    ρ.Names q := by
  obtain ⟨-, hacc, hreq, htgt, -⟩ := terms_eq.mp ht
  exact ⟨hacc ▸ h.1, hreq ▸ htgt ▸ h.2⟩

end Revocation

theorem ApproveCall.names.congr {call : ApproveCall} {q q' : ConnectRequest} (h : call.names q')
    (ht : q'.terms = q.terms) : call.names q := by
  obtain ⟨hid, hacc, -, htgt, -⟩ := terms_eq.mp ht
  exact ⟨hid ▸ h.1, hacc ▸ h.2.1, htgt ▸ h.2.2⟩

namespace World

variable {accountDigest : Text → ℕ} {w : World} {env : Env} {t : Task} {ρ : Revocation}

/-! ## What a revocation could miss -/

def Stale (w : World) (ρ : Revocation) (q : ConnectRequest) : Prop :=
  q.state = .pending ∧ ρ.Names q ∧ ρ.Old w.made q.requestId

instance (w : World) (ρ : Revocation) (q : ConnectRequest) : Decidable (w.Stale ρ q) :=
  inferInstanceAs (Decidable (_ ∧ _))

/-- An approval of such a request, by the device it is for. -/
def Takes (w : World) (ρ : Revocation) (call : ApproveCall) : Prop :=
  ∃ q ∈ w.connect.requests, w.Stale ρ q ∧ call.names q

instance (w : World) (ρ : Revocation) (call : ApproveCall) : Decidable (w.Takes ρ call) :=
  inferInstanceAs (Decidable (∃ q ∈ _, _))

/-- An approval that has passed its checks and would insert a session of the device. While the
requester is still to be checked, only the target has passed. -/
def Endangers (w : World) (ρ : Revocation) : Task → Prop
  | .approveRequester call | .approveCheck call _ =>
    call.party.deviceId = ρ.deviceId ∧ w.Takes ρ call
  | .approveMark call => w.Takes ρ call
  | .approveLimit call q | .approveMint call q _ | .approveInsert call q _ _ _ =>
    ρ.Old w.made call.requestId ∧ call.party.accountId = ρ.accountId ∧
      (q.requesterDeviceId = ρ.deviceId ∨ call.party.deviceId = ρ.deviceId)
  | _ => False

instance (w : World) (ρ : Revocation) (t : Task) : Decidable (w.Endangers ρ t) := by
  cases t <;> simp only [Endangers] <;> infer_instance

def Asked (made : List ConnectRequest) : Task → Prop
  | .approveCheck call requester =>
    ∃ m ∈ made, m.requestId = call.requestId ∧ m.requesterDeviceId = requester
  | _ => True

theorem not_endangers_of_quiet (h : t.quiet) : ¬ w.Endangers ρ t := by
  cases t with
  | approveRequester | approveCheck | approveMark | approveLimit | approveMint | approveInsert =>
    cases h
  | _ => exact id

theorem asked_of_quiet {made : List ConnectRequest} (h : t.quiet) : Asked made t := by
  cases t with
  | approveCheck => cases h
  | _ => trivial

theorem Asked.mono {made made' : List ConnectRequest} (h : Asked made t) (hm : made ⊆ made') :
    Asked made' t := by
  cases t with
  | approveCheck =>
    obtain ⟨m, hmem, hrest⟩ := h
    exact ⟨m, hm hmem, hrest⟩
  | _ => trivial

def Cleared (w : World) (accountId deviceId : Text) : Prop :=
  ∀ id s, w.sessions.lookup id = some s → s.ownedBy accountId deviceId = false

def Ended (w : World) : Prop :=
  ∀ ρ ∈ w.returned, ∀ id s, w.sessions.lookup id = some s →
    ∀ o ∈ s.ownership, o.involves ρ.accountId ρ.deviceId → ¬ ρ.Old w.made o.requestId

/-- What is kept while no revocation is raced. -/
structure Guarded (w : World) : Prop extends Booked w where
  marks : ∀ ρ ∈ w.revoked, ρ.mark ≤ w.made.length ∧ (w.accounts.account ρ.accountId).isSome
  untrusted : ∀ ρ ∈ w.revoked, w.accounts.trustOf ρ.accountId ρ.deviceId = some .trusted →
    ∀ q ∈ w.connect.requests, ¬ w.Stale ρ q
  safe : ∀ ρ ∈ w.revoked, ∀ t ∈ w.tasks, ¬ w.Endangers ρ t
  asked : ∀ t ∈ w.tasks, Asked w.made t
  sweeps : ∀ ρ, .sweep ρ true ∈ w.tasks → ρ ∈ w.revoked
  returned : w.returned ⊆ w.revoked
  ended : w.Ended

/-! ## One step -/

section Step

variable {i : ℕ} (ht : w.tasks[i]? = some t) (hd : Drawn w (.step i env))

theorem old_after (hm : ρ.mark ≤ w.made.length) (requestId : Text) :
    ρ.Old (w.after accountDigest i env t).made requestId ↔ ρ.Old w.made requestId := by
  change ρ.Old (w.advance accountDigest env t).1.made requestId ↔ _
  rcases w.made_advance accountDigest env t with h | ⟨-, q, h, -⟩
  · rw [h]
  · rw [h, Revocation.Old, Revocation.Old, take_append_of_le_length hm]

include ht hd in
theorem stale_after (hm : ρ.mark ≤ w.made.length) {q' : ConnectRequest}
    (hq' : q' ∈ (w.after accountDigest i env t).connect.requests)
    (h : (w.after accountDigest i env t).Stale ρ q') :
    ∃ q ∈ w.connect.requests, q'.terms = q.terms ∧ w.Stale ρ q := by
  obtain ⟨hpend, hnames, hold⟩ := h
  rw [old_after hm] at hold
  rcases w.connect_advance accountDigest env t with ⟨hf, -⟩ | ⟨hrec, q, -, hid, -, hmem⟩ |
    ⟨call, -, -, -, -, -, -, hb, -⟩
  · obtain ⟨q, hq, hterms, -, hs⟩ := hf q' hq'
    refine ⟨q, hq, hterms, hs hpend, hnames.congr hterms, ?_⟩
    rwa [← (terms_eq.mp hterms).1]
  · rcases hmem q' hq' with hq | rfl
    · exact ⟨q', hq, rfl, hpend, hnames, hold⟩
    · -- the request recorded now has a new identifier
      obtain ⟨m, hm, hmid⟩ := hold.mem
      exact absurd (hmid.trans hid) (hd (by rwa [ht]) m hm)
  · change q' ∈ (w.advance accountDigest env t).1.connect.requests at hq'
    rw [hb] at hq'
    rcases Keyed.mem_modify hq' with ⟨hq, -⟩ | ⟨q, -, -, rfl⟩
    · exact ⟨q', (w.connect.expire_sublist call.now).subset hq, rfl, hpend, hnames, hold⟩
    · cases hpend

variable {call : ApproveCall}

include ht hd in
theorem takes_after (hm : ρ.mark ≤ w.made.length)
    (h : (w.after accountDigest i env t).Takes ρ call) : w.Takes ρ call := by
  obtain ⟨q', hq', hstale, hnames⟩ := h
  obtain ⟨q, hq, hterms, hstale⟩ := stale_after ht hd hm hq' hstale
  exact ⟨q, hq, hstale, hnames.congr hterms⟩

include ht hd in
theorem endangers_after (hm : ρ.mark ≤ w.made.length) {u : Task}
    (h : (w.after accountDigest i env t).Endangers ρ u) : w.Endangers ρ u := by
  cases u with
  | approveRequester | approveCheck => exact ⟨h.1, takes_after ht hd hm h.2⟩
  | approveMark => exact takes_after ht hd hm h
  | approveLimit | approveMint | approveInsert => exact ⟨(old_after hm _).mp h.1, h.2⟩
  | _ => exact h.elim

theorem requesterForTarget_of_takes (h : Booked w) (hc : w.Takes ρ call) :
    (w.connect.requesterForTarget call.requestId call.party).isSome := by
  obtain ⟨q, hq, -, hid, hacc, htgt⟩ := hc
  unfold ConnectBroker.requesterForTarget
  cases hf : w.connect.find call.requestId with
  | none =>
    unfold ConnectBroker.find Keyed.get at hf
    rw [find?_eq_none] at hf
    exact absurd (decide_eq_true hid) (hf q hq)
  | some q₀ =>
    have heq := h.terms_eq (Keyed.mem_of_get hf) hq ((Keyed.key_of_get hf).trans hid.symm)
    obtain ⟨-, hacc', -, htgt', -⟩ := terms_eq.mp heq
    simp [hacc'.trans hacc, htgt'.trans htgt]

theorem asked_of_requester (h : Booked w) {requester : Text}
    (hr : w.connect.requesterForTarget call.requestId call.party = some requester) :
    Asked w.made (.approveCheck call requester) := by
  obtain ⟨q, hq, rfl⟩ := Option.map_eq_some_iff.mp hr
  have hf := (Option.filter_eq_some_iff.mp hq).1
  obtain ⟨m, hm, hterms⟩ := h.records q (Keyed.mem_of_get hf)
  obtain ⟨hid, -, hreq, -⟩ := terms_eq.mp hterms
  exact ⟨m, hm, hid.trans (Keyed.key_of_get hf), hreq⟩

theorem requester_of_takes (h : Booked w) {requester : Text}
    (ha : Asked w.made (.approveCheck call requester)) {q : ConnectRequest}
    (hq : q ∈ w.connect.requests) (hn : call.names q) : q.requesterDeviceId = requester := by
  obtain ⟨m, hm, hmid, rfl⟩ := ha
  obtain ⟨m', hm', hterms⟩ := h.records q hq
  obtain ⟨hid, -, hreq, -⟩ := terms_eq.mp hterms
  have heq : m' = m := Keyed.eq_of_key h.distinct hm' hm ((hid.trans hn.1).trans hmid.symm)
  rw [← hreq, heq]

include ht hd in
/-- **No handler comes to endanger a revocation**: each check stands between. -/
theorem Guarded.not_endangers_next (h : Guarded w) (hρ : ρ ∈ w.revoked) :
    ¬ (w.after accountDigest i env t).Endangers ρ (w.advance accountDigest env t).2 := by
  intro hbad
  have hm := (h.marks ρ hρ).1
  have hsafe := h.safe ρ hρ t (mem_of_getElem? ht)
  have hbad := endangers_after ht hd hm hbad
  have hleads := w.leads_advance accountDigest env t
  generalize (w.advance accountDigest env t).2 = next at hbad hleads
  cases hleads with
  | quiet hq => exact not_endangers_of_quiet hq hbad
  | requester htrust =>
    obtain ⟨hdev, q, hq, hstale, hnames⟩ := hbad
    refine h.untrusted ρ hρ ?_ q hq hstale
    rw [← hdev, ← hstale.2.1.1, hnames.2.1, htrust]
  | check | mint | insert => exact hsafe hbad
  | unasked hnone =>
    have hsome := requesterForTarget_of_takes h.toBooked hbad
    rw [hnone] at hsome
    cases hsome
  | @mark call requester htrust =>
    obtain ⟨q, hq, hstale, hnames⟩ := hbad
    rcases hstale.2.1.2 with hreq | htgt
    · refine h.untrusted ρ hρ ?_ q hq hstale
      have heq := requester_of_takes h.toBooked (h.asked _ (mem_of_getElem? ht)) hq hnames
      rw [← hreq, ← hstale.2.1.1, heq, hnames.2.1, htrust]
    · exact hsafe ⟨hnames.2.2.symm.trans htgt, q, hq, hstale, hnames⟩
  | limit hq hn hp =>
    obtain ⟨hold, hacc, hdev⟩ := hbad
    refine hsafe ⟨_, hq, ⟨hp, ⟨hn.2.1.trans hacc, ?_⟩, ?_⟩, hn⟩
    · exact hdev.imp_right hn.2.2.trans
    · exact hn.1.symm ▸ hold
  | grant | sweep => exact hbad

theorem not_endangers_of_ends {w' : World} {x : Text × Text} (hx : x ∈ t.ends) :
    ¬ w'.Endangers ρ (w.advance accountDigest env t).2 := by
  have hleads := w.leads_advance accountDigest env t
  generalize (w.advance accountDigest env t).2 = next at hleads
  cases hleads with
  | quiet hq => exact not_endangers_of_quiet hq
  | sweep => exact id
  | _ => cases hx

end Step

variable (accountDigest env) in
theorem made_subset_after (w : World) (i : ℕ) (t : Task) :
    w.made ⊆ (w.after accountDigest i env t).made ∧
      w.made.length ≤ (w.after accountDigest i env t).made.length := by
  change w.made ⊆ (w.advance accountDigest env t).1.made ∧
    _ ≤ (w.advance accountDigest env t).1.made.length
  rcases w.made_advance accountDigest env t with hmade | ⟨-, q, hmade, -⟩
  · simp [hmade]
  · simp [hmade]

variable (accountDigest env) in
theorem revoked_subset_after (w : World) (i : ℕ) (t : Task) :
    w.revoked ⊆ (w.after accountDigest i env t).revoked := by
  change w.revoked ⊆ (w.advance accountDigest env t).1.revoked
  rcases w.revoked_advance accountDigest env t with hr | ⟨accountId, deviceId, -, hr, -⟩
  · exact hr ▸ List.Subset.refl _
  · exact hr ▸ subset_append_left _ _

theorem mem_revoked_after {i : ℕ} (hρ : ρ ∈ (w.after accountDigest i env t).revoked) :
    ρ ∈ w.revoked ∨ ∃ x ∈ t.ends, ρ = w.revocation x.1 x.2 ∧
      (w.accounts.account ρ.accountId).isSome ∧
      (w.advance accountDigest env t).1.accounts.trustOf ρ.accountId ρ.deviceId ≠ some .trusted := by
  change ρ ∈ (w.advance accountDigest env t).1.revoked at hρ
  rcases w.revoked_advance accountDigest env t with hr | ⟨accountId, deviceId, he, hr, hacc, htr⟩
  · exact .inl (hr ▸ hρ)
  · rw [hr] at hρ
    rcases mem_append.mp hρ with hρ | hρ
    · exact .inl hρ
    · rw [mem_singleton.mp hρ]
      exact .inr ⟨(accountId, deviceId), he, rfl, hacc, htr⟩

theorem lookup_insertSession {id x : Text} {session s : LiveSession}
    (h : (w.insertSession env id session .done .done).1.sessions.lookup x = some s) :
    w.sessions.lookup x = some s ∨ s = session := by
  unfold insertSession at h
  simp only at h
  split_ifs at h
  · rw [Table.lookup_retain, Option.filter_eq_some_iff] at h
    exact .inl h.1
  · by_cases hx : x = id
    · subst hx
      rw [AList.lookup_insert] at h
      exact .inr (Option.some.inj h).symm
    · rw [AList.lookup_insert_ne hx, Table.lookup_retain, Option.filter_eq_some_iff] at h
      exact .inl h.1

/-! ## Every run -/

def Unraced (w : World) : Action → Prop
  | .step i _ => ∀ t ∈ w.tasks[i]?,
      (∀ x ∈ t.ends, ∀ u ∈ w.tasks, ¬ w.Endangers (w.revocation x.1 x.2) u) ∧
      ∀ ρ ∈ w.revoked, t.Raises w.accounts ρ.accountId ρ.deviceId →
        ∀ q ∈ w.connect.requests, ¬ w.Stale ρ q
  | _ => True

instance (st : AccountStore) (t : Task) (accountId deviceId : Text) :
    Decidable (t.Raises st accountId deviceId) := by
  cases t <;> simp only [Task.Raises, AccountStore.FirstDevice] <;> infer_instance

instance (w : World) : (a : Action) → Decidable (Unraced w a)
  | .step i _ => inferInstanceAs (Decidable (∀ t ∈ w.tasks[i]?,
      (∀ x ∈ t.ends, ∀ u ∈ w.tasks, ¬ w.Endangers (w.revocation x.1 x.2) u) ∧
      ∀ ρ ∈ w.revoked, t.Raises w.accounts ρ.accountId ρ.deviceId →
        ∀ q ∈ w.connect.requests, ¬ w.Stale ρ q))
  | .arrive _ | .account _ _ _ | .provision _ _ _ | .drop _ => .isTrue trivial

theorem Guarded.after {i : ℕ} (h : Guarded w) (ht : w.tasks[i]? = some t)
    (hd : Drawn w (.step i env)) (hu : Unraced w (.step i env)) :
    Guarded (w.after accountDigest i env t) := by
  obtain ⟨hends, hraises⟩ := hu t ht
  have hfirm := w.accounts_advance accountDigest env t
  have hmade := made_subset_after accountDigest env w i t
  have hrevoked := revoked_subset_after accountDigest env w i t
  have hmark {ρ : Revocation} (hρ : ρ ∈ (w.after accountDigest i env t).revoked) :
      ρ.mark ≤ w.made.length := by
    rcases mem_revoked_after hρ with hρ | ⟨x, -, rfl, -⟩
    · exact (h.marks ρ hρ).1
    · exact le_refl _
  have hsweep (ρ : Revocation) (hρ : .sweep ρ true ∈ (w.after accountDigest i env t).tasks) :
      ρ ∈ (w.after accountDigest i env t).revoked := by
    rcases mem_or_eq_of_mem_set hρ with hρ | hρ
    · exact hrevoked (h.sweeps ρ hρ)
    · have hleads := w.leads_advance accountDigest env t
      rw [← hρ] at hleads
      cases hleads with
      | quiet hq => cases hq
      | sweep hmem => exact hmem
  refine ⟨h.toBooked.after accountDigest ht hd, fun ρ hρ => ⟨(hmark hρ).trans hmade.2, ?_⟩,
    fun ρ hρ htrust q hq hstale => ?_, fun ρ hρ u hu => ?_, fun u hu => ?_, hsweep, ?_, ?_⟩
  · rcases mem_revoked_after hρ with hρ | ⟨x, -, -, hacc, -⟩
    · exact hfirm.isSome (h.marks ρ hρ).2
    · exact hfirm.isSome hacc
  · obtain ⟨q', hq', -, hstale⟩ := stale_after ht hd (hmark hρ) hq hstale
    rcases mem_revoked_after hρ with hρ | ⟨x, -, -, -, hne⟩
    · rcases hfirm.trustOf (h.marks ρ hρ).2 htrust with hbefore | hraise
      · exact h.untrusted ρ hρ hbefore q' hq' hstale
      · exact hraises ρ hρ hraise q' hq' hstale
    · exact hne htrust
  · rcases mem_or_eq_of_mem_set hu with hu | rfl
    · intro hbad
      have hbad := endangers_after ht hd (hmark hρ) hbad
      rcases mem_revoked_after hρ with hρ | ⟨x, hx, rfl, -⟩
      · exact h.safe ρ hρ u hu hbad
      · exact hends x hx u hu hbad
    · rcases mem_revoked_after hρ with hρ | ⟨x, hx, rfl, -⟩
      · exact h.not_endangers_next ht hd hρ
      · exact not_endangers_of_ends hx
  · rcases mem_or_eq_of_mem_set hu with hu | rfl
    · exact (h.asked u hu).mono hmade.1
    · have hleads := w.leads_advance accountDigest env t
      generalize (w.advance accountDigest env t).2 = next at hleads
      cases hleads with
      | quiet hq => exact asked_of_quiet hq
      | check hreq => exact (asked_of_requester h.toBooked hreq).mono hmade.1
      | _ => trivial
  · intro ρ hρ
    rcases w.returned_advance accountDigest env t with hr | ⟨ρ', rfl, hr⟩
    · exact hrevoked (h.returned (hr ▸ hρ))
    · change ρ ∈ (w.advance accountDigest env _).1.returned at hρ
      exact forall_mem_concat (fun ρ hρ => hrevoked (h.returned hρ))
        (hrevoked (h.sweeps ρ' (mem_of_getElem? ht))) ρ hρ
  · intro ρ hρ id s hs o ho hinv hold
    have hmem : ρ ∈ w.returned ∨ t = .sweep ρ true := by
      rcases w.returned_advance accountDigest env t with hr | ⟨ρ', rfl, hr⟩
      · exact .inl (hr ▸ hρ)
      · change ρ ∈ (w.advance accountDigest env _).1.returned at hρ
        exact (mem_append.mp hρ).imp_right fun hρ => by rw [mem_singleton.mp hρ]
    have hrev : ρ ∈ w.revoked := by
      rcases hmem with hρ | rfl
      · exact h.returned hρ
      · exact h.sweeps ρ (mem_of_getElem? ht)
    rw [old_after (h.marks ρ hrev).1] at hold
    rcases sessions_advance accountDigest env t hs with ⟨hs, hgone⟩ |
      ⟨call, q, sessionId, host, client, rfl, hown⟩
    · rcases hmem with hρ | rfl
      · exact h.ended ρ hρ id s hs o ho hinv hold
      · have hfalse := hgone ρ true rfl
        rw [LiveSession.ownedBy, Option.mem_def.mp ho] at hfalse
        exact Bool.false_ne_true (hfalse.symm.trans hinv)
    · rw [hown] at ho
      cases ho
      simp only [SessionOwnership.involves, Bool.and_eq_true, Bool.or_eq_true,
        decide_eq_true_eq] at hinv
      exact h.safe ρ hrev _ (mem_of_getElem? ht) ⟨hold, hinv.1, hinv.2⟩

theorem Guarded.step {accounts : AccountStore} {w' : World} {a : Action} (h : Guarded w)
    (hd : Drawn w a) (hu : Unraced w a) (hst : (world accountDigest accounts).step w a = some w') :
    Guarded w' := by
  obtain ⟨t, -, harr, rfl⟩ | ⟨i, env, t, rfl, ht, rfl⟩ | ⟨c, nowMs, draws, -, hc, rfl⟩ |
    ⟨id, session, env, -, hown, rfl⟩ | ⟨id, -, rfl⟩ := world_step hst
  · have hquiet : t.quiet := by
      cases t with
      | simple | request | approve | observe | setTrust | remove | login => rfl
      | _ => cases harr
    refine ⟨⟨h.distinct, h.records⟩, h.marks, h.untrusted, fun ρ hρ => ?_, ?_, fun ρ hρ => ?_,
      h.returned, h.ended⟩
    · exact forall_mem_concat (h.safe ρ hρ) (not_endangers_of_quiet hquiet)
    · exact forall_mem_concat h.asked (asked_of_quiet hquiet)
    · rcases mem_append.mp hρ with hρ | hρ
      · exact h.sweeps ρ hρ
      · rw [← mem_singleton.mp hρ] at hquiet
        cases hquiet
  · exact h.after ht hd hu
  · have hfirm := firm_direct w.accounts nowMs draws hc
    refine ⟨⟨h.distinct, h.records⟩, fun ρ hρ => ⟨(h.marks ρ hρ).1, hfirm.isSome (h.marks ρ hρ).2⟩,
      fun ρ hρ htrust => ?_, h.safe, h.asked, h.sweeps, h.returned, h.ended⟩
    rcases hfirm.trustOf (h.marks ρ hρ).2 htrust with hbefore | hfalse
    · exact h.untrusted ρ hρ hbefore
    · exact hfalse.elim
  · -- nobody owns a provisioned session
    rw [insertSession_fst]
    refine ⟨⟨h.distinct, h.records⟩, h.marks, h.untrusted, h.safe, h.asked, h.sweeps, h.returned,
      fun ρ hρ x s hs o ho => ?_⟩
    rcases lookup_insertSession hs with hs | rfl
    · exact h.ended ρ hρ x s hs o ho
    · rw [hown] at ho
      cases ho
  · refine ⟨⟨h.distinct, h.records⟩, h.marks, h.untrusted, h.safe, h.asked, h.sweeps, h.returned,
      fun ρ hρ x s hs => h.ended ρ hρ x s ?_⟩
    by_cases hx : x = id
    · subst hx
      rw [AList.lookup_erase] at hs
      cases hs
    · rwa [AList.lookup_erase_ne hx] at hs

theorem guarded_of_reach {accounts : AccountStore}
    (h : (world accountDigest accounts).ReachVia (fun w a => Drawn w a ∧ Unraced w a) w) :
    Guarded w := by
  refine h.invariant ⟨⟨nodup_nil, ?_⟩, ?_, ?_, ?_, ?_, ?_, ?_, ?_⟩
    fun _ _ _ hi hok hst => hi.step hok.1 hok.2 hst
  all_goals
    intro x hx
    cases hx

/-- **Revocation is final**, in every run in which no revocation is raced: from its return on no
session of the device comes from a request made before. -/
theorem revocation_final {accounts : AccountStore}
    (h : (world accountDigest accounts).ReachVia (fun w a => Drawn w a ∧ Unraced w a) w) :
    w.Ended ∧ ∀ i env ρ, w.tasks[i]? = some (.sweep ρ true) →
      (w.after accountDigest i env (.sweep ρ true)).Cleared ρ.accountId ρ.deviceId := by
  refine ⟨(guarded_of_reach h).ended, fun i env ρ _ id s hs => ?_⟩
  rcases sessions_advance accountDigest env (.sweep ρ true) hs with ⟨-, hgone⟩ | ⟨_, _, _, _, _, he, -⟩
  · exact hgone ρ true rfl
  · cases he

def setLaptop (i : ℕ) (trust : Account.DeviceTrust) : List Action :=
  .arrive (.setTrust ['6'] ['l'] trust) :: List.replicate 3 (.step i Sample.env)

theorem revocation_final_laptop : ∃ w, (world length .empty).ReachVia
      (fun w a => Drawn w a ∧ Unraced w a) w ∧
    (∃ ρ ∈ w.returned, ρ.deviceId = ['l'] ∧ ρ.Old w.made ['r']) ∧
    w.Ended ∧ ∀ i env ρ, w.tasks[i]? = some (.sweep ρ true) →
      (w.after length i env (.sweep ρ true)).Cleared ρ.accountId ρ.deviceId := by
  obtain ⟨w, hw, hρ⟩ := (world length .empty).exists_reachVia
    (fun w a => Drawn w a ∧ Unraced w a)
    (Sample.setUp ++ Sample.ask .none ++ Sample.approve .none 11 ++ setLaptop 5 .revoked)
    (fun w => ∃ ρ ∈ w.returned, ρ.deviceId = ['l'] ∧ ρ.Old w.made ['r']) (by decide +kernel)
  exact ⟨w, hw, hρ, revocation_final hw⟩

def Escapes (w : World) : Prop :=
  ∃ ρ ∈ w.returned, ∃ s ∈ w.sessions.lookup ['s'], ∃ o ∈ s.ownership,
    o.involves ρ.accountId ρ.deviceId ∧ ρ.Old w.made o.requestId

instance (w : World) : Decidable (Escapes w) :=
  inferInstanceAs (Decidable (∃ ρ ∈ _, ∃ s ∈ _, ∃ o ∈ _, _))

theorem Escapes.not_ended (h : Escapes w) : ¬ w.Ended := by
  obtain ⟨ρ, hρ, s, hs, o, ho, hinv, hold⟩ := h
  exact fun he => he ρ hρ _ s hs o ho hinv hold

/-- **Revocation can be raced**: the session is inserted after the sweep, or a request from before
is approved once the device is trusted again. -/
theorem revocation_raced :
    (∃ w, (world length .empty).ReachVia Drawn w ∧ ¬ w.Ended ∧
      w.accounts.trustOf ['1'] ['l'] = some .revoked) ∧
    ∃ w, (world length .empty).ReachVia Drawn w ∧ ¬ w.Ended ∧
      w.accounts.trustOf ['1'] ['l'] = some .trusted := by
  constructor
  · obtain ⟨w, hw, he, htrust⟩ := (world length .empty).exists_reachVia Drawn
      (Sample.setUp ++ Sample.ask .none ++ Sample.approve .none 4 ++ setLaptop 5 .revoked ++
        replicate 4 (.step 4 Sample.env))
      (fun w => Escapes w ∧ w.accounts.trustOf ['1'] ['l'] = some .revoked) (by decide +kernel)
    exact ⟨w, hw, he.not_ended, htrust⟩
  · obtain ⟨w, hw, he, htrust⟩ := (world length .empty).exists_reachVia Drawn
      (Sample.setUp ++ Sample.ask .none ++ setLaptop 4 .revoked ++ setLaptop 5 .trusted ++
        .arrive (.approve ['6'] ['r'] .none) :: replicate 8 (.step 6 Sample.env))
      (fun w => Escapes w ∧ w.accounts.trustOf ['1'] ['l'] = some .trusted) (by decide +kernel)
    exact ⟨w, hw, he.not_ended, htrust⟩

end World

end OpenStream.Connect
