import OpenStream.Account.Trust
import OpenStream.Connect.Handlers

/-!
# What a step of the handlers can do

* **`World.connect_advance`**: what it does to the requests.
* `World.Leads`, **`World.leads_advance`**: what a handler does next.
-/

namespace OpenStream.Connect

open List ConnectRequest ConnectBroker

open Account (Text AccountStore)

/-- A handler whose next part neither an approval nor a revocation depends on. -/
def Task.quiet : Task → Bool
  | .approveRequester _ | .approveCheck _ _ | .approveMark _ | .approveLimit _ _
  | .approveMint _ _ _ | .approveInsert _ _ _ _ _ | .approveGrant _ _ _ _ | .sweep _ true => false
  | _ => true

def Task.Raises (st : AccountStore) : Task → Text → Text → Prop
  | .setTrustChange p deviceId trust => fun accountId d =>
    trust = .trusted ∧ accountId = p.accountId ∧ d = deviceId
  | .login username _ _ device => st.FirstDevice username device
  | _ => fun _ _ => False

def Task.ends : Task → Option (Text × Text)
  | .setTrustChange p deviceId .revoked => some (p.accountId, deviceId)
  | .removeChange p deviceId => some (p.accountId, deviceId)
  | _ => none

namespace World

variable (accountDigest : Text → ℕ) {w : World} (env : Env)

/-! ## The broker -/

theorem requireTrusted_fst (party : Party) (next refused : Task) :
    (w.requireTrusted party next refused).1 = w := by
  unfold requireTrusted
  split <;> rfl

theorem insertSession_fst (id : Text) (session : LiveSession) (next refused : Task) :
    (w.insertSession env id session next refused).1 =
      { w with sessions := (w.insertSession env id session next refused).1.sessions } := by
  unfold insertSession
  dsimp only
  split_ifs <;> rfl

/-- **What a step does to the broker.** It leaves what was agreed, or records one request under the
identifier that was drawn, or marks a request approved by the device it is for. -/
theorem connect_advance (t : Task) :
    let r := w.advance accountDigest env t
    (w.connect.Follows r.1.connect ∧ r.1.made = w.made) ∨
    (t.records ∧ ∃ q : ConnectRequest, r.1.made = w.made ++ [q] ∧ q.requestId = env.requestId ∧
      q.granted = .none ∧ ∀ q' ∈ r.1.connect.requests, q' ∈ w.connect.requests ∨ q' = q) ∨
    ∃ call, t = .approveMark call ∧ r.1.made = w.made ∧ ∃ q ∈ w.connect.requests, call.names q ∧
      q.state = .pending ∧ r.1.connect = (w.connect.expire call.now).modify call.requestId
        (approved env.grant call.granted call.now) ∧
      r.2 = .approveLimit call (approved env.grant call.granted call.now q) := by
  intro r
  cases t with
  | requestRecord party target requested =>
    simp only [r, advance]
    rcases w.connect.requestScoped_spec accountDigest env.requestId party.accountId party.deviceId
      target requested env.now with ⟨hsub, err, herr⟩ | ⟨l, hsub, -, -, -, hreq, hok⟩
    · rw [herr]
      exact .inl ⟨.of_sublist hsub, append_nil _⟩
    · rw [hok]
      refine .inr (.inl ⟨rfl, _, rfl, rfl, rfl, fun q' hq' => ?_⟩)
      rw [hreq] at hq'
      rcases mem_append.mp hq' with hq' | hq'
      · exact .inl (hsub.subset hq')
      · exact .inr (mem_singleton.mp hq')
  | approveMark call =>
    simp only [r, advance]
    rcases w.connect.approveScoped_spec call.requestId call.party env.grant call.granted call.now
      with ⟨hsub, -⟩ | ⟨q, hq, hid, hacc, htgt, hpend, hb, hok⟩
    · exact .inl ⟨.of_sublist hsub, trivial⟩
    · rw [hok]
      exact .inr (.inr ⟨call, rfl, trivial, q, hq, ⟨hid, hacc, htgt⟩, hpend, hb, rfl⟩)
  | simpleCall party kind =>
    refine .inl ⟨?_, rfl⟩
    cases kind with
    | presence => exact w.connect.follows_expire env.now
    | offline => exact .refl _
    | pending => exact w.connect.follows_expire env.now
    | deny requestId => exact w.connect.follows_deny requestId _ _ env.now
  | approvePublish call =>
    exact .inl ⟨follows_modify _ _ (fun _ => rfl) (fun _ => rfl) fun _ => id, rfl⟩
  | approveCollect call => exact .inl ⟨w.connect.follows_collect _ _ _ _ _, rfl⟩
  | withdraw requestId => exact .inl ⟨.of_sublist filter_sublist, rfl⟩
  | observeCollect party requestId =>
    have hb := w.connect.follows_expire env.now
    rw [← w.connect.observe_fst requestId party.accountId party.deviceId] at hb
    left
    simp only [r, advance]
    split
    · have hc := hb.trans (follows_collect _ requesterDeviceId
        clientCredential requestId party env.now)
      split
      · exact ⟨hc, rfl⟩
      · exact ⟨hc, rfl⟩
    · exact ⟨hb, rfl⟩
  | approveInsert call approved sessionId host client =>
    left
    simp only [r, advance]
    rw [insertSession_fst]
    exact ⟨.refl _, rfl⟩
  | _ =>
    left
    simp only [r, advance, requireTrusted_fst]
    repeat' split
    all_goals exact ⟨.refl _, by trivial⟩

variable (t : Task)

theorem made_advance : (w.advance accountDigest env t).1.made = w.made ∨
    t.records ∧ ∃ q : ConnectRequest, (w.advance accountDigest env t).1.made = w.made ++ [q] ∧
      q.requestId = env.requestId := by
  rcases w.connect_advance accountDigest env t with ⟨-, h⟩ | ⟨ht, q, h, hid, -⟩ | ⟨call, -, h, -⟩
  · exact .inl h
  · exact .inr ⟨ht, q, h, hid⟩
  · exact .inl h

/-! ## What a handler does next -/

theorem principal_snd (token : Text) (next : Account.AccountPrincipal → Task) :
    (w.principal env token next).2 = .done ∨ ∃ p, (w.principal env token next).2 = next p := by
  simp only [principal]
  cases (w.accounts.authorizeAccess token env.nowMs env.draws.save).2 with
  | none => exact .inl rfl
  | some p => exact .inr ⟨p, rfl⟩

theorem connectPrincipal_snd (token : Text) (next : Party → Task) :
    (w.connectPrincipal env token next).2 = .done ∨
      ∃ p, (w.connectPrincipal env token next).2 = next p := by
  rcases w.principal_snd env token _ with h | ⟨p, h⟩
  · exact .inl h
  · rw [connectPrincipal, h]
    cases p.deviceId with
    | none => exact .inl rfl
    | some d => exact .inr ⟨⟨p.accountId, d⟩, rfl⟩

theorem requireTrusted_snd (party : Party) (next refused : Task) :
    ((w.requireTrusted party next refused).2 = next ∧
      w.accounts.trustOf party.accountId party.deviceId = some .trusted) ∨
    (w.requireTrusted party next refused).2 = refused := by
  unfold requireTrusted
  split
  · rename_i h
    exact .inl ⟨rfl, AccountStore.trustOf_of_canCreateSession h⟩
  · exact .inr rfl

theorem insertSession_snd (id : Text) (session : LiveSession) (next refused : Task) :
    (w.insertSession env id session next refused).2 = next ∨
      (w.insertSession env id session next refused).2 = refused := by
  unfold insertSession
  simp only
  split_ifs
  · exact .inr rfl
  · exact .inl rfl

/-- What a handler goes on to do, as far as an approval or a revocation depends on it. -/
inductive Leads (w : World) (env : Env) (w' : World) : Task → Task → Prop
  | quiet {t t' : Task} (h : t'.quiet) : Leads w env w' t t'
  | requester {call : ApproveCall}
      (h : w.accounts.trustOf call.party.accountId call.party.deviceId = some .trusted) :
      Leads w env w' (.approveTrust call) (.approveRequester call)
  | check {call : ApproveCall} {requester : Text}
      (h : w.connect.requesterForTarget call.requestId call.party = some requester) :
      Leads w env w' (.approveRequester call) (.approveCheck call requester)
  | unasked {call : ApproveCall}
      (h : w.connect.requesterForTarget call.requestId call.party = none) :
      Leads w env w' (.approveRequester call) (.approveMark call)
  | mark {call : ApproveCall} {requester : Text}
      (h : w.accounts.trustOf call.party.accountId requester = some .trusted) :
      Leads w env w' (.approveCheck call requester) (.approveMark call)
  | limit {call : ApproveCall} {q : ConnectRequest} (hq : q ∈ w.connect.requests)
      (hn : call.names q) (hp : q.state = .pending) :
      Leads w env w' (.approveMark call)
        (.approveLimit call (ConnectBroker.approved env.grant call.granted call.now q))
  | mint {call : ApproveCall} {q : ConnectRequest} {sessionId : Text} :
      Leads w env w' (.approveLimit call q) (.approveMint call q sessionId)
  | insert {call : ApproveCall} {q : ConnectRequest} {sessionId host client : Text} :
      Leads w env w' (.approveMint call q sessionId) (.approveInsert call q sessionId host client)
  | grant {call : ApproveCall} {sessionId requester : Text} {q : ConnectRequest}
      (h : w'.connect.find call.requestId = some q) :
      Leads w env w' (.approveCollect call) (.approveGrant call sessionId requester
        (w'.connect.grantedPermissions call.requestId))
  | sweep {t : Task} {ρ : Revocation} (h : ρ ∈ w'.revoked) : Leads w env w' t (.sweep ρ true)

variable {env} in
theorem leads_requireTrusted {w' : World} {t : Task} (party : Party) {next refused : Task}
    (hn : w.accounts.trustOf party.accountId party.deviceId = some .trusted →
      Leads w env w' t next) (hr : refused.quiet) :
    Leads w env w' t (w.requireTrusted party next refused).2 := by
  rcases w.requireTrusted_snd party next refused with ⟨h, ht⟩ | h
  · rw [h]
    exact hn ht
  · rw [h]
    exact .quiet hr

variable {env} in
theorem leads_connectPrincipal {w' : World} {t : Task} (token : Text) {next : Party → Task}
    (hn : ∀ p, (next p).quiet) : Leads w env w' t (w.connectPrincipal env token next).2 := by
  rcases w.connectPrincipal_snd env token next with h | ⟨p, h⟩
  · exact h ▸ .quiet rfl
  · exact h ▸ .quiet (hn p)

variable {env} in
theorem leads_principal {w' : World} {t : Task} (token : Text)
    {next : Account.AccountPrincipal → Task} (hn : ∀ p, (next p).quiet) :
    Leads w env w' t (w.principal env token next).2 := by
  rcases w.principal_snd env token next with h | ⟨p, h⟩
  · exact h ▸ .quiet rfl
  · exact h ▸ .quiet (hn p)

/-- **What a handler does next.** -/
theorem leads_advance : Leads w env (w.advance accountDigest env t).1 t
    (w.advance accountDigest env t).2 := by
  cases t with
  | simple token kind =>
    refine leads_connectPrincipal token fun party => ?_
    split <;> rfl
  | request token | approve token | observe token =>
    exact leads_connectPrincipal token fun party => rfl
  | remove token => exact leads_principal token fun party => rfl
  | simpleTrust party | requestTrust party | observeTrust party =>
    exact leads_requireTrusted party (fun _ => .quiet rfl) rfl
  | approveTrust call => exact leads_requireTrusted call.party .requester rfl
  | approveCheck call requester => exact leads_requireTrusted ⟨_, requester⟩ .mark rfl
  | approveRequester call =>
    simp only [advance]
    cases h : w.connect.requesterForTarget call.requestId call.party with
    | none => exact .unasked h
    | some requester => exact .check h
  | approveMark call =>
    simp only [advance]
    rcases w.connect.approveScoped_spec call.requestId call.party env.grant call.granted call.now
      with ⟨-, err, herr⟩ | ⟨q, hq, hid, hacc, htgt, hpend, -, hok⟩
    · rw [herr]
      cases err <;> exact .quiet rfl
    · rw [hok]
      exact .limit hq ⟨hid, hacc, htgt⟩ hpend
  | approveLimit call approved =>
    simp only [advance]
    split_ifs
    · cases approved.sessionId with
      | none => exact .quiet rfl
      | some sessionId => exact .mint
    · exact .quiet rfl
  | approveMint call approved sessionId =>
    simp only [advance]
    split
    · exact .insert
    · exact .quiet rfl
  | approveInsert call approved sessionId host client =>
    rcases w.insertSession_snd env sessionId ⟨env.now + DEFAULT_TTL, some
      ⟨call.party.accountId, approved.requesterDeviceId, call.party.deviceId, call.requestId⟩, host,
      client⟩ (.approvePublish call) (.withdraw call.requestId) with h | h
    · exact h ▸ .quiet rfl
    · exact h ▸ .quiet rfl
  | approveCollect call =>
    obtain ⟨-, hok⟩ := w.connect.collect_spec targetDeviceId
      hostCredential call.requestId call.party call.now
    simp only [advance]
    cases hr : (w.connect.collectHostCredential call.requestId call.party call.now).2 with
    | error err => exact .quiet rfl
    | ok x =>
      obtain ⟨q, -, -, -, -, -, -, -, -, hfind⟩ := hok x hr
      exact .grant hfind
  | setTrust token deviceId trust =>
    simp only [advance]
    split
    · exact .quiet rfl
    · exact leads_principal token fun party => rfl
  | setTrustChange p deviceId trust =>
    simp only [advance]
    repeat' split
    · exact .quiet rfl
    · exact .quiet rfl
    · exact .sweep (mem_append_right _ mem_cons_self)
    · exact .quiet rfl
  | removeChange p deviceId =>
    simp only [advance]
    repeat' split
    · exact .quiet rfl
    · exact .quiet rfl
    · exact .sweep (mem_append_right _ mem_cons_self)
  | observeCollect | login | requestTarget | approveGrant =>
    simp only [advance]
    repeat' split
    all_goals exact .quiet rfl
  | done | simpleCall | requestRecord | approvePublish | withdraw | sweep => exact .quiet rfl

/-! ## Accounts, sessions and revocations -/

theorem accounts_advance :
    w.accounts.Firm (t.Raises w.accounts) (w.advance accountDigest env t).1.accounts := by
  cases t with
  | simple token | request token | approve token | observe token | remove token =>
    exact AccountStore.firm_authorizeAccess _ _ _
  | setTrust token deviceId trust =>
    simp only [advance]
    split
    · exact .refl _
    · exact AccountStore.firm_authorizeAccess _ _ _
  | setTrustChange p deviceId trust =>
    have h := w.accounts.firm_setDeviceTrust p.accountId deviceId trust env.nowMs env.draws
    simp only [advance]
    repeat' split
    · exact .refl _
    all_goals exact h
  | removeChange p deviceId =>
    simp only [advance]
    repeat' split
    · exact .refl _
    all_goals exact AccountStore.firm_removeDevice _ _ _
  | login username salt derived device => exact AccountStore.firm_login _ _ _ _ _ _
  | approveInsert call approved sessionId host client =>
    simp only [advance]
    rw [insertSession_fst]
    exact .refl _
  | _ =>
    simp only [advance, requireTrusted_fst]
    repeat' split
    all_goals exact .refl _

theorem firm_direct (st : AccountStore) (nowMs : ℕ) (draws : Account.Draws) {c : Account.Call}
    (h : direct c) : st.Firm (fun _ _ => False) (st.call nowMs draws c).1 := by
  cases c with
  | register => exact AccountStore.firm_register _ _ _ _ _ _ _
  | rehash => exact AccountStore.firm_rehash _ _ _ _ _
  | refresh => exact AccountStore.firm_refresh _ _ _ _
  | authorize => exact AccountStore.firm_authorizeAccess _ _ _
  | enroll => exact AccountStore.firm_enroll _ _ _ _
  | proof p => exact AccountStore.firm_commitDeviceAuth p _ _
  | login | setTrust | remove => cases h

/-- **What a step does to the sessions.** None is new but the one an approval inserts, and a sweep
leaves none of its device. -/
theorem sessions_advance {id : Text} {s : LiveSession}
    (h : (w.advance accountDigest env t).1.sessions.lookup id = some s) :
    (w.sessions.lookup id = some s ∧
      ∀ ρ success, t = .sweep ρ success → s.ownedBy ρ.accountId ρ.deviceId = false) ∨
    ∃ call q sessionId host client, t = .approveInsert call q sessionId host client ∧
      s.ownership = some ⟨call.party.accountId, q.requesterDeviceId, call.party.deviceId,
        call.requestId⟩ := by
  cases t with
  | approveInsert call q sessionId host client =>
    simp only [advance, insertSession] at h
    split_ifs at h
    · rw [Table.lookup_retain, Option.filter_eq_some_iff] at h
      exact .inl ⟨h.1, nofun⟩
    · by_cases hid : id = sessionId
      · subst hid
        rw [AList.lookup_insert] at h
        cases h
        exact .inr ⟨call, q, id, host, client, rfl, rfl⟩
      · rw [AList.lookup_insert_ne hid, Table.lookup_retain, Option.filter_eq_some_iff] at h
        exact .inl ⟨h.1, nofun⟩
  | sweep ρ success =>
    simp only [advance, revokeOwnedSessions] at h
    rw [Table.lookup_retain, Option.filter_eq_some_iff] at h
    refine .inl ⟨h.1, fun ρ' _ he => ?_⟩
    cases he
    simpa using h.2
  | _ =>
    refine .inl ⟨?_, nofun⟩
    simp only [advance, requireTrusted_fst] at h
    repeat' split at h
    all_goals exact h

theorem revoked_advance :
    (w.advance accountDigest env t).1.revoked = w.revoked ∨
    ∃ accountId deviceId, t.ends = some (accountId, deviceId) ∧
      (w.advance accountDigest env t).1.revoked =
        w.revoked ++ [w.revocation accountId deviceId] ∧
      (w.accounts.account accountId).isSome ∧
      (w.advance accountDigest env t).1.accounts.trustOf accountId deviceId ≠ some .trusted := by
  cases t with
  | setTrustChange p deviceId trust =>
    simp only [advance]
    split
    · exact .inl rfl
    · split
      · exact .inl rfl
      · rename_i hok
        obtain ⟨hacc, htrust⟩ := AccountStore.setDeviceTrust_ok hok
        split_ifs with ht
        · subst ht
          exact .inr ⟨p.accountId, deviceId, rfl, rfl, hacc, by simp [htrust]⟩
        · exact .inl rfl
  | removeChange p deviceId =>
    simp only [advance]
    split
    · exact .inl rfl
    · split
      · exact .inl rfl
      · rename_i hok
        obtain ⟨hacc, htrust⟩ := AccountStore.removeDevice_ok hok
        exact .inr ⟨p.accountId, deviceId, rfl, rfl, hacc, by simp [htrust]⟩
  | approveInsert call approved sessionId host client =>
    simp only [advance]
    rw [insertSession_fst]
    exact .inl rfl
  | _ =>
    left
    simp only [advance, requireTrusted_fst]
    repeat' split
    all_goals rfl

theorem returned_advance :
    (w.advance accountDigest env t).1.returned = w.returned ∨
    ∃ ρ, t = .sweep ρ true ∧ (w.advance accountDigest env t).1.returned = w.returned ++ [ρ] := by
  cases t with
  | sweep ρ success =>
    cases success with
    | true => exact .inr ⟨ρ, rfl, rfl⟩
    | false => exact .inl (append_nil _)
  | approveInsert call approved sessionId host client =>
    simp only [advance]
    rw [insertSession_fst]
    exact .inl rfl
  | _ =>
    left
    simp only [advance, requireTrusted_fst]
    repeat' split
    all_goals rfl

/-! ## Requests and their records -/

/-- The broker holds requests that were made, under distinct identifiers. -/
structure Booked (w : World) : Prop where
  distinct : (w.made.map ConnectRequest.requestId).Nodup
  records : ∀ q ∈ w.connect.requests, ∃ m ∈ w.made, m.terms = q.terms

theorem Booked.terms_eq (h : Booked w) {q q' : ConnectRequest} (hq : q ∈ w.connect.requests)
    (hq' : q' ∈ w.connect.requests) (hid : q.requestId = q'.requestId) : q.terms = q'.terms := by
  obtain ⟨m, hm, hterms⟩ := h.records q hq
  obtain ⟨m', hm', hterms'⟩ := h.records q' hq'
  have hmid := (ConnectRequest.terms_eq.mp hterms).1
  have hmid' := (ConnectRequest.terms_eq.mp hterms').1
  have heq : m = m' := Keyed.eq_of_key h.distinct hm hm' (hmid.trans (hid.trans hmid'.symm))
  rw [← hterms, heq, hterms']

variable {env} in
theorem Booked.after (h : Booked w) {i : ℕ} {t : Task} (ht : w.tasks[i]? = some t)
    (hd : Drawn w (.step i env)) : Booked (w.after accountDigest i env t) := by
  change Booked { (w.advance accountDigest env t).1 with tasks := _ }
  rcases w.connect_advance accountDigest env t with ⟨hf, hmade⟩ | ⟨hrec, q, hmade, hid, -, hmem⟩ |
    ⟨call, -, hmade, -, -, -, -, hb, -⟩
  · refine ⟨hmade ▸ h.distinct, fun q' hq' => ?_⟩
    obtain ⟨q, hq, hterms, -⟩ := hf q' hq'
    obtain ⟨m, hm, hm'⟩ := h.records q hq
    exact ⟨m, hmade ▸ hm, hm'.trans hterms.symm⟩
  · have hnew := hd (by rwa [ht])
    refine ⟨?_, fun q' hq' => ?_⟩
    · change ((w.advance accountDigest env t).1.made.map _).Nodup
      rw [hmade, map_append, map_singleton]
      refine h.distinct.append (nodup_singleton _) ?_
      simp only [disjoint_singleton, mem_map, not_exists, not_and]
      exact fun m hm hmid => hnew m hm (hmid.trans hid)
    · change ∃ m ∈ (w.advance accountDigest env t).1.made, _
      rw [hmade]
      rcases hmem q' hq' with hq' | rfl
      · obtain ⟨m, hm, hm'⟩ := h.records q' hq'
        exact ⟨m, mem_append_left _ hm, hm'⟩
      · exact ⟨q', mem_append_right _ mem_cons_self, rfl⟩
  · refine ⟨hmade ▸ h.distinct, fun q' hq' => ?_⟩
    change q' ∈ (w.advance accountDigest env t).1.connect.requests at hq'
    rw [hb] at hq'
    change ∃ m ∈ (w.advance accountDigest env t).1.made, _
    rw [hmade]
    rcases Keyed.mem_modify hq' with ⟨hq', -⟩ | ⟨q, hq, -, rfl⟩
    · exact h.records q' ((w.connect.expire_sublist call.now).subset hq')
    · exact h.records q ((w.connect.expire_sublist call.now).subset hq)

end World

/-! ## The machine -/

theorem world_step {accountDigest : Text → ℕ} {accounts : AccountStore} {w w' : World} {a : Action}
    (h : (world accountDigest accounts).step w a = some w') :
    (∃ t, a = .arrive t ∧ t.arrives ∧ w' = { w with tasks := w.tasks ++ [t] }) ∨
    (∃ i env t, a = .step i env ∧ w.tasks[i]? = some t ∧ w' = w.after accountDigest i env t) ∨
    (∃ c nowMs draws, a = .account c nowMs draws ∧ direct c ∧
      w' = { w with accounts := (w.accounts.call nowMs draws c).1 }) ∨
    (∃ id session env, a = .provision id session env ∧ session.ownership = none ∧
      w' = (w.insertSession env id session .done .done).1) ∨
    ∃ id, a = .drop id ∧ w' = { w with sessions := w.sessions.erase id } := by
  cases a with
  | arrive t =>
    simp only [world] at h
    split_ifs at h with hc
    cases h
    exact .inl ⟨t, rfl, hc, rfl⟩
  | step i env =>
    simp only [world, Option.bind_eq_some_iff] at h
    obtain ⟨t, ht, h⟩ := h
    split_ifs at h
    cases h
    exact .inr (.inl ⟨i, env, t, rfl, ht, rfl⟩)
  | account c nowMs draws =>
    simp only [world] at h
    split_ifs at h with hc
    cases h
    exact .inr (.inr (.inl ⟨c, nowMs, draws, rfl, hc, rfl⟩))
  | provision id session env =>
    simp only [world] at h
    split_ifs at h with hc
    cases h
    exact .inr (.inr (.inr (.inl ⟨id, session, env, rfl, Option.isNone_iff_eq_none.mp hc, rfl⟩)))
  | drop id =>
    cases h
    exact .inr (.inr (.inr (.inr ⟨id, rfl, rfl⟩)))

end OpenStream.Connect
