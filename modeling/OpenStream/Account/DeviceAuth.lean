import OpenStream.Account.Effects

/-!
# Device proofs

A device proof is accepted within `DEVICE_AUTH_WINDOW_MS` of its own timestamp, on either side, and
its nonce is remembered for `DEVICE_AUTH_WINDOW_MS` from when it was accepted.

* **`Service.granted_once`**
-/

namespace OpenStream.Account

namespace AccountStore

/-! ## One proof -/

theorem lookup_forgetStale (st : AccountStore) (now nonce : ℕ) :
    (st.forgetStaleDeviceNonces now).deviceAuthNonces.lookup nonce =
      (st.deviceAuthNonces.lookup nonce).filter fun seenAt => now - seenAt ≤ DEVICE_AUTH_WINDOW_MS :=
  Table.lookup_retain _ _ _

/-- **What a device proof does to the nonces**: a refused one at most forgets stale nonces; a granted
one was within the window, its nonce was not remembered, and now is. -/
theorem nonces_commitDeviceAuth (st : AccountStore) (p : DeviceProof) (now : ℕ) (draws : Draws)
    (hsize : Table.size st.deviceAuthNonces < MAX_DEVICE_AUTH_NONCES) :
    let r := st.commitDeviceAuth p.accountId p.deviceId p.verifiedAgainst p.issuedAtMs p.nonce now draws
    (∀ nonce seenAt, st.deviceAuthNonces.lookup nonce = some seenAt →
      now - seenAt ≤ DEVICE_AUTH_WINDOW_MS → r.1.deviceAuthNonces.lookup nonce = some seenAt) ∧
    (∀ c, r.2 = .ok c → absDiff now p.issuedAtMs ≤ DEVICE_AUTH_WINDOW_MS ∧
      (∀ seenAt, st.deviceAuthNonces.lookup p.nonce = some seenAt →
        DEVICE_AUTH_WINDOW_MS < now - seenAt) ∧
      r.1.deviceAuthNonces.lookup p.nonce = some now) := by
  have hkeep {nonce seenAt : ℕ} (hl : st.deviceAuthNonces.lookup nonce = some seenAt)
      (hw : now - seenAt ≤ DEVICE_AUTH_WINDOW_MS) :
      (st.forgetStaleDeviceNonces now).deviceAuthNonces.lookup nonce = some seenAt := by
    rw [lookup_forgetStale, hl]
    simpa using hw
  have hsize' : Table.size (st.forgetStaleDeviceNonces now).deviceAuthNonces <
      MAX_DEVICE_AUTH_NONCES :=
    lt_of_le_of_lt (List.length_filter_le _ _) hsize
  unfold commitDeviceAuth
  by_cases hfresh : DEVICE_AUTH_WINDOW_MS < absDiff now p.issuedAtMs
  · rw [if_pos hfresh]
    exact ⟨fun _ _ hl _ => hl, nofun⟩
  split_ifs with hkey hrev
  · exact ⟨fun _ _ hl _ => hl, nofun⟩
  · exact ⟨fun _ _ hl _ => hl, nofun⟩
  simp only [hsize', if_true]
  by_cases hseen :
      ((st.forgetStaleDeviceNonces now).deviceAuthNonces.lookup p.nonce).isSome = true
  · rw [if_pos hseen]
    exact ⟨fun _ _ hl hw => hkeep hl hw, nofun⟩
  rw [if_neg hseen]
  have hnew : (st.forgetStaleDeviceNonces now).deviceAuthNonces.lookup p.nonce = none := by
    simpa using hseen
  have hinsert (store : AccountStore) : (store.issueDeviceAccess p.accountId p.deviceId now
      draws).1.deviceAuthNonces = store.deviceAuthNonces := by
    unfold issueDeviceAccess
    split
    · rfl
    · split <;> rfl
  rw [hinsert]
  refine ⟨fun nonce seenAt hl hw => ?_, fun c _ => ⟨by omega, fun seenAt hl => ?_, ?_⟩⟩
  · have hne : nonce ≠ p.nonce := by
      rintro rfl
      rw [hkeep hl hw] at hnew
      cases hnew
    rw [AList.lookup_insert_ne hne]
    exact hkeep hl hw
  · by_contra hw
    rw [hkeep hl (by omega)] at hnew
    cases hnew
  · exact AList.lookup_insert _

end AccountStore

namespace Service

variable {s : Service} {e : Event} {p : DeviceProof} {store : AccountStore}

/-! ## Every run -/

def Remembers (s : Service) : Prop :=
  Table.size s.store.deviceAuthNonces < MAX_DEVICE_AUTH_NONCES

instance (s : Service) : Decidable (Remembers s) := inferInstanceAs (Decidable (_ < _))

/-- A call with the proof `p`, fresh by its timestamp, comes within the window of every call with
`p` that was granted. -/
def Prompt (p : DeviceProof) (s : Service) (e : Event) : Prop :=
  e.call = .proof p → AccountStore.absDiff e.now p.issuedAtMs ≤ DEVICE_AUTH_WINDOW_MS →
    ∀ g ∈ s.granted, g.1 = p → e.now ≤ g.2 + DEVICE_AUTH_WINDOW_MS

instance (p : DeviceProof) (s : Service) (e : Event) : Decidable (Prompt p s e) := by
  unfold Prompt
  infer_instance

/-- A proof granted once is remembered while it could be replayed. -/
structure Once (p : DeviceProof) (s : Service) : Prop where
  count : (s.granted.filter fun g => g.1 = p).length ≤ 1
  memory : ∀ t, (p, t) ∈ s.granted → s.store.deviceAuthNonces.lookup p.nonce = some t ∨
    t + DEVICE_AUTH_WINDOW_MS < s.now

theorem grantsOf_proof (hq : e.call = .proof p) (r : Except ControlPlaneError DeviceCredential) :
    grantsOf e (.credential r) = [] ∨
      (grantsOf e (.credential r) = [(p, e.now)] ∧ ∃ c, r = .ok c) := by
  unfold grantsOf
  rw [hq]
  cases r with
  | error err => exact .inl rfl
  | ok c => exact .inr ⟨rfl, c, rfl⟩

theorem Once.after (h : Once p s) (ho : Ordered s e) (hr : Remembers s) (hp : Prompt p s e) :
    Once p (s.after e) := by
  by_cases hc : ∃ q, e.call = .proof q
  swap
  · -- any other call leaves both the nonces and what was granted
    have hc' : ∀ q, e.call ≠ .proof q := fun q hq => hc ⟨q, hq⟩
    have hg (r : Reply) : grantsOf e r = [] := by
      unfold grantsOf
      split
      · next q hq => exact absurd hq (hc' q)
      · rfl
    obtain ⟨_, hshape, -⟩ := s.store.shape_call e hc'
    have hn := hshape.nonces
    refine ⟨by simpa [Service.after, hg] using h.count, fun t ht => ?_⟩
    simp only [Service.after, hg, List.append_nil, hn] at ht ⊢
    exact (h.memory t ht).imp_right fun hlt => lt_of_lt_of_le hlt ho
  obtain ⟨q, hq⟩ := hc
  obtain ⟨hkeep, hok⟩ := s.store.nonces_commitDeviceAuth q e.now e.draws hr
  have hold (t : ℕ) (ht : (p, t) ∈ s.granted) :
      (s.store.call e.now e.draws e.call).1.deviceAuthNonces.lookup p.nonce = some t ∨
        t + DEVICE_AUTH_WINDOW_MS < e.now := by
    rcases h.memory t ht with hl | hlt
    · by_cases hw : t + DEVICE_AUTH_WINDOW_MS < e.now
      · exact .inr hw
      · rw [hq]
        exact .inl (hkeep _ _ hl (by omega))
    · exact .inr (lt_of_lt_of_le hlt ho)
  have hgrants : grantsOf e (s.store.call e.now e.draws e.call).2 = [] ∨
      (grantsOf e (s.store.call e.now e.draws e.call).2 = [(q, e.now)] ∧
        ∃ c, (s.store.commitDeviceAuth q.accountId q.deviceId q.verifiedAgainst q.issuedAtMs q.nonce
          e.now e.draws).2 = .ok c) := by
    rw [hq]
    exact grantsOf_proof hq _
  rcases hgrants with hg | ⟨hg, c, hc⟩
  · refine ⟨by simpa [Service.after, hg] using h.count, fun t ht => ?_⟩
    simp only [Service.after, hg, List.append_nil] at ht
    exact hold t ht
  obtain ⟨hfresh, hseen, hnew⟩ := hok c hc
  by_cases hqp : q = p
  · subst hqp
    -- had the proof been granted before, its nonce would be remembered
    have hfirst (t : ℕ) : (q, t) ∉ s.granted := by
      intro ht
      have hlt := hp hq hfresh _ ht rfl
      rcases h.memory t ht with hl | hgone
      · have := hseen t hl
        omega
      · have := lt_of_lt_of_le hgone ho
        omega
    have hnone : s.granted.filter (fun g => g.1 = q) = [] := by
      rw [List.filter_eq_nil_iff]
      rintro ⟨q', t⟩ hmem heq
      rw [decide_eq_true_eq] at heq
      exact hfirst t (heq ▸ hmem)
    refine ⟨by simp [Service.after, hg, hnone], fun t ht => ?_⟩
    simp only [Service.after, hg, List.mem_append, List.mem_singleton, Prod.mk.injEq, true_and] at ht
    rcases ht with ht | rfl
    · exact absurd ht (hfirst t)
    · simp only [Service.after, hq]
      exact .inl hnew
  · refine ⟨by simpa [Service.after, hg, hqp] using h.count, fun t ht => ?_⟩
    simp only [Service.after, hg, List.mem_append, List.mem_singleton, Prod.mk.injEq] at ht
    rcases ht with ht | ⟨rfl, -⟩
    · exact hold t ht
    · exact absurd rfl hqp

/-- **A device proof is granted at most once** in every run in which time does not run backwards,
fewer than `MAX_DEVICE_AUTH_NONCES` nonces are remembered, and the proof, while fresh, does not come
back more than `DEVICE_AUTH_WINDOW_MS` after it was granted. -/
theorem granted_once (p : DeviceProof)
    (h : (service store).ReachVia (fun s e => Ordered s e ∧ Remembers s ∧ Prompt p s e) s) :
    (s.granted.filter fun g => g.1 = p).length ≤ 1 :=
  (h.invariant (I := Once p) ⟨by simp [service], fun t ht => (List.not_mem_nil ht).elim⟩
    fun _ _ _ hi ⟨ho, hr, hp⟩ hs => Option.some.inj hs ▸ hi.after ho hr hp).count

def enrolment : Event where
  call := .register ['a', 'd', 'a'] 1 2 (some ⟨['d'], ['h'], ['x'], 5⟩) false
  now := 0
  draws := ⟨['1'], ['2'], ['3'], ['4'], some 7, none, none⟩

def exampleProof : DeviceProof := ⟨['1'], ['d'], 5, 100000, 9⟩

def present (now : ℕ) : Event :=
  ⟨.proof exampleProof, now, ⟨['5'], ['6'], ['7'], ['8'], none, none, none⟩⟩

/-- Within the window of the first grant every replay is refused. -/
theorem granted_once_replayed : ∃ s, (service .empty).ReachVia
      (fun s e => Ordered s e ∧ Remembers s ∧ Prompt exampleProof s e) s ∧
    s.granted = [(exampleProof, 70000)] ∧ s.now = 100000 ∧
    (s.granted.filter fun g => g.1 = exampleProof).length ≤ 1 := by
  obtain ⟨s, hs, h1, h2⟩ := (service .empty).exists_reachVia
    (fun s e => Ordered s e ∧ Remembers s ∧ Prompt exampleProof s e)
    [enrolment, present 70000, present 80000, present 100000]
    (fun s => s.granted = [(exampleProof, 70000)] ∧ s.now = 100000) (by decide +kernel)
  exact ⟨s, hs, h1, h2, granted_once exampleProof hs⟩

/-- **A proof granted thirty seconds before its timestamp is granted again after it**: by then its
nonce has been forgotten, and the proof is still fresh. -/
theorem granted_twice : ∃ s, (service .empty).ReachVia (fun s e => Ordered s e ∧ Remembers s) s ∧
    s.granted = [(exampleProof, 70000), (exampleProof, 100001)] :=
  (service .empty).exists_reachVia (fun s e => Ordered s e ∧ Remembers s)
    [enrolment, present 70000, present 100001] _ (by decide +kernel)

end Service

end OpenStream.Account
