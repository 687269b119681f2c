import OpenStream.Account.Service

/-!
# How a device comes to be trusted

* **`AccountStore.firm_login`**, `AccountStore.firm_setDeviceTrust`: where a sign-in and a trust change
  make a device trusted; no other call does.
-/

namespace OpenStream.Account

open Option AccountRecord Keyed

def AccountRecord.Trusts (a : AccountRecord) (deviceId : Text) : Prop :=
  (a.device deviceId).map DeviceRecord.trust = some .trusted

namespace AccountStore

variable {accountId deviceId : Text}

/-- No account is lost, and trust is new only where it is allowed to be. -/
structure Firm (allow : Text → Text → Prop) (st st' : AccountStore) : Prop where
  keeps : ∀ id a, st.account id = some a → ∃ a', st'.account id = some a' ∧
    ∀ deviceId, a'.Trusts deviceId → a.Trusts deviceId ∨ allow id deviceId

variable {allow : Text → Text → Prop} {st st' st'' : AccountStore} {id : Text}
  {f : AccountRecord → AccountRecord}

theorem trustOf_eq_trusted : st.trustOf accountId deviceId = some .trusted ↔
      ∃ a, st.account accountId = some a ∧ a.Trusts deviceId := by
  unfold trustOf AccountRecord.Trusts
  cases st.account accountId with
  | none => simp
  | some a => simp

theorem trustOf_of_canCreateSession {u : Unit}
    (h : st.canCreateSession ⟨accountId, some deviceId⟩ = .ok u) :
    st.trustOf accountId deviceId = some .trusted := by
  unfold canCreateSession at h
  unfold trustOf
  cases hacc : st.account accountId with
  | none =>
    simp only [hacc] at h
    cases h
  | some a =>
    simp only [hacc, bind_some] at h ⊢
    cases hdev : a.device deviceId with
    | none =>
      simp only [hdev] at h
      cases h
    | some d =>
      simp only [hdev] at h
      cases ht : d.trust with
      | trusted => simp [ht]
      | pending =>
        simp only [ht] at h
        cases h
      | revoked =>
        simp only [ht] at h
        cases h

/-! ## How it composes -/

theorem Firm.refl (st : AccountStore) : Firm allow st st := ⟨fun _ a ha => ⟨a, ha, fun _ => .inl⟩⟩

theorem firm_of_eq (h : st'.accounts = st.accounts) : Firm allow st st' := by
  refine ⟨fun id a ha => ⟨a, ?_, fun _ => .inl⟩⟩
  rw [← ha, account, account, h]

theorem Firm.trans (h : Firm allow st st') (h' : Firm allow st' st'') : Firm allow st st'' := by
  refine ⟨fun id a ha => ?_⟩
  obtain ⟨a', ha', ht⟩ := h.keeps id a ha
  obtain ⟨a'', ha'', ht'⟩ := h'.keeps id a' ha'
  refine ⟨a'', ha'', fun deviceId hd => ?_⟩
  rcases ht' deviceId hd with hd | hd
  · exact ht deviceId hd
  · exact .inr hd

theorem Firm.trustOf (h : Firm allow st st') (hid : (st.account id).isSome)
    (ht : st'.trustOf id deviceId = some .trusted) :
    st.trustOf id deviceId = some .trusted ∨ allow id deviceId := by
  obtain ⟨a, ha⟩ := isSome_iff_exists.mp hid
  obtain ⟨a', ha', hd⟩ := h.keeps id a ha
  obtain ⟨x, hx, htr⟩ := trustOf_eq_trusted.mp ht
  rw [ha'] at hx
  cases hx
  rcases hd deviceId htr with hd | hd
  · exact .inl (trustOf_eq_trusted.mpr ⟨a, ha, hd⟩)
  · exact .inr hd

theorem Firm.isSome (h : Firm allow st st') (hid : (st.account id).isSome) :
    (st'.account id).isSome := by
  obtain ⟨a, ha⟩ := isSome_iff_exists.mp hid
  obtain ⟨a', ha', -⟩ := h.keeps id a ha
  exact ha' ▸ rfl

theorem firm_modify (hf : ∀ a, (f a).accountId = a.accountId)
    (ht : ∀ a, st.account id = some a → ∀ deviceId, (f a).Trusts deviceId →
      a.Trusts deviceId ∨ allow id deviceId) : Firm allow st (st.modifyAccount id f) := by
  refine ⟨fun id' a ha => ?_⟩
  have hget : (st.modifyAccount id f).account id' =
      if id' = id then (st.account id').map f else st.account id' := get_modify hf id'
  split_ifs at hget with heq
  · subst heq
    rw [ha] at hget
    exact ⟨f a, hget, ht a ha⟩
  · exact ⟨a, hget.trans ha, fun _ => .inl⟩

theorem Firm.tokens (h : Firm allow st st') (hf : ∀ a, (f a).accountId = a.accountId)
    (hd : ∀ a, (f a).devices = a.devices) : Firm allow st (st'.modifyAccount id f) := by
  refine h.trans <| firm_modify hf fun a _ deviceId ht => .inl ?_
  rwa [AccountRecord.Trusts, device, hd] at ht

theorem Firm.save (h : Firm allow st st') (outcome : Option ControlPlaneError) :
    Firm allow st (st'.save outcome).1 := by
  cases outcome with
  | none => exact h.trans (firm_of_eq rfl)
  | some e => exact h

theorem Firm.andThen {α β : Type} {r : Outcome α} {g : AccountStore → α → Outcome β}
    (h : Firm allow st r.1) (hg : ∀ st' x, Firm allow st' (g st' x).1) :
    Firm allow st (r.andThen g).1 := by
  obtain ⟨st', x⟩ := r
  cases x with
  | ok x => exact h.trans (hg st' x)
  | error e => exact h

/-! ## Tokens -/

theorem Firm.invalidate (h : Firm allow st st') (accountId deviceId : Text) :
    Firm allow st (st'.invalidateDeviceTokens accountId deviceId) :=
  Firm.tokens (h.trans (firm_of_eq rfl)) (fun _ => rfl) fun _ => rfl

theorem Firm.revoke (h : Firm allow st st') (accountId familyId : Text) :
    Firm allow st (st'.revokeRefreshFamily accountId familyId) :=
  Firm.tokens (h.trans (firm_of_eq rfl)) (fun _ => rfl) fun _ => rfl

open Firm (andThen invalidate tokens)

theorem firm_issueTokensInFamily (accountId : Text) (deviceId : Option Text) (familyId : Text)
    (generation : ℕ) (successorOf : List Digest) (now : ℕ) (draws : Draws)
    (save : Option ControlPlaneError) : Firm allow st (st.issueTokensInFamily accountId deviceId
      familyId generation successorOf now draws save).1 := by
  have hins : Firm allow st ((st.forgetExpiredAccessTokens now).insertAccess draws.accessToken
      ⟨⟨accountId, deviceId⟩, familyId, saturatingAdd now ACCESS_TOKEN_TTL_MS⟩) := firm_of_eq rfl
  unfold issueTokensInFamily
  simp only
  split
  · exact hins
  · refine andThen (Firm.save (tokens hins ?_ ?_) _) fun st' _ => .refl st'
    all_goals exact fun _ => rfl

theorem firm_completeRotation (accountId : Text) (record : RefreshTokenRecord) (relink : List Digest)
    (now : ℕ) (draws : Draws) :
    Firm allow st (st.completeRotation accountId record relink now draws).1 := by
  have hissue : Firm allow st (((st.modifyAccount accountId fun a => a.pruneRetired now).save
      draws.save).andThen fun st _ => st.issueTokensInFamily accountId record.deviceId
        record.familyId (saturatingAdd record.generation 1) relink now draws draws.save').1 := by
    refine andThen (Firm.save (tokens (.refl st) ?_ ?_) _)
      fun st' _ => firm_issueTokensInFamily _ _ _ _ _ _ _ _
    all_goals
      intro a
      simp [pruneRetired]
  have hdrop (deviceId : Text) (e : ControlPlaneError) :
      Firm allow st (((st.invalidateDeviceTokens accountId deviceId).save draws.save).andThen
        fun st _ => (st, (.error e : Except ControlPlaneError IssuedTokens))).1 :=
    andThen (Firm.save (invalidate (.refl st) _ _) _) fun st' _ => .refl st'
  unfold completeRotation
  split
  · exact hissue
  · split
    · exact .refl st
    · exact hissue
    · exact hdrop _ _
    · exact hdrop _ _

theorem firm_rotate (digest : Digest) (relink : List Digest) (retryDigest : Option Digest) (now : ℕ)
    (draws : Draws) : Firm allow st (st.rotate digest relink retryDigest now draws).1 := by
  unfold rotate
  simp only
  split
  · exact .refl st
  · split_ifs
    · refine andThen (Firm.save (tokens (.refl st) ?_ ?_) _) fun st' _ => .refl st'
      all_goals exact fun _ => rfl
    · refine Firm.trans ?_ (firm_completeRotation _ _ _ _ _)
      exact tokens (.refl st) (fun _ => rfl) fun _ => rfl

theorem firm_refresh (refreshToken : Text) (retryKey : Option Text) (now : ℕ) (draws : Draws) :
    Firm allow st (st.refreshWithRetryKey refreshToken retryKey now draws).1 := by
  unfold refreshWithRetryKey
  split_ifs
  · exact .refl st
  · simp only
    split
    · exact firm_rotate _ _ _ _ _
    · split
      · exact firm_rotate _ _ _ _ _
      · exact andThen (Firm.save (Firm.revoke (.refl st) _ _) _) fun st' _ => .refl st'

theorem firm_authorizeAccess (accessToken : Text) (now : ℕ) (save : Option ControlPlaneError) :
    Firm allow st (st.authorizeAccess accessToken now save).1 := by
  have hdrop : Firm allow st
      { st with accessTokens := st.accessTokens.erase (tokenDigest accessToken) } := firm_of_eq rfl
  unfold authorizeAccess
  split
  · exact .refl st
  · simp only
    split_ifs
    · exact hdrop
    · split
      · exact .refl st
      · split
        · exact hdrop
        · exact Firm.save (invalidate hdrop _ _) _
        · exact .refl st

/-! ## Accounts and devices -/

theorem firm_append (a : AccountRecord) :
    Firm allow st { st with accounts := st.accounts ++ [a] } := by
  refine ⟨fun id x hx => ⟨x, ?_, fun _ => .inl⟩⟩
  rw [account, Keyed.get] at hx ⊢
  rw [List.find?_append, hx, some_or]

theorem firm_register (username : Text) (salt derived : ℕ) (device : Option DeviceRegistration)
    (requireEmpty : Bool) (now : ℕ) (draws : Draws) :
    Firm allow st (st.registerDerived username salt derived device requireEmpty now draws).1 := by
  have hadd (devices : List DeviceRecord) (deviceId : Option Text) :
      Firm allow st ((({ st with accounts := st.accounts ++ [⟨draws.accountId, username, salt, derived,
        PBKDF2_ITERATIONS_CURRENT, now, devices, [], []⟩] } : AccountStore).save draws.save).andThen
          fun st _ => st.issueTokens draws.accountId deviceId now draws draws.save').1 :=
    andThen (Firm.save (firm_append _) _) fun _ _ => firm_issueTokensInFamily _ _ _ _ _ _ _ _
  unfold registerDerived
  split_ifs
  · exact .refl st
  · exact .refl st
  · exact .refl st
  · exact .refl st
  · simp only
    split
    · exact hadd _ _
    · split_ifs
      · exact .refl st
      · split
        · exact .refl st
        · exact hadd _ _

theorem firm_rehash (username : Text) (salt derived scheme : ℕ) (draws : Draws) :
    Firm allow st (st.rehashPassword username salt derived scheme draws).1 := by
  unfold rehashPassword
  split
  · exact .refl st
  · refine Firm.save (tokens (.refl st) ?_ ?_) _
    all_goals exact fun _ => rfl

theorem trusts_append {a : AccountRecord} {d : DeviceRecord}
    (h : AccountRecord.Trusts { a with devices := a.devices ++ [d] } deviceId) :
    a.Trusts deviceId ∨ (d.trust = .trusted ∧ d.id = deviceId) := by
  unfold AccountRecord.Trusts device Keyed.get at h ⊢
  rw [List.find?_append] at h
  cases hf : a.devices.find? fun x => x.id = deviceId with
  | some x => exact .inl (by simpa [hf] using h)
  | none =>
    right
    simp only [hf, none_or, List.find?_cons, List.find?_nil] at h
    by_cases hid : d.id = deviceId
    · exact ⟨by simpa [hid] using h, hid⟩
    · simp [hid] at h

theorem trusts_modify {a : AccountRecord} {g : DeviceRecord → DeviceRecord} {d : Text}
    (h : AccountRecord.Trusts { a with devices := modify DeviceRecord.id a.devices d g }
      deviceId) (hg : ∀ x, (g x).id = x.id) :
    a.Trusts deviceId ∨ (deviceId = d ∧ ∃ x, a.device d = some x ∧ (g x).trust = .trusted) := by
  unfold AccountRecord.Trusts at h ⊢
  have hget : device { a with devices := modify DeviceRecord.id a.devices d g }
      deviceId = if deviceId = d then (a.device deviceId).map g else a.device deviceId :=
    get_modify hg deviceId
  rw [hget] at h
  split_ifs at h with heq
  · subst heq
    simp only [map_map, map_eq_some_iff, Function.comp_apply] at h
    exact .inr ⟨rfl, h⟩
  · exact .inl h

theorem firm_enroll (accountId : Text) (d : DeviceRegistration) (now : ℕ) (draws : Draws) :
    Firm allow st (st.enrollDevice accountId d now draws).1 := by
  unfold enrollDevice
  split_ifs
  · exact .refl st
  · split
    · exact .refl st
    · split_ifs
      · exact .refl st
      · exact .refl st
      · split
        · exact .refl st
        · refine andThen (Firm.save (firm_modify ?_ ?_) _) fun st' _ => .refl st'
          · exact fun _ => rfl
          intro a _ deviceId ht
          rcases trusts_append ht with ht | ⟨ht, -⟩
          · exact .inl ht
          · cases ht

theorem firm_commitDeviceAuth (p : DeviceProof) (now : ℕ) (draws : Draws) :
    Firm allow st (st.commitDeviceAuth p.accountId p.deviceId p.verifiedAgainst p.issuedAtMs p.nonce
      now draws).1 := by
  refine firm_of_eq ?_
  unfold commitDeviceAuth issueDeviceAccess
  simp only
  repeat' split
  all_goals rfl

def FirstDevice (st : AccountStore) (username : Text) (device : Option DeviceRegistration)
    (accountId deviceId : Text) : Prop :=
  (∃ d ∈ device, d.deviceId = deviceId) ∧
    ∃ a ∈ st.accounts.find? fun a => a.username = username,
      a.accountId = accountId ∧ a.devices = []

theorem firm_loginDevice {account : AccountRecord} (d : DeviceRegistration) (now : ℕ)
    (draws : Draws) :
    Firm (fun id deviceId => id = account.accountId ∧ deviceId = d.deviceId ∧ account.devices = [])
      st (st.loginDevice account d now draws).1 := by
  unfold loginDevice
  split
  · rename_i existing hex
    split_ifs with hrev
    · exact .refl st
    · refine andThen (Firm.save (invalidate (firm_modify ?_ ?_) _ _) _)
        fun st' _ => .refl st'
      · exact fun _ => rfl
      intro a _ deviceId ht
      rcases trusts_modify ht fun _ => rfl with ht | ⟨-, x, -, ht⟩
      · exact .inl ht
      · cases ht
    · refine firm_modify (fun _ => rfl) fun a _ deviceId ht => .inl ?_
      rcases trusts_modify ht fun _ => rfl with ht | ⟨rfl, x, hx, ht⟩
      · exact ht
      · rw [AccountRecord.Trusts, hx]
        exact congrArg some ht
  · split
    · exact .refl st
    · split
      · exact .refl st
      · refine firm_modify (fun _ => rfl) fun a _ deviceId ht => ?_
        rcases trusts_append ht with ht | ⟨htr, rfl⟩
        · exact .inl ht
        · refine .inr ⟨rfl, rfl, ?_⟩
          split at htr
          · exact List.isEmpty_iff.mp ‹_›
          · cases htr

theorem Firm.mono {allow' : Text → Text → Prop} (h : Firm allow st st')
    (ha : ∀ id deviceId, allow id deviceId → allow' id deviceId) : Firm allow' st st' := by
  refine ⟨fun id a hid => ?_⟩
  obtain ⟨a', ha', ht⟩ := h.keeps id a hid
  exact ⟨a', ha', fun deviceId hd => (ht deviceId hd).imp_right (ha id deviceId)⟩

/-- **A sign-in makes a device trusted only as the first of its account.** -/
theorem firm_login (username : Text) (salt derived : ℕ) (device : Option DeviceRegistration)
    (now : ℕ) (draws : Draws) : Firm (st.FirstDevice username device) st
      (st.loginDerived username salt derived device now draws).1 := by
  unfold loginDerived
  split
  · exact .refl st
  · split
    · exact .refl st
    · rename_i account hfind
      split_ifs
      · exact .refl st
      · exact .refl st
      · simp only
        refine andThen ?_ fun st₁ _ => ?_
        · cases device with
          | none => exact .refl st
          | some d =>
            simp only
            split
            · exact .refl st
            · refine (firm_loginDevice d now draws).mono fun id deviceId h => ?_
              obtain ⟨rfl, rfl, hnil⟩ := h
              exact ⟨⟨d, rfl, rfl⟩, account, hfind, rfl, hnil⟩
        · refine andThen (Firm.save (tokens (.refl st₁) ?_ ?_) _)
            fun st₂ _ => firm_issueTokensInFamily _ _ _ _ _ _ _ _
          all_goals exact fun _ => rfl

theorem firm_setDeviceTrust (accountId deviceId : Text) (trust : DeviceTrust) (now : ℕ)
    (draws : Draws) :
    Firm (fun id d => trust = .trusted ∧ id = accountId ∧ d = deviceId) st
      (st.setDeviceTrust accountId deviceId trust now draws).1 := by
  unfold setDeviceTrust
  split
  · exact .refl st
  · rename_i device hdev
    have hset : Firm (fun id d => trust = .trusted ∧ id = accountId ∧ d = deviceId) st
        (st.modifyAccount accountId fun a =>
          { a with devices := modify DeviceRecord.id a.devices deviceId fun d =>
              { d with trust, lastSeenMs := some now } }) := by
      refine firm_modify (fun _ => rfl) fun a _ d ht => ?_
      rcases trusts_modify ht fun _ => rfl with ht | ⟨rfl, x, -, ht⟩
      · exact .inl ht
      · exact .inr ⟨ht, rfl, rfl⟩
    refine andThen (Firm.save ?_ _) fun st' _ => .refl st'
    split
    · exact hset.invalidate _ _
    · exact hset

theorem firm_removeDevice (accountId deviceId : Text) (draws : Draws) :
    Firm allow st (st.removeDevice accountId deviceId draws).1 := by
  unfold removeDevice
  split
  · exact .refl st
  · refine Firm.save (invalidate (firm_modify ?_ ?_) _ _) _
    · exact fun _ => rfl
    intro a _ d ht
    unfold AccountRecord.Trusts device at ht
    simp only [get_filter_ne] at ht
    split_ifs at ht
    · cases ht
    · exact .inl ht

/-! ## The trust a change leaves -/

theorem trustOf_modify (hf : ∀ a, (f a).accountId = a.accountId) :
    (st.modifyAccount id f).trustOf id deviceId =
      ((st.account id).bind fun a => (f a).device deviceId).map DeviceRecord.trust := by
  have hget : (st.modifyAccount id f).account id =
      if id = id then (st.account id).map f else st.account id := get_modify hf id
  rw [trustOf, hget, if_pos rfl, bind_map]
  rfl

theorem trustOf_invalidate (accountId deviceId : Text) :
    (st.invalidateDeviceTokens accountId deviceId).trustOf accountId deviceId =
      st.trustOf accountId deviceId := by
  refine (trustOf_modify ?_).trans rfl
  exact fun _ => rfl

theorem trustOf_save (outcome : Option ControlPlaneError) (accountId deviceId : Text) :
    (st.save outcome).1.trustOf accountId deviceId = st.trustOf accountId deviceId := by
  cases outcome <;> rfl

theorem setDeviceTrust_ok {trust : DeviceTrust} {now : ℕ} {draws : Draws}
    {x : PublicDevice} (h : (st.setDeviceTrust accountId deviceId trust now draws).2 = .ok x) :
    (st.account accountId).isSome ∧
      (st.setDeviceTrust accountId deviceId trust now draws).1.trustOf accountId deviceId =
        some trust := by
  unfold setDeviceTrust at h ⊢
  split at h
  · cases h
  rename_i device hdev
  obtain ⟨a, ha, hd⟩ := bind_eq_some_iff.mp hdev
  refine ⟨ha ▸ rfl, ?_⟩
  have hset : (st.modifyAccount accountId fun a =>
      { a with devices := modify DeviceRecord.id a.devices deviceId fun d =>
          { d with trust, lastSeenMs := some now } }).trustOf accountId deviceId = some trust := by
    refine (trustOf_modify ?_).trans ?_
    · exact fun _ => rfl
    rw [ha, bind_some, AccountRecord.device, get_modify, if_pos rfl]
    · rw [AccountRecord.device] at hd
      rw [hd]
      rfl
    · exact fun _ => rfl
  cases hs : draws.save with
  | some e =>
    rw [hs] at h
    cases h
  | none =>
    change AccountStore.trustOf (if trust ≠ .trusted then _ else _) accountId deviceId = _
    split
    · rw [trustOf_invalidate, hset]
    · exact hset

theorem removeDevice_ok {draws : Draws} {x : Unit}
    (h : (st.removeDevice accountId deviceId draws).2 = .ok x) :
    (st.account accountId).isSome ∧
      (st.removeDevice accountId deviceId draws).1.trustOf accountId deviceId = none := by
  unfold removeDevice at h ⊢
  split at h
  · cases h
  rename_i device hdev
  obtain ⟨a, ha, -⟩ := bind_eq_some_iff.mp hdev
  refine ⟨ha ▸ rfl, ?_⟩
  rw [trustOf_save, trustOf_invalidate]
  refine (trustOf_modify ?_).trans ?_
  · exact fun _ => rfl
  rw [ha, bind_some, AccountRecord.device, get_filter_ne, if_pos rfl]
  rfl

end AccountStore

end OpenStream.Account
