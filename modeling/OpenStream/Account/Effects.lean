import OpenStream.Account.Service
import Mathlib.Data.List.Forall2
import Mathlib.Order.Basic

/-!
# What the calls of the account store can do

Every call first loses tokens, then perhaps retires one, and at its end perhaps issues a new pair.

* `AccountStore.Shape`: the shapes of a call. **`AccountStore.shape_call`**: every call has one.
-/

namespace OpenStream.Account

open List AccountRecord
open List (Sublist Forall₂)

def RetiredRefreshToken.key (t : RetiredRefreshToken) : Digest × Text × ℕ :=
  (t.digest, t.familyId, t.expiresAtMs)

/-- A pair of tokens as a call issues it. -/
structure Pair where
  accountId : Text
  refresh : RefreshTokenRecord
  access : Text
  /-- The retired tokens that the refresh token succeeds. -/
  successorOf : List Digest

/-- A pair as the platform's draws make it. -/
structure Pair.Drawn (p : Pair) (d : Draws) : Prop where
  refresh : p.refresh.digest = tokenDigest d.refreshToken
  access : p.access = d.accessToken

/-! ## One account -/

namespace AccountRecord

def tombs (now : ℕ) (a : AccountRecord) : ℕ :=
  (a.retiredRefreshTokens.filter fun t => now < t.expiresAtMs).length

/-- The tombstones of an account: none is new, none that is unexpired goes while they are within
their bound. -/
structure Tombs (now : ℕ) (a a' : AccountRecord) : Prop where
  count : a'.tombs now ≤ a.tombs now
  retired : ∀ t' ∈ a'.retiredRefreshTokens, ∃ t ∈ a.retiredRefreshTokens, t.key = t'.key
  evidence : a.tombs now ≤ MAX_RETIRED_REFRESH_TOKENS_PER_ACCOUNT →
    ∀ t ∈ a.retiredRefreshTokens, now < t.expiresAtMs →
      ∃ t' ∈ a'.retiredRefreshTokens, t'.key = t.key

variable {now : ℕ} {a a' a'' : AccountRecord}

theorem Tombs.of_eq (h : a'.retiredRefreshTokens = a.retiredRefreshTokens) : Tombs now a a' := by
  refine ⟨?_, fun t ht => ⟨t, h ▸ ht, rfl⟩, fun _ t ht _ => ⟨t, h ▸ ht, rfl⟩⟩
  rw [tombs, tombs, h]

theorem Tombs.trans (h : Tombs now a a') (h' : Tombs now a' a'') : Tombs now a a'' := by
  refine ⟨h'.count.trans h.count, fun t'' ht'' => ?_, fun hb t ht hexp => ?_⟩
  · obtain ⟨t', ht', hk'⟩ := h'.retired t'' ht''
    obtain ⟨t, ht, hk⟩ := h.retired t' ht'
    exact ⟨t, ht, hk.trans hk'⟩
  · obtain ⟨t', ht', hk⟩ := h.evidence hb t ht hexp
    have hexp' : now < t'.expiresAtMs := by
      have heq : t'.expiresAtMs = t.expiresAtMs := congrArg (·.2.2) hk
      rwa [heq]
    obtain ⟨t'', ht'', hk'⟩ := h'.evidence (h.count.trans hb) t' ht' hexp'
    exact ⟨t'', ht'', hk'.trans hk⟩

theorem sublist_pruneRetired (a : AccountRecord) (now : ℕ) :
    (a.pruneRetired now).retiredRefreshTokens.Sublist
      (a.retiredRefreshTokens.filter fun t => now < t.expiresAtMs) := by
  apply drop_sublist

theorem tombs_pruneRetired (a : AccountRecord) (now : ℕ) : Tombs now a (a.pruneRetired now) := by
  have hsub := a.sublist_pruneRetired now
  refine ⟨?_, fun t ht => ⟨t, ?_, rfl⟩, fun hb t ht hexp => ⟨t, ?_, rfl⟩⟩
  · exact (length_filter_le _ _).trans hsub.length_le
  · exact mem_of_mem_filter (hsub.subset ht)
  · rw [tombs] at hb
    simp only [pruneRetired, Nat.sub_eq_zero_of_le hb, drop_zero, mem_filter]
    exact ⟨ht, by simpa using hexp⟩

theorem tombs_addRefresh (a : AccountRecord) (record : RefreshTokenRecord)
    (successorOf : List Digest) : Tombs now a (a.addRefresh record successorOf) := by
  have hkey (t : RetiredRefreshToken) : (if t.digest ∈ successorOf then
      { t with successor := some record.digest } else t).key = t.key := by
    split_ifs <;> rfl
  refine ⟨?_, fun t' ht' => ?_, fun _ t ht _ => ?_⟩
  · simp only [tombs, addRefresh, filter_map, length_map]
    refine (monotone_filter_right _ fun t ht => ?_).length_le
    have hexp := congrArg (·.2.2) (hkey t)
    simp only [RetiredRefreshToken.key] at hexp
    simpa [Function.comp_apply, hexp] using ht
  · obtain ⟨t, ht, rfl⟩ := mem_map.mp ht'
    exact ⟨t, ht, (hkey t).symm⟩
  · exact ⟨_, mem_map_of_mem ht, hkey t⟩

structure Loses (now : ℕ) (a a' : AccountRecord) : Prop extends Tombs now a a' where
  sameId : a'.accountId = a.accountId
  live : a'.refreshTokens.Sublist a.refreshTokens
  kept : a'.retiredRefreshTokens.Sublist a.retiredRefreshTokens

theorem Loses.of_eq (hid : a'.accountId = a.accountId) (hl : a'.refreshTokens = a.refreshTokens)
    (hr : a'.retiredRefreshTokens = a.retiredRefreshTokens) : Loses now a a' :=
  ⟨.of_eq hr, hid, hl ▸ Sublist.refl _, hr ▸ Sublist.refl _⟩

theorem Loses.refl (a : AccountRecord) : Loses now a a := .of_eq rfl rfl rfl

theorem Loses.trans (h : Loses now a a') (h' : Loses now a' a'') : Loses now a a'' :=
  ⟨h.toTombs.trans h'.toTombs, h'.sameId.trans h.sameId, h'.live.trans h.live,
    h'.kept.trans h.kept⟩

/-- An account that may have lost tokens, and may have got a new one if the pair is for it. -/
structure Issues (now : ℕ) (p : Pair) (a a' : AccountRecord) : Prop extends Tombs now a a' where
  sameId : a'.accountId = a.accountId
  live : a'.refreshTokens.Sublist a.refreshTokens ∨
    (a.accountId = p.accountId ∧ a'.refreshTokens.Sublist (a.refreshTokens ++ [p.refresh]))
  linked : ∀ t' ∈ a'.retiredRefreshTokens, t' ∈ a.retiredRefreshTokens ∨
    ∃ t ∈ a.retiredRefreshTokens, t.digest ∈ p.successorOf ∧
      t' = { t with successor := some p.refresh.digest }

theorem Loses.issues (h : Loses now a a') (p : Pair) : Issues now p a a' :=
  ⟨h.toTombs, h.sameId, .inl h.live, fun _ ht => .inl (h.kept.subset ht)⟩

theorem Loses.trans_issues {p : Pair} (h : Loses now a a') (h' : Issues now p a' a'') :
    Issues now p a a'' := by
  refine ⟨h.toTombs.trans h'.toTombs, h'.sameId.trans h.sameId, ?_, fun t ht => ?_⟩
  · rcases h'.live with hl | ⟨hid, hl⟩
    · exact .inl (hl.trans h.live)
    · exact .inr ⟨h.sameId ▸ hid, hl.trans (h.live.append_right _)⟩
  · rcases h'.linked t ht with ht | ⟨t₀, ht₀, hrest⟩
    · exact .inl (h.kept.subset ht)
    · exact .inr ⟨t₀, h.kept.subset ht₀, hrest⟩

theorem loses_dropDeviceTokens (a : AccountRecord) (deviceId : Text) :
    Loses now a (a.dropDeviceTokens deviceId) :=
  ⟨.of_eq rfl, rfl, filter_sublist, Sublist.refl _⟩

theorem loses_pruneRefresh (a : AccountRecord) (t : ℕ) : Loses now a (a.pruneRefresh t) := by
  refine ⟨.of_eq rfl, rfl, ?_, Sublist.refl _⟩
  exact (drop_sublist _ _).trans filter_sublist

theorem loses_pruneRetired (a : AccountRecord) (now : ℕ) : Loses now a (a.pruneRetired now) := by
  refine ⟨a.tombs_pruneRetired now, ?_, ?_, (a.sublist_pruneRetired now).trans filter_sublist⟩
    <;> simp only [pruneRetired, Sublist.refl]

theorem loses_consume (a : AccountRecord) (digest : Digest) : Loses now a (a.consume digest) :=
  ⟨.of_eq rfl, rfl, eraseP_sublist, Sublist.refl _⟩

theorem issues_addRefresh (a : AccountRecord) (p : Pair) (h : a.accountId = p.accountId) :
    Issues now p a (a.addRefresh p.refresh p.successorOf) := by
  refine ⟨a.tombs_addRefresh _ _, rfl, .inr ⟨h, Sublist.refl _⟩, fun t' ht' => ?_⟩
  obtain ⟨t, ht, rfl⟩ := mem_map.mp ht'
  split_ifs with hmem
  · exact .inr ⟨t, ht, hmem, rfl⟩
  · exact .inl ht

theorem Issues.trans_loses {p : Pair} (h : Issues now p a a') (h' : Loses now a' a'') :
    Issues now p a a'' := by
  refine ⟨h.toTombs.trans h'.toTombs, h'.sameId.trans h.sameId, ?_,
    fun t ht => h.linked t (h'.kept.subset ht)⟩
  rcases h.live with hl | ⟨hid, hl⟩
  · exact .inl (h'.live.trans hl)
  · exact .inr ⟨hid, h'.live.trans hl⟩

end AccountRecord

/-! ## The store -/

namespace AccountStore

variable {now : ℕ} {st st' st'' : AccountStore}
variable {R : AccountRecord → AccountRecord → Prop} {l l' : List AccountRecord} {β : Type}
  {digest : Digest} {retryKey : Option Text}

structure Loses (now : ℕ) (st st' : AccountStore) : Prop where
  accounts : Forall₂ (AccountRecord.Loses now) st.accounts st'.accounts
  access : ∀ k r, st'.accessTokens.lookup k = some r → st.accessTokens.lookup k = some r
  nonces : st'.deviceAuthNonces = st.deviceAuthNonces
  file : st'.file = st.file ∨ Forall₂ (AccountRecord.Loses now) st.accounts st'.file

/-- A store with a new pair of tokens, or with part of one. -/
structure Issues (now : ℕ) (p : Pair) (st st' : AccountStore) : Prop where
  accounts : Forall₂ (AccountRecord.Issues now p) st.accounts st'.accounts
  access : ∀ k r, st'.accessTokens.lookup k = some r → st.accessTokens.lookup k = some r ∨
    (k = tokenDigest p.access ∧ r.familyId = p.refresh.familyId ∧
      r.principal = ⟨p.accountId, p.refresh.deviceId⟩)
  nonces : st'.deviceAuthNonces = st.deviceAuthNonces
  file : st'.file = st.file ∨ Forall₂ (AccountRecord.Issues now p) st.accounts st'.file

theorem forall₂_refl (l : List AccountRecord) : Forall₂ (AccountRecord.Loses now) l l :=
  forall₂_same.mpr fun a _ => .refl a

theorem Loses.refl (st : AccountStore) : Loses now st st :=
  ⟨forall₂_refl _, fun _ _ h => h, rfl, .inl rfl⟩

theorem forall₂_trans {R S T : AccountRecord → AccountRecord → Prop}
    (hrs : ∀ a a' a'', R a a' → S a' a'' → T a a'') : ∀ {l l' l'' : List AccountRecord},
    Forall₂ R l l' → Forall₂ S l' l'' → Forall₂ T l l''
  | [], [], [], .nil, .nil => .nil
  | _ :: _, _ :: _, _ :: _, .cons h t, .cons h' t' => .cons (hrs _ _ _ h h') (forall₂_trans hrs t t')

theorem Loses.trans (h : Loses now st st') (h' : Loses now st' st'') : Loses now st st'' := by
  refine ⟨forall₂_trans (fun _ _ _ => .trans) h.accounts h'.accounts,
    fun k r hr => h.access k r (h'.access k r hr), h'.nonces.trans h.nonces, ?_⟩
  rcases h'.file with hf | hf
  · rw [hf]
    exact h.file
  · exact .inr (forall₂_trans (fun _ _ _ => .trans) h.accounts hf)

theorem exists_left
    (h : Forall₂ R l l') {a' : AccountRecord} (ha : a' ∈ l') : ∃ a ∈ l, R a a' := by
  induction h with
  | nil => exact (not_mem_nil ha).elim
  | cons hr _ ih =>
    rcases mem_cons.mp ha with rfl | ha
    · exact ⟨_, mem_cons_self, hr⟩
    · obtain ⟨a, hmem, hr⟩ := ih ha
      exact ⟨a, mem_cons_of_mem _ hmem, hr⟩

theorem forall₂_modify {id : Text} {f : AccountRecord → AccountRecord} (hr : ∀ a ∈ l, R a a)
    (hf : ∀ a ∈ l, a.accountId = id → R a (f a)) :
    Forall₂ R l (Keyed.modify accountId l id f) := by
  rw [Keyed.modify, forall₂_map_right_iff, forall₂_same]
  intro a ha
  split_ifs with h
  · exact hf a ha h
  · exact hr a ha

theorem loses_modify (st : AccountStore) (id : Text) {f : AccountRecord → AccountRecord}
    (hf : ∀ a, AccountRecord.Loses now a (f a)) : Loses now st (st.modifyAccount id f) :=
  ⟨forall₂_modify (fun a _ => .refl a) fun a _ _ => hf a, fun _ _ h => h, rfl, .inl rfl⟩

theorem loses_devices (st : AccountStore) (id : Text) (f : AccountRecord → List DeviceRecord) :
    Loses now st (st.modifyAccount id fun a => { a with devices := f a }) :=
  st.loses_modify id fun _ => .of_eq rfl rfl rfl

theorem loses_access (st : AccountStore) (p : Digest → AccessTokenRecord → Bool) :
    Loses now st { st with accessTokens := Table.retain p st.accessTokens } := by
  refine ⟨forall₂_refl _, fun k r hr => ?_, rfl, .inl rfl⟩
  rw [Table.lookup_retain, Option.filter_eq_some_iff] at hr
  exact hr.1

theorem loses_erase (st : AccountStore) (k : Digest) :
    Loses now st { st with accessTokens := st.accessTokens.erase k } := by
  refine ⟨forall₂_refl _, fun k' r hr => ?_, rfl, .inl rfl⟩
  by_cases hk : k' = k
  · rw [hk, AList.lookup_erase] at hr
    cases hr
  · rwa [AList.lookup_erase_ne hk] at hr

theorem loses_save (st : AccountStore) (outcome : Option ControlPlaneError) :
    Loses now st (st.save outcome).1 := by
  cases outcome with
  | none => exact ⟨forall₂_refl _, fun _ _ h => h, rfl, .inr (forall₂_refl _)⟩
  | some e => exact .refl st

theorem loses_invalidate (st : AccountStore) (accountId deviceId : Text) :
    Loses now st (st.invalidateDeviceTokens accountId deviceId) :=
  (st.loses_access _).trans (loses_modify _ _ fun a => a.loses_dropDeviceTokens deviceId)

theorem loses_save_answer (h : Loses now st st') (outcome : Option ControlPlaneError)
    (answer : Except ControlPlaneError β) :
    Loses now st ((st'.save outcome).andThen fun st _ => (st, answer)).1 := by
  refine h.trans ?_
  cases outcome with
  | none => exact st'.loses_save none
  | some e => exact .refl st'

theorem Loses.issues (h : Loses now st st') (p : Pair) : Issues now p st st' :=
  ⟨h.accounts.imp fun _ _ h => h.issues p, fun k r hr => .inl (h.access k r hr), h.nonces,
    h.file.imp_right fun hf => hf.imp fun _ _ h => h.issues p⟩

theorem Loses.trans_issues {p : Pair} (h : Loses now st st') (h' : Issues now p st' st'') :
    Issues now p st st'' := by
  refine ⟨forall₂_trans (fun _ _ _ h => h.trans_issues) h.accounts h'.accounts,
    fun k r hr => (h'.access k r hr).imp_left (h.access k r), h'.nonces.trans h.nonces, ?_⟩
  rcases h'.file with hf | hf
  · rw [hf]
    exact (h.issues p).file
  · exact .inr (forall₂_trans (fun _ _ _ h => h.trans_issues) h.accounts hf)

theorem forall₂_ids (hR : ∀ a a', R a a' → a'.accountId = a.accountId) (h : Forall₂ R l l') :
    l'.map accountId = l.map accountId := by
  induction h with
  | nil => rfl
  | cons hr _ ih => rw [map_cons, map_cons, hR _ _ hr, ih]

theorem Issues.ids {p : Pair} (h : Issues now p st st') :
    st'.accounts.map accountId = st.accounts.map accountId :=
  forall₂_ids (fun _ _ h => h.sameId) h.accounts

/-! ## The ends of calls -/

variable {p : Pair}

theorem issues_andThen {α : Type} {r : Outcome α} {f : AccountStore → α → Outcome β}
    (h : Loses now st r.1) (hf : ∀ st a, Issues now p st (f st a).1) :
    Issues now p st (r.andThen f).1 := by
  obtain ⟨st', e | a⟩ := r
  · exact h.issues p
  · exact h.trans_issues (hf st' a)

theorem issues_save_andThen (h : Loses now st st') (outcome : Option ControlPlaneError)
    {f : AccountStore → Unit → Outcome β} (hf : ∀ st a, Issues now p st (f st a).1) :
    Issues now p st ((st'.save outcome).andThen f).1 :=
  issues_andThen (h.trans (st'.loses_save outcome)) hf

def refreshRecord (deviceId : Option Text) (familyId : Text) (generation now : ℕ) (draws : Draws) :
    RefreshTokenRecord :=
  ⟨tokenDigest draws.refreshToken, deviceId, familyId, generation, now,
    saturatingAdd now REFRESH_TOKEN_TTL_MS⟩

/-- A new pair as the platform's draws make it. -/
def drawnPair (accountId : Text) (deviceId : Option Text) (familyId : Text) (generation : ℕ)
    (successorOf : List Digest) (now : ℕ) (draws : Draws) : Pair :=
  ⟨accountId, refreshRecord deviceId familyId generation now draws, draws.accessToken, successorOf⟩

theorem access_insertAccess (st : AccountStore) (token : Text) (record : AccessTokenRecord)
    {k : Digest} {r : AccessTokenRecord}
    (hr : (st.insertAccess token record).accessTokens.lookup k = some r) :
    st.accessTokens.lookup k = some r ∨ (k = tokenDigest token ∧ r = record) := by
  by_cases hk : k = tokenDigest token
  · rw [hk, insertAccess, AList.lookup_insert] at hr
    exact .inr ⟨hk, (Option.some.inj hr).symm⟩
  · rw [insertAccess, AList.lookup_insert_ne hk] at hr
    exact .inl hr

theorem issues_issueTokensInFamily (st : AccountStore) (accountId : Text) (deviceId : Option Text)
    (familyId : Text) (generation : ℕ) (successorOf : List Digest) (now : ℕ) (draws : Draws)
    (save : Option ControlPlaneError) :
    Issues now (drawnPair accountId deviceId familyId generation successorOf now draws) st
      (st.issueTokensInFamily accountId deviceId familyId generation successorOf now draws
        save).1 := by
  have hforget : Loses now st (st.forgetExpiredAccessTokens now) := st.loses_access _
  have haccess : ∀ k r, ((st.forgetExpiredAccessTokens now).insertAccess draws.accessToken
      ⟨⟨accountId, deviceId⟩, familyId, saturatingAdd now ACCESS_TOKEN_TTL_MS⟩).accessTokens.lookup
        k = some r → st.accessTokens.lookup k = some r ∨
          (k = tokenDigest draws.accessToken ∧ r.familyId = familyId ∧
            r.principal = ⟨accountId, deviceId⟩) := by
    intro k r hr
    rcases access_insertAccess _ _ _ hr with hr | ⟨hk, rfl⟩
    · exact .inl (hforget.access k r hr)
    · exact .inr ⟨hk, rfl, rfl⟩
  unfold issueTokensInFamily
  simp only
  split
  · exact ⟨(hforget.issues _).accounts, haccess, rfl, .inl rfl⟩
  · have hadd : Forall₂ (AccountRecord.Issues now
          (drawnPair accountId deviceId familyId generation successorOf now draws)) st.accounts
        (Keyed.modify AccountRecord.accountId st.accounts accountId fun a => (a.addRefresh
          (refreshRecord deviceId familyId generation now draws) successorOf).pruneRefresh now) := by
      refine forall₂_modify (fun a _ => (AccountRecord.Loses.refl a).issues _) fun a _ ha => ?_
      exact (a.issues_addRefresh _ ha).trans_loses (AccountRecord.loses_pruneRefresh _ now)
    cases save with
    | none => exact ⟨hadd, haccess, rfl, .inr hadd⟩
    | some e => exact ⟨hadd, haccess, rfl, .inl rfl⟩

/-! ## Whole calls -/

/-- A live token becomes a tombstone. -/
def retire (st : AccountStore) (id : Text) (record : RefreshTokenRecord) (retryKey : Option Digest)
    (now : ℕ) : AccountStore :=
  st.modifyAccount id fun a => (a.consume record.digest).entomb record retryKey now

def Linked (st : AccountStore) (r : RefreshTokenRecord) (x : Digest) : Prop :=
  x = r.digest ∨ ∃ a ∈ st.accounts, ∃ t ∈ a.retiredRefreshTokens,
    t.digest = x ∧ t.successor = some r.digest

/-- **What a call can do**: at most one token is retired, and at most one pair issued, in the family
of the retired token or in a new one. -/
inductive Shape (now : ℕ) (d : Draws) (st : AccountStore) :
    Option (Text × RefreshTokenRecord) → AccountStore → Prop
  | issues {p : Pair} {st' : AccountStore} (hp : p.Drawn d) (hfam : p.refresh.familyId = d.familyId)
      (hlinks : p.successorOf = []) (h : Issues now p st st') : Shape now d st none st'
  | registers {account : AccountRecord} {p : Pair} {st' : AccountStore}
      (hid : account.accountId = d.accountId) (hlive : account.refreshTokens = [])
      (hretired : account.retiredRefreshTokens = []) (hp : p.Drawn d)
      (hacc : p.accountId = d.accountId) (hfam : p.refresh.familyId = d.familyId)
      (hlinks : p.successorOf = [])
      (h : Issues now p { st with accounts := st.accounts ++ [account] } st') :
      Shape now d st none st'
  | condemns {a : AccountRecord} {t : RetiredRefreshToken} {st' : AccountStore}
      (ha : a ∈ st.accounts) (ht : t ∈ a.retiredRefreshTokens)
      (h : Loses now (st.revokeRefreshFamily a.accountId t.familyId) st') : Shape now d st none st'
  | rotates {a : AccountRecord} {r : RefreshTokenRecord} {p : Pair} {key : Option Digest}
      {st' : AccountStore} (ha : a ∈ st.accounts) (hr : r ∈ a.refreshTokens)
      (hexp : now < r.expiresAtMs) (hp : p.Drawn d) (hacc : p.accountId = a.accountId)
      (hfam : p.refresh.familyId = r.familyId) (hdev : p.refresh.deviceId = r.deviceId)
      (hlinks : ∀ x ∈ p.successorOf, st.Linked r x)
      (h : Issues now p (st.retire a.accountId r key now) st') :
      Shape now d st (some (a.accountId, r)) st'

variable {d : Draws}

theorem Loses.shape (h : Loses now st st') : Shape now d st none st' :=
  .issues ⟨rfl, rfl⟩ rfl rfl (h.issues (drawnPair [] none d.familyId 0 [] now d))

theorem Shape.nonces {gone : Option (Text × RefreshTokenRecord)} (h : Shape now d st gone st') :
    st'.deviceAuthNonces = st.deviceAuthNonces := by
  cases h with
  | issues _ _ _ h | registers _ _ _ _ _ _ _ h | condemns _ _ h | rotates _ _ _ _ _ _ _ _ h =>
    exact h.nonces

theorem shape_refl (st : AccountStore) : Shape now d st none st := (Loses.refl st).shape

theorem shape_registerDerived (st : AccountStore) (username : Text) (salt derived : ℕ)
    (device : Option DeviceRegistration) (requireEmpty : Bool) (now : ℕ) (d : Draws) :
    Shape now d st none (st.registerDerived username salt derived device requireEmpty now d).1 := by
  unfold registerDerived
  split_ifs
  · exact st.shape_refl
  · exact st.shape_refl
  · exact st.shape_refl
  · exact st.shape_refl
  · simp only
    split
    · exact .registers rfl rfl rfl ⟨rfl, rfl⟩ rfl rfl rfl
        (issues_save_andThen (.refl _) _ fun st _ => st.issues_issueTokensInFamily ..)
    · split_ifs
      · exact st.shape_refl
      · split
        · exact st.shape_refl
        · exact .registers rfl rfl rfl ⟨rfl, rfl⟩ rfl rfl rfl
            (issues_save_andThen (.refl _) _ fun st _ => st.issues_issueTokensInFamily ..)

theorem loses_loginDevice (st : AccountStore) (account : AccountRecord) (d : DeviceRegistration)
    (now : ℕ) (draws : Draws) : Loses now st (st.loginDevice account d now draws).1 := by
  unfold loginDevice
  split
  · split_ifs
    · exact .refl st
    · exact loses_save_answer ((st.loses_devices _ _).trans (loses_invalidate _ _ _)) _ _
    · exact st.loses_devices _ _
  · by_cases hl : MAX_DEVICES_PER_ACCOUNT ≤ account.devices.length
    · rw [if_pos hl]
      exact .refl st
    · rw [if_neg hl]
      cases draws.grantKey with
      | none => exact .refl st
      | some key => exact st.loses_devices _ _

theorem shape_loginDerived (st : AccountStore) (username : Text) (salt derived : ℕ)
    (device : Option DeviceRegistration) (now : ℕ) (d : Draws) :
    Shape now d st none (st.loginDerived username salt derived device now d).1 := by
  unfold loginDerived
  split_ifs
  · exact st.shape_refl
  · split
    · exact st.shape_refl
    · split_ifs
      · exact st.shape_refl
      · exact st.shape_refl
      · refine .issues ⟨rfl, rfl⟩ rfl rfl (issues_andThen ?_ fun st _ => issues_save_andThen
          (loses_modify _ _ fun a => a.loses_pruneRefresh now) _ fun st _ =>
            st.issues_issueTokensInFamily ..)
        split
        · exact .refl st
        · split_ifs
          · exact .refl st
          · exact loses_loginDevice ..

/-! ### Rotations -/

def findLive (st : AccountStore) (digest : Digest) : Option (Text × RefreshTokenRecord) :=
  st.accounts.findSome? fun a =>
    (a.refreshTokens.find? fun t => t.digest = digest).map fun t => (a.accountId, t)

theorem findLive_some {x : Text × RefreshTokenRecord} (h : st.findLive digest = some x) :
    ∃ a ∈ st.accounts, a.accountId = x.1 ∧ x.2 ∈ a.refreshTokens ∧ x.2.digest = digest := by
  obtain ⟨a, ha, h⟩ := exists_of_findSome?_eq_some h
  obtain ⟨t, ht, rfl⟩ := Option.map_eq_some_iff.mp h
  exact ⟨a, ha, rfl, mem_of_find?_eq_some ht, by simpa using find?_some ht⟩

theorem issues_completeRotation (st : AccountStore) (accountId : Text) (record : RefreshTokenRecord)
    (relink : List Digest) (now : ℕ) (d : Draws) :
    Issues now (drawnPair accountId record.deviceId record.familyId
        (saturatingAdd record.generation 1) relink now d) st
      (st.completeRotation accountId record relink now d).1 := by
  have hissue : Issues now (drawnPair accountId record.deviceId record.familyId
        (saturatingAdd record.generation 1) relink now d) st
      (((st.modifyAccount accountId fun a => a.pruneRetired now).save d.save).andThen
        fun st _ => st.issueTokensInFamily accountId record.deviceId record.familyId
          (saturatingAdd record.generation 1) relink now d d.save').1 :=
    issues_save_andThen (st.loses_modify _ fun a => a.loses_pruneRetired now) _ fun st _ =>
      st.issues_issueTokensInFamily ..
  have hinvalidate (deviceId : Text) (e : ControlPlaneError) :
      Loses now st (((st.invalidateDeviceTokens accountId deviceId).save d.save).andThen
        fun st _ => (st, (.error e : Except ControlPlaneError IssuedTokens))).1 :=
    loses_save_answer (st.loses_invalidate accountId deviceId) _ _
  unfold completeRotation
  split
  · exact hissue
  · split
    · exact (Loses.refl st).issues _
    · exact hissue
    · exact (hinvalidate _ _).issues _
    · exact (hinvalidate _ _).issues _

def wellFormed (token : Text) (retryKey : Option Text) : Bool :=
  validToken token && retryKey.all validToken

def Routes (st : AccountStore) (token : Text) (retryKey : Option Text) (now : ℕ) (digest : Digest) :
    Prop :=
  (st.findRetiredFamily (tokenDigest token) now = none ∧ digest = tokenDigest token) ∨
    ∃ accountId familyId,
      st.findRetiredFamily (tokenDigest token) now = some (accountId, familyId) ∧
      st.unusedSuccessor accountId (tokenDigest token) (retryKey.map tokenDigest) now = some digest

/-- **The ways of a refresh call**, with the token it retires. -/
inductive Refreshed (now : ℕ) (d : Draws) (st : AccountStore) (token : Text)
    (retryKey : Option Text) : Option (Text × RefreshTokenRecord) → Outcome IssuedTokens → Prop
  | malformed (hw : wellFormed token retryKey = false) :
      Refreshed now d st token retryKey none (st, .error .unauthorized)
  | condemned {a : AccountRecord} {t : RetiredRefreshToken} {st' : AccountStore}
      {e : ControlPlaneError} (hw : wellFormed token retryKey) (ha : a ∈ st.accounts)
      (ht : t ∈ a.retiredRefreshTokens) (hd : t.digest = tokenDigest token)
      (h : Loses now (st.revokeRefreshFamily a.accountId t.familyId) st') :
      Refreshed now d st token retryKey none (st', .error e)
  | unknown {digest : Digest} (hw : wellFormed token retryKey)
      (hr : st.Routes token retryKey now digest) (hf : st.findLive digest = none) :
      Refreshed now d st token retryKey none (st, .error .unauthorized)
  | expired {digest : Digest} {x : Text × RefreshTokenRecord} {st' : AccountStore}
      {e : ControlPlaneError} (hw : wellFormed token retryKey)
      (hr : st.Routes token retryKey now digest) (hf : st.findLive digest = some x)
      (hexp : x.2.expiresAtMs ≤ now)
      (h : Loses now (st.modifyAccount x.1 fun a => a.consume digest) st') :
      Refreshed now d st token retryKey none (st', .error e)
  | rotated {digest : Digest} {x : Text × RefreshTokenRecord} {relink : List Digest}
      {o : Outcome IssuedTokens} (hw : wellFormed token retryKey)
      (hr : st.Routes token retryKey now digest) (hf : st.findLive digest = some x)
      (hexp : now < x.2.expiresAtMs) (hl : ∀ y ∈ relink, y = tokenDigest token ∨ y = digest)
      (h : Issues now (drawnPair x.1 x.2.deviceId x.2.familyId (saturatingAdd x.2.generation 1)
        relink now d) (st.retire x.1 x.2 (retryKey.map tokenDigest) now) o.1) :
      Refreshed now d st token retryKey (some x) o

theorem save_error (st : AccountStore) (now : ℕ) (outcome : Option ControlPlaneError)
    (e : ControlPlaneError) : ∃ st' e', (st.save outcome).andThen
      (fun st _ => (st, (.error e : Except ControlPlaneError β))) = (st', .error e') ∧
        Loses now st st' := by
  cases outcome with
  | none => exact ⟨_, e, rfl, st.loses_save none⟩
  | some e' => exact ⟨st, e', rfl, .refl st⟩

theorem refreshed_rotate {token : Text} {relink : List Digest} (hw : wellFormed token retryKey)
    (hr : st.Routes token retryKey now digest)
    (hl : ∀ y ∈ relink, y = tokenDigest token ∨ y = digest) (d : Draws) :
    ∃ gone, Refreshed now d st token retryKey gone
      (st.rotate digest relink (retryKey.map tokenDigest) now d) := by
  unfold rotate
  simp only
  split
  · next hfound => exact ⟨none, .unknown hw hr hfound⟩
  · next accountId record hfound =>
    split
    · next hexp =>
      obtain ⟨st', e', heq, hlose⟩ := save_error (β := IssuedTokens)
        (st.modifyAccount accountId fun a => a.consume digest) now d.save .unauthorized
      rw [heq]
      exact ⟨none, .expired hw hr hfound hexp hlose⟩
    · next hexp =>
      obtain ⟨a, -, -, -, hd⟩ := findLive_some hfound
      subst hd
      exact ⟨_, .rotated hw hr hfound (not_le.mp hexp) hl (issues_completeRotation _ _ _ _ _ _)⟩

theorem findRetired_some {x : Text × Text} (h : st.findRetiredFamily digest now = some x) :
    ∃ a ∈ st.accounts, ∃ t ∈ a.retiredRefreshTokens,
      t.digest = digest ∧ now < t.expiresAtMs ∧ x = (a.accountId, t.familyId) := by
  obtain ⟨a, ha, h⟩ := exists_of_findSome?_eq_some h
  obtain ⟨t, ht, rfl⟩ := Option.map_eq_some_iff.mp h
  have hp := find?_some ht
  simp only [Bool.and_eq_true, decide_eq_true_eq] at hp
  exact ⟨a, ha, t, mem_of_find?_eq_some ht, hp.1, hp.2, rfl⟩

theorem unusedSuccessor_some {accountId : Text} {retired successor : Digest} {key : Option Digest}
    (h : st.unusedSuccessor accountId retired key now = some successor) :
    ∃ k, key = some k ∧ ∃ a ∈ st.accounts, a.accountId = accountId ∧
      ∃ t ∈ a.retiredRefreshTokens, t.digest = retired ∧ t.retryKey = some k ∧
        now - t.retiredAtMs ≤ REFRESH_RETRY_GRACE_MS ∧ t.successor = some successor ∧
        ∃ r ∈ a.refreshTokens, r.digest = successor ∧ now < r.expiresAtMs := by
  obtain ⟨k, hk, hacc⟩ := Option.bind_eq_some_iff.mp h
  obtain ⟨a, ha, htomb⟩ := Option.bind_eq_some_iff.mp hacc
  obtain ⟨t, ht, hsucc⟩ := Option.bind_eq_some_iff.mp htomb
  split_ifs at hsucc with hc
  simp only [Bool.or_eq_true, decide_eq_true_eq, not_or, not_not, not_lt] at hc
  obtain ⟨hs, hlive⟩ := Option.filter_eq_some_iff.mp hsucc
  obtain ⟨r, hr, hlive⟩ := any_eq_true.mp hlive
  simp only [Bool.and_eq_true, decide_eq_true_eq] at hlive
  exact ⟨k, hk, a, Keyed.mem_of_get ha, Keyed.key_of_get ha, t, mem_of_find?_eq_some ht,
    by simpa using find?_some ht, hc.1, hc.2, hs, r, hr, hlive⟩

theorem Routes.linked {token : Text}
    (h : st.Routes token retryKey now digest) {r : RefreshTokenRecord} (hr : r.digest = digest) :
    st.Linked r (tokenDigest token) := by
  rcases h with ⟨-, hd⟩ | ⟨accountId, familyId, -, hs⟩
  · exact .inl (hd.symm.trans hr.symm)
  · obtain ⟨-, -, a, ha, -, t, ht, hd, -, -, hsucc, -⟩ := unusedSuccessor_some hs
    exact .inr ⟨a, ha, t, ht, hd, hr ▸ hsucc⟩

theorem Routes.consumed {token : Text} (h : st.Routes token retryKey now digest) :
    st.consumed token retryKey now = st.findLive digest := by
  unfold AccountStore.consumed
  rcases h with ⟨hnone, rfl⟩ | ⟨accountId, familyId, hsome, hs⟩
  · rw [hnone]
    rfl
  · rw [hsome]
    simp only [hs]
    rfl

theorem rotatesOf_refresh {e : Event} {token : Text}
    (he : e.call = .refresh token retryKey) {r : Except ControlPlaneError IssuedTokens}
    {x : Text × RefreshTokenRecord} (hx : x ∈ Service.rotatesOf st e (.issued r)) :
    st.consumed token retryKey e.now = some x ∧ ∃ i, r = .ok i := by
  rw [Service.rotatesOf, he] at hx
  cases r with
  | error err => exact (not_mem_nil hx).elim
  | ok i => exact ⟨Option.mem_toList.mp hx, i, rfl⟩

variable (st)

theorem refreshed_refresh (token : Text) (retryKey : Option Text) (now : ℕ)
    (d : Draws) : ∃ gone, Refreshed now d st token retryKey gone
      (st.refreshWithRetryKey token retryKey now d) := by
  unfold refreshWithRetryKey
  split
  · next hw => exact ⟨none, .malformed (Bool.and_eq_false_iff.mpr (by simpa using hw))⟩
  · next hw =>
    have hw : wellFormed token retryKey = true := by
      simpa [wellFormed] using hw
    simp only
    split
    · next hnone =>
      exact refreshed_rotate hw (.inl ⟨hnone, rfl⟩) (by simp) d
    · next accountId familyId hsome =>
      split
      · next successor hsucc =>
        exact refreshed_rotate hw (.inr ⟨accountId, familyId, hsome, hsucc⟩) (by simp) d
      · obtain ⟨a, ha, t, ht, hd, -, heq⟩ := findRetired_some hsome
        cases heq
        obtain ⟨st', e', heq, hlose⟩ := save_error (β := IssuedTokens)
          (st.revokeRefreshFamily a.accountId t.familyId) now d.save .unauthorized
        rw [heq]
        exact ⟨none, .condemned hw ha ht hd hlose⟩

theorem shape_refresh (token : Text) (retryKey : Option Text) (now : ℕ)
    (d : Draws) : ∃ gone, Shape now d st gone (st.refreshWithRetryKey token retryKey now d).1 ∧
      ∀ x, (st.refreshWithRetryKey token retryKey now d).2 = .ok x →
        gone = st.consumed token retryKey now := by
  obtain ⟨gone, h⟩ := st.refreshed_refresh token retryKey now d
  generalize st.refreshWithRetryKey token retryKey now d = o at h
  refine ⟨gone, ?_⟩
  cases h with
  | malformed | unknown => exact ⟨st.shape_refl, nofun⟩
  | condemned _ ha ht _ hl => exact ⟨.condemns ha ht hl, nofun⟩
  | expired _ _ _ _ hl =>
    exact ⟨((loses_modify _ _ fun a => a.loses_consume _).trans hl).shape, nofun⟩
  | @rotated digest x relink o hw hr hf hexp hl hi =>
    obtain ⟨a, ha, hid, hmem, hd⟩ := findLive_some hf
    obtain ⟨id, r⟩ := x
    subst hid
    refine ⟨.rotates ha hmem hexp ⟨rfl, rfl⟩ rfl rfl rfl (fun y hy => ?_) hi,
      fun _ _ => (hr.consumed.trans hf).symm⟩
    rcases hl y hy with rfl | rfl
    · exact hr.linked hd
    · exact .inl hd.symm

/-! ### Every call -/

theorem loses_authorizeAccess (token : Text) (now : ℕ)
    (save : Option ControlPlaneError) : Loses now st (st.authorizeAccess token now save).1 := by
  have hdrop : Loses now st { st with accessTokens := st.accessTokens.erase (tokenDigest token) } :=
    st.loses_erase _
  unfold authorizeAccess
  split
  · exact .refl st
  · simp only
    split_ifs
    · exact hdrop
    · split
      · exact .refl st
      · split
        · exact hdrop
        · exact (hdrop.trans (loses_invalidate _ _ _)).trans (loses_save _ _)
        · exact .refl st

theorem loses_enrollDevice (accountId : Text) (r : DeviceRegistration) (now : ℕ)
    (d : Draws) : Loses now st (st.enrollDevice accountId r now d).1 := by
  unfold enrollDevice
  split_ifs
  · exact .refl st
  · split
    · exact .refl st
    · split_ifs
      · exact .refl st
      · exact .refl st
      · split
        · exact .refl st
        · exact loses_save_answer (st.loses_devices _ _) _ _

theorem loses_setDeviceTrust (accountId deviceId : Text) (trust : DeviceTrust)
    (now : ℕ) (d : Draws) : Loses now st (st.setDeviceTrust accountId deviceId trust now d).1 := by
  unfold setDeviceTrust
  split
  · exact .refl st
  · refine loses_save_answer ?_ _ _
    split_ifs
    · exact (st.loses_devices _ _).trans (loses_invalidate _ _ _)
    · exact st.loses_devices _ _

theorem loses_removeDevice (accountId deviceId : Text) (d : Draws) :
    Loses now st (st.removeDevice accountId deviceId d).1 := by
  unfold removeDevice
  split
  · exact .refl st
  · exact ((st.loses_devices _ _).trans (loses_invalidate _ _ _)).trans (loses_save _ _)

theorem loses_rehashPassword (username : Text) (salt derived scheme : ℕ)
    (d : Draws) : Loses now st (st.rehashPassword username salt derived scheme d).1 := by
  unfold rehashPassword
  split
  · exact .refl st
  · refine Loses.trans ?_ (loses_save _ _)
    exact st.loses_modify _ fun _ => .of_eq rfl rfl rfl

theorem shape_commitDeviceAuth (p : DeviceProof) (now : ℕ) (d : Draws) :
    ∃ nonces, Shape now d { st with deviceAuthNonces := nonces } none
      (st.commitDeviceAuth p.accountId p.deviceId p.verifiedAgainst p.issuedAtMs p.nonce now d).1 := by
  have hissue (st : AccountStore) :
      Shape now d st none (st.issueDeviceAccess p.accountId p.deviceId now d).1 := by
    have hforget : Loses now st (st.forgetExpiredAccessTokens now) := st.loses_access _
    unfold issueDeviceAccess
    split
    · exact st.shape_refl
    · split
      · exact st.shape_refl
      · have hi := hforget.issues (drawnPair p.accountId (some p.deviceId) d.familyId 0 [] now d)
        refine .issues ⟨rfl, rfl⟩ rfl rfl ⟨hi.accounts, fun k r hr => ?_, rfl, .inl rfl⟩
        rcases access_insertAccess _ _ _ hr with hr | ⟨hk, rfl⟩
        · exact hi.access k r hr
        · exact .inr ⟨hk, rfl, rfl⟩
  unfold commitDeviceAuth
  split_ifs
  · exact ⟨_, st.shape_refl⟩
  · exact ⟨_, st.shape_refl⟩
  · exact ⟨_, st.shape_refl⟩
  · simp only
    split_ifs
    · exact ⟨_, shape_refl _⟩
    · exact ⟨_, hissue _⟩
    · exact ⟨_, hissue _⟩

/-- **Every call but a device proof has one of the shapes**, and what it rotates away is what it
retires. -/
theorem shape_call (e : Event) (hc : ∀ p, e.call ≠ .proof p) :
    ∃ gone, Shape e.now e.draws st gone (st.call e.now e.draws e.call).1 ∧
      (∀ x ∈ Service.rotatesOf st e (st.call e.now e.draws e.call).2, gone = some x) ∧
      (gone.isSome → e.call.refreshes) := by
  have hnone (hs : Shape e.now e.draws st none (st.call e.now e.draws e.call).1)
      (hr : e.call.refreshes = false) :
      ∃ gone, Shape e.now e.draws st gone (st.call e.now e.draws e.call).1 ∧
        (∀ x ∈ Service.rotatesOf st e (st.call e.now e.draws e.call).2, gone = some x) ∧
        (gone.isSome → e.call.refreshes) := by
    refine ⟨none, hs, fun x hx => ?_, by simp⟩
    unfold Service.rotatesOf at hx
    split at hx
    · next he => simp [he, Call.refreshes] at hr
    · exact (not_mem_nil hx).elim
  obtain ⟨c, now, d⟩ := e
  cases c with
  | register => exact hnone (shape_registerDerived ..) rfl
  | login => exact hnone (shape_loginDerived ..) rfl
  | rehash => exact hnone (loses_rehashPassword ..).shape rfl
  | refresh token retryKey =>
    obtain ⟨gone, hs, hg⟩ := st.shape_refresh token retryKey now d
    refine ⟨gone, hs, fun x hx => ?_, fun _ => rfl⟩
    obtain ⟨hx, i, hi⟩ := rotatesOf_refresh rfl hx
    exact (hg i hi).trans hx
  | authorize => exact hnone (loses_authorizeAccess ..).shape rfl
  | enroll => exact hnone (loses_enrollDevice ..).shape rfl
  | setTrust => exact hnone (loses_setDeviceTrust ..).shape rfl
  | remove => exact hnone (loses_removeDevice ..).shape rfl
  | proof p => exact absurd rfl (hc p)

end AccountStore

end OpenStream.Account
