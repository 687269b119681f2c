import OpenStream.Account.Refresh

/-!
# Revocation of a device is final for its tokens

A token belongs to a family and a family to one sign-in of one device; a new token comes only from a
live one of its family or from a new sign-in. What is revoked is dropped from memory and from the file.

* **`Vault.cut_final`**
-/

namespace OpenStream.Account

open List Function Service Keyed

structure Registry where
  family : Text → Text
  owner : Text → AccountPrincipal

namespace Registry

structure Known (g : Registry) (drawn : List Text) (token family : Text)
    (owner : AccountPrincipal) : Prop where
  tokenDrawn : token ∈ drawn
  inFamily : g.family token = family
  familyDrawn : family ∈ drawn
  ownedBy : g.owner family = owner

/-- Nothing that was known changes. -/
def Extends (g g' : Registry) (drawn : List Text) : Prop :=
  ∀ x ∈ drawn, g'.family x = g.family x ∧ g'.owner x = g.owner x

/-- The pair of a call is entered. -/
def enter (g : Registry) (d : Draws) (family : Text) (owner : AccountPrincipal) : Registry where
  family := Function.update (Function.update g.family d.accessToken family) d.refreshToken family
  owner := Function.update g.owner family owner

variable {g g' : Registry} {drawn drawn' : List Text} {token family : Text}
  {owner : AccountPrincipal} {d : Draws}

theorem Known.mono (h : g.Known drawn token family owner) (he : g.Extends g' drawn)
    (hd : drawn ⊆ drawn') : g'.Known drawn' token family owner :=
  ⟨hd h.tokenDrawn, (he _ h.tokenDrawn).1.trans h.inFamily, hd h.familyDrawn,
    (he _ h.familyDrawn).2.trans h.ownedBy⟩

theorem extends_enter (ha : d.accessToken ∉ drawn) (hr : d.refreshToken ∉ drawn)
    (ho : family ∉ drawn ∨ g.owner family = owner) : g.Extends (g.enter d family owner) drawn := by
  intro x hx
  have hne {y : Text} (hy : y ∉ drawn) : x ≠ y := fun he => hy (he ▸ hx)
  refine ⟨?_, ?_⟩
  · simp [enter, update_of_ne (hne hr), update_of_ne (hne ha)]
  · by_cases hf : x = family
    · subst hf
      simp only [enter, update_self]
      exact (ho.resolve_left fun hn => hn hx).symm
    · exact update_of_ne hf _ _

theorem family_enter_refresh : (g.enter d family owner).family d.refreshToken = family :=
  update_self _ _ _

theorem family_enter_access : (g.enter d family owner).family d.accessToken = family := by
  by_cases h : d.accessToken = d.refreshToken
  · rw [h]
    exact family_enter_refresh
  · simp [enter, update_of_ne h, update_self]

theorem owner_enter : (g.enter d family owner).owner family = owner := update_self _ _ _

end Registry

/-! ## Known tokens -/

structure Registered (g : Registry) (drawn : List Text) (l : List AccountRecord) : Prop where
  live : ∀ a ∈ l, ∀ r ∈ a.refreshTokens,
    g.Known drawn r.digest.preimage r.familyId ⟨a.accountId, r.deviceId⟩
  retired : ∀ a ∈ l, ∀ t ∈ a.retiredRefreshTokens, t.digest.preimage ∈ drawn ∧
    g.family t.digest.preimage = t.familyId ∧ t.familyId ∈ drawn
  successor : ∀ a ∈ l, ∀ t ∈ a.retiredRefreshTokens, ∀ σ ∈ t.successor,
    σ.preimage ∈ drawn ∧ g.family σ.preimage = t.familyId

namespace Registered

open AccountStore

variable {g g' : Registry} {drawn drawn' : List Text} {l l' : List AccountRecord} {now : ℕ}
  {p : Pair}

theorem mono (h : Registered g drawn l) (he : g.Extends g' drawn) (hd : drawn ⊆ drawn') :
    Registered g' drawn' l := by
  refine ⟨fun a ha r hr => (h.live a ha r hr).mono he hd, fun a ha t ht => ?_, fun a ha t ht σ hσ => ?_⟩
  · obtain ⟨htok, hfam, hdrawn⟩ := h.retired a ha t ht
    exact ⟨hd htok, (he _ htok).1.trans hfam, hd hdrawn⟩
  · obtain ⟨htok, hfam⟩ := h.successor a ha t ht σ hσ
    exact ⟨hd htok, (he _ htok).1.trans hfam⟩

theorem shrink (h : Registered g drawn l) (hs : ∀ a' ∈ l', ∃ a ∈ l, a'.accountId = a.accountId ∧
      a'.refreshTokens ⊆ a.refreshTokens ∧ a'.retiredRefreshTokens ⊆ a.retiredRefreshTokens) :
    Registered g drawn l' := by
  refine ⟨fun a' ha' r hr => ?_, fun a' ha' t ht => ?_, fun a' ha' t ht => ?_⟩
  · obtain ⟨a, ha, hid, hl, -⟩ := hs a' ha'
    exact hid ▸ h.live a ha r (hl hr)
  · obtain ⟨a, ha, -, -, hr⟩ := hs a' ha'
    exact h.retired a ha t (hr ht)
  · obtain ⟨a, ha, -, -, hr⟩ := hs a' ha'
    exact h.successor a ha t (hr ht)

theorem issues (h : Registered g drawn l) (hi : List.Forall₂ (AccountRecord.Issues now p) l l')
    (hnew : g.Known drawn p.refresh.digest.preimage p.refresh.familyId
      ⟨p.accountId, p.refresh.deviceId⟩)
    (hlinks : ∀ a ∈ l, ∀ t ∈ a.retiredRefreshTokens, t.digest ∈ p.successorOf →
      t.familyId = p.refresh.familyId) : Registered g drawn l' := by
  refine ⟨fun a' ha' r hr => ?_, fun a' ha' t ht => ?_, fun a' ha' t ht σ hσ => ?_⟩
  · obtain ⟨a, ha, hissue⟩ := exists_left hi ha'
    rw [hissue.sameId]
    rcases hissue.live with hl | ⟨hid, hl⟩
    · exact h.live a ha r (hl.subset hr)
    · rcases mem_append.mp (hl.subset hr) with hr | hr
      · exact h.live a ha r hr
      · rw [mem_singleton.mp hr, hid]
        exact hnew
  · obtain ⟨a, ha, hissue⟩ := exists_left hi ha'
    rcases hissue.linked t ht with ht | ⟨t₀, ht₀, -, rfl⟩
    · exact h.retired a ha t ht
    · exact h.retired a ha t₀ ht₀
  · obtain ⟨a, ha, hissue⟩ := exists_left hi ha'
    rcases hissue.linked t ht with ht | ⟨t₀, ht₀, hmem, rfl⟩
    · exact h.successor a ha t ht σ hσ
    · cases hσ
      exact ⟨hnew.tokenDrawn, hnew.inFamily.trans (hlinks a ha t₀ ht₀ hmem).symm⟩

theorem retire {st : AccountStore} (h : Registered g drawn st.accounts) {a : AccountRecord}
    {r : RefreshTokenRecord} (ha : a ∈ st.accounts) (hr : r ∈ a.refreshTokens)
    (key : Option Digest) : Registered g drawn (st.retire a.accountId r key now).accounts := by
  have hknown := h.live a ha r hr
  refine ⟨fun b hb x hx => ?_, fun b hb t ht => ?_, fun b hb t ht σ hσ => ?_⟩
  · rcases mem_modify hb with ⟨hb, -⟩ | ⟨c, hc, -, rfl⟩
    · exact h.live b hb x hx
    · exact h.live c hc x (mem_of_mem_eraseP hx)
  · rcases mem_modify hb with ⟨hb, -⟩ | ⟨c, hc, -, rfl⟩
    · exact h.retired b hb t ht
    · exact forall_mem_concat (h.retired c hc)
        ⟨hknown.tokenDrawn, hknown.inFamily, hknown.familyDrawn⟩ t ht
  · rcases mem_modify hb with ⟨hb, -⟩ | ⟨c, hc, -, rfl⟩
    · exact h.successor b hb t ht σ hσ
    · exact forall_mem_concat (h.successor c hc) (fun σ hσ => by cases hσ) t ht σ hσ

theorem family_of_linked {st : AccountStore} (h : Registered g drawn st.accounts) {a : AccountRecord}
    {r : RefreshTokenRecord} (ha : a ∈ st.accounts) (hr : r ∈ a.refreshTokens) {x : Digest}
    (hx : st.Linked r x) : g.family x.preimage = r.familyId := by
  rcases hx with rfl | ⟨b, hb, t, ht, rfl, hs⟩
  · exact (h.live a ha r hr).inFamily
  · rw [(h.retired b hb t ht).2.1, ← (h.successor b hb t ht _ hs).2]
    exact (h.live a ha r hr).inFamily

end Registered

structure Recorded (g : Registry) (drawn : List Text) (st : AccountStore) : Prop where
  accounts : Registered g drawn st.accounts
  file : Registered g drawn st.file
  access : ∀ k r, st.accessTokens.lookup k = some r →
    g.Known drawn k.preimage r.familyId r.principal

namespace Recorded

open AccountStore

variable {g g' : Registry} {drawn drawn' : List Text} {now : ℕ} {p : Pair} {d : Draws}
  {st st' : AccountStore}

section

variable (h : Recorded g drawn st)

include h

theorem mono (he : g.Extends g' drawn) (hd : drawn ⊆ drawn') : Recorded g' drawn' st :=
  ⟨h.accounts.mono he hd, h.file.mono he hd, fun k r hr => (h.access k r hr).mono he hd⟩

theorem issues (hi : Issues now p st st')
    (hnew : g.Known drawn p.refresh.digest.preimage p.refresh.familyId
      ⟨p.accountId, p.refresh.deviceId⟩)
    (haccess : g.Known drawn p.access p.refresh.familyId ⟨p.accountId, p.refresh.deviceId⟩)
    (hlinks : ∀ a ∈ st.accounts, ∀ t ∈ a.retiredRefreshTokens, t.digest ∈ p.successorOf →
      t.familyId = p.refresh.familyId) : Recorded g drawn st' := by
  refine ⟨h.accounts.issues hi.accounts hnew hlinks, ?_, fun k r hr => ?_⟩
  · rcases hi.file with hf | hf
    · exact hf ▸ h.file
    · exact h.accounts.issues hf hnew hlinks
  · rcases hi.access k r hr with hr | ⟨rfl, hf, hp⟩
    · exact h.access k r hr
    · rw [hf, hp]
      exact haccess

theorem revoke (accountId familyId : Text) :
    Recorded g drawn (st.revokeRefreshFamily accountId familyId) := by
  refine ⟨h.accounts.shrink fun a' ha' => ?_, h.file, fun k r hr => h.access k r ?_⟩
  · rcases mem_modify ha' with ⟨ha, -⟩ | ⟨a, ha, -, rfl⟩
    · exact ⟨a', ha, rfl, List.Subset.refl _, List.Subset.refl _⟩
    · exact ⟨a, ha, rfl, filter_subset_self _, filter_subset_self _⟩
  · have hlose : Loses 0 st { st with accessTokens := Table.retain (fun _ t =>
        t.principal.accountId ≠ accountId || t.familyId ≠ familyId) st.accessTokens } :=
      st.loses_access _
    exact hlose.access k r hr

theorem enters (hi : Issues now p st st') (hp : p.Drawn d)
    (hd : FreshDraws drawn d) (hfam : p.refresh.familyId ∈ drawn ++ draw d)
    (ho : p.refresh.familyId ∉ drawn ∨
      g.owner p.refresh.familyId = ⟨p.accountId, p.refresh.deviceId⟩)
    (hlinks : ∀ a ∈ st.accounts, ∀ t ∈ a.retiredRefreshTokens, t.digest ∈ p.successorOf →
      t.familyId = p.refresh.familyId) :
    ∃ g', g.Extends g' drawn ∧ Recorded g' (drawn ++ draw d) st' ∧
      g'.family d.refreshToken = g'.family d.accessToken := by
  have hpre : p.refresh.digest.preimage = d.refreshToken := congrArg Digest.preimage hp.refresh
  have he : g.Extends (g.enter d p.refresh.familyId ⟨p.accountId, p.refresh.deviceId⟩) drawn :=
    Registry.extends_enter (hd.2.1 _ (by simp [draw])) (hd.2.1 _ (by simp [draw])) ho
  refine ⟨g.enter d p.refresh.familyId ⟨p.accountId, p.refresh.deviceId⟩, he,
    (h.mono he (subset_append_left _ _)).issues hi ?_ ?_ hlinks, ?_⟩
  · rw [hpre]
    exact ⟨by simp [draw], Registry.family_enter_refresh, hfam, Registry.owner_enter⟩
  · rw [hp.access]
    exact ⟨by simp [draw], Registry.family_enter_access, hfam, Registry.owner_enter⟩
  · rw [Registry.family_enter_refresh, Registry.family_enter_access]

theorem retire {a : AccountRecord} {r : RefreshTokenRecord}
    (ha : a ∈ st.accounts) (hr : r ∈ a.refreshTokens) (key : Option Digest) :
    Recorded g drawn (st.retire a.accountId r key now) :=
  ⟨h.accounts.retire ha hr key, h.file, h.access⟩

theorem append {a : AccountRecord} (hlive : a.refreshTokens = [])
    (hretired : a.retiredRefreshTokens = []) :
    Recorded g drawn { st with accounts := st.accounts ++ [a] } := by
  have hsplit {b : AccountRecord} (hb : b ∈ st.accounts ++ [a]) : b ∈ st.accounts ∨ b = a :=
    (mem_append.mp hb).imp_right mem_singleton.mp
  refine ⟨⟨fun b hb r hr => ?_, fun b hb t ht => ?_, fun b hb t ht => ?_⟩, h.file, h.access⟩
  · rcases hsplit hb with hb | rfl
    · exact h.accounts.live b hb r hr
    · rw [hlive] at hr
      cases hr
  · rcases hsplit hb with hb | rfl
    · exact h.accounts.retired b hb t ht
    · rw [hretired] at ht
      cases ht
  · rcases hsplit hb with hb | rfl
    · exact h.accounts.successor b hb t ht
    · rw [hretired] at ht
      cases ht

/-- **Every call keeps what is known**, and the two tokens it draws are of one family. -/
theorem shape {gone : Option (Text × RefreshTokenRecord)}
    (hs : Shape now d st gone st') (hd : FreshDraws drawn d) :
    ∃ g', g.Extends g' drawn ∧ Recorded g' (drawn ++ draw d) st' ∧
      g'.family d.refreshToken = g'.family d.accessToken := by
  have hmem : d.familyId ∈ drawn ++ draw d := by simp [draw]
  have hfresh := hd.apart.2.1
  cases hs with
  | issues hp hfam hlinks hi =>
    exact h.enters hi hp hd (hfam ▸ hmem) (.inl (hfam ▸ hfresh)) (by simp [hlinks])
  | registers _ hlive hretired hp _ hfam hlinks hi =>
    exact (h.append hlive hretired).enters hi hp hd (hfam ▸ hmem) (.inl (hfam ▸ hfresh))
      (by simp [hlinks])
  | @condemns a t _ _ _ hl =>
    exact (h.revoke a.accountId t.familyId).enters
      (hl.issues (drawnPair [] none d.familyId 0 [] now d)) ⟨rfl, rfl⟩ hd hmem (.inl hfresh)
      (by simp [drawnPair])
  | @rotates a r p key _ ha hr _ hp hacc hfam hdev hlinks hi =>
    have hknown := h.accounts.live a ha r hr
    have hretire : Recorded g drawn (st.retire a.accountId r key now) := h.retire ha hr key
    refine hretire.enters hi hp hd ?_ (.inr ?_) fun b hb t ht hmem => ?_
    · rw [hfam]
      exact mem_append_left _ hknown.familyDrawn
    · rw [hfam, hacc, hdev]
      exact hknown.ownedBy
    -- a tombstone that is linked anew is of the family of the token just retired
    · rw [hfam, ← h.accounts.family_of_linked ha hr (hlinks _ hmem)]
      exact (hretire.accounts.retired b hb t ht).2.1.symm

end

end Recorded

/-! ## Families without credentials -/

namespace AccountStore

variable {g : Registry} {drawn : List Text} {now : ℕ} {p : Pair} {d : Draws}
  {st st' : AccountStore} {family : Text}

def Barren (l : List AccountRecord) (family : Text) : Prop :=
  ∀ a ∈ l, ∀ r ∈ a.refreshTokens, r.familyId ≠ family

/-- **No credential of a family is left**, in memory or in the file. -/
structure Extinct (st : AccountStore) (family : Text) : Prop where
  dead : st.Dead family
  file : Barren st.file family

theorem Dead.file (h : Dead st family) (hf : Barren st.file family) (hi : Issues now p st st')
    (hne : p.refresh.familyId ≠ family) : Barren st'.file family := by
  rcases hi.file with heq | hissue
  · exact heq ▸ hf
  · exact h.issued hissue hne

theorem Extinct.shape {gone : Option (Text × RefreshTokenRecord)} (h : Extinct st family)
    (hs : Shape now d st gone st') (hne : d.familyId ≠ family) : Extinct st' family := by
  refine ⟨h.dead.shape hs hne, ?_⟩
  cases hs with
  | issues _ hfam _ hi => exact h.dead.file h.file hi (hfam ▸ hne)
  | registers _ hlive _ _ _ hfam _ hi => exact (h.dead.append hlive).file h.file hi (hfam ▸ hne)
  | condemns _ _ hl =>
    exact (h.dead.revoke _).file h.file (hl.issues (drawnPair [] none d.familyId 0 [] now d)) hne
  | rotates ha hr _ _ _ hfam _ _ hi =>
    exact (h.dead.retire _ _).file h.file hi (hfam ▸ h.dead.1 _ ha _ hr)

theorem Dead.refuses_access (h : Dead st family) (hr : Recorded g drawn st) {token : Text}
    (hf : g.family token = family) (now : ℕ) (save : Option ControlPlaneError) :
    (st.authorizeAccess token now save).2 = none := by
  unfold authorizeAccess
  split
  · rfl
  · next record hrec => exact absurd ((hr.access _ _ hrec).inFamily.symm.trans hf) (h.2 _ _ hrec)

theorem Dead.refuses_refresh (h : Dead st family) (hr : Recorded g drawn st) {token : Text}
    (hf : g.family token = family) (retryKey : Option Text) (now : ℕ) (d : Draws) :
    ∃ e, (st.refreshWithRetryKey token retryKey now d).2 = .error e := by
  obtain ⟨gone, hR⟩ := st.refreshed_refresh token retryKey now d
  generalize st.refreshWithRetryKey token retryKey now d = o at hR
  cases hR with
  | malformed | condemned | unknown | expired => exact ⟨_, rfl⟩
  | rotated _ hroute hlive =>
    -- directly or as a retry, the token leads to a live one of its own family
    obtain ⟨a, ha, -, hmem, hdig⟩ := findLive_some hlive
    have hfam := hr.accounts.family_of_linked ha hmem (hroute.linked hdig)
    exact absurd (hfam.symm.trans hf) (h.1 a ha _ hmem)

/-! ## A device is cut off -/

structure Cleared (st : AccountStore) (accountId deviceId : Text) : Prop where
  live : ∀ a ∈ st.accounts, a.accountId = accountId → ∀ r ∈ a.refreshTokens,
    r.deviceId ≠ some deviceId
  access : ∀ k r, st.accessTokens.lookup k = some r → r.principal ≠ ⟨accountId, some deviceId⟩
  saved : st.file = st.accounts

theorem cleared_invalidate (st : AccountStore) (accountId deviceId : Text) :
    Cleared ((st.invalidateDeviceTokens accountId deviceId).save none).1 accountId deviceId := by
  refine ⟨fun a ha hid r hr => ?_, fun k r hr heq => ?_, rfl⟩
  · rcases mem_modify ha with ⟨-, hne⟩ | ⟨b, -, -, rfl⟩
    · exact absurd hid hne
    · simpa using (mem_filter.mp hr).2
  · have hr : (Table.retain (fun _ t => t.principal.accountId ≠ accountId ||
        t.principal.deviceId ≠ some deviceId) st.accessTokens).lookup k = some r := hr
    rw [Table.lookup_retain, Option.filter_eq_some_iff] at hr
    simp [heq] at hr

variable {accountId : Text} {deviceId : Text}

theorem cleared_setDeviceTrust {trust : DeviceTrust} {x : PublicDevice}
    (h : (st.setDeviceTrust accountId deviceId trust now d).2 = .ok x) (ht : trust ≠ .trusted) :
    Cleared (st.setDeviceTrust accountId deviceId trust now d).1 accountId deviceId := by
  unfold setDeviceTrust at h ⊢
  split at h
  · cases h
  simp only [if_pos ht] at h ⊢
  cases hs : d.save with
  | none => exact cleared_invalidate _ _ _
  | some e =>
    rw [hs] at h
    cases h

theorem cleared_removeDevice {x : Unit}
    (h : (st.removeDevice accountId deviceId d).2 = .ok x) :
    Cleared (st.removeDevice accountId deviceId d).1 accountId deviceId := by
  unfold removeDevice at h ⊢
  split at h
  · cases h
  cases hs : d.save with
  | none => exact cleared_invalidate _ _ _
  | some e =>
    simp only [hs] at h
    cases h

theorem Cleared.extinct (h : Cleared st accountId deviceId)
    (hr : Recorded g drawn st) (ho : g.owner family = ⟨accountId, some deviceId⟩) :
    Extinct st family := by
  have hbarren : Barren st.accounts family := by
    intro a ha r hmem heq
    have howner := ((hr.accounts.live a ha r hmem).ownedBy.symm.trans (heq ▸ ho))
    rw [AccountPrincipal.mk.injEq] at howner
    exact h.live a ha howner.1 r hmem howner.2
  refine ⟨⟨hbarren, fun k r hk heq => ?_⟩, h.saved ▸ hbarren⟩
  exact h.access k r hk ((hr.access k r hk).ownedBy.symm.trans (heq ▸ ho))

/-! ## What an answer carries -/

def Minted (d : Draws) (st : AccountStore) (token : Text) (user : PublicUser)
    (device : Option PublicDevice) : Prop :=
  token = d.accessToken ∧ ∃ r, st.accessTokens.lookup (tokenDigest d.accessToken) = some r ∧
    r.principal.accountId = user.accountId ∧ ∀ x ∈ device, r.principal.deviceId = some x.deviceId

/-- If a call is answered with tokens, they are the ones drawn. -/
structure Mints (d : Draws) (o : Outcome IssuedTokens) : Prop where
  access : ∀ i, o.2 = .ok i → Minted d o.1 i.accessToken i.user i.device
  refresh : ∀ i, o.2 = .ok i → i.refreshToken = d.refreshToken

theorem mints_error (st : AccountStore) (e : ControlPlaneError) : Mints d (st, .error e) :=
  ⟨nofun, nofun⟩

theorem Mints.andThen {α : Type} {r : Outcome α} {f : AccountStore → α → Outcome IssuedTokens}
    (hf : ∀ st a, Mints d (f st a)) : Mints d (r.andThen f) := by
  obtain ⟨st', e | a⟩ := r
  · exact mints_error st' e
  · exact hf st' a

theorem deviceId_of_bind {account : AccountRecord} {deviceId : Option Text} {x : PublicDevice}
    (hx : x ∈ (deviceId.bind account.device).map publicDevice) : deviceId = some x.deviceId := by
  obtain ⟨device, hdev, rfl⟩ := Option.map_eq_some_iff.mp hx
  obtain ⟨id, rfl, hget⟩ := Option.bind_eq_some_iff.mp hdev
  exact congrArg some (key_of_get hget).symm

theorem mints_issueTokensInFamily (st : AccountStore) (accountId : Text) (deviceId : Option Text)
    (familyId : Text) (generation : ℕ) (successorOf : List Digest) (now : ℕ) (d : Draws)
    (save : Option ControlPlaneError) : Mints d
      (st.issueTokensInFamily accountId deviceId familyId generation successorOf now d save) := by
  unfold issueTokensInFamily
  simp only
  split
  · exact mints_error _ _
  · next account hacc =>
    cases save with
    | none =>
      refine ⟨fun i hi => ?_, fun i hi => ?_⟩
      · cases hi
        exact ⟨rfl, _, AList.lookup_insert _, (key_of_get hacc).symm,
          fun x hx => deviceId_of_bind hx⟩
      · cases hi
        rfl
    | some e => exact mints_error _ _

theorem mints_registerDerived (st : AccountStore) (username : Text) (salt derived : ℕ)
    (device : Option DeviceRegistration) (requireEmpty : Bool) (now : ℕ) (d : Draws) :
    Mints d (st.registerDerived username salt derived device requireEmpty now d) := by
  unfold registerDerived
  split_ifs
  · exact mints_error _ _
  · exact mints_error _ _
  · exact mints_error _ _
  · exact mints_error _ _
  · simp only
    split
    · exact .andThen fun st _ => st.mints_issueTokensInFamily ..
    · split_ifs
      · exact mints_error _ _
      · split
        · exact mints_error _ _
        · exact .andThen fun st _ => st.mints_issueTokensInFamily ..

theorem mints_loginDerived (st : AccountStore) (username : Text) (salt derived : ℕ)
    (device : Option DeviceRegistration) (now : ℕ) (d : Draws) :
    Mints d (st.loginDerived username salt derived device now d) := by
  unfold loginDerived
  split_ifs
  · exact mints_error _ _
  · split
    · exact mints_error _ _
    · split_ifs
      · exact mints_error _ _
      · exact mints_error _ _
      · exact .andThen fun st _ => .andThen fun st _ => st.mints_issueTokensInFamily ..

theorem mints_rotate (st : AccountStore) (digest : Digest) (relink : List Digest)
    (key : Option Digest) (now : ℕ) (d : Draws) : Mints d (st.rotate digest relink key now d) := by
  unfold rotate
  simp only
  split
  · exact mints_error _ _
  · split
    · exact .andThen fun st _ => mints_error st _
    · unfold completeRotation
      split
      · exact .andThen fun st _ => st.mints_issueTokensInFamily ..
      · split
        · exact mints_error _ _
        · exact .andThen fun st _ => st.mints_issueTokensInFamily ..
        · exact .andThen fun st _ => mints_error st _
        · exact .andThen fun st _ => mints_error st _

theorem mints_refresh (st : AccountStore) (token : Text) (retryKey : Option Text) (now : ℕ)
    (d : Draws) : Mints d (st.refreshWithRetryKey token retryKey now d) := by
  unfold refreshWithRetryKey
  split
  · exact mints_error _ _
  · simp only
    split
    · exact st.mints_rotate ..
    · split
      · exact st.mints_rotate ..
      · exact .andThen fun st _ => mints_error st _

theorem minted_commitDeviceAuth {x : DeviceProof} {c : DeviceCredential}
    (h : (st.commitDeviceAuth x.accountId x.deviceId x.verifiedAgainst x.issuedAtMs x.nonce now
      d).2 = .ok c) :
    Minted d (st.commitDeviceAuth x.accountId x.deviceId x.verifiedAgainst x.issuedAtMs x.nonce now
      d).1 c.accessToken c.user (some c.device) := by
  have hissue {st : AccountStore} (h : (st.issueDeviceAccess x.accountId x.deviceId now d).2 = .ok c) :
      Minted d (st.issueDeviceAccess x.accountId x.deviceId now d).1 c.accessToken c.user
        (some c.device) := by
    unfold issueDeviceAccess at h ⊢
    split at h
    · cases h
    next account hacc =>
    split at h
    · cases h
    next device hdev =>
    cases h
    refine ⟨rfl, _, AList.lookup_insert _, (key_of_get hacc).symm, fun y hy => ?_⟩
    cases hy
    exact congrArg some (key_of_get hdev).symm
  unfold commitDeviceAuth at h ⊢
  split_ifs at h ⊢
  simp only at h ⊢
  split_ifs at h ⊢
  · exact hissue h
  · exact hissue h

end AccountStore

/-! ## The store through calls and restarts -/

/-- Tokens as an answer carries them, with the account and the device it names. -/
structure Issue where
  accessToken : Text
  /-- A device proof is answered with an access token alone. -/
  refreshToken : Option Text
  accountId : Text
  deviceId : Option Text
  deriving DecidableEq

def Issue.tokens (i : Issue) : List Text := i.accessToken :: i.refreshToken.toList

def Reply.issue : Reply → Option Issue
  | .issued (.ok i) => some
    ⟨i.accessToken, some i.refreshToken, i.user.accountId, i.device.map PublicDevice.deviceId⟩
  | .credential (.ok c) => some ⟨c.accessToken, none, c.user.accountId, some c.device.deviceId⟩
  | _ => none

structure Cut where
  accountId : Text
  deviceId : Text
  before : List Issue
  deriving DecidableEq

def Call.cuts : Call → Reply → Option (Text × Text)
  | .setTrust accountId deviceId trust, .device (.ok _) =>
    if trust = .trusted then none else some (accountId, deviceId)
  | .remove accountId deviceId, .done (.ok _) => some (accountId, deviceId)
  | _, _ => none

def AccountStore.reopen (st : AccountStore) : AccountStore := ⟨st.file, ∅, ∅, st.file⟩

/-- The store, and what has happened to it. -/
structure Vault where
  store : AccountStore
  drawn : List Text
  issued : List Issue
  cuts : List Cut

inductive VaultAction
  | call (e : Event)
  | reopen

namespace Vault

def after (s : Vault) (e : Event) : Vault :=
  let r := s.store.call e.now e.draws e.call
  { store := r.1
    drawn := s.drawn ++ Service.draw e.draws
    issued := s.issued ++ r.2.issue.toList
    cuts := s.cuts ++ (e.call.cuts r.2).toList.map fun x => ⟨x.1, x.2, s.issued⟩ }

/-- The identifiers drawn are new. -/
def Fresh (s : Vault) : VaultAction → Prop
  | .call e => AccountStore.FreshDraws s.drawn e.draws
  | .reopen => True

instance (s : Vault) (a : VaultAction) : Decidable (Fresh s a) := by
  cases a
  · exact inferInstanceAs (Decidable (AccountStore.FreshDraws _ _))
  · exact inferInstanceAs (Decidable True)

end Vault

/-- The store on a new file. -/
def vault : Runs.Machine Vault VaultAction where
  start := ⟨.empty, [], [], []⟩
  step := fun s a => some <| match a with
    | .call e => s.after e
    | .reopen => { s with store := s.store.reopen }

namespace Vault

open AccountStore

variable {s : Vault} {g : Registry} {e : Event}

structure Traced (g : Registry) (drawn : List Text) (i : Issue) : Prop where
  access : i.accessToken ∈ drawn ∧ g.family i.accessToken ∈ drawn
  refresh : ∀ t ∈ i.refreshToken, t ∈ drawn ∧ g.family t = g.family i.accessToken
  owner : ∀ x ∈ i.deviceId, g.owner (g.family i.accessToken) = ⟨i.accountId, some x⟩

theorem Traced.mono {g' : Registry} {drawn drawn' : List Text} {i : Issue} (h : Traced g drawn i)
    (he : g.Extends g' drawn) (hd : drawn ⊆ drawn') : Traced g' drawn' i := by
  have hacc := (he _ h.access.1).1
  refine ⟨⟨hd h.access.1, hacc ▸ hd h.access.2⟩, fun t ht => ?_, fun x hx => ?_⟩
  · obtain ⟨htok, hfam⟩ := h.refresh t ht
    exact ⟨hd htok, by rw [(he t htok).1, hfam, hacc]⟩
  · rw [hacc, (he _ h.access.2).2]
    exact h.owner x hx

theorem Traced.family {drawn : List Text} {i : Issue} (h : Traced g drawn i) {token : Text}
    (ht : token ∈ i.tokens) : g.family token = g.family i.accessToken := by
  rcases mem_cons.mp ht with rfl | ht
  · rfl
  · exact (h.refresh token (Option.mem_toList.mp ht)).2

/-- **What every run keeps**: the families of a device that was cut off have no credential left. -/
structure Final (g : Registry) (s : Vault) : Prop where
  recorded : Recorded g s.drawn s.store
  issued : ∀ i ∈ s.issued, Traced g s.drawn i
  before : ∀ c ∈ s.cuts, c.before ⊆ s.issued
  extinct : ∀ c ∈ s.cuts, ∀ i ∈ c.before, i.accountId = c.accountId →
    i.deviceId = some c.deviceId → s.store.Extinct (g.family i.accessToken)

variable (st : AccountStore)

theorem shape_after (e : Event) : ∃ nonces gone,
    Shape e.now e.draws { st with deviceAuthNonces := nonces } gone
      (st.call e.now e.draws e.call).1 := by
  by_cases hp : ∃ p, e.call = .proof p
  · obtain ⟨p, hp⟩ := hp
    obtain ⟨nonces, hs⟩ := st.shape_commitDeviceAuth p e.now e.draws
    exact ⟨nonces, none, by simpa [AccountStore.call, hp] using hs⟩
  · obtain ⟨gone, hs, -⟩ := st.shape_call e fun p he => hp ⟨p, he⟩
    exact ⟨st.deviceAuthNonces, gone, hs⟩

theorem minted_issue (e : Event) {i : Issue}
    (hi : i ∈ (st.call e.now e.draws e.call).2.issue) :
    i.accessToken = e.draws.accessToken ∧ (∀ t ∈ i.refreshToken, t = e.draws.refreshToken) ∧
      ∃ r, (st.call e.now e.draws e.call).1.accessTokens.lookup
          (tokenDigest e.draws.accessToken) = some r ∧
        r.principal.accountId = i.accountId ∧ ∀ x ∈ i.deviceId, r.principal.deviceId = some x := by
  have hmints {o : Outcome IssuedTokens} (ho : Mints e.draws o) (hi : i ∈ (Reply.issued o.2).issue) :
      i.accessToken = e.draws.accessToken ∧ (∀ t ∈ i.refreshToken, t = e.draws.refreshToken) ∧
        ∃ r, o.1.accessTokens.lookup (tokenDigest e.draws.accessToken) = some r ∧
          r.principal.accountId = i.accountId ∧
            ∀ x ∈ i.deviceId, r.principal.deviceId = some x := by
    obtain ⟨st', err | y⟩ := o
    · cases hi
    cases hi
    obtain ⟨hacc, r, hr, hid, hdev⟩ := ho.access y rfl
    refine ⟨hacc, fun t ht => ?_, r, hr, hid, fun x hx => ?_⟩
    · cases ht
      exact ho.refresh y rfl
    · obtain ⟨z, hz, rfl⟩ := Option.map_eq_some_iff.mp hx
      exact hdev z hz
  obtain ⟨c, now, d⟩ := e
  cases c with
  | register => exact hmints (mints_registerDerived ..) hi
  | login => exact hmints (mints_loginDerived ..) hi
  | refresh => exact hmints (mints_refresh ..) hi
  | proof x =>
    have hcommit (c : DeviceCredential)
        (h : (st.commitDeviceAuth x.accountId x.deviceId x.verifiedAgainst x.issuedAtMs x.nonce now
          d).2 = .ok c) := minted_commitDeviceAuth h
    simp only [AccountStore.call, Prod.map_snd, Prod.map_fst, id] at hi ⊢
    generalize st.commitDeviceAuth x.accountId x.deviceId x.verifiedAgainst x.issuedAtMs x.nonce now
      d = o at hi hcommit
    obtain ⟨st', err | y⟩ := o
    · cases hi
    cases hi
    obtain ⟨hacc, r, hr, hid, hdev⟩ := hcommit y rfl
    refine ⟨hacc, fun t ht => (by cases ht), r, hr, hid, fun z hz => ?_⟩
    cases hz
    exact hdev _ rfl
  | _ => cases hi

theorem cleared_cuts (e : Event) {x : Text × Text}
    (hx : x ∈ e.call.cuts (st.call e.now e.draws e.call).2) :
    Cleared (st.call e.now e.draws e.call).1 x.1 x.2 := by
  obtain ⟨c, now, d⟩ := e
  cases c with
  | setTrust accountId deviceId trust =>
    simp only [AccountStore.call, Prod.map_snd] at hx
    cases ho : (st.setDeviceTrust accountId deviceId trust now d).2 with
    | error err =>
      rw [ho] at hx
      cases hx
    | ok y =>
      rw [ho, Call.cuts] at hx
      split_ifs at hx with ht
      · cases hx
      · cases hx
        exact cleared_setDeviceTrust ho ht
  | remove accountId deviceId =>
    simp only [AccountStore.call, Prod.map_snd] at hx
    cases ho : (st.removeDevice accountId deviceId d).2 with
    | error err =>
      rw [ho] at hx
      cases hx
    | ok y =>
      rw [ho] at hx
      cases hx
      exact cleared_removeDevice ho
  | _ => cases hx

theorem Final.after (h : Final g s) (hf : FreshDraws s.drawn e.draws) :
    ∃ g', Final g' (s.after e) := by
  obtain ⟨nonces, gone, hs⟩ := shape_after s.store e
  have hrec : Recorded g s.drawn { s.store with deviceAuthNonces := nonces } :=
    ⟨h.recorded.accounts, h.recorded.file, h.recorded.access⟩
  obtain ⟨g', he, hrec', hpair⟩ := hrec.shape hs hf
  have hsub : s.drawn ⊆ (s.after e).drawn := subset_append_left _ _
  have hold : ∀ i ∈ s.issued, Traced g' (s.after e).drawn i := fun i hi => (h.issued i hi).mono he hsub
  refine ⟨g', hrec', fun i hi => ?_, fun c hc => ?_, fun c hc i hi hid hdev => ?_⟩
  · rcases mem_append.mp hi with hi | hi
    · exact hold i hi
    · obtain ⟨hacc, href, r, hr, hid, hdev⟩ := minted_issue s.store e (Option.mem_toList.mp hi)
      have hknown := hrec'.access _ r hr
      have hfam : g'.family e.draws.accessToken = r.familyId := hknown.inFamily
      refine ⟨hacc ▸ ⟨hknown.tokenDrawn, hfam ▸ hknown.familyDrawn⟩, fun t ht => ?_, fun x hx => ?_⟩
      · rw [href t ht, hacc]
        exact ⟨mem_append_right _ (by simp [draw]), hpair⟩
      · rw [hacc, hfam, hknown.ownedBy, ← hid, ← hdev x hx]
  · rcases mem_append.mp hc with hc | hc
    · exact List.Subset.trans (h.before c hc) (subset_append_left _ _)
    · obtain ⟨x, -, rfl⟩ := mem_map.mp hc
      exact subset_append_left _ _
  · rcases mem_append.mp hc with hc | hc
    · have htraced := h.issued i (h.before c hc hi)
      rw [(he _ htraced.access.1).1]
      have hext := h.extinct c hc i hi hid hdev
      have hext' : Extinct { s.store with deviceAuthNonces := nonces } (g.family i.accessToken) :=
        ⟨hext.dead, hext.file⟩
      refine hext'.shape hs fun heq => ?_
      exact hf.2.1 e.draws.familyId (by simp [draw]) (heq ▸ htraced.access.2)
    · obtain ⟨x, hx, rfl⟩ := mem_map.mp hc
      refine (cleared_cuts s.store e (Option.mem_toList.mp hx)).extinct hrec' ?_
      rw [(hold i hi).owner _ hdev, hid]

theorem Final.reopen (h : Final g s) : Final g { s with store := s.store.reopen } where
  recorded := ⟨h.recorded.file, h.recorded.file, nofun⟩
  __ := h
  extinct c hc i hi hid hdev :=
    have hfile := (h.extinct c hc i hi hid hdev).file
    ⟨⟨hfile, nofun⟩, hfile⟩

theorem final_of_reach (h : vault.ReachVia Fresh s) : ∃ g, Final g s := by
  refine h.invariant (I := fun s => ∃ g, Final g s) ⟨⟨fun _ => [], fun _ => ⟨[], none⟩⟩, ?_⟩ ?_
  · refine ⟨⟨⟨?_, ?_, ?_⟩, ⟨?_, ?_, ?_⟩, ?_⟩, ?_, ?_, ?_⟩
    case refine_7 => exact nofun
    all_goals
      intro x hx
      cases hx
  · rintro s (e | -) s' ⟨g, hg⟩ hf hst
    · cases hst
      exact hg.after hf
    · cases hst
      exact ⟨g, hg.reopen⟩

/-- **Revocation is final**: in every run with new identifiers, through any calls and restarts, no
token issued to a device before it was cut off is accepted again. -/
theorem cut_final (h : vault.ReachVia Fresh s) {c : Cut} (hc : c ∈ s.cuts) {i : Issue}
    (hi : i ∈ c.before) (hid : i.accountId = c.accountId) (hdev : i.deviceId = some c.deviceId)
    {token : Text} (ht : token ∈ i.tokens) (now : ℕ) (retryKey : Option Text) (d : Draws) :
    (s.store.authorizeAccess token now d.save).2 = none ∧
      ∃ e, (s.store.refreshWithRetryKey token retryKey now d).2 = .error e := by
  obtain ⟨g, hg⟩ := final_of_reach h
  have hdead := (hg.extinct c hc i hi hid hdev).dead
  have hfam := (hg.issued i (hg.before c hc hi)).family ht
  exact ⟨hdead.refuses_access hg.recorded hfam now d.save,
    hdead.refuses_refresh hg.recorded hfam retryKey now d⟩

/-- The laptop signs up, is revoked and trusted again, and the store restarts. -/
def trustedAgain : List VaultAction :=
  let device : DeviceRegistration := ⟨['l'], ['l'], ['o', 's'], 1⟩
  [.call ⟨.register ['a', 'd', 'a'] 1 2 (some device) false, 0,
      ⟨['1'], ['2'], ['3'], ['4'], some 7, none, none⟩⟩,
    .call ⟨.setTrust ['1'] ['l'] .revoked, 1000, ⟨['5'], ['6'], ['7'], ['8'], none, none, none⟩⟩,
    .call ⟨.setTrust ['1'] ['l'] .trusted, 2000, ⟨['9'], ['a'], ['b'], ['c'], none, none, none⟩⟩,
    .reopen]

/-- Its first tokens are refused. -/
theorem cut_final_laptop : ∃ s, vault.ReachVia Fresh s ∧
    s.store.trustOf ['1'] ['l'] = some .trusted ∧
    (∃ c ∈ s.cuts, ∃ i ∈ c.before, i.tokens = [['3'], ['4']] ∧ i.accountId = c.accountId ∧
      i.deviceId = some c.deviceId) ∧
    (s.store.authorizeAccess ['3'] 3000 none).2 = none ∧
    ∃ e, (s.store.refreshWithRetryKey ['4'] none 3000
      ⟨['d'], ['e'], ['f'], ['g'], none, none, none⟩).2 = .error e := by
  obtain ⟨s, hs, htrust, c, hc, i, hi, htok, hid, hdev⟩ := vault.exists_reachVia Fresh trustedAgain
    (fun s => s.store.trustOf ['1'] ['l'] = some .trusted ∧
      ∃ c ∈ s.cuts, ∃ i ∈ c.before, i.tokens = [['3'], ['4']] ∧ i.accountId = c.accountId ∧
        i.deviceId = some c.deviceId) (by decide +kernel)
  have hfinal {token : Text} (ht : token ∈ i.tokens) := cut_final hs hc hi hid hdev ht 3000 none
    ⟨['d'], ['e'], ['f'], ['g'], none, none, none⟩
  exact ⟨s, hs, htrust, ⟨c, hc, i, hi, htok, hid, hdev⟩, (hfinal (by simp [htok])).1,
    (hfinal (by simp [htok])).2⟩

end Vault

end OpenStream.Account
