import OpenStream.Account.Effects
import Mathlib.Logic.Function.Basic

/-!
# Refresh tokens that were rotated away

A rotated token is kept as a tombstone, and presenting it again condemns its family. The tombstone
has the expiry of the token, while each rotation gives the family a token with a later one.

* **`Service.theft_caught`**
-/

namespace OpenStream.Account

open Option Service AccountStore Keyed
open List (append_nil mem_append mem_append_left mem_append_right mem_map mem_singleton)

namespace AccountStore

variable {f : AccountRecord → AccountRecord} {a : AccountRecord} {digest : Digest}
  {r : RefreshTokenRecord}

/-- No credential of a family is left. -/
def Dead (st : AccountStore) (family : Text) : Prop :=
  (∀ a ∈ st.accounts, ∀ r ∈ a.refreshTokens, r.familyId ≠ family) ∧
    ∀ k r, st.accessTokens.lookup k = some r → r.familyId ≠ family

variable {now : ℕ} {d : Draws} {st st' : AccountStore} {family id : Text} {p : Pair}

/-! ## A dead family stays dead -/

section

variable (h : Dead st family)

include h

theorem Dead.issued {l : List AccountRecord}
    (hi : List.Forall₂ (AccountRecord.Issues now p) st.accounts l) (hne : p.refresh.familyId ≠ family) :
    ∀ a ∈ l, ∀ r ∈ a.refreshTokens, r.familyId ≠ family := by
  intro a' ha' r hr
  obtain ⟨a, ha, hissue⟩ := exists_left hi ha'
  rcases hissue.live with hl | ⟨-, hl⟩
  · exact h.1 a ha r (hl.subset hr)
  · rcases mem_append.mp (hl.subset hr) with hr | hr
    · exact h.1 a ha r hr
    · exact mem_singleton.mp hr ▸ hne

theorem Dead.issues (hi : Issues now p st st')
    (hne : p.refresh.familyId ≠ family) : Dead st' family := by
  refine ⟨h.issued hi.accounts hne, fun k r hr => ?_⟩
  rcases hi.access k r hr with hr | ⟨-, hf, -⟩
  · exact h.2 k r hr
  · exact hf ▸ hne

theorem Dead.modify
    (hf : ∀ a, (f a).refreshTokens ⊆ a.refreshTokens) : Dead (st.modifyAccount id f) family := by
  refine ⟨fun a ha r hr => ?_, h.2⟩
  rcases mem_modify ha with ⟨ha, -⟩ | ⟨b, hb, -, rfl⟩
  · exact h.1 a ha r hr
  · exact h.1 b hb r (hf b hr)

theorem Dead.append (ha : a.refreshTokens = []) :
    Dead { st with accounts := st.accounts ++ [a] } family := by
  refine ⟨List.forall_mem_concat h.1 fun r hr => ?_, h.2⟩
  rw [ha] at hr
  exact (List.not_mem_nil hr).elim

theorem Dead.retire (r : RefreshTokenRecord) (key : Option Digest) :
    Dead (st.retire id r key now) family :=
  h.modify fun _ => List.eraseP_subset

theorem Dead.retain (p : Digest → AccessTokenRecord → Bool) :
    Dead { st with accessTokens := Table.retain p st.accessTokens } family := by
  refine ⟨h.1, fun k r hr => h.2 k r ?_⟩
  rw [Table.lookup_retain, filter_eq_some_iff] at hr
  exact hr.1

theorem Dead.revoke (f : Text) : Dead (st.revokeRefreshFamily id f) family :=
  (h.retain _).modify fun _ => List.filter_subset_self _

theorem Dead.shape {gone : Option (Text × RefreshTokenRecord)}
    (hs : Shape now d st gone st') (hne : d.familyId ≠ family) : Dead st' family := by
  cases hs with
  | issues _ hfam _ hi => exact h.issues hi (hfam ▸ hne)
  | registers _ hlive _ _ _ hfam _ hi => exact (h.append hlive).issues hi (hfam ▸ hne)
  | condemns _ _ hl =>
    exact (h.revoke _).issues (hl.issues (drawnPair [] none d.familyId 0 [] now d)) hne
  | rotates ha hr _ _ _ hfam _ _ hi => exact (h.retire _ _).issues hi (hfam ▸ h.1 _ ha _ hr)

end

/-! ## Owners and evidence -/

/-- Who a refresh token was issued to, in which family and until when; and whose family it is. -/
structure Book where
  token : Text → Text × Text × ℕ
  family : Text → Text

/-- A refresh token of the account `id` is as the book has it. -/
structure Book.Has (b : Book) (drawn : List Text) (id : Text) (digest : Digest) (family : Text)
    (expiry : ℕ) : Prop where
  tokenDrawn : digest.preimage ∈ drawn
  valid : validToken digest.preimage = true
  token : b.token digest.preimage = (id, family, expiry)
  familyDrawn : family ∈ drawn
  owner : b.family family = id

abbrev Book.Live (b : Book) (drawn : List Text) (id : Text) (r : RefreshTokenRecord) : Prop :=
  b.Has drawn id r.digest r.familyId r.expiresAtMs

/-- The tombstone of a rotated token. -/
def Tomb (st : AccountStore) (r : RefreshTokenRecord) : Prop :=
  ∃ a ∈ st.accounts, ∃ t ∈ a.retiredRefreshTokens, t.key = (r.digest, r.familyId, r.expiresAtMs)

/-- The store agrees with a book, and every rotated token has left evidence. A token of the family
`busy` is about to be issued. -/
structure Sound (b : Book) (drawn : List Text) (now : ℕ) (busy : Option Text)
    (rotated : List (Text × RefreshTokenRecord)) (st : AccountStore) : Prop where
  ids : (st.accounts.map AccountRecord.accountId).Nodup
  idDrawn : ∀ a ∈ st.accounts, a.accountId ∈ drawn
  live : ∀ a ∈ st.accounts, ∀ r ∈ a.refreshTokens, b.Live drawn a.accountId r
  nodup : ∀ a ∈ st.accounts, (a.refreshTokens.map RefreshTokenRecord.digest).Nodup
  retired : ∀ a ∈ st.accounts, ∀ t ∈ a.retiredRefreshTokens,
    b.Has drawn a.accountId t.digest t.familyId t.expiresAtMs
  bound : ∀ a ∈ st.accounts, a.tombs now ≤ MAX_RETIRED_REFRESH_TOKENS_PER_ACCOUNT
  access : ∀ k r, st.accessTokens.lookup k = some r →
    r.familyId ∈ drawn ∧ b.family r.familyId = r.principal.accountId
  gone : ∀ x ∈ rotated, b.Live drawn x.1 x.2 ∧
    ∀ a ∈ st.accounts, ∀ r ∈ a.refreshTokens, r.digest ≠ x.2.digest
  evidence : ∀ x ∈ rotated, now < x.2.expiresAtMs →
    (st.Dead x.2.familyId ∧ busy ≠ some x.2.familyId) ∨ st.Tomb x.2

variable {b : Book} {drawn : List Text} {busy : Option Text}
  {rotated : List (Text × RefreshTokenRecord)}

theorem Book.Has.mono {drawn' : List Text} {expiry : ℕ}
    (h : b.Has drawn id digest family expiry) (hd : drawn ⊆ drawn') :
    b.Has drawn' id digest family expiry :=
  ⟨hd h.tokenDrawn, h.valid, h.token, hd h.familyDrawn, h.owner⟩

theorem Book.Has.unique {id' family' : Text} {expiry expiry' : ℕ}
    (h : b.Has drawn id digest family expiry) (h' : b.Has drawn id' digest family' expiry') :
    id = id' ∧ family = family' ∧ expiry = expiry' := by
  have heq := h.token.symm.trans h'.token
  simpa only [Prod.mk.injEq] using heq

section

variable (h : Sound b drawn now busy rotated st)

include h

theorem Sound.mono {drawn' : List Text}
    (hd : drawn ⊆ drawn') : Sound b drawn' now busy rotated st where
  __ := h
  idDrawn a ha := hd (h.idDrawn a ha)
  live a ha r hr := (h.live a ha r hr).mono hd
  retired a ha t ht := (h.retired a ha t ht).mono hd
  access k r hr := ⟨hd (h.access k r hr).1, (h.access k r hr).2⟩
  gone x hx := ⟨(h.gone x hx).1.mono hd, (h.gone x hx).2⟩

theorem Sound.later {now' : ℕ} (hle : now ≤ now') :
    Sound b drawn now' busy rotated st where
  __ := h
  bound a ha := by
    refine le_trans (List.Sublist.length_le ?_) (h.bound a ha)
    refine List.monotone_filter_right _ fun t ht => ?_
    simp only [decide_eq_true_eq] at ht ⊢
    omega
  evidence x hx hexp := h.evidence x hx (by omega)

theorem Sound.forget
    {rotated' : List (Text × RefreshTokenRecord)} (hr : rotated' ⊆ rotated) :
    Sound b drawn now busy rotated' st where
  __ := h
  gone x hx := h.gone x (hr hx)
  evidence x hx := h.evidence x (hr hx)

/-! ## What keeps the evidence -/

theorem Sound.openFamily (hf : family ∉ drawn) (id : Text) :
    Sound { b with family := Function.update b.family family id } (drawn ++ [family]) now
      (some family) rotated st := by
  have hkeep {f : Text} (hd : f ∈ drawn) : Function.update b.family family id f = b.family f := by
    have hne : f ≠ family := fun he => hf (he ▸ hd)
    exact Function.update_of_ne hne _ _
  have hhas {id' : Text} {digest : Digest} {f : Text} {expiry : ℕ}
      (hb : b.Has drawn id' digest f expiry) :
      Book.Has { b with family := Function.update b.family family id } (drawn ++ [family]) id' digest
        f expiry :=
    ⟨mem_append_left _ hb.tokenDrawn, hb.valid, hb.token, mem_append_left _ hb.familyDrawn,
      (hkeep hb.familyDrawn).trans hb.owner⟩
  refine ⟨h.ids, fun a ha => mem_append_left _ (h.idDrawn a ha),
    fun a ha r hr => hhas (h.live a ha r hr), h.nodup, fun a ha t ht => hhas (h.retired a ha t ht),
    h.bound, fun k r hr => ?_, fun x hx => ⟨hhas (h.gone x hx).1, (h.gone x hx).2⟩,
    fun x hx hexp => (h.evidence x hx hexp).imp_left fun hd => ⟨hd.1, ?_⟩⟩
  · obtain ⟨hd, ho⟩ := h.access k r hr
    exact ⟨mem_append_left _ hd, (hkeep hd).trans ho⟩
  · intro he
    exact hf (some.inj he ▸ (h.gone x hx).1.familyDrawn)

end

theorem mem_issues {a' : AccountRecord} (hi : Issues now p st st')
    (ha' : a' ∈ st'.accounts) (hr : r ∈ a'.refreshTokens) :
    (∃ a ∈ st.accounts, a.accountId = a'.accountId ∧ r ∈ a.refreshTokens) ∨
      (a'.accountId = p.accountId ∧ r = p.refresh) := by
  obtain ⟨a, ha, hissue⟩ := exists_left hi.accounts ha'
  rcases hissue.live with hl | ⟨hid, hl⟩
  · exact .inl ⟨a, ha, hissue.sameId.symm, hl.subset hr⟩
  · rcases mem_append.mp (hl.subset hr) with hr | hr
    · exact .inl ⟨a, ha, hissue.sameId.symm, hr⟩
    · exact .inr ⟨hissue.sameId.trans hid, mem_singleton.mp hr⟩

theorem Tomb.issues (h : st.Tomb r) (hi : Issues now p st st')
    (hb : ∀ a ∈ st.accounts, a.tombs now ≤ MAX_RETIRED_REFRESH_TOKENS_PER_ACCOUNT)
    (hexp : now < r.expiresAtMs) : st'.Tomb r := by
  obtain ⟨a, ha, t, ht, hk⟩ := h
  obtain ⟨a', ha', hissue⟩ := exists_left hi.accounts.flip ha
  have ht' : now < t.expiresAtMs := by
    have heq : t.expiresAtMs = r.expiresAtMs := congrArg (·.2.2) hk
    rwa [heq]
  obtain ⟨t', hmem, hk'⟩ := hissue.evidence (hb a ha) t ht ht'
  exact ⟨a', ha', t', hmem, hk'.trans hk⟩

theorem Sound.issues (h : Sound b drawn now (some p.refresh.familyId) rotated st)
    (hi : Issues now p st st') (hnew : p.refresh.digest.preimage ∉ drawn)
    (hvalid : validToken p.refresh.digest.preimage = true) (hfam : p.refresh.familyId ∈ drawn)
    (hown : b.family p.refresh.familyId = p.accountId) :
    ∃ b', Sound b' (drawn ++ [p.refresh.digest.preimage]) now none rotated st' := by
  let b' : Book := { b with
    token := Function.update b.token p.refresh.digest.preimage
      (p.accountId, p.refresh.familyId, p.refresh.expiresAtMs) }
  have hhas {id' : Text} {digest : Digest} {f : Text} {expiry : ℕ}
      (hb : b.Has drawn id' digest f expiry) :
      b'.Has (drawn ++ [p.refresh.digest.preimage]) id' digest f expiry := by
    refine ⟨mem_append_left _ hb.tokenDrawn, hb.valid, ?_, mem_append_left _ hb.familyDrawn,
      hb.owner⟩
    have hne : digest.preimage ≠ p.refresh.digest.preimage := fun he => hnew (he ▸ hb.tokenDrawn)
    rw [← hb.token]
    exact Function.update_of_ne hne _ _
  have hself : b'.Live (drawn ++ [p.refresh.digest.preimage]) p.accountId p.refresh :=
    ⟨mem_append_right _ List.mem_cons_self, hvalid, Function.update_self _ _ _,
      mem_append_left _ hfam, hown⟩
  have hids := hi.ids
  refine ⟨b', hids ▸ h.ids, fun a' ha' => ?_, fun a' ha' r hr => ?_, fun a' ha' => ?_,
    fun a' ha' t' ht' => ?_, fun a' ha' => ?_, fun k r hr => ?_, fun x hx => ⟨hhas (h.gone x hx).1,
    fun a' ha' r hr => ?_⟩, fun x hx hexp => ?_⟩
  · obtain ⟨a, ha, hissue⟩ := exists_left hi.accounts ha'
    exact mem_append_left _ (hissue.sameId ▸ h.idDrawn a ha)
  · rcases mem_issues hi ha' hr with ⟨a, ha, hid, hr⟩ | ⟨hid, rfl⟩
    · exact hid ▸ hhas (h.live a ha r hr)
    · exact hid ▸ hself
  · obtain ⟨a, ha, hissue⟩ := exists_left hi.accounts ha'
    rcases hissue.live with hl | ⟨-, hl⟩
    · exact (h.nodup a ha).sublist (hl.map _)
    · refine List.Nodup.sublist (hl.map _) ?_
      rw [List.map_append, List.map_singleton]
      refine List.nodup_append'.mpr ⟨h.nodup a ha, List.nodup_singleton _, fun d hd hd' => ?_⟩
      obtain ⟨r, hr, rfl⟩ := mem_map.mp hd
      rw [mem_singleton] at hd'
      exact hnew (hd' ▸ (h.live a ha r hr).tokenDrawn)
  · obtain ⟨a, ha, hissue⟩ := exists_left hi.accounts ha'
    obtain ⟨t, ht, hk⟩ := hissue.retired t' ht'
    simp only [RetiredRefreshToken.key, Prod.mk.injEq] at hk
    rw [hissue.sameId, ← hk.1, ← hk.2.1, ← hk.2.2]
    exact hhas (h.retired a ha t ht)
  · obtain ⟨a, ha, hissue⟩ := exists_left hi.accounts ha'
    exact hissue.count.trans (h.bound a ha)
  · rcases hi.access k r hr with hr | ⟨-, hf, hid⟩
    · obtain ⟨hd, ho⟩ := h.access k r hr
      exact ⟨mem_append_left _ hd, ho⟩
    · rw [hf, hid]
      exact ⟨mem_append_left _ hfam, hown⟩
  · rcases mem_issues hi ha' hr with ⟨a, ha, -, hr⟩ | ⟨-, rfl⟩
    · exact (h.gone x hx).2 a ha r hr
    · intro he
      exact hnew (he ▸ (h.gone x hx).1.tokenDrawn)
  · rcases h.evidence x hx hexp with ⟨hd, hbusy⟩ | ht
    · exact .inl ⟨hd.issues hi fun he => hbusy (congrArg some he), by simp⟩
    · exact .inr (ht.issues hi h.bound hexp)

theorem ids_modify (hf : ∀ a, (f a).accountId = a.accountId) :
    (st.modifyAccount id f).accounts.map AccountRecord.accountId =
      st.accounts.map AccountRecord.accountId :=
  keys_modify hf

theorem ne_of_mem_eraseP {l : List RefreshTokenRecord}
    (hn : (l.map RefreshTokenRecord.digest).Nodup)
    (hr : r ∈ l.eraseP fun t => t.digest = digest) : r.digest ≠ digest := by
  induction l with
  | nil => exact (List.not_mem_nil hr).elim
  | cons t l ih =>
    rw [List.map_cons, List.nodup_cons] at hn
    by_cases ht : t.digest = digest
    · rw [List.eraseP_cons_of_pos (by simpa using ht)] at hr
      rintro rfl
      exact hn.1 (ht ▸ List.mem_map_of_mem hr)
    · rw [List.eraseP_cons_of_neg (by simpa using ht)] at hr
      rcases List.mem_cons.mp hr with rfl | hr
      · exact ht
      · exact ih hn.2 hr

theorem Tomb.modify (h : st.Tomb r)
    (hf : ∀ a, ∀ t ∈ a.retiredRefreshTokens, t.familyId = r.familyId →
      t ∈ (f a).retiredRefreshTokens) : (st.modifyAccount id f).Tomb r := by
  obtain ⟨a, ha, t, ht, hk⟩ := h
  have hfam : t.familyId = r.familyId := congrArg (·.2.1) hk
  by_cases hid : a.accountId = id
  · exact ⟨f a, mem_modify_self ha hid, t, hf a t ht hfam, hk⟩
  · exact ⟨a, mem_map.mpr ⟨a, ha, if_neg hid⟩, t, ht, hk⟩

theorem Sound.retire (h : Sound b drawn now busy rotated st) (ha : a ∈ st.accounts) (hr : r ∈ a.refreshTokens)
    (hb : a.tombs now < MAX_RETIRED_REFRESH_TOKENS_PER_ACCOUNT) (key : Option Digest) :
    Sound b drawn now (some r.familyId) (rotated ++ [(a.accountId, r)])
      (st.retire a.accountId r key now) := by
  have hmem {x : AccountRecord} (hx : x ∈ (st.retire a.accountId r key now).accounts) :
      (x ∈ st.accounts ∧ x.accountId ≠ a.accountId) ∨ x = (a.consume r.digest).entomb r key now := by
    rcases mem_modify hx with hx | ⟨y, hy, hid, rfl⟩
    · exact .inl hx
    · exact .inr (by rw [eq_of_key h.ids hy ha hid])
  have hsub : ((a.consume r.digest).entomb r key now).refreshTokens.Sublist a.refreshTokens :=
    List.eraseP_sublist
  have htombs : ((a.consume r.digest).entomb r key now).tombs now ≤ a.tombs now + 1 := by
    simp only [AccountRecord.tombs, AccountRecord.entomb, AccountRecord.consume, List.filter_append,
      List.length_append]
    exact Nat.add_le_add_left (List.length_filter_le _ _) _
  refine ⟨?_, fun x hx => ?_, fun x hx q hq => ?_, fun x hx => ?_, fun x hx t ht => ?_,
    fun x hx => ?_, h.access, fun x hx => ⟨?_, fun y hy q hq => ?_⟩, fun x hx hexp => ?_⟩
  · rw [AccountStore.retire, ids_modify]
    · exact h.ids
    · exact fun _ => rfl
  · rcases hmem hx with ⟨hx, -⟩ | rfl
    · exact h.idDrawn x hx
    · exact h.idDrawn a ha
  · rcases hmem hx with ⟨hx, -⟩ | rfl
    · exact h.live x hx q hq
    · exact h.live a ha q (hsub.subset hq)
  · rcases hmem hx with ⟨hx, -⟩ | rfl
    · exact h.nodup x hx
    · exact (h.nodup a ha).sublist (hsub.map _)
  · rcases hmem hx with ⟨hx, -⟩ | rfl
    · exact h.retired x hx t ht
    · exact List.forall_mem_concat (h.retired a ha) (h.live a ha r hr) t ht
  · rcases hmem hx with ⟨hx, -⟩ | rfl
    · exact h.bound x hx
    · omega
  · exact List.forall_mem_concat (fun x hx => (h.gone x hx).1) (h.live a ha r hr) x hx
  · rcases mem_append.mp hx with hx | hx
    · rcases hmem hy with ⟨hy, -⟩ | rfl
      · exact (h.gone x hx).2 y hy q hq
      · exact (h.gone x hx).2 a ha q (hsub.subset hq)
    · rw [mem_singleton.mp hx]
      rcases hmem hy with ⟨hy, hne⟩ | rfl
      · -- another account with the token would own it too
        intro he
        have hq' := h.live y hy q hq
        rw [Book.Live, he] at hq'
        exact hne (hq'.unique (h.live a ha r hr)).1
      · exact ne_of_mem_eraseP (h.nodup a ha) hq
  · rcases mem_append.mp hx with hx | hx
    · rcases h.evidence x hx hexp with ⟨hd, -⟩ | ht
      · exact .inl ⟨hd.retire r key, fun he => hd.1 a ha r hr (some.inj he)⟩
      · exact .inr (ht.modify fun _ t ht _ => mem_append_left _ ht)
    · rw [mem_singleton.mp hx]
      exact .inr ⟨_, mem_modify_self ha rfl, _,
        mem_append_right _ List.mem_cons_self, rfl⟩

theorem Sound.dead_revoke (h : Sound b drawn now busy rotated st) (hown : b.family family = id) :
    Dead (st.revokeRefreshFamily id family) family := by
  refine ⟨fun x hx r hr => ?_, fun k r hr => ?_⟩
  · rcases mem_modify hx with ⟨hx, hne⟩ | ⟨y, -, -, rfl⟩
    · rintro rfl
      exact hne ((h.live x hx r hr).owner.symm.trans hown)
    · simpa using (List.mem_filter.mp hr).2
  · simp only [revokeRefreshFamily, modifyAccount, Table.lookup_retain,
      filter_eq_some_iff] at hr
    obtain ⟨hr, hp⟩ := hr
    rintro rfl
    have howner := (h.access k r hr).2
    simp [← howner, hown] at hp

theorem Sound.revoke (h : Sound b drawn now none rotated st) (hown : b.family family = id) :
    Sound b drawn now none rotated (st.revokeRefreshFamily id family) := by
  have hmem {x : AccountRecord} (hx : x ∈ (st.revokeRefreshFamily id family).accounts) :
      ∃ y ∈ st.accounts, y.accountId = x.accountId ∧ x.refreshTokens.Sublist y.refreshTokens ∧
        x.retiredRefreshTokens.Sublist y.retiredRefreshTokens := by
    rcases mem_modify hx with ⟨hx, -⟩ | ⟨y, hy, -, rfl⟩
    · exact ⟨x, hx, rfl, List.Sublist.refl _, List.Sublist.refl _⟩
    · exact ⟨y, hy, rfl, List.filter_sublist, List.filter_sublist⟩
  refine ⟨?_, fun x hx => ?_, fun x hx r hr => ?_, fun x hx => ?_, fun x hx t ht => ?_,
    fun x hx => ?_, fun k r hr => h.access k r ?_, fun x hx => ⟨(h.gone x hx).1, fun y hy r hr => ?_⟩,
    fun x hx hexp => ?_⟩
  · rw [revokeRefreshFamily, ids_modify]
    · exact h.ids
    · exact fun _ => rfl
  · obtain ⟨y, hy, hid, -⟩ := hmem hx
    exact hid ▸ h.idDrawn y hy
  · obtain ⟨y, hy, hid, hl, -⟩ := hmem hx
    exact hid ▸ h.live y hy r (hl.subset hr)
  · obtain ⟨y, hy, -, hl, -⟩ := hmem hx
    exact (h.nodup y hy).sublist (hl.map _)
  · obtain ⟨y, hy, hid, -, ht'⟩ := hmem hx
    exact hid ▸ h.retired y hy t (ht'.subset ht)
  · obtain ⟨y, hy, -, -, ht⟩ := hmem hx
    exact ((ht.filter _).length_le).trans (h.bound y hy)
  · simp only [revokeRefreshFamily, modifyAccount, Table.lookup_retain,
      filter_eq_some_iff] at hr
    exact hr.1
  · obtain ⟨z, hz, -, hl, -⟩ := hmem hy
    exact (h.gone x hx).2 z hz r (hl.subset hr)
  · by_cases hf : x.2.familyId = family
    · rw [hf]
      exact .inl ⟨h.dead_revoke hown, by simp⟩
    · rcases h.evidence x hx hexp with ⟨hd, hb⟩ | ⟨a, ha, t, ht, hk⟩
      · exact .inl ⟨hd.revoke family, hb⟩
      · have htomb : ({ st with accessTokens := Table.retain (fun _ t =>
            t.principal.accountId ≠ id || t.familyId ≠ family) st.accessTokens } :
              AccountStore).Tomb x.2 := ⟨a, ha, t, ht, hk⟩
        refine .inr (htomb.modify fun _ t ht he => List.mem_filter.mpr ⟨ht, ?_⟩)
        simpa [he] using hf

theorem Sound.append (h : Sound b drawn now busy rotated st)
    (ha : a.accountId ∉ drawn) (hlive : a.refreshTokens = []) (hret : a.retiredRefreshTokens = []) :
    Sound b (drawn ++ [a.accountId]) now busy rotated
      { st with accounts := st.accounts ++ [a] } := by
  have h' := h.mono (List.subset_append_left drawn [a.accountId])
  have hmem {x : AccountRecord} (hx : x ∈ st.accounts ++ [a]) : x ∈ st.accounts ∨ x = a :=
    (mem_append.mp hx).imp_right mem_singleton.mp
  refine ⟨?_, fun x hx => ?_, fun x hx r hr => ?_, fun x hx => ?_, fun x hx t ht => ?_,
    fun x hx => ?_, h'.access, fun x hx => ⟨(h'.gone x hx).1, fun y hy r hr => ?_⟩,
    fun x hx hexp => ?_⟩
  · rw [List.map_append, List.map_singleton]
    refine List.nodup_append'.mpr ⟨h.ids, List.nodup_singleton _, fun id hid hid' => ?_⟩
    obtain ⟨y, hy, rfl⟩ := mem_map.mp hid
    exact ha (mem_singleton.mp hid' ▸ h.idDrawn y hy)
  · rcases hmem hx with hx | rfl
    · exact h'.idDrawn x hx
    · exact mem_append_right _ List.mem_cons_self
  · rcases hmem hx with hx | rfl
    · exact h'.live x hx r hr
    · simp [hlive] at hr
  · rcases hmem hx with hx | rfl
    · exact h.nodup x hx
    · simp [hlive]
  · rcases hmem hx with hx | rfl
    · exact h'.retired x hx t ht
    · simp [hret] at ht
  · rcases hmem hx with hx | rfl
    · exact h.bound x hx
    · simp [AccountRecord.tombs, hret]
  · rcases hmem hy with hy | rfl
    · exact (h.gone x hx).2 y hy r hr
    · simp [hlive] at hr
  · rcases h.evidence x hx hexp with ⟨hd, hb⟩ | ⟨y, hy, ht⟩
    · exact .inl ⟨hd.append hlive, hb⟩
    · exact .inr ⟨y, mem_append_left _ hy, ht⟩

theorem Sound.nonces (h : Sound b drawn now busy rotated st) (nonces : Table ℕ ℕ) :
    Sound b drawn now busy rotated { st with deviceAuthNonces := nonces } :=
  { h with }

theorem Sound.issuesFresh (h : Sound b drawn now none rotated st) (hi : Issues now p st st')
    (hp : p.Drawn d) (hf : p.refresh.familyId = d.familyId)
    (hfam : d.familyId ∉ drawn) (htok : d.refreshToken ∉ drawn) (hne : d.familyId ≠ d.refreshToken)
    (hvalid : validToken d.refreshToken = true) :
    ∃ b', Sound b' (drawn ++ [d.familyId, d.refreshToken]) now none rotated st' := by
  have hpre : p.refresh.digest.preimage = d.refreshToken := congrArg Digest.preimage hp.refresh
  obtain ⟨b', h'⟩ := Sound.issues (hf ▸ h.openFamily hfam p.accountId) hi
    (by simpa [hpre, htok, hf] using hne.symm) (hpre ▸ hvalid) (by simp [hf]) (by simp [hf])
  rw [hpre, hf, List.append_assoc] at h'
  exact ⟨b', h'⟩

/-- What a call draws was never drawn before, and the token is one of the generator's. -/
def FreshDraws (drawn : List Text) (d : Draws) : Prop :=
  (Service.draw d).Nodup ∧ (∀ t ∈ Service.draw d, t ∉ drawn) ∧ validToken d.refreshToken = true

instance (drawn : List Text) (d : Draws) : Decidable (FreshDraws drawn d) :=
  inferInstanceAs (Decidable (_ ∧ _ ∧ _))

theorem FreshDraws.apart (hd : FreshDraws drawn d) :
    d.accountId ∉ drawn ∧ d.familyId ∉ drawn ∧ d.refreshToken ∉ drawn ∧ d.accountId ≠ d.familyId ∧
      d.accountId ≠ d.refreshToken ∧ d.familyId ≠ d.refreshToken := by
  obtain ⟨hnodup, hfresh, -⟩ := hd
  simp [draw] at hnodup hfresh
  grind

theorem Sound.shape {gone : Option (Text × RefreshTokenRecord)}
    (h : Sound b drawn now none rotated st) (hs : Shape now d st gone st') (hd : FreshDraws drawn d)
    (hb : gone.isSome → ∀ a ∈ st.accounts, a.tombs now < MAX_RETIRED_REFRESH_TOKENS_PER_ACCOUNT) :
    ∃ b', Sound b' (drawn ++ draw d) now none (rotated ++ gone.toList) st' := by
  obtain ⟨hid, hfam, htok, hif, hit, hft⟩ := hd.apart
  have hvalid := hd.2.2
  have hsub {l : List Text} (hl : l ⊆ draw d) : drawn ++ l ⊆ drawn ++ draw d :=
    List.append_subset.mpr ⟨List.subset_append_left _ _, List.Subset.trans hl (List.subset_append_right _ _)⟩
  cases hs with
  | issues hp hf _ hi =>
    obtain ⟨b', h'⟩ := h.issuesFresh hi hp hf hfam htok hft hvalid
    rw [toList_none, append_nil]
    exact ⟨b', h'.mono (hsub (by simp [draw]))⟩
  | registers hid' hlive hret hp _ hf _ hi =>
    obtain ⟨b', h'⟩ := (h.append (hid' ▸ hid) hlive hret).issuesFresh hi hp hf
      (by simpa [hid', hfam] using Ne.symm hif) (by simpa [hid', htok] using Ne.symm hit) hft hvalid
    rw [toList_none, append_nil]
    rw [hid', List.append_assoc] at h'
    exact ⟨b', h'.mono (hsub (by simp [draw]))⟩
  | condemns ha ht hl =>
    have hrevoke := h.revoke (h.retired _ ha _ ht).owner
    obtain ⟨b', h'⟩ := hrevoke.issuesFresh (hl.issues (drawnPair [] none d.familyId 0 [] now d))
      ⟨rfl, rfl⟩ rfl hfam htok hft hvalid
    rw [toList_none, append_nil]
    exact ⟨b', h'.mono (hsub (by simp [draw]))⟩
  | @rotates a r p key _ ha hr hexp hp hacc hf _ _ hi =>
    have hlive := h.live a ha r hr
    have hpre : p.refresh.digest.preimage = d.refreshToken := congrArg Digest.preimage hp.refresh
    obtain ⟨b', h'⟩ := Sound.issues (hf ▸ h.retire ha hr (hb rfl a ha) key) hi (hpre ▸ htok)
      (hpre ▸ hvalid) (hf ▸ hlive.familyDrawn) (hf ▸ hacc ▸ hlive.owner)
    exact ⟨b', h'.mono (hsub (by simp [draw, hpre]))⟩

end AccountStore

namespace Service

open AccountStore

variable {s t : Service} {e : Event} {x : Text × RefreshTokenRecord}

/-! ## Every run -/

/-- The identifiers drawn are new. -/
def Fresh (s : Service) (e : Event) : Prop := FreshDraws s.drawn e.draws

instance (s : Service) (e : Event) : Decidable (Fresh s e) :=
  inferInstanceAs (Decidable (FreshDraws _ _))

/-- A refresh leaves no account with more than `MAX_RETIRED_REFRESH_TOKENS_PER_ACCOUNT` unexpired
tombstones. -/
def Uncrowded (s : Service) (e : Event) : Prop := e.call.refreshes →
  ∀ a ∈ s.store.accounts, a.tombs e.now < MAX_RETIRED_REFRESH_TOKENS_PER_ACCOUNT

instance (s : Service) (e : Event) : Decidable (Uncrowded s e) := by
  unfold Uncrowded
  infer_instance

theorem sound_after (h : ∃ b, Sound b s.drawn s.now none s.rotated s.store) (ho : Ordered s e)
    (hf : Fresh s e) (hu : Uncrowded s e) :
    ∃ b, Sound b (s.after e).drawn (s.after e).now none (s.after e).rotated (s.after e).store := by
  obtain ⟨b, h⟩ := h
  have h := h.later ho
  by_cases hc : ∃ p, e.call = .proof p
  · obtain ⟨p, hp⟩ := hc
    obtain ⟨nonces, hs⟩ := s.store.shape_commitDeviceAuth p e.now e.draws
    obtain ⟨b', h'⟩ := (h.nonces nonces).shape hs hf (by simp)
    refine ⟨b', ?_⟩
    simpa [after, rotatesOf, call, hp] using h'
  · obtain ⟨gone, hs, hg, hr⟩ := s.store.shape_call e fun p hp => hc ⟨p, hp⟩
    obtain ⟨b', h'⟩ := h.shape hs hf fun hgone => hu (hr hgone)
    refine ⟨b', h'.forget (List.append_subset.mpr ⟨List.subset_append_left _ _, fun x hx => ?_⟩)⟩
    exact mem_append_right _ (by simp [hg x hx])

theorem sound_of_reach (h : (service .empty).ReachVia
      (fun s e => Ordered s e ∧ Fresh s e ∧ Uncrowded s e) s) :
    ∃ b, Sound b s.drawn s.now none s.rotated s.store := by
  refine h.invariant (I := fun s => ∃ b, Sound b s.drawn s.now none s.rotated s.store) ?_ ?_
  · exact ⟨⟨fun _ => ([], [], 0), fun _ => []⟩, by constructor <;> simp [service, empty]⟩
  · rintro s e _ hi ⟨ho, hf, hu⟩ ⟨⟩
    exact sound_after hi ho hf hu

theorem dead_after {family : Text} (h : s.store.Dead family) (hd : family ∈ s.drawn)
    (hf : Fresh s e) : (s.after e).store.Dead family := by
  have hne : e.draws.familyId ≠ family := by
    rintro rfl
    exact hf.2.1 _ (by simp [draw]) hd
  by_cases hc : ∃ p, e.call = .proof p
  · obtain ⟨p, hp⟩ := hc
    obtain ⟨nonces, hs⟩ := s.store.shape_commitDeviceAuth p e.now e.draws
    have h' : ({ s.store with deviceAuthNonces := nonces } : AccountStore).Dead family := h
    simpa [after, call, hp] using h'.shape hs hne
  · obtain ⟨gone, hs, -⟩ := s.store.shape_call e fun p hp => hc ⟨p, hp⟩
    exact h.shape hs hne

theorem dead_of_reach {family : Text} (h : s.store.Dead family) (hd : family ∈ s.drawn)
    (ht : ((service .empty).startAt s).ReachVia Fresh t) : t.store.Dead family := by
  refine (ht.invariant (I := fun t => t.store.Dead family ∧ family ∈ t.drawn) ⟨h, hd⟩ ?_).1
  rintro t e _ ⟨h, hd⟩ hf ⟨⟩
  exact ⟨dead_after h hd hf, mem_append_left _ hd⟩

theorem findRetired_of_tomb {b : Book} {drawn : List Text} {now : ℕ} {st : AccountStore}
    {rotated : List (Text × RefreshTokenRecord)} (h : Sound b drawn now none rotated st)
    (hx : x ∈ rotated) (ht : st.Tomb x.2) (hexp : now < x.2.expiresAtMs) :
    st.findRetiredFamily x.2.digest now = some (x.1, x.2.familyId) := by
  obtain ⟨a, ha, t, ht, hk⟩ := ht
  simp only [RetiredRefreshToken.key, Prod.mk.injEq] at hk
  have hsome : (st.findRetiredFamily x.2.digest now).isSome := by
    rw [findRetiredFamily, List.findSome?_isSome_iff]
    refine ⟨a, ha, ?_⟩
    rw [isSome_map, List.find?_isSome]
    exact ⟨t, ht, by simpa [hk.1, hk.2.2] using hexp⟩
  obtain ⟨y, hy⟩ := isSome_iff_exists.mp hsome
  obtain ⟨a', ha', t', ht', hd, -, rfl⟩ := findRetired_some hy
  have hhas := h.retired a' ha' t' ht'
  rw [hd] at hhas
  obtain ⟨hid, hfam, -⟩ := hhas.unique (h.gone x hx).1
  rw [hy, hid, hfam]

/-- **Presenting a rotated token ends its family exactly while the token itself has not expired**,
in every run in which no tombstone falls to the bound. -/
theorem theft_caught (h : (service .empty).ReachVia
      (fun s e => Ordered s e ∧ Fresh s e ∧ Uncrowded s e) s) (hx : x ∈ s.rotated) {now : ℕ}
    (hnow : s.now ≤ now) {draws : Draws} (hsave : draws.save = none)
    (hlive : ∃ a ∈ s.store.accounts, ∃ r ∈ a.refreshTokens,
      r.familyId = x.2.familyId ∧ now < r.expiresAtMs) :
    ((s.store.refreshWithRetryKey x.2.digest.preimage none now draws).2 = .error .unauthorized ∧
      ∀ t, ((service .empty).startAt
        (s.after ⟨.refresh x.2.digest.preimage none, now, draws⟩)).ReachVia Fresh t →
          t.store.Dead x.2.familyId) ↔ now < x.2.expiresAtMs := by
  obtain ⟨b, hs⟩ := sound_of_reach h
  have hs := hs.later hnow
  obtain ⟨hown, hgone⟩ := hs.gone x hx
  obtain ⟨a, ha, r, hr, hfam, -⟩ := hlive
  have hvalid : (!validToken x.2.digest.preimage || !(none : Option Text).all validToken) = false := by
    simp [hown.valid]
  constructor
  · rintro ⟨-, hdead⟩
    by_contra hexp
    have hretired : s.store.findRetiredFamily x.2.digest now = none := by
      by_contra hne
      obtain ⟨y, hy⟩ := ne_none_iff_exists'.mp hne
      obtain ⟨a', ha', t, ht, hd, ht', -⟩ := findRetired_some hy
      have hhas := hs.retired a' ha' t ht
      rw [hd] at hhas
      exact hexp ((hhas.unique hown).2.2 ▸ ht')
    have hlost : s.store.findLive x.2.digest = none := by
      by_contra hne
      obtain ⟨y, hy⟩ := ne_none_iff_exists'.mp hne
      obtain ⟨a', ha', -, hr', hd⟩ := findLive_some hy
      exact hgone a' ha' _ hr' hd
    -- the token is unknown to the store, which stays as it is
    have hstore : (s.after ⟨.refresh x.2.digest.preimage none, now, draws⟩).store = s.store := by
      simp only [after, call, Prod.map_fst, id, refreshWithRetryKey, hvalid]
      rw [show tokenDigest x.2.digest.preimage = x.2.digest from rfl, hretired]
      simp only [rotate]
      rw [show (s.store.accounts.findSome? fun a => _) = none from hlost]
      rfl
    exact (hstore ▸ hdead _ .start).1 a ha r hr hfam
  · intro hexp
    have htomb : s.store.Tomb x.2 := by
      rcases hs.evidence x hx hexp with ⟨hd, -⟩ | ht
      · exact absurd hfam (hd.1 a ha r hr)
      · exact ht
    have hcall : s.store.refreshWithRetryKey x.2.digest.preimage none now draws =
        ((s.store.revokeRefreshFamily x.1 x.2.familyId).save none).andThen
          fun st _ => (st, .error .unauthorized) := by
      simp only [refreshWithRetryKey, hvalid]
      rw [show tokenDigest x.2.digest.preimage = x.2.digest from rfl,
        findRetired_of_tomb hs hx htomb hexp, hsave]
      rfl
    refine ⟨by rw [hcall]; rfl, fun t ht => dead_of_reach ?_ ?_ ht⟩
    · have hdead := hs.dead_revoke hown.owner
      simp only [after, call, Prod.map_fst, id, hcall]
      exact hdead
    · exact mem_append_left _ hown.familyDrawn

def signIn : Event where
  call := .register ['a', 'd', 'a'] 1 2 none false
  now := 0
  draws := ⟨['1'], ['2'], ['3'], ['4'], none, none, none⟩

def presentFirst (now : ℕ) : Event :=
  ⟨.refresh ['4'] none, now, ⟨['5'], ['6'], ['7'], ['8'], none, none, none⟩⟩

def laterDraws : Draws := ⟨['9'], ['a'], ['b'], ['c'], none, none, none⟩

theorem theft_caught_early : ∃ s, ∃ x ∈ s.rotated, (service .empty).ReachVia
      (fun s e => Ordered s e ∧ Fresh s e ∧ Uncrowded s e) s ∧ s.now ≤ 2000 ∧
    (∃ a ∈ s.store.accounts, ∃ r ∈ a.refreshTokens,
      r.familyId = x.2.familyId ∧ 2000 < r.expiresAtMs) ∧
    (s.store.refreshWithRetryKey x.2.digest.preimage none 2000 laterDraws).2 = .error .unauthorized ∧
    ∀ t, ((service .empty).startAt
      (s.after ⟨.refresh x.2.digest.preimage none, 2000, laterDraws⟩)).ReachVia Fresh t →
        t.store.Dead x.2.familyId := by
  obtain ⟨s, hs, hnow, x, hx, hlive, hexp⟩ := (service .empty).exists_reachVia
    (fun s e => Ordered s e ∧ Fresh s e ∧ Uncrowded s e) [signIn, presentFirst 1000]
    (fun s => s.now ≤ 2000 ∧ ∃ x ∈ s.rotated, (∃ a ∈ s.store.accounts, ∃ r ∈ a.refreshTokens,
      r.familyId = x.2.familyId ∧ 2000 < r.expiresAtMs) ∧ 2000 < x.2.expiresAtMs)
    (by decide +kernel)
  exact ⟨s, x, hx, hs, hnow, hlive, (theft_caught hs hx hnow rfl hlive).mpr hexp⟩

/-- **A theft after the expiry of the rotated token goes unnoticed**: presented on day 31, it leaves
the family alive. -/
theorem theft_unnoticed : ∃ s, (service .empty).ReachVia
      (fun s e => Ordered s e ∧ Fresh s e ∧ Uncrowded s e) s ∧ s.now = 29 * 86400000 ∧
    ∃ x ∈ s.rotated, ∃ a ∈ (s.after ⟨.refresh x.2.digest.preimage none, 31 * 86400000,
        laterDraws⟩).store.accounts, ∃ r ∈ a.refreshTokens, r.familyId = x.2.familyId ∧
      ((s.after ⟨.refresh x.2.digest.preimage none, 31 * 86400000, laterDraws⟩).store.call
        (31 * 86400000 + 1) laterDraws (.refresh r.digest.preimage none)).2.issues = true :=
  (service .empty).exists_reachVia (fun s e => Ordered s e ∧ Fresh s e ∧ Uncrowded s e)
    [signIn, presentFirst (29 * 86400000)] _ (by decide +kernel)

end Service

end OpenStream.Account
