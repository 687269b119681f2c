import OpenStream.Account.Refresh
import Mathlib.Data.List.Flatten

/-!
# A refresh family is a chain

Each refresh consumes a live token and issues the next of its family; a retry consumes the token that
was issued and never used.

* **`Ledger.chained`**
-/

namespace OpenStream.Account

open List AccountRecord

namespace AccountStore

variable {now : ℕ} {st st' : AccountStore} {p : Pair} {r : RefreshTokenRecord} {d : Draws}

def live (st : AccountStore) : List RefreshTokenRecord :=
  st.accounts.flatMap AccountRecord.refreshTokens

def retired (st : AccountStore) : List RetiredRefreshToken :=
  st.accounts.flatMap AccountRecord.retiredRefreshTokens

theorem mem_live : r ∈ st.live ↔ ∃ a ∈ st.accounts, r ∈ a.refreshTokens := mem_flatMap

theorem mem_retired {t : RetiredRefreshToken} :
    t ∈ st.retired ↔ ∃ a ∈ st.accounts, t ∈ a.retiredRefreshTokens := mem_flatMap

/-! ## What changes the tokens -/

theorem flatMap_sublist {α : Type} {R : AccountRecord → AccountRecord → Prop}
    {f : AccountRecord → List α} {l l' : List AccountRecord}
    (hR : ∀ a a', R a a' → (f a').Sublist (f a)) (h : List.Forall₂ R l l') :
    (l'.flatMap f).Sublist (l.flatMap f) := by
  induction h with
  | nil => exact List.Sublist.refl _
  | cons hr _ ih =>
    exact (hR _ _ hr).append ih

theorem Loses.live_sublist (h : Loses now st st') : st'.live.Sublist st.live :=
  flatMap_sublist (fun _ _ h => h.live) h.accounts

theorem Loses.retired_sublist (h : Loses now st st') : st'.retired.Sublist st.retired :=
  flatMap_sublist (fun _ _ h => h.kept) h.accounts

theorem Loses.ids (h : Loses now st st') :
    st'.accounts.map accountId = st.accounts.map accountId :=
  forall₂_ids (fun _ _ h => h.sameId) h.accounts

theorem live_modify_sublist {id : Text} {f : AccountRecord → AccountRecord}
    (hf : ∀ a, (f a).refreshTokens.Sublist a.refreshTokens) :
    (st.modifyAccount id f).live.Sublist st.live :=
  flatMap_sublist (R := fun a a' => a'.refreshTokens.Sublist a.refreshTokens) (fun _ _ h => h)
    (forall₂_modify (fun _ _ => List.Sublist.refl _) fun a _ _ => hf a)

theorem mem_live_issues (h : Issues now p st st') (hr : r ∈ st'.live) :
    r ∈ st.live ∨ r = p.refresh := by
  obtain ⟨a', ha', hr⟩ := mem_live.mp hr
  rcases mem_issues h ha' hr with ⟨a, ha, -, hr⟩ | ⟨-, hr⟩
  · exact .inl (mem_live.mpr ⟨a, ha, hr⟩)
  · exact .inr hr

theorem mem_retired_issues (h : Issues now p st st') {t' : RetiredRefreshToken}
    (ht : t' ∈ st'.retired) : t' ∈ st.retired ∨ ∃ t ∈ st.retired, t.digest ∈ p.successorOf ∧
      t' = { t with successor := some p.refresh.digest } := by
  obtain ⟨a', ha', ht⟩ := mem_retired.mp ht
  obtain ⟨a, ha, hissue⟩ := exists_left h.accounts ha'
  rcases hissue.linked t' ht with ht | ⟨t, ht, hrest⟩
  · exact .inl (mem_retired.mpr ⟨a, ha, ht⟩)
  · exact .inr ⟨t, mem_retired.mpr ⟨a, ha, ht⟩, hrest⟩

theorem live_issues {l l' : List AccountRecord} (h : List.Forall₂ (AccountRecord.Issues now p) l l')
    (hn : (l.map accountId).Nodup) :
    ∃ m, (l'.flatMap refreshTokens).Sublist m ∧
      (m.Perm (l.flatMap refreshTokens) ∨
        m.Perm (p.refresh :: l.flatMap refreshTokens)) := by
  have hrest {l l' : List AccountRecord} (h : List.Forall₂ (AccountRecord.Issues now p) l l')
      (hid : p.accountId ∉ l.map accountId) :
      (l'.flatMap refreshTokens).Sublist
        (l.flatMap refreshTokens) := by
    induction h with
    | nil => exact List.Sublist.refl _
    | cons hi _ ih =>
      rw [map_cons, mem_cons, not_or] at hid
      rcases hi.live with hl | ⟨heq, -⟩
      · exact hl.append (ih hid.2)
      · exact absurd heq.symm hid.1
  induction h with
  | nil => exact ⟨[], List.Sublist.refl _, .inl (List.Perm.refl _)⟩
  | @cons a a' l l' hi htail ih =>
    rw [map_cons, nodup_cons] at hn
    rcases hi.live with hl | ⟨heq, hl⟩
    · obtain ⟨m, hm, hperm⟩ := ih hn.2
      refine ⟨a.refreshTokens ++ m, hl.append hm, ?_⟩
      rcases hperm with hperm | hperm
      · exact .inl (hperm.append_left _)
      · exact .inr ((hperm.append_left _).trans perm_middle)
    · refine ⟨(a.refreshTokens ++ [p.refresh]) ++ l.flatMap refreshTokens,
        hl.append (hrest htail (heq ▸ hn.1)), .inr ?_⟩
      rw [append_assoc]
      exact perm_middle

theorem nodup_issues {κ : Type} {f : RefreshTokenRecord → κ} (h : Issues now p st st')
    (hids : (st.accounts.map accountId).Nodup) (hn : (st.live.map f).Nodup)
    (hnew : ∀ r ∈ st.live, f r ≠ f p.refresh) : (st'.live.map f).Nodup := by
  obtain ⟨m, hm, hperm⟩ := live_issues h.accounts hids
  refine List.Nodup.sublist (hm.map f) ?_
  rcases hperm with hperm | hperm
  · exact (hperm.map f).nodup_iff.mpr hn
  · refine (hperm.map f).nodup_iff.mpr (nodup_cons.mpr ⟨fun hmem => ?_, hn⟩)
    obtain ⟨r, hr, heq⟩ := mem_map.mp hmem
    exact hnew r hr heq

theorem ne_of_mem_consume {id : Text} {f : AccountRecord → AccountRecord} {a : AccountRecord}
    {x : RefreshTokenRecord} (hn : (st.live.map RefreshTokenRecord.digest).Nodup)
    (ha : a ∈ st.accounts) (hid : a.accountId = id) (hr : r ∈ a.refreshTokens)
    (hx : x ∈ (st.modifyAccount id f).live)
    (hf : ∀ b, (f b).refreshTokens = (b.consume r.digest).refreshTokens) : x.digest ≠ r.digest := by
  rw [live, map_flatMap, nodup_flatMap] at hn
  obtain ⟨hone, hpair⟩ := hn
  obtain ⟨b, hb, hx⟩ := mem_live.mp hx
  rcases Keyed.mem_modify hb with ⟨hb, hne⟩ | ⟨c, hc, -, rfl⟩
  · intro heq
    have hba : b ≠ a := fun he => hne (he ▸ hid)
    have : Std.Symm (Function.onFun List.Disjoint fun c : AccountRecord =>
      c.refreshTokens.map RefreshTokenRecord.digest) := ⟨fun _ _ h _ hx hy => h hy hx⟩
    have hdis := hpair.forall hb ha hba
    exact hdis (mem_map_of_mem hx) (heq ▸ mem_map_of_mem hr)
  · rw [hf] at hx
    exact ne_of_mem_eraseP (hone c hc) hx

theorem mem_retired_retire {id : Text} {key : Option Digest} {t : RetiredRefreshToken}
    (ht : t ∈ (st.retire id r key now).retired) : t ∈ st.retired ∨
      t = ⟨r.digest, r.familyId, r.expiresAtMs, key, now, none⟩ := by
  obtain ⟨a', ha', ht⟩ := mem_retired.mp ht
  rcases Keyed.mem_modify ha' with ⟨ha, -⟩ | ⟨a, ha, -, rfl⟩
  · exact .inl (mem_retired.mpr ⟨a', ha, ht⟩)
  · rcases mem_append.mp ht with ht | ht
    · exact .inl (mem_retired.mpr ⟨a, ha, ht⟩)
    · exact .inr (mem_singleton.mp ht)

def retires (st : AccountStore) (token : Text) (retryKey : Option Text) (now : ℕ) : Option Digest :=
  if wellFormed token retryKey then
    ((st.consumed token retryKey now).filter fun x => now < x.2.expiresAtMs).map fun x => x.2.digest
  else none

end AccountStore

/-! ## The record of refresh calls -/

/-- A refresh call. -/
structure Presented where
  token : Text
  retryKey : Option Text
  now : ℕ
  /-- The live token it retired. -/
  retires : Option Digest
  /-- The refresh token that was drawn for it. -/
  drawn : Text
  /-- Whether it was answered with tokens. -/
  ok : Bool

def Unpresented (log : List Presented) (token : Text) : Prop :=
  ∃ l m l', log = l ++ m :: l' ∧ m.drawn = token ∧
    ∀ x ∈ l', AccountStore.wellFormed x.token x.retryKey → x.token ≠ token

theorem Unpresented.append {log : List Presented} {token : Text} (h : Unpresented log token)
    {x : Presented} (hx : AccountStore.wellFormed x.token x.retryKey → x.token ≠ token) :
    Unpresented (log ++ [x]) token := by
  obtain ⟨l, m, l', rfl, hm, hl⟩ := h
  exact ⟨l, m, l' ++ [x], by simp, hm, forall_mem_concat hl hx⟩

/-- **What every run keeps** of the store, the identifiers drawn and the record of refresh calls. -/
structure Chain (drawn : List Text) (log : List Presented) (st : AccountStore) : Prop where
  ids : (st.accounts.map AccountRecord.accountId).Nodup
  idDrawn : ∀ a ∈ st.accounts, a.accountId ∈ drawn
  digests : (st.live.map RefreshTokenRecord.digest).Nodup
  families : (st.live.map RefreshTokenRecord.familyId).Nodup
  liveDrawn : ∀ r ∈ st.live, r.digest.preimage ∈ drawn ∧ r.familyId ∈ drawn
  retiredDrawn : ∀ t ∈ st.retired, t.digest.preimage ∈ drawn
  successorDrawn : ∀ t ∈ st.retired, ∀ σ ∈ t.successor, σ.preimage ∈ drawn
  apart : ∀ r ∈ st.live, ∀ t ∈ st.retired, r.digest ≠ t.digest
  keys : ∀ t ∈ st.retired, ∀ t' ∈ st.retired, t.digest = t'.digest → t.retryKey = t'.retryKey
  rotated : ∀ t ∈ st.retired, ∃ x ∈ log, x.retires = some t.digest ∧ x.now = t.retiredAtMs ∧
    x.retryKey.map tokenDigest = t.retryKey
  unused : ∀ t ∈ st.retired, ∀ r ∈ st.live, t.successor = some r.digest →
    Unpresented log r.digest.preimage
  yielded : ∀ x ∈ log, x.ok → x.token ∈ drawn ∧ (∀ r ∈ st.live, r.digest.preimage ≠ x.token) ∧
    ∀ t ∈ st.retired, t.digest.preimage = x.token → t.retryKey = x.retryKey.map tokenDigest

namespace Chain

open AccountStore

variable {now : ℕ} {st st' : AccountStore} {p : Pair} {d : Draws} {drawn drawn' : List Text}
  {log : List Presented} {x : Presented}

section

variable (h : Chain drawn log st)

include h

theorem mono (hd : drawn ⊆ drawn') : Chain drawn' log st where
  __ := h
  idDrawn a ha := hd (h.idDrawn a ha)
  liveDrawn r hr := ⟨hd (h.liveDrawn r hr).1, hd (h.liveDrawn r hr).2⟩
  retiredDrawn t ht := hd (h.retiredDrawn t ht)
  successorDrawn t ht σ hσ := hd (h.successorDrawn t ht σ hσ)
  yielded x hx hok := ⟨hd (h.yielded x hx hok).1, (h.yielded x hx hok).2⟩

theorem shrink (hids : (st'.accounts.map accountId).Nodup)
    (hidDrawn : ∀ a ∈ st'.accounts, a.accountId ∈ drawn) (hl : st'.live.Sublist st.live)
    (hr : st'.retired ⊆ st.retired) : Chain drawn log st' where
  ids := hids
  idDrawn := hidDrawn
  digests := h.digests.sublist (hl.map _)
  families := h.families.sublist (hl.map _)
  liveDrawn r hmem := h.liveDrawn r (hl.subset hmem)
  retiredDrawn t ht := h.retiredDrawn t (hr ht)
  successorDrawn t ht := h.successorDrawn t (hr ht)
  apart r hmem t ht := h.apart r (hl.subset hmem) t (hr ht)
  keys t ht t' ht' := h.keys t (hr ht) t' (hr ht')
  rotated t ht := h.rotated t (hr ht)
  unused t ht r hmem := h.unused t (hr ht) r (hl.subset hmem)
  yielded x hx hok := by
    obtain ⟨hd, hlive, hret⟩ := h.yielded x hx hok
    exact ⟨hd, fun r hmem => hlive r (hl.subset hmem), fun t ht => hret t (hr ht)⟩

theorem idDrawn_of_ids
    (hids : st'.accounts.map accountId = st.accounts.map accountId) :
    ∀ a ∈ st'.accounts, a.accountId ∈ drawn := by
  intro a ha
  have hmem : a.accountId ∈ st.accounts.map accountId :=
    hids ▸ mem_map_of_mem ha
  obtain ⟨b, hb, heq⟩ := mem_map.mp hmem
  exact heq ▸ h.idDrawn b hb

theorem loses (hl : Loses now st st') : Chain drawn log st' :=
  h.shrink (hl.ids ▸ h.ids) (h.idDrawn_of_ids hl.ids) hl.live_sublist hl.retired_sublist.subset

theorem revoke (accountId familyId : Text) :
    Chain drawn log (st.revokeRefreshFamily accountId familyId) := by
  have hids : (st.revokeRefreshFamily accountId familyId).accounts.map AccountRecord.accountId =
      st.accounts.map AccountRecord.accountId := Keyed.keys_modify fun _ => rfl
  refine h.shrink (hids ▸ h.ids) (h.idDrawn_of_ids hids) ?_ fun t ht => ?_
  · exact live_modify_sublist fun a => filter_sublist
  · obtain ⟨a', ha', ht⟩ := mem_retired.mp ht
    rcases Keyed.mem_modify ha' with ⟨ha, -⟩ | ⟨a, ha, -, rfl⟩
    · exact mem_retired.mpr ⟨a', ha, ht⟩
    · exact mem_retired.mpr ⟨a, ha, mem_of_mem_filter ht⟩

theorem append {a : AccountRecord} (hid : a.accountId ∉ drawn)
    (hl : a.refreshTokens = []) (hr : a.retiredRefreshTokens = []) :
    Chain (drawn ++ [a.accountId]) log { st with accounts := st.accounts ++ [a] } := by
  refine (h.mono (subset_append_left _ _)).shrink ?_ ?_ ?_ ?_
  · rw [map_append, map_singleton]
    refine h.ids.append (nodup_singleton _) ?_
    simp only [disjoint_singleton, mem_map, not_exists, not_and]
    exact fun b hb heq => hid (heq ▸ h.idDrawn b hb)
  · exact forall_mem_concat (fun b hb => mem_append_left _ (h.idDrawn b hb))
      (mem_append_right _ mem_cons_self)
  · simp [live, flatMap_append, hl]
  · simp [retired, flatMap_append, hr]

theorem refused (hok : x.ok = false)
    (hx : wellFormed x.token x.retryKey → ∀ r ∈ st.live, r.digest.preimage ≠ x.token) :
    Chain drawn (log ++ [x]) st where
  __ := h
  rotated t ht := by
    obtain ⟨y, hy, hrest⟩ := h.rotated t ht
    exact ⟨y, mem_append_left _ hy, hrest⟩
  unused t ht r hr hs := (h.unused t ht r hr hs).append fun hw => (hx hw r hr).symm
  yielded := by
    refine forall_mem_concat h.yielded fun hyok => ?_
    rw [hok] at hyok
    cases hyok

theorem issues (hi : Issues now p st st')
    (hnew : p.refresh.digest.preimage ∉ drawn) (hfam : ∀ r ∈ st.live, r.familyId ≠ p.refresh.familyId)
    (hlink : p.successorOf = [] ∨ Unpresented log p.refresh.digest.preimage) :
    Chain (drawn ++ [p.refresh.familyId, p.refresh.digest.preimage]) log st' := by
  have hne {r : RefreshTokenRecord} (hr : r ∈ st.live) : r.digest ≠ p.refresh.digest :=
    fun he => hnew (he ▸ (h.liveDrawn r hr).1)
  -- what a tombstone says, apart from its successor, was said before
  have hold {t' : RetiredRefreshToken} (ht' : t' ∈ st'.retired) : ∃ t ∈ st.retired,
      t.digest = t'.digest ∧ t.retryKey = t'.retryKey ∧ t.retiredAtMs = t'.retiredAtMs ∧
      (t'.successor = t.successor ∨ p.successorOf ≠ [] ∧ t'.successor = some p.refresh.digest) := by
    rcases mem_retired_issues hi ht' with ht | ⟨t, ht, hmem, rfl⟩
    · exact ⟨t', ht, rfl, rfl, rfl, .inl rfl⟩
    · exact ⟨t, ht, rfl, rfl, rfl, .inr ⟨ne_nil_of_mem hmem, rfl⟩⟩
  have hsub : drawn ⊆ drawn ++ [p.refresh.familyId, p.refresh.digest.preimage] :=
    subset_append_left _ _
  refine ⟨hi.ids ▸ h.ids, fun a ha => hsub (h.idDrawn_of_ids hi.ids a ha),
    nodup_issues hi h.ids h.digests fun r hr => hne hr, nodup_issues hi h.ids h.families hfam,
    fun r hr => ?_, fun t' ht' => ?_, fun t' ht' σ hσ => ?_, fun r hr t' ht' => ?_,
    fun t' ht' u' hu' heq => ?_, fun t' ht' => ?_, fun t' ht' r hr hs => ?_, fun x hx hok => ?_⟩
  · rcases mem_live_issues hi hr with hr | rfl
    · exact ⟨hsub (h.liveDrawn r hr).1, hsub (h.liveDrawn r hr).2⟩
    · simp
  · obtain ⟨t, ht, hd, -⟩ := hold ht'
    exact hsub (hd ▸ h.retiredDrawn t ht)
  · obtain ⟨t, ht, -, -, -, hs | ⟨-, hs⟩⟩ := hold ht'
    · exact hsub (h.successorDrawn t ht σ (hs ▸ hσ))
    · rw [hs] at hσ
      cases hσ
      simp
  · obtain ⟨t, ht, hd, -⟩ := hold ht'
    rw [← hd]
    rcases mem_live_issues hi hr with hr | rfl
    · exact h.apart r hr t ht
    · exact fun he => hnew (he ▸ h.retiredDrawn t ht)
  · obtain ⟨t, ht, hd, hk, -⟩ := hold ht'
    obtain ⟨u, hu, hd', hk', -⟩ := hold hu'
    rw [← hk, ← hk']
    exact h.keys t ht u hu (hd.trans (heq.trans hd'.symm))
  · obtain ⟨t, ht, hd, hk, hn, -⟩ := hold ht'
    rw [← hd, ← hk, ← hn]
    exact h.rotated t ht
  · obtain ⟨t, ht, -, -, -, hold⟩ := hold ht'
    rcases mem_live_issues hi hr with hr | rfl
    · rcases hold with hold | ⟨-, hold⟩
      · exact h.unused t ht r hr (hold ▸ hs)
      · rw [hold] at hs
        exact absurd (Option.some.inj hs).symm (hne hr)
    · rcases hold with hold | ⟨hne', -⟩
      · exact absurd (h.successorDrawn t ht _ (hold ▸ hs)) hnew
      · exact hlink.resolve_left hne'
  · obtain ⟨hd, hlive, hret⟩ := h.yielded x hx hok
    refine ⟨hsub hd, fun r hr => ?_, fun t' ht' heq => ?_⟩
    · rcases mem_live_issues hi hr with hr | rfl
      · exact hlive r hr
      · exact fun he => hnew (he ▸ hd)
    · obtain ⟨t, ht, hdig, hk, -⟩ := hold ht'
      rw [← hk]
      exact hret t ht (hdig ▸ heq)

theorem retire {a : AccountRecord} {r : RefreshTokenRecord}
    (ha : a ∈ st.accounts) (hr : r ∈ a.refreshTokens) (hx : x.retires = some r.digest)
    (htoken : x.token = r.digest.preimage ∨ ∃ t ∈ st.retired, t.digest.preimage = x.token ∧
      t.retryKey = x.retryKey.map tokenDigest) :
    Chain drawn (log ++ [x]) (st.retire a.accountId r (x.retryKey.map tokenDigest) x.now) := by
  have hmem : r ∈ st.live := mem_live.mpr ⟨a, ha, hr⟩
  set after := st.retire a.accountId r (x.retryKey.map tokenDigest) x.now
  have hids : after.accounts.map accountId = st.accounts.map accountId :=
    Keyed.keys_modify fun _ => rfl
  have hsub : after.live.Sublist st.live := live_modify_sublist fun b => eraseP_sublist
  have hgone {y : RefreshTokenRecord} (hy : y ∈ after.live) : y.digest ≠ r.digest :=
    ne_of_mem_consume h.digests ha rfl hr hy fun _ => rfl
  -- the token presented is live no more
  have hspent {y : RefreshTokenRecord} (hy : y ∈ after.live) : y.digest.preimage ≠ x.token := by
    rcases htoken with heq | ⟨t, ht, heq, -⟩
    · exact fun he => hgone hy (congrArg Digest.mk (he.trans heq))
    · exact fun he => h.apart y (hsub.subset hy) t ht (congrArg Digest.mk (he.trans heq.symm))
  -- one tombstone is new
  have hall {P : RetiredRefreshToken → Prop} (hold : ∀ t ∈ st.retired, P t)
      (hnew : P ⟨r.digest, r.familyId, r.expiresAtMs, x.retryKey.map tokenDigest, x.now, none⟩) :
      ∀ t ∈ after.retired, P t :=
    fun t ht => (mem_retired_retire ht).elim (hold t) fun he => he ▸ hnew
  refine ⟨hids ▸ h.ids, h.idDrawn_of_ids hids, h.digests.sublist (hsub.map _),
    h.families.sublist (hsub.map _), fun y hy => h.liveDrawn y (hsub.subset hy), ?_, ?_,
    fun y hy => ?_, ?_, ?_, ?_, fun y hy hok => ?_⟩
  · exact hall h.retiredDrawn (h.liveDrawn r hmem).1
  · exact hall h.successorDrawn nofun
  · exact hall (h.apart y (hsub.subset hy)) (hgone hy)
  · refine hall (fun t ht => hall (h.keys t ht) fun heq => ?_) (hall (fun t ht heq => ?_) fun _ => rfl)
    · exact absurd heq.symm (h.apart r hmem t ht)
    · exact absurd heq (h.apart r hmem t ht)
  · refine hall (fun t ht => ?_) ⟨x, mem_append_right _ mem_cons_self, hx, rfl, rfl⟩
    obtain ⟨y, hy, hrest⟩ := h.rotated t ht
    exact ⟨y, mem_append_left _ hy, hrest⟩
  · refine hall (fun t ht y hy hs => ?_) nofun
    exact (h.unused t ht y (hsub.subset hy) hs).append fun _ => (hspent hy).symm
  · rcases mem_append.mp hy with hy | hy
    · obtain ⟨hd, hlive, hret⟩ := h.yielded y hy hok
      exact ⟨hd, fun r' hr' => hlive r' (hsub.subset hr'),
        hall hret fun heq => absurd heq (hlive r hmem)⟩
    · rw [mem_singleton.mp hy]
      refine ⟨?_, fun _ => hspent, hall (fun t ht heq => ?_) fun _ => rfl⟩
      · rcases htoken with heq | ⟨t, ht, heq, -⟩
        · exact heq ▸ (h.liveDrawn r hmem).1
        · exact heq ▸ h.retiredDrawn t ht
      · rcases htoken with heq' | ⟨t', ht', heq', hk⟩
        · exact absurd (congrArg Digest.mk (heq.trans heq')).symm (h.apart r hmem t ht)
        · exact (h.keys t ht t' ht' (congrArg Digest.mk (heq.trans heq'.symm))).trans hk

theorem not_live {token : Text} {t : RetiredRefreshToken}
    (ht : t ∈ st.retired) (hd : t.digest = tokenDigest token) :
    ∀ r ∈ st.live, r.digest.preimage ≠ token :=
  fun r hr he => h.apart r hr t ht ((congrArg Digest.mk he).trans hd.symm)

end

theorem retired_of_routes {token : Text} {retryKey : Option Text} {digest : Digest}
    (hr : st.Routes token retryKey now digest) : digest = tokenDigest token ∨
      ∃ t ∈ st.retired, t.digest = tokenDigest token ∧ t.retryKey = retryKey.map tokenDigest := by
  rcases hr with ⟨-, hd⟩ | ⟨accountId, familyId, -, hs⟩
  · exact .inl hd
  · obtain ⟨k, hk, a, ha, -, t, ht, hd, hkey, -⟩ := unusedSuccessor_some hs
    exact .inr ⟨t, mem_retired.mpr ⟨a, ha, ht⟩, hd, hkey.trans hk.symm⟩

theorem not_live_of_findLive {digest : Digest} (h : st.findLive digest = none) :
    ∀ r ∈ st.live, r.digest ≠ digest := by
  intro r hr he
  obtain ⟨a, ha, hr⟩ := mem_live.mp hr
  have hnone := findSome?_eq_none_iff.mp h a ha
  rw [Option.map_eq_none_iff, find?_eq_none] at hnone
  exact hnone r hr (decide_eq_true he)

def entry (st : AccountStore) (token : Text) (retryKey : Option Text) (now : ℕ) (d : Draws)
    (ok : Bool) : Presented :=
  ⟨token, retryKey, now, st.retires token retryKey now, d.refreshToken, ok⟩

theorem refreshed {token : Text} {retryKey : Option Text}
    {gone : Option (Text × RefreshTokenRecord)} {o : Outcome IssuedTokens}
    (h : Chain drawn log st) (hR : Refreshed now d st token retryKey gone o)
    (hd : d.refreshToken ∉ drawn) : Chain (drawn ++ Service.draw d)
      (log ++ [entry st token retryKey now d (Reply.issued o.2).issues]) o.1 := by
  have hsub : drawn ⊆ drawn ++ Service.draw d := subset_append_left _ _
  cases hR with
  | malformed hw =>
    refine (h.mono hsub).refused rfl fun hw' => ?_
    exact absurd (hw'.symm.trans hw) (by simp)
  | condemned _ ha ht hdig hl =>
    have hdead := h.not_live (mem_retired.mpr ⟨_, ha, ht⟩) hdig
    refine (((h.revoke _ _).loses hl).mono hsub).refused rfl fun _ r hr => hdead r ?_
    exact (live_modify_sublist fun a => filter_sublist).subset (hl.live_sublist.subset hr)
  | unknown _ hroute hf =>
    refine (h.mono hsub).refused rfl fun _ r hr => ?_
    rcases retired_of_routes hroute with rfl | ⟨t, ht, hdig, -⟩
    · exact fun he => not_live_of_findLive hf r hr (congrArg Digest.mk he)
    · exact h.not_live ht hdig r hr
  | @expired digest x st' e _ hroute hf _ hl =>
    obtain ⟨a, ha, hid, hmem, hdig⟩ := findLive_some hf
    have hlose : Loses now st (st.modifyAccount x.1 fun a => a.consume digest) :=
      st.loses_modify _ fun a => a.loses_consume _
    refine (((h.loses hlose).loses hl).mono hsub).refused rfl fun _ r hr => ?_
    have hr := hl.live_sublist.subset hr
    rcases retired_of_routes hroute with rfl | ⟨t, ht, hret, -⟩
    · exact fun he => ne_of_mem_consume h.digests ha hid hmem hr (fun b => by rw [hdig])
        ((congrArg Digest.mk he).trans hdig.symm)
    · exact h.not_live ht hret r (hlose.live_sublist.subset hr)
  | @rotated digest x relink o hw hroute hf hexp hl hi =>
    obtain ⟨a, ha, hid, hmem, hdig⟩ := findLive_some hf
    obtain ⟨id, r⟩ := x
    subst hid hdig
    have hlive : r ∈ st.live := mem_live.mpr ⟨a, ha, hmem⟩
    have hret : st.retires token retryKey now = some r.digest := by
      simp [AccountStore.retires, hw, hroute.consumed, hf, hexp]
    have htoken : token = r.digest.preimage ∨ ∃ t ∈ st.retired, t.digest.preimage = token ∧
        t.retryKey = retryKey.map tokenDigest := by
      rcases retired_of_routes hroute with heq | ⟨t, ht, hdig, hk⟩
      · exact .inl (congrArg Digest.preimage heq).symm
      · exact .inr ⟨t, ht, congrArg Digest.preimage hdig, hk⟩
    have hretire := h.retire (x := entry st token retryKey now d (Reply.issued o.2).issues) ha hmem
      hret htoken
    refine (hretire.issues hi hd (fun y hy => ?_) (.inr ⟨_, _, [], rfl, rfl, nofun⟩)).mono ?_
    · have hy' := (live_modify_sublist fun b => eraseP_sublist).subset hy
      intro hfam
      have heq := inj_on_of_nodup_map h.families hy' hlive hfam
      exact ne_of_mem_consume h.digests ha rfl hmem hy (fun _ => rfl) (congrArg _ heq)
    · have hfam := (h.liveDrawn r hlive).2
      intro z hz
      simp only [mem_append, mem_cons, not_mem_nil, or_false] at hz
      rcases hz with hz | rfl | rfl
      · exact hsub hz
      · exact hsub hfam
      · simp [Service.draw, drawnPair, refreshRecord, tokenDigest]

theorem issuesFresh (h : Chain drawn log st) (hi : Issues now p st st') (hp : p.Drawn d)
    (hf : p.refresh.familyId = d.familyId) (hlinks : p.successorOf = [])
    (hfam : d.familyId ∉ drawn) (htok : d.refreshToken ∉ drawn) :
    Chain (drawn ++ [d.familyId, d.refreshToken]) log st' := by
  have hpre : p.refresh.digest.preimage = d.refreshToken := congrArg Digest.preimage hp.refresh
  rw [← hf, ← hpre]
  refine h.issues hi (hpre ▸ htok) (fun r hr he => ?_) (.inl hlinks)
  exact hfam (hf ▸ he ▸ (h.liveDrawn r hr).2)

theorem shape (h : Chain drawn log st) (hs : Shape now d st none st') (hd : FreshDraws drawn d) :
    Chain (drawn ++ Service.draw d) log st' := by
  obtain ⟨hid, hfam, htok, hif, hit, -⟩ := hd.apart
  cases hs with
  | issues hp hf hlinks hi =>
    exact (h.issuesFresh hi hp hf hlinks hfam htok).mono (by simp [Service.draw])
  | registers hid' hlive hret hp _ hf hlinks hi =>
    refine ((h.append (hid' ▸ hid) hlive hret).issuesFresh hi hp hf hlinks
      (by simpa [hid', hfam] using Ne.symm hif) (by simpa [hid', htok] using Ne.symm hit)).mono ?_
    simp [Service.draw, hid']
  | condemns _ _ hl => exact ((h.revoke _ _).loses hl).mono (subset_append_left _ _)

end Chain

/-! ## Every run -/

/-- The service with the record of its refresh calls. -/
structure Ledger where
  service : Service
  presented : List Presented

namespace Ledger

open AccountStore

/-- What a call adds to the record. -/
def presentedBy (st : AccountStore) (e : Event) (r : Reply) : List Presented :=
  match e.call with
  | .refresh token retryKey => [Chain.entry st token retryKey e.now e.draws r.issues]
  | _ => []

def after (s : Ledger) (e : Event) : Ledger where
  service := s.service.after e
  presented := s.presented ++ presentedBy s.service.store e
    (s.service.store.call e.now e.draws e.call).2

end Ledger

/-- The service on a store, with the record of refresh calls. -/
def ledger (store : AccountStore) : Runs.Machine Ledger Event where
  start := ⟨⟨store, 0, [], [], []⟩, []⟩
  step := fun s e => some (s.after e)

namespace Ledger

open AccountStore

variable {s : Ledger} {e : Event}

/-- The identifiers drawn are new. -/
def Fresh (s : Ledger) (e : Event) : Prop := Service.Fresh s.service e

instance (s : Ledger) (e : Event) : Decidable (Fresh s e) :=
  inferInstanceAs (Decidable (Service.Fresh _ _))

def Yielded (s : Ledger) (token : Text) : Prop := ∃ x ∈ s.presented, x.token = token ∧ x.ok

def Excused (s : Ledger) (token : Text) (retryKey : Option Text) (now : ℕ) : Prop :=
  ∃ k, retryKey = some k ∧ (∀ x ∈ s.presented, x.token = token → x.ok → x.retryKey = some k) ∧
    (∃ x ∈ s.presented, x.retires = some (tokenDigest token) ∧ x.retryKey = some k ∧
      now - x.now ≤ REFRESH_RETRY_GRACE_MS) ∧
    ∃ t ∈ s.service.store.retired, t.digest = tokenDigest token ∧
      ∃ σ ∈ t.successor, Unpresented s.presented σ.preimage

theorem chain_after (h : Chain s.service.drawn s.presented s.service.store) (hf : Fresh s e) :
    Chain (s.after e).service.drawn (s.after e).presented (s.after e).service.store := by
  have htok : e.draws.refreshToken ∉ s.service.drawn := hf.apart.2.2.1
  have hsame (hc : e.call.refreshes = false) : (s.after e).presented = s.presented := by
    simp only [after, presentedBy]
    split
    · next he => simp [he, Call.refreshes] at hc
    · exact append_nil _
  by_cases hp : ∃ p, e.call = .proof p
  · obtain ⟨p, hp⟩ := hp
    obtain ⟨nonces, hs⟩ := s.service.store.shape_commitDeviceAuth p e.now e.draws
    rw [hsame (by simp [hp, Call.refreshes])]
    have h' : Chain s.service.drawn s.presented
        { s.service.store with deviceAuthNonces := nonces } :=
      h.shrink h.ids h.idDrawn (List.Sublist.refl _) (List.Subset.refl _)
    simpa [after, Service.after, AccountStore.call, hp] using h'.shape hs hf
  · cases hc : e.call.refreshes with
    | false =>
      rw [hsame hc]
      obtain ⟨gone, hs, -, hr⟩ := s.service.store.shape_call e fun p he => hp ⟨p, he⟩
      cases gone with
      | none => exact h.shape hs hf
      | some x => exact absurd ((hr rfl).symm.trans hc) (by simp)
    | true =>
      obtain ⟨c, now, d⟩ := e
      cases c with
      | refresh token retryKey =>
        obtain ⟨gone, hR⟩ := s.service.store.refreshed_refresh token retryKey now d
        exact h.refreshed hR htok
      | _ => cases hc

theorem chain_of_reach (h : (ledger .empty).ReachVia Fresh s) :
    Chain s.service.drawn s.presented s.service.store := by
  refine h.invariant (I := fun s => Chain s.service.drawn s.presented s.service.store) ?_ ?_
  · refine ⟨nodup_nil, ?_, nodup_nil, nodup_nil, ?_, ?_, ?_, ?_, ?_, ?_, ?_, ?_⟩
    all_goals
      intro x hx
      cases hx
  · intro s e s' hi hf hst
    cases hst
    exact chain_after hi hf

theorem excused_of_yielded (h : Chain s.service.drawn s.presented s.service.store) {token : Text}
    {retryKey : Option Text} {now : ℕ} {d : Draws} {i : IssuedTokens} (hy : s.Yielded token)
    (ho : (s.service.store.refreshWithRetryKey token retryKey now d).2 = .ok i) :
    s.Excused token retryKey now := by
  obtain ⟨y, hy, rfl, hok⟩ := hy
  obtain ⟨gone, hR⟩ := s.service.store.refreshed_refresh y.token retryKey now d
  generalize s.service.store.refreshWithRetryKey y.token retryKey now d = o at hR ho
  cases hR with
  | malformed | condemned | unknown | expired => cases ho
  | rotated _ hroute hf _ _ _ =>
    obtain ⟨-, hlive, -⟩ := h.yielded y hy hok
    obtain ⟨a, ha, -, hmem, hdig⟩ := findLive_some hf
    have hmem := mem_live.mpr ⟨a, ha, hmem⟩
    rcases hroute with ⟨-, rfl⟩ | ⟨accountId, familyId, -, hs⟩
    · exact absurd (congrArg Digest.preimage hdig) (hlive _ hmem)
    obtain ⟨k', hk', b, hb, -, t, ht, hd, hkey, hgrace, hsucc, r, hr, hr', -⟩ :=
      unusedSuccessor_some hs
    obtain ⟨k, rfl, rfl⟩ := Option.map_eq_some_iff.mp hk'
    have ht := mem_retired.mpr ⟨b, hb, ht⟩
    have hsame {o : Option Text} (he : o.map tokenDigest = some (tokenDigest k)) : o = some k := by
      obtain ⟨k₀, rfl, hk₀⟩ := Option.map_eq_some_iff.mp he
      exact congrArg some (congrArg Digest.preimage hk₀)
    refine ⟨k, rfl, fun x hx hxt hxok => ?_, ?_, t, ht, hd, _, hsucc, ?_⟩
    · refine hsame (((h.yielded x hx hxok).2.2 t ht ?_).symm.trans hkey)
      rw [hd, hxt]
      rfl
    · obtain ⟨x, hx, hxr, hxn, hxk⟩ := h.rotated t ht
      exact ⟨x, hx, hd ▸ hxr, hsame (hxk.trans hkey), hxn ▸ hgrace⟩
    · rw [← hr']
      exact h.unused t ht r (mem_live.mpr ⟨b, hb, hr⟩) (hr' ▸ hsucc)

/-- **A refresh family is a chain**, in every run with new identifiers: a token that has yielded
credentials yields them again only to a retry within the grace. -/
theorem chained (h : (ledger .empty).ReachVia Fresh s) :
    (s.service.store.live.map RefreshTokenRecord.familyId).Nodup ∧
    (∀ r ∈ s.service.store.live, ∀ t ∈ s.service.store.retired, r.digest ≠ t.digest) ∧
    ∀ (e : Event) (token : Text) (retryKey : Option Text), e.call = .refresh token retryKey →
      (s.service.store.call e.now e.draws e.call).2.issues → s.Yielded token →
        s.Excused token retryKey e.now := by
  have hc := chain_of_reach h
  refine ⟨hc.families, hc.apart, fun e token retryKey he hi hy => ?_⟩
  rw [he, AccountStore.call] at hi
  simp only [Prod.map_snd] at hi
  cases ho : (s.service.store.refreshWithRetryKey token retryKey e.now e.draws).2 with
  | ok i => exact excused_of_yielded hc hy ho
  | error err =>
    rw [ho] at hi
    cases hi

/-- A sign-in, whose token `4` is presented with the retry key `e` and answered with the token `8`. -/
def rotation : List Event :=
  [Service.signIn,
    ⟨.refresh ['4'] (some ['e']), 1000, ⟨['5'], ['6'], ['7'], ['8'], none, none, none⟩⟩]

def retry : Event :=
  ⟨.refresh ['4'] (some ['e']), 2000, ⟨['d'], ['d', 'd'], ['f'], ['f', 'f'], none, none, none⟩⟩

/-- A lost response is repeated. -/
theorem chained_retry : ∃ s, (ledger .empty).ReachVia Fresh s ∧
    (s.service.store.live.map RefreshTokenRecord.familyId).Nodup ∧
    (∀ r ∈ s.service.store.live, ∀ t ∈ s.service.store.retired, r.digest ≠ t.digest) ∧
    s.Yielded ['4'] ∧ (s.service.store.call retry.now retry.draws retry.call).2.issues ∧
    s.Excused ['4'] (some ['e']) 2000 := by
  obtain ⟨s, hs, hy, hi⟩ := (ledger .empty).exists_reachVia Fresh rotation
    (fun s => (∃ x ∈ s.presented, x.token = ['4'] ∧ x.ok) ∧
      (s.service.store.call retry.now retry.draws retry.call).2.issues) (by decide +kernel)
  obtain ⟨hlive, hapart, hyield⟩ := chained hs
  exact ⟨s, hs, hlive, hapart, hy, hi, hyield retry ['4'] (some ['e']) rfl hi hy⟩

/-- **A token that has yielded credentials was drawn here and is spent.** -/
theorem yielded_spent {token : Text} (h : (ledger .empty).ReachVia Fresh s) (hy : s.Yielded token) :
    token ∈ s.service.drawn ∧ ∀ r ∈ s.service.store.live, r.digest.preimage ≠ token := by
  obtain ⟨x, hx, rfl, hok⟩ := hy
  obtain ⟨hdrawn, hspent, -⟩ := (chain_of_reach h).yielded x hx hok
  exact ⟨hdrawn, hspent⟩

theorem yielded_spent_rotation : ∃ s, (ledger .empty).ReachVia Fresh s ∧
    s.service.store.live ≠ [] ∧ ∀ r ∈ s.service.store.live, r.digest.preimage ≠ ['4'] := by
  obtain ⟨s, hs, hy, hlive⟩ := (ledger .empty).exists_reachVia Fresh rotation
    (fun s => (∃ x ∈ s.presented, x.token = ['4'] ∧ x.ok) ∧ s.service.store.live ≠ [])
    (by decide +kernel)
  exact ⟨s, hs, hlive, (yielded_spent hs hy).2⟩

/-- **A call refused for its retry key leaves the token unused**: the token `4`, whose successor was
presented in it, then yields credentials once more. -/
theorem refused_presentation : ∃ s, (ledger .empty).ReachVia Fresh s ∧ s.Yielded ['4'] ∧
    (s.service.store.call retry.now retry.draws retry.call).2.issues ∧
    (∃ t ∈ s.service.store.retired, t.digest = tokenDigest ['4'] ∧
      t.successor = some (tokenDigest ['8'])) ∧
    s.presented.map (fun x => (x.drawn, x.token)) = [(['8'], ['4']), (['a'], ['8'])] := by
  exact (ledger .empty).exists_reachVia Fresh
    (rotation ++ [⟨.refresh ['8'] (some ['z']), 1500, ⟨['9'], ['b'], ['c'], ['a'], none, none, none⟩⟩])
    (fun s => (∃ x ∈ s.presented, x.token = ['4'] ∧ x.ok) ∧
      (s.service.store.call retry.now retry.draws retry.call).2.issues ∧
      (∃ t ∈ s.service.store.retired, t.digest = tokenDigest ['4'] ∧
        t.successor = some (tokenDigest ['8'])) ∧
      s.presented.map (fun x => (x.drawn, x.token)) = [(['8'], ['4']), (['a'], ['8'])])
    (by decide +kernel)

end Ledger

end OpenStream.Account
