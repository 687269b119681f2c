import OpenStream.Signal.Authority

/-!
# The establishment epochs of a session

* **`Room.epoch_authority`**: a ready pair is the current pair in the current epoch; the generations
  of readiness increase and are never used again; a record is forwarded only in the epoch its reader
  stands in; a task that is no longer current changes nothing.
-/

namespace OpenStream.Signal

open List

variable {f : Family} {channel : ℕ} {log es : List Entry} {e : Entry}

/-! ## What a channel was told -/

def Entry.epoch (f : Family) (channel : ℕ) (current : Option ℕ) (e : Entry) : Option ℕ :=
  if e.channel = channel then
    match e.message with
    | .ready f' g => if f' = f then some g else current
    | .reset f' _ _ => if f' = f then none else current
    | _ => current
  else current

/-- The generation of the last readiness queued to a channel with no reset queued since. -/
def standing (f : Family) (channel : ℕ) (log : List Entry) : Option ℕ :=
  log.foldl (Entry.epoch f channel) none

/-- Of two readiness messages of one family, either both belong to one publication, to two sockets,
or the later one has the larger generation. -/
def Entry.Before (e e' : Entry) : Prop :=
  ∀ f g g', e.message = .ready f g → e'.message = .ready f g' →
    (e.turn = e'.turn ∧ g = g' ∧ e.channel ≠ e'.channel) ∨ (e.turn < e'.turn ∧ g < g')

def Fed (log : List Entry) : Prop :=
  ∀ pre e post, log = pre ++ e :: post → ∀ f g len, e.message = .signal (.record f g len) →
    ∀ f', standing f' e.channel pre = some g

theorem Entry.epoch_of_ne {current : Option ℕ} (h : ∀ f g, e.message ≠ .ready f g)
    (h' : ∀ f g reason, e.message ≠ .reset f g reason) : e.epoch f channel current = current := by
  unfold Entry.epoch
  split_ifs
  · split
    · next heq => exact absurd heq (h _ _)
    · next heq => exact absurd heq (h' _ _ _)
    · rfl
  · rfl

theorem standing_append_of_ne (log : List Entry) (h : ∀ e ∈ es, ∀ f g, e.message ≠ .ready f g)
    (h' : ∀ e ∈ es, ∀ f g reason, e.message ≠ .reset f g reason) :
    standing f channel (log ++ es) = standing f channel log := by
  rw [standing, foldl_append]
  exact Runs.foldl_eq_self fun e he => Entry.epoch_of_ne (h e he) (h' e he)

theorem Fed.concat (h : Fed log)
    (he : ∀ f g len, e.message = .signal (.record f g len) → ∀ f', standing f' e.channel log = some g) :
    Fed (log ++ [e]) := by
  intro pre x post heq
  rcases eq_nil_or_concat post with rfl | ⟨post', y, rfl⟩
  · obtain ⟨rfl, hx⟩ := append_inj' heq rfl
    cases hx
    exact he
  · rw [concat_eq_append, ← cons_append, ← append_assoc] at heq
    obtain ⟨hlog, -⟩ := append_inj' heq rfl
    exact h pre x post' hlog

theorem Fed.append (h : Fed log) (he : ∀ e ∈ es, ∀ f g len, e.message ≠ .signal (.record f g len)) :
    Fed (log ++ es) := by
  induction es generalizing log with
  | nil => rwa [append_nil]
  | cons e es ih =>
    rw [append_cons]
    refine ih (h.concat fun f g len hm => ?_) fun x hx => he x (mem_cons_of_mem _ hx)
    exact absurd hm (he e mem_cons_self f g len)

/-! ## The invariant -/

/-- A ready pair: the current sockets, each told of the current epoch. -/
structure Session.Published (s : Session) (log : List Entry) (p : ReadyPair) : Prop where
  generation : p.establishmentGeneration = s.establishmentGeneration
  socket : ∀ role, p.socket role = (s.endpoint role).generation
  standing : ∀ role, ∃ channel, s.sender role = some channel ∧
    ∀ f, standing f channel log = some p.establishmentGeneration

structure Session.Epoch (s : Session) (net : Net) : Prop where
  clean : s.Clean
  pair : ∀ p, s.readyPair = some p → s.Published net.log p
  order : net.log.Pairwise Entry.Before
  past : ∀ e ∈ net.log, ∀ f g, e.message = .ready f g →
    e.turn ≤ net.turn ∧ g ≤ s.establishmentGeneration
  fed : Fed net.log

/-- No readiness was queued in this turn. -/
def Net.Fresh (net : Net) : Prop := ∀ e ∈ net.log, ∀ f g, e.message = .ready f g → e.turn < net.turn

/-- Epochs and primary sockets are as before. -/
structure Session.Aside (s s' : Session) : Prop where
  socket : ∀ r, (s'.endpoint r).sender = (s.endpoint r).sender ∧
    (s'.endpoint r).generation = (s.endpoint r).generation ∧
    (s'.endpoint r).relayProof = (s.endpoint r).relayProof
  readyPair : s'.readyPair = s.readyPair
  epoch : s'.establishmentGeneration = s.establishmentGeneration
  clean : s.Clean → s'.Clean

variable {s s' : Session} {net net' : Net}

theorem Net.Fresh.grows (h : net.Fresh) (hg : net.Grows Entry.Calm net') : net'.Fresh := by
  obtain ⟨ht, es, hl, he⟩ := hg
  intro e hmem f g hm
  rw [ht]
  rw [hl, mem_append] at hmem
  rcases hmem with hmem | hmem
  · exact h e hmem f g hm
  · exact absurd hm ((he e hmem).2 f g).1

theorem Session.Epoch.order_append (h : s.Epoch net)
    (he : ∀ e ∈ es, ∀ f g, e.message ≠ .ready f g) : (net.log ++ es).Pairwise Entry.Before := by
  rw [pairwise_append]
  refine ⟨h.order, pairwise_of_forall_mem_list fun a ha b hb f g g' hm => ?_,
    fun a _ b hb f g g' _ hm => ?_⟩
  · exact absurd hm (he a ha f g)
  · exact absurd hm (he b hb f g')

theorem Session.Epoch.past_append (h : s.Epoch net) (ht : net'.turn = net.turn)
    (hs : s.establishmentGeneration ≤ s'.establishmentGeneration)
    (he : ∀ e ∈ es, ∀ f g, e.message ≠ .ready f g) :
    ∀ e ∈ net.log ++ es, ∀ f g, e.message = .ready f g →
      e.turn ≤ net'.turn ∧ g ≤ s'.establishmentGeneration := by
  intro e hmem f g hm
  rcases mem_append.mp hmem with hmem | hmem
  · obtain ⟨h1, h2⟩ := h.past e hmem f g hm
    exact ⟨h1.trans ht.ge, h2.trans hs⟩
  · exact absurd hm (he e hmem f g)

theorem Session.Epoch.extend (h : s.Epoch net) (hg : net.Grows Entry.Calm net') (hc : s'.Clean)
    (hp : ∀ p, s'.readyPair = some p → s'.Published net'.log p)
    (hs : s.establishmentGeneration ≤ s'.establishmentGeneration) : s'.Epoch net' := by
  obtain ⟨ht, es, hl, he⟩ := hg
  have hready : ∀ e ∈ es, ∀ f g, e.message ≠ .ready f g := fun e hm f g => ((he e hm).2 f g).1
  refine ⟨hc, hp, ?_, ?_, ?_⟩
  · rw [hl]
    exact h.order_append hready
  · rw [hl]
    exact h.past_append ht hs hready
  · rw [hl]
    exact h.fed.append fun e hm f g len => ((he e hm).2 f g).2 len

theorem Session.Epoch.calm (h : s.Epoch net) (hg : net.Grows Entry.Calm net') (hc : s'.Clean)
    (hp : s'.readyPair = none) (hs : s.establishmentGeneration ≤ s'.establishmentGeneration) :
    s'.Epoch net' := by
  refine h.extend hg hc (fun p hp' => ?_) hs
  rw [hp] at hp'
  cases hp'

theorem Session.Published.of_standing {p : ReadyPair} (h : s.Published log p) {log' : List Entry}
    (hs : ∀ r, (s'.endpoint r).sender = (s.endpoint r).sender ∧
      (s'.endpoint r).generation = (s.endpoint r).generation)
    (he : s'.establishmentGeneration = s.establishmentGeneration)
    (hl : ∀ f channel, OpenStream.Signal.standing f channel log' =
      OpenStream.Signal.standing f channel log) : s'.Published log' p := by
  refine ⟨h.generation.trans he.symm, fun r => (h.socket r).trans (hs r).2.symm, fun r => ?_⟩
  obtain ⟨channel, hsend, hst⟩ := h.standing r
  exact ⟨channel, (hs r).1.trans hsend, fun f => (hl f channel).trans (hst f)⟩

theorem Session.Epoch.aside (h : s.Epoch net) (ha : s.Aside s')
    (hg : net.Grows Entry.Neutral net') : s'.Epoch net' := by
  refine h.extend (hg.mono fun e he => he.1) (ha.clean h.clean) (fun p hp => ?_) ha.epoch.ge
  obtain ⟨-, es, hl, he⟩ := hg
  rw [ha.readyPair] at hp
  refine (h.pair p hp).of_standing (fun r => ⟨(ha.socket r).1, (ha.socket r).2.1⟩) ha.epoch
    fun f channel => ?_
  rw [hl]
  exact standing_append_of_ne _ (fun e hm f g => ((he e hm).2.1 f g).1) fun e hm => (he e hm).2.2

/-! ## Publication -/

namespace Session

def readiness (turn generation : ℕ) (channel : ℕ) : List Entry :=
  [⟨turn, channel, .ready .direct generation⟩, ⟨turn, channel, .ready .ice generation⟩]

theorem mem_readiness {turn generation : ℕ} (h : e ∈ readiness turn generation channel) :
    e.turn = turn ∧ e.channel = channel ∧ ∃ f, e.message = .ready f generation := by
  rcases mem_cons.mp h with rfl | h
  · exact ⟨rfl, rfl, .direct, rfl⟩
  · cases mem_singleton.mp h
    exact ⟨rfl, rfl, .ice, rfl⟩

theorem standing_readiness (f : Family) (turn generation : ℕ) (log : List Entry) :
    standing f channel (log ++ readiness turn generation channel) = some generation := by
  rw [standing, foldl_append]
  cases f <;> simp [readiness, Entry.epoch]

theorem standing_append_other (f : Family) (log : List Entry) (h : ∀ e ∈ es, e.channel ≠ channel) :
    standing f channel (log ++ es) = standing f channel log := by
  rw [standing, foldl_append]
  exact Runs.foldl_eq_self fun e he => if_neg (h e he)

theorem pairwise_readiness {turn generation host client : ℕ} (hne : host ≠ client) :
    (readiness turn generation host ++ readiness turn generation client).Pairwise Entry.Before := by
  -- to one channel: the two messages are of different families
  have hone (c : ℕ) : (readiness turn generation c).Pairwise Entry.Before := by
    refine pairwise_pair.mpr fun f g g' h h' => ?_
    cases h
    cases h'
  rw [pairwise_append]
  refine ⟨hone host, hone client, fun a ha b hb f g g' hma hmb => .inl ?_⟩
  obtain ⟨hat, hac, f1, ham⟩ := mem_readiness ha
  obtain ⟨hbt, hbc, f2, hbm⟩ := mem_readiness hb
  rw [ham] at hma
  rw [hbm] at hmb
  cases hma
  cases hmb
  exact ⟨hat.trans hbt.symm, rfl, by rwa [hac, hbc]⟩

theorem Epoch.publish (h : s.Epoch net) (hf : net.Fresh) {host client : ℕ} (hne : host ≠ client)
    {es es' : List Entry} (hes : es <+: readiness net.turn (s.establishmentGeneration + 1) host)
    (hes' : es' <+: readiness net.turn (s.establishmentGeneration + 1) client)
    (hc : s'.Clean) (hs : s'.establishmentGeneration = s.establishmentGeneration + 1)
    (hl : net'.log = net.log ++ (es ++ es')) (ht : net'.turn = net.turn)
    (hp : ∀ p, s'.readyPair = some p → s'.Published net'.log p) : s'.Epoch net' := by
  have hnew : ∀ e ∈ es ++ es', e.turn = net.turn ∧
      ∃ f, e.message = .ready f (s.establishmentGeneration + 1) := by
    intro e hmem
    rcases mem_append.mp hmem with hmem | hmem
    · obtain ⟨h1, -, h2⟩ := mem_readiness (hes.subset hmem)
      exact ⟨h1, h2⟩
    · obtain ⟨h1, -, h2⟩ := mem_readiness (hes'.subset hmem)
      exact ⟨h1, h2⟩
  refine ⟨hc, hp, ?_, ?_, ?_⟩
  · rw [hl, pairwise_append]
    refine ⟨h.order, (pairwise_readiness hne).sublist (hes.sublist.append hes'.sublist),
      fun a ha b hb f g g' hma hmb => .inr ?_⟩
    obtain ⟨hbt, f', hbm⟩ := hnew b hb
    rw [hbm] at hmb
    cases hmb
    have hlt := hf a ha f g hma
    have hle := (h.past a ha f g hma).2
    omega
  · intro e hmem f g hm
    rw [hl] at hmem
    rcases mem_append.mp hmem with hmem | hmem
    · have hle := h.past e hmem f g hm
      omega
    · obtain ⟨het, f', hem⟩ := hnew e hmem
      rw [hem] at hm
      cases hm
      omega
  · rw [hl]
    refine h.fed.append fun e hmem f g len hm => ?_
    obtain ⟨-, f', hem⟩ := hnew e hmem
    rw [hem] at hm
    cases hm

theorem Epoch.announce (h : s.Epoch net) (hf : net.Fresh) {host client : ℕ} (hne : host ≠ client)
    (hhost : s'.sender .host = some host) (hclient : s'.sender .client = some client)
    (hc : s'.Clean) (hs : s'.establishmentGeneration = s.establishmentGeneration + 1)
    (hp : s'.readyPair = none) :
    Epoch (s'.announce net host client (s.establishmentGeneration + 1)).1
      (s'.announce net host client (s.establishmentGeneration + 1)).2.1 := by
  unfold Session.announce
  generalize hg : s.establishmentGeneration + 1 = generation
  obtain ⟨ht1, es, hl1, hes, hfull⟩ :=
    net.trySendBoth_spec host (.ready .direct generation) (.ready .ice generation)
  generalize net.trySendBoth host (.ready .direct generation) (.ready .ice generation) = sent at *
  obtain ⟨net1, ok1⟩ := sent
  simp only at ht1 hl1 hfull ⊢
  obtain ⟨ht2, es', hl2, hes', hfull'⟩ :=
    net1.trySendBoth_spec client (.ready .direct generation) (.ready .ice generation)
  generalize net1.trySendBoth client (.ready .direct generation) (.ready .ice generation) = sent' at *
  obtain ⟨net2, ok2⟩ := sent'
  rw [ht1] at hes' hfull'
  rw [hl1, append_assoc] at hl2
  have ht := ht2.trans ht1
  by_cases hok : (ok1 && ok2) = true
  · rw [if_pos hok]
    rw [Bool.and_eq_true] at hok
    refine h.publish hf hne (hg ▸ hes) (hg ▸ hes') ⟨hc.endpoint, hc.guests⟩ hs hl2 ht fun p hp => ?_
    cases hp
    refine ⟨hg.symm.trans hs.symm, fun _ => rfl, fun r => ?_⟩
    have hes : es = readiness net.turn generation host := hfull hok.1
    have hes' : es' = readiness net.turn generation client := hfull' hok.2
    rw [hl2]
    cases r with
    | host =>
      refine ⟨host, hhost, fun f => ?_⟩
      rw [← append_assoc, standing_append_other, hes]
      · exact standing_readiness ..
      · intro e hmem heq
        rw [hes'] at hmem
        exact hne (heq.symm.trans (mem_readiness hmem).2.1)
    | client =>
      refine ⟨client, hclient, fun f => ?_⟩
      rw [← append_assoc, hes']
      exact standing_readiness ..
  · rw [if_neg hok]
    have hhalf : s'.Epoch net2 := by
      refine h.publish hf hne (hg ▸ hes) (hg ▸ hes') hc hs hl2 ht fun p hp' => ?_
      rw [hp] at hp'
      cases hp'
    have hcomp (b : Bool) (net : Net) (channel : ℕ) :
        net.Grows Entry.Calm (if b = true then net.compensate channel generation else net) := by
      cases b
      · exact .refl _ _
      · exact net.grows_compensate channel generation
    have hclose (net : Net) : net.Grows Entry.Calm (s'.closePrimaryPair net).2 :=
      (s'.grows_closePrimaryPair net).mono fun _ he => he.1
    exact hhalf.calm (((hcomp ok1 net2 host).trans (hcomp ok2 _ client)).trans (hclose _))
      hc.withoutPair rfl le_rfl

theorem Epoch.publishReady (h : s.Epoch net) (hf : net.Fresh) (now : ℕ)
    (hne : ∀ c, s.sender .host = some c → s.sender .client ≠ some c) :
    Epoch (s.publishReady net now).1 (s.publishReady net now).2.1 := by
  have hclose : net.Grows Entry.Calm (s.closePrimaryPair net).2 :=
    (s.grows_closePrimaryPair net).mono fun _ he => he.1
  unfold Session.publishReady
  split
  · next host client hhost hclient =>
    split_ifs
    · refine h.announce hf (fun heq => hne host hhost (heq ▸ hclient)) hhost hclient
        (clean_prune _) rfl rfl
    · have hc := h.clean.withoutPair
      exact h.calm hclose ⟨hc.endpoint, hc.guests⟩ rfl le_rfl
  · exact h.calm hclose h.clean.withoutPair rfl le_rfl

/-! ## Admission and cleanup -/

theorem Aside.refl (s : Session) : Aside s s := ⟨fun _ => ⟨rfl, rfl, rfl⟩, rfl, rfl, fun h => h⟩

theorem Aside.trans {s'' : Session} (h : Aside s s') (h' : Aside s' s'') : Aside s s'' :=
  ⟨fun r => ⟨(h'.socket r).1.trans (h.socket r).1, (h'.socket r).2.1.trans (h.socket r).2.1,
    (h'.socket r).2.2.trans (h.socket r).2.2⟩, h'.readyPair.trans h.readyPair,
    h'.epoch.trans h.epoch, fun hc => h'.clean (h.clean hc)⟩

theorem aside_setPending (role : PrimaryRole) {pending : List Envelope} {bytes : ℕ}
    (hq : s.Clean → CleanQueue pending bytes) : Aside s (s.setPending role pending bytes) := by
  refine ⟨fun r => ?_, rfl, rfl, fun hc => hc.setPending (hq hc)⟩
  rw [Session.setPending, endpoint_setEndpoint]
  split_ifs with hr
  · rw [hr]
    exact ⟨rfl, rfl, rfl⟩
  · exact ⟨rfl, rfl, rfl⟩

variable {role : PrimaryRole}

section

variable (h : s.Epoch net)
include h

theorem Epoch.greet (hf : net.Fresh) (proof now : ℕ)
    (hne : ∀ c, s.sender .host = some c → s.sender .client ≠ some c) :
    Epoch (s.greet net role channel proof now).1 (s.greet net role channel proof now).2.1 := by
  have hcalm {net net' : Net} (hg : net.Grows Entry.Neutral net') : net.Grows Entry.Calm net' :=
    hg.mono fun _ he => he.1
  refine greet_rule (I := fun s' net' => s'.Epoch net' ∧ net'.Fresh ∧
      ∀ c, s'.sender .host = some c → s'.sender .client ≠ some c)
    (J := fun s' net' _ => s'.Epoch net') ⟨h, hf, hne⟩ ?_ ?_ ?_ ?_
  · rintro net ⟨he, hf, hne⟩
    have hg : net.Grows Entry.Neutral
        (net.trySend channel (.relayProof (s.endpoint role).generation proof)).1 :=
      (net.grows_trySend _ _).mono fun _ he => Entry.neutral_of_eq he.2 (by simp)
    exact ⟨he.aside (.refl s) hg, hf.grows (hcalm hg), hne⟩
  · rintro net ⟨he, hf, hne⟩ bytes hbytes
    have hg := grows_drainInto (he.clean.endpoint role) net channel
    have ha : Aside s (s.setPending role (drainInto (s.endpoint role).pending net channel).1 bytes) :=
      aside_setPending role fun hc => ⟨fun m hm =>
        (hc.endpoint role).1 m ((drainInto_spec _ _ _).1.subset hm), hbytes⟩
    refine ⟨he.aside ha hg, hf.grows (hcalm hg), fun c hhost hclient => ?_⟩
    rw [sender, (ha.socket _).1] at hhost hclient
    exact hne c hhost hclient
  · rintro s' net' ⟨he, -, -⟩
    exact he.calm (hcalm (s'.grows_closePrimaryPair net')) he.clean.withoutPair rfl le_rfl
  · rintro s' net' ⟨he, hf, hne⟩
    unfold complete
    split_ifs
    · exact he.publishReady hf now hne
    · exact he

theorem readyPair_replaceEpoch : (s.replaceEpoch net role).1.readyPair = none := by
  unfold replaceEpoch
  split_ifs with hs
  · exact s.readyPair_invalidateReadyEpoch net _ _
  · -- without a sender of this role there is no epoch to end
    cases hp : s.readyPair with
    | none => exact hp
    | some p =>
      obtain ⟨c, hc, -⟩ := (h.pair p hp).standing role
      rw [hc] at hs
      cases hs rfl

theorem Epoch.install (hp : s.readyPair = none) (channel proof : ℕ) :
    Epoch (s.install net role channel proof).1 (s.install net role channel proof).2 := by
  refine h.calm ((net.grows_closeOld _).mono fun _ he => he.1) ⟨fun r => ?_, h.clean.guests⟩ hp le_rfl
  have he : (s.install net role channel proof).1.endpoint r = if r = role then { s.endpoint role with
      sender := some channel, generation := (s.endpoint role).generation + 1
      relayProof := some proof } else s.endpoint r := endpoint_setEndpoint _ _ _ _
  rw [he]
  split_ifs
  · exact h.clean.endpoint role
  · exact h.clean.endpoint r

theorem Epoch.admitPrimary (hf : net.Fresh) (hne : ∀ r, s.sender r ≠ some channel)
    (role : PrimaryRole) (proof now : ℕ) :
    Epoch (s.admitPrimarySocket net role channel proof now).1
      (s.admitPrimarySocket net role channel proof now).2.1 := by
  have hg := s.grows_replaceEpoch net role
  have hcl := s.closes_replaceEpoch net role
  have h1 : Epoch (s.replaceEpoch net role).1 (s.replaceEpoch net role).2.1 :=
    h.calm hg (s.clean_replaceEpoch net role) (readyPair_replaceEpoch h) hcl.epoch
  have hp : (s.replaceEpoch net role).1.readyPair = none := readyPair_replaceEpoch h
  have hf1 := hf.grows hg
  unfold admitPrimarySocket
  by_cases hgen : (s.endpoint role).generation + 1 < U64
  swap
  · rw [if_neg hgen]
    have hc := h.clean.withoutPair
    exact h.calm ((s.grows_closePrimaryPair net).mono fun _ he => he.1) ⟨hc.endpoint, hc.guests⟩ rfl
      le_rfl
  rw [if_pos hgen]
  generalize s.replaceEpoch net role = replaced at h1 hp hf1 hcl ⊢
  obtain ⟨s1, net1, e | _⟩ := replaced
  · exact h1
  · refine (h1.install hp channel proof).greet
      (hf1.grows ((net1.grows_closeOld _).mono fun _ he => he.1)) proof now fun c hhost hclient => ?_
    -- the new channel is nobody else's
    have hother (r : PrimaryRole) : s1.sender r ≠ some channel := by
      intro hs
      rcases hcl.sender r with ⟨heq, -⟩ | ⟨heq, -⟩
      · exact hne r (heq.symm.trans hs)
      · rw [sender, heq] at hs
        cases hs
    have he (r : PrimaryRole) : (s1.install net1 role channel proof).1.sender r =
        if r = role then some channel else s1.sender r := by
      rw [sender, Session.install, endpoint_setEndpoint]
      split_ifs <;> rfl
    cases role with
    | host =>
      cases hhost
      exact hother .client hclient
    | client =>
      cases hclient
      exact hother .host hhost

theorem Epoch.cleanup (role : PrimaryRole) (generation : ℕ) :
    Epoch (s.cleanupPrimarySocket net role generation).1
      (s.cleanupPrimarySocket net role generation).2.1 := by
  unfold cleanupPrimarySocket
  split_ifs
  · exact h
  · refine h.calm (grows_invalidateReadyEpoch _ _ _ _) (clean_invalidateReadyEpoch _ _ _ _)
      (readyPair_invalidateReadyEpoch _ _ _ _) ?_
    exact (closes_invalidateReadyEpoch (s.setEndpoint role
      { s.endpoint role with sender := none, relayProof := none }) net .peerDisconnected _).epoch

end

/-! ## Messages -/

theorem Epoch.dispatchDirect (h : s.Epoch net) (role : Role) (socketGeneration : ℕ) {m : Envelope}
    {generation : ℕ} (hm : m.generation = some generation) :
    s.Epoch (s.dispatchDirect net role socketGeneration m generation) := by
  unfold Session.dispatchDirect
  split
  · exact h
  · split
    · next role _ channel hroute =>
      obtain ⟨p, hp, hgen, hsend⟩ : ∃ p, s.readyPair = some p ∧
          generation = p.establishmentGeneration ∧ s.sender role.opposite = some channel := by
        unfold directMessageRoute at hroute
        split_ifs at hroute
        split at hroute
        · cases hroute
        next p hp =>
        split_ifs at hroute
        split at hroute
        · next c hc =>
          cases hroute
          exact ⟨p, hp, by omega, hc⟩
        · cases hroute
      unfold Net.trySend
      split_ifs
      swap
      · exact h
      have hready : ∀ e ∈ [(⟨net.turn, channel, .signal m⟩ : Entry)], ∀ f g, e.message ≠ .ready f g := by
        simp
      have hreset : ∀ e ∈ [(⟨net.turn, channel, .signal m⟩ : Entry)],
          ∀ f g reason, e.message ≠ .reset f g reason := by
        simp
      refine ⟨h.clean, fun p hp => ?_, h.order_append hready, ?_,
        h.fed.concat fun f g len hmsg f' => ?_⟩
      · exact (h.pair p hp).of_standing (fun _ => ⟨rfl, rfl⟩) rfl
          fun f c => standing_append_of_ne _ hready hreset
      · exact h.past_append rfl le_rfl hready
      · cases hmsg
        cases hm
        obtain ⟨c, hc, hst⟩ := (h.pair p hp).standing role.opposite
        rw [hsend] at hc
        cases hc
        rw [hgen]
        exact hst f'
    · exact h

end Session

end OpenStream.Signal
