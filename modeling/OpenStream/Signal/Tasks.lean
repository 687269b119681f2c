import OpenStream.Signal.Epoch

/-!
# The socket tasks of a session, and its epochs over whole runs

* **`Room.epoch_authority`**: what is published and forwarded is of the current sockets.
-/

namespace OpenStream.Signal

open List Option Session

namespace Session

variable {s s' : Session} {net : Net} {role : PrimaryRole}

/-! ## Operations that leave epochs aside -/

theorem mem_modifyFirst {p : Guest → Bool} {f : Guest → Guest} {x : Guest} :
    ∀ {l : List Guest}, x ∈ modifyFirst p f l → x ∈ l ∨ ∃ y ∈ l, x = f y
  | a :: l, hx => by
    unfold modifyFirst at hx
    split_ifs at hx
    · rcases mem_cons.mp hx with rfl | hx
      · exact .inr ⟨a, mem_cons_self, rfl⟩
      · exact .inl (mem_cons_of_mem _ hx)
    · rcases mem_cons.mp hx with rfl | hx
      · exact .inl mem_cons_self
      · rcases mem_modifyFirst hx with hx | ⟨y, hy, rfl⟩
        · exact .inl (mem_cons_of_mem _ hx)
        · exact .inr ⟨y, mem_cons_of_mem _ hy, rfl⟩

theorem aside_guests {guests : List Guest}
    (h : s.Clean → ∀ g ∈ guests, CleanQueue g.pending g.pendingBytes) :
    Aside s { s with guests := guests } :=
  ⟨fun _ => ⟨rfl, rfl, rfl⟩, rfl, rfl, fun hc => ⟨hc.endpoint, h hc⟩⟩

theorem aside_modifyFirst {p : Guest → Bool} {f : Guest → Guest}
    (h : s.Clean → ∀ g ∈ s.guests, CleanQueue (f g).pending (f g).pendingBytes) :
    Aside s { s with guests := modifyFirst p f s.guests } := by
  refine aside_guests fun hc x hx => ?_
  rcases mem_modifyFirst hx with hx | ⟨y, hy, rfl⟩
  · exact hc.guests x hx
  · exact h hc y hy

theorem aside_relay (s : Session) (relay : PrimaryRole → Option RelaySlot) :
    Aside s { s with relay := relay } :=
  ⟨fun _ => ⟨rfl, rfl, rfl⟩, rfl, rfl, fun hc => ⟨hc.endpoint, hc.guests⟩⟩

theorem aside_parkActive (s : Session) (net : Net) : Aside s (s.parkActive net).1 := by
  unfold parkActive
  split
  · exact .refl s
  · refine Aside.trans ?_ (aside_relay _ _)
    exact aside_modifyFirst fun hc g hg => hc.guests g hg

theorem grows_parkActive (s : Session) (net : Net) :
    net.Grows Entry.Neutral (s.parkActive net).2 := by
  unfold parkActive
  split
  · exact .refl _ _
  · simp only
    split
    · exact (net.grows_trySend _ _).mono fun _ he => Entry.neutral_of_eq he.2 (by simp)
    · exact .refl _ _

theorem aside_connectGuest (s : Session) (net : Net) (g : Guest) (channel proof : ℕ)
    (active : Bool) : Aside s (s.connectGuest net g channel proof active).1 := by
  have h : Aside s (s.clearRelayOwner (.guest g.id)) := aside_relay s _
  exact h.trans (aside_modifyFirst fun hc g hg => hc.guests g hg)

theorem aside_activateGuest (s : Session) (net : Net) {g : Guest} (hg : g ∈ s.guests)
    (channel proof : ℕ) : Aside s (s.activateGuest net g channel proof).1 := by
  unfold activateGuest
  obtain ⟨hsuf, hnil, -⟩ := drainInto_spec g.pending net channel
  simp only
  have ha : Aside s (s.modifyGuest g.id fun guest => { guest with
      pending := (drainInto g.pending net channel).1
      pendingBytes := if (drainInto g.pending net channel).2.2 then 0
        else bytesOf (drainInto g.pending net channel).1 }) := by
    refine aside_modifyFirst fun hc x _ => ⟨fun m hm => (hc.guests g hg).1 m (hsuf.subset hm), ?_⟩
    split_ifs with hd
    · rw [hnil hd]
      rfl
    · rfl
  by_cases hd : (!(drainInto g.pending net channel).2.2) = true
  · rw [if_pos hd]
    exact ha
  · rw [if_neg hd]
    exact ha.trans (aside_connectGuest _ _ _ _ _ _)

theorem aside_admitGuest (s : Session) (net : Net) (id channel proof : ℕ) :
    Aside s (s.admitGuest net id channel proof).1 := by
  unfold admitGuest
  cases hf : s.findGuest id with
  | none => exact .refl s
  | some g =>
    simp only
    split_ifs
    · exact .refl s
    · exact s.aside_activateGuest _ (mem_of_find?_eq_some hf) _ _
    · exact .refl s
    · exact s.aside_connectGuest _ _ _ _ _
    · exact .refl s

theorem grows_admitGuest (hc : s.Clean) (net : Net) (id channel proof : ℕ) :
    net.Grows Entry.Neutral (s.admitGuest net id channel proof).2.1 := by
  have hsend (net : Net) (m : Message) (hm : m = .parked ∨ ∃ g p, m = .relayProof g p) :
      net.Grows Entry.Neutral (net.trySend channel m).1 := by
    refine (net.grows_trySend channel m).mono fun e he => Entry.neutral_of_eq he.2 ?_
    rcases hm with hm | hm <;> simp [hm]
  unfold admitGuest
  cases hf : s.findGuest id with
  | none => exact .refl _ _
  | some g =>
    have hproof := hsend net (.relayProof (g.generation + 1) proof) (.inr ⟨_, _, rfl⟩)
    have hclean := hc.guests g (mem_of_find?_eq_some hf)
    simp only
    split_ifs
    · exact hproof
    · refine hproof.trans ?_
      unfold activateGuest
      simp only
      have hdrain := grows_drainInto hclean
        (net.trySend channel (.relayProof (g.generation + 1) proof)).1 channel
      by_cases hd : (!(drainInto g.pending
          (net.trySend channel (.relayProof (g.generation + 1) proof)).1 channel).2.2) = true
      · rw [if_pos hd]
        exact hdrain
      · rw [if_neg hd]
        exact hdrain.trans (Net.grows_closeOld _ _)
    · exact hproof.trans (hsend _ _ (.inl rfl))
    · exact (hproof.trans (hsend _ _ (.inl rfl))).trans (Net.grows_closeOld _ _)
    · exact .refl _ _

theorem aside_afterGuest (s : Session) (wasActive : Bool) : Aside s (s.afterGuest wasActive).1 := by
  unfold afterGuest
  split_ifs
  · unfold takePromotionSender
    split
    · exact .refl s
    · exact aside_modifyFirst fun hc g hg => hc.guests g hg
  · exact .refl s

theorem aside_cleanupGuest (s : Session) (id generation : ℕ) :
    Aside s (s.cleanupGuest id generation).1 := by
  unfold cleanupGuest
  split
  · exact .refl s
  · simp only
    split_ifs
    · exact .refl s
    · refine Aside.trans (Aside.trans ?_ (aside_relay _ _)) (aside_afterGuest _ _)
      exact aside_modifyFirst fun hc g hg => hc.guests g hg

theorem aside_kickGuest (s : Session) (id : ℕ) : Aside s (s.kickGuest id).1 := by
  unfold kickGuest
  split
  · exact .refl s
  · refine Aside.trans (Aside.trans ?_ (aside_relay _ _)) (aside_afterGuest _ _)
    exact aside_guests fun hc g hg => hc.guests g (mem_of_mem_eraseP hg)

theorem aside_createGuest (s : Session) (id : ℕ) (input : Bool) : Aside s (s.createGuest id input) := by
  unfold createGuest
  split_ifs
  · exact .refl s
  · refine aside_guests fun hc g hg => ?_
    rw [mem_append, mem_singleton] at hg
    rcases hg with hg | rfl
    · exact hc.guests g hg
    · exact ⟨nofun, rfl⟩

theorem cleanQueue_queuePending {pending : List Envelope} {bytes : ℕ} (h : CleanQueue pending bytes)
    (m : Envelope) : CleanQueue (queuePending pending bytes m).1 (queuePending pending bytes m).2 := by
  unfold queuePending
  split_ifs with hm
  · exact h
  · exact h
  · refine ⟨fun x hx => ?_, ?_⟩
    · rw [mem_append, mem_singleton] at hx
      rcases hx with hx | rfl
      · exact h.1 x hx
      · simpa using hm
    · simp [bytesOf, h.2]

theorem aside_queueFor (s : Session) (role : Role) (m : Envelope) : Aside s (s.queueFor role m) := by
  unfold queueFor
  split
  · split_ifs
    · exact aside_modifyFirst fun hc g hg => cleanQueue_queuePending (hc.guests g hg) m
    · exact aside_setPending _ fun hc => cleanQueue_queuePending (hc.endpoint .client) m
  · exact aside_setPending _ fun hc => cleanQueue_queuePending (hc.endpoint .host) m

theorem grows_sendAll (len : ℕ) : ∀ (channels : List ℕ) (net : Net),
    net.Grows Entry.Neutral (sendAll (.signal (.path len)) channels net)
  | [], net => .refl _ _
  | channel :: channels, net => by
    have hsend : net.Grows Entry.Neutral (net.trySend channel (.signal (.path len))).1 :=
      (net.grows_trySend _ _).mono fun _ he => Entry.neutral_of_eq he.2 (by simp)
    unfold sendAll
    split_ifs
    · exact hsend.trans (grows_sendAll len channels _)
    · exact hsend

theorem Epoch.receiveSignal (h : s.Epoch net) (role : Role) (generation channel : ℕ) (m : Envelope) :
    Epoch (s.receiveSignal net role generation channel m).1
      (s.receiveSignal net role generation channel m).2 := by
  cases m with
  | record f g len => exact h.dispatchDirect role generation rfl
  | path len =>
    simp only [Session.receiveSignal, Envelope.generation, dispatchGenericMessage]
    split_ifs
    · exact h
    · exact h.aside (s.aside_queueFor role _) (.refl _ _)
    · exact h.aside (.refl s) (grows_sendAll len _ _)

/-! ## Who holds a socket -/

/-- The task a sender belongs to, and the tasks before it. -/
structure Seated (s : Session) (tasks : List (Option Task)) : Prop where
  proof : ∀ role, s.sender role = none → (s.endpoint role).relayProof = none
  task : ∀ role channel, s.sender role = some channel →
    tasks[channel]? = some (some ⟨.primary role, (s.endpoint role).generation⟩)
  past : ∀ channel role g, tasks[channel]? = some (some ⟨.primary role, g⟩) →
    g < (s.endpoint role).generation ∨ (g = (s.endpoint role).generation ∧
      (s.sender role = none ∨ s.sender role = some channel))

variable {tasks : List (Option Task)}

theorem Seated.closes (h : Seated s tasks) (hc : Closes s s') : Seated s' tasks := by
  refine ⟨fun r hs => ?_, fun r c hs => ?_, fun c r g ht => ?_⟩
  · rcases hc.sender r with ⟨h1, h2⟩ | ⟨-, h2⟩
    · exact h2.trans (h.proof r (h1.symm.trans hs))
    · exact h2
  · rw [hc.generation]
    rcases hc.sender r with ⟨h1, -⟩ | ⟨h1, -⟩
    · exact h.task r c (h1.symm.trans hs)
    · rw [sender, h1] at hs
      cases hs
  · rw [hc.generation]
    refine (h.past c r g ht).imp_right (And.imp_right fun hs => ?_)
    rcases hc.sender r with ⟨h1, -⟩ | ⟨h1, -⟩
    · rwa [sender, h1]
    · exact .inl h1

theorem Seated.aside (h : Seated s tasks) (ha : Aside s s') : Seated s' tasks := by
  refine ⟨fun r hs => ?_, fun r c hs => ?_, fun c r g ht => ?_⟩
  · exact (ha.socket r).2.2.trans (h.proof r ((ha.socket r).1.symm.trans hs))
  · rw [(ha.socket r).2.1]
    exact h.task r c ((ha.socket r).1.symm.trans hs)
  · rw [(ha.socket r).2.1, sender, (ha.socket r).1]
    exact h.past c r g ht

theorem Seated.lt_length {channel : ℕ} (h : Seated s tasks) (hs : s.sender role = some channel) :
    channel < tasks.length :=
  (List.getElem?_eq_some_iff.mp (h.task role channel hs)).1

theorem getElem?_concat {t : Option Task} {channel : ℕ} {x : Option Task}
    (h : (tasks ++ [t])[channel]? = some x) :
    tasks[channel]? = some x ∨ (channel = tasks.length ∧ t = x) := by
  rcases Nat.lt_or_ge channel tasks.length with hlt | hge
  · rw [List.getElem?_append_left hlt] at h
    exact .inl h
  · rw [List.getElem?_append_right hge] at h
    obtain ⟨hlt, heq⟩ := List.getElem?_eq_some_iff.mp h
    rw [List.length_singleton] at hlt
    refine .inr ⟨by omega, ?_⟩
    rwa [List.getElem_singleton] at heq

theorem Seated.concat (h : Seated s tasks) {t : Option Task}
    (ht : ∀ role g, t ≠ some ⟨.primary role, g⟩) : Seated s (tasks ++ [t]) := by
  refine ⟨h.proof, fun r c hs => ?_, fun c r g hc => ?_⟩
  · rw [getElem?_append_left (h.lt_length hs)]
    exact h.task r c hs
  · rcases getElem?_concat hc with hc | ⟨-, hc⟩
    · exact h.past c r g hc
    · exact absurd hc (ht r g)

theorem Seated.admits {proof : ℕ} (h : Seated s tasks) (ha : Admits role tasks.length proof s s') :
    Seated s' (tasks ++ [some ⟨.primary role, (s'.endpoint role).generation⟩]) := by
  refine ⟨fun r hs => ?_, fun r c hs => ?_, fun c r g hc => ?_⟩
  · by_cases hr : r = role
    · subst hr
      rcases ha.own with ⟨h1, -, -⟩ | ⟨-, h2, -⟩
      · rw [sender, h1] at hs
        cases hs
      · exact h2
    · rcases ha.sender r hr with ⟨h1, h2⟩ | ⟨-, h2⟩
      · exact h2.trans (h.proof r (h1.symm.trans hs))
      · exact h2
  · by_cases hr : r = role
    · subst hr
      rcases ha.own with ⟨h1, -, -⟩ | ⟨h1, -, -⟩ <;> rw [sender, h1] at hs <;> cases hs
      rw [getElem?_concat_length]
    · rcases ha.sender r hr with ⟨h1, -⟩ | ⟨h1, -⟩
      · have hs' := h1.symm.trans hs
        rw [getElem?_append_left (h.lt_length hs'), ha.generation r hr]
        exact h.task r c hs'
      · rw [sender, h1] at hs
        cases hs
  · by_cases hr : r = role
    · subst hr
      rcases getElem?_concat hc with hc | ⟨rfl, ht⟩
      · rcases ha.own with ⟨-, h2, -⟩ | ⟨h1, -, h2⟩
        · have hle := h.past c r g hc
          omega
        · refine (Nat.lt_or_ge _ _).imp_right fun hge => ⟨?_, .inl h1⟩
          have hle := h.past c r g hc
          omega
      · cases ht
        refine .inr ⟨rfl, ?_⟩
        rcases ha.own with ⟨h1, -, -⟩ | ⟨h1, -, -⟩
        · exact .inr h1
        · exact .inl h1
    · rcases getElem?_concat hc with hc | ⟨-, hc⟩
      · rw [ha.generation r hr]
        refine (h.past c r g hc).imp_right (And.imp_right fun hs => ?_)
        rcases ha.sender r hr with ⟨h1, -⟩ | ⟨h1, -⟩
        · rwa [sender, h1]
        · exact .inl h1
      · cases hc
        exact absurd rfl hr

theorem Seated.refused {proof : ℕ} (h : Seated s tasks) (ha : Admits role tasks.length proof s s')
    (hs : ∀ r, s'.sender r = none) : Seated s' (tasks ++ [none]) := by
  have hnew := h.admits ha
  refine ⟨hnew.proof, fun r c hc => ?_, fun c r g hc => ?_⟩
  · rw [hs r] at hc
    cases hc
  · rcases getElem?_concat hc with hc | ⟨-, hc⟩
    · refine hnew.past c r g ?_
      rwa [List.getElem?_append_left (List.getElem?_eq_some_iff.mp hc).1]
    · cases hc

/-! ## Tasks that are no longer current -/

variable {n : ℕ}

theorem Epoch.readyPair_of_sender (h : s.Epoch net) (hs : s.sender role = none) :
    s.readyPair = none := by
  cases hp : s.readyPair with
  | none => rfl
  | some p =>
    obtain ⟨c, hc, -⟩ := (h.pair p hp).standing role
    rw [hs] at hc
    cases hc

theorem cleanup_of_gone (h : s.Epoch net) (hs : s.sender role = none)
    (hp : (s.endpoint role).relayProof = none) :
    s.cleanupPrimarySocket net role (s.endpoint role).generation = (s, net, true) := by
  have he : { s.endpoint role with sender := none, relayProof := none } = s.endpoint role := by
    have hs : (s.endpoint role).sender = none := hs
    generalize s.endpoint role = e at hs hp ⊢
    cases e
    subst hs hp
    rfl
  have hset : s.setEndpoint role { s.endpoint role with sender := none, relayProof := none } = s := by
    rw [he, setEndpoint, Function.update_eq_self]
  unfold cleanupPrimarySocket
  simp only [hset]
  unfold invalidateReadyEpoch
  rw [h.readyPair_of_sender hs]
  simp [prune_of_clean h.clean]

theorem clearRelayOwner_of_gone (h : Authority n s) (hs : s.sender role = none) :
    s.clearRelayOwner (.primary role) = s := by
  have hslot (r : PrimaryRole) (slot : RelaySlot) (hr : s.relay r = some slot) :
      slot.owner ≠ .primary role := by
    intro ho
    have hown := h.owned r slot hr
    cases r with
    | host =>
      obtain ⟨h1, h2, -⟩ := hown
      rw [h1] at ho
      cases ho
      rw [hs] at h2
      cases h2
    | client =>
      rcases hown with ⟨h1, h2, -⟩ | ⟨g, -, -, h1, -⟩
      · rw [h1] at ho
        cases ho
        rw [hs] at h2
        cases h2
      · rw [h1] at ho
        cases ho
  have hrelay : (fun r => (s.relay r).filter fun slot => slot.owner ≠ .primary role) = s.relay := by
    funext r
    cases hr : s.relay r with
    | none => rfl
    | some slot => simp [hslot r slot hr]
  rw [clearRelayOwner, hrelay]

end Session

/-! ## Runs -/

namespace Room

variable {r r' : Room}
variable {channel g : ℕ} {role : PrimaryRole}

/-- **The invariant of a session with its queues and tasks.** -/
structure Sound (r : Room) : Prop where
  authority : r.session.Authority r.issued
  epoch : r.session.Epoch r.net
  seated : r.session.Seated r.tasks
  owed : ∀ x ∈ r.owed, x.2 = .promoted ∨ x.2 = .close

theorem Sound.new (expiresAt maxGuests : ℕ) : Sound (Room.new expiresAt maxGuests) where
  authority := .new expiresAt maxGuests
  epoch := by
    refine ⟨⟨fun _ => ⟨nofun, rfl⟩,
      nofun⟩, nofun, List.Pairwise.nil,
      nofun, fun pre e post heq => ?_⟩
    cases pre <;> cases heq
  seated := ⟨fun _ _ => rfl, nofun, nofun⟩
  owed := nofun

theorem sound_admitPrimary (h : Sound r) (hf : r.net.Fresh) (role : PrimaryRole) (now : ℕ) :
    (r.admitPrimary role now).session.Epoch (r.admitPrimary role now).net ∧
      (r.admitPrimary role now).session.Seated (r.admitPrimary role now).tasks := by
  have hne (r' : PrimaryRole) : r.session.sender r' ≠ some r.tasks.length :=
    fun hs => absurd (h.seated.lt_length hs) (lt_irrefl _)
  have he := h.epoch.admitPrimary hf hne role r.issued now
  have ha := r.session.admits r.net role r.tasks.length r.issued now
  have hres := r.session.admit_result r.net role r.tasks.length r.issued now
  unfold admitPrimary
  generalize r.session.admitPrimarySocket r.net role r.tasks.length r.issued now = admitted at he ha hres ⊢
  obtain ⟨s, net, e | g⟩ := admitted
  · exact ⟨he, h.seated.refused ha hres⟩
  · cases role with
    | host => exact ⟨he, by rw [hres]; exact h.seated.admits ha⟩
    | client =>
      have hpark := s.aside_parkActive net
      exact ⟨he.aside hpark (s.grows_parkActive net),
        by rw [hres]; exact (h.seated.admits ha).aside hpark⟩

theorem sound_disconnect (h : Sound r) (task : Task) :
    (r.disconnect task).session.Epoch (r.disconnect task).net ∧
      (r.disconnect task).session.Seated (r.disconnect task).tasks ∧
      ∀ x ∈ (r.disconnect task).owed, x.2 = .promoted ∨ x.2 = .close := by
  unfold disconnect
  split
  · next role _ =>
    have he := h.epoch.cleanup role task.generation
    refine ⟨?_, h.seated.closes (closes_disconnectPrimary _ _ _ _), h.owed⟩
    show Session.Epoch (if _ then _ else _) _
    split_ifs
    · exact he.aside (aside_relay _ _) (.refl _ _)
    · exact he
  · next id _ =>
    have ha := r.session.aside_cleanupGuest id task.generation
    refine ⟨h.epoch.aside ha (.refl _ _), h.seated.aside ha, fun x hx => ?_⟩
    rcases mem_append.mp hx with hx | hx
    · exact h.owed x hx
    · obtain ⟨c, -, rfl⟩ := mem_map.mp hx
      exact .inl rfl

theorem sound_kickGuest (h : Sound r) (id : ℕ) :
    ∀ x ∈ (r.kickGuest id).owed, x.2 = .promoted ∨ x.2 = .close := by
  intro x hx
  rcases mem_append.mp hx with hx | hx
  · rcases mem_append.mp hx with hx | hx
    · exact h.owed x hx
    · obtain ⟨c, -, rfl⟩ := mem_map.mp hx
      exact .inr rfl
  · obtain ⟨c, -, rfl⟩ := mem_map.mp hx
    exact .inl rfl

theorem Sound.aside (h : Sound r) {s : Session} (ha : r.session.Aside s) :
    s.Epoch r.net ∧ s.Seated r.tasks ∧ ∀ x ∈ r.owed, x.2 = .promoted ∨ x.2 = .close :=
  ⟨h.epoch.aside ha (.refl _ _), h.seated.aside ha, h.owed⟩

theorem sound_of_act {a : Act} (h : Sound r) (hf : r.net.Fresh) (hs : r.act a = some r') :
    Sound r' := by
  have hauth := authority_of_act h.authority hs
  suffices hrest : r'.session.Epoch r'.net ∧ r'.session.Seated r'.tasks ∧
      ∀ x ∈ r'.owed, x.2 = .promoted ∨ x.2 = .close from ⟨hauth, hrest.1, hrest.2.1, hrest.2.2⟩
  cases a with
  | admitPrimary role now =>
    rw [eq_of_live hs]
    obtain ⟨he, hst⟩ := sound_admitPrimary h hf role now
    refine ⟨he, hst, fun x hx => h.owed x ?_⟩
    unfold admitPrimary at hx
    simp only at hx
    split at hx <;> exact hx
  | admitGuest id now =>
    rw [eq_of_live hs]
    have ha := r.session.aside_admitGuest r.net id r.tasks.length r.issued
    refine ⟨h.epoch.aside ha (grows_admitGuest h.epoch.clean _ _ _ _),
      (h.seated.aside ha).concat fun role g heq => ?_, h.owed⟩
    obtain ⟨g', -, hg⟩ := map_eq_some_iff.mp heq
    cases hg
  | disconnect channel now =>
    obtain ⟨task, -, hl⟩ := bind_eq_some_iff.mp hs
    rw [eq_of_live hl]
    exact sound_disconnect h task
  | receive channel m now =>
    obtain ⟨task, -, hl⟩ := bind_eq_some_iff.mp hs
    rw [eq_of_live hl]
    refine ⟨h.epoch.receiveSignal task.role task.generation channel m, ?_, h.owed⟩
    show Session.Seated (r.session.receiveSignal _ _ _ _ _).1 _
    rcases r.session.receiveSignal_session r.net task.role task.generation channel m with
      heq | ⟨-, heq⟩
    · rw [heq]
      exact h.seated
    · rw [heq]
      exact h.seated.aside (r.session.aside_queueFor _ _)
  | reply channel =>
    obtain ⟨task, -, rfl⟩ := map_eq_some_iff.mp hs
    refine ⟨h.epoch.aside (.refl _) ((r.net.grows_trySend _ _).mono fun _ he => ?_), h.seated, h.owed⟩
    exact Entry.neutral_of_eq he.2 (by simp)
  | notify =>
    simp only [act] at hs
    split at hs
    · cases hs
    next channel m owed heq =>
    cases hs
    have hm : m = .promoted ∨ m = .close := h.owed (channel, m) (heq ▸ mem_cons_self)
    refine ⟨h.epoch.aside (.refl _) ((r.net.grows_trySend _ _).mono fun _ he => ?_), h.seated,
      fun x hx => h.owed x (heq ▸ mem_cons_of_mem _ hx)⟩
    rcases hm with rfl | rfl <;> exact Entry.neutral_of_eq he.2 (by simp)
  | write channel | closeWriter channel =>
    cases hs
    exact ⟨h.epoch.aside (.refl _) ⟨rfl, [], (append_nil _).symm, by simp⟩, h.seated, h.owed⟩
  | createGuest input now =>
    rw [eq_of_live hs]
    exact h.aside (r.session.aside_createGuest r.issued input)
  | kickGuest id now =>
    rw [eq_of_live hs]
    obtain ⟨he, hst, -⟩ := h.aside (r.session.aside_kickGuest id)
    exact ⟨he, hst, sound_kickGuest h id⟩
  | reissue subject proof now =>
    obtain ⟨ticket, -, hl⟩ := bind_eq_some_iff.mp hs
    rw [eq_of_live hl]
    exact ⟨h.epoch, h.seated, h.owed⟩
  | register role source ticket now =>
    simp only [act] at hs
    split_ifs at hs
    obtain ⟨s, hr, hl⟩ := bind_eq_some_iff.mp hs
    obtain ⟨owner, -, rfl⟩ := map_eq_some_iff.mp hr
    rw [eq_of_live hl]
    exact h.aside (aside_relay _ _)
  | unregister role source ticket now =>
    simp only [act] at hs
    split_ifs at hs
    obtain ⟨s, hr, hl⟩ := bind_eq_some_iff.mp hs
    obtain ⟨owner, -, rfl⟩ := map_eq_some_iff.mp hr
    rw [eq_of_live hl]
    split_ifs
    · exact h.aside (aside_relay _ _)
    · exact ⟨h.epoch, h.seated, h.owed⟩
  | datagram source bytes now =>
    obtain ⟨⟨s, dest⟩, hr, rfl⟩ := map_eq_some_iff.mp hs
    unfold relayDatagram at hr
    split_ifs at hr
    obtain ⟨⟨role, slot⟩, -, heq⟩ := map_eq_some_iff.mp hr
    cases heq
    exact h.aside (aside_relay _ _)
  | evict addr | reapSlots now =>
    cases hs
    exact h.aside (aside_relay _ _)

theorem sound_of_step {a : Act} (h : Sound r) (hs : r.step a = some r') : Sound r' := by
  refine sound_of_act (r := { r with net := { r.net with turn := r.net.turn + 1 } })
    ⟨h.authority, ⟨h.epoch.clean, h.epoch.pair, h.epoch.order, fun e he f g hm => ?_, h.epoch.fed⟩,
      h.seated, h.owed⟩ (fun e he f g hm => Nat.lt_succ_of_le (h.epoch.past e he f g hm).1) hs
  exact ⟨Nat.le_succ_of_le (h.epoch.past e he f g hm).1, (h.epoch.past e he f g hm).2⟩

variable {expiresAt maxGuests : ℕ}

theorem sound_of_reach (h : (room expiresAt maxGuests).Reach r) : Sound r :=
  h.invariant (I := Sound) (Sound.new expiresAt maxGuests) fun _ _ _ hi _ hs => sound_of_step hi hs

section

variable (h : Sound r) (ht : r.tasks[channel]? = some (some ⟨.primary role, g⟩))
  (hs : r.session.roleSocketIsCurrent (.primary role) g channel = false)

include h ht hs

theorem Sound.stale : (r.session.endpoint role).generation ≠ g ∨
      ((r.session.endpoint role).generation = g ∧ r.session.sender role = none) := by
  rcases h.seated.past channel role g ht with hlt | ⟨rfl, hgone | hsend⟩
  · exact .inl (Nat.ne_of_gt hlt)
  · exact .inr ⟨rfl, hgone⟩
  · have hsend : (r.session.endpoint role).sender = some channel := hsend
    simp [roleSocketIsCurrent, hsend] at hs

theorem disconnect_of_stale : r.disconnect ⟨.primary role, g⟩ = r := by
  unfold disconnect
  simp only
  rcases h.stale ht hs with hne | ⟨rfl, hgone⟩
  · simp [cleanupPrimarySocket, hne]
  · rw [cleanup_of_gone h.epoch hgone (h.seated.proof role hgone)]
    simp [clearRelayOwner_of_gone h.authority hgone]

theorem receive_of_stale (m : Envelope) : r.receive channel ⟨.primary role, g⟩ m = r := by
  have hsame : r.session.receiveSignal r.net (.primary role) g channel m = (r.session, r.net) := by
    cases m with
    | path len => simp [receiveSignal, Envelope.generation, dispatchGenericMessage, hs]
    | record f est len =>
      simp only [receiveSignal, Envelope.generation, dispatchDirect,
        directMessageRoute]
      rcases h.stale ht hs with hne | ⟨rfl, hgone⟩
      · rw [if_pos hne]
      · rw [h.epoch.readyPair_of_sender hgone]
        simp
  unfold receive
  rw [hsame]

end

/-- **Authority over the epochs**: readiness and every record forwarded are of the current sockets
and generations, and a socket that is no longer current changes nothing. -/
theorem epoch_authority (h : (room expiresAt maxGuests).Reach r) :
    (∀ p, r.session.readyPair = some p →
      p.establishmentGeneration = r.session.establishmentGeneration ∧
        ∀ role, (r.session.sender role).isSome = true ∧
          p.socket role = (r.session.endpoint role).generation) ∧
    r.net.log.Pairwise Entry.Before ∧
    Fed r.net.log ∧
    ∀ channel role g, r.tasks[channel]? = some (some ⟨.primary role, g⟩) →
      r.session.roleSocketIsCurrent (.primary role) g channel = false →
      r.disconnect ⟨.primary role, g⟩ = r ∧ ∀ m, r.receive channel ⟨.primary role, g⟩ m = r := by
  have hi := sound_of_reach h
  refine ⟨fun p hp => ?_, hi.epoch.order, hi.epoch.fed, fun channel role g ht hs =>
    ⟨disconnect_of_stale hi ht hs, receive_of_stale hi ht hs⟩⟩
  have hpub := hi.epoch.pair p hp
  refine ⟨hpub.generation, fun role => ⟨?_, hpub.socket role⟩⟩
  obtain ⟨c, hc, -⟩ := hpub.standing role
  rw [hc]
  rfl

/-- A client is replaced; then a host whose queue is gone makes a publication fail halfway. Its
generation is burnt, and the task of the first client has nothing to clean up. -/
theorem epoch_authority_burnt : ∃ r : Room, (room 100 1).Reach r ∧
    r.session.readyPair.map ReadyPair.establishmentGeneration = some 4 ∧
    (r.net.log.filter fun e => e.message = .ready .direct 3).map Entry.channel = [3] ∧
    Fed r.net.log ∧ r.disconnect ⟨.primary .client, 1⟩ = r := by
  obtain ⟨r, hr, hp, hl, ht, hs⟩ := (room 100 1).exists_reachVia (fun _ _ => True)
    [.admitPrimary .host 0, .admitPrimary .client 0, .receive 0 (.record .direct 1 10) 0,
      .admitPrimary .client 1,
      .disconnect 1 1, .disconnect 2 2, .closeWriter 0, .admitPrimary .client 3, .admitPrimary .host 4,
      .admitPrimary .client 4]
    (fun r => r.session.readyPair.map ReadyPair.establishmentGeneration = some 4 ∧
      (r.net.log.filter fun e => e.message = .ready .direct 3).map Entry.channel = [3] ∧
      r.tasks[1]? = some (some ⟨.primary .client, 1⟩) ∧
      r.session.roleSocketIsCurrent (.primary .client) 1 1 = false) (by decide +kernel)
  obtain ⟨-, -, hfed, hstale⟩ := epoch_authority hr
  exact ⟨r, hr, hp, hl, hfed, (hstale 1 .client 1 ht hs).1⟩

end Room

end OpenStream.Signal
