import OpenStream.Signal.Authority

/-!
# All sessions of the server, and its relay

* **`Server.relay_authority`**: datagrams go only between the two authorised ends of one session.
-/

namespace OpenStream.Signal

open Option

namespace Session

variable {s s' s'' : Session} {role : PrimaryRole} {addr : ℕ}

/-! ## Addresses -/

def Holds (s : Session) (addr : ℕ) : Prop := ∃ role slot, s.relay role = some slot ∧ slot.addr = addr

def Shrinks (s s' : Session) : Prop :=
  ∀ role slot, s'.relay role = some slot → ∃ slot', s.relay role = some slot' ∧ slot'.addr = slot.addr

theorem Shrinks.holds (h : Shrinks s s') (ha : s'.Holds addr) : s.Holds addr := by
  obtain ⟨role, slot, hs, rfl⟩ := ha
  obtain ⟨slot', hs', haddr⟩ := h role slot hs
  exact ⟨role, slot', hs', haddr⟩

theorem Shrinks.of_relay (h : s'.relay = s.relay) : Shrinks s s' :=
  fun _ slot hs => ⟨slot, h ▸ hs, rfl⟩

theorem Shrinks.trans (h : Shrinks s s') (h' : Shrinks s' s'') : Shrinks s s'' := by
  intro role slot hs
  obtain ⟨slot', hs', ha'⟩ := h' role slot hs
  obtain ⟨slot'', hs'', ha''⟩ := h role slot' hs'
  exact ⟨slot'', hs'', ha''.trans ha'⟩

theorem shrinks_filter (s : Session) (p : RelaySlot → Bool) :
    Shrinks s { s with relay := fun role => (s.relay role).filter p } :=
  fun _ slot hs => ⟨slot, (filter_eq_some_iff.mp hs).1, rfl⟩

theorem Closes.shrinks (h : Closes s s') : Shrinks s s' :=
  fun role slot hs => ⟨slot, (h.relay role slot hs).1, rfl⟩

theorem Admits.shrinks {channel proof : ℕ} (h : Admits role channel proof s s') : Shrinks s s' :=
  fun r slot hs => ⟨slot, (h.relay r slot hs).1, rfl⟩

theorem shrinks_parkActive (s : Session) (net : Net) : Shrinks s (s.parkActive net).1 := by
  unfold parkActive
  split
  · exact .of_relay rfl
  · exact shrinks_filter s _

theorem shrinks_admitGuest (s : Session) (net : Net) (id channel proof : ℕ) :
    Shrinks s (s.admitGuest net id channel proof).1 := by
  unfold admitGuest
  cases s.findGuest id with
  | none => exact .of_relay rfl
  | some g =>
    simp only
    split_ifs
    · exact .of_relay rfl
    · unfold activateGuest
      simp only
      by_cases hd : (!(drainInto g.pending
          (net.trySend channel (.relayProof (g.generation + 1) proof)).1 channel).2.2) = true
      · rw [if_pos hd]
        exact .of_relay rfl
      · rw [if_neg hd]
        exact shrinks_filter s _
    · exact .of_relay rfl
    · exact shrinks_filter s _
    · exact .of_relay rfl

theorem shrinks_afterGuest (s : Session) (wasActive : Bool) :
    Shrinks s (s.afterGuest wasActive).1 := by
  unfold afterGuest
  split_ifs
  · unfold takePromotionSender
    split <;> exact .of_relay rfl
  · exact .of_relay rfl

theorem shrinks_cleanupGuest (s : Session) (id generation : ℕ) :
    Shrinks s (s.cleanupGuest id generation).1 := by
  unfold cleanupGuest
  split
  · exact .of_relay rfl
  · simp only
    split_ifs
    · exact .of_relay rfl
    · exact Shrinks.trans (shrinks_filter s _) (shrinks_afterGuest _ _)

theorem shrinks_kickGuest (s : Session) (id : ℕ) : Shrinks s (s.kickGuest id).1 := by
  unfold kickGuest
  split
  · exact .of_relay rfl
  · exact Shrinks.trans (shrinks_filter s _) (shrinks_afterGuest _ _)

theorem shrinks_createGuest (s : Session) (id : ℕ) (input : Bool) :
    Shrinks s (s.createGuest id input) := by
  unfold createGuest
  split_ifs <;> exact .of_relay rfl

variable {source : ℕ}

theorem shrinks_unregister {ticket : Ticket}
    (h : s.unregister role source ticket = some s') : Shrinks s s' := by
  obtain ⟨owner, -, rfl⟩ := map_eq_some_iff.mp h
  split_ifs
  · intro r slot hs
    obtain ⟨-, ⟨⟩⟩ | ⟨-, hs⟩ := Function.update_cases (f := s.relay) hs
    exact ⟨slot, hs, rfl⟩
  · exact .of_relay rfl

theorem shrinks_relayDatagram {bytes now : ℕ} {dest : Option ℕ}
    (h : s.relayDatagram source bytes now = some (s', dest)) : Shrinks s s' := by
  unfold relayDatagram at h
  split_ifs at h
  obtain ⟨⟨role, slot⟩, hs, heq⟩ := map_eq_some_iff.mp h
  cases heq
  obtain ⟨hslot, -⟩ := roleOfAddr_spec hs
  intro r slot' hs'
  obtain ⟨rfl, ⟨⟩⟩ | ⟨-, hs'⟩ := Function.update_cases (f := s.relay) hs'
  · exact ⟨slot, hslot, (accept_keeps slot bytes now).1.symm⟩
  · exact ⟨slot', hs', rfl⟩

theorem relayDatagram_ends {bytes now dest : ℕ}
    (h : s.relayDatagram source bytes now = some (s', some dest)) :
    ∃ role slot slot', s.relay role = some slot ∧ slot.addr = source ∧
      s.relay role.opposite = some slot' ∧ slot'.addr = dest := by
  unfold relayDatagram at h
  split_ifs at h
  obtain ⟨⟨role, slot⟩, hs, heq⟩ := map_eq_some_iff.mp h
  obtain ⟨hslot, haddr⟩ := roleOfAddr_spec hs
  have hdest : (if (slot.accept bytes now).2 then (s.relay role.opposite).map RelaySlot.addr
      else none) = some dest := congrArg Prod.snd heq
  split_ifs at hdest
  obtain ⟨slot', hs', hd⟩ := map_eq_some_iff.mp hdest
  exact ⟨role, slot, slot', hslot, haddr, hs', hd⟩

end Session

/-- Whether an action gives an address a slot; the server does that for all sessions at once. -/
def Act.isRegistration : Act → Bool
  | .register .. => true
  | .evict _ => true
  | _ => false

namespace Room

variable {r r' : Room}

theorem shrinks_admitPrimary (r : Room) (role : PrimaryRole) (now : ℕ) :
    r.session.Shrinks (r.admitPrimary role now).session := by
  have ha := (r.session.admits r.net role r.tasks.length r.issued now).shrinks
  unfold admitPrimary
  simp only
  split
  · exact ha.trans (Session.shrinks_parkActive _ _)
  · exact ha
  · exact ha

theorem shrinks_of_act {a : Act} (ha : a.isRegistration = false) (hs : r.act a = some r') :
    r.session.Shrinks r'.session := by
  cases a with
  | admitPrimary role now =>
    rw [eq_of_live hs]
    exact r.shrinks_admitPrimary role now
  | admitGuest id now =>
    rw [eq_of_live hs]
    exact r.session.shrinks_admitGuest _ id _ _
  | disconnect channel now =>
    obtain ⟨task, -, hl⟩ := bind_eq_some_iff.mp hs
    rw [eq_of_live hl]
    unfold disconnect
    split
    · exact (Session.closes_disconnectPrimary _ _ _ _).shrinks
    · exact r.session.shrinks_cleanupGuest _ _
  | receive channel m now =>
    obtain ⟨task, -, hl⟩ := bind_eq_some_iff.mp hs
    rw [eq_of_live hl]
    show r.session.Shrinks (r.session.receiveSignal _ _ _ _ _).1
    rcases r.session.receiveSignal_session r.net task.role task.generation channel m with
      heq | ⟨-, heq⟩
    · rw [heq]
      exact .of_relay rfl
    · rw [heq]
      exact (Session.closes_queueFor _ _ _).shrinks
  | reply channel =>
    obtain ⟨task, -, rfl⟩ := map_eq_some_iff.mp hs
    exact .of_relay rfl
  | notify =>
    simp only [act] at hs
    split at hs
    · cases hs
    · cases hs
      exact .of_relay rfl
  | write channel | closeWriter channel =>
    cases hs
    exact .of_relay rfl
  | createGuest input now =>
    rw [eq_of_live hs]
    exact r.session.shrinks_createGuest _ _
  | kickGuest id now =>
    rw [eq_of_live hs]
    exact r.session.shrinks_kickGuest id
  | reissue subject proof now =>
    obtain ⟨ticket, -, hl⟩ := bind_eq_some_iff.mp hs
    rw [eq_of_live hl]
    exact .of_relay rfl
  | register role source ticket now | evict addr => cases ha
  | unregister role source ticket now =>
    simp only [act] at hs
    split_ifs at hs
    obtain ⟨s, hr, hl⟩ := bind_eq_some_iff.mp hs
    rw [eq_of_live hl]
    exact Session.shrinks_unregister hr
  | datagram source bytes now =>
    obtain ⟨⟨s, dest⟩, hr, rfl⟩ := map_eq_some_iff.mp hs
    exact Session.shrinks_relayDatagram hr
  | reapSlots now =>
    cases hs
    exact r.session.shrinks_filter _

theorem holds_of_register {role : PrimaryRole} {source addr now : ℕ} {ticket : Ticket}
    (hs : r.act (.register role source ticket now) = some r') (ha : r'.session.Holds addr) :
    r.session.Holds addr ∨ addr = source := by
  simp only [act] at hs
  split_ifs at hs
  obtain ⟨s, hr, hl⟩ := bind_eq_some_iff.mp hs
  obtain ⟨owner, -, rfl⟩ := map_eq_some_iff.mp hr
  rw [eq_of_live hl] at ha
  obtain ⟨r0, slot, hslot, rfl⟩ := ha
  obtain ⟨rfl, ⟨⟩⟩ | ⟨-, hslot⟩ := Function.update_cases (f := r.session.relay) hslot
  · exact .inr rfl
  · exact .inl ⟨r0, slot, hslot, rfl⟩

end Room

/-! ## The session map -/

/-- All sessions. -/
structure Server where
  sessions : ℕ → Option Room
  /-- How many session identifiers were drawn. -/
  issued : ℕ

inductive ServerAct
  | create (expiresAt maxGuests : ℕ)
  /-- Something happens in one session. -/
  | session (id : ℕ) (a : Act)
  | register (id : ℕ) (role : PrimaryRole) (source : ℕ) (ticket : Ticket) (now : ℕ)
  /-- A session ends, expires or is revoked. -/
  | remove (id : ℕ)

namespace Server

def evictFrom (addr : ℕ) (r : Room) : Room := { r with session := r.session.evict addr }

def step (st : Server) : ServerAct → Option Server
  | .create expiresAt maxGuests =>
    some ⟨Function.update st.sessions st.issued (some (.new expiresAt maxGuests)), st.issued + 1⟩
  | .session id a =>
    if a.isRegistration then none
    else (st.sessions id).bind fun r => (r.step a).map fun r' =>
      { st with sessions := Function.update st.sessions id (some r') }
  | .register id role source ticket now =>
    (st.sessions id).bind fun r => (r.step (.register role source ticket now)).map fun r' =>
      { st with sessions := fun i =>
          if i = id then some r' else (st.sessions i).map (evictFrom source) }
  | .remove id => some { st with sessions := Function.update st.sessions id none }

end Server

def server : Runs.Machine Server ServerAct where
  start := ⟨fun _ => none, 0⟩
  step := Server.step

namespace Server

variable {st st' : Server}

/-- **The invariant of the relay.** -/
structure Inv (st : Server) : Prop where
  authority : ∀ id r, st.sessions id = some r → r.session.Authority r.issued
  apart : ∀ addr id id' r r', st.sessions id = some r → st.sessions id' = some r' →
    r.session.Holds addr → r'.session.Holds addr → id = id'

theorem Inv.update (h : Inv st) {id : ℕ} {next : Option Room}
    (ha : ∀ r', next = some r' → r'.session.Authority r'.issued)
    (hs : ∀ addr r', next = some r' → r'.session.Holds addr →
      ∃ r, st.sessions id = some r ∧ r.session.Holds addr) {n : ℕ} :
    Inv ⟨Function.update st.sessions id next, n⟩ := by
  have hold {addr i : ℕ} {r : Room} (hr : Function.update st.sessions id next i = some r)
      (hh : r.session.Holds addr) : ∃ r0, st.sessions i = some r0 ∧ r0.session.Holds addr := by
    obtain ⟨rfl, hnext⟩ | ⟨-, hr⟩ := Function.update_cases hr
    · exact hs addr r hnext hh
    · exact ⟨r, hr, hh⟩
  refine ⟨fun i r hr => ?_, fun addr i i' r r' hr hr' hh hh' => ?_⟩
  · obtain ⟨-, hr⟩ | ⟨-, hr⟩ := Function.update_cases hr
    · exact ha r hr
    · exact h.authority i r hr
  · obtain ⟨r0, hr0, hh0⟩ := hold hr hh
    obtain ⟨r0', hr0', hh0'⟩ := hold hr' hh'
    exact h.apart addr i i' r0 r0' hr0 hr0' hh0 hh0'

theorem Inv.register (h : Inv st) {id source now : ℕ} {role : PrimaryRole} {ticket : Ticket}
    {r r' : Room} (hr : st.sessions id = some r)
    (hs : r.step (.register role source ticket now) = some r') :
    Inv { st with sessions := fun i =>
      if i = id then some r' else (st.sessions i).map (evictFrom source) } := by
  have hself (addr : ℕ) (hh : r'.session.Holds addr) : r.session.Holds addr ∨ addr = source :=
    Room.holds_of_register (r := { r with net := { r.net with turn := r.net.turn + 1 } }) hs hh
  have hother (addr : ℕ) (x : Room) (hh : (evictFrom source x).session.Holds addr) :
      x.session.Holds addr ∧ addr ≠ source := by
    obtain ⟨role, slot, hslot, rfl⟩ := hh
    obtain ⟨hslot', hne⟩ := filter_eq_some_iff.mp hslot
    exact ⟨⟨role, slot, hslot', rfl⟩, by simpa using hne⟩
  refine ⟨fun i x hx => ?_, fun addr i i' x x' hx hx' hh hh' => ?_⟩
  · simp only at hx
    split_ifs at hx
    · cases hx
      exact Room.authority_of_step (h.authority id r hr) hs
    · obtain ⟨x0, hx0, rfl⟩ := map_eq_some_iff.mp hx
      exact (h.authority i x0 hx0).filterSlots _
  · by_cases hi : i = id
    · by_cases hi' : i' = id
      · rw [hi, hi']
      · simp only [hi, hi', if_true, if_false] at hx hx'
        cases hx
        obtain ⟨x0, hx0, rfl⟩ := map_eq_some_iff.mp hx'
        obtain ⟨hx0h, hne⟩ := hother addr x0 hh'
        rcases hself addr hh with hh | rfl
        · exact hi.trans (h.apart addr id i' r x0 hr hx0 hh hx0h)
        · exact absurd rfl hne
    · simp only [hi, if_false] at hx
      obtain ⟨x0, hx0, rfl⟩ := map_eq_some_iff.mp hx
      obtain ⟨hx0h, hne⟩ := hother addr x0 hh
      by_cases hi' : i' = id
      · simp only [hi', if_true] at hx'
        cases hx'
        rcases hself addr hh' with hh' | rfl
        · exact (h.apart addr i id x0 r hx0 hr hx0h hh').trans hi'.symm
        · exact absurd rfl hne
      · simp only [hi', if_false] at hx'
        obtain ⟨x0', hx0', rfl⟩ := map_eq_some_iff.mp hx'
        exact h.apart addr i i' x0 x0' hx0 hx0' hx0h (hother addr x0' hh').1

theorem inv_of_step {a : ServerAct} (h : Inv st) (hs : st.step a = some st') : Inv st' := by
  cases a with
  | create expiresAt maxGuests =>
    cases hs
    refine h.update (fun r' hr => ?_) fun addr r' hr hh => ?_
    · cases hr
      exact .new expiresAt maxGuests
    · cases hr
      obtain ⟨role, slot, hslot, -⟩ := hh
      cases hslot
  | session id a =>
    simp only [step] at hs
    split_ifs at hs with hreg
    obtain ⟨r, hr, hs⟩ := bind_eq_some_iff.mp hs
    obtain ⟨r', hr', rfl⟩ := map_eq_some_iff.mp hs
    refine h.update (fun x hx => ?_) fun addr x hx hh => ?_
    · cases hx
      exact Room.authority_of_step (h.authority id r hr) hr'
    · cases hx
      have hshrink := Room.shrinks_of_act (r := { r with net := { r.net with turn := r.net.turn + 1 } })
        (by simpa using hreg) hr'
      exact ⟨r, hr, hshrink.holds hh⟩
  | register id role source ticket now =>
    obtain ⟨r, hr, hs⟩ := bind_eq_some_iff.mp hs
    obtain ⟨r', hr', rfl⟩ := map_eq_some_iff.mp hs
    exact h.register hr hr'
  | remove id =>
    cases hs
    exact h.update (fun r' hr => by cases hr) fun addr r' hr => by cases hr

theorem inv_of_reach (h : server.Reach st) : Inv st :=
  h.invariant (I := Inv) ⟨fun _ _ hr => (by cases hr), fun _ _ _ _ _ hr => (by cases hr)⟩
    fun _ _ _ hi _ hs => inv_of_step hi hs

/-- **Authority over the relay**: a datagram goes only between the two authorised ends of the one
session in which its source has a slot. -/
theorem relay_authority (h : server.Reach st) :
    (∀ id r, st.sessions id = some r →
      (∀ role slot, r.session.relay role = some slot → r.session.Owned role slot) ∧
      ∀ g ∈ r.session.guests, g.active = true → g.sender.isSome = true ∧
        (∀ g' ∈ r.session.guests, g'.active = true → g' = g) ∧ r.session.sender .client = none) ∧
    (∀ addr id id' r r', st.sessions id = some r → st.sessions id' = some r' →
      r.session.Holds addr → r'.session.Holds addr → id = id') ∧
    ∀ id r source bytes now s dest, st.sessions id = some r →
      r.session.relayDatagram source bytes now = some (s, some dest) →
      ∃ role slot slot', r.session.relay role = some slot ∧ slot.addr = source ∧
        r.session.Owned role slot ∧ r.session.relay role.opposite = some slot' ∧
        slot'.addr = dest ∧ r.session.Owned role.opposite slot' ∧
        ∀ id' r', st.sessions id' = some r' → r'.session.Holds source → id' = id := by
  have hi := inv_of_reach h
  refine ⟨fun id r hr => ?_, hi.apart, fun id r source bytes now s dest hr hd => ?_⟩
  · have ha := hi.authority id r hr
    exact ⟨ha.owned, fun g hg hact => ⟨ha.connected g hg hact,
      fun g' hg' hact' => ha.single g' hg' g hg hact' hact, ha.exclusive g hg hact⟩⟩
  · have ha := hi.authority id r hr
    obtain ⟨role, slot, slot', hs, haddr, hs', hdest⟩ := Session.relayDatagram_ends hd
    exact ⟨role, slot, slot', hs, haddr, ha.owned role slot hs, hs', hdest,
      ha.owned role.opposite slot' hs', fun id' r' hr' hh =>
        hi.apart source id' id r' r hr' hr hh ⟨role, slot, hs, haddr⟩⟩

/-- An address serves one session, then registers in another; there an active guest is at the other
end of the relay. -/
theorem relay_authority_guest : ∃ st : Server, server.Reach st ∧
    (st.sessions 0).map (fun r => r.session.relay .host) = some none ∧
    (∃ r s, st.sessions 1 = some r ∧ r.session.relayDatagram 7 100 5 = some (s, some 9) ∧
      ∃ role slot slot', r.session.relay role = some slot ∧ slot.addr = 7 ∧
        r.session.Owned role slot ∧ r.session.relay role.opposite = some slot' ∧ slot'.addr = 9 ∧
        r.session.Owned role.opposite slot') := by
  obtain ⟨st, hst, h0, h1⟩ := server.exists_reachVia (fun _ _ => True)
    [.create 100 2, .create 100 2, .session 0 (.admitPrimary .host 0), .session 1 (.admitPrimary .host 0),
      .register 0 .host 7 ⟨.host, .primary .host, 1, none⟩ 1,
      .register 1 .host 7 ⟨.host, .primary .host, 1, none⟩ 2,
      .session 1 (.createGuest true 2), .session 1 (.admitGuest 1 3),
      .session 1 (.reissue (.guest 1) 2 4),
      .register 1 .client 9 ⟨.client, .guest 1, 1, some 2⟩ 4]
    (fun st => (st.sessions 0).map (fun r => r.session.relay .host) = some none ∧
      (st.sessions 1).any fun r =>
        (r.session.relayDatagram 7 100 5).any fun x => decide (x.2 = some 9)) (by decide +kernel)
  obtain ⟨r, hr, hd⟩ := (any_eq_true _ _).mp h1
  obtain ⟨⟨s, dest⟩, hs, hdest⟩ := (any_eq_true _ _).mp hd
  cases of_decide_eq_true hdest
  obtain ⟨role, slot, slot', h1, h2, h3, h4, h5, h6, -⟩ :=
    (relay_authority hst).2.2 1 r 7 100 5 s 9 hr hs
  exact ⟨st, hst, h0, r, s, hr, hs, role, slot, slot', h1, h2, h3, h4, h5, h6⟩

end Server

end OpenStream.Signal
