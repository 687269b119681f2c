import OpenStream.Signal.Room
import Mathlib.Data.List.Infix

/-!
# What the primary-socket operations can do

Seen from outside, the operations on the primary pair do little: they queue messages, and they take
senders away, with their relay registrations. What they add is one socket, and an epoch.

* **`Session.admits`**
-/

namespace OpenStream.Signal

open List

/-! ## Messages queued -/

namespace Net

variable {P Q : Entry → Prop} {net net' net'' : Net}

/-- Messages that meet `P` were queued, in this turn. -/
structure Grows (P : Entry → Prop) (net net' : Net) : Prop where
  turn : net'.turn = net.turn
  log : ∃ es, net'.log = net.log ++ es ∧ ∀ e ∈ es, e.turn = net.turn ∧ P e

theorem Grows.refl (P : Entry → Prop) (net : Net) : Grows P net net :=
  ⟨rfl, [], by rw [append_nil], by simp⟩

theorem Grows.trans (h : Grows P net net') (h' : Grows P net' net'') : Grows P net net'' := by
  obtain ⟨ht, es, hl, he⟩ := h
  obtain ⟨ht', es', hl', he'⟩ := h'
  refine ⟨ht'.trans ht, es ++ es', by rw [hl', hl, append_assoc], fun e hmem => ?_⟩
  rcases mem_append.mp hmem with hm | hm
  · exact he e hm
  · exact ⟨(he' e hm).1.trans ht, (he' e hm).2⟩

theorem Grows.mono (h : Grows P net net') (hPQ : ∀ e, P e → Q e) : Grows Q net net' := by
  obtain ⟨ht, es, hl, he⟩ := h
  exact ⟨ht, es, hl, fun e hm => ⟨(he e hm).1, hPQ e (he e hm).2⟩⟩

theorem grows_trySend (net : Net) (channel : ℕ) (m : Message) :
    Grows (fun e => e.channel = channel ∧ e.message = m) net (net.trySend channel m).1 := by
  unfold trySend
  split_ifs
  · exact ⟨rfl, [⟨net.turn, channel, m⟩], rfl, by simp⟩
  · exact .refl _ _

theorem trySendBoth_spec (net : Net) (channel : ℕ) (m m' : Message) :
    (net.trySendBoth channel m m').1.turn = net.turn ∧
      ∃ es, (net.trySendBoth channel m m').1.log = net.log ++ es ∧
        es <+: [⟨net.turn, channel, m⟩, ⟨net.turn, channel, m'⟩] ∧
        ((net.trySendBoth channel m m').2 = true →
          es = [⟨net.turn, channel, m⟩, ⟨net.turn, channel, m'⟩]) := by
  unfold trySendBoth trySend
  by_cases h1 : net.hasRoom channel = true
  · simp only [h1, if_true]
    split_ifs with h2
    · exact ⟨rfl, [⟨net.turn, channel, m⟩, ⟨net.turn, channel, m'⟩],
        append_assoc _ _ _, prefix_rfl, fun _ => rfl⟩
    · exact ⟨rfl, [⟨net.turn, channel, m⟩], rfl, ⟨[⟨net.turn, channel, m'⟩], rfl⟩,
        fun h => absurd h (by simp)⟩
  · simp only [h1]
    exact ⟨rfl, [], by simp, nil_prefix, fun h => absurd h (by simp)⟩

theorem grows_trySendBoth (net : Net) (channel : ℕ) (m m' : Message) :
    Grows (fun e => e.channel = channel ∧ (e.message = m ∨ e.message = m')) net
      (net.trySendBoth channel m m').1 := by
  obtain ⟨ht, es, hl, hp, -⟩ := net.trySendBoth_spec channel m m'
  refine ⟨ht, es, hl, fun e he => ?_⟩
  rcases mem_cons.mp (hp.subset he) with rfl | he
  · exact ⟨rfl, rfl, .inl rfl⟩
  · rw [mem_singleton] at he
    subst he
    exact ⟨rfl, rfl, .inr rfl⟩

end Net

/-- Neither readiness nor a record of an epoch. -/
def Entry.Calm (e : Entry) : Prop :=
  ∀ f g, e.message ≠ .ready f g ∧ ∀ len, e.message ≠ .signal (.record f g len)

/-- Nothing that bears on an epoch. -/
def Entry.Neutral (e : Entry) : Prop := e.Calm ∧ ∀ f g reason, e.message ≠ .reset f g reason

theorem Entry.neutral_of_eq {e : Entry} {m : Message} (h : e.message = m)
    (hm : m = .close ∨ m = .parked ∨ m = .promoted ∨ m = .service ∨ (∃ g p, m = .relayProof g p) ∨
      ∃ len, m = .signal (.path len)) : e.Neutral := by
  refine ⟨fun f g => ⟨?_, fun len => ?_⟩, fun f g reason => ?_⟩ <;> rw [h] <;>
    rcases hm with rfl | rfl | rfl | rfl | ⟨g', p, rfl⟩ | ⟨len', rfl⟩ <;> simp

theorem Entry.calm_of_reset {e : Entry} {f f' : Family} {g g' : ℕ} {r r' : ResetReason}
    (h : e.message = .reset f g r ∨ e.message = .reset f' g' r') : e.Calm := by
  intro f'' g''
  rcases h with h | h <;> rw [h] <;> simp

namespace Net

variable (net : Net)

theorem grows_closeSender (channel : ℕ) : Grows Entry.Neutral net (net.closeSender channel) :=
  (net.grows_trySend channel .close).mono fun _ he => Entry.neutral_of_eq he.2 (.inl rfl)

theorem grows_closeOld (old : Option ℕ) : Grows Entry.Neutral net (net.closeOld old) := by
  cases old with
  | none => exact .refl _ _
  | some channel => exact net.grows_closeSender channel

theorem grows_compensate (channel generation : ℕ) :
    Grows Entry.Calm net (net.compensate channel generation) := by
  have hreset := (net.grows_trySendBoth channel (.reset .direct generation .deliveryFailed)
    (.reset .ice generation .deliveryFailed)).mono fun e he => Entry.calm_of_reset he.2
  have hclose (net : Net) : Grows Entry.Calm net (net.closeSender channel) :=
    (net.grows_closeSender channel).mono fun _ he => he.1
  unfold compensate
  simp only
  split_ifs
  · exact hreset.trans (hclose _)
  · exact (hreset.trans (hclose _)).trans (hclose _)

end Net

/-! ## Senders taken away -/

def Guest.core (g : Guest) : ℕ × Bool × Option ℕ × ℕ × Option ℕ :=
  (g.id, g.active, g.sender, g.generation, g.relayProof)

namespace Session

variable {s s' s'' : Session} {net : Net} {role : PrimaryRole}

/-- Senders may be gone, each with its proof and its relay slots. -/
structure Closes (s s' : Session) : Prop where
  generation : ∀ r, (s'.endpoint r).generation = (s.endpoint r).generation
  sender : ∀ r, ((s'.endpoint r).sender = (s.endpoint r).sender ∧
      (s'.endpoint r).relayProof = (s.endpoint r).relayProof) ∨
    ((s'.endpoint r).sender = none ∧ (s'.endpoint r).relayProof = none)
  guests : s'.guests.map Guest.core = s.guests.map Guest.core
  relay : ∀ role slot, s'.relay role = some slot → s.relay role = some slot ∧
    ∀ r, slot.owner = .primary r → (s'.endpoint r).sender = (s.endpoint r).sender
  epoch : s.establishmentGeneration ≤ s'.establishmentGeneration

theorem Closes.refl (s : Session) : Closes s s :=
  ⟨fun _ => rfl, fun _ => .inl ⟨rfl, rfl⟩, rfl, fun _ _ h => ⟨h, fun _ _ => rfl⟩, le_rfl⟩

theorem Closes.trans (h : Closes s s') (h' : Closes s' s'') : Closes s s'' := by
  refine ⟨fun r => (h'.generation r).trans (h.generation r), fun r => ?_,
    h'.guests.trans h.guests, fun role slot hs => ?_, h.epoch.trans h'.epoch⟩
  · rcases h'.sender r with ⟨h1, h2⟩ | hnone
    · rcases h.sender r with ⟨h3, h4⟩ | ⟨h3, h4⟩
      · exact .inl ⟨h1.trans h3, h2.trans h4⟩
      · exact .inr ⟨h1.trans h3, h2.trans h4⟩
    · exact .inr hnone
  · obtain ⟨hs', hr'⟩ := h'.relay role slot hs
    obtain ⟨hs'', hr''⟩ := h.relay role slot hs'
    exact ⟨hs'', fun r ho => (hr' r ho).trans (hr'' r ho)⟩

def CleanQueue (pending : List Envelope) (bytes : ℕ) : Prop :=
  (∀ m ∈ pending, m.isEstablishmentMessage = false) ∧ bytes = bytesOf pending

/-- No establishment record waits anywhere. -/
structure Clean (s : Session) : Prop where
  endpoint : ∀ r, CleanQueue (s.endpoint r).pending (s.endpoint r).pendingBytes
  guests : ∀ g ∈ s.guests, CleanQueue g.pending g.pendingBytes

theorem cleanQueue_prune (pending : List Envelope) :
    CleanQueue (pruneDirectQueue pending) (bytesOf (pruneDirectQueue pending)) := by
  refine ⟨fun m hm => ?_, rfl⟩
  have := (mem_filter.mp hm).2
  simpa using this

theorem prune_of_cleanQueue {pending : List Envelope} {bytes : ℕ} (h : CleanQueue pending bytes) :
    pruneDirectQueue pending = pending := by
  refine filter_eq_self.mpr fun m hm => ?_
  rw [h.1 m hm]
  rfl

theorem clean_prune (s : Session) : Clean s.pruneDirectEstablishmentMessages := by
  refine ⟨fun r => cleanQueue_prune _, fun g hg => ?_⟩
  obtain ⟨g', -, rfl⟩ := mem_map.mp hg
  exact cleanQueue_prune _

theorem prune_of_clean (h : Clean s) : s.pruneDirectEstablishmentMessages = s := by
  have he (r : PrimaryRole) : { s.endpoint r with
      pending := pruneDirectQueue (s.endpoint r).pending
      pendingBytes := bytesOf (pruneDirectQueue (s.endpoint r).pending) } = s.endpoint r := by
    rw [prune_of_cleanQueue (h.endpoint r), ← (h.endpoint r).2]
  have hg : s.guests.map (fun g => { g with
      pending := pruneDirectQueue g.pending
      pendingBytes := bytesOf (pruneDirectQueue g.pending) }) = s.guests := by
    refine (map_congr_left fun g hg => ?_).trans (map_id _)
    rw [prune_of_cleanQueue (h.guests g hg), ← (h.guests g hg).2]
    rfl
  unfold pruneDirectEstablishmentMessages
  rw [hg]
  simp [he]

theorem closes_prune (s : Session) : Closes s s.pruneDirectEstablishmentMessages := by
  refine ⟨fun _ => rfl, fun _ => .inl ⟨rfl, rfl⟩, ?_, fun _ _ h => ⟨h, fun _ _ => rfl⟩, le_rfl⟩
  simp only [pruneDirectEstablishmentMessages, map_map]
  rfl

/-! ## Closing the pair -/

theorem closes_withoutPair (s : Session) : Closes s s.withoutPair := by
  refine ⟨fun _ => rfl, fun _ => .inr ⟨rfl, rfl⟩, rfl, fun role slot hs => ?_, le_rfl⟩
  simp only [withoutPair, clearRelayOwner, Option.filter_eq_some_iff, decide_eq_true_eq] at hs
  refine ⟨hs.1.1, fun r ho => ?_⟩
  cases r with
  | host => exact absurd ho hs.1.2
  | client => exact absurd ho hs.2

theorem Clean.withoutPair (h : Clean s) : Clean s.withoutPair := ⟨h.endpoint, h.guests⟩

section

variable (s net)

theorem grows_closePrimaryPair : net.Grows Entry.Neutral (s.closePrimaryPair net).2 :=
  (net.grows_closeOld _).trans (Net.grows_closeOld _ _)

/-! ## Invalidating and publishing an epoch -/

variable (reason : ResetReason) (survivor : Option PrimaryRole)

theorem closes_invalidateReadyEpoch :
    Closes s (s.invalidateReadyEpoch net reason survivor).1 := by
  unfold invalidateReadyEpoch
  split
  · exact s.closes_prune
  · have hp : Closes s { s with readyPair := none }.pruneDirectEstablishmentMessages :=
      have h := closes_prune { s with readyPair := none }
      { h with }
    simp only
    split
    · exact hp
    · split_ifs
      · exact hp
      · exact hp.trans (closes_withoutPair _)

theorem clean_invalidateReadyEpoch :
    Clean (s.invalidateReadyEpoch net reason survivor).1 := by
  unfold invalidateReadyEpoch
  split
  · exact s.clean_prune
  · simp only
    split
    · exact clean_prune _
    · split_ifs
      · exact clean_prune _
      · exact (clean_prune _).withoutPair

theorem readyPair_invalidateReadyEpoch :
    (s.invalidateReadyEpoch net reason survivor).1.readyPair = none := by
  unfold invalidateReadyEpoch
  split
  · assumption
  · simp only
    split
    · rfl
    · split_ifs
      · rfl
      · rfl

theorem grows_invalidateReadyEpoch :
    net.Grows Entry.Calm (s.invalidateReadyEpoch net reason survivor).2.1 := by
  unfold invalidateReadyEpoch
  split
  · exact .refl _ _
  · simp only
    split
    · exact .refl _ _
    · rename_i channel _
      have hreset (previous : ReadyPair) := (net.grows_trySendBoth channel
        (.reset .direct previous.establishmentGeneration reason)
        (.reset .ice previous.establishmentGeneration reason)).mono
          fun e he => Entry.calm_of_reset he.2
      split_ifs
      · exact hreset _
      · exact (hreset _).trans ((grows_closePrimaryPair _ _).mono fun _ he => he.1)

theorem announce_cases (host client generation : ℕ) :
    (s.announce net host client generation).1 = s.withoutPair ∨
      (s.announce net host client generation).1 = { s with
        readyPair := some ⟨generation, fun role => (s.endpoint role).generation⟩ } := by
  unfold announce
  simp only
  by_cases h : ((net.trySendBoth host (.ready .direct generation) (.ready .ice generation)).2 &&
      ((net.trySendBoth host (.ready .direct generation) (.ready .ice generation)).1.trySendBoth
        client (.ready .direct generation) (.ready .ice generation)).2) = true
  · rw [if_pos h]
    exact .inr rfl
  · rw [if_neg h]
    exact .inl rfl

theorem closes_announce (host client generation : ℕ) :
    Closes s (s.announce net host client generation).1 := by
  rcases s.announce_cases net host client generation with h | h <;> rw [h]
  · exact closes_withoutPair _
  · exact ⟨fun _ => rfl, fun _ => .inl ⟨rfl, rfl⟩, rfl, fun _ _ h => ⟨h, fun _ _ => rfl⟩, le_rfl⟩

theorem closes_publishReady (now : ℕ) :
    Closes s (s.publishReady net now).1 := by
  unfold publishReady
  split
  · split_ifs
    · refine Closes.trans ?_ (closes_announce _ _ _ _ _)
      have h := closes_prune { s with
        establishmentGeneration := s.establishmentGeneration + 1, readyPair := none }
      exact { h with epoch := Nat.le_succ _ }
    · exact { s.closes_withoutPair with }
  · exact closes_withoutPair _

end

/-! ## Admission -/

theorem drainInto_spec : ∀ (pending : List Envelope) (net : Net) (channel : ℕ),
    (drainInto pending net channel).1 <:+ pending ∧
      ((drainInto pending net channel).2.2 = true → (drainInto pending net channel).1 = []) ∧
      net.Grows (fun e => e.channel = channel ∧ ∃ m ∈ pending, e.message = .signal m)
        (drainInto pending net channel).2.1
  | [], net, _ => ⟨suffix_rfl, fun _ => rfl, .refl _ _⟩
  | m :: pending, net, channel => by
    have hsend := (net.grows_trySend channel (.signal m)).mono
      (Q := fun e => e.channel = channel ∧ ∃ m' ∈ m :: pending, e.message = .signal m')
      fun e he => ⟨he.1, m, mem_cons_self, he.2⟩
    unfold drainInto
    split_ifs
    · obtain ⟨h1, h2, h3⟩ := drainInto_spec pending (net.trySend channel (.signal m)).1 channel
      refine ⟨h1.trans (suffix_cons _ _), h2, hsend.trans (h3.mono fun e he => ⟨he.1, ?_⟩)⟩
      obtain ⟨m', hm', hmsg⟩ := he.2
      exact ⟨m', mem_cons_of_mem _ hm', hmsg⟩
    · exact ⟨suffix_rfl, fun h => absurd h (by simp), hsend⟩

theorem grows_drainInto {pending : List Envelope} {bytes : ℕ} (h : CleanQueue pending bytes)
    (net : Net) (channel : ℕ) : net.Grows Entry.Neutral (drainInto pending net channel).2.1 := by
  refine (drainInto_spec pending net channel).2.2.mono ?_
  rintro e ⟨-, m, hm, hmsg⟩
  have hclean := h.1 m hm
  cases m with
  | record f g len => cases hclean
  | path len => exact Entry.neutral_of_eq hmsg (by simp)

theorem endpoint_setEndpoint (s : Session) (role : PrimaryRole) (e : Endpoint) (r : PrimaryRole) :
    (s.setEndpoint role e).endpoint r = if r = role then e else s.endpoint r :=
  Function.update_apply _ _ _ _

theorem closes_setPending (s : Session) (role : PrimaryRole) (pending : List Envelope)
    (bytes : ℕ) : Closes s (s.setPending role pending bytes) := by
  have he (r : PrimaryRole) : ((s.setPending role pending bytes).endpoint r).generation =
        (s.endpoint r).generation ∧
      ((s.setPending role pending bytes).endpoint r).sender = (s.endpoint r).sender ∧
      ((s.setPending role pending bytes).endpoint r).relayProof = (s.endpoint r).relayProof := by
    rw [setPending, endpoint_setEndpoint]
    split_ifs with hr
    · rw [hr]
      exact ⟨rfl, rfl, rfl⟩
    · exact ⟨rfl, rfl, rfl⟩
  exact ⟨fun r => (he r).1, fun r => .inl (he r).2, rfl, fun _ _ h => ⟨h, fun r _ => (he r).2.1⟩,
    le_rfl⟩

theorem Clean.setPending (h : Clean s) {pending : List Envelope} {bytes : ℕ}
    (hq : CleanQueue pending bytes) : Clean (s.setPending role pending bytes) := by
  refine ⟨fun r => ?_, h.guests⟩
  rw [Session.setPending, endpoint_setEndpoint]
  split_ifs
  · exact hq
  · exact h.endpoint r

/-- **The rule for the end of an admission**: `I` holds until the pair is closed, an epoch is
published or nothing more is to do; `J` holds then. -/
theorem greet_rule {I : Session → Net → Prop} {J : Session → Net → Except AdmissionError ℕ → Prop}
    {channel proof now : ℕ} (h : I s net) (hproof : ∀ net, I s net →
      I s (net.trySend channel (.relayProof (s.endpoint role).generation proof)).1)
    (hdrain : ∀ net, I s net → ∀ bytes,
      (bytes = bytesOf (drainInto (s.endpoint role).pending net channel).1) →
      I (s.setPending role (drainInto (s.endpoint role).pending net channel).1 bytes)
        (drainInto (s.endpoint role).pending net channel).2.1) (hrefuse : ∀ s net, I s net →
      J s.withoutPair (s.closePrimaryPair net).2 (.error (.readiness .deliveryFailed)))
    (hcomplete : ∀ s net, I s net → J (s.complete net role now).1 (s.complete net role now).2.1
      (s.complete net role now).2.2) :
    J (s.greet net role channel proof now).1 (s.greet net role channel proof now).2.1
      (s.greet net role channel proof now).2.2 := by
  have h1 := hproof net h
  unfold greet
  simp only
  split_ifs with hsent
  · unfold catchUp
    simp only
    obtain ⟨-, hnil, -⟩ := drainInto_spec (s.endpoint role).pending
      (net.trySend channel (.relayProof (s.endpoint role).generation proof)).1 channel
    split_ifs with hd
    · exact hcomplete _ _ (hdrain _ h1 0 (by rw [hnil hd]; rfl))
    · exact hrefuse _ _ (hdrain _ h1 _ rfl)
  · exact hrefuse _ _ h1

theorem closes_complete (s : Session) (net : Net) (role : PrimaryRole) (now : ℕ) :
    Closes s (s.complete net role now).1 := by
  unfold complete
  split_ifs
  · exact s.closes_publishReady net now
  · exact .refl s

theorem closes_greet (s : Session) (net : Net) (role : PrimaryRole) (channel proof now : ℕ) :
    Closes s (s.greet net role channel proof now).1 :=
  greet_rule (I := fun s' _ => Closes s s') (J := fun s' _ _ => Closes s s') (.refl s)
    (fun _ h => h) (fun _ _ _ _ => s.closes_setPending role _ _)
    (fun s' _ h => h.trans s'.closes_withoutPair) (fun s' _ h => h.trans (s'.closes_complete ..))

theorem sender_of_publishReady_error {now : ℕ} {e : ReadinessError}
    (h : (s.publishReady net now).2.2 = .error e) (r : PrimaryRole) :
    (s.publishReady net now).1.sender r = none := by
  unfold publishReady at h ⊢
  split at h
  · split_ifs at h ⊢ with hg
    · unfold announce at h ⊢
      simp only at h ⊢
      split_ifs at h ⊢
      all_goals rfl
    · rfl
  · rfl

theorem greet_result (s : Session) (net : Net) (role : PrimaryRole) (channel proof now : ℕ) :
    match (s.greet net role channel proof now).2.2 with
    | .ok g => g = (s.endpoint role).generation
    | .error _ => ∀ r, (s.greet net role channel proof now).1.sender r = none := by
  refine greet_rule (I := fun s' _ => Closes s s')
    (J := fun s' _ result => match result with
      | .ok g => g = (s.endpoint role).generation
      | .error _ => ∀ r, s'.sender r = none) (.refl s)
    (fun _ h => h) (fun _ _ _ _ => s.closes_setPending role _ _) (fun s' _ _ _ => rfl)
    (fun s' net' h => ?_)
  have hg := h.generation role
  unfold complete
  split_ifs
  · simp only
    cases hp : (s'.publishReady net' now).2.2 with
    | ok g => exact hg
    | error e => exact fun r => sender_of_publishReady_error hp r
  · exact hg

theorem relay_withoutPair {slot : RelaySlot} (h : s.withoutPair.relay role = some slot) :
    s.relay role = some slot ∧ ∀ r, slot.owner ≠ .primary r := by
  simp only [withoutPair, clearRelayOwner, Option.filter_eq_some_iff, decide_eq_true_eq] at h
  refine ⟨h.1.1, fun r => ?_⟩
  cases r with
  | host => exact h.1.2
  | client => exact h.2

structure Admits (role : PrimaryRole) (channel proof : ℕ) (s s' : Session) : Prop where
  generation : ∀ r ≠ role, (s'.endpoint r).generation = (s.endpoint r).generation
  sender : ∀ r ≠ role, ((s'.endpoint r).sender = (s.endpoint r).sender ∧
      (s'.endpoint r).relayProof = (s.endpoint r).relayProof) ∨
    ((s'.endpoint r).sender = none ∧ (s'.endpoint r).relayProof = none)
  own : ((s'.endpoint role).sender = some channel ∧
      (s'.endpoint role).generation = (s.endpoint role).generation + 1 ∧
      (s'.endpoint role).relayProof = some proof) ∨
    ((s'.endpoint role).sender = none ∧ (s'.endpoint role).relayProof = none ∧
      (s.endpoint role).generation ≤ (s'.endpoint role).generation)
  guests : s'.guests.map Guest.core = s.guests.map Guest.core
  relay : ∀ r slot, s'.relay r = some slot → s.relay r = some slot ∧
    ∀ r', slot.owner = .primary r' → r' ≠ role ∧ (s'.endpoint r').sender = (s.endpoint r').sender
  epoch : s.establishmentGeneration ≤ s'.establishmentGeneration

theorem admits_withoutPair (h : Closes s s') (channel proof : ℕ) :
    Admits role channel proof s s'.withoutPair := by
  have hc := h.trans s'.closes_withoutPair
  refine ⟨fun r _ => hc.generation r, fun r _ => hc.sender r,
    .inr ⟨rfl, rfl, (hc.generation role).ge⟩, hc.guests, fun r slot hs => ?_, hc.epoch⟩
  obtain ⟨-, ho⟩ := relay_withoutPair hs
  exact ⟨(hc.relay r slot hs).1, fun r' ho' => absurd ho' (ho r')⟩

section

variable (s net role)

theorem closes_replaceEpoch : Closes s (s.replaceEpoch net role).1 := by
  unfold replaceEpoch
  split_ifs
  · exact s.closes_invalidateReadyEpoch net _ _
  · exact s.closes_prune

theorem clean_replaceEpoch : Clean (s.replaceEpoch net role).1 := by
  unfold replaceEpoch
  split_ifs
  · exact s.clean_invalidateReadyEpoch net _ _
  · exact s.clean_prune

theorem grows_replaceEpoch :
    net.Grows Entry.Calm (s.replaceEpoch net role).2.1 := by
  unfold replaceEpoch
  split_ifs
  · exact s.grows_invalidateReadyEpoch net _ _
  · exact .refl _ _

end

theorem replaceEpoch_error {e : ReadinessError} (h : (s.replaceEpoch net role).2.2 = .error e) :
    ∃ s', Closes s s' ∧ (s.replaceEpoch net role).1 = s'.withoutPair := by
  unfold replaceEpoch at h ⊢
  split_ifs at h ⊢
  unfold invalidateReadyEpoch at h ⊢
  split at h
  · cases h
  rename_i previous hp
  simp only at h ⊢
  have hc := closes_prune { s with readyPair := none }
  split at h
  · cases h
  · split_ifs at h ⊢ with hok
    exact ⟨_, { hc with }, rfl⟩

theorem admits_install (h : Closes s s') (net : Net) (channel proof : ℕ) :
    Admits role channel proof s (s'.install net role channel proof).1 := by
  have he (r : PrimaryRole) : (s'.install net role channel proof).1.endpoint r =
      if r = role then { s'.endpoint role with
        sender := some channel, generation := (s'.endpoint role).generation + 1
        relayProof := some proof } else s'.endpoint r :=
    endpoint_setEndpoint _ _ _ _
  refine ⟨fun r hr => ?_, fun r hr => ?_, .inl ?_, h.guests, fun r slot hs => ?_, h.epoch⟩
  · rw [he, if_neg hr]
    exact h.generation r
  · rw [he, if_neg hr]
    exact h.sender r
  · rw [he, if_pos rfl]
    exact ⟨rfl, congrArg (· + 1) (h.generation role), rfl⟩
  · simp only [install, setEndpoint, clearRelayOwner, Option.filter_eq_some_iff,
      decide_eq_true_eq] at hs
    obtain ⟨hs', ho⟩ := h.relay r slot hs.1
    refine ⟨hs', fun r' hr' => ?_⟩
    have hne : r' ≠ role := fun heq => hs.2 (heq ▸ hr')
    rw [he, if_neg hne]
    exact ⟨hne, ho r' hr'⟩

theorem Admits.closes {channel proof : ℕ} (h : Admits role channel proof s s')
    (hc : Closes s' s'') : Admits role channel proof s s'' := by
  refine ⟨fun r hr => (hc.generation r).trans (h.generation r hr), fun r hr => ?_, ?_,
    hc.guests.trans h.guests, fun r slot hs => ?_, h.epoch.trans hc.epoch⟩
  · rcases hc.sender r with ⟨h1, h2⟩ | hnone
    · rw [h1, h2]
      exact h.sender r hr
    · exact .inr hnone
  · have hg := hc.generation role
    rcases hc.sender role with ⟨h1, h2⟩ | ⟨h1, h2⟩
    · rw [h1, h2, hg]
      exact h.own
    · refine .inr ⟨h1, h2, ?_⟩
      rcases h.own with ⟨-, ho, -⟩ | ⟨-, -, ho⟩ <;> omega
  · obtain ⟨hs', ho⟩ := hc.relay r slot hs
    obtain ⟨hs'', ho'⟩ := h.relay r slot hs'
    exact ⟨hs'', fun r' hr' => ⟨(ho' r' hr').1, (ho r' hr').trans (ho' r' hr').2⟩⟩

variable (s net role)

/-- **An admission.** -/
theorem admits (channel proof now : ℕ) :
    Admits role channel proof s (s.admitPrimarySocket net role channel proof now).1 := by
  unfold admitPrimarySocket
  split_ifs
  · have hc := s.closes_replaceEpoch net role
    split
    · rename_i s' net' e heq
      have herr : (s.replaceEpoch net role).2.2 = .error e := congrArg (·.2.2) heq
      obtain ⟨t, ht, hs'⟩ := replaceEpoch_error herr
      rw [congrArg (·.1) heq] at hs'
      change s' = t.withoutPair at hs'
      rw [hs']
      exact admits_withoutPair ht channel proof
    · rename_i s' net' _ heq
      rw [heq] at hc
      exact (admits_install hc net' channel proof).closes (closes_greet _ _ _ _ _ _)
  · have h : Admits role channel proof s s.withoutPair := admits_withoutPair (.refl s) channel proof
    exact { h with }

theorem admit_result (channel proof now : ℕ) :
    match (s.admitPrimarySocket net role channel proof now).2.2 with
    | .ok g => g = ((s.admitPrimarySocket net role channel proof now).1.endpoint role).generation
    | .error _ => ∀ r, (s.admitPrimarySocket net role channel proof now).1.sender r = none := by
  unfold admitPrimarySocket
  by_cases hg : (s.endpoint role).generation + 1 < U64
  · rw [if_pos hg]
    rcases heq : s.replaceEpoch net role with ⟨s', net', e | _⟩
    · have herr : (s.replaceEpoch net role).2.2 = .error e := congrArg (·.2.2) heq
      obtain ⟨t, -, hs'⟩ := replaceEpoch_error herr
      rw [congrArg (·.1) heq] at hs'
      change s' = t.withoutPair at hs'
      rw [hs']
      exact fun _ => rfl
    · have hres := greet_result (s'.install net' role channel proof).1
        (s'.install net' role channel proof).2 role channel proof now
      have hc := closes_greet (s'.install net' role channel proof).1
        (s'.install net' role channel proof).2 role channel proof now
      simp only
      split at hres
      · exact hres.trans (hc.generation role).symm
      · exact hres
  · rw [if_neg hg]
    exact fun _ => rfl

end Session

end OpenStream.Signal
