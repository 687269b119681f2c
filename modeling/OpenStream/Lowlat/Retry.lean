import OpenStream.Lowlat.Endpoint
import OpenStream.Lowlat.Resume
import OpenStream.Lowlat.Search

/-!
# Output after a call that found its buffer short

The shell hands the endpoint whatever room its batch has left, and asks again when that was too
little. What the second call emits is compared with what it would have emitted had the first not been
made.

* **`short_buffer_retry`**: exactly when a call that failed has lost nothing for the second.
* **`response_dropped`**: a response that was owed is lost, and the second call is silent.
-/

set_option linter.unusedSectionVars false

namespace OpenStream.Lowlat

open Bytes Runs

open Stun

variable {F : Type}

/-! ## The punch -/

namespace Conn

/-- The call takes a response off the queue, or takes the mapping probe for sent, before it encodes. -/
def Forgets [F64 F] (c : Conn F) (now : F) : Prop :=
  F64.lt 0.0 (c.paceWait now) = false ∧ (Slots.pop c.pending ≠ none ∨
    c.state = .checking ∧ c.probeSent = false ∧ Slots.taken c.candidates ≠ [])

variable [F64 F] {c : Conn F} {now : F} {hashes : Hashes} {outLen : ℕ}

theorem getOutput_of_not_forgets (h : ¬ c.Forgets now) (hashes : Hashes) (outLen : ℕ) :
    c.getOutput hashes now outLen =
      if F64.lt 0.0 (c.paceWait now) = true ∨ c.state ≠ .checking then (c, none)
      else c.serverDue hashes now outLen := by
  unfold Conn.getOutput
  by_cases hpace : F64.lt 0.0 (c.paceWait now) = true
  · rw [if_pos hpace, if_pos (.inl hpace)]
  simp only [Forgets, Bool.eq_false_of_not_eq_true hpace, true_and, not_or, not_not] at h
  rw [if_neg hpace, h.1]
  dsimp only
  by_cases hstate : c.state = .checking
  · have hgo : ¬ (F64.lt 0.0 (c.paceWait now) = true ∨ c.state ≠ .checking) := by
      simp [hpace, hstate]
    rw [if_neg (not_not.mpr hstate), if_neg hgo]
    split
    · rfl
    · next hsent =>
      rw [not_not.mp fun hne => h.2 ⟨hstate, Bool.eq_false_of_not_eq_true hsent, hne⟩]
      rfl
  · rw [if_pos hstate, if_pos (.inr hstate)]

theorem pop_ne {α : Type} : ∀ {l l' : Slots α} {x : α}, Slots.pop l = some (x, l') → l' ≠ l
  | some _ :: _, _, _, h => by
    cases h
    simp
  | none :: _, _, _, h => by
    obtain ⟨⟨_, _⟩, hpop, heq⟩ := Option.map_eq_some_iff.mp h
    cases heq
    simpa using pop_ne hpop

/-- Such a call has something to say, and has forgotten it when it fails. -/
theorem Forgets.lost (h : c.Forgets now) (hashes : Hashes) (outLen : ℕ) :
    (c.getOutput hashes now outLen).2 ≠ none ∧
      ((c.getOutput hashes now outLen).1.pending ≠ c.pending ∨
        (c.getOutput hashes now outLen).1.probeSent ≠ c.probeSent) := by
  unfold Conn.getOutput
  rw [if_neg (by simp [h.1])]
  cases hpop : Slots.pop c.pending with
  | some found =>
    refine ⟨Option.some_ne_none _, .inl ?_⟩
    simp only [emitResponse]
    split <;> exact pop_ne hpop
  | none =>
    obtain ⟨hstate, hsent, hne⟩ := h.2.resolve_left (not_not.mpr hpop)
    dsimp only
    rw [if_neg (not_not.mpr hstate), if_neg (by simp [hsent])]
    cases hhead : (Slots.taken c.candidates).head? with
    | none => exact absurd (List.head?_eq_none_iff.mp hhead) hne
    | some candidate =>
      refine ⟨Option.some_ne_none _, .inr ?_⟩
      rcases { c with probeSent := true }.emitCheck_cases hashes candidate.addr .probe now outLen with
        ⟨e, counter, -, heq⟩ | ⟨tid, bytes, counter, -, -, heq⟩
      · simp [heq, hsent]
      · simp [heq, hsent]

theorem serverDue_error {c' : Conn F} {e : Error}
    (h : c.serverDue hashes now outLen = (c', some (.error e))) :
    ∃ counter, c' = { c with counter := counter } := by
  unfold serverDue emitReflexive nextTransactionId at h
  dsimp only at h
  split at h
  · split at h
    · cases h
      exact ⟨_, rfl⟩
    · cases h
  unfold checkDue at h
  split at h
  · cases h
  next index candidate _ =>
    obtain ⟨error, counter, -, hcheck⟩ | ⟨tid, bytes, counter, -, -, hcheck⟩ :=
      c.emitCheck_cases hashes candidate.addr .default now outLen
    · rw [hcheck] at h
      cases h
      exact ⟨counter, rfl⟩
    · rw [hcheck] at h
      cases h

theorem serverDue_none (h : (c.serverDue hashes now outLen).2 = none) (big : ℕ) :
    c.serverDue hashes now big = (c, none) := by
  unfold serverDue at h ⊢
  split at h
  · cases h
  next hserver =>
    unfold checkDue at h ⊢
    split at h
    · rfl
    · split at h <;> cases h

end Conn

/-! ## The path probe -/

namespace PathMtu

variable [Double F] {m m' : PathMtu F} {nowMs : F}

theorem startProbe_idle (htried : m.probe = none → m.probeAttempts < MAX_PROBES)
    (h : m.startProbe nowMs = (m', none)) : (m'.startProbe nowMs).2 = none := by
  have hstarts := m.starts nowMs
  rw [h] at hstarts
  cases hstarts with
  | idle => rw [h]
  | completed _ _ hprobe hdone =>
    have hnone : (m.complete nowMs).candidate = none := by
      obtain hnone | hspent := hdone
      · exact hnone
      · have := htried hprobe
        omega
    have hagain := (m.complete nowMs).starts nowMs
    generalize (m.complete nowMs).startProbe nowMs = result at hagain ⊢
    cases hagain with
    | idle => rfl
    | completed => rfl
    | probe _ _ _ _ hsize => cases hnone.symm.trans hsize

theorem nextProbeId_of_idle (h : m.startProbe nowMs = (m', none)) : m'.nextProbeId = m.nextProbeId := by
  have hstarts := m.starts nowMs
  rw [h] at hstarts
  cases hstarts with
  | idle => rfl
  | completed => rfl

theorem reserve_renumbered (m : PathMtu F) (nowMs : F) (k : ℕ) :
    (reserve { m with nextProbeId := k } nowMs).2 = (m.reserve nowMs).2.map fun probe =>
      { probe with id := (allocateProbeId { m with nextProbeId := k }).2 } := by
  have hcandidate : candidate { m with nextProbeId := k } = m.candidate := rfl
  unfold reserve
  rw [hcandidate]
  split
  · rfl
  split
  · rfl
  · dsimp only
    split <;> rfl

/-- Identifiers do not bear on what is probed. -/
theorem startProbe_renumbered (m : PathMtu F) (nowMs : F) (k : ℕ) :
    (startProbe { m with nextProbeId := k } nowMs).2 = (m.startProbe nowMs).2.map fun probe =>
      { probe with id := (allocateProbeId { m with nextProbeId := k }).2 } := by
  unfold startProbe
  split
  · rfl
  split
  · split
    · rfl
    · exact reserve_renumbered { m with state := .searching, probeAttempts := 0 } nowMs k
  · exact m.reserve_renumbered nowMs k

/-- A reservation that is taken back is made again, unless the time is negative. -/
theorem startProbe_again {probe : Probe} (h : m.startProbe nowMs = (m', some probe)) :
    (m'.onProbeSendFailed.1.startProbe nowMs).2 = if F64.lt nowMs (0.0 : F) then none
      else some { probe with id := m'.onProbeSendFailed.1.allocateProbeId.2 } := by
  have hcap : MAX_PROBES = 3 := rfl
  have hstarts := m.starts nowMs
  rw [h] at hstarts
  cases hstarts with
  | probe hfinite _ hstate hprobe hsize hattempt hmax =>
    next size attempt =>
    -- the place on the ladder is as it was
    let m₂ : PathMtu F := { m.allocateProbeId.1 with
      state := .searching
      probeAttempts := attempt - 1
      probe := none
      nextActionMs := 0.0 }
    have hfailed : (onProbeSendFailed { m.allocateProbeId.1 with
        state := .searching
        probeAttempts := attempt
        probe := some ⟨⟨m.allocateProbeId.2, size, attempt⟩, nowMs⟩
        nextActionMs := nowMs + PROBE_TIMEOUT_MS }).1 = m₂ := rfl
    have hsize₂ : m₂.candidate = some size := hsize
    have hattempt₂ : min (m₂.probeAttempts + 1) 255 = attempt := by
      have : m₂.probeAttempts = attempt - 1 := rfl
      omega
    rw [hfailed]
    unfold startProbe
    rw [if_neg (by simp [hfinite, m₂]), if_neg (by simp [m₂])]
    unfold reserve
    rw [hsize₂]
    dsimp only
    rw [hattempt₂, if_neg (Nat.not_lt.mpr hmax)]
    split <;> rfl

end PathMtu

namespace Endpoint

variable {n : ℕ} [NeZero n] [Double F]
variable {conn : Conn F} {mtu : PathMtu F} {dest : SocketAddr} {e' : Endpoint n F}

open Conn

/-! ## The controllers of a run -/

/-- An installed controller is one that a search has come to. -/
def Tuned (e : Endpoint n F) : Prop := ∀ mtu, e.pathMtu = some mtu → mtu.Climbs

variable {e : Endpoint n F} {hashes : Hashes} {nowMs : F} {outLen : ℕ}

theorem tuned_some {session : Session n F} (h : mtu.Climbs) : Tuned ⟨conn, session, some mtu⟩ := by
  intro mtu' hmtu'
  cases hmtu'
  exact h

theorem Tuned.onProbeAck (h : Tuned e) (id : UInt32) (size : ℕ) : Tuned (e.onProbeAck id size nowMs) := by
  unfold Endpoint.onProbeAck
  split
  · exact h
  next mtu hmtu =>
    have hclimbs := (h mtu hmtu).onProbeAck id.toNat size nowMs
    split
    next heq =>
      rw [heq] at hclimbs
      split
      · split
        · exact tuned_some hclimbs
        · exact nofun
      · exact tuned_some hclimbs

theorem Tuned.step (h : Tuned e) (a : Action n F) : Tuned (e.step hashes a) := by
  cases a with
  | configurePathMtu config nowMs =>
    simp only [Endpoint.step, Endpoint.configurePathMtu]
    split
    · exact h
    split
    · exact h
    · exact tuned_some (.newWithConfig config nowMs)
  | processInput datagram source nowMs scratchLen =>
    simp only [Endpoint.step, Endpoint.processInput]
    split
    · split <;> exact h
    split
    · exact h
    next session inbound _ =>
      split
      · have hsession : Tuned { e with session } := h
        exact hsession.onProbeAck _ _
      · exact h
  | poll nowMs =>
    intro mtu' hmtu'
    obtain ⟨mtu, hmtu, rfl⟩ := Option.map_eq_some_iff.mp hmtu'
    split
    · exact (h mtu hmtu).onProbeTimeout nowMs
    · exact h mtu hmtu
  | getOutput nowMs outLen =>
    simp only [Endpoint.step, Endpoint.getOutput]
    split
    · exact h
    split
    · exact h
    split
    · exact h
    unfold Endpoint.probeOutput
    split
    · exact h
    next mtu hmtu =>
      have hclimbs := (h mtu hmtu).startProbe nowMs
      split
      · next heq =>
        rw [heq] at hclimbs
        exact tuned_some hclimbs
      next heq =>
        rw [heq] at hclimbs
        split
        · exact tuned_some hclimbs
        · exact tuned_some hclimbs.onProbeSendFailed
  | recoverPathBlackHole nowMs =>
    simp only [Endpoint.step, Endpoint.recoverPathBlackHole]
    split
    · exact h
    next mtu hmtu =>
      have hclimbs := (h mtu hmtu).onBlackHole nowMs
      split
      · exact tuned_some hclimbs
      split
      · exact h
      split
      · next heq =>
        rw [heq] at hclimbs
        exact tuned_some hclimbs
      next heq =>
        rw [heq] at hclimbs
        split
        · exact tuned_some hclimbs
        · exact tuned_some hclimbs
  | addCandidate addr | addServer addr | session call => exact h

theorem tuned_of_reach {start : Endpoint n F} (hstart : start.pathMtu = none)
    (h : (machine hashes start).Reach e) : Tuned e := by
  refine Machine.ReachVia.invariant (fun mtu hmtu => ?_) (fun e a e' htuned _ hstep => ?_) h
  · cases hstart.symm.trans hmtu
  · cases hstep
    exact htuned.step a

/-! ## The second call -/

/-- The endpoint with the identifiers of another: its transaction counter and its next path probe. -/
def withIdentifiersOf (e e' : Endpoint n F) : Endpoint n F :=
  { e with
    conn := { e.conn with counter := e'.conn.counter }
    pathMtu := e.pathMtu.map fun mtu =>
      { mtu with nextProbeId := (e'.pathMtu.map PathMtu.nextProbeId).getD mtu.nextProbeId } }

/-- The path probe that a call would start. -/
def duePathProbe (e : Endpoint n F) (nowMs : F) : Option Probe :=
  e.pathMtu.bind fun mtu => (mtu.startProbe nowMs).2

/-- What a call with all the room there is emits, and the session it leaves. -/
def emission (e : Endpoint n F) (hashes : Hashes) (nowMs : F) :
    Session n F × Option (Except Error Egress) :=
  ((e.getOutput hashes nowMs MAX_DATAGRAM).1.session, (e.getOutput hashes nowMs MAX_DATAGRAM).2)

/-- What a call that failed leaves: every queued response, the mapping probe, the path probe, and
for the next call what it would have emitted itself and the session it would have left, identifiers
aside. -/
structure LosesNothing (hashes : Hashes) (nowMs : F) (e e' : Endpoint n F) : Prop where
  responses : e'.conn.pending = e.conn.pending
  mapping : e'.conn.probeSent = e.conn.probeSent
  search : e'.duePathProbe nowMs = (e.withIdentifiersOf e').duePathProbe nowMs
  next : e'.emission hashes nowMs = (e.withIdentifiersOf e').emission hashes nowMs

/-- The punch forgets, or a path probe is due at a negative time: `on_probe_send_failed` has it due
again at zero. -/
def Forgets (e : Endpoint n F) (nowMs : F) : Prop :=
  e.conn.Forgets nowMs ∨ F64.lt nowMs (0.0 : F) = true ∧ e.conn.path.isSome ∧
    e.session.feedbackPending = false ∧ (e.duePathProbe nowMs).isSome

theorem withIdentifiersOf_eq (hconn : e'.conn.counter = e.conn.counter)
    (hmtu : e'.pathMtu.map PathMtu.nextProbeId = e.pathMtu.map PathMtu.nextProbeId) :
    e.withIdentifiersOf e' = e := by
  obtain ⟨conn, session, pathMtu⟩ := e
  simp only [withIdentifiersOf, hconn, hmtu]
  cases pathMtu <;> rfl

/-- What follows the punch, once there is a path. -/
def afterPunch (e : Endpoint n F) (dest : SocketAddr) (nowMs : F) (outLen : ℕ) :
    Endpoint n F × Option (Except Error Egress) :=
  if e.session.feedbackPending then e.mediaOutput dest nowMs outLen
  else e.probeOutput dest nowMs outLen

theorem getOutput_quiet (h : e.conn.getOutput hashes nowMs outLen = (e.conn, none)) :
    e.getOutput hashes nowMs outLen =
      match e.conn.path with
      | none => (e, none)
      | some dest => e.afterPunch dest nowMs outLen := by
  simp only [getOutput, h]
  rfl

/-- Past the punch, what is emitted follows from the path probe that is due and the session. -/
theorem afterPunch_eq (e : Endpoint n F) (dest : SocketAddr) (nowMs : F) (outLen : ℕ) :
    ((e.afterPunch dest nowMs outLen).1.session, (e.afterPunch dest nowMs outLen).2) =
      match if e.session.feedbackPending then none else e.duePathProbe nowMs with
      | none => (e.session.getOutput nowMs outLen).map id
          (·.map (·.map fun bytes => ⟨dest, .default, bytes⟩))
      | some probe => (e.session.emitPathProbe probe outLen).map id
          fun result => some (result.map fun bytes => ⟨dest, .default, bytes⟩) := by
  unfold afterPunch duePathProbe probeOutput
  split
  · rfl
  cases e.pathMtu with
  | none => rfl
  | some mtu =>
    dsimp only [Option.bind_some]
    generalize mtu.startProbe nowMs = started
    obtain ⟨mtu', _ | probe⟩ := started
    · rfl
    · dsimp only
      generalize e.session.emitPathProbe probe outLen = emitted
      obtain ⟨session, error | bytes⟩ := emitted <;> rfl

theorem retry_conn (hkeeps : ¬ e.conn.Forgets nowMs) {error : Error}
    (h : e.conn.getOutput hashes nowMs outLen = (conn, some (.error error))) :
    LosesNothing hashes nowMs e { e with conn } := by
  rw [getOutput_of_not_forgets hkeeps] at h
  split at h
  · cases h
  obtain ⟨counter, rfl⟩ := serverDue_error h
  have hsame : e.withIdentifiersOf { e with conn := { e.conn with counter } } =
      { e with conn := { e.conn with counter } } := by
    obtain ⟨conn, session, pathMtu⟩ := e
    cases pathMtu <;> rfl
  exact ⟨rfl, rfl, by rw [hsame], by rw [hsame]⟩

theorem retry_media
    (h : e.mediaOutput dest nowMs outLen = (e', some (.error .bufferTooSmall))) :
    e'.conn = e.conn ∧ e'.pathMtu = e.pathMtu ∧
      e'.session.feedbackPending = e.session.feedbackPending ∧
      e'.session.getOutput nowMs MAX_DATAGRAM = e.session.getOutput nowMs MAX_DATAGRAM := by
  unfold mediaOutput at h
  generalize hout : e.session.getOutput nowMs outLen = result at h
  obtain ⟨session, _ | error | bytes⟩ := result <;> cases h
  obtain ⟨heq, hhalf, hprobe⟩ :=
    Session.getOutput_resume (by decide : ENVELOPE_LEN ≤ MAX_DATAGRAM) hout
  exact ⟨rfl, rfl, by simp [Session.feedbackPending, hhalf, hprobe], heq⟩

/-- What a call leaves that got past the punch and failed. -/
structure Resumes (dest : SocketAddr) (nowMs : F) (e e' : Endpoint n F) : Prop where
  conn : e'.conn = e.conn
  search : e'.duePathProbe nowMs = (e.withIdentifiersOf e').duePathProbe nowMs
  next : ((e'.afterPunch dest nowMs MAX_DATAGRAM).1.session,
      (e'.afterPunch dest nowMs MAX_DATAGRAM).2) =
    (((e.withIdentifiersOf e').afterPunch dest nowMs MAX_DATAGRAM).1.session,
      ((e.withIdentifiersOf e').afterPunch dest nowMs MAX_DATAGRAM).2)

/-- The session failed, and the controller is as it was in all that bears on this call. -/
theorem resumes_media {pathMtu : Option (PathMtu F)}
    (hmtu : pathMtu.map PathMtu.nextProbeId = e.pathMtu.map PathMtu.nextProbeId)
    (hdue : duePathProbe { e with pathMtu } nowMs = e.duePathProbe nowMs)
    (hquiet : e.session.feedbackPending = true ∨ e.duePathProbe nowMs = none)
    (h : mediaOutput { e with pathMtu } dest nowMs outLen = (e', some (.error .bufferTooSmall))) :
    Resumes dest nowMs e e' := by
  obtain ⟨hconn, hsamemtu, hfeedback, heq⟩ := retry_media h
  have hsame : e.withIdentifiersOf e' = e :=
    withIdentifiersOf_eq (by rw [hconn]) (by rw [hsamemtu]; exact hmtu)
  have hdue : e'.duePathProbe nowMs = e.duePathProbe nowMs := by
    rw [← hdue, duePathProbe, hsamemtu]
    rfl
  refine ⟨hconn, by rw [hsame, hdue], ?_⟩
  rw [hsame, afterPunch_eq, afterPunch_eq, hdue, hfeedback, heq]
  dsimp only
  rcases hquiet with hpending | hnone
  · simp only [hpending, if_true]
  · simp only [hnone, ite_self]

theorem resumes_afterPunch (htuned : Tuned e)
    (hnow : e.session.feedbackPending = false → (e.duePathProbe nowMs).isSome →
      F64.lt nowMs (0.0 : F) = false)
    (h : e.afterPunch dest nowMs outLen = (e', some (.error .bufferTooSmall))) :
    Resumes dest nowMs e e' := by
  unfold afterPunch at h
  split at h
  · next hpending => exact resumes_media rfl rfl (.inl hpending) h
  next hpending =>
  have hpending := Bool.eq_false_of_not_eq_true hpending
  unfold probeOutput at h
  split at h
  · next hmtu =>
    exact resumes_media rfl rfl (.inr (by rw [duePathProbe, hmtu]; rfl)) h
  next mtu hmtu =>
  split at h
  · next mtu' hstart =>
    have hnone : e.duePathProbe nowMs = none := by simp [duePathProbe, hmtu, hstart]
    refine resumes_media ?_ ?_ (.inr hnone) h
    · simp [hmtu, PathMtu.nextProbeId_of_idle hstart]
    · rw [hnone]
      exact PathMtu.startProbe_idle (htuned mtu hmtu).tried hstart
  next mtu' probe hstart =>
  have hnow := hnow hpending (by simp [duePathProbe, hmtu, hstart])
  split at h <;> cases h
  next session hemit =>
  have hsame := Session.emit_short (fun _ _ hok => by
    obtain ⟨hlen, hroom⟩ := Session.length_encodeProbe hok
    omega) hemit
  have hdue : duePathProbe { e with session, pathMtu := some mtu'.onProbeSendFailed.1 } nowMs =
      (e.withIdentifiersOf { e with session, pathMtu := some mtu'.onProbeSendFailed.1 }).duePathProbe
        nowMs := by
    simp only [duePathProbe, withIdentifiersOf, hmtu, Option.map_some, Option.bind_some,
      Option.getD_some]
    rw [PathMtu.startProbe_again hstart, PathMtu.startProbe_renumbered, hstart, hnow]
    rfl
  refine ⟨rfl, hdue, ?_⟩
  rw [afterPunch_eq, afterPunch_eq, hdue, hsame]
  rfl

/-- At a negative time the path probe is not due again. -/
theorem search_lost (hpending : e.session.feedbackPending = false)
    (hdue : (e.duePathProbe nowMs).isSome) (hnow : F64.lt nowMs (0.0 : F) = true) {error : Error}
    (h : e.afterPunch dest nowMs outLen = (e', some (.error error))) :
    e'.duePathProbe nowMs ≠ (e.withIdentifiersOf e').duePathProbe nowMs := by
  obtain ⟨probe, hprobe⟩ := Option.isSome_iff_exists.mp hdue
  obtain ⟨mtu, hmtu, hout⟩ := Option.bind_eq_some_iff.mp hprobe
  obtain ⟨mtu', hstart⟩ : ∃ mtu', mtu.startProbe nowMs = (mtu', some probe) := ⟨_, Prod.ext rfl hout⟩
  simp only [afterPunch, hpending, probeOutput, hmtu, hstart, Bool.false_eq_true, if_false] at h
  split at h <;> cases h
  simp [duePathProbe, withIdentifiersOf, hmtu, PathMtu.startProbe_again hstart,
    PathMtu.startProbe_renumbered, hnow, hstart]

theorem retry_iff (htuned : Tuned e)
    (h : e.getOutput hashes nowMs outLen = (e', some (.error .bufferTooSmall))) :
    LosesNothing hashes nowMs e e' ↔ ¬ e.Forgets nowMs := by
  cases hconn : e.conn.getOutput hashes nowMs outLen with
  | mk conn out =>
  cases out with
  | some result =>
    simp only [getOutput, hconn] at h
    cases h
    by_cases hforgets : e.conn.Forgets nowMs
    · refine iff_of_false (fun hkept => ?_) (not_not.mpr (.inl hforgets))
      have hlost := (hforgets.lost hashes outLen).2
      rw [hconn] at hlost
      exact hlost.elim (absurd hkept.responses) (absurd hkept.mapping)
    · refine iff_of_true (retry_conn hforgets hconn) ?_
      -- a punch that speaks up has no path yet
      rintro (h | ⟨-, hpath, -⟩)
      · exact hforgets h
      · rw [getOutput_of_not_forgets hforgets] at hconn
        split at hconn
        · cases hconn
        · next hgo =>
          simp only [not_or, not_not] at hgo
          simp [path, hgo.2] at hpath
  | none =>
    have hforgets : ¬ e.conn.Forgets nowMs := fun hforgets =>
      (hforgets.lost hashes outLen).1 (congrArg Prod.snd hconn)
    -- the punch has nothing to say, with any buffer
    have hquiet (len : ℕ) : e.conn.getOutput hashes nowMs len = (e.conn, none) := by
      rw [getOutput_of_not_forgets hforgets] at hconn ⊢
      split at hconn
      · next hstop => rw [if_pos hstop]
      · next hgo =>
        rw [if_neg hgo]
        exact serverDue_none (congrArg Prod.snd hconn) len
    rw [getOutput_quiet (hquiet outLen)] at h
    cases hpath : e.conn.path with
    | none =>
      rw [hpath] at h
      cases h
    | some dest =>
      simp only [hpath] at h
      constructor
      · rintro hkept (hlost | ⟨hnow, -, hpending, hdue⟩)
        · exact hforgets hlost
        · exact search_lost hpending hdue hnow h hkept.search
      · intro hkeeps
        obtain ⟨hsame, hsearch, hnext⟩ : Resumes dest nowMs e e' := by
          refine resumes_afterPunch htuned (fun hpending hdue => ?_) h
          exact Bool.eq_false_of_not_eq_true fun hnow =>
            hkeeps (.inr ⟨hnow, by rw [hpath]; rfl, hpending, hdue⟩)
        refine ⟨by rw [hsame], by rw [hsame], hsearch, ?_⟩
        have hconn' : (e.withIdentifiersOf e').conn = e.conn := by
          simp only [withIdentifiersOf, hsame]
        rw [emission, emission, getOutput_quiet (hsame ▸ hquiet MAX_DATAGRAM),
          getOutput_quiet (hconn' ▸ hquiet MAX_DATAGRAM), hsame, hconn', hpath]
        exact hnext

end Endpoint

open Endpoint

/-- **A short buffer loses nothing exactly if** the punch takes no response off its queue and starts no
mapping probe in the call, and no path probe is due at a negative time. -/
theorem short_buffer_retry {n : ℕ} [NeZero n] [Double F] (hashes : Hashes)
    {start e : Endpoint n F} (hstart : start.pathMtu = none)
    (hreach : (machine hashes start).Reach e) {nowMs : F} {outLen : ℕ}
    (h : (e.getOutput hashes nowMs outLen).2 = some (.error .bufferTooSmall)) :
    LosesNothing hashes nowMs e (e.getOutput hashes nowMs outLen).1 ↔ ¬ e.Forgets nowMs :=
  retry_iff (tuned_of_reach hstart hreach) (Prod.ext rfl h)

/-- A keepalive that did not fit. -/
theorem short_buffer_retry_keepalive : ∃ e, (machine plainHashes plainEndpoint).Reach e ∧
    (e.getOutput plainHashes 50 10).2 = some (.error .bufferTooSmall) ∧
    (e.getOutput plainHashes 50 MAX_DATAGRAM).2.map Except.toBool = some true ∧
    LosesNothing plainHashes 50 e (e.getOutput plainHashes 50 10).1 := by
  have hreach : (machine plainHashes plainEndpoint).Reach (plainEndpoint.poll 50) :=
    .step (a := .poll 50) .start trivial rfl
  have hshort : ((plainEndpoint.poll 50).getOutput plainHashes 50 10).2 =
      some (.error .bufferTooSmall) := by decide +kernel
  have hkeeps : ¬ (plainEndpoint.poll 50).Forgets 50 := by
    unfold Endpoint.Forgets Conn.Forgets
    decide +kernel
  exact ⟨_, hreach, hshort, by decide +kernel,
    (short_buffer_retry plainHashes rfl hreach hshort).mpr hkeeps⟩

/-- **A binding response that is owed is dropped**: the second call emits nothing, where the peer
would have been answered. -/
theorem response_dropped : ∃ e, (machine plainHashes plainEndpoint).Reach e ∧
    (e.getOutput plainHashes 0 10).2 = some (.error .bufferTooSmall) ∧
    (e.getOutput plainHashes 0 MAX_DATAGRAM).2.map (·.map Conn.Egress.dest) =
      some (.ok (neighbour 2)) ∧
    ((e.getOutput plainHashes 0 10).1.getOutput plainHashes 0 MAX_DATAGRAM).2 = none :=
  Machine.exists_reachVia (M := machine plainHashes plainEndpoint) (fun _ _ => True)
    [.processInput askedBy (neighbour 2) 0 MAX_DATAGRAM] _ (by decide +kernel)

end OpenStream.Lowlat
