import OpenStream.Lib.Bytes
import OpenStream.Lib.Runs
import OpenStream.Lib.Shift

/-!
# The datagram session

A datagram is a header in the clear, the ciphertext and its tag. The header carries a counter, which
makes the nonce; a receiver remembers the counters it accepted in a window of 64.

* **`replay_window_refines`**
-/

namespace OpenStream.Protocol

open Bytes Runs Shift

def MAX_DATAGRAM : ℕ := 1200
def HEADER_LEN : ℕ := 16
def TAG_LEN : ℕ := 16
def MAX_PLAINTEXT : ℕ := MAX_DATAGRAM - HEADER_LEN - TAG_LEN
def REPLAY_WINDOW_BITS : ℕ := 64
def MAGIC : Str := [0x4F, 0x53]
def VERSION : UInt8 := 1

inductive Kind
  | control
  | video
  | audio
  | input
  deriving DecidableEq

def Kind.code : Kind → UInt8
  | .control => 1
  | .video => 2
  | .audio => 3
  | .input => 4

def Kind.tryFrom (value : UInt8) : Option Kind :=
  [Kind.control, .video, .audio, .input].find? fun kind => kind.code = value

structure Packet where
  kind : Kind
  channel : UInt8
  flags : UInt8
  counter : UInt64
  payload : Str
  deriving DecidableEq

inductive Error
  | shortDatagram
  | badMagic
  | unsupportedVersion (version : UInt8)
  | unknownKind (kind : UInt8)
  | badLength
  | tooLarge
  | counterOverflow
  | authenticationFailed
  deriving DecidableEq

/-- Authenticated encryption under one key: a nonce and a header first. -/
structure Cipher where
  encrypt : Str → Str → Str → Option (Str × Str)
  decrypt : Str → Str → Str → Str → Option Str

/-- The two ciphers of a session, its next counter and the counters it accepted. -/
structure Session where
  txCipher : Cipher
  rxCipher : Cipher
  nextTx : UInt64
  highestRx : Option UInt64
  receivedWindow : BitVec 64

def nonce (counter : UInt64) : Str := List.replicate 4 0 ++ be 8 counter.toNat

/-- The checks of `open` before the counter is looked at: the kind, the counter and the length of
the payload. -/
def parse (datagram : Str) : Except Error (Kind × UInt64 × ℕ) :=
  if datagram.length < HEADER_LEN + TAG_LEN then .error .shortDatagram
  else if datagram.take 2 ≠ MAGIC then .error .badMagic
  else if datagram.getD 2 0 ≠ VERSION then .error (.unsupportedVersion (datagram.getD 2 0))
  else
    match Kind.tryFrom (datagram.getD 3 0) with
    | none => .error (.unknownKind (datagram.getD 3 0))
    | some kind =>
      let payloadLen := ofBe ((datagram.drop 14).take 2)
      if MAX_PLAINTEXT < payloadLen ∨ datagram.length ≠ HEADER_LEN + payloadLen + TAG_LEN then
        .error .badLength
      else .ok (kind, UInt64.ofNat (ofBe ((datagram.drop 6).take 8)), payloadLen)

namespace Session

def new (tx rx : Cipher) : Session := ⟨tx, rx, 0, none, 0⟩

variable (s : Session)

def sealInner (kind : Kind) (channel flags : UInt8) (payload : Str) :
    Session × Except Error (UInt64 × Str) :=
  if MAX_PLAINTEXT < payload.length then (s, .error .tooLarge)
  else if 2 ^ 64 ≤ s.nextTx.toNat + 1 then (s, .error .counterOverflow)
  else
    let header := MAGIC ++ [VERSION, kind.code, channel, flags] ++ be 8 s.nextTx.toNat ++
      be 2 payload.length
    let s' := { s with nextTx := s.nextTx + 1 }
    match s.txCipher.encrypt (nonce s.nextTx) header payload with
    | none => (s', .error .authenticationFailed)
    | some (body, tag) => (s', .ok (s.nextTx, header ++ body ++ tag))

def isReplay (counter : UInt64) : Bool :=
  match s.highestRx with
  | none => false
  | some highest =>
    if highest < counter then false
    else
      let distance := (highest - counter).toNat
      decide (REPLAY_WINDOW_BITS ≤ distance) || s.receivedWindow &&& 1#64 <<< distance != 0

def acceptCounter (counter : UInt64) : Session :=
  match s.highestRx with
  | none => { s with highestRx := some counter, receivedWindow := 1 }
  | some highest =>
    if highest < counter then
      { s with
        highestRx := some counter
        receivedWindow := shift s.receivedWindow (counter - highest).toNat }
    else
      { s with receivedWindow := s.receivedWindow ||| 1#64 <<< (highest - counter).toNat }

def decrypt (datagram : Str) (counter : UInt64) (payloadLen : ℕ) : Option Str :=
  s.rxCipher.decrypt (nonce counter) (datagram.take HEADER_LEN)
    ((datagram.drop HEADER_LEN).take payloadLen) (datagram.drop (HEADER_LEN + payloadLen))

def open_ (datagram : Str) : Session × Except Error Packet :=
  match parse datagram with
  | .error error => (s, .error error)
  | .ok (kind, counter, payloadLen) =>
    if s.isReplay counter then (s, .error .authenticationFailed)
    else
      match s.decrypt datagram counter payloadLen with
      | none => (s, .error .authenticationFailed)
      | some payload => (s.acceptCounter counter,
          .ok ⟨kind, datagram.getD 4 0, datagram.getD 5 0, counter, payload⟩)

end Session

/-! ## Runs -/

/-- A session, the counters it accepted and those it issued. -/
structure Traffic where
  session : Session
  accepted : List UInt64
  issued : List UInt64

/-- Any bytes arrive, and any packet is sealed. -/
inductive Event
  | open_ (datagram : Str)
  | seal_ (kind : Kind) (channel flags : UInt8) (payload : Str)

namespace Traffic

def handle (t : Traffic) : Event → Traffic
  | .open_ datagram =>
    match t.session.open_ datagram with
    | (session, .ok packet) => { t with session, accepted := packet.counter :: t.accepted }
    | (session, .error _) => { t with session }
  | .seal_ kind channel flags payload =>
    match t.session.sealInner kind channel flags payload with
    | (session, .ok (counter, _)) => { t with session, issued := counter :: t.issued }
    | (session, .error _) => { t with session }

def traffic (tx rx : Cipher) : Machine Traffic Event :=
  ⟨⟨.new tx rx, [], []⟩, fun t e => some (t.handle e)⟩

structure Remembers (t : Traffic) : Prop where
  window : (t.session.highestRx = none ∧ t.accepted = []) ∨ ∃ highest,
    t.session.highestRx = some highest ∧ Marks (fun c => ∃ a ∈ t.accepted, a.toNat = c)
      highest.toNat t.session.receivedWindow
  below : ∀ c ∈ t.issued, c < t.session.nextTx
  distinct : t.issued.Nodup

variable {t : Traffic}

theorem isReplay_iff (h : t.Remembers) (c : UInt64) : t.session.isReplay c = false ↔
    c ∉ t.accepted ∧ ∀ a ∈ t.accepted, a.toNat < c.toNat + 64 := by
  unfold Session.isReplay
  rcases h.window with ⟨hnone, hnil⟩ | ⟨highest, hsome, hm⟩
  · simp [hnone, hnil]
  · rw [hsome]
    have hle : ∀ a ∈ t.accepted, a.toNat ≤ highest.toNat := fun a ha => hm.le _ ⟨a, ha, rfl⟩
    have hmem : (∃ a ∈ t.accepted, a.toNat = c.toNat) ↔ c ∈ t.accepted := by
      simp [UInt64.toNat_inj]
    obtain ⟨top, htop, heq⟩ := hm.mem
    by_cases hlt : highest < c
    · rw [UInt64.lt_iff_toNat_lt] at hlt
      simp only [UInt64.lt_iff_toNat_lt, hlt, if_true, true_iff]
      refine ⟨fun hc => ?_, fun a ha => ?_⟩
      · have := hle c hc
        omega
      · have := hle a ha
        omega
    · have hge : c ≤ highest := UInt64.not_lt.mp hlt
      have hsub := UInt64.toNat_sub_of_le highest c hge
      rw [UInt64.le_iff_toNat_le] at hge
      simp only [if_neg hlt, hsub, REPLAY_WINDOW_BITS, Bool.or_eq_false_iff, decide_eq_false_iff_not]
      by_cases hd : highest.toNat - c.toNat < 64
      · have htest := hm.test hge hd
        grind
      · have := hle top htop
        grind

theorem remembers_accept (h : t.Remembers) (c : UInt64) :
    Remembers { t with session := t.session.acceptCounter c, accepted := c :: t.accepted } := by
  have hnext : (t.session.acceptCounter c).nextTx = t.session.nextTx := by
    unfold Session.acceptCounter
    grind
  refine ⟨.inr ?_, fun a ha => hnext ▸ h.below a ha, h.distinct⟩
  have hseen : (fun n => ∃ a ∈ c :: t.accepted, a.toNat = n) =
      fun n => n = c.toNat ∨ ∃ a ∈ t.accepted, a.toNat = n := by
    funext n
    simp [eq_comm]
  unfold Session.acceptCounter
  rcases h.window with ⟨hnone, hnil⟩ | ⟨highest, hsome, hm⟩
  · rw [hnone]
    refine ⟨c, rfl, ?_⟩
    simpa [hnil, eq_comm] using marks_one c.toNat
  · rw [hsome, hseen]
    dsimp only
    split_ifs with hlt
    · refine ⟨c, rfl, ?_⟩
      have hle := UInt64.le_of_lt hlt
      rw [UInt64.toNat_sub_of_le c highest hle]
      exact hm.shift (UInt64.lt_iff_toNat_lt.mp hlt)
    · refine ⟨highest, rfl, ?_⟩
      have hge : c ≤ highest := UInt64.not_lt.mp hlt
      rw [UInt64.toNat_sub_of_le highest c hge]
      exact hm.fill (UInt64.le_iff_toNat_le.mp hge)

theorem opened (s : Session) (datagram : Str) :
    (∃ error, s.open_ datagram = (s, .error error)) ∨
      ∃ packet, s.open_ datagram = (s.acceptCounter packet.counter, .ok packet) := by
  unfold Session.open_
  split
  · exact .inl ⟨_, rfl⟩
  · split_ifs
    · exact .inl ⟨_, rfl⟩
    · split
      · exact .inl ⟨_, rfl⟩
      · exact .inr ⟨⟨_, _, _, _, _⟩, rfl⟩

theorem remembers_seal (h : t.Remembers) (kind : Kind) (channel flags : UInt8) (payload : Str) :
    (t.handle (.seal_ kind channel flags payload)).Remembers ∧
    ∀ counter datagram, (t.session.sealInner kind channel flags payload).2 =
      .ok (counter, datagram) → counter ∉ t.issued := by
  have hnew : t.session.nextTx ∉ t.issued := fun hin => absurd (h.below _ hin) (UInt64.lt_irrefl _)
  simp only [handle]
  unfold Session.sealInner
  dsimp only
  split_ifs with hbig hfull
  · exact ⟨h, nofun⟩
  · exact ⟨h, nofun⟩
  · have hlt : t.session.nextTx < t.session.nextTx + 1 := by
      rw [UInt64.lt_iff_toNat_lt, UInt64.toNat_add, UInt64.toNat_one]
      omega
    have hbelow : ∀ c ∈ t.issued, c < t.session.nextTx + 1 := fun c hc =>
      UInt64.lt_trans (h.below c hc) hlt
    cases t.session.txCipher.encrypt _ _ payload with
    | none => exact ⟨⟨h.window, hbelow, h.distinct⟩, nofun⟩
    | some sealed =>
      refine ⟨⟨h.window, List.forall_mem_cons.mpr ⟨hlt, hbelow⟩,
        List.nodup_cons.mpr ⟨hnew, h.distinct⟩⟩, fun _ _ he => ?_⟩
      cases he
      exact hnew

theorem remembers_handle (h : t.Remembers) (e : Event) : (t.handle e).Remembers := by
  cases e with
  | open_ datagram =>
    rcases opened t.session datagram with ⟨error, he⟩ | ⟨packet, he⟩
    · simp only [handle, he]
      exact h
    · simp only [handle, he]
      exact remembers_accept h packet.counter
  | seal_ kind channel flags payload => exact (remembers_seal h kind channel flags payload).1

end Traffic

/-- **The replay window refines the set of counters accepted**; a datagram that is refused changes
nothing, and no counter is issued twice. -/
theorem replay_window_refines {tx rx : Cipher} {t : Traffic} (h : (Traffic.traffic tx rx).Reach t) :
    (∀ datagram kind counter payloadLen payload,
      parse datagram = .ok (kind, counter, payloadLen) →
      t.session.decrypt datagram counter payloadLen = some payload →
      ((t.session.open_ datagram).2 =
          .ok ⟨kind, datagram.getD 4 0, datagram.getD 5 0, counter, payload⟩ ↔
        counter ∉ t.accepted ∧ ∀ a ∈ t.accepted, (a.toNat : ℤ) - 64 < counter.toNat)) ∧
    (∀ datagram error, (t.session.open_ datagram).2 = .error error →
      (t.session.open_ datagram).1 = t.session) ∧
    t.issued.Nodup ∧ ∀ kind channel flags payload counter datagram,
      (t.session.sealInner kind channel flags payload).2 = .ok (counter, datagram) →
      counter ∉ t.issued := by
  have ht : t.Remembers := by
    refine h.invariant ⟨.inl ⟨rfl, rfl⟩, nofun, .nil⟩ ?_
    intro t e t' ht _ hstep
    cases hstep
    exact Traffic.remembers_handle ht e
  refine ⟨fun datagram kind counter payloadLen payload hparse hauth => ?_, fun datagram error he => ?_,
    ht.distinct, fun kind channel flags payload => (Traffic.remembers_seal ht kind channel flags
      payload).2⟩
  · have hiff := Traffic.isReplay_iff ht counter
    have hcast : ∀ a : UInt64, ((a.toNat : ℤ) - 64 < counter.toNat) ↔ a.toNat < counter.toNat + 64 :=
      fun a => by omega
    simp only [hcast, ← hiff, Session.open_, hparse, hauth]
    cases t.session.isReplay counter <;> simp
  · rcases Traffic.opened t.session datagram with ⟨_, hopen⟩ | ⟨_, hopen⟩
    · rw [hopen]
    · rw [hopen] at he
      cases he

def plain : Cipher :=
  ⟨fun _ _ payload => some (payload, List.replicate 16 0), fun _ _ body _ => some body⟩

def bare (counter : ℕ) : Str :=
  MAGIC ++ [VERSION, 4, 0, 0] ++ be 8 counter ++ be 2 0 ++ List.replicate 16 0

/-- Counters 70, 7 and 6: the last is refused, for 70 has been accepted. -/
theorem replay_window_refines_jump : ∃ t, (Traffic.traffic plain plain).Reach t ∧
    t.accepted = [7, 70] ∧ (t.session.open_ (bare 6)).2 ≠ .ok ⟨.input, 0, 0, 6, []⟩ ∧
    (t.session.open_ (bare 8)).2 = .ok ⟨.input, 0, 0, 8, []⟩ := by
  obtain ⟨t, ht, hacc, h6, h8, hd6, hd8⟩ := Machine.exists_reachVia (M := Traffic.traffic plain plain)
    (fun _ _ => True) [.open_ (bare 70), .open_ (bare 7), .open_ (bare 6)]
    (fun t => t.accepted = [7, 70] ∧ parse (bare 6) = .ok (.input, 6, 0) ∧
      parse (bare 8) = .ok (.input, 8, 0) ∧ t.session.decrypt (bare 6) 6 0 = some [] ∧
      t.session.decrypt (bare 8) 8 0 = some []) (by decide +kernel)
  obtain ⟨hopen, -⟩ := replay_window_refines ht
  refine ⟨t, ht, hacc, fun hok => ?_, (hopen _ _ _ _ _ h8 hd8).mpr ?_⟩
  · have := ((hopen _ _ _ _ _ h6 hd6).mp hok).2 70
    simp [hacc] at this
  · simp [hacc]

end OpenStream.Protocol
