import OpenStream.Lib.Bytes
import OpenStream.Lib.Runs
import Mathlib.Tactic.Ring

/-!
# What a guest is told about the pointer

The stream publishes the pointer once, and every guest's thread reports it to its own peer. A peer
that keeps pictures is sent a picture once and its name, a checksum, from then on.

* **`Telling.named_was_carried`**
* **`Telling.named_unseen`**
-/

namespace OpenStream.Host.Pointer

open Bytes Runs List

/-! ## The pointer message -/

structure Update where
  stream : ℕ
  x : ℕ
  y : ℕ
  hotX : ℕ
  hotY : ℕ
  hidden : Bool
  relative : Bool
  suppressed : Bool
  deriving DecidableEq

/-- What the far side should do about the picture. -/
inductive Image
  | unchanged
  | fresh (png : Str) (width height checksum : ℕ)
  | cached (checksum : ℕ)
  deriving DecidableEq

structure Message where
  update : Update
  image : Image
  /-- The far side must forget every picture it holds before reading this one. -/
  forget : Bool
  deriving DecidableEq

def CONTROL_HEADER_LEN : ℕ := 13

def BODY_LEN : ℕ := 21

def OP_CURSOR : ℕ := 9

def encodedLen (image : ℕ) : ℕ := CONTROL_HEADER_LEN + BODY_LEN + image

def upperBound (width height : ℕ) : ℕ :=
  let raw := height * (1 + width * 4)
  8 + 25 + 12 + 12 + 6 + raw + 5 * (raw / 0xFFFF + 1)

namespace Message

variable (m : Message)

def png : Str :=
  match m.image with
  | .fresh png _ _ _ => png
  | _ => []

def flags : ℕ :=
  (if m.update.hidden then 0x0200 else 0) + (if m.update.relative then 0x0100 else 0) +
    (if m.update.suppressed then 0x0800 else 0) + (if m.forget then 0x0020 else 0) +
    match m.image with
    | .unchanged => 0
    | .fresh .. => 0x0002
    | .cached _ => 0x0010

/-- The message in a buffer of `room` bytes, if it fits. A fresh picture has its hotspot in the
body; a named one has it in the arguments of the header, and its checksum in the body. -/
def encode (room : ℕ) : Option Str :=
  if encodedLen m.png.length ≤ room ∧ m.png.length < 2 ^ 32 then
    let hot := be 2 m.update.hotX ++ be 2 m.update.hotY
    let (arguments, place) := match m.image with
      | .cached checksum =>
        (be32 m.update.hotX ++ be32 m.update.hotY,
          be 2 (checksum % 2 ^ 16) ++ be 2 (checksum / 2 ^ 16))
      | _ => (be32 0 ++ be32 0, hot)
    let size := match m.image with
      | .fresh _ width height _ => be 2 width ++ be 2 height
      | _ => be 2 0 ++ be 2 0
    some (arguments ++ be32 m.update.stream ++ be 1 OP_CURSOR ++ [0, 0, 0] ++ be32 m.png.length ++
      size ++ be 2 m.update.x ++ be 2 m.update.y ++ place ++ be 2 m.flags ++ m.png)
  else none

end Message

/-! ## The published pointer -/

structure PointerState where
  x : ℕ
  y : ℕ
  hotX : ℕ
  hotY : ℕ
  width : ℕ
  height : ℕ
  checksum : ℕ
  hidden : Bool
  deriving DecidableEq

/-- The pointer as the stream last published it. -/
structure Cursor where
  generation : ℕ
  state : PointerState
  png : Str

/-- A state of the pointer and, if it is a new one, its picture. -/
structure Publication where
  state : PointerState
  image : Option Str

namespace Cursor

def unread : Cursor := ⟨0, ⟨0, 0, 0, 0, 0, 0, 0, false⟩, []⟩

/-- `publish_pointer`. The generation is a 32-bit counter. -/
def publish (cursor : Cursor) (p : Publication) : Cursor :=
  if cursor.state = p.state ∧ p.image = none then cursor
  else
    { generation := (cursor.generation + 1) % 2 ^ 32, state := p.state
      png := p.image.getD cursor.png }

end Cursor

/-! ## The sender -/

def CAPACITY : ℕ := 100

/-- A picture that the peer holds, with the hotspot it was sent with. -/
structure Held where
  checksum : ℕ
  hotX : ℕ
  hotY : ℕ
  deriving DecidableEq

def PointerState.entry (state : PointerState) : Held := ⟨state.checksum, state.hotX, state.hotY⟩

/-- The refused pointer, encoded once. -/
structure Refused where
  png : Str
  checksum : ℕ
  width : ℕ
  height : ℕ
  hotX : ℕ
  hotY : ℕ

inductive Choice
  | nothing
  | carried
  | named
  deriving DecidableEq

structure Sender where
  caching : Bool
  held : List Held
  /-- The generation last acted on. -/
  seen : Option ℕ
  image : Str
  /-- What this guest is shown while somebody else has the pointer. -/
  refused : Option Refused
  /-- Whether the last update was the refused shape. -/
  refusing : Bool

namespace Sender

def ROOM : ℕ := encodedLen (upperBound 256 256)

def new (refused : Option Refused) : Sender := ⟨false, [], none, [], refused, false⟩

variable (s : Sender)

def caches (caching : Bool) : Sender := { s with caching }

variable (state : PointerState)

def refuse : PointerState :=
  match s.refused with
  | none => state
  | some refused =>
    { state with width := refused.width, height := refused.height, hotX := refused.hotX,
                 hotY := refused.hotY, checksum := refused.checksum }

/-- What to say about the picture, and whether the peer must forget first. -/
def decide (e : Held) : Sender × Choice × Bool :=
  if e.checksum = 0 ∨ (s.image = [] ∧ s.refusing = false) then (s, .nothing, false)
  else if s.caching = false then (s, .carried, false)
  else match s.held.find? (·.checksum = e.checksum) with
  | some slot =>
    if slot = e then (s, .named, false)
    else
      -- the same picture with a corrected offset: its record is updated in place
      ({ s with held := s.held.replaceF fun h => if h.checksum = e.checksum then some e else none },
        .carried, false)
  | none =>
    let forget : Bool := CAPACITY ≤ s.held.length
    ({ s with held := (if forget then [] else s.held) ++ [e] }, .carried, forget)

def picture : Str :=
  if s.refusing then s.refused.elim [] Refused.png else s.image

def shown : PointerState := if s.refusing then s.refuse state else state

def message (choice : Choice) (forget : Bool) : Message where
  update :=
    { stream := 0, x := state.x, y := state.y, hotX := state.hotX, hotY := state.hotY,
      hidden := state.hidden, relative := false, suppressed := false }
  image :=
    match choice with
    | .nothing => .unchanged
    | .named => .cached state.checksum
    | .carried => .fresh s.picture state.width state.height state.checksum
  forget := forget

def update : Sender × Option Message :=
  let (s', choice, forget) := s.decide (s.shown state).entry
  let message := s.message (s.shown state) choice forget
  (s', if (message.encode ROOM).isSome then some message else none)

def looked (generation : ℕ) (cursor : Cursor) (holds : Bool) : Sender :=
  { s with seen := some generation, refusing := !holds && s.refused.isSome, image := cursor.png }

/-- The next update for this guest, if it is owed one. The generation is read before the pointer. -/
def next (generation : ℕ) (cursor : Cursor) (holds : Bool) : Sender × Option Message :=
  if generation = 0 ∨ (s.seen = some generation ∧ s.refusing = (!holds && s.refused.isSome)) then
    (s, none)
  else (s.looked generation cursor holds).update cursor.state

end Sender

/-! ## A guest's thread and its session -/

/-- A sender, and the messages that its session accepted, the oldest first. -/
structure Telling where
  cursor : Cursor
  sender : Sender
  log : List Message

inductive Tell
  | publish (p : Publication)
  | caches (caching : Bool)
  /-- A pass of the guest's loop: whether it has the pointer, what is published between its two
  looks, and whether the session takes the message. -/
  | pass (holds : Bool) (between : List Publication) (accepted : Bool)

namespace Telling

def sees (t : Telling) (between : List Publication) : Cursor := between.foldl .publish t.cursor

def step (t : Telling) : Tell → Option Telling
  | .publish p => some { t with cursor := t.cursor.publish p }
  | .caches caching => some { t with sender := t.sender.caches caching }
  | .pass holds between accepted =>
    let cursor := t.sees between
    let (sender, message) := t.sender.next t.cursor.generation cursor holds
    some ⟨cursor, sender, if accepted then t.log ++ message.toList else t.log⟩

/-- A guest's thread from its start on. -/
def telling (refused : Option Refused) : Machine Telling Tell where
  start := ⟨.unread, .new refused, []⟩
  step := step

end Telling

/-! ## What the peer holds -/

def Message.Carries (m : Message) (e : Held) : Prop :=
  m.update.hotX = e.hotX ∧ m.update.hotY = e.hotY ∧
    ∃ png width height, m.image = .fresh png width height e.checksum

/-- The picture was carried, and not forgotten since. -/
def Kept (log : List Message) (e : Held) : Prop :=
  ∃ before m after, log = before ++ m :: after ∧ m.Carries e ∧ ∀ x ∈ after, x.forget = false

/-- Every picture that is named is held. -/
def Mirrored (log : List Message) : Prop :=
  ∀ earlier m later, log = earlier ++ m :: later → ∀ checksum, m.image = .cached checksum →
    m.forget = false ∧ Kept earlier ⟨checksum, m.update.hotX, m.update.hotY⟩

section Log

variable {log : List Message} {m : Message} {e : Held}

theorem Kept.append (h : Kept log e) (hm : m.forget = false) : Kept (log ++ [m]) e := by
  obtain ⟨before, c, after, rfl, hc, hafter⟩ := h
  exact ⟨before, c, after ++ [m], by simp, hc, forall_mem_concat hafter hm⟩

theorem mirrored_nil : Mirrored [] := fun earlier m later h => by simp at h

theorem Mirrored.append (h : Mirrored log) (hm : ∀ checksum, m.image = .cached checksum →
      m.forget = false ∧ Kept log ⟨checksum, m.update.hotX, m.update.hotY⟩) :
    Mirrored (log ++ [m]) := by
  intro earlier x later hsplit
  -- the message is the new one exactly if nothing follows it
  induction later using reverseRecOn with
  | nil =>
    obtain ⟨rfl, hx⟩ := append_inj' hsplit rfl
    cases hx
    exact hm
  | append_singleton later y _ =>
    have hassoc : log ++ [m] = (earlier ++ x :: later) ++ [y] := by simpa using hsplit
    obtain ⟨hlog, -⟩ := append_inj' hassoc rfl
    exact h earlier x later hlog

end Log

/-! ## What a pass does -/

namespace Sender

/-- The peer keeps pictures, and there is one to tell of. -/
def Due (s : Sender) (e : Held) : Prop :=
  s.caching = true ∧ e.checksum ≠ 0 ∧ (s.image ≠ [] ∨ s.refusing = true)

instance (s : Sender) (e : Held) : Decidable (s.Due e) := inferInstanceAs (Decidable (_ ∧ _))

/-- A message, and the sender with what it takes the peer to hold after it. -/
inductive Says (s : Sender) (e : Held) : Sender → Message → Prop
  | plain (m : Message) : m.forget = false →
      (∀ checksum, m.image = .cached checksum →
        (⟨checksum, m.update.hotX, m.update.hotY⟩ : Held) ∈ s.held) → Says s e s m
  | carries (held : List Held) (m : Message) : s.Due e → m.Carries e → m.png = s.picture →
      (∀ x ∈ held, x = e ∨ (m.forget = false ∧ x ∈ s.held)) → Says s e { s with held } m

variable {s : Sender} {e : Held}

theorem mem_replaceF {l : List Held} {f : Held → Option Held} {x : Held}
    (h : x ∈ l.replaceF f) : x ∈ l ∨ ∃ y, f y = some x := by
  induction l with
  | nil => exact .inl h
  | cons y l ih =>
    rw [replaceF_cons] at h
    cases hy : f y with
    | none =>
      simp only [hy, mem_cons] at h ⊢
      rcases h with h | h
      · exact .inl (.inl h)
      · exact (ih h).imp_left .inr
    | some z =>
      simp only [hy, mem_cons] at h ⊢
      rcases h with rfl | h
      · exact .inr ⟨y, hy⟩
      · exact .inl (.inr h)

theorem decide_cases (s : Sender) (e : Held) :
    s.decide e = (s, .nothing, false) ∨ (s.caching = false ∧ s.decide e = (s, .carried, false)) ∨
      (e ∈ s.held ∧ s.decide e = (s, .named, false)) ∨
      s.Due e ∧ ∃ held forget, s.decide e = ({ s with held }, .carried, forget) ∧
        ∀ x ∈ held, x = e ∨ (forget = false ∧ x ∈ s.held) := by
  unfold decide
  split_ifs with hnone hcaching
  · exact .inl rfl
  · exact .inr (.inl ⟨hcaching, rfl⟩)
  · have hdue : s.Due e := by
      refine ⟨by simpa using hcaching, fun h => hnone (.inl h), ?_⟩
      by_contra hno
      exact hnone (.inr (by simpa using hno))
    refine .inr (.inr ?_)
    cases hfind : s.held.find? (·.checksum = e.checksum) with
    | some slot =>
      dsimp only
      split_ifs with hslot
      · exact .inl ⟨hslot ▸ mem_of_find?_eq_some hfind, rfl⟩
      · refine .inr ⟨hdue, _, _, rfl, fun x hx => ?_⟩
        rcases mem_replaceF hx with hx | ⟨y, hy⟩
        · exact .inr ⟨rfl, hx⟩
        · split_ifs at hy
          exact .inl (Option.some.inj hy).symm
    | none =>
      refine .inr ⟨hdue, _, _, rfl, fun x hx => ?_⟩
      rcases mem_append.mp hx with hx | hx
      · split_ifs at hx with hfull
        · simp at hx
        · exact .inr ⟨by simpa using hfull, hx⟩
      · exact .inl (mem_singleton.mp hx)

theorem update_says (s : Sender) (state : PointerState) :
    ∃ m, Says s (s.shown state).entry (s.update state).1 m ∧
      (s.update state).2 = if (m.encode ROOM).isSome then some m else none := by
  unfold update
  rcases s.decide_cases (s.shown state).entry with
    h | ⟨-, h⟩ | ⟨hmem, h⟩ | ⟨hdue, held, forget, h, hheld⟩
  · rw [h]
    exact ⟨s.message (s.shown state) .nothing false, .plain _ rfl fun _ hc => (nomatch hc), rfl⟩
  · rw [h]
    exact ⟨s.message (s.shown state) .carried false, .plain _ rfl fun _ hc => (nomatch hc), rfl⟩
  · rw [h]
    refine ⟨s.message (s.shown state) .named false, .plain _ rfl fun checksum hc => ?_, rfl⟩
    cases hc
    exact hmem
  · rw [h]
    exact ⟨s.message (s.shown state) .carried forget,
      .carries held _ hdue ⟨rfl, rfl, _, _, _, rfl⟩ rfl hheld, rfl⟩

end Sender

namespace Telling

def looked (t : Telling) (holds : Bool) (between : List Publication) : Sender :=
  t.sender.looked t.cursor.generation (t.sees between) holds

/-- **The condition.** While the peer keeps pictures, a picture that it is not known to hold fits
into a message, and the session takes it. -/
def Delivers (t : Telling) : Tell → Prop
  | .pass holds between accepted =>
    let s := t.looked holds between
    let e := (s.shown (t.sees between).state).entry
    s.Due e → e ∉ s.held → accepted = true ∧ s.picture.length ≤ upperBound 256 256
  | _ => True

instance (t : Telling) : (a : Tell) → Decidable (t.Delivers a)
  | .pass _ _ _ => inferInstanceAs (Decidable (_ → _ → _))
  | .publish _ | .caches _ => .isTrue trivial

/-- What holds in every state of a run that loses no picture. -/
structure Faithful (t : Telling) : Prop where
  held : ∀ e ∈ t.sender.held, Kept t.log e
  mirrored : Mirrored t.log

variable {t t' : Telling}

theorem encode_isSome {m : Message} (h : m.png.length ≤ upperBound 256 256) :
    (m.encode Sender.ROOM).isSome = true := by
  have hfits : encodedLen m.png.length ≤ Sender.ROOM ∧ m.png.length < 2 ^ 32 := by
    refine ⟨Nat.add_le_add_left h _, lt_of_le_of_lt h ?_⟩
    decide
  rw [Message.encode, if_pos hfits]
  rfl

theorem Faithful.said (h : t.Faithful) {s s' : Sender} {m : Message} {e : Held}
    (hheld : s.held = t.sender.held) (hs : Sender.Says s e s' m) {cursor : Cursor} :
    Faithful ⟨cursor, s', t.log ++ [m]⟩ := by
  cases hs with
  | plain _ hforget hnamed =>
    rw [hheld] at hnamed
    refine ⟨fun x hx => ?_, h.mirrored.append fun checksum hc =>
      ⟨hforget, h.held _ (hnamed checksum hc)⟩⟩
    exact (h.held x (hheld ▸ hx)).append hforget
  | carries held _ _ hcarries _ hrest =>
    refine ⟨fun x hx => ?_, h.mirrored.append fun checksum hc => ?_⟩
    · rcases hrest x hx with rfl | ⟨hforget, hmem⟩
      · exact ⟨_, _, [], rfl, hcarries, by simp⟩
      · exact (h.held x (hheld ▸ hmem)).append hforget
    · obtain ⟨-, -, png, width, height, himage⟩ := hcarries
      rw [himage] at hc
      cases hc

theorem Faithful.lost (h : t.Faithful) {s s' : Sender} {m : Message} {e : Held}
    (hheld : s.held = t.sender.held) (hs : Sender.Says s e s' m)
    (hknown : m.png = s.picture → s.Due e → e ∈ s.held) {cursor : Cursor} :
    Faithful ⟨cursor, s', t.log⟩ := by
  refine ⟨fun x hx => ?_, h.mirrored⟩
  cases hs with
  | plain => exact h.held x (hheld ▸ hx)
  | carries held _ hdue _ hpng hrest =>
    rcases hrest x hx with rfl | ⟨-, hmem⟩
    · exact h.held x (hheld ▸ hknown hpng hdue)
    · exact h.held x (hheld ▸ hmem)

theorem Faithful.pass (h : t.Faithful) {holds accepted : Bool} {between : List Publication}
    (hok : t.Delivers (.pass holds between accepted)) {sender : Sender} {message : Option Message}
    (hnext : t.sender.next t.cursor.generation (t.sees between) holds = (sender, message)) :
    Faithful ⟨t.sees between, sender, if accepted then t.log ++ message.toList else t.log⟩ := by
  unfold Sender.next at hnext
  split_ifs at hnext with hidle
  · cases hnext
    rw [Option.toList_none, append_nil, ite_self]
    exact ⟨h.held, h.mirrored⟩
  · obtain ⟨m, hsays, hout⟩ := Sender.update_says (t.looked holds between) (t.sees between).state
    have hheld : (t.looked holds between).held = t.sender.held := rfl
    rw [show (t.looked holds between).update (t.sees between).state = (sender, message) from hnext]
      at hsays hout
    by_cases hsent : accepted = true ∧ (m.encode Sender.ROOM).isSome = true
    · rw [if_pos hsent.2] at hout
      rw [if_pos hsent.1, show message = some m from hout]
      exact h.said hheld hsays
    · have hlog : (if accepted then t.log ++ message.toList else t.log) = t.log := by
        split_ifs with hacc
        · rw [if_neg fun henc => hsent ⟨hacc, henc⟩] at hout
          rw [show message = none from hout, Option.toList_none, append_nil]
        · rfl
      rw [hlog]
      refine h.lost hheld hsays fun hpng hdue => ?_
      by_contra hnew
      obtain ⟨hacc, hfits⟩ := hok hdue hnew
      exact hsent ⟨hacc, encode_isSome (hpng ▸ hfits)⟩

theorem Faithful.step (h : t.Faithful) {a : Tell} (hok : t.Delivers a) (hs : t.step a = some t') :
    t'.Faithful := by
  cases a with
  | publish p | caches caching =>
    cases hs
    exact ⟨h.held, h.mirrored⟩
  | pass holds between accepted =>
    cases hs
    exact h.pass hok rfl

/-- **A picture that is named to the peer was carried to it in full, with the same hotspot, and not
forgotten since**, if no picture that is to be remembered is lost on the way. -/
theorem named_was_carried (refused : Option Refused) (t : Telling)
    (ht : (telling refused).ReachVia Delivers t) (earlier later : List Message) (m : Message)
    (hlog : t.log = earlier ++ m :: later) (checksum : ℕ) (hnamed : m.image = .cached checksum) :
    m.forget = false ∧ ∃ before carrier after, earlier = before ++ carrier :: after ∧
      carrier.update.hotX = m.update.hotX ∧ carrier.update.hotY = m.update.hotY ∧
      (∃ png width height, carrier.image = .fresh png width height checksum) ∧
      ∀ x ∈ after, x.forget = false := by
  have hfaithful : t.Faithful :=
    ht.invariant ⟨fun e he => (nomatch he), mirrored_nil⟩ fun _ _ _ hI hok hs => hI.step hok hs
  obtain ⟨hforget, before, carrier, after, hsplit, ⟨hx, hy, hfresh⟩, hafter⟩ :=
    hfaithful.mirrored earlier m later hlog checksum hnamed
  exact ⟨hforget, before, carrier, after, hsplit, hx, hy, hfresh, hafter⟩

def arrow (x : ℕ) : PointerState := ⟨x, 20, 0, 0, 21, 24, 7, false⟩

/-- A peer that keeps pictures is told of a pointer, which then moves. The session answers to the
first message as given. -/
def moved (accepted : Bool) : List Tell :=
  [.caches true, .publish ⟨arrow 10, some [1, 2, 3, 4]⟩, .pass true [] accepted,
    .publish ⟨arrow 11, none⟩, .pass true [] true]

theorem exists_named_was_carried : ∃ t, (telling none).ReachVia Delivers t ∧
    ∃ carrier m, t.log = [carrier, m] ∧ m.image = .cached 7 ∧
      ∃ png width height, carrier.image = .fresh png width height 7 := by
  obtain ⟨t, ht, hlen, hlast⟩ := Machine.exists_reachVia (M := telling none) Delivers (moved true)
    (fun t => t.log.length = 2 ∧ t.log[1]?.map Message.image = some (.cached 7)) (by decide +kernel)
  obtain ⟨carrier, m, hlog⟩ := length_eq_two.mp hlen
  rw [hlog] at hlast
  have hm : m.image = .cached 7 := by simpa using hlast
  refine ⟨t, ht, carrier, m, hlog, hm, ?_⟩
  obtain ⟨-, before, c, after, hsplit, -, -, hfresh, -⟩ :=
    named_was_carried none t ht [carrier] [] m hlog 7 hm
  have hc : c ∈ [carrier] := by rw [hsplit]; simp
  rwa [← mem_singleton.mp hc]

/-- **A picture that the session refused is named by the first message that it takes.** -/
theorem named_unseen : ∃ t, (telling none).Reach t ∧
    t.log.map Message.image = [.cached 7] :=
  Machine.exists_reachVia (M := telling none) (fun _ _ => True) (moved false) _ (by decide +kernel)

end Telling

end OpenStream.Host.Pointer
