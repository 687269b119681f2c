import OpenStream.Host.Stream

/-!
# Sound for one guest

The audio thread publishes packets to a seat in the encoding that the settings name, and the guest's
thread sends them under a header that the settings name then.

* **`Sound.labelled`**: a header names the encoding of its payload if the settings change only with
  nothing on the way. **`Sound.mislabelled`**: otherwise it need not.
-/

namespace OpenStream.Host.Audio

inductive Codec
  | opus
  | pcm
  deriving DecidableEq

/-- The codec in the header. -/
def header (raw : Bool) : Codec := if raw then .pcm else .opus

/-- How far `seat_raw` has come: which of its loads is next. -/
inductive Look
  | state
  | wants
  | allow (asked : Bool)
  deriving DecidableEq

/-- `publish_audio` for one seat. -/
inductive Publisher
  | idle
  | looking (raw : Bool) (l : Look)
  | pushing (raw : Bool)
  deriving DecidableEq

/-- `send_audio`, with what `audio_raw` gave. -/
inductive Sender
  | idle
  | looking (l : Look)
  | sending (raw : Bool)
  deriving DecidableEq

structure Sound where
  streaming : Bool
  wantsRaw : Bool
  allowRaw : Bool
  /-- The packets in the seat's ring: whether they are uncompressed. -/
  ring : List Bool
  publisher : Publisher
  sender : Sender
  /-- The messages sent: the codec in the header, and that of the payload. -/
  sent : List (Codec × Codec)

inductive Sound.Action
  | publish (raw : Bool)
  | audio
  | send
  /-- The guest's thread goes on; the session takes the message or does not. -/
  | guest (accepted : Bool)
  | setState (streaming : Bool)
  | declareAudio (raw : Bool)
  | setSound (allowRaw : Bool)

namespace Sound

def seatRaw (s : Sound) : Option Bool :=
  if s.streaming then some (s.wantsRaw && s.allowRaw) else none

/-- One load of `seat_raw`: the next one, or the result. -/
def load (s : Sound) : Look → Look ⊕ Option Bool
  | .state => if s.streaming then .inl .wants else .inr none
  | .wants => .inl (.allow s.wantsRaw)
  | .allow asked => .inr (some (asked && s.allowRaw))

def audio (s : Sound) : Option Sound :=
  match s.publisher with
  | .idle => none
  | .looking raw l =>
    match s.load l with
    | .inl l => some { s with publisher := .looking raw l }
    | .inr r => some { s with publisher := if r = some raw then .pushing raw else .idle }
  | .pushing raw => some { s with
      ring := if s.ring.length < AUDIO_DEPTH then s.ring ++ [raw] else s.ring
      publisher := .idle }

def guest (s : Sound) (accepted : Bool) : Option Sound :=
  match s.sender with
  | .idle => none
  | .looking l =>
    match s.load l with
    | .inl l => some { s with sender := .looking l }
    | .inr r => some { s with sender := .sending (r.getD false) }
  | .sending raw =>
    match s.ring with
    | [] => some { s with sender := .idle }
    | p :: ring =>
      if accepted then some { s with ring := ring, sent := s.sent ++ [(header raw, header p)] }
      else some { s with ring := ring, sender := .idle }

def step (s : Sound) : Action → Option Sound
  | .publish raw =>
    if s.publisher = .idle then some { s with publisher := .looking raw .state } else none
  | .audio => s.audio
  | .send => if s.sender = .idle then some { s with sender := .looking .state } else none
  | .guest accepted => s.guest accepted
  | .setState streaming => some { s with streaming := streaming }
  | .declareAudio raw => some { s with wantsRaw := raw }
  | .setSound allowRaw => some { s with allowRaw := allowRaw }

def sound : Runs.Machine Sound Action := ⟨⟨false, false, false, [], .idle, .idle, []⟩, step⟩

/-- No packet is on the way, and no thread is looking. -/
def Quiet (s : Sound) : Prop := s.ring = [] ∧ s.publisher = .idle ∧ s.sender = .idle

/-- The settings change only while it is quiet. -/
def Settled (s : Sound) : Action → Prop
  | .setState streaming => streaming = s.streaming ∨ s.Quiet
  | .declareAudio raw => raw = s.wantsRaw ∨ s.Quiet
  | .setSound allowRaw => allowRaw = s.allowRaw ∨ s.Quiet
  | _ => True

instance (s : Sound) (a : Action) : Decidable (s.Settled a) := by
  cases a <;> unfold Settled Quiet <;> infer_instance

/-- What has been loaded is still so. -/
def Current (s : Sound) : Look → Prop
  | .state => True
  | .wants => s.streaming = true
  | .allow asked => s.streaming = true ∧ asked = s.wantsRaw

def PublisherFits (s : Sound) : Publisher → Prop
  | .idle => True
  | .looking _ l => s.Current l
  | .pushing raw => s.seatRaw = some raw

def SenderFits (s : Sound) : Sender → Prop
  | .idle => True
  | .looking l => s.Current l
  | .sending raw => s.seatRaw.getD false = raw

structure Labels (s : Sound) : Prop where
  ring : ∀ p ∈ s.ring, s.seatRaw = some p
  publisher : s.PublisherFits s.publisher
  sender : s.SenderFits s.sender
  sent : ∀ m ∈ s.sent, m.1 = m.2

variable {s s' : Sound} {l : Look}

theorem load_cases (h : s.Current l) :
    (∃ l', s.load l = .inl l' ∧ s.Current l') ∨ s.load l = .inr s.seatRaw := by
  simp only [load, seatRaw]
  cases l with
  | state =>
    split_ifs with hs
    · exact .inl ⟨.wants, rfl, hs⟩
    · exact .inr rfl
  | wants => exact .inl ⟨_, rfl, h, rfl⟩
  | allow asked =>
    obtain ⟨hs, rfl⟩ := h
    exact .inr (congrArg Sum.inr (if_pos hs).symm)

theorem Labels.audio (h : Labels s) (hs : s.audio = some s') : Labels s' := by
  obtain ⟨hring, hpub, hsend, hsent⟩ := h
  unfold Sound.audio at hs
  cases hp : s.publisher with
  | idle => simp [hp] at hs
  | looking raw l =>
    simp only [hp] at hs hpub
    obtain ⟨l', hl, hcur⟩ | hl := load_cases hpub
    · rw [hl] at hs
      cases hs
      exact ⟨hring, hcur, hsend, hsent⟩
    · rw [hl] at hs
      cases hs
      refine ⟨hring, ?_, hsend, hsent⟩
      by_cases hr : s.seatRaw = some raw
      · rw [if_pos hr]
        exact hr
      · rw [if_neg hr]
        trivial
  | pushing raw =>
    simp only [hp] at hs hpub
    cases hs
    refine ⟨fun p hmem => ?_, trivial, hsend, hsent⟩
    split_ifs at hmem
    · rcases List.mem_append.mp hmem with hmem | hmem
      · exact hring p hmem
      · exact List.mem_singleton.mp hmem ▸ hpub
    · exact hring p hmem

theorem Labels.guest {accepted : Bool} (h : Labels s) (hs : s.guest accepted = some s') :
    Labels s' := by
  obtain ⟨hring, hpub, hsend, hsent⟩ := h
  unfold Sound.guest at hs
  cases hg : s.sender with
  | idle => simp [hg] at hs
  | looking l =>
    simp only [hg] at hs hsend
    obtain ⟨l', hl, hcur⟩ | hl := load_cases hsend
    · rw [hl] at hs
      cases hs
      exact ⟨hring, hpub, hcur, hsent⟩
    · rw [hl] at hs
      cases hs
      exact ⟨hring, hpub, rfl, hsent⟩
  | sending raw =>
    simp only [hg] at hs hsend
    cases hr : s.ring with
    | nil =>
      simp only [hr] at hs
      cases hs
      exact ⟨nofun, hpub, trivial, hsent⟩
    | cons p ring =>
      rw [hr, List.forall_mem_cons] at hring
      have hraw : raw = p := by
        rw [SenderFits, hring.1] at hsend
        exact hsend.symm
      simp only [hr] at hs
      split_ifs at hs
      · cases hs
        refine ⟨hring.2, hpub, hg ▸ hsend, List.forall_mem_append.mpr ⟨hsent, ?_⟩⟩
        rw [List.forall_mem_singleton, hraw]
      · cases hs
        exact ⟨hring.2, hpub, trivial, hsent⟩

theorem Labels.step {a : Action} (h : Labels s) (hok : s.Settled a) (hs : s.step a = some s') :
    Labels s' := by
  -- while it is quiet, nothing depends on the settings
  have hquiet (hq : s.Quiet) (streaming wantsRaw allowRaw : Bool) :
      Labels { s with streaming := streaming, wantsRaw := wantsRaw, allowRaw := allowRaw } := by
    obtain ⟨hring, hp, hg⟩ := hq
    exact ⟨by simp [hring], by simp [hp, PublisherFits], by simp [hg, SenderFits], h.sent⟩
  cases a with
  | publish raw =>
    simp only [Sound.step] at hs
    split_ifs at hs
    cases hs
    exact ⟨h.ring, trivial, h.sender, h.sent⟩
  | send =>
    simp only [Sound.step] at hs
    split_ifs at hs
    cases hs
    exact ⟨h.ring, h.publisher, trivial, h.sent⟩
  | audio => exact h.audio hs
  | guest => exact h.guest hs
  | setState | declareAudio | setSound =>
    cases hs
    obtain rfl | hq := hok
    · exact h
    · exact hquiet hq _ _ _

/-- **The header of every message names the encoding of its payload**, if the settings change only
while no packet is queued or being published or sent. -/
theorem labelled (h : sound.ReachVia Settled s) : ∀ m ∈ s.sent, m.1 = m.2 := by
  have hlabels : Labels s := by
    refine h.invariant ⟨by simp [sound], trivial, trivial, by simp [sound]⟩
      fun s a s' hs hok hstep => ?_
    exact hs.step hok hstep
  exact hlabels.sent

def published (raw : Bool) : List Action := .publish raw :: List.replicate 4 .audio

theorem labelled_pcm : ∃ s, sound.ReachVia Settled s ∧ s.sent = [(.pcm, .pcm)] ∧
    ∀ m ∈ s.sent, m.1 = m.2 := by
  obtain ⟨s, hs, hsent⟩ := sound.exists_reachVia Settled ([.setState true, .declareAudio true,
    .setSound true] ++ published true ++ .send :: List.replicate 4 (.guest true))
    (fun s => s.sent = [(.pcm, .pcm)]) (by decide)
  exact ⟨s, hs, hsent, labelled hs⟩

/-- **Compressed sound under the header of uncompressed sound**: the guest asks for the raw form
while a packet is queued. -/
theorem mislabelled : ∃ s, sound.Reach s ∧ s.sent = [(.pcm, .opus)] :=
  sound.exists_reachVia (fun _ _ => True) ([.setState true, .setSound true] ++ published false ++
    [.declareAudio true, .send] ++ List.replicate 4 (.guest true)) _ (by decide)

end Sound

end OpenStream.Host.Audio
