import OpenStream.Lowlat.PathMtu
import OpenStream.Lib.Runs

/-!
# Which probe an acknowledgement confirms

Beside a run of the controller stands every probe that it issued, with the number of resets before
it. Acknowledgements arrive late, twice or for nothing at all.

* **`Probing.acks_confirm_this_path`**
* **`Probing.late_ack_raises`**
-/

namespace OpenStream.Lowlat

open Runs

structure Issued where
  probe : Probe
  /-- How many resets came before it. -/
  epoch : ℕ
  timedOut : Bool
  deriving DecidableEq

/-- The controller with the probes that it issued, the newest first. -/
structure Probing (F : Type) where
  mtu : PathMtu F
  issued : List Issued
  epoch : ℕ

namespace Probing

inductive Action (F : Type)
  | startProbe (nowMs : F)
  | onProbeAck (id size : ℕ) (nowMs : F)
  | onProbeTimeout (nowMs : F)
  | onProbeSendFailed
  | onBlackHole (nowMs : F)
  | reset (path : Path)
  | resetWithConfig (config : PathConfig) (nowMs : F)

def markTimedOut : List Issued → List Issued
  | q :: rest => { q with timedOut := true } :: rest
  | [] => []

section Machine

variable {F : Type} [Double F]

def step (t : Probing F) : Action F → Option (Probing F)
  | .startProbe nowMs =>
    let (mtu, probe) := t.mtu.startProbe nowMs
    some ⟨mtu, (probe.map fun p => ⟨p, t.epoch, false⟩).toList ++ t.issued, t.epoch⟩
  | .onProbeAck id size nowMs => some { t with mtu := (t.mtu.onProbeAck id size nowMs).1 }
  | .onProbeTimeout nowMs =>
    let (mtu, expired) := t.mtu.onProbeTimeout nowMs
    some { t with mtu, issued := if expired then markTimedOut t.issued else t.issued }
  | .onProbeSendFailed => some { t with mtu := t.mtu.onProbeSendFailed.1 }
  | .onBlackHole nowMs => some { t with mtu := (t.mtu.onBlackHole nowMs).1 }
  | .reset path => some { t with mtu := .new path, epoch := t.epoch + 1 }
  | .resetWithConfig config nowMs =>
    some { t with mtu := .newWithConfig config nowMs, epoch := t.epoch + 1 }

/-- A controller from its construction on. -/
def probing (config : PathConfig) (nowMs : F) : Machine (Probing F) (Action F) where
  start := ⟨.newWithConfig config nowMs, [], 0⟩
  step := step

end Machine

section Sound

variable {F : Type}

def Past (t : Probing F) (p : Issued) : Prop := p.epoch < t.epoch ∨ p.timedOut = true

/-- **The condition.** No probe issued since the last reset looks like one issued before it. -/
def Told (t : Probing F) (p : Issued) : Prop :=
  p.epoch < t.epoch → ∀ q ∈ t.issued, q.epoch = t.epoch →
    ¬ (q.probe.id = p.probe.id ∧ q.probe.size = p.probe.size)

/-- What holds as long as the identifiers have not run out. -/
structure Sound (t : Probing F) : Prop where
  newest : ∀ f, t.mtu.probe = some f → ∃ q rest, t.issued = q :: rest ∧ q.probe = f.probe ∧
    q.epoch = t.epoch ∧ q.timedOut = false
  epochs : ∀ q ∈ t.issued, q.epoch ≤ t.epoch
  below : ∀ q ∈ t.issued, q.epoch = t.epoch → q.probe.id < t.mtu.nextProbeId
  ordered : t.issued.Pairwise fun q p => p.epoch = q.epoch → p.probe.id < q.probe.id
  next : t.mtu.nextProbeId ≤ t.issued.length + 1

variable {t t' : Probing F}

theorem length_markTimedOut (l : List Issued) : (markTimedOut l).length = l.length := by
  cases l <;> rfl

theorem Sound.settle (h : t.Sound) {mtu : PathMtu F} (hp : mtu.probe = none)
    (hid : mtu.nextProbeId = t.mtu.nextProbeId) : Sound { t with mtu } where
  newest f hf := by rw [hp] at hf; cases hf
  __ := h
  below q hq he := by rw [hid]; exact h.below q hq he
  next := by rw [hid]; exact h.next

theorem Sound.timedOut (h : t.Sound) {mtu : PathMtu F} (hp : mtu.probe = none)
    (hid : mtu.nextProbeId = t.mtu.nextProbeId) :
    Sound { t with mtu, issued := markTimedOut t.issued } := by
  cases hl : t.issued with
  | nil =>
    have hs := h.settle hp hid
    rwa [show ({ t with mtu } : Probing F) = { t with mtu, issued := markTimedOut [] } by
      rw [markTimedOut, ← hl]] at hs
  | cons q rest =>
    -- only the mark of the newest probe changes
    have hepochs := h.epochs
    have hbelow := h.below
    have hordered := h.ordered
    have hnext := h.next
    rw [hl] at hepochs hbelow hordered hnext
    rw [List.pairwise_cons] at hordered
    refine ⟨fun f hf => ?_, ?_, ?_, ?_, ?_⟩
    · dsimp only at hf
      rw [hp] at hf
      cases hf
    · rintro p (_ | ⟨_, hmem⟩)
      · exact hepochs q (List.mem_cons_self ..)
      · exact hepochs p (List.mem_cons_of_mem _ hmem)
    · rintro p (_ | ⟨_, hmem⟩) he
      · rw [hid]
        exact hbelow q (List.mem_cons_self ..) he
      · rw [hid]
        exact hbelow p (List.mem_cons_of_mem _ hmem) he
    · exact List.pairwise_cons.mpr ⟨hordered.1, hordered.2⟩
    · dsimp only
      rw [hid]
      exact hnext

theorem Sound.reset (h : t.Sound) {mtu : PathMtu F} (hp : mtu.probe = none)
    (hid : mtu.nextProbeId = 1) : Sound { t with mtu, epoch := t.epoch + 1 } where
  newest f hf := by rw [hp] at hf; cases hf
  epochs q hq := (h.epochs q hq).trans (Nat.le_succ _)
  below q hq he := by
    have hle := h.epochs q hq
    dsimp only at he
    omega
  ordered := h.ordered
  next := by rw [hid]; exact Nat.le_add_left ..

theorem Sound.issue (h : t.Sound) (hlen : t.issued.length + 1 < 2 ^ 32 - 2) {mtu : PathMtu F}
    {p : Probe} {sentMs : F} (hp : mtu.probe = some ⟨p, sentMs⟩)
    (hid : p.id = t.mtu.allocateProbeId.2)
    (hnext : mtu.nextProbeId = t.mtu.allocateProbeId.1.nextProbeId) :
    Sound { t with mtu, issued := ⟨p, t.epoch, false⟩ :: t.issued } := by
  have hle := h.next
  have hid' : p.id = t.mtu.nextProbeId := by
    rw [hid]
    exact if_neg (by omega)
  have hnext' : mtu.nextProbeId = t.mtu.nextProbeId + 1 := by
    rw [hnext]
    change min (t.mtu.allocateProbeId.2 + 1) (2 ^ 32 - 1) = _
    omega
  refine ⟨fun f hf => ?_, ?_, ?_, ?_, ?_⟩
  · rw [hp] at hf
    cases hf
    exact ⟨_, t.issued, rfl, rfl, rfl, rfl⟩
  · rintro q (_ | ⟨_, hmem⟩)
    · exact le_rfl
    · exact h.epochs q hmem
  · rintro q (_ | ⟨_, hmem⟩) he
    · dsimp only
      omega
    · have := h.below q hmem he
      dsimp only
      omega
  · refine List.pairwise_cons.mpr ⟨fun q hq he => ?_, h.ordered⟩
    rw [hid']
    exact h.below q hq he
  · dsimp only
    rw [hnext', List.length_cons]
    omega

end Sound

section Runs

variable {F : Type} [Double F] {t t' : Probing F}

theorem length_le_of_step {a : Action F} (hs : t.step a = some t') :
    t.issued.length ≤ t'.issued.length := by
  cases a with
  | startProbe nowMs =>
    cases hs
    simp
  | onProbeTimeout nowMs =>
    simp only [step, Option.some.injEq] at hs
    subst hs
    cases (t.mtu.onProbeTimeout nowMs).2 with
    | true => exact (length_markTimedOut _).ge
    | false => exact le_rfl
  | _ =>
    cases hs
    exact le_rfl

theorem Sound.step (h : t.Sound) (hlen : t'.issued.length < 2 ^ 32 - 2) {a : Action F}
    (hs : t.step a = some t') : t'.Sound := by
  cases a with
  | startProbe nowMs =>
    have hr := t.mtu.startProbe_cases nowMs
    simp only [Probing.step] at hs
    generalize t.mtu.startProbe nowMs = r at hr hs
    obtain ⟨mtu, out⟩ := r
    cases hs
    cases hr with
    | nothing hp hid _ _ =>
      rcases hp with hp | hp
      · exact h.settle hp hid
      · refine ⟨fun f hf => h.newest f (hp ▸ hf), h.epochs, ?_, h.ordered, ?_⟩
        · intro q hq he
          exact lt_of_lt_of_eq (h.below q hq he) hid.symm
        · exact hid.trans_le h.next
    | probe p sentMs _ hp hid hnext _ _ _ => exact h.issue hlen hp hid hnext
  | onProbeAck id size nowMs =>
    simp only [Probing.step, Option.some.injEq] at hs
    subst hs
    rcases t.mtu.onProbeAck_cases id size nowMs with hf | ⟨f, _, _, _, _, _, _, hok⟩
    · rw [hf]
      exact h
    · rw [hok]
      exact h.settle (by simp) (by simp)
  | onProbeTimeout nowMs =>
    simp only [Probing.step, Option.some.injEq] at hs
    subst hs
    rcases t.mtu.onProbeTimeout_cases nowMs with hf | ⟨_, hok, hp, hid, _, _⟩
    · rw [hf]
      exact h
    · rw [hok]
      exact h.timedOut hp hid
  | onProbeSendFailed =>
    simp only [Probing.step, Option.some.injEq] at hs
    subst hs
    rcases t.mtu.onProbeSendFailed_cases with hf | ⟨hp, hid, _, _⟩
    · rw [hf]
      exact h
    · exact h.settle hp hid
  | onBlackHole nowMs =>
    simp only [Probing.step, Option.some.injEq] at hs
    subst hs
    rcases t.mtu.onBlackHole_cases nowMs with ⟨_, hf⟩ | ⟨_, hp, hid, _, _⟩
    · rw [hf]
      exact h
    · exact h.settle hp hid
  | reset path | resetWithConfig config nowMs =>
    cases hs
    exact h.reset rfl rfl

theorem sound_start (config : PathConfig) (nowMs : F) : (probing config nowMs).start.Sound where
  newest _ hf := nomatch hf
  epochs _ hq := nomatch hq
  below _ hq := nomatch hq
  ordered := .nil
  next := le_rfl

theorem sound_of_reach {config : PathConfig} {nowMs : F} (ht : (probing config nowMs).Reach t)
    (hlen : t.issued.length < 2 ^ 32 - 2) : t.Sound := by
  have h := ht.invariant (I := fun t => t.issued.length < 2 ^ 32 - 2 → t.Sound)
    (fun _ => sound_start config nowMs)
    fun _ _ _ hI _ hs hl => (hI ((length_le_of_step hs).trans_lt hl)).step hl hs
  exact h hlen

theorem Sound.confirms (h : t.Sound) (id size : ℕ) (nowMs : F)
    (hack : (t.mtu.onProbeAck id size nowMs).2 = true) :
    ∃ q rest, t.issued = q :: rest ∧ q.probe.id = id ∧ q.probe.size = size ∧
      q.epoch = t.epoch ∧ q.timedOut = false := by
  rcases t.mtu.onProbeAck_cases id size nowMs with hf | ⟨f, hp, hid, hsize, _⟩
  · rw [hf] at hack
    cases hack
  · obtain ⟨q, rest, hl, hq, he, ht⟩ := h.newest f hp
    exact ⟨q, rest, hl, by rw [hq, hid], by rw [hq, hsize], he, ht⟩

theorem Sound.past_unconfirmed (h : t.Sound) {p : Issued} (hmem : p ∈ t.issued) (hpast : t.Past p)
    (htold : t.Told p) (nowMs : F) :
    t.mtu.onProbeAck p.probe.id p.probe.size nowMs = (t.mtu, false) := by
  rcases t.mtu.onProbeAck_cases p.probe.id p.probe.size nowMs with hf | ⟨_, _, _, _, _, _, _, hok⟩
  · exact hf
  · exfalso
    obtain ⟨q, rest, hl, hid, hsize, he, hnot⟩ :=
      h.confirms p.probe.id p.probe.size nowMs (by rw [hok])
    have hqmem : q ∈ t.issued := hl ▸ List.mem_cons_self ..
    rcases (h.epochs p hmem).lt_or_eq with hold | hsame
    · exact htold hold q hqmem he ⟨hid, hsize⟩
    · -- of one path, so it has timed out; the outstanding one has not, and later ones have larger
      -- identifiers
      have htimed : p.timedOut = true := hpast.resolve_left (by omega)
      rw [hl, List.mem_cons] at hmem
      rcases hmem with rfl | hmem
      · exact absurd (hnot.symm.trans htimed) (by decide)
      have hordered := h.ordered
      rw [hl, List.pairwise_cons] at hordered
      have hlt := hordered.1 p hmem (hsame.trans he.symm)
      omega

/-- **An acknowledgement confirms the probe issued last, on the path that it was sent on.** One of a
probe that was issued before a reset or has timed out changes nothing, as long as no probe issued
since the reset has its identifier and size. -/
theorem acks_confirm_this_path (config : PathConfig) (startMs : F) (t : Probing F)
    (ht : (probing config startMs).Reach t) (hcount : t.issued.length < 2 ^ 32 - 2) (nowMs : F) :
    (∀ id size, (t.mtu.onProbeAck id size nowMs).2 = true →
      ∃ q rest, t.issued = q :: rest ∧ q.probe.id = id ∧ q.probe.size = size ∧
        q.epoch = t.epoch) ∧
    ∀ p ∈ t.issued, t.Past p → t.Told p →
      (t.mtu.onProbeAck p.probe.id p.probe.size nowMs).1.datagramSize ≤ t.mtu.datagramSize := by
  have hsound := sound_of_reach ht hcount
  refine ⟨fun id size hack => ?_, fun p hmem hpast htold => ?_⟩
  · obtain ⟨q, rest, hl, hid, hsize, he, -⟩ := hsound.confirms id size nowMs hack
    exact ⟨q, rest, hl, hid, hsize, he⟩
  · rw [hsound.past_unconfirmed hmem hpast htold nowMs]

def retried : List (Action Float) :=
  [.startProbe 0.0, .onProbeTimeout 1000.0, .startProbe 1000.0]

theorem exists_acks_confirm_this_path : ∃ t, (probing (.defaultFor .direct) (0.0 : Float)).Reach t ∧
    ∃ p ∈ t.issued, t.Past p ∧
      (t.mtu.onProbeAck p.probe.id p.probe.size 1001.0).1.datagramSize ≤ t.mtu.datagramSize := by
  obtain ⟨t, ht, hissued, hepoch⟩ := Machine.exists_reachVia
    (M := probing (.defaultFor .direct) (0.0 : Float)) (fun _ _ => True) retried
    (fun t => t.issued = [⟨⟨2, 1280, 2⟩, 0, false⟩, ⟨⟨1, 1280, 1⟩, 0, true⟩] ∧ t.epoch = 0)
    (by decide +kernel)
  have hmem : ⟨⟨1, 1280, 1⟩, 0, true⟩ ∈ t.issued := by rw [hissued]; simp
  have hlen : t.issued.length < 2 ^ 32 - 2 := by rw [hissued]; simp
  refine ⟨t, ht, _, hmem, .inr rfl, ?_⟩
  exact (acks_confirm_this_path _ _ t ht hlen 1001.0).2 _ hmem (.inr rfl) (by simp [Told, hepoch])

/-- **A late acknowledgement of a probe from before a reset raises the size of the new path.** -/
theorem late_ack_raises : ∃ t, (probing (.defaultFor .direct) (0.0 : Float)).Reach t ∧
    ∃ p ∈ t.issued, p.epoch < t.epoch ∧
      t.mtu.datagramSize < (t.mtu.onProbeAck p.probe.id p.probe.size 1.0).1.datagramSize :=
  Machine.exists_reachVia (M := probing (.defaultFor .direct) (0.0 : Float)) (fun _ _ => True)
    [.startProbe 0.0, .reset .direct, .startProbe 0.0] _ (by decide +kernel)

end Runs

end Probing

end OpenStream.Lowlat
