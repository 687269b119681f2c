import OpenStream.Lowlat.Punch

/-!
# The timer of a punch

With exact times, the timer says when the next datagram comes or the window closes, as long as the
credentials fit a check.

* **`timer_exact`**: a datagram comes now exactly if the timer is zero, none comes before it runs out,
  and then one comes or the window closes.
* **`timer_refused`**: with a fragment over `MAX_UFRAG` the timer stays zero and no datagram comes.
-/

namespace OpenStream.Lowlat

open Bytes Stun Conn Runs Slots

namespace Conn

section Timer

variable {F : Type} [F64 F] (c : Conn F) (now : F)

/-- How long until the cadence permits another datagram to one destination. -/
def cadenceWait : Option F → F
  | some last => F64.max (last + CHECK_CADENCE_MS - now) 0.0
  | none => 0.0

def sooner (soonest : F) (last : Option F) : F :=
  F64.min soonest (F64.max (cadenceWait now last) (c.paceWait now))

/-- Milliseconds until this attempt next needs attention; `none` is the source's infinity. -/
def nextTimerMs : Option F :=
  if c.state ≠ .checking then none
  else
    let soonest := F64.max (c.startedMs + PUNCH_WINDOW_MS - now) 0.0
    let soonest := if (Slots.taken c.pending).isEmpty then soonest else F64.min soonest (c.paceWait now)
    let soonest := ((Slots.taken c.candidates).map Candidate.lastCheckMs).foldl (c.sooner now) soonest
    some ((((Slots.taken c.servers).filter fun x => !x.answered).map Server.lastProbeMs).foldl
      (c.sooner now) soonest)

end Timer

/-! ## Exact times -/

theorem max_rat (x y : ℚ) : F64.max x y = max x y := by
  simp [F64.max, F64.isNaN, F64.le, F64.lt, max_def_lt]

theorem min_rat (x y : ℚ) : F64.min x y = min x y := by
  simp [F64.min, F64.isNaN, F64.le, F64.lt, min_def_lt]
  grind

theorem zero_rat : (0.0 : ℚ) = 0 := by norm_num

/-- What is left of a wait after `d`. -/
def past (d x : ℚ) : ℚ := max (x - d) 0

variable {c : Conn ℚ} {now d : ℚ}

theorem past_wait (hd : 0 ≤ d) (x : ℚ) : past d (max (x - now) 0) = max (x - (now + d)) 0 := by
  grind [past]

theorem past_zero (hd : 0 ≤ d) : past d 0 = 0 := by
  grind [past]

theorem past_min (x y : ℚ) : past d (min x y) = min (past d x) (past d y) := by
  grind [past]

theorem past_max (x y : ℚ) : past d (max x y) = max (past d x) (past d y) := by
  grind [past]

theorem paceWait_add (hd : 0 ≤ d) : c.paceWait (now + d) = past d (c.paceWait now) := by
  unfold paceWait
  split
  · rw [max_rat, max_rat, zero_rat, past_wait hd]
  · rw [zero_rat, past_zero hd]

theorem cadenceWait_add (hd : 0 ≤ d) (last : Option ℚ) :
    cadenceWait (now + d) last = past d (cadenceWait now last) := by
  cases last with
  | none => rw [cadenceWait, cadenceWait, zero_rat, past_zero hd]
  | some last => rw [cadenceWait, cadenceWait, max_rat, max_rat, zero_rat, past_wait hd]

theorem sooner_add (hd : 0 ≤ d) (soonest : ℚ) (last : Option ℚ) :
    c.sooner (now + d) (past d soonest) last = past d (c.sooner now soonest last) := by
  simp [sooner, min_rat, max_rat, cadenceWait_add hd, paceWait_add hd, past_min, past_max]

theorem nextTimerMs_add (hd : 0 ≤ d) :
    c.nextTimerMs (now + d) = (c.nextTimerMs now).map (past d) := by
  have hfold (l : List (Option ℚ)) (x : ℚ) :
      l.foldl (c.sooner (now + d)) (past d x) = past d (l.foldl (c.sooner now) x) :=
    List.foldl_hom (past d) (sooner_add hd)
  unfold nextTimerMs
  split_ifs
  · rfl
  · simp [max_rat, zero_rat, ← past_wait hd, hfold]
  · simp [max_rat, min_rat, zero_rat, ← past_wait hd, paceWait_add hd, ← past_min, hfold]

/-! ## What is due -/

/-- Pacing permits a datagram and there is one to send. -/
def Ready (c : Conn ℚ) (now : ℚ) : Prop :=
  c.paceWait now ≤ 0 ∧ (Slots.taken c.pending ≠ [] ∨
    (∃ x ∈ Slots.taken c.candidates, cadenceWait now x.lastCheckMs ≤ 0) ∨
    ∃ x ∈ Slots.taken c.servers, x.answered = false ∧ cadenceWait now x.lastProbeMs ≤ 0)

theorem foldl_sooner_le {l : List (Option ℚ)} {x : ℚ} : l.foldl (c.sooner now) x ≤ 0 ↔
    x ≤ 0 ∨ c.paceWait now ≤ 0 ∧ ∃ last ∈ l, cadenceWait now last ≤ 0 := by
  induction l generalizing x with
  | nil => simp
  | cons last l ih =>
    simp only [List.foldl_cons, ih, sooner, min_rat, max_rat, min_le_iff, max_le_iff,
      List.exists_mem_cons_iff]
    tauto

theorem nextTimerMs_le {w : ℚ} (h : c.nextTimerMs now = some w) :
    w ≤ 0 ↔ PUNCH_WINDOW_MS ≤ now - c.startedMs ∨ c.Ready now := by
  have hwindow : c.startedMs + PUNCH_WINDOW_MS - now ≤ 0 ↔ PUNCH_WINDOW_MS ≤ now - c.startedMs := by
    constructor <;> intro <;> linarith
  unfold nextTimerMs at h
  split_ifs at h with hstate hpending <;> cases h <;> rw [List.isEmpty_iff] at hpending
  · simp [foldl_sooner_le, max_rat, zero_rat, hwindow, Ready, hpending, and_assoc]
    rw [or_assoc, and_or_left]
  · simp [foldl_sooner_le, max_rat, min_rat, zero_rat, hwindow, Ready, hpending, and_assoc]
    tauto

theorem cadenceDue_iff {last : Option ℚ} : cadenceDue now last = true ↔ cadenceWait now last ≤ 0 := by
  cases last with
  | none => simp [cadenceDue, cadenceWait, zero_rat]
  | some last =>
    simp only [cadenceDue, cadenceWait, F64.le, max_rat, zero_rat, decide_eq_true_eq, max_le_iff, le_refl,
      and_true]
    constructor <;> intro <;> linarith

/-- No candidate was checked before the probe went out. -/
def Unchecked (c : Conn ℚ) : Prop :=
  c.probeSent = false → ∀ last ∈ (Slots.taken c.candidates).map Candidate.lastCheckMs, last = none

theorem pop_eq_none {α : Type} : ∀ {l : Slots α}, pop l = none ↔ taken l = []
  | [] => by simp [pop, taken]
  | none :: l => by simp [pop, taken_cons_none, pop_eq_none]
  | some x :: l => by simp [pop, taken_cons_some]

theorem firstAt_eq_none {α : Type} {p : α → Bool} {l : Slots α} :
    firstAt p l = none ↔ ∀ x ∈ taken l, ¬ p x := by
  simp only [firstAt, List.findSome?_eq_none_iff, Option.map_eq_none_iff,
    Option.filter_eq_none_iff, mem_taken]
  constructor
  · intro h x hx
    obtain ⟨i, hi⟩ := List.mem_iff_getElem?.mp hx
    exact h (some x, i) (List.mem_zipIdx_iff_getElem?.mpr hi) x rfl
  · rintro h ⟨slot, i⟩ hx x rfl
    exact h x (List.mem_of_getElem? (List.mem_zipIdx_iff_getElem?.mp hx))

theorem serverDue_eq_none (hashes : Hashes) (outLen : ℕ) :
    (c.serverDue hashes now outLen).2 = none ↔
      (∀ x ∈ taken c.servers, x.answered = false → ¬ cadenceWait now x.lastProbeMs ≤ 0) ∧
      ∀ x ∈ taken c.candidates, ¬ cadenceWait now x.lastCheckMs ≤ 0 := by
  have hservers := firstAt_eq_none (p := fun x : Server ℚ => !x.answered && cadenceDue now x.lastProbeMs)
    (l := c.servers)
  have hchecks := firstAt_eq_none (p := fun x : Candidate ℚ => cadenceDue now x.lastCheckMs)
    (l := c.candidates)
  simp only [Bool.and_eq_true, Bool.not_eq_true', cadenceDue_iff, not_and] at hservers hchecks
  rw [← hservers, ← hchecks]
  unfold serverDue checkDue
  split
  · next heq => simp [heq]
  · next heq =>
    split
    · next hnone => simp [heq, hnone]
    · next hsome =>
      split <;> simp [hsome]

/-- **With room for a message, nothing that is due fails.** -/
theorem getOutput_ne_error (h : c.Presentable) (hashes : Hashes) (now : ℚ) {outLen : ℕ}
    (hroom : MAX_MESSAGE ≤ outLen) (e : Error) :
    (c.getOutput hashes now outLen).2 ≠ some (.error e) := by
  intro he
  have hemits := c.emits_getOutput hashes now outLen
  rw [he] at hemits
  generalize (c.getOutput hashes now outLen).1 = c' at hemits
  cases hemits with
  | failed _ _ _ _ _ hshort => exact absurd (hshort h) (by omega)

theorem output_none_iff (hstate : c.state = .checking) (hc : c.Unchecked) (hashes : Hashes) (outLen : ℕ) :
    (c.getOutput hashes now outLen).2 = none ↔ ¬ c.Ready now := by
  have hlt : F64.lt 0.0 (c.paceWait now) = true ↔ ¬ c.paceWait now ≤ 0 := by
    simp [F64.lt, zero_rat]
  unfold getOutput
  by_cases hpace : c.paceWait now ≤ 0
  · rw [if_neg (by rw [hlt]; exact not_not.mpr hpace)]
    cases hpop : pop c.pending with
    | some x =>
      have hne : taken c.pending ≠ [] := fun h => by simp [pop_eq_none.mpr h] at hpop
      simp [Ready, hpace, hne]
    | none =>
      have hnil := pop_eq_none.mp hpop
      have hready : c.Ready now ↔ ¬ (c.serverDue hashes now outLen).2 = none := by
        rw [serverDue_eq_none]
        simp [Ready, hpace, hnil]
        grind
      rw [hready, not_not]
      simp only [hstate, ne_eq, not_true_eq_false, if_false]
      split_ifs with hsent
      · rfl
      · split
        · next x hx =>
          -- the candidate that the probe goes to was not checked yet
          have hmem := List.mem_of_head? hx
          have hdue := hc (Bool.not_eq_true _ ▸ hsent) _ (List.mem_map_of_mem hmem)
          rw [serverDue_eq_none]
          simp only [reduceCtorEq, false_iff, not_and]
          intro _ hnone
          exact hnone x hmem (by rw [hdue, cadenceWait, zero_rat])
        · rfl
  · rw [if_pos (hlt.mpr hpace)]
    simp [Ready, hpace]

/-! ## Candidates before the probe -/

theorem Unchecked.congr {c' : Conn ℚ} (h : c.Unchecked) (hsent : c'.probeSent = c.probeSent)
    (hchecks : (taken c'.candidates).map Candidate.lastCheckMs =
      (taken c.candidates).map Candidate.lastCheckMs) : c'.Unchecked := by
  unfold Unchecked
  rw [hsent, hchecks]
  exact h

theorem Unchecked.addCandidate (h : c.Unchecked) (addr : SocketAddr) :
    (c.addCandidate addr).1.Unchecked := by
  simp only [Conn.addCandidate]
  split_ifs
  · exact h
  split
  · exact h
  next candidates hput =>
    intro hsent last hlast
    rw [((perm_put hput).map _).mem_iff, List.map_cons, List.mem_cons] at hlast
    rcases hlast with rfl | hlast
    · rfl
    · exact h hsent last hlast

theorem Unchecked.processInput (h : c.Unchecked) (hashes : Hashes) (datagram : Str) (source : SocketAddr) :
    (c.processInput hashes datagram source).1.Unchecked := by
  simp only [Conn.processInput]
  split
  · exact h
  next message _ =>
    split
    · have hadded := h.addCandidate (canonical source)
      simp only [onRequest, queueResponse]
      split_ifs
      · exact h
      · split
        all_goals
          next heq =>
            split at heq <;> cases heq
            exact hadded
    · have hanswered : Unchecked { c with
          candidates := modifyFirst (fun x => x.outstanding = some message.tid)
            (fun x => { x with outstanding := none }) c.candidates } :=
        h.congr rfl (map_modifyFirst (by intro x; rfl) _)
      simp only [onSuccess]
      split_ifs
      · split <;> exact h
      · exact h
      · split
        · exact h
        · split <;> exact hanswered

theorem Unchecked.getOutput (h : c.Unchecked) (hashes : Hashes) (now : ℚ) (outLen : ℕ) :
    (c.getOutput hashes now outLen).1.Unchecked := by
  cases hsent : c.probeSent with
  | true =>
    have hkept : (c.getOutput hashes now outLen).1.probeSent = true := by
      have hemits := c.emits_getOutput hashes now outLen
      generalize c.getOutput hashes now outLen = o at hemits
      obtain ⟨c', output⟩ := o
      cases hemits with
      | failed _ _ _ _ hprobe => exact hprobe hsent
      | check _ _ _ _ _ _ _ _ _ _ _ _ hprobe =>
        rcases hprobe with ⟨-, -, hprobe⟩ | ⟨-, hprobe⟩
        · exact hprobe
        · exact hprobe.trans hsent
      | _ => exact hsent
    intro hfalse
    rw [hkept] at hfalse
    cases hfalse
  | false =>
    unfold Conn.getOutput
    split
    · exact h
    split
    · simp only [emitResponse]
      split <;> exact h
    split
    · exact h
    · rw [if_neg (by simp [hsent])]
      split
      · next x _ =>
        rcases { c with probeSent := true }.emitCheck_cases hashes x.addr .probe now outLen with
          ⟨e, counter, -, heq⟩ | ⟨tid, bytes, counter, -, -, heq⟩ <;>
        · rw [heq]
          intro hfalse
          cases hfalse
      · next hnone =>
        have hnil : taken c.candidates = [] := List.head?_eq_none_iff.mp hnone
        have hfirst : firstAt (fun x => cadenceDue now x.lastCheckMs) c.candidates = none :=
          firstAt_eq_none.mpr (by simp [hnil])
        simp only [serverDue, checkDue, hfirst]
        split
        · simp only [emitReflexive, nextTransactionId]
          split <;> exact h
        · exact h

end Conn

variable {hashes : Hashes} {credentials : Credentials} {seed : Vector UInt8 16} {start : ℚ} {s : Attempt ℚ}

theorem Attempt.unchecked (h : (Attempt.machine hashes credentials seed start).Reach s) :
    s.conn.Unchecked := by
  refine h.invariant (I := fun s => s.conn.Unchecked) (fun _ _ hlast => ?_) fun s a s' hs _ hstep => ?_
  · cases hlast
  cases a with
  | addCandidate addr =>
    have hadded := hs.addCandidate addr
    simp only [machine, step] at hstep
    split at hstep <;> next heq => rw [heq] at hadded; cases hstep; exact hadded
  | addServer addr =>
    cases hstep
    simp only [addServer]
    split_ifs
    · exact hs
    · split <;> exact hs
  | processInput datagram source =>
    cases hstep
    exact hs.processInput hashes datagram source
  | poll now =>
    cases hstep
    rcases s.conn.poll_cases now with heq | ⟨failure, -, heq⟩ <;> rw [heq] <;> exact hs
  | getOutput now outLen =>
    have hout := hs.getOutput hashes now outLen
    simp only [machine, step] at hstep
    split at hstep <;> next heq => rw [heq] at hout; cases hstep; exact hout

/-- **The timer of a punch is exact**, where times are, the buffer takes a message and the fragments
fit: a datagram comes now if and only if the timer is zero, and none comes before it runs out. -/
theorem timer_exact (h : (Attempt.machine hashes credentials seed start).Reach s)
    (hlocal : credentials.localUfrag.length ≤ MAX_UFRAG)
    (hremote : credentials.remoteUfrag.length ≤ MAX_UFRAG) (hstate : s.conn.state = .checking)
    {now : ℚ} (hopen : now - s.conn.startedMs < PUNCH_WINDOW_MS) {outLen : ℕ}
    (hroom : MAX_MESSAGE ≤ outLen) : ∃ w, s.conn.nextTimerMs now = some w ∧
      ((∃ egress, (s.conn.getOutput hashes now outLen).2 = some (.ok egress)) ↔ w = 0) ∧
      (0 < w → (∀ t, now ≤ t → t < now + w → (s.conn.getOutput hashes t outLen).2 = none) ∧
        ((∃ egress, (s.conn.getOutput hashes (now + w) outLen).2 = some (.ok egress)) ∨
          ∃ failure, (s.conn.poll (now + w)).state = .failed failure)) := by
  have htracked : Tracked credentials s := h.invariant (Attempt.tracked_start seed start)
    fun _ _ _ hs _ hstep => (Attempt.step_moves hs hstep).1
  have hfits : s.conn.Presentable := by
    rw [Presentable, htracked.credentials]
    exact ⟨hlocal, hremote⟩
  have hnone (t : ℚ) : (s.conn.getOutput hashes t outLen).2 = none ↔ ¬ s.conn.Ready t :=
    output_none_iff hstate (Attempt.unchecked h) hashes outLen
  have hsome (t : ℚ) :
      (∃ egress, (s.conn.getOutput hashes t outLen).2 = some (.ok egress)) ↔ s.conn.Ready t := by
    have hok := getOutput_ne_error hfits hashes t hroom
    rw [← not_iff_not, ← hnone t]
    generalize (s.conn.getOutput hashes t outLen).2 = output at hok
    rcases output with _ | e | egress
    · simp
    · exact absurd rfl (hok e)
    · simp
  obtain ⟨w, hw⟩ : ∃ w, s.conn.nextTimerMs now = some w := by simp [nextTimerMs, hstate]
  have hle := nextTimerMs_le hw
  have hadd {d : ℚ} (hd : 0 ≤ d) : s.conn.nextTimerMs (now + d) = some (past d w) := by
    rw [nextTimerMs_add hd, hw, Option.map_some]
  have hpos : 0 ≤ w := by
    have hsame := hadd le_rfl
    rw [add_zero, hw, Option.some.injEq] at hsame
    exact hsame ▸ le_max_right _ _
  refine ⟨w, hw, ?_, fun hlt => ⟨fun t ht ht' => ?_, ?_⟩⟩
  · rw [hsome, ← hpos.ge_iff_eq', hle]
    exact ⟨.inr, fun h => h.resolve_left (not_le.mpr hopen)⟩
  · obtain ⟨d, rfl⟩ : ∃ d, t = now + d := ⟨t - now, by ring⟩
    rw [hnone]
    intro hready
    have hdone := (nextTimerMs_le (hadd (by linarith))).mpr (.inr hready)
    grind [past]
  · have hleft := hadd hpos
    rw [past, sub_self, max_self] at hleft
    rcases (nextTimerMs_le hleft).mp le_rfl with hclosed | hready
    · right
      simp [poll, hstate, F64.le, hclosed]
    · exact .inl ((hsome _).mpr hready)

/-- Three milliseconds after the probe, the check to the same candidate is seven away. -/
theorem timer_exact_paced : ∃ s,
    (Attempt.machine plainHashes plainCredentials (Vector.replicate 16 0) (0 : ℚ)).Reach s ∧
    s.conn.nextTimerMs 3 = some 7 ∧
    (∀ t, 3 ≤ t → t < 10 → (s.conn.getOutput plainHashes t 256).2 = none) ∧
    ∃ egress, (s.conn.getOutput plainHashes 10 256).2 = some (.ok egress) := by
  obtain ⟨s, hs, hstate, hopen, htimer, hsent⟩ := (Attempt.machine plainHashes plainCredentials
      (Vector.replicate 16 0) (0 : ℚ)).exists_reachVia (fun _ _ => True)
    [.addCandidate (neighbour 1), .getOutput 0 256]
    (fun s => s.conn.state = .checking ∧ 3 - s.conn.startedMs < PUNCH_WINDOW_MS ∧
      s.conn.nextTimerMs 3 = some 7 ∧ (s.conn.poll 10).state = .checking) (by decide +kernel)
  obtain ⟨w, hw, -, hwait⟩ :=
    timer_exact hs (by decide) (by decide) hstate hopen (le_refl MAX_MESSAGE)
  rw [htimer, Option.some.injEq] at hw
  subst hw
  obtain ⟨hquiet, hdone⟩ := hwait (by norm_num)
  rw [show (3 : ℚ) + 7 = 10 by norm_num] at hquiet hdone
  exact ⟨s, hs, htimer, hquiet, hdone.resolve_right (by simp [hsent])⟩

def longCredentials : Credentials := { plainCredentials with localUfrag := List.replicate 33 0x61 }

/-- **With a fragment of 33 bytes** the timer is zero and every call fails, whatever the room. -/
theorem timer_refused : ∃ s,
    (Attempt.machine plainHashes longCredentials (Vector.replicate 16 0) (0 : ℚ)).Reach s ∧
    s.conn.state = .checking ∧ 0 - s.conn.startedMs < PUNCH_WINDOW_MS ∧
    s.conn.nextTimerMs 0 = some 0 ∧
    ∀ outLen, (s.conn.getOutput plainHashes 0 outLen).2 = some (.error .oversized) := by
  obtain ⟨s, hs, hstate, hopen, htimer, hpace, hpop, hsent, hover, hhead⟩ :=
    (Attempt.machine plainHashes longCredentials (Vector.replicate 16 0) (0 : ℚ)).exists_reachVia
      (fun _ _ => True) [.addCandidate (neighbour 1)]
      (fun s => s.conn.state = .checking ∧ 0 - s.conn.startedMs < PUNCH_WINDOW_MS ∧
        s.conn.nextTimerMs 0 = some 0 ∧ F64.lt 0.0 (s.conn.paceWait 0) = false ∧
        pop s.conn.pending = none ∧ s.conn.probeSent = false ∧
        MAX_UFRAG < s.conn.credentials.localUfrag.length ∧ taken s.conn.candidates ≠ [])
      (by decide +kernel)
  refine ⟨s, hs, hstate, hopen, htimer, fun outLen => ?_⟩
  obtain ⟨x, rest, hx⟩ := List.exists_cons_of_ne_nil hhead
  simp [getOutput, hpace, hpop, hstate, hsent, hx, emitCheck, nextTransactionId,
    encodeBindingRequest, hover]

end OpenStream.Lowlat
