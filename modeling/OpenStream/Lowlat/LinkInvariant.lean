import OpenStream.Lowlat.Link
import OpenStream.Lowlat.RecvWindow
import OpenStream.Lowlat.SendWindow

/-!
# The invariant of a channel

What holds of both ends and both wires in every state reached, as long as the fragments assigned
stay below `wrapLimit n`.

* `Link.Inv.step`: every action keeps it. **`Link.inv_of_reach`**: it holds in every state reached.
-/

namespace OpenStream.Lowlat

open Bytes List RecvHalf

variable {n : ℕ} [NeZero n] {F : Type} [F64 F]

/-! ## The receiving half, one operation at a time -/

namespace RecvHalf

variable {h : RecvHalf n F}

omit [F64 F] in
theorem processData_of_ne {data : Data} {c : Channel} (hc : data.channel ≠ c) :
    (h.processData data).1.recv c = h.recv c := by
  unfold processData
  split_ifs
  · rfl
  · simp only
    cases h.recv data.channel with
    | none => rfl
    | some ring => exact Function.update_of_ne (Ne.symm hc) _ _

omit [F64 F] in
theorem processData_of_ring {data : Data} {ring : RecvRing n}
    (hr : h.recv data.channel = some ring) (hs : seqAccepted data.seq = true) :
    h.processData data =
      ({ h with trigger := (data.channel, data.seq), ackDue := true, ackKind := .ack
                recv := Function.update h.recv data.channel (some (ring.store data.seq data.body).1) },
        .ok (.data data.channel (ring.store data.seq data.body).2)) := by
  unfold processData
  rw [if_neg (by simpa using hs)]
  simp [hr]

omit [NeZero n] in
theorem poll_recv (nowMs : F) : (h.poll nowMs).recv = h.recv := by
  unfold poll
  split_ifs <;> rfl

omit [NeZero n] [F64 F] in
theorem getOutput_recv (nowMs : F) (sealed : Bool) :
    (h.getOutput nowMs sealed).1.recv = h.recv := by
  unfold getOutput
  split_ifs <;> rfl

omit [NeZero n] [F64 F] in
theorem ack_cumulative {c : Channel} {ring : RecvRing n} (hr : h.recv c = some ring) :
    h.ack.cumulative c = ring.cumulative := by
  simp [ack, hr, RecvRing.cumulativeAck]

end RecvHalf

namespace Link

/-! ## The invariant -/

/-- Fragment `q` has body `b`, and the receiver's ring has accepted it. -/
def Has (s : Link n F) (q : ℕ) (b : Str) : Prop := s.log[q]? = some b ∧ UInt32.ofNat q ∈ s.stored

/-- The fragments of the first `k` messages. -/
def logUpTo (s : Link n F) (k : ℕ) : List Str :=
  (s.queued.take k).flatMap fun m => m.1.fragments m.2

structure RingInv (p : Setup) (s : Link n F) (r : RecvRing n) : Prop where
  holds : r.Holds s.Has
  slotLen : r.slotLen = p.slotLen
  /-- The reader stands behind as many whole messages as it has taken. -/
  taken_le : s.taken.length ≤ s.queued.length
  taken : s.taken = s.contents.take s.taken.length
  delivered : r.delivered.toNat = (s.logUpTo s.taken.length).length

/-- The invariant of a channel. -/
structure Inv (p : Setup) (s : Link n F) : Prop where
  sender : s.sender.Holds s.log
  channel : s.sender.channel = p.channel
  capacity : s.sender.fragmentCapacity ≤ p.slotLen
  queued : ∀ m ∈ s.queued, 0 < m.2 ∧ m.2 ≤ p.slotLen ∧ m.2 < 2 ^ 16
  ring : ∃ r, s.receiver.recv p.channel = some r ∧ RingInv p s r
  wire : ∀ d ∈ s.dataWire, d.channel = p.channel ∧ s.log[d.seq.toNat]? = some d.body
  acks : ∀ a ∈ s.ackWire, ∀ q < (a.cumulative p.channel).toNat, ∃ b, s.Has q b
  base : ∀ q < s.sender.base.toNat, ∃ b, s.Has q b

section

variable {p : Setup} {s s' : Link n F}
variable {a : Act F} {r : RecvRing n}

omit [NeZero n] [F64 F] in
theorem Has.lt {q : ℕ} {b : Str} (h : s.Has q b) : q < s.log.length :=
  (List.getElem?_eq_some_iff.mp h.1).1

omit [NeZero n] [F64 F] in
theorem Has.below (hlt : s.log.length < wrapLimit n) : RecvRing.Below n s.Has :=
  fun _ _ h => lt_of_le_of_lt h.lt hlt

omit [NeZero n] [F64 F] in
theorem Has.mono {q : ℕ} {b : Str} (hlog : s.log <+: s'.log) (hst : s.stored ⊆ s'.stored)
    (h : s.Has q b) : s'.Has q b := by
  refine ⟨?_, hst h.2⟩
  obtain ⟨t, ht⟩ := hlog
  rw [← ht, getElem?_append_left h.lt]
  exact h.1

omit [NeZero n] [F64 F] in
theorem log_of_queued {m : Message} {c : ℕ} (h : s'.queued = s.queued ++ [(m, c)]) :
    s'.log = s.log ++ m.fragments c := by
  simp [log, h]

omit [NeZero n] [F64 F] in
theorem log_eq_logUpTo (k : ℕ) :
    s.log = s.logUpTo k ++ (s.queued.drop k).flatMap fun m => m.1.fragments m.2 := by
  rw [log, logUpTo, ← flatMap_append, take_append_drop]

/-! ## One action at a time -/

omit [F64 F] in
theorem Inv.withSender (h : Inv p s) {x : SendRing n F} (hx : x.Holds s.log)
    (hc : x.channel = s.sender.channel) (hcap : x.fragmentCapacity ≤ p.slotLen)
    (hb : ∀ q < x.base.toNat, ∃ b, s.Has q b) : Inv p { s with sender := x } where
  sender := hx
  channel := hc.trans h.channel
  capacity := hcap
  __ := h
  ring := by
    obtain ⟨r, hr, hi⟩ := h.ring
    exact ⟨r, hr, { hi with }⟩
  base := hb

omit [F64 F] in
theorem Inv.withReceiver (h : Inv p s) {x : RecvHalf n F}
    (hx : x.recv p.channel = s.receiver.recv p.channel) : Inv p { s with receiver := x } where
  __ := h
  ring := by
    obtain ⟨r, hr, hi⟩ := h.ring
    exact ⟨r, hx.trans hr, { hi with }⟩

omit [F64 F] in
theorem Inv.queue (h : Inv p s) {x : SendRing n F} {m : Message}
    (hx : SendRing.Enqueued s.log m s.sender x) :
    Inv p { s with sender := x, queued := s.queued ++ [(m, s.sender.fragmentCapacity)] } := by
  generalize hs : ({ s with sender := x,
                            queued := s.queued ++ [(m, s.sender.fragmentCapacity)] } : Link n F) = s'
  have hlog : s'.log = s.log ++ m.fragments s.sender.fragmentCapacity :=
    log_of_queued (by rw [← hs])
  have hmono : ∀ q b, s.Has q b → s'.Has q b := by
    intro q b hq
    refine hq.mono ?_ ?_
    · rw [hlog]
      exact List.prefix_append _ _
    · rw [← hs]
      exact List.Subset.refl _
  obtain ⟨r, hr, hi⟩ := h.ring
  refine ⟨?_, ?_, ?_, ?_, ⟨r, ?_, ?_⟩, ?_, ?_, ?_⟩
  · rw [hlog, ← hs]
    exact hx.holds
  · rw [← hs]
    exact hx.channel.trans h.channel
  · rw [← hs]
    exact hx.fragmentCapacity ▸ h.capacity
  · rw [← hs]
    have := h.sender.capacity_lt
    exact List.forall_mem_concat h.queued
      ⟨h.sender.capacity_pos, h.capacity, by show s.sender.fragmentCapacity < _; omega⟩
  · rw [← hs]
    exact hr
  · refine ⟨hi.holds.mono hmono, hi.slotLen, ?_, ?_, ?_⟩
    · have := hi.taken_le
      rw [← hs]
      simp only [List.length_append]
      omega
    · rw [← hs]
      refine hi.taken.trans ?_
      simp only [contents, List.map_append]
      exact (List.take_append_of_le_length (by simpa using hi.taken_le)).symm
    · rw [← hs]
      refine hi.delivered.trans ?_
      simp only [logUpTo]
      rw [List.take_append_of_le_length hi.taken_le]
  · rw [hlog, ← hs]
    intro d hd
    obtain ⟨h1, h2⟩ := h.wire d hd
    rw [List.getElem?_append_left (List.getElem?_eq_some_iff.mp h2).1]
    exact ⟨h1, h2⟩
  · intro a ha q hq
    rw [← hs] at ha
    exact (h.acks a ha q hq).imp (hmono q)
  · intro q hq
    rw [← hs, hx.base] at hq
    exact (h.base q hq).imp (hmono q)

theorem Inv.pollSend (h : Inv p s) (nowMs srttMs : F) (levelIndex outLen : ℕ) :
    Inv p { s with sender := (s.sender.pollSend nowMs srttMs levelIndex outLen).1 } ∧
      ∀ d, (s.sender.pollSend nowMs srttMs levelIndex outLen).2 = some (.ok d) →
        d.channel = p.channel ∧ s.log[d.seq.toNat]? = some d.body := by
  obtain ⟨hp, hh⟩ := h.sender.pollSend nowMs srttMs levelIndex outLen
  constructor
  · refine h.withSender hh hp.kept.channel ?_ ?_
    · rw [hp.kept.fragmentCapacity]
      exact h.capacity
    · rw [hp.kept.base]
      exact h.base
  · intro d hd
    obtain ⟨h1, h2, h3, h4⟩ := hp.data d hd
    rw [h4]
    exact ⟨h1.trans h.channel, h.sender.body _ h2 h3⟩

theorem Inv.deliverAck (h : Inv p s) {a : Ack} (ha : a ∈ s.ackWire) (nowMs : F) :
    Inv p { s with sender := (s.sender.onAck a nowMs).1 } := by
  have hk := h.sender.onAck a nowMs
  refine h.withSender hk.holds hk.channel ?_ ?_
  · rw [hk.fragmentCapacity]
    exact h.capacity
  · rcases hk.base with hb | hb
    · rw [hb]
      exact h.base
    · rw [hb, h.channel]
      exact h.acks a ha

omit [F64 F] in
theorem Inv.receive (h : Inv p s) (hlt : s.log.length < wrapLimit n) {d : Data}
    (hd : d ∈ s.dataWire) : Inv p (s.receive d) := by
  obtain ⟨hch, hbody⟩ := h.wire d hd
  obtain ⟨r, hr, hi⟩ := h.ring
  by_cases hacc : seqAccepted d.seq = true
  swap
  · have he : s.receiver.processData d = (s.receiver, .error .malformed) := by
      unfold processData
      rw [if_pos (by simpa using hacc)]
    unfold Link.receive
    rw [he]
    simp only [Inbound.accepted, append_nil]
    exact h
  rw [← hch] at hr
  unfold Link.receive
  rw [processData_of_ring hr hacc]
  simp only
  generalize hst : s.stored ++ Inbound.accepted d _ = stored
  have hmono : ∀ q b, s.Has q b → ({ s with stored } : Link n F).Has q b := by
    intro q b hq
    refine ⟨hq.1, ?_⟩
    rw [← hst]
    exact mem_append_left _ hq.2
  have hring : (r.store d.seq d.body).1.Holds ({ s with stored } : Link n F).Has := by
    rcases RecvRing.store_cases r d.seq d.body with ⟨h1, -⟩ | ⟨h1, -⟩
    · rw [h1]
      exact hi.holds.mono hmono
    · refine (hi.holds.mono hmono).store (Has.below hlt) ⟨hbody, ?_⟩
      rw [← hst, h1, UInt32.ofNat_toNat]
      exact mem_append_right _ mem_cons_self
  refine { h with ring := ⟨_, ?_, ⟨hring, ?_, hi.taken_le, hi.taken, ?_⟩⟩, acks := ?_, base := ?_ }
  · rw [← hch]
    exact Function.update_self _ _ _
  · rw [RecvRing.store_slotLen]
    exact hi.slotLen
  · rw [RecvRing.store_delivered]
    exact hi.delivered
  · intro a ha q hq
    exact (h.acks a ha q hq).imp (hmono q)
  · intro q hq
    exact (h.base q hq).imp (hmono q)

omit [F64 F] in
theorem RingInv.drop_log (hi : RingInv p s r) :
    s.log.drop r.delivered.toNat = (s.queued.drop s.taken.length).flatMap
      fun m => m.1.fragments m.2 := by
  rw [hi.delivered]
  nth_rewrite 1 [log_eq_logUpTo s.taken.length]
  exact drop_left

omit [F64 F] in
theorem RingInv.reads (hi : RingInv p s r) (hlt : s.log.length < wrapLimit n) : r.Reads s.log := by
  intro q h1 h2
  obtain ⟨b, hb, hq⟩ := hi.holds.slotBody (Has.below hlt) (by omega) h1 h2
  exact ⟨b, hb, hq.1⟩

omit [F64 F] in
theorem RingInv.takeMessage (h : Inv p s) (hi : RingInv p s r)
    (hlt : s.log.length < wrapLimit n) (outLen : ℕ) :
    ((r.takeMessage outLen).1 = r ∧ ∀ bytes, (r.takeMessage outLen).2 ≠ some (.ok bytes)) ∨
      ∃ m rest, s.queued.drop s.taken.length = m :: rest ∧
        r.takeMessage outLen = (r.release (m.1.fragments m.2).length, some (.ok m.1.content)) ∧
        r.delivered.toNat + (m.1.fragments m.2).length ≤ r.cumulative.toNat := by
  have hreads := hi.reads hlt
  have hdrop := hi.drop_log
  cases hq : s.queued.drop s.taken.length with
  | nil =>
    left
    have he : r.delivered = r.cumulative := by
      by_contra hne
      have hlt' : r.delivered.toNat < r.cumulative.toNat :=
        lt_of_le_of_ne hi.holds.delivered_le fun he => hne (UInt32.toNat_inj.mp he)
      obtain ⟨b, -, hb⟩ := hreads r.delivered le_rfl hlt'
      have := (List.getElem?_eq_some_iff.mp hb).1
      rw [hq, List.flatMap_nil, List.drop_eq_nil_iff] at hdrop
      omega
    rw [RecvRing.takeMessage_of_eq he]
    exact ⟨rfl, by simp⟩
  | cons m rest =>
    have hm : m ∈ s.queued := by
      have : m ∈ s.queued.drop s.taken.length := by rw [hq]; exact List.mem_cons_self
      exact List.mem_of_mem_drop this
    rw [hq, List.flatMap_cons] at hdrop
    rcases hreads.takeMessage hi.holds.delivered_le (h.queued m hm).1 hdrop outLen with ht | ht
    · exact .inl ht
    · exact .inr ⟨m, rest, rfl, ht⟩

omit [F64 F] in
theorem Inv.take (h : Inv p s) (hi : RingInv p s r) {m : Message × ℕ} {rest : List (Message × ℕ)}
    (hq : s.queued.drop s.taken.length = m :: rest)
    (hle : r.delivered.toNat + (m.1.fragments m.2).length ≤ r.cumulative.toNat) :
    Inv p { s with
      receiver := { s.receiver with recv := Function.update s.receiver.recv p.channel
                                              (some (r.release (m.1.fragments m.2).length)) }
      taken := s.taken ++ [m.1.content] } := by
  have hlen : s.taken.length < s.queued.length := by
    by_contra hge
    rw [drop_eq_nil_iff.mpr (by omega)] at hq
    cases hq
  have hm : s.queued[s.taken.length]? = some m := by
    have := congrArg (·[0]?) hq
    simpa [getElem?_drop] using this
  have hC := r.cumulative.toNat_lt
  refine { h with
    ring := ⟨_, Function.update_self _ _ _, ⟨hi.holds.release hle, hi.slotLen, ?_, ?_, ?_⟩⟩ }
  · simp only [length_append, length_singleton]
    omega
  · simp only [length_append, length_singleton, contents]
    rw [take_add_one, getElem?_map, hm]
    exact congrArg (· ++ [m.1.content]) hi.taken
  · have hd : (r.release (m.1.fragments m.2).length).delivered.toNat =
        r.delivered.toNat + (m.1.fragments m.2).length := Serial.toNat_add_ofNat (by omega)
    rw [hd, hi.delivered]
    simp only [logUpTo, length_append, length_singleton]
    rw [take_add_one, hm, flatMap_append, length_append]
    simp

/-! ## Runs -/

theorem step_queued (hst : step p s a = some s') : s.queued <+: s'.queued := by
  cases moves_of_step hst with
  | queued _ => exact prefix_append _ _
  | _ => exact prefix_refl _

theorem step_log (hst : step p s a = some s') : s.log.length ≤ s'.log.length := by
  obtain ⟨t, ht⟩ := step_queued hst
  rw [log, log, ← ht, flatMap_append, length_append]
  exact Nat.le_add_right _ _

/-- **Every action keeps the invariant.** -/
theorem Inv.step (h : Inv p s) (hst : step p s a = some s')
    (hlt : s'.log.length < wrapLimit n) : Inv p s' := by
  have hlt₀ : s.log.length < wrapLimit n := lt_of_le_of_lt (step_log hst) hlt
  cases moves_of_step hst with
  | @queued m k hok =>
    rcases h.sender.enqueue m with ⟨-, -, e, he⟩ | ⟨-, henq⟩
    · rw [he] at hok
      cases hok
    · refine h.queue (henq ?_)
      have hl := hlt.trans_le (wrapLimit_le n)
      rwa [log_of_queued rfl, length_append, m.length_fragments] at hl
  | @refused m e herr =>
    rcases h.sender.enqueue m with ⟨-, hs, -⟩ | ⟨⟨k, hk⟩, -⟩
    · rw [hs]
      exact h
    · rw [hk] at herr
      cases herr
  | @capacity c hc =>
    refine h.withSender (h.sender.setFragmentCapacity c) ?_ ?_ ?_
    · unfold SendRing.setFragmentCapacity
      split_ifs <;> rfl
    · unfold SendRing.setFragmentCapacity
      split_ifs
      · exact hc
      · exact h.capacity
    · unfold SendRing.setFragmentCapacity
      split_ifs <;> exact h.base
  | pass => exact h.withSender h.sender.beginPass rfl h.capacity h.base
  | emitted hd =>
    obtain ⟨hi, hdata⟩ := h.pollSend _ _ _ _
    refine { hi with ring := ?_, wire := ?_ }
    · obtain ⟨r, hr, hri⟩ := hi.ring
      exact ⟨r, hr, { hri with }⟩
    · exact List.forall_mem_concat hi.wire (hdata _ hd)
  | scanned => exact (h.pollSend _ _ _ _).1
  | acked ha => exact h.deliverAck (mem_of_getElem? ha) _
  | received hd => exact h.receive hlt₀ (mem_of_getElem? hd)
  | other hd => exact h.withReceiver (processData_of_ne hd)
  | polled => exact h.withReceiver (by rw [poll_recv])
  | @answered nowMs sealed a ha =>
    have hi := h.withReceiver (x := (s.receiver.getOutput nowMs sealed).1)
      (by rw [getOutput_recv])
    obtain ⟨r, hr, hri⟩ := h.ring
    refine { hi with ring := ?_, acks := ?_ }
    · obtain ⟨r, hr, hri⟩ := hi.ring
      exact ⟨r, hr, { hri with }⟩
    · refine List.forall_mem_concat hi.acks ?_
      have ha' : a = s.receiver.ack := by
        unfold getOutput at ha
        split_ifs at ha
        cases ha
        rfl
      rw [ha', ack_cumulative hr]
      exact hri.holds.below
  | silent => exact h.withReceiver (by rw [getOutput_recv])
  | @took outLen bytes hb =>
    obtain ⟨r, hr, hi⟩ := h.ring
    simp only [takeMessage, hr] at hb ⊢
    rcases hi.takeMessage h hlt₀ outLen with ⟨-, hne⟩ | ⟨m, rest, hq, ht, hle⟩
    · exact absurd hb (hne bytes)
    · rw [ht] at hb ⊢
      cases hb
      exact h.take hi hq hle
  | @waited outLen hne =>
    obtain ⟨r, hr, hi⟩ := h.ring
    simp only [takeMessage, hr] at hne ⊢
    rcases hi.takeMessage h hlt₀ outLen with ⟨he, -⟩ | ⟨m, rest, -, ht, -⟩
    · refine h.withReceiver ?_
      rw [he, hr]
      exact Function.update_self _ _ _
    · rw [ht] at hne
      exact absurd rfl (hne _)

theorem inv_start (p : Setup) (others : Channel → Option (RecvRing n)) (nowMs : F) :
    Inv p (p.start others nowMs) where
  sender := .fresh p.channel p.capacity_pos p.capacity_le p.capacity_lt
  channel := rfl
  capacity := p.capacity_le_slotLen
  queued m hm := by cases hm
  ring := ⟨_, Function.update_self _ _ _, ⟨.fresh _, rfl, le_rfl, rfl, rfl⟩⟩
  wire d hd := by cases hd
  acks a ha := by cases ha
  base q hq := absurd hq (Nat.not_lt_zero q)

/-- **The invariant holds in every state reached, while the fragments assigned stay below
`wrapLimit n`.** -/
theorem inv_of_reach {others : Channel → Option (RecvRing n)} {nowMs : F}
    {ok : Link n F → Act F → Prop} (h : (link p others nowMs).ReachVia ok s) :
    s.log.length < wrapLimit n → Inv p s := by
  induction h with
  | start => exact fun _ => inv_start p others nowMs
  | step _ _ hst ih =>
    intro hlt
    exact (ih (lt_of_le_of_lt (step_log hst) hlt)).step hst hlt

end

end Link

end OpenStream.Lowlat
