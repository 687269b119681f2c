import OpenStream.Lowlat.LinkInvariant

/-!
# The reader gets the messages queued, in order and once

* **`Link.taken_prefix`**: below `wrapLimit`, what was taken is a prefix of what was queued.
* **`Link.stale_packet_delivered`**: at it, an old packet is taken as a new message.
-/

namespace OpenStream.Lowlat

open Bytes Function RecvRing
open UInt32 (ofNat ofNat_toNat sub_self toNat toNat_inj)

variable {n : ℕ} [NeZero n] {F : Type} [F64 F]

namespace Link

/-- **In-order, exactly-once, whole messages**, while the fragments assigned stay below
`wrapLimit n`. -/
theorem taken_prefix {p : Setup} {others : Channel → Option (RecvRing n)} {nowMs : F} {s : Link n F}
    (h : (link p others nowMs).Reach s) (hlt : s.log.length < wrapLimit n) :
    s.taken <+: s.contents := by
  obtain ⟨r, -, hi⟩ := (inv_of_reach h hlt).ring
  rw [hi.taken]
  exact List.take_prefix _ _

def twoFragments : Message := ⟨[1, 2], List.replicate 20 7, by decide⟩

theorem taken_prefix_reordered : ∃ s, (link (n := 4) .small (fun _ => none) (0 : ℚ)).Reach s ∧
    s.log.length < wrapLimit 4 ∧ s.taken = [twoFragments.content] ∧ s.taken <+: s.contents := by
  obtain ⟨s, h, hlt, ht⟩ := (link (n := 4) .small (fun _ => none) (0 : ℚ)).exists_reachVia
    (fun _ _ => True)
    [.enqueue twoFragments, .enqueue .empty, .pollSend 0 0 1 64, .pollSend 0 0 1 64, .deliverData 1,
      .deliverData 0, .deliverData 1, .takeMessage 64]
    (fun s => s.log.length < wrapLimit 4 ∧ s.taken = [twoFragments.content]) (by decide +kernel)
  exact ⟨s, h, hlt, ht, taken_prefix h hlt⟩

/-! ## One message at a time -/

def zeroPrefix : Str := [0, 0, 0, 0]

theorem fragments_empty : Message.empty.fragments 16 = [zeroPrefix] := by decide

/-- `k` empty messages were queued, sent, delivered, acknowledged and taken, and nothing is under
way. -/
structure Idle (k : ℕ) (s : Link n F) : Prop where
  capacity : s.sender.fragmentCapacity = 16
  base : s.sender.base.toNat = k
  queued : s.queued = List.replicate k (Message.empty, 16)
  taken : s.taken = List.replicate k []
  ring : ∃ r, s.receiver.recv 1 = some r ∧ r.slotLen = 16 ∧ r.delivered = ofNat k ∧
    r.cumulative = ofNat k ∧ r.highest = ofNat k ∧ ∀ i, (r.slot i).ready = false
  first : k = 0 ∧ s.dataWire = [] ∨
    ∃ d, s.dataWire[0]? = some d ∧ d.channel = 1 ∧ d.seq = 0 ∧ d.body = zeroPrefix

section

variable {s : Link n F} {k : ℕ}

omit [NeZero n] [F64 F] in
theorem Idle.log_length (h : Idle k s) : s.log.length = k := by
  rw [log, h.queued]
  clear h
  induction k with
  | zero => rfl
  | succ k ih =>
    rw [List.replicate_succ, List.flatMap_cons, List.length_append, ih, fragments_empty,
      List.length_singleton, Nat.add_comm]

end

theorem pollSend_unsent {r : SendRing n F} (nowMs srttMs : F) (levelIndex : ℕ) {outLen w : ℕ}
    (hc : r.cursor ≠ r.next) (hocc : (r.slot (slotIndex n r.cursor)).occupied = true)
    (hsent : (r.slot (slotIndex n r.cursor)).sent = false) (hout : r.outstanding = 0)
    (henc : encodeData outLen r.packetAt = .ok w) :
    r.pollSend nowMs srttMs levelIndex outLen =
      (r.transmit nowMs srttMs (level F levelIndex), some (.ok r.packetAt)) := by
  have hpos : (r.next - r.cursor).toNat ≠ 0 := by
    intro h0
    rw [Serial.toNat_sub] at h0
    have h1 := r.next.toNat_lt
    have h2 := r.cursor.toNat_lt
    refine hc (toNat_inj.mp ?_)
    split_ifs at h0 <;> omega
  obtain ⟨j, hj⟩ := Nat.exists_eq_succ_of_ne_zero hpos
  rw [SendRing.pollSend, hj, Nat.succ_eq_add_one, SendRing.pollLoop, if_neg hc]
  simp only [hocc, Bool.not_true, Bool.false_eq_true, if_false, hout, OUTSTANDING_CAP,
    SendRing.due, hsent, Bool.not_false, if_true, henc]
  simp

theorem add_one_sub (x : UInt32) : x + 1 - x = 1 := by
  rw [UInt32.add_comm, UInt32.add_sub_cancel]

theorem ne_add_one (x : UInt32) : x ≠ x + 1 := by
  intro he
  have := add_one_sub x
  rw [← he, sub_self] at this
  cases this

theorem store_at_frontier {r : RecvRing n} (body : Str) (hd : r.cumulative = r.delivered)
    (hh : r.highest = r.delivered) (hr : (r.slot (slotIndex n r.delivered)).ready = false)
    (hl : body.length ≤ r.slotLen) (hl16 : body.length < 2 ^ 16) :
    r.store r.delivered body = ({ r with
      slot := update r.slot (slotIndex n r.delivered) ⟨body, true⟩
      cumulative := r.delivered + 1
      highest := r.delivered + 1 }, .accepted) := by
  have hlt : Seq.lt r.delivered r.delivered = false := by
    rw [Seq.lt, Seq.gt_eq, Serial.sgt]
    simp
  have hdist : (Seq.distance r.delivered r.delivered).toNat = 0 := by
    rw [Seq.distance, sub_self]
    rfl
  have hone := add_one_sub r.delivered
  have hgt : Seq.gt (r.delivered + 1) r.delivered = true := by
    rw [Seq.gt_eq, Serial.sgt, hone]
    rfl
  have hne := ne_add_one r.delivered
  have hpos := Nat.pos_of_neZero n
  rw [store, hlt, if_neg (by simp), if_neg (by omega), if_neg (by omega),
    if_neg (by omega), if_neg (by rw [hr]; simp)]
  simp only [advance, place, hh, hd, hgt, if_true, hone]
  rw [show (1 : UInt32).toNat = 0 + 1 from rfl, advanceLoop]
  simp only [hne, if_false, update_self, if_true]
  rfl

theorem takeMessage_single {r : RecvRing n} (outLen : ℕ) (hc : r.cumulative = r.delivered + 1)
    (hb : r.slotBody r.delivered = some zeroPrefix) :
    r.takeMessage outLen = (r.release 1, some (.ok [])) := by
  have hone := add_one_sub r.delivered
  have hne := ne_add_one r.delivered
  have hparse : parseLengthPrefix zeroPrefix = .ok 0 := rfl
  have hcollect : r.collect (0 + LENGTH_PREFIX_LEN) 1 0 0 r.delivered = some (4, 1) := by
    unfold collect
    rw [if_neg (by decide), hc, if_neg hne, hb]
    simp only
    unfold collect
    rfl
  have hcopy : r.copyOut 0 1 [] LENGTH_PREFIX_LEN r.delivered = .ok [] := by
    unfold copyOut
    rw [if_pos (by simp)]
  rw [takeMessage, hc, if_neg hne, hb]
  simp only [hparse, hone]
  rw [show (1 : UInt32).toNat = 1 from rfl, hcollect]
  simp only [hcopy]
  simp [LENGTH_PREFIX_LEN]

theorem onAck_base (r : SendRing n F) (a : Ack) (nowMs : F) :
    (r.onAck a nowMs).1.base = (r.ackCumulative a).base := by
  obtain ⟨slot, nackBelow, h⟩ := r.onAck_eq a nowMs
  rw [h]

theorem onAck_base_succ {r : SendRing n F} {a : Ack} (nowMs : F)
    (hrep : r.channel.val < a.reported) (hc : a.cumulative r.channel = r.base + 1)
    (hnext : r.next = r.base + 1) : (r.onAck a nowMs).1.base = r.base + 1 := by
  have hgt : Seq.gt (r.base + 1) r.base = true := by
    rw [Seq.gt_eq, Serial.sgt, add_one_sub]
    rfl
  have hle : Seq.le (r.base + 1) (r.base + 1) = true := by
    rw [Seq.le, Seq.ge_eq, Serial.sge]
    simp
  rw [onAck_base, SendRing.ackCumulative, SendRing.reportedCumulative, if_pos hrep, hc, hnext, hgt,
    hle]
  rfl

/-- From an empty window, one more empty message went out as the packet `d`. -/
structure Emitted (log : List Str) (r r' : SendRing n F) (d : Data) : Prop where
  holds : r'.Holds (log ++ [zeroPrefix])
  base : r'.base = r.base
  channel : r'.channel = r.channel
  capacity : r'.fragmentCapacity = r.fragmentCapacity
  packet : d.channel = r.channel ∧ d.seq = ofNat log.length ∧ d.body = zeroPrefix

theorem emit_empty {log : List Str} {r : SendRing n F} (h : r.Holds log)
    (hcap : r.fragmentCapacity = 16) (hbase : r.base.toNat = log.length)
    (hk : log.length + 1 < 2 ^ 32) (nowMs : F) :
    ∃ x j r' d, r.enqueue .empty = (x, .ok j) ∧
      x.beginPass.pollSend nowMs nowMs 1 64 = (r', some (.ok d)) ∧ Emitted log r r' d := by
  have hcount : fragmentCount Message.empty.totalLen r.fragmentCapacity = 1 := by
    rw [hcap]
    rfl
  have hn := Nat.pos_of_neZero n
  -- the window is empty, so the message is queued
  rcases h.enqueue .empty with ⟨hfree, -⟩ | ⟨⟨j, hj⟩, henq⟩
  · rw [hcount, SendRing.windowFree, SendRing.inFlight, Serial.toNat_sub, hbase, h.next_eq] at hfree
    split_ifs at hfree <;> omega
  have hE := henq (by rw [hcount]; omega)
  generalize hx : (r.enqueue .empty).1 = x at hE
  have hholds := hE.holds.beginPass
  rw [hcap, fragments_empty] at hholds
  -- the fragment just queued is at the cursor, unsent
  have hcur : x.beginPass.cursor.toNat = log.length := (congrArg toNat hE.base).trans hbase
  have hxnext : x.beginPass.next.toNat = log.length + 1 := by
    rw [hholds.next_eq, List.length_append, List.length_singleton]
  have hidx : slotIndex n x.beginPass.cursor = Fin.ofNat n log.length := by
    rw [slotIndex, hcur]
  have hnew := hE.new log.length le_rfl (by
    show log.length < x.beginPass.next.toNat
    omega)
  have hpacket : x.beginPass.packetAt.body = zeroPrefix := by
    have := hholds.body log.length (by rw [← hcur]; exact hholds.base_le) (by omega)
    rw [List.getElem?_concat_length] at this
    show (x.beginPass.slot (slotIndex n x.beginPass.cursor)).body = _
    rw [hidx]
    exact (Option.some.inj this).symm
  have henc : encodeData 64 x.beginPass.packetAt = .ok 11 := by
    have hmax : x.beginPass.packetAt.seq ≠ SEQ_MAX := by
      intro he
      have := congrArg toNat he
      rw [show x.beginPass.packetAt.seq = x.beginPass.cursor from rfl, hcur] at this
      have hm : SEQ_MAX.toNat = 2 ^ 32 - 1 := rfl
      omega
    rw [encodeData, if_neg hmax, hpacket]
    rfl
  have hpoll := pollSend_unsent (r := x.beginPass) nowMs nowMs 1
    (fun he => by have := congrArg toNat he; omega)
    (by rw [hidx]; exact hnew.1) (by rw [hidx]; exact hnew.2) rfl henc
  obtain ⟨hp, hp'⟩ := hholds.pollSend nowMs nowMs 1 64
  rw [hpoll] at hp hp'
  refine ⟨x, j, _, _, Prod.ext hx hj, hpoll, hp', hp.kept.base.trans hE.base,
    hp.kept.channel.trans hE.channel, hp.kept.fragmentCapacity.trans hE.fragmentCapacity,
    hE.channel, ?_, hpacket⟩
  show x.beginPass.cursor = _
  rw [← hcur, ofNat_toNat]

section Round

variable {s s' : Link n F} {k : ℕ} {d : Data} {others : Channel → Option (RecvRing n)} {nowMs : F}

/-- From an idle channel `s`, one more empty message is queued and its packet `d` is on the wire. -/
structure Sent (k : ℕ) (s s' : Link n F) (d : Data) : Prop where
  holds : s'.sender.Holds (s.log ++ [zeroPrefix])
  base : s'.sender.base.toNat = k
  channel : s'.sender.channel = 1
  capacity : s'.sender.fragmentCapacity = 16
  receiver : s'.receiver = s.receiver
  taken : s'.taken = s.taken
  queued : s'.queued = List.replicate (k + 1) (Message.empty, 16)
  dataWire : s'.dataWire = s.dataWire ++ [d]
  packet : d.channel = 1 ∧ d.seq = ofNat k ∧ d.body = zeroPrefix

theorem Idle.send (h : Idle k s) (hr : (link .small others nowMs).Reach s) (hk : k < wrapLimit n)
    (hk' : k + 2 < 2 ^ 32) : ∃ s' d, (link .small others nowMs).Reach s' ∧ Sent k s s' d := by
  have hi := inv_of_reach hr (by rwa [h.log_length])
  obtain ⟨x, j, r', d, henq, hpoll, he⟩ := emit_empty hi.sender h.capacity
    (h.base.trans h.log_length.symm) (by rw [h.log_length]; omega) nowMs
  have hrun : (link .small others nowMs).runVia (fun _ _ => True) s
      [.enqueue .empty, .beginPass, .pollSend nowMs nowMs 1 64] = some { s with
      sender := r'
      queued := s.queued ++ [(Message.empty, s.sender.fragmentCapacity)]
      dataWire := s.dataWire ++ [d] } := by
    simp [Runs.Machine.runVia, link, Link.step, henq, hpoll]
  obtain ⟨hpc, hpseq, hpbody⟩ := he.packet
  refine ⟨_, d, hr.run hrun, ⟨he.holds, ?_, he.channel.trans hi.channel, he.capacity.trans h.capacity,
    rfl, rfl, ?_, rfl, hpc.trans hi.channel, ?_, hpbody⟩⟩
  · show r'.base.toNat = k
    rw [he.base]
    exact h.base
  · show s.queued ++ [_] = _
    rw [h.queued, h.capacity, List.replicate_succ']
  · rw [hpseq, h.log_length]

theorem Sent.receive (hs : Sent k s s' d) (h : Idle k s)
    (hr : (link .small others nowMs).Reach s') (hk' : k + 2 < 2 ^ 32) :
    ∃ s'', (link .small others nowMs).Reach s'' ∧ Idle (k + 1) s'' := by
  obtain ⟨r, hrecv, hlen, hdel, hcum, hhigh, hempty⟩ := h.ring
  obtain ⟨hdc, hdseq, hdbody⟩ := hs.packet
  have hacc : seqAccepted d.seq = true := by
    rw [seqAccepted, decide_eq_true_iff, hdseq]
    intro he
    have := congrArg toNat he
    rw [Serial.toNat_ofNat_lt (by omega)] at this
    have hm : SEQ_MAX.toNat = 2 ^ 32 - 1 := rfl
    omega
  -- the packet arrives at the frontier
  have hseq : d.seq = r.delivered := hdseq.trans hdel.symm
  have hstore := store_at_frontier zeroPrefix (hcum.trans hdel.symm)
    (hhigh.trans hdel.symm) (hempty _) (by rw [hlen]; decide) (by decide)
  generalize hr1 : ({ r with
    slot := update r.slot (slotIndex n r.delivered) ⟨zeroPrefix, true⟩
    cumulative := r.delivered + 1
    highest := r.delivered + 1 } : RecvRing n) = r1 at hstore
  have hring : s'.receiver.recv d.channel = some r := by rw [hs.receiver, hdc]; exact hrecv
  have hproc := RecvHalf.processData_of_ring hring hacc
  rw [hseq, hdbody, hstore, hdc] at hproc
  generalize hrecv1 : ({ s'.receiver with
    trigger := (1, r.delivered), ackDue := true, ackKind := .ack
    recv := update s'.receiver.recv 1 (some r1) } : RecvHalf n F) = h1
  replace hproc : s'.receiver.processData d = (h1, .ok (.data 1 .accepted)) :=
    hproc.trans (by rw [← hrecv1])
  have hring1 : h1.recv 1 = some r1 := by
    rw [← hrecv1]
    exact update_self (1 : Channel) (some r1) s'.receiver.recv
  have hcum1 : r1.cumulative = ofNat k + 1 := by rw [← hr1, hdel]
  have hdel1 : r1.delivered = ofNat k := by rw [← hr1]; exact hdel
  have hack : h1.ack.cumulative s'.sender.channel = ofNat k + 1 := by
    rw [hs.channel, RecvHalf.ack_cumulative hring1, hcum1]
  have hbase : s'.sender.base = ofNat k := by rw [← hs.base, ofNat_toNat]
  have hsucc : (ofNat k + 1).toNat = k + 1 := by
    rw [Serial.ofNat_succ, Serial.toNat_ofNat_lt (by omega)]
  have hloglen : (s.log ++ [zeroPrefix]).length = k + 1 := by
    rw [List.length_append, h.log_length, List.length_singleton]
  have hnext : s'.sender.next = s'.sender.base + 1 := by
    apply toNat_inj.mp
    rw [hs.holds.next_eq, hloglen, hbase, hsucc]
  have hbase6 := onAck_base_succ (a := h1.ack) nowMs (by rw [hs.channel]; show 1 < 19; omega)
    (hack.trans (by rw [hbase])) hnext
  have hacked := hs.holds.onAck h1.ack nowMs
  have htake := takeMessage_single (r := r1) 0 (hcum1.trans (by rw [hdel1])) (by
    rw [slotBody, ← hr1]
    simp only [update_self, if_true])
  -- the packet is delivered, its acknowledgement goes back, and the reader takes the message
  have hrun : (link .small others nowMs).runVia (fun _ _ => True) s'
      [.deliverData s.dataWire.length, .getOutput nowMs true, .deliverAck s'.ackWire.length nowMs,
        .takeMessage 0] = some { s' with
      sender := (s'.sender.onAck h1.ack nowMs).1
      receiver := { h1 with ackDue := false, lastAckSentMs := nowMs
                            recv := update h1.recv 1 (some (r1.release 1)) }
      stored := s'.stored ++ [d.seq]
      ackWire := s'.ackWire ++ [h1.ack]
      taken := s'.taken ++ [[]] } := by
    have hdue : h1.ackDue = true := by rw [← hrecv1]
    have hch : Setup.small.channel = 1 := rfl
    simp [Runs.Machine.runVia, link, Link.step, hs.dataWire, Link.receive, hproc, Inbound.accepted,
      RecvHalf.getOutput, hdue, RecvHalf.takeMessage, hch, hring1, htake]
  refine ⟨_, hr.run hrun, ⟨?_, ?_, hs.queued, ?_, ⟨r1.release 1, ?_⟩, ?_⟩⟩
  · exact hacked.fragmentCapacity.trans hs.capacity
  · show (s'.sender.onAck h1.ack nowMs).1.base.toNat = _
    rw [hbase6, hbase, hsucc]
  · rw [hs.taken, h.taken, List.replicate_succ']
  · refine ⟨update_self (1 : Channel) (some (r1.release 1)) h1.recv,
      by rw [← hr1]; exact hlen, ?_, ?_, ?_, ?_⟩
    · show r1.delivered + ofNat 1 = _
      rw [hdel1, Serial.ofNat_add]
    · show r1.cumulative = _
      rw [hcum1, Serial.ofNat_succ]
    · show r1.highest = _
      rw [← hr1, hdel, Serial.ofNat_succ]
    · intro i
      show (update r1.slot (slotIndex n (r1.delivered + ofNat 0)) {} i).ready = false
      rw [hdel1, Serial.ofNat_add, Nat.add_zero, update_apply]
      split_ifs with hidx
      · rfl
      · rw [← hr1, hdel]
        simp only [update_of_ne hidx]
        exact hempty i
  · right
    show ∃ d, s'.dataWire[0]? = some d ∧ _
    rw [hs.dataWire]
    rcases h.first with ⟨h0, hnil⟩ | ⟨d0, hd0, hrest⟩
    · refine ⟨d, by rw [hnil]; rfl, hdc, ?_, hdbody⟩
      rw [hdseq, h0]
      rfl
    · refine ⟨d0, ?_, hrest⟩
      rw [List.getElem?_append_left (List.getElem?_eq_some_iff.mp hd0).1]
      exact hd0

/-- **Any number of messages below the limit can be exchanged one at a time.** -/
theorem exists_idle (others : Channel → Option (RecvRing n)) (nowMs : F) :
    ∀ k, k ≤ wrapLimit n → k + 1 < 2 ^ 32 →
      ∃ s, (link .small others nowMs).Reach s ∧ Idle k s
  | 0, _, _ => by
    refine ⟨_, .start, ⟨rfl, rfl, rfl, rfl, ⟨fresh 16, ?_⟩, .inl ⟨rfl, rfl⟩⟩⟩
    exact ⟨update_self (1 : Channel) _ others, rfl, rfl, rfl, rfl, fun _ => rfl⟩
  | k + 1, hk, hk' => by
    obtain ⟨s, hr, h⟩ := exists_idle others nowMs k (by omega) (by omega)
    obtain ⟨s', d, hr', hs⟩ := h.send hr (by omega) (by omega)
    exact hs.receive h hr' (by omega)

end Round

/-! ## The first packet again -/

theorem store_stale {r : RecvRing RING_SLOTS} (hlen : r.slotLen = 16)
    (hd : r.delivered = ofNat (wrapLimit RING_SLOTS)) (hc : r.cumulative = r.delivered)
    (hh : r.highest = r.delivered) (hempty : ∀ i, (r.slot i).ready = false) :
    ∃ r', r.store 0 zeroPrefix = (r', .accepted) ∧ r'.delivered = r.delivered ∧
      r'.cumulative = r.delivered + 1 ∧ r'.slotBody r.delivered = some zeroPrefix := by
  have hidx : slotIndex RING_SLOTS r.delivered = slotIndex RING_SLOTS 0 := by
    rw [hd]
    decide
  have hnext : slotIndex RING_SLOTS (r.delivered + 1) ≠ slotIndex RING_SLOTS 0 := by
    rw [hd]
    decide
  have hne : r.delivered ≠ 1 := by
    rw [hd]
    decide
  have hne' : r.delivered + 1 ≠ 1 := by
    rw [hd]
    decide
  have hgt : Seq.gt 1 r.delivered = true := by
    rw [hd]
    decide
  have hfuel : (1 - r.delivered).toNat = 3295 + 2 := by
    rw [hd]
    decide
  have hstore : r.store 0 zeroPrefix = ((r.place 0 zeroPrefix).advance, .accepted) := by
    rw [store, if_neg (by rw [hd]; decide), if_neg (by rw [hd]; decide),
      if_neg (by rw [hlen]; decide), if_neg (by decide), if_neg (by simp [hempty])]
  have hadv : (r.place 0 zeroPrefix).advance =
      { r.place 0 zeroPrefix with cumulative := r.delivered + 1 } := by
    have hhigh : (r.place 0 zeroPrefix).highest = 1 := by
      simp [place, hh, hgt]
    have hcum : (r.place 0 zeroPrefix).cumulative = r.delivered := hc
    rw [advance, hhigh, hcum, hfuel, advanceLoop, hhigh, hcum, if_neg hne, if_pos]
    swap
    · rw [hidx]
      simp [place, update_self]
    rw [advanceLoop]
    simp only [hhigh, hne', if_false]
    simp [place, update_of_ne hnext, hempty]
  refine ⟨_, hstore, ?_, ?_, ?_⟩
  · rw [hadv]
    rfl
  · rw [hadv]
  · rw [hadv, slotBody, hidx]
    simp [place, update_self]

/-- **A stale packet is delivered as a new message.** After `wrapLimit RING_SLOTS` messages, fewer
than the sequence space, the first packet arrives once more and the reader gets a message that was
never queued. -/
theorem stale_packet_delivered : ∃ s : Link RING_SLOTS ℚ,
    (link .small (fun _ => none) (0 : ℚ)).Reach s ∧ s.log.length < 2 ^ 32 - 1 ∧
      ¬ s.taken <+: s.contents := by
  obtain ⟨s, hr, h⟩ := exists_idle (n := RING_SLOTS) (fun _ => none) (0 : ℚ)
    (wrapLimit RING_SLOTS) le_rfl (by decide)
  obtain ⟨r, hrecv, hlen, hdel, hcum, hhigh, hempty⟩ := h.ring
  obtain ⟨h0, -⟩ | ⟨d, hd0, hdc, hdseq, hdbody⟩ := h.first
  · exact absurd h0 (by decide)
  obtain ⟨r1, hstore, hdel1, hcum1, hbody1⟩ := store_stale hlen hdel (hcum.trans hdel.symm)
    (hhigh.trans hdel.symm) hempty
  have hring : s.receiver.recv d.channel = some r := by rw [hdc]; exact hrecv
  have hproc := RecvHalf.processData_of_ring hring (by rw [hdseq]; decide)
  rw [hdseq, hdbody, hdc, hstore] at hproc
  have h1 : (link .small (fun _ => none) (0 : ℚ)).Reach (s.receive d) := by
    refine .step (a := .deliverData 0) hr trivial ?_
    show Link.step .small s (.deliverData 0) = _
    simp [Link.step, hd0]
  have htake := takeMessage_single (r := r1) 0 (hcum1.trans (by rw [hdel1]))
    (by rw [hdel1]; exact hbody1)
  have hrecv1 : (s.receive d).receiver.recv 1 = some r1 := by
    simp only [Link.receive, hproc]
    exact update_self (1 : Channel) (some r1) s.receiver.recv
  refine ⟨_, .step (a := .takeMessage 0) h1 trivial (by
    show Link.step .small (s.receive d) (.takeMessage 0) = _
    have hch : Setup.small.channel = 1 := rfl
    simp only [Link.step, RecvHalf.takeMessage, hch, hrecv1, htake]
    rfl), ?_, ?_⟩
  · show s.log.length < _
    rw [h.log_length]
    decide
  · intro hpre
    have hle := hpre.length_le
    change (s.taken ++ [[]]).length ≤ (s.queued.map _).length at hle
    rw [h.taken, h.queued] at hle
    simp at hle

end Link

end OpenStream.Lowlat
