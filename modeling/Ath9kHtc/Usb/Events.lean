import Ath9kHtc.Lib.Segments
import Ath9kHtc.Usb.StatusIn

/-!
# The stream of events

The packets on endpoint 3 are the events in the order of the queue, each cut into packets of its
own, and every event is done after its last packet.
-/

namespace Ath9kHtc.Usb

open Segments

/-! ## Packets -/

section

variable {s s' : StatusFifo}

theorem iterate_writeWord (n : ℕ) (s : StatusFifo) (hsize : s.fifoSize = 4) :
    Nat.iterate writeWord n s =
      { s with
        fifo := s.fifo ++ Memory.fetch s.mem s.regaddr (4 * n)
        regaddr := s.regaddr + 4 * n } := by
  induction n generalizing s with
  | zero => simp [Memory.fetch]
  | succ n ih =>
    have hbytes : 4 * (n + 1) = 4 + 4 * n := by omega
    rw [Function.iterate_succ_apply, ih (writeWord s) hsize, hbytes, Memory.fetch_append]
    simp [writeWord, writeFifo, hsize, Nat.add_assoc]

/-- A packet is the bytes at `regaddr`, with the bus width restored. -/
theorem sendPacket_eq (s : StatusFifo) (hsize : s.fifoSize = 4) (hfifo : s.fifo = []) (k : ℕ) :
    sendPacket s k =
      { s with
        regaddr := s.regaddr + 4 * (k / 4)
        packets := s.packets ++ [Memory.fetch s.mem s.regaddr k] } := by
  have hwhole : 4 * (k / 4) + k % 4 = k := Nat.div_add_mod k 4
  rw [sendPacket, iterate_writeWord _ s hsize, hfifo, writeRemainder]
  by_cases hrest : k % 4 = 0
  · rw [if_pos hrest]
    have hk : 4 * (k / 4) = k := by omega
    simp [xferDone, hk, ← hfifo]
  · rw [if_neg hrest]
    have hbytes : Memory.fetch s.mem s.regaddr (4 * (k / 4) + k % 4) =
        Memory.fetch s.mem s.regaddr (4 * (k / 4)) ++
          Memory.fetch s.mem (s.regaddr + 4 * (k / 4)) (k % 4) := Memory.fetch_append (k % 4)
    rw [hwhole] at hbytes
    simp [xferDone, writeFifo, hbytes, ← hfifo, ← hsize]

end

/-! ## The event queue -/

/-- The queue holds these buffers. -/
structure Waiting (s : StatusFifo) (q : List VbufId) : Prop where
  linked : Linked s.next q
  head : s.head = q.head?
  tail : s.tail = q.getLast?
  nodup : q.Nodup

/-- Nothing but the queue has changed. -/
structure SameEvents (s s' : StatusFifo) : Prop where
  mem : s'.mem = s.mem
  addr : ∀ u, (s'.vbuf u).dataAddr = (s.vbuf u).dataAddr
  len : ∀ u, (s'.vbuf u).bufLength = (s.vbuf u).bufLength
  progress : s'.bufLen = s.bufLen ∧ s'.regaddr = s.regaddr ∧ s'.evntbuf = s.evntbuf ∧
    s'.cmdIsNew = s.cmdIsNew
  bus : s'.fifoSize = s.fifoSize ∧ s'.fifo = s.fifo
  sent : s'.packets = s.packets ∧ s'.done = s.done

section

variable {s : StatusFifo} {q : List VbufId} {b : VbufId}

theorem StatusFifo.next_setNext (s : StatusFifo) (b : VbufId) (n : Option VbufId) :
    (s.setNext b n).next = Function.update s.next b n := by
  funext u
  by_cases hu : u = b
  · subst hu
    simp [next, setNext]
  · simp [next, setNext, hu]

theorem setNext_sameEvents (s : StatusFifo) (b : VbufId) (n : Option VbufId) :
    SameEvents s (s.setNext b n) := by
  refine ⟨rfl, fun u => ?_, fun u => ?_, ⟨rfl, rfl, rfl, rfl⟩, ⟨rfl, rfl⟩, rfl, rfl⟩
  all_goals
    by_cases hu : u = b
    · subst hu
      simp [StatusFifo.setNext, Vbuf.dataAddr]
    · simp [StatusFifo.setNext, hu]

theorem Waiting.send (h : Waiting s q) (hb : b ∉ q) :
    ∃ s', sendBufferViaFifo s b = some s' ∧ Waiting s' (q ++ [b]) ∧ SameEvents s s' ∧
      s'.intEnabled = true := by
  rw [sendBufferViaFifo, h.head]
  rcases List.eq_nil_or_concat q with rfl | ⟨l, tail, rfl⟩
  · refine ⟨_, rfl, ⟨Linked.singleton b, rfl, rfl, List.nodup_singleton b⟩, ?_, rfl⟩
    exact ⟨rfl, fun _ => rfl, fun _ => rfl, ⟨rfl, rfl, rfl, rfl⟩, ⟨rfl, rfl⟩, rfl, rfl⟩
  · rw [List.concat_eq_append] at *
    have htail : s.tail = some tail := by rw [h.tail, List.getLast?_concat]
    have hsame := setNext_sameEvents s tail (some b)
    cases hhead : (l ++ [tail]).head? with
    | none => simp at hhead
    | some first =>
      have hlast : tail ∉ l := fun hmem =>
        (List.nodup_append.mp h.nodup).2.2 tail hmem tail List.mem_cons_self rfl
      have hnodup : (l ++ [tail] ++ [b]).Nodup := by
        apply h.nodup.append (List.nodup_singleton b)
        exact List.disjoint_singleton.mpr hb
      rw [htail]
      refine ⟨_, rfl, ⟨?_, ?_, ?_, hnodup⟩, ?_, rfl⟩
      · change Linked (s.setNext tail (some b)).next _
        rw [StatusFifo.next_setNext]
        apply h.linked.snoc (Function.update_self ..)
        intro c hc
        apply Function.update_of_ne
        rintro rfl
        exact hlast hc
      · rw [List.head?_append, hhead]
        exact h.head.trans hhead
      · rw [List.getLast?_concat]
      · exact ⟨hsame.mem, hsame.addr, hsame.len, hsame.progress, hsame.bus, hsame.sent⟩

theorem Waiting.get (h : Waiting s (b :: q)) :
    ∃ s', usbfifoGetEventBuf s = some (b, s') ∧ Waiting s' q ∧ SameEvents s s' ∧
      s'.intEnabled = s.intEnabled := by
  have hhead : s.head = some b := h.head
  have hout := (List.nodup_cons.mp h.nodup).1
  have hkept : ∀ c ∈ q, Function.update s.next b none c = s.next c := by
    intro c hc
    apply Function.update_of_ne
    rintro rfl
    exact hout hc
  rw [usbfifoGetEventBuf, hhead, Option.map_some, h.tail]
  refine ⟨_, rfl, ?_⟩
  cases q with
  | nil =>
    rw [if_pos (by simp)]
    refine ⟨⟨Linked.nil, rfl, rfl, List.nodup_nil⟩, ?_, rfl⟩
    have hsame := setNext_sameEvents { s with head := none, tail := none } b none
    exact ⟨hsame.mem, hsame.addr, hsame.len, hsame.progress, hsame.bus, hsame.sent⟩
  | cons c q =>
    have hne : some b ≠ (b :: c :: q).getLast? := by
      intro heq
      rw [List.getLast?_cons_cons] at heq
      exact hout (List.mem_of_getLast? heq.symm)
    have hlinked := List.isChain_cons_cons.mp h.linked
    rw [if_neg hne]
    refine ⟨⟨?_, hlinked.1, ?_, (List.nodup_cons.mp h.nodup).2⟩, ?_, rfl⟩
    · rw [StatusFifo.next_setNext]
      exact Linked.congr hlinked.2 hkept
    · exact List.getLast?_cons_cons
    · have hsame := setNext_sameEvents { s with head := s.next b } b none
      exact ⟨hsame.mem, hsame.addr, hsame.len, hsame.progress, hsame.bus, hsame.sent⟩

end

/-! ## The event under way -/

abbrev QueuedEvent := VbufId × List (BitVec 8)

/-- After the packets `sent`, the rest of the event is at `regaddr`. -/
structure UnderWay (s : StatusFifo) (e : QueuedEvent) (sent : List (List (BitVec 8))) : Prop where
  begun : s.cmdIsNew = false
  evntbuf : s.evntbuf = some e.1
  segments : segment usbEp3MaxPktSize e.2 =
    sent ++ segment usbEp3MaxPktSize (Memory.fetch s.mem s.regaddr s.bufLen)
  bounds : (s.vbuf e.1).dataAddr ≤ s.regaddr ∧
    s.regaddr + s.bufLen = (s.vbuf e.1).dataAddr + (s.vbuf e.1).bufLength

/-- The events of the endpoint are those sent, the one under way and those waiting. -/
structure Sending (m : Ep3) (finished : List QueuedEvent) (current : Option QueuedEvent)
    (waiting : List QueuedEvent) (sent : List (List (BitVec 8))) : Prop where
  queued : m.queued = finished ++ (current.toList ++ waiting)
  done : m.usb.done = finished.map Prod.fst
  packets : m.usb.packets = stream usbEp3MaxPktSize (finished.map Prod.snd) ++ sent
  queue : Waiting m.usb (waiting.map Prod.fst)
  nodup : ((current.toList ++ waiting).map Prod.fst).Nodup
  underWay : ∀ e, current = some e → UnderWay m.usb e sent
  idle : current = none → m.usb.cmdIsNew = true ∧ sent = []
  events : ∀ e ∈ waiting, m.usb.event e.1 = e.2
  bus : m.usb.fifoSize = 4 ∧ m.usb.fifo = []
  interrupts : m.interrupts = m.usb.packets.length
  enabled : current.toList ++ waiting ≠ [] → m.usb.intEnabled = true

section

variable {m m' : Ep3} {finished waiting : List QueuedEvent} {current : Option QueuedEvent}
  {sent : List (List (BitVec 8))}

theorem Sending.pending (h : Sending m finished current waiting sent) :
    m.pending = current.toList ++ waiting := by
  rw [Ep3.pending, h.queued, h.done, List.length_map, List.drop_left]

theorem Sending.fresh (mem : ℕ → BitVec 8) : Sending (freshStatus mem) [] none [] [] where
  queued := rfl
  done := rfl
  packets := rfl
  queue := ⟨Linked.nil, rfl, rfl, List.nodup_nil⟩
  nodup := List.nodup_nil
  underWay := by simp
  idle := fun _ => ⟨rfl, rfl⟩
  events := by simp
  bus := ⟨rfl, rfl⟩
  interrupts := rfl
  enabled := fun h => absurd rfl h

/-- The part of an event in use that is still to be sent. -/
theorem fetch_prepare {b u : VbufId} {v : Vbuf} {data : List (BitVec 8)} {a n : ℕ}
    (hmay : MayPrepare m b v data) (hu : u ∈ m.inUse) (hlow : (m.usb.vbuf u).dataAddr ≤ a)
    (hhigh : a + n ≤ (m.usb.vbuf u).dataAddr + (m.usb.vbuf u).bufLength) :
    Memory.fetch (prepareEvent m.usb b v data).mem a n = Memory.fetch m.usb.mem a n := by
  apply Memory.fetch_store_outside
  rcases hmay.2.2 u hu with hbelow | habove
  · right
    omega
  · left
    omega

theorem prepareEvent_vbuf {b u : VbufId} {v : Vbuf} {data : List (BitVec 8)} (hu : u ≠ b) :
    (prepareEvent m.usb b v data).vbuf u = m.usb.vbuf u := Function.update_of_ne hu _ _

theorem Sending.prepare {b : VbufId} {v : Vbuf} {data : List (BitVec 8)}
    (h : Sending m finished current waiting sent) (hmay : MayPrepare m b v data) :
    Sending { m with usb := prepareEvent m.usb b v data } finished current waiting sent := by
  have huse : ∀ e ∈ current.toList ++ waiting, e.1 ∈ m.inUse := by
    intro e he
    rw [Ep3.inUse, h.pending]
    exact List.mem_map_of_mem he
  have hkept : ∀ e ∈ current.toList ++ waiting,
      (prepareEvent m.usb b v data).vbuf e.1 = m.usb.vbuf e.1 := by
    intro e he
    apply prepareEvent_vbuf
    rintro rfl
    exact hmay.1 (huse e he)
  have hwaiting : ∀ e ∈ waiting, e ∈ current.toList ++ waiting :=
    fun e he => List.mem_append_right _ he
  refine ⟨h.queued, h.done, h.packets, ⟨?_, h.queue.head, h.queue.tail, h.queue.nodup⟩,
    h.nodup, ?_, h.idle, ?_, h.bus, h.interrupts, h.enabled⟩
  · apply Linked.congr h.queue.linked
    intro u hu
    obtain ⟨e, he, rfl⟩ := List.mem_map.mp hu
    exact congrArg Vbuf.nextBuf (hkept e (hwaiting e he))
  · rintro e rfl
    have hmem : e ∈ (some e).toList ++ waiting := List.mem_cons_self
    have hway := h.underWay e rfl
    refine ⟨hway.begun, hway.evntbuf, ?_, ?_⟩
    · change _ = sent ++ segment _ (Memory.fetch _ m.usb.regaddr m.usb.bufLen)
      rw [fetch_prepare hmay (huse e hmem) hway.bounds.1 hway.bounds.2.le]
      exact hway.segments
    · change ((prepareEvent m.usb b v data).vbuf e.1).dataAddr ≤ _ ∧ _ =
        ((prepareEvent m.usb b v data).vbuf e.1).dataAddr + _
      rw [hkept e hmem]
      exact hway.bounds
  · intro e he
    have hmem := hwaiting e he
    rw [StatusFifo.event, hkept e hmem, fetch_prepare hmay (huse e hmem) le_rfl le_rfl]
    exact h.events e he

theorem SameEvents.event {s s' : StatusFifo} (h : SameEvents s s') (u : VbufId) :
    s'.event u = s.event u := by
  rw [StatusFifo.event, h.mem, h.addr, h.len, StatusFifo.event]

theorem SameEvents.underWay {s s' : StatusFifo} {e : QueuedEvent} (h : SameEvents s s')
    (hway : UnderWay s e sent) : UnderWay s' e sent := by
  obtain ⟨hlen, haddr, hbuf, hnew⟩ := h.progress
  refine ⟨hnew.trans hway.begun, hbuf.trans hway.evntbuf, ?_, ?_⟩
  · rw [h.mem, haddr, hlen]
    exact hway.segments
  · rw [h.addr, h.len, haddr, hlen]
    exact hway.bounds

theorem Sending.send {b : VbufId} (h : Sending m finished current waiting sent)
    (hb : b ∉ m.inUse) :
    ∃ s', sendBufferViaFifo m.usb b = some s' ∧
      Sending { m with usb := s', queued := m.queued ++ [(b, m.usb.event b)] } finished current
        (waiting ++ [(b, m.usb.event b)]) sent := by
  rw [Ep3.inUse, h.pending] at hb
  have hout : b ∉ waiting.map Prod.fst := by
    intro hmem
    apply hb
    rw [List.map_append]
    exact List.mem_append_right _ hmem
  obtain ⟨s', hs', hqueue, hsame, hint⟩ := h.queue.send hout
  refine ⟨s', hs', ?_⟩
  obtain ⟨-, -, -, hnew⟩ := hsame.progress
  obtain ⟨hpackets, hdone⟩ := hsame.sent
  constructor
  case queued =>
    rw [← List.append_assoc, ← List.append_assoc, List.append_assoc finished, ← h.queued]
  case done => exact hdone.trans h.done
  case packets => exact hpackets.trans h.packets
  case queue =>
    rw [List.map_append]
    exact hqueue
  case nodup =>
    rw [← List.append_assoc, List.map_append]
    apply h.nodup.append (List.nodup_singleton b)
    exact List.disjoint_singleton.mpr hb
  case underWay => exact fun e he => hsame.underWay (h.underWay e he)
  case idle => exact fun hnone => ⟨hnew.trans (h.idle hnone).1, (h.idle hnone).2⟩
  case events =>
    intro e he
    refine (hsame.event e.1).trans ?_
    rcases List.mem_append.mp he with he | he
    · exact h.events e he
    · obtain rfl := List.mem_singleton.mp he
      rfl
  case bus => exact ⟨hsame.bus.1.trans h.bus.1, hsame.bus.2.trans h.bus.2⟩
  case interrupts => exact h.interrupts.trans (congrArg List.length hpackets.symm)
  case enabled => exact fun _ => hint

/-- An interrupt that finds no event under way begins the first one waiting. -/
theorem Sending.begin {e : QueuedEvent} (h : Sending m finished none (e :: waiting) sent) :
    ∃ s', beginEvent m.usb = some s' ∧
      Sending { m with usb := s' } finished (some e) waiting [] := by
  obtain ⟨hnew, hsent⟩ := h.idle rfl
  obtain ⟨s', hs', hqueue, hsame, hint⟩ := h.queue.get
  rw [beginEvent, if_pos hnew, hs']
  refine ⟨_, rfl, ?_⟩
  obtain ⟨hpackets, hdone⟩ := hsame.sent
  constructor
  case queued => exact h.queued
  case done => exact hdone.trans h.done
  case packets =>
    rw [← hsent]
    exact hpackets.trans h.packets
  case queue => exact ⟨hqueue.linked, hqueue.head, hqueue.tail, hqueue.nodup⟩
  case nodup => exact h.nodup
  case underWay =>
    intro e' he'
    obtain rfl := Option.some.inj he'
    refine ⟨rfl, rfl, ?_, le_rfl, rfl⟩
    have hevent := hsame.event e.1
    rw [StatusFifo.event, h.events e List.mem_cons_self] at hevent
    rw [← hevent]
    rfl
  case idle =>
    intro hnone
    cases hnone
  case events =>
    intro e' he'
    exact (hsame.event e'.1).trans (h.events e' (List.mem_cons_of_mem e he'))
  case bus => exact ⟨hsame.bus.1.trans h.bus.1, hsame.bus.2.trans h.bus.2⟩
  case interrupts => exact h.interrupts.trans (congrArg List.length hpackets.symm)
  case enabled => exact fun _ => hint.trans (h.enabled (List.cons_ne_nil e waiting))

/-- A packet of the event under way, with more to come. -/
theorem Sending.more {e : QueuedEvent} (h : Sending m finished (some e) waiting sent)
    (hlong : usbEp3MaxPktSize < m.usb.bufLen) :
    Sending { m with usb := sendEvent m.usb, interrupts := m.interrupts + 1 } finished (some e)
      waiting (sent ++ [Memory.fetch m.usb.mem m.usb.regaddr usbEp3MaxPktSize]) := by
  have hway := h.underWay e rfl
  have hsplit : m.usb.bufLen = usbEp3MaxPktSize + (m.usb.bufLen - usbEp3MaxPktSize) := by omega
  have hlen : usbEp3MaxPktSize < (Memory.fetch m.usb.mem m.usb.regaddr m.usb.bufLen).length := by
    rw [Memory.length_fetch]
    exact hlong
  have hsegment := segment_of_lt (n := usbEp3MaxPktSize) (by decide) hlen
  rw [Memory.take_fetch hlong.le] at hsegment
  rw [sendEvent, if_pos hlong]
  have hpacket := sendPacket_eq { m.usb with bufLen := m.usb.bufLen - usbEp3MaxPktSize } h.bus.1
    h.bus.2 usbEp3MaxPktSize
  rw [hpacket]
  constructor
  case queued => exact h.queued
  case done => exact h.done
  case packets =>
    rw [← List.append_assoc, ← h.packets]
  case queue => exact ⟨h.queue.linked, h.queue.head, h.queue.tail, h.queue.nodup⟩
  case nodup => exact h.nodup
  case underWay =>
    intro e' he'
    obtain rfl := Option.some.inj he'
    refine ⟨hway.begun, hway.evntbuf, ?_, ?_, ?_⟩
    · rw [hway.segments, hsegment, List.append_assoc]
      congr 3
      conv_lhs => rw [hsplit, Memory.fetch_append]
      exact List.drop_left' Memory.length_fetch
    · exact hway.bounds.1.trans (Nat.le_add_right _ _)
    · rw [← hway.bounds.2]
      change m.usb.regaddr + 64 + (m.usb.bufLen - 64) = _
      change 64 < m.usb.bufLen at hlong
      omega
  case idle =>
    intro hnone
    cases hnone
  case events => exact h.events
  case bus => exact h.bus
  case interrupts =>
    rw [List.length_append, h.interrupts]
    rfl
  case enabled => exact h.enabled

/-- The last packet of the event under way. -/
theorem Sending.last {e : QueuedEvent} (h : Sending m finished (some e) waiting sent)
    (hshort : m.usb.bufLen ≤ usbEp3MaxPktSize) :
    Sending { m with usb := sendEvent m.usb, interrupts := m.interrupts + 1 } (finished ++ [e])
      none waiting [] := by
  have hway := h.underWay e rfl
  have hlen : (Memory.fetch m.usb.mem m.usb.regaddr m.usb.bufLen).length ≤ usbEp3MaxPktSize := by
    rw [Memory.length_fetch]
    exact hshort
  have hsegments := hway.segments
  rw [segment_of_le hlen] at hsegments
  rw [sendEvent, if_neg hshort.not_gt, sendPacket_eq m.usb h.bus.1 h.bus.2]
  simp only [hway.evntbuf]
  constructor
  case queued => rw [List.append_assoc]; exact h.queued
  case done => rw [List.map_append, ← h.done]; rfl
  case packets =>
    rw [List.map_append, stream_append, List.append_nil, List.map_singleton, stream_cons,
      hsegments, stream_nil, List.append_nil, ← List.append_assoc, ← h.packets]
  case queue => exact ⟨h.queue.linked, h.queue.head, h.queue.tail, h.queue.nodup⟩
  case nodup => exact (List.nodup_cons.mp h.nodup).2
  case underWay =>
    intro e' he'
    cases he'
  case idle => exact fun _ => ⟨rfl, rfl⟩
  case events => exact h.events
  case bus => exact h.bus
  case interrupts =>
    rw [List.length_append, h.interrupts]
    rfl
  case enabled => exact fun _ => h.enabled (List.cons_ne_nil e waiting)

/-- An interrupt that finds an event sends its next packet. -/
theorem Sending.statusIn (h : Sending m finished current waiting sent)
    (hany : current.toList ++ waiting ≠ []) :
    ∃ s', usbStatusInPatch m.usb = some s' ∧ ∃ finished' current' waiting' sent',
      Sending { m with usb := s', interrupts := m.interrupts + 1 } finished' current' waiting'
        sent' := by
  have hsend : ∀ (u : StatusFifo) (e : QueuedEvent) (rest : List QueuedEvent)
      (sent : List (List (BitVec 8))), beginEvent m.usb = some u →
      Sending { m with usb := u } finished (some e) rest sent →
      ∃ s', usbStatusInPatch m.usb = some s' ∧ ∃ finished' current' waiting' sent',
        Sending { m with usb := s', interrupts := m.interrupts + 1 } finished' current' waiting'
          sent' := by
    intro u e rest sent hu hsending
    rw [usbStatusInPatch, hu]
    refine ⟨_, rfl, ?_⟩
    by_cases hlong : usbEp3MaxPktSize < u.bufLen
    · exact ⟨_, _, _, _, hsending.more hlong⟩
    · exact ⟨_, _, _, _, hsending.last (Nat.le_of_not_gt hlong)⟩
  cases current with
  | some e =>
    apply hsend m.usb e waiting sent _ h
    have hbegun := (h.underWay e rfl).begun
    rw [beginEvent, if_neg (by simp [hbegun])]
  | none =>
    cases waiting with
    | nil => exact absurd rfl hany
    | cons e waiting =>
      obtain ⟨u, hu, hsending⟩ := h.begin
      exact hsend u e waiting [] hu hsending

theorem Sending.step {e : StatusEvent} (h : Sending m finished current waiting sent)
    (hok : Supplied m e) (hs : stepStatus e m = some m') :
    ∃ finished' current' waiting' sent', Sending m' finished' current' waiting' sent' := by
  cases e with
  | prepare b v data =>
    rw [stepStatus] at hs
    split at hs
    case isTrue hmay =>
      cases hs
      exact ⟨_, _, _, _, h.prepare hmay⟩
    case isFalse => cases hs
  | send b =>
    rw [stepStatus] at hs
    split at hs
    case isTrue => cases hs
    case isFalse hb =>
      obtain ⟨s', hs', hsending⟩ := h.send hb
      rw [hs'] at hs
      cases hs
      exact ⟨_, _, _, _, hsending⟩
  | statusIn =>
    have hany : current.toList ++ waiting ≠ [] := by
      intro hnone
      obtain ⟨hcur, rfl⟩ := List.append_eq_nil_iff.mp hnone
      obtain rfl := Option.toList_eq_nil_iff.mp hcur
      rcases hok with hbusy | hhead
      · rw [(h.idle rfl).1] at hbusy
        cases hbusy
      · exact hhead h.queue.head
    obtain ⟨s', hs', hsending⟩ := h.statusIn hany
    rw [stepStatus, hs'] at hs
    cases hs
    exact hsending

end

/-! ## The stream -/

/-- The packets are the beginning of the stream of the queued events; the events that are done
are those whose last packet is among them. -/
structure InOrder (m : Ep3) : Prop where
  packets : m.usb.packets <+: stream usbEp3MaxPktSize (m.queued.map Prod.snd)
  bytes : m.usb.packets.flatten <+: (m.queued.map Prod.snd).flatten
  size : ∀ p ∈ m.usb.packets, p.length ≤ usbEp3MaxPktSize
  interrupts : m.interrupts = m.usb.packets.length
  done : m.usb.done = (m.queued.take m.usb.done.length).map Prod.fst
  complete : stream usbEp3MaxPktSize ((m.queued.take m.usb.done.length).map Prod.snd) <+:
    m.usb.packets
  incomplete : m.usb.done.length < m.queued.length →
    m.usb.packets.length < (stream usbEp3MaxPktSize
      ((m.queued.take (m.usb.done.length + 1)).map Prod.snd)).length

section

variable {m : Ep3} {finished waiting : List QueuedEvent} {current : Option QueuedEvent}
  {sent : List (List (BitVec 8))}

/-- The packets sent of the event under way leave some of it to send. -/
theorem Sending.split (h : Sending m finished current waiting sent)
    (hany : current.toList ++ waiting ≠ []) :
    ∃ e rest more, current.toList ++ waiting = e :: rest ∧ more ≠ [] ∧
      segment usbEp3MaxPktSize e.2 = sent ++ more := by
  cases current with
  | some e => exact ⟨e, waiting, _, rfl, segment_ne_nil _ _, (h.underWay e rfl).segments⟩
  | none =>
    cases waiting with
    | nil => exact absurd rfl hany
    | cons e waiting =>
      refine ⟨e, waiting, segment usbEp3MaxPktSize e.2, rfl, segment_ne_nil _ e.2, ?_⟩
      rw [(h.idle rfl).2, List.nil_append]

theorem Sending.packets_prefix (h : Sending m finished current waiting sent) :
    m.usb.packets <+: stream usbEp3MaxPktSize (m.queued.map Prod.snd) := by
  rw [h.packets, h.queued, List.map_append, stream_append, List.prefix_append_right_inj]
  by_cases hany : current.toList ++ waiting = []
  · obtain ⟨hcur, -⟩ := List.append_eq_nil_iff.mp hany
    rw [(h.idle (Option.toList_eq_nil_iff.mp hcur)).2]
    exact List.nil_prefix
  · obtain ⟨e, rest, more, heq, -, hmore⟩ := h.split hany
    rw [heq, List.map_cons, stream_cons, hmore, List.append_assoc]
    exact List.prefix_append sent _

theorem Sending.inOrder (h : Sending m finished current waiting sent) : InOrder m := by
  have hlen : m.usb.done.length = finished.length := by rw [h.done, List.length_map]
  have hfinished : m.queued.take m.usb.done.length = finished := by
    rw [hlen, h.queued, List.take_left]
  constructor
  case packets => exact h.packets_prefix
  case bytes =>
    obtain ⟨rest, hrest⟩ := h.packets_prefix
    refine ⟨rest.flatten, ?_⟩
    rw [← List.flatten_append, hrest, flatten_stream]
  case size =>
    intro p hp
    apply length_le_of_mem_stream (by decide)
    exact h.packets_prefix.subset hp
  case interrupts => exact h.interrupts
  case done => rw [hfinished, h.done]
  case complete =>
    rw [hfinished, h.packets]
    exact List.prefix_append _ sent
  case incomplete =>
    intro hless
    have hany : current.toList ++ waiting ≠ [] := by
      intro hnone
      rw [h.queued, hnone, List.append_nil, hlen] at hless
      exact Nat.lt_irrefl _ hless
    obtain ⟨e, rest, more, heq, hne, hmore⟩ := h.split hany
    have hnext : m.queued.take (m.usb.done.length + 1) = finished ++ [e] := by
      rw [hlen, h.queued, heq, List.take_length_add_append, List.take_succ_cons, List.take_zero]
    have hpos : 0 < more.length := List.length_pos_iff.mpr hne
    rw [hnext, h.packets, List.map_append, stream_append, List.map_singleton, stream_cons, hmore]
    simp only [stream_nil, List.append_nil, List.length_append]
    omega

end

/-- While every interrupt finds an event, each sends the next packet of the stream; an event that
waits has its interrupt on. -/
theorem events_in_order {m : Ep3} (h : ep3.ReachableWhere Supplied m) :
    InOrder m ∧ (m.pending ≠ [] → m.usb.intEnabled = true) ∧
      (∀ b, b ∉ m.inUse → (sendBufferViaFifo m.usb b).isSome) ∧
      ((usbStatusInPatch m.usb).isSome ↔ Supplied m .statusIn) := by
  have hsending : ∃ finished current waiting sent, Sending m finished current waiting sent := by
    apply h.invariant
    · rintro _ ⟨mem, rfl⟩
      exact ⟨[], none, [], [], .fresh mem⟩
    · rintro m e m' ⟨finished, current, waiting, sent, hm⟩ hok hs
      exact hm.step hok hs
  obtain ⟨finished, current, waiting, sent, hm⟩ := hsending
  refine ⟨hm.inOrder, ?_, ?_, ?_⟩
  · rw [hm.pending]
    exact hm.enabled
  · intro b hb
    obtain ⟨s', hs', -⟩ := hm.send hb
    rw [hs']
    rfl
  · rw [usbStatusInPatch, Option.isSome_map, beginEvent, Supplied]
    cases hnew : m.usb.cmdIsNew with
    | true => simp [usbfifoGetEventBuf, Option.isSome_iff_ne_none]
    | false => simp

/-- An empty event, one of a full packet and one of 70 bytes. -/
theorem events_in_order_sizes : ∃ m : Ep3,
    m.usb.packets.map List.length = [0, 64, 64, 6] ∧ m.usb.done = [0, 1, 2] ∧ InOrder m := by
  obtain ⟨m, steps, hpackets, hdone⟩ := Machine.exists_of_runWhere
    (fun m : Ep3 => ∃ mem, m = freshStatus mem) stepStatus Supplied
    (P := fun m => m.usb.packets.map List.length = [0, 64, 64, 6] ∧ m.usb.done = [0, 1, 2])
    (s := freshStatus fun _ => 0)
    [.prepare 0 { bufAddr := 0, bufSize := 128 } [], .send 0,
      .prepare 1 { bufAddr := 128, bufSize := 128, bufLength := 64 } (List.replicate 64 1), .send 1,
      .statusIn,
      .prepare 2 { bufAddr := 256, bufSize := 128, bufLength := 70 } (List.replicate 70 2), .send 2,
      .statusIn, .statusIn, .statusIn] (by decide +kernel)
  exact ⟨m, hpackets, hdone, (events_in_order ⟨_, ⟨_, rfl⟩, steps⟩).1⟩

/-- The first interrupt finds the queue empty, and `usbfifo_get_event_buf` writes through the null
pointer. -/
theorem status_in_empty :
    ¬ ∀ m, ep3.Reachable m → ∃ usb, usbStatusInPatch m.usb = some usb := by
  intro hall
  obtain ⟨usb, husb⟩ := hall (freshStatus fun _ => 0) (.init ⟨_, rfl⟩)
  cases husb

end Ath9kHtc.Usb
