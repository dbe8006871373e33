import Ath9kHtc.Pool.Setup
import Ath9kHtc.Pool.Users
import Mathlib.Algebra.Order.BigOperators.Group.List
import Mathlib.Algebra.Order.Group.Nat

/-!
# Conservation of buffers

In every state of a run each `VBUF` is free, in the pool its storage belongs to, or in use by one
user, as long as the receive path gets back the frames that it sends.
-/

namespace Ath9kHtc.Pool

open Dma

variable {cfg : Config} {origin : BufId → PoolId} {s s' : Firmware} {w : Shelves}
  {done pending : List Flight} {b : BufId} {e : Event}

/-! ## The ends of a message -/

namespace Accounted

theorem noteData {ds len : ℕ} (h : Accounted origin s w [] done pending)
    (hs : noteRxdata ds len s = some s') :
    ∃ m, s' = { s with mem := m } ∧ Accounted origin { s with mem := m } w [] done pending := by
  rw [noteRxdata, Option.bind_eq_bind, Option.bind_eq_some_iff] at hs
  obtain ⟨b, hb, hs⟩ := hs
  split at hs
  · obtain ⟨m, hput, rfl⟩ := Option.map_eq_some_iff.mp hs
    have hrx : b ∈ s.rxBufs :=
      List.mem_filterMap.mpr ⟨ds, List.mem_range.mpr (h.filled hb), hb⟩
    have hkept : b ∈ s.kept := List.mem_append_right _ (List.mem_append_left _ hrx)
    exact ⟨m, rfl, { h with stock := h.stock.putTail hkept hput }⟩
  · obtain rfl := Option.some.inj hs
    exact ⟨s.mem, rfl, h⟩

theorem complete {o : Own} {bufs : Bufs} (h : Accounted origin s w [] done pending)
    (hs : completeUp o s.toBufs = some bufs) :
    ∃ done' pending', Accounted origin { s with toBufs := bufs } w [] done' pending' := by
  obtain ⟨f, pending', rfl, hstock⟩ := h.stock.complete hs
  refine ⟨done ++ [f], pending', hstock, h.rxNbuf, h.rxDesc, h.rxOrigin, ?_⟩
  rw [List.append_assoc done, List.singleton_append]
  exact h.sending

theorem reap {buf : Option BufId} {bufs : Bufs} (h : Accounted origin s w [] done pending)
    (hs : reapUp s.toBufs = some (buf, bufs)) : (buf = none ∧ bufs = s.toBufs) ∨
      ∃ b done', buf = some b ∧ Labelled s.cfg (s.ctx b) (origin b) ∧
        Accounted origin { s with toBufs := bufs } w [b] done' pending := by
  rcases h.stock.reap hs with hnone | ⟨f, done', rfl, hbuf, hstock⟩
  · exact .inl hnone
  · have hsending : ∀ c ∈ w.events ++ s.evntbuf.toList ++
        f.sent.buf :: flightBufs (done' ++ pending), Labelled s.cfg (s.ctx c) (origin c) := h.sending
    refine .inr ⟨f.sent.buf, done', hbuf, ?_, hstock, h.rxNbuf, h.rxDesc, h.rxOrigin, ?_⟩
    · exact hsending _ (List.mem_append_right _ List.mem_cons_self)
    · intro c hc
      apply hsending c
      rcases List.mem_append.mp hc with hevent | hfly
      · exact List.mem_append_left _ hevent
      · exact List.mem_append_right _ (List.mem_cons_of_mem _ hfly)

theorem takeEvent {bufs : Bufs} (h : Accounted origin s w [] done pending)
    (hnone : s.evntbuf = none) (hs : usbfifoGetEventBuf s.toBufs = some (b, bufs)) :
    ∃ w', w'.queue = w.queue ∧
      Accounted origin { s with toBufs := bufs, evntbuf := some b } w' [] done pending := by
  obtain ⟨l, hl, hstock⟩ := h.stock.getEvent hs
  refine ⟨w.setEvents l, rfl, ?_, h.rxNbuf, h.rxDesc, h.rxOrigin, ?_⟩
  · rw [Firmware.kept, hnone] at hstock
    exact hstock
  · intro c hc
    apply h.sending c
    rw [hl, hnone]
    simp only [Shelves.setEvents, Option.toList, List.mem_append, List.mem_cons] at hc ⊢
    tauto

theorem eventDone (h : Accounted origin s w [] done pending) (hb : s.evntbuf = some b) :
    Labelled s.cfg (s.ctx b) (origin b) ∧
      Accounted origin { s with evntbuf := none } w [b] done pending := by
  have hmem : b ∈ w.events ++ s.evntbuf.toList := by
    rw [hb]
    exact List.mem_append_right _ (List.mem_singleton_self b)
  refine ⟨h.sending b (List.mem_append_left _ hmem), ?_, h.rxNbuf, h.rxDesc, h.rxOrigin, ?_⟩
  · have hstock := h.stock
    rw [Firmware.kept, hb] at hstock
    exact hstock
  · intro c hc
    apply h.sending c
    rcases List.mem_append.mp hc with hevent | hfly
    · exact List.mem_append_left _ (List.mem_append_left _ (by simpa using hevent))
    · exact List.mem_append_right _ hfly

end Accounted

/-! ## Runs -/

/-- Between two events no handler holds a buffer. -/
def InOrder (s : Firmware) : Prop :=
  ∃ origin w done pending, w.queue = [] ∧ Accounted origin s w [] done pending

theorem attach_inOrder (hs : attach cfg = some s) : InOrder s := by
  simp only [attach, Option.bind_eq_bind, Option.bind_eq_some_iff, Option.some.injEq,
    Prod.exists] at hs
  obtain ⟨q, m, hq, s₁, h₁, s₂, h₂, s₃, h₃, s₄, h₄, rfl⟩ := hs
  obtain ⟨_, _, _, hnone⟩ := initTxQueue_building hq
  obtain ⟨_, _, _, hreplies⟩ := hnone.create (fun _ ha => ha) h₁
  obtain ⟨_, _, _, hevents⟩ := hreplies.create (fun _ ha => ha) h₂
  obtain ⟨_, _, _, hreceive⟩ := hevents.create (fun _ ha => ha) h₃
  obtain ⟨origin, w, _, hall⟩ := hreceive.create (fun _ ha => ha) h₄
  have hrx : (List.range (cfg.storage .wlanRxBuf).length).filterMap
      (fun _ => (none : Option BufId)) = [] := List.filterMap_eq_nil_iff.mpr fun _ _ => rfl
  refine ⟨origin, w, [], [], hall.queue, ?_, fun _ _ => rfl, ?_, ?_, ?_⟩
  · dsimp only [Firmware.kept, Firmware.rxBufs, Firmware.rxDescs]
    rw [hrx]
    exact hall.stock
  · intro ds hds
    simpa [Firmware.rxDescs] using hds
  · intro b hb
    dsimp only [Firmware.rxBufs, Firmware.rxDescs] at hb
    rw [hrx] at hb
    cases hb
  · intro b hb
    rw [hall.events] at hb
    cases hb

/-- What the receive path relies on: no frame waits when receiving stops, and a frame that was sent
comes back to a handler that can take it. -/
def Returns (s : Firmware) : Event → Prop
  | .flushRecv => s.frames = []
  | .reap => ∀ r ∈ reapUp s.toBufs, ∀ b ∈ r.1, Returnable s r.2.mem b
  | .eventDone => ∀ b ∈ s.evntbuf, Returnable s s.mem b
  | _ => True

instance (s : Firmware) (e : Event) : Decidable (Returns s e) := by
  unfold Returns
  split <;> infer_instance

theorem InOrder.step (h : InOrder s) (hok : Returns s e) (hs : Pool.step e s = some s') :
    InOrder s' := by
  obtain ⟨origin, w, done, pending, hw, ha⟩ := h
  cases e with
  | sendControl pipe len trailer =>
    obtain ⟨w', pending', hqueue, -, ha'⟩ := ha.sendControl hs
    exact ⟨origin, w', done, pending', hqueue.trans hw, ha'⟩
  | sendEvent eventClass pipe len trailer =>
    obtain ⟨w', pending', hqueue, -, ha'⟩ := ha.sendEvent hs
    exact ⟨origin, w', done, pending', hqueue.trans hw, ha'⟩
  | startRecv =>
    have hfirst : Accounted origin { s with scRxdescHeld := none } w [] done pending := by
      refine { ha with rxDesc := fun ds hds => ha.rxDesc ds ?_ }
      simp only [Option.toList, List.append_nil] at hds
      exact List.mem_append_left _ hds
    have hl : ∀ ds ∈ s.scRxdesc, ds < s.rxDescs := fun ds hds =>
      ha.rxDesc ds (List.mem_append_left _ (List.mem_append_left _ hds))
    obtain ⟨w', hqueue, -, ha'⟩ := hfirst.startrecv_loop hl hs
    exact ⟨origin, w', done, pending, hqueue.trans hw, ha'⟩
  | flushRecv =>
    have hframes : s.frames = [] := hok
    obtain rfl : s = s' := by
      rw [Pool.step, athFlushrecvTgt, if_pos hframes] at hs
      exact Option.some.inj hs
    exact ⟨origin, w, done, pending, hw, ha⟩
  | rxData ds len =>
    obtain ⟨m, rfl, ha'⟩ := ha.noteData hs
    exact ⟨origin, w, done, pending, hw, ha'⟩
  | rxFrame n =>
    obtain ⟨origin', w', hqueue, -, ha'⟩ := ha.rxFrame hw hs
    exact ⟨origin', w', done, pending, hqueue, ha'⟩
  | rxDrop n =>
    obtain ⟨w', hqueue, -, ha'⟩ := ha.drop_rxbufs hs
    exact ⟨origin, w', done, pending, hqueue.trans hw, ha'⟩
  | sendFrame pipe trailer =>
    obtain ⟨w', pending', hqueue, -, ha'⟩ := ha.sendFrame hs
    exact ⟨origin, w', done, pending', hqueue.trans hw, ha'⟩
  | complete o =>
    obtain ⟨bufs, hcomplete, rfl⟩ := Option.map_eq_some_iff.mp hs
    obtain ⟨done', pending', ha'⟩ := ha.complete hcomplete
    exact ⟨origin, w, done', pending', hw, ha'⟩
  | reap =>
    obtain ⟨⟨buf, bufs⟩, hreap, hs⟩ := Option.bind_eq_some_iff.mp hs
    rcases ha.reap hreap with ⟨rfl, rfl⟩ | ⟨b, done', rfl, hl, ha₁⟩
    · obtain rfl := Option.some.inj hs
      exact ⟨origin, w, done, pending, hw, ha⟩
    · have hback : Returnable s bufs.mem b := hok _ hreap b rfl
      obtain ⟨origin', w', hqueue, -, ha'⟩ := ha₁.sendDone hw hl hback hs
      exact ⟨origin', w', done', pending, hqueue, ha'⟩
  | takeEvent =>
    rw [Pool.step] at hs
    cases hev : s.evntbuf with
    | some b =>
      rw [hev] at hs
      cases hs
    | none =>
      rw [hev] at hs
      obtain ⟨⟨b, bufs⟩, hget, rfl⟩ := Option.map_eq_some_iff.mp hs
      obtain ⟨w', hqueue, ha'⟩ := ha.takeEvent hev hget
      exact ⟨origin, w', done, pending, hqueue.trans hw, ha'⟩
  | eventDone =>
    obtain ⟨b, hev, hs⟩ := Option.bind_eq_some_iff.mp hs
    obtain ⟨hl, ha₁⟩ := ha.eventDone hev
    have hback : Returnable s s.mem b := hok b hev
    obtain ⟨origin', w', hqueue, -, ha'⟩ := ha₁.sendDone hw hl hback hs
    exact ⟨origin', w', done, pending, hqueue, ha'⟩

theorem inOrder_of_reachable (h : pools.ReachableWhere Returns s) : InOrder s := by
  apply h.invariant
  · rintro s₀ ⟨cfg, hattach⟩
    exact attach_inOrder hattach
  · intro s₁ e s₂ hs₁ hok hstep
    exact hs₁.step hok hstep

/-! ## Every buffer has one place -/

/-- The buffers that are on the way to the host or kept by one of the users. -/
def Firmware.inUse (s : Firmware) (events sent : List BufId) : List BufId := events ++ sent ++ s.kept

/-- The lists that start at the heads of the free list, of the pools, of the queue of events and of
the transmit queue hold each `VBUF` once, with what is kept; those with storage have it from their
pool and share no descriptor. -/
structure Located (s : Firmware) (free : List BufId) (pool : PoolId → List BufId)
    (events sent : List BufId) : Prop where
  freeChain : Chain s.mem.nextBuf s.mem.freeBufHead free
  poolChain : ∀ p, Chain s.mem.nextBuf (s.bufQ p) (pool p)
  eventChain : Chain s.mem.nextBuf s.eventHead events
  xmited : Xmited s.mem s.upQ sent
  once : (free ++ poolIds.flatMap pool ++ s.inUse events sent).Perm (List.range s.cfg.nBuf)
  alloc : ∀ p reserve b bufs, bufPoolStaticAllocBuf p reserve s.toBufs = some (some b, bufs) →
    b ∉ s.inUse events sent
  stored : ∀ p, ∀ b ∈ pool p, Stored s.cfg s.mem p b
  holds : ∀ b ∈ poolIds.flatMap pool ++ s.inUse events sent, Holds s.mem b
  apart : ((poolIds.flatMap pool ++ s.inUse events sent).flatMap (vbufDescs s.mem)).Nodup

def Conserved (s : Firmware) : Prop :=
  ∃ free pool events sent, Located s free pool events sent

theorem bufPoolStaticAllocBuf_head {p : PoolId} {reserve : ℕ} {s bufs : Bufs}
    (h : bufPoolStaticAllocBuf p reserve s = some (some b, bufs)) : s.bufQ p = some b := by
  rw [bufPoolStaticAllocBuf] at h
  cases hq : s.bufQ p with
  | none =>
    rw [hq] at h
    cases h
  | some c =>
    rw [hq] at h
    obtain ⟨d, -, heq⟩ := Option.map_eq_some_iff.mp h
    exact (Prod.mk.inj heq).1

theorem Accounted.located (h : Accounted origin s w [] done pending) (hw : w.queue = []) :
    Located s w.free w.pool w.events (flightBufs (done ++ pending)) := by
  have hstock := h.stock
  rw [List.nil_append] at hstock
  have hchain : ∀ l ∈ w.lists, Chain s.mem.nextBuf l.head? l := fun l hl =>
    hstock.links.chain l (List.mem_append_left _ hl)
  have hpool : ∀ p, w.pool p ∈ w.lists := fun p =>
    (Shelves.lists_perm p).mem_iff.mpr List.mem_cons_self
  have hevents : w.events ∈ w.lists := Shelves.lists_events.mem_iff.mpr List.mem_cons_self
  have hplaces : (w.pooled ++ s.inUse w.events (flightBufs (done ++ pending))).Perm
      (s.kept ++ w.held ++ flightBufs (done ++ pending)) := by
    apply List.perm_iff_count.mpr
    intro x
    simp only [Firmware.inUse, Shelves.held, hw, List.nil_append, List.count_append]
    omega
  obtain ⟨hdescs, hholds⟩ := hstock.owned.apart
  refine ⟨?_, ?_, ?_, ?_, ?_, ?_, ?_, ?_, ?_⟩
  · rw [hstock.freeHead]
    exact hchain w.free List.mem_cons_self
  · intro p
    rw [hstock.poolHead]
    exact hchain (w.pool p) (hpool p)
  · rw [hstock.eventHead]
    exact hchain w.events hevents
  · obtain ⟨places, pairs, hcarries⟩ := hstock.owned.carries
    exact hcarries.xmited
  · have honce := hstock.once
    rw [List.append_assoc] at honce ⊢
    exact (hplaces.append_left w.free).trans honce
  · intro p reserve b bufs halloc hin
    have hb : b ∈ w.pooled := by
      have hhead := (hstock.poolHead p).symm.trans (bufPoolStaticAllocBuf_head halloc)
      exact Shelves.mem_pooled (List.mem_of_head? hhead)
    have hnodup := (hplaces.nodup_iff.mpr hstock.owned.bufs)
    exact (List.nodup_append.mp hnodup).2.2 b hb b hin rfl
  · intro p b hb
    have hstored := hstock.owned.stored b (List.mem_append_right _ (Shelves.mem_held hb))
    rwa [hstock.sorted p b hb] at hstored
  · exact fun b hb => hholds b (hplaces.mem_iff.mp hb)
  · exact (hplaces.flatMap_right _).nodup_iff.mpr hdescs

/-- In every run whose steps all meet `Returns` no buffer is lost, found in two places, or in the
pool of another storage. -/
theorem pools_conserved (h : pools.ReachableWhere Returns s) : Conserved s := by
  obtain ⟨origin, w, done, pending, hw, ha⟩ := inOrder_of_reachable h
  exact ⟨w.free, w.pool, w.events, flightBufs (done ++ pending), ha.located hw⟩

/-! ## Runs from the pools as they are set up -/

/-- The smallest pools that the receive path works with. -/
def smallConfig : Config where
  nBuf := 8
  nDesc := 8
  storage
    | .htcControl => [100]
    | .wmiSvcCmdReply => [200]
    | .wmiSvcEvent => [300]
    | .wlanRxBuf => [400, 401, 402]
  controlEp := 1
  nBuf_pos := by decide
  nDesc_pos := by decide
  distinct := by decide
  controlEp_ne := by decide

theorem exists_of_attach (cfg : Config) (ok : Firmware → Event → Prop)
    [∀ s e, Decidable (ok s e)] {P : Firmware → Prop} [DecidablePred P] (es : List Event)
    (h : (attach cfg).any (fun s => (Machine.runWhere Pool.step ok es s).any
      (fun s => decide (P s))) = true) : ∃ s, pools.ReachableWhere ok s ∧ P s := by
  obtain ⟨s₀, hattach, hrun⟩ := (Option.any_eq_true _ _).mp h
  obtain ⟨s, steps, hP⟩ := Machine.exists_of_runWhere pools.Init Pool.step ok es hrun
  exact ⟨s, ⟨s₀, ⟨cfg, hattach⟩, steps⟩, hP⟩

/-- A frame is sent after another one has used the last buffer of the pool. -/
theorem pools_conserved_run : ∃ s, (s.frames = [3] ∧ s.scRxdescIdle = []) ∧ Conserved s := by
  obtain ⟨s, hreach, hend⟩ := exists_of_attach smallConfig Returns
    (P := fun s => s.frames = [3] ∧ s.scRxdescIdle = [])
    [.startRecv, .sendEvent .cmdReply .interrupt 4 0, .rxFrame 1, .rxFrame 1, .takeEvent,
      .sendFrame .dma 0, .complete .sw, .reap, .eventDone] (by decide +kernel)
  exact ⟨s, hend, pools_conserved hreach⟩

/-- The buffers that a walk along the links finds while nothing is sent. -/
def Firmware.found (s : Firmware) : List BufId :=
  walk s.mem.nextBuf s.cfg.nBuf s.mem.freeBufHead ++
    poolIds.flatMap (fun p => walk s.mem.nextBuf s.cfg.nBuf (s.bufQ p)) ++
    (walk s.mem.nextBuf s.cfg.nBuf s.eventHead ++ s.kept)

theorem Conserved.length_found (h : Conserved s) (hidle : s.upQ.xmitedBufHead = none) :
    s.found.length = s.cfg.nBuf := by
  obtain ⟨free, pool, events, sent, hl⟩ := h
  obtain rfl : sent = [] := List.head?_eq_none_iff.mp (hl.xmited.head.symm.trans hidle)
  have htotal : free.length + ((poolIds.map fun p => (pool p).length).sum +
      (events.length + s.kept.length)) = s.cfg.nBuf := by
    have hlen := hl.once.length_eq
    simpa [Firmware.inUse, List.length_flatMap] using hlen
  have hpool : ∀ p ∈ poolIds, walk s.mem.nextBuf s.cfg.nBuf (s.bufQ p) = pool p := by
    intro p hp
    have hle : (pool p).length ≤ (poolIds.map fun p => (pool p).length).sum :=
      List.le_sum_of_mem (List.mem_map_of_mem hp)
    exact (hl.poolChain p).walk_eq (by omega)
  rw [Firmware.found, hl.freeChain.walk_eq (by omega), hl.eventChain.walk_eq (by omega),
    List.flatMap_congr hpool]
  simpa [List.length_flatMap] using htotal

/-- The buffer of the first frame is lost: no descriptor is idle when it comes back. -/
theorem first_frame_leaks : ¬ ∀ s, pools.Reachable s → Conserved s := by
  intro hall
  obtain ⟨s, hreach, hidle, hlost⟩ := exists_of_attach smallConfig (fun _ _ => True)
    (P := fun s => s.upQ.xmitedBufHead = none ∧ s.found.length ≠ s.cfg.nBuf)
    [.startRecv, .rxFrame 1, .sendFrame .dma 0, .complete .sw, .reap] (by decide +kernel)
  exact hlost ((hall s hreach).length_found hidle)

end Ath9kHtc.Pool
