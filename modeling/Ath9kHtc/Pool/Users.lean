import Ath9kHtc.Pool.Stock

/-!
# The users of the pools

What the handlers of HTC, WMI and the receive path do with the buffers they are given: each one is
sent, kept, or freed to the pool it came from.
-/

namespace Ath9kHtc.Pool

open Dma

variable {origin : BufId → PoolId} {s s' : Firmware} {w : Shelves} {hand : List BufId}
  {done pending : List Flight} {b c : BufId} {p : PoolId} {ds : ℕ} {pipe : Pipe}

/-! ## Whose buffer it is -/

/-- The number of receive descriptors. -/
def Firmware.rxDescs (s : Firmware) : ℕ := (s.cfg.storage .wlanRxBuf).length

/-- The buffers of the receive descriptors. -/
def Firmware.rxBufs (s : Firmware) : List BufId := (List.range s.rxDescs).filterMap s.dsNbuf

/-- The buffers that are in use without being on the way to the host. -/
def Firmware.kept (s : Firmware) : List BufId := s.evntbuf.toList ++ (s.rxBufs ++ s.frames)

/-- The context of a buffer tells the pool its storage belongs to. -/
def Labelled (cfg : Config) (ctx : BufContext) (p : PoolId) : Prop :=
  (ctx.endPoint = endpoint0 ∧ p = .htcControl) ∨
  (ctx.endPoint = cfg.controlEp ∧ p = ctx.eventClass.poolId) ∨
  (ctx.endPoint = rxEndpointId ∧ p = .wlanRxBuf)

/-- A frame with storage of the receive pool. -/
def Received (s : Firmware) (m : Memory) (b : BufId) : Prop :=
  ∃ d ∈ vbufDescs m b, (m.vd d).bufAddr ∈ s.cfg.storage .wlanRxBuf

instance {s : Firmware} {m : Memory} : Decidable (Received s m b) :=
  inferInstanceAs (Decidable (∃ d ∈ vbufDescs m b, (m.vd d).bufAddr ∈ s.cfg.storage .wlanRxBuf))

/-- The handler of the receive path is called for a frame that was sent, and finds an idle
descriptor for each fragment. -/
def Returnable (s : Firmware) (m : Memory) (b : BufId) : Prop :=
  Received s m b → s.cfg.controlEp ≠ rxEndpointId ∧
    (vbufDescs m b).length ≤ s.scRxdescIdle.length

instance {s : Firmware} {m : Memory} : Decidable (Returnable s m b) :=
  inferInstanceAs (Decidable (Received s m b → s.cfg.controlEp ≠ rxEndpointId ∧
    (vbufDescs m b).length ≤ s.scRxdescIdle.length))

/-- Every buffer has its place, those in `hand` with the handler at work, and will be freed to the
pool it came from. -/
structure Accounted (origin : BufId → PoolId) (s : Firmware) (w : Shelves) (hand : List BufId)
    (done pending : List Flight) : Prop where
  stock : Stock s.cfg origin s.toBufs w (hand ++ s.kept) done pending
  rxNbuf : ∀ ds, s.rxDescs ≤ ds → s.dsNbuf ds = none
  rxDesc : ∀ ds ∈ s.scRxdesc ++ s.scRxdescIdle ++ s.scRxdescHeld.toList, ds < s.rxDescs
  rxOrigin : ∀ b ∈ s.rxBufs ++ s.frames, origin b = .wlanRxBuf
  sending : ∀ b ∈ w.events ++ s.evntbuf.toList ++ flightBufs (done ++ pending),
    Labelled s.cfg (s.ctx b) (origin b)

/-! ## The buffers of the receive descriptors -/

section

variable {n : ℕ} {f : ℕ → Option BufId}

theorem filterMap_fill (hds : ds < n) (hnone : f ds = none) :
    ((List.range n).filterMap (Function.update f ds (some b))).Perm
      (b :: (List.range n).filterMap f) := by
  have hsplit : (List.range n).Perm (ds :: (List.range n).erase ds) :=
    List.perm_cons_erase (List.mem_range.mpr hds)
  have hrest : ((List.range n).erase ds).filterMap (Function.update f ds (some b)) =
      ((List.range n).erase ds).filterMap f := by
    apply List.filterMap_congr
    intro x hx
    apply Function.update_of_ne
    rintro rfl
    exact List.Nodup.not_mem_erase List.nodup_range hx
  have hnew := hsplit.filterMap (Function.update f ds (some b))
  have hold := hsplit.filterMap f
  rw [List.filterMap_cons_some (Function.update_self ..), hrest] at hnew
  rw [List.filterMap_cons_none hnone] at hold
  exact hnew.trans (hold.symm.cons b)

theorem filterMap_clear (hds : ds < n) (hb : f ds = some b) :
    ((List.range n).filterMap f).Perm
      (b :: (List.range n).filterMap (Function.update f ds none)) := by
  have hfill := filterMap_fill (f := Function.update f ds none) (b := b) hds (Function.update_self ..)
  have hsame : Function.update (Function.update f ds none) ds (some b) = f := by
    rw [Function.update_idem, ← hb, Function.update_eq_self]
  rwa [hsame] at hfill

end

namespace Accounted

theorem filled (h : Accounted origin s w hand done pending) (hb : s.dsNbuf ds = some b) :
    ds < s.rxDescs := by
  by_contra hds
  rw [h.rxNbuf ds (Nat.le_of_not_lt hds)] at hb
  cases hb

/-- A buffer is taken off its descriptor. -/
theorem takeNbuf (h : Accounted origin s w hand done pending) (hb : s.dsNbuf ds = some b) :
    Accounted origin { s with dsNbuf := Function.update s.dsNbuf ds none } w (b :: hand) done pending ∧
      origin b = .wlanRxBuf := by
  have hclear := filterMap_clear (h.filled hb) hb
  have hmem : b ∈ s.rxBufs := hclear.mem_iff.mpr List.mem_cons_self
  refine ⟨⟨?_, ?_, h.rxDesc, ?_, h.sending⟩, h.rxOrigin b (List.mem_append_left _ hmem)⟩
  · apply h.stock.perm
    have hkept : s.kept.Perm (b :: (s.evntbuf.toList ++
        ((List.range s.rxDescs).filterMap (Function.update s.dsNbuf ds none) ++ s.frames))) :=
      ((hclear.append_right s.frames).append_left s.evntbuf.toList).trans List.perm_middle
    exact ((hkept.append_left hand).trans List.perm_middle).symm
  · intro x hx
    by_cases hxds : x = ds
    · rw [hxds]
      exact Function.update_self ..
    · exact (Function.update_of_ne hxds ..).trans (h.rxNbuf x hx)
  · intro c hc
    apply h.rxOrigin c
    rcases List.mem_append.mp hc with hrx | hframe
    · exact List.mem_append_left _ (hclear.mem_iff.mpr (List.mem_cons_of_mem _ hrx))
    · exact List.mem_append_right _ hframe

/-- A descriptor gets a buffer. -/
theorem giveNbuf (h : Accounted origin s w (b :: hand) done pending) (hds : ds < s.rxDescs)
    (hnone : s.dsNbuf ds = none) (hb : origin b = .wlanRxBuf) :
    Accounted origin { s with dsNbuf := Function.update s.dsNbuf ds (some b) } w hand done pending := by
  have hfill := filterMap_fill (b := b) hds hnone
  refine ⟨?_, ?_, h.rxDesc, ?_, h.sending⟩
  · apply h.stock.perm
    have hkept : (s.evntbuf.toList ++ ((List.range s.rxDescs).filterMap
        (Function.update s.dsNbuf ds (some b)) ++ s.frames)).Perm (b :: s.kept) :=
      ((hfill.append_right s.frames).append_left s.evntbuf.toList).trans List.perm_middle
    exact (hkept.append_left hand).trans List.perm_middle
  · intro x hx
    have hxds : x ≠ ds := by
      rintro rfl
      exact absurd hds (Nat.not_lt.mpr hx)
    exact (Function.update_of_ne hxds ..).trans (h.rxNbuf x hx)
  · intro c hc
    rcases List.mem_append.mp hc with hrx | hframe
    · rcases List.mem_cons.mp (hfill.mem_iff.mp hrx) with rfl | hold
      · exact hb
      · exact h.rxOrigin c (List.mem_append_left _ hold)
    · exact h.rxOrigin c (List.mem_append_right _ hframe)

/-! ## Pools and data -/

section

variable {bufs : Bufs} {reserve len : ℕ} {m : Memory}

theorem alloc {buf : Option BufId} (h : Accounted origin s w hand done pending)
    (halloc : bufPoolStaticAllocBuf p reserve s.toBufs = some (buf, bufs)) :
    (buf = none ∧ bufs = s.toBufs) ∨ ∃ b w', buf = some b ∧ w'.queue = w.queue ∧ origin b = p ∧
      Accounted origin { s with toBufs := bufs } w' (b :: hand) done pending := by
  rcases h.stock.alloc halloc with hnone | ⟨b, w', hbuf, hqueue, hevents, hb, hstock⟩
  · exact .inl hnone
  · refine .inr ⟨b, w', hbuf, hqueue, hb, hstock, h.rxNbuf, h.rxDesc, h.rxOrigin, ?_⟩
    rw [hevents]
    exact h.sending

theorem free (h : Accounted origin s w (b :: hand) done pending) (hb : origin b = p)
    (hfree : bufPoolStaticFreeBuf p (some b) s.toBufs = some bufs) : ∃ w', w'.queue = w.queue ∧
      Accounted origin { s with toBufs := bufs } w' hand done pending := by
  have hstock := h.stock.free hb hfree
  exact ⟨w.setPool p (b :: w.pool p), rfl, hstock, h.rxNbuf, h.rxDesc, h.rxOrigin, h.sending⟩

theorem pushHead (h : Accounted origin s w (b :: hand) done pending)
    (hpush : adfNbufPushHead b len s.mem = some m) :
    Accounted origin { s with mem := m } w (b :: hand) done pending :=
  { h with stock := h.stock.pushHead List.mem_cons_self hpush }

theorem pullHead (h : Accounted origin s w (b :: hand) done pending)
    (hpull : adfNbufPullHead b len s.mem = some m) :
    Accounted origin { s with mem := m } w (b :: hand) done pending :=
  { h with stock := h.stock.pullHead List.mem_cons_self hpull }

theorem putTail (h : Accounted origin s w (b :: hand) done pending)
    (hput : adfNbufPutTail b len s.mem = some m) :
    Accounted origin { s with mem := m } w (b :: hand) done pending :=
  { h with stock := h.stock.putTail List.mem_cons_self hput }

end

/-! ## To the host -/

/-- A buffer in hand is none of those on the way. -/
theorem hand_apart (h : Accounted origin s w (b :: hand) done pending)
    (hc : c ∈ w.events ++ s.evntbuf.toList ++ flightBufs (done ++ pending)) : c ≠ b := by
  rintro rfl
  have hd := h.stock.owned.bufs
  rw [List.cons_append, List.cons_append, List.cons_append] at hd
  apply (List.nodup_cons.mp hd).1
  simp only [Firmware.kept, Shelves.held, List.mem_append] at hc ⊢
  tauto

/-- The message in a buffer is sent on an endpoint. -/
theorem sendMsg {endpointId : EndpointId} {trailer : ℕ}
    (h : Accounted origin s w (b :: hand) done pending)
    (hl : Labelled s.cfg { s.ctx b with endPoint := endpointId } (origin b))
    (hs : htcSendMsg endpointId pipe trailer b s = some s') :
    ∃ w' pending', w'.queue = w.queue ∧ s'.cfg = s.cfg ∧ Accounted origin s' w' hand done pending' := by
  rw [htcSendMsg, Option.bind_eq_bind, Option.bind_eq_some_iff] at hs
  obtain ⟨m₁, hpush, hs⟩ := hs
  have h₁ := h.pushHead hpush
  obtain ⟨m₂, bufs, h₂, hsend, rfl⟩ : ∃ m₂ bufs,
      Accounted origin { s with mem := m₂ } w (b :: hand) done pending ∧
      hifUsbSendBuffer pipe b { s.toBufs with mem := m₂ } = some bufs ∧
      s' = { s with
        toBufs := bufs
        ctx := Function.update s.ctx b { s.ctx b with endPoint := endpointId } } := by
    split at hs
    · simp only [Option.bind_some, Option.bind_eq_bind, Option.bind_eq_some_iff, Option.some.injEq] at hs
      obtain ⟨bufs, hsend, rfl⟩ := hs
      exact ⟨m₁, bufs, h₁, hsend, rfl⟩
    · simp only [Option.bind_eq_bind, Option.bind_eq_some_iff, Option.some.injEq] at hs
      obtain ⟨m₂, hput, bufs, hsend, rfl⟩ := hs
      exact ⟨m₂, bufs, h₁.putTail hput, hsend, rfl⟩
  have hlabel : ∀ c ∈ b :: (w.events ++ s.evntbuf.toList ++ flightBufs (done ++ pending)),
      Labelled s.cfg (Function.update s.ctx b { s.ctx b with endPoint := endpointId } c)
        (origin c) := by
    intro c hc
    rcases List.mem_cons.mp hc with rfl | hold
    · rwa [Function.update_self]
    · rw [Function.update_of_ne (h.hand_apart hold)]
      exact h.sending c hold
  cases pipe with
  | interrupt =>
    have hstock := h₂.stock.sendEvent hsend
    refine ⟨w.setEvents (w.events ++ [b]), pending, rfl, rfl, hstock, h.rxNbuf, h.rxDesc, h.rxOrigin, fun c hc => ?_⟩
    apply hlabel c
    simp only [Shelves.setEvents, List.mem_append, List.mem_cons, List.not_mem_nil] at hc ⊢
    tauto
  | dma =>
    obtain ⟨f, hf, hstock⟩ := h₂.stock.xmit hsend
    refine ⟨w, pending ++ [f], rfl, rfl, hstock, h.rxNbuf, h.rxDesc, h.rxOrigin, fun c hc => ?_⟩
    apply hlabel c
    simp only [flightBufs, List.map_append, List.map_cons, List.map_nil, hf, List.mem_append,
      List.mem_cons, List.not_mem_nil] at hc ⊢
    tauto

theorem sendControl {len trailer : ℕ} (h : Accounted origin s w [] done pending)
    (hs : htcSendControl pipe len trailer s = some s') :
    ∃ w' pending', w'.queue = w.queue ∧ s'.cfg = s.cfg ∧ Accounted origin s' w' [] done pending' := by
  simp only [htcSendControl, Option.bind_eq_bind, Option.bind_eq_some_iff] at hs
  obtain ⟨⟨buf, bufs⟩, halloc, hs⟩ := hs
  rcases h.alloc halloc with ⟨rfl, rfl⟩ | ⟨b, w', rfl, hqueue, hb, h₁⟩
  · obtain rfl := Option.some.inj hs
    exact ⟨w, pending, rfl, rfl, h⟩
  · obtain ⟨m, hput, hs⟩ := Option.bind_eq_some_iff.mp hs
    have h₂ := h₁.putTail hput
    obtain ⟨w'', pending', hqueue', hcfg, h₃⟩ := h₂.sendMsg (.inl ⟨rfl, hb⟩) hs
    exact ⟨w'', pending', hqueue'.trans hqueue, hcfg, h₃⟩

theorem sendEvent {eventClass : EvtClass} {len trailer : ℕ}
    (h : Accounted origin s w [] done pending)
    (hs : wmiSendEvent eventClass pipe len trailer s = some s') :
    ∃ w' pending', w'.queue = w.queue ∧ s'.cfg = s.cfg ∧ Accounted origin s' w' [] done pending' := by
  simp only [wmiSendEvent, Option.bind_eq_bind, Option.bind_eq_some_iff] at hs
  obtain ⟨⟨buf, bufs⟩, halloc, hs⟩ := hs
  rcases h.alloc halloc with ⟨rfl, rfl⟩ | ⟨b, w', rfl, hqueue, hb, h₁⟩
  · obtain rfl := Option.some.inj hs
    exact ⟨w, pending, rfl, rfl, h⟩
  · simp only [Option.bind_eq_some_iff] at hs
    obtain ⟨m₁, hput, m₂, hpush, hs⟩ := hs
    have h₂ := (h₁.putTail hput).pushHead hpush
    set ctx := Function.update s.ctx b { s.ctx b with eventClass := eventClass } with hctx
    have h₃ : Accounted origin { s with toBufs := { bufs with mem := m₂ }, ctx := ctx } w' [b] done
        pending := by
      refine { h₂ with sending := fun c hc => ?_ }
      have hlabel : Labelled s.cfg (ctx c) (origin c) := by
        rw [hctx, Function.update_of_ne (h₂.hand_apart hc)]
        exact h₂.sending c hc
      exact hlabel
    have hl : Labelled s.cfg { ctx b with endPoint := s.cfg.controlEp } (origin b) := by
      refine .inr (.inl ⟨rfl, ?_⟩)
      rw [hctx, Function.update_self, hb]
    obtain ⟨w'', pending', hqueue', hcfg, h₄⟩ := h₃.sendMsg hl hs
    exact ⟨w'', pending', hqueue'.trans hqueue, hcfg, h₄⟩

/-! ## The receive descriptors -/

/-- A descriptor becomes the held one, and the one held before gets a buffer where there is one. -/
theorem rxdescInit {ok : Bool} (h : Accounted origin s w hand done pending) (hds : ds < s.rxDescs)
    (hs : athRxdescInit ds s = some (ok, s')) :
    ∃ w', w'.queue = w.queue ∧ s'.cfg = s.cfg ∧ Accounted origin s' w' hand done pending := by
  have hheld : ∀ x ∈ s.scRxdesc ++ s.scRxdescIdle ++ (some ds).toList, x < s.rxDescs := by
    intro x hx
    rcases List.mem_append.mp hx with hold | hnew
    · exact h.rxDesc x (List.mem_append_left _ hold)
    · rwa [List.mem_singleton.mp hnew]
  rw [athRxdescInit] at hs
  cases hh : s.scRxdescHeld with
  | none =>
    rw [hh] at hs
    obtain ⟨-, rfl⟩ := Prod.mk.inj (Option.some.inj hs)
    exact ⟨w, rfl, rfl, { h with rxDesc := hheld }⟩
  | some held =>
    rw [hh] at hs
    dsimp only at hs
    cases hn : s.dsNbuf held with
    | some b =>
      rw [hn] at hs
      obtain ⟨-, rfl⟩ := Prod.mk.inj (Option.some.inj hs)
      exact ⟨w, rfl, rfl, { h with rxDesc := hheld }⟩
    | none =>
      rw [hn] at hs
      simp only [Option.bind_eq_bind, Option.bind_eq_some_iff] at hs
      obtain ⟨⟨buf, bufs⟩, halloc, hs⟩ := hs
      rcases h.alloc halloc with ⟨rfl, rfl⟩ | ⟨b, w', rfl, hqueue, hb, h₁⟩
      · obtain ⟨-, rfl⟩ := Prod.mk.inj (Option.some.inj hs)
        exact ⟨w, rfl, rfl, h⟩
      · obtain ⟨-, rfl⟩ := Prod.mk.inj (Option.some.inj hs)
        have hlt : held < s.rxDescs := by
          apply h.rxDesc
          rw [hh]
          exact List.mem_append_right _ (List.mem_singleton_self _)
        exact ⟨w', hqueue, rfl, { h₁.giveNbuf hlt hn hb with rxDesc := hheld }⟩

theorem startrecv_loop {l : List ℕ} (h : Accounted origin s w [] done pending)
    (hl : ∀ ds ∈ l, ds < s.rxDescs) (hs : startrecvLoop l s = some s') :
    ∃ w', w'.queue = w.queue ∧ s'.cfg = s.cfg ∧ Accounted origin s' w' [] done pending := by
  induction l generalizing s w with
  | nil =>
    obtain rfl := Option.some.inj hs
    exact ⟨w, rfl, rfl, h⟩
  | cons ds l ih =>
    rw [startrecvLoop, Option.bind_eq_bind, Option.bind_eq_some_iff] at hs
    obtain ⟨⟨ok, s₁⟩, hinit, hs⟩ := hs
    obtain ⟨w₁, hqueue, hcfg, h₁⟩ := h.rxdescInit (hl ds List.mem_cons_self) hinit
    cases ok with
    | false =>
      obtain rfl := Option.some.inj hs
      exact ⟨w₁, hqueue, hcfg, h₁⟩
    | true =>
      have hn : s₁.rxDescs = s.rxDescs := by rw [Firmware.rxDescs, hcfg, Firmware.rxDescs]
      obtain ⟨w', hqueue', hcfg', h'⟩ :=
        ih h₁ (fun x hx => hn ▸ hl x (List.mem_cons_of_mem _ hx)) hs
      exact ⟨w', hqueue'.trans hqueue, hcfg'.trans hcfg, h'⟩

theorem recycle (h : Accounted origin s w hand done pending) (hds : ds < s.rxDescs)
    (hs : recycleRxdesc ds s = some s') :
    ∃ w', w'.queue = w.queue ∧ s'.cfg = s.cfg ∧ Accounted origin s' w' hand done pending := by
  rw [recycleRxdesc, Option.bind_eq_bind, Option.bind_eq_some_iff] at hs
  obtain ⟨⟨ok, s₁⟩, hinit, hs⟩ := hs
  obtain ⟨w', hqueue, hcfg, h₁⟩ := h.rxdescInit hds hinit
  have hn : s₁.rxDescs = s.rxDescs := by rw [Firmware.rxDescs, hcfg, Firmware.rxDescs]
  have hmoved : ∀ x, x ∈ s₁.scRxdesc.erase ds ∨ x = ds ∨ x ∈ s₁.scRxdescIdle ∨
      x ∈ s₁.scRxdescHeld.toList → x < s₁.rxDescs := by
    rintro x (hx | rfl | hx | hx)
    · apply h₁.rxDesc
      simp [List.mem_of_mem_erase hx]
    · rwa [hn]
    · apply h₁.rxDesc
      simp [hx]
    · apply h₁.rxDesc
      exact List.mem_append_right _ hx
  cases ok with
  | true =>
    obtain rfl := Option.some.inj hs
    refine ⟨w', hqueue, hcfg, { h₁ with rxDesc := fun x hx => hmoved x ?_ }⟩
    simp only [List.mem_append, List.mem_singleton] at hx
    tauto
  | false =>
    obtain rfl := Option.some.inj hs
    refine ⟨w', hqueue, hcfg, { h₁ with rxDesc := fun x hx => hmoved x ?_ }⟩
    simp only [List.mem_append, List.mem_singleton] at hx
    tauto

/-! ## Frames -/

/-- The buffers of the first descriptors go into a queue. -/
theorem queue_rxbufs {n : ℕ} {q q' : NbufQueue} (h : Accounted origin s w hand done pending)
    (hq : Queues q w.queue) (ho : ∀ c ∈ w.queue, origin c = .wlanRxBuf)
    (hs : queueRxbufs n q s = some (q', s')) :
    ∃ w', Queues q' w'.queue ∧ (∀ c ∈ w'.queue, origin c = .wlanRxBuf) ∧ s'.cfg = s.cfg ∧
      Accounted origin s' w' hand done pending := by
  induction n generalizing s w q with
  | zero =>
    obtain ⟨rfl, rfl⟩ := Prod.mk.inj (Option.some.inj hs)
    exact ⟨w, hq, ho, rfl, h⟩
  | succ n ih =>
    rw [queueRxbufs] at hs
    split at hs
    · rename_i ds ds' rest hdesc
      simp only [Option.bind_eq_bind, Option.bind_eq_some_iff, Prod.exists] at hs
      obtain ⟨b, hb, q₁, m₁, hadd, s₂, hrecycle, hs⟩ := hs
      obtain ⟨h₁, horigin⟩ := h.takeNbuf hb
      obtain ⟨hq₁, hstock⟩ := h₁.stock.queueAdd hq hadd
      have h₂ : Accounted origin { s with
          mem := m₁
          dsNbuf := Function.update s.dsNbuf ds none } (w.setQueue (w.queue ++ [b])) hand done
          pending := { h₁ with stock := hstock }
      obtain ⟨w₃, hqueue, hcfg, h₃⟩ := h₂.recycle (h.filled hb) hrecycle
      have hqueue₃ : w₃.queue = w.queue ++ [b] := hqueue
      have ho₃ : ∀ c ∈ w₃.queue, origin c = .wlanRxBuf := by
        intro c hc
        rw [hqueue₃] at hc
        rcases List.mem_append.mp hc with hold | hnew
        · exact ho c hold
        · rw [List.mem_singleton.mp hnew]
          exact horigin
      obtain ⟨w', hq', ho', hcfg', h'⟩ := ih h₃ (hqueue₃ ▸ hq₁) ho₃ hs
      exact ⟨w', hq', ho', hcfg'.trans hcfg, h'⟩
    · cases hs

theorem drop_rxbufs {n : ℕ} (h : Accounted origin s w [] done pending)
    (hs : dropRxbufs n s = some s') :
    ∃ w', w'.queue = w.queue ∧ s'.cfg = s.cfg ∧ Accounted origin s' w' [] done pending := by
  induction n generalizing s w with
  | zero =>
    obtain rfl := Option.some.inj hs
    exact ⟨w, rfl, rfl, h⟩
  | succ n ih =>
    rw [dropRxbufs] at hs
    split at hs
    · rename_i ds ds' rest hdesc
      simp only [Option.bind_eq_bind, Option.bind_eq_some_iff] at hs
      obtain ⟨bufs, hfree, s₂, hrecycle, hs⟩ := hs
      have hds : ds < s.rxDescs := by
        apply h.rxDesc
        rw [hdesc]
        simp
      obtain ⟨w₁, hqueue, h₁⟩ : ∃ w₁, w₁.queue = w.queue ∧ Accounted origin { s with
          toBufs := bufs
          dsNbuf := Function.update s.dsNbuf ds none } w₁ [] done pending := by
        cases hb : s.dsNbuf ds with
        | some b =>
          rw [hb] at hfree
          obtain ⟨h₁, horigin⟩ := h.takeNbuf hb
          exact h₁.free horigin hfree
        | none =>
          rw [hb] at hfree
          have hsame : Function.update s.dsNbuf ds none = s.dsNbuf := by
            rw [← hb, Function.update_eq_self]
          rw [hsame]
          exact ⟨w, rfl, { h with stock := h.stock.free_null hfree }⟩
      obtain ⟨w₂, hqueue₂, hcfg, h₂⟩ := h₁.recycle hds hrecycle
      obtain ⟨w', hqueue', hcfg', h'⟩ := ih h₂ hs
      exact ⟨w', hqueue'.trans (hqueue₂.trans hqueue), hcfg'.trans hcfg, h'⟩
    · cases hs

/-- A buffer that is in use or on the way is not a free one. -/
theorem free_apart (h : Accounted origin s w hand done pending) (hb : b ∈ w.free) :
    b ∉ hand ++ s.kept ∧ b ∉ w.events ++ s.evntbuf.toList ++ flightBufs (done ++ pending) := by
  have hnot := h.stock.free_apart hb
  simp only [Firmware.kept, Shelves.held, List.mem_append, not_or] at hnot ⊢
  tauto

/-- Free buffers have come into use. -/
theorem reorigin {origin' : BufId → PoolId} {w' : Shelves} {m : Memory} (hand' : List BufId)
    (h : Accounted origin s w hand done pending)
    (hstock : Stock s.cfg origin' { s.toBufs with mem := m } w' (hand' ++ s.kept) done pending)
    (hevents : w'.events = w.events) (hsame : ∀ c ∉ w.free, origin' c = origin c) :
    Accounted origin' { s with mem := m } w' hand' done pending := by
  refine ⟨hstock, h.rxNbuf, h.rxDesc, fun c hc => ?_, fun c hc => ?_⟩
  · rw [hsame c]
    · exact h.rxOrigin c hc
    · intro hfree
      apply (h.free_apart hfree).1
      exact List.mem_append_right _ (List.mem_append_right _ hc)
  · rw [hevents] at hc
    rw [hsame c]
    · exact h.sending c hc
    · exact fun hfree => (h.free_apart hfree).2 hc

/-- A frame waits to be sent. -/
theorem putFrame (h : Accounted origin s w [b] done pending) (hb : origin b = .wlanRxBuf) :
    Accounted origin { s with frames := s.frames ++ [b] } w [] done pending := by
  refine ⟨?_, h.rxNbuf, h.rxDesc, fun c hc => ?_, h.sending⟩
  · apply h.stock.perm
    have hlast : (s.kept ++ [b]).Perm ([b] ++ s.kept) := List.perm_append_comm
    rwa [Firmware.kept, List.append_assoc, List.append_assoc] at hlast
  · rw [← List.append_assoc] at hc
    rcases List.mem_append.mp hc with hold | hnew
    · exact h.rxOrigin c hold
    · rw [List.mem_singleton.mp hnew]
      exact hb

/-- The first frame is taken to be sent. -/
theorem takeFrame {frames : List BufId} (h : Accounted origin s w [] done pending)
    (hf : s.frames = b :: frames) :
    Accounted origin { s with frames := frames } w [b] done pending ∧ origin b = .wlanRxBuf := by
  have hb : b ∈ s.rxBufs ++ s.frames := by
    rw [hf]
    exact List.mem_append_right _ List.mem_cons_self
  refine ⟨⟨?_, h.rxNbuf, h.rxDesc, fun c hc => ?_, h.sending⟩, h.rxOrigin b hb⟩
  · apply h.stock.perm
    have hmid : (s.evntbuf.toList ++ s.rxBufs ++ b :: frames).Perm
        (b :: (s.evntbuf.toList ++ s.rxBufs ++ frames)) := List.perm_middle
    rw [← hf, List.append_assoc, List.append_assoc] at hmid
    exact hmid.symm
  · apply h.rxOrigin c
    rcases List.mem_append.mp hc with hrx | hframe
    · exact List.mem_append_left _ hrx
    · rw [hf]
      exact List.mem_append_right _ (List.mem_cons_of_mem _ hframe)

theorem rxFrame {n : ℕ} (h : Accounted origin s w [] done pending) (hw : w.queue = [])
    (hs : athRxFrame n s = some s') :
    ∃ origin' w', w'.queue = [] ∧ s'.cfg = s.cfg ∧ Accounted origin' s' w' [] done pending := by
  simp only [athRxFrame, Option.bind_eq_bind, Option.bind_eq_some_iff, Option.some.injEq,
    Prod.exists] at hs
  obtain ⟨q, s₁, hqueue, b, q', m, hmerge, rfl⟩ := hs
  have hnil : ∀ c ∈ w.queue, origin c = .wlanRxBuf := by
    rw [hw]
    intro c hc
    cases hc
  obtain ⟨w₁, hq₁, ho₁, hcfg, h₁⟩ := h.queue_rxbufs (hw ▸ queues_nil) hnil hqueue
  obtain ⟨free, hb, hstock⟩ := h₁.stock.merge hq₁ ho₁ hmerge
  have hsame : ∀ c ∉ w₁.free, Function.update origin b .wlanRxBuf c = origin c := by
    intro c hc
    apply Function.update_of_ne
    rintro rfl
    exact hc hb
  have h₂ := h₁.reorigin [b] hstock rfl hsame
  exact ⟨_, { w₁ with free := free, queue := [] }, rfl, hcfg, h₂.putFrame (Function.update_self ..)⟩

theorem sendFrame {trailer : ℕ} (h : Accounted origin s w [] done pending)
    (hs : sendRxFrame pipe trailer s = some s') :
    ∃ w' pending', w'.queue = w.queue ∧ s'.cfg = s.cfg ∧ Accounted origin s' w' [] done pending' := by
  rw [sendRxFrame] at hs
  cases hf : s.frames with
  | nil =>
    rw [hf] at hs
    cases hs
  | cons b frames =>
    rw [hf, Option.bind_eq_bind, Option.bind_eq_some_iff] at hs
    obtain ⟨m, hpush, hs⟩ := hs
    obtain ⟨h₁, hb⟩ := h.takeFrame hf
    exact (h₁.pushHead hpush).sendMsg (.inr (.inr ⟨rfl, hb⟩)) hs

/-! ## Sent buffers -/

/-- The fragments of a frame are freed as long as descriptors are idle, and these are armed
again. -/
theorem rxComplete_loop {l : List ℕ} {q : NbufQueue} (h : Accounted origin s w [] done pending)
    (hq : Queues q w.queue) (ho : ∀ c ∈ w.queue, origin c = .wlanRxBuf)
    (hl : ∀ ds ∈ l, ds < s.rxDescs) (hlen : w.queue.length ≤ l.length)
    (hs : rxCompleteLoop l q s = some s') :
    ∃ w', w'.queue = [] ∧ s'.cfg = s.cfg ∧ Accounted origin s' w' [] done pending := by
  induction l generalizing s w q with
  | nil =>
    obtain rfl := Option.some.inj hs
    exact ⟨w, List.length_eq_zero_iff.mp (Nat.le_zero.mp hlen), rfl, h⟩
  | cons ds l ih =>
    rw [rxCompleteLoop] at hs
    cases hw : w.queue with
    | nil =>
      rw [hw] at hq
      rw [hq.remove_none] at hs
      obtain rfl := Option.some.inj hs
      exact ⟨w, hw, rfl, h⟩
    | cons b queue =>
      obtain ⟨q₁, m, hremove, hq₁, hstock⟩ := h.stock.queueRemove hq hw
      rw [hremove] at hs
      simp only [Option.bind_eq_bind, Option.bind_eq_some_iff, Prod.exists] at hs
      obtain ⟨bufs, hfree, ok, s₂, hinit, hs⟩ := hs
      have h₁ : Accounted origin { s with mem := m } (w.setQueue queue) [b] done pending :=
        { h with stock := hstock }
      have hb : origin b = .wlanRxBuf := by
        apply ho
        rw [hw]
        exact List.mem_cons_self
      obtain ⟨w₂, hqueue₂, h₂⟩ := h₁.free hb hfree
      have hds : ds < s.rxDescs := hl ds List.mem_cons_self
      obtain ⟨w₃, hqueue₃, hcfg, h₃⟩ := h₂.rxdescInit hds hinit
      have hn : s₂.rxDescs = s.rxDescs := by
        rw [Firmware.rxDescs, hcfg]
        rfl
      have hqueue : w₃.queue = queue := hqueue₃.trans hqueue₂
      have h₄ : Accounted origin { s₂ with
          scRxdescIdle := s₂.scRxdescIdle.erase ds
          scRxdesc := s₂.scRxdesc ++ [ds] } w₃ [] done pending := by
        refine { h₃ with rxDesc := fun x hx => ?_ }
        have hold := h₃.rxDesc x
        simp only [List.mem_append, List.mem_singleton] at hx hold
        rcases hx with ((hx | rfl) | hx) | hx
        · exact hold (.inl (.inl hx))
        · exact hn ▸ hds
        · exact hold (.inl (.inr (List.mem_of_mem_erase hx)))
        · exact hold (.inr hx)
      have hrest : ∀ c ∈ w₃.queue, origin c = .wlanRxBuf := by
        intro c hc
        apply ho
        rw [hw]
        rw [hqueue] at hc
        exact List.mem_cons_of_mem _ hc
      have hshort : w₃.queue.length ≤ l.length := by
        rw [hw, List.length_cons, List.length_cons] at hlen
        rw [hqueue]
        omega
      obtain ⟨w', hqueue', hcfg', h'⟩ := ih h₄ (hqueue ▸ hq₁) hrest
        (fun x hx => hn ▸ hl x (List.mem_cons_of_mem _ hx)) hshort hs
      exact ⟨w', hqueue', hcfg'.trans hcfg, h'⟩

theorem rxComplete (h : Accounted origin s w [b] done pending) (hw : w.queue = [])
    (hb : origin b = .wlanRxBuf) (hlen : (vbufDescs s.mem b).length ≤ s.scRxdescIdle.length)
    (hs : athRxComplete b s = some s') :
    ∃ origin' w', w'.queue = [] ∧ s'.cfg = s.cfg ∧ Accounted origin' s' w' [] done pending := by
  simp only [athRxComplete, Option.bind_eq_bind, Option.bind_eq_some_iff, Prod.exists] at hs
  obtain ⟨q, m, hsplit, hs⟩ := hs
  obtain ⟨new, free, hq, hcount, hnew, hstock⟩ := h.stock.split hw hsplit
  have hsame : ∀ c ∉ w.free, (if c ∈ new then origin b else origin c) = origin c :=
    fun c hc => if_neg fun hin => hc (hnew c hin)
  have h₁ := h.reorigin [] hstock rfl hsame
  have ho : ∀ c ∈ new, (if c ∈ new then origin b else origin c) = .wlanRxBuf := by
    intro c hc
    rw [if_pos hc, hb]
  obtain ⟨w', hqueue, hcfg, h'⟩ := h₁.rxComplete_loop hq ho
    (fun ds hds => h.rxDesc ds (by simp [hds])) (hcount ▸ hlen) hs
  exact ⟨_, w', hqueue, hcfg, h'⟩

theorem received (h : Accounted origin s w (b :: hand) done pending) (hb : origin b = .wlanRxBuf) :
    Received s s.mem b := by
  obtain ⟨d, hd⟩ := List.exists_mem_of_ne_nil _ (h.stock.holds_loose List.mem_cons_self).ne_nil
  have hstored := h.stock.owned.stored b List.mem_cons_self d hd
  rw [hb] at hstored
  exact ⟨d, hd, hstored⟩

/-- The handler of the endpoint frees the buffer to the pool it came from. -/
theorem sendDone (h : Accounted origin s w [b] done pending) (hw : w.queue = [])
    (hl : Labelled s.cfg (s.ctx b) (origin b))
    (hok : Returnable s s.mem b) (hs : htcSendDoneHandler b s = some s') :
    ∃ origin' w', w'.queue = [] ∧ s'.cfg = s.cfg ∧ Accounted origin' s' w' [] done pending := by
  rw [htcSendDoneHandler, Option.bind_eq_bind, Option.bind_eq_some_iff] at hs
  obtain ⟨m, hpull, hs⟩ := hs
  have h₁ := h.pullHead hpull
  obtain ⟨ht, -⟩ := (h.stock.holds_loose List.mem_cons_self).pullHead hpull
  rcases hl with ⟨hep, hb⟩ | ⟨hep, hb⟩ | ⟨hep, hb⟩
  · rw [if_pos hep] at hs
    obtain ⟨bufs, hfree, rfl⟩ := Option.map_eq_some_iff.mp hs
    obtain ⟨w', hqueue, h'⟩ := h₁.free hb hfree
    exact ⟨origin, w', hqueue.trans hw, rfl, h'⟩
  · have hne0 : ¬(s.ctx b).endPoint = endpoint0 := fun heq => s.cfg.controlEp_ne (hep ▸ heq)
    rw [if_neg hne0, if_pos hep] at hs
    obtain ⟨bufs, hfree, rfl⟩ := Option.map_eq_some_iff.mp hs
    obtain ⟨w', hqueue, h'⟩ := h₁.free hb hfree
    exact ⟨origin, w', hqueue.trans hw, rfl, h'⟩
  · have hne0 : ¬(s.ctx b).endPoint = endpoint0 := by
      rw [hep]
      decide
    obtain ⟨hne, hlen⟩ := hok (h.received hb)
    have hnec : ¬(s.ctx b).endPoint = s.cfg.controlEp := fun heq => hne (heq.symm.trans hep)
    rw [if_neg hne0, if_neg hnec, if_pos hep] at hs
    exact h₁.rxComplete hw hb (ht.vbufDescs ▸ hlen) hs

end Accounted

end Ath9kHtc.Pool
