import Ath9kHtc.Pool.Fragments
import Ath9kHtc.Pool.Ownership

/-!
# The stock of buffers

Every `VBUF` there is has one place: the list of the free ones, a pool, the queue of events, the
transmit ring, a queue that is put together or taken apart, or the hands of a user.
-/

namespace Ath9kHtc.Pool

open Dma

variable {cfg : Config} {origin : BufId → PoolId} {m m' : Memory} {s s' : Bufs} {p : PoolId}
  {b : BufId} {l loose loose' : List BufId} {done pending : List Flight}

/-! ## The lists of buffers -/

/-- Buffers in a user's hands, each linked to none. -/
def singles (loose : List BufId) : List (List BufId) := loose.map fun b => [b]

section

variable {ls rest : List (List BufId)} (hl : ls.Perm (l :: rest))

include hl

/-- One list in front of the others. -/
theorem perm_front : (ls ++ singles loose).Perm (l :: (rest ++ singles loose)) := hl.append_right _

/-- One list and one buffer in front of the others. -/
theorem perm_front_single :
    (ls ++ singles (b :: loose)).Perm ([b] :: l :: (rest ++ singles loose)) :=
  (hl.append_right _).trans (@List.perm_middle _ [b] (l :: rest) _)

end

/-- The buffers on the lists that `next_buf` links. -/
structure Shelves where
  free : List BufId
  queue : List BufId
  events : List BufId
  pool : PoolId → List BufId

namespace Shelves

variable {w : Shelves}

def pooled (w : Shelves) : List BufId := poolIds.flatMap w.pool

/-- The buffers that have descriptors. -/
def held (w : Shelves) : List BufId := w.queue ++ w.events ++ w.pooled

def lists (w : Shelves) : List (List BufId) := w.free :: w.queue :: w.events :: poolIds.map w.pool

def setPool (w : Shelves) (p : PoolId) (l : List BufId) : Shelves :=
  { w with pool := Function.update w.pool p l }

/-- The lists but for one pool. -/
def besides (w : Shelves) (p : PoolId) : List (List BufId) :=
  w.free :: w.queue :: w.events :: (poolIds.erase p).map w.pool

theorem flatten_lists : w.lists.flatten = w.free ++ w.held := by
  simp [lists, held, pooled, List.flatMap_def]

theorem mem_flatten : b ∈ (w.lists ++ singles loose).flatten ↔ b ∈ w.free ++ (loose ++ w.held) := by
  have hsingles : (singles loose).flatten = loose := by
    rw [singles, ← List.flatMap_def, List.flatMap_singleton']
  rw [List.flatten_append, flatten_lists, hsingles]
  simp only [List.mem_append]
  tauto

theorem setPool_pool : (w.setPool p l).pool p = l := Function.update_self ..

theorem setPool_of_ne {p' : PoolId} (hp : p' ≠ p) : (w.setPool p l).pool p' = w.pool p' :=
  Function.update_of_ne hp ..

theorem map_erase_update : (poolIds.erase p).map (Function.update w.pool p l) =
    (poolIds.erase p).map w.pool := by
  apply List.map_congr_left
  intro p' hp'
  have hne : p' ≠ p := by
    rintro rfl
    revert hp'
    cases p' <;> decide
  exact Function.update_of_ne hne l w.pool

theorem mem_poolIds (p : PoolId) : p ∈ poolIds := by
  cases p <;> decide

theorem lists_perm (p : PoolId) : w.lists.Perm (w.pool p :: w.besides p) := by
  have hpools : (poolIds.map w.pool).Perm (w.pool p :: (poolIds.erase p).map w.pool) :=
    (List.perm_cons_erase (mem_poolIds p)).map w.pool
  have hfront := hpools.append_left [w.free, w.queue, w.events]
  exact hfront.trans List.perm_middle

theorem lists_setPool : (w.setPool p l).lists.Perm (l :: w.besides p) := by
  have hperm := lists_perm (w := w.setPool p l) p
  rw [setPool_pool] at hperm
  rwa [besides, setPool, map_erase_update] at hperm

theorem pooled_perm (p : PoolId) :
    w.pooled.Perm (w.pool p ++ (poolIds.erase p).flatMap w.pool) :=
  (List.perm_cons_erase (mem_poolIds p)).flatMap_right w.pool

theorem pooled_setPool :
    (w.setPool p l).pooled.Perm (l ++ (poolIds.erase p).flatMap w.pool) := by
  have hperm := pooled_perm (w := w.setPool p l) p
  rw [setPool_pool] at hperm
  rwa [List.flatMap_def, setPool, map_erase_update, ← List.flatMap_def] at hperm

/-- The lists but for the events. -/
def besidesEvents (w : Shelves) : List (List BufId) := w.free :: w.queue :: poolIds.map w.pool

def setEvents (w : Shelves) (l : List BufId) : Shelves := { w with events := l }

theorem lists_setEvents : (w.setEvents l).lists.Perm (l :: w.besidesEvents) :=
  @List.perm_middle _ l [w.free, w.queue] _

theorem lists_events : w.lists.Perm (w.events :: w.besidesEvents) := lists_setEvents

theorem held_setEvents : (w.setEvents l).held.Perm (l ++ (w.queue ++ w.pooled)) := by
  have hswap := List.perm_append_comm_assoc w.queue l w.pooled
  rwa [← List.append_assoc] at hswap

/-- The lists but for the queue in hand. -/
def besidesQueue (w : Shelves) : List (List BufId) := w.free :: w.events :: poolIds.map w.pool

def setQueue (w : Shelves) (l : List BufId) : Shelves := { w with queue := l }

theorem lists_setQueue : (w.setQueue l).lists.Perm (l :: w.besidesQueue) :=
  @List.perm_middle _ l [w.free] _

theorem lists_queue : w.lists.Perm (w.queue :: w.besidesQueue) := lists_setQueue

/-- The queue in front of the others. -/
theorem held_queue :
    (loose ++ w.held).Perm (w.queue ++ (loose ++ (w.events ++ w.pooled))) := by
  rw [held, List.append_assoc]
  exact List.perm_append_comm_assoc loose w.queue (w.events ++ w.pooled)

theorem held_setQueue : (w.setQueue l).held = l ++ (w.events ++ w.pooled) := List.append_assoc ..

theorem mem_pooled (hb : b ∈ w.pool p) : b ∈ w.pooled :=
  List.mem_flatMap.mpr ⟨p, mem_poolIds p, hb⟩

theorem mem_held (hb : b ∈ w.pool p) : b ∈ w.held := List.mem_append_right _ (mem_pooled hb)

/-- A buffer leaves a pool. -/
theorem held_pop (hl : w.pool p = b :: l) : w.held.Perm (b :: (w.setPool p l).held) := by
  have hpools := pooled_perm (w := w) p
  rw [hl, List.cons_append] at hpools
  have hback : w.pooled.Perm (b :: (w.setPool p l).pooled) := hpools.trans (pooled_setPool.symm.cons b)
  exact (hback.append_left _).trans List.perm_middle

/-- A buffer comes into a pool. -/
theorem held_push : (w.setPool p (b :: w.pool p)).held.Perm (b :: w.held) := by
  have hpools := pooled_setPool (w := w) (p := p) (l := b :: w.pool p)
  rw [List.cons_append] at hpools
  have hback : (w.setPool p (b :: w.pool p)).pooled.Perm (b :: w.pooled) :=
    hpools.trans ((pooled_perm p).symm.cons b)
  exact (hback.append_left _).trans List.perm_middle

end Shelves

/-! ## The stock -/

/-- Each `VBUF` is on one of the lists of `w`, in the hands of a user, or in transmission, and its
storage is that of `origin`. -/
structure Stock (cfg : Config) (origin : BufId → PoolId) (s : Bufs) (w : Shelves)
    (loose : List BufId) (done pending : List Flight) : Prop where
  links : Chains s.mem.nextBuf (w.lists ++ singles loose)
  freeHead : s.mem.freeBufHead = w.free.head?
  poolHead : ∀ p, s.bufQ p = (w.pool p).head?
  eventHead : s.eventHead = w.events.head?
  eventTail : s.eventTail = w.events.getLast?
  owned : Owned cfg origin s.mem s.upQ s.txDesc (loose ++ w.held) done pending
  once : (w.free ++ (loose ++ w.held) ++ flightBufs (done ++ pending)).Perm (List.range cfg.nBuf)
  sorted : ∀ p, ∀ b ∈ w.pool p, origin b = p

namespace Stock

variable {w : Shelves}

theorem nodup (h : Stock cfg origin s w loose done pending) :
    (w.free ++ (loose ++ w.held) ++ flightBufs (done ++ pending)).Nodup :=
  h.once.nodup_iff.mpr List.nodup_range

/-- The users exchange buffers. -/
theorem perm (h : Stock cfg origin s w loose done pending) (hp : loose'.Perm loose) :
    Stock cfg origin s w loose' done pending := by
  refine { h with links := ?_, owned := ?_, once := ?_ }
  · exact h.links.perm ((hp.symm.map _).append_left _)
  · exact h.owned.perm (hp.append_right _)
  · exact (((hp.append_right _).append_left _).append_right _).trans h.once

/-- A free buffer is in no other place. -/
theorem free_apart (h : Stock cfg origin s w loose done pending) (hb : b ∈ w.free) :
    b ∉ loose ++ w.held ++ flightBufs (done ++ pending) := by
  have hd := h.nodup
  rw [List.append_assoc] at hd
  exact fun hin => (List.nodup_append.mp hd).2.2 b hb b hin rfl

/-! ## Pools -/

theorem alloc {reserve : ℕ} {buf : Option BufId} (h : Stock cfg origin s w loose done pending)
    (halloc : bufPoolStaticAllocBuf p reserve s = some (buf, s')) :
    (buf = none ∧ s' = s) ∨ ∃ b w', buf = some b ∧ w'.queue = w.queue ∧ w'.events = w.events ∧
      origin b = p ∧ Stock cfg origin s' w' (b :: loose) done pending := by
  rw [bufPoolStaticAllocBuf, h.poolHead p] at halloc
  cases hl : w.pool p with
  | nil =>
    rw [hl] at halloc
    obtain ⟨rfl, rfl⟩ := Prod.mk.inj (Option.some.inj halloc)
    exact .inl ⟨rfl, rfl⟩
  | cons b l =>
    rw [hl] at halloc
    obtain ⟨d, hd, heq⟩ := Option.map_eq_some_iff.mp halloc
    obtain ⟨rfl, rfl⟩ := Prod.mk.inj heq
    have hb : b ∈ w.pool p := hl ▸ List.mem_cons_self
    have hheld : b ∈ loose ++ w.held := List.mem_append_right _ (Shelves.mem_held hb)
    set m₁ := (s.mem.modVb b fun v => { v with nextBuf := none, bufLength := 0 }).modVd d
      fun v => { v with dataOffset := reserve, dataSize := 0 } with hm₁
    have ht : Touched b s.mem m₁ :=
      touched_modVd (f := fun v => { v with dataOffset := reserve, dataSize := 0 })
        (g := fun v => { v with nextBuf := none, bufLength := 0 })
        ((h.owned.holds hheld).first hd) (fun _ => ⟨rfl, rfl, rfl⟩) fun _ => rfl
    have hperm : (b :: loose ++ (w.setPool p l).held).Perm (loose ++ w.held) := by
      have hback := ((Shelves.held_pop hl).append_left loose).trans List.perm_middle
      exact hback.symm
    have hfront := Shelves.lists_perm (w := w) p
    rw [hl] at hfront
    have hlists := h.links.perm (perm_front hfront)
    refine .inr ⟨b, w.setPool p l, rfl, rfl, rfl, h.sorted p b hb, ?_⟩
    refine ⟨?_, h.freeHead, ?_, h.eventHead, h.eventTail, h.owned.touch hheld ht hperm, ?_, ?_⟩
    · apply Chains.perm _ (perm_front_single Shelves.lists_setPool).symm
      apply hlists.pop
      · intro c hc
        rw [Memory.nextBuf, ht.vb_eq c hc, Memory.nextBuf]
      · rw [Memory.nextBuf, hm₁, Memory.vb_modVd, Memory.vb_modVb_self]
    · intro p'
      by_cases hp : p' = p
      · subst hp
        rw [Shelves.setPool_pool]
        dsimp only
        rw [Function.update_self]
        exact hlists.head.2.head?_eq.symm
      · rw [Shelves.setPool_of_ne hp]
        dsimp only
        rw [Function.update_of_ne hp]
        exact h.poolHead p'
    · exact ((hperm.append_left _).append_right _).trans h.once
    · intro p' c hc
      by_cases hp : p' = p
      · subst hp
        rw [Shelves.setPool_pool] at hc
        exact h.sorted p' c (hl ▸ List.mem_cons_of_mem _ hc)
      · rw [Shelves.setPool_of_ne hp] at hc
        exact h.sorted p' c hc

/-- A buffer in a user's hands is linked to none. -/
theorem nextBuf_loose (h : Stock cfg origin s w (b :: loose) done pending) :
    s.mem.nextBuf b = none := by
  have hmem : [b] ∈ w.lists ++ singles (b :: loose) := List.mem_append_right _ List.mem_cons_self
  exact (h.links.chain [b] hmem).2

theorem free (h : Stock cfg origin s w (b :: loose) done pending) (hb : origin b = p)
    (hfree : bufPoolStaticFreeBuf p (some b) s = some s') :
    Stock cfg origin s' (w.setPool p (b :: w.pool p)) loose done pending := by
  have hnone := h.nextBuf_loose
  have hheld : b ∈ b :: loose ++ w.held := List.mem_cons_self
  have hperm : (loose ++ (w.setPool p (b :: w.pool p)).held).Perm (b :: loose ++ w.held) :=
    (Shelves.held_push.append_left loose).trans List.perm_middle
  have hlists := h.links.perm (perm_front_single (Shelves.lists_perm p))
  obtain ⟨m', rfl, ht, hnext⟩ : ∃ m', s' = { s with
      mem := m', bufQ := Function.update s.bufQ p (some b) } ∧ Touched b s.mem m' ∧
      m'.nextBuf b = (w.pool p).head? := by
    rw [bufPoolStaticFreeBuf, h.poolHead p] at hfree
    cases hl : w.pool p with
    | nil =>
      rw [hl] at hfree
      exact ⟨s.mem, (Option.some.inj hfree).symm,
        ⟨fun _ _ => rfl, rfl, fun _ _ => rfl, fun _ => rfl, fun _ => rfl, rfl⟩, hnone⟩
    | cons a l =>
      rw [hl] at hfree
      refine ⟨_, (Option.some.inj hfree).symm, touched_modVb fun _ => rfl, ?_⟩
      rw [Memory.nextBuf, Memory.vb_modVb_self]
      rfl
  refine ⟨?_, ?_, ?_, h.eventHead, h.eventTail, h.owned.touch hheld ht hperm, ?_, ?_⟩
  · apply Chains.perm _ (perm_front Shelves.lists_setPool).symm
    apply hlists.push
    · intro c hc
      rw [Memory.nextBuf, ht.vb_eq c hc, Memory.nextBuf]
    · exact hnext
  · have hframe : m'.freeBufHead = s.mem.freeBufHead := by rw [ht.frame]
    exact hframe.trans h.freeHead
  · intro p'
    by_cases hp : p' = p
    · subst hp
      rw [Shelves.setPool_pool]
      exact Function.update_self ..
    · rw [Shelves.setPool_of_ne hp]
      dsimp only
      rw [Function.update_of_ne hp]
      exact h.poolHead p'
  · exact ((hperm.append_left _).append_right _).trans h.once
  · intro p' c hc
    by_cases hp : p' = p
    · subst hp
      rw [Shelves.setPool_pool] at hc
      rcases List.mem_cons.mp hc with rfl | hold
      · exact hb
      · exact h.sorted p' c hold
    · rw [Shelves.setPool_of_ne hp] at hc
      exact h.sorted p' c hc

/-- To free the null pointer does nothing where it does not fault. -/
theorem free_null (h : Stock cfg origin s w loose done pending)
    (hfree : bufPoolStaticFreeBuf p none s = some s') : Stock cfg origin s' w loose done pending := by
  rw [bufPoolStaticFreeBuf] at hfree
  cases hq : s.bufQ p with
  | some head =>
    rw [hq] at hfree
    cases hfree
  | none =>
    rw [hq] at hfree
    obtain rfl := Option.some.inj hfree
    have hsame : Function.update s.bufQ p none = s.bufQ := by
      rw [← hq, Function.update_eq_self]
    rw [hsame]
    exact h

/-! ## The data of a buffer -/

section

variable {len : ℕ}

/-- A user writes to a buffer in its hands. -/
theorem touch (h : Stock cfg origin s w loose done pending) (hb : b ∈ loose)
    (ht : Touched b s.mem m') (hnext : m'.nextBuf b = s.mem.nextBuf b) :
    Stock cfg origin { s with mem := m' } w loose done pending := by
  have hlinks : m'.nextBuf = s.mem.nextBuf := by
    funext c
    by_cases hc : c = b
    · rw [hc, hnext]
    · rw [Memory.nextBuf, ht.vb_eq c hc, Memory.nextBuf]
  have hfree : m'.freeBufHead = s.mem.freeBufHead := by rw [ht.frame]
  refine { h with links := ?_, freeHead := ?_, owned := ?_ }
  · dsimp only
    rw [hlinks]
    exact h.links
  · exact hfree.trans h.freeHead
  · exact h.owned.touch (List.mem_append_left _ hb) ht (.refl _)

theorem holds_loose (h : Stock cfg origin s w loose done pending) (hb : b ∈ loose) :
    Holds s.mem b := h.owned.holds (List.mem_append_left _ hb)

theorem pushHead (h : Stock cfg origin s w loose done pending) (hb : b ∈ loose)
    (hpush : adfNbufPushHead b len s.mem = some m') :
    Stock cfg origin { s with mem := m' } w loose done pending := by
  obtain ⟨ht, hnext⟩ := (h.holds_loose hb).pushHead hpush
  exact h.touch hb ht hnext

theorem pullHead (h : Stock cfg origin s w loose done pending) (hb : b ∈ loose)
    (hpull : adfNbufPullHead b len s.mem = some m') :
    Stock cfg origin { s with mem := m' } w loose done pending := by
  obtain ⟨ht, hnext⟩ := (h.holds_loose hb).pullHead hpull
  exact h.touch hb ht hnext

theorem putTail (h : Stock cfg origin s w loose done pending) (hb : b ∈ loose)
    (hput : adfNbufPutTail b len s.mem = some m') :
    Stock cfg origin { s with mem := m' } w loose done pending := by
  obtain ⟨ht, hnext⟩ := putTail_touched hput
  exact h.touch hb ht hnext

end

/-! ## The queue of events -/

theorem sendEvent (h : Stock cfg origin s w (b :: loose) done pending)
    (hsend : sendBufferViaFifo b s = some s') :
    Stock cfg origin s' (w.setEvents (w.events ++ [b])) loose done pending := by
  have hperm : (loose ++ (w.setEvents (w.events ++ [b])).held).Perm (b :: loose ++ w.held) := by
    have hnew := Shelves.held_setEvents (w := w) (l := w.events ++ [b])
    rw [List.append_assoc, List.singleton_append] at hnew
    have hold : (w.events ++ b :: (w.queue ++ w.pooled)).Perm (b :: w.held) :=
      List.perm_middle.trans ((Shelves.held_setEvents (w := w) (l := w.events)).symm.cons b)
    exact ((hnew.trans hold).append_left loose).trans List.perm_middle
  have honce := ((hperm.append_left w.free).append_right (flightBufs (done ++ pending))).trans h.once
  have hlists := h.links.perm (perm_front_single Shelves.lists_events)
  rw [sendBufferViaFifo, h.eventHead] at hsend
  rcases List.eq_nil_or_concat' w.events with hl | ⟨l, a, hl⟩
  · rw [hl] at hsend
    obtain rfl := Option.some.inj hsend
    rw [hl] at hlists
    have hnew : w.events ++ [b] = [b] := by rw [hl, List.nil_append]
    rw [hnew] at hperm honce ⊢
    refine ⟨?_, h.freeHead, h.poolHead, rfl, rfl, h.owned.perm hperm, honce, h.sorted⟩
    apply Chains.perm _ (perm_front Shelves.lists_setEvents).symm
    exact (hlists.perm (.swap ..)).tail
  · obtain ⟨x, hx⟩ : ∃ x, (l ++ [a]).head? = some x := by
      cases l <;> exact ⟨_, rfl⟩
    have htail : s.eventTail = some a := by
      rw [h.eventTail, hl, List.getLast?_concat]
    rw [hl, hx] at hsend
    dsimp only at hsend
    rw [htail, Option.map_some] at hsend
    obtain rfl := Option.some.inj hsend
    set m₁ := s.mem.modVb a fun v => { v with nextBuf := some b } with hm₁
    have hevent : a ∈ w.events := by
      rw [hl]
      exact List.mem_append_right _ List.mem_cons_self
    have ha : a ∈ b :: loose ++ w.held := by
      apply List.mem_append_right
      apply List.mem_append_left
      exact List.mem_append_right _ hevent
    have ht : Touched a s.mem m₁ := touched_modVb fun _ => rfl
    refine ⟨?_, h.freeHead, h.poolHead, ?_, ?_, h.owned.touch ha ht hperm, honce, h.sorted⟩
    · apply Chains.perm _ (perm_front Shelves.lists_setEvents).symm
      rw [hl] at hlists ⊢
      rw [List.append_assoc]
      apply hlists.snoc
      · intro c hc
        rw [Memory.nextBuf, ht.vb_eq c hc, Memory.nextBuf]
      · rw [Memory.nextBuf, hm₁, Memory.vb_modVb_self]
    · dsimp only [Shelves.setEvents]
      rw [hl, List.head?_append_of_ne_nil _ (by simp), hx]
    · dsimp only [Shelves.setEvents]
      rw [List.getLast?_concat]

theorem getEvent (h : Stock cfg origin s w loose done pending)
    (hget : usbfifoGetEventBuf s = some (b, s')) :
    ∃ l, w.events = b :: l ∧ Stock cfg origin s' (w.setEvents l) (b :: loose) done pending := by
  obtain ⟨c, hc, heq⟩ := Option.map_eq_some_iff.mp hget
  obtain ⟨rfl, rfl⟩ := Prod.mk.inj heq
  obtain ⟨l, hl⟩ : ∃ l, w.events = c :: l := by
    have hhead := h.eventHead.symm.trans hc
    cases hw : w.events with
    | nil =>
      rw [hw] at hhead
      cases hhead
    | cons x l =>
      rw [hw] at hhead
      obtain rfl : x = c := Option.some.inj hhead
      exact ⟨l, rfl⟩
  refine ⟨l, hl, ?_⟩
  set m₁ := s.mem.modVb c fun v => { v with nextBuf := none } with hm₁
  have ht : Touched c s.mem m₁ := touched_modVb fun _ => rfl
  have hperm : (c :: loose ++ (w.setEvents l).held).Perm (loose ++ w.held) := by
    have hold := Shelves.held_setEvents (w := w) (l := w.events)
    rw [hl, List.cons_append] at hold
    have hnew := hold.trans (Shelves.held_setEvents.symm.cons c)
    have hback := (hnew.append_left loose).trans List.perm_middle
    rw [← hl] at hback
    exact hback.symm
  have honce := ((hperm.append_left w.free).append_right (flightBufs (done ++ pending))).trans h.once
  have hheld : c ∈ loose ++ w.held := hperm.mem_iff.mp List.mem_cons_self
  have howned := h.owned.touch hheld ht hperm
  have hlists := h.links.perm (perm_front Shelves.lists_events)
  rw [hl] at hlists
  have hlinks : Chains m₁.nextBuf ((w.setEvents l).lists ++ singles (c :: loose)) := by
    apply Chains.perm _ (perm_front_single Shelves.lists_setEvents).symm
    apply hlists.pop
    · intro x hx
      rw [Memory.nextBuf, ht.vb_eq x hx, Memory.nextBuf]
    · rw [Memory.nextBuf, hm₁, Memory.vb_modVb_self]
  have htail : s.eventTail = (c :: l).getLast? := h.eventTail.trans (by rw [hl])
  by_cases hlast : s.eventHead = s.eventTail
  · have hnil : l = [] := by
      cases l with
      | nil => rfl
      | cons x l =>
        rw [hc, htail, List.getLast?_cons_cons] at hlast
        have hin : c ∈ x :: l := List.mem_of_getLast? hlast.symm
        exact absurd hin hlists.notMem.1
    subst hnil
    rw [if_pos hlast]
    exact ⟨hlinks, h.freeHead, h.poolHead, rfl, rfl, howned, honce, h.sorted⟩
  · obtain ⟨x, l', rfl⟩ : ∃ x l', l = x :: l' := by
      cases l with
      | nil => exact absurd (hc.trans htail.symm) hlast
      | cons x l' => exact ⟨x, l', rfl⟩
    have hnext : s.mem.nextBuf c = (x :: l').head? := hlists.head.2.head?_eq.symm
    rw [if_neg hlast]
    refine ⟨hlinks, h.freeHead, h.poolHead, hnext, ?_, howned, honce, h.sorted⟩
    rw [htail, List.getLast?_cons_cons]
    rfl

/-! ## A queue in hand -/

section

variable {q q' : NbufQueue}

theorem queueAdd (h : Stock cfg origin s w (b :: loose) done pending) (hq : Queues q w.queue)
    (hadd : adfNbufQueueAdd q b s.mem = some (q', m')) : Queues q' (w.queue ++ [b]) ∧
      Stock cfg origin { s with mem := m' } (w.setQueue (w.queue ++ [b])) loose done pending := by
  have hlists := h.links.perm (perm_front_single Shelves.lists_queue)
  obtain ⟨q₁, m₁, hadd₁, hq₁, hlinks, hreq, hnext⟩ := hq.add hlists
  obtain ⟨rfl, rfl⟩ : q' = q₁ ∧ m' = m₁ := by
    have heq := hadd.symm.trans hadd₁
    simp only [Option.some.injEq, Prod.mk.injEq] at heq
    exact heq
  have hperm : (loose ++ (w.setQueue (w.queue ++ [b])).held).Perm (b :: loose ++ w.held) := by
    rw [Shelves.held_setQueue, List.append_assoc, List.singleton_append]
    have hmid : (w.queue ++ b :: (w.events ++ w.pooled)).Perm (b :: w.held) := by
      rw [Shelves.held, List.append_assoc]
      exact List.perm_middle
    exact (hmid.append_left loose).trans List.perm_middle
  have hframe := hreq.frame
  have hfree : m'.freeBufHead = s.mem.freeBufHead := by rw [hframe]
  have howned : Owned cfg origin m' s.upQ s.txDesc (loose ++ (w.setQueue (w.queue ++ [b])).held)
      done pending := by
    have hvd : m'.vd = s.mem.vd := by rw [hframe]
    apply h.owned.relink hperm
    · rw [hframe]
    · exact fun x _ => congrFun hvd x
    · intro x
      rw [Memory.nextDesc, hvd, Memory.nextDesc]
    · intro x
      rw [Memory.pair, hvd, Memory.pair]
    · rw [hframe]
    · exact hreq.descList
    · intro c hc
      apply hnext
      intro hin
      apply (List.nodup_append.mp h.owned.bufs).2.2 c _ c hc rfl
      apply hperm.mem_iff.mp
      rw [Shelves.held_setQueue]
      exact List.mem_append_right _ (List.mem_append_left _ hin)
  refine ⟨hq₁, ?_, hfree.trans h.freeHead, h.poolHead, h.eventHead, h.eventTail, howned, ?_, h.sorted⟩
  · exact hlinks.perm (perm_front Shelves.lists_setQueue).symm
  · exact ((hperm.append_left _).append_right _).trans h.once

theorem queueRemove (h : Stock cfg origin s w loose done pending) (hq : Queues q w.queue)
    (hl : w.queue = b :: l) : ∃ q' m', adfNbufQueueRemove q s.mem = some (b, q', m') ∧ Queues q' l ∧
      Stock cfg origin { s with mem := m' } (w.setQueue l) (b :: loose) done pending := by
  have hlists := h.links.perm (perm_front Shelves.lists_queue)
  rw [hl] at hq hlists
  obtain ⟨q', hremove, hq', hlinks⟩ := hq.remove hlists
  have hperm : (b :: loose ++ (w.setQueue l).held).Perm (loose ++ w.held) := by
    rw [Shelves.held_setQueue, Shelves.held, hl, List.append_assoc]
    exact List.perm_middle.symm
  have hheld : b ∈ loose ++ w.held := hperm.mem_iff.mp List.mem_cons_self
  have ht : Touched b s.mem (s.mem.modVb b fun v => { v with nextBuf := none }) :=
    touched_modVb fun _ => rfl
  refine ⟨q', _, hremove, hq', ?_, h.freeHead, h.poolHead, h.eventHead, h.eventTail,
    h.owned.touch hheld ht hperm, ?_, h.sorted⟩
  · exact hlinks.perm (perm_front_single Shelves.lists_setQueue).symm
  · exact ((hperm.append_left _).append_right _).trans h.once

/-- The buffers of a queue become a frame. -/
theorem merge (h : Stock cfg origin s w loose done pending) (hq : Queues q w.queue)
    (hp : ∀ c ∈ w.queue, origin c = p)
    (hmerge : adfNbufCreateFrmFrag q s.mem = some (b, q', m')) :
    ∃ free, b ∈ w.free ∧ Stock cfg (Function.update origin b p) { s with mem := m' }
      { w with free := free, queue := [] } (b :: loose) done pending := by
  obtain ⟨first, rest, hqueue⟩ : ∃ first rest, w.queue = first :: rest := by
    cases hw : w.queue with
    | cons first rest => exact ⟨first, rest, rfl⟩
    | nil =>
      rw [hw] at hq
      simp only [adfNbufCreateFrmFrag, hq.head, List.head?_nil, Option.bind_eq_bind,
        Option.bind_none, Option.bind_eq_some_iff] at hmerge
      obtain ⟨-, -, hnone⟩ := hmerge
      cases hnone
  obtain ⟨c, free, hfree⟩ : ∃ c free, w.free = c :: free := by
    cases hw : w.free with
    | cons c free => exact ⟨c, free, rfl⟩
    | nil =>
      rw [adfNbufCreateFrmFrag, vbufAllocVbuf, h.freeHead, hw] at hmerge
      cases hmerge
  have hlists : Chains s.mem.nextBuf (w.queue :: (c :: free) ::
      (w.events :: poolIds.map w.pool ++ singles loose)) := by
    have hlinks := h.links
    rw [Shelves.lists, hfree] at hlinks
    exact hlinks.perm (.swap ..)
  have howned := h.owned.perm Shelves.held_queue.symm
  have hdescs := howned.descs_nodup
  rw [List.flatMap_append] at hdescs
  rw [hqueue] at hq hlists
  obtain ⟨q₁, m₁, hrun, -, hlinks, hhead, hframed⟩ := adfNbufCreateFrmFrag_framed hq hlists
    (by rw [h.freeHead, hfree]; rfl)
    (fun d hd => howned.holds (List.mem_append_left _ (hqueue ▸ hd)))
    (hqueue ▸ (List.nodup_append.mp hdescs).1)
  obtain ⟨rfl, -, rfl⟩ : b = c ∧ q' = q₁ ∧ m' = m₁ := by
    have heq := hmerge.symm.trans hrun
    simp only [Option.some.injEq, Prod.mk.injEq] at heq
    exact heq
  have hb : b ∈ w.free := hfree ▸ List.mem_cons_self
  have hnot := h.free_apart hb
  have hnew : Owned cfg (Function.update origin b p) m' s.upQ s.txDesc
      ([b] ++ (loose ++ (w.events ++ w.pooled))) done pending := by
    apply howned.merge (hqueue ▸ List.cons_ne_nil _ _) (hqueue ▸ hframed) _ hp
    intro hin
    rcases List.mem_append.mp hin with hl | hr
    · exact hnot (List.mem_append_left _ (Shelves.held_queue.mem_iff.mpr hl))
    · exact hnot (List.mem_append_right _ hr)
  refine ⟨(first :: rest).reverse ++ free, hb, ?_, hhead, h.poolHead, h.eventHead, h.eventTail, ?_,
    ?_, ?_⟩
  · apply hlinks.cons_nil.perm
    apply List.perm_iff_count.mpr
    intro x
    simp only [Shelves.lists, singles, List.map_cons, List.cons_append, List.count_append,
      List.count_cons]
    omega
  · apply hnew.perm
    rw [Shelves.held, List.nil_append]
    exact .refl _
  · refine List.Perm.trans ?_ h.once
    apply List.perm_iff_count.mpr
    intro x
    simp only [Shelves.held, Shelves.pooled, hfree, hqueue, List.count_append, List.count_cons,
      List.count_reverse, List.count_nil]
    omega
  · intro p' d hd
    have hne : d ≠ b := by
      rintro rfl
      exact hnot (List.mem_append_left _ (List.mem_append_right _ (Shelves.mem_held hd)))
    rw [Function.update_of_ne hne]
    exact h.sorted p' d hd

/-- A frame becomes a queue of its fragments. -/
theorem split (h : Stock cfg origin s w (b :: loose) done pending) (hw : w.queue = [])
    (hsplit : adfNbufSplitToFrag b s.mem = some (q', m')) :
    ∃ new free, Queues q' new ∧ new.length = (vbufDescs s.mem b).length ∧
      (∀ c ∈ new, c ∈ w.free) ∧
      Stock cfg (fun c => if c ∈ new then origin b else origin c) { s with mem := m' }
        { w with free := free, queue := new } loose done pending := by
  have hb : Holds s.mem b := h.holds_loose List.mem_cons_self
  have hdescs := h.owned.descs_nodup
  rw [List.cons_append, List.flatMap_cons] at hdescs
  have hbd := (List.nodup_append.mp hdescs).1
  have hlinks : Chains s.mem.nextBuf
      ([b] :: w.free :: (w.events :: poolIds.map w.pool ++ singles loose)) := by
    have hlists : w.lists.Perm (w.free :: w.queue :: w.events :: poolIds.map w.pool) := .refl _
    have hfront := h.links.perm (perm_front_single hlists)
    rw [hw] at hfront
    apply Chains.tail (l := [])
    apply hfront.perm
    exact ((List.Perm.swap ..).cons _).trans (.swap ..)
  have hlen : (vbufDescs s.mem b).length ≤ w.free.length := by
    by_contra hshort
    rw [adfNbufSplitToFrag_none hb hbd hlinks h.freeHead (Nat.lt_of_not_le hshort)] at hsplit
    cases hsplit
  obtain ⟨new, free', q₁, m₁, hfree, hrun, hq₁, hlinks₁, hhead, hfrag⟩ :=
    adfNbufSplitToFrag_fragmented hb hbd hlinks h.freeHead hlen
  obtain ⟨rfl, rfl⟩ : q' = q₁ ∧ m' = m₁ := by
    have heq := hsplit.symm.trans hrun
    simp only [Option.some.injEq, Prod.mk.injEq] at heq
    exact heq
  have hnew : ∀ c ∈ new, c ∈ w.free := fun c hc => hfree ▸ List.mem_append_left _ hc
  have hheld : w.held = w.events ++ w.pooled := by
    rw [Shelves.held, hw, List.nil_append]
  have howned : Owned cfg (fun c => if c ∈ new then origin b else origin c) m' s.upQ s.txDesc
      (new ++ (loose ++ w.held)) done pending := by
    apply h.owned.split hfrag
    · have hd := hlinks₁.distinct
      rw [List.flatten_cons] at hd
      exact (List.nodup_append.mp hd).1
    · exact fun c hc => h.free_apart (hnew c hc)
  refine ⟨new, b :: free', hq₁, hfrag.given.length_eq, hnew, ?_, hhead, h.poolHead, h.eventHead,
    h.eventTail, ?_, ?_, ?_⟩
  · apply hlinks₁.perm
    exact .swap ..
  · apply howned.perm
    rw [Shelves.held, List.append_assoc, hheld]
    exact List.perm_append_comm_assoc loose new (w.events ++ w.pooled)
  · refine List.Perm.trans ?_ h.once
    apply List.perm_iff_count.mpr
    intro x
    simp only [Shelves.held, Shelves.pooled, hfree, hw, List.count_append, List.count_cons,
      List.count_nil]
    omega
  · intro p' c hc
    have hne : c ∉ new := by
      intro hin
      apply h.free_apart (hnew c hin)
      exact List.mem_append_left _ (List.mem_append_right _ (Shelves.mem_held hc))
    rw [if_neg hne]
    exact h.sorted p' c hc

end

/-! ## The transmit ring -/

theorem xmit (h : Stock cfg origin s w (b :: loose) done pending) (hxmit : xmitUp b s = some s') :
    ∃ f, f.sent.buf = b ∧ Stock cfg origin s' w loose done (pending ++ [f]) := by
  obtain ⟨q', m', f, hrun, hf, howned, hvb, hframe⟩ := h.owned.xmit
  obtain ⟨r, hr, rfl⟩ := Option.map_eq_some_iff.mp hxmit
  obtain rfl : (q', m') = r := Option.some.inj (hrun.symm.trans hr)
  have hbufs : flightBufs (done ++ (pending ++ [f])) = flightBufs (done ++ pending) ++ [b] := by
    rw [← List.append_assoc, flightBufs, List.map_append, List.map_singleton, hf]
    rfl
  have hfree : m'.freeBufHead = s.mem.freeBufHead := by rw [hframe]
  refine ⟨f, hf, ?_, hfree.trans h.freeHead, h.poolHead, h.eventHead, h.eventTail, howned, ?_,
    h.sorted⟩
  · have hlists : Chains s.mem.nextBuf ([b] :: (w.lists ++ singles loose)) :=
      h.links.perm List.perm_middle
    apply hlists.tail.congr
    intro c hc
    have hcb : c ≠ b := by
      rintro rfl
      exact hlists.notMem.2 hc
    rw [Shelves.mem_flatten] at hc
    have hfly : c ∉ flightBufs (done ++ pending) := by
      intro hin
      apply (List.nodup_append.mp h.nodup).2.2 c _ c hin rfl
      simp only [List.mem_append, List.mem_cons] at hc ⊢
      tauto
    rw [Memory.nextBuf, hvb c (fun hin => (List.mem_cons.mp hin).elim hcb hfly), Memory.nextBuf]
  · rw [hbufs]
    refine List.Perm.trans ?_ h.once
    apply List.perm_iff_count.mpr
    intro x
    simp only [List.count_append, List.count_cons, List.count_nil]
    omega

/-- The hardware sees nothing but the ring. -/
theorem completeUp_ring {o : Own} (held : List BufId) (done pending : List Flight)
    (hc : completeUp o s = some s') :
    o.Completed ∧ s' = { s with mem := s'.mem, txDesc := s'.txDesc } ∧
      (ringOf s.mem s.upQ s.txDesc held done pending).complete o =
        some { ringOf s.mem s.upQ s.txDesc held done pending with
          mem := s'.mem, txDesc := s'.txDesc, completed := done.length + 1 } := by
  rw [completeUp, Option.ite_none_right_eq_some] at hc
  obtain ⟨hok, hc⟩ := hc
  simp only [Option.bind_eq_bind, Option.bind_eq_some_iff, Option.some.injEq] at hc
  obtain ⟨ds, hds, last, hlast, next, hnext, rfl⟩ := hc
  refine ⟨hok.1, rfl, ?_⟩
  refine (if_pos hok).trans ?_
  simp only [ringOf, Option.bind_eq_bind, hds, hlast, hnext, Option.bind_some]

theorem complete {o : Own} (h : Stock cfg origin s w loose done pending)
    (hc : completeUp o s = some s') :
    ∃ f pending', pending = f :: pending' ∧ Stock cfg origin s' w loose (done ++ [f]) pending' := by
  obtain ⟨ho, hs', hring⟩ := completeUp_ring (loose ++ w.held) done pending hc
  cases pending with
  | nil =>
    rw [h.owned.complete_none] at hring
    cases hring
  | cons f pending =>
    obtain ⟨t', hw, hrun, howned⟩ := h.owned.complete ho
    rw [hrun] at hring
    simp only [Option.some.injEq, TxSystem.mk.injEq] at hring
    obtain ⟨hmem, -, ht, -⟩ := hring
    rw [hs', ← hmem, ← ht]
    refine ⟨f, pending, rfl, h.links, h.freeHead, h.poolHead, h.eventHead, h.eventTail, howned, ?_,
      h.sorted⟩
    have hsame : done ++ [f] ++ pending = done ++ f :: pending := by simp
    rw [hsame]
    exact h.once

theorem reap {buf : Option BufId} (h : Stock cfg origin s w loose done pending)
    (hreap : reapUp s = some (buf, s')) : (buf = none ∧ s' = s) ∨
      ∃ f done', done = f :: done' ∧ buf = some f.sent.buf ∧
        Stock cfg origin s' w (f.sent.buf :: loose) done' pending := by
  obtain ⟨⟨buf₁, q₁, m₁⟩, hr, heq⟩ := Option.map_eq_some_iff.mp hreap
  obtain ⟨rfl, rfl⟩ := Prod.mk.inj heq
  cases done with
  | nil =>
    have hnull := h.owned.reap_null
    rw [hr] at hnull
    simp only [Option.some.injEq, Prod.mk.injEq] at hnull
    obtain ⟨rfl, rfl, rfl⟩ := hnull
    exact .inl ⟨rfl, rfl⟩
  | cons f done =>
    obtain ⟨q', m', hrun, howned, hvb, hnone, hframe⟩ := h.owned.reap
    obtain ⟨rfl, rfl, rfl⟩ : buf₁ = some f.sent.buf ∧ q₁ = q' ∧ m₁ = m' := by
      have heq := hr.symm.trans hrun
      simp only [Option.some.injEq, Prod.mk.injEq] at heq
      exact heq
    have hfree : m₁.freeBufHead = s.mem.freeBufHead := by rw [hframe]
    refine .inr ⟨f, done, rfl, rfl, ?_, hfree.trans h.freeHead, h.poolHead, h.eventHead, h.eventTail,
      howned, ?_, h.sorted⟩
    · have hnot : f.sent.buf ∉ (w.lists ++ singles loose).flatten := by
        rw [Shelves.mem_flatten]
        exact fun hin => (List.nodup_append.mp h.nodup).2.2 _ hin _ List.mem_cons_self rfl
      have hkept : Chains m₁.nextBuf (w.lists ++ singles loose) := by
        apply h.links.congr
        intro c hc
        have hne : c ≠ f.sent.buf := by
          rintro rfl
          exact hnot hc
        rw [Memory.nextBuf, hvb c hne, Memory.nextBuf]
      exact (hkept.single hnot hnone).perm List.perm_middle.symm
    · refine List.Perm.trans ?_ h.once
      apply List.perm_iff_count.mpr
      intro x
      simp only [flightBufs, List.cons_append, List.map_cons, List.count_append, List.count_cons]
      omega

end Stock

end Ath9kHtc.Pool
