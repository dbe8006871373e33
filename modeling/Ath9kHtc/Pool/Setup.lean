import Ath9kHtc.Pool.Stock

/-!
# Setting up the pools

The free lists are filled, the queue to the host takes its descriptor, and each pool takes buffers
and descriptors for the storage it is given.
-/

namespace Ath9kHtc.Pool

open Dma

variable {cfg : Config} {origin : BufId → PoolId} {m m' : Memory} {s s' : Bufs} {w : Shelves}
  {b : BufId} {d : DescId} {p : PoolId} {freeDescs : List DescId}

/-! ## The free lists -/

theorem range_perm {n : ℕ} (hn : 0 < n) :
    ((List.range' 1 (n - 1)).reverse ++ [0]).Perm (List.range n) := by
  have hrange : List.range n = 0 :: List.range' 1 (n - 1) := by
    rw [List.range_eq_range', ← Nat.sub_add_cancel hn, List.range'_succ]
    rfl
  rw [hrange]
  exact (List.reverse_perm _).append_right [0] |>.trans (List.perm_append_singleton 0 _)

/-- What no round of a loop changes is as it was. -/
theorem foldl_field {σ α β : Type*} (f : σ → β) {push : σ → α → σ} (h : ∀ s a, f (push s a) = f s)
    (l : List α) (s : σ) : f (l.foldl push s) = f s := by
  induction l generalizing s with
  | nil => rfl
  | cons a l ih => rw [List.foldl_cons, ih, h]

theorem vbufInit_nDesc (n : ℕ) (m : Memory) : (vbufInit n m).nDesc = m.nDesc := by
  rw [vbufInit, foldl_field Memory.nDesc]
  · rfl
  · exact fun _ _ => rfl

theorem vdescInit_frame (n : ℕ) (m : Memory) :
    (vdescInit n m).vb = m.vb ∧ (vdescInit n m).freeBufHead = m.freeBufHead ∧
      (vdescInit n m).nDesc = m.nDesc := by
  refine ⟨?_, ?_, ?_⟩
  · rw [vdescInit, foldl_field Memory.vb]
    · rfl
    · exact fun _ _ => rfl
  · rw [vdescInit, foldl_field Memory.freeBufHead]
    · rfl
    · exact fun _ _ => rfl
  · rw [vdescInit, foldl_field Memory.nDesc]
    · rfl
    · exact fun _ _ => rfl

theorem vbufInit_free {n : ℕ} (hn : 0 < n) (m : Memory) :
    ∃ free, Chain (vbufInit n m).nextBuf (vbufInit n m).freeBufHead free ∧
      free.Perm (List.range n) := by
  have hperm := range_perm hn
  refine ⟨_, ?_, hperm⟩
  apply Chain.foldl_push Memory.nextBuf Memory.freeBufHead
  · exact fun _ _ => rfl
  · intro m b
    rw [Memory.nextBuf, Memory.vb_modVb_self]
  · intro m b c hc
    rw [Memory.nextBuf, Memory.vb_modVb_of_ne hc, Memory.nextBuf]
  · refine ⟨rfl, ?_⟩
    rw [Memory.nextBuf, Memory.vb_modVb_self]
    rfl
  · exact hperm.nodup_iff.mpr List.nodup_range

theorem vdescInit_free {n : ℕ} (hn : 0 < n) (m : Memory) :
    ∃ free, Chain (vdescInit n m).nextDesc (vdescInit n m).freeVdescHead free ∧
      free.Perm (List.range n) := by
  have hperm := range_perm hn
  refine ⟨_, ?_, hperm⟩
  apply Chain.foldl_push Memory.nextDesc Memory.freeVdescHead
  · exact fun _ _ => rfl
  · intro m d
    rw [Memory.nextDesc, Memory.vd_modVd_self]
  · intro m d x hx
    rw [Memory.nextDesc, Memory.vd_modVd_of_ne hx, Memory.nextDesc]
  · refine ⟨rfl, ?_⟩
    rw [Memory.nextDesc, Memory.vd_modVd_self]
    rfl
  · exact hperm.nodup_iff.mpr List.nodup_range

/-! ## Pools under construction -/

/-- The pools filled so far; `freeDescs` are the free descriptors, and nothing is in transmission. -/
structure Building (cfg : Config) (origin : BufId → PoolId) (s : Bufs) (w : Shelves)
    (freeDescs : List DescId) : Prop where
  stock : Stock cfg origin s w [] [] []
  queue : w.queue = []
  events : w.events = []
  descs : Chain s.mem.nextDesc s.mem.freeVdescHead freeDescs
  distinct : (freeDescs ++ s.upQ.terminator :: w.held.flatMap (vbufDescs s.mem)).Nodup
  inside : ∀ d ∈ freeDescs ++ s.upQ.terminator :: w.held.flatMap (vbufDescs s.mem), d < s.mem.nDesc
  head : s.upQ.head = s.upQ.terminator
  txDesc : s.txDesc = s.upQ.terminator
  own : (s.mem.hw s.upQ.terminator).own = .sw
  xmited : s.upQ.xmitedBufHead = none ∧ s.upQ.xmitedBufTail = none

/-- A buffer with one new descriptor, whose data is somewhere. -/
structure Equipped (b : BufId) (d : DescId) (addr : ℕ) (m m' : Memory) : Prop where
  descList : (m'.vb b).descList = some d
  nextDesc : m'.nextDesc d = none
  bufAddr : (m'.vd d).bufAddr = addr
  vb_eq : ∀ c, c ≠ b → m'.vb c = m.vb c
  vd_eq : ∀ x, x ≠ d → m'.vd x = m.vd x
  freeVdescHead : m'.freeVdescHead = m.nextDesc d
  frame : m' = { m with
    vd := m'.vd, vb := m'.vb, freeVdescHead := m'.freeVdescHead, freeBufHead := m'.freeBufHead }

/-- A buffer and a descriptor are taken for the next storage of a pool. -/
def equip (addr nSize : ℕ) (m : Memory) : Option (BufId × Memory) := do
  let (buf, m) ← vbufAllocVbuf m
  let (desc, m) ← vdescAllocDesc m
  let m := m.modVd desc fun v =>
    { v with bufAddr := addr, bufSize := nSize, dataOffset := 0, dataSize := 0 }
  some (buf, m.modVb buf fun v => { v with bufLength := 0, descList := some desc })

theorem bufPoolStaticCreatePool_cons {nSize addr : ℕ} {addrs : List ℕ} :
    bufPoolStaticCreatePool p nSize (addr :: addrs) s = (equip addr nSize s.mem).bind fun r =>
      (bufPoolStaticFreeBuf p (some r.1) { s with mem := r.2 }).bind
        (bufPoolStaticCreatePool p nSize addrs) := by
  rw [bufPoolStaticCreatePool, equip]
  cases vbufAllocVbuf s.mem with
  | none => rfl
  | some r =>
    obtain ⟨b, m⟩ := r
    simp only [Option.bind_eq_bind, Option.bind_some]
    cases vdescAllocDesc m with
    | none => rfl
    | some r => rfl

theorem equip_equipped {addr nSize : ℕ} {free : List BufId} {ls : List (List BufId)}
    (hc : Chains m.nextBuf (free :: ls)) (hfree : m.freeBufHead = free.head?)
    (hs : equip addr nSize m = some (b, m')) :
    ∃ free' d, free = b :: free' ∧ m.freeVdescHead = some d ∧
      Chains m'.nextBuf ([b] :: free' :: ls) ∧ m'.freeBufHead = free'.head? ∧
      Equipped b d addr m m' := by
  simp only [equip, Option.bind_eq_bind, Option.bind_eq_some_iff, Option.some.injEq, Prod.exists,
    Prod.mk.injEq] at hs
  obtain ⟨c, m₁, halloc, d, m₂, hdesc, rfl, rfl⟩ := hs
  obtain ⟨free', rfl⟩ : ∃ free', free = c :: free' := by
    rw [vbufAllocVbuf, hfree] at halloc
    cases free with
    | nil => cases halloc
    | cons x free' =>
      obtain ⟨rfl, -⟩ := Prod.mk.inj (Option.some.inj halloc)
      exact ⟨free', rfl⟩
  obtain ⟨m₁', halloc', hlinks, hhead, hallot⟩ := vbufAllocVbuf_allotted hc hfree
  obtain rfl : m₁' = m₁ := by
    rw [halloc'] at halloc
    exact (Prod.mk.inj (Option.some.inj halloc)).2
  obtain ⟨d', hd', heq⟩ := Option.map_eq_some_iff.mp hdesc
  obtain ⟨rfl, rfl⟩ := Prod.mk.inj heq
  have hvd : m₁'.vd = m.vd := by rw [hallot.frame]
  have hdescHead : m₁'.freeVdescHead = m.freeVdescHead := by rw [hallot.frame]
  refine ⟨free', d', rfl, hdescHead ▸ hd', ?_, hhead, ?_, ?_, ?_, ?_, ?_, ?_, ?_⟩
  · apply hlinks.congr
    intro x _
    exact Memory.modVb_field Vbuf.nextBuf fun _ => rfl
  · rw [Memory.vb_modVb_self]
  · rw [Memory.nextDesc, Memory.vd_modVb, Memory.vd_modVd_self, Memory.vd_modVd_self]
  · rw [Memory.vd_modVb, Memory.vd_modVd_self]
  · intro x hx
    rw [Memory.vb_modVb_of_ne hx]
    exact hallot.vb_eq x hx
  · intro x hx
    rw [Memory.vd_modVb, Memory.vd_modVd_of_ne hx, Memory.vd_modVd_of_ne hx]
    exact congrFun hvd x
  · exact congrArg Vdesc.nextDesc (congrFun hvd d')
  · rw [hallot.frame]
    rfl

/-- A free touches nothing but a link and the head of the pool. -/
theorem freeBuf_frame {buf : BufId} (hs : bufPoolStaticFreeBuf p (some buf) s = some s') :
    s'.mem = { s.mem with vb := s'.mem.vb } ∧
      (∀ c, (s'.mem.vb c).descList = (s.mem.vb c).descList) ∧ s'.upQ = s.upQ ∧ s'.txDesc = s.txDesc := by
  rw [bufPoolStaticFreeBuf] at hs
  split at hs
  · obtain rfl := Option.some.inj hs
    exact ⟨rfl, fun _ => rfl, rfl, rfl⟩
  · rw [Option.map_some] at hs
    obtain rfl := Option.some.inj hs
    refine ⟨rfl, fun c => ?_, rfl, rfl⟩
    dsimp only
    exact Memory.modVb_field Vbuf.descList fun _ => rfl

namespace Building

/-- A new buffer in hand. -/
theorem equip {addr nSize : ℕ} (h : Building cfg origin s w freeDescs) (haddr : addr ∈ cfg.storage p)
    (hs : equip addr nSize s.mem = some (b, m')) :
    ∃ free d rest, freeDescs = d :: rest ∧ m'.freeVdescHead = s.mem.nextDesc d ∧
      (∀ x, x ≠ d → m'.vd x = s.mem.vd x) ∧ m'.hw = s.mem.hw ∧ m'.nDesc = s.mem.nDesc ∧
      (b :: w.held).flatMap (vbufDescs m') = d :: w.held.flatMap (vbufDescs s.mem) ∧
      Stock cfg (Function.update origin b p) { s with mem := m' } { w with free := free } [b] [] [] := by
  have hc : Chains s.mem.nextBuf (w.free :: w.queue :: w.events :: poolIds.map w.pool) := by
    have hlinks := h.stock.links
    rwa [singles, List.map_nil, List.append_nil] at hlinks
  obtain ⟨free, d, hfree, hhead, hlinks, hfree', heq⟩ := equip_equipped hc h.stock.freeHead hs
  obtain ⟨rest, rfl⟩ : ∃ rest, freeDescs = d :: rest := by
    have hdescs := h.descs
    rw [hhead] at hdescs
    cases hl : freeDescs with
    | nil =>
      rw [hl] at hdescs
      cases hdescs
    | cons x rest =>
      rw [hl] at hdescs
      rw [Option.some.inj hdescs.1]
      exact ⟨rest, rfl⟩
  have hdistinct := h.distinct
  rw [List.cons_append] at hdistinct
  obtain ⟨hd, hrest⟩ := List.nodup_cons.mp hdistinct
  have hbefore := h.stock.nodup
  rw [hfree, List.nil_append, List.nil_append, flightBufs, List.map_nil, List.append_nil,
    List.cons_append] at hbefore
  obtain ⟨hb, hothers⟩ := List.nodup_cons.mp hbefore
  have hbheld : b ∉ w.held := fun hin => hb (List.mem_append_right _ hin)
  have hnDesc : m'.nDesc = s.mem.nDesc := by rw [heq.frame]
  have hhw : m'.hw = s.mem.hw := by rw [heq.frame]
  have hinside : d < s.mem.nDesc := h.inside d (by simp)
  have hnew : Holds m' b ∧ vbufDescs m' b = [d] := by
    apply holds_of_chain
    · rw [heq.descList]
      exact ⟨rfl, heq.nextDesc⟩
    · exact List.cons_ne_nil d []
    · rw [hnDesc, List.length_singleton]
      exact Nat.lt_of_le_of_lt (Nat.zero_le d) hinside
  have hapart : ∀ c ∈ w.held, ∀ x ∈ vbufDescs s.mem c, x ≠ d := by
    rintro c hc x hx rfl
    apply hd
    apply List.mem_append_right
    apply List.mem_cons_of_mem
    exact List.mem_flatMap.mpr ⟨c, hc, hx⟩
  have hold : ∀ c ∈ w.held, Holds m' c ∧ vbufDescs m' c = vbufDescs s.mem c := by
    intro c hc
    have hcb : c ≠ b := ne_of_mem_of_not_mem hc hbheld
    apply (h.stock.owned.holds hc).congr
    · rw [heq.vb_eq c hcb]
    · intro x hx
      rw [Memory.nextDesc, heq.vd_eq x (hapart c hc x hx), Memory.nextDesc]
    · exact hnDesc
  have hdescs : (b :: w.held).flatMap (vbufDescs m') = d :: w.held.flatMap (vbufDescs s.mem) := by
    rw [List.flatMap_cons, hnew.2, List.singleton_append,
      List.flatMap_congr fun c hc => (hold c hc).2]
  have hswap : (s.upQ.terminator :: d :: w.held.flatMap (vbufDescs s.mem)).Perm
      (d :: s.upQ.terminator :: w.held.flatMap (vbufDescs s.mem)) := .swap ..
  have howned : Owned cfg (Function.update origin b p) m' s.upQ s.upQ.terminator (b :: w.held) [] [] := by
    apply owned_idle h.head _ h.xmited
    · intro c hc
      rcases List.mem_cons.mp hc with rfl | hheld
      · exact hnew.1
      · exact (hold c hheld).1
    · exact List.nodup_cons.mpr ⟨hbheld, (List.nodup_append.mp hothers).2.1⟩
    · rw [hdescs]
      apply hswap.nodup_iff.mpr
      apply List.nodup_cons.mpr
      constructor
      · exact fun hin => hd (List.mem_append_right _ hin)
      · exact (List.nodup_append.mp hrest).2.1
    · rw [hdescs, hnDesc]
      intro x hx
      apply h.inside x
      rcases List.mem_cons.mp (hswap.mem_iff.mp hx) with rfl | hin
      · exact List.mem_cons_self
      · exact List.mem_append_right _ hin
    · intro c hc x hx
      rcases List.mem_cons.mp hc with rfl | hheld
      · rw [hnew.2, List.mem_singleton] at hx
        rw [hx, heq.bufAddr, Function.update_self]
        exact haddr
      · rw [(hold c hheld).2] at hx
        rw [heq.vd_eq x (hapart c hheld x hx),
          Function.update_of_ne (ne_of_mem_of_not_mem hheld hbheld)]
        exact h.stock.owned.stored c hheld x hx
    · rw [hhw]
      exact h.own
  rw [← h.txDesc] at howned
  refine ⟨free, d, rest, rfl, heq.freeVdescHead, heq.vd_eq, hhw, hnDesc, hdescs, ?_, hfree',
    h.stock.poolHead, h.stock.eventHead, h.stock.eventTail, howned, ?_, ?_⟩
  · apply hlinks.perm
    exact (List.perm_append_singleton [b] _).symm
  · refine List.Perm.trans ?_ h.stock.once
    rw [hfree]
    apply List.perm_iff_count.mpr
    intro x
    simp only [Shelves.held, Shelves.pooled, List.count_append, List.count_cons, List.count_nil]
    omega
  · intro p' c hc
    rw [Function.update_of_ne (ne_of_mem_of_not_mem (Shelves.mem_held hc) hbheld)]
    exact h.stock.sorted p' c hc

theorem add {addr nSize : ℕ} (h : Building cfg origin s w freeDescs) (haddr : addr ∈ cfg.storage p)
    (hequip : Pool.equip addr nSize s.mem = some (b, m'))
    (hfree : bufPoolStaticFreeBuf p (some b) { s with mem := m' } = some s') :
    ∃ origin' w' freeDescs', Building cfg origin' s' w' freeDescs' := by
  obtain ⟨free, d, rest, rfl, hhead, hvd, hhw, hnDesc, hdescs, hstock⟩ := h.equip haddr hequip
  have hpooled := hstock.free (Function.update_self ..) hfree
  obtain ⟨hframe, hlist, hq, ht⟩ := freeBuf_frame hfree
  dsimp only at hframe hlist hq ht
  have hsame : ∀ x, s'.mem.vd x = m'.vd x := by
    intro x
    rw [hframe]
  have hn : s'.mem.nDesc = s.mem.nDesc := by
    rw [hframe]
    exact hnDesc
  have hvbuf : vbufDescs s'.mem = vbufDescs m' := by
    funext c
    apply vbufDescs_congr _ (hlist c)
    · rw [hframe]
    · intro x
      rw [Memory.nextDesc, hsame, Memory.nextDesc]
  set w' := ({ w with free := free } : Shelves).setPool p (b :: w.pool p) with hw'
  have hheld : (w'.held.flatMap (vbufDescs s'.mem)).Perm
      (d :: w.held.flatMap (vbufDescs s.mem)) := by
    rw [hvbuf, ← hdescs]
    exact (Shelves.held_push (w := { w with free := free })).flatMap_right _
  have hperm : (rest ++ s.upQ.terminator :: w'.held.flatMap (vbufDescs s'.mem)).Perm
      (d :: rest ++ s.upQ.terminator :: w.held.flatMap (vbufDescs s.mem)) := by
    have hcons := (hheld.cons s.upQ.terminator).append_left rest
    apply hcons.trans
    apply List.perm_iff_count.mpr
    intro x
    simp only [List.cons_append, List.count_append, List.count_cons]
    omega
  refine ⟨_, w', rest, hpooled, h.queue, h.events, ?_, ?_, ?_, ?_, ?_, ?_, ?_⟩
  · have hchain := h.descs.2
    have hfreeHead : s'.mem.freeVdescHead = s.mem.nextDesc d := by
      rw [hframe]
      exact hhead
    rw [hfreeHead]
    apply hchain.congr
    intro x hx
    have hxd : x ≠ d := by
      rintro rfl
      exact (List.nodup_cons.mp h.distinct).1 (List.mem_append_left _ hx)
    rw [Memory.nextDesc, hsame, hvd x hxd, Memory.nextDesc]
  · rw [hq]
    exact hperm.nodup_iff.mpr h.distinct
  · rw [hq, hn]
    exact fun x hx => h.inside x (hperm.mem_iff.mp hx)
  · rw [hq]
    exact h.head
  · rw [hq, ht]
    exact h.txDesc
  · have hhw' : s'.mem.hw = s.mem.hw := by
      rw [hframe]
      exact hhw
    rw [hq, hhw']
    exact h.own
  · rw [hq]
    exact h.xmited

theorem create {nSize : ℕ} {addrs : List ℕ} (h : Building cfg origin s w freeDescs)
    (haddrs : ∀ addr ∈ addrs, addr ∈ cfg.storage p)
    (hs : bufPoolStaticCreatePool p nSize addrs s = some s') :
    ∃ origin' w' freeDescs', Building cfg origin' s' w' freeDescs' := by
  induction addrs generalizing s origin w freeDescs with
  | nil =>
    obtain rfl := Option.some.inj hs
    exact ⟨origin, w, freeDescs, h⟩
  | cons addr addrs ih =>
    rw [bufPoolStaticCreatePool_cons] at hs
    obtain ⟨r, hequip, hs⟩ := Option.bind_eq_some_iff.mp hs
    obtain ⟨s₁, hfree, hs⟩ := Option.bind_eq_some_iff.mp hs
    obtain ⟨origin₁, w₁, freeDescs₁, h₁⟩ := h.add (haddrs addr List.mem_cons_self) hequip hfree
    exact ih h₁ (fun x hx => haddrs x (List.mem_cons_of_mem _ hx)) hs

end Building

/-- The queue to the host takes the first descriptor. -/
theorem initTxQueue_building {q : TxQueue} (hs : initTxQueue (vdescInit cfg.nDesc (vbufInit cfg.nBuf
      ⟨fun _ => {}, fun _ => {}, fun _ => {}, cfg.nDesc, none, none⟩)) = some (q, m)) :
    ∃ origin w freeDescs, Building cfg origin ⟨m, fun _ => none, q, q.head, none, none⟩ w freeDescs := by
  set m₀ := vbufInit cfg.nBuf ⟨fun _ => {}, fun _ => {}, fun _ => {}, cfg.nDesc, none, none⟩ with hm₀
  obtain ⟨free, hfree, hfreePerm⟩ := vbufInit_free cfg.nBuf_pos
    ⟨fun _ => {}, fun _ => {}, fun _ => {}, cfg.nDesc, none, none⟩
  rw [← hm₀] at hfree
  obtain ⟨descs, hdescs, hdescsPerm⟩ := vdescInit_free cfg.nDesc_pos m₀
  obtain ⟨hvb, hfreeHead, hnDesc⟩ := vdescInit_frame cfg.nDesc m₀
  have hn : m₀.nDesc = cfg.nDesc := vbufInit_nDesc ..
  set m₁ := vdescInit cfg.nDesc m₀ with hm₁
  simp only [initTxQueue, initRxQueue, vdescAllocDesc, Option.bind_eq_bind, Option.bind_eq_some_iff,
    Option.map_eq_some_iff, Option.some.injEq, Prod.mk.injEq, Prod.exists] at hs
  obtain ⟨ring, m₂, ⟨d, m₃, ⟨d', hd', rfl, rfl⟩, rfl, rfl⟩, rfl, rfl⟩ := hs
  obtain ⟨rest, rfl⟩ : ∃ rest, descs = d' :: rest := by
    rw [hd'] at hdescs
    cases descs with
    | nil => cases hdescs
    | cons x rest =>
      rw [Option.some.inj hdescs.1]
      exact ⟨rest, rfl⟩
  have hnodup := hdescsPerm.nodup_iff.mpr List.nodup_range
  set m₂ := ({ m₁ with freeVdescHead := m₁.nextDesc d' }.modVd d'
    fun v => { v with nextDesc := none }).modHw d' fun _ => initUsbDesc with hm₂
  have hnext : m₂.nextBuf = m₀.nextBuf := by
    funext c
    exact congrArg Vbuf.nextBuf (congrFun hvb c)
  have hperm : (rest ++ [d']).Perm (List.range cfg.nDesc) :=
    (List.perm_append_singleton d' rest).trans hdescsPerm
  have hown : (m₂.hw d').own = .sw := by
    rw [hm₂, Memory.hw_modHw_self]
    rfl
  have hinside : ∀ x ∈ rest ++ [d'], x < m₂.nDesc := by
    intro x hx
    have hlt := List.mem_range.mp (hperm.mem_iff.mp hx)
    exact (hnDesc.trans hn).symm ▸ hlt
  have hsame : ∀ x, x ≠ d' → m₂.nextDesc x = m₁.nextDesc x := by
    intro x hx
    rw [hm₂, Memory.nextDesc, Memory.vd_modHw, Memory.vd_modVd_of_ne hx]
    rfl
  have hheld : (Shelves.mk free [] [] fun _ => []).held = [] := rfl
  have hlists : Chains m₂.nextBuf [free, [], [], [], [], [], []] := by
    have hnil : Chains m₂.nextBuf [[], [], [], [], [], []] :=
      Chains.nil.cons_nil.cons_nil.cons_nil.cons_nil.cons_nil.cons_nil
    apply hnil.cons
    · rw [hnext, hfree.head?_eq]
      exact hfree
    · exact hfreePerm.nodup_iff.mpr List.nodup_range
    · intro a _ ha
      cases ha
  refine ⟨fun _ => .htcControl, ⟨free, [], [], fun _ => []⟩, rest,
    ⟨hlists, ?_, fun _ => rfl, rfl, rfl, ?_, ?_, ?_⟩, rfl, rfl, ?_, ?_, ?_, rfl, rfl, hown,
    ⟨rfl, rfl⟩⟩
  · exact hfreeHead.trans hfree.head?_eq.symm
  · apply owned_idle rfl hown ⟨rfl, rfl⟩
    · intro b hb
      cases hb
    · exact List.nodup_nil
    · exact List.nodup_singleton d'
    · intro x hx
      apply hinside x
      rw [List.mem_singleton.mp hx]
      exact List.mem_append_right _ (List.mem_singleton_self d')
    · intro b hb
      cases hb
  · rw [hheld]
    simpa [flightBufs] using hfreePerm
  · intro p b hb
    cases hb
  · apply hdescs.2.congr
    intro x hx
    apply hsame
    rintro rfl
    exact (List.nodup_cons.mp hnodup).1 hx
  · exact hperm.nodup_iff.mpr List.nodup_range
  · exact hinside

end Ath9kHtc.Pool
