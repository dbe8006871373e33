import Ath9kHtc.Dma.Packets
import Ath9kHtc.Lib.Run

/-!
# The transmit ring

The transmit queue works as a first-in first-out queue of buffers: the descriptors of a buffer
change places with the terminator on their way, what they carry does not.
-/

namespace Ath9kHtc.Dma

variable {m m' : Memory} {q : TxQueue} {b c : BufId} {d x : DescId} {ds rest : List DescId}
  {bs : List BufId}

/-! ## The buffers in transmission -/

/-- The buffers from `xmited_buf_head` to `xmited_buf_tail`. -/
structure Xmited (m : Memory) (q : TxQueue) (bs : List BufId) : Prop where
  linked : Linked m.nextBuf bs
  head : q.xmitedBufHead = bs.head?
  tail : q.xmitedBufTail = bs.getLast?

/-- The memory with other links between the buffers. -/
structure Requeued (m m' : Memory) : Prop where
  descList : ∀ c, (m'.vb c).descList = (m.vb c).descList
  bufLength : ∀ c, (m'.vb c).bufLength = (m.vb c).bufLength
  frame : m' = { m with vb := m'.vb }

theorem requeued_modVb (n : Option BufId) :
    Requeued m (m.modVb b fun v => { v with nextBuf := n }) :=
  ⟨fun _ => Memory.modVb_field Vbuf.descList fun _ => rfl,
    fun _ => Memory.modVb_field Vbuf.bufLength fun _ => rfl, rfl⟩

namespace Xmited

theorem push (h : Xmited m q bs) (hd : bs.Nodup) :
    ∃ q' m', pushXmited q b m = some (q', m') ∧ Xmited m' q' (bs ++ [b]) ∧ Requeued m m' ∧
      q'.toQueue = q.toQueue := by
  rcases List.eq_nil_or_concat' bs with rfl | ⟨l, a, rfl⟩
  · refine ⟨_, _, if_pos ⟨h.head, h.tail⟩, ?_, requeued_modVb _, rfl⟩
    exact ⟨.singleton b, rfl, rfl⟩
  · have htail : q.xmitedBufTail = some a := h.tail.trans List.getLast?_concat
    have hne : ¬(q.xmitedBufHead = none ∧ q.xmitedBufTail = none) := by simp [htail]
    refine ⟨{ q with xmitedBufTail := some b }, m.modVb a fun v => { v with nextBuf := some b }, ?_,
      ⟨?_, ?_, ?_⟩, requeued_modVb _, rfl⟩
    · rw [pushXmited, if_neg hne, htail]
      rfl
    · apply h.linked.snoc
      · rw [Memory.nextBuf, Memory.vb_modVb_self]
      · intro c hc
        have hca : c ≠ a := by
          rintro rfl
          exact (List.nodup_append.mp hd).2.2 c hc c List.mem_cons_self rfl
        rw [Memory.nextBuf, Memory.vb_modVb_of_ne hca, Memory.nextBuf]
    · rw [List.head?_append_of_ne_nil _ (by simp)]
      exact h.head
    · rw [List.getLast?_concat]

theorem pop (h : Xmited m q (b :: bs)) (hd : (b :: bs).Nodup) :
    ∃ q' m', popXmited q m = some (b, q', m') ∧ Xmited m' q' bs ∧ Requeued m m' ∧
      q'.toQueue = q.toQueue := by
  obtain ⟨hb, -⟩ := List.nodup_cons.mp hd
  have hhead : q.xmitedBufHead = some b := h.head
  have hpop : popXmited q m = some (b, if q.xmitedBufHead = q.xmitedBufTail then
      { q with xmitedBufHead := none, xmitedBufTail := none }
      else { q with xmitedBufHead := m.nextBuf b }, m.modVb b fun v => { v with nextBuf := none }) := by
    rw [popXmited, hhead]
    rfl
  have hrest : Linked (m.modVb b fun v => { v with nextBuf := none }).nextBuf bs := by
    apply Linked.congr (List.isChain_cons.mp h.linked).2
    intro c hc
    have hcb : c ≠ b := fun h => hb (h ▸ hc)
    rw [Memory.nextBuf, Memory.vb_modVb_of_ne hcb, Memory.nextBuf]
  refine ⟨_, _, hpop, ?_, requeued_modVb none, ?_⟩
  · cases bs with
    | nil =>
      have htail : q.xmitedBufHead = q.xmitedBufTail := hhead.trans h.tail.symm
      rw [if_pos htail]
      exact ⟨hrest, rfl, rfl⟩
    | cons c bs =>
      have hlast : q.xmitedBufTail = (c :: bs).getLast? := by
        rw [h.tail, List.getLast?_cons_cons]
      have hne : q.xmitedBufHead ≠ q.xmitedBufTail := by
        rw [hhead, hlast]
        intro heq
        exact hb (List.mem_of_getLast? heq.symm)
      rw [if_neg hne]
      exact ⟨hrest, (List.isChain_cons_cons.mp h.linked).1, hlast⟩
  · split <;> rfl

theorem congr (h : Xmited m q bs) (hvb : ∀ c, m'.nextBuf c = m.nextBuf c) : Xmited m' q bs :=
  ⟨h.linked.congr fun c _ => hvb c, h.head, h.tail⟩

end Xmited

/-! ## The functions on a ring -/

theorem pushXmited_hw (hw : DescId → HwDesc) :
    pushXmited q b { m with hw := hw } =
      (pushXmited q b m).map fun r => (r.1, { r.2 with hw := hw }) := by
  unfold pushXmited
  split
  · rfl
  · cases q.xmitedBufTail <;> rfl

/-- The queue and the memory after `b`, with the descriptors `d :: rest`, was transmitted. -/
structure Transmitted (b : BufId) (d : DescId) (rest : List DescId) (bs : List BufId)
    (q q' : TxQueue) (m m' : Memory) : Prop where
  queue : q'.toQueue = { q.toQueue with terminator := d }
  xmited : Xmited m' q' (bs ++ [b])
  spliced : ∃ m₀, Spliced q.terminator d rest id m₀ m' ∧ ∀ x ∉ d :: rest, m₀.hw x = m.hw x
  packet : Packet m' (q.terminator :: rest)
  segments : (q.terminator :: rest).map m'.segment = (d :: rest).map fun x => (m.vd x).segment
  totalLen : (m'.hw q.terminator).totalLen = (m.vb b).bufLength
  hw_eq : ∀ x, x ≠ q.terminator → x ∉ d :: rest → m'.hw x = m.hw x
  vd_eq : m'.vd = (vdescSwapVdesc q.terminator d m).vd
  descList : ∀ c, (m'.vb c).descList = (m.vb c).descList
  nDesc : m'.nDesc = m.nDesc

section

variable {last : DescId} {len : ℕ} (hd : (d :: rest).Nodup)
  (hlast : (d :: rest).getLast? = some last)

include hd hlast

theorem writePacket_written :
    Written xmitDesc (d :: rest) m (writePacket (d :: rest) d last len m) := by
  rw [writePacket]
  set m₀ : Memory :=
    { m with hw := thread HwDesc.setNext (fun d _ => xmitDesc (m.vd d)) none (d :: rest) m.hw }
    with hm₀
  set m₁ := m₀.modHw d fun d => { d with fs := true, totalLen := len } with hm₁
  set m₂ := m₁.modHw last fun d => { d with ls := true } with hm₂
  have hkept : ∀ {β : Type} (f : HwDesc → β) (x : DescId), (∀ c : HwDesc,
      f { c with fs := true, totalLen := len } = f c ∧ f { c with ls := true } = f c ∧
      f { c with lastAddr := some last } = f c) →
      f ((m₂.modHw d fun d => { d with lastAddr := some last }).hw x) = f (m₀.hw x) := by
    intro β f x hf
    rw [Memory.modHw_field f fun c => (hf c).2.2, hm₂, Memory.modHw_field f fun c => (hf c).2.1,
      hm₁, Memory.modHw_field f fun c => (hf c).1]
  refine thread_written hd hm₀ ?_ ?_ ?_ ?_ ?_ rfl
  · exact fun x => hkept HwDesc.nextAddr x fun _ => ⟨rfl, rfl, rfl⟩
  · exact fun x => hkept HwDesc.dataSize x fun _ => ⟨rfl, rfl, rfl⟩
  · exact fun x => hkept HwDesc.dataAddr x fun _ => ⟨rfl, rfl, rfl⟩
  · intro x hx
    have hxd : x ≠ d := fun h => hx (h ▸ List.mem_cons_self)
    have hxl : x ≠ last := fun h => hx (h ▸ List.mem_of_getLast? hlast)
    rw [Memory.hw_modHw_of_ne hxd, hm₂, Memory.hw_modHw_of_ne hxl, hm₁, Memory.hw_modHw_of_ne hxd]
  · intro x hx
    obtain rfl : d = x := Option.some.inj hx
    rw [Memory.hw_modHw_self, hlast]

theorem writePacket_ls (hx : x ∈ d :: rest) :
    ((writePacket (d :: rest) d last len m).hw x).ls = true ↔ (d :: rest).getLast? = some x := by
  rw [writePacket, hlast, Option.some.injEq]
  set m₀ : Memory :=
    { m with hw := thread HwDesc.setNext (fun d _ => xmitDesc (m.vd d)) none (d :: rest) m.hw }
  set m₁ := m₀.modHw d fun d => { d with fs := true, totalLen := len }
  set m₂ := m₁.modHw last fun d => { d with ls := true } with hm₂
  have h₁ : (m₁.hw x).ls = (m₀.hw x).ls := Memory.modHw_field HwDesc.ls fun _ => rfl
  have h₃ : ((m₂.modHw d fun d => { d with lastAddr := some last }).hw x).ls = (m₂.hw x).ls :=
    Memory.modHw_field HwDesc.ls fun _ => rfl
  have hclear : (m₀.hw x).ls = false :=
    thread_all_field (f := HwDesc.ls) (fun _ _ => rfl) hd hx
  rw [h₃, hm₂]
  by_cases hxl : x = last
  · subst hxl
    simp
  · rw [Memory.hw_modHw_of_ne hxl, h₁, hclear]
    simp [Ne.symm hxl]

omit hd hlast in
theorem writePacket_totalLen : ((writePacket (d :: rest) d last len m).hw d).totalLen = len := by
  rw [writePacket]
  set m₀ : Memory :=
    { m with hw := thread HwDesc.setNext (fun d _ => xmitDesc (m.vd d)) none (d :: rest) m.hw }
  set m₁ := m₀.modHw d fun d => { d with fs := true, totalLen := len } with hm₁
  set m₂ := m₁.modHw last fun d => { d with ls := true }
  have h₂ : (m₂.hw d).totalLen = (m₁.hw d).totalLen :=
    Memory.modHw_field HwDesc.totalLen fun _ => rfl
  have h₃ : ((m₂.modHw d fun d => { d with lastAddr := some last }).hw d).totalLen =
      (m₂.hw d).totalLen := Memory.modHw_field HwDesc.totalLen fun _ => rfl
  rw [h₃, h₂, hm₁, Memory.hw_modHw_self]

end

/-- The marks written for `d :: rest` are found on the ring, with the old terminator in the place
of `d`. -/
theorem Spliced.packet {t : DescId} (hs : Spliced t d rest id m m')
    (hlast : (m'.hw t).lastAddr = (t :: rest).getLast?) (hd : (d :: rest).Nodup)
    (hls : ∀ x ∈ d :: rest, (m.hw x).ls = true ↔ (d :: rest).getLast? = some x)
    (ht : t ∉ d :: rest) : Packet m' (t :: rest) := by
  refine ⟨⟨t, rfl, hlast⟩, fun x hx => ?_⟩
  rcases List.mem_cons.mp hx with rfl | hin
  · have hfirst : (m'.hw x).ls = (m.hw d).ls := (hs.field HwDesc.ls (fun _ => rfl) fun _ => rfl).1
    rw [hfirst, hls d List.mem_cons_self]
    cases rest with
    | nil => simp
    | cons a l =>
      rw [List.getLast?_cons_cons, List.getLast?_cons_cons]
      refine ⟨fun h => ?_, fun h => ?_⟩
      · exact absurd (List.mem_of_getLast? h) (List.nodup_cons.mp hd).1
      · exact absurd (List.mem_cons_of_mem d (List.mem_of_getLast? h)) ht
  · have hother : (m'.hw x).ls = (m.hw x).ls := (hs.field HwDesc.ls (fun _ => rfl) fun _ => rfl).2 x hin
    rw [hother, hls x (List.mem_cons_of_mem _ hin)]
    cases rest with
    | nil => cases hin
    | cons a l => rw [List.getLast?_cons_cons, List.getLast?_cons_cons]

theorem Transmitted.vd {bs : List BufId} {q' : TxQueue} (h : Transmitted b d rest bs q q' m m')
    (hxt : x ≠ q.terminator) (hxd : x ∉ d :: rest) : m'.vd x = m.vd x := by
  rw [h.vd_eq]
  exact swap_of_ne hxt fun h => hxd (h ▸ List.mem_cons_self)

theorem xmitBuf_transmitted (hx : Xmited m q bs) (hbs : bs.Nodup)
    (hc : Chain m.nextDesc (m.vb b).descList (d :: rest)) (hd : (d :: rest).Nodup)
    (ht : q.terminator ∉ d :: rest) (hn : (d :: rest).length ≤ m.nDesc) :
    ∃ q' m', xmitBuf q b m = some (q', m') ∧ Transmitted b d rest bs q q' m m' := by
  obtain ⟨last, hlast⟩ : ∃ last, (d :: rest).getLast? = some last :=
    ⟨_, List.getLast?_eq_some_getLast (List.cons_ne_nil d rest)⟩
  set m₁ := writePacket (d :: rest) d last (m.vb b).bufLength m with hm₁
  have hwritten : Written xmitDesc (d :: rest) m m₁ := writePacket_written hd hlast
  have hls : ∀ x ∈ d :: rest, (m₁.hw x).ls = true ↔ (d :: rest).getLast? = some x :=
    fun x hx => writePacket_ls hd hlast hx
  have htotal : (m₁.hw d).totalLen = (m.vb b).bufLength := writePacket_totalLen
  obtain ⟨q₁, mq, hpush, hxq, hreq, hq₁⟩ := hx.push (b := b) hbs
  set m₂ : Memory := { mq with hw := m₁.hw } with hm₂
  have hpush₁ : pushXmited q b m₁ = some (q₁, m₂) := by
    rw [hwritten.frame, pushXmited_hw, hpush]
    rfl
  have hm₂eq : m₂ = { m with hw := m₁.hw, vb := mq.vb } := by
    rw [hm₂, hreq.frame]
  have hn₂ : (d :: rest).length ≤ m₂.nDesc := by
    rw [hm₂eq]
    exact hn
  have hlast₂ : (m₂.hw d).lastAddr = (d :: rest).getLast? := hwritten.lastAddr d rfl
  obtain ⟨m', hput, hs, hlastT⟩ :=
    putPacket_spliced (m := m₂) (q := q₁.toQueue) hwritten.linked hd (hq₁ ▸ ht) hlast₂ hn₂
  rw [hq₁] at hs hlastT hput
  have hvd : m'.vd = (vdescSwapVdesc q.terminator d m).vd := by
    rw [hs.frame, hm₂eq]
    rfl
  have hvb : m'.vb = mq.vb := by
    rw [hs.frame, hm₂eq]
  refine ⟨{ q₁ with toQueue := { q.toQueue with terminator := d } }, m', ?_, rfl, ?_, ?_,
    hs.packet hlastT hd hls ht, ?_, ?_, ?_, hvd, ?_, ?_⟩
  · rw [xmitBuf, hc.walkUpTo_eq hn]
    simp only [Option.bind_eq_bind, Option.bind_some, List.head?_cons, hlast, ← hm₁, hpush₁, hq₁,
      hput]
  · exact ⟨hxq.linked.congr fun c _ => by rw [Memory.nextBuf, hvb, Memory.nextBuf], hxq.head,
      hxq.tail⟩
  · exact ⟨m₂, hs, hwritten.hw_eq⟩
  · rw [← map_swap Vdesc.segment (fun _ _ => Vdesc.segment_data) ht hd, ← hvd]
    apply List.map_congr_left
    intro x hxin
    have hsize : (m'.hw x).dataSize = (m'.vd x).dataSize := by
      have hfield := hs.field HwDesc.dataSize (fun _ => rfl) fun _ => rfl
      have hne : q.terminator ≠ d := fun h => ht (h ▸ List.mem_cons_self)
      rcases List.mem_cons.mp hxin with rfl | hrest
      · have hswap : (m'.vd q.terminator).dataSize = (m.vd d).dataSize := by
          rw [hvd]
          exact congrArg Segment.dataSize (Vdesc.segment_data (swap_left hne))
        rw [hfield.1, hswap]
        exact hwritten.dataSize d List.mem_cons_self
      · have hxt : x ≠ q.terminator := fun h => ht (h ▸ List.mem_cons_of_mem _ hrest)
        have hxd : x ≠ d := fun h => (List.nodup_cons.mp hd).1 (h ▸ hrest)
        rw [hfield.2 x hrest, hvd, swap_of_ne hxt hxd]
        exact hwritten.dataSize x (List.mem_cons_of_mem _ hrest)
    rw [Memory.segment, hsize]
    rfl
  · exact (hs.field HwDesc.totalLen (fun _ => rfl) fun _ => rfl).1.trans htotal
  · intro x hxt hxd
    rw [hs.hw_eq x hxt hxd]
    exact hwritten.hw_eq x hxd
  · intro c
    rw [hvb, hreq.descList]
  · rw [hs.frame, hm₂eq]

/-- The first completed packet is read back into the buffer it was transmitted from. -/
theorem reapXmitedBuf_relinked {hwNext : DescId} {done pending : List DescId}
    (hr : Ring m q.toQueue hwNext (ds ++ done) pending) (hp : Packet m ds)
    (hx : Xmited m q (b :: bs)) (hbs : (b :: bs).Nodup) (hn : ds.length ≤ m.nDesc) :
    ∃ q' m₁ m', reapXmitedBuf q m = some (some b, q', m') ∧
      Ring m q'.toQueue hwNext done pending ∧ q'.terminator = q.terminator ∧ Xmited m₁ q' bs ∧
      Requeued m m₁ ∧ Relinked b ds m₁ m' := by
  obtain ⟨next, hget, hring⟩ := hr.getPacket hp
  obtain ⟨first, hfirst, -⟩ := hp.lastAddr
  have hxq : Xmited m { q with toQueue := { q.toQueue with head := next } } (b :: bs) :=
    ⟨hx.linked, hx.head, hx.tail⟩
  obtain ⟨q', m₁, hpop, hx', hreq, hq'⟩ := hxq.pop hbs
  have hm₁ := hreq.frame
  have hhw : m₁.hw = m.hw := by rw [hm₁]
  have hp₁ : Packet m₁ ds := hp.congr fun d _ => by rw [hhw]
  have hassoc : ds ++ done ++ pending ++ [q.terminator] =
      ds ++ (done ++ pending ++ [q.terminator]) := by simp
  have hl₁ : Linked m₁.nextAddr ds := by
    have hall := hr.linked
    rw [hassoc] at hall
    exact hall.left.congr fun d _ => by rw [Memory.nextAddr, hhw, Memory.nextAddr]
  have hd : ds.Nodup := by
    have hall := hr.nodup
    rw [hassoc] at hall
    exact (List.nodup_append.mp hall).1
  have hn₁ : ds.length ≤ m₁.nDesc := by
    rw [hm₁]
    exact hn
  obtain ⟨m', hrelink, hrel⟩ := relink_relinked (b := b) hp₁ hl₁ hd hn₁ hfirst
  refine ⟨q', m₁, m', ?_, ?_, ?_, hx', hreq, hrel⟩
  · rw [reapXmitedBuf, hget, hfirst]
    simp only [Option.bind_eq_bind, Option.bind_some, hpop, hrelink]
  · rw [hq']
    exact hring
  · rw [hq']

theorem reapXmitedBuf_none {hwNext : DescId} {pending : List DescId}
    (hr : Ring m q.toQueue hwNext [] pending) : reapXmitedBuf q m = some (none, q, m) := by
  rw [reapXmitedBuf, hr.getPacket_none]
  rfl

/-- A flush goes over the whole ring. -/
theorem dmaFlushXmit_eq {hwNext : DescId} {done pending : List DescId}
    (hr : Ring m q.toQueue hwNext done pending)
    (hn : (done ++ pending ++ [q.terminator]).length ≤ m.nDesc) :
    dmaFlushXmit q m = some (q.terminator,
      { m with hw := writeAll (fun _ d => { d with own := .sw }) (done ++ pending) m.hw }) := by
  have hvisit : walkUntil m.nextAddr (fun d => d = q.terminator) m.nDesc q.head =
      some (done ++ pending ++ [q.terminator]) := by
    apply hr.linked.walkUntil_eq hr.head hr.nodup _ hn
    intro c _
    rw [List.getLast?_concat, decide_eq_true_iff, Option.some.injEq, eq_comm]
  rw [dmaFlushXmit, hvisit]
  simp

end Ath9kHtc.Dma
