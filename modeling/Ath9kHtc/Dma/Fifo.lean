import Ath9kHtc.Dma.Transmit

/-!
# The transmit ring as a queue

The system of the transmit ring: a client that holds buffers and transmits them, the hardware that
completes packets, and reaping.  A log of what was transmitted and of what was reaped is kept.
-/

namespace Ath9kHtc.Dma

/-- A buffer, as its client sees it. -/
structure Sent where
  buf : BufId
  segments : List Segment
  bufLength : ℕ
  deriving DecidableEq, Repr

def content (m : Memory) (b : BufId) : Sent :=
  ⟨b, (vbufDescs m b).map fun d => (m.vd d).segment, (m.vb b).bufLength⟩

/-- The data buffer of a descriptor. -/
def Memory.pair (m : Memory) (d : DescId) : ℕ × ℕ := ((m.vd d).bufAddr, (m.vd d).bufSize)

/-- The transmit ring, the hardware's pointer, the buffers the client holds, and the logs: what was
transmitted, how many packets are completed, and what was reaped. -/
structure TxSystem where
  mem : Memory
  q : TxQueue
  txDesc : DescId
  held : List BufId
  sent : List Sent
  completed : ℕ
  reaped : List Sent

inductive TxEvent where
  /-- the client writes the fields of a `VDESC` of a buffer it holds -/
  | write (d : DescId) (dataOffset dataSize control : ℕ)
  | setLength (b : BufId) (bufLength : ℕ)
  | xmit (b : BufId)
  /-- the hardware completes the packet it is about to work on -/
  | complete (o : Own)
  | reap
  | flush
  deriving DecidableEq, Repr

namespace TxSystem

/-- The descriptors of the client's buffers. -/
def heldDescs (s : TxSystem) : List DescId := s.held.flatMap (vbufDescs s.mem)

/-- The descriptors from the head of the queue to its terminator, along `nextAddr`. -/
def ring (s : TxSystem) : Option (List DescId) :=
  walkUntil s.mem.nextAddr (fun d => d = s.q.terminator) s.mem.nDesc s.q.head

/-- The hardware completes a packet, which it finds by the marks on its descriptors. -/
def complete (o : Own) (s : TxSystem) : Option TxSystem :=
  if o.Completed ∧ (s.mem.hw s.txDesc).own = .hw then do
    let ds ← walkUntil s.mem.nextAddr (fun d => (s.mem.hw d).ls) s.mem.nDesc s.txDesc
    let last ← ds.getLast?
    let next ← s.mem.nextAddr last
    some { s with
      mem := { s.mem with hw := writeAll (fun _ d => { d with own := o }) ds s.mem.hw }
      txDesc := next
      completed := s.completed + 1 }
  else none

def step : TxEvent → TxSystem → Option TxSystem
  | .write d dataOffset dataSize control, s =>
    if d ∈ s.heldDescs then
      some { s with mem := s.mem.modVd d fun v => { v with
        dataOffset := dataOffset, dataSize := dataSize, control := control } }
    else none
  | .setLength b bufLength, s =>
    if b ∈ s.held then
      some { s with mem := s.mem.modVb b fun v => { v with bufLength := bufLength } }
    else none
  | .xmit b, s =>
    if b ∈ s.held then do
      let (q, m) ← xmitBuf s.q b s.mem
      some { s with q := q, mem := m, held := s.held.erase b, sent := s.sent ++ [content s.mem b] }
    else none
  | .complete o, s => s.complete o
  | .reap, s => do
    let (buf, q, m) ← reapXmitedBuf s.q s.mem
    match buf with
    | none => some { s with q := q, mem := m }
    | some b =>
      some { s with q := q, mem := m, held := b :: s.held, reaped := s.reaped ++ [content m b] }
  | .flush, s => do
    let (txDesc, m) ← dmaFlushXmit s.q s.mem
    some { s with mem := m, txDesc := txDesc, completed := s.sent.length }

/-- A queue as `_DMAengine_init_tx_queue` leaves it, and a client with its buffers, each of one or
more `VDESC`s of its own. -/
structure Init (s : TxSystem) : Prop where
  queue : ∃ m, initTxQueue m = some (s.q, s.mem)
  txDesc : s.txDesc = s.q.head
  client : ∀ b ∈ s.held, vbufDescs s.mem b ≠ [] ∧
    Chain s.mem.nextDesc (s.mem.vb b).descList (vbufDescs s.mem b)
  bufs : s.held.Nodup
  descs : (s.q.terminator :: s.heldDescs).Nodup
  bound : (s.q.terminator :: s.heldDescs).length ≤ s.mem.nDesc
  sent : s.sent = []
  completed : s.completed = 0
  reaped : s.reaped = []

end TxSystem

/-- The transmit ring in operation. -/
def txMachine : Machine TxSystem TxEvent := .ofPartial TxSystem.Init TxSystem.step

/-! ## The layout of the ring -/

variable {m m' : Memory} {s s' : TxSystem} {b c : BufId} {d x : DescId} {ds rest : List DescId}

/-- A buffer in transmission, and the descriptors that carry it. -/
structure Flight where
  sent : Sent
  descs : List DescId

structure Carried (m : Memory) (f : Flight) : Prop where
  packet : Packet m f.descs
  segments : f.descs.map m.segment = f.sent.segments
  bufLength : ∀ d ∈ f.descs.head?, (m.hw d).totalLen = f.sent.bufLength

theorem Carried.congr {f : Flight} (h : Carried m f) (hmarks : ∀ d ∈ f.descs,
    (m'.hw d).ls = (m.hw d).ls ∧ (m'.hw d).lastAddr = (m.hw d).lastAddr ∧
    (m'.hw d).dataSize = (m.hw d).dataSize ∧ (m'.hw d).totalLen = (m.hw d).totalLen)
    (hvd : ∀ d ∈ f.descs, (m'.vd d).segment = (m.vd d).segment) : Carried m' f := by
  obtain ⟨first, hfirst, hlast⟩ := h.packet.lastAddr
  have hmem : first ∈ f.descs := List.mem_of_head? hfirst
  refine ⟨⟨⟨first, hfirst, ?_⟩, fun d hd => ?_⟩, ?_, fun d hd => ?_⟩
  · rw [(hmarks first hmem).2.1, hlast]
  · rw [(hmarks d hd).1, h.packet.ls d hd]
  · rw [← h.segments]
    apply List.map_congr_left
    intro d hd
    rw [Memory.segment, Memory.segment, hvd d hd, (hmarks d hd).2.2.1]
  · rw [(hmarks d (List.mem_of_head? hd)).2.2.2, h.bufLength d hd]

/-- Where the buffers and the descriptors are: `places` are all descriptors there are, `pairs` the
data buffers of the client. -/
structure Layout (places : List DescId) (pairs : List (ℕ × ℕ)) (s : TxSystem)
    (done pending : List Flight) : Prop where
  ring : Ring s.mem s.q.toQueue s.txDesc (done.flatMap Flight.descs) (pending.flatMap Flight.descs)
  carried : ∀ f ∈ done ++ pending, Carried s.mem f
  xmited : Xmited s.mem s.q ((done ++ pending).map fun f => f.sent.buf)
  client : ∀ b ∈ s.held, vbufDescs s.mem b ≠ [] ∧
    Chain s.mem.nextDesc (s.mem.vb b).descList (vbufDescs s.mem b)
  bufs : (s.held ++ (done ++ pending).map fun f => f.sent.buf).Nodup
  placed : (s.q.terminator :: ((done ++ pending).flatMap Flight.descs ++ s.heldDescs)).Perm places
  distinct : places.Nodup
  bound : places.length ≤ s.mem.nDesc
  paired : (((done ++ pending).flatMap Flight.descs ++ s.heldDescs).map s.mem.pair).Perm pairs
  sent : s.sent = s.reaped ++ (done ++ pending).map Flight.sent
  completed : s.completed = s.reaped.length + done.length

theorem pair_data {v w : Vdesc} (h : v.data = w.data) :
    (v.bufAddr, v.bufSize) = (w.bufAddr, w.bufSize) := by
  have hsegment := Vdesc.segment_data h
  exact Prod.ext (congrArg Segment.bufAddr hsegment) (congrArg Segment.bufSize hsegment)

namespace Layout

variable {places : List DescId} {pairs : List (ℕ × ℕ)} {done pending : List Flight}

theorem nodup (h : Layout places pairs s done pending) :
    (s.q.terminator :: ((done ++ pending).flatMap Flight.descs ++ s.heldDescs)).Nodup :=
  h.placed.nodup_iff.mpr h.distinct

/-- The descriptors the client holds are on no ring. -/
theorem heldDescs_apart (h : Layout places pairs s done pending) (hd : d ∈ s.heldDescs) :
    d ≠ s.q.terminator ∧ ∀ f ∈ done ++ pending, d ∉ f.descs := by
  obtain ⟨hterm, hall⟩ := List.nodup_cons.mp h.nodup
  refine ⟨?_, fun f hf hdf => ?_⟩
  · rintro rfl
    exact hterm (List.mem_append_right _ hd)
  · exact (List.nodup_append.mp hall).2.2 d (List.mem_flatMap.mpr ⟨f, hf, hdf⟩) d hd rfl

/-- The descriptors of a buffer apart from those of the others. -/
theorem heldDescs_perm (hb : b ∈ s.held) :
    s.heldDescs.Perm (vbufDescs s.mem b ++ (s.held.erase b).flatMap (vbufDescs s.mem)) :=
  (List.perm_cons_erase hb).flatMap_right _

theorem length_le (h : Layout places pairs s done pending) :
    (s.q.terminator :: ((done ++ pending).flatMap Flight.descs ++ s.heldDescs)).length ≤
      s.mem.nDesc := by
  rw [h.placed.length_eq]
  exact h.bound

theorem vbufDescs_length_le (h : Layout places pairs s done pending) (hb : b ∈ s.held) :
    (vbufDescs s.mem b).length ≤ s.mem.nDesc := by
  have hle := h.length_le
  have hperm := (heldDescs_perm hb).length_eq
  simp only [List.length_cons, List.length_append] at hle hperm
  omega

section

variable (h : Layout places pairs s done pending) (hb : b ∈ s.held)
  (hdr : vbufDescs s.mem b = d :: rest)

include h hb hdr

/-- The descriptors of a buffer to be transmitted are apart from all others. -/
theorem xmit_apart : (d :: rest).Nodup ∧ s.q.terminator ∉ d :: rest ∧
    (∀ x ∈ (done ++ pending).flatMap Flight.descs, x ≠ s.q.terminator ∧ x ∉ d :: rest) ∧
    ∀ x ∈ (s.held.erase b).flatMap (vbufDescs s.mem), x ≠ s.q.terminator ∧ x ∉ d :: rest := by
  have hheld := heldDescs_perm hb
  rw [hdr] at hheld
  obtain ⟨hterm, hall⟩ := List.nodup_cons.mp h.nodup
  obtain ⟨-, hheldNodup, hapart⟩ := List.nodup_append.mp hall
  obtain ⟨hd, -, hdis⟩ := List.nodup_append.mp (hheld.nodup_iff.mp hheldNodup)
  have hmem : ∀ x ∈ d :: rest, x ∈ s.heldDescs := fun x hx =>
    hheld.mem_iff.mpr (List.mem_append_left _ hx)
  refine ⟨hd, ?_, fun x hx => ⟨?_, ?_⟩, fun x hx => ⟨?_, ?_⟩⟩
  · exact fun hin => hterm (List.mem_append_right _ (hmem _ hin))
  · rintro rfl
    exact hterm (List.mem_append_left _ hx)
  · exact fun hin => hapart x hx x (hmem x hin) rfl
  · rintro rfl
    exact hterm (List.mem_append_right _ (hheld.mem_iff.mpr (List.mem_append_right _ hx)))
  · exact fun hin => hdis x hin x hx rfl

variable {q' : TxQueue} {bs : List BufId} (htr : Transmitted b d rest bs s.q q' s.mem m')

include htr

theorem xmit_ring : Ring m' q'.toQueue s.txDesc (done.flatMap Flight.descs)
    (pending.flatMap Flight.descs ++ s.q.terminator :: rest) := by
  obtain ⟨hd, ht, hflight, -⟩ := h.xmit_apart hb hdr
  obtain ⟨m₀, hspliced, hoff⟩ := htr.spliced
  rw [htr.queue]
  refine h.ring.splice_written hspliced hoff hd fun x hin hx => ?_
  rw [← List.flatMap_append] at hx
  rcases List.mem_append.mp hx with hon | hat
  · exact (hflight x hon).2 hin
  · obtain rfl := List.mem_singleton.mp hat
    exact ht hin

theorem xmit_pairs : (((done ++ pending).flatMap Flight.descs ++ s.q.terminator :: rest ++
    (s.held.erase b).flatMap (vbufDescs s.mem)).map m'.pair).Perm pairs := by
  obtain ⟨hd, ht, hflight, hothers⟩ := h.xmit_apart hb hdr
  have hkept : ∀ l : List DescId, (∀ x ∈ l, x ≠ s.q.terminator ∧ x ∉ d :: rest) →
      l.map m'.pair = l.map s.mem.pair := by
    intro l hl
    apply List.map_congr_left
    intro x hx
    rw [Memory.pair, htr.vd (hl x hx).1 (hl x hx).2, Memory.pair]
  have hnew : (s.q.terminator :: rest).map m'.pair = (d :: rest).map s.mem.pair := by
    have hswap := map_swap (fun v => (v.bufAddr, v.bufSize)) (fun _ _ => pair_data) ht hd (m := s.mem)
    rw [← htr.vd_eq] at hswap
    exact hswap
  have hheld := heldDescs_perm hb
  rw [hdr] at hheld
  refine List.Perm.trans ?_ h.paired
  simp only [List.map_append, hkept _ hflight, hnew, hkept _ hothers, List.append_assoc]
  apply List.Perm.append_left
  rw [← List.map_append]
  exact (hheld.map _).symm

/-- The buffer flies behind the others. -/
theorem xmit_carried {f : Flight} (hf : f ∈ done ++ pending ++
    [⟨content s.mem b, s.q.terminator :: rest⟩]) : Carried m' f := by
  obtain ⟨-, -, hflight, -⟩ := h.xmit_apart hb hdr
  rcases List.mem_append.mp hf with hold | hnew
  · have hapart := fun x hx => hflight x (List.mem_flatMap.mpr ⟨f, hold, hx⟩)
    apply (h.carried f hold).congr
    · intro x hx
      rw [htr.hw_eq x (hapart x hx).1 (hapart x hx).2]
      exact ⟨rfl, rfl, rfl, rfl⟩
    · intro x hx
      rw [htr.vd (hapart x hx).1 (hapart x hx).2]
  · obtain rfl := List.mem_singleton.mp hnew
    refine ⟨htr.packet, ?_, ?_⟩
    · simp only [content, hdr]
      exact htr.segments
    · rintro x ⟨rfl⟩
      exact htr.totalLen

end

theorem xmit_transmitted (h : Layout places pairs s done pending) (hb : b ∈ s.held)
    (hdr : vbufDescs s.mem b = d :: rest) :
    ∃ q' m', xmitBuf s.q b s.mem = some (q', m') ∧
      Transmitted b d rest ((done ++ pending).map fun f => f.sent.buf) s.q q' s.mem m' := by
  obtain ⟨-, hchain⟩ := h.client b hb
  obtain ⟨hd, ht, -, -⟩ := h.xmit_apart hb hdr
  have hn := h.vbufDescs_length_le hb
  rw [hdr] at hchain hn
  exact xmitBuf_transmitted h.xmited (List.nodup_append.mp h.bufs).2.1 hchain hd ht hn

/-- The layout once a buffer has been transmitted. -/
theorem transmitted {q' : TxQueue} (h : Layout places pairs s done pending) (hb : b ∈ s.held)
    (hdr : vbufDescs s.mem b = d :: rest) (htr : Transmitted b d rest
      ((done ++ pending).map fun f => f.sent.buf) s.q q' s.mem m') :
    Layout places pairs { s with
      q := q', mem := m', held := s.held.erase b, sent := s.sent ++ [content s.mem b] } done
      (pending ++ [⟨content s.mem b, s.q.terminator :: rest⟩]) := by
  have hnext : ∀ x, m'.nextDesc x = s.mem.nextDesc x := by
    intro x
    rw [Memory.nextDesc, htr.vd_eq]
    exact swap_nextDesc
  have hvbuf : vbufDescs m' = vbufDescs s.mem :=
    funext fun c => vbufDescs_congr hnext (htr.descList c) htr.nDesc
  refine ⟨?_, ?_, ?_, ?_, ?_, ?_, h.distinct, ?_, ?_, ?_, h.completed⟩
  · simpa using h.xmit_ring hb hdr htr
  · intro f hf
    rw [← List.append_assoc] at hf
    exact h.xmit_carried hb hdr htr hf
  · simpa [content] using htr.xmited
  · intro c hc
    have hheldc := h.client c (List.mem_of_mem_erase hc)
    rw [hvbuf, htr.descList]
    exact ⟨hheldc.1, hheldc.2.congr fun x _ => hnext x⟩
  · rw [← List.append_assoc, List.map_append, ← List.append_assoc]
    refine List.Perm.nodup ?_ h.bufs
    refine List.Perm.trans ?_ (List.perm_append_singleton b _).symm
    exact (List.perm_cons_erase hb).append_right _
  · refine List.Perm.trans ?_ h.placed
    have hheld := heldDescs_perm hb
    rw [hdr] at hheld
    rw [TxSystem.heldDescs, hvbuf, ← List.append_assoc, List.flatMap_append, htr.queue]
    apply List.perm_iff_count.mpr
    intro x
    have hcount := hheld.count_eq x
    simp only [List.count_cons, List.count_append, List.flatMap_singleton] at hcount ⊢
    omega
  · rw [htr.nDesc]
    exact h.bound
  · have hpairs := h.xmit_pairs hb hdr htr
    rw [TxSystem.heldDescs, hvbuf, ← List.append_assoc, List.flatMap_append]
    simpa using hpairs
  · rw [h.sent]
    simp

/-- A buffer is transmitted. -/
theorem xmit (h : Layout places pairs s done pending) (hb : b ∈ s.held) :
    ∃ s' f, TxSystem.step (.xmit b) s = some s' ∧ Layout places pairs s' done (pending ++ [f]) := by
  obtain ⟨d, rest, hdr⟩ := List.exists_cons_of_ne_nil (h.client b hb).1
  obtain ⟨q', m', hxmit, htr⟩ := h.xmit_transmitted hb hdr
  refine ⟨_, _, ?_, h.transmitted hb hdr htr⟩
  rw [TxSystem.step, if_pos hb, hxmit]
  rfl

/-- Memory the client writes to; its links and its data buffers stay. -/
theorem write (h : Layout places pairs s done pending)
    (hhw : m'.hw = s.mem.hw) (hnext : ∀ x, m'.nextDesc x = s.mem.nextDesc x)
    (hpair : ∀ x, m'.pair x = s.mem.pair x) (hn : m'.nDesc = s.mem.nDesc)
    (hlist : ∀ c, (m'.vb c).descList = (s.mem.vb c).descList)
    (hbuf : ∀ c, m'.nextBuf c = s.mem.nextBuf c)
    (hring : ∀ x ∉ s.heldDescs, m'.vd x = s.mem.vd x) :
    Layout places pairs { s with mem := m' } done pending := by
  have hvbuf : vbufDescs m' = vbufDescs s.mem := funext fun c => vbufDescs_congr hnext (hlist c) hn
  have hpairs : m'.pair = s.mem.pair := funext hpair
  refine ⟨h.ring.congr fun x _ => by rw [hhw], fun f hf => ?_, h.xmited.congr hbuf, fun c hc => ?_,
    h.bufs, ?_, h.distinct, hn ▸ h.bound, ?_, h.sent, h.completed⟩
  · apply (h.carried f hf).congr
    · intro x _
      rw [hhw]
      exact ⟨rfl, rfl, rfl, rfl⟩
    · intro x hx
      rw [hring x fun hin => (h.heldDescs_apart hin).2 f hf hx]
  · have hheld := h.client c hc
    rw [hvbuf, hlist]
    exact ⟨hheld.1, hheld.2.congr fun x _ => hnext x⟩
  · rw [TxSystem.heldDescs, hvbuf]
    exact h.placed
  · rw [TxSystem.heldDescs, hvbuf, hpairs]
    exact h.paired

theorem length_flight_le {f : Flight} {fs gs : List Flight}
    (h : Layout places pairs s done pending) (hf : done ++ pending = fs ++ f :: gs) :
    f.descs.length ≤ s.mem.nDesc := by
  have hle := h.length_le
  rw [hf] at hle
  simp only [List.flatMap_append, List.flatMap_cons, List.length_cons, List.length_append] at hle
  omega

/-- Memory whose owners alone have changed. -/
theorem recolour {done' pending' : List Flight} {n : ℕ} (h : Layout places pairs s done pending)
    (body : HwDesc → HwDesc) (l : List DescId) (hwNext : DescId)
    (hflights : done' ++ pending' = done ++ pending)
    (hring : Ring { s.mem with hw := writeAll (fun _ => body) l s.mem.hw } s.q.toQueue hwNext
      (done'.flatMap Flight.descs) (pending'.flatMap Flight.descs))
    (hl : l.Nodup) (hbody : ∀ d, (body d).ls = d.ls ∧ (body d).lastAddr = d.lastAddr ∧
      (body d).dataSize = d.dataSize ∧ (body d).totalLen = d.totalLen)
    (hn : n = s.reaped.length + done'.length) :
    Layout places pairs { s with
      mem := { s.mem with hw := writeAll (fun _ => body) l s.mem.hw }
      txDesc := hwNext
      completed := n } done' pending' := by
  refine ⟨hring, ?_, ?_, h.client, ?_, ?_, h.distinct, h.bound, ?_, ?_, hn⟩
  · intro f hf
    rw [hflights] at hf
    refine (h.carried f hf).congr (fun d _ => ?_) fun d _ => rfl
    by_cases hd : d ∈ l
    · simp only [writeAll_of_mem hl hd]
      exact hbody (s.mem.hw d)
    · simp only [writeAll_of_notMem hd, and_self]
  · rw [hflights]
    exact ⟨h.xmited.linked, h.xmited.head, h.xmited.tail⟩
  · rw [hflights]
    exact h.bufs
  · rw [hflights]
    exact h.placed
  · rw [hflights]
    exact h.paired
  · rw [hflights]
    exact h.sent

/-- The hardware completes the first of the packets it owns. -/
theorem complete {f : Flight} {o : Own} (h : Layout places pairs s done (f :: pending))
    (ho : o.Completed) :
    ∃ s', s.complete o = some s' ∧ Layout places pairs s' (done ++ [f]) pending := by
  have hpacket := (h.carried f (by simp)).packet
  have hring := h.ring
  rw [List.flatMap_cons] at hring
  have hnext : (f.descs ++ (pending.flatMap Flight.descs ++ [s.q.terminator])).head? =
      some s.txDesc := by
    rw [← List.append_assoc]
    exact hring.next
  have hfirst : f.descs.head? = some s.txDesc := by
    rwa [List.head?_append_of_ne_nil _ hpacket.ne_nil] at hnext
  have hlinked := hring.linked
  have hnodup := hring.nodup
  have hassoc : done.flatMap Flight.descs ++ (f.descs ++ pending.flatMap Flight.descs) ++
      [s.q.terminator] = done.flatMap Flight.descs ++
      (f.descs ++ (pending.flatMap Flight.descs ++ [s.q.terminator])) := by simp
  rw [hassoc] at hlinked hnodup
  have hd := (List.nodup_append.mp (List.nodup_append.mp hnodup).2.1).1
  have hvisit := hlinked.right.left.walkUntil_eq hfirst hd hpacket.ls (h.length_flight_le rfl)
  have hlast := List.getLast?_eq_some_getLast hpacket.ne_nil
  obtain ⟨next, hnew⟩ : ∃ next,
      (pending.flatMap Flight.descs ++ [s.q.terminator]).head? = some next := by
    cases pending.flatMap Flight.descs <;> exact ⟨_, rfl⟩
  have hlink := hlinked.right.next_getLast hlast hnew
  have hown : (s.mem.hw s.txDesc).own = .hw :=
    hring.owned _ (List.mem_append_left _ (List.mem_of_head? hfirst))
  refine ⟨_, ?_, h.recolour (fun d => { d with own := o }) f.descs next (by simp) ?_ hd
    (fun _ => ⟨rfl, rfl, rfl, rfl⟩) rfl⟩
  · rw [TxSystem.complete, if_pos ⟨ho, hown⟩, hvisit]
    simp only [Option.bind_eq_bind, Option.bind_some, hlast, hlink, h.completed,
      List.length_append, List.length_singleton]
    rfl
  · have hfull : Ring { s.mem with hw := writeAll (fun _ d => { d with own := o }) f.descs s.mem.hw }
        s.q.toQueue next (done.flatMap Flight.descs ++ f.descs) (pending.flatMap Flight.descs) := by
      refine hring.complete ?_ ?_ ?_ hnew
      · intro d
        by_cases hdf : d ∈ f.descs
        · simp only [Memory.nextAddr, writeAll_of_mem hd hdf]
        · simp only [Memory.nextAddr, writeAll_of_notMem hdf]
      · intro d hdf
        simp only [writeAll_of_mem hd hdf]
        exact ho
      · intro d hdf
        simp only [writeAll_of_notMem hdf]
    simpa using hfull

/-- Without a packet the hardware owns there is none to complete. -/
theorem complete_none {o : Own} (h : Layout places pairs s done []) : s.complete o = none := by
  have hnext : s.q.terminator = s.txDesc := Option.some.inj h.ring.next
  rw [TxSystem.complete, if_neg]
  rintro ⟨-, hown⟩
  rw [← hnext, h.ring.terminator] at hown
  cases hown

/-- Everything the hardware has is given back. -/
theorem flush (h : Layout places pairs s done pending) :
    ∃ s', TxSystem.step .flush s = some s' ∧ s'.sent = s.sent ∧ s'.reaped = s.reaped ∧
      Layout places pairs s' (done ++ pending) [] := by
  have hle := h.length_le
  have hn : (done.flatMap Flight.descs ++ pending.flatMap Flight.descs ++ [s.q.terminator]).length
      ≤ s.mem.nDesc := by
    simp only [List.flatMap_append, List.length_cons, List.length_append] at hle
    simp only [List.length_append, List.length_singleton]
    omega
  have hd := (List.nodup_append.mp h.ring.nodup).1
  have hlen : s.sent.length = s.reaped.length + (done ++ pending).length := by
    rw [h.sent, List.length_append, List.length_map]
  have hlayout := h.recolour (fun d => { d with own := .sw })
    (done.flatMap Flight.descs ++ pending.flatMap Flight.descs) s.q.terminator
    (List.append_nil (done ++ pending)) ?_ hd (fun _ => ⟨rfl, rfl, rfl, rfl⟩) hlen
  · refine ⟨_, ?_, ?_, ?_, hlayout⟩
    · rw [TxSystem.step, dmaFlushXmit_eq h.ring hn]
      rfl
    · rfl
    · rfl
  · apply h.ring.mark
    · intro d
      by_cases hdf : d ∈ done.flatMap Flight.descs ++ pending.flatMap Flight.descs
      · simp only [Memory.nextAddr, writeAll_of_mem hd hdf]
      · simp only [Memory.nextAddr, writeAll_of_notMem hdf]
    · simp
    · rfl
    · intro d hdf
      rw [List.flatMap_append] at hdf
      simp only [writeAll_of_mem hd hdf]
      exact .inl rfl
    · intro d hdf
      cases hdf
    · simp only [writeAll_of_notMem h.ring.terminator_notMem, h.ring.terminator]

theorem reap_relinked {f : Flight} (h : Layout places pairs s (f :: done) pending) :
    ∃ q m₁ m', reapXmitedBuf s.q s.mem = some (some f.sent.buf, q, m') ∧
      Ring s.mem q.toQueue s.txDesc (done.flatMap Flight.descs) (pending.flatMap Flight.descs) ∧
      q.terminator = s.q.terminator ∧ Xmited m₁ q ((done ++ pending).map fun f => f.sent.buf) ∧
      Requeued s.mem m₁ ∧ Relinked f.sent.buf f.descs m₁ m' := by
  have hsplit : f :: done ++ pending = [] ++ f :: (done ++ pending) := rfl
  have hring := h.ring
  rw [List.flatMap_cons] at hring
  have hxmited := h.xmited
  rw [List.cons_append, List.map_cons] at hxmited
  have hbufs := h.bufs
  rw [List.cons_append, List.map_cons] at hbufs
  exact reapXmitedBuf_relinked hring (h.carried f List.mem_cons_self).packet hxmited
    (List.nodup_append.mp hbufs).2.1 (h.length_flight_le hsplit)

/-- The first completed packet becomes a buffer of the client again, with what it was transmitted
with. -/
theorem reap {f : Flight} (h : Layout places pairs s (f :: done) pending) :
    ∃ q m s', reapXmitedBuf s.q s.mem = some (some f.sent.buf, q, m) ∧
      TxSystem.step .reap s = some s' ∧ s'.sent = s.sent ∧ s'.reaped = s.reaped ++ [f.sent] ∧
      Layout places pairs s' done pending := by
  have hcarried := h.carried f List.mem_cons_self
  have hsplit : f :: done ++ pending = [] ++ f :: (done ++ pending) := rfl
  have hlen := h.length_flight_le hsplit
  have hbufs := h.bufs
  rw [List.cons_append, List.map_cons] at hbufs
  obtain ⟨q, m₁, m', hreap, hring', hterm, hx', hreq, hrel⟩ := h.reap_relinked
  have hm₁ := hreq.frame
  have hm' := hrel.frame
  have hhw₁ : m₁.hw = s.mem.hw := by rw [hm₁]
  have hvd₁ : m₁.vd = s.mem.vd := by rw [hm₁]
  have hhw : m'.hw = s.mem.hw := by rw [hm', hhw₁]
  have hn : m'.nDesc = s.mem.nDesc := by rw [hm', hm₁]
  have hnodup := h.nodup
  rw [List.cons_append, List.flatMap_cons, List.append_assoc] at hnodup
  obtain ⟨-, hall⟩ := List.nodup_cons.mp hnodup
  have hapart := (List.nodup_append.mp hall).2.2
  have hself : vbufDescs m' f.sent.buf = f.descs := by
    apply vbufDescs_eq hrel.chain
    rw [hn]
    exact hlen
  have hvd : ∀ x ∉ f.descs, m'.vd x = s.mem.vd x := fun x hx => by rw [hrel.vd_eq x hx, hvd₁]
  have hpair : m'.pair = s.mem.pair := by
    funext x
    by_cases hx : x ∈ f.descs
    · have hdata := pair_data (hrel.data x hx)
      rw [hvd₁] at hdata
      exact hdata
    · rw [Memory.pair, hvd x hx, Memory.pair]
  have hne : ∀ c ∈ s.held, c ≠ f.sent.buf := by
    intro c hc
    exact (List.nodup_append.mp hbufs).2.2 c hc _ List.mem_cons_self
  have hchain : ∀ c ∈ s.held,
      Chain m'.nextDesc (m'.vb c).descList (vbufDescs s.mem c) := by
    intro c hc
    rw [hrel.vb_eq c (hne c hc), hreq.descList]
    refine (h.client c hc).2.congr fun x hx => ?_
    have hxh : x ∈ s.heldDescs := List.mem_flatMap.mpr ⟨c, hc, hx⟩
    rw [Memory.nextDesc, hvd x ((h.heldDescs_apart hxh).2 f List.mem_cons_self), Memory.nextDesc]
  have hvbuf : ∀ c ∈ s.held, vbufDescs m' c = vbufDescs s.mem c := fun c hc =>
    vbufDescs_eq (hchain c hc) (hn ▸ h.vbufDescs_length_le hc)
  have hheld : (f.sent.buf :: s.held).flatMap (vbufDescs m') = f.descs ++ s.heldDescs := by
    rw [List.flatMap_cons, hself, TxSystem.heldDescs, List.flatMap_congr hvbuf]
  have hcontent : content m' f.sent.buf = f.sent := by
    obtain ⟨first, hfirst, -⟩ := hcarried.packet.lastAddr
    have hsegments := hrel.segment
    have hsame : m₁.segment = s.mem.segment := by
      funext x
      rw [Memory.segment, Memory.segment, hhw₁, hvd₁]
    rw [hsame, hcarried.segments] at hsegments
    have hlength := hrel.bufLength first hfirst
    rw [hhw₁, hcarried.bufLength first hfirst] at hlength
    rw [content, hself, hsegments, hlength]
  refine ⟨q, m', { s with
    q := q, mem := m', held := f.sent.buf :: s.held, reaped := s.reaped ++ [f.sent] }, hreap, ?_,
    rfl, rfl, ?_⟩
  · rw [TxSystem.step, hreap]
    simp only [Option.bind_eq_bind, Option.bind_some, hcontent]
  refine ⟨?_, ?_, ?_, ?_, ?_, ?_, h.distinct, ?_, ?_, ?_, ?_⟩
  · exact hring'.congr fun x _ => by rw [hhw]
  · intro g hg
    apply (h.carried g (List.mem_cons_of_mem _ hg)).congr
    · intro x _
      rw [hhw]
      exact ⟨rfl, rfl, rfl, rfl⟩
    · intro x hx
      have hxf : x ∉ f.descs := fun hin => hapart x hin x
        (List.mem_append_left _ (List.mem_flatMap.mpr ⟨g, hg, hx⟩)) rfl
      rw [hvd x hxf]
  · apply hx'.congr
    intro c
    by_cases hc : c = f.sent.buf
    · subst hc
      exact hrel.nextBuf
    · rw [Memory.nextBuf, hrel.vb_eq c hc, Memory.nextBuf]
  · intro c hc
    rcases List.mem_cons.mp hc with rfl | hold
    · rw [hself]
      exact ⟨hcarried.packet.ne_nil, hrel.chain⟩
    · rw [hvbuf c hold]
      exact ⟨(h.client c hold).1, hchain c hold⟩
  · have hmoved := List.perm_middle.nodup_iff.mp hbufs
    exact hmoved
  · rw [TxSystem.heldDescs, hheld, hterm]
    refine List.Perm.trans ?_ h.placed
    apply List.perm_iff_count.mpr
    intro x
    simp only [List.cons_append, List.flatMap_cons, List.count_cons, List.count_append]
    omega
  · rw [hn]
    exact h.bound
  · rw [TxSystem.heldDescs, hheld, hpair]
    refine List.Perm.trans ?_ h.paired
    apply List.Perm.map
    apply List.perm_iff_count.mpr
    intro x
    simp only [List.cons_append, List.flatMap_cons, List.count_append]
    omega
  · rw [h.sent]
    simp
  · rw [h.completed]
    simp only [List.length_cons, List.length_append, List.length_nil]
    omega

/-- Nothing is reaped while no packet is completed. -/
theorem reap_null (h : Layout places pairs s [] pending) :
    reapXmitedBuf s.q s.mem = some (none, s.q, s.mem) :=
  reapXmitedBuf_none h.ring

end Layout

/-! ## Runs -/

/-- A ring on which nothing is transmitted, and a client with its buffers. -/
theorem Layout.idle (hhead : s.q.head = s.q.terminator) (htx : s.txDesc = s.q.terminator)
    (hown : (s.mem.hw s.q.terminator).own = .sw)
    (hxmited : s.q.xmitedBufHead = none ∧ s.q.xmitedBufTail = none)
    (hclient : ∀ b ∈ s.held, vbufDescs s.mem b ≠ [] ∧
      Chain s.mem.nextDesc (s.mem.vb b).descList (vbufDescs s.mem b))
    (hbufs : s.held.Nodup) (hdescs : (s.q.terminator :: s.heldDescs).Nodup)
    (hbound : (s.q.terminator :: s.heldDescs).length ≤ s.mem.nDesc) (hsent : s.sent = s.reaped)
    (hcompleted : s.completed = s.reaped.length) :
    Layout (s.q.terminator :: s.heldDescs) (s.heldDescs.map s.mem.pair) s [] [] := by
  refine ⟨⟨.singleton _, by simp, ?_, ?_, ?_, ?_, hown⟩, ?_, ?_, hclient, ?_, ?_, hdescs, hbound,
    ?_, ?_, ?_⟩
  · simpa using hhead.symm
  · simpa using htx.symm
  · rintro d ⟨⟩
  · rintro d ⟨⟩
  · rintro f ⟨⟩
  · exact ⟨.nil, hxmited.1, hxmited.2⟩
  · simpa using hbufs
  · exact .refl _
  · exact .refl _
  · simpa using hsent
  · simpa using hcompleted

theorem Init_layout (h : s.Init) :
    Layout (s.q.terminator :: s.heldDescs) (s.heldDescs.map s.mem.pair) s [] [] := by
  obtain ⟨m, hm⟩ := h.queue
  simp only [initTxQueue, initRxQueue, Option.bind_eq_bind, Option.bind_eq_some_iff,
    Option.some.injEq, Prod.mk.injEq, Prod.exists] at hm
  obtain ⟨q, m₁, ⟨d, m₂, -, hq, hm₂⟩, hsq, hsm⟩ := hm
  have hown : (s.mem.hw s.q.terminator).own = .sw := by
    rw [← hsq, ← hsm, ← hq, ← hm₂, Memory.hw_modHw_self]
    rfl
  have hhead : s.q.head = s.q.terminator := by rw [← hsq, ← hq]
  have hxmited : s.q.xmitedBufHead = none ∧ s.q.xmitedBufTail = none := by
    rw [← hsq]
    exact ⟨rfl, rfl⟩
  apply Layout.idle hhead (h.txDesc.trans hhead) hown hxmited h.client h.bufs h.descs h.bound
  · rw [h.sent, h.reaped]
  · rw [h.completed, h.reaped]
    rfl

namespace Layout

variable {places : List DescId} {pairs : List (ℕ × ℕ)} {done pending : List Flight}

/-- Every event leaves the buffers laid out, each in its turn. -/
theorem step {e : TxEvent} (h : Layout places pairs s done pending)
    (hs : TxSystem.step e s = some s') : ∃ done' pending', Layout places pairs s' done' pending' := by
  cases e with
  | write d dataOffset dataSize control =>
    rw [TxSystem.step, Option.ite_none_right_eq_some] at hs
    obtain ⟨hd, hs⟩ := hs
    cases hs
    refine ⟨_, _, h.write rfl ?_ ?_ rfl (fun _ => rfl) (fun _ => rfl) ?_⟩
    · exact fun x => Memory.modVd_field Vdesc.nextDesc fun _ => rfl
    · exact fun x => Memory.modVd_field (fun v => (v.bufAddr, v.bufSize)) fun _ => rfl
    · intro x hx
      exact Memory.vd_modVd_of_ne fun heq => hx (heq ▸ hd)
  | setLength b bufLength =>
    rw [TxSystem.step, Option.ite_none_right_eq_some] at hs
    obtain ⟨-, hs⟩ := hs
    cases hs
    refine ⟨_, _, h.write rfl (fun _ => rfl) (fun _ => rfl) rfl ?_ ?_ fun _ _ => rfl⟩
    · exact fun c => Memory.modVb_field Vbuf.descList fun _ => rfl
    · exact fun c => Memory.modVb_field Vbuf.nextBuf fun _ => rfl
  | xmit b =>
    have hb : b ∈ s.held := by
      by_contra hb
      rw [TxSystem.step, if_neg hb] at hs
      cases hs
    obtain ⟨s₁, f, hs₁, hl⟩ := h.xmit hb
    obtain rfl : s₁ = s' := Option.some.inj (hs₁.symm.trans hs)
    exact ⟨_, _, hl⟩
  | complete o =>
    rw [TxSystem.step] at hs
    cases pending with
    | nil =>
      rw [h.complete_none] at hs
      cases hs
    | cons f pending =>
      have ho : o.Completed := by
        by_contra ho
        rw [TxSystem.complete, if_neg fun hc => ho hc.1] at hs
        cases hs
      obtain ⟨s₁, hs₁, hl⟩ := h.complete ho
      obtain rfl : s₁ = s' := Option.some.inj (hs₁.symm.trans hs)
      exact ⟨_, _, hl⟩
  | reap =>
    cases done with
    | nil =>
      rw [TxSystem.step, h.reap_null] at hs
      cases hs
      exact ⟨_, _, h⟩
    | cons f done =>
      obtain ⟨q, m, s₁, -, hs₁, -, -, hl⟩ := h.reap
      obtain rfl : s₁ = s' := Option.some.inj (hs₁.symm.trans hs)
      exact ⟨_, _, hl⟩
  | flush =>
    obtain ⟨s₁, hs₁, -, -, hl⟩ := h.flush
    obtain rfl : s₁ = s' := Option.some.inj (hs₁.symm.trans hs)
    exact ⟨_, _, hl⟩

end Layout

/-- So many reaps in a row. -/
def TxSystem.reaps : ℕ → TxSystem → Option TxSystem
  | 0, s => some s
  | n + 1, s => (TxSystem.step .reap s).bind (reaps n)

/-- All completed packets can be reaped. -/
theorem Layout.reaps {places : List DescId} {pairs : List (ℕ × ℕ)} {done : List Flight}
    (h : Layout places pairs s done []) : ∃ s', s.reaps done.length = some s' ∧ s'.sent = s.sent ∧
      s'.reaped = s.reaped ++ done.map Flight.sent := by
  induction done generalizing s with
  | nil => exact ⟨s, rfl, rfl, (List.append_nil _).symm⟩
  | cons f done ih =>
    obtain ⟨q, m, s₁, -, hs₁, hsent, hreaped, hl⟩ := h.reap
    obtain ⟨s', hs', hsent', hreaped'⟩ := ih hl
    refine ⟨s', ?_, hsent'.trans hsent, ?_⟩
    · rw [List.length_cons, TxSystem.reaps, hs₁]
      exact hs'
    · rw [hreaped', hreaped]
      simp

theorem Layout.of_steps {s₀ : TxSystem} (hi : s₀.Init)
    (hr : txMachine.StepsWhere (fun _ _ => True) s₀ s) :
    ∃ done pending, Layout (s₀.q.terminator :: s₀.heldDescs) (s₀.heldDescs.map s₀.mem.pair) s
      done pending := by
  induction hr with
  | refl => exact ⟨_, _, Init_layout hi⟩
  | tail _ hlast ih =>
    obtain ⟨e, -, hs⟩ := hlast
    obtain ⟨done, pending, h⟩ := ih
    exact h.step hs

theorem Layout.ring_eq {places : List DescId} {pairs : List (ℕ × ℕ)} {done pending : List Flight}
    (h : Layout places pairs s done pending) :
    s.ring = some ((done ++ pending).flatMap Flight.descs ++ [s.q.terminator]) := by
  have hle := h.length_le
  rw [List.flatMap_append] at hle ⊢
  apply h.ring.linked.walkUntil_eq h.ring.head h.ring.nodup
  · intro c _
    rw [List.getLast?_concat, decide_eq_true_iff, Option.some.injEq, eq_comm]
  · simp only [List.length_cons, List.length_append] at hle
    simp only [List.length_append, List.length_singleton]
    omega

/-- In every run the ring from the head ends in the terminator, which the software owns.  Every
descriptor is on the ring, in a buffer of the client or the terminator, and every data buffer is on
the ring or with the client.  Buffers are reaped in the order they were transmitted in, with what
they were transmitted with, and there is none to reap just when all completed ones have been.  All
of the client's buffers can be transmitted, and after a flush all outstanding ones can be reaped. -/
theorem transmit_fifo {s₀ : TxSystem} (hi : s₀.Init)
    (hr : txMachine.StepsWhere (fun _ _ => True) s₀ s) :
    (∃ ring, s.ring = some (ring ++ [s.q.terminator]) ∧ (s.mem.hw s.q.terminator).own = .sw ∧
      (ring ++ s.q.terminator :: s.heldDescs).Nodup ∧
      (ring ++ s.q.terminator :: s.heldDescs).Perm (s₀.q.terminator :: s₀.heldDescs) ∧
      ((ring ++ s.heldDescs).map s.mem.pair).Perm (s₀.heldDescs.map s₀.mem.pair)) ∧
    s.reaped <+: s.sent ∧
    (∃ buf q m, reapXmitedBuf s.q s.mem = some (buf, q, m) ∧
      (buf = none ↔ s.completed = s.reaped.length)) ∧
    (∀ b ∈ s.held, (TxSystem.step (.xmit b) s).isSome) ∧
    ∃ s₁ s₂, TxSystem.step .flush s = some s₁ ∧
      s₁.reaps (s.sent.length - s.reaped.length) = some s₂ ∧ s₂.sent = s.sent ∧
      s₂.reaped = s.sent := by
  obtain ⟨done, pending, h⟩ := Layout.of_steps hi hr
  refine ⟨⟨_, h.ring_eq, h.ring.terminator, ?_, ?_, h.paired⟩, ?_, ?_, fun b hb => ?_, ?_⟩
  · exact List.perm_middle.nodup_iff.mpr h.nodup
  · exact List.perm_middle.trans h.placed
  · rw [h.sent]
    exact List.prefix_append _ _
  · cases done with
    | nil =>
      refine ⟨_, _, _, h.reap_null, ?_⟩
      rw [h.completed]
      simp
    | cons f done =>
      obtain ⟨q, m, -, hreap, -⟩ := h.reap
      refine ⟨_, _, _, hreap, ?_⟩
      rw [h.completed]
      simp
  · obtain ⟨s', f, hs', -⟩ := h.xmit hb
    rw [hs']
    rfl
  · obtain ⟨s₁, hs₁, hsent₁, hreaped₁, hl⟩ := h.flush
    obtain ⟨s₂, hs₂, hsent₂, hreaped₂⟩ := hl.reaps
    have hlen : (done ++ pending).length = s.sent.length - s.reaped.length := by
      rw [h.sent]
      simp
    refine ⟨s₁, s₂, hs₁, hlen ▸ hs₂, hsent₂.trans hsent₁, ?_⟩
    rw [hreaped₂, hreaped₁, h.sent]

/-- A free descriptor, a buffer of two descriptors and one of one. -/
def twoBuffers : Memory where
  hw _ := {}
  vd
    | 1 => { nextDesc := some 2, bufAddr := 1000, bufSize := 320, dataSize := 300 }
    | 2 => { bufAddr := 2000, bufSize := 320, dataSize := 100 }
    | 3 => { bufAddr := 3000, bufSize := 320, dataOffset := 8, dataSize := 40 }
    | _ => {}
  vb
    | 0 => { descList := some 1, bufLength := 400 }
    | 1 => { descList := some 3, bufLength := 40 }
    | _ => {}
  nDesc := 4
  freeVdescHead := some 0
  freeBufHead := none

/-- The client of `twoBuffers`. -/
def twoBuffersStart : TxSystem where
  mem := { twoBuffers with freeVdescHead := none }.modVd 0 (fun v => { v with nextDesc := none })
    |>.modHw 0 fun _ => initUsbDesc
  q := { head := 0, terminator := 0, xmitedBufHead := none, xmitedBufTail := none }
  txDesc := 0
  held := [0, 1]
  sent := []
  completed := 0
  reaped := []

theorem twoBuffersStart_init : twoBuffersStart.Init := by
  refine ⟨⟨twoBuffers, rfl⟩, rfl, ?_, ?_, ?_, ?_, rfl, rfl, rfl⟩
  · intro b hb
    simp only [twoBuffersStart, List.mem_cons, List.not_mem_nil, or_false] at hb
    rcases hb with rfl | rfl
    · exact ⟨by decide, rfl, rfl, rfl⟩
    · exact ⟨by decide, rfl, rfl⟩
  all_goals decide

/-- Both buffers transmitted, one packet completed and reaped, and its buffer transmitted again. -/
theorem transmit_fifo_reused : ∃ s : TxSystem, s.sent.length = 3 ∧ s.completed = 1 ∧
    (∃ ring, s.ring = some (ring ++ [s.q.terminator])) ∧ s.reaped <+: s.sent := by
  obtain ⟨s, hsteps, hsent, hcompleted⟩ := Machine.exists_of_runWhere TxSystem.Init TxSystem.step
    (fun _ _ => True) (P := fun s => s.sent.length = 3 ∧ s.completed = 1) (s := twoBuffersStart)
    [.xmit 0, .xmit 1, .complete .sw, .reap, .xmit 0] (by decide +kernel)
  obtain ⟨⟨ring, hring, -⟩, hreaped, -⟩ := transmit_fifo twoBuffersStart_init hsteps
  exact ⟨s, hsent, hcompleted, ⟨ring, hring⟩, hreaped⟩

end Ath9kHtc.Dma
