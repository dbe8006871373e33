import Ath9kHtc.Dma.Receive
import Ath9kHtc.Lib.Run

/-!
# The receive ring in operation

The system of the receive ring: data buffers are configured, the hardware fills descriptors, packets
are reaped and buffers are returned.  A log of what the hardware filled and of what was reaped is
kept.
-/

namespace Ath9kHtc.Dma

/-- The receive ring, the hardware's pointer, the buffers that are reaped and not yet returned, the
data buffers configured so far, and the logs: where the hardware put each packet, and where the
reaped ones were found. -/
structure RxSystem where
  mem : Memory
  q : Queue
  rxDesc : DescId
  held : List BufId
  configured : List ℕ
  filled : List (List (ℕ × ℕ))
  reaped : List (List (ℕ × ℕ))

inductive RxEvent where
  /-- as many descriptors as there are addresses, which `adf_os_mem_alloc` returned -/
  | config (addrs : List ℕ) (bufSize : ℕ)
  /-- the hardware receives a packet in segments of these sizes -/
  | fill (sizes : List ℕ) (totalLen : ℕ) (o : Own)
  | reap
  /-- the client writes the fields of a `VDESC` of a buffer it holds -/
  | write (d : DescId) (dataOffset dataSize control : ℕ)
  | ret (b : BufId)
  deriving DecidableEq, Repr

/-- The part of a data buffer that holds data, of a `VDESC` and of a descriptor on the ring. -/
def Vdesc.area (v : Vdesc) : ℕ × ℕ := (v.bufAddr + v.dataOffset, v.dataSize)

def Memory.area (m : Memory) (d : DescId) : ℕ × ℕ :=
  ((m.vd d).bufAddr + (m.vd d).dataOffset, (m.hw d).dataSize)

/-- The descriptors the hardware takes from `d` on for `n` segments. -/
def ownedFrom (m : Memory) : ℕ → DescId → Option (List DescId)
  | 0, _ => some []
  | n + 1, d =>
    if (m.hw d).own = .hw then (m.nextAddr d).bind fun e => (ownedFrom m n e).map (d :: ·)
    else none

/-- What the hardware writes to the descriptors it has filled. -/
def fillDescs (o : Own) (totalLen : ℕ) (last : DescId) :
    List (DescId × ℕ) → (DescId → HwDesc) → DescId → HwDesc
  | [], hw => hw
  | (d, size) :: l, hw => fillDescs o totalLen last l (Function.update hw d { hw d with
      own := o, fs := false, ls := d = last, dataSize := size, totalLen := totalLen })

/-- The memory after the hardware received a packet into `ds`. -/
def fillPacket (o : Own) (totalLen : ℕ) (ds : List DescId) (sizes : List ℕ) (first last : DescId)
    (m : Memory) : Memory :=
  Memory.modHw { m with hw := fillDescs o totalLen last (ds.zip sizes) m.hw } first
    fun c => { c with fs := true, lastAddr := some last }

namespace RxSystem

def heldDescs (s : RxSystem) : List DescId := s.held.flatMap (vbufDescs s.mem)

/-- The descriptors from the head of the queue to its terminator, along `nextAddr`. -/
def ring (s : RxSystem) : Option (List DescId) :=
  walkUntil s.mem.nextAddr (fun d => d = s.q.terminator) s.mem.nDesc s.q.head

/-- The hardware receives a packet. -/
def fill (sizes : List ℕ) (totalLen : ℕ) (o : Own) (s : RxSystem) : Option RxSystem :=
  if o.Completed then do
    let ds ← ownedFrom s.mem sizes.length s.rxDesc
    let first ← ds.head?
    let last ← ds.getLast?
    let next ← s.mem.nextAddr last
    some { s with
      mem := fillPacket o totalLen ds sizes first last s.mem
      rxDesc := next
      filled := s.filled ++ [(ds.zip sizes).map fun p => ((s.mem.hw p.1).dataAddr, p.2)] }
  else none

def step : RxEvent → RxSystem → Option RxSystem
  | .config addrs bufSize, s =>
    if (s.configured ++ addrs).Nodup then do
      let (q, m) ← configRxQueue s.q addrs bufSize s.mem
      some { s with q := q, mem := m, configured := s.configured ++ addrs }
    else none
  | .fill sizes totalLen o, s => s.fill sizes totalLen o
  | .reap, s => do
    let (buf, q, m) ← reapRecvBuf s.q s.mem
    match buf with
    | none => some { s with q := q, mem := m }
    | some b => some { s with
        q := q, mem := m, held := b :: s.held
        reaped := s.reaped ++ [(vbufDescs m b).map fun d => (m.vd d).area] }
  | .write d dataOffset dataSize control, s =>
    if d ∈ s.heldDescs then
      some { s with mem := s.mem.modVd d fun v => { v with
        dataOffset := dataOffset, dataSize := dataSize, control := control } }
    else none
  | .ret b, s =>
    if b ∈ s.held then do
      let (q, m) ← returnRecvBuf s.q b s.mem
      some { s with q := q, mem := m, held := s.held.erase b }
    else none

/-- A queue as `_DMAengine_init_rx_queue` leaves it, with `VDESC`s and `VBUF`s to allocate. -/
structure Init (s : RxSystem) : Prop where
  queue : ∃ m, initRxQueue m = some (s.q, s.mem)
  rxDesc : s.rxDesc = s.q.head
  descs : ∃ free, Chain s.mem.nextDesc s.mem.freeVdescHead free ∧
    (s.q.terminator :: free).Nodup ∧ (s.q.terminator :: free).length ≤ s.mem.nDesc
  bufs : ∃ free, Chain s.mem.nextBuf s.mem.freeBufHead free ∧ free.Nodup
  held : s.held = []
  configured : s.configured = []
  filled : s.filled = []
  reaped : s.reaped = []

end RxSystem

def rxMachine : Machine RxSystem RxEvent := .ofPartial RxSystem.Init RxSystem.step

/-! ## What the hardware takes -/

variable {m m' : Memory} {s s' : RxSystem} {b c : BufId} {d x t : DescId}
  {ds rest pending : List DescId}

theorem ownedFrom_prefix {n : ℕ} (hl : Linked m.nextAddr (pending ++ [t]))
    (hd : (pending ++ [t]).head? = some d) (ht : (m.hw t).own ≠ .hw)
    (h : ownedFrom m n d = some ds) : ∃ rest, pending = ds ++ rest ∧ ds.length = n := by
  induction n generalizing d ds pending with
  | zero =>
    cases h
    exact ⟨pending, rfl, rfl⟩
  | succ n ih =>
    rw [ownedFrom, Option.ite_none_right_eq_some] at h
    obtain ⟨hown, h⟩ := h
    obtain ⟨e, hnext, h⟩ := Option.bind_eq_some_iff.mp h
    obtain ⟨l, hrest, rfl⟩ := Option.map_eq_some_iff.mp h
    cases pending with
    | nil =>
      obtain rfl : t = d := Option.some.inj hd
      exact absurd hown ht
    | cons a pending =>
      obtain rfl : a = d := Option.some.inj hd
      obtain ⟨hlink, htail⟩ := List.isChain_cons.mp hl
      obtain ⟨f, hf⟩ : ∃ f, (pending ++ [t]).head? = some f := by
        cases pending <;> exact ⟨_, rfl⟩
      obtain rfl : f = e := Option.some.inj ((hlink f hf).symm.trans hnext)
      obtain ⟨rest, rfl, hlen⟩ := ih htail hf hrest
      exact ⟨rest, rfl, congrArg Nat.succ hlen⟩

section

variable {o : Own} {totalLen size : ℕ} {last : DescId} {l : List (DescId × ℕ)}
  {hw : DescId → HwDesc}

theorem fillDescs_of_notMem (hx : x ∉ l.map Prod.fst) :
    fillDescs o totalLen last l hw x = hw x := by
  induction l generalizing hw with
  | nil => rfl
  | cons p l ih =>
    obtain ⟨hne, hx⟩ := not_or.mp (List.mem_cons.not.mp hx)
    rw [fillDescs, ih hx, Function.update_of_ne hne]

theorem fillDescs_of_mem (hd : (l.map Prod.fst).Nodup) (hx : (x, size) ∈ l) :
    fillDescs o totalLen last l hw x = { hw x with
      own := o, fs := false, ls := x = last, dataSize := size, totalLen := totalLen } := by
  induction l generalizing hw with
  | nil => cases hx
  | cons p l ih =>
    obtain ⟨hp, hl⟩ := List.nodup_cons.mp hd
    rw [fillDescs]
    rcases List.mem_cons.mp hx with rfl | hmem
    · rw [fillDescs_of_notMem hp, Function.update_self]
    · have hne : x ≠ p.1 := by
        rintro rfl
        exact hp (List.mem_map.mpr ⟨_, hmem, rfl⟩)
      rw [ih hl hmem, Function.update_of_ne hne]

end

section

variable {o : Own} {totalLen : ℕ} {sizes : List ℕ} {first last : DescId}
  (hd : ds.Nodup) (hlen : ds.length = sizes.length) (hfirst : ds.head? = some first)
  (hlast : ds.getLast? = some last)

include hlen in
theorem map_fst_zip_sizes : (ds.zip sizes).map Prod.fst = ds := List.map_fst_zip hlen.le

include hlen in
theorem exists_size (hx : x ∈ ds) : ∃ size, (x, size) ∈ ds.zip sizes := by
  rw [← map_fst_zip_sizes hlen] at hx
  obtain ⟨p, hp, rfl⟩ := List.mem_map.mp hx
  exact ⟨p.2, hp⟩

include hfirst in
theorem fillPacket_of_notMem (hx : x ∉ ds) :
    (fillPacket o totalLen ds sizes first last m).hw x = m.hw x := by
  have hxf : x ≠ first := fun heq => hx (heq ▸ List.mem_of_head? hfirst)
  rw [fillPacket, Memory.hw_modHw_of_ne hxf]
  refine fillDescs_of_notMem fun hin => hx ?_
  obtain ⟨p, hp, rfl⟩ := List.mem_map.mp hin
  exact (List.of_mem_zip hp).1

include hd hlen in
theorem fillPacket_of_mem {p : DescId × ℕ} (hp : p ∈ ds.zip sizes) :
    ((fillPacket o totalLen ds sizes first last m).hw p.1).own = o ∧
    ((fillPacket o totalLen ds sizes first last m).hw p.1).ls = decide (p.1 = last) ∧
    ((fillPacket o totalLen ds sizes first last m).hw p.1).dataSize = p.2 ∧
    (fillPacket o totalLen ds sizes first last m).nextAddr p.1 = m.nextAddr p.1 := by
  set m₁ : Memory := { m with hw := fillDescs o totalLen last (ds.zip sizes) m.hw }
  have hin : m₁.hw p.1 = { m.hw p.1 with
      own := o, fs := false, ls := p.1 = last, dataSize := p.2, totalLen := totalLen } :=
    fillDescs_of_mem ((map_fst_zip_sizes hlen).symm ▸ hd) hp
  have hfield : ∀ {β : Type} (g : HwDesc → β),
      (∀ c : HwDesc, g { c with fs := true, lastAddr := some last } = g c) →
      g ((fillPacket o totalLen ds sizes first last m).hw p.1) = g (m₁.hw p.1) :=
    fun g hg => Memory.modHw_field g hg
  refine ⟨?_, ?_, ?_, ?_⟩
  · rw [hfield HwDesc.own fun _ => rfl, hin]
  · rw [hfield HwDesc.ls fun _ => rfl, hin]
  · rw [hfield HwDesc.dataSize fun _ => rfl, hin]
  · rw [Memory.nextAddr, hfield HwDesc.nextAddr fun _ => rfl, hin]
    rfl

include hd hlen hfirst hlast in
theorem fillPacket_packet : Packet (fillPacket o totalLen ds sizes first last m) ds := by
  refine ⟨⟨first, hfirst, ?_⟩, fun x hx => ?_⟩
  · rw [fillPacket, Memory.hw_modHw_self, hlast]
  · obtain ⟨size, hp⟩ := exists_size hlen hx
    rw [(fillPacket_of_mem hd hlen hp).2.1, decide_eq_true_iff, hlast, Option.some.injEq, eq_comm]

include hd hlen hfirst in
theorem fillPacket_nextAddr :
    (fillPacket o totalLen ds sizes first last m).nextAddr x = m.nextAddr x := by
  by_cases hx : x ∈ ds
  · obtain ⟨size, hp⟩ := exists_size hlen hx
    exact (fillPacket_of_mem hd hlen hp).2.2.2
  · rw [Memory.nextAddr, fillPacket_of_notMem hfirst hx, Memory.nextAddr]

include hd hlen in
/-- Where the hardware put the segments is where their descriptors point to. -/
theorem fillPacket_areas
    (haddr : ∀ d ∈ ds, (m.hw d).dataAddr = (m.vd d).bufAddr + (m.vd d).dataOffset) :
    ds.map (fillPacket o totalLen ds sizes first last m).area =
      (ds.zip sizes).map fun p => ((m.hw p.1).dataAddr, p.2) := by
  have hmap : ds.map (fillPacket o totalLen ds sizes first last m).area =
      ((ds.zip sizes).map Prod.fst).map (fillPacket o totalLen ds sizes first last m).area := by
    rw [map_fst_zip_sizes hlen]
  rw [hmap, List.map_map]
  apply List.map_congr_left
  intro p hp
  rw [Function.comp_apply, Memory.area, (fillPacket_of_mem hd hlen hp).2.2.1,
    haddr p.1 (List.of_mem_zip hp).1]
  rfl

end

/-! ## Where everything is -/

/-- A filled packet, and where the hardware put it. -/
structure Filled where
  descs : List DescId
  areas : List (ℕ × ℕ)

/-- The descriptors on the ring, the ones of the buffers held, the free ones, and some at large, on
their way from one place to another; with the data buffers and the packets they carry. -/
structure Stock (s : RxSystem) (done : List Filled) (pending free loose : List DescId)
    (freeBufs : List BufId) : Prop where
  ring : Ring s.mem s.q s.rxDesc (done.flatMap Filled.descs) pending
  filled : ∀ f ∈ done, Packet s.mem f.descs ∧ f.descs.map s.mem.area = f.areas
  dataAddr : ∀ d ∈ pending, (s.mem.hw d).dataAddr = (s.mem.vd d).bufAddr + (s.mem.vd d).dataOffset
  client : ∀ b ∈ s.held, vbufDescs s.mem b ≠ [] ∧
    Chain s.mem.nextDesc (s.mem.vb b).descList (vbufDescs s.mem b)
  vdescs : Chain s.mem.nextDesc s.mem.freeVdescHead free
  vbufs : Chain s.mem.nextBuf s.mem.freeBufHead freeBufs
  bufs : (s.held ++ freeBufs).Nodup
  descs : (s.q.terminator :: (done.flatMap Filled.descs ++ pending ++
    (s.heldDescs ++ (free ++ loose)))).Nodup
  bound : (s.q.terminator :: (done.flatMap Filled.descs ++ pending ++
    (s.heldDescs ++ (free ++ loose)))).length ≤ s.mem.nDesc
  addrs : ((done.flatMap Filled.descs ++ pending ++ (s.heldDescs ++ loose)).map
    fun d => (s.mem.vd d).bufAddr).Perm s.configured
  fresh : s.configured.Nodup
  log : s.filled = s.reaped ++ done.map Filled.areas

theorem rxHeldDescs_perm (hb : b ∈ s.held) :
    s.heldDescs.Perm (vbufDescs s.mem b ++ (s.held.erase b).flatMap (vbufDescs s.mem)) :=
  (List.perm_cons_erase hb).flatMap_right _

namespace Stock

variable {done : List Filled} {free loose : List DescId} {freeBufs : List BufId}

/-- Descriptors at large go into the ring. -/
theorem configure {p : Option DescId} (h : Stock s done pending free (d :: rest) freeBufs)
    (hc : Chain s.mem.nextDesc p (d :: rest)) :
    ∃ q m, configQueue s.q p s.mem = some (q, m) ∧
      m = { s.mem with hw := m.hw, vd := m.vd } ∧
      Stock { s with q := q, mem := m } done (pending ++ s.q.terminator :: rest) free [] freeBufs := by
  have hdescs := h.descs
  have hbound := h.bound
  have hd : (d :: rest).Nodup := by grind [List.nodup_append, List.nodup_cons]
  have ht : s.q.terminator ∉ d :: rest := by grind
  have hring : ∀ x ∈ done.flatMap Filled.descs ++ pending,
      x ≠ s.q.terminator ∧ x ∉ d :: rest := by grind [List.nodup_append, List.nodup_cons]
  have hheld : ∀ x ∈ s.heldDescs, x ≠ s.q.terminator ∧ x ∉ d :: rest := by
    grind [List.nodup_append, List.nodup_cons]
  have hn : (d :: rest).length ≤ s.mem.nDesc := by
    simp only [List.length_cons, List.length_append] at hbound ⊢
    omega
  obtain ⟨m, hconfig, hcfg⟩ := configQueue_configured (q := s.q) hc hd ht hn
  obtain ⟨m₀, body, hspliced, hoff⟩ := hcfg.spliced
  have hnDesc : m.nDesc = s.mem.nDesc := by rw [hcfg.frame]
  have hvb : m.vb = s.mem.vb := by rw [hcfg.frame]
  have hvbuf : vbufDescs m = vbufDescs s.mem := by
    funext c
    exact vbufDescs_congr hcfg.nextDesc (by rw [hvb]) hnDesc
  have hhw : ∀ x ∈ done.flatMap Filled.descs ++ pending, m.hw x = s.mem.hw x ∧
      m.vd x = s.mem.vd x := fun x hx =>
    ⟨hcfg.hw_eq x (hring x hx).1 (hring x hx).2, hcfg.vd_eq x (hring x hx).1 (hring x hx).2⟩
  have hperm : (d :: (done.flatMap Filled.descs ++ (pending ++ s.q.terminator :: rest) ++
      (s.heldDescs ++ (free ++ [])))).Perm (s.q.terminator :: (done.flatMap Filled.descs ++ pending ++
      (s.heldDescs ++ (free ++ d :: rest)))) := by
    apply List.perm_iff_count.mpr
    intro x
    simp only [List.count_cons, List.count_append, List.count_nil]
    omega
  refine ⟨_, m, hconfig, hcfg.frame, ?_, ?_, ?_, ?_, ?_, ?_, h.bufs, ?_, ?_, ?_, h.fresh, h.log⟩
  · refine h.ring.splice_written hspliced hoff hd fun x hin hx => ?_
    rcases List.mem_append.mp hx with hon | hat
    · exact (hring x hon).2 hin
    · obtain rfl := List.mem_singleton.mp hat
      exact ht hin
  · intro f hf
    have hsame : ∀ x ∈ f.descs, m.hw x = s.mem.hw x ∧ m.vd x = s.mem.vd x := fun x hx =>
      hhw x (List.mem_append_left _ (List.mem_flatMap.mpr ⟨f, hf, hx⟩))
    refine ⟨(h.filled f hf).1.congr fun x hx => (hsame x hx).1, ?_⟩
    rw [← (h.filled f hf).2]
    apply List.map_congr_left
    intro x hx
    rw [Memory.area, (hsame x hx).1, (hsame x hx).2, Memory.area]
  · intro x hx
    rcases List.mem_append.mp hx with hold | hnew
    · have hsame := hhw x (List.mem_append_right _ hold)
      simp only [hsame.1, hsame.2]
      exact h.dataAddr x hold
    · exact hcfg.dataAddr x hnew
  · intro c hc
    simp only [hvbuf, hvb]
    exact ⟨(h.client c hc).1, (h.client c hc).2.congr fun x _ => hcfg.nextDesc x⟩
  · have hhead : m.freeVdescHead = s.mem.freeVdescHead := by rw [hcfg.frame]
    simp only [hhead]
    exact h.vdescs.congr fun x _ => hcfg.nextDesc x
  · have hhead : m.freeBufHead = s.mem.freeBufHead := by rw [hcfg.frame]
    simp only [hhead]
    exact h.vbufs.congr fun x _ => by rw [Memory.nextBuf, hvb, Memory.nextBuf]
  · simp only [RxSystem.heldDescs, hvbuf]
    exact hperm.nodup_iff.mpr h.descs
  · simp only [RxSystem.heldDescs, hvbuf, hnDesc]
    exact hperm.length_eq.trans_le h.bound
  · simp only [RxSystem.heldDescs, hvbuf]
    refine List.Perm.trans ?_ h.addrs
    have hkept : ∀ l : List DescId, (∀ x ∈ l, x ≠ s.q.terminator ∧ x ∉ d :: rest) →
        l.map (fun x => (m.vd x).bufAddr) = l.map fun x => (s.mem.vd x).bufAddr := by
      intro l hl
      apply List.map_congr_left
      intro x hx
      rw [hcfg.vd_eq x (hl x hx).1 (hl x hx).2]
    have hold := hkept _ hring
    have hclient := hkept _ hheld
    simp only [List.map_append, RxSystem.heldDescs] at hold hclient ⊢
    rw [hclient, ← hcfg.bufAddr, List.map_nil, List.append_nil, ← List.append_assoc, hold]
    apply List.perm_iff_count.mpr
    intro x
    simp only [List.count_append]
    omega

theorem length_le (h : Stock s done pending free loose freeBufs) (hb : b ∈ s.held) :
    (vbufDescs s.mem b).length ≤ s.mem.nDesc := by
  have hbound := h.bound
  have hperm := (rxHeldDescs_perm hb).length_eq
  simp only [List.length_cons, List.length_append] at hbound hperm
  omega

/-- A buffer is returned. -/
theorem ret (h : Stock s done pending free [] freeBufs) (hb : b ∈ s.held) :
    ∃ s' pending', RxSystem.step (.ret b) s = some s' ∧
      Stock s' done pending' free [] (b :: freeBufs) := by
  obtain ⟨hne, hchain⟩ := h.client b hb
  obtain ⟨d, rest, hdr⟩ := List.exists_cons_of_ne_nil hne
  rw [hdr] at hchain
  have hheld := rxHeldDescs_perm hb
  rw [hdr] at hheld
  set s₁ : RxSystem := { s with held := s.held.erase b } with hs₁
  have hperm : (s₁.heldDescs ++ d :: rest).Perm s.heldDescs :=
    List.perm_append_comm.trans hheld.symm
  have hbufs := h.bufs
  have hbperm := (List.perm_cons_erase hb).append_right freeBufs
  have hbnodup := hbperm.nodup_iff.mp hbufs
  have hloose : Stock s₁ done pending free (d :: rest) freeBufs := by
    have hall : (s.q.terminator :: (done.flatMap Filled.descs ++ pending ++
        (s₁.heldDescs ++ (free ++ d :: rest)))).Perm (s.q.terminator ::
        (done.flatMap Filled.descs ++ pending ++ (s.heldDescs ++ (free ++ [])))) := by
      apply List.perm_iff_count.mpr
      intro x
      have hcount := hperm.count_eq x
      simp only [List.count_cons, List.count_append, List.count_nil] at hcount ⊢
      omega
    refine ⟨h.ring, h.filled, h.dataAddr, ?_, h.vdescs, h.vbufs, ?_, ?_, ?_, ?_, h.fresh, h.log⟩
    · exact fun c hc => h.client c (List.mem_of_mem_erase hc)
    · exact (List.nodup_cons.mp hbnodup).2
    · exact hall.nodup_iff.mpr h.descs
    · exact hall.length_eq.trans_le h.bound
    · refine List.Perm.trans ?_ h.addrs
      rw [List.append_nil]
      exact (hperm.append_left _).map _
  obtain ⟨q, m, hconfig, hframe, hstock⟩ := hloose.configure hchain
  refine ⟨{ s with q := q, mem := vbufFreeVbuf b m, held := s.held.erase b },
    pending ++ s.q.terminator :: rest, ?_, ?_⟩
  · have hret : returnRecvBuf s.q b s.mem = some (q, vbufFreeVbuf b m) := by
      rw [returnRecvBuf]
      simp only [Option.bind_eq_bind]
      rw [show configQueue s.q (s.mem.vb b).descList s.mem = some (q, m) from hconfig]
      rfl
    rw [RxSystem.step, if_pos hb, hret]
    rfl
  · have hvbuf : vbufDescs (vbufFreeVbuf b m) = vbufDescs m :=
      funext fun c => vbufDescs_congr (fun _ => rfl) vbufFreeVbuf_descList rfl
    refine ⟨hstock.ring.congr fun _ _ => rfl, ?_, hstock.dataAddr, ?_, hstock.vdescs, ?_, ?_, ?_, ?_,
      ?_, h.fresh, h.log⟩
    · exact fun f hf => ⟨(hstock.filled f hf).1.congr fun _ _ => rfl, (hstock.filled f hf).2⟩
    · intro c hc
      simp only [hvbuf, vbufFreeVbuf_descList]
      exact hstock.client c hc
    · have hlink : (vbufFreeVbuf b m).nextBuf b = m.freeBufHead :=
        congrArg Vbuf.nextBuf vbufFreeVbuf_self
      refine ⟨rfl, ?_⟩
      rw [hlink]
      refine hstock.vbufs.congr fun c hc => congrArg Vbuf.nextBuf (vbufFreeVbuf_of_ne ?_)
      rintro rfl
      exact (List.nodup_cons.mp hbnodup).1 (List.mem_append_right _ hc)
    · exact List.perm_middle.nodup_iff.mpr hbnodup
    · simp only [RxSystem.heldDescs, hvbuf]
      exact hstock.descs
    · simp only [RxSystem.heldDescs, hvbuf]
      exact hstock.bound
    · simp only [RxSystem.heldDescs, hvbuf]
      exact hstock.addrs

/-- The places of the descriptors apart from each other. -/
theorem apart (h : Stock s done pending free loose freeBufs) :
    (∀ f ∈ done, ∀ x ∈ f.descs, x ∉ s.heldDescs ∧ x ∉ free) ∧
    (∀ x ∈ pending, x ∉ s.heldDescs ∧ x ∉ free) ∧ ∀ x ∈ s.heldDescs, x ∉ free := by
  have hdescs := (List.nodup_cons.mp h.descs).2
  obtain ⟨-, hrest, hdis⟩ := List.nodup_append.mp hdescs
  obtain ⟨-, -, hheld⟩ := List.nodup_append.mp hrest
  have hring : ∀ x ∈ done.flatMap Filled.descs ++ pending, x ∉ s.heldDescs ∧ x ∉ free := by
    refine fun x hx => ⟨fun hin => ?_, fun hin => ?_⟩
    · exact hdis x hx x (List.mem_append_left _ hin) rfl
    · exact hdis x hx x (List.mem_append_right _ (List.mem_append_left _ hin)) rfl
  refine ⟨fun f hf x hx => ?_, fun x hx => hring x (List.mem_append_right _ hx), fun x hx hin => ?_⟩
  · exact hring x (List.mem_append_left _ (List.mem_flatMap.mpr ⟨f, hf, hx⟩))
  · exact hheld x hx x (List.mem_append_left _ hin) rfl

/-- Memory changed outside the ring. -/
theorem ring_congr (h : Stock s done pending free loose freeBufs) (hhw : m'.hw = s.mem.hw)
    (hvd : ∀ x, x ∉ s.heldDescs → x ∉ free → m'.vd x = s.mem.vd x) :
    Ring m' s.q s.rxDesc (done.flatMap Filled.descs) pending ∧
    (∀ f ∈ done, Packet m' f.descs ∧ f.descs.map m'.area = f.areas) ∧
    ∀ d ∈ pending, (m'.hw d).dataAddr = (m'.vd d).bufAddr + (m'.vd d).dataOffset := by
  obtain ⟨hdone, hpending, -⟩ := h.apart
  refine ⟨h.ring.congr fun x _ => by rw [hhw], fun f hf => ⟨?_, ?_⟩, fun x hx => ?_⟩
  · exact (h.filled f hf).1.congr fun x _ => by rw [hhw]
  · rw [← (h.filled f hf).2]
    apply List.map_congr_left
    intro x hx
    rw [Memory.area, hhw, hvd x (hdone f hf x hx).1 (hdone f hf x hx).2, Memory.area]
  · rw [hhw, hvd x (hpending x hx).1 (hpending x hx).2, h.dataAddr x hx]

theorem write {dataOffset dataSize control : ℕ} (h : Stock s done pending free [] freeBufs)
    (hd : d ∈ s.heldDescs) :
    Stock { s with mem := s.mem.modVd d fun v => { v with
      dataOffset := dataOffset, dataSize := dataSize, control := control } } done pending free []
      freeBufs := by
  set m := s.mem.modVd d fun v => { v with
    dataOffset := dataOffset, dataSize := dataSize, control := control }
  have hnext : ∀ x, m.nextDesc x = s.mem.nextDesc x := fun x =>
    Memory.modVd_field Vdesc.nextDesc fun _ => rfl
  have haddr : ∀ x, (m.vd x).bufAddr = (s.mem.vd x).bufAddr := fun x =>
    Memory.modVd_field Vdesc.bufAddr fun _ => rfl
  have hvbuf : vbufDescs m = vbufDescs s.mem := funext fun c => vbufDescs_congr hnext rfl rfl
  have hout : ∀ x, x ∉ s.heldDescs → x ∉ free → m.vd x = s.mem.vd x := fun x hx _ =>
    Memory.vd_modVd_of_ne fun heq => hx (heq ▸ hd)
  have hhw : m.hw = s.mem.hw := rfl
  obtain ⟨hring, hfilled, hpending⟩ := h.ring_congr hhw hout
  refine ⟨hring, hfilled, hpending, fun c hc => ?_, ?_, h.vbufs, h.bufs, ?_, ?_, ?_, h.fresh, h.log⟩
  · rw [hvbuf]
    exact ⟨(h.client c hc).1, (h.client c hc).2.congr fun x _ => hnext x⟩
  · exact h.vdescs.congr fun x _ => hnext x
  · rw [RxSystem.heldDescs, hvbuf]
    exact h.descs
  · rw [RxSystem.heldDescs, hvbuf]
    exact h.bound
  · simp only [RxSystem.heldDescs, hvbuf, haddr]
    exact h.addrs

/-- Descriptors are taken from the free ones for new data buffers. -/
theorem alloc {bufSize : ℕ} {addrs : List ℕ} {head : Option DescId}
    (h : Stock s done pending free [] freeBufs) (hfresh : (s.configured ++ addrs).Nodup)
    (hs : allocBufs bufSize addrs none s.mem = some (head, m)) :
    ∃ free' loose, loose.length = addrs.length ∧ Chain m.nextDesc head loose ∧
      Stock { s with mem := m, configured := s.configured ++ addrs } done pending free' loose
        freeBufs := by
  obtain ⟨hdone, hpending, hheld⟩ := h.apart
  have hd : ([] ++ free).Nodup := by
    have hall := (List.nodup_cons.mp h.descs).2
    simpa using (List.nodup_append.mp (List.nodup_append.mp hall).2.1).2.1
  have hnil : Chain s.mem.nextDesc none [] := rfl
  obtain ⟨taken, free', rfl, hchain, hfree', hout, hmap, hframe⟩ :=
    allocBufs_spec h.vdescs hnil hd hs
  rw [List.append_nil] at hchain
  have hhw : m.hw = s.mem.hw := by rw [hframe]
  have hvb : m.vb = s.mem.vb := by rw [hframe]
  have hn : m.nDesc = s.mem.nDesc := by rw [hframe]
  have hchains : ∀ c ∈ s.held, Chain m.nextDesc (m.vb c).descList (vbufDescs s.mem c) := by
    intro c hc
    rw [hvb]
    refine (h.client c hc).2.congr fun x hx => ?_
    have hxh := hheld x (List.mem_flatMap.mpr ⟨c, hc, hx⟩)
    rw [Memory.nextDesc, hout x fun hin => hxh (List.mem_append_left _ hin), Memory.nextDesc]
  have hvbuf : ∀ c ∈ s.held, vbufDescs m c = vbufDescs s.mem c := fun c hc =>
    vbufDescs_eq (hchains c hc) (hn ▸ h.length_le hc)
  have hheldDescs : RxSystem.heldDescs { s with mem := m, configured := s.configured ++ addrs } =
      s.heldDescs := List.flatMap_congr hvbuf
  obtain ⟨hring, hfilled, hpend⟩ := h.ring_congr hhw fun x _ hx =>
    hout x fun hin => hx (List.mem_append_left _ hin)
  have hperm : (s.q.terminator :: (done.flatMap Filled.descs ++ pending ++
      (s.heldDescs ++ (free' ++ taken.reverse)))).Perm (s.q.terminator ::
      (done.flatMap Filled.descs ++ pending ++ (s.heldDescs ++ (taken ++ free' ++ [])))) := by
    apply List.perm_iff_count.mpr
    intro x
    simp only [List.count_cons, List.count_append, List.count_nil, List.count_reverse]
    omega
  refine ⟨free', taken.reverse, ?_, hchain, hring, hfilled, hpend, ?_, hfree', ?_, h.bufs, ?_, ?_, ?_,
    hfresh, h.log⟩
  · rw [← hmap]
    simp
  · intro c hc
    rw [hvbuf c hc]
    exact ⟨(h.client c hc).1, hchains c hc⟩
  · have hfreeBuf : m.freeBufHead = s.mem.freeBufHead := by rw [hframe]
    simp only [hfreeBuf]
    exact h.vbufs.congr fun x _ => by rw [Memory.nextBuf, hvb, Memory.nextBuf]
  · rw [hheldDescs]
    exact hperm.nodup_iff.mpr h.descs
  · rw [hheldDescs, hn]
    exact hperm.length_eq.trans_le h.bound
  · rw [hheldDescs]
    have hold : (done.flatMap Filled.descs ++ pending ++ s.heldDescs).map
        (fun x => (m.vd x).bufAddr) = (done.flatMap Filled.descs ++ pending ++ s.heldDescs).map
        fun x => (s.mem.vd x).bufAddr := by
      apply List.map_congr_left
      intro x hx
      rw [hout x]
      intro hin
      have hfree : x ∈ taken ++ free' := List.mem_append_left _ hin
      rcases List.mem_append.mp hx with hon | hclient
      · rcases List.mem_append.mp hon with hfill | hpend
        · obtain ⟨f, hf, hxf⟩ := List.mem_flatMap.mp hfill
          exact (hdone f hf x hxf).2 hfree
        · exact (hpending x hpend).2 hfree
      · exact hheld x hclient hfree
    have haddrs := h.addrs
    rw [List.append_nil] at haddrs
    rw [← List.append_assoc, List.map_append, hold, List.map_reverse, hmap]
    exact haddrs.append (List.reverse_perm addrs)

/-- Descriptors are configured, if there are enough of them. -/
theorem config {bufSize : ℕ} {addrs : List ℕ} (h : Stock s done pending free [] freeBufs)
    (hs : RxSystem.step (.config addrs bufSize) s = some s') :
    ∃ pending' free', Stock s' done pending' free' [] freeBufs := by
  rw [RxSystem.step, Option.ite_none_right_eq_some] at hs
  obtain ⟨hfresh, hs⟩ := hs
  simp only [configRxQueue, Option.bind_eq_bind, Option.bind_assoc] at hs
  obtain ⟨⟨head, m⟩, halloc, hs⟩ := Option.bind_eq_some_iff.mp hs
  obtain ⟨free', loose, -, hchain, hstock⟩ := h.alloc hfresh halloc
  cases loose with
  | nil =>
    have hnone : configQueue s.q head m = none := by
      rw [configQueue, hchain.walkUpTo_eq (Nat.zero_le _)]
      rfl
    simp only [hnone, Option.bind_none] at hs
    cases hs
  | cons d rest =>
    obtain ⟨q, m', hconfig, -, hnew⟩ := hstock.configure hchain
    have hconfig' : configQueue s.q head m = some (q, m') := hconfig
    simp only [hconfig', Option.bind_some, Option.some.injEq] at hs
    subst hs
    exact ⟨_, _, hnew⟩

/-- A completed packet is reaped. -/
theorem reap {f : Filled} (h : Stock s (f :: done) pending free [] (b :: freeBufs)) :
    ∃ q m s', reapRecvBuf s.q s.mem = some (some b, q, m) ∧ RxSystem.step .reap s = some s' ∧
      s'.reaped = s.reaped ++ [f.areas] ∧ Stock s' done pending free [] freeBufs := by
  obtain ⟨hpacket, hareas⟩ := h.filled f List.mem_cons_self
  have hring := h.ring
  rw [List.flatMap_cons] at hring
  have hbound := h.bound
  have hlen : f.descs.length ≤ s.mem.nDesc := by
    simp only [List.flatMap_cons, List.length_cons, List.length_append] at hbound
    omega
  obtain ⟨hfreeBuf, hfreeBufs⟩ := h.vbufs
  obtain ⟨q, m, hreap, hring', hterm, hrel⟩ := reapRecvBuf_relinked hring hpacket hfreeBuf hlen
  set m₁ := { s.mem with freeBufHead := s.mem.nextBuf b }.modVb b fun v => { v with nextBuf := none }
    with hm₁
  obtain ⟨hdone, hpending, hheld⟩ := h.apart
  have hfself := hdone f List.mem_cons_self
  have hhw : m.hw = s.mem.hw := by
    rw [hrel.frame]
    rfl
  have hn : m.nDesc = s.mem.nDesc := by
    rw [hrel.frame]
    rfl
  have hvd : ∀ x ∉ f.descs, m.vd x = s.mem.vd x := fun x hx => hrel.vd_eq x hx
  have haddr : ∀ x, (m.vd x).bufAddr = (s.mem.vd x).bufAddr := by
    intro x
    by_cases hx : x ∈ f.descs
    · exact congrArg Segment.bufAddr (Vdesc.segment_data (hrel.data x hx))
    · rw [hvd x hx]
  obtain ⟨hb, hbfree⟩ := List.nodup_cons.mp (List.perm_middle.nodup_iff.mp h.bufs)
  have hbheld : ∀ c ∈ s.held, c ≠ b := by
    rintro c hc rfl
    exact hb (List.mem_append_left _ hc)
  have hself : vbufDescs m b = f.descs := vbufDescs_eq hrel.chain (hn ▸ hlen)
  have hchains : ∀ c ∈ s.held, Chain m.nextDesc (m.vb c).descList (vbufDescs s.mem c) := by
    intro c hc
    have hlist : (m.vb c).descList = (s.mem.vb c).descList := by
      rw [hrel.vb_eq c (hbheld c hc), hm₁]
      exact Memory.modVb_field Vbuf.descList fun _ => rfl
    rw [hlist]
    refine (h.client c hc).2.congr fun x hx => ?_
    have hxf : x ∉ f.descs := fun hin => (hfself x hin).1 (List.mem_flatMap.mpr ⟨c, hc, hx⟩)
    rw [Memory.nextDesc, hvd x hxf, Memory.nextDesc]
  have hvbuf : ∀ c ∈ s.held, vbufDescs m c = vbufDescs s.mem c := fun c hc =>
    vbufDescs_eq (hchains c hc) (hn ▸ h.length_le hc)
  have hlog : (vbufDescs m b).map (fun d => (m.vd d).area) = f.areas := by
    rw [hself, ← hareas]
    apply List.map_congr_left
    intro x hx
    have hsegment := Vdesc.segment_data (hrel.data x hx)
    rw [Vdesc.area, haddr x, Memory.area]
    exact Prod.ext (congrArg (fun g => _ + Segment.dataOffset g) hsegment)
      (congrArg Segment.dataSize hsegment)
  have hheldDescs : (b :: s.held).flatMap (vbufDescs m) = f.descs ++ s.heldDescs := by
    rw [List.flatMap_cons, hself, RxSystem.heldDescs, List.flatMap_congr hvbuf]
  have hperm : (s.q.terminator :: (done.flatMap Filled.descs ++ pending ++
      (f.descs ++ s.heldDescs ++ (free ++ [])))).Perm (s.q.terminator ::
      ((f :: done).flatMap Filled.descs ++ pending ++ (s.heldDescs ++ (free ++ [])))) := by
    apply List.perm_iff_count.mpr
    intro x
    simp only [List.flatMap_cons, List.count_cons, List.count_append, List.count_nil]
    omega
  refine ⟨q, m, { s with
    q := q, mem := m, held := b :: s.held, reaped := s.reaped ++ [f.areas] }, hreap, ?_, rfl, ?_⟩
  · rw [RxSystem.step, hreap]
    simp only [Option.bind_eq_bind, Option.bind_some, hlog]
  have hapart : ∀ x ∈ done.flatMap Filled.descs ++ pending, x ∉ f.descs := by
    have hall := (List.nodup_cons.mp h.descs).2
    rw [List.flatMap_cons, List.append_assoc f.descs] at hall
    intro x hx hin
    exact (List.nodup_append.mp (List.nodup_append.mp hall).1).2.2 x hin x hx rfl
  refine ⟨hring'.congr fun x _ => by rw [hhw], fun g hg => ?_, fun x hx => ?_, fun c hc => ?_, ?_, ?_,
    ?_, ?_, ?_, ?_, h.fresh, ?_⟩
  · have hold := h.filled g (List.mem_cons_of_mem _ hg)
    refine ⟨hold.1.congr fun x _ => by rw [hhw], ?_⟩
    rw [← hold.2]
    apply List.map_congr_left
    intro x hx
    have hxf := hapart x (List.mem_append_left _ (List.mem_flatMap.mpr ⟨g, hg, hx⟩))
    rw [Memory.area, hhw, hvd x hxf, Memory.area]
  · rw [hhw, hvd x (hapart x (List.mem_append_right _ hx)), h.dataAddr x hx]
  · rcases List.mem_cons.mp hc with rfl | hold
    · rw [hself]
      exact ⟨hpacket.ne_nil, hrel.chain⟩
    · rw [hvbuf c hold]
      exact ⟨(h.client c hold).1, hchains c hold⟩
  · have hhead : m.freeVdescHead = s.mem.freeVdescHead := by
      rw [hrel.frame]
      rfl
    simp only [hhead]
    refine h.vdescs.congr fun x hx => ?_
    have hxf : x ∉ f.descs := fun hin => (hfself x hin).2 hx
    rw [Memory.nextDesc, hvd x hxf, Memory.nextDesc]
  · have hhead : m.freeBufHead = s.mem.nextBuf b := by
      rw [hrel.frame]
      rfl
    simp only [hhead]
    refine hfreeBufs.congr fun c hc => ?_
    have hcb : c ≠ b := by
      rintro rfl
      exact hb (List.mem_append_right _ hc)
    rw [Memory.nextBuf, hrel.vb_eq c hcb, hm₁, Memory.vb_modVb_of_ne hcb]
    rfl
  · exact List.perm_middle.nodup_iff.mp h.bufs
  · rw [RxSystem.heldDescs, hheldDescs, hterm]
    exact hperm.nodup_iff.mpr h.descs
  · rw [RxSystem.heldDescs, hheldDescs, hterm, hn]
    exact hperm.length_eq.trans_le h.bound
  · rw [RxSystem.heldDescs, hheldDescs]
    simp only [haddr]
    refine List.Perm.trans (List.Perm.map _ ?_) h.addrs
    apply List.perm_iff_count.mpr
    intro x
    simp only [List.flatMap_cons, List.count_append, List.count_nil]
    omega
  · rw [h.log]
    simp

/-- The hardware fills the first descriptors it owns. -/
theorem fill {sizes : List ℕ} {totalLen : ℕ} {o : Own} (h : Stock s done pending free [] freeBufs)
    (hs : s.fill sizes totalLen o = some s') :
    ∃ f pending', Stock s' (done ++ [f]) pending' free [] freeBufs := by
  rw [RxSystem.fill, Option.ite_none_right_eq_some] at hs
  obtain ⟨ho, hs⟩ := hs
  simp only [Option.bind_eq_bind, Option.bind_eq_some_iff, Option.some.injEq] at hs
  obtain ⟨ds, hown, first, hfirst, last, hlast, next, hnext, rfl⟩ := hs
  have hlinked := h.ring.linked
  have hterm : (s.mem.hw s.q.terminator).own ≠ .hw := by
    rw [h.ring.terminator]
    exact Own.noConfusion
  rw [List.append_assoc] at hlinked
  obtain ⟨rest, rfl, hlen⟩ := ownedFrom_prefix hlinked.right h.ring.next hterm hown
  have hring := h.ring
  obtain ⟨-, hpending, hdis⟩ := List.nodup_append.mp (List.nodup_append.mp hring.nodup).1
  obtain ⟨hd, -, hrest⟩ := List.nodup_append.mp hpending
  have hout : ∀ x ∉ ds, (fillPacket o totalLen ds sizes first last s.mem).hw x = s.mem.hw x :=
    fun x hx => fillPacket_of_notMem hfirst hx
  have hnext' : (rest ++ [s.q.terminator]).head? = some next := by
    obtain ⟨e, he⟩ : ∃ e, (rest ++ [s.q.terminator]).head? = some e := by
      cases rest <;> exact ⟨_, rfl⟩
    have hlink := hlinked.right
    rw [List.append_assoc] at hlink
    rw [he, ← hlink.next_getLast hlast he, hnext]
  set areas := (ds.zip sizes).map fun p => ((s.mem.hw p.1).dataAddr, p.2) with hareas
  have hflat : (done ++ [Filled.mk ds areas]).flatMap Filled.descs = done.flatMap Filled.descs ++ ds := by
    simp
  refine ⟨Filled.mk ds areas, rest, ?_, fun f hf => ?_, fun x hx => ?_, h.client, h.vdescs, h.vbufs, h.bufs,
    ?_, ?_, ?_, h.fresh, ?_⟩
  · rw [hflat]
    refine hring.complete (fun x => fillPacket_nextAddr hd hlen hfirst) (fun x hx => ?_)
      (fun x hx => by rw [hout x hx]) hnext'
    obtain ⟨size, hp⟩ := exists_size hlen hx
    rw [(fillPacket_of_mem hd hlen hp).1]
    exact ho
  · rcases List.mem_append.mp hf with hold | hnew
    · have hsame : ∀ x ∈ f.descs, (fillPacket o totalLen ds sizes first last s.mem).hw x =
          s.mem.hw x := fun x hx => hout x fun hin =>
        hdis x (List.mem_flatMap.mpr ⟨f, hold, hx⟩) x (List.mem_append_left _ hin) rfl
      refine ⟨(h.filled f hold).1.congr hsame, ?_⟩
      rw [← (h.filled f hold).2]
      apply List.map_congr_left
      intro x hx
      rw [Memory.area, hsame x hx, Memory.area]
      rfl
    · obtain rfl := List.mem_singleton.mp hnew
      exact ⟨fillPacket_packet hd hlen hfirst hlast,
        fillPacket_areas hd hlen fun x hx => h.dataAddr x (List.mem_append_left _ hx)⟩
  · rw [hout x fun hin => hrest x hin x hx rfl]
    exact h.dataAddr x (List.mem_append_right _ hx)
  · rw [hflat, List.append_assoc _ ds]
    exact h.descs
  · rw [hflat, List.append_assoc _ ds]
    exact h.bound
  · rw [hflat, List.append_assoc _ ds]
    exact h.addrs
  · rw [h.log]
    simp

/-- There is a completed packet whenever `_DMAengine_has_compl_packets` says so. -/
theorem done_ne_nil (h : Stock s done pending free loose freeBufs)
    (hcompl : hasComplPackets s.q s.mem = true) : done ≠ [] := by
  rintro rfl
  obtain ⟨hne, hown⟩ := of_decide_eq_true hcompl
  have hhead := h.ring.head
  cases pending with
  | nil => exact hne (Option.some.inj hhead).symm
  | cons d pending =>
    obtain rfl : d = s.q.head := Option.some.inj hhead
    exact hown (h.ring.owned _ List.mem_cons_self)

theorem reap_no_buf {f : Filled} (h : Stock s (f :: done) pending free loose []) :
    reapRecvBuf s.q s.mem = none := by
  have hring := h.ring
  rw [List.flatMap_cons] at hring
  obtain ⟨next, hget, -⟩ := hring.getPacket (h.filled f List.mem_cons_self).1
  obtain ⟨first, hfirst, -⟩ := (h.filled f List.mem_cons_self).1.lastAddr
  have hnull : s.mem.freeBufHead = none := h.vbufs
  rw [reapRecvBuf, hget, hfirst]
  simp [vbufAllocVbuf, hnull]

theorem ring_eq (h : Stock s done pending free loose freeBufs) :
    s.ring = some (done.flatMap Filled.descs ++ pending ++ [s.q.terminator]) := by
  have hbound := h.bound
  apply h.ring.linked.walkUntil_eq h.ring.head h.ring.nodup
  · intro c _
    rw [List.getLast?_concat, decide_eq_true_iff, Option.some.injEq, eq_comm]
  · simp only [List.length_cons, List.length_append] at hbound
    simp only [List.length_append, List.length_singleton]
    omega

/-- Every event leaves everything in its place. -/
theorem step {e : RxEvent} (h : Stock s done pending free [] freeBufs)
    (hs : RxSystem.step e s = some s') :
    ∃ done' pending' free' freeBufs', Stock s' done' pending' free' [] freeBufs' := by
  cases e with
  | config addrs bufSize =>
    obtain ⟨pending', free', hnew⟩ := h.config hs
    exact ⟨_, _, _, _, hnew⟩
  | fill sizes totalLen o =>
    obtain ⟨f, pending', hnew⟩ := h.fill hs
    exact ⟨_, _, _, _, hnew⟩
  | reap =>
    cases done with
    | nil =>
      rw [RxSystem.step, reapRecvBuf_null h.ring] at hs
      cases hs
      exact ⟨_, _, _, _, h⟩
    | cons f done =>
      cases freeBufs with
      | nil =>
        rw [RxSystem.step, h.reap_no_buf] at hs
        cases hs
      | cons b freeBufs =>
        obtain ⟨q, m, s₁, -, hs₁, -, hnew⟩ := h.reap
        obtain rfl : s₁ = s' := Option.some.inj (hs₁.symm.trans hs)
        exact ⟨_, _, _, _, hnew⟩
  | write d dataOffset dataSize control =>
    rw [RxSystem.step, Option.ite_none_right_eq_some] at hs
    obtain ⟨hd, hs⟩ := hs
    cases hs
    exact ⟨_, _, _, _, h.write hd⟩
  | ret b =>
    have hb : b ∈ s.held := by
      by_contra hb
      rw [RxSystem.step, if_neg hb] at hs
      cases hs
    obtain ⟨s₁, pending', hs₁, hnew⟩ := h.ret hb
    obtain rfl : s₁ = s' := Option.some.inj (hs₁.symm.trans hs)
    exact ⟨_, _, _, _, hnew⟩

end Stock

/-! ## Runs -/

theorem rxInit_stock (h : s.Init) : ∃ free freeBufs, Stock s [] [] free [] freeBufs := by
  obtain ⟨m, hm⟩ := h.queue
  obtain ⟨free, hfree, hnodup, hbound⟩ := h.descs
  obtain ⟨freeBufs, hbufs, hbd⟩ := h.bufs
  simp only [initRxQueue, Option.bind_eq_bind, Option.bind_eq_some_iff, Option.some.injEq,
    Prod.mk.injEq, Prod.exists] at hm
  obtain ⟨d, m₂, -, hq, hm₂⟩ := hm
  have hown : (s.mem.hw s.q.terminator).own = .sw := by
    rw [← hm₂, ← hq, Memory.hw_modHw_self]
    rfl
  have hhead : s.q.terminator = s.q.head := by rw [← hq]
  have hheld : s.heldDescs = [] := by rw [RxSystem.heldDescs, h.held, List.flatMap_nil]
  refine ⟨free, freeBufs, ⟨.singleton _, by simp, ?_, ?_, ?_, ?_, hown⟩, ?_, ?_, ?_, hfree, hbufs, ?_,
    ?_, ?_, ?_, ?_, ?_⟩
  · simpa using hhead
  · rw [h.rxDesc]
    simpa using hhead
  · rintro d ⟨⟩
  · rintro d ⟨⟩
  · rintro f ⟨⟩
  · rintro d ⟨⟩
  · rw [h.held]
    rintro b ⟨⟩
  · rw [h.held]
    exact hbd
  · rw [hheld]
    simpa using hnodup
  · rw [hheld]
    simpa using hbound
  · rw [hheld, h.configured]
    exact .refl _
  · rw [h.configured]
    exact List.nodup_nil
  · rw [h.filled, h.reaped]
    rfl

theorem Stock.of_reachable (h : rxMachine.Reachable s) :
    ∃ done pending free freeBufs, Stock s done pending free [] freeBufs := by
  obtain ⟨s₀, hi, steps⟩ := h
  induction steps with
  | refl =>
    obtain ⟨free, freeBufs, hstock⟩ := rxInit_stock hi
    exact ⟨_, _, _, _, hstock⟩
  | tail _ last ih =>
    obtain ⟨e, -, hs⟩ := last
    obtain ⟨done, pending, free, freeBufs, hstock⟩ := ih
    exact hstock.step hs

/-- In every reachable state the ring from the head is free of cycles and ends in the terminator,
which the software owns; the data buffers configured are those on the ring and those in the buffers
that are held, each just once; what was reaped is where the hardware put it, packet by packet; and a
reap that `_DMAengine_has_compl_packets` announces does not return null. -/
theorem receive_conserves (h : rxMachine.Reachable s) :
    (∃ ring, s.ring = some (ring ++ [s.q.terminator]) ∧ (ring ++ [s.q.terminator]).Nodup ∧
      (s.mem.hw s.q.terminator).own = .sw ∧
      ((ring ++ s.heldDescs).map fun d => (s.mem.vd d).bufAddr).Perm s.configured ∧
      s.configured.Nodup) ∧
    s.reaped <+: s.filled ∧
    (hasComplPackets s.q s.mem = true →
      (∀ q m, reapRecvBuf s.q s.mem ≠ some (none, q, m)) ∧
      (s.mem.freeBufHead ≠ none → ∃ b q m, reapRecvBuf s.q s.mem = some (some b, q, m))) ∧
    ∀ b ∈ s.held, (RxSystem.step (.ret b) s).isSome := by
  obtain ⟨done, pending, free, freeBufs, hstock⟩ := Stock.of_reachable h
  refine ⟨⟨_, hstock.ring_eq, hstock.ring.nodup, hstock.ring.terminator, ?_, hstock.fresh⟩, ?_,
    fun hcompl => ?_, fun b hb => ?_⟩
  · have haddrs := hstock.addrs
    rwa [List.append_nil] at haddrs
  · rw [hstock.log]
    exact List.prefix_append _ _
  · obtain ⟨f, done, rfl⟩ := List.exists_cons_of_ne_nil (hstock.done_ne_nil hcompl)
    cases freeBufs with
    | nil =>
      have hnull : s.mem.freeBufHead = none := hstock.vbufs
      rw [hstock.reap_no_buf]
      refine ⟨fun q m hne => ?_, fun hne => absurd hnull hne⟩
      cases hne
    | cons b freeBufs =>
      obtain ⟨q, m, -, hreap, -⟩ := hstock.reap
      rw [hreap]
      refine ⟨fun q m hne => ?_, fun _ => ⟨_, _, _, rfl⟩⟩
      cases hne
  · obtain ⟨s', pending', hs', -⟩ := hstock.ret hb
    rw [hs']
    rfl

/-- Five free `VDESC`s and two free `VBUF`s. -/
def freshPools : Memory where
  hw _ := {}
  vd d := { nextDesc := if d < 4 then some (d + 1) else none }
  vb b := { nextBuf := if b = 0 then some 1 else none }
  nDesc := 5
  freeVdescHead := some 0
  freeBufHead := some 0

def freshPoolsStart : RxSystem where
  mem := { freshPools with freeVdescHead := some 1 }.modVd 0 (fun v => { v with nextDesc := none })
    |>.modHw 0 fun _ => initUsbDesc
  q := ⟨0, 0⟩
  rxDesc := 0
  held := []
  configured := []
  filled := []
  reaped := []

theorem freshPoolsStart_init : freshPoolsStart.Init := by
  refine ⟨⟨freshPools, rfl⟩, rfl, ⟨[1, 2, 3, 4], ⟨rfl, rfl, rfl, rfl, rfl⟩, ?_, ?_⟩,
    ⟨[0, 1], ⟨rfl, rfl, rfl⟩, ?_⟩, rfl, rfl, rfl, rfl⟩
  all_goals decide

/-- Three data buffers, a packet in two of them, and one in the third after the first was reaped and
before it is returned. -/
theorem receive_conserves_returned : ∃ s : RxSystem, s.filled.length = 3 ∧ s.reaped.length = 2 ∧
    ((∃ ring, s.ring = some (ring ++ [s.q.terminator])) ∧ s.reaped <+: s.filled) := by
  obtain ⟨s, hsteps, hfilled, hreaped⟩ := Machine.exists_of_runWhere RxSystem.Init RxSystem.step
    (fun _ _ => True) (P := fun s => s.filled.length = 3 ∧ s.reaped.length = 2)
    (s := freshPoolsStart) [.config [1000, 2000, 3000] 320, .fill [320, 100] 420 .sw, .reap,
      .fill [60] 60 .sw, .reap, .ret 0, .fill [80] 80 .se] (by decide +kernel)
  obtain ⟨⟨ring, hring, -⟩, hprefix, -⟩ :=
    receive_conserves (Machine.ReachableWhere.trans (.init freshPoolsStart_init) hsteps)
  exact ⟨s, hfilled, hreaped, ⟨ring, hring⟩, hprefix⟩

end Ath9kHtc.Dma
