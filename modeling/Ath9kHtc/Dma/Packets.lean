import Ath9kHtc.Dma.Ring

/-!
# Packets

A `VBUF` is written into a packet of descriptors, and a packet is read back into a `VBUF`.
-/

namespace Ath9kHtc.Dma

variable {m m' : Memory} {b : BufId} {t d x first : DescId} {ds rest : List DescId}

/-! ## What a packet carries -/

/-- What a descriptor carries of a data buffer. -/
structure Segment where
  bufAddr : ℕ
  bufSize : ℕ
  dataOffset : ℕ
  dataSize : ℕ
  deriving DecidableEq, Repr

/-- The segment of a `VDESC`. -/
def Vdesc.segment (v : Vdesc) : Segment := ⟨v.bufAddr, v.bufSize, v.dataOffset, v.dataSize⟩

/-- The segment of a descriptor on a ring; its size is the hardware's. -/
def Memory.segment (m : Memory) (d : DescId) : Segment :=
  { (m.vd d).segment with dataSize := (m.hw d).dataSize }

/-- All of a `VDESC` but the link. -/
def Vdesc.data (v : Vdesc) : Vdesc := { v with nextDesc := none }

theorem Vdesc.segment_data {v w : Vdesc} (h : v.data = w.data) : v.segment = w.segment := by
  have hsame : v.data.segment = w.data.segment := congrArg segment h
  exact hsame

/-- The descriptors of a buffer. -/
def vbufDescs (m : Memory) (b : BufId) : List DescId :=
  (walkUpTo m.nextDesc (fun _ => false) m.nDesc (m.vb b).descList).getD []

theorem vbufDescs_eq (h : Chain m.nextDesc (m.vb b).descList ds) (hn : ds.length ≤ m.nDesc) :
    vbufDescs m b = ds := by
  rw [vbufDescs, h.walkUpTo_eq hn]
  rfl

/-- Nothing on the way along the links has changed. -/
theorem vbufDescs_length_le (m : Memory) (b : BufId) : (vbufDescs m b).length ≤ m.nDesc := by
  rw [vbufDescs]
  cases h : walkUpTo m.nextDesc (fun _ => false) m.nDesc (m.vb b).descList with
  | none => exact Nat.zero_le _
  | some l => exact walkUpTo_length_le h

theorem vbufDescs_congr (hnext : ∀ d, m'.nextDesc d = m.nextDesc d)
    (hlist : (m'.vb b).descList = (m.vb b).descList) (hn : m'.nDesc = m.nDesc) :
    vbufDescs m' b = vbufDescs m b := by
  have hlinks : m'.nextDesc = m.nextDesc := funext hnext
  rw [vbufDescs, vbufDescs, hlinks, hlist, hn]

/-! ## The exchange of two `VDESC`s -/

theorem swap_left (h : t ≠ d) : ((vdescSwapVdesc t d m).vd t).data = (m.vd d).data := by
  rw [vdescSwapVdesc, Memory.vd_modVd_of_ne h, Memory.vd_modVd_self]
  rfl

theorem swap_right : ((vdescSwapVdesc t d m).vd d).data = (m.vd t).data := by
  rw [vdescSwapVdesc, Memory.vd_modVd_self]
  rfl

theorem swap_of_ne (ht : x ≠ t) (hd : x ≠ d) : (vdescSwapVdesc t d m).vd x = m.vd x := by
  rw [vdescSwapVdesc, Memory.vd_modVd_of_ne hd, Memory.vd_modVd_of_ne ht]

theorem swap_nextDesc : (vdescSwapVdesc t d m).nextDesc x = m.nextDesc x := by
  simp only [Memory.nextDesc, vdescSwapVdesc, Memory.modVd, Function.update_apply]
  split
  · subst x
    split
    · subst d
      rfl
    · rfl
  · split
    · subst x
      rfl
    · rfl

/-- The descriptor in the terminator's place carries what the first one carried. -/
theorem map_swap {β : Type*} (f : Vdesc → β) (hf : ∀ v w : Vdesc, v.data = w.data → f v = f w)
    (ht : t ∉ d :: rest) (hd : (d :: rest).Nodup) :
    (t :: rest).map (fun x => f ((vdescSwapVdesc t d m).vd x)) =
      (d :: rest).map (fun x => f (m.vd x)) := by
  have hne : t ≠ d := fun h => ht (h ▸ List.mem_cons_self)
  rw [List.map_cons, List.map_cons]
  congr 1
  · exact hf _ _ (swap_left hne)
  · apply List.map_congr_left
    intro x hx
    have hxt : x ≠ t := fun h => ht (h ▸ List.mem_cons_of_mem _ hx)
    have hxd : x ≠ d := fun h => (List.nodup_cons.mp hd).1 (h ▸ hx)
    rw [swap_of_ne hxt hxd]

/-! ## A packet read back -/

/-- The memory after the packet `ds` became the list of descriptors of `b`. -/
structure Relinked (b : BufId) (ds : List DescId) (m m' : Memory) : Prop where
  chain : Chain m'.nextDesc (m'.vb b).descList ds
  data : ∀ d ∈ ds, (m'.vd d).data = { m.vd d with dataSize := (m.hw d).dataSize }.data
  vd_eq : ∀ d ∉ ds, m'.vd d = m.vd d
  vb_eq : ∀ c, c ≠ b → m'.vb c = m.vb c
  nextBuf : (m'.vb b).nextBuf = (m.vb b).nextBuf
  bufLength : ∀ d ∈ ds.head?, (m'.vb b).bufLength = (m.hw d).totalLen
  frame : m' = { m with vd := m'.vd, vb := m'.vb }

theorem Relinked.segment (h : Relinked b ds m m') :
    ds.map (fun d => (m'.vd d).segment) = ds.map m.segment := by
  apply List.map_congr_left
  intro d hd
  exact Vdesc.segment_data (h.data d hd)

theorem relink_relinked (hp : Packet m ds) (hl : Linked m.nextAddr ds) (hd : ds.Nodup)
    (hn : ds.length ≤ m.nDesc) (hfirst : ds.head? = some first) :
    ∃ m', relinkUSBDescToVdesc b first m = some m' ∧ Relinked b ds m m' := by
  obtain ⟨l, last, rfl⟩ : ∃ l last, ds = l ++ [last] := by
    obtain ⟨l, last, h⟩ := (List.eq_nil_or_concat ds).resolve_left hp.ne_nil
    exact ⟨l, last, h.trans List.concat_eq_append⟩
  have hgl : (l ++ [last]).getLast? = some last := List.getLast?_concat
  have hls : (m.hw last).ls = true := (hp.ls last (by simp)).mpr hgl
  have hvisit : walkUpTo m.nextAddr (fun d => (m.hw d).ls) m.nDesc (some first) =
      some (l ++ [last]) := hfirst ▸ hl.walkUpTo_eq hd hp.ls hn
  set vd := thread Vdesc.setNext (fun d v => { v with dataSize := (m.hw d).dataSize }) none
    (l ++ [last]) m.vd with hvd
  have hdata : ∀ x, (vd x).data = if x ∈ l ++ [last] then
      { m.vd x with dataSize := (m.hw x).dataSize }.data else (m.vd x).data := by
    intro x
    rw [hvd]
    exact thread_field (f := Vdesc.data) (fun _ _ => rfl) hd (by simp)
  have hlinked : Linked (fun a => (vd a).nextDesc) (l ++ [last]) := by
    rw [hvd]
    exact thread_all Vdesc.nextDesc_setNext hd
  have hsame : ∀ x ∉ l ++ [last], vd x = m.vd x := by
    intro x hx
    rw [hvd]
    exact thread_of_notMem hx (by simp)
  set m₁ := { m.modVb b fun v => { v with
    descList := some first, bufLength := (m.hw first).totalLen } with vd := vd } with hm₁
  have hout : ∀ x, x ≠ last → (m₁.modVd last (Vdesc.setNext none)).vd x = vd x :=
    fun x hx => Memory.vd_modVd_of_ne hx
  refine ⟨m₁.modVd last (Vdesc.setNext none), ?_, ?_, ?_, ?_, ?_, ?_, ?_, rfl⟩
  · rw [relinkUSBDescToVdesc, hvisit]
    simp only [Option.bind_eq_bind, Option.bind_some, hgl, Memory.hw_modVb, hls, if_true]
    rfl
  · have hhead : (m₁.vb b).descList = some first := by
      rw [hm₁]
      simp
    rw [Memory.vb_modVd, hhead, ← hfirst]
    apply hlinked.chain
    · rw [Memory.nextDesc, Memory.vd_modVd_self]
      rfl
    · intro c hc
      have hne : c ≠ last := by
        rintro rfl
        exact (List.nodup_append.mp hd).2.2 c hc c List.mem_cons_self rfl
      rw [Memory.nextDesc, hout c hne]
  · intro x hx
    have hx' := hdata x
    rw [if_pos hx] at hx'
    by_cases hxl : x = last
    · subst hxl
      rw [Memory.vd_modVd_self]
      exact hx'
    · rw [hout x hxl, hx']
  · intro x hx
    have hxl : x ≠ last := fun h => hx (by simp [h])
    rw [hout x hxl, hsame x hx]
  · intro c hc
    exact Function.update_of_ne hc _ _
  · rw [Memory.vb_modVd, hm₁]
    simp
  · intro x hx
    obtain rfl : first = x := Option.some.inj (hfirst.symm.trans hx)
    rw [Memory.vb_modVd, hm₁]
    simp

/-! ## A packet written -/

/-- The memory with the descriptors `ds` written by `write` and linked, and the first of them
knowing the last. -/
structure Written (write : Vdesc → HwDesc) (ds : List DescId) (m m' : Memory) : Prop where
  linked : Linked m'.nextAddr ds
  lastAddr : ∀ d ∈ ds.head?, (m'.hw d).lastAddr = ds.getLast?
  dataSize : ∀ d ∈ ds, (m'.hw d).dataSize = (write (m.vd d)).dataSize
  dataAddr : ∀ d ∈ ds, (m'.hw d).dataAddr = (write (m.vd d)).dataAddr
  hw_eq : ∀ d ∉ ds, m'.hw d = m.hw d
  frame : m' = { m with hw := m'.hw }

/-- The loop over the list of descriptors, and writes to the other fields after it. -/
theorem thread_written {write : Vdesc → HwDesc} (hd : ds.Nodup) {m₀ m₁ : Memory}
    (hm₀ : m₀ = { m with hw := thread HwDesc.setNext (fun d _ => write (m.vd d)) none ds m.hw })
    (hnext : ∀ x, m₁.nextAddr x = m₀.nextAddr x)
    (hsize : ∀ x, (m₁.hw x).dataSize = (m₀.hw x).dataSize)
    (haddr : ∀ x, (m₁.hw x).dataAddr = (m₀.hw x).dataAddr) (hout : ∀ x ∉ ds, m₁.hw x = m₀.hw x)
    (hlast : ∀ d ∈ ds.head?, (m₁.hw d).lastAddr = ds.getLast?) (hm₁ : m₁ = { m₀ with hw := m₁.hw }) :
    Written write ds m m₁ := by
  have hfield : ∀ {β : Type} (f : HwDesc → β), (∀ n d, f (HwDesc.setNext n d) = f d) →
      ∀ x ∈ ds, f (m₀.hw x) = f (write (m.vd x)) := by
    intro β f hf x hx
    rw [hm₀]
    exact thread_all_field hf hd hx
  refine ⟨?_, hlast, ?_, ?_, ?_, ?_⟩
  · have hthread : Linked m₀.nextAddr ds := by
      rw [hm₀]
      exact thread_all HwDesc.nextAddr_setNext hd
    exact hthread.congr fun c _ => hnext c
  · intro d hdmem
    rw [hsize, hfield HwDesc.dataSize (fun _ _ => rfl) d hdmem]
  · intro d hdmem
    rw [haddr, hfield HwDesc.dataAddr (fun _ _ => rfl) d hdmem]
  · intro d hdmem
    rw [hout d hdmem, hm₀]
    exact thread_of_notMem hdmem (by simp)
  · rw [hm₁, hm₀]

end Ath9kHtc.Dma
