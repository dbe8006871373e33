import Ath9kHtc.Dma.Packets

/-!
# The receive ring

A buffer given back is cut into empty descriptors, which go into the ring in the place of the
terminator; a filled packet is read back into a fresh `VBUF`.
-/

namespace Ath9kHtc.Dma

variable {m m' : Memory} {q : Queue} {b c : BufId} {d x : DescId} {ds rest : List DescId}
  {descList : Option DescId}

/-- The queue and the memory after the descriptors `d :: rest` were configured to be received
into. -/
structure Configured (d : DescId) (rest : List DescId) (q : Queue) (m m' : Memory) : Prop where
  spliced : ∃ m₀ body, Spliced q.terminator d rest body m₀ m' ∧ ∀ x ∉ d :: rest, m₀.hw x = m.hw x
  dataAddr : ∀ x ∈ q.terminator :: rest,
    (m'.hw x).dataAddr = (m'.vd x).bufAddr + (m'.vd x).dataOffset
  bufAddr : (q.terminator :: rest).map (fun x => (m'.vd x).bufAddr) =
    (d :: rest).map fun x => (m.vd x).bufAddr
  hw_eq : ∀ x, x ≠ q.terminator → x ∉ d :: rest → m'.hw x = m.hw x
  vd_eq : ∀ x, x ≠ q.terminator → x ∉ d :: rest → m'.vd x = m.vd x
  nextDesc : ∀ x, m'.nextDesc x = m.nextDesc x
  frame : m' = { m with hw := m'.hw, vd := m'.vd }

theorem configQueue_configured (hc : Chain m.nextDesc descList (d :: rest))
    (hd : (d :: rest).Nodup) (ht : q.terminator ∉ d :: rest) (hn : (d :: rest).length ≤ m.nDesc) :
    ∃ m', configQueue q descList m = some ({ q with terminator := d }, m') ∧
      Configured d rest q m m' := by
  obtain ⟨last, hlast⟩ : ∃ last, (d :: rest).getLast? = some last :=
    ⟨_, List.getLast?_eq_some_getLast (List.cons_ne_nil d rest)⟩
  set m₁ : Memory :=
    { m with vd := writeAll (fun _ v => { v with dataOffset := 0 }) (d :: rest) m.vd } with hm₁
  set m₂ : Memory :=
    { m₁ with hw := thread HwDesc.setNext (fun d _ => recvDesc (m₁.vd d)) none (d :: rest) m₁.hw }
    with hm₂
  set m₃ := m₂.modHw d fun c => { c with lastAddr := some last } with hm₃
  have hwritten : Written recvDesc (d :: rest) m₁ m₃ := by
    refine thread_written hd hm₂ (fun x => ?_) (fun x => ?_) (fun x => ?_) (fun x hx => ?_)
      (fun x hx => ?_) rfl
    · exact Memory.modHw_field HwDesc.nextAddr fun _ => rfl
    · exact Memory.modHw_field HwDesc.dataSize fun _ => rfl
    · exact Memory.modHw_field HwDesc.dataAddr fun _ => rfl
    · exact Memory.hw_modHw_of_ne fun h => hx (h ▸ List.mem_cons_self)
    · obtain rfl : d = x := Option.some.inj hx
      rw [hm₃, Memory.hw_modHw_self, hlast]
  have hlast₃ : (m₃.hw d).lastAddr = (d :: rest).getLast? := hwritten.lastAddr d rfl
  obtain ⟨m', hreclaim, hs⟩ :=
    reclaimPacket_spliced (m := m₃) (q := q) hwritten.linked hd ht hlast₃ hn
  have hne : q.terminator ≠ d := fun h => ht (h ▸ List.mem_cons_self)
  have hvd₁ : ∀ x, (m₁.vd x).bufAddr = (m.vd x).bufAddr ∧ m₁.nextDesc x = m.nextDesc x := by
    intro x
    by_cases hx : x ∈ d :: rest
    · simp only [Memory.nextDesc, hm₁, writeAll_of_mem hd hx, and_self]
    · simp only [Memory.nextDesc, hm₁, writeAll_of_notMem hx, and_self]
  have hvd : m'.vd = (vdescSwapVdesc q.terminator d m₁).vd := by
    rw [hs.frame]
    rfl
  have hhw : ∀ x, x ≠ q.terminator → x ∉ d :: rest → m'.hw x = m.hw x := by
    intro x hxt hxd
    rw [hs.hw_eq x hxt hxd]
    exact hwritten.hw_eq x hxd
  refine ⟨m', ?_, ⟨⟨m₃, _, hs, hwritten.hw_eq⟩, ?_, ?_, hhw, ?_, ?_, ?_⟩⟩
  · rw [configQueue, hc.walkUpTo_eq hn]
    simp only [Option.bind_eq_bind, Option.bind_some, List.head?_cons, hlast]
    exact hreclaim
  · have hfield := hs.field HwDesc.dataAddr (fun _ => rfl) fun _ => rfl
    intro x hx
    rcases List.mem_cons.mp hx with rfl | hrest
    · have hswap := Vdesc.segment_data (swap_left (m := m₁) hne)
      have haddr := congrArg Segment.bufAddr hswap
      have hoff := congrArg Segment.dataOffset hswap
      rw [← hvd] at haddr hoff
      rw [hfield.1, hwritten.dataAddr d List.mem_cons_self]
      exact congrArg₂ (· + ·) haddr.symm hoff.symm
    · have hxt : x ≠ q.terminator := fun h => ht (h ▸ List.mem_cons_of_mem _ hrest)
      have hxd : x ≠ d := fun h => (List.nodup_cons.mp hd).1 (h ▸ hrest)
      rw [hfield.2 x hrest, hwritten.dataAddr x (List.mem_cons_of_mem _ hrest), hvd,
        swap_of_ne hxt hxd]
      rfl
  · have hmap := map_swap (m := m₁) Vdesc.bufAddr
      (fun _ _ h => congrArg Segment.bufAddr (Vdesc.segment_data h)) ht hd
    rw [← hvd] at hmap
    rw [hmap]
    exact List.map_congr_left fun x _ => (hvd₁ x).1
  · intro x hxt hxd
    have hxd' : x ≠ d := fun h => hxd (h ▸ List.mem_cons_self)
    rw [hvd, swap_of_ne hxt hxd']
    exact writeAll_of_notMem hxd
  · intro x
    rw [Memory.nextDesc, hvd]
    exact swap_nextDesc.trans (hvd₁ x).2
  · rw [hs.frame]
    rfl

/-! ## Allocation -/

theorem vbufFreeVbuf_self :
    (vbufFreeVbuf b m).vb b = { m.vb b with nextBuf := m.freeBufHead } :=
  Function.update_self ..

theorem vbufFreeVbuf_of_ne (h : c ≠ b) : (vbufFreeVbuf b m).vb c = m.vb c :=
  Function.update_of_ne h ..

theorem vbufFreeVbuf_descList : ((vbufFreeVbuf b m).vb c).descList = (m.vb c).descList := by
  by_cases hc : c = b
  · subst hc
    rw [vbufFreeVbuf_self]
  · rw [vbufFreeVbuf_of_ne hc]

/-- Fresh descriptors for the data buffers at `addrs`, in front of those there are. -/
theorem allocBufs_spec {bufSize : ℕ} {addrs : List ℕ} {head head' : Option DescId}
    {acc free : List DescId} (hfree : Chain m.nextDesc m.freeVdescHead free)
    (hacc : Chain m.nextDesc head acc) (hd : (acc ++ free).Nodup)
    (hs : allocBufs bufSize addrs head m = some (head', m')) :
    ∃ taken free', free = taken ++ free' ∧ Chain m'.nextDesc head' (taken.reverse ++ acc) ∧
      Chain m'.nextDesc m'.freeVdescHead free' ∧ (∀ x ∉ taken, m'.vd x = m.vd x) ∧
      taken.map (fun x => (m'.vd x).bufAddr) = addrs ∧
      m' = { m with vd := m'.vd, freeVdescHead := m'.freeVdescHead } := by
  induction addrs generalizing head acc free m with
  | nil =>
    cases hs
    exact ⟨[], free, rfl, hacc, hfree, fun _ _ => rfl, rfl, rfl⟩
  | cons addr addrs ih =>
    cases free with
    | nil =>
      have hnull : m.freeVdescHead = none := hfree
      rw [allocBufs, vdescAllocDesc, hnull] at hs
      cases hs
    | cons f free =>
      obtain ⟨hhead, hrest⟩ := hfree
      rw [allocBufs, vdescAllocDesc, hhead] at hs
      simp only [Option.map_some, Option.bind_eq_bind, Option.bind_some] at hs
      set m₁ := ({ m with freeVdescHead := m.nextDesc f }.modVd f fun v =>
        { v with nextDesc := none }).modVd f fun _ => ⟨head, addr, bufSize, 0, 0, 0⟩ with hm₁
      have hsame : ∀ x, x ≠ f → m₁.vd x = m.vd x := by
        intro x hx
        rw [hm₁, Memory.vd_modVd_of_ne hx, Memory.vd_modVd_of_ne hx]
      have hself : m₁.vd f = ⟨head, addr, bufSize, 0, 0, 0⟩ := by
        rw [hm₁, Memory.vd_modVd_self]
      obtain ⟨-, hfd, hdis⟩ := List.nodup_append.mp hd
      have hfacc : ∀ x ∈ acc, x ≠ f := fun x hx => hdis x hx f List.mem_cons_self
      have hffree : ∀ x ∈ free, x ≠ f := by
        rintro x hx rfl
        exact (List.nodup_cons.mp hfd).1 hx
      have hacc₁ : Chain m₁.nextDesc (some f) (f :: acc) := by
        refine ⟨rfl, ?_⟩
        rw [Memory.nextDesc, hself]
        refine hacc.congr fun x hx => ?_
        rw [Memory.nextDesc, hsame x (hfacc x hx), Memory.nextDesc]
      have hfree₁ : Chain m₁.nextDesc m₁.freeVdescHead free := by
        have hold : Chain m.nextDesc (m.nextDesc f) free := hrest
        refine hold.congr fun x hx => ?_
        rw [Memory.nextDesc, hsame x (hffree x hx), Memory.nextDesc]
      have hd₁ : (f :: acc ++ free).Nodup := List.perm_middle.nodup_iff.mp hd
      obtain ⟨taken, free', rfl, hchain, hfree', hout, hmap, hframe⟩ := ih hfree₁ hacc₁ hd₁ hs
      have hftaken : f ∉ taken := fun hin => hffree f (List.mem_append_left _ hin) rfl
      refine ⟨f :: taken, free', rfl, ?_, hfree', fun x hx => ?_, ?_, ?_⟩
      · rw [List.reverse_cons, List.append_assoc]
        exact hchain
      · have hx' := not_or.mp (List.mem_cons.not.mp hx)
        rw [hout x hx'.2, hsame x hx'.1]
      · rw [List.map_cons, hmap, hout f hftaken, hself]
      · rw [hframe]
        rfl

/-- A completed packet is read back into the first free buffer. -/
theorem reapRecvBuf_relinked {hwNext : DescId} {done pending : List DescId}
    (hr : Ring m q hwNext (ds ++ done) pending) (hp : Packet m ds) (hb : m.freeBufHead = some b)
    (hn : ds.length ≤ m.nDesc) :
    ∃ q' m', reapRecvBuf q m = some (some b, q', m') ∧ Ring m q' hwNext done pending ∧
      q'.terminator = q.terminator ∧ Relinked b ds ({ m with freeBufHead := m.nextBuf b }.modVb b
        fun v => { v with nextBuf := none }) m' := by
  obtain ⟨next, hget, hring⟩ := hr.getPacket hp
  obtain ⟨first, hfirst, -⟩ := hp.lastAddr
  set m₁ := ({ m with freeBufHead := m.nextBuf b }.modVb b fun v => { v with nextBuf := none })
    with hm₁
  have hassoc : ds ++ done ++ pending ++ [q.terminator] =
      ds ++ (done ++ pending ++ [q.terminator]) := by simp
  have hl₁ : Linked m₁.nextAddr ds := by
    have hall := hr.linked
    rw [hassoc] at hall
    exact hall.left
  have hd : ds.Nodup := by
    have hall := hr.nodup
    rw [hassoc] at hall
    exact (List.nodup_append.mp hall).1
  have hp₁ : Packet m₁ ds := hp.congr fun _ _ => rfl
  obtain ⟨m', hrelink, hrel⟩ := relink_relinked (b := b) hp₁ hl₁ hd hn hfirst
  refine ⟨{ q with head := next }, m', ?_, hring, rfl, hrel⟩
  rw [reapRecvBuf, hget, hfirst]
  simp only [Option.bind_eq_bind, Option.bind_some, vbufAllocVbuf, hb, Option.map_some, ← hm₁,
    hrelink]

theorem reapRecvBuf_null {hwNext : DescId} {pending : List DescId}
    (hr : Ring m q hwNext [] pending) : reapRecvBuf q m = some (none, q, m) := by
  rw [reapRecvBuf, hr.getPacket_none]
  rfl

end Ath9kHtc.Dma
