import Ath9kHtc.Dma.Engine

/-!
# Rings

The ring of a queue is the list of its descriptors up to the terminator: first the completed ones,
then those the hardware owns.  A packet is taken from its head, and one is spliced in at its end by
exchanging the terminator with the packet's first descriptor.
-/

namespace Ath9kHtc.Dma

variable {m m' : Memory} {q : Queue} {hwNext t d : DescId} {done pending ds rest : List DescId}

/-- The descriptors of `q` before its terminator, with the hardware about to work on `hwNext`. -/
structure Ring (m : Memory) (q : Queue) (hwNext : DescId) (done pending : List DescId) : Prop where
  linked : Linked m.nextAddr (done ++ pending ++ [q.terminator])
  nodup : (done ++ pending ++ [q.terminator]).Nodup
  head : (done ++ pending ++ [q.terminator]).head? = some q.head
  next : (pending ++ [q.terminator]).head? = some hwNext
  completed : ∀ d ∈ done, (m.hw d).own.Completed
  owned : ∀ d ∈ pending, (m.hw d).own = .hw
  terminator : (m.hw q.terminator).own = .sw

/-- The marks of a packet on its descriptors. -/
structure Packet (m : Memory) (ds : List DescId) : Prop where
  lastAddr : ∃ first, ds.head? = some first ∧ (m.hw first).lastAddr = ds.getLast?
  ls : ∀ d ∈ ds, (m.hw d).ls = true ↔ ds.getLast? = some d

namespace Packet

theorem ne_nil (h : Packet m ds) : ds ≠ [] := by
  rintro rfl
  obtain ⟨first, hfirst, -⟩ := h.lastAddr
  cases hfirst

theorem congr (h : Packet m ds) (hsame : ∀ d ∈ ds, m'.hw d = m.hw d) : Packet m' ds := by
  obtain ⟨first, hfirst, hlast⟩ := h.lastAddr
  refine ⟨⟨first, hfirst, ?_⟩, fun d hd => ?_⟩
  · rw [hsame first (List.mem_of_head? hfirst), hlast]
  · rw [hsame d hd, h.ls d hd]

end Packet

namespace Ring

theorem congr (h : Ring m q hwNext done pending)
    (hsame : ∀ x ∈ done ++ pending ++ [q.terminator], m'.hw x = m.hw x) :
    Ring m' q hwNext done pending := by
  refine ⟨?_, h.nodup, h.head, h.next, fun d hd => ?_, fun d hd => ?_, ?_⟩
  · exact h.linked.congr fun c hc => congrArg HwDesc.nextAddr (hsame c hc)
  · rw [hsame d (by simp [hd])]
    exact h.completed d hd
  · rw [hsame d (by simp [hd])]
    exact h.owned d hd
  · rw [hsame _ (by simp)]
    exact h.terminator

theorem head_eq (h : Ring m q hwNext [] pending) : q.head = hwNext := by
  have hhead := h.head
  have hnext := h.next
  rw [List.nil_append, hnext] at hhead
  exact (Option.some.inj hhead).symm

theorem terminator_notMem (h : Ring m q hwNext done pending) :
    q.terminator ∉ done ++ pending := by
  have hd := List.nodup_append.mp h.nodup
  intro hmem
  exact hd.2.2 _ hmem _ List.mem_cons_self rfl

/-- Without a completed packet there is none to take. -/
theorem getPacket_none (h : Ring m q hwNext [] pending) :
    zfDmaGetPacket q m = some (none, q) := by
  have hhead := h.head
  rw [zfDmaGetPacket]
  split
  · rfl
  · rw [if_neg]
    intro hown
    cases pending with
    | nil =>
      have heq : q.terminator = q.head := Option.some.inj hhead
      exact absurd heq.symm ‹_›
    | cons a pending =>
      obtain rfl : a = q.head := Option.some.inj hhead
      exact hown.ne_hw (h.owned _ List.mem_cons_self)

/-- The first of the completed packets is taken by going on behind its last descriptor. -/
theorem getPacket (h : Ring m q hwNext (ds ++ done) pending) (hp : Packet m ds) :
    ∃ next, zfDmaGetPacket q m = some (ds.head?, { q with head := next }) ∧
      Ring m { q with head := next } hwNext done pending := by
  obtain ⟨first, hfirst, hlast⟩ := hp.lastAddr
  obtain ⟨next, hnext⟩ : ∃ next, (done ++ pending ++ [q.terminator]).head? = some next := by
    cases done ++ pending <;> exact ⟨_, rfl⟩
  have hl := List.getLast?_eq_some_getLast hp.ne_nil
  set last := ds.getLast hp.ne_nil
  have hsplit : ds ++ done ++ pending ++ [q.terminator] =
      ds ++ (done ++ pending ++ [q.terminator]) := by simp
  have hlinked := h.linked
  have hnodup := h.nodup
  rw [hsplit] at hlinked hnodup
  have hhead : q.head = first := by
    have hq := h.head
    rw [hsplit, List.head?_append, hfirst] at hq
    exact (Option.some.inj hq).symm
  have hfirstMem : first ∈ ds := List.mem_of_head? hfirst
  have hne : q.head ≠ q.terminator := by
    intro heq
    apply h.terminator_notMem
    rw [← heq, hhead]
    exact List.mem_append_left _ (List.mem_append_left _ hfirstMem)
  have hown : (m.hw q.head).own.Completed := by
    rw [hhead]
    exact h.completed first (List.mem_append_left _ hfirstMem)
  have hlink : m.nextAddr last = some next := hlinked.next_getLast hl hnext
  refine ⟨next, ?_, ⟨hlinked.right, (List.nodup_append.mp hnodup).2.1, hnext, h.next,
    fun d hd => h.completed d (List.mem_append_right _ hd), h.owned, h.terminator⟩⟩
  rw [zfDmaGetPacket, if_neg hne, if_pos hown, hhead, hlast, hl, hfirst]
  simp [hlink]

/-- Other owners on the same ring. -/
theorem mark {done' pending' : List DescId} {next : DescId} (h : Ring m q hwNext done pending)
    (hlinks : ∀ d, m'.nextAddr d = m.nextAddr d) (hlist : done' ++ pending' = done ++ pending)
    (hnext : (pending' ++ [q.terminator]).head? = some next)
    (hdone : ∀ d ∈ done', (m'.hw d).own.Completed) (hpending : ∀ d ∈ pending', (m'.hw d).own = .hw)
    (hterm : (m'.hw q.terminator).own = .sw) : Ring m' q next done' pending' := by
  refine ⟨?_, ?_, ?_, hnext, hdone, hpending, hterm⟩
  · rw [hlist]
    exact h.linked.congr fun d _ => hlinks d
  · rw [hlist]
    exact h.nodup
  · rw [hlist]
    exact h.head

/-- The hardware completes descriptors in the order of the ring. -/
theorem complete (h : Ring m q hwNext done (ds ++ pending))
    (hlinks : ∀ d, m'.nextAddr d = m.nextAddr d) (hds : ∀ d ∈ ds, (m'.hw d).own.Completed)
    (hsame : ∀ d, d ∉ ds → (m'.hw d).own = (m.hw d).own) {next : DescId}
    (hnext : (pending ++ [q.terminator]).head? = some next) :
    Ring m' q next (done ++ ds) pending := by
  have hd := h.nodup
  have hapart : ∀ d ∈ ds, d ∉ pending ∧ d ≠ q.terminator ∧ d ∉ done := by
    intro d hmem
    grind [List.nodup_append]
  refine h.mark hlinks (List.append_assoc ..) hnext (fun d hmem => ?_) (fun d hmem => ?_) ?_
  · rcases List.mem_append.mp hmem with hdone | hnew
    · rw [hsame d fun hin => (hapart d hin).2.2 hdone]
      exact h.completed d hdone
    · exact hds d hnew
  · rw [hsame d fun hin => (hapart d hin).1 hmem]
    exact h.owned d (List.mem_append_right _ hmem)
  · rw [hsame _ fun hin => (hapart _ hin).2.1 rfl]
    exact h.terminator

end Ring

/-! ## Splicing a packet in -/

/-- What goes along with a descriptor when its packet is spliced in. -/
def HwDesc.data (d : HwDesc) : HwDesc :=
  { d with own := .sw, lastAddr := none, nextAddr := none }

/-- The memory after `d :: rest` went into the ring that ends in `t`, with `t` in the place of `d`;
`body` is what the insertion does to the data of a descriptor. -/
structure Spliced (t d : DescId) (rest : List DescId) (body : HwDesc → HwDesc) (m m' : Memory) :
    Prop where
  linked : Linked m'.nextAddr (t :: (rest ++ [d]))
  owned : ∀ x ∈ t :: rest, (m'.hw x).own = .hw
  terminator : (m'.hw d).own = .sw
  first : (m'.hw t).data = body (m.hw d).data
  others : ∀ x ∈ rest, (m'.hw x).data = body (m.hw x).data
  hw_eq : ∀ x, x ≠ t → x ∉ d :: rest → m'.hw x = m.hw x
  frame : m' = { m with hw := m'.hw, vd := (vdescSwapVdesc t d m).vd }

/-- A field of the data, where the insertion leaves it as it is. -/
theorem Spliced.field {body : HwDesc → HwDesc} {β : Type*} (hs : Spliced t d rest body m m')
    (f : HwDesc → β) (hf : ∀ c, f (body c.data) = f c) (hdata : ∀ c, f c.data = f c) :
    f (m'.hw t) = f (m.hw d) ∧ ∀ x ∈ rest, f (m'.hw x) = f (m.hw x) := by
  refine ⟨?_, fun x hx => ?_⟩
  · rw [← hdata (m'.hw t), hs.first, hf]
  · rw [← hdata (m'.hw x), hs.others x hx, hf]

/-- The ring after the insertion. -/
theorem Ring.splice {body : HwDesc → HwDesc} (h : Ring m q hwNext done pending)
    (hs : Spliced q.terminator d rest body m m') (hd : (d :: rest).Nodup)
    (hnew : ∀ x ∈ d :: rest, x ∉ done ++ pending ++ [q.terminator]) :
    Ring m' { q with terminator := d } hwNext done (pending ++ q.terminator :: rest) := by
  have hterm := h.terminator_notMem
  have hsame : ∀ x ∈ done ++ pending, m'.hw x = m.hw x := by
    intro x hx
    apply hs.hw_eq
    · rintro rfl
      exact hterm hx
    · exact fun hin => hnew x hin (List.mem_append_left _ hx)
  have hlist : done ++ (pending ++ q.terminator :: rest) ++ [d] =
      done ++ pending ++ q.terminator :: (rest ++ [d]) := by simp
  have hold : Linked m'.nextAddr (done ++ pending ++ [q.terminator]) := by
    rcases List.eq_nil_or_concat (done ++ pending) with hnil | ⟨l, a, hl⟩
    · rw [hnil]
      exact .singleton _
    · have hlinked := h.linked
      rw [hl, List.concat_eq_append] at hlinked hsame ⊢
      have hlink : m'.nextAddr a = some q.terminator := by
        rw [Memory.nextAddr, hsame a (by simp)]
        exact hlinked.next_getLast (by simp) rfl
      apply hlinked.left.snoc hlink
      intro c hc
      rw [Memory.nextAddr, Memory.nextAddr, hsame c (by simp [hc])]
  refine ⟨?_, ?_, ?_, ?_, ?_, ?_, hs.terminator⟩
  · rw [hlist]
    exact hold.append hs.linked
  · have hperm : (done ++ pending ++ q.terminator :: (rest ++ [d])).Perm
        (done ++ pending ++ [q.terminator] ++ d :: rest) := by
      rw [List.append_assoc _ [q.terminator]]
      exact ((List.perm_append_singleton d rest).cons _).append_left _
    rw [hlist, hperm.nodup_iff]
    refine List.nodup_append.mpr ⟨h.nodup, hd, ?_⟩
    rintro x hx y hy rfl
    exact hnew x hy hx
  · have hhead := h.head
    rw [hlist, List.head?_append]
    rw [List.head?_append] at hhead
    exact hhead
  · have hnext := h.next
    rw [List.append_assoc, List.head?_append]
    rw [List.head?_append] at hnext
    exact hnext
  · intro x hx
    rw [hsame x (List.mem_append_left _ hx)]
    exact h.completed x hx
  · intro x hx
    rcases List.mem_append.mp hx with hold | hin
    · rw [hsame x (List.mem_append_right _ hold)]
      exact h.owned x hold
    · exact hs.owned x hin

/-- The ring after the insertion of descriptors that were written before. -/
theorem Ring.splice_written {m₀ : Memory} {body : HwDesc → HwDesc}
    (h : Ring m q hwNext done pending) (hs : Spliced q.terminator d rest body m₀ m')
    (hoff : ∀ x ∉ d :: rest, m₀.hw x = m.hw x) (hd : (d :: rest).Nodup)
    (hnew : ∀ x ∈ d :: rest, x ∉ done ++ pending ++ [q.terminator]) :
    Ring m' { q with terminator := d } hwNext done (pending ++ q.terminator :: rest) :=
  (h.congr fun x hx => hoff x fun hin => hnew x hin hx).splice hs hd hnew

/-- The exchange, after every descriptor of the packet has been given to the hardware and its last
one linked to its first. -/
theorem exchange_spliced {body : HwDesc → HwDesc} (hl : Linked m.nextAddr (d :: rest))
    (hd : (d :: rest).Nodup) (ht : t ∉ d :: rest) {m₁ : Memory}
    (howned : ∀ x ∈ d :: rest, (m₁.hw x).own = .hw)
    (hdata : ∀ x ∈ d :: rest, (m₁.hw x).data = body (m.hw x).data)
    (hlast : ∀ x ∈ d :: rest, (d :: rest).getLast? = some x → m₁.nextAddr x = some d)
    (hlink : ∀ x ∈ d :: rest, (d :: rest).getLast? ≠ some x → m₁.nextAddr x = m.nextAddr x)
    (heq : ∀ x ∉ d :: rest, m₁.hw x = m.hw x) (hm : m₁ = { m with hw := m₁.hw }) {q : Queue}
    (hq : q.terminator = t) :
    Spliced t d rest body m (exchange q d m₁).2 := by
  subst hq
  obtain ⟨hdr, hr⟩ := List.nodup_cons.mp hd
  have hcircle : Linked m₁.nextAddr (d :: (rest ++ [d])) := by
    obtain ⟨l, a, hla⟩ := (List.eq_nil_or_concat (d :: rest)).resolve_left (List.cons_ne_nil _ _)
    rw [List.concat_eq_append] at hla
    rw [← List.cons_append, hla]
    rw [hla] at hl hlast hlink hd
    refine hl.snoc (hlast a (by simp) (by simp)) fun c hc => hlink c (by simp [hc]) ?_
    simp only [List.getLast?_append, List.getLast?_singleton, Option.some_or, ne_eq,
      Option.some.injEq]
    rintro rfl
    exact (List.nodup_append.mp hd).2.2 a hc a List.mem_cons_self rfl
  have hne : q.terminator ≠ d := fun h => ht (h ▸ List.mem_cons_self)
  have hhw : ∀ x, (exchange q d m₁).2.hw x =
      if x = q.terminator then { m₁.hw d with own := .hw }
      else if x = d then { m₁.hw d with own := .sw } else m₁.hw x := by
    intro x
    simp only [exchange, vdescSwapVdesc, Memory.modHw, Memory.modVd, Function.update_apply]
  have hrest : ∀ x ∈ rest, (exchange q d m₁).2.hw x = m₁.hw x := by
    intro x hx
    have hxt : x ≠ q.terminator := fun h => ht (h ▸ List.mem_cons_of_mem _ hx)
    have hxd : x ≠ d := fun h => hdr (h ▸ hx)
    rw [hhw, if_neg hxt, if_neg hxd]
  refine ⟨?_, ?_, ?_, ?_, ?_, ?_, ?_⟩
  · apply hcircle.replace_head
    · rw [Memory.nextAddr, hhw, if_pos rfl, Memory.nextAddr]
    · intro x hx
      rw [Memory.nextAddr, hrest x hx, Memory.nextAddr]
  · intro x hx
    rcases List.mem_cons.mp hx with rfl | hin
    · rw [hhw, if_pos rfl]
    · rw [hrest x hin]
      exact howned x (List.mem_cons_of_mem _ hin)
  · rw [hhw, if_neg hne.symm, if_pos rfl]
  · rw [hhw, if_pos rfl, ← hdata d List.mem_cons_self]
    rfl
  · intro x hx
    rw [hrest x hx]
    exact hdata x (List.mem_cons_of_mem _ hx)
  · intro x hxt hx
    have hxd : x ≠ d := fun h => hx (h ▸ List.mem_cons_self)
    rw [hhw, if_neg hxt, if_neg hxd, heq x hx]
  · rw [hm]
    rfl

section

variable {last x : DescId}

/-- The descriptors of a packet are the ones its insertion goes over. -/
theorem packetDescs_eq (hl : Linked m.nextAddr (d :: rest)) (hd : (d :: rest).Nodup)
    (hlast : (m.hw d).lastAddr = (d :: rest).getLast?) (hn : (d :: rest).length ≤ m.nDesc) :
    packetDescs d m = some (d :: rest) := by
  apply hl.walkUntil_eq rfl hd _ hn
  intro c _
  rw [hlast]
  exact decide_eq_true_iff

/-- The memory with the packet `ds` given to the hardware and closed to a circle. -/
theorem hw_closed {body : HwDesc → HwDesc} (hd : ds.Nodup) (hlast : last ∈ ds) :
    ({ m with hw := writeAll (fun _ => body) ds m.hw }.modHw last (HwDesc.setNext (some d))).hw x =
      if x ∈ ds then if x = last then { body (m.hw x) with nextAddr := some d } else body (m.hw x)
      else m.hw x := by
  by_cases hx : x ∈ ds
  · rw [if_pos hx]
    by_cases hxl : x = last
    · subst hxl
      rw [if_pos rfl, Memory.hw_modHw_self]
      exact congrArg (HwDesc.setNext (some d)) (writeAll_of_mem hd hlast)
    · rw [if_neg hxl, Memory.hw_modHw_of_ne hxl]
      exact writeAll_of_mem hd hx
  · have hxl : x ≠ last := fun h => hx (h ▸ hlast)
    rw [if_neg hx, Memory.hw_modHw_of_ne hxl]
    exact writeAll_of_notMem hx

/-- A packet is transmitted: the descriptor that takes the place of its first one knows the
last. -/
theorem putPacket_spliced (hl : Linked m.nextAddr (d :: rest)) (hd : (d :: rest).Nodup)
    (ht : q.terminator ∉ d :: rest) (hlast : (m.hw d).lastAddr = (d :: rest).getLast?)
    (hn : (d :: rest).length ≤ m.nDesc) :
    ∃ m', zfDmaPutPacket q d m = some ({ q with terminator := d }, m') ∧
      Spliced q.terminator d rest id m m' ∧
      (m'.hw q.terminator).lastAddr = (q.terminator :: rest).getLast? := by
  have hgl := List.getLast?_eq_some_getLast (List.cons_ne_nil d rest)
  have hmem := List.getLast_mem (List.cons_ne_nil d rest)
  set last := (d :: rest).getLast (List.cons_ne_nil d rest)
  set m₂ := ({ m with hw := writeAll (fun _ d => { d with own := .hw }) (d :: rest) m.hw }.modHw last
    (HwDesc.setNext (some d)))
  set m₁ := if last = d then m₂.modHw d fun d => { d with lastAddr := some q.terminator } else m₂
    with hm₁
  have hhw₂ : ∀ x, m₂.hw x = if x ∈ d :: rest then
      if x = last then { m.hw x with own := .hw, nextAddr := some d }
      else { m.hw x with own := .hw } else m.hw x := fun x => hw_closed hd hmem
  have hsame : ∀ x, (m₁.hw x).own = (m₂.hw x).own ∧ (m₁.hw x).data = (m₂.hw x).data ∧
      m₁.nextAddr x = m₂.nextAddr x := by
    intro x
    rw [hm₁]
    split
    · simp only [Memory.nextAddr, Memory.modHw, Function.update_apply]
      split
      · subst x
        exact ⟨rfl, rfl, rfl⟩
      · exact ⟨rfl, rfl, rfl⟩
    · exact ⟨rfl, rfl, rfl⟩
  refine ⟨(exchange q d m₁).2, ?_, exchange_spliced hl hd ht ?_ ?_ ?_ ?_ ?_ ?_ rfl, ?_⟩
  · have hlast₀ : (writeAll (fun _ d => { d with own := .hw }) (d :: rest) m.hw d).lastAddr =
        some last := by
      rw [writeAll_of_mem hd List.mem_cons_self]
      exact hlast.trans hgl
    simp only [zfDmaPutPacket, packetDescs_eq hl hd hlast hn, Option.bind_eq_bind,
      Option.bind_some, hlast₀]
    rfl
  · intro x hx
    rw [(hsame x).1, hhw₂, if_pos hx]
    split <;> rfl
  · intro x hx
    rw [(hsame x).2.1, hhw₂, if_pos hx]
    split <;> rfl
  · intro x hx hxl
    rw [(hsame x).2.2, Memory.nextAddr, hhw₂, if_pos hx, if_pos (Option.some.inj (hgl ▸ hxl)).symm]
  · intro x hx hxl
    have hne : x ≠ last := fun h => hxl (h ▸ hgl)
    rw [(hsame x).2.2, Memory.nextAddr, hhw₂, if_pos hx, if_neg hne]
    rfl
  · intro x hx
    have hxd : x ≠ d := fun h => hx (h ▸ List.mem_cons_self)
    rw [hm₁]
    split
    · rw [Memory.hw_modHw_of_ne hxd, hhw₂, if_neg hx]
    · rw [hhw₂, if_neg hx]
  · rw [hm₁]
    split <;> rfl
  · have hexchange : ((exchange q d m₁).2.hw q.terminator).lastAddr = (m₁.hw d).lastAddr := by
      simp only [exchange, vdescSwapVdesc, Memory.modHw, Memory.modVd, Function.update_self]
    rw [hexchange, hm₁]
    cases hr : rest with
    | nil =>
      have hld : last = d := by simp only [last, hr, List.getLast_singleton]
      rw [if_pos hld, Memory.hw_modHw_self]
      rfl
    | cons b l =>
      have hld : last ≠ d := by
        intro h
        have hin : last ∈ rest := by
          simp only [last, hr, List.getLast_cons_cons]
          exact List.getLast_mem _
        exact (List.nodup_cons.mp hd).1 (h ▸ hin)
      have hdl : d ≠ last := hld.symm
      rw [if_neg hld, hhw₂, if_pos List.mem_cons_self, if_neg hdl]
      simp only [hlast, hr, List.getLast?_cons_cons]

/-- A packet is given back to receive into. -/
theorem reclaimPacket_spliced (hl : Linked m.nextAddr (d :: rest)) (hd : (d :: rest).Nodup)
    (ht : q.terminator ∉ d :: rest) (hlast : (m.hw d).lastAddr = (d :: rest).getLast?)
    (hn : (d :: rest).length ≤ m.nDesc) :
    ∃ m', zfDmaReclaimPacket q d m = some ({ q with terminator := d }, m') ∧
      Spliced q.terminator d rest (fun d => { d with fs := false, ls := false, totalLen := 0 }) m
        m' := by
  have hgl := List.getLast?_eq_some_getLast (List.cons_ne_nil d rest)
  have hmem := List.getLast_mem (List.cons_ne_nil d rest)
  set last := (d :: rest).getLast (List.cons_ne_nil d rest)
  set m₁ := ({ m with hw := writeAll (fun _ d => { d with
    own := .hw, fs := false, ls := false, totalLen := 0 }) (d :: rest) m.hw }.modHw last
    (HwDesc.setNext (some d)))
  have hhw : ∀ x, m₁.hw x = if x ∈ d :: rest then
      if x = last then { m.hw x with
        own := .hw, fs := false, ls := false, totalLen := 0, nextAddr := some d }
      else { m.hw x with own := .hw, fs := false, ls := false, totalLen := 0 } else m.hw x :=
    fun x => hw_closed hd hmem
  refine ⟨(exchange q d m₁).2, ?_, exchange_spliced hl hd ht ?_ ?_ ?_ ?_ ?_ rfl rfl⟩
  · have hlast₀ : (writeAll (fun _ d => { d with
        own := .hw, fs := false, ls := false, totalLen := 0 }) (d :: rest) m.hw d).lastAddr =
        some last := by
      rw [writeAll_of_mem hd List.mem_cons_self]
      exact hlast.trans hgl
    simp only [zfDmaReclaimPacket, packetDescs_eq hl hd hlast hn, Option.bind_eq_bind,
      Option.bind_some, hlast₀]
    rfl
  · intro x hx
    rw [hhw, if_pos hx]
    split <;> rfl
  · intro x hx
    rw [hhw, if_pos hx]
    split <;> rfl
  · intro x hx hxl
    rw [Memory.nextAddr, hhw, if_pos hx, if_pos (Option.some.inj (hgl ▸ hxl)).symm]
  · intro x hx hxl
    have hne : x ≠ last := fun h => hxl (h ▸ hgl)
    rw [Memory.nextAddr, hhw, if_pos hx, if_neg hne]
    rfl
  · intro x hx
    rw [hhw, if_neg hx]

end

end Ath9kHtc.Dma
