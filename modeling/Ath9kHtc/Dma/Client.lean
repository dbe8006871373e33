import Ath9kHtc.Dma.Fifo

/-!
# The client of the transmit ring

What transmitting and reaping leave alone, and the descriptor lists that the buffers in
transmission still point to.
-/

namespace Ath9kHtc.Dma

variable {m m' : Memory} {q q' : TxQueue} {t : DescId} {b c : BufId} {d x : DescId}
  {ds rest : List DescId} {bs held held' : List BufId} {places : List DescId}
  {pairs : List (ℕ × ℕ)} {done pending : List Flight}

/-! ## What is left alone -/

theorem pushXmited_frame (hx : Xmited m q bs) (hpush : pushXmited q b m = some (q', m')) :
    (∀ c ∉ b :: bs, m'.vb c = m.vb c) ∧ m' = { m with vb := m'.vb } := by
  rw [pushXmited] at hpush
  split at hpush
  · obtain ⟨-, rfl⟩ := Prod.mk.inj (Option.some.inj hpush)
    refine ⟨fun c hc => ?_, rfl⟩
    rw [List.mem_cons, not_or] at hc
    exact Memory.vb_modVb_of_ne hc.1
  · obtain ⟨tail, htail, heq⟩ := Option.map_eq_some_iff.mp hpush
    obtain ⟨-, rfl⟩ := Prod.mk.inj heq
    refine ⟨fun c hc => Memory.vb_modVb_of_ne ?_, rfl⟩
    rintro rfl
    rw [List.mem_cons, not_or] at hc
    exact hc.2 (List.mem_of_getLast? (hx.tail.symm.trans htail))

theorem exchange_frame (q : Queue) (d : DescId) (m : Memory) :
    (∀ x, (exchange q d m).2.nextDesc x = m.nextDesc x) ∧
      (exchange q d m).2 = { m with hw := (exchange q d m).2.hw, vd := (exchange q d m).2.vd } :=
  ⟨fun _ => swap_nextDesc, rfl⟩

theorem zfDmaPutPacket_frame {ring ring' : Queue}
    (hput : zfDmaPutPacket ring d m = some (ring', m')) :
    (∀ x, m'.nextDesc x = m.nextDesc x) ∧ m' = { m with hw := m'.hw, vd := m'.vd } := by
  simp only [zfDmaPutPacket, Option.bind_eq_bind, Option.bind_eq_some_iff, Option.some.injEq] at hput
  obtain ⟨ds, -, last, -, hput⟩ := hput
  have hm' := congrArg Prod.snd hput
  dsimp only at hm'
  rw [← hm']
  split
  · exact ⟨fun x => (exchange_frame ..).1 x, rfl⟩
  · exact ⟨fun x => (exchange_frame ..).1 x, rfl⟩

theorem xmitBuf_frame (hx : Xmited m q bs) (hxmit : xmitBuf q b m = some (q', m')) :
    (∀ c ∉ b :: bs, m'.vb c = m.vb c) ∧ (∀ x, m'.nextDesc x = m.nextDesc x) ∧
      m' = { m with hw := m'.hw, vd := m'.vd, vb := m'.vb } := by
  simp only [xmitBuf, Option.bind_eq_bind, Option.bind_eq_some_iff, Option.some.injEq,
    Prod.exists, Prod.mk.injEq] at hxmit
  obtain ⟨ds, -, head, -, last, -, q₁, m₁, hpush, ring, m₂, hput, -, rfl⟩ := hxmit
  have hx₁ : Xmited (writePacket ds head last (m.vb b).bufLength m) q bs :=
    hx.congr fun _ => rfl
  obtain ⟨hvb, hframe₁⟩ := pushXmited_frame hx₁ hpush
  obtain ⟨hnext, hframe₂⟩ := zfDmaPutPacket_frame hput
  have hvb₂ : m₂.vb = m₁.vb := by
    rw [hframe₂]
  have hvd₁ : m₁.vd = m.vd := by
    rw [hframe₁]
    rfl
  refine ⟨fun c hc => ?_, fun x => ?_, ?_⟩
  · rw [hvb₂, hvb c hc]
    rfl
  · rw [hnext, Memory.nextDesc, hvd₁, Memory.nextDesc]
  · rw [hframe₂, hframe₁]
    rfl

theorem relinkUSBDescToVdesc_frame (hrelink : relinkUSBDescToVdesc b d m = some m') :
    (∀ c, c ≠ b → m'.vb c = m.vb c) ∧ m'.nextBuf b = m.nextBuf b ∧
      m' = { m with vd := m'.vd, vb := m'.vb } := by
  simp only [relinkUSBDescToVdesc, Option.bind_eq_bind, Option.bind_eq_some_iff,
    Option.some.injEq] at hrelink
  obtain ⟨ds, -, last, -, hrelink⟩ := hrelink
  have hvb : m'.vb = (m.modVb b fun v =>
      { v with descList := some d, bufLength := (m.hw d).totalLen }).vb := by
    rw [← hrelink]
    split <;> rfl
  refine ⟨fun c hc => ?_, ?_, ?_⟩
  · rw [hvb, Memory.vb_modVb_of_ne hc]
  · rw [Memory.nextBuf, hvb, Memory.vb_modVb_self, Memory.nextBuf]
  · rw [← hrelink]
    split <;> rfl

theorem reapXmitedBuf_frame (hreap : reapXmitedBuf q m = some (some b, q', m')) :
    (∀ c, c ≠ b → m'.vb c = m.vb c) ∧ m'.nextBuf b = none ∧
      m' = { m with vd := m'.vd, vb := m'.vb } := by
  simp only [reapXmitedBuf, Option.bind_eq_bind, Option.bind_eq_some_iff, Prod.exists] at hreap
  obtain ⟨desc, ring, -, hreap⟩ := hreap
  cases desc with
  | none =>
    cases hreap
  | some desc =>
    simp only [Option.bind_eq_some_iff, Prod.exists, Option.some.injEq, Prod.mk.injEq] at hreap
    obtain ⟨sentBuf, q₁, m₁, hpop, m₂, hrelink, rfl, -, rfl⟩ := hreap
    obtain ⟨_, -, heq⟩ := Option.map_eq_some_iff.mp hpop
    obtain ⟨rfl, hq₁⟩ := Prod.mk.inj heq
    obtain ⟨-, rfl⟩ := Prod.mk.inj hq₁
    obtain ⟨hvb, hnext, hframe⟩ := relinkUSBDescToVdesc_frame hrelink
    refine ⟨fun c hc => ?_, ?_, ?_⟩
    · rw [hvb c hc, Memory.vb_modVb_of_ne hc]
    · rw [hnext, Memory.nextBuf, Memory.vb_modVb_self]
    · rw [hframe]
      rfl

/-! ## The ring with its client's buffers -/

/-- The transmit ring seen from the buffers its client holds; its logs begin with what is in
transmission. -/
def ringOf (m : Memory) (q : TxQueue) (t : DescId) (held : List BufId)
    (done pending : List Flight) : TxSystem :=
  ⟨m, q, t, held, (done ++ pending).map Flight.sent, done.length, []⟩

/-- The layout of the ring. -/
def Carries (places : List DescId) (pairs : List (ℕ × ℕ)) (m : Memory) (q : TxQueue) (t : DescId)
    (held : List BufId) (done pending : List Flight) : Prop :=
  Layout places pairs (ringOf m q t held done pending) done pending

theorem Layout.carries {s : TxSystem} (h : Layout places pairs s done pending) :
    Carries places pairs s.mem s.q s.txDesc s.held done pending :=
  ⟨h.ring, h.carried, h.xmited, h.client, h.bufs, h.placed, h.distinct, h.bound, h.paired,
    rfl, (Nat.zero_add _).symm⟩

namespace Carries

/-- The descriptors of the client's buffers have been put together in another way. -/
theorem regroup (h : Carries places pairs m q t held done pending) (hhw : m'.hw = m.hw)
    (hvd : ∀ x ∉ held.flatMap (vbufDescs m), m'.vd x = m.vd x)
    (hpair : ∀ x, m'.pair x = m.pair x) (hn : m'.nDesc = m.nDesc)
    (hbuf : ∀ c ∈ (done ++ pending).map fun f => f.sent.buf, m'.nextBuf c = m.nextBuf c)
    (hclient : ∀ b ∈ held', vbufDescs m' b ≠ [] ∧
      Chain m'.nextDesc (m'.vb b).descList (vbufDescs m' b))
    (hbufs : (held' ++ (done ++ pending).map fun f => f.sent.buf).Nodup)
    (hdescs : (held'.flatMap (vbufDescs m')).Perm (held.flatMap (vbufDescs m))) :
    Carries places pairs m' q t held' done pending := by
  have hpairs : m'.pair = m.pair := funext hpair
  refine ⟨?_, ?_, ?_, hclient, hbufs, ?_, h.distinct, ?_, ?_, rfl, (Nat.zero_add _).symm⟩
  · exact h.ring.congr fun x _ => congrFun hhw x
  · intro f hf
    apply (h.carried f hf).congr
    · intro x _
      simp only [ringOf]
      rw [hhw]
      exact ⟨rfl, rfl, rfl, rfl⟩
    · intro x hx
      have hapart : x ∉ held.flatMap (vbufDescs m) := fun hin => (h.heldDescs_apart hin).2 f hf hx
      exact congrArg Vdesc.segment (hvd x hapart)
  · exact ⟨h.xmited.linked.congr hbuf, h.xmited.head, h.xmited.tail⟩
  · exact ((hdescs.append_left _).cons _).trans h.placed
  · exact hn ▸ h.bound
  · have hpaired := h.paired
    simp only [ringOf, TxSystem.heldDescs] at hpaired ⊢
    rw [hpairs]
    exact ((hdescs.append_left _).map _).trans hpaired

theorem perm (h : Carries places pairs m q t held done pending) (hp : held.Perm held') :
    Carries places pairs m q t held' done pending := by
  apply h.regroup rfl (fun _ _ => rfl) (fun _ => rfl) rfl (fun _ _ => rfl)
  · exact fun b hb => h.client b (hp.mem_iff.mpr hb)
  · exact (hp.append_right _).nodup_iff.mp h.bufs
  · exact (hp.flatMap_right _).symm

/-- What a buffer holds does not depend on other buffers' descriptors. -/
theorem content_congr (h : Carries places pairs m q t held done pending) (hc : c ∈ held)
    (hlist : (m'.vb c).descList = (m.vb c).descList)
    (hlen : (m'.vb c).bufLength = (m.vb c).bufLength)
    (hvd : ∀ x ∈ vbufDescs m c, m'.vd x = m.vd x) (hn : m'.nDesc = m.nDesc) :
    content m' c = content m c ∧ vbufDescs m' c = vbufDescs m c := by
  have hchain : Chain m'.nextDesc (m'.vb c).descList (vbufDescs m c) := by
    rw [hlist]
    exact (h.client c hc).2.congr fun x hx => congrArg Vdesc.nextDesc (hvd x hx)
  have hdescs : vbufDescs m' c = vbufDescs m c := by
    apply vbufDescs_eq hchain
    rw [hn]
    exact h.vbufDescs_length_le hc
  refine ⟨?_, hdescs⟩
  rw [content, content, hdescs, hlen, List.map_congr_left]
  intro x hx
  rw [hvd x hx]

/-- A buffer of the client is transmitted; the terminator takes the place of its first
descriptor. -/
theorem xmit (h : Carries places pairs m q t (b :: held) done pending) :
    ∃ q' m' rest, xmitBuf q b m = some (q', m') ∧ vbufDescs m b = q'.terminator :: rest ∧
      Carries places pairs m' q' t held done
        (pending ++ [⟨content m b, q.terminator :: rest⟩]) ∧
      ∀ c ∈ held, content m' c = content m c := by
  have hb : b ∈ (ringOf m q t (b :: held) done pending).held := List.mem_cons_self
  obtain ⟨d, rest, hdr⟩ := List.exists_cons_of_ne_nil (h.client b hb).1
  obtain ⟨q', m', hxmit, htr⟩ := h.xmit_transmitted hb hdr
  have hterm : q'.terminator = d := by
    rw [htr.queue]
  have hlayout := (h.transmitted hb hdr htr).carries
  simp only [ringOf, List.erase_cons_head] at hlayout
  refine ⟨q', m', rest, hxmit, by rw [hterm]; exact hdr, hlayout, fun c hc => ?_⟩
  obtain ⟨-, -, -, hothers⟩ := h.xmit_apart hb hdr
  have hne : c ≠ b := by
    rintro rfl
    have hd := (List.nodup_append.mp h.bufs).1
    exact (List.nodup_cons.mp hd).1 hc
  have hframe := xmitBuf_frame h.xmited hxmit
  have hcnot : c ∉ b :: (done ++ pending).map fun f => f.sent.buf := by
    intro hin
    rcases List.mem_cons.mp hin with heq | hin
    · exact hne heq
    · exact (List.nodup_append.mp h.bufs).2.2 c (List.mem_cons_of_mem _ hc) c hin rfl
  refine (h.content_congr (List.mem_cons_of_mem _ hc) ?_ ?_ (fun x hx => ?_) htr.nDesc).1
  · exact htr.descList c
  · rw [hframe.1 c hcnot]
    rfl
  · have hin : x ∈ ((b :: held).erase b).flatMap (vbufDescs m) := by
      rw [List.erase_cons_head]
      exact List.mem_flatMap.mpr ⟨c, hc, hx⟩
    obtain ⟨hxt, hxd⟩ := hothers x hin
    exact htr.vd hxt hxd

/-- The hardware completes the first packet. -/
theorem complete {f : Flight} {o : Own} (h : Carries places pairs m q t held done (f :: pending))
    (ho : o.Completed) :
    ∃ t' hw, (ringOf m q t held done (f :: pending)).complete o =
        some { ringOf m q t held done (f :: pending) with
          mem := { m with hw := hw }, txDesc := t', completed := done.length + 1 } ∧
      Carries places pairs { m with hw := hw } q t' held (done ++ [f]) pending := by
  obtain ⟨s', hs', hlayout⟩ := Layout.complete h ho
  have hcomplete := hs'
  rw [TxSystem.complete, Option.ite_none_right_eq_some] at hcomplete
  obtain ⟨-, hcomplete⟩ := hcomplete
  simp only [Option.bind_eq_bind, Option.bind_eq_some_iff, Option.some.injEq] at hcomplete
  obtain ⟨ds, -, last, -, next, -, rfl⟩ := hcomplete
  exact ⟨next, _, hs', hlayout.carries⟩

/-- The first completed packet becomes a buffer of the client again. -/
theorem reap {f : Flight} (h : Carries places pairs m q t held (f :: done) pending) :
    ∃ q' m', reapXmitedBuf q m = some (some f.sent.buf, q', m') ∧
      Carries places pairs m' q' t (f.sent.buf :: held) done pending ∧
      content m' f.sent.buf = f.sent ∧ vbufDescs m' f.sent.buf = f.descs ∧
      q'.terminator = q.terminator ∧ (∀ x ∉ f.descs, m'.vd x = m.vd x) ∧
      ∀ c ∈ held, content m' c = content m c := by
  obtain ⟨q', m', s', hreap, hstep, -, hreaped, hlayout⟩ := Layout.reap h
  obtain ⟨q₂, m₁, m₂, hreap₂, -, hterm, -, hreq, hrel⟩ := Layout.reap_relinked h
  obtain ⟨rfl, rfl⟩ : q' = q₂ ∧ m' = m₂ := by
    have heq := hreap.symm.trans hreap₂
    simp only [Option.some.injEq, Prod.mk.injEq] at heq
    exact heq.2
  rw [TxSystem.step, hreap] at hstep
  obtain rfl := Option.some.inj hstep
  have hcontent : content m' f.sent.buf = f.sent := by
    simpa [ringOf] using hreaped
  have hvd : ∀ x ∉ f.descs, m'.vd x = m.vd x := by
    intro x hx
    rw [hrel.vd_eq x hx]
    exact congrFun (congrArg Memory.vd hreq.frame) x
  obtain ⟨hvb, -, hframe⟩ := reapXmitedBuf_frame hreap
  have hn : m'.nDesc = m.nDesc := by
    rw [hframe]
    rfl
  have hdescs : vbufDescs m' f.sent.buf = f.descs := by
    apply vbufDescs_eq hrel.chain
    rw [hn]
    exact Layout.length_flight_le h (List.nil_append _).symm
  have hlayout' := hlayout.carries
  refine ⟨q', m', hreap, hlayout', hcontent, hdescs, hterm, hvd, fun c hc => ?_⟩
  have hne : c ≠ f.sent.buf := by
    rintro rfl
    exact (List.nodup_append.mp h.bufs).2.2 f.sent.buf hc f.sent.buf (by simp) rfl
  refine (h.content_congr hc (congrArg Vbuf.descList (hvb c hne))
    (congrArg Vbuf.bufLength (hvb c hne)) (fun x hx => ?_) hn).1
  apply hvd
  have hin : x ∈ (ringOf m q t held (f :: done) pending).heldDescs := List.mem_flatMap.mpr ⟨c, hc, hx⟩
  exact (h.heldDescs_apart hin).2 f (by simp)

end Carries

/-! ## Buffers in transmission -/

/-- The descriptor a buffer in transmission still points to: it is in use for the packet behind, or
is the terminator. -/
def behind (t : DescId) (fs : List Flight) : DescId := (fs.flatMap Flight.descs).head?.getD t

/-- Every buffer in transmission still has the list it was transmitted with. -/
def Pointing (m : Memory) (t : DescId) : List Flight → Prop
  | [] => True
  | f :: fs => (vbufDescs m f.sent.buf = behind t fs :: f.descs.tail ∧
      Chain m.nextDesc (m.vb f.sent.buf).descList (behind t fs :: f.descs.tail)) ∧ Pointing m t fs

theorem behind_mem {fs : List Flight} : behind t fs ∈ fs.flatMap Flight.descs ++ [t] := by
  rw [behind]
  cases fs.flatMap Flight.descs <;> simp

namespace Pointing

variable {fs : List Flight} {f : Flight}

/-- The lists are those on the ring, but for the first descriptor. -/
theorem descs (h : Pointing m t fs) (hne : ∀ f ∈ fs, f.descs ≠ []) :
    (fs.flatMap fun f => vbufDescs m f.sent.buf).Perm (fs.flatMap Flight.descs ++ [t]).tail := by
  induction fs with
  | nil => exact .refl _
  | cons f fs ih =>
    obtain ⟨p, r, hpr⟩ := List.exists_cons_of_ne_nil (hne f List.mem_cons_self)
    have hrest := ih h.2 fun g hg => hne g (List.mem_cons_of_mem _ hg)
    have hsplit : behind t fs :: (fs.flatMap Flight.descs ++ [t]).tail =
        fs.flatMap Flight.descs ++ [t] := by
      rw [behind]
      cases fs.flatMap Flight.descs <;> rfl
    rw [List.flatMap_cons, h.1.1, hpr, List.flatMap_cons, hpr]
    simp only [List.tail_cons, List.cons_append, List.append_assoc]
    calc behind t fs :: (r ++ fs.flatMap fun f => vbufDescs m f.sent.buf)
        |>.Perm (r ++ behind t fs :: fs.flatMap fun f => vbufDescs m f.sent.buf) :=
          List.perm_middle.symm
      _ |>.Perm (r ++ behind t fs :: (fs.flatMap Flight.descs ++ [t]).tail) :=
          (hrest.cons _).append_left _
      _ = r ++ (fs.flatMap Flight.descs ++ [t]) := by rw [hsplit]

/-- Each of the buffers has a list of its own. -/
theorem chain (h : Pointing m t fs) (hf : f ∈ fs) : ∃ d, vbufDescs m f.sent.buf = d :: f.descs.tail ∧
    Chain m.nextDesc (m.vb f.sent.buf).descList (d :: f.descs.tail) := by
  induction fs with
  | nil => cases hf
  | cons g fs ih =>
    rcases List.mem_cons.mp hf with rfl | hrest
    · exact ⟨_, h.1⟩
    · exact ih h.2 hrest

theorem congr (h : Pointing m t fs)
    (hlist : ∀ f ∈ fs, (m'.vb f.sent.buf).descList = (m.vb f.sent.buf).descList)
    (hnext : ∀ x ∈ fs.flatMap Flight.descs ++ [t], m'.nextDesc x = m.nextDesc x)
    (hn : m'.nDesc = m.nDesc) : Pointing m' t fs := by
  induction fs with
  | nil => exact trivial
  | cons f fs ih =>
    have hkept : ∀ x ∈ behind t fs :: f.descs.tail, m'.nextDesc x = m.nextDesc x := by
      intro x hx
      apply hnext
      rw [List.flatMap_cons, List.append_assoc]
      rcases List.mem_cons.mp hx with rfl | htail
      · exact List.mem_append_right _ behind_mem
      · exact List.mem_append_left _ (List.mem_of_mem_tail htail)
    have hchain : Chain m'.nextDesc (m'.vb f.sent.buf).descList (behind t fs :: f.descs.tail) := by
      rw [hlist f List.mem_cons_self]
      exact h.1.2.congr hkept
    have hlen : (behind t fs :: f.descs.tail).length ≤ m'.nDesc := by
      rw [hn, ← h.1.1]
      exact vbufDescs_length_le m f.sent.buf
    refine ⟨⟨vbufDescs_eq hchain hlen, hchain⟩,
      ih h.2 (fun g hg => hlist g (List.mem_cons_of_mem _ hg)) fun x hx => ?_⟩
    · apply hnext
      rw [List.flatMap_cons, List.append_assoc]
      exact List.mem_append_right _ hx

/-- A buffer is transmitted, and its first descriptor is the new terminator. -/
theorem snoc {rest : List DescId} {sent : Sent} (h : Pointing m t fs)
    (hdescs : vbufDescs m sent.buf = d :: rest)
    (hchain : Chain m.nextDesc (m.vb sent.buf).descList (d :: rest)) :
    Pointing m d (fs ++ [⟨sent, t :: rest⟩]) := by
  induction fs with
  | nil => exact ⟨⟨hdescs, hchain⟩, trivial⟩
  | cons f fs ih =>
    have hbehind : behind d (fs ++ [⟨sent, t :: rest⟩]) = behind t fs := by
      rw [behind, behind, List.flatMap_append]
      cases fs.flatMap Flight.descs <;> rfl
    rw [List.cons_append, Pointing, hbehind]
    exact ⟨h.1, ih h.2⟩

end Pointing

end Ath9kHtc.Dma
