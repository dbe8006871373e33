import Ath9kHtc.Tx.Ledger

/-!
# Moves of buffers

What the functions that move single buffers do to the ledger.
-/

namespace Ath9kHtc.Tx

namespace Ledger

def setBuf (L : Ledger) (bf : BufId) (x : TxBuf) : Ledger :=
  { L with buf := Function.update L.buf bf x }

def setTid (L : Ledger) (k : TidId) (tid : Tid) : Ledger :=
  { L with tid := Function.update L.tid k tid }

theorem setTid_self (L : Ledger) (k : TidId) : L.setTid k (L.tid k) = L := by
  rw [setTid, Function.update_eq_self]

def setHwq (L : Ledger) (q : QueueId) (l : List BufId) : Ledger :=
  { L with hwq := Function.update L.hwq q l }

def setTidq (L : Ledger) (q : QueueId) (l : List TidId) : Ledger :=
  { L with tidq := Function.update L.tidq q l }

theorem setHwq_self (L : Ledger) (q : QueueId) : L.setHwq q (L.hwq q) = L := by
  rw [setHwq, Function.update_eq_self]

theorem setTidq_self (L : Ledger) (q : QueueId) : L.setTidq q (L.tidq q) = L := by
  rw [setTidq, Function.update_eq_self]

def setFree (L : Ledger) (l : List BufId) : Ledger := { L with free := l }

def setHeld (L : Ledger) (bf : BufId) : Ledger := { L with held := some bf }

variable {L : Ledger} {h : Hand} {b b' : BufId} {k : TidId} {q : QueueId} {x : TxBuf}

theorem setBuf_buf_self : (L.setBuf b x).buf b = x := Function.update_self ..

theorem setBuf_buf_of_ne (hne : b' ≠ b) : (L.setBuf b x).buf b' = L.buf b' :=
  Function.update_of_ne hne ..

theorem setBuf_setBuf {y : TxBuf} : (L.setBuf b y).setBuf b x = L.setBuf b x := by
  simp only [setBuf, Function.update_idem]

theorem WF.not_mem_free (hwf : L.WF h) (hb : b ∈ h.all) : b ∉ L.free :=
  fun hmem => hwf.not_mem_places hb (mem_places.mpr (.inl hmem))

theorem WF.not_mem_held (hwf : L.WF h) (hb : b ∈ h.all) : b ∉ L.held :=
  fun hmem => hwf.not_mem_places hb (mem_places.mpr (.inr (.inl hmem)))

theorem WF.nodup_hand (hwf : L.WF h) : h.all.Nodup := (Multiset.nodup_add.mp hwf.nodup).1

theorem WF.not_mem_rest (hwf : L.WF h) (hb : b ∈ h.loose) : b ∉ h.rest := by
  intro hmem
  have hdisj := (Multiset.nodup_add.mp hwf.nodup_hand).2.2
  exact Multiset.disjoint_left.mp hdisj (Multiset.mem_add.mpr (.inl hmem)) hb

theorem WF.not_mem_pend (hwf : L.WF h) (hb : b ∈ h.loose) : b ∉ h.pend := by
  intro hmem
  have hdisj := (Multiset.nodup_add.mp hwf.nodup_hand).2.2
  exact Multiset.disjoint_left.mp hdisj (Multiset.mem_add.mpr (.inr hmem)) hb

/-- A buffer is in the hand only once. -/
theorem WF.not_mem_others {r p : List BufId} {l : Multiset BufId}
    (hwf : L.WF ⟨r, p, b ::ₘ l⟩) : b ∉ (r : Multiset BufId) + p + l := by
  have hnodup := hwf.nodup_hand
  rw [Hand.all, Multiset.add_cons] at hnodup
  exact (Multiset.nodup_cons.mp hnodup).1

theorem mem_all : b ∈ h.all ↔ b ∈ h.rest ∨ b ∈ h.pend ∨ b ∈ h.loose := by
  simp [Hand.all, or_assoc]

theorem mem_all_of_loose (hb : b ∈ h.loose) : b ∈ h.all := mem_all.mpr (.inr (.inr hb))

theorem WF.nodup_places (hwf : L.WF h) : L.places.Nodup := (Multiset.nodup_add.mp hwf.nodup).2.1

theorem WF.queued_apart (hwf : L.WF h) (hb : b ∈ (L.tid k).bufQ) :
    b ∉ L.free ∧ b ∉ L.held ∧ b ∉ L.onHw := by
  have hmem : b ∈ L.queued := mem_queued.mpr ⟨k, hb⟩
  have hplaces := hwf.nodup_places
  rw [places, Multiset.nodup_add, Multiset.nodup_add] at hplaces
  obtain ⟨⟨-, -, hfront⟩, -, hback⟩ := hplaces
  refine ⟨fun hfree => ?_, fun hheld => ?_, fun hhw => ?_⟩
  · exact Multiset.disjoint_left.mp hfront (Multiset.mem_add.mpr (.inl hfree)) hmem
  · refine Multiset.disjoint_left.mp hfront (Multiset.mem_add.mpr (.inr ?_)) hmem
    exact Multiset.mem_coe.mpr (Option.mem_toList.mpr hheld)
  · exact Multiset.disjoint_left.mp hback (Multiset.mem_add.mpr (.inr hmem)) hhw

/-- Writing to one buffer that the hardware does not have. -/
theorem Keeps.setBuf {kept : Multiset BufId} (hhw : b ∉ L.onHw)
    (hkept : b ∈ kept → SameFrame (L.buf b) x)
    (hqueued : ∀ k, b ∈ (L.tid k).bufQ → SameFrame (L.buf b) x) :
    L.Keeps (L.setBuf b x) kept where
  txBufs := rfl
  tid := rfl
  hwq := rfl
  tidq := rfl
  kept := by
    intro c hc
    rcases eq_or_ne c b with rfl | hne
    · rw [setBuf_buf_self]
      exact hkept hc
    · exact .of_eq (setBuf_buf_of_ne hne)
  queued := by
    intro k c hc
    rcases eq_or_ne c b with rfl | hne
    · rw [setBuf_buf_self]
      exact hqueued k hc
    · exact .of_eq (setBuf_buf_of_ne hne)
  onHw := by
    intro q e he c hc
    rcases eq_or_ne c b with rfl | hne
    · exact absurd (mem_onHw.mpr ⟨q, e, he, hc⟩) hhw
    · exact setBuf_buf_of_ne hne

end Ledger

namespace Track

open Ledger

variable {G : TidId → Session → Action → Prop} {L L' : Ledger} {h h' : Hand} {b b' e : BufId}
  {k : TidId} {q : QueueId} {x : TxBuf} {r p : List BufId} {l : Multiset BufId}

/-! ## Buffers -/

theorem setBuf_clean (hfree : b ∉ L.free) (hheld : b ∉ L.held) (hwf : L.WF h) :
    (∀ c ∈ (L.setBuf b x).free, Clean ((L.setBuf b x).buf c)) ∧
      ∀ c ∈ (L.setBuf b x).held, Clean ((L.setBuf b x).buf c) := by
  refine ⟨fun c hc => ?_, fun c hc => ?_⟩
  · rw [setBuf_buf_of_ne (ne_of_mem_of_not_mem hc hfree)]
    exact hwf.clean_free c hc
  · rw [setBuf_buf_of_ne (ne_of_mem_of_not_mem hc hheld)]
    exact hwf.clean_held c hc

/-- A loose buffer can hold anything. -/
theorem write (hwf : L.WF h) (hb : b ∈ h.loose) (x : TxBuf) : Track G L h (L.setBuf b x) h := by
  have hall := mem_all_of_loose hb
  have hclean := setBuf_clean (x := x) (hwf.not_mem_free hall) (hwf.not_mem_held hall) hwf
  refine keep hwf (K := (h.rest : Multiset BufId) + h.pend) (.setBuf ?_ ?_ ?_) ?_ ?_ rfl rfl rfl
    hclean.1 hclean.2
  · exact fun hmem => hwf.not_mem_places hall (mem_places.mpr (.inr (.inr (.inr hmem))))
  · intro hmem
    rcases Multiset.mem_add.mp hmem with hmem | hmem
    · exact absurd hmem (hwf.not_mem_rest hb)
    · exact absurd hmem (hwf.not_mem_pend hb)
  · exact fun k hmem => absurd hmem (hwf.not_mem_bufQ hall)
  · exact fun c hc => Multiset.mem_add.mpr (.inl hc)
  · exact fun c hc => Multiset.mem_add.mpr (.inr hc)

/-- What is written to a buffer beside its frame does not matter, where the hardware does not
have it. -/
theorem rewrite (hwf : L.WF h) (hb : b ∈ h.all ∨ b ∈ (L.tid k).bufQ)
    (hsame : SameFrame (L.buf b) x) : Track G L h (L.setBuf b x) h := by
  have hapart : b ∉ L.free ∧ b ∉ L.held ∧ b ∉ L.onHw := by
    rcases hb with hb | hb
    · refine ⟨hwf.not_mem_free hb, hwf.not_mem_held hb, fun hmem => ?_⟩
      exact hwf.not_mem_places hb (mem_places.mpr (.inr (.inr (.inr hmem))))
    · exact hwf.queued_apart hb
  have hclean := setBuf_clean (x := x) hapart.1 hapart.2.1 hwf
  exact keep hwf (K := h.all) (.setBuf hapart.2.2 (fun _ => hsame) fun _ _ => hsame)
    (fun c hc => mem_all.mpr (.inl hc)) (fun c hc => mem_all.mpr (.inr (.inl hc))) rfl rfl rfl
    hclean.1 hclean.2

theorem alloc {f : List BufId} (hwf : L.WF ⟨r, p, l⟩)
    (hf : L.free = b :: f) :
    Track G L ⟨r, p, l⟩ (L.setFree f) ⟨r, p, b ::ₘ l⟩ := by
  refine keep hwf (K := (r : Multiset BufId) + p) ⟨rfl, rfl, rfl, rfl,
    fun _ _ => .refl _, fun _ _ _ => .refl _, fun _ _ _ _ _ => rfl⟩
    (fun c hc => Multiset.mem_add.mpr (.inl hc)) (fun c hc => Multiset.mem_add.mpr (.inr hc))
    rfl rfl ?_ (fun c hc => hwf.clean_free c (hf ▸ List.mem_cons_of_mem _ hc)) hwf.clean_held
  show _ + (b ::ₘ l) + ↑f + ↑L.held.toList = _ + l + ↑L.free + ↑L.held.toList
  rw [hf, ← Multiset.cons_coe, ← Multiset.singleton_add, ← Multiset.singleton_add]
  abel

theorem free (hwf : L.WF ⟨r, p, b ::ₘ l⟩)
    (hclean : Clean (L.buf b)) :
    Track G L ⟨r, p, b ::ₘ l⟩ (L.setFree (L.free ++ [b])) ⟨r, p, l⟩ := by
  refine keep hwf (K := (r : Multiset BufId) + p) ⟨rfl, rfl, rfl, rfl,
    fun _ _ => .refl _, fun _ _ _ => .refl _, fun _ _ _ _ _ => rfl⟩
    (fun c hc => Multiset.mem_add.mpr (.inl hc)) (fun c hc => Multiset.mem_add.mpr (.inr hc))
    rfl rfl ?_ ?_ hwf.clean_held
  · show _ + l + ↑(L.free ++ [b]) + ↑L.held.toList =
      _ + (b ::ₘ l) + ↑L.free + ↑L.held.toList
    rw [← Multiset.coe_add, Multiset.coe_singleton, ← Multiset.singleton_add b l]
    abel
  · intro c hc
    rcases List.mem_append.mp hc with hc | hc
    · exact hwf.clean_free c hc
    · rw [List.mem_singleton.mp hc]
      exact hclean

theorem hold (hwf : L.WF ⟨r, p, b ::ₘ l⟩)
    (hheld : L.held = some b') (hclean : Clean (L.buf b)) :
    Track G L ⟨r, p, b ::ₘ l⟩ (L.setHeld b) ⟨r, p, b' ::ₘ l⟩ := by
  refine keep hwf (K := (r : Multiset BufId) + p) ⟨rfl, rfl, rfl, rfl,
    fun _ _ => .refl _, fun _ _ _ => .refl _, fun _ _ _ _ _ => rfl⟩
    (fun c hc => Multiset.mem_add.mpr (.inl hc)) (fun c hc => Multiset.mem_add.mpr (.inr hc))
    rfl rfl ?_ hwf.clean_free ?_
  · show _ + (b' ::ₘ l) + ↑L.free + ↑(some b).toList =
      _ + (b ::ₘ l) + ↑L.free + ↑L.held.toList
    rw [hheld, Option.toList_some, Option.toList_some, Multiset.coe_singleton,
      Multiset.coe_singleton, ← Multiset.singleton_add, ← Multiset.singleton_add]
    abel
  · intro c hc
    rw [← Option.some_inj.mp hc]
    exact hclean

/-! ## TIDs -/

/-- One TID changes; the frames of the others in the hand stay. -/
theorem setTid {tid : Tid} (hwf : L.WF h)
    (hall : h'.all + tid.bufQ = h.all + (L.tid k).bufQ)
    (hqueued : ∀ b ∈ tid.bufQ, AirFor k (L.buf b))
    (hoff : L.Off → tid.aggrEnabled = false → tid.bufQ = [])
    (hothers : ∀ k', k' ≠ k →
      L.frames k' h'.rest = L.frames k' h.rest ∧ L.frames k' h'.pend = L.frames k' h.pend)
    (hrun : session.StepsWhere (G k) (L.view h k)
      (tid.session (tid.bufQ.map fun b => frameOf (L.buf b)) (L.frames k h'.rest + L.hwAir k)
        (L.frames k h'.pend))) :
    Track G L h (L.setTid k tid) h' := by
  have htotal : (L.setTid k tid).total h' = L.total h := by
    have hupdate : (fun k' => ((L.setTid k tid).tid k').bufQ) =
        Function.update (fun k' => (L.tid k').bufQ) k tid.bufQ := by
      funext k'
      show (Function.update L.tid k tid k').bufQ = _
      rcases eq_or_ne k' k with rfl | hne
      · rw [Function.update_self, Function.update_self]
      · rw [Function.update_of_ne hne, Function.update_of_ne hne]
    have hgather := gather_update (fun k' => (L.tid k').bufQ) k tid.bufQ
    rw [← hupdate] at hgather
    show h'.all + (↑L.free + ↑L.held.toList + (L.setTid k tid).queued + L.onHw) =
      h.all + (↑L.free + ↑L.held.toList + L.queued + L.onHw)
    apply add_right_cancel (b := ((L.tid k).bufQ : Multiset BufId))
    calc h'.all + (↑L.free + ↑L.held.toList + (L.setTid k tid).queued + L.onHw) + (L.tid k).bufQ
        = h'.all + (↑L.free + ↑L.held.toList + L.onHw) +
            ((L.setTid k tid).queued + (L.tid k).bufQ) := by abel
      _ = h'.all + (↑L.free + ↑L.held.toList + L.onHw) + (L.queued + tid.bufQ) := by
          rw [Ledger.queued, hgather, Ledger.queued]
      _ = (h'.all + tid.bufQ) + (↑L.free + ↑L.held.toList + L.queued + L.onHw) := by abel
      _ = h.all + (↑L.free + ↑L.held.toList + L.queued + L.onHw) + (L.tid k).bufQ := by
          rw [hall]
          abel
  have hself : (L.setTid k tid).tid k = tid := Function.update_self ..
  have hne : ∀ k', k' ≠ k → (L.setTid k tid).tid k' = L.tid k' :=
    fun k' hne => Function.update_of_ne hne ..
  refine ⟨⟨htotal ▸ hwf.nodup, htotal ▸ hwf.lt, hwf.clean_free, hwf.clean_held, ?_, hwf.onHw,
    hwf.filed⟩, htotal, ?_, ?_⟩
  · intro k' b hb
    rcases eq_or_ne k' k with rfl | hk
    · rw [hself] at hb
      exact hqueued b hb
    · rw [hne k' hk] at hb
      exact hwf.queued k' b hb
  · intro hL k'
    rcases eq_or_ne k' k with rfl | hk
    · rw [hself]
      exact hoff hL
    · rw [hne k' hk]
      exact hL k'
  · intro k'
    rcases eq_or_ne k' k with rfl | hk
    · have hview : (L.setTid k' tid).view h' k' =
          tid.session (tid.bufQ.map fun b => frameOf (L.buf b))
            (L.frames k' h'.rest + L.hwAir k') (L.frames k' h'.pend) := by
        rw [Ledger.view, Ledger.waiting, hself]
        rfl
      rw [hview]
      exact hrun
    · have hview : (L.setTid k tid).view h' k' = L.view h k' := by
        rw [Ledger.view, Ledger.waiting, hne k' hk, Ledger.view, ← (hothers k' hk).1,
          ← (hothers k' hk).2]
        rfl
      rw [hview]

/-! ## Hardware queues -/

/-- One hardware queue changes; what leaves it is in the hand, what enters it was. -/
theorem setHwq {l : List BufId} (hwf : L.WF h)
    (hall : h'.all + l.flatMap L.subframes = h.all + L.onQ q)
    (hel : ∀ e ∈ l, Element L.buf L.txBufs q e) (hpend : h'.pend = h.pend)
    (hair : ∀ k, (L.frames k h'.rest : Multiset Frame) + L.frames k (l.flatMap L.subframes) =
      L.frames k h.rest + L.frames k (L.onQ q)) :
    Track G L h (L.setHwq q l) h' := by
  have hupdate : (L.setHwq q l).onQ = Function.update L.onQ q (l.flatMap L.subframes) := by
    funext q'
    show (Function.update L.hwq q l q').flatMap L.subframes = _
    rcases eq_or_ne q' q with rfl | hne
    · rw [Function.update_self, Function.update_self]
    · rw [Function.update_of_ne hne, Function.update_of_ne hne]
      rfl
  have hgather : (L.setHwq q l).onHw + L.onQ q = L.onHw + (l.flatMap L.subframes) := by
    rw [Ledger.onHw, hupdate, gather_update, Ledger.onHw]
  have htotal : (L.setHwq q l).total h' = L.total h := by
    show h'.all + (↑L.free + ↑L.held.toList + L.queued + (L.setHwq q l).onHw) =
      h.all + (↑L.free + ↑L.held.toList + L.queued + L.onHw)
    apply add_right_cancel (b := (L.onQ q : Multiset BufId))
    calc h'.all + (↑L.free + ↑L.held.toList + L.queued + (L.setHwq q l).onHw) + L.onQ q
        = h'.all + (↑L.free + ↑L.held.toList + L.queued) +
            ((L.setHwq q l).onHw + L.onQ q) := by abel
      _ = (h'.all + l.flatMap L.subframes) +
            (↑L.free + ↑L.held.toList + L.queued + L.onHw) := by
          rw [hgather]
          abel
      _ = h.all + (↑L.free + ↑L.held.toList + L.queued + L.onHw) + L.onQ q := by
          rw [hall]
          abel
  refine ⟨⟨htotal ▸ hwf.nodup, htotal ▸ hwf.lt, hwf.clean_free, hwf.clean_held, hwf.queued, ?_,
    hwf.filed⟩, htotal, id, ?_⟩
  · intro q' e he
    change e ∈ Function.update L.hwq q l q' at he
    rcases eq_or_ne q' q with rfl | hne
    · rw [Function.update_self] at he
      exact hel e he
    · rw [Function.update_of_ne hne] at he
      exact hwf.onHw q' e he
  · intro k
    have hhw : (L.setHwq q l).hwAir k + L.frames k (L.onQ q) =
        L.hwAir k + L.frames k (l.flatMap L.subframes) := by
      have := congrArg (Multiset.filterMap fun b => airFrame k (L.buf b)) hgather
      rwa [Multiset.filterMap_add, Multiset.filterMap_add] at this
    have hsum : (L.frames k h'.rest : Multiset Frame) + (L.setHwq q l).hwAir k =
        L.frames k h.rest + L.hwAir k := by
      apply add_right_cancel (b := (L.frames k (L.onQ q) : Multiset Frame))
      rw [add_assoc, hhw, add_left_comm, hair]
      abel
    have hview : (L.setHwq q l).view h' k = L.view h k := by
      rw [Ledger.view, Ledger.view, hpend, ← hsum]
      rfl
    rw [hview]

/-- A list of TIDs to schedule changes. -/
theorem setTidq {l : List TidId} (hwf : L.WF h)
    (hl : ∀ k ∈ l, k ∈ L.tidq q ∨ tidToActxq k.2 = q) : Track G L h (L.setTidq q l) h := by
  refine ⟨⟨hwf.nodup, hwf.lt, hwf.clean_free, hwf.clean_held, hwf.queued, hwf.onHw, ?_⟩, rfl, id,
    fun _ => .refl⟩
  intro q' k hk
  change k ∈ Function.update L.tidq q l q' at hk
  rcases eq_or_ne q' q with rfl | hne
  · rw [Function.update_self] at hk
    exact (hl k hk).elim (hwf.filed q' k) id
  · rw [Function.update_of_ne hne] at hk
    exact hwf.filed q' k hk

end Track

end Ath9kHtc.Tx
