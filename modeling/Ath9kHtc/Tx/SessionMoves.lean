import Ath9kHtc.Tx.BufferMoves

/-!
# Moves that a session sees

The pieces of a handler that are an action of the session of one TID.
-/

namespace Ath9kHtc.Tx

/-- What a handler does only where the session allows it and nothing can go wrong. -/
def Action.Safe : Action → Prop
  | .sendQueued | .retire _ | .retry _ | .prepend | .pause | .enable | .postpone => True
  | _ => False

namespace Session

theorem single {G : Session → Action → Prop} {v : Session} {a : Action} (hcan : v.Can a)
    (hok : G v a) : session.StepsWhere G v (v.act a) :=
  .single ⟨a, hok, hcan, rfl⟩

end Session

/-- A TID seen without its window is seen the same. -/
theorem session_of_rest {tid tid' : Tid} (h : tid'.rest = tid.rest) (queue : List Frame)
    (air : Multiset Frame) (pend : List Frame) :
    tid'.session queue air pend = { tid.session queue air pend with win := tid'.window } := by
  ext1 <;> first | rfl | skip
  · exact (congrArg Tid.bawSize h :)
  · exact (congrArg Tid.seqNext h :)
  · exact (congrArg Tid.paused h :)
  · exact (congrArg Tid.cleanupInprogres h :)
  · exact (congrArg Tid.aggrEnabled h :)
  · exact (congrArg Tid.reinitializeFlag h :)
  · exact (congrArg Tid.incomp h :)
  · exact (congrArg Tid.issued h :)
  · exact (congrArg Tid.handed h :)

theorem session_athTxAddtoBaw (tid : Tid) (b : TxBuf) (queue : List Frame)
    (air : Multiset Frame) (pend : List Frame) :
    (athTxAddtoBaw tid b).session queue air pend =
      (tid.session queue air pend).enter (frameOf b) := by
  rw [session_of_rest (rest_athTxAddtoBaw tid b), Session.enter]
  cases hret : b.bfIsretried with
  | true =>
      rw [athTxAddtoBaw_of_retried hret, if_pos (show (frameOf b).retried = true from hret)]
      rfl
  | false =>
      rw [window_athTxAddtoBaw hret, if_neg (by simp [frameOf, hret])]
      rfl

theorem session_athTxUpdateBaw (tid : Tid) (seqno : ℕ) (queue : List Frame)
    (air : Multiset Frame) (pend : List Frame) :
    (athTxUpdateBaw tid seqno).session queue air pend =
      { tid.session queue air pend with win := tid.window.retire 4096 128 seqno } := by
  rw [session_of_rest (rest_athTxUpdateBaw tid seqno), window_athTxUpdateBaw]

namespace Ledger

variable {L L' : Ledger} {k k' : TidId} {b : BufId} {r l : List BufId}

@[simp] theorem frames_nil : L.frames k [] = [] := rfl

theorem frames_cons_of_airFor (h : AirFor k (L.buf b)) :
    L.frames k (b :: r) = frameOf (L.buf b) :: L.frames k r :=
  List.filterMap_cons_some h.airFrame

theorem frames_cons_of_none (h : airFrame k (L.buf b) = none) :
    L.frames k (b :: r) = L.frames k r :=
  List.filterMap_cons_none h

theorem frames_cons_of_ne (h : AirFor k (L.buf b)) (hne : k' ≠ k) :
    L.frames k' (b :: r) = L.frames k' r :=
  frames_cons_of_none (airFrame_of_key_ne h.key hne)

theorem frames_append : L.frames k (r ++ l) = L.frames k r ++ L.frames k l :=
  List.filterMap_append

end Ledger

namespace Track

open Ledger

variable {G : TidId → Session → Action → Prop} {L L' : Ledger} {h h' : Hand} {b b' c e : BufId}
  {k : TidId} {q : QueueId} {r p : List BufId} {l : Multiset BufId} {s s' : TxState}
  {bf tmp : BufId}

/-- A frame of the hand goes back to its TID, in the same buffer or in another. -/
theorem retry (hwf : L.WF ⟨b :: r, p, l⟩) (hair : AirFor k (L.buf b))
    (hair' : AirFor k (L'.buf c)) (hframe : frameOf (L'.buf c) = (frameOf (L.buf b)).retry)
    (hk : L.Keeps L' (r + p))
    (hall : Hand.all ⟨r, p ++ [c], l⟩ + L'.free + L'.held.toList =
      Hand.all ⟨b :: r, p, l⟩ + L.free + L.held.toList)
    (hfree : ∀ b ∈ L'.free, Clean (L'.buf b)) (hheld : ∀ b ∈ L'.held, Clean (L'.buf b))
    (hc : (L.tid k).cleanupInprogres = false) (ha : (L.tid k).aggrEnabled = true)
    (hsafe : ∀ k v a, Action.Safe a → G k v a) :
    Track G L ⟨b :: r, p, l⟩ L' ⟨r, p ++ [c], l⟩ := by
  have htotal := hk.total_eq hall
  have hrest : ∀ b ∈ r, b ∈ (r : Multiset BufId) + p := fun b hb => Multiset.mem_add.mpr (.inl hb)
  have hpend : ∀ b ∈ p, b ∈ (r : Multiset BufId) + p := fun b hb => Multiset.mem_add.mpr (.inr hb)
  refine ⟨hwf.keep hk htotal hfree hheld, htotal, ?_, ?_⟩
  · intro hoff k'
    rw [hk.tid]
    exact hoff k'
  · intro k'
    have hview' : L'.view ⟨r, p ++ [c], l⟩ k' = (L.tid k').session (L.waiting k')
        (L.frames k' r + L.hwAir k') (L.frames k' p ++ L'.frames k' [c]) := by
      rw [view, hk.tid, hk.waiting_eq, hk.hwAir_eq, hk.frames_eq k' hrest, frames_append,
        hk.frames_eq k' hpend]
    rcases eq_or_ne k' k with rfl | hne
    · have hview : L.view ⟨b :: r, p, l⟩ k' = (L.tid k').session (L.waiting k')
          (frameOf (L.buf b) ::ₘ (L.frames k' r + L.hwAir k')) (L.frames k' p) := by
        rw [view, frames_cons_of_airFor hair, ← Multiset.cons_coe, Multiset.cons_add]
      have hact : L'.view ⟨r, p ++ [c], l⟩ k' =
          (L.view ⟨b :: r, p, l⟩ k').act (.retry (frameOf (L.buf b))) := by
        rw [hview', hview, frames_cons_of_airFor hair', hframe]
        simp only [Session.act, Session.land, Tid.session, Multiset.erase_cons_head, frames_nil]
      rw [hact]
      refine Session.single ⟨hc, ha, ?_⟩ (hsafe _ _ _ trivial)
      rw [hview]
      exact Multiset.mem_cons_self _ _
    · have hview : L.view ⟨b :: r, p, l⟩ k' = (L.tid k').session (L.waiting k')
          (L.frames k' r + L.hwAir k') (L.frames k' p) := by
        rw [view, frames_cons_of_ne hair hne]
      rw [hview', hview, frames_cons_of_ne hair' hne, frames_nil, List.append_nil]

/-- A frame of the hand leaves the window for good. -/
theorem retire (hwf : s.ledger.WF ⟨bf :: r, p, l⟩) (hair : AirFor k (s.buf bf))
    (hc : (s.tid k).cleanupInprogres = false) (hsafe : ∀ k v a, Action.Safe a → G k v a) :
    Track G s.ledger ⟨bf :: r, p, l⟩
      (s.modTid k fun tid => athTxUpdateBaw tid (seqnoFromBfSeqno (s.buf bf).bfSeqno)).ledger
      ⟨r, p, bf ::ₘ l⟩ := by
  rw [TxState.ledger_modTid]
  have hrest := rest_athTxUpdateBaw (s.tid k) (seqnoFromBfSeqno (s.buf bf).bfSeqno)
  have hbufQ : (athTxUpdateBaw (s.tid k) (seqnoFromBfSeqno (s.buf bf).bfSeqno)).bufQ =
      (s.tid k).bufQ := (congrArg Tid.bufQ hrest :)
  have haggr : (athTxUpdateBaw (s.tid k) (seqnoFromBfSeqno (s.buf bf).bfSeqno)).aggrEnabled =
      (s.tid k).aggrEnabled := (congrArg Tid.aggrEnabled hrest :)
  apply setTid hwf
  · show Hand.all ⟨r, p, bf ::ₘ l⟩ + (athTxUpdateBaw (s.tid k) _).bufQ = _
    rw [hbufQ]
    simp only [Hand.all, ← Multiset.cons_coe, Multiset.add_cons, Multiset.cons_add]
    rfl
  · intro b hb
    change b ∈ (athTxUpdateBaw (s.tid k) _).bufQ at hb
    rw [hbufQ] at hb
    exact hwf.queued k b hb
  · intro hoff
    show (athTxUpdateBaw (s.tid k) _).aggrEnabled = false →
      (athTxUpdateBaw (s.tid k) _).bufQ = []
    rw [hbufQ, haggr]
    exact hoff k
  · intro k' hne
    exact ⟨(frames_cons_of_ne hair hne).symm, rfl⟩
  · have hview : s.ledger.view ⟨bf :: r, p, l⟩ k = (s.tid k).session (s.ledger.waiting k)
        (frameOf (s.buf bf) ::ₘ (s.ledger.frames k r + s.ledger.hwAir k))
        (s.ledger.frames k p) := by
      rw [view, frames_cons_of_airFor hair, ← Multiset.cons_coe, Multiset.cons_add]
      rfl
    rw [hview]
    have hrun := Session.single (G := G k) (v := (s.tid k).session (s.ledger.waiting k)
        (frameOf (s.buf bf) ::ₘ (s.ledger.frames k r + s.ledger.hwAir k))
        (s.ledger.frames k p)) (a := .retire (frameOf (s.buf bf)))
        ⟨hc, Multiset.mem_cons_self _ _⟩ (hsafe _ _ _ trivial)
    convert hrun using 1
    show Tid.session (athTxUpdateBaw (s.tid k) _) ((athTxUpdateBaw (s.tid k) _).bufQ.map _)
      (s.ledger.frames k r + s.ledger.hwAir k) (s.ledger.frames k p) = _
    rw [hbufQ, session_athTxUpdateBaw]
    simp only [Session.act, Session.land, Tid.session, Multiset.erase_cons_head]
    rfl

/-- A TID changes, but not its queue. -/
theorem modTid {f : Tid → Tid} (hwf : s.ledger.WF h) (hbufQ : (f (s.tid k)).bufQ = (s.tid k).bufQ)
    (haggr : (f (s.tid k)).aggrEnabled = false → (s.tid k).aggrEnabled = false)
    (hrun : session.StepsWhere (G k) (s.ledger.view h k)
      ((f (s.tid k)).session (s.ledger.waiting k)
        (s.ledger.frames k h.rest + s.ledger.hwAir k) (s.ledger.frames k h.pend))) :
    Track G s.ledger h (s.modTid k f).ledger h := by
  rw [TxState.ledger_modTid]
  apply setTid hwf
  · show h.all + ((f (s.tid k)).bufQ : Multiset BufId) = _
    rw [hbufQ]
    rfl
  · intro b hb
    change b ∈ (f (s.tid k)).bufQ at hb
    rw [hbufQ] at hb
    exact hwf.queued k b hb
  · intro hoff hf
    show (f (s.tid k)).bufQ = []
    rw [hbufQ]
    exact hoff k (haggr hf)
  · exact fun _ _ => ⟨rfl, rfl⟩
  · show session.StepsWhere (G k) _ ((f (s.tid k)).session ((f (s.tid k)).bufQ.map _) _ _)
    rw [hbufQ]
    exact hrun

theorem athAggrPauseTid (hwf : s.ledger.WF h) (hsafe : ∀ k v a, Action.Safe a → G k v a) :
    Track G s.ledger h (athAggrPauseTid s k).ledger h := by
  apply modTid hwf rfl id
  exact Session.single (a := .pause) trivial (hsafe _ _ _ trivial)

/-! ## To and from the hardware -/

/-- An element in the hand goes to a hardware queue. -/
theorem push (hwf : L.WF ⟨L.subframes e, p, l⟩) (hel : Element L.buf L.txBufs q e) :
    Track G L ⟨L.subframes e, p, l⟩ (L.setHwq q (L.hwq q ++ [e])) ⟨[], p, l⟩ := by
  have hflat : (L.hwq q ++ [e]).flatMap L.subframes = L.onQ q ++ L.subframes e := by
    rw [List.flatMap_append, List.flatMap_singleton, Ledger.onQ]
  apply setHwq hwf
  · rw [hflat, ← Multiset.coe_add]
    simp only [Hand.all, Multiset.coe_nil]
    abel
  · intro e' he'
    rcases List.mem_append.mp he' with he' | he'
    · exact hwf.onHw q e' he'
    · rw [List.mem_singleton.mp he']
      exact hel
  · rfl
  · intro k
    rw [hflat, frames_append, ← Multiset.coe_add]
    simp only [frames_nil, Multiset.coe_nil]
    abel

/-- The first element of a hardware queue comes into the hand. -/
theorem pop {es : List BufId} (hwf : L.WF ⟨[], p, l⟩) (hq : L.hwq q = e :: es) :
    Track G L ⟨[], p, l⟩ (L.setHwq q es) ⟨L.subframes e, p, l⟩ := by
  have hflat : L.onQ q = L.subframes e ++ es.flatMap L.subframes := by
    rw [Ledger.onQ, hq, List.flatMap_cons]
  apply setHwq hwf
  · rw [hflat, ← Multiset.coe_add]
    simp only [Hand.all, Multiset.coe_nil]
    abel
  · exact fun e' he' => hwf.onHw q e' (hq ▸ List.mem_cons_of_mem _ he')
  · rfl
  · intro k
    rw [hflat, frames_append, ← Multiset.coe_add]
    simp only [frames_nil, Multiset.coe_nil]
    abel

/-- A buffer without an aggregation frame can be held either way. -/
theorem rehand (hnone : ∀ k, L.frames k h'.rest = L.frames k h.rest) (hpend : h'.pend = h.pend)
    (hall : h'.all = h.all) (hwf : L.WF h) : Track G L h L h' := by
  have htotal : L.total h' = L.total h := by rw [Ledger.total, Ledger.total, hall]
  refine ⟨⟨htotal ▸ hwf.nodup, htotal ▸ hwf.lt, hwf.clean_free, hwf.clean_held, hwf.queued,
    hwf.onHw, hwf.filed⟩, htotal, id, fun k => ?_⟩
  have hview : L.view h' k = L.view h k := by rw [view, view, hnone, hpend]
  rw [hview]

theorem loosen (hwf : L.WF ⟨b :: r, p, l⟩) (hnone : ∀ k, airFrame k (L.buf b) = none) :
    Track G L ⟨b :: r, p, l⟩ L ⟨r, p, b ::ₘ l⟩ := by
  refine rehand (fun k => (frames_cons_of_none (hnone k)).symm) rfl ?_ hwf
  simp only [Hand.all, ← Multiset.cons_coe, Multiset.add_cons, Multiset.cons_add]

theorem tighten (hwf : L.WF ⟨r, p, b ::ₘ l⟩) (hnone : ∀ k, airFrame k (L.buf b) = none) :
    Track G L ⟨r, p, b ::ₘ l⟩ L ⟨b :: r, p, l⟩ := by
  refine rehand (fun k => frames_cons_of_none (hnone k)) rfl ?_ hwf
  simp only [Hand.all, ← Multiset.cons_coe, Multiset.add_cons, Multiset.cons_add]

end Track

theorem subframesOf_of_next {buf : BufId → TxBuf} {n : ℕ} {bf : BufId} (hn : bf < n)
    (hnext : (buf bf).bfNext = none) : subframesOf buf n bf = [bf] := by
  cases n with
  | zero => cases hn
  | succ n => rw [subframesOf, walk, hnext, walk_none]

/-- A buffer that is sent alone. -/
theorem Element.of_next {buf : BufId → TxBuf} {n : ℕ} {q : QueueId} {bf : BufId} (hn : bf < n)
    (hnext : (buf bf).bfNext = none)
    (hkind : (buf bf).bfComp = none ∨
      ∃ k, tidToActxq k.2 = q ∧ (AloneFor k (buf bf) ∨ AirFor k (buf bf))) :
    Element buf n q bf where
  chain := by
    rw [subframesOf_of_next hn hnext]
    exact ⟨rfl, hnext⟩
  kind := by
    rw [subframesOf_of_next hn hnext]
    rcases hkind with hcomp | ⟨k, hq, halone | hair⟩
    · exact .inl ⟨hcomp, hnext⟩
    · exact .inr (.inl ⟨k, hq, halone⟩)
    · refine .inr (.inr ⟨k, hq, fun b hb => ?_, fun _ => hnext⟩)
      rw [List.mem_singleton.mp hb]
      exact hair

theorem ledger_axqLinkTo (s : TxState) (link : Option BufId) (bf : BufId) :
    (axqLinkTo s link bf).ledger = s.ledger := by
  cases link <;> rfl

theorem ledger_athTgtTxqaddbuf (s : TxState) (q : QueueId) (bf lastds : BufId) :
    (athTgtTxqaddbuf s q bf lastds).ledger = s.ledger.setHwq q (s.ledger.hwq q ++ [bf]) := by
  rw [athTgtTxqaddbuf, TxState.ledger_modTxq_axqQ _ _ rfl, ledger_axqLinkTo]
  cases (s.txq q).axqLink <;> rfl

theorem ledger_athTgtTxqAddUcast (s : TxState) (bf : BufId) :
    (athTgtTxqAddUcast s bf).ledger =
      s.ledger.setHwq (s.buf bf).bfTxq (s.ledger.hwq (s.buf bf).bfTxq ++ [bf]) :=
  ledger_athTgtTxqaddbuf s _ bf _

namespace Track

open Ledger

variable {G : TidId → Session → Action → Prop} {L L' : Ledger} {h h' : Hand} {b b' c e : BufId}
  {k : TidId} {q : QueueId} {r p : List BufId} {l : Multiset BufId} {s s' : TxState}
  {bf tmp : BufId}

/-- A buffer without an aggregation frame is sent. -/
theorem pushAlone (hwf : L.WF ⟨[], p, b ::ₘ l⟩) (hel : Element L.buf L.txBufs q b)
    (hnext : (L.buf b).bfNext = none) (hcomp : (L.buf b).bfComp ≠ some .aggr) :
    Track G L ⟨[], p, b ::ₘ l⟩ (L.setHwq q (L.hwq q ++ [b])) ⟨[], p, l⟩ := by
  have hlt : b < L.txBufs := by
    apply hwf.lt
    exact Multiset.mem_add.mpr (.inl (mem_all_of_loose (Multiset.mem_cons_self b l)))
  have hsub : L.subframes b = [b] := subframesOf_of_next hlt hnext
  have htight := tighten (G := G) hwf fun k => airFrame_of_comp_ne hcomp
  have hpush := push (G := G) (p := p) (l := l) (hsub ▸ htight.wf) hel
  exact htight.trans (hsub ▸ hpush)

end Track

/-! ## Frames of a queue -/

theorem modTid_modTid (s : TxState) (k : TidId) (f g : Tid → Tid) :
    (s.modTid k f).modTid k g = s.modTid k fun tid => g (f tid) := by
  simp only [TxState.modTid, Function.update_self, Function.update_idem]

theorem logHanded_eq {s : TxState} {bf : BufId} {k : TidId} (h : keyOf (s.buf bf) = some k) :
    logHanded s bf =
      s.modTid k fun tid => { tid with handed := (s.buf bf).bfSkb.toList ++ tid.handed } := by
  rw [logHanded, tidOf_eq, h]

/-- The TID after its first frame, in `b`, is taken as part of the window. -/
def Tid.takeHead (tid : Tid) (b : TxBuf) : Tid :=
  { athTxAddtoBaw tid b with
    bufQ := (athTxAddtoBaw tid b).bufQ.tail
    handed := b.bfSkb.toList ++ (athTxAddtoBaw tid b).handed }

theorem takeHead_eq {s : TxState} {bf : BufId} {k : TidId} (h : keyOf (s.buf bf) = some k) :
    logHanded (bufQRemoveHead (s.modTid k fun tid => athTxAddtoBaw tid (s.buf bf)) k) bf =
      s.modTid k fun tid => tid.takeHead (s.buf bf) := by
  have hkey : keyOf ((bufQRemoveHead (s.modTid k fun tid => athTxAddtoBaw tid (s.buf bf)) k).buf bf) =
      some k := h
  have hlog := logHanded_eq hkey
  rw [hlog, bufQRemoveHead, modTid_modTid, modTid_modTid]
  rfl

@[simp] theorem takeHead_bufQ (tid : Tid) (b : TxBuf) : (tid.takeHead b).bufQ = tid.bufQ.tail :=
  congrArg List.tail (congrArg Tid.bufQ (rest_athTxAddtoBaw tid b) :)

@[simp] theorem takeHead_aggrEnabled (tid : Tid) (b : TxBuf) :
    (tid.takeHead b).aggrEnabled = tid.aggrEnabled :=
  (congrArg Tid.aggrEnabled (rest_athTxAddtoBaw tid b) :)

@[simp] theorem takeHead_paused (tid : Tid) (b : TxBuf) : (tid.takeHead b).paused = tid.paused :=
  (congrArg Tid.paused (rest_athTxAddtoBaw tid b) :)

theorem session_takeHead (tid : Tid) (b : TxBuf) (queue : List Frame) (air : Multiset Frame)
    (pend : List Frame) : (tid.takeHead b).session queue air pend =
      ((tid.session queue air pend).enter (frameOf b)).hand (frameOf b) := by
  rw [← session_athTxAddtoBaw]
  rfl

namespace Track

open Ledger

variable {G : TidId → Session → Action → Prop} {L L' : Ledger} {h h' : Hand} {b b' c e : BufId}
  {k : TidId} {q : QueueId} {r p bs : List BufId} {l : Multiset BufId} {s s' : TxState}
  {bf tmp : BufId}

/-- The first frame of a queue is sent as part of the window. -/
theorem take (hwf : s.ledger.WF ⟨r, p, l⟩) (hq : (s.tid k).bufQ = bf :: bs)
    (ha : (s.tid k).aggrEnabled = true) (hp : (s.tid k).paused = false)
    (hin : bawWithin (s.tid k).seqStart (s.tid k).bawSize (seqnoFromBfSeqno (s.buf bf).bfSeqno))
    (hsafe : ∀ k v a, Action.Safe a → G k v a) :
    Track G s.ledger ⟨r, p, l⟩ (s.modTid k fun tid => tid.takeHead (s.buf bf)).ledger
      ⟨r ++ [bf], p, l⟩ := by
  have hq' : (s.ledger.tid k).bufQ = bf :: bs := hq
  have hair : AirFor k (s.buf bf) := hwf.queued k bf (hq' ▸ List.mem_cons_self)
  have htail : ((s.tid k).takeHead (s.buf bf)).unsched.bufQ = bs := by
    show ((s.tid k).takeHead (s.buf bf)).bufQ = bs
    rw [takeHead_bufQ, hq]
    rfl
  rw [TxState.ledger_modTid]
  apply setTid hwf
  · rw [htail, hq', ← Multiset.cons_coe, ← Multiset.singleton_add]
    simp only [Hand.all, ← Multiset.coe_add, Multiset.coe_singleton]
    abel
  · intro b hb
    rw [htail] at hb
    exact hwf.queued k b (hq' ▸ List.mem_cons_of_mem _ hb)
  · intro _ hf
    change ((s.tid k).takeHead (s.buf bf)).aggrEnabled = false at hf
    rw [takeHead_aggrEnabled, ha] at hf
    cases hf
  · intro k' hne
    refine ⟨?_, rfl⟩
    rw [frames_append, frames_cons_of_ne hair hne, frames_nil, List.append_nil]
  · have hwait : s.ledger.waiting k = frameOf (s.buf bf) :: bs.map fun b => frameOf (s.buf b) := by
      rw [waiting, hq']
      rfl
    have hrun := Session.single (G := G k) (v := s.ledger.view ⟨r, p, l⟩ k) (a := .sendQueued)
      ⟨ha, hp, frameOf (s.buf bf), _, hwait, bawWithin_iff.mp hin⟩ (hsafe _ _ _ trivial)
    convert hrun using 1
    have hframes : (s.ledger.frames k (r ++ [bf]) : Multiset Frame) + s.ledger.hwAir k =
        frameOf (s.buf bf) ::ₘ (s.ledger.frames k r + s.ledger.hwAir k) := by
      rw [frames_append, frames_cons_of_airFor hair, frames_nil, ← Multiset.coe_add,
        Multiset.coe_singleton, ← Multiset.singleton_add]
      show (s.ledger.frames k r : Multiset Frame) + {frameOf (s.buf bf)} + s.ledger.hwAir k = _
      abel
    rw [htail]
    show ((s.tid k).takeHead (s.buf bf)).session (bs.map fun b => frameOf (s.buf b))
      (↑(s.ledger.frames k (r ++ [bf])) + s.ledger.hwAir k) (s.ledger.frames k p) = _
    rw [hframes, session_takeHead]
    simp only [Session.act, show (s.ledger.view ⟨r, p, l⟩ k).queue = _ from hwait]
    rfl

/-- The frames that are to be sent again go to the head of the queue. -/
theorem prependBufQ (hwf : s.ledger.WF ⟨r, p, l⟩) (hair : ∀ b ∈ p, AirFor k (s.buf b))
    (ha : (s.tid k).aggrEnabled = true) (hsafe : ∀ k v a, Action.Safe a → G k v a) :
    Track G s.ledger ⟨r, p, l⟩ (prependBufQ s k p).ledger ⟨r, [], l⟩ := by
  rw [Tx.prependBufQ, TxState.ledger_modTid]
  apply setTid hwf
  · show Hand.all ⟨r, [], l⟩ + ((p ++ (s.tid k).bufQ : List BufId) : Multiset BufId) =
      Hand.all ⟨r, p, l⟩ + ((s.tid k).bufQ : Multiset BufId)
    simp only [Hand.all, ← Multiset.coe_add, Multiset.coe_nil]
    abel
  · intro b hb
    rcases List.mem_append.mp hb with hb | hb
    · exact hair b hb
    · exact hwf.queued k b hb
  · intro _ hf
    exact absurd (ha.symm.trans hf) (by decide)
  · intro k' hne
    refine ⟨rfl, ?_⟩
    symm
    rw [frames_nil, frames, List.filterMap_eq_nil_iff]
    exact fun b hb => airFrame_of_key_ne (hair b hb).key hne
  · have hpend : s.ledger.frames k p = p.map fun b => frameOf (s.buf b) := by
      rw [frames, ← List.filterMap_eq_map]
      exact List.filterMap_congr fun b hb => (hair b hb).airFrame
    have hrun := Session.single (G := G k) (v := s.ledger.view ⟨r, p, l⟩ k) (a := .prepend)
      trivial (hsafe _ _ _ trivial)
    convert hrun using 1
    show Tid.session (s.tid k) ((p ++ (s.tid k).bufQ).map _) _ _ = _
    rw [List.map_append]
    change _ = { s.ledger.view ⟨r, p, l⟩ k with
      queue := s.ledger.frames k p ++ s.ledger.waiting k, pend := [] }
    rw [hpend]
    rfl

end Track

end Ath9kHtc.Tx
