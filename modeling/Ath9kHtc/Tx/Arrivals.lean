import Ath9kHtc.Tx.Completing
import Ath9kHtc.Tx.Prepare

/-!
# Frames of the host on their way to a queue

What the handlers of data and management frames do to the ledger.
-/

namespace Ath9kHtc.Tx

open Ledger

variable {G : TidId → Session → Action → Prop} {s s' : TxState} {sc : Softc} {k : TidId}
  {bf : BufId} {l : Multiset BufId} {skb : SkbId} {f : Tid → Tid}

namespace Ledger

variable {L : Ledger} {b : BufId} {x : TxBuf} {tid tid' : Tid}

theorem setTid_setTid : (L.setTid k tid).setTid k tid' = L.setTid k tid' := by
  simp only [setTid, Function.update_idem]

theorem setTid_setBuf : (L.setTid k tid).setBuf b x = (L.setBuf b x).setTid k tid := rfl

end Ledger

/-- A data frame of the host in a buffer of its TID. -/
structure Holds (k : TidId) (skb : SkbId) (seq : ℕ) (b : TxBuf) : Prop where
  node : b.bfNode = some k.1
  tidno : b.bfTidno = k.2
  txq : b.bfTxq = tidToActxq k.2
  next : b.bfNext = none
  skb : b.bfSkb = some skb
  seqno : b.bfSeqno = seq * 16
  retried : b.bfIsretried = false

namespace Holds

variable {seq : ℕ} {b : TxBuf}

theorem key (h : Holds k skb seq b) : keyOf b = some k := by
  rw [keyOf, h.node, h.tidno]
  rfl

theorem frame (h : Holds k skb seq b) : frameOf b = ⟨some skb, seq, false⟩ := by
  rw [frameOf, h.skb, h.seqno, h.retried, seqnoFromBfSeqno, Nat.mul_div_cancel _ (by decide)]

theorem airFor (h : Holds k skb seq b) (hcomp : b.bfComp = some .aggr) : AirFor k b :=
  ⟨hcomp, h.key, h.txq⟩

end Holds

/-- A handler has filled a free buffer and changed the TID of the frame, and nothing else. -/
structure Filled (s : TxState) (k : TidId) (bf : BufId) (f : Tid → Tid) (s' : TxState) :
    Prop where
  ledger : s'.ledger = (s.ledger.setBuf bf (s'.buf bf)).setTid k (f (s.tid k)).unsched
  tid : s'.tid k = f (s.tid k)

namespace Filled

variable {g : Tid → Tid}

theorem refl (s : TxState) (k : TidId) (bf : BufId) : Filled s k bf (fun tid => tid) s where
  ledger := by
    show s.ledger = (s.ledger.setBuf bf (s.buf bf)).setTid k (s.ledger.tid k)
    rw [show s.ledger.setBuf bf (s.buf bf) = s.ledger by
      rw [Ledger.setBuf]
      exact congrArg (fun buf => { s.ledger with buf := buf }) (Function.update_eq_self bf s.buf)]
    exact (s.ledger.setTid_self k).symm
  tid := rfl

theorem modBuf (h : Filled s k bf f s') (x : TxBuf → TxBuf) :
    Filled s k bf f (s'.modBuf bf x) where
  ledger := by
    rw [TxState.ledger_modBuf, h.ledger, setTid_setBuf, setBuf_setBuf, TxState.modBuf_buf_self]
  tid := h.tid

theorem modTid (h : Filled s k bf f s') (g : Tid → Tid) :
    Filled s k bf (g ∘ f) (s'.modTid k g) where
  ledger := by
    rw [TxState.ledger_modTid, h.ledger, setTid_setTid, h.tid]
    rfl
  tid := by
    rw [TxState.modTid_tid_self, h.tid]
    rfl

theorem of_ledger {s'' : TxState} (h : Filled s k bf f s') (hledger : s''.ledger = s'.ledger)
    (htid : s''.tid k = s'.tid k) : Filled s k bf f s'' where
  ledger := by
    rw [hledger, h.ledger]
    exact congrArg (fun x => (s.ledger.setBuf bf x).setTid k (f (s.tid k)).unsched)
      (congrArg (fun L => L.buf bf) hledger :).symm
  tid := htid.trans h.tid

theorem buf_of_ne (h : Filled s k bf f s') {b : BufId} (hne : b ≠ bf) : s'.buf b = s.buf b := by
  have hbuf : s'.buf = Function.update s.buf bf (s'.buf bf) := (congrArg Ledger.buf h.ledger :)
  rw [hbuf, Function.update_of_ne hne]

/-- The frames that wait are not in the buffer filled. -/
theorem waiting (h : Filled s k bf f s') (hwf : s.ledger.WF ⟨[], [], bf ::ₘ l⟩) (k' : TidId) :
    ((s.tid k').bufQ.map fun b => frameOf (s'.buf b)) = s.ledger.waiting k' := by
  apply List.map_congr_left
  intro b hb
  have hbf := mem_all_of_loose (h := ⟨[], [], bf ::ₘ l⟩) (Multiset.mem_cons_self bf l)
  rw [h.buf_of_ne (ne_of_mem_of_not_mem hb (hwf.not_mem_bufQ hbf))]
  rfl

/-- What the handler has done is a write to its buffer and a change of its TID. -/
theorem track (h : Filled s k bf f s') (hwf : s.ledger.WF ⟨[], [], bf ::ₘ l⟩) {h' : Hand}
    (hall : h'.all + (f (s.tid k)).bufQ = Hand.all ⟨[], [], bf ::ₘ l⟩ + (s.tid k).bufQ)
    (hqueued : ∀ b ∈ (f (s.tid k)).bufQ, b = bf ∧ AirFor k (s'.buf bf) ∨ b ∈ (s.tid k).bufQ)
    (hoff : s.ledger.Off → (f (s.tid k)).aggrEnabled = false → (f (s.tid k)).bufQ = [])
    (hothers : ∀ k', k' ≠ k → s'.ledger.frames k' h'.rest = [] ∧ s'.ledger.frames k' h'.pend = [])
    (hrun : session.StepsWhere (G k) (s.ledger.view {} k)
      ((f (s.tid k)).session ((f (s.tid k)).bufQ.map fun b => frameOf (s'.buf b))
        (s'.ledger.frames k h'.rest + s.ledger.hwAir k) (s'.ledger.frames k h'.pend))) :
    Track G s.ledger ⟨[], [], bf ::ₘ l⟩ s'.ledger h' := by
  have hmem := Multiset.mem_cons_self bf l
  have hwrite := Track.write (G := G) hwf hmem (s'.buf bf)
  have hbuf : (s.ledger.setBuf bf (s'.buf bf)).buf = s'.buf :=
    (congrArg Ledger.buf h.ledger :).symm
  refine hwrite.trans ?_
  rw [h.ledger]
  have hview : (s.ledger.setBuf bf (s'.buf bf)).view ⟨[], [], bf ::ₘ l⟩ k = s.ledger.view {} k := by
    have hnone := Track.write (G := fun _ _ _ => False) hwf hmem (s'.buf bf)
    exact (hnone.runs k).eq_of_never
  have hair : (s.ledger.setBuf bf (s'.buf bf)).hwAir k = s.ledger.hwAir k := by
    have := congrArg Session.air hview
    simpa [Ledger.view, Tid.session] using this
  refine Track.setTid hwrite.wf hall ?_ (fun ho => hoff ho) ?_ ?_
  · intro b hb
    rw [hbuf]
    rcases hqueued b hb with ⟨rfl, hair⟩ | hb
    · exact hair
    · have := hwrite.wf.queued k b hb
      rwa [hbuf] at this
  · intro k' hne
    have := hothers k' hne
    rw [h.ledger] at this
    exact ⟨this.1, this.2⟩
  · have hframes : ∀ l, (s.ledger.setBuf bf (s'.buf bf)).frames k l = s'.ledger.frames k l := by
      intro l
      rw [h.ledger]
      rfl
    rw [hview, hair, hframes, hframes, hbuf]
    exact hrun

end Filled

/-! ## Preparing a data frame -/

theorem isMoreFrag_putSeqno (seqno : ℕ) (n : Nbuf) :
    isMoreFrag (putSeqno seqno n) = isMoreFrag n := by
  rw [isMoreFrag, isMoreFrag, putSeqno]
  simp only [Function.update_of_ne (show (1 : ℕ) ≠ 23 by decide),
    Function.update_of_ne (show (1 : ℕ) ≠ 22 by decide)]

theorem encapFrame_tx (sc : Softc) (ni : NodeId) (skb : SkbId) (keytype : KeyType) :
    (encapFrame sc ni skb keytype).tx.ledger = sc.tx.ledger ∧
      (encapFrame sc ni skb keytype).tx.tid = sc.tx.tid ∧
      (encapFrame sc ni skb keytype).tx.buf = sc.tx.buf := by
  rw [encapFrame]
  dsimp only
  split <;> exact ⟨rfl, rfl, rfl⟩

/-- What `ath_tgt_tx_seqno_normal` does to the TID and the buffer. -/
theorem athTgtTxSeqnoNormal_filled (h : Filled s k bf f s') (skb : SkbId) :
    Filled s k bf (fun tid => takeSeqno (f tid) skb (isMoreFrag (s'.nbuf skb)))
        (athTgtTxSeqnoNormal s' k bf skb) ∧
      (athTgtTxSeqnoNormal s' k bf skb).buf bf =
        { s'.buf bf with bfSeqno := (f (s.tid k)).seqNext * 16 } := by
  set g : TxBuf → TxBuf := fun b => { b with bfSeqno := (s'.tid k).seqNext * 16 } with hg
  set n := (s'.modBuf bf g).modNbuf skb (putSeqno ((s'.tid k).seqNext * 16)) with hn
  have hmore : isMoreFrag (n.nbuf skb) = isMoreFrag (s'.nbuf skb) := by
    have : n.nbuf skb = putSeqno ((s'.tid k).seqNext * 16) (s'.nbuf skb) :=
      Function.update_self ..
    rw [this, isMoreFrag_putSeqno]
  have hnbuf : Filled s k bf f n := (h.modBuf g).of_ledger rfl rfl
  have heq : athTgtTxSeqnoNormal s' k bf skb =
      n.modTid k fun tid => takeSeqno tid skb (isMoreFrag (s'.nbuf skb)) := by
    rw [← hmore]
    rfl
  rw [heq]
  refine ⟨hnbuf.modTid fun tid => takeSeqno tid skb (isMoreFrag (s'.nbuf skb)), ?_⟩
  have hbuf : (n.modTid k fun tid => takeSeqno tid skb (isMoreFrag (s'.nbuf skb))).buf bf =
      (s'.modBuf bf g).buf bf := rfl
  rw [hbuf, TxState.modBuf_buf_self, hg, h.tid]

theorem prepareBuf_filled (sc : Softc) (k : TidId) (dh : DataHdr) (skb : SkbId)
    (hclean : Clean (s.buf bf)) :
    let s' := (prepareBuf sc k dh skb bf
      (s.modBuf bf fun b => { b with toBufState := ({} : BufState) })).tx
    Filled s k bf (fun tid => takeSeqno tid skb (isMoreFrag (s.nbuf skb))) s' ∧
      Holds k skb (s.tid k).seqNext (s'.buf bf) := by
  intro s'
  set s₁ := (s.modBuf bf fun b => { b with toBufState := ({} : BufState) }).modBuf bf
    (fillBuf k dh skb) with hs₁
  have hfill : Filled s k bf (fun tid => tid) s₁ := ((Filled.refl s k bf).modBuf _).modBuf _
  have hb₁ : s₁.buf bf = fillBuf k dh skb { s.buf bf with toBufState := ({} : BufState) } := by
    rw [hs₁, TxState.modBuf_buf_self, TxState.modBuf_buf_self]
  obtain ⟨hseqno, hb₂⟩ := athTgtTxSeqnoNormal_filled hfill skb
  set s₂ := athTgtTxSeqnoNormal s₁ k bf skb with hs₂
  set s₃ := s₂.modBuf bf (setupBuf (s₂.nbuf skb)) with hs₃
  have hsetup : Filled s k bf _ s₃ := hseqno.modBuf _
  set sc₃ : Softc := { sc.modSta k.1 fun node =>
    { node with niTxseqmgmt := (node.niTxseqmgmt + 1) % ieee80211SeqMax } with tx := s₃ }
  obtain ⟨hledger, htid, hbuf⟩ := encapFrame_tx sc₃ k.1 skb dh.keytype
  set s₄ := (encapFrame sc₃ k.1 skb dh.keytype).tx
  have hencap : Filled s k bf _ s₄ := hsetup.of_ledger hledger (congrFun htid k)
  have hdesc : Filled s k bf _ (s₄.modDs bf fun ds => { ds with dsLink := none }) :=
    hencap.of_ledger rfl rfl
  have hs' : s' = (s₄.modDs bf fun ds => { ds with dsLink := none }).modBuf bf
    fun b => { b with bfLastds := bf } := rfl
  refine ⟨hs' ▸ hdesc.modBuf _, ?_⟩
  have hfinal : s'.buf bf = { setupBuf (s₂.nbuf skb) { fillBuf k dh skb
      { s.buf bf with toBufState := ({} : BufState) } with
        bfSeqno := (s.tid k).seqNext * 16 } with bfLastds := bf } := by
    rw [hs', TxState.modBuf_buf_self]
    show { s₄.buf bf with bfLastds := bf } = _
    rw [hbuf]
    show { s₃.buf bf with bfLastds := bf } = _
    rw [hs₃, TxState.modBuf_buf_self, hb₂, hb₁]
  rw [hfinal]
  refine ⟨rfl, rfl, rfl, hclean.next, ?_, rfl, rfl⟩
  show ((s.buf bf).bfSkbhead ++ [skb]).head? = some skb
  rw [hclean.skbhead]
  rfl

/-! ## Sending it -/

section Send

variable {more : Bool}

/-- What the rates of a frame that is sent alone do to its buffer. -/
theorem normalSeries_filled (h : Filled s k bf f s') :
    Filled s k bf f (normalSeries s' bf) ∧
      ∃ rcs, (normalSeries s' bf).buf bf = { s'.buf bf with bfRcs := rcs } := by
  rw [normalSeries]
  split
  · exact ⟨h.modBuf _, _, TxState.modBuf_buf_self ..⟩
  · have hcalls : Filled s k bf f (athRateFindrate s').2 := h.of_ledger rfl rfl
    exact ⟨hcalls.modBuf _, _, TxState.modBuf_buf_self ..⟩

/-- The buffer with its completion function. -/
def TxBuf.compAs (comp : Comp) (b : TxBuf) : TxBuf := { b with bfComp := some comp }

/-- The TID after a frame outside the window. -/
def Tid.advance (tid : Tid) : Tid :=
  { tid with seqStart := (tid.seqStart + 1) % ieee80211SeqMax }

/-- The TID with a frame noted as handed to the hardware. -/
def Tid.logged (skb : SkbId) (tid : Tid) : Tid := { tid with handed := skb :: tid.handed }

/-- The TID with one more frame waiting. -/
def Tid.queueLast (bf : BufId) (tid : Tid) : Tid := { tid with bufQ := tid.bufQ ++ [bf] }

/-- What is done to a frame before it is put on a hardware queue by itself. -/
theorem logHanded_filled (h : Filled s k bf f s') (hkey : keyOf (s'.buf bf) = some k)
    (hskb : (s'.buf bf).bfSkb = some skb) :
    Filled s k bf (Tid.logged skb ∘ f) (normalSeries (logHanded s' bf) bf) ∧
      ∃ rcs, (normalSeries (logHanded s' bf) bf).buf bf = { s'.buf bf with bfRcs := rcs } := by
  rw [logHanded_eq hkey, hskb]
  exact normalSeries_filled (h.modTid (Tid.logged skb))

variable (hwf : s.ledger.WF ⟨[], [], bf ::ₘ l⟩)
  (hfilled : Filled s k bf (fun tid => takeSeqno tid skb more) s')
  (hholds : Holds k skb (s.tid k).seqNext (s'.buf bf))
  (hfresh : ∀ i ∈ (s.tid k).issued, i.skb ≠ skb)

include hwf hfilled hholds hfresh

theorem Track.athTgtHandleNormal (ha : (s.tid k).aggrEnabled = false)
    (hok : G k (s.ledger.view {} k) (.sendNormal skb more)) :
    Track G s.ledger ⟨[], [], bf ::ₘ l⟩ (athTgtHandleNormal s' k bf).ledger ⟨[], [], l⟩ := by
  set s₁ := (s'.modBuf bf (.compAs .normal)).modTid k Tid.advance with hs₁
  have hb₁ : s₁.buf bf = (s'.buf bf).compAs .normal := s'.modBuf_buf_self bf _
  have hfilled₁ : Filled s k bf _ s₁ := (hfilled.modBuf (.compAs .normal)).modTid Tid.advance
  obtain ⟨hfilled₂, rcs, hb₂⟩ := logHanded_filled hfilled₁
    (hb₁ ▸ hholds.key) (hb₁ ▸ hholds.skb : (s₁.buf bf).bfSkb = some skb)
  have hs₂ : Tx.athTgtHandleNormal s' k bf =
    athTgtTxqAddUcast (normalSeries (logHanded s₁ bf) bf) bf := rfl
  rw [hs₂]
  generalize normalSeries (logHanded s₁ bf) bf = s₂ at hfilled₂ hb₂
  rw [hb₁] at hb₂
  have htrack : Track G s.ledger ⟨[], [], bf ::ₘ l⟩ s₂.ledger ⟨[], [], bf ::ₘ l⟩ := by
    apply hfilled₂.track hwf rfl (fun b hb => .inr hb)
    · exact fun hoff => hoff k
    · exact fun _ _ => ⟨rfl, rfl⟩
    · have hrun := Session.single (G := G k) (a := .sendNormal skb more)
        (v := s.ledger.view {} k) ⟨ha, hfresh⟩ hok
      convert hrun using 1
      show Tid.session _ ((s.tid k).bufQ.map _) _ _ = _
      rw [hfilled₂.waiting hwf]
      rfl
  refine htrack.trans (Track.sendAlone htrack.wf (q := tidToActxq k.2) ?_ ?_ (.inr ⟨k, rfl, ?_⟩))
  · rw [hb₂]
    exact hholds.txq
  · rw [hb₂]
    exact hholds.next
  · rw [hb₂]
    exact ⟨.inl rfl, hholds.key, hholds.txq, hholds.next⟩

theorem Track.sendDirect (ha : (s.tid k).aggrEnabled = true)
    (hq : queueFrame (s'.modBuf bf (.compAs .aggr)) k bf = false)
    (hok : G k (s.ledger.view {} k) (.sendDirect skb more)) :
    Track G s.ledger ⟨[], [], bf ::ₘ l⟩ (athTgtHandleAggr s' k bf).ledger ⟨[], [], l⟩ := by
  set b := (s'.buf bf).compAs .aggr with hb
  have hb₀ : (s'.modBuf bf (.compAs .aggr)).buf bf = b := s'.modBuf_buf_self bf _
  set s₁ := (s'.modBuf bf (.compAs .aggr)).modTid k fun tid => athTxAddtoBaw tid b with hs₁
  have hb₁ : s₁.buf bf = b := hb₀
  have hfilled₁ : Filled s k bf _ s₁ :=
    (hfilled.modBuf (.compAs .aggr)).modTid fun tid => athTxAddtoBaw tid b
  obtain ⟨hfilled₂, rcs, hb₂⟩ := logHanded_filled hfilled₁
    (hb₁ ▸ hholds.key) (hb₁ ▸ hholds.skb : (s₁.buf bf).bfSkb = some skb)
  have hs₂ : Tx.athTgtHandleAggr s' k bf =
      athTgtTxqAddUcast (normalSeries (logHanded s₁ bf) bf) bf := by
    show (if queueFrame (s'.modBuf bf (.compAs .aggr)) k bf = true then _
      else athTgtTxSendNormal (TxState.modTid _ k fun tid =>
        athTxAddtoBaw tid ((s'.modBuf bf (.compAs .aggr)).buf bf)) bf) = _
    rw [hq, hb₀]
    rfl
  rw [hs₂]
  generalize normalSeries (logHanded s₁ bf) bf = s₂ at hfilled₂ hb₂
  rw [hb₁] at hb₂
  have hopen : (s.tid k).bufQ = [] ∧ (s.tid k).paused = false ∧
      bawWithin (s.tid k).seqStart (s.tid k).bawSize (s.tid k).seqNext = true := by
    rw [queueFrame] at hq
    simp only [Bool.or_eq_false_iff, Bool.not_eq_false', List.isEmpty_iff, hb₀] at hq
    rw [show (s'.modBuf bf (.compAs .aggr)).tid k = s'.tid k from rfl, hfilled.tid] at hq
    obtain ⟨⟨⟨-, hnil⟩, hp⟩, hin⟩ := hq
    refine ⟨hnil, hp, ?_⟩
    rw [show seqnoFromBfSeqno b.bfSeqno = (s.tid k).seqNext from
      congrArg Frame.seq hholds.frame] at hin
    exact hin
  obtain ⟨hnil, hp, hin⟩ := hopen
  have hframe : frameOf b = ⟨some skb, (s.tid k).seqNext, false⟩ := hholds.frame
  have hair : AirFor k (s₂.buf bf) := by
    rw [hb₂]
    exact ⟨rfl, hholds.key, hholds.txq⟩
  have hair₂ : frameOf (s₂.buf bf) = frameOf b := by
    rw [hb₂]
    rfl
  have hbufQ : ∀ tid, ((Tid.logged skb ∘ (fun tid => athTxAddtoBaw tid b) ∘
      fun tid => takeSeqno tid skb more) tid).bufQ = tid.bufQ := by
    intro tid
    exact (congrArg Tid.bufQ (rest_athTxAddtoBaw (takeSeqno tid skb more) b) :)
  have hlt : bf < s₂.ledger.txBufs := by
    have hmem := mem_all_of_loose (h := ⟨[], [], bf ::ₘ l⟩) (Multiset.mem_cons_self bf l)
    have := hwf.lt bf (Multiset.mem_add.mpr (.inl hmem))
    rwa [show s₂.ledger.txBufs = s.ledger.txBufs from (congrArg Ledger.txBufs hfilled₂.ledger :)]
  have hnext : (s₂.buf bf).bfNext = none := by
    rw [hb₂]
    exact hholds.next
  have htrack : Track G s.ledger ⟨[], [], bf ::ₘ l⟩ s₂.ledger ⟨[bf], [], l⟩ := by
    apply hfilled₂.track hwf
    · rw [hbufQ]
      simp only [Hand.all, Multiset.coe_singleton, Multiset.coe_nil, zero_add, add_zero,
        Multiset.singleton_add]
    · intro c hc
      rw [hbufQ] at hc
      exact .inr hc
    · intro _ _
      rw [hbufQ]
      exact hnil
    · intro k' hne
      refine ⟨?_, rfl⟩
      rw [frames_cons_of_ne (L := s₂.ledger) hair hne, frames_nil]
    · have hrun := Session.single (G := G k) (a := .sendDirect skb more)
        (v := s.ledger.view {} k)
        ⟨ha, hp, by
          show s.ledger.waiting k = []
          rw [waiting, show (s.ledger.tid k).bufQ = [] from hnil]
          rfl, bawWithin_iff.mp hin, hfresh⟩ hok
      convert hrun using 1
      rw [hbufQ, hfilled₂.waiting hwf, frames_cons_of_airFor (L := s₂.ledger) hair, frames_nil]
      show Tid.session (Tid.logged skb (athTxAddtoBaw (takeSeqno (s.tid k) skb more) b)) _
        (↑[frameOf (s₂.buf bf)] + _) _ = _
      rw [hair₂, hframe, Multiset.coe_singleton, Multiset.singleton_add]
      rw [view_idle]
      change _ = { (((takeSeqno (s.tid k) skb more).session (s.ledger.waiting k)
        (s.ledger.hwAir k) []).enter ⟨some skb, (s.tid k).seqNext, false⟩).hand
          ⟨some skb, (s.tid k).seqNext, false⟩ with
        air := ⟨some skb, (s.tid k).seqNext, false⟩ ::ₘ s.ledger.hwAir k }
      rw [← hframe, ← session_athTxAddtoBaw, hframe]
      rfl
  have hsub : s₂.ledger.subframes bf = [bf] := subframesOf_of_next hlt hnext
  rw [← hsub] at htrack
  refine htrack.trans ?_
  rw [ledger_athTgtTxqAddUcast]
  exact Track.push htrack.wf (.of_next hlt hnext (.inr ⟨k, hair.txq.symm, .inr hair⟩))

theorem Track.enqueue (ha : (s.tid k).aggrEnabled = true)
    (hq : queueFrame (s'.modBuf bf (.compAs .aggr)) k bf = true)
    (hok : G k (s.ledger.view {} k) (.enqueue skb more)) :
    Track G s.ledger ⟨[], [], bf ::ₘ l⟩ (athTgtHandleAggr s' k bf).ledger ⟨[], [], l⟩ := by
  set s₁ := (s'.modBuf bf (.compAs .aggr)).modTid k (.queueLast bf) with hs₁
  have hb₁ : s₁.buf bf = (s'.buf bf).compAs .aggr := s'.modBuf_buf_self bf _
  have hfilled₁ : Filled s k bf _ s₁ := (hfilled.modBuf (.compAs .aggr)).modTid (.queueLast bf)
  have hair : AirFor k (s₁.buf bf) := by
    rw [hb₁]
    exact ⟨rfl, hholds.key, hholds.txq⟩
  have hs₂ : Tx.athTgtHandleAggr s' k bf = Tx.athTgtTxEnqueue s₁ (s₁.buf bf).bfTxq k := by
    show (if queueFrame (s'.modBuf bf (.compAs .aggr)) k bf = true then _ else _) = _
    rw [if_pos hq]
    rfl
  rw [hs₂, hair.txq]
  have hframe : frameOf (s₁.buf bf) = ⟨some skb, (s.tid k).seqNext, false⟩ := by
    rw [hb₁]
    exact hholds.frame
  have htrack : Track G s.ledger ⟨[], [], bf ::ₘ l⟩ s₁.ledger ⟨[], [], l⟩ := by
    apply hfilled₁.track hwf
    · show Hand.all ⟨[], [], l⟩ + (((s.tid k).bufQ ++ [bf] : List BufId) : Multiset BufId) = _
      simp only [Hand.all, ← Multiset.coe_add, Multiset.coe_singleton, Multiset.coe_nil,
        ← Multiset.singleton_add]
      abel
    · intro b hb
      rcases List.mem_append.mp hb with hb | hb
      · exact .inr hb
      · exact .inl ⟨List.mem_singleton.mp hb, hair⟩
    · intro _ hf
      exact absurd (ha.symm.trans hf) (by decide)
    · exact fun _ _ => ⟨rfl, rfl⟩
    · have hrun := Session.single (G := G k) (a := .enqueue skb more) (v := s.ledger.view {} k)
        ⟨ha, hfresh⟩ hok
      convert hrun using 1
      show Tid.session _ (((s.tid k).bufQ ++ [bf]).map _) _ _ = _
      rw [List.map_append, hfilled₁.waiting hwf, List.map_singleton, hframe]
      rfl
  exact htrack.trans (.athTgtTxEnqueue htrack.wf rfl)

/-- The action of a data frame that a TID takes. -/
def Sends (tid : Tid) (skb : SkbId) (more : Bool) (a : Action) : Prop :=
  tid.aggrEnabled = false ∧ a = .sendNormal skb more ∨
    tid.aggrEnabled = true ∧ (a = .sendDirect skb more ∨ a = .enqueue skb more)

theorem Track.sendPrepared {endpt : EndpointId} {dh : DataHdr}
    (hok : ∀ a, Sends (s.tid k) skb more a → G k (s.ledger.view {} k) a) :
    Track G s.ledger ⟨[], [], bf ::ₘ l⟩ (sendPrepared s' k endpt dh bf).ledger ⟨[], [], l⟩ := by
  set g : TxBuf → TxBuf := fun b =>
    { b with bfEndpt := endpt, bfCookie := dh.cookie, vapIndex := dh.vapIndex }
  have hfilled₁ : Filled s k bf _ (s'.modBuf bf g) := hfilled.modBuf g
  have hholds₁ : Holds k skb (s.tid k).seqNext ((s'.modBuf bf g).buf bf) := by
    rw [TxState.modBuf_buf_self]
    exact ⟨hholds.node, hholds.tidno, hholds.txq, hholds.next, hholds.skb, hholds.seqno,
      hholds.retried⟩
  have haggr : ((s'.modBuf bf g).tid k).aggrEnabled = (s.tid k).aggrEnabled := by
    rw [hfilled₁.tid]
    rfl
  show Track G _ _ (TxState.ledger (if ((s'.modBuf bf g).tid k).aggrEnabled then
    Tx.athTgtHandleAggr (s'.modBuf bf g) k bf else Tx.athTgtHandleNormal (s'.modBuf bf g) k bf)) _
  rw [haggr]
  cases ha : (s.tid k).aggrEnabled with
  | false => exact .athTgtHandleNormal hwf hfilled₁ hholds₁ hfresh ha (hok _ (.inl ⟨ha, rfl⟩))
  | true =>
      cases hq : queueFrame ((s'.modBuf bf g).modBuf bf (.compAs .aggr)) k bf with
      | false =>
          exact .sendDirect hwf hfilled₁ hholds₁ hfresh ha hq (hok _ (.inr ⟨ha, .inl rfl⟩))
      | true => exact .enqueue hwf hfilled₁ hholds₁ hfresh ha hq (hok _ (.inr ⟨ha, .inr rfl⟩))

end Send

/-- A data frame of the host. -/
theorem Track.tgtHtcRecvMessageHandler (sc : Softc) {sc' : Softc} {endpt : EndpointId} {dh : DataHdr}
    (hwf : sc.tx.ledger.WF ⟨[], [], l⟩)
    (hfresh : ∀ k, ∀ i ∈ (sc.tx.tid k).issued, i.skb ≠ skb)
    (hok : ∀ k a, athTgtFindNode sc dh.niIndex = some (some k.1) → dh.tidno = k.2 →
      Sends (sc.tx.tid k) skb (isMoreFrag (sc.tx.nbuf skb)) a → G k (sc.tx.ledger.view {} k) a)
    (h : tgtHtcRecvMessageHandler sc endpt skb dh = some sc') :
    Track G sc.tx.ledger ⟨[], [], l⟩ sc'.tx.ledger ⟨[], [], l⟩ := by
  obtain ⟨⟨prepared, sc₁⟩, hprep, rfl⟩ := Option.map_eq_some_iff.mp h
  rw [athTgtTxPrepare] at hprep
  obtain ⟨found, hfind, hprep⟩ := Option.bind_eq_some_iff.mp hprep
  cases found with
  | none =>
      obtain ⟨rfl, rfl⟩ := Prod.mk.inj (Option.some_inj.mp hprep)
      exact .refl hwf
  | some ni =>
      dsimp only at hprep
      split at hprep
      · rename_i htid
        split at hprep
        · obtain ⟨rfl, rfl⟩ := Prod.mk.inj (Option.some_inj.mp hprep)
          exact .refl hwf
        · obtain ⟨⟨bf, s⟩, halloc, hpair⟩ := Option.map_eq_some_iff.mp hprep
          obtain ⟨rfl, rfl⟩ := Prod.mk.inj hpair
          rw [athTxBufAlloc] at halloc
          cases hfree : sc.tx.scTxbuf with
          | nil =>
              rw [hfree] at halloc
              cases halloc
          | cons b rest =>
              rw [hfree] at halloc
              obtain ⟨rfl, rfl⟩ := Prod.mk.inj (Option.some_inj.mp halloc)
              have htake := Track.alloc (G := G) hwf (b := b) (f := rest) hfree
              have hclean : Clean (sc.tx.buf b) :=
                hwf.clean_free b (by
                  show b ∈ sc.tx.scTxbuf
                  rw [hfree]
                  exact List.mem_cons_self)
              obtain ⟨hfilled, hholds⟩ := prepareBuf_filled (s := { sc.tx with scTxbuf := rest })
                sc (ni, ⟨dh.tidno, htid⟩) dh skb hclean
              refine htake.trans (Track.sendPrepared (s := { sc.tx with scTxbuf := rest })
                htake.wf hfilled hholds (hfresh _) fun a hsends => ?_)
              exact hok (ni, ⟨dh.tidno, htid⟩) a hfind rfl hsends
      · cases hprep

/-! ## Management frames -/

/-- The buffer that a management frame for no station takes and nobody gets back. -/
def leaked (sc : Softc) (mh : MgtHdr) : Multiset BufId :=
  match sc.tx.scTxbuf, athTgtFindNode sc mh.niIndex with
  | bf :: _, some none => {bf}
  | _, _ => 0

/-- A management frame of the host. -/
theorem Track.athTgtSendMgt (sc : Softc) {sc' : Softc} {endpt : EndpointId} {mh : MgtHdr}
    (hwf : sc.tx.ledger.WF ⟨[], [], l⟩) (h : athTgtSendMgt sc endpt skb mh = some sc') :
    Track G sc.tx.ledger ⟨[], [], l⟩ sc'.tx.ledger ⟨[], [], leaked sc mh + l⟩ := by
  rw [Tx.athTgtSendMgt] at h
  cases hfree : sc.tx.scTxbuf with
  | nil =>
      rw [hfree] at h
      obtain rfl := Option.some_inj.mp h
      rw [leaked, hfree, zero_add]
      exact .refl hwf
  | cons bf rest =>
      rw [hfree] at h
      obtain ⟨found, hfind, rfl⟩ := Option.map_eq_some_iff.mp h
      have hfind : athTgtFindNode sc mh.niIndex = some found := hfind
      have htake := Track.alloc (G := G) hwf (b := bf) (f := rest) hfree
      cases found with
      | none =>
          rw [leaked, hfree, hfind, Multiset.singleton_add]
          exact htake
      | some ni =>
          rw [leaked, hfree, hfind, zero_add]
          have hclean : Clean (sc.tx.buf bf) := hwf.clean_free bf (by
            show bf ∈ sc.tx.scTxbuf
            rw [hfree]
            exact List.mem_cons_self)
          set sc₁ : Softc := { sc with tx := { sc.tx with scTxbuf := rest } }
          set x : TxBuf := { fillMgtBuf sc₁ ni endpt skb mh (sc.tx.buf bf) with bfLastds := bf }
          have hledger : (sendMgtBuf sc₁ ni endpt skb mh bf).tx.ledger =
              ((sc.tx.ledger.setFree rest).setBuf bf x).setHwq 1
                (((sc.tx.ledger.setFree rest).setBuf bf x).hwq 1 ++ [bf]) := by
            rw [sendMgtBuf, ledger_athTgtTxqaddbuf, athFilltxdesc, TxState.ledger_modBuf,
              TxState.ledger_modDs, TxState.ledger_modNbuf, TxState.ledger_modBuf, setBuf_setBuf]
            show ((sc.tx.ledger.setFree rest).setBuf bf { (TxState.modBuf _ bf _).buf bf with
              bfLastds := bf }).setHwq 1 _ = _
            rw [TxState.modBuf_buf_self]
            rfl
          have hwrite := Track.write (G := G) htake.wf (Multiset.mem_cons_self bf l) x
          have hlt : bf < sc.tx.ledger.txBufs :=
            htake.wf.lt bf (Multiset.mem_add.mpr (.inl (mem_all_of_loose
              (Multiset.mem_cons_self bf l))))
          have hx : ((sc.tx.ledger.setFree rest).setBuf bf x).buf bf = x := setBuf_buf_self
          rw [hledger]
          refine htake.trans (hwrite.trans (Track.pushAlone hwrite.wf ?_ ?_ ?_))
          · refine .of_next hlt ?_ (.inl ?_)
            · rw [hx]
              exact hclean.next
            · rw [hx]
              exact hclean.comp
          · rw [hx]
            exact hclean.next
          · rw [hx]
            show (sc.tx.buf bf).bfComp ≠ _
            rw [hclean.comp]
            intro hair
            cases hair

end Ath9kHtc.Tx
