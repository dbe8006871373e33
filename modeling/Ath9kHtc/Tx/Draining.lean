import Mathlib.Data.Prod.Lex
import Ath9kHtc.Lib.Rounds
import Ath9kHtc.Tx.Lightening
import Ath9kHtc.Tx.Listing

/-!
# Draining a hardware queue ends

The completion of an element takes something off what the frames have before them, or it is that
of a frame with nothing before it, and then the queue gets shorter.
-/

namespace Ath9kHtc.Tx

open Ledger

variable {s s' : TxState} {sc sc' : Softc} {k : TidId} {q : QueueId} {bf : BufId}
  {l : Multiset BufId} {e : Event}

/-! ## One element -/

/-- The frames that wait are frames of aggregation sessions. -/
theorem WF.aggregates {h : Hand} (hwf : s.ledger.WF h) : s.Aggregates :=
  fun k b hb => (hwf.queued k b hb).comp

/-- The subframes of an element that has left its queue. -/
theorem subframes_of_element (hel : Element s.buf s.cfg.txBufs q bf)
    (hwf : s.ledger.WF ⟨s.ledger.subframes bf, [], l⟩)
    (hair : ∀ b ∈ s.ledger.subframes bf, AirFor k (s.buf b)) :
    Subframes s k (some bf) (s.ledger.subframes bf) where
  nodup := by
    have hnodup := hwf.nodup_hand
    rw [Hand.all, Multiset.nodup_add, Multiset.nodup_add] at hnodup
    exact Multiset.coe_nodup.mp hnodup.1.1
  air b hb := ⟨(hair b hb).comp, (hair b hb).key⟩
  chain := hel.chain

/-- An element has no more subframes than there are buffers. -/
theorem subframes_length_le (hwf : s.ledger.WF ⟨s.ledger.subframes bf, [], l⟩) :
    (s.ledger.subframes bf).length ≤ s.cfg.txBufs := by
  have hnodup := hwf.nodup_hand
  rw [Hand.all, Multiset.nodup_add, Multiset.nodup_add] at hnodup
  refine length_le_of_nodup (Multiset.coe_nodup.mp hnodup.1.1) fun b hb => ?_
  exact hwf.lt b (Multiset.mem_add.mpr (.inl (mem_all.mpr (.inl hb))))

/-- The completion of an element that has left its queue, whatever its status; software has
filtered no frame of a TID outside a cleanup. -/
theorem completeBuf_total (hel : Element s.buf s.cfg.txBufs q bf)
    (hwf : s.ledger.WF ⟨s.ledger.subframes bf, [], l⟩) (h : Laden s)
    (hflags : (s.ds (s.buf bf).bfLastds).dsTxstat.tsFlags = halTxSwFiltered →
      ∀ k ∈ keyOf (s.buf bf), (s.buf bf).bfComp = some .aggr → (s.tid k).cleanupInprogres = true) :
    ∃ s', completeBuf s bf = some s' ∧ (Eases 1 s s' ∨
      Eases 0 s s' ∧ ∀ q, (s'.txq q).axqQ = (s.txq q).axqQ) := by
  have haggr := WF.aggregates hwf
  have hout : ∀ b ∈ s.ledger.subframes bf, ∀ k, b ∉ (s.tid k).bufQ := fun b hb k =>
    hwf.not_mem_bufQ (k := k) (mem_all.mpr (.inl hb))
  have hself := hel.mem_subframes
  rcases hel.kind with ⟨hcomp, -⟩ | ⟨k, -, halone⟩ | ⟨k, -, hair, -⟩
  · have hstatus := Eases.athTxStatusUpdate s bf
    have hledger := ledger_athTxStatusUpdate s bf
    have hcomp' : ((athTxStatusUpdate s bf).buf bf).bfComp = none := by
      rw [show (athTxStatusUpdate s bf).buf = s.buf from (congrArg Ledger.buf hledger :)]
      exact hcomp
    obtain ⟨s', hdrop, heases, htxq⟩ := athBufComp_total (hstatus.laden h) hcomp'
    refine ⟨s', ?_, .inr ⟨hstatus.followed heases, fun q => ?_⟩⟩
    swap
    · rw [htxq]
      exact congrFun (congrArg Ledger.hwq hledger :) q
    simp only [completeBuf, hcomp]
    exact hdrop
  · rcases halone.comp with hcomp | hcomp
    · obtain ⟨s', hdone, heases⟩ := athTgtTxCompNormal_total (k := k) h haggr
        (by rw [hcomp]; exact Option.some_ne_none _)
      refine ⟨s', ?_, .inl heases⟩
      simp only [completeBuf, hcomp, tidOf_eq, halone.key, Option.bind_some]
      exact hdone
    · obtain ⟨s', hdone, heases⟩ := athBarTxComp_total h haggr hcomp (hout bf hself k)
      refine ⟨s', ?_, .inl heases⟩
      simp only [completeBuf, hcomp, tidOf_eq, halone.key, Option.bind_some]
      exact hdone
  · have hbf := hair bf hself
    obtain ⟨s', hdone, heases⟩ := athTgtTxCompAggr_total h haggr
      (subframes_of_element hel hwf hair) hout hself (subframes_length_le hwf)
      (fun hfiltered => hflags hfiltered k hbf.key hbf.comp)
    refine ⟨s', ?_, .inl heases⟩
    simp only [completeBuf, hbf.comp, tidOf_eq, hbf.key, Option.bind_some]
    exact hdone

/-! ## One round -/

/-- What the frames have before them comes first, then the elements of the queue. -/
noncomputable def TxState.toCome (s : TxState) (q : QueueId) : ℕ × ℕ :=
  (s.load, (s.txq q).axqQ.length)

def Less : ℕ × ℕ → ℕ × ℕ → Prop := Prod.Lex (· < ·) (· < ·)

theorem less_wf : WellFounded Less := (Prod.lex ⟨_, wellFounded_lt⟩ ⟨_, wellFounded_lt⟩).wf

/-- The answer of the hardware is not the mark that software puts on a frame. -/
def Plain (answer : Option TxStat) : Prop := ∀ stat ∈ answer, stat.tsFlags ≠ halTxSwFiltered

instance (answer : Option TxStat) : Decidable (Plain answer) :=
  inferInstanceAs (Decidable (∀ stat ∈ answer, _))

/-- A round of the drain never fails, and is the last one or leaves less to come. -/
theorem stoppedRound_total {answer : Option TxStat} (hwf : s.ledger.WF ⟨[], [], l⟩) (h : Laden s)
    (hans : Plain answer) :
    ∃ s' more, processqRound q .stopped answer s = some (s', more) ∧
      (more = true → Laden s' ∧ Less (s'.toCome q) (s.toCome q)) := by
  rw [processqRound]
  cases hq : (s.txq q).axqQ with
  | nil => exact ⟨_, false, rfl, fun hmore => absurd hmore Bool.false_ne_true⟩
  | cons bf es =>
      have hbusy : ¬(answer = none ∧ TxqState.stopped = TxqState.active) := fun hand => by
        cases hand.2
      have hidle : ¬TxqState.stopped = TxqState.active := fun heq => by cases heq
      dsimp only
      rw [if_neg hbusy]
      set s₁ := txqRemoveHead (s.modDs (s.buf bf).bfLastds fun ds =>
        { ds with dsTxstat := procStatus .stopped answer ds.dsTxstat }) q with hs₁
      have hel := hwf.onHw q bf (show bf ∈ (s.txq q).axqQ from hq ▸ List.mem_cons_self)
      have hpop := Track.pop (G := fun _ _ _ => True) hwf (show s.ledger.hwq q = bf :: es from hq)
      have hledger : s₁.ledger = s.ledger.setHwq q es := ledger_txqRemoveHead (s := s.modDs _ _) hq
      have hheld : Eases 0 s s₁ := .of_eq rfl rfl
      have hflags : (s₁.ds (s₁.buf bf).bfLastds).dsTxstat.tsFlags ≠ halTxSwFiltered := by
        show (Function.update s.ds (s.buf bf).bfLastds _ (s.buf bf).bfLastds).dsTxstat.tsFlags ≠ _
        rw [Function.update_self]
        cases answer with
        | none => exact fun heq => by cases heq
        | some stat => exact hans stat rfl
      obtain ⟨s₂, hcomp, hdone⟩ := completeBuf_total (s := s₁) (l := l) hel
        (by rw [hledger]; exact hpop.wf) (hheld.laden h) fun hfiltered => absurd hfiltered hflags
      rw [hcomp, Option.bind_some, if_neg hidle, Option.map_some]
      refine ⟨s₂, true, rfl, fun _ => ?_⟩
      have hload := hheld.load h
      rcases hdone with heases | ⟨heases, haxq⟩
      · have := heases.load (hheld.laden h)
        exact ⟨heases.laden (hheld.laden h), .left _ _ (by omega)⟩
      · have := heases.load (hheld.laden h)
        refine ⟨heases.laden (hheld.laden h), ?_⟩
        have hes : (s₂.txq q).axqQ = es := by
          rw [haxq]
          exact (congrFun (congrArg Ledger.hwq hledger :) q).trans (Function.update_self ..)
        have hlen : (s₂.txq q).axqQ.length < (s.txq q).axqQ.length := by
          rw [hes, hq]
          exact Nat.lt_succ_self _
        rcases Nat.lt_or_eq_of_le (show s₂.load ≤ s.load by omega) with hlt | heq
        · exact .left _ _ hlt
        · rw [Less, Prod.lex_def]
          exact .inr ⟨heq, hlen⟩

/-! ## Frames of the host -/

/-- A function that writes to no buffer. -/
theorem Laden.of_eq (h : Laden s) (hbuf : s'.buf = s.buf)
    (hheld : s'.scTxbufHeld = s.scTxbufHeld) : Laden s' :=
  (Eases.of_eq hbuf hheld).laden h

/-- A buffer that is not held gets other contents. -/
theorem Laden.fill (h : Laden s) (hheld : s'.scTxbufHeld = s.scTxbufHeld)
    (hbf : ∀ b ∈ s.scTxbufHeld, b ≠ bf) (hothers : ∀ b, b ≠ bf → s'.buf b = s.buf b)
    (hcarries : (s'.buf bf).Carries) : Laden s' := by
  obtain ⟨tmp, htmp, hidle⟩ := h.held
  refine ⟨⟨tmp, hheld.trans htmp, ?_⟩, fun b => ?_, ?_⟩
  · rw [hothers tmp (hbf tmp htmp)]
    exact hidle
  · rcases eq_or_ne b bf with rfl | hne
    · exact hcarries
    · rw [hothers b hne]
      exact h.carries b
  · apply (h.finite.insert bf).subset
    intro b hb
    rcases eq_or_ne b bf with rfl | hne
    · exact Set.mem_insert b _
    · refine Set.mem_insert_of_mem _ ?_
      show (s.buf b).bfComp ≠ none
      rw [← hothers b hne]
      exact hb

/-- The frame of a buffer that is about to be sent. -/
structure Packed (s : TxState) (bf : BufId) (skb : SkbId) : Prop where
  held : ∀ b ∈ s.scTxbufHeld, b ≠ bf
  skbhead : (s.buf bf).bfSkbhead = [skb]
  skb : (s.buf bf).bfSkb = some skb

theorem Packed.compAs {skb : SkbId} (h : Packed s bf skb) (hladen : Laden s) (comp : Comp) :
    Laden (s.modBuf bf (.compAs comp)) := by
  refine hladen.fill rfl h.held (fun b hb => s.modBuf_buf_of_ne bf _ hb) ?_
  rw [TxState.modBuf_buf_self]
  exact fun _ => ⟨skb, h.skbhead, h.skb⟩

theorem sendPrepared_laden {endpt : EndpointId} {dh : DataHdr} {skb : SkbId} (h : Laden s)
    (hpacked : Packed s bf skb) : Laden (sendPrepared s k endpt dh bf) := by
  set g : TxBuf → TxBuf := fun b =>
    { b with bfEndpt := endpt, bfCookie := dh.cookie, vapIndex := dh.vapIndex }
  have hsame : TxBuf.SameLoad (s.buf bf) (g (s.buf bf)) := ⟨rfl, rfl, rfl, rfl⟩
  have hladen : Laden (s.modBuf bf g) := (Eases.modBuf g hsame).laden h
  have hpacked : Packed (s.modBuf bf g) bf skb := by
    refine ⟨hpacked.held, ?_, ?_⟩ <;> rw [TxState.modBuf_buf_self]
    · exact hpacked.skbhead
    · exact hpacked.skb
  show Laden (if ((s.modBuf bf g).tid k).aggrEnabled then athTgtHandleAggr (s.modBuf bf g) k bf
    else athTgtHandleNormal (s.modBuf bf g) k bf)
  generalize s.modBuf bf g = s₁ at hladen hpacked ⊢
  split
  · have hcomp := hpacked.compAs hladen .aggr
    show Laden (if queueFrame (s₁.modBuf bf (.compAs .aggr)) k bf then _ else _)
    split
    · exact Still.athTgtTxEnqueue.eases.laden ((Eases.modTid _ k _).laden hcomp)
    · exact Still.athTgtTxSendNormal.eases.laden ((Eases.modTid _ k _).laden hcomp)
  · have hcomp := hpacked.compAs hladen .normal
    exact Still.athTgtTxSendNormal.eases.laden ((Eases.modTid _ k _).laden hcomp)

/-- Preparing a frame adds its host buffer to the buffer, and no completion function. -/
theorem prepareBuf_packs (s : TxState) (sc : Softc) (k : TidId) (dh : DataHdr) (skb : SkbId)
    (bf : BufId) :
    ((prepareBuf sc k dh skb bf s).tx.buf bf).bfSkbhead = (s.buf bf).bfSkbhead ++ [skb] ∧
      ((prepareBuf sc k dh skb bf s).tx.buf bf).bfComp = (s.buf bf).bfComp := by
  rw [prepareBuf]
  dsimp only
  rw [athFilltxdesc, TxState.modBuf_buf_self]
  show ((encapFrame _ _ _ _).tx.buf bf).bfSkbhead = _ ∧ ((encapFrame _ _ _ _).tx.buf bf).bfComp = _
  rw [(encapFrame_tx _ _ _ _).2.2, TxState.modBuf_buf_self]
  show ((athTgtTxSeqnoNormal _ k bf skb).buf bf).bfSkbhead = _ ∧
    ((athTgtTxSeqnoNormal _ k bf skb).buf bf).bfComp = _
  rw [(athTgtTxSeqnoNormal_filled (.refl _ k bf) skb).2, TxState.modBuf_buf_self]
  exact ⟨rfl, rfl⟩

theorem recvData_laden (sc : Softc) {endpt : EndpointId} {skb : SkbId} {dh : DataHdr}
    (hwf : sc.tx.ledger.WF ⟨[], [], l⟩) (h : Laden sc.tx)
    (hrecv : tgtHtcRecvMessageHandler sc endpt skb dh = some sc') : Laden sc'.tx := by
  obtain ⟨⟨prepared, sc₁⟩, hprep, rfl⟩ := Option.map_eq_some_iff.mp hrecv
  rw [athTgtTxPrepare] at hprep
  obtain ⟨found, -, hprep⟩ := Option.bind_eq_some_iff.mp hprep
  have hreturned : Eases 0 sc.tx (sc.tx.emit (.returnBuffers endpt skb)) := .of_eq rfl rfl
  cases found with
  | none =>
      obtain ⟨rfl, rfl⟩ := Prod.mk.inj (Option.some_inj.mp hprep)
      exact hreturned.laden h
  | some ni =>
      dsimp only at hprep
      split at hprep
      · rename_i htid
        split at hprep
        · obtain ⟨rfl, rfl⟩ := Prod.mk.inj (Option.some_inj.mp hprep)
          exact hreturned.laden h
        · obtain ⟨⟨bf, s⟩, halloc, hpair⟩ := Option.map_eq_some_iff.mp hprep
          obtain ⟨rfl, rfl⟩ := Prod.mk.inj hpair
          rw [athTxBufAlloc] at halloc
          cases hfree : sc.tx.scTxbuf with
          | nil =>
              rw [hfree] at halloc
              cases halloc
          | cons b rest =>
              rw [hfree] at halloc
              obtain ⟨rfl, rfl⟩ := Prod.mk.inj (Option.some_inj.mp halloc)
              have hmem : b ∈ sc.tx.ledger.free := by
                show b ∈ sc.tx.scTxbuf
                rw [hfree]
                exact List.mem_cons_self
              have htake := Track.alloc (G := fun _ _ _ => True) hwf (b := b) (f := rest) hfree
              have hclean : Clean (sc.tx.buf b) := hwf.clean_free b hmem
              set s₀ : TxState := { sc.tx with scTxbuf := rest }
              obtain ⟨hfilled, hholds⟩ := prepareBuf_filled (s := s₀) sc (ni, ⟨dh.tidno, htid⟩) dh
                skb hclean
              obtain ⟨hskbhead, hcomp⟩ := prepareBuf_packs
                (s₀.modBuf b fun b => { b with toBufState := ({} : BufState) }) sc
                (ni, ⟨dh.tidno, htid⟩) dh skb b
              rw [TxState.modBuf_buf_self] at hskbhead hcomp
              set s₁ := (prepareBuf sc (ni, ⟨dh.tidno, htid⟩) dh skb b
                (s₀.modBuf b fun b => { b with toBufState := ({} : BufState) })).tx
              have hheld : s₁.scTxbufHeld = sc.tx.scTxbufHeld :=
                (congrArg Ledger.held hfilled.ledger :)
              have hout : ∀ c ∈ sc.tx.scTxbufHeld, c ≠ b := by
                rintro c hc rfl
                exact htake.wf.not_mem_held (mem_all_of_loose (Multiset.mem_cons_self c l)) hc
              refine sendPrepared_laden ?_ ⟨?_, ?_, hholds.skb⟩
              · exact h.fill hheld hout (fun c hc => hfilled.buf_of_ne hc)
                  (TxBuf.carries_idle (hcomp.trans rfl))
              · rw [hheld]
                exact hout
              · rw [hskbhead, show s₀.buf = sc.tx.buf from rfl, hclean.skbhead]
                rfl
      · cases hprep

theorem recvMgmt_laden (sc : Softc) {endpt : EndpointId} {skb : SkbId} {mh : MgtHdr}
    (hwf : sc.tx.ledger.WF ⟨[], [], l⟩) (h : Laden sc.tx)
    (hrecv : athTgtSendMgt sc endpt skb mh = some sc') : Laden sc'.tx := by
  rw [athTgtSendMgt] at hrecv
  cases hfree : sc.tx.scTxbuf with
  | nil =>
      rw [hfree] at hrecv
      obtain rfl := Option.some_inj.mp hrecv
      exact h.of_eq rfl rfl
  | cons bf rest =>
      rw [hfree] at hrecv
      obtain ⟨found, -, rfl⟩ := Option.map_eq_some_iff.mp hrecv
      set s₀ : TxState := { sc.tx with scTxbuf := rest }
      have htaken : Laden s₀ := h.of_eq rfl rfl
      cases found with
      | none => exact htaken.of_eq rfl rfl
      | some ni =>
          have hclean : Clean (sc.tx.buf bf) := hwf.clean_free bf (by
            show bf ∈ sc.tx.scTxbuf
            rw [hfree]
            exact List.mem_cons_self)
          have hidle : (s₀.buf bf).bfComp = none := hclean.comp
          set f := fillMgtBuf { sc with tx := s₀ } ni endpt skb mh
          have hfilled : Eases 0 s₀ (s₀.modBuf bf f) := by
            refine .write rfl rfl (fun _ => hidle) (fun _ => TxBuf.carries_idle hidle) ?_
            rw [TxBuf.load_idle (b := f (s₀.buf bf)) hidle, Nat.zero_add]
            exact Nat.zero_le _
          set s₁ := (s₀.modBuf bf f).modNbuf skb (putMgtSeqno (sc.scSta ni).niTxseqmgmt)
          have hfirst : Eases 0 s₀ s₁ := hfilled.followed (.of_eq rfl rfl)
          have hdesc : Eases 0 s₁ (athFilltxdesc s₁ bf) := by
            have hcleared : Still s₁ (s₁.modDs bf fun ds => { ds with dsLink := none }) :=
              .modDs bf _
            exact (hcleared.trans (.modBuf (fun b => { b with bfLastds := bf })
              ⟨rfl, rfl, rfl, rfl⟩)).eases
          have hadded : ∀ s lastds, Eases 0 s (athTgtTxqaddbuf s 1 bf lastds) := fun s lastds => by
            rw [athTgtTxqaddbuf]
            exact ((Still.axqLinkTo _).trans (Still.modTxq _)).eases
          exact (hadded _ _).laden (hdesc.laden (hfirst.laden htaken))

/-! ## Every event -/

/-- A completion that does not fail leaves the frames in their buffers. -/
theorem completeBuf_laden (hel : Element s.buf s.cfg.txBufs q bf)
    (hwf : s.ledger.WF ⟨s.ledger.subframes bf, [], l⟩) (h : Laden s)
    (hcomp : completeBuf s bf = some s') : Laden s' := by
  have hflags : (s.ds (s.buf bf).bfLastds).dsTxstat.tsFlags = halTxSwFiltered →
      ∀ k ∈ keyOf (s.buf bf), (s.buf bf).bfComp = some .aggr →
        (s.tid k).cleanupInprogres = true := by
    intro hfiltered k hk haggr
    by_contra hc
    simp only [completeBuf, haggr, tidOf_eq, Option.mem_def.mp hk, Option.bind_some] at hcomp
    rw [athTgtTxCompAggr] at hcomp
    dsimp only at hcomp
    rw [if_neg hc, if_pos hfiltered] at hcomp
    cases hcomp
  obtain ⟨s'', hcomp', hdone⟩ := completeBuf_total hel hwf h hflags
  obtain rfl := Option.some_inj.mp (hcomp.symm.trans hcomp')
  rcases hdone with heases | ⟨heases, -⟩
  · exact heases.laden h
  · exact heases.laden h

theorem processqRound_laden {state : TxqState} {answer : Option TxStat} {more : Bool}
    (hwf : s.ledger.WF ⟨[], [], l⟩) (hoff : s.ledger.Off)
    (hsettled : ∀ bf k, processed q state answer s = some bf → (s.buf bf).bfComp = some .aggr →
      keyOf (s.buf bf) = some k → Settled s k (s.subframes bf).length) (h : Laden s)
    (hround : processqRound q state answer s = some (s', more)) : Laden s' := by
  rw [processqRound] at hround
  cases hq : (s.txq q).axqQ with
  | nil =>
      rw [hq] at hround
      obtain ⟨rfl, -⟩ := Prod.mk.inj (Option.some_inj.mp hround)
      exact h.of_eq rfl rfl
  | cons bf es =>
      rw [hq] at hround
      dsimp only at hround
      split at hround
      · obtain ⟨rfl, -⟩ := Prod.mk.inj (Option.some_inj.mp hround)
        exact h
      · rename_i hbusy
        have hproc : processed q state answer s = some bf := by
          rw [processed, if_neg hbusy, hq]
          rfl
        obtain ⟨s₂, hcomp, hround⟩ := Option.bind_eq_some_iff.mp hround
        obtain ⟨s₃, hsched, hpair⟩ := Option.map_eq_some_iff.mp hround
        obtain ⟨rfl, -⟩ := Prod.mk.inj hpair
        set s₁ := s.modDs (s.buf bf).bfLastds fun ds =>
          { ds with dsTxstat := procStatus state answer ds.dsTxstat }
        have hel := hwf.onHw q bf (show bf ∈ (s.txq q).axqQ from hq ▸ List.mem_cons_self)
        have hpop := Track.pop (G := fun _ _ _ => True) hwf
          (show s.ledger.hwq q = bf :: es from hq)
        have hledger : (txqRemoveHead s₁ q).ledger = s.ledger.setHwq q es :=
          ledger_txqRemoveHead (s := s₁) hq
        have hheld : Eases 0 s (txqRemoveHead s₁ q) := .of_eq rfl rfl
        have hladen : Laden s₂ := completeBuf_laden (s := txqRemoveHead s₁ q) (l := l) hel
          (by rw [hledger]; exact hpop.wf) (hheld.laden h) hcomp
        split at hsched
        · have hhead := Track.completeHead (G := fun _ _ _ => True) (s := s₁) hwf hoff hq rfl
            (fun k hc hk => hsettled bf k hproc hc hk) (fun _ _ _ _ => trivial)
            (fun _ _ _ _ => trivial) (fun _ _ _ _ _ => trivial) hcomp
          obtain ⟨s₄, hsched', hstill⟩ := athTgtTxqSchedule_total (WF.aggregates hhead.wf) q
          obtain rfl := Option.some_inj.mp (hsched.symm.trans hsched')
          exact hstill.eases.laden hladen
        · obtain rfl := Option.some_inj.mp hsched
          exact hladen

/-- Every event leaves each frame with its host buffer. -/
theorem step_laden {lost : Multiset BufId} (hfine : Fine sc lost) (hsettles : Settles sc e)
    (h : Laden sc.tx) (hstep : step e sc = some sc') : Laden sc'.tx := by
  cases e with
  | recvData endpt dh frame =>
      exact recvData_laden (arrive sc frame) hfine.wf (h.of_eq rfl rfl) hstep
  | recvMgmt endpt mh frame =>
      exact recvMgmt_laden (arrive sc frame) hfine.wf (h.of_eq rfl rfl) hstep
  | processq q state answer =>
      obtain ⟨⟨s, more⟩, hround, rfl⟩ := Option.map_eq_some_iff.mp hstep
      exact processqRound_laden hfine.wf hfine.off (fun bf k hp hc hk => hsettles bf hp hc k hk) h
        hround
  | statusSend =>
      obtain rfl := Option.some_inj.mp hstep
      have hledger := ledger_athTxStatusSend sc.tx
      exact h.of_eq (congrArg Ledger.buf hledger :) (congrArg Ledger.held hledger :)
  | drainTidq q =>
      obtain ⟨s, hdrain, rfl⟩ := Option.map_eq_some_iff.mp hstep
      rw [drainTidq] at hdrain
      split at hdrain
      · rename_i k _ _ _
        have hremoved : Laden (tidqRemoveHead sc.tx q k) := Still.tidqRemoveHead.eases.laden h
        obtain ⟨s', hdrain', heases⟩ := athTgtTidDrain_total (k := k) hremoved
        obtain rfl := Option.some_inj.mp (hdrain.symm.trans hdrain')
        exact heases.laden hremoved
      · cases hdrain
  | enableAggr nodeindex tidno enable =>
      rw [step, athEnableAggrTgt] at hstep
      split at hstep
      · split at hstep
        · rename_i hn ht
          dsimp only at hstep
          set k : TidId := (⟨nodeindex, hn⟩, ⟨tidno, ht⟩)
          split at hstep
          · obtain rfl := Option.some_inj.mp hstep
            exact h
          · split at hstep
            · obtain rfl := Option.some_inj.mp hstep
              exact h.of_eq rfl rfl
            · split at hstep
              · obtain ⟨s, hclean, rfl⟩ := Option.map_eq_some_iff.mp hstep
                have hstopped := (Eases.modTid sc.tx k fun tid =>
                  { tid with aggrEnabled := false }).laden h
                obtain ⟨s', hclean', heases, -⟩ := athTgtTxCleanup_total (k := k) hstopped
                obtain rfl := Option.some_inj.mp (hclean.symm.trans hclean')
                exact heases.laden hstopped
              · obtain rfl := Option.some_inj.mp hstep
                exact h
        · obtain rfl := Option.some_inj.mp hstep
          exact h
      · obtain rfl := Option.some_inj.mp hstep
        exact h
  | nodeCreate cmd =>
      rw [step, athNodeCreateTgt] at hstep
      split at hstep
      · split at hstep
        · cases hstep
        · obtain rfl := Option.some_inj.mp hstep
          exact h.of_eq rfl rfl
      · cases hstep
  | nodeCleanup nodeIndex =>
      rw [step, athNodeCleanupTgt] at hstep
      split at hstep
      · obtain rfl := Option.some_inj.mp hstep
        exact h
      · cases hstep
  | nodeUpdate cmd =>
      rw [step, athNodeUpdateTgt] at hstep
      split at hstep
      · obtain rfl := Option.some_inj.mp hstep
        exact h.of_eq rfl rfl
      · cases hstep
  | _ =>
      obtain rfl := Option.some_inj.mp hstep
      exact h.of_eq rfl rfl

/-! ## The drain -/

theorem laden_attach (cfg : Config) (rateAnswers : ℕ → RateAnswer) (h : 0 < cfg.txBufs) :
    Laden (attach cfg rateAnswers).tx where
  held := by
    refine ⟨0, ?_, rfl⟩
    show (List.range cfg.txBufs).head? = some 0
    rw [List.head?_range, if_neg (Nat.ne_of_gt h)]
  carries _ := TxBuf.carries_idle rfl
  finite := by
    convert Set.finite_empty
    exact Set.eq_empty_of_forall_notMem fun b hb => hb rfl

/-- A completed aggregation frame is counted by its TID or still has aggregation, and no TID is
initialised while it is scheduled. -/
def Tidy (sc : Softc) (e : Event) : Prop := Settles sc e ∧ InitsUnscheduled sc e

instance (sc : Softc) (e : Event) : Decidable (Tidy sc e) :=
  inferInstanceAs (Decidable (_ ∧ _))

theorem owltgtTxProcessq_eq (q : QueueId) (state : TxqState) :
    owltgtTxProcessq q state = Rounds.loop (processqRound q state) := by
  funext answers
  induction answers with
  | nil => rfl
  | cons answer answers ih =>
      funext s
      rw [owltgtTxProcessq, Rounds.loop, ih]

/-- The last round of a drain finds the queue empty. -/
theorem stoppedRound_last {answer : Option TxStat}
    (h : processqRound q .stopped answer s = some (s', false)) : (s'.txq q).axqQ = [] := by
  rw [processqRound] at h
  split at h
  · obtain ⟨rfl, -⟩ := Prod.mk.inj (Option.some_inj.mp h)
    show (Function.update s.txq q _ q).axqQ = []
    rw [Function.update_self]
    assumption
  · split at h
    · rename_i hbusy
      cases hbusy.2
    · obtain ⟨_, -, h⟩ := Option.bind_eq_some_iff.mp h
      obtain ⟨_, -, hpair⟩ := Option.map_eq_some_iff.mp h
      cases hpair

/-- The rounds of a drain are events of the machine. -/
theorem step_stoppedRound {answer : Option TxStat} {more : Bool}
    (h : processqRound q .stopped answer s = some (s', more)) :
    step (.processq q .stopped answer) { sc with tx := s } = some { sc with tx := s' } := by
  rw [step]
  dsimp only
  rw [h]
  rfl

/-- In every state that the machine reaches without initialising a scheduled TID and without
completing an aggregation frame that its TID has given up, the drain of a hardware queue
returns, as long as this is so in its own rounds too, and has emptied the queue. -/
theorem drain_returns (h : transmit.ReachableWhere Tidy sc) (q : QueueId)
    (answers : ℕ → Option TxStat) (hans : ∀ n, Plain (answers n))
    (htidy : ∀ n s, Rounds.start (processqRound q .stopped) answers n sc.tx = some s →
      Tidy { sc with tx := s } (.processq q .stopped (answers n))) :
    ∃ n s', owltgtTxProcessq q .stopped ((List.range n).map answers) sc.tx = some s' ∧
      (s'.txq q).axqQ = [] := by
  have hinv : ∃ lost, Fine sc lost ∧ Laden sc.tx := by
    refine h.invariant (P := fun sc => ∃ lost, Fine sc lost ∧ Laden sc.tx) ?_ ?_
    · rintro _ ⟨cfg, rateAnswers, hpos, rfl⟩
      exact ⟨0, fine_attach cfg rateAnswers, laden_attach cfg rateAnswers hpos⟩
    · rintro sc e sc' ⟨lost, hfine, hladen⟩ ⟨hsettles, -⟩ hstep
      exact ⟨_, step_fine hfine hsettles hstep, step_laden hfine hsettles hladen hstep⟩
  obtain ⟨n, s', hloop⟩ := Rounds.loop_returns less_wf (fun s => s.toCome q)
    (fun s => ∃ lost, Fine { sc with tx := s } lost ∧ Laden s)
    (fun answer s => Plain answer ∧
      Settles { sc with tx := s } (.processq q .stopped answer))
    (fun answer s hinv hok => by
      obtain ⟨lost, hfine, hladen⟩ := hinv
      obtain ⟨s', more, hround, hmore⟩ := stoppedRound_total hfine.wf hladen hok.1
      refine ⟨s', more, hround, fun hagain => ?_⟩
      obtain ⟨hladen', hless⟩ := hmore hagain
      exact ⟨⟨_, step_fine hfine hok.2 (step_stoppedRound hround), hladen'⟩, hless⟩)
    hinv fun n s hs => ⟨hans n, (htidy n s hs).1⟩
  refine ⟨n, s', ?_, ?_⟩
  · rw [owltgtTxProcessq_eq]
    exact hloop
  · refine Rounds.loop_rule (fun _ => True) (fun s => (s.txq q).axqQ = []) ?_ trivial hloop
    intro answer s s' more _ hround
    cases more with
    | true => trivial
    | false => exact stoppedRound_last hround

/-- Two subframes of an aggregate are on their way when the hardware is stopped. -/
def stoppedEvents : List Event :=
  [.icUpdate 65535 false, .nodeCreate (createNode 0), .enableAggr 0 0 true,
    .recvData 0 (dataTo 0) blankFrame, .recvData 0 (dataTo 0) blankFrame,
    .recvData 0 (dataTo 0) blankFrame, .processq 0 .active sent]

theorem drain_returns_aggregate : ∃ sc : Softc, (sc.tx.txq 0).axqQ = [2] ∧
    (sc.tx.buf 2).bfNext = some 3 ∧
    ∃ n s', owltgtTxProcessq 0 .stopped ((List.range n).map fun _ => none) sc.tx = some s' ∧
      (s'.txq 0).axqQ = [] := by
  obtain ⟨sc, steps, haxq, hnext, htidy, hend⟩ := Machine.exists_of_runWhere transmit.Init step Tidy
    (P := fun sc : Softc => (sc.tx.txq 0).axqQ = [2] ∧ (sc.tx.buf 2).bfNext = some 3 ∧
      ((List.range 2).all fun n =>
        (Rounds.start (processqRound 0 .stopped) (fun _ => none) n sc.tx).all fun s =>
          decide (Tidy { sc with tx := s } (.processq 0 .stopped none))) = true ∧
      (Rounds.start (processqRound 0 .stopped) (fun _ => none) 2 sc.tx).isNone = true)
    (s := attach smallConfig steadyAnswers) stoppedEvents (by decide +kernel)
  refine ⟨sc, haxq, hnext, drain_returns ⟨_, ⟨_, _, by decide, rfl⟩, steps⟩ 0 (fun _ => none)
    (fun _ stat hstat => by cases hstat) fun n s hs => ?_⟩
  rcases Nat.lt_or_ge n 2 with hn | hn
  · have hround := List.all_eq_true.mp htidy n (List.mem_range.mpr hn)
    exact of_decide_eq_true ((Option.all_eq_true _ _).mp hround s hs)
  · have hnone := Rounds.start_none (Option.isNone_iff_eq_none.mp hend) hn
    rw [hnone] at hs
    cases hs

/-- The node is created again while the aggregate is on its way, which turns aggregation off;
what is left of it is sent by itself and still points to a buffer that is no longer its own. -/
theorem drain_faults : ¬ ∀ sc, transmit.Reachable sc → ∀ (q : QueueId)
    (answers : ℕ → Option TxStat), (∀ n, Plain (answers n)) →
      ∃ n s', owltgtTxProcessq q .stopped ((List.range n).map answers) sc.tx = some s' := by
  intro h
  obtain ⟨sc, steps, hfault⟩ := Machine.exists_of_runWhere transmit.Init step (fun _ _ => True)
    (P := fun sc : Softc => (processqRound 0 .stopped none sc.tx).isNone = true)
    (s := attach smallConfig steadyAnswers)
    (stoppedEvents ++ [.nodeCreate (createNode 0), .processq 0 .active failed])
    (by decide +kernel)
  obtain ⟨n, s', hreturns⟩ := h sc ⟨_, ⟨_, _, by decide, rfl⟩, steps⟩ 0 (fun _ => none)
    fun _ stat hstat => by cases hstat
  cases n with
  | zero => cases hreturns
  | succ n =>
      rw [List.range_succ_eq_map, List.map_cons, owltgtTxProcessq,
        Option.isNone_iff_eq_none.mp hfault] at hreturns
      cases hreturns

end Ath9kHtc.Tx
