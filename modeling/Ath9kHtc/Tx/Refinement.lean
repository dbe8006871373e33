import Ath9kHtc.Tx.Arrivals
import Ath9kHtc.Tx.System

/-!
# The transmit path refines the sessions of its TIDs

Every step of the transmit path loses no buffer beside those of `lostBy`, and takes the session
of every TID through actions of the abstract machine.
-/

namespace Ath9kHtc.Tx

open Ledger

variable {G : TidId → Session → Action → Prop} {s s' : TxState} {sc sc' : Softc} {k : TidId}
  {q : QueueId} {bf : BufId} {l : Multiset BufId}

/-- The session of a TID between two handlers. -/
def TxState.view (s : TxState) (k : TidId) : Session := s.ledger.view {} k

theorem TxState.view_eq (s : TxState) (k : TidId) (l : Multiset BufId) :
    s.ledger.view ⟨[], [], l⟩ k = s.view k := rfl

/-! ## One round of a hardware queue -/

/-- What the completion of the first element of a queue may do to its TID, beside what is
always safe. -/
inductive CompletionRisk (s : TxState) (bf : BufId) (stat : TxStat) (k : TidId) :
    Action → Prop
  | other : (s.buf bf).bfComp = some .normal → (s.tid k).cleanupInprogres = true →
      CompletionRisk s bf stat k .completeOther
  | resume : (s.buf bf).bfComp = some .bar → stat.tsStatus &&& halTxerrXretry = 0 →
      CompletionRisk s bf stat k .resume
  | teardown : (s.buf bf).bfComp = some .bar → stat.tsStatus &&& halTxerrXretry ≠ 0 →
      owlmaxBarRetries ≤ (s.buf bf).bfRetries → CompletionRisk s bf stat k .teardown
  | single : (s.buf bf).bfComp = some .aggr → (s.buf bf).bfIsaggr = false →
      (s.tid k).cleanupInprogres = true →
      CompletionRisk s bf stat k (.completeSingle (frameOf (s.buf bf)))

/-- A subframe of an aggregate of `n` completes during a cleanup. -/
structure SubframeRisk (s : TxState) (bf : BufId) (k : TidId) (v : Session) : Prop where
  comp : (s.buf bf).bfComp = some .aggr
  aggr : (s.buf bf).bfIsaggr = true
  cleanup : (s.tid k).cleanupInprogres = true
  reinit : v.reinit = (s.tid k).reinitializeFlag
  last : v.incomp = 1 → (s.tid k).incomp = (s.subframes bf).length

theorem ledger_txqRemoveHead {es : List BufId} (h : (s.txq q).axqQ = bf :: es) :
    (txqRemoveHead s q).ledger = s.ledger.setHwq q es := by
  rw [txqRemoveHead, TxState.ledger_modTxq_axqQ _ _ rfl, h]
  rfl

/-- The completion of the first element of a queue. -/
theorem Track.completeHead {es : List BufId} {stat : TxStat} (hwf : s.ledger.WF ⟨[], [], l⟩)
    (hoff : s.ledger.Off) (hq : (s.txq q).axqQ = bf :: es)
    (hstat : (s.ds (s.buf bf).bfLastds).dsTxstat = stat)
    (hsettled : ∀ k, (s.buf bf).bfComp = some .aggr → keyOf (s.buf bf) = some k →
      Settled s k (s.subframes bf).length)
    (hsafe : ∀ k v a, Action.Safe a → G k v a)
    (hrisk : ∀ k a, keyOf (s.buf bf) = some k → CompletionRisk s bf stat k a → G k (s.view k) a)
    (hsub : ∀ k v f, keyOf (s.buf bf) = some k → SubframeRisk s bf k v →
      G k v (.completeSubframe f))
    (h : completeBuf (txqRemoveHead s q) bf = some s') :
    Track G s.ledger ⟨[], [], l⟩ s'.ledger ⟨[], [], spill s bf + l⟩ := by
  have hledger := ledger_txqRemoveHead (s := s) (q := q) hq
  have hel : Element s.ledger.buf s.ledger.txBufs q bf :=
    hwf.onHw q bf (show bf ∈ (s.txq q).axqQ from hq ▸ List.mem_cons_self)
  have hpop := Track.pop (G := G) hwf (show s.ledger.hwq q = bf :: es from hq)
  have hsame : ∀ k, (txqRemoveHead s q).ledger.view
      ⟨s.ledger.subframes bf, [], l⟩ k = s.view k := by
    intro k
    have hpop := Track.pop (G := fun _ _ _ => False) hwf (show s.ledger.hwq q = bf :: es from hq)
    rw [hledger]
    exact (hpop.runs k).eq_of_never
  have halone : (s.buf bf).bfComp ≠ some .aggr → ∀ k,
      (txqRemoveHead s q).ledger.view ⟨[], [], bf ::ₘ l⟩ k = s.view k := by
    intro hcomp k
    have hnext : (s.buf bf).bfNext = none := by
      rcases hel.kind with ⟨-, hnext⟩ | ⟨k, -, halone⟩ | ⟨k, -, hair, -⟩
      · exact hnext
      · exact halone.next
      · exact absurd (hair bf hel.mem_subframes).comp hcomp
    have hlt : bf < s.ledger.txBufs := by
      apply hwf.lt
      refine Multiset.mem_add.mpr (.inr (mem_places.mpr (.inr (.inr (.inr ?_)))))
      exact mem_onHw.mpr ⟨q, bf, show bf ∈ (s.txq q).axqQ from hq ▸ List.mem_cons_self,
        hel.mem_subframes⟩
    have hone : s.ledger.subframes bf = [bf] := subframesOf_of_next hlt hnext
    rw [← hsame k, hledger, hone]
    have hwf' := hpop.wf
    rw [hone] at hwf'
    have hloose := Track.loosen (G := fun _ _ _ => False) hwf' fun k =>
      airFrame_of_comp_ne (k := k) (b := s.buf bf) hcomp
    exact (hloose.runs k).eq_of_never
  rw [← hledger] at hpop
  refine hpop.trans (completeBuf_spec (s := txqRemoveHead s q) hel hpop.wf (hpop.off hoff)
    hsettled hsafe (fun k hk => ⟨?_, ?_, ?_, ?_, ?_⟩) h)
  · intro hcomp hc
    rw [halone (by rw [show (s.buf bf).bfComp = _ from hcomp]; exact nofun)]
    exact hrisk k _ hk (.other hcomp hc)
  · intro hcomp hok
    rw [halone (by rw [show (s.buf bf).bfComp = _ from hcomp]; exact nofun)]
    exact hrisk k _ hk (.resume hcomp (hstat ▸ hok))
  · intro hcomp hxretry hmax
    rw [halone (by rw [show (s.buf bf).bfComp = _ from hcomp]; exact nofun)]
    exact hrisk k _ hk (.teardown hcomp (hstat ▸ hxretry) hmax)
  · intro v f hcomp hre hlast haggr hc
    exact hsub k v f hk ⟨hcomp, haggr, hc, hre, hlast⟩
  · intro hcomp haggr hc
    have hview : (txqRemoveHead s q).ledger.view
        ⟨(txqRemoveHead s q).ledger.subframes bf, [], l⟩ k = s.view k := by
      rw [show (txqRemoveHead s q).ledger.subframes bf = s.ledger.subframes bf from rfl]
      exact hsame k
    rw [hview]
    exact hrisk k _ hk (.single hcomp haggr hc)

/-- The element that a round of `owltgt_tx_processq` completes. -/
def processed (q : QueueId) (state : TxqState) (answer : Option TxStat) (s : TxState) :
    Option BufId :=
  if answer = none ∧ state = .active then none else (s.txq q).axqQ.head?

/-- The status with which a round completes it. -/
def completedStat (state : TxqState) (answer : Option TxStat) (s : TxState) (bf : BufId) :
    TxStat :=
  procStatus state answer (s.ds (s.buf bf).bfLastds).dsTxstat

/-- What a round loses. -/
def spilledBy (q : QueueId) (state : TxqState) (answer : Option TxStat) (s : TxState) :
    Multiset BufId :=
  match processed q state answer s with
  | none => 0
  | some bf => spill s bf

theorem Track.processqRound {state : TxqState} {answer : Option TxStat} {more : Bool}
    (hwf : s.ledger.WF ⟨[], [], l⟩) (hoff : s.ledger.Off)
    (hsettled : ∀ bf k, processed q state answer s = some bf → (s.buf bf).bfComp = some .aggr →
      keyOf (s.buf bf) = some k → Settled s k (s.subframes bf).length)
    (hsafe : ∀ k v a, Action.Safe a → G k v a)
    (hrisk : ∀ bf k a, processed q state answer s = some bf → keyOf (s.buf bf) = some k →
      CompletionRisk s bf (completedStat state answer s bf) k a → G k (s.view k) a)
    (hsub : ∀ bf k v f, processed q state answer s = some bf → keyOf (s.buf bf) = some k →
      SubframeRisk s bf k v → G k v (.completeSubframe f))
    (h : processqRound q state answer s = some (s', more)) :
    Track G s.ledger ⟨[], [], l⟩ s'.ledger ⟨[], [], spilledBy q state answer s + l⟩ := by
  rw [Tx.processqRound] at h
  cases hq : (s.txq q).axqQ with
  | nil =>
      rw [hq] at h
      obtain ⟨rfl, -⟩ := Prod.mk.inj (Option.some_inj.mp h)
      have hnone : processed q state answer s = none := by
        rw [processed, hq]
        exact ite_self _
      rw [spilledBy, hnone, zero_add, TxState.ledger_modTxq_axqQ _ _ rfl]
      show Track G _ _ (s.ledger.setHwq q (s.ledger.hwq q)) _
      rw [Ledger.setHwq_self]
      exact .refl hwf
  | cons bf es =>
      rw [hq] at h
      dsimp only at h
      split at h
      · rename_i hbusy
        obtain ⟨rfl, -⟩ := Prod.mk.inj (Option.some_inj.mp h)
        rw [spilledBy, processed, if_pos hbusy, zero_add]
        exact .refl hwf
      · rename_i hbusy
        have hproc : processed q state answer s = some bf := by
          rw [processed, if_neg hbusy, hq]
          rfl
        rw [spilledBy, hproc]
        obtain ⟨s₁, hcomp, h⟩ := Option.bind_eq_some_iff.mp h
        obtain ⟨s₂, hsched, hpair⟩ := Option.map_eq_some_iff.mp h
        obtain ⟨rfl, -⟩ := Prod.mk.inj hpair
        have hstat : ((s.modDs (s.buf bf).bfLastds fun ds =>
            { ds with dsTxstat := procStatus state answer ds.dsTxstat }).ds
              (s.buf bf).bfLastds).dsTxstat = completedStat state answer s bf := by
          show (Function.update s.ds _ _ _).dsTxstat = _
          rw [Function.update_self]
          rfl
        have hhead := Track.completeHead (G := G) (s := s.modDs (s.buf bf).bfLastds fun ds =>
            { ds with dsTxstat := procStatus state answer ds.dsTxstat }) hwf hoff hq hstat
          (fun k hc hk => hsettled bf k hproc hc hk) hsafe
          (fun k a hk hr => by
            refine hrisk bf k a hproc hk ?_
            cases hr with
            | other h h' => exact .other h h'
            | resume h h' => exact .resume h h'
            | teardown h h' h'' => exact .teardown h h' h''
            | single h h' h'' => exact .single h h' h'')
          (fun k v f hk hr => hsub bf k v f hproc hk ⟨hr.comp, hr.aggr, hr.cleanup, hr.reinit,
            hr.last⟩) hcomp
        split at hsched
        · exact hhead.trans (athTgtTxqSchedule_spec hsafe hhead.wf (hhead.off hoff) hsched).track
        · obtain rfl := Option.some_inj.mp hsched
          exact hhead

/-! ## Commands -/

/-- The buffers a TID loses when its node is created. -/
def dropped (tid : Tid) : Multiset BufId := if tid.cleanupInprogres then 0 else tid.bufQ

theorem Ledger.view_setTid_of_ne {L : Ledger} {k' : TidId} {tid : Tid} {h h' : Hand}
    (hne : k' ≠ k) (hrest : h'.rest = h.rest) (hpend : h'.pend = h.pend) :
    (L.setTid k tid).view h' k' = L.view h k' := by
  have htid : (L.setTid k tid).tid k' = L.tid k' := Function.update_of_ne hne ..
  rw [view, waiting, htid, hrest, hpend]
  rfl

theorem Track.nodeInitTid (hwf : s.ledger.WF ⟨[], [], l⟩) (hsafe : ∀ k v a, Action.Safe a → G k v a)
    (hok : (s.tid k).cleanupInprogres = false → G k (s.view k) .init) :
    Track G s.ledger ⟨[], [], l⟩ (s.modTid k nodeInitTid).ledger
      ⟨[], [], dropped (s.tid k) + l⟩ := by
  cases hc : (s.tid k).cleanupInprogres with
  | true =>
      have hinit : s.modTid k Tx.nodeInitTid =
          s.modTid k fun tid => { tid with reinitializeFlag := true } :=
        modTid_congr (by rw [Tx.nodeInitTid, if_pos hc])
      rw [dropped, hc, if_pos rfl, zero_add, hinit]
      apply Track.modTid hwf rfl id
      exact Session.single (a := .postpone) hc (hsafe _ _ _ trivial)
  | false =>
      have hinit : s.modTid k Tx.nodeInitTid = s.modTid k owlTgtTidInit :=
        modTid_congr (by rw [Tx.nodeInitTid, hc]; rfl)
      rw [dropped, hc, if_neg (by decide), hinit, TxState.ledger_modTid]
      apply Track.setTid hwf
      · show Hand.all ⟨[], [], (s.tid k).bufQ + l⟩ + (([] : List BufId) : Multiset BufId) =
          Hand.all ⟨[], [], l⟩ + ((s.tid k).bufQ : Multiset BufId)
        simp only [Hand.all, Multiset.coe_nil]
        abel
      · exact fun b hb => by cases hb
      · exact fun _ _ => rfl
      · exact fun _ _ => ⟨rfl, rfl⟩
      · exact Session.single (a := .init) ⟨hc, rfl⟩ (hok hc)

/-- The TIDs of a node, initialised one after the other. -/
def nodeInitTids (s : TxState) (ni : NodeId) (ts : List TidNo) : TxState :=
  ts.foldl (fun s t => s.modTid (ni, t) nodeInitTid) s

theorem nodeInitTids_eq {ni : NodeId} {ts : List TidNo} (hnodup : ts.Nodup) :
    nodeInitTids s ni ts = { s with
      tid := fun k => if k.1 = ni ∧ k.2 ∈ ts then nodeInitTid (s.tid k) else s.tid k } := by
  induction ts generalizing s with
  | nil => simp [nodeInitTids]
  | cons t ts ih =>
      obtain ⟨hnot, hnodup⟩ := List.nodup_cons.mp hnodup
      show nodeInitTids (s.modTid (ni, t) nodeInitTid) ni ts = _
      rw [ih hnodup]
      show ({ s with tid := _ } : TxState) = { s with tid := _ }
      congr 1
      funext k
      show (if k.1 = ni ∧ k.2 ∈ ts then nodeInitTid (Function.update s.tid (ni, t) _ k)
        else Function.update s.tid (ni, t) _ k) = _
      rcases eq_or_ne k (ni, t) with rfl | hne
      · rw [if_neg fun hin => hnot hin.2, if_pos ⟨rfl, List.mem_cons_self⟩, Function.update_self]
      · rw [Function.update_of_ne hne]
        have hiff : k.1 = ni ∧ k.2 ∈ ts ↔ k.1 = ni ∧ k.2 ∈ t :: ts := by
          refine and_congr_right fun hni => ?_
          rw [List.mem_cons]
          refine ⟨.inr, fun h => h.resolve_left fun ht => hne (Prod.ext hni ht)⟩
        simp only [hiff]

theorem owlTgtNodeInit_eq (s : TxState) (ni : NodeId) :
    owlTgtNodeInit s ni = nodeInitTids s ni (List.finRange 8) := by
  rw [nodeInitTids_eq (List.nodup_finRange 8)]
  simp [owlTgtNodeInit]

theorem Track.nodeInitTids {ni : NodeId} {ts : List TidNo} (hnodup : ts.Nodup)
    (hwf : s.ledger.WF ⟨[], [], l⟩) (hsafe : ∀ k v a, Action.Safe a → G k v a)
    (hok : ∀ t ∈ ts, (s.tid (ni, t)).cleanupInprogres = false → G (ni, t) (s.view (ni, t)) .init) :
    Track G s.ledger ⟨[], [], l⟩ (nodeInitTids s ni ts).ledger
      ⟨[], [], (ts.map fun t => dropped (s.tid (ni, t))).sum + l⟩ := by
  induction ts generalizing s l with
  | nil =>
      rw [List.map_nil, List.sum_nil, zero_add]
      exact .refl hwf
  | cons t ts ih =>
      obtain ⟨hnot, hnodup⟩ := List.nodup_cons.mp hnodup
      have hfirst := Track.nodeInitTid (k := (ni, t)) hwf hsafe (hok t List.mem_cons_self)
      have hothers : ∀ t' ∈ ts, (ni, t') ≠ (ni, t) := fun t' ht' heq =>
        hnot ((Prod.mk.inj heq).2 ▸ ht')
      have htid : ∀ t' ∈ ts, (s.modTid (ni, t) Tx.nodeInitTid).tid (ni, t') = s.tid (ni, t') :=
        fun t' ht' => s.modTid_tid_of_ne _ _ (hothers t' ht')
      have hrest := ih hnodup hfirst.wf fun t' ht' hc => by
        rw [htid t' ht'] at hc
        have hview : (s.modTid (ni, t) Tx.nodeInitTid).view (ni, t') = s.view (ni, t') := by
          rw [TxState.view, TxState.ledger_modTid, view_setTid_of_ne (hothers t' ht') rfl rfl]
          rfl
        rw [hview]
        exact hok t' (List.mem_cons_of_mem _ ht') hc
      have hsum : (ts.map fun t' => dropped ((s.modTid (ni, t) Tx.nodeInitTid).tid (ni, t'))) =
          ts.map fun t' => dropped (s.tid (ni, t')) :=
        List.map_congr_left fun t' ht' => by rw [htid t' ht']
      rw [hsum] at hrest
      refine hfirst.trans ?_
      rw [List.map_cons, List.sum_cons, add_assoc, add_left_comm]
      exact hrest

/-- Where a hardware queue is empty, its TIDs have no frame in the air. -/
theorem hwAir_of_nil (hwf : s.ledger.WF ⟨[], [], l⟩) (hq : (s.txq (tidToActxq k.2)).axqQ = []) :
    s.ledger.hwAir k = 0 := by
  apply Multiset.eq_zero_of_forall_notMem
  intro f hf
  obtain ⟨b, hb, hair⟩ := (Multiset.mem_filterMap _ _).mp hf
  obtain ⟨q, e, he, hb⟩ := mem_onHw.mp hb
  have hel := hwf.onHw q e he
  have hboth : (s.buf b).bfComp = some .aggr ∧ keyOf (s.buf b) = some k := by
    by_contra hnot
    have hair : airFrame k (s.buf b) = some f := hair
    rw [airFrame, if_neg hnot] at hair
    cases hair
  have hlt : e < s.ledger.txBufs := by
    apply hwf.lt
    refine Multiset.mem_add.mpr (.inr (mem_places.mpr (.inr (.inr (.inr ?_)))))
    exact mem_onHw.mpr ⟨q, e, he, hel.mem_subframes⟩
  rcases hel.kind with ⟨hcomp, hnext⟩ | ⟨k', -, halone⟩ | ⟨k', hq', hall, -⟩
  · rw [Ledger.subframes, subframesOf_of_next hlt hnext, List.mem_singleton] at hb
    rw [hb] at hboth
    cases hcomp.symm.trans hboth.1
  · rw [Ledger.subframes, subframesOf_of_next hlt halone.next, List.mem_singleton] at hb
    rw [hb] at hboth
    rcases halone.comp with hcomp | hcomp <;> cases hcomp.symm.trans hboth.1
  · have hk : k' = k := Option.some_inj.mp ((hall b hb).key.symm.trans hboth.2)
    rw [← hq', hk] at he
    have he : e ∈ (s.txq (tidToActxq k.2)).axqQ := he
    rw [hq] at he
    cases he

theorem Track.drainTidq (hwf : s.ledger.WF ⟨[], [], l⟩)
    (hok : ∀ k, (s.txq q).axqTidq.head? = some k → G k (s.view k) .drain)
    (h : drainTidq q s = some s') :
    Track G s.ledger ⟨[], [], l⟩ s'.ledger ⟨[], [], l⟩ := by
  rw [Tx.drainTidq] at h
  split at h
  · rename_i k ks hnil hks
    have hfiled : tidToActxq k.2 = q :=
      hwf.filed q k (show k ∈ (s.txq q).axqTidq from hks ▸ List.mem_cons_self)
    have hremove := Track.tidqRemoveHead (G := G) (q := q) (k := k) hwf
    have hsame : ((Tx.tidqRemoveHead s q k).txq (tidToActxq k.2)).axqQ = [] := by
      rw [hfiled]
      show (Function.update s.txq q _ q).axqQ = []
      rw [Function.update_self]
      exact hnil
    have hview : (Tx.tidqRemoveHead s q k).view k = s.view k := by
      have hnone := Track.tidqRemoveHead (G := fun _ _ _ => False) (q := q) (k := k) hwf
      exact (hnone.runs k).eq_of_never
    refine hremove.trans (.drain hremove.wf (hwAir_of_nil hremove.wf hsame) ?_ h)
    show G k ((Tx.tidqRemoveHead s q k).view k) .drain
    rw [hview]
    exact hok k (by rw [hks]; rfl)
  · cases h

/-! ## What every session keeps -/

namespace Session

variable {v v' : Session}

/-- A TID that was never initialised has had no frame in its window. -/
def Raw (v : Session) : Prop :=
  v.bawSize = 64 ∨ v.aggr = false ∧ v.cleanup = false ∧ v.queue = [] ∧ v.pend = [] ∧ v.air = 0 ∧
    v.win.head = v.win.tail

theorem cleanUp_of_empty (hc : v.cleanup = false) (hq : v.queue = [])
    (hwin : v.win.head = v.win.tail) :
    v.cleanUp.cleanup = false ∧ v.cleanUp.win.head = v.cleanUp.win.tail := by
  have hflush : (discard v.win v.queue).flush 4096 128 128 = (0, v.win) := by
    rw [hq, discard, SlidingWindow.flush, if_pos hwin]
  rw [cleanUp, hflush, hc]
  exact ⟨rfl, hwin⟩

theorem sendQueued_cases {P : Session → Prop} (hnil : P v)
    (hsend : ∀ f queue, P ({ v with queue := queue }.launch f)) : P (v.act .sendQueued) := by
  dsimp only [act]
  split
  · exact hnil
  · exact hsend _ _

theorem completed_cases {P : Session → Prop} (hdown : P v.countDown)
    (hreset : P v.countDown.reset) (hend : P v.countDown.endCleanup) : P v.completed := by
  rw [completed]
  split
  · exact hdown
  · split
    · exact hreset
    · exact hend

theorem completedSubframe_cases {P : Session → Prop} (hdown : P v.countDown)
    (hend : P v.countDown.endCleanup) : P v.completedSubframe := by
  rw [completedSubframe]
  split
  · exact hend
  · exact hdown

theorem bawSize_act (h : v.bawSize = 64) (a : Action) : (v.act a).bawSize = 64 := by
  cases a with
  | sendQueued => exact sendQueued_cases (P := fun v => v.bawSize = 64) h fun _ _ => h
  | completeSingle f => exact completed_cases (P := fun v => v.bawSize = 64) h rfl h
  | completeSubframe f => exact completedSubframe_cases (P := fun v => v.bawSize = 64) h h
  | completeOther => exact completed_cases (P := fun v => v.bawSize = 64) h rfl h
  | init => rfl
  | _ => exact h

/-- The host buffer that gets a number by an action. -/
def issuedTag : Action → Option SkbId
  | .sendNormal skb _ | .sendDirect skb _ | .enqueue skb _ => some skb
  | _ => none

theorem mem_act_issued {a : Action} {i : Issue} (h : i ∈ (v.act a).issued) :
    i ∈ v.issued ∨ issuedTag a = some i.skb := by
  cases a with
  | sendNormal skb more | sendDirect skb more | enqueue skb more =>
      rcases List.mem_cons.mp (show i ∈ ⟨v.seqNext, skb, more⟩ :: v.issued from h) with rfl | h
      · exact .inr rfl
      · exact .inl h
  | sendQueued =>
      left
      revert h
      exact sendQueued_cases (P := fun w => i ∈ w.issued → i ∈ v.issued) id fun _ _ => id
  | completeSingle f =>
      left
      revert h
      exact completed_cases (P := fun w => i ∈ w.issued → i ∈ v.issued) id (fun h => by cases h) id
  | completeSubframe f =>
      left
      revert h
      exact completedSubframe_cases (P := fun w => i ∈ w.issued → i ∈ v.issued) id id
  | completeOther =>
      left
      revert h
      exact completed_cases (P := fun w => i ∈ w.issued → i ∈ v.issued) id (fun h => by cases h) id
  | init => cases h
  | _ => exact .inl h

theorem Raw.act {a : Action} (h : v.Raw) (hcan : v.Can a) : (v.act a).Raw := by
  rcases h with hbaw | ⟨haggr, hc, hq, hp, hair, hwin⟩
  · exact .inl (bawSize_act hbaw a)
  · have hoff : v.aggr ≠ true := by
      rw [haggr]
      decide
    have hquiet : v.cleanup ≠ true := by
      rw [hc]
      decide
    have hempty : ∀ f, f ∉ v.air := fun f => by
      rw [hair]
      exact Multiset.notMem_zero f
    cases a with
    | sendNormal skb more => exact .inr ⟨haggr, hc, hq, hp, hair, hwin⟩
    | sendDirect skb more => exact absurd hcan.1 hoff
    | enqueue skb more => exact absurd hcan.1 hoff
    | sendQueued => exact absurd hcan.1 hoff
    | retire f => exact absurd hcan.2 (hempty f)
    | retry f => exact absurd hcan.2.2 (hempty f)
    | prepend =>
        refine .inr ⟨haggr, hc, ?_, rfl, hair, hwin⟩
        show v.pend ++ v.queue = []
        rw [hp, hq]
        rfl
    | pause => exact .inr ⟨haggr, hc, hq, hp, hair, hwin⟩
    | resume => exact .inr ⟨haggr, hc, hq, hp, hair, hwin⟩
    | completeSingle f => exact absurd hcan.1 hquiet
    | completeSubframe f => exact absurd hcan.1 hquiet
    | completeOther => exact absurd hcan hquiet
    | enable => exact .inl hcan
    | disable => exact absurd hcan.1 hoff
    | teardown =>
        obtain ⟨hc', hwin'⟩ := cleanUp_of_empty (v := v.stopAggr) hc hq hwin
        exact .inr ⟨rfl, hc', rfl, hp, hair, rfl⟩
    | drain => exact .inr ⟨haggr, hc, rfl, hp, hair, rfl⟩
    | init => exact .inl rfl
    | postpone => exact absurd hcan hquiet

/-- What a set of actions keeps, their steps keep. -/
theorem steps_invariant {G : Session → Action → Prop} {P : Session → Prop}
    (h : ∀ v a, P v → G v a → v.Can a → P (v.act a)) (hP : P v)
    (steps : session.StepsWhere G v v') : P v' := by
  induction steps with
  | refl => exact hP
  | tail _ last ih =>
      obtain ⟨a, hok, hcan, rfl⟩ := last
      exact h _ a ih hok hcan

end Session

/-! ## The machine -/

/-- What an event may do to the session `v` of a TID, beside what is always safe. -/
inductive Risk (sc : Softc) : Event → TidId → Session → Action → Prop
  | send {endpt : EndpointId} {dh : DataHdr} {frame : Nbuf} {k : TidId} {a : Action} :
      athTgtFindNode sc dh.niIndex = some (some k.1) → dh.tidno = k.2 →
      Sends (sc.tx.tid k) sc.skbs (isMoreFrag frame) a →
      Risk sc (.recvData endpt dh frame) k (sc.tx.view k) a
  | complete {q : QueueId} {state : TxqState} {answer : Option TxStat} {bf : BufId} {k : TidId}
      {a : Action} : processed q state answer sc.tx = some bf → keyOf (sc.tx.buf bf) = some k →
      CompletionRisk sc.tx bf (completedStat state answer sc.tx bf) k a →
      Risk sc (.processq q state answer) k (sc.tx.view k) a
  | subframe {q : QueueId} {state : TxqState} {answer : Option TxStat} {bf : BufId} {k : TidId}
      {v : Session} {f : Frame} : processed q state answer sc.tx = some bf →
      keyOf (sc.tx.buf bf) = some k → SubframeRisk sc.tx bf k v →
      Risk sc (.processq q state answer) k v (.completeSubframe f)
  | drain {q : QueueId} {k : TidId} : (sc.tx.txq q).axqTidq.head? = some k →
      Risk sc (.drainTidq q) k (sc.tx.view k) .drain
  | disable {k : TidId} : (sc.tx.tid k).aggrEnabled = true →
      Risk sc (.enableAggr k.1 k.2 false) k (sc.tx.view k) .disable
  | init {cmd : NodeCmd} {k : TidId} : cmd.niNodeindex = k.1 →
      (sc.tx.tid k).cleanupInprogres = false →
      Risk sc (.nodeCreate cmd) k (sc.tx.view k) .init

/-- What an event does to the sessions. -/
def Allowed (sc : Softc) (e : Event) (k : TidId) (v : Session) (a : Action) : Prop :=
  a.Safe ∨ Risk sc e k v a

/-- The buffers an event loses. -/
def lostBy (sc : Softc) : Event → Multiset BufId
  | .recvMgmt _ mh _ => leaked sc mh
  | .processq q state answer => spilledBy q state answer sc.tx
  | .nodeCreate cmd =>
    if h : cmd.niNodeindex < 8 then
      ((List.finRange 8).map fun t => dropped (sc.tx.tid (⟨cmd.niNodeindex, h⟩, t))).sum
    else 0
  | _ => 0

/-- The TID of a completed aggregation frame counts it, or still has aggregation. -/
def Settles (sc : Softc) : Event → Prop
  | .processq q state answer =>
    ∀ bf ∈ processed q state answer sc.tx, (sc.tx.buf bf).bfComp = some .aggr →
      ∀ k ∈ keyOf (sc.tx.buf bf), Settled sc.tx k (sc.tx.subframes bf).length
  | _ => True

instance (s : TxState) (k : TidId) (n : ℕ) : Decidable (Settled s k n) :=
  inferInstanceAs (Decidable (ite _ (_ ∧ _) _))

instance (sc : Softc) (e : Event) : Decidable (Settles sc e) :=
  match e with
  | .processq q state answer =>
    inferInstanceAs (Decidable (∀ bf ∈ processed q state answer sc.tx, _ → _))
  | .recvData .. | .recvMgmt .. | .statusClear | .statusSend | .drainStart | .drainTidq .. |
    .drainEnd | .enableAggr .. | .nodeCreate .. | .nodeCleanup .. | .nodeUpdate .. |
    .icUpdate .. => inferInstanceAs (Decidable True)

/-- The transmit path between two handlers, `lost` being the buffers lost so far. -/
structure Fine (sc : Softc) (lost : Multiset BufId) : Prop where
  wf : sc.tx.ledger.WF ⟨[], [], lost⟩
  off : sc.tx.ledger.Off
  ready : ∀ k : TidId, (sc.scSta k.1).anValid = true → (sc.tx.tid k).bawSize = 64
  tagged : ∀ k, ∀ i ∈ (sc.tx.tid k).issued, i.skb < sc.skbs
  raw : ∀ k, (sc.tx.view k).Raw

theorem safe_allowed (sc : Softc) (e : Event) (k : TidId) (v : Session) (a : Action)
    (h : a.Safe) : Allowed sc e k v a := .inl h

theorem Track.of_none {L L' : Ledger} {h : Hand} (t : Track G L h L' ⟨[], [], l⟩) :
    Track G L h L' ⟨[], [], 0 + l⟩ := by
  rwa [zero_add]

/-- What an event does to the buffers and the sessions. -/
theorem step_track {e : Event} {lost : Multiset BufId} (hfine : Fine sc lost)
    (hsettles : Settles sc e) (h : step e sc = some sc') :
    Track (Allowed sc e) sc.tx.ledger ⟨[], [], lost⟩ sc'.tx.ledger
      ⟨[], [], lostBy sc e + lost⟩ := by
  have hwf := hfine.wf
  have hsafe := safe_allowed sc e
  cases e with
  | recvData endpt dh frame =>
      apply Track.of_none
      have hnbuf : (arrive sc frame).tx.nbuf sc.skbs = frame := Function.update_self ..
      refine Track.tgtHtcRecvMessageHandler (arrive sc frame) hwf ?_ ?_ h
      · exact fun k i hi => (hfine.tagged k i hi).ne
      · intro k a hfind htid hsends
        rw [hnbuf] at hsends
        exact .inr (.send hfind htid hsends)
  | recvMgmt endpt mh frame => exact Track.athTgtSendMgt (arrive sc frame) hwf h
  | processq q state answer =>
      obtain ⟨⟨s, more⟩, hround, rfl⟩ := Option.map_eq_some_iff.mp h
      exact Track.processqRound hwf hfine.off (fun bf k hp hc hk => hsettles bf hp hc k hk) hsafe
        (fun bf k a hp hk hr => .inr (.complete hp hk hr))
        (fun bf k v f hp hk hr => .inr (.subframe hp hk hr)) hround
  | statusClear =>
      obtain rfl := Option.some_inj.mp h
      apply Track.of_none
      exact .refl hwf
  | statusSend =>
      obtain rfl := Option.some_inj.mp h
      apply Track.of_none
      show Track _ _ _ (athTxStatusSend sc.tx).ledger _
      rw [ledger_athTxStatusSend]
      exact .refl hwf
  | drainStart =>
      obtain rfl := Option.some_inj.mp h
      apply Track.of_none
      exact .refl hwf
  | drainTidq q =>
      obtain ⟨s, hdrain, rfl⟩ := Option.map_eq_some_iff.mp h
      apply Track.of_none
      exact Track.drainTidq hwf (fun k hk => .inr (.drain hk)) hdrain
  | drainEnd =>
      obtain rfl := Option.some_inj.mp h
      apply Track.of_none
      exact .refl hwf
  | enableAggr nodeindex tidno enable =>
      apply Track.of_none
      rw [step, athEnableAggrTgt] at h
      split at h
      · rename_i hn
        split at h
        · rename_i ht
          dsimp only at h
          set k : TidId := (⟨nodeindex, hn⟩, ⟨tidno, ht⟩)
          split at h
          · obtain rfl := Option.some_inj.mp h
            exact .refl hwf
          · rename_i hvalid
            have hvalid : (sc.scSta k.1).anValid = true := by simpa using hvalid
            split at h
            · obtain rfl := Option.some_inj.mp h
              refine Track.modTid hwf rfl (fun hf => by cases hf) ?_
              exact Session.single (a := .enable) (hfine.ready k hvalid) (hsafe _ _ _ trivial)
            · rename_i henable
              obtain rfl : enable = false := by simpa using henable
              split at h
              · rename_i haggr
                obtain ⟨s, hclean, rfl⟩ := Option.map_eq_some_iff.mp h
                refine Track.disable hwf haggr (.inr ?_) hclean
                exact Risk.disable (k := k) haggr
              · obtain rfl := Option.some_inj.mp h
                exact .refl hwf
        · obtain rfl := Option.some_inj.mp h
          exact .refl hwf
      · obtain rfl := Option.some_inj.mp h
        exact .refl hwf
  | nodeCreate cmd =>
      rw [step, athNodeCreateTgt] at h
      split at h
      · rename_i hni
        split at h
        · cases h
        · obtain rfl := Option.some_inj.mp h
          rw [lostBy, dif_pos hni]
          show Track _ _ _ (owlTgtNodeInit (setMaxampdu sc.tx _ _) _).ledger _
          rw [owlTgtNodeInit_eq]
          refine Track.nodeInitTids (s := setMaxampdu sc.tx ⟨cmd.niNodeindex, hni⟩ cmd.niMaxampdu)
            (List.nodup_finRange 8) hwf hsafe fun t _ hc => ?_
          exact .inr (.init rfl hc)
      · cases h
  | nodeCleanup nodeIndex =>
      apply Track.of_none
      rw [step, athNodeCleanupTgt] at h
      split at h
      · obtain rfl := Option.some_inj.mp h
        exact .refl hwf
      · cases h
  | nodeUpdate cmd =>
      apply Track.of_none
      rw [step, athNodeUpdateTgt] at h
      split at h
      · obtain rfl := Option.some_inj.mp h
        exact .refl hwf
      · cases h
  | icUpdate ampduLimit enableCoex =>
      obtain rfl := Option.some_inj.mp h
      apply Track.of_none
      exact .refl hwf

/-! ## What a run keeps -/

theorem encapFrame_scSta (sc : Softc) (ni : NodeId) (skb : SkbId) (keytype : KeyType)
    (ni' : NodeId) :
    ((encapFrame sc ni skb keytype).scSta ni').anValid = (sc.scSta ni').anValid ∧
      (encapFrame sc ni skb keytype).skbs = sc.skbs := by
  rw [encapFrame]
  dsimp only
  split
  · refine ⟨?_, rfl⟩
    show (Function.update sc.scSta ni _ ni').anValid = _
    rcases eq_or_ne ni' ni with rfl | hne
    · rw [Function.update_self]
    · rw [Function.update_of_ne hne]
  · exact ⟨rfl, rfl⟩

theorem modSta_anValid {f : Node → Node} (hf : ∀ node, (f node).anValid = node.anValid)
    (sc : Softc) (ni ni' : NodeId) :
    ((sc.modSta ni f).scSta ni').anValid = (sc.scSta ni').anValid := by
  show (Function.update sc.scSta ni _ ni').anValid = _
  rcases eq_or_ne ni' ni with rfl | hne
  · rw [Function.update_self, hf]
  · rw [Function.update_of_ne hne]

theorem prepareBuf_scSta (sc : Softc) (k : TidId) (dh : DataHdr) (skb : SkbId) (bf : BufId)
    (s : TxState) (ni' : NodeId) :
    ((prepareBuf sc k dh skb bf s).scSta ni').anValid = (sc.scSta ni').anValid ∧
      (prepareBuf sc k dh skb bf s).skbs = sc.skbs := by
  rw [prepareBuf]
  refine ⟨(encapFrame_scSta _ _ _ _ _).1.trans ?_, (encapFrame_scSta _ _ _ _ ni').2⟩
  exact modSta_anValid (f := fun node =>
    { node with niTxseqmgmt := (node.niTxseqmgmt + 1) % ieee80211SeqMax }) (fun _ => rfl) sc k.1 ni'

theorem tgtHtcRecvMessageHandler_scSta {endpt : EndpointId} {skb : SkbId} {dh : DataHdr}
    (h : tgtHtcRecvMessageHandler sc endpt skb dh = some sc') (ni' : NodeId) :
    (sc'.scSta ni').anValid = (sc.scSta ni').anValid ∧ sc'.skbs = sc.skbs := by
  obtain ⟨⟨prepared, sc₁⟩, hprep, rfl⟩ := Option.map_eq_some_iff.mp h
  rw [athTgtTxPrepare] at hprep
  obtain ⟨found, -, hprep⟩ := Option.bind_eq_some_iff.mp hprep
  cases found with
  | none =>
      obtain ⟨rfl, rfl⟩ := Prod.mk.inj (Option.some_inj.mp hprep)
      exact ⟨rfl, rfl⟩
  | some ni =>
      dsimp only at hprep
      split at hprep
      · split at hprep
        · obtain ⟨rfl, rfl⟩ := Prod.mk.inj (Option.some_inj.mp hprep)
          exact ⟨rfl, rfl⟩
        · obtain ⟨⟨bf, s⟩, -, hpair⟩ := Option.map_eq_some_iff.mp hprep
          obtain ⟨rfl, rfl⟩ := Prod.mk.inj hpair
          exact prepareBuf_scSta ..
      · cases hprep

theorem athTgtSendMgt_scSta {endpt : EndpointId} {skb : SkbId} {mh : MgtHdr}
    (h : athTgtSendMgt sc endpt skb mh = some sc') (ni' : NodeId) :
    (sc'.scSta ni').anValid = (sc.scSta ni').anValid ∧ sc'.skbs = sc.skbs := by
  rw [athTgtSendMgt] at h
  split at h
  · obtain rfl := Option.some_inj.mp h
    exact ⟨rfl, rfl⟩
  · obtain ⟨found, -, rfl⟩ := Option.map_eq_some_iff.mp h
    cases found with
    | none => exact ⟨rfl, rfl⟩
    | some ni =>
        refine ⟨?_, rfl⟩
        exact modSta_anValid (f := fun node =>
          { node with niTxseqmgmt := (node.niTxseqmgmt + 1) % ieee80211SeqMax })
          (fun _ => rfl) sc ni ni'

/-- The host buffers an event uses up. -/
def Event.tags : Event → ℕ
  | .recvData .. | .recvMgmt .. => 1
  | _ => 0

/-- The events beside those of the host's frames leave the number of host buffers alone, and
only the creation of a node makes it valid. -/
theorem step_scSta {e : Event} (h : step e sc = some sc') :
    sc'.skbs = sc.skbs + e.tags ∧ ∀ ni, (sc'.scSta ni).anValid = true →
      (sc.scSta ni).anValid = true ∨ ∃ cmd, e = .nodeCreate cmd ∧ cmd.niNodeindex = ni := by
  cases e with
  | recvData endpt dh frame =>
      refine ⟨(tgtHtcRecvMessageHandler_scSta h 0).2, fun ni hni => .inl ?_⟩
      rwa [(tgtHtcRecvMessageHandler_scSta h ni).1] at hni
  | recvMgmt endpt mh frame =>
      refine ⟨(athTgtSendMgt_scSta h 0).2, fun ni hni => .inl ?_⟩
      rwa [(athTgtSendMgt_scSta h ni).1] at hni
  | processq q state answer =>
      obtain ⟨_, _, rfl⟩ := Option.map_eq_some_iff.mp h
      exact ⟨rfl, fun _ => .inl⟩
  | drainTidq q =>
      obtain ⟨_, _, rfl⟩ := Option.map_eq_some_iff.mp h
      exact ⟨rfl, fun _ => .inl⟩
  | enableAggr nodeindex tidno enable =>
      rw [step, athEnableAggrTgt] at h
      dsimp only at h
      split at h
      · split at h
        · split at h
          · obtain rfl := Option.some_inj.mp h
            exact ⟨rfl, fun _ => .inl⟩
          · split at h
            · obtain rfl := Option.some_inj.mp h
              exact ⟨rfl, fun _ => .inl⟩
            · split at h
              · obtain ⟨_, _, rfl⟩ := Option.map_eq_some_iff.mp h
                exact ⟨rfl, fun _ => .inl⟩
              · obtain rfl := Option.some_inj.mp h
                exact ⟨rfl, fun _ => .inl⟩
        · obtain rfl := Option.some_inj.mp h
          exact ⟨rfl, fun _ => .inl⟩
      · obtain rfl := Option.some_inj.mp h
        exact ⟨rfl, fun _ => .inl⟩
  | nodeCreate cmd =>
      rw [step, athNodeCreateTgt] at h
      split at h
      · rename_i hlt
        split at h
        · cases h
        · obtain rfl := Option.some_inj.mp h
          refine ⟨rfl, fun ni hni => ?_⟩
          by_cases heq : ni = ⟨cmd.niNodeindex, hlt⟩
          · exact .inr ⟨cmd, rfl, by rw [heq]⟩
          · left
            change (Function.update sc.scSta _ _ ni).anValid = true at hni
            rwa [Function.update_of_ne heq] at hni
      · cases h
  | nodeCleanup nodeIndex =>
      rw [step, athNodeCleanupTgt] at h
      split at h
      · rename_i hlt
        obtain rfl := Option.some_inj.mp h
        refine ⟨rfl, fun ni hni => .inl ?_⟩
        by_cases heq : ni = ⟨nodeIndex, hlt⟩
        · rw [heq] at hni
          change (Function.update sc.scSta _ _ _).anValid = true at hni
          rw [Function.update_self] at hni
          cases hni
        · change (Function.update sc.scSta _ _ ni).anValid = true at hni
          rwa [Function.update_of_ne heq] at hni
      · cases h
  | nodeUpdate cmd =>
      rw [step, athNodeUpdateTgt] at h
      split at h
      · obtain rfl := Option.some_inj.mp h
        refine ⟨rfl, fun ni hni => .inl ?_⟩
        rwa [← modSta_anValid (f := fun node =>
          { node with niVap := true, niTxseqmgmt := 0, pn := ⟨0, 0⟩ }) (fun _ => rfl)]
      · cases h
  | _ =>
      obtain rfl := Option.some_inj.mp h
      exact ⟨rfl, fun _ => .inl⟩

/-- The frames an event gives a number to carry its host buffer. -/
theorem Allowed.tag {e : Event} {v : Session} {a : Action} {skb : SkbId} (h : Allowed sc e k v a)
    (htag : Session.issuedTag a = some skb) : skb = sc.skbs ∧ e.tags = 1 := by
  rcases h with hsafe | hrisk
  · cases a <;> first | exact False.elim hsafe | cases htag
  · cases hrisk with
    | send _ _ hsends =>
        rcases hsends with ⟨-, rfl⟩ | ⟨-, rfl | rfl⟩
        all_goals
          cases htag
          exact ⟨rfl, rfl⟩
    | complete _ _ hcomp => cases hcomp <;> cases htag
    | _ => cases htag

theorem step_fine {e : Event} {lost : Multiset BufId} (hfine : Fine sc lost)
    (hsettles : Settles sc e) (h : step e sc = some sc') : Fine sc' (lostBy sc e + lost) := by
  have htrack := step_track hfine hsettles h
  obtain ⟨hskbs, hvalid⟩ := step_scSta h
  have hraw : ∀ k, (sc'.tx.view k).Raw := fun k =>
    Session.steps_invariant (fun v a hv _ hcan => hv.act hcan) (hfine.raw k) (htrack.runs k)
  refine ⟨htrack.wf, htrack.off hfine.off, fun k hk => ?_, fun k => ?_, hraw⟩
  · rcases hvalid k.1 hk with hold | ⟨cmd, rfl, hni⟩
    · exact Session.steps_invariant (P := fun v => v.bawSize = 64)
        (fun v a hv _ _ => Session.bawSize_act hv a) (hfine.ready k hold) (htrack.runs k)
    · rw [step, athNodeCreateTgt] at h
      split at h
      · rename_i hlt
        split at h
        · cases h
        · obtain rfl := Option.some_inj.mp h
          show (if k.1 = ⟨cmd.niNodeindex, hlt⟩ then nodeInitTid (sc.tx.tid k)
            else sc.tx.tid k).bawSize = 64
          rw [if_pos (Fin.ext hni.symm), nodeInitTid]
          split
          · rename_i hc
            exact (hfine.raw k).resolve_right fun hraw => absurd (hc.symm.trans hraw.2.1) (by decide)
          · rfl
      · cases h
  · have hissued : ∀ i ∈ (sc'.tx.view k).issued, i.skb < sc'.skbs := by
      refine Session.steps_invariant (G := Allowed sc e k)
        (P := fun v => ∀ i ∈ v.issued, i.skb < sc'.skbs) ?_ ?_ (htrack.runs k)
      · intro v a hv hok _ i hi
        rcases Session.mem_act_issued hi with hi | htag
        · exact hv i hi
        · rw [hskbs, (hok.tag htag).1, (hok.tag htag).2]
          exact Nat.lt_succ_self _
      · intro i hi
        rw [hskbs]
        exact Nat.lt_add_right _ (hfine.tagged k i hi)
    exact hissued

theorem total_attach (cfg : Config) (rateAnswers : ℕ → RateAnswer) :
    (attach cfg rateAnswers).tx.ledger.total {} = Multiset.range cfg.txBufs := by
  have hqueued : (attach cfg rateAnswers).tx.ledger.queued = 0 := gather_nil
  have honHw : (attach cfg rateAnswers).tx.ledger.onHw = 0 := gather_nil
  rw [Ledger.total, places, hqueued, honHw]
  show 0 + 0 + 0 + (↑(List.range cfg.txBufs).tail + ↑(List.range cfg.txBufs).head?.toList + 0 + 0 :
    Multiset ℕ) = _
  rw [Multiset.range]
  cases List.range cfg.txBufs with
  | nil => rfl
  | cons b bs =>
      simp only [add_zero, zero_add]
      rw [add_comm]
      rfl

theorem wf_attach (cfg : Config) (rateAnswers : ℕ → RateAnswer) :
    (attach cfg rateAnswers).tx.ledger.WF {} where
  nodup := by
    rw [total_attach]
    exact Multiset.nodup_range _
  lt := by
    rw [total_attach]
    exact fun b => Multiset.mem_range.mp
  clean_free := fun _ _ => ⟨rfl, rfl, rfl, rfl, rfl⟩
  clean_held := fun _ _ => ⟨rfl, rfl, rfl, rfl, rfl⟩
  queued := fun _ _ hb => nomatch hb
  onHw := fun _ _ he => nomatch he
  filed := fun _ _ hk => nomatch hk

/-- The transmit path starts without a loss. -/
theorem fine_attach (cfg : Config) (rateAnswers : ℕ → RateAnswer) :
    Fine (attach cfg rateAnswers) 0 where
  wf := wf_attach cfg rateAnswers
  off := fun _ _ => rfl
  ready := fun _ => nofun
  tagged := fun _ _ hi => nomatch hi
  raw := fun k => by
    refine .inr ⟨rfl, rfl, rfl, rfl, ?_, rfl⟩
    rw [TxState.view, view_idle]
    exact hwAir_of_nil (wf_attach cfg rateAnswers) rfl

theorem view_attach (cfg : Config) (rateAnswers : ℕ → RateAnswer) (k : TidId) :
    session.Init ((attach cfg rateAnswers).tx.view k) := by
  have hair : (attach cfg rateAnswers).tx.ledger.hwAir k = 0 :=
    hwAir_of_nil (wf_attach cfg rateAnswers) rfl
  show _ = _
  rw [TxState.view, view_idle, hair]
  rfl

end Ath9kHtc.Tx
