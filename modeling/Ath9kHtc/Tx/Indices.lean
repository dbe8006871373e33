import Ath9kHtc.Tx.VapIndex

/-!
# Indices from the host

Data, management and beacon frames and the aggregation command name a station, a TID or an
interface by an index.  Every handler checks other ones of them.
-/

namespace Ath9kHtc.Tx

def targetNodeMax : ℕ := 8
def targetVapMax : ℕ := 2
def wmeNumTid : ℕ := 8
def wmeNumAc : ℕ := 4

/-! ## References -/

/-- The address of an element of a table of `ath_softc_tgt`, inside the table or not. -/
inductive TableRef
  | scSta (nodeIndex : ℕ)
  | tid (tidno : ℕ)
  | scVap (vapIndex : ℕ)
  | scAc2q (ac : ℕ)
  deriving DecidableEq, Repr

def TableRef.Inside : TableRef → Prop
  | .scSta nodeIndex => nodeIndex < targetNodeMax
  | .tid tidno => tidno < wmeNumTid
  | .scVap vapIndex => vapIndex < targetVapMax
  | .scAc2q ac => ac < wmeNumAc

/-- `TID_TO_WME_AC`, for any byte. -/
def tidToWmeAc (tidno : ℕ) : ℕ :=
  if tidno = 0 ∨ tidno = 3 then 0
  else if tidno = 1 ∨ tidno = 2 then 1
  else if tidno = 4 ∨ tidno = 5 then 2
  else 3

/-- What the code can look up by what a buffer holds, whenever it does: the TID and its queue when
the frame completes or is scheduled, the interface when a multicast frame is sent. -/
def storedRefs (b : TxBuf) : List TableRef :=
  [.tid b.bfTidno, .scAc2q (tidToWmeAc b.bfTidno), .scVap b.vapIndex]

/-- `ath_tgt_find_node` -/
def findNodeRefs (nodeIndex : ℕ) : List TableRef :=
  if 8 < nodeIndex then [] else [.scSta nodeIndex]

/-- `ath_tgt_tx_send_normal` -/
def sendNormalRefs (b : TxBuf) : List TableRef :=
  if b.bfIsmcast then [.scVap b.vapIndex] else []

/-- `ath_tgt_tx_prepare` of a frame whose node has been found. -/
def prepareRefs (s : TxState) (ni : NodeId) (tidno : ℕ) : List TableRef :=
  .tid tidno ::
    if h : tidno < 8 then
      if (s.tid (ni, ⟨tidno, h⟩)).reinitializeFlag then [] else [.scAc2q (tidToWmeAc tidno)]
    else []

/-- What `tgt_HTCRecvMessageHandler` does with a prepared frame. -/
def sendPreparedRefs (s : TxState) (k : TidId) (dh : DataHdr) (bf : BufId) : List TableRef :=
  let s := s.modBuf bf fun b => { b with vapIndex := dh.vapIndex }
  if (s.tid k).aggrEnabled ∧ queueFrame s k bf then [] else sendNormalRefs (s.buf bf)

/-- `tgt_HTCRecvMessageHandler`: the station and the TID are looked up before any check. -/
def recvDataRefs (sc : Softc) (skb : SkbId) (dh : DataHdr) : List TableRef :=
  [.scSta dh.niIndex, .tid dh.tidno] ++ findNodeRefs dh.niIndex ++
    (match athTgtFindNode sc dh.niIndex with
      | some (some ni) => prepareRefs sc.tx ni dh.tidno
      | _ => []) ++
    match athTgtTxPrepare sc skb dh with
    | some (some (k, bf), sc) => sendPreparedRefs sc.tx k dh bf
    | _ => []

/-- `ath_tgt_send_mgt` -/
def sendMgtRefs (sc : Softc) (mh : MgtHdr) : List TableRef :=
  match sc.tx.scTxbuf with
  | [] => []
  | _ :: _ =>
    findNodeRefs mh.niIndex ++
      match athTgtFindNode sc mh.niIndex with
      | some (some _) => [.scVap mh.vapIndex]
      | _ => []

/-- `ath_enable_aggr_tgt` -/
def enableAggrRefs (sc : Softc) (nodeindex tidno : ℕ) : List TableRef :=
  if h : nodeindex < 8 then
    .scSta nodeindex ::
      if (sc.scSta ⟨nodeindex, h⟩).anValid ∧ tidno < 8 then [.tid tidno] else []
  else []

/-! ## Beacons -/

abbrev BcId := ℕ

/-- `ath_vap_target` -/
structure VapTarget where
  avValid : Bool := false
  avBcbuf : Option BcId := none

/-- A buffer of `sc_bbuf`, with the length and the rate of its descriptor. -/
structure BcBuf where
  bfSkb : Option SkbId := none
  bfEndpt : EndpointId := 0
  pktLen : ℕ := 0
  txRate : BitVec 8 := 0

/-- The part of `ath_softc_tgt` that frames from the host reach; `txdp` is the buffer the beacon
queue sends. -/
structure Target where
  sc : Softc
  scVap : Fin 2 → VapTarget
  scBbuf : List BcId
  bcbuf : BcId → BcBuf
  txdp : Option BcId

/-- What `ath_tgt_send_beacon` and `ath_beacon_setup` put into the buffer. -/
def fillBeacon (sc : Softc) (endpt : EndpointId) (vapIndex : ℕ) (skb : SkbId) : BcBuf where
  bfSkb := some skb
  bfEndpt := endpt
  pktLen := (sc.tx.nbuf skb).len + 4
  txRate := sc.tx.cfg.rateCode (sc.tx.cfg.minrateidx vapIndex)

def returnBuffer (sc : Softc) (endpt : EndpointId) (skb : SkbId) : Softc :=
  { sc with tx := sc.tx.emit (.returnBuffers endpt skb) }

/-- `ath_tgt_send_beacon`; an index outside the table fails an assertion, which never returns. -/
def athTgtSendBeacon (t : Target) (endpt : EndpointId) (vapIndex : ℕ) (skb : SkbId) :
    Option Target :=
  if h : vapIndex < 2 then
    (t.scVap ⟨vapIndex, h⟩).avBcbuf.map fun bf =>
      { t with
        sc := (t.bcbuf bf).bfSkb.elim t.sc (returnBuffer t.sc endpt)
        bcbuf := Function.update t.bcbuf bf (fillBeacon t.sc endpt vapIndex skb)
        txdp := some bf }
  else none

def sendBeaconRefs (vapIndex : ℕ) : List TableRef :=
  if vapIndex < 2 then [.scVap vapIndex] else []

/-! ## Requests of the host -/

/-- An event of the transmit path, a beacon, or what happens to an interface.  The nodes
`ath_vap_delete_tgt` invalidates have cleanup events of their own. -/
inductive Request
  | tx (e : Event)
  | recvBeacon (endpt : EndpointId) (vapIndex : ℕ) (frame : Nbuf)
  | vapCreate (vapIndex : ℕ)
  | vapDelete (vapIndex : ℕ)

/-- `ath_vap_create_tgt`, `ath_vap_delete_tgt`: an index outside the table overwrites other
memory. -/
def setVap (t : Target) (vapIndex : ℕ) (f : VapTarget → Option VapTarget) : Option Target :=
  if h : vapIndex < 2 then
    (f (t.scVap ⟨vapIndex, h⟩)).map fun avp =>
      { t with scVap := Function.update t.scVap ⟨vapIndex, h⟩ avp }
  else none

def serve : Request → Target → Option Target
  | .tx e, t => (step e t.sc).map fun sc => { t with sc := sc }
  | .recvBeacon endpt vapIndex frame, t =>
    athTgtSendBeacon { t with sc := arrive t.sc frame } endpt vapIndex t.sc.skbs
  | .vapCreate vapIndex, t =>
    setVap t vapIndex fun avp => if avp.avValid then none else some ⟨true, t.scBbuf.head?⟩
  | .vapDelete vapIndex, t => setVap t vapIndex fun _ => some {}

def target : Machine Target Request :=
  .ofPartial (fun t => ∃ cfg rateAnswers bcbufs, 0 < cfg.txBufs ∧
    t = ⟨attach cfg rateAnswers, fun _ => {}, bcbufs, fun _ => {}, none⟩) serve

/-- The references the handler of a request forms itself. -/
def requestRefs (t : Target) : Request → List TableRef
  | .tx (.recvData _ dh frame) => recvDataRefs (arrive t.sc frame) t.sc.skbs dh
  | .tx (.recvMgmt _ mh _) => sendMgtRefs t.sc mh
  | .tx (.enableAggr nodeindex tidno _) => enableAggrRefs t.sc nodeindex tidno
  | .recvBeacon _ vapIndex _ => sendBeaconRefs vapIndex
  | _ => []

/-- Whether a frame or an aggregation command has an index outside its table. -/
def OutOfRange : Request → Prop
  | .tx (.recvData _ dh _) =>
    targetNodeMax ≤ dh.niIndex ∨ wmeNumTid ≤ dh.tidno ∨ targetVapMax ≤ dh.vapIndex
  | .tx (.recvMgmt _ mh _) => targetNodeMax ≤ mh.niIndex ∨ targetVapMax ≤ mh.vapIndex
  | .tx (.enableAggr nodeindex tidno _) => targetNodeMax ≤ nodeindex ∨ wmeNumTid ≤ tidno
  | .recvBeacon _ vapIndex _ => targetVapMax ≤ vapIndex
  | _ => False

/-- The target with the host's buffer returned, and nothing else done. -/
def rejected (t : Target) : Request → Target
  | .tx (.recvData endpt _ frame) | .tx (.recvMgmt endpt _ frame) | .recvBeacon endpt _ frame =>
    { t with sc := returnBuffer (arrive t.sc frame) endpt t.sc.skbs }
  | _ => t

/-- A request forms no reference outside the tables, and is rejected when it has an index
outside. -/
structure IndexSafe (t : Target) (r : Request) : Prop where
  inside : ∀ ref ∈ requestRefs t r, ref.Inside
  rejects : OutOfRange r → serve r t = some (rejected t r)

/-! ## What is checked -/

/-- Whether data frames of a TID are taken: its node is there, and the TID is not about to be
initialised. -/
def Admits (sc : Softc) (k : TidId) : Prop :=
  ((sc.scSta k.1).anValid ∧ (sc.scSta k.1).niVap) ∧ (sc.tx.tid k).reinitializeFlag = false

instance (sc : Softc) (k : TidId) : Decidable (Admits sc k) := inferInstanceAs (Decidable (_ ∧ _))

/-- The indices that no handler checks are inside their tables, or the frame is turned down for
another reason before they are used. -/
def Indexed (t : Target) : Request → Prop
  | .tx (.recvData _ dh _) =>
    ∃ (hn : dh.niIndex < 8) (ht : dh.tidno < 8),
      dh.vapIndex < 2 ∨ ¬Admits t.sc (⟨dh.niIndex, hn⟩, ⟨dh.tidno, ht⟩)
  | .tx (.recvMgmt _ mh _) => t.sc.tx.scTxbuf = [] ∨ mh.niIndex < 8 ∧ mh.vapIndex < 2
  | .recvBeacon _ vapIndex _ => vapIndex < 2
  | _ => True

instance (t : Target) (r : Request) : Decidable (Indexed t r) :=
  match r with
  | .tx (.recvData _ dh _) =>
    inferInstanceAs (Decidable (∃ (_ : dh.niIndex < 8) (_ : dh.tidno < 8), dh.vapIndex < 2 ∨ _))
  | .tx (.recvMgmt _ mh _) =>
    inferInstanceAs (Decidable (t.sc.tx.scTxbuf = [] ∨ mh.niIndex < 8 ∧ mh.vapIndex < 2))
  | .recvBeacon _ vapIndex _ => inferInstanceAs (Decidable (vapIndex < 2))
  | .vapCreate _ | .vapDelete _ | .tx (.processq ..) | .tx .statusClear | .tx .statusSend |
    .tx .drainStart | .tx (.drainTidq _) | .tx .drainEnd | .tx (.enableAggr ..) |
    .tx (.nodeCreate _) | .tx (.nodeCleanup _) | .tx (.nodeUpdate _) | .tx (.icUpdate ..) =>
    inferInstanceAs (Decidable True)

variable {t t' : Target} {sc sc' : Softc} {r : Request} {dh : DataHdr} {mh : MgtHdr}
  {endpt : EndpointId} {frame : Nbuf} {skb : SkbId} {ni : NodeId} {k : TidId} {bf : BufId}
  {s : TxState} {n tidno : ℕ}

theorem tidToWmeAc_lt (tidno : ℕ) : tidToWmeAc tidno < wmeNumAc := by
  rw [tidToWmeAc, wmeNumAc]
  split_ifs <;> omega

theorem tidToWmeAc_eq (tidno : TidNo) : tidToWmeAc tidno = tidToActxq tidno := by
  decide +revert

theorem findNodeRefs_inside (hn : n < 8) : ∀ ref ∈ findNodeRefs n, ref.Inside := by
  rw [findNodeRefs, if_neg (by omega)]
  intro ref href
  rw [List.mem_singleton.mp href]
  exact hn

theorem sendNormalRefs_inside {b : TxBuf} (h : b.vapIndex < 2) :
    ∀ ref ∈ sendNormalRefs b, ref.Inside := by
  intro ref href
  rw [sendNormalRefs] at href
  split at href
  · rw [List.mem_singleton.mp href]
    exact h
  · cases href

theorem findNode_eq (hn : n < 8) : athTgtFindNode sc n =
    some (if (sc.scSta ⟨n, hn⟩).anValid ∧ (sc.scSta ⟨n, hn⟩).niVap then some ⟨n, hn⟩ else none) := by
  rw [athTgtFindNode, dif_pos hn]

/-! ## Data frames -/

theorem scTxbuf_athTgtTxSendNormal : (athTgtTxSendNormal s bf).scTxbuf = s.scTxbuf := by
  have hlogged : (logHanded s bf).scTxbuf = s.scTxbuf := by
    rw [logHanded]
    split <;> rfl
  have hrated (s : TxState) : (normalSeries s bf).scTxbuf = s.scTxbuf := by
    rw [normalSeries]
    split <;> rfl
  have hadded (s : TxState) : (athTgtTxqAddUcast s bf).scTxbuf = s.scTxbuf := by
    show (axqLinkTo s _ bf).scTxbuf = _
    unfold axqLinkTo
    split <;> rfl
  rw [athTgtTxSendNormal, hadded, hrated, hlogged]

theorem scTxbuf_athTgtTxEnqueue {q : QueueId} : (athTgtTxEnqueue s q k).scTxbuf = s.scTxbuf := by
  rw [athTgtTxEnqueue]
  split
  · rfl
  · split <;> rfl

theorem scTxbuf_sendPrepared : (sendPrepared s k endpt dh bf).scTxbuf = s.scTxbuf := by
  rw [sendPrepared]
  split
  · rw [athTgtHandleAggr]
    split
    · exact scTxbuf_athTgtTxEnqueue
    · exact scTxbuf_athTgtTxSendNormal
  · exact scTxbuf_athTgtTxSendNormal

theorem scTxbuf_prepareBuf : (prepareBuf sc k dh skb bf s).tx.scTxbuf = s.scTxbuf := by
  rw [prepareBuf]
  show (encapFrame _ k.1 skb dh.keytype).tx.scTxbuf = _
  rw [encapFrame]
  split <;> rfl

theorem athTgtTxPrepare_of_not_admits (hn : dh.niIndex < 8) (ht : dh.tidno < 8)
    (h : ¬Admits sc (⟨dh.niIndex, hn⟩, ⟨dh.tidno, ht⟩)) :
    athTgtTxPrepare sc skb dh = some (none, sc) := by
  rw [athTgtTxPrepare, findNode_eq hn]
  by_cases hvalid : (sc.scSta ⟨dh.niIndex, hn⟩).anValid ∧ (sc.scSta ⟨dh.niIndex, hn⟩).niVap
  · have hreinit : (sc.tx.tid (⟨dh.niIndex, hn⟩, ⟨dh.tidno, ht⟩)).reinitializeFlag = true := by
      by_contra hoff
      exact h ⟨hvalid, Bool.eq_false_iff.mpr hoff⟩
    rw [if_pos hvalid]
    simp only [Option.bind_some, dif_pos ht, if_pos hreinit]
  · rw [if_neg hvalid]
    rfl

theorem athTgtTxPrepare_of_admits (hn : dh.niIndex < 8) (ht : dh.tidno < 8)
    (h : Admits sc (⟨dh.niIndex, hn⟩, ⟨dh.tidno, ht⟩)) :
    athTgtTxPrepare sc skb dh = (athTxBufAlloc sc.tx).map fun out =>
      (some ((⟨dh.niIndex, hn⟩, ⟨dh.tidno, ht⟩), out.1),
        prepareBuf sc (⟨dh.niIndex, hn⟩, ⟨dh.tidno, ht⟩) dh skb out.1 out.2) := by
  rw [athTgtTxPrepare, findNode_eq hn, if_pos h.1]
  simp only [Option.bind_some, dif_pos ht, h.2, Bool.false_eq_true, if_false]

/-- A frame that is taken costs a buffer of the free list. -/
theorem recvData_ne_rejected (hn : dh.niIndex < 8) (ht : dh.tidno < 8)
    (h : Admits sc (⟨dh.niIndex, hn⟩, ⟨dh.tidno, ht⟩)) :
    tgtHtcRecvMessageHandler sc endpt skb dh ≠ some (returnBuffer sc endpt skb) := by
  rw [tgtHtcRecvMessageHandler, athTgtTxPrepare_of_admits hn ht h]
  cases hfree : sc.tx.scTxbuf with
  | nil =>
    rw [athTxBufAlloc, hfree]
    intro heq
    cases heq
  | cons bf rest =>
    rw [athTxBufAlloc, hfree]
    intro heq
    have hlists : (sendPrepared _ _ endpt dh bf).scTxbuf = sc.tx.scTxbuf :=
      congrArg (fun sc : Softc => sc.tx.scTxbuf) (Option.some_inj.mp heq)
    rw [scTxbuf_sendPrepared, scTxbuf_prepareBuf, hfree] at hlists
    exact List.cons_ne_self bf rest hlists.symm

theorem recvDataRefs_inside (hn : dh.niIndex < 8) (ht : dh.tidno < 8)
    (h : dh.vapIndex < 2 ∨ ¬Admits sc (⟨dh.niIndex, hn⟩, ⟨dh.tidno, ht⟩)) :
    ∀ ref ∈ recvDataRefs sc skb dh, ref.Inside := by
  intro ref href
  rw [recvDataRefs, List.mem_append, List.mem_append, List.mem_append] at href
  rcases href with ((hhead | hfind) | hprepare) | hsend
  · rcases List.mem_pair.mp hhead with rfl | rfl
    · exact hn
    · exact ht
  · exact findNodeRefs_inside hn ref hfind
  · split at hprepare
    · rw [prepareRefs, dif_pos ht] at hprepare
      rcases List.mem_cons.mp hprepare with rfl | hqueue
      · exact ht
      · split at hqueue
        · cases hqueue
        · rw [List.mem_singleton.mp hqueue]
          exact tidToWmeAc_lt _
    · cases hprepare
  · split at hsend
    · rename_i k bf sc' hprep
      have hvap : dh.vapIndex < 2 := by
        rcases h with hvap | hadmits
        · exact hvap
        · rw [athTgtTxPrepare_of_not_admits hn ht hadmits] at hprep
          cases hprep
      rw [sendPreparedRefs] at hsend
      split at hsend
      · cases hsend
      · have hmarked : ((sc'.tx.modBuf bf fun b => { b with vapIndex := dh.vapIndex }).buf bf) =
            { sc'.tx.buf bf with vapIndex := dh.vapIndex } := Function.update_self ..
        rw [hmarked] at hsend
        exact sendNormalRefs_inside hvap ref hsend
    · cases hsend

theorem recvData_safe_iff : IndexSafe t (.tx (.recvData endpt dh frame)) ↔
    Indexed t (.tx (.recvData endpt dh frame)) := by
  constructor
  · intro h
    have hn : dh.niIndex < 8 := h.inside (.scSta dh.niIndex) (by simp [requestRefs, recvDataRefs])
    have ht : dh.tidno < 8 := h.inside (.tid dh.tidno) (by simp [requestRefs, recvDataRefs])
    refine ⟨hn, ht, ?_⟩
    by_contra hbad
    rw [not_or, not_not] at hbad
    have hserved := h.rejects (.inr (.inr (not_lt.mp hbad.1)))
    obtain ⟨sc', hstep, hsc'⟩ := Option.map_eq_some_iff.mp hserved
    have hsc' : sc' = returnBuffer (arrive t.sc frame) endpt t.sc.skbs :=
      congrArg Target.sc hsc'
    rw [hsc'] at hstep
    have hadmits : Admits (arrive t.sc frame) (⟨dh.niIndex, hn⟩, ⟨dh.tidno, ht⟩) := hbad.2
    exact recvData_ne_rejected hn ht hadmits hstep
  · rintro ⟨hn, ht, h⟩
    have h : dh.vapIndex < 2 ∨ ¬Admits (arrive t.sc frame) (⟨dh.niIndex, hn⟩, ⟨dh.tidno, ht⟩) := h
    refine ⟨recvDataRefs_inside hn ht h, fun hout => ?_⟩
    have hadmits : ¬Admits (arrive t.sc frame) (⟨dh.niIndex, hn⟩, ⟨dh.tidno, ht⟩) := by
      rcases h with hvap | hadmits
      · rcases hout with hout | hout | hout
        · exact absurd hn (not_lt.mpr hout)
        · exact absurd ht (not_lt.mpr hout)
        · exact absurd hvap (not_lt.mpr hout)
      · exact hadmits
    have hprep : athTgtTxPrepare (arrive t.sc frame) t.sc.skbs dh =
        some (none, arrive t.sc frame) := athTgtTxPrepare_of_not_admits hn ht hadmits
    show (tgtHtcRecvMessageHandler (arrive t.sc frame) endpt t.sc.skbs dh).map _ = _
    rw [tgtHtcRecvMessageHandler, hprep]
    rfl

/-! ## Management frames -/

theorem athTgtSendMgt_empty (h : sc.tx.scTxbuf = []) :
    athTgtSendMgt sc endpt skb mh = some (returnBuffer sc endpt skb) := by
  rw [athTgtSendMgt, h]
  rfl

/-- Once a buffer has been taken it is not put back. -/
theorem athTgtSendMgt_ne_rejected (h : sc.tx.scTxbuf ≠ []) :
    athTgtSendMgt sc endpt skb mh ≠ some (returnBuffer sc endpt skb) := by
  obtain ⟨bf, rest, hfree⟩ := List.exists_cons_of_ne_nil h
  rw [athTgtSendMgt, hfree]
  intro heq
  obtain ⟨found, -, heq⟩ := Option.map_eq_some_iff.mp heq
  have hlists : rest = sc.tx.scTxbuf := by
    cases found with
    | none => exact congrArg (fun sc : Softc => sc.tx.scTxbuf) heq
    | some ni =>
      set sc₁ : Softc := { sc with tx := { sc.tx with scTxbuf := rest } }
      have heq : sendMgtBuf sc₁ ni endpt skb mh bf = returnBuffer sc endpt skb := heq
      have hsent : (sendMgtBuf sc₁ ni endpt skb mh bf).tx.scTxbuf = rest := by
        rw [sendMgtBuf]
        show (axqLinkTo _ _ bf).scTxbuf = rest
        unfold axqLinkTo
        split <;> rfl
      rw [heq] at hsent
      exact hsent.symm
  rw [hfree] at hlists
  exact List.cons_ne_self bf rest hlists.symm

theorem recvMgmt_safe_iff : IndexSafe t (.tx (.recvMgmt endpt mh frame)) ↔
    Indexed t (.tx (.recvMgmt endpt mh frame)) := by
  constructor
  · intro h
    by_cases hfree : t.sc.tx.scTxbuf = []
    · exact .inl hfree
    refine .inr ?_
    have hin : ¬OutOfRange (.tx (.recvMgmt endpt mh frame)) := by
      intro hout
      obtain ⟨sc', hstep, hsc'⟩ := Option.map_eq_some_iff.mp (h.rejects hout)
      have hsc' : sc' = returnBuffer (arrive t.sc frame) endpt t.sc.skbs :=
        congrArg Target.sc hsc'
      rw [hsc'] at hstep
      have hfree : (arrive t.sc frame).tx.scTxbuf ≠ [] := hfree
      exact athTgtSendMgt_ne_rejected hfree hstep
    rw [OutOfRange, not_or, not_le, not_le] at hin
    exact hin
  · intro h
    rcases h with hfree | hin
    · refine ⟨?_, fun _ => ?_⟩
      · have hrefs : requestRefs t (.tx (.recvMgmt endpt mh frame)) = [] := by
          rw [requestRefs, sendMgtRefs, hfree]
        rw [hrefs]
        exact List.forall_mem_nil _
      · have hfree : (arrive t.sc frame).tx.scTxbuf = [] := hfree
        show (athTgtSendMgt (arrive t.sc frame) endpt t.sc.skbs mh).map _ = _
        rw [athTgtSendMgt_empty hfree]
        rfl
    · refine ⟨?_, fun hout => ?_⟩
      · intro ref href
        rw [requestRefs, sendMgtRefs] at href
        split at href
        · cases href
        · rcases List.mem_append.mp href with hfind | hvap
          · exact findNodeRefs_inside hin.1 ref hfind
          · split at hvap
            · rw [List.mem_singleton.mp hvap]
              exact hin.2
            · cases hvap
      · rcases hout with hout | hout
        · exact absurd hin.1 (not_lt.mpr hout)
        · exact absurd hin.2 (not_lt.mpr hout)

/-! ## Beacons and commands -/

theorem recvBeacon_safe_iff {vapIndex : ℕ} : IndexSafe t (.recvBeacon endpt vapIndex frame) ↔
    Indexed t (.recvBeacon endpt vapIndex frame) := by
  constructor
  · intro h
    by_contra hout
    have hout : ¬vapIndex < 2 := hout
    have hserved := h.rejects (not_lt.mp hout)
    rw [serve, athTgtSendBeacon, dif_neg hout] at hserved
    cases hserved
  · intro h
    have h : vapIndex < 2 := h
    refine ⟨?_, fun hout => absurd h (not_lt.mpr hout)⟩
    intro ref href
    rw [requestRefs, sendBeaconRefs, if_pos h] at href
    rw [List.mem_singleton.mp href]
    exact h

/-- The aggregation command checks both its indices. -/
theorem enableAggr_safe {enable : Bool} : IndexSafe t (.tx (.enableAggr n tidno enable)) := by
  constructor
  · intro ref href
    rw [requestRefs, enableAggrRefs] at href
    split at href
    · rcases List.mem_cons.mp href with rfl | htid
      · assumption
      · split at htid
        · rename_i hboth
          rw [List.mem_singleton.mp htid]
          exact hboth.2
        · cases htid
    · cases href
  · intro hout
    show (athEnableAggrTgt t.sc n tidno enable).map _ = _
    rw [athEnableAggrTgt]
    rcases hout with hn | ht
    · have hn : ¬n < 8 := not_lt.mpr hn
      rw [dif_neg hn]
      rfl
    · have ht : ¬tidno < 8 := not_lt.mpr ht
      split <;> rfl

theorem indexSafe_iff : IndexSafe t r ↔ Indexed t r := by
  have hother (hrefs : requestRefs t r = []) (hin : ¬OutOfRange r) (hok : Indexed t r) :
      IndexSafe t r ↔ Indexed t r := by
    refine ⟨fun _ => hok, fun _ => ⟨?_, fun hout => absurd hout hin⟩⟩
    rw [hrefs]
    exact List.forall_mem_nil _
  cases r with
  | tx e =>
    cases e with
    | recvData endpt dh frame => exact recvData_safe_iff
    | recvMgmt endpt mh frame => exact recvMgmt_safe_iff
    | enableAggr nodeindex tidno enable => exact ⟨fun _ => trivial, fun _ => enableAggr_safe⟩
    | _ => exact hother rfl id trivial
  | recvBeacon endpt vapIndex frame => exact recvBeacon_safe_iff
  | vapCreate vapIndex => exact hother rfl id trivial
  | vapDelete vapIndex => exact hother rfl id trivial

/-! ## Stored indices -/

/-- Every buffer is marked with an interface of the table. -/
def Marked (s : TxState) : Prop := ∀ b, (s.buf b).vapIndex < 2

theorem Marked.of_same {s' : TxState} (h : Marked s) (hsame : SameVap s s') : Marked s' := by
  intro b
  rw [hsame b]
  exact h b

theorem Marked.storedRefs_inside (h : Marked s) (bf : BufId) :
    ∀ ref ∈ storedRefs (s.buf bf), ref.Inside := by
  intro ref href
  rw [storedRefs, List.mem_cons, List.mem_pair] at href
  rcases href with rfl | rfl | rfl
  · exact (s.buf bf).bfTidno.isLt
  · exact tidToWmeAc_lt _
  · exact h bf

theorem SameVap.encapFrame {keytype : KeyType} :
    SameVap sc.tx (encapFrame sc ni skb keytype).tx := by
  rw [Tx.encapFrame]
  split
  · exact .of_buf rfl
  · exact .of_buf rfl

theorem SameVap.athTgtTxSeqnoNormal : SameVap s (athTgtTxSeqnoNormal s k bf skb) := by
  rw [Tx.athTgtTxSeqnoNormal]
  exact (SameVap.modBuf _ rfl).trans ((SameVap.modNbuf _ _).trans (.modTid _))

theorem Marked.prepareBuf (h : Marked s) : Marked (prepareBuf sc k dh skb bf s).tx := by
  set s₁ := Tx.athTgtTxSeqnoNormal (s.modBuf bf (fillBuf k dh skb)) k bf skb
  have hfilled : SameVap s (s.modBuf bf (fillBuf k dh skb)) := .modBuf _ rfl
  have hsetup : SameVap s₁ (s₁.modBuf bf (setupBuf (s₁.nbuf skb))) := .modBuf _ rfl
  refine h.of_same ((hfilled.trans .athTgtTxSeqnoNormal).trans (hsetup.trans ?_))
  exact SameVap.trans .encapFrame .athFilltxdesc

theorem Marked.handleAggr (h : Marked s) : Marked (athTgtHandleAggr s k bf) := by
  have hcomp : SameVap s (s.modBuf bf fun b => { b with bfComp := some .aggr }) := .modBuf _ rfl
  refine h.of_same (hcomp.trans ?_)
  rw [athTgtHandleAggr]
  split
  · exact (SameVap.modTid _).trans .athTgtTxEnqueue
  · exact (SameVap.modTid _).trans .athTgtTxSendNormal

theorem Marked.handleNormal (h : Marked s) : Marked (athTgtHandleNormal s k bf) := by
  have hcomp : SameVap s (s.modBuf bf fun b => { b with bfComp := some .normal }) := .modBuf _ rfl
  exact h.of_same (hcomp.trans ((SameVap.modTid _).trans .athTgtTxSendNormal))

theorem Marked.sendPrepared (h : Marked s) (hvap : dh.vapIndex < 2) :
    Marked (sendPrepared s k endpt dh bf) := by
  rw [Tx.sendPrepared]
  have hmarked : Marked (s.modBuf bf fun b =>
      { b with bfEndpt := endpt, bfCookie := dh.cookie, vapIndex := dh.vapIndex }) := by
    intro b
    show (Function.update s.buf bf _ b).vapIndex < 2
    rcases eq_or_ne b bf with rfl | hne
    · rw [Function.update_self]
      exact hvap
    · rw [Function.update_of_ne hne]
      exact h b
  split
  · exact hmarked.handleAggr
  · exact hmarked.handleNormal

theorem Marked.recvData (h : Marked sc.tx) (hn : dh.niIndex < 8) (ht : dh.tidno < 8)
    (hvap : dh.vapIndex < 2 ∨ ¬Admits sc (⟨dh.niIndex, hn⟩, ⟨dh.tidno, ht⟩))
    (hstep : tgtHtcRecvMessageHandler sc endpt skb dh = some sc') : Marked sc'.tx := by
  rw [tgtHtcRecvMessageHandler] at hstep
  by_cases hadmits : Admits sc (⟨dh.niIndex, hn⟩, ⟨dh.tidno, ht⟩)
  · rw [athTgtTxPrepare_of_admits hn ht hadmits] at hstep
    obtain ⟨prepared, hprep, rfl⟩ := Option.map_eq_some_iff.mp hstep
    obtain ⟨⟨bf, s⟩, halloc, rfl⟩ := Option.map_eq_some_iff.mp hprep
    have hvap : dh.vapIndex < 2 := hvap.resolve_right (not_not.mpr hadmits)
    exact ((h.of_same (.athTxBufAlloc halloc)).prepareBuf).sendPrepared hvap
  · rw [athTgtTxPrepare_of_not_admits hn ht hadmits] at hstep
    obtain rfl := Option.some_inj.mp hstep
    exact h.of_same (.emit _)

theorem Marked.sendMgt (h : Marked sc.tx) (hstep : athTgtSendMgt sc endpt skb mh = some sc') :
    Marked sc'.tx := by
  rw [athTgtSendMgt] at hstep
  split at hstep
  · obtain rfl := Option.some_inj.mp hstep
    exact h.of_same (.emit _)
  · obtain ⟨found, -, rfl⟩ := Option.map_eq_some_iff.mp hstep
    cases found with
    | none => exact h.of_same (.of_buf rfl)
    | some ni =>
      refine h.of_same ?_
      show SameVap sc.tx (athTgtTxqaddbuf _ _ _ _)
      refine SameVap.trans ?_ (.athTgtTxqaddbuf _)
      refine SameVap.trans ?_ .athFilltxdesc
      exact SameVap.trans (SameVap.trans (.of_buf rfl) (.modBuf _ rfl)) (.modNbuf _ _)

theorem Marked.step {e : Event} (h : Marked t.sc.tx) (hok : Indexed t (.tx e))
    (hstep : step e t.sc = some sc') : Marked sc'.tx := by
  cases e with
  | recvData endpt dh frame =>
    obtain ⟨hn, ht, hvap⟩ := hok
    have harrived : Marked (arrive t.sc frame).tx := h.of_same (.of_buf rfl)
    exact harrived.recvData hn ht hvap hstep
  | recvMgmt endpt mh frame =>
    have harrived : Marked (arrive t.sc frame).tx := h.of_same (.of_buf rfl)
    exact harrived.sendMgt hstep
  | processq q state answer =>
    obtain ⟨⟨s, more⟩, hround, rfl⟩ := Option.map_eq_some_iff.mp hstep
    exact h.of_same (.processqRound hround)
  | statusClear =>
    obtain rfl := Option.some_inj.mp hstep
    exact h
  | statusSend =>
    obtain rfl := Option.some_inj.mp hstep
    exact h.of_same .athTxStatusSend
  | drainStart =>
    obtain rfl := Option.some_inj.mp hstep
    exact h
  | drainTidq q =>
    obtain ⟨s, hdrain, rfl⟩ := Option.map_eq_some_iff.mp hstep
    rw [drainTidq] at hdrain
    split at hdrain
    · have hdequeued : SameVap t.sc.tx (tidqRemoveHead t.sc.tx q ‹TidId›) :=
        (SameVap.modTxq _).trans (.modTid _)
      exact h.of_same (hdequeued.trans (.athTgtTidDrain hdrain))
    · cases hdrain
  | drainEnd =>
    obtain rfl := Option.some_inj.mp hstep
    exact h
  | enableAggr nodeindex tidno enable =>
    have hstep : athEnableAggrTgt t.sc nodeindex tidno enable = some sc' := hstep
    rw [athEnableAggrTgt] at hstep
    dsimp only at hstep
    split_ifs at hstep
    · obtain rfl := Option.some_inj.mp hstep
      exact h
    · obtain rfl := Option.some_inj.mp hstep
      exact h
    · obtain ⟨s, hcleanup, rfl⟩ := Option.map_eq_some_iff.mp hstep
      have hcleaned := SameVap.athTgtTxCleanup hcleanup
      exact h.of_same ((SameVap.of_buf rfl).trans hcleaned)
    all_goals
      obtain rfl := Option.some_inj.mp hstep
      exact h
  | nodeCreate cmd =>
    have hstep : athNodeCreateTgt t.sc cmd = some sc' := hstep
    rw [athNodeCreateTgt] at hstep
    split_ifs at hstep
    obtain rfl := Option.some_inj.mp hstep
    exact h
  | nodeCleanup nodeIndex =>
    have hstep : athNodeCleanupTgt t.sc nodeIndex = some sc' := hstep
    rw [athNodeCleanupTgt] at hstep
    split_ifs at hstep
    obtain rfl := Option.some_inj.mp hstep
    exact h
  | nodeUpdate cmd =>
    have hstep : athNodeUpdateTgt t.sc cmd = some sc' := hstep
    rw [athNodeUpdateTgt] at hstep
    split_ifs at hstep
    obtain rfl := Option.some_inj.mp hstep
    exact h
  | icUpdate ampduLimit enableCoex =>
    obtain rfl := Option.some_inj.mp hstep
    exact h

theorem setVap_sc {f : VapTarget → Option VapTarget} (h : setVap t n f = some t') :
    t'.sc = t.sc := by
  rw [setVap] at h
  split at h
  · obtain ⟨avp, -, rfl⟩ := Option.map_eq_some_iff.mp h
    rfl
  · cases h

theorem Marked.serve (h : Marked t.sc.tx) (hok : Indexed t r) (hstep : serve r t = some t') :
    Marked t'.sc.tx := by
  cases r with
  | tx e =>
    obtain ⟨sc', he, rfl⟩ := Option.map_eq_some_iff.mp hstep
    exact h.step hok he
  | recvBeacon endpt vapIndex frame =>
    have hstep : athTgtSendBeacon { t with sc := arrive t.sc frame } endpt vapIndex t.sc.skbs =
      some t' := hstep
    rw [athTgtSendBeacon] at hstep
    split at hstep
    · obtain ⟨bf, -, rfl⟩ := Option.map_eq_some_iff.mp hstep
      dsimp only
      cases (t.bcbuf bf).bfSkb with
      | none => exact h.of_same (.of_buf rfl)
      | some old => exact h.of_same (.of_buf rfl)
    · cases hstep
  | vapCreate vapIndex =>
    rw [Tx.serve] at hstep
    rw [setVap_sc hstep]
    exact h
  | vapDelete vapIndex =>
    rw [Tx.serve] at hstep
    rw [setVap_sc hstep]
    exact h

theorem marked_of_reachable (h : target.ReachableWhere Indexed t) : Marked t.sc.tx := by
  refine h.invariant (P := fun t => Marked t.sc.tx) ?_ ?_
  · rintro t ⟨cfg, rateAnswers, bcbufs, -, rfl⟩ b
    exact Nat.zero_lt_two
  · intro t r t' hmarked hok hstep
    exact hmarked.serve hok hstep

/-- While every request is handled safely, every index kept in a buffer is inside its table, and
the next request is handled safely exactly when its indices are. -/
theorem index_safety (h : target.ReachableWhere Indexed t) :
    (∀ bf, ∀ ref ∈ storedRefs (t.sc.tx.buf bf), ref.Inside) ∧
      ∀ r, IndexSafe t r ↔ Indexed t r :=
  ⟨(marked_of_reachable h).storedRefs_inside, fun _ => indexSafe_iff⟩

/-- The target after its attachment, with four transmit buffers and one for beacons. -/
def attachedTarget : Target := ⟨attach smallConfig steadyAnswers, fun _ => {}, [0], fun _ => {}, none⟩

theorem attachedTarget_init : target.Init attachedTarget :=
  ⟨smallConfig, steadyAnswers, [0], by decide, rfl⟩

/-- A multicast frame. -/
def multicastFrame : Nbuf := ⟨100, fun i => if i = 4 then 0x01 else 0⟩

theorem index_safety_served : ∃ t, t.txdp = some 0 ∧ t.sc.tx.scTxbuf = [2, 3] ∧
    (∀ bf, ∀ ref ∈ storedRefs (t.sc.tx.buf bf), ref.Inside) ∧
    IndexSafe t (.tx (.recvMgmt 0 (mgmtTo 7) blankFrame)) := by
  obtain ⟨t, steps, hbeacon, hfree⟩ := Machine.exists_of_runWhere target.Init serve Indexed
    (P := fun t => t.txdp = some 0 ∧ t.sc.tx.scTxbuf = [2, 3]) (s := attachedTarget)
    [.vapCreate 1, .tx (.nodeCreate (createNode 7)), .recvBeacon 1 1 blankFrame,
      .tx (.recvData 0 ⟨7, 1, 7, .clear, 0⟩ multicastFrame)] (by decide +kernel)
  have hsafe := index_safety ⟨attachedTarget, attachedTarget_init, steps⟩
  exact ⟨t, hbeacon, hfree, hsafe.1, (hsafe.2 _).mpr (.inr ⟨by decide, by decide⟩)⟩

/-- A data frame for the TID behind the last one: its address is taken, and then the flags
there are read. -/
theorem tid_behind_table : ¬∀ t, target.Reachable t → ∀ r, IndexSafe t r := by
  intro h
  obtain ⟨t, steps, -⟩ := Machine.exists_of_runWhere target.Init serve (fun _ _ => True)
    (P := fun t => (t.sc.scSta 0).anValid = true) (s := attachedTarget)
    [.tx (.nodeCreate (createNode 0))] (by decide +kernel)
  have hsafe := h t ⟨attachedTarget, attachedTarget_init, steps⟩
    (.tx (.recvData 0 (dataTo 8) blankFrame))
  have hin : 8 < wmeNumTid := hsafe.inside (.tid 8) (by simp [requestRefs, recvDataRefs, dataTo])
  exact absurd hin (by decide)

end Ath9kHtc.Tx
