import Mathlib.Data.List.Perm.Basic
import Ath9kHtc.Htc.System
import Ath9kHtc.Htc.Trailer

/-!
# No credit report is lost

A report that cannot be sent at once leaves `HTC_SEND_CREDIT_UPDATE_SOON` set, and then an
endpoint 0 message is in flight whose completion sends it.  Inside a handler the endpoints it
works on may be behind; the invariant carries them as a set of exceptions, which is empty again
when the handler returns.
-/

namespace Ath9kHtc.Htc

def SentMsg.isControl (msg : SentMsg) : Bool := decide (msg.endpointId = endpoint0)

/-- The buffer is marked as a credit report of `eid`. -/
def NBuf.reportsFor (buf : NBuf) (eid : EndpointId) : Bool :=
  decide (buf.htcFlags &&& htcFlagsCreditRpt ≠ 0 ∧
    (buf.htcFlags &&& htcFlagsCrptEpMask).toNat = eid)

def SentMsg.isReportFor (eid : EndpointId) (msg : SentMsg) : Bool :=
  msg.isControl && msg.nbuf.reportsFor eid

def NBuf.size (buf : NBuf) : ℕ := buf.headroom + buf.len + buf.tailroom

/-- A control buffer; the mark of a credit report in it names an endpoint of the table. -/
structure NBuf.Control (buf : NBuf) : Prop where
  size : buf.size = maxHtcSetupMsgSize
  mark : buf.htcFlags &&& htcFlagsCreditRpt ≠ 0 →
    (buf.htcFlags &&& htcFlagsCrptEpMask).toNat < 22

/-- Endpoint 0 messages at the host interface. -/
def Context.controlInFlight (htc : Context) : ℕ := htc.inFlight.countP SentMsg.isControl

def Context.reportsInFlight (htc : Context) (eid : EndpointId) : ℕ :=
  htc.inFlight.countP (SentMsg.isReportFor eid)

/-- The host waits for credits of `eid` and enough of them are there. -/
def Context.OwesReport (htc : Context) (eid : EndpointId) : Prop :=
  htc.epHostNeedsCreditMap.getLsbD eid = true ∧ htc.epCreditPendingMap.getLsbD eid = true ∧
    (htc.endpoints eid).creditReturnThreshhold ≤ (htc.endpoints eid).creditsToReturn

/-! ## The control path -/

/-- Endpoint 0 belongs to the control service, and `n` control buffers are in the pool or in
flight. -/
structure ControlPath (n : ℕ) (htc : Context) : Prop where
  control : (htc.endpoints endpoint0).pService = some htcControlService
  downLink : (htc.endpoints endpoint0).downLinkPipeId = hifUsbPipeInterrupt
  services : ∀ e svc, e ≠ endpoint0 → (htc.endpoints e).pService = some svc → svc.kind ≠ .control
  registered : ∀ svc ∈ htc.pServiceList, svc.kind ≠ .control
  nextEp : 1 ≤ htc.currentEpIndex
  buffers : htc.ctrlPool.length + htc.controlInFlight = n
  pool : ∀ buf ∈ htc.ctrlPool, buf.Control
  msgs : ∀ msg ∈ htc.inFlight, msg.isControl = true →
    msg.nbuf.Control ∧ htcHdrLength ≤ msg.nbuf.len

/-- Credits that are owed to a waiting host are on their way, except for the endpoints the
running handler has not come back to. -/
structure WakeInv (except : Set EndpointId) (htc : Context) : Prop where
  path : ControlPath numCtrlBuffers htc
  pending : ∀ e, (htc.endpoints e).pendingCreditReports ≤ htc.reportsInFlight e
  soon : htc.sendCreditUpdateSoon = true → 0 < htc.controlInFlight
  wake : ∀ e, e ∉ except → htc.OwesReport e → htc.sendCreditUpdateSoon = true

theorem WakeInv.mono {ex ex' : Set EndpointId} {htc : Context} (h : WakeInv ex htc)
    (hsub : ex ⊆ ex') : WakeInv ex' htc :=
  { h with wake := fun e he => h.wake e fun hmem => he (hsub hmem) }

/-! ## Sending -/

theorem bufHdr_and : ∀ flags : BitVec 8,
    (flags ||| htcFlagsBufHdr) &&& htcFlagsCreditRpt = flags &&& htcFlagsCreditRpt ∧
    (flags ||| htcFlagsBufHdr) &&& htcFlagsCrptEpMask = flags &&& htcFlagsCrptEpMask := by
  decide

section Send

variable (htc : Context) (eid e : EndpointId) (buf : NBuf)

@[simp] theorem htcSendMsg_ctrlPool : (htcSendMsg htc eid buf).ctrlPool = htc.ctrlPool := by
  simp only [htcSendMsg]

@[simp] theorem htcSendMsg_needs :
    (htcSendMsg htc eid buf).epHostNeedsCreditMap = htc.epHostNeedsCreditMap := by
  simp only [htcSendMsg]

@[simp] theorem htcSendMsg_soon :
    (htcSendMsg htc eid buf).sendCreditUpdateSoon = htc.sendCreditUpdateSoon := by
  simp only [htcSendMsg]

@[simp] theorem htcSendMsg_setupComplete :
    (htcSendMsg htc eid buf).setupComplete = htc.setupComplete := by
  simp only [htcSendMsg]

@[simp] theorem htcSendMsg_pServiceList :
    (htcSendMsg htc eid buf).pServiceList = htc.pServiceList := by
  simp only [htcSendMsg]

@[simp] theorem htcSendMsg_currentEpIndex :
    (htcSendMsg htc eid buf).currentEpIndex = htc.currentEpIndex := by
  simp only [htcSendMsg]

theorem htcSendMsg_untrailed :
    ((htcSendMsg htc eid buf).endpoints e).untrailed = (htc.endpoints e).untrailed :=
  fillTrailer_untrailed htc _ e

theorem htcSendMsg_pService :
    ((htcSendMsg htc eid buf).endpoints e).pService = (htc.endpoints e).pService :=
  congrArg (·.1) (htcSendMsg_untrailed htc eid e buf)

theorem htcSendMsg_downLinkPipeId :
    ((htcSendMsg htc eid buf).endpoints e).downLinkPipeId = (htc.endpoints e).downLinkPipeId :=
  congrArg (·.2.2.1) (htcSendMsg_untrailed htc eid e buf)

theorem htcSendMsg_upLinkPipeId :
    ((htcSendMsg htc eid buf).endpoints e).upLinkPipeId = (htc.endpoints e).upLinkPipeId :=
  congrArg (·.2.2.2.1) (htcSendMsg_untrailed htc eid e buf)

theorem htcSendMsg_pendingCreditReports :
    ((htcSendMsg htc eid buf).endpoints e).pendingCreditReports =
      (htc.endpoints e).pendingCreditReports :=
  congrArg (·.2.2.2.2.1) (htcSendMsg_untrailed htc eid e buf)

/-- The message joins the ones in flight; its flags are those of the buffer. -/
theorem htcSendMsg_inFlight :
    ∃ msg, (htcSendMsg htc eid buf).inFlight = htc.inFlight ++ [msg] ∧ msg.endpointId = eid ∧
      msg.nbuf.htcFlags = buf.htcFlags ||| htcFlagsBufHdr ∧
      (buf.Control → htcHdrLength ≤ buf.headroom →
        msg.nbuf.Control ∧ htcHdrLength ≤ msg.nbuf.len) := by
  refine ⟨_, rfl, rfl, rfl, ?_⟩
  rintro ⟨hsize, hmark⟩ hhead
  have hmark' : (buf.htcFlags ||| htcFlagsBufHdr) &&& htcFlagsCreditRpt ≠ 0 →
      ((buf.htcFlags ||| htcFlagsBufHdr) &&& htcFlagsCrptEpMask).toNat < 22 := by
    rw [(bufHdr_and _).1, (bufHdr_and _).2]
    exact hmark
  have hbound : 0 ≤ trailerRoom (htc.endpoints eid).downLinkPipeId (pushHtcHdr eid buf) ∧
      trailerRoom (htc.endpoints eid).downLinkPipeId (pushHtcHdr eid buf) ≤ buf.tailroom := by
    simp only [NBuf.size, maxHtcSetupMsgSize] at hsize
    simp only [trailerRoom, cInt, pushHtcHdr]
    omega
  generalize trailerRoom (htc.endpoints eid).downLinkPipeId (pushHtcHdr eid buf) = room at hbound ⊢
  have hbytes := fillTrailer_bytes_le htc hbound.1
  refine ⟨⟨?_, hmark'⟩, ?_⟩ <;>
  · simp only [NBuf.size, maxHtcSetupMsgSize, htcHdrLength, pushHtcHdr] at hsize hhead ⊢
    omega

theorem htcSendMsg_controlInFlight :
    (htcSendMsg htc eid buf).controlInFlight =
      htc.controlInFlight + if eid = endpoint0 then 1 else 0 := by
  obtain ⟨msg, hflight, heid, -⟩ := htcSendMsg_inFlight htc eid buf
  rw [Context.controlInFlight, hflight, List.countP_append]
  simp [SentMsg.isControl, heid, List.countP_cons, Context.controlInFlight]

theorem htcSendMsg_reportsInFlight :
    htc.reportsInFlight e ≤ (htcSendMsg htc eid buf).reportsInFlight e := by
  obtain ⟨msg, hflight, -⟩ := htcSendMsg_inFlight htc eid buf
  rw [Context.reportsInFlight, Context.reportsInFlight, hflight, List.countP_append]
  omega

/-- Sending never makes an endpoint owe a report. -/
theorem htcSendMsg_owes (h : (htcSendMsg htc eid buf).OwesReport e) : htc.OwesReport e := by
  obtain ⟨hneeds, hpending, hcredits⟩ := h
  obtain ⟨hbefore, hsame⟩ := fillTrailer_pending htc _ e hpending
  refine ⟨hneeds, hbefore, ?_⟩
  change ((fillTrailer htc _).endpoints e).creditReturnThreshhold ≤
    ((fillTrailer htc _).endpoints e).creditsToReturn at hcredits
  rwa [hsame] at hcredits

end Send

/-- The control path after a message of `eid`; an endpoint 0 message is in a control buffer. -/
theorem ControlPath.sendMsg {n : ℕ} {htc : Context} (h : ControlPath n htc) (eid : EndpointId)
    (buf : NBuf) (hbuf : eid = endpoint0 → buf.Control ∧ htcHdrLength ≤ buf.headroom) :
    ControlPath (n + if eid = endpoint0 then 1 else 0) (htcSendMsg htc eid buf) where
  control := (htcSendMsg_pService htc eid _ buf).trans h.control
  downLink := (htcSendMsg_downLinkPipeId htc eid _ buf).trans h.downLink
  services e svc he hsvc := h.services e svc he ((htcSendMsg_pService htc eid e buf) ▸ hsvc)
  registered := h.registered
  nextEp := h.nextEp
  buffers := by
    rw [htcSendMsg_ctrlPool, htcSendMsg_controlInFlight, ← Nat.add_assoc, h.buffers]
  pool := h.pool
  msgs := by
    obtain ⟨msg, hflight, heid, -, hsize⟩ := htcSendMsg_inFlight htc eid buf
    intro m hm hcontrol
    rw [hflight, List.mem_append, List.mem_singleton] at hm
    rcases hm with hm | rfl
    · exact h.msgs m hm hcontrol
    · have hzero : eid = endpoint0 := heid ▸ of_decide_eq_true hcontrol
      exact hsize (hbuf hzero).1 (hbuf hzero).2

theorem htcSendMsg_pending {htc : Context} {e : EndpointId}
    (h : (htc.endpoints e).pendingCreditReports ≤ htc.reportsInFlight e) (eid : EndpointId)
    (buf : NBuf) : ((htcSendMsg htc eid buf).endpoints e).pendingCreditReports ≤
      (htcSendMsg htc eid buf).reportsInFlight e := by
  have hmono := htcSendMsg_reportsInFlight htc eid e buf
  rw [htcSendMsg_pendingCreditReports]
  omega

theorem WakeInv.sendMsg {ex : Set EndpointId} {htc : Context} (h : WakeInv ex htc)
    {eid : EndpointId} (heid : eid ≠ endpoint0) (buf : NBuf) :
    WakeInv ex (htcSendMsg htc eid buf) where
  path := by simpa [heid] using h.path.sendMsg eid buf (fun hzero => absurd hzero heid)
  pending e := htcSendMsg_pending (h.pending e) eid buf
  soon hsoon := by
    rw [htcSendMsg_controlInFlight]
    exact Nat.add_pos_left (h.soon hsoon) _
  wake e he howes := h.wake e he (htcSendMsg_owes htc eid e buf howes)

/-! ## Taking a control buffer -/

theorem htcAllocMsgBuffer_none {htc : Context} (h : htcAllocMsgBuffer htc = none) :
    htc.ctrlPool = [] := by
  unfold htcAllocMsgBuffer at h
  split at h
  · assumption
  · cases h

/-- The allocation takes one buffer of the pool, empty and with room for the HTC header, and
touches nothing else. -/
theorem htcAllocMsgBuffer_some {htc htc' : Context} {buf : NBuf}
    (h : htcAllocMsgBuffer htc = some (buf, htc')) :
    ∃ old rest, htc.ctrlPool = old :: rest ∧ htc' = { htc with ctrlPool := rest } ∧
      buf.headroom = htcHdrLength ∧ buf.len = 0 ∧ buf.tailroom = old.size - htcHdrLength ∧
      buf.htcFlags = old.htcFlags := by
  unfold htcAllocMsgBuffer at h
  split at h
  · cases h
  · rename_i old rest hpool
    simp only [Option.some.injEq, Prod.mk.injEq] at h
    obtain ⟨rfl, rfl⟩ := h
    exact ⟨old, rest, hpool, rfl, rfl, rfl, rfl, rfl⟩

theorem ControlPath.alloc {n : ℕ} {htc htc' : Context} {buf : NBuf} (h : ControlPath (n + 1) htc)
    (halloc : htcAllocMsgBuffer htc = some (buf, htc')) :
    ControlPath n htc' ∧ buf.Control ∧ buf.headroom = htcHdrLength ∧ buf.len = 0 := by
  obtain ⟨old, rest, hpool, rfl, hhead, hlen, htail, hflags⟩ := htcAllocMsgBuffer_some halloc
  have hold := h.pool old (hpool ▸ List.mem_cons_self)
  refine ⟨{ h with buffers := ?_, pool := ?_ }, ⟨?_, hflags ▸ hold.mark⟩, hhead, hlen⟩
  · have := h.buffers
    rw [hpool, List.length_cons] at this
    change rest.length + htc.controlInFlight = n
    omega
  · intro b hb
    exact h.pool b (hpool ▸ List.mem_cons_of_mem _ hb)
  · rw [NBuf.size, hhead, hlen, htail, hold.size]
    rfl

/-- An empty control buffer has room for the reports of all endpoints. -/
theorem trailerRoom_control {buf : NBuf} (hsize : buf.size = maxHtcSetupMsgSize)
    (hhead : buf.headroom = htcHdrLength) (hlen : buf.len = 0) :
    46 ≤ trailerRoom hifUsbPipeInterrupt (pushHtcHdr endpoint0 buf) := by
  simp only [NBuf.size, maxHtcSetupMsgSize, htcHdrLength] at hsize hhead
  simp only [trailerRoom, cInt, pushHtcHdr, hifGetMaxMsgLen, hifUsbPipeInterrupt, htcHdrLength,
    true_or, if_true]
  omega

/-- After an empty endpoint 0 message nothing is pending. -/
theorem htcSendMsg_control_clears {n : ℕ} {htc : Context} (h : ControlPath n htc) {buf : NBuf}
    (hsize : buf.size = maxHtcSetupMsgSize) (hhead : buf.headroom = htcHdrLength)
    (hlen : buf.len = 0) (e : EndpointId) :
    ¬(htcSendMsg htc endpoint0 buf).OwesReport e := by
  rintro ⟨-, hpending, -⟩
  have hclear := fillTrailer_clears htc (trailerRoom_control hsize hhead hlen) e
  rw [← h.downLink] at hclear
  exact absurd (hclear.symm.trans hpending) (by simp)

/-- An endpoint 0 message in a control buffer that was taken from the pool before. -/
theorem ControlPath.sendControl {ex : Set EndpointId} {htc : Context} {buf : NBuf}
    (hpath : ControlPath 3 htc) (hbuf : buf.Control)
    (hhead : buf.headroom = htcHdrLength)
    (hpending : ∀ e, (htc.endpoints e).pendingCreditReports ≤ htc.reportsInFlight e)
    (hwake : ∀ e, e ∉ ex → htc.OwesReport e → htc.sendCreditUpdateSoon = true) :
    WakeInv ex (htcSendMsg htc endpoint0 buf) where
  path := hpath.sendMsg endpoint0 buf fun _ => ⟨hbuf, hhead.ge⟩
  pending e := htcSendMsg_pending (hpending e) endpoint0 buf
  soon _ := by
    rw [htcSendMsg_controlInFlight]
    simp
  wake e he howes := hwake e he (htcSendMsg_owes htc endpoint0 e buf howes)

theorem WakeInv.sendControl {ex : Set EndpointId} {htc htc' : Context} {buf buf' : NBuf}
    (h : WakeInv ex htc) (halloc : htcAllocMsgBuffer htc = some (buf, htc'))
    (hbuf : buf.Control → buf'.Control) (hhead : buf'.headroom = buf.headroom) :
    WakeInv ex (htcSendMsg htc' endpoint0 buf') := by
  obtain ⟨hpath, hcontrol, hroom, -⟩ := h.path.alloc halloc
  obtain ⟨old, rest, -, rfl, -⟩ := htcAllocMsgBuffer_some halloc
  exact hpath.sendControl (hbuf hcontrol) (hhead.trans hroom) h.pending h.wake

/-! ## Credit reports -/

theorem creditRptFlags_mark : ∀ e : EndpointId,
    (creditRptFlags e &&& htcFlagsCrptEpMask).toNat < 22 := by decide

theorem creditRptFlags_reportsFor (e : EndpointId) (msg : SentMsg)
    (h : msg.nbuf.htcFlags = creditRptFlags e ||| htcFlagsBufHdr) :
    msg.nbuf.reportsFor e = true := by
  have flags : ∀ e : EndpointId,
      (creditRptFlags e ||| htcFlagsBufHdr) &&& htcFlagsCreditRpt ≠ 0 ∧
        ((creditRptFlags e ||| htcFlagsBufHdr) &&& htcFlagsCrptEpMask).toNat = e := by decide
  rw [NBuf.reportsFor, h]
  exact decide_eq_true (flags e)

/-- An update of an endpoint that leaves its service and its pipes alone. -/
theorem ControlPath.updateEndpoint {n : ℕ} {htc : Context} (h : ControlPath n htc)
    (eid : EndpointId) (f : Endpoint → Endpoint) (hsvc : ∀ ep, (f ep).pService = ep.pService)
    (hdown : ∀ ep, (f ep).downLinkPipeId = ep.downLinkPipeId) :
    ControlPath n (htc.updateEndpoint eid f) :=
  { h with
    control := (htc.updateEndpoint_congr eid _ (·.pService) hsvc).trans h.control
    downLink := (htc.updateEndpoint_congr eid _ (·.downLinkPipeId) hdown).trans h.downLink
    services := fun e svc he hsvc' =>
      h.services e svc he ((htc.updateEndpoint_congr eid e (·.pService) hsvc).symm.trans hsvc') }

/-- A step of the handler that sends nothing: the exceptions grow by the endpoints that may owe
a report now. -/
theorem WakeInv.quiet {ex ex' : Set EndpointId} {htc htc' : Context} (h : WakeInv ex htc)
    (hpath : ControlPath numCtrlBuffers htc') (hflight : htc'.inFlight = htc.inFlight)
    (hsoon : htc'.sendCreditUpdateSoon = htc.sendCreditUpdateSoon)
    (hpending : ∀ e, (htc'.endpoints e).pendingCreditReports =
      (htc.endpoints e).pendingCreditReports)
    (howes : ∀ e, e ∉ ex' → htc'.OwesReport e → e ∉ ex ∧ htc.OwesReport e) :
    WakeInv ex' htc' where
  path := hpath
  pending e := by
    rw [hpending, Context.reportsInFlight, hflight]
    exact h.pending e
  soon hsoon' := by
    rw [Context.controlInFlight, hflight]
    exact h.soon (hsoon ▸ hsoon')
  wake e he howes' := by
    obtain ⟨hex, hbefore⟩ := howes e he howes'
    exact hsoon.trans (h.wake e hex hbefore)

/-- An endpoint that owes nothing, or whose report is announced, is no exception any more. -/
theorem WakeInv.settle {ex : Set EndpointId} {htc : Context} (h : WakeInv ex htc)
    {eid : EndpointId} (hsettled : htc.OwesReport eid → htc.sendCreditUpdateSoon = true) :
    WakeInv (ex \ {eid}) htc :=
  { h with
    wake := by
      intro e he howes
      by_cases heq : e = eid
      · exact hsettled (heq ▸ howes)
      · exact h.wake e (fun hmem => he ⟨hmem, heq⟩) howes }

/-- Announcing a report while an endpoint 0 message is in flight. -/
theorem WakeInv.announce {ex ex' : Set EndpointId} {htc : Context} (h : WakeInv ex htc)
    (hflight : 0 < htc.controlInFlight) :
    WakeInv ex' { htc with sendCreditUpdateSoon := true } :=
  { path := { h.path with }, pending := h.pending, soon := fun _ => hflight,
    wake := fun _ _ _ => rfl }

theorem reportsInFlight_le (htc : Context) (e : EndpointId) :
    htc.reportsInFlight e ≤ htc.controlInFlight :=
  List.countP_mono_left fun _ _ h => (Bool.and_eq_true _ _ ▸ h).1

theorem controlInFlight_of_empty {htc : Context} (h : ControlPath numCtrlBuffers htc)
    (hpool : htc.ctrlPool = []) : 0 < htc.controlInFlight := by
  have := h.buffers
  rw [hpool, List.length_nil, numCtrlBuffers] at this
  omega

/-- The report of `eid` itself: its count of pending reports and the mark on the message go up
together. -/
theorem WakeInv.sendReport {ex ex' : Set EndpointId} {htc htc' : Context} {buf : NBuf}
    (h : WakeInv ex htc) (halloc : htcAllocMsgBuffer htc = some (buf, htc')) (eid : EndpointId) :
    WakeInv ex' (htcSendMsg (htc'.updateEndpoint eid (addPendingReports 1)) endpoint0 { buf with htcFlags := creditRptFlags eid }) := by
  obtain ⟨hpath, hcontrol, hhead, hlen⟩ := h.path.alloc halloc
  obtain ⟨old, rest, -, rfl, -⟩ := htcAllocMsgBuffer_some halloc
  set buf' : NBuf := { buf with htcFlags := creditRptFlags eid } with hbuf'
  set htc' := ({ htc with ctrlPool := rest } : Context).updateEndpoint eid
    (addPendingReports 1) with hhtc'
  have hpath' : ControlPath 3 htc' :=
    hpath.updateEndpoint eid _ (fun _ => rfl) (fun _ => rfl)
  refine ⟨?_, ?_, ?_, ?_⟩
  · exact hpath'.sendMsg endpoint0 buf' fun _ =>
      ⟨⟨hcontrol.size, fun _ => creditRptFlags_mark eid⟩, hhead.ge⟩
  · intro e
    obtain ⟨msg, hflight, heid, hflags, -⟩ := htcSendMsg_inFlight htc' endpoint0 buf'
    have hbefore := h.pending e
    have hcount : (htcSendMsg htc' endpoint0 buf').reportsInFlight e =
        htc.reportsInFlight e + if msg.isReportFor e then 1 else 0 := by
      rw [Context.reportsInFlight, hflight, List.countP_append, List.countP_singleton]
      rfl
    rw [htcSendMsg_pendingCreditReports, hcount, hhtc']
    by_cases he : e = eid
    · subst he
      have hmark : msg.isReportFor e = true := by
        rw [SentMsg.isReportFor, SentMsg.isControl, heid, creditRptFlags_reportsFor e msg hflags]
        rfl
      simp only [Context.updateEndpoint_endpoints, Function.update_self, addPendingReports, hmark,
        if_true]
      omega
    · simp only [Context.updateEndpoint_endpoints, Function.update_of_ne he]
      omega
  · intro _
    rw [htcSendMsg_controlInFlight]
    simp
  · intro e _ howes
    exact absurd howes (htcSendMsg_control_clears hpath' hcontrol.size hhead hlen e)

theorem WakeInv.checkReport {ex : Set EndpointId} {htc : Context} (h : WakeInv ex htc)
    (eid : EndpointId) :
    WakeInv (ex \ {eid}) (htcCheckAndSendCreditReport htc (epMask eid) (some eid)) := by
  unfold htcCheckAndSendCreditReport
  by_cases hneeds : htc.epHostNeedsCreditMap &&& epMask eid = 0
  · rw [if_pos hneeds]
    exact h.settle fun howes => absurd hneeds ((and_epMask_ne_zero _ _).mpr howes.1)
  rw [if_neg hneeds]
  by_cases hpending : htc.epCreditPendingMap &&& epMask eid = 0
  · rw [if_pos hpending]
    exact h.settle fun howes => absurd hpending ((and_epMask_ne_zero _ _).mpr howes.2.1)
  rw [if_neg hpending]
  dsimp only
  split
  · rename_i hdribble
    exact h.settle fun howes => absurd howes.2.2 (not_le.mpr hdribble.2)
  split
  · rename_i hlimit
    have hreports := h.pending eid
    have hle := reportsInFlight_le htc eid
    simp only [maxEpPendingCreditRpts] at hlimit
    exact h.announce (by omega)
  split
  · rename_i halloc
    exact h.announce (controlInFlight_of_empty h.path (htcAllocMsgBuffer_none halloc))
  · rename_i buf htc' halloc
    exact h.sendReport halloc eid

/-! ## Returning buffers -/

theorem WakeInv.returnBuffer {ex : Set EndpointId} {htc : Context} (h : WakeInv ex htc)
    (eid : EndpointId) (buf : RecvBuf) : WakeInv (insert eid ex) (returnBuffer htc eid buf) := by
  have notExcepted : ∀ e, e ∉ insert eid ex → e ≠ eid ∧ e ∉ ex := fun e he =>
    ⟨fun heq => he (heq ▸ Set.mem_insert _ _), fun hmem => he (Set.mem_insert_of_mem _ hmem)⟩
  unfold Htc.returnBuffer
  dsimp only [Context.record]
  split
  · have hpath := h.path.updateEndpoint eid earnCredit (fun _ => rfl) (fun _ => rfl)
    refine h.quiet { hpath with } rfl rfl
      (fun e => htc.updateEndpoint_congr eid e (·.pendingCreditReports) fun _ => rfl) ?_
    rintro e he ⟨hneeds, hbit, hcredits⟩
    obtain ⟨hne, hex⟩ := notExcepted e he
    rw [Context.updateEndpoint_of_ne _ earnCredit hne] at hcredits
    refine ⟨hex, hneeds, ?_, hcredits⟩
    simpa [Context.updateEndpoint, BitVec.getLsbD_or, getLsbD_epMask, Ne.symm hne] using hbit
  · exact h.quiet { h.path with } rfl rfl (fun _ => rfl) fun e he howes =>
      ⟨(notExcepted e he).2, howes⟩

theorem WakeInv.htcReturnBuffers {ex : Set EndpointId} {htc : Context} (h : WakeInv ex htc)
    (eid : EndpointId) (buf : RecvBuf) : WakeInv ex (htcReturnBuffers htc eid buf) := by
  unfold Htc.htcReturnBuffers
  dsimp only
  split
  · refine ((h.returnBuffer eid buf).checkReport eid).mono ?_
    intro e he
    exact (Set.mem_insert_iff.mp he.1).resolve_left he.2
  · rename_i hsetup
    unfold Htc.returnBuffer
    dsimp only [Context.record]
    rw [if_neg hsetup]
    exact h.quiet { h.path with } rfl rfl (fun _ => rfl) fun e he howes => ⟨he, howes⟩

theorem WakeInv.htcReturnBuffersList {ex : Set EndpointId} {htc : Context} (h : WakeInv ex htc)
    (eid : EndpointId) (bufs : List RecvBuf) :
    WakeInv ex (htcReturnBuffersList htc eid bufs) := by
  have returned : ∀ (bufs : List RecvBuf) (htc : Context), WakeInv (insert eid ex) htc →
      WakeInv (insert eid ex) (bufs.foldl (fun htc buf => Htc.returnBuffer htc eid buf) htc) := by
    intro bufs
    induction bufs with
    | nil => exact fun _ h => h
    | cons buf bufs ih =>
      intro htc h
      exact ih _ ((h.returnBuffer eid buf).mono (by simp))
  refine ((returned bufs htc (h.mono (Set.subset_insert _ _))).checkReport eid).mono ?_
  intro e he
  exact (Set.mem_insert_iff.mp he.1).resolve_left he.2

theorem WakeInv.runScript {ex : Set EndpointId} {htc htc' : Context} (h : WakeInv ex htc)
    {script : List ServiceAction} (hrun : runScript htc script = some htc') :
    WakeInv ex htc' := by
  induction script generalizing htc with
  | nil =>
    cases hrun
    exact h
  | cons action rest ih =>
    obtain ⟨mid, haction, hrest⟩ := Option.bind_eq_some_iff.mp hrun
    refine ih ?_ hrest
    cases action with
    | returnBuffers eid buf =>
      cases haction
      exact h.htcReturnBuffers eid buf
    | returnBuffersList eid bufs =>
      cases haction
      exact h.htcReturnBuffersList eid bufs
    | sendMsg eid buf =>
      simp only [ServiceAction.run, Option.ite_none_right_eq_some, Option.some.injEq] at haction
      obtain ⟨⟨heid, -⟩, rfl⟩ := haction
      exact h.sendMsg heid buf

/-! ## Control messages -/

theorem findService_mem {htc : Context} {serviceId status : ℕ} {svc : Service}
    {services : List Service} (h : findService htc serviceId services = (status, some svc)) :
    svc ∈ services := by
  induction services with
  | nil => cases h
  | cons head rest ih =>
    rw [findService] at h
    split at h
    · cases h
    split at h
    · cases h
      exact List.mem_cons_self
    · exact List.mem_cons_of_mem _ (ih h)

theorem putTail_size {buf : NBuf} {size : ℕ} (payload : Payload) (h : size ≤ buf.tailroom) :
    (putTail buf size payload).size = buf.size := by
  simp only [NBuf.size, putTail]
  omega

theorem NBuf.Control.putTail {buf : NBuf} (hbuf : buf.Control) {size : ℕ} (payload : Payload)
    (h : size ≤ buf.tailroom) : (putTail buf size payload).Control :=
  ⟨(putTail_size payload h).trans hbuf.size, hbuf.mark⟩

/-- A message of at most 56 bytes fits behind the room for the HTC header. -/
theorem ControlPath.alloc_tailroom {htc htc' : Context} {buf : NBuf} {n : ℕ}
    (h : ControlPath (n + 1) htc) (halloc : htcAllocMsgBuffer htc = some (buf, htc')) :
    buf.tailroom = 56 := by
  obtain ⟨-, hcontrol, hhead, hlen⟩ := h.alloc halloc
  have hsize := hcontrol.size
  simp only [NBuf.size, maxHtcSetupMsgSize, htcHdrLength] at hsize hhead
  omega

/-- A response of the control service in a buffer just taken from the pool. -/
theorem WakeInv.respond {ex : Set EndpointId} {htc htc' : Context} {buf : NBuf}
    (h : WakeInv ex htc) (halloc : htcAllocMsgBuffer htc = some (buf, htc')) {size : ℕ}
    (payload : Payload) (hsize : size ≤ 56) :
    WakeInv ex (htcSendMsg htc' endpoint0 (putTail buf size payload)) :=
  h.sendControl halloc
    (fun hbuf => hbuf.putTail payload (by rw [h.path.alloc_tailroom halloc]; exact hsize)) rfl

theorem WakeInv.htcReady {ex : Set EndpointId} {htc htc' : Context} (h : WakeInv ex htc)
    (hready : htcReady htc = some htc') : WakeInv ex htc' := by
  obtain ⟨⟨buf, mid⟩, halloc, hsend⟩ := Option.bind_eq_some_iff.mp hready
  cases hsend
  exact h.respond halloc _ (by simp [sizeofReadyMsg])

theorem ControlPath.connect {n : ℕ} {htc : Context} (h : ControlPath n htc)
    (inTable : htc.currentEpIndex < 22) {svc : Service} (hsvc : svc.kind ≠ .control)
    (flags : BitVec 16) (down up : ℕ) :
    ControlPath n { htc.updateEndpoint ⟨htc.currentEpIndex, inTable⟩
      (connectEndpoint svc flags down up) with currentEpIndex := htc.currentEpIndex + 1 } := by
  have hidx : endpoint0 ≠ ⟨htc.currentEpIndex, inTable⟩ := by
    have := h.nextEp
    simp only [ne_eq, Fin.ext_iff, endpoint0, Fin.val_zero]
    omega
  have hzero := htc.updateEndpoint_of_ne (connectEndpoint svc flags down up) hidx
  refine { h with control := ?_, downLink := ?_, services := ?_, nextEp := Nat.le_add_left 1 _ }
  · exact (congrArg (·.pService) hzero).trans h.control
  · exact (congrArg (·.downLinkPipeId) hzero).trans h.downLink
  · intro e svc' he hsvc'
    dsimp only at hsvc'
    by_cases heq : e = ⟨htc.currentEpIndex, inTable⟩
    · subst heq
      simp only [Context.updateEndpoint_endpoints, Function.update_self, connectEndpoint,
        Option.some.injEq] at hsvc'
      exact hsvc' ▸ hsvc
    · rw [htc.updateEndpoint_of_ne _ heq] at hsvc'
      exact h.services e svc' he hsvc'

theorem WakeInv.htcProcessConnectMsg {ex : Set EndpointId} {htc htc' : Context}
    (h : WakeInv ex htc) {serviceId down up : ℕ} {flags : BitVec 16}
    (hconnect : htcProcessConnectMsg htc serviceId flags down up = some htc') :
    WakeInv ex htc' := by
  obtain ⟨⟨buf, mid⟩, halloc, hrest⟩ := Option.bind_eq_some_iff.mp hconnect
  dsimp only at hrest
  split at hrest
  · cases hrest
    exact h.respond halloc _ (by simp [sizeofConnectServiceResponseMsg])
  · rename_i status svc hfind
    split at hrest
    · rename_i inTable
      cases hrest
      obtain ⟨hpath, hcontrol, hhead, -⟩ := h.path.alloc halloc
      have hroom := h.path.alloc_tailroom halloc
      obtain ⟨old, rest, -, rfl, -⟩ := htcAllocMsgBuffer_some halloc
      have hbound := hpath.connect inTable (h.path.registered svc (findService_mem hfind)) flags
        down up
      refine hbound.sendControl (hcontrol.putTail _ ?_) hhead ?_ ?_
      · rw [hroom]
        simp [sizeofConnectServiceResponseMsg]
      · intro e
        have := htc.updateEndpoint_congr ⟨htc.currentEpIndex, inTable⟩ e
          (f := connectEndpoint svc flags down up) (·.pendingCreditReports) fun _ => rfl
        exact this.trans_le (h.pending e)
      · rintro e he ⟨hneeds, hbit, hcredits⟩
        refine h.wake e he ⟨hneeds, hbit, ?_⟩
        have hthr := htc.updateEndpoint_congr ⟨htc.currentEpIndex, inTable⟩ e
          (f := connectEndpoint svc flags down up) (·.creditReturnThreshhold) fun _ => rfl
        have hret := htc.updateEndpoint_congr ⟨htc.currentEpIndex, inTable⟩ e
          (f := connectEndpoint svc flags down up) (·.creditsToReturn) fun _ => rfl
        exact hthr.symm.trans_le (hcredits.trans_eq hret)
    · cases hrest

theorem WakeInv.htcProcessConfigPipeMsg {ex : Set EndpointId} {htc htc' : Context}
    (h : WakeInv ex htc) {pipeId creditCount : ℕ}
    (hconfig : htcProcessConfigPipeMsg htc pipeId creditCount = some htc') :
    WakeInv ex htc' := by
  obtain ⟨⟨buf, mid⟩, halloc, hrest⟩ := Option.bind_eq_some_iff.mp hconfig
  have hsize : sizeofConfigPipeResponseMsg ≤ 56 := by simp [sizeofConfigPipeResponseMsg]
  dsimp only at hrest
  split at hrest
  · cases hrest
    exact h.respond halloc _ hsize
  split at hrest
  · split at hrest
    · cases hrest
      obtain ⟨hpath, hbuf, hhead, -⟩ := h.path.alloc halloc
      have hroom := h.path.alloc_tailroom halloc
      obtain ⟨old, rest, -, rfl, -⟩ := htcAllocMsgBuffer_some halloc
      exact ControlPath.sendControl { hpath with }
        (hbuf.putTail _ (by rw [hroom]; exact hsize)) hhead h.pending h.wake
    · cases hrest
  · cases hrest
    exact h.respond halloc _ hsize

theorem WakeInv.processControlMsg {ex : Set EndpointId} {htc htc' : Context}
    (h : WakeInv ex htc) {msg : ControlMsg} (hmsg : processControlMsg htc msg = some htc') :
    WakeInv ex htc' := by
  cases msg with
  | connectService serviceId flags down up => exact h.htcProcessConnectMsg hmsg
  | configPipe pipeId creditCount => exact h.htcProcessConfigPipeMsg hmsg
  | setupComplete =>
    cases hmsg
    exact h
  | unknown =>
    cases hmsg
    exact h

theorem WakeInv.recycleControlBuffer {ex : Set EndpointId} {htc : Context} (h : WakeInv ex htc)
    (eid : EndpointId) (buf : RecvBuf) : WakeInv ex (recycleControlBuffer htc eid buf) := by
  unfold Htc.recycleControlBuffer
  split
  · exact h.htcReturnBuffers endpoint0 buf
  · exact h.quiet { h.path with } rfl rfl (fun _ => rfl) fun e he howes => ⟨he, howes⟩

theorem WakeInv.htcControlSvcProcessMsg {ex : Set EndpointId} {htc htc' : Context}
    (h : WakeInv ex htc) {eid : EndpointId} {msg : ControlMsg} {buf : RecvBuf}
    (hmsg : htcControlSvcProcessMsg htc eid msg buf = some htc') : WakeInv ex htc' := by
  obtain ⟨mid, hprocess, hrest⟩ := Option.bind_eq_some_iff.mp hmsg
  have hmid := (h.processControlMsg hprocess).recycleControlBuffer eid buf
  cases hrest
  split
  · exact hmid.quiet { hmid.path with } rfl rfl (fun _ => rfl) fun e he howes => ⟨he, howes⟩
  · exact hmid

/-! ## The callbacks of the host interface -/

theorem WakeInv.consumeCredit {ex : Set EndpointId} {htc : Context} (h : WakeInv ex htc)
    (eid : EndpointId) : WakeInv ex (consumeCredit htc eid) := by
  unfold Htc.consumeCredit
  split
  · have hpath := h.path.updateEndpoint eid addConsumed (fun _ => rfl) (fun _ => rfl)
    refine h.quiet hpath rfl rfl
      (fun e => htc.updateEndpoint_congr eid e (·.pendingCreditReports) fun _ => rfl) ?_
    rintro e he ⟨hneeds, hbit, hcredits⟩
    have hthr := htc.updateEndpoint_congr eid e (f := addConsumed) (·.creditReturnThreshhold)
      fun _ => rfl
    have hret := htc.updateEndpoint_congr eid e (f := addConsumed) (·.creditsToReturn) fun _ => rfl
    exact ⟨he, hneeds, hbit, hthr.symm.trans_le (hcredits.trans_eq hret)⟩
  · exact h

/-- The flag of a frame changes the host's need of its own endpoint only. -/
theorem WakeInv.noteHostNeed {htc : Context} (h : WakeInv ∅ htc) (eid : EndpointId)
    (flags : BitVec 8) : WakeInv {eid} (noteHostNeed htc eid flags) := by
  unfold Htc.noteHostNeed
  split
  · have hpath := h.path.updateEndpoint eid checkAndAdjustCreditThreshold
      (fun ep => congrArg (·.1) (checkAndAdjustCreditThreshold_untrailed ep))
      (fun ep => congrArg (·.2.2.1) (checkAndAdjustCreditThreshold_untrailed ep))
    refine h.quiet { hpath with } rfl rfl
      (fun e => htc.updateEndpoint_congr eid e (·.pendingCreditReports)
        fun ep => congrArg (·.2.2.2.2.1) (checkAndAdjustCreditThreshold_untrailed ep)) ?_
    rintro e he ⟨hneeds, hbit, hcredits⟩
    have hne : e ≠ eid := he
    rw [Context.updateEndpoint_of_ne _ _ hne] at hcredits
    refine ⟨Set.notMem_empty e, ?_, hbit, hcredits⟩
    simpa [Context.updateEndpoint, BitVec.getLsbD_or, getLsbD_epMask, hne.symm] using hneeds
  · have hpath := h.path.updateEndpoint eid clearThreshold (fun _ => rfl) (fun _ => rfl)
    refine h.quiet { hpath with } rfl rfl
      (fun e => htc.updateEndpoint_congr eid e (·.pendingCreditReports) fun _ => rfl) ?_
    rintro e he ⟨hneeds, hbit, hcredits⟩
    have hne : e ≠ eid := he
    rw [Context.updateEndpoint_of_ne _ _ hne] at hcredits
    refine ⟨Set.notMem_empty e, ?_, hbit, hcredits⟩
    have hbefore := (getLsbD_clear htc.epHostNeedsCreditMap eid e).symm.trans hneeds
    simpa [hne.symm] using hbefore

theorem WakeInv.recvAccount {htc : Context} (h : WakeInv ∅ htc) (eid : EndpointId)
    (frame : Frame) : WakeInv {eid} (recvAccount htc eid frame) := by
  have hrecorded : WakeInv ∅ (htc.record (.received eid frame.buf htc.setupComplete)) :=
    h.quiet { h.path with } rfl rfl (fun _ => rfl) fun e he howes => ⟨he, howes⟩
  exact (hrecorded.consumeCredit eid).noteHostNeed eid frame.flags

theorem WakeInv.htcMsgRecvHandler {htc htc' : Context} (h : WakeInv ∅ htc) {frame : Frame}
    {script : List ServiceAction} (hrecv : htcMsgRecvHandler htc frame script = some htc') :
    WakeInv ∅ htc' := by
  unfold Htc.htcMsgRecvHandler at hrecv
  split at hrecv
  · rename_i inTable
    dsimp only at hrecv
    split at hrecv
    · cases hrecv
      exact h
    · obtain ⟨svc, -, hrest⟩ := Option.bind_eq_some_iff.mp hrecv
      obtain ⟨mid, hservice, hcheck⟩ := Option.bind_eq_some_iff.mp hrest
      cases hcheck
      have hmid : WakeInv {⟨frame.endpointId, inTable⟩} mid := by
        unfold processRecvMsg at hservice
        split at hservice
        · exact (h.recvAccount _ frame).htcControlSvcProcessMsg hservice
        · exact (h.recvAccount _ frame).runScript hservice
      exact (hmid.checkReport _).mono (by simp)
  · cases hrecv

/-! ## Completions -/

theorem countP_eraseIdx {htc : Context} {i : ℕ} {msg : SentMsg}
    (hmsg : htc.inFlight[i]? = some msg) (p : SentMsg → Bool) :
    (htc.inFlight.eraseIdx i).countP p + (if p msg then 1 else 0) = htc.inFlight.countP p := by
  obtain ⟨hi, hget⟩ := List.getElem?_eq_some_iff.mp hmsg
  have hperm := (List.getElem_cons_eraseIdx_perm hi).countP_eq p
  rw [List.countP_cons, hget] at hperm
  exact hperm

theorem pullHtcHdr_size {buf : NBuf} (h : htcHdrLength ≤ buf.len) :
    (pullHtcHdr buf).size = buf.size := by
  simp only [NBuf.size, pullHtcHdr]
  omega

/-- A completed control message goes back to the pool; its report, if it was one, is settled. -/
theorem settleCreditReport_spec {htc htc' : Context} {flags : BitVec 8}
    (h : settleCreditReport htc flags = some htc') :
    (∃ eid, flags &&& htcFlagsCreditRpt ≠ 0 ∧ (flags &&& htcFlagsCrptEpMask).toNat = eid.val ∧
      htc' = htc.updateEndpoint eid (addPendingReports (-1))) ∨
    (flags &&& htcFlagsCreditRpt = 0 ∧ htc' = htc) := by
  unfold settleCreditReport at h
  split at h
  · rename_i hflag
    dsimp only at h
    split at h
    · rename_i inTable
      cases h
      exact .inl ⟨⟨_, inTable⟩, hflag, rfl, rfl⟩
    · cases h
  · rename_i hflag
    cases h
    exact .inr ⟨not_not.mp hflag, rfl⟩

/-- The completed endpoint 0 message is back in the pool and its report settled. -/
theorem WakeInv.complete {htc htc' : Context} (h : WakeInv ∅ htc) {i : ℕ} {msg : SentMsg}
    (hmsg : htc.inFlight[i]? = some msg) (hcontrol : msg.endpointId = endpoint0)
    (hsettle : settleCreditReport { htc with inFlight := htc.inFlight.eraseIdx i }
      msg.nbuf.htcFlags = some htc') :
    ControlPath numCtrlBuffers (htcFreeMsgBuffer htc' (pullHtcHdr msg.nbuf)) ∧
      (∀ e, (htc'.endpoints e).pendingCreditReports ≤ htc'.reportsInFlight e) ∧
      (∀ e, htc'.OwesReport e → htc.OwesReport e) ∧
      htc'.sendCreditUpdateSoon = htc.sendCreditUpdateSoon := by
  have hisControl : msg.isControl = true := decide_eq_true hcontrol
  have hmem : msg ∈ htc.inFlight := List.mem_of_getElem? hmsg
  have hmark := h.path.msgs msg hmem hisControl
  have hcount := countP_eraseIdx hmsg SentMsg.isControl
  rw [hisControl, if_pos rfl] at hcount
  have hpath : ControlPath 3 { htc with inFlight := htc.inFlight.eraseIdx i } := by
    refine { h.path with buffers := ?_, msgs := ?_ }
    · have := h.path.buffers
      simp only [Context.controlInFlight, numCtrlBuffers] at this ⊢
      omega
    · intro m hm
      exact h.path.msgs m (List.mem_of_mem_eraseIdx hm)
  have hfree : ∀ htc₁ : Context, ControlPath 3 htc₁ →
      ControlPath numCtrlBuffers (htcFreeMsgBuffer htc₁ (pullHtcHdr msg.nbuf)) := by
    intro htc₁ h₁
    refine { h₁ with buffers := ?_, pool := ?_ }
    · have := h₁.buffers
      simp only [htcFreeMsgBuffer, Context.controlInFlight, List.length_cons,
        numCtrlBuffers] at this ⊢
      omega
    · intro buf hbuf
      rcases List.mem_cons.mp hbuf with rfl | hbuf
      · exact ⟨(pullHtcHdr_size hmark.2).trans hmark.1.size, hmark.1.mark⟩
      · exact h₁.pool buf hbuf
  have hreports : ∀ e, ((htc.inFlight.eraseIdx i).countP (SentMsg.isReportFor e) : ℕ) +
      (if msg.isReportFor e then 1 else 0) = htc.reportsInFlight e := fun e =>
    countP_eraseIdx hmsg (SentMsg.isReportFor e)
  rcases settleCreditReport_spec hsettle with ⟨eid, hflag, heid, rfl⟩ | ⟨hflag, rfl⟩
  · refine ⟨hfree _ (hpath.updateEndpoint eid _ (fun _ => rfl) (fun _ => rfl)), ?_, ?_, rfl⟩
    · intro e
      have hbefore := h.pending e
      have hreport := hreports e
      change _ ≤ (((htc.inFlight.eraseIdx i).countP (SentMsg.isReportFor e) : ℕ) : Int)
      by_cases he : e = eid
      · subst he
        have hmark : msg.isReportFor e = true := by
          rw [SentMsg.isReportFor, hisControl, Bool.true_and]
          exact decide_eq_true ⟨hflag, heid⟩
        rw [hmark, if_pos rfl] at hreport
        simp only [Context.updateEndpoint_endpoints, Function.update_self, addPendingReports]
        omega
      · have hmark : msg.isReportFor e = false := by
          simp only [SentMsg.isReportFor, NBuf.reportsFor, heid, Bool.and_eq_false_iff,
            decide_eq_false_iff_not, not_and]
          exact .inr fun _ heq => he (Fin.ext heq.symm)
        rw [hmark, if_neg (by simp)] at hreport
        rw [Context.updateEndpoint_of_ne _ _ he]
        dsimp only
        omega
    · rintro e ⟨hneeds, hbit, hcredits⟩
      have hthr := htc.updateEndpoint_congr eid e (f := addPendingReports (-1))
        (·.creditReturnThreshhold) fun _ => rfl
      have hret := htc.updateEndpoint_congr eid e (f := addPendingReports (-1))
        (·.creditsToReturn) fun _ => rfl
      exact ⟨hneeds, hbit, hthr.symm.trans_le (hcredits.trans_eq hret)⟩
  · refine ⟨hfree _ hpath, ?_, fun e howes => howes, rfl⟩
    intro e
    have hmark : msg.isReportFor e = false := by
      simp [SentMsg.isReportFor, NBuf.reportsFor, hflag]
    have hreport := hreports e
    rw [hmark, if_neg (by simp)] at hreport
    change _ ≤ (((htc.inFlight.eraseIdx i).countP (SentMsg.isReportFor e) : ℕ) : Int)
    have hbefore := h.pending e
    dsimp only
    omega

/-- A report that any endpoint asked for empties the pending map. -/
theorem ControlPath.checkAny (htc : Context) (h : ControlPath numCtrlBuffers htc)
    (hpool : htc.ctrlPool ≠ [])
    (hpending : ∀ e, (htc.endpoints e).pendingCreditReports ≤ htc.reportsInFlight e)
    (hsoon : htc.sendCreditUpdateSoon = false) :
    WakeInv ∅ (htcCheckAndSendCreditReport htc (BitVec.allOnes 32) none) ∧
      ∀ e, ¬(htcCheckAndSendCreditReport htc (BitVec.allOnes 32) none).OwesReport e := by
  have idle : (∀ e, ¬htc.OwesReport e) → WakeInv ∅ htc ∧ ∀ e, ¬htc.OwesReport e := fun hquiet =>
    ⟨⟨h, hpending, by simp [hsoon], fun e _ howes => absurd howes (hquiet e)⟩, hquiet⟩
  unfold htcCheckAndSendCreditReport
  rw [BitVec.and_allOnes, BitVec.and_allOnes]
  by_cases hneeds : htc.epHostNeedsCreditMap = 0
  · rw [if_pos hneeds]
    exact idle fun e howes => by simpa [hneeds] using howes.1
  rw [if_neg hneeds]
  by_cases hcredits : htc.epCreditPendingMap = 0
  · rw [if_pos hcredits]
    exact idle fun e howes => by simpa [hcredits] using howes.2.1
  rw [if_neg hcredits]
  dsimp only
  split
  · rename_i halloc
    exact absurd (htcAllocMsgBuffer_none halloc) hpool
  · rename_i buf htc' halloc
    obtain ⟨hpath, hcontrol, hhead, hlen⟩ := h.alloc halloc
    obtain ⟨old, rest, -, rfl, -⟩ := htcAllocMsgBuffer_some halloc
    have hclears := htcSendMsg_control_clears hpath hcontrol.size hhead hlen
    refine ⟨⟨hpath.sendMsg endpoint0 buf fun _ => ⟨hcontrol, hhead.ge⟩,
      fun e => htcSendMsg_pending (hpending e) endpoint0 buf, ?_, ?_⟩, hclears⟩
    · intro _
      rw [htcSendMsg_controlInFlight]
      simp
    · intro e _ howes
      exact absurd howes (hclears e)

theorem WakeInv.htcSendDoneHandler {htc htc' : Context} (h : WakeInv ∅ htc) {i : ℕ}
    {script : List ServiceAction} (hdone : htcSendDoneHandler htc i script = some htc') :
    WakeInv ∅ htc' := by
  obtain ⟨msg, hmsg, hrest⟩ := Option.bind_eq_some_iff.mp hdone
  obtain ⟨svc, hsvc, hrest⟩ := Option.bind_eq_some_iff.mp hrest
  split at hrest
  · rename_i hkind
    have hcontrol : msg.endpointId = endpoint0 := by
      by_contra hne
      exact h.path.services _ svc hne hsvc hkind
    obtain ⟨mid, hsettle, hlast⟩ := Option.bind_eq_some_iff.mp hrest
    obtain ⟨hpath, hpending, howes, hsoon⟩ := h.complete hmsg hcontrol hsettle
    cases hlast
    split
    · exact (ControlPath.checkAny
        { htcFreeMsgBuffer mid (pullHtcHdr msg.nbuf) with sendCreditUpdateSoon := false }
        { hpath with } (List.cons_ne_nil _ _) hpending rfl).1
    · rename_i hnot
      refine ⟨hpath, hpending, fun hset => absurd hset hnot, ?_⟩
      intro e he howe
      exact hsoon.trans (h.wake e he (howes e howe))
  · rename_i hkind
    have hservice : msg.endpointId ≠ endpoint0 := by
      intro heq
      dsimp only at hsvc
      rw [heq, h.path.control] at hsvc
      cases hsvc
      exact hkind rfl
    have hnotControl : msg.isControl = false := decide_eq_false hservice
    have hcount : ∀ p : SentMsg → Bool, p msg = false →
        (htc.inFlight.eraseIdx i).countP p = htc.inFlight.countP p := by
      intro p hp
      have := countP_eraseIdx hmsg p
      simpa [hp] using this
    have hflight : (htc.inFlight.eraseIdx i).countP SentMsg.isControl = htc.controlInFlight :=
      hcount _ hnotControl
    have hmid : WakeInv ∅ { htc with inFlight := htc.inFlight.eraseIdx i } := by
      refine ⟨{ h.path with buffers := ?_, msgs := ?_ }, ?_, ?_, h.wake⟩
      · exact (congrArg (htc.ctrlPool.length + ·) hflight).trans h.path.buffers
      · intro m hm
        exact h.path.msgs m (List.mem_of_mem_eraseIdx hm)
      · intro e
        have hsame := hcount (SentMsg.isReportFor e) (by simp [SentMsg.isReportFor, hnotControl])
        exact (h.pending e).trans_eq (congrArg Nat.cast hsame.symm)
      · intro hset
        exact (h.soon hset).trans_eq hflight.symm
    exact hmid.runScript hrest

/-- A completed control message is always taken back. -/
theorem settleCreditReport_of_mark (htc : Context) {buf : NBuf} (h : buf.Control) :
    ∃ htc', settleCreditReport htc buf.htcFlags = some htc' := by
  unfold settleCreditReport
  by_cases hflag : buf.htcFlags &&& htcFlagsCreditRpt ≠ 0
  · rw [if_pos hflag]
    exact ⟨_, dif_pos (h.mark hflag)⟩
  · rw [if_neg hflag]
    exact ⟨_, rfl⟩

theorem sendComplete_of_soon {htc mid : Context} (nbuf : NBuf)
    (hsettle : settleCreditReport htc nbuf.htcFlags = some mid)
    (hsoon : mid.sendCreditUpdateSoon = true) :
    htcControlSvcProcessSendComplete htc nbuf = some (htcCheckAndSendCreditReport
      { htcFreeMsgBuffer mid nbuf with sendCreditUpdateSoon := false } (BitVec.allOnes 32)
      none) := by
  simp [htcControlSvcProcessSendComplete, hsettle, htcFreeMsgBuffer, hsoon]

/-- The announced report goes out with the next completion of an endpoint 0 message. -/
theorem WakeInv.completion_reports {htc : Context} (h : WakeInv ∅ htc)
    (hsoon : htc.sendCreditUpdateSoon = true) {i : ℕ} {msg : SentMsg}
    (hmsg : htc.inFlight[i]? = some msg) (hcontrol : msg.endpointId = endpoint0)
    (script : List ServiceAction) :
    ∃ htc', Htc.htcSendDoneHandler htc i script = some htc' ∧ ∀ e, ¬htc'.OwesReport e := by
  have hmark := h.path.msgs msg (List.mem_of_getElem? hmsg) (decide_eq_true hcontrol)
  obtain ⟨mid, hsettle⟩ := settleCreditReport_of_mark
    { htc with inFlight := htc.inFlight.eraseIdx i } hmark.1
  obtain ⟨hpath, hpending, -, hkept⟩ := h.complete hmsg hcontrol hsettle
  obtain ⟨-, hclears⟩ := ControlPath.checkAny
    { htcFreeMsgBuffer mid (pullHtcHdr msg.nbuf) with sendCreditUpdateSoon := false }
    { hpath with } (List.cons_ne_nil _ _) hpending rfl
  refine ⟨_, ?_, hclears⟩
  rw [← sendComplete_of_soon (pullHtcHdr msg.nbuf) hsettle (hkept.trans hsoon)]
  simp [Htc.htcSendDoneHandler, hmsg, hcontrol, h.path.control, htcControlService]

/-! ## Runs -/

theorem htcInit_wakeInv (creditSize creditNumber : ℕ) :
    WakeInv ∅ (htcInit creditSize creditNumber) := by
  refine ⟨⟨rfl, rfl, ?_, ?_, le_refl 1, rfl, ?_, ?_⟩, ?_, ?_, ?_⟩
  · intro e svc he hsvc
    simp [htcInit, he] at hsvc
  · change ∀ svc ∈ registeredServices, svc.kind ≠ .control
    decide
  · intro buf hbuf
    rw [List.eq_of_mem_replicate hbuf]
    exact ⟨rfl, by decide⟩
  · intro msg hmsg
    cases hmsg
  · intro e
    simp only [htcInit]
    split <;> simp
  · intro hset
    cases hset
  · rintro e _ ⟨hneeds, -⟩
    simp [htcInit] at hneeds

theorem WakeInv.step {htc htc' : Context} (h : WakeInv ∅ htc) {event : Event}
    (hstep : step event htc = some htc') : WakeInv ∅ htc' := by
  cases event with
  | ready => exact h.htcReady hstep
  | recv frame script => exact h.htcMsgRecvHandler hstep
  | sendDone i script => exact h.htcSendDoneHandler hstep
  | services script => exact h.runScript hstep

theorem reachable_wakeInv {htc : Context} (h : target.Reachable htc) : WakeInv ∅ htc :=
  h.invariant (fun _ ⟨creditSize, creditNumber, hinit⟩ =>
      hinit ▸ htcInit_wakeInv creditSize creditNumber)
    fun _ _ _ hinv _ hstep => hinv.step hstep

/-- No lost credit wake-up: credits the host waits for are reported, or their report is announced
and an endpoint 0 message is in flight whose completion sends it. -/
theorem no_lost_credit_wakeup {htc : Context} (h : target.Reachable htc) :
    (∀ e : EndpointId, htc.epHostNeedsCreditMap.getLsbD e = true →
      htc.epCreditPendingMap.getLsbD e = true →
      (htc.endpoints e).creditReturnThreshhold ≤ (htc.endpoints e).creditsToReturn →
      htc.sendCreditUpdateSoon = true ∧ 0 < htc.controlInFlight) ∧
    (htc.sendCreditUpdateSoon = true → 0 < htc.controlInFlight) ∧
    (htc.sendCreditUpdateSoon = true → ∀ i msg script, htc.inFlight[i]? = some msg →
      msg.endpointId = endpoint0 →
      ∃ htc', step (.sendDone i script) htc = some htc' ∧ ∀ e, ¬htc'.OwesReport e) := by
  have hinv := reachable_wakeInv h
  refine ⟨fun e hneeds hpending hcredits => ?_, hinv.soon, fun hsoon i msg script hmsg hcontrol =>
    hinv.completion_reports hsoon hmsg hcontrol script⟩
  have hsoon := hinv.wake e (Set.notMem_empty e) ⟨hneeds, hpending, hcredits⟩
  exact ⟨hsoon, hinv.soon hsoon⟩

/-- The beacon service is connected, setup completes and four frames that ask for credits each
give their buffer back at once: the fourth report finds the limit of three reached. -/
def exhaustedRun : List Event :=
  [.recv ⟨0, 0, 0, .connectService 0x101 0 hifUsbPipeInterrupt hifUsbPipeTx⟩ [],
    .recv ⟨0, 0, 0, .setupComplete⟩ []] ++
  List.replicate 4 (.recv ⟨1, htcFlagsNeedCreditUpdate, 0, .unknown⟩ [.returnBuffers 1 0])

theorem no_lost_credit_wakeup_exhausted :
    ∃ htc, target.Reachable htc ∧ htc.setupComplete = true ∧ htc.OwesReport 1 ∧
      htc.sendCreditUpdateSoon = true ∧ 0 < htc.controlInFlight := by
  have run : (Machine.runWhere step (fun _ _ => True) exhaustedRun (htcInit 320 45)).map
      (fun htc => (htc.setupComplete, htc.epHostNeedsCreditMap.getLsbD 1,
        htc.epCreditPendingMap.getLsbD 1, decide ((htc.endpoints 1).creditReturnThreshhold ≤
          (htc.endpoints 1).creditsToReturn))) = some (true, true, true, true) := by
    decide +kernel
  obtain ⟨htc, hrun, hfacts⟩ := Option.map_eq_some_iff.mp run
  simp only [Prod.mk.injEq, decide_eq_true_eq] at hfacts
  obtain ⟨hsetup, hneeds, hpending, hcredits⟩ := hfacts
  have hreach : target.Reachable htc :=
    Machine.ReachableWhere.trans (.init ⟨320, 45, rfl⟩) (Machine.stepsWhere_of_runWhere hrun)
  exact ⟨htc, hreach, hsetup, ⟨hneeds, hpending, hcredits⟩,
    (no_lost_credit_wakeup hreach).1 1 hneeds hpending hcredits⟩

end Ath9kHtc.Htc
