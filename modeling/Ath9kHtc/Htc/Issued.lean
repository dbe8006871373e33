import Ath9kHtc.Htc.Wakeup

/-!
# What messages were issued for

`PendingCreditReports` of an endpoint counts its credit reports in flight.  A message is told from
another only by a mark in its buffer, which recycling keeps, so that the reasons for which the
messages in flight were sent are recorded beside them here.
-/

namespace Ath9kHtc.Htc

/-- Why a message was sent: as a credit report of an endpoint, as another message of endpoint 0
(`marked` if its buffer came from the pool with the mark of a report), or by a service. -/
inductive Issue
  | report (eid : EndpointId)
  | control (marked : Bool)
  | service
  deriving DecidableEq, Repr

def NBuf.marked (buf : NBuf) : Bool := decide (buf.htcFlags &&& htcFlagsCreditRpt ≠ 0)

/-- The mark of the buffer that is taken from the pool next. -/
def Context.nextMarked (htc : Context) : Bool := htc.ctrlPool.head?.any NBuf.marked

/-! ## The messages a handler issues -/

/-- What a check issues if it sends. -/
def checkIssue (htc : Context) : Option EndpointId → Issue
  | some eid => .report eid
  | none => .control htc.nextMarked

def checkIssues (htc : Context) (epMask : BitVec 32) (pEndpoint : Option EndpointId) :
    List Issue :=
  if (htcCheckAndSendCreditReport htc epMask pEndpoint).inFlight.length = htc.inFlight.length then
    []
  else [checkIssue htc pEndpoint]

def returnIssues (htc : Context) (eid : EndpointId) (buf : RecvBuf) : List Issue :=
  if htc.setupComplete then checkIssues (returnBuffer htc eid buf) (epMask eid) (some eid) else []

def ServiceAction.issues (htc : Context) : ServiceAction → List Issue
  | .returnBuffers eid buf => returnIssues htc eid buf
  | .returnBuffersList eid bufs =>
    checkIssues (bufs.foldl (fun htc buf => returnBuffer htc eid buf) htc) (epMask eid) (some eid)
  | .sendMsg _ _ => [.service]

def scriptIssues (htc : Context) : List ServiceAction → List Issue
  | [] => []
  | action :: rest =>
    action.issues htc ++ ((action.run htc).map fun htc => scriptIssues htc rest).getD []

/-- A response to the host, if the message asks for one. -/
def ControlMsg.issues (htc : Context) : ControlMsg → List Issue
  | .connectService .. => [.control htc.nextMarked]
  | .configPipe .. => [.control htc.nextMarked]
  | .setupComplete => []
  | .unknown => []

def recycleIssues (htc : Context) (buf : RecvBuf) : List Issue :=
  if htc.setupComplete then returnIssues htc endpoint0 buf else []

def controlMsgIssues (htc : Context) (msg : ControlMsg) (buf : RecvBuf) : List Issue :=
  msg.issues htc ++ ((processControlMsg htc msg).map fun htc => recycleIssues htc buf).getD []

def recvMsgIssues (htc : Context) (pService : Service) (frame : Frame)
    (script : List ServiceAction) : List Issue :=
  if pService.kind = .control then controlMsgIssues htc frame.msg frame.buf
  else scriptIssues htc script

def recvIssues (htc : Context) (frame : Frame) (script : List ServiceAction) : List Issue :=
  if inTable : frame.endpointId < 22 then
    let eid : EndpointId := ⟨frame.endpointId, inTable⟩
    if frame.flags &&& htcFlagsCreditRedistribution ≠ 0 then []
    else
      let htc := recvAccount htc eid frame
      ((htc.endpoints eid).pService.map fun pService =>
        recvMsgIssues htc pService frame script ++
          ((processRecvMsg htc pService eid frame script).map fun htc =>
            checkIssues htc (epMask eid) (some eid)).getD []).getD []
  else []

/-- The anonymous update a completion may send. -/
def sendCompleteIssues (htc : Context) (nbuf : NBuf) : List Issue :=
  ((settleCreditReport htc nbuf.htcFlags).map fun htc =>
    let htc := htcFreeMsgBuffer htc nbuf
    if htc.sendCreditUpdateSoon then
      checkIssues { htc with sendCreditUpdateSoon := false } (BitVec.allOnes 32) none
    else []).getD []

def sendDoneIssues (htc : Context) (i : ℕ) (script : List ServiceAction) : List Issue :=
  (htc.inFlight[i]?.map fun msg =>
    let htc := { htc with inFlight := htc.inFlight.eraseIdx i }
    ((htc.endpoints msg.endpointId).pService.map fun pService =>
      if pService.kind = .control then sendCompleteIssues htc (pullHtcHdr msg.nbuf)
      else scriptIssues htc script).getD []).getD []

def issues : Event → Context → List Issue
  | .ready, htc => [.control htc.nextMarked]
  | .recv frame script, htc => recvIssues htc frame script
  | .sendDone i script, htc => sendDoneIssues htc i script
  | .services script, htc => scriptIssues htc script

/-- The target with the reasons of the messages in flight. -/
structure Tracked where
  htc : Context
  issued : List Issue

/-- The reasons that are left when the event begins. -/
def Event.remaining (issued : List Issue) : Event → List Issue
  | .sendDone i _ => issued.eraseIdx i
  | _ => issued

def trackedStep (event : Event) (t : Tracked) : Option Tracked :=
  (step event t.htc).map fun htc => ⟨htc, event.remaining t.issued ++ issues event t.htc⟩

def tracked : Machine Tracked Event :=
  .ofPartial (fun t => target.Init t.htc ∧ t.issued = []) trackedStep

/-! ## Sending -/

/-- The message is what it was issued as. -/
def Issue.Of (msg : SentMsg) : Issue → Prop
  | .report eid => msg.isReportFor eid = true
  | .control marked => msg.isControl = true ∧ msg.nbuf.marked = marked
  | .service => msg.isControl = false

/-- Messages were sent for these reasons, and every report was counted. -/
structure Issuing (htc : Context) (issued : List Issue) (htc' : Context) : Prop where
  inFlight : ∃ msgs, htc'.inFlight = htc.inFlight ++ msgs ∧
    List.Forall₂ (fun msg issue => issue.Of msg) msgs issued
  pending : ∀ e, (htc'.endpoints e).pendingCreditReports =
    (htc.endpoints e).pendingCreditReports + issued.count (.report e)
  capped : ∀ e, (htc.endpoints e).pendingCreditReports ≤ maxEpPendingCreditRpts →
    (htc'.endpoints e).pendingCreditReports ≤ maxEpPendingCreditRpts

section

variable {htc htc' htc₁ htc₂ : Context} {issued issued' : List Issue}

theorem Issuing.quiet (hflight : htc'.inFlight = htc.inFlight)
    (hpending : ∀ e, (htc'.endpoints e).pendingCreditReports =
      (htc.endpoints e).pendingCreditReports) : Issuing htc [] htc' := by
  constructor
  · exact ⟨[], by rw [hflight, List.append_nil], .nil⟩
  · intro e
    rw [hpending, List.count_nil]
    omega
  · intro e h
    rwa [hpending]

theorem Issuing.refl (htc : Context) : Issuing htc [] htc := .quiet rfl fun _ => rfl

theorem Issuing.trans (h : Issuing htc issued htc₁) (h' : Issuing htc₁ issued' htc₂) :
    Issuing htc (issued ++ issued') htc₂ := by
  obtain ⟨msgs, hflight, hmsgs⟩ := h.inFlight
  obtain ⟨msgs', hflight', hmsgs'⟩ := h'.inFlight
  constructor
  · refine ⟨msgs ++ msgs', by rw [hflight', hflight, List.append_assoc], ?_⟩
    exact List.rel_append hmsgs hmsgs'
  · intro e
    rw [h'.pending, h.pending, List.count_append]
    omega
  · exact fun e hcap => h'.capped e (h.capped e hcap)

/-- A message that is no report. -/
theorem htcSendMsg_issuing (htc : Context) (eid : EndpointId) (buf : NBuf) {issue : Issue}
    (hissue : ∀ msg : SentMsg, msg.endpointId = eid → msg.nbuf.marked = buf.marked →
      issue.Of msg) (hnot : ∀ e, issue ≠ .report e) :
    Issuing htc [issue] (htcSendMsg htc eid buf) := by
  obtain ⟨msg, hflight, heid, hflags, -⟩ := htcSendMsg_inFlight htc eid buf
  have hmarked : msg.nbuf.marked = buf.marked := by
    rw [NBuf.marked, NBuf.marked, hflags, (bufHdr_and _).1]
  have hpending := htcSendMsg_pendingCreditReports htc eid
  constructor
  · exact ⟨[msg], hflight, .cons (hissue msg heid hmarked) .nil⟩
  · intro e
    rw [hpending, List.count_eq_zero_of_not_mem]
    · omega
    · exact fun hmem => hnot e (List.mem_singleton.mp hmem).symm
  · intro e hcap
    rwa [hpending]

/-- A response or an anonymous update, in the buffer the pool gives. -/
theorem sendControl_issuing {buf buf' : NBuf} (halloc : htcAllocMsgBuffer htc = some (buf, htc₁))
    (hflags : buf'.htcFlags = buf.htcFlags) (hflight : htc₂.inFlight = htc₁.inFlight)
    (hpending : ∀ e, (htc₂.endpoints e).pendingCreditReports =
      (htc₁.endpoints e).pendingCreditReports) :
    Issuing htc [.control htc.nextMarked] (htcSendMsg htc₂ endpoint0 buf') := by
  obtain ⟨old, rest, hpool, rfl, -, -, -, hold⟩ := htcAllocMsgBuffer_some halloc
  have hmarked : buf'.marked = htc.nextMarked := by
    rw [Context.nextMarked, hpool, List.head?_cons, Option.any_some, NBuf.marked, NBuf.marked,
      hflags, hold]
  have hsend : Issuing htc₂ [.control htc.nextMarked] (htcSendMsg htc₂ endpoint0 buf') := by
    apply htcSendMsg_issuing
    · intro msg heid hmsg
      exact ⟨decide_eq_true heid, hmsg.trans hmarked⟩
    · exact fun e => Issue.noConfusion
  have hquiet : Issuing htc [] htc₂ := .quiet hflight hpending
  exact hquiet.trans hsend

/-- A credit report of an endpoint, which is counted. -/
theorem sendReport_issuing {buf : NBuf} {eid : EndpointId}
    (halloc : htcAllocMsgBuffer htc = some (buf, htc₁))
    (hcap : (htc.endpoints eid).pendingCreditReports < maxEpPendingCreditRpts) :
    Issuing htc [.report eid] (htcSendMsg (htc₁.updateEndpoint eid (addPendingReports 1)) endpoint0
      { buf with htcFlags := creditRptFlags eid }) := by
  obtain ⟨old, rest, -, rfl, -⟩ := htcAllocMsgBuffer_some halloc
  set counted := ({ htc with ctrlPool := rest } : Context).updateEndpoint eid (addPendingReports 1)
    with hcounted
  set marked : NBuf := { buf with htcFlags := creditRptFlags eid }
  obtain ⟨msg, hflight, heid, hflags, -⟩ := htcSendMsg_inFlight counted endpoint0 marked
  have hpending : ∀ e, ((htcSendMsg counted endpoint0 marked).endpoints e).pendingCreditReports =
      (htc.endpoints e).pendingCreditReports + if e = eid then 1 else 0 := by
    intro e
    rw [htcSendMsg_pendingCreditReports, hcounted]
    by_cases he : e = eid
    · subst he
      simp [addPendingReports]
    · simp [he]
  constructor
  · refine ⟨[msg], hflight, .cons ?_ .nil⟩
    have hcontrol : msg.isControl = true := decide_eq_true heid
    change (msg.isControl && msg.nbuf.reportsFor eid) = true
    rw [hcontrol, creditRptFlags_reportsFor eid msg hflags]
    rfl
  · intro e
    rw [hpending]
    by_cases he : e = eid
    · subst he
      simp
    · have hne : Issue.report eid ≠ .report e := fun heq => he (Issue.report.inj heq).symm
      simp [he, hne]
  · intro e hle
    rw [hpending]
    split
    · rename_i he
      subst he
      omega
    · omega

/-- A check sends nothing, or one message of endpoint 0 in a buffer of the pool. -/
theorem check_cases (htc : Context) (epMask : BitVec 32) (pEndpoint : Option EndpointId) :
    htcCheckAndSendCreditReport htc epMask pEndpoint = htc ∨
    htcCheckAndSendCreditReport htc epMask pEndpoint = { htc with sendCreditUpdateSoon := true } ∨
    ∃ buf htc₁, htcAllocMsgBuffer htc = some (buf, htc₁) ∧
      ((∃ eid, pEndpoint = some eid ∧
          (htc.endpoints eid).pendingCreditReports < maxEpPendingCreditRpts ∧
          htcCheckAndSendCreditReport htc epMask pEndpoint =
            htcSendMsg (htc₁.updateEndpoint eid (addPendingReports 1)) endpoint0
              { buf with htcFlags := creditRptFlags eid }) ∨
        pEndpoint = none ∧
          htcCheckAndSendCreditReport htc epMask pEndpoint = htcSendMsg htc₁ endpoint0 buf) := by
  unfold htcCheckAndSendCreditReport
  split
  · exact .inl rfl
  split
  · exact .inl rfl
  cases pEndpoint with
  | some eid =>
      dsimp only
      split
      · exact .inl rfl
      split
      · exact .inr (.inl rfl)
      · rename_i hcap
        split
        · exact .inr (.inl rfl)
        · rename_i buf htc₁ halloc
          exact .inr (.inr ⟨buf, htc₁, halloc, .inl ⟨eid, rfl, Int.not_le.mp hcap, rfl⟩⟩)
  | none =>
      dsimp only
      split
      · exact .inr (.inl rfl)
      · rename_i buf htc₁ halloc
        exact .inr (.inr ⟨buf, htc₁, halloc, .inr ⟨rfl, rfl⟩⟩)

/-- What a check for credit reports issues. -/
theorem check_issuing (htc : Context) (epMask : BitVec 32) (pEndpoint : Option EndpointId) :
    Issuing htc (checkIssues htc epMask pEndpoint)
      (htcCheckAndSendCreditReport htc epMask pEndpoint) := by
  have hsent : Issuing htc [checkIssue htc pEndpoint]
      (htcCheckAndSendCreditReport htc epMask pEndpoint) →
      Issuing htc (checkIssues htc epMask pEndpoint)
        (htcCheckAndSendCreditReport htc epMask pEndpoint) := by
    intro h
    obtain ⟨msgs, hflight, hmsgs⟩ := h.inFlight
    rw [checkIssues, if_neg]
    · exact h
    · rw [hflight, List.length_append, hmsgs.length_eq]
      simp
  rcases check_cases htc epMask pEndpoint with heq | heq | ⟨buf, htc₁, halloc, hcase⟩
  · rw [checkIssues, heq, if_pos rfl]
    exact .refl htc
  · rw [checkIssues, heq, if_pos rfl]
    exact .quiet rfl fun _ => rfl
  · apply hsent
    rcases hcase with ⟨eid, rfl, hcap, heq⟩ | ⟨rfl, heq⟩
    · rw [heq]
      exact sendReport_issuing halloc hcap
    · rw [heq]
      obtain ⟨old, rest, -, rfl, -⟩ := htcAllocMsgBuffer_some halloc
      exact sendControl_issuing halloc rfl rfl fun _ => rfl

/-! ## Handlers -/

theorem returnBuffer_issuing (htc : Context) (eid : EndpointId) (buf : RecvBuf) :
    Issuing htc [] (returnBuffer htc eid buf) := by
  unfold returnBuffer
  dsimp only
  split
  · refine .quiet rfl fun e => ?_
    exact Context.updateEndpoint_congr _ eid e (f := earnCredit) (·.pendingCreditReports)
      fun _ => rfl
  · exact .quiet rfl fun _ => rfl

theorem htcReturnBuffers_issuing (htc : Context) (eid : EndpointId) (buf : RecvBuf) :
    Issuing htc (returnIssues htc eid buf) (htcReturnBuffers htc eid buf) := by
  have hreturned := returnBuffer_issuing htc eid buf
  unfold htcReturnBuffers returnIssues
  dsimp only
  split
  · exact hreturned.trans (check_issuing ..)
  · exact hreturned

theorem returnList_issuing (htc : Context) (eid : EndpointId) (bufs : List RecvBuf) :
    Issuing htc [] (bufs.foldl (fun htc buf => returnBuffer htc eid buf) htc) := by
  induction bufs generalizing htc with
  | nil => exact .refl htc
  | cons buf bufs ih => exact (returnBuffer_issuing htc eid buf).trans (ih _)

theorem action_issuing {action : ServiceAction} (h : action.run htc = some htc') :
    Issuing htc (action.issues htc) htc' := by
  cases action with
  | returnBuffers eid buf =>
      obtain rfl := Option.some.inj h
      exact htcReturnBuffers_issuing htc eid buf
  | returnBuffersList eid bufs =>
      obtain rfl := Option.some.inj h
      exact (returnList_issuing htc eid bufs).trans (check_issuing ..)
  | sendMsg eid buf =>
      simp only [ServiceAction.run, Option.ite_none_right_eq_some, Option.some.injEq] at h
      obtain ⟨⟨hne, -⟩, rfl⟩ := h
      apply htcSendMsg_issuing
      · intro msg heid _
        exact decide_eq_false (heid ▸ hne)
      · exact fun e => Issue.noConfusion

theorem runScript_issuing {script : List ServiceAction} (h : runScript htc script = some htc') :
    Issuing htc (scriptIssues htc script) htc' := by
  induction script generalizing htc with
  | nil =>
      obtain rfl := Option.some.inj h
      exact .refl htc
  | cons action rest ih =>
      obtain ⟨mid, haction, hrest⟩ := Option.bind_eq_some_iff.mp h
      rw [scriptIssues, haction]
      exact (action_issuing haction).trans (ih hrest)

theorem htcReady_issuing (h : htcReady htc = some htc') :
    Issuing htc [.control htc.nextMarked] htc' := by
  obtain ⟨⟨buf, mid⟩, halloc, hsend⟩ := Option.bind_eq_some_iff.mp h
  obtain rfl := Option.some.inj hsend
  obtain ⟨old, rest, -, rfl, -⟩ := htcAllocMsgBuffer_some halloc
  exact sendControl_issuing halloc rfl rfl fun _ => rfl

theorem htcProcessConnectMsg_issuing {serviceId down up : ℕ} {flags : BitVec 16}
    (h : htcProcessConnectMsg htc serviceId flags down up = some htc') :
    Issuing htc [.control htc.nextMarked] htc' := by
  obtain ⟨⟨buf, mid⟩, halloc, hrest⟩ := Option.bind_eq_some_iff.mp h
  obtain ⟨old, rest, -, rfl, -⟩ := htcAllocMsgBuffer_some halloc
  dsimp only at hrest
  split at hrest
  · obtain rfl := Option.some.inj hrest
    exact sendControl_issuing halloc rfl rfl fun _ => rfl
  · split at hrest
    · obtain rfl := Option.some.inj hrest
      refine sendControl_issuing halloc rfl rfl fun e => ?_
      exact Context.updateEndpoint_congr _ _ e (·.pendingCreditReports) fun _ => rfl
    · cases hrest

theorem htcProcessConfigPipeMsg_issuing {pipeId creditCount : ℕ}
    (h : htcProcessConfigPipeMsg htc pipeId creditCount = some htc') :
    Issuing htc [.control htc.nextMarked] htc' := by
  obtain ⟨⟨buf, mid⟩, halloc, hrest⟩ := Option.bind_eq_some_iff.mp h
  obtain ⟨old, rest, -, rfl, -⟩ := htcAllocMsgBuffer_some halloc
  dsimp only at hrest
  split at hrest
  · obtain rfl := Option.some.inj hrest
    exact sendControl_issuing halloc rfl rfl fun _ => rfl
  split at hrest
  · split at hrest
    · obtain rfl := Option.some.inj hrest
      exact sendControl_issuing halloc rfl rfl fun _ => rfl
    · cases hrest
  · obtain rfl := Option.some.inj hrest
    exact sendControl_issuing halloc rfl rfl fun _ => rfl

theorem processControlMsg_issuing {msg : ControlMsg} (h : processControlMsg htc msg = some htc') :
    Issuing htc (msg.issues htc) htc' := by
  cases msg with
  | connectService serviceId flags down up => exact htcProcessConnectMsg_issuing h
  | configPipe pipeId creditCount => exact htcProcessConfigPipeMsg_issuing h
  | setupComplete =>
      obtain rfl := Option.some.inj h
      exact .refl htc
  | unknown =>
      obtain rfl := Option.some.inj h
      exact .refl htc

theorem recycleControlBuffer_issuing (htc : Context) (eid : EndpointId) (buf : RecvBuf) :
    Issuing htc (recycleIssues htc buf) (recycleControlBuffer htc eid buf) := by
  unfold recycleIssues recycleControlBuffer
  split
  · exact htcReturnBuffers_issuing htc endpoint0 buf
  · exact .quiet rfl fun _ => rfl

theorem htcControlSvcProcessMsg_issuing {eid : EndpointId} {msg : ControlMsg} {buf : RecvBuf}
    (h : htcControlSvcProcessMsg htc eid msg buf = some htc') :
    Issuing htc (controlMsgIssues htc msg buf) htc' := by
  obtain ⟨mid, hprocess, hrest⟩ := Option.bind_eq_some_iff.mp h
  have hmid := (processControlMsg_issuing hprocess).trans (recycleControlBuffer_issuing mid eid buf)
  rw [controlMsgIssues, hprocess]
  obtain rfl := Option.some.inj hrest
  split
  · exact ⟨hmid.inFlight, hmid.pending, hmid.capped⟩
  · exact hmid

theorem consumeCredit_issuing (htc : Context) (eid : EndpointId) :
    Issuing htc [] (consumeCredit htc eid) := by
  unfold consumeCredit
  split
  · exact .quiet rfl fun e =>
      Context.updateEndpoint_congr _ eid e (·.pendingCreditReports) fun _ => rfl
  · exact .refl htc

theorem noteHostNeed_issuing (htc : Context) (eid : EndpointId) (flags : BitVec 8) :
    Issuing htc [] (noteHostNeed htc eid flags) := by
  unfold noteHostNeed
  split
  · refine .quiet rfl fun e => ?_
    exact Context.updateEndpoint_congr _ eid e (f := checkAndAdjustCreditThreshold)
      (·.pendingCreditReports)
      fun ep => congrArg (·.2.2.2.2.1) (checkAndAdjustCreditThreshold_untrailed ep)
  · refine .quiet rfl fun e => ?_
    exact Context.updateEndpoint_congr _ eid e (f := clearThreshold) (·.pendingCreditReports)
      fun _ => rfl

theorem recvAccount_issuing (htc : Context) (eid : EndpointId) (frame : Frame) :
    Issuing htc [] (recvAccount htc eid frame) := by
  have hrecorded : Issuing htc [] (htc.record (.received eid frame.buf htc.setupComplete)) :=
    .quiet rfl fun _ => rfl
  exact (hrecorded.trans (consumeCredit_issuing _ eid)).trans (noteHostNeed_issuing _ eid _)

theorem processRecvMsg_issuing {pService : Service} {eid : EndpointId} {frame : Frame}
    {script : List ServiceAction}
    (h : processRecvMsg htc pService eid frame script = some htc') :
    Issuing htc (recvMsgIssues htc pService frame script) htc' := by
  unfold processRecvMsg at h
  unfold recvMsgIssues
  split at h
  · rw [if_pos ‹_›]
    exact htcControlSvcProcessMsg_issuing h
  · rw [if_neg ‹_›]
    exact runScript_issuing h

theorem htcMsgRecvHandler_issuing {frame : Frame} {script : List ServiceAction}
    (h : htcMsgRecvHandler htc frame script = some htc') :
    Issuing htc (recvIssues htc frame script) htc' := by
  unfold htcMsgRecvHandler at h
  unfold recvIssues
  split at h
  · rename_i inTable
    rw [dif_pos inTable]
    dsimp only at h ⊢
    split at h
    · rw [if_pos ‹_›]
      obtain rfl := Option.some.inj h
      exact .refl htc
    · rw [if_neg ‹_›]
      obtain ⟨svc, hsvc, hrest⟩ := Option.bind_eq_some_iff.mp h
      obtain ⟨mid, hservice, hcheck⟩ := Option.bind_eq_some_iff.mp hrest
      obtain rfl := Option.some.inj hcheck
      rw [hsvc, Option.map_some, Option.getD_some, hservice, Option.map_some, Option.getD_some]
      have hmid := (recvAccount_issuing htc ⟨frame.endpointId, inTable⟩ frame).trans
        (processRecvMsg_issuing hservice)
      exact hmid.trans (check_issuing ..)
  · cases h

/-! ## Completions -/

/-- The report of the completed message is taken off the count. -/
def Issue.settled (e : EndpointId) : Issue → Int
  | .report eid => if eid = e then 1 else 0
  | _ => 0

/-- A completed message of endpoint 0 that is marked only if it was issued as a report. -/
theorem settle_issued {msg : SentMsg} {issue : Issue} (hof : issue.Of msg)
    (hclean : issue ≠ .control true) (hcontrol : msg.isControl = true)
    (h : settleCreditReport htc msg.nbuf.htcFlags = some htc') (e : EndpointId) :
    (htc'.endpoints e).pendingCreditReports =
      (htc.endpoints e).pendingCreditReports - issue.settled e := by
  have hmarked : ∀ eid : EndpointId, msg.isReportFor eid = true →
      msg.nbuf.htcFlags &&& htcFlagsCreditRpt ≠ 0 ∧
        (msg.nbuf.htcFlags &&& htcFlagsCrptEpMask).toNat = eid := by
    intro eid hreport
    exact of_decide_eq_true (Bool.and_eq_true_iff.mp hreport).2
  rcases settleCreditReport_spec h with ⟨eid, hflag, heid, rfl⟩ | ⟨hflag, rfl⟩
  · cases issue with
    | report eid' =>
        obtain rfl : eid' = eid := Fin.ext ((hmarked eid' hof).2.symm.trans heid)
        by_cases he : e = eid'
        · subst he
          simp [addPendingReports, Issue.settled, Int.sub_eq_add_neg]
        · simp [he, Issue.settled, Ne.symm he]
    | control marked =>
        have hmark : msg.nbuf.marked = true := decide_eq_true hflag
        exact absurd (congrArg Issue.control (hof.2.symm.trans hmark)) hclean
    | service => exact absurd (hcontrol.symm.trans hof) (by decide)
  · cases issue with
    | report eid => exact absurd hflag (hmarked eid hof).1
    | control marked => simp [Issue.settled]
    | service => simp [Issue.settled]

theorem count_eraseIdx {i : ℕ} {issue : Issue} (h : issued[i]? = some issue) (e : EndpointId) :
    (((issued.eraseIdx i).count (.report e) : ℕ) : Int) =
      issued.count (.report e) - issue.settled e := by
  obtain ⟨hi, hget⟩ := List.getElem?_eq_some_iff.mp h
  have hperm := (List.getElem_cons_eraseIdx_perm hi).count_eq (Issue.report e)
  rw [List.count_cons, hget] at hperm
  rw [← hperm]
  cases issue with
  | report eid =>
      by_cases he : eid = e
      · simp [Issue.settled, he]
      · simp [Issue.settled, he]
  | control marked => simp [Issue.settled]
  | service => simp [Issue.settled]

theorem forall₂_eraseIdx {R : SentMsg → Issue → Prop} {msgs : List SentMsg}
    (h : List.Forall₂ R msgs issued) (i : ℕ) :
    List.Forall₂ R (msgs.eraseIdx i) (issued.eraseIdx i) := by
  induction h generalizing i with
  | nil => exact .nil
  | cons hR hrest ih =>
      cases i with
      | zero => exact hrest
      | succ i => exact .cons hR (ih i)

/-! ## Runs -/

/-- The counts of pending reports are those of the reports in flight. -/
structure Counted (htc : Context) (issued : List Issue) : Prop where
  inFlight : List.Forall₂ (fun msg issue => issue.Of msg) htc.inFlight issued
  clean : .control true ∉ issued
  pending : ∀ e, (htc.endpoints e).pendingCreditReports = issued.count (.report e)
  capped : ∀ e, (htc.endpoints e).pendingCreditReports ≤ maxEpPendingCreditRpts

theorem Counted.issue (h : Counted htc issued) (hissuing : Issuing htc issued' htc')
    (hclean : .control true ∉ issued') : Counted htc' (issued ++ issued') := by
  obtain ⟨msgs, hflight, hmsgs⟩ := hissuing.inFlight
  constructor
  · rw [hflight]
    exact List.rel_append h.inFlight hmsgs
  · rw [List.mem_append]
    exact not_or.mpr ⟨h.clean, hclean⟩
  · intro e
    rw [hissuing.pending, h.pending, List.count_append]
    omega
  · exact fun e => hissuing.capped e (h.capped e)

theorem Issue.settled_nonneg (issue : Issue) (e : EndpointId) : 0 ≤ issue.settled e := by
  cases issue with
  | report eid =>
      simp only [Issue.settled]
      split <;> omega
  | control marked => exact le_rfl
  | service => exact le_rfl

theorem Counted.issue_of {i : ℕ} {msg : SentMsg} (h : Counted htc issued)
    (hmsg : htc.inFlight[i]? = some msg) :
    ∃ issue, issued[i]? = some issue ∧ issue.Of msg ∧ issue ≠ .control true := by
  obtain ⟨hi, hget⟩ := List.getElem?_eq_some_iff.mp hmsg
  have hi' : i < issued.length := h.inFlight.length_eq ▸ hi
  refine ⟨issued[i], List.getElem?_eq_getElem hi', ?_, ?_⟩
  · have hof := h.inFlight.get hi hi'
    rw [← hget]
    exact hof
  · intro heq
    exact h.clean (heq ▸ List.getElem_mem hi')

/-- The message leaves, and what it was issued for is settled. -/
theorem Counted.complete {i : ℕ} {issue : Issue} (h : Counted htc issued)
    (hissue : issued[i]? = some issue) (hflight : htc'.inFlight = htc.inFlight.eraseIdx i)
    (hpending : ∀ e, (htc'.endpoints e).pendingCreditReports =
      (htc.endpoints e).pendingCreditReports - issue.settled e) :
    Counted htc' (issued.eraseIdx i) := by
  constructor
  · rw [hflight]
    exact forall₂_eraseIdx h.inFlight i
  · exact fun hmem => h.clean (List.mem_of_mem_eraseIdx hmem)
  · intro e
    rw [hpending, h.pending, count_eraseIdx hissue]
  · intro e
    have hcap := h.capped e
    have hsettled := issue.settled_nonneg e
    rw [hpending]
    omega

theorem Counted.sendDone {i : ℕ} {script : List ServiceAction} (h : Counted htc issued)
    (hwake : WakeInv ∅ htc) (hclean : .control true ∉ sendDoneIssues htc i script)
    (hdone : htcSendDoneHandler htc i script = some htc') :
    Counted htc' (issued.eraseIdx i ++ sendDoneIssues htc i script) := by
  obtain ⟨msg, hmsg, hrest⟩ := Option.bind_eq_some_iff.mp hdone
  obtain ⟨svc, hsvc, hrest⟩ := Option.bind_eq_some_iff.mp hrest
  obtain ⟨issue, hissue, hof, hunmarked⟩ := h.issue_of hmsg
  have hsvc' : (htc.endpoints msg.endpointId).pService = some svc := hsvc
  simp only [sendDoneIssues, hmsg, Option.map_some, Option.getD_some, hsvc'] at hclean ⊢
  split at hrest
  · rename_i hkind
    have hcontrol : msg.isControl = true := by
      by_contra hne
      have hother : msg.endpointId ≠ endpoint0 := fun heq => hne (decide_eq_true heq)
      exact hwake.path.services _ svc hother hsvc' hkind
    obtain ⟨mid, hsettle, hlast⟩ := Option.bind_eq_some_iff.mp hrest
    have hmid : Counted (htcFreeMsgBuffer mid (pullHtcHdr msg.nbuf)) (issued.eraseIdx i) := by
      apply h.complete hissue
      · rcases settleCreditReport_spec hsettle with ⟨eid, -, -, rfl⟩ | ⟨-, rfl⟩ <;> rfl
      · have hsettle' : settleCreditReport { htc with inFlight := htc.inFlight.eraseIdx i }
            msg.nbuf.htcFlags = some mid := hsettle
        have hsettled := settle_issued hof hunmarked hcontrol hsettle'
        exact hsettled
    rw [if_pos hkind, sendCompleteIssues, hsettle, Option.map_some, Option.getD_some] at hclean ⊢
    obtain rfl := Option.some.inj hlast
    split
    · rename_i hsoon
      rw [if_pos hsoon] at hclean ⊢
      have hready : Counted
          { htcFreeMsgBuffer mid (pullHtcHdr msg.nbuf) with sendCreditUpdateSoon := false }
          (issued.eraseIdx i) := ⟨hmid.inFlight, hmid.clean, hmid.pending, hmid.capped⟩
      exact hready.issue (check_issuing ..) hclean
    · rename_i hsoon
      rw [if_neg hsoon, List.append_nil]
      exact hmid
  · rename_i hkind
    have hservice : msg.endpointId ≠ endpoint0 := by
      intro heq
      rw [heq, hwake.path.control] at hsvc'
      cases hsvc'
      exact hkind rfl
    have hnotControl : msg.isControl = false := decide_eq_false hservice
    have hsettled : ∀ e, issue.settled e = 0 := by
      intro e
      cases issue with
      | report eid =>
          exact absurd (Bool.and_eq_true_iff.mp hof).1 (by rw [hnotControl]; decide)
      | control marked => rfl
      | service => rfl
    have hmid : Counted { htc with inFlight := htc.inFlight.eraseIdx i } (issued.eraseIdx i) := by
      apply h.complete hissue rfl
      intro e
      rw [hsettled, Int.sub_zero]
    rw [if_neg hkind] at hclean ⊢
    exact hmid.issue (runScript_issuing hrest) hclean

/-- No message but a credit report goes out in a buffer that has the mark of one. -/
def Unmarked (t : Tracked) (event : Event) : Prop :=
  .control true ∉ issues event t.htc

instance decidableUnmarked (t : Tracked) (event : Event) : Decidable (Unmarked t event) :=
  inferInstanceAs (Decidable (_ ∉ _))

theorem Counted.step {t t' : Tracked} {event : Event} (h : Counted t.htc t.issued)
    (hwake : WakeInv ∅ t.htc) (hok : Unmarked t event)
    (hstep : trackedStep event t = some t') : Counted t'.htc t'.issued := by
  obtain ⟨htc', hstep', rfl⟩ := Option.map_eq_some_iff.mp hstep
  cases event with
  | ready => exact h.issue (htcReady_issuing hstep') hok
  | recv frame script => exact h.issue (htcMsgRecvHandler_issuing hstep') hok
  | sendDone i script => exact h.sendDone hwake hok hstep'
  | services script => exact h.issue (runScript_issuing hstep') hok

theorem counted_of_reachable {t : Tracked} (h : tracked.ReachableWhere Unmarked t) :
    WakeInv ∅ t.htc ∧ Counted t.htc t.issued := by
  refine h.invariant (P := fun t => WakeInv ∅ t.htc ∧ Counted t.htc t.issued) ?_ ?_
  · rintro ⟨_, _⟩ ⟨⟨creditSize, creditNumber, rfl⟩, rfl⟩
    refine ⟨htcInit_wakeInv creditSize creditNumber, .nil, by simp, ?_, ?_⟩ <;>
    · intro e
      simp only [htcInit]
      split <;> simp [maxEpPendingCreditRpts]
  · rintro t event t' ⟨hwake, hcounted⟩ hok hstep
    refine ⟨?_, hcounted.step hwake hok hstep⟩
    obtain ⟨htc', hstep', rfl⟩ := Option.map_eq_some_iff.mp hstep
    exact hwake.step hstep'

/-- The reasons are those of the messages in flight, one for each and in their order, and
`PendingCreditReports` counts the credit reports of the endpoint among them. -/
structure ReportsCounted (t : Tracked) : Prop where
  inFlight : List.Forall₂ (fun msg issue => msg.isControl = true ↔ issue ≠ .service)
    t.htc.inFlight t.issued
  pending : ∀ e, (t.htc.endpoints e).pendingCreditReports = t.issued.count (.report e)
  bounds : ∀ e, 0 ≤ (t.htc.endpoints e).pendingCreditReports ∧
    (t.htc.endpoints e).pendingCreditReports ≤ maxEpPendingCreditRpts

theorem reports_counted {t : Tracked} (h : tracked.ReachableWhere Unmarked t) :
    ReportsCounted t := by
  have hcounted := (counted_of_reachable h).2
  constructor
  · refine hcounted.inFlight.imp fun msg issue hof => ?_
    cases issue with
    | report eid => simp [(Bool.and_eq_true_iff.mp hof).1]
    | control marked => simp [hof.1]
    | service =>
        have hnot : msg.isControl = false := hof
        simp [hnot]
  · exact hcounted.pending
  · intro e
    refine ⟨?_, hcounted.capped e⟩
    rw [hcounted.pending]
    exact Int.natCast_nonneg _

end

/-- A service is connected, setup completes, and a frame that asks for credits gives its buffer
back at once: its report is in flight. -/
def reportedRun : List Event :=
  [.recv ⟨0, 0, 0, .connectService 0x101 0 hifUsbPipeInterrupt hifUsbPipeTx⟩ [],
    .recv ⟨0, 0, 0, .setupComplete⟩ [],
    .recv ⟨1, htcFlagsNeedCreditUpdate, 0, .unknown⟩ [.returnBuffers 1 0]]

theorem reports_counted_reported :
    ∃ t, t.issued = [.control false, .report 1] ∧ ReportsCounted t := by
  obtain ⟨t, steps, hissued⟩ := Machine.exists_of_runWhere tracked.Init trackedStep Unmarked
    (P := fun t : Tracked => t.issued = [.control false, .report 1])
    (s := ⟨htcInit 320 45, []⟩) reportedRun (by decide +kernel)
  exact ⟨t, hissued, reports_counted ⟨_, ⟨⟨_, _, rfl⟩, rfl⟩, steps⟩⟩

/-- The buffer of a completed report answers the next request for a pipe, and the completion of
the answer is taken for that of another report. -/
theorem recycled_mark_uncounts :
    ¬ ∀ t, tracked.Reachable t → ReportsCounted t := by
  intro h
  obtain ⟨t, steps, hneg⟩ := Machine.exists_of_runWhere tracked.Init trackedStep
    (fun _ _ => True)
    (P := fun t : Tracked => (t.htc.endpoints 1).pendingCreditReports = -1)
    (s := ⟨htcInit 320 45, []⟩)
    (reportedRun ++ [.sendDone 1 [], .recv ⟨0, 0, 0, .configPipe hifUsbPipeTx 1⟩ [],
      .sendDone 1 []]) (by decide +kernel)
  have hbounds := (h t ⟨_, ⟨⟨_, _, rfl⟩, rfl⟩, steps⟩).bounds 1
  rw [hneg] at hbounds
  exact absurd hbounds.1 (by decide)

end Ath9kHtc.Htc
