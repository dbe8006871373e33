import Ath9kHtc.Htc.Types

/-!
# HTC functions

`htc.c`, function by function.  A function that can dereference a null pointer, index past
the endpoint table or fail an assertion is partial; the others are total.
-/

namespace Ath9kHtc.Htc

def adjustCreditThreshold (pEndpoint : Endpoint) : Endpoint :=
  let creditsOutstanding := aInt16 (pEndpoint.creditsToReturn + pEndpoint.creditsConsumed)
  let level := pEndpoint.connectionFlags &&& htcConnectFlagsThresholdLevelMask
  { pEndpoint with
    creditReturnThreshhold :=
      if level = 0 then creditsOutstanding / 4
      else if level = 1 then creditsOutstanding / 2
      else if level = 2 then aInt16 (creditsOutstanding * 3 / 4)
      else creditsOutstanding }

/-- `CHECK_AND_ADJUST_CREDIT_THRESHOLD` -/
def checkAndAdjustCreditThreshold (pEndpoint : Endpoint) : Endpoint :=
  if pEndpoint.connectionFlags &&& htcConnectFlagsReduceCreditDribble ≠ 0 then
    adjustCreditThreshold pEndpoint
  else pEndpoint

/-! ## `_HTC_SendMsg` -/

/-- What the trailer loop of `_HTC_SendMsg` works on. -/
structure Trailer where
  endpoints : EndpointId → Endpoint
  creditsPendingMap : BitVec 32
  room : Int
  totalReportBytes : ℕ
  reports : List CreditReport

def Trailer.addReport (t : Trailer) (i : EndpointId) : Trailer where
  endpoints := Function.update t.endpoints i
    (checkAndAdjustCreditThreshold { t.endpoints i with creditsToReturn := 0 })
  creditsPendingMap := t.creditsPendingMap &&& ~~~epMask i
  room := t.room - sizeofCreditReport
  totalReportBytes := t.totalReportBytes + sizeofCreditReport
  -- the record holds the count in an unsigned byte
  reports := t.reports ++ [⟨i, ((t.endpoints i).creditsToReturn % 256).toNat⟩]

/-- The walk through the pending credits map. -/
def Trailer.build : List EndpointId → Trailer → Trailer
  | [], t => t
  | i :: is, t =>
    if t.creditsPendingMap = 0 ∨ t.room < sizeofCreditReport then t
    else if t.creditsPendingMap.getLsbD i then
      if (t.addReport i).room < sizeofCreditReport then t.addReport i
      else build is (t.addReport i)
    else build is t

/-- `adf_os_min` of the tail room and of what the pipe's message length leaves, the latter
computed in 32 unsigned bits: it wraps when the message is already too long. -/
def trailerRoom (pipe : ℕ) (pBuffers : NBuf) : Int :=
  let roomForPipeMaxLen :=
    ((hifGetMaxMsgLen pipe : Int) - pBuffers.headroom - pBuffers.len) % 4294967296
  cInt (min (pBuffers.tailroom : Int) roomForPipeMaxLen)

/-- The trailer `_HTC_SendMsg` puts into `room` bytes. -/
def fillTrailer (htc : Context) (room : Int) : Trailer :=
  let none : Trailer := ⟨htc.endpoints, htc.epCreditPendingMap, room, 0, []⟩
  if room < (sizeofCreditReport + sizeofRecordHdr : ℕ) then none
  else if htc.epCreditPendingMap = 0 then none
  else Trailer.build (List.finRange endpointMax)
    { none with room := room - sizeofRecordHdr, totalReportBytes := sizeofRecordHdr }

/-- The buffer with the HTC header pushed in front of its data. -/
def pushHtcHdr (eid : EndpointId) (pBuffers : NBuf) : NBuf :=
  { pBuffers with
    headroom := pBuffers.headroom - htcHdrLength
    len := pBuffers.len + htcHdrLength
    htcFlags := pBuffers.htcFlags ||| htcFlagsBufHdr
    endPoint := eid }

def htcSendMsg (htc : Context) (eid : EndpointId) (pBuffers : NBuf) : Context :=
  let nbuf := pushHtcHdr eid pBuffers
  let pipe := (htc.endpoints eid).downLinkPipeId
  let t := fillTrailer htc (trailerRoom pipe nbuf)
  let msg : SentMsg :=
    { nbuf := { nbuf with
        len := nbuf.len + t.totalReportBytes
        tailroom := nbuf.tailroom - t.totalReportBytes }
      endpointId := eid
      pipe := pipe
      flags := if 0 < t.totalReportBytes then htcFlagsRecvTrailer else 0
      controlBytes0 := t.totalReportBytes % 256
      payloadLen := (pBuffers.len + t.totalReportBytes) % 65536
      reports := t.reports }
  { htc with
    endpoints := t.endpoints
    epCreditPendingMap := t.creditsPendingMap
    inFlight := htc.inFlight ++ [msg]
    log := .trailer t.reports :: htc.log }

/-! ## Control buffers and credit reports -/

/-- `HTCAllocMsgBuffer`: the head of the pool, with room reserved for the HTC header. -/
def htcAllocMsgBuffer (htc : Context) : Option (NBuf × Context) :=
  match htc.ctrlPool with
  | [] => none
  | buf :: rest =>
    some ({ buf with
        headroom := htcHdrLength
        len := 0
        tailroom := buf.headroom + buf.len + buf.tailroom - htcHdrLength
        payload := .empty },
      { htc with ctrlPool := rest })

/-- `adf_nbuf_put_tail` of a message of `size` bytes. -/
def putTail (buf : NBuf) (size : ℕ) (payload : Payload) : NBuf :=
  { buf with len := buf.len + size, tailroom := buf.tailroom - size, payload := payload }

def htcFreeMsgBuffer (htc : Context) (buf : NBuf) : Context :=
  { htc with ctrlPool := buf :: htc.ctrlPool }

/-- `Eid | HTC_FLAGS_CREDIT_RPT` -/
def creditRptFlags (eid : EndpointId) : BitVec 8 := BitVec.ofNat 8 eid ||| htcFlagsCreditRpt

def addPendingReports (n : Int) (ep : Endpoint) : Endpoint :=
  { ep with pendingCreditReports := ep.pendingCreditReports + n }

/-- `pEndpoint` is `none` for the report that any endpoint may ask for. -/
def htcCheckAndSendCreditReport (htc : Context) (epMask : BitVec 32)
    (pEndpoint : Option EndpointId) : Context :=
  if htc.epHostNeedsCreditMap &&& epMask = 0 then htc
  else if htc.epCreditPendingMap &&& epMask = 0 then htc
  else
    match pEndpoint with
    | some eid =>
      let ep := htc.endpoints eid
      if ep.creditReturnThreshhold ≠ 0 ∧ ep.creditsToReturn < ep.creditReturnThreshhold then htc
      else if ep.pendingCreditReports ≥ maxEpPendingCreditRpts then
        { htc with sendCreditUpdateSoon := true }
      else
        match htcAllocMsgBuffer htc with
        | none => { htc with sendCreditUpdateSoon := true }
        | some (pCredBuffer, htc) =>
          htcSendMsg (htc.updateEndpoint eid (addPendingReports 1)) endpoint0 { pCredBuffer with htcFlags := creditRptFlags eid }
    | none =>
      match htcAllocMsgBuffer htc with
      | none => { htc with sendCreditUpdateSoon := true }
      | some (pCredBuffer, htc) => htcSendMsg htc endpoint0 pCredBuffer

def htcReady (htc : Context) : Option Context := do
  let (pBuffer, htc) ← htcAllocMsgBuffer htc
  let pReady := Payload.ready (htc.recvBufferSize % 65536) (htc.totalCredits % 65536).toNat
    endpointMax
  return htcSendMsg htc endpoint0 (putTail pBuffer sizeofReadyMsg pReady)

/-! ## Returning receive buffers -/

/-- One more credit to report to the host. -/
def earnCredit (ep : Endpoint) : Endpoint :=
  { ep with
    creditsToReturn := aInt16 (ep.creditsToReturn + 1)
    creditsConsumed := aInt16 (ep.creditsConsumed - 1) }

/-- `ReturnBuffers`; the caller sends the credit report. -/
def returnBuffer (htc : Context) (eid : EndpointId) (buf : RecvBuf) : Context :=
  let pipe := (htc.endpoints eid).upLinkPipeId
  let htc := htc.record (.returned eid pipe buf htc.setupComplete)
  if htc.setupComplete then
    { htc with epCreditPendingMap := htc.epCreditPendingMap ||| epMask eid }.updateEndpoint eid
      earnCredit
  else { htc with totalCredits := htc.totalCredits + 1 }

def htcReturnBuffers (htc : Context) (eid : EndpointId) (buf : RecvBuf) : Context :=
  let htc' := returnBuffer htc eid buf
  if htc.setupComplete then htcCheckAndSendCreditReport htc' (epMask eid) (some eid) else htc'

def htcReturnBuffersList (htc : Context) (eid : EndpointId) (bufs : List RecvBuf) : Context :=
  let htc := bufs.foldl (fun htc buf => returnBuffer htc eid buf) htc
  htcCheckAndSendCreditReport htc (epMask eid) (some eid)

/-! ## The control service -/

/-- The messages of the host to endpoint 0. -/
inductive ControlMsg
  | connectService (serviceId : ℕ) (connectionFlags : BitVec 16)
      (downLinkPipeId upLinkPipeId : ℕ)
  | configPipe (pipeId creditCount : ℕ)
  | setupComplete
  | unknown

/-- The loop over `pServiceList`: the status of the connection and the service that took it.
Every registered `ProcessConnect` accepts. -/
def findService (htc : Context) (serviceId : ℕ) : List Service → ℕ × Option Service
  | [] => (htcServiceNotFound, none)
  | pService :: rest =>
    if endpointMax ≤ htc.currentEpIndex then (htcServiceNoResources, none)
    else if serviceId = pService.serviceId then (htcServiceSuccess, some pService)
    else findService htc serviceId rest

/-- The endpoint fields a successful connection fills in. -/
def connectEndpoint (pService : Service) (connectionFlags : BitVec 16)
    (downLinkPipeId upLinkPipeId : ℕ) (ep : Endpoint) : Endpoint :=
  { ep with
    pService := some pService
    connectionFlags := connectionFlags
    downLinkPipeId := downLinkPipeId
    upLinkPipeId := upLinkPipeId }

def htcProcessConnectMsg (htc : Context) (serviceId : ℕ) (connectionFlags : BitVec 16)
    (downLinkPipeId upLinkPipeId : ℕ) : Option Context := do
  let (pBuffer, htc) ← htcAllocMsgBuffer htc
  match findService htc serviceId htc.pServiceList with
  | (connectStatus, none) =>
    let pRspMsg := Payload.connectServiceResponse serviceId connectStatus 0 0
    return htcSendMsg htc endpoint0 (putTail pBuffer sizeofConnectServiceResponseMsg pRspMsg)
  | (connectStatus, some pService) =>
    if inTable : htc.currentEpIndex < 22 then
      let pRspMsg := Payload.connectServiceResponse serviceId connectStatus htc.currentEpIndex
        pService.maxSvcMsgSize
      let htc := htc.updateEndpoint ⟨htc.currentEpIndex, inTable⟩
        (connectEndpoint pService connectionFlags downLinkPipeId upLinkPipeId)
      let htc := { htc with currentEpIndex := htc.currentEpIndex + 1 }
      return htcSendMsg htc endpoint0 (putTail pBuffer sizeofConnectServiceResponseMsg pRspMsg)
    else none

def htcProcessConfigPipeMsg (htc : Context) (pipeId creditCount : ℕ) : Option Context := do
  let (pBuffer, htc) ← htcAllocMsgBuffer htc
  let respond (htc : Context) (status : ℕ) : Context :=
    htcSendMsg htc endpoint0
      (putTail pBuffer sizeofConfigPipeResponseMsg (.configPipeResponse pipeId status))
  if ¬hifIsPipeSupported pipeId then
    return respond htc htcConfigpipeNosuchpipe
  else if htc.totalCreditsAssigned + creditCount ≤ htc.totalCredits then
    -- `get_queue_from_pipe` asserts on a pipe without a receive queue
    if hifPipeHasQueue pipeId then
      let htc := { htc with
        totalCreditsAssigned := htc.totalCreditsAssigned + creditCount
        pipes := (pipeId, creditCount) :: htc.pipes }
      return respond htc htcConfigpipeSuccess
    else none
  else
    return respond htc htcConfigpipeNoresource

/-- The switch over the message ID. -/
def processControlMsg (htc : Context) : ControlMsg → Option Context
  | .connectService serviceId flags down up => htcProcessConnectMsg htc serviceId flags down up
  | .configPipe pipeId creditCount => htcProcessConfigPipeMsg htc pipeId creditCount
  | .setupComplete => some htc
  | .unknown => some htc

def ControlMsg.isSetupComplete : ControlMsg → Bool
  | .setupComplete => true
  | _ => false

/-- The message's own buffer earns a credit only once setup is complete. -/
def recycleControlBuffer (htc : Context) (eid : EndpointId) (buf : RecvBuf) : Context :=
  if htc.setupComplete then htcReturnBuffers htc endpoint0 buf
  else htc.record (.returned eid (htc.endpoints eid).upLinkPipeId buf false)

def htcControlSvcProcessMsg (htc : Context) (eid : EndpointId) (msg : ControlMsg)
    (buf : RecvBuf) : Option Context := do
  let htc ← processControlMsg htc msg
  let htc := recycleControlBuffer htc eid buf
  return if msg.isSetupComplete then { htc with setupComplete := true } else htc

/-- The completion of a credit report takes it off the count of the endpoint that asked. -/
def settleCreditReport (htc : Context) (htcFlags : BitVec 8) : Option Context :=
  if htcFlags &&& htcFlagsCreditRpt ≠ 0 then
    let creditRptEndpoint := (htcFlags &&& htcFlagsCrptEpMask).toNat
    if inTable : creditRptEndpoint < 22 then
      some (htc.updateEndpoint ⟨creditRptEndpoint, inTable⟩ (addPendingReports (-1)))
    else none
  else some htc

/-- `nbuf` is the completed buffer, with the HTC header pulled off again. -/
def htcControlSvcProcessSendComplete (htc : Context) (nbuf : NBuf) : Option Context := do
  let htc ← settleCreditReport htc nbuf.htcFlags
  let htc := htcFreeMsgBuffer htc nbuf
  return if htc.sendCreditUpdateSoon then
      htcCheckAndSendCreditReport { htc with sendCreditUpdateSoon := false }
        (BitVec.allOnes 32) none
    else htc

/-! ## Callbacks of the host interface -/

/-- What the services do while they hold the processor. A service sends on the endpoint it was
connected to, which is never endpoint 0. -/
inductive ServiceAction
  | returnBuffers (eid : EndpointId) (buf : RecvBuf)
  | returnBuffersList (eid : EndpointId) (bufs : List RecvBuf)
  | sendMsg (eid : EndpointId) (pBuffers : NBuf)

def ServiceAction.run (htc : Context) : ServiceAction → Option Context
  | .returnBuffers eid buf => some (htcReturnBuffers htc eid buf)
  | .returnBuffersList eid bufs => some (htcReturnBuffersList htc eid bufs)
  | .sendMsg eid pBuffers =>
    -- by convention the caller leaves head room for the HTC header
    if eid ≠ endpoint0 ∧ htcHdrLength ≤ pBuffers.headroom then
      some (htcSendMsg htc eid pBuffers)
    else none

def runScript (htc : Context) : List ServiceAction → Option Context
  | [] => some htc
  | action :: rest => (action.run htc).bind fun htc => runScript htc rest

/-- A frame from the host: its HTC header, the buffer it came in and, for endpoint 0, the
control message. -/
structure Frame where
  endpointId : ℕ
  flags : BitVec 8
  buf : RecvBuf
  msg : ControlMsg

def addConsumed (ep : Endpoint) : Endpoint :=
  { ep with creditsConsumed := aInt16 (ep.creditsConsumed + 1) }

def clearThreshold (ep : Endpoint) : Endpoint := { ep with creditReturnThreshhold := 0 }

/-- After setup the consumption of credits is counted. -/
def consumeCredit (htc : Context) (eid : EndpointId) : Context :=
  if htc.setupComplete then htc.updateEndpoint eid addConsumed else htc

/-- `HTC_FLAGS_NEED_CREDIT_UPDATE` of the frame puts the endpoint into the host-needs-credit
state, its absence takes the endpoint out of it. -/
def noteHostNeed (htc : Context) (eid : EndpointId) (flags : BitVec 8) : Context :=
  if flags &&& htcFlagsNeedCreditUpdate ≠ 0 then
    { htc with epHostNeedsCreditMap := htc.epHostNeedsCreditMap ||| epMask eid }.updateEndpoint eid
      checkAndAdjustCreditThreshold
  else
    { htc with epHostNeedsCreditMap := htc.epHostNeedsCreditMap &&& ~~~epMask eid }.updateEndpoint
      eid clearThreshold

/-- The part of `HTCMsgRecvHandler` in front of the call of the service. -/
def recvAccount (htc : Context) (eid : EndpointId) (frame : Frame) : Context :=
  noteHostNeed (consumeCredit (htc.record (.received eid frame.buf htc.setupComplete)) eid) eid
    frame.flags

/-- `pService->ProcessRecvMsg`: the control service, or what another service does. -/
def processRecvMsg (htc : Context) (pService : Service) (eid : EndpointId) (frame : Frame)
    (script : List ServiceAction) : Option Context :=
  if pService.kind = .control then htcControlSvcProcessMsg htc eid frame.msg frame.buf
  else runScript htc script

def htcMsgRecvHandler (htc : Context) (frame : Frame) (script : List ServiceAction) :
    Option Context :=
  if inTable : frame.endpointId < 22 then
    let eid : EndpointId := ⟨frame.endpointId, inTable⟩
    -- `RedistributeCredit` is empty: the buffer goes nowhere
    if frame.flags &&& htcFlagsCreditRedistribution ≠ 0 then some htc
    else do
      let htc := recvAccount htc eid frame
      let pService ← (htc.endpoints eid).pService
      let htc ← processRecvMsg htc pService eid frame script
      return htcCheckAndSendCreditReport htc (epMask eid) (some eid)
  else none

/-- A frame for a connected endpoint goes through its service. -/
theorem htcMsgRecvHandler_of_service {htc : Context} {frame : Frame} {eid : EndpointId}
    {pService : Service} (script : List ServiceAction) (heid : frame.endpointId = eid)
    (hflags : frame.flags &&& htcFlagsCreditRedistribution = 0)
    (hservice : ((recvAccount htc eid frame).endpoints eid).pService = some pService) :
    htcMsgRecvHandler htc frame script =
      (processRecvMsg (recvAccount htc eid frame) pService eid frame script).map fun htc =>
        htcCheckAndSendCreditReport htc (epMask eid) (some eid) := by
  have inTable : frame.endpointId < 22 := heid ▸ eid.isLt
  have heid' : (⟨frame.endpointId, inTable⟩ : EndpointId) = eid := Fin.ext heid
  rw [htcMsgRecvHandler, dif_pos inTable]
  simp only [heid', hflags, ne_eq, not_true_eq_false, if_false, hservice, Option.bind_eq_bind,
    Option.bind_some, Option.pure_def]
  exact Option.map_eq_bind.symm

/-- The completed buffer with the HTC header pulled off. -/
def pullHtcHdr (buf : NBuf) : NBuf :=
  { buf with headroom := buf.headroom + htcHdrLength, len := buf.len - htcHdrLength }

/-- The completion of the `i`-th frame at the host interface. -/
def htcSendDoneHandler (htc : Context) (i : ℕ) (script : List ServiceAction) :
    Option Context := do
  let msg ← htc.inFlight[i]?
  let htc := { htc with inFlight := htc.inFlight.eraseIdx i }
  let pService ← (htc.endpoints msg.endpointId).pService
  if pService.kind = .control then htcControlSvcProcessSendComplete htc (pullHtcHdr msg.nbuf)
  else runScript htc script

end Ath9kHtc.Htc
