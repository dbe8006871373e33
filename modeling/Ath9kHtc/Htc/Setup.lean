import Mathlib.Algebra.Ring.Int.Defs
import Ath9kHtc.Htc.Issued

/-!
# Connections and pipes

What the host sets up by control messages: the services connected to the endpoints and the pipes
with their credits.  The messages are recorded with the responses to them.
-/

namespace Ath9kHtc.Htc

/-- The fields of an endpoint a connection fills in. -/
def Endpoint.binding (ep : Endpoint) : Option Service × BitVec 16 × ℕ × ℕ :=
  (ep.pService, ep.connectionFlags, ep.downLinkPipeId, ep.upLinkPipeId)

def Payload.isResponse : Payload → Bool
  | .connectServiceResponse .. => true
  | .configPipeResponse .. => true
  | _ => false

/-- The response to the host that a message is. -/
def SentMsg.response? (msg : SentMsg) : Option Payload :=
  if msg.endpointId = endpoint0 ∧ msg.nbuf.payload.isResponse then some msg.nbuf.payload else none

/-! ## What the other functions leave alone -/

/-- These responses were sent, in this order. -/
def Responds (htc htc' : Context) (responses : List Payload) : Prop :=
  ∃ msgs, htc'.inFlight = htc.inFlight ++ msgs ∧ msgs.filterMap SentMsg.response? = responses

/-- Nothing that a control message sets up has changed, and no response was sent. -/
structure SetupKept (htc htc' : Context) : Prop where
  binding : ∀ e, (htc'.endpoints e).binding = (htc.endpoints e).binding
  index : htc'.currentEpIndex = htc.currentEpIndex
  services : htc'.pServiceList = htc.pServiceList
  assigned : htc'.totalCreditsAssigned = htc.totalCreditsAssigned
  total : htc.totalCredits ≤ htc'.totalCredits
  pipes : htc'.pipes = htc.pipes
  flight : Responds htc htc' []

section

variable {htc htc' htc₁ htc₂ : Context}

theorem Responds.trans {responses responses' : List Payload} (h : Responds htc htc₁ responses)
    (h' : Responds htc₁ htc₂ responses') : Responds htc htc₂ (responses ++ responses') := by
  obtain ⟨msgs, hflight, rfl⟩ := h
  obtain ⟨msgs', hflight', rfl⟩ := h'
  refine ⟨msgs ++ msgs', ?_, List.filterMap_append⟩
  rw [hflight', hflight, List.append_assoc]

theorem SetupKept.refl (htc : Context) : SetupKept htc htc :=
  ⟨fun _ => rfl, rfl, rfl, rfl, le_rfl, rfl, [], (List.append_nil _).symm, rfl⟩

theorem SetupKept.trans (h : SetupKept htc htc₁) (h' : SetupKept htc₁ htc₂) :
    SetupKept htc htc₂ where
  binding e := (h'.binding e).trans (h.binding e)
  index := h'.index.trans h.index
  services := h'.services.trans h.services
  assigned := h'.assigned.trans h.assigned
  total := h.total.trans h'.total
  pipes := h'.pipes.trans h.pipes
  flight := h.flight.trans h'.flight

/-- An update of an endpoint that leaves its connection alone. -/
theorem updateEndpoint_setupKept (htc : Context) (eid : EndpointId) {f : Endpoint → Endpoint}
    (hf : ∀ ep, (f ep).binding = ep.binding) : SetupKept htc (htc.updateEndpoint eid f) :=
  { SetupKept.refl htc with binding := fun e => htc.updateEndpoint_congr eid e _ hf }

theorem record_setupKept (htc : Context) (entry : LogEntry) : SetupKept htc (htc.record entry) :=
  { SetupKept.refl htc with }

theorem htcSendMsg_binding (htc : Context) (eid : EndpointId) (buf : NBuf) (e : EndpointId) :
    ((htcSendMsg htc eid buf).endpoints e).binding = (htc.endpoints e).binding := by
  have h := htcSendMsg_untrailed htc eid e buf
  simp only [Endpoint.untrailed, Prod.mk.injEq] at h
  simp only [Endpoint.binding, Prod.mk.injEq]
  exact ⟨h.1, h.2.1, h.2.2.1, h.2.2.2.1⟩

/-- A message is sent with the payload of its buffer, and nothing else is set up by it. -/
theorem htcSendMsg_inFlight_eq (htc : Context) (eid : EndpointId) (buf : NBuf) :
    ∃ msg, (htcSendMsg htc eid buf).inFlight = htc.inFlight ++ [msg] ∧ msg.endpointId = eid ∧
      msg.nbuf.payload = buf.payload :=
  ⟨_, rfl, rfl, rfl⟩

theorem htcSendMsg_setupKept (htc : Context) {eid : EndpointId} {buf : NBuf}
    (h : eid = endpoint0 → buf.payload.isResponse = false) :
    SetupKept htc (htcSendMsg htc eid buf) := by
  obtain ⟨msg, hflight, heid, hpayload⟩ := htcSendMsg_inFlight_eq htc eid buf
  refine ⟨htcSendMsg_binding htc eid buf, rfl, rfl, rfl, le_rfl, rfl, [msg], hflight, ?_⟩
  have hnone : msg.response? = none := by
    rw [SentMsg.response?, heid, hpayload]
    apply if_neg
    rintro ⟨hzero, hresponse⟩
    rw [h hzero] at hresponse
    cases hresponse
  rw [List.filterMap_cons, hnone]
  rfl

theorem alloc_setupKept {buf : NBuf} (h : htcAllocMsgBuffer htc = some (buf, htc₁)) :
    SetupKept htc htc₁ ∧ buf.payload = .empty := by
  unfold htcAllocMsgBuffer at h
  split at h
  · cases h
  · cases h
    exact ⟨{ SetupKept.refl htc with }, rfl⟩

theorem check_setupKept (htc : Context) (mask : BitVec 32) (pEndpoint : Option EndpointId) :
    SetupKept htc (htcCheckAndSendCreditReport htc mask pEndpoint) := by
  rcases check_cases htc mask pEndpoint with heq | heq | ⟨buf, htc₁, halloc, hcase⟩
  · rw [heq]
    exact .refl htc
  · rw [heq]
    exact { SetupKept.refl htc with }
  · obtain ⟨hkept, hempty⟩ := alloc_setupKept halloc
    have hresponse : buf.payload.isResponse = false := by
      rw [hempty]
      rfl
    rcases hcase with ⟨eid, -, -, heq⟩ | ⟨-, heq⟩
    · rw [heq]
      have hcount : SetupKept htc₁ (htc₁.updateEndpoint eid (addPendingReports 1)) :=
        updateEndpoint_setupKept htc₁ eid fun _ => rfl
      exact (hkept.trans hcount).trans (htcSendMsg_setupKept _ fun _ => hresponse)
    · rw [heq]
      exact hkept.trans (htcSendMsg_setupKept _ fun _ => hresponse)

theorem htcReady_setupKept (h : htcReady htc = some htc') : SetupKept htc htc' := by
  obtain ⟨⟨buf, mid⟩, halloc, hsend⟩ := Option.bind_eq_some_iff.mp h
  obtain rfl := Option.some.inj hsend
  exact (alloc_setupKept halloc).1.trans (htcSendMsg_setupKept _ fun _ => rfl)

theorem returnBuffer_setupKept (htc : Context) (eid : EndpointId) (buf : RecvBuf) :
    SetupKept htc (returnBuffer htc eid buf) := by
  unfold returnBuffer
  dsimp only
  split
  · have hmap : SetupKept htc { htc.record (.returned eid (htc.endpoints eid).upLinkPipeId buf
        htc.setupComplete) with
        epCreditPendingMap := htc.epCreditPendingMap ||| epMask eid } :=
      { SetupKept.refl htc with }
    exact hmap.trans (updateEndpoint_setupKept _ eid fun _ => rfl)
  · have hle : htc.totalCredits ≤ htc.totalCredits + 1 := by omega
    exact { SetupKept.refl htc with total := hle }

theorem htcReturnBuffers_setupKept (htc : Context) (eid : EndpointId) (buf : RecvBuf) :
    SetupKept htc (htcReturnBuffers htc eid buf) := by
  have hreturned := returnBuffer_setupKept htc eid buf
  unfold htcReturnBuffers
  dsimp only
  split
  · exact hreturned.trans (check_setupKept ..)
  · exact hreturned

theorem returnList_setupKept (htc : Context) (eid : EndpointId) (bufs : List RecvBuf) :
    SetupKept htc (bufs.foldl (fun htc buf => returnBuffer htc eid buf) htc) := by
  induction bufs generalizing htc with
  | nil => exact .refl htc
  | cons buf bufs ih => exact (returnBuffer_setupKept htc eid buf).trans (ih _)

theorem action_setupKept {action : ServiceAction} (h : action.run htc = some htc') :
    SetupKept htc htc' := by
  cases action with
  | returnBuffers eid buf =>
    obtain rfl := Option.some.inj h
    exact htcReturnBuffers_setupKept htc eid buf
  | returnBuffersList eid bufs =>
    obtain rfl := Option.some.inj h
    exact (returnList_setupKept htc eid bufs).trans (check_setupKept _ (epMask eid) (some eid))
  | sendMsg eid buf =>
    simp only [ServiceAction.run, Option.ite_none_right_eq_some, Option.some.injEq] at h
    obtain ⟨⟨heid, -⟩, rfl⟩ := h
    exact htcSendMsg_setupKept htc fun hzero => absurd hzero heid

theorem runScript_setupKept {script : List ServiceAction} (h : runScript htc script = some htc') :
    SetupKept htc htc' := by
  induction script generalizing htc with
  | nil =>
    obtain rfl := Option.some.inj h
    exact .refl htc
  | cons action rest ih =>
    obtain ⟨mid, haction, hrest⟩ := Option.bind_eq_some_iff.mp h
    exact (action_setupKept haction).trans (ih hrest)

theorem recycle_setupKept (htc : Context) (eid : EndpointId) (buf : RecvBuf) :
    SetupKept htc (recycleControlBuffer htc eid buf) := by
  unfold recycleControlBuffer
  split
  · exact htcReturnBuffers_setupKept htc endpoint0 buf
  · exact record_setupKept htc _

theorem checkAndAdjust_binding (ep : Endpoint) :
    (checkAndAdjustCreditThreshold ep).binding = ep.binding := by
  unfold checkAndAdjustCreditThreshold
  split <;> rfl

theorem recvAccount_setupKept (htc : Context) (eid : EndpointId) (frame : Frame) :
    SetupKept htc (recvAccount htc eid frame) := by
  have hconsume : ∀ htc : Context, SetupKept htc (consumeCredit htc eid) := by
    intro htc
    unfold consumeCredit
    split
    · exact updateEndpoint_setupKept htc eid fun _ => rfl
    · exact .refl htc
  have hnote : ∀ htc : Context, SetupKept htc (noteHostNeed htc eid frame.flags) := by
    intro htc
    unfold noteHostNeed
    split
    · have hmap : SetupKept htc { htc with
          epHostNeedsCreditMap := htc.epHostNeedsCreditMap ||| epMask eid } :=
        { SetupKept.refl htc with }
      exact hmap.trans (updateEndpoint_setupKept _ eid checkAndAdjust_binding)
    · have hmap : SetupKept htc { htc with
          epHostNeedsCreditMap := htc.epHostNeedsCreditMap &&& ~~~epMask eid } :=
        { SetupKept.refl htc with }
      exact hmap.trans (updateEndpoint_setupKept _ eid fun _ => rfl)
  exact ((record_setupKept htc _).trans (hconsume _)).trans (hnote _)

/-- A completed message is taken from the ones in flight. -/
theorem sendComplete_setupKept {nbuf : NBuf}
    (h : htcControlSvcProcessSendComplete htc nbuf = some htc') : SetupKept htc htc' := by
  obtain ⟨mid, hsettle, hrest⟩ := Option.bind_eq_some_iff.mp h
  have hsettled : SetupKept htc mid := by
    unfold settleCreditReport at hsettle
    dsimp only at hsettle
    split at hsettle
    · split at hsettle
      · cases hsettle
        exact updateEndpoint_setupKept htc _ fun _ => rfl
      · cases hsettle
    · cases hsettle
      exact .refl htc
  have hfreed : SetupKept mid (htcFreeMsgBuffer mid nbuf) := { SetupKept.refl mid with }
  dsimp only at hrest
  split at hrest
  · cases hrest
    have hflag : SetupKept mid { htcFreeMsgBuffer mid nbuf with sendCreditUpdateSoon := false } :=
      { SetupKept.refl mid with }
    exact (hsettled.trans hflag).trans (check_setupKept ..)
  · cases hrest
    exact hsettled.trans hfreed

/-! ## Control messages -/

/-- A response is sent in a buffer that was taken from the pool. -/
theorem respond_responds (htc : Context) {buf : NBuf} (h : buf.payload.isResponse = true) :
    Responds htc (htcSendMsg htc endpoint0 buf) [buf.payload] := by
  obtain ⟨msg, hflight, heid, hpayload⟩ := htcSendMsg_inFlight_eq htc endpoint0 buf
  refine ⟨[msg], hflight, ?_⟩
  simp [SentMsg.response?, heid, hpayload, h]

/-- What the search of the services finds is registered under the identifier. -/
theorem findService_spec {serviceId status : ℕ} {svc : Service} {services : List Service}
    (h : findService htc serviceId services = (status, some svc)) :
    svc ∈ services ∧ svc.serviceId = serviceId ∧ status = htcServiceSuccess ∧
      htc.currentEpIndex < endpointMax := by
  refine ⟨findService_mem h, ?_⟩
  induction services with
  | nil => cases h
  | cons head rest ih =>
    rw [findService] at h
    split at h
    · cases h
    · rename_i hroom
      split at h
      · rename_i hid
        cases h
        exact ⟨hid.symm, rfl, not_le.mp hroom⟩
      · exact ih h

theorem findService_none {serviceId status : ℕ} {services : List Service}
    (h : findService htc serviceId services = (status, none)) : status ≠ htcServiceSuccess := by
  induction services with
  | nil =>
    cases h
    decide
  | cons head rest ih =>
    rw [findService] at h
    split at h
    · cases h
      decide
    · split at h
      · cases h
      · exact ih h

/-- What the connection of a service makes of the context. -/
def connected (htc : Context) (eid : EndpointId) (svc : Service) (flags : BitVec 16)
    (down up : ℕ) : Context :=
  { htc.updateEndpoint eid (connectEndpoint svc flags down up) with
    currentEpIndex := htc.currentEpIndex + 1 }

/-- A connect message is refused, which changes nothing, or the service gets the next
endpoint. -/
theorem connect_cases {serviceId : ℕ} {flags : BitVec 16} {down up : ℕ}
    (h : htcProcessConnectMsg htc serviceId flags down up = some htc') :
    ∃ buf mid, SetupKept htc mid ∧
      ((∃ status, status ≠ htcServiceSuccess ∧
          htc' = htcSendMsg mid endpoint0 (putTail buf sizeofConnectServiceResponseMsg
            (.connectServiceResponse serviceId status 0 0))) ∨
        ∃ (eid : EndpointId) (svc : Service), (eid : ℕ) = htc.currentEpIndex ∧
          svc ∈ htc.pServiceList ∧ svc.serviceId = serviceId ∧
          htc' = htcSendMsg (connected mid eid svc flags down up) endpoint0
            (putTail buf sizeofConnectServiceResponseMsg
              (.connectServiceResponse serviceId htcServiceSuccess eid svc.maxSvcMsgSize))) := by
  obtain ⟨⟨buf, mid⟩, halloc, hrest⟩ := Option.bind_eq_some_iff.mp h
  have hkept := (alloc_setupKept halloc).1
  refine ⟨buf, mid, hkept, ?_⟩
  dsimp only at hrest
  rcases hfind : findService mid serviceId mid.pServiceList with ⟨status, _ | svc⟩
  · rw [hfind] at hrest
    obtain rfl := Option.some.inj hrest
    exact .inl ⟨status, findService_none hfind, rfl⟩
  · obtain ⟨hmem, hid, rfl, hroom⟩ := findService_spec hfind
    have inTable : mid.currentEpIndex < 22 := hroom
    rw [hfind] at hrest
    simp only [dif_pos inTable] at hrest
    obtain rfl := Option.some.inj hrest
    exact .inr ⟨⟨mid.currentEpIndex, inTable⟩, svc, hkept.index, hkept.services ▸ hmem, hid, rfl⟩

/-- What the configuration of a pipe makes of the context. -/
def configured (htc : Context) (pipeId creditCount : ℕ) : Context :=
  { htc with
    totalCreditsAssigned := htc.totalCreditsAssigned + creditCount
    pipes := (pipeId, creditCount) :: htc.pipes }

/-- A message for a pipe is refused, which changes nothing, or the pipe is configured. -/
theorem configPipe_cases {pipeId creditCount : ℕ}
    (h : htcProcessConfigPipeMsg htc pipeId creditCount = some htc') :
    ∃ buf mid, SetupKept htc mid ∧
      ((∃ status, status ≠ htcConfigpipeSuccess ∧
          htc' = htcSendMsg mid endpoint0 (putTail buf sizeofConfigPipeResponseMsg
            (.configPipeResponse pipeId status))) ∨
        htc.totalCreditsAssigned + creditCount ≤ mid.totalCredits ∧
          htc' = htcSendMsg (configured mid pipeId creditCount) endpoint0
            (putTail buf sizeofConfigPipeResponseMsg
              (.configPipeResponse pipeId htcConfigpipeSuccess))) := by
  obtain ⟨⟨buf, mid⟩, halloc, hrest⟩ := Option.bind_eq_some_iff.mp h
  have hkept := (alloc_setupKept halloc).1
  refine ⟨buf, mid, hkept, ?_⟩
  dsimp only at hrest
  split at hrest
  · obtain rfl := Option.some.inj hrest
    exact .inl ⟨htcConfigpipeNosuchpipe, by decide, rfl⟩
  split at hrest
  · rename_i hcredits
    split at hrest
    · obtain rfl := Option.some.inj hrest
      exact .inr ⟨hkept.assigned ▸ hcredits, rfl⟩
    · cases hrest
  · obtain rfl := Option.some.inj hrest
    exact .inl ⟨htcConfigpipeNoresource, by decide, rfl⟩

/-- The messages that the host waits for a response to. -/
def ControlMsg.asks : ControlMsg → Bool
  | .connectService .. => true
  | .configPipe .. => true
  | .setupComplete => false
  | .unknown => false

/-- A response can be given: a control buffer is free, and a pipe that is to be configured has a
queue. -/
def Answerable (htc : Context) : ControlMsg → Prop
  | .connectService .. => htc.ctrlPool ≠ []
  | .configPipe pipeId creditCount =>
    htc.ctrlPool ≠ [] ∧
      (hifIsPipeSupported pipeId = true → htc.totalCreditsAssigned + creditCount ≤ htc.totalCredits →
        hifPipeHasQueue pipeId = true)
  | .setupComplete => True
  | .unknown => True

theorem processControlMsg_isSome_iff (msg : ControlMsg) :
    (processControlMsg htc msg).isSome ↔ Answerable htc msg := by
  have halloc : (htcAllocMsgBuffer htc).isSome ↔ htc.ctrlPool ≠ [] := by
    unfold htcAllocMsgBuffer
    cases htc.ctrlPool <;> simp
  cases msg with
  | connectService serviceId flags down up =>
    rw [Answerable, ← halloc, processControlMsg, htcProcessConnectMsg]
    cases hbuf : htcAllocMsgBuffer htc with
    | none => simp
    | some pair =>
      simp only [Option.bind_eq_bind, Option.bind_some, Option.isSome_some, iff_true]
      rcases hfind : findService pair.2 serviceId pair.2.pServiceList with ⟨status, _ | svc⟩
      · rfl
      · have inTable : pair.2.currentEpIndex < 22 := (findService_spec hfind).2.2.2
        simp only [dif_pos inTable]
        rfl
  | configPipe pipeId creditCount =>
    rw [Answerable, ← halloc, processControlMsg, htcProcessConfigPipeMsg]
    cases hbuf : htcAllocMsgBuffer htc with
    | none => simp
    | some pair =>
      have hkept := (alloc_setupKept hbuf).1
      have htotal : pair.2.totalCredits = htc.totalCredits := by
        obtain ⟨_, _, _, hmid, -⟩ := htcAllocMsgBuffer_some hbuf
        rw [hmid]
      simp only [Option.bind_eq_bind, Option.bind_some, Option.isSome_some, true_and,
        hkept.assigned, htotal]
      by_cases hsupported : hifIsPipeSupported pipeId = true
      · by_cases hcredits : htc.totalCreditsAssigned + creditCount ≤ htc.totalCredits
        · by_cases hqueue : hifPipeHasQueue pipeId = true <;> simp [hsupported, hcredits, hqueue]
        · simp [hsupported, hcredits]
      · simp [hsupported]
  | setupComplete => simp [processControlMsg, Answerable]
  | unknown => simp [processControlMsg, Answerable]

end

end Ath9kHtc.Htc
