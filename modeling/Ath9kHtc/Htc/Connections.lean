import Ath9kHtc.Htc.Setup

/-!
# Control messages and their responses

The target with the control messages it has processed and the responses it sent to each, and what
the successful ones among them have set up.
-/

namespace Ath9kHtc.Htc

/-- A control message with the responses sent while it was processed. -/
structure Exchange where
  request : ControlMsg
  responses : List Payload

/-- The endpoint a service was connected to, by a response of status success. -/
structure Connection where
  serviceId : ℕ
  connectionFlags : BitVec 16
  downLinkPipeId : ℕ
  upLinkPipeId : ℕ
  endpointId : ℕ
  deriving DecidableEq, Repr

namespace Exchange

def connection (x : Exchange) : Option Connection :=
  match x.request, x.responses with
  | .connectService serviceId flags down up, [.connectServiceResponse _ status endpointId _] =>
    if status = htcServiceSuccess then some ⟨serviceId, flags, down, up, endpointId⟩ else none
  | _, _ => none

/-- The pipe reported as configured, with its credits. -/
def pipe (x : Exchange) : Option (ℕ × ℕ) :=
  match x.request, x.responses with
  | .configPipe pipeId creditCount, [.configPipeResponse _ status] =>
    if status = htcConfigpipeSuccess then some (pipeId, creditCount) else none
  | _, _ => none

/-- No response of the exchange reports a success. -/
def failed (x : Exchange) : Prop := x.connection = none ∧ x.pipe = none

end Exchange

structure SetupSession where
  htc : Context
  exchanges : List Exchange

/-- The control message in a frame. -/
def Frame.request (frame : Frame) : Option ControlMsg :=
  if frame.endpointId = 0 ∧ frame.flags &&& htcFlagsCreditRedistribution = 0 then some frame.msg
  else none

def Event.request : Event → Option ControlMsg
  | .recv frame _ => frame.request
  | _ => none

def newResponses (htc htc' : Context) : List Payload :=
  (htc'.inFlight.drop htc.inFlight.length).filterMap SentMsg.response?

def setupStep (e : Event) (s : SetupSession) : Option SetupSession :=
  (step e s.htc).map fun htc' =>
    ⟨htc', s.exchanges ++ (e.request.map fun msg => ⟨msg, newResponses s.htc htc'⟩).toList⟩

def setup : Machine SetupSession Event :=
  .ofPartial (fun s => target.Init s.htc ∧ s.exchanges = []) setupStep

/-! ## The handlers -/

section

variable {htc htc' : Context} {frame : Frame} {msg : ControlMsg} {responses : List Payload}

theorem Responds.newResponses_eq (h : Responds htc htc' responses) :
    newResponses htc htc' = responses := by
  obtain ⟨msgs, hflight, rfl⟩ := h
  rw [newResponses, hflight, List.drop_left]

/-- What the handler does before and after it processes the message of the host. -/
theorem recv_cases (hwake : WakeInv ∅ htc) {script : List ServiceAction}
    (h : htcMsgRecvHandler htc frame script = some htc') :
    (frame.request = none ∧ SetupKept htc htc') ∨
      ∃ mid₀ mid₁, frame.request = some frame.msg ∧ SetupKept htc mid₀ ∧
        processControlMsg mid₀ frame.msg = some mid₁ ∧ SetupKept mid₁ htc' := by
  unfold htcMsgRecvHandler at h
  split at h
  case isFalse => cases h
  case isTrue inTable =>
    dsimp only at h
    split at h
    case isTrue hredistribute =>
      cases h
      refine .inl ⟨if_neg fun hand => hredistribute hand.2, .refl htc⟩
    case isFalse hordinary =>
      obtain ⟨pService, hservice, hrest⟩ := Option.bind_eq_some_iff.mp h
      obtain ⟨mid, hprocess, hcheck⟩ := Option.bind_eq_some_iff.mp hrest
      have haccount := recvAccount_setupKept htc ⟨frame.endpointId, inTable⟩ frame
      have hchecked := check_setupKept mid (epMask ⟨frame.endpointId, inTable⟩)
        (some ⟨frame.endpointId, inTable⟩)
      rw [Option.some.inj hcheck] at hchecked
      have hpath := (hwake.recvAccount ⟨frame.endpointId, inTable⟩ frame).path
      rw [processRecvMsg] at hprocess
      by_cases hzero : frame.endpointId = 0
      · have hcontrol : pService.kind = .control := by
          have heid : (⟨frame.endpointId, inTable⟩ : EndpointId) = endpoint0 := Fin.ext hzero
          have hservice₀ := hpath.control
          rw [← heid, hservice] at hservice₀
          cases hservice₀
          rfl
        rw [if_pos hcontrol] at hprocess
        obtain ⟨mid₁, hmsg, hmid⟩ := Option.bind_eq_some_iff.mp hprocess
        have hrecycle := recycle_setupKept mid₁ ⟨frame.endpointId, inTable⟩ frame.buf
        refine .inr ⟨_, mid₁, if_pos ⟨hzero, not_not.mp hordinary⟩, haccount, hmsg, ?_⟩
        have hflagged : SetupKept mid₁ mid := by
          dsimp only at hmid
          split at hmid
          · cases hmid
            exact hrecycle.trans { SetupKept.refl _ with }
          · cases hmid
            exact hrecycle
        exact hflagged.trans hchecked
      · have hother : pService.kind ≠ .control := by
          apply hpath.services _ _ _ hservice
          intro heq
          exact hzero (congrArg Fin.val heq)
        rw [if_neg hother] at hprocess
        refine .inl ⟨if_neg fun hand => hzero hand.1, ?_⟩
        exact (haccount.trans (runScript_setupKept hprocess)).trans hchecked

/-- The frame in front of endpoint 0 is processed exactly when its message can be answered. -/
theorem recv_isSome_iff (hwake : WakeInv ∅ htc) (script : List ServiceAction)
    (h : frame.request = some msg) :
    (htcMsgRecvHandler htc frame script).isSome ↔ Answerable htc msg := by
  rw [Frame.request, Option.ite_none_right_eq_some, Option.some.injEq] at h
  obtain ⟨⟨hzero, hordinary⟩, rfl⟩ := h
  have hpath := (hwake.recvAccount endpoint0 frame).path
  have hsame : Answerable (recvAccount htc endpoint0 frame) frame.msg ↔
      Answerable htc frame.msg := by
    have hpool : (recvAccount htc endpoint0 frame).ctrlPool = htc.ctrlPool ∧
        (recvAccount htc endpoint0 frame).totalCredits = htc.totalCredits := by
      unfold recvAccount consumeCredit noteHostNeed
      constructor <;> split <;> split <;> rfl
    have hassigned := (recvAccount_setupKept htc endpoint0 frame).assigned
    cases frame.msg <;> simp [Answerable, hpool, hassigned]
  have hcontrol : htcControlService.kind = ServiceKind.control := rfl
  rw [htcMsgRecvHandler_of_service script hzero hordinary hpath.control, Option.isSome_map,
    processRecvMsg, if_pos hcontrol, htcControlSvcProcessMsg, ← hsame, ← processControlMsg_isSome_iff]
  cases processControlMsg (recvAccount htc endpoint0 frame) frame.msg <;> simp

end

/-! ## What was set up -/

/-- An endpoint is bound to what the host asked for. -/
def Binds (htc : Context) (c : Connection) : Prop :=
  ∃ (eid : EndpointId) (svc : Service), (eid : ℕ) = c.endpointId ∧ svc ∈ htc.pServiceList ∧
    svc.serviceId = c.serviceId ∧
    (htc.endpoints eid).binding =
      (some svc, c.connectionFlags, c.downLinkPipeId, c.upLinkPipeId)

/-- The context is what these connections and pipes, in the order of their responses, have made
of it. -/
structure Represents (htc : Context) (connections : List Connection) (pipes : List (ℕ × ℕ)) :
    Prop where
  numbered : connections.map (·.endpointId) = List.range' 1 connections.length
  index : htc.currentEpIndex = connections.length + 1
  inTable : htc.currentEpIndex ≤ endpointMax
  bound : ∀ c ∈ connections, Binds htc c
  assigned : htc.totalCreditsAssigned = (pipes.map fun pipe => (pipe.2 : ℤ)).sum
  within : htc.totalCreditsAssigned ≤ htc.totalCredits
  pipes : htc.pipes = pipes.reverse ++ [(hifUsbPipeCommand, 1)]

section

variable {htc htc' : Context} {connections : List Connection} {pipes : List (ℕ × ℕ)}

theorem Represents.init (creditSize creditNumber : ℕ) :
    Represents (htcInit creditSize creditNumber) [] [] :=
  ⟨rfl, rfl, by simp [htcInit, endpointMax], by simp, rfl, by simp [htcInit], rfl⟩

theorem Represents.kept (h : Represents htc connections pipes) (hkept : SetupKept htc htc') :
    Represents htc' connections pipes where
  numbered := h.numbered
  index := hkept.index.trans h.index
  inTable := hkept.index.trans_le h.inTable
  bound c hc := by
    obtain ⟨eid, svc, heid, hmem, hid, hbinding⟩ := h.bound c hc
    exact ⟨eid, svc, heid, hkept.services ▸ hmem, hid, (hkept.binding eid).trans hbinding⟩
  assigned := hkept.assigned.trans h.assigned
  within := by
    rw [hkept.assigned]
    exact h.within.trans hkept.total
  pipes := hkept.pipes.trans h.pipes

/-- Sending a message sets nothing up. -/
theorem Represents.send (h : Represents htc connections pipes) (eid : EndpointId) (buf : NBuf) :
    Represents (htcSendMsg htc eid buf) connections pipes where
  numbered := h.numbered
  index := h.index
  inTable := h.inTable
  bound c hc := by
    obtain ⟨e, svc, he, hmem, hid, hbinding⟩ := h.bound c hc
    exact ⟨e, svc, he, hmem, hid, (htcSendMsg_binding htc eid buf e).trans hbinding⟩
  assigned := h.assigned
  within := h.within
  pipes := h.pipes

/-- The next endpoint is connected, the others stay as they are. -/
theorem Represents.connected (h : Represents htc connections pipes) {eid : EndpointId}
    (heid : (eid : ℕ) = htc.currentEpIndex) {svc : Service} (hsvc : svc ∈ htc.pServiceList)
    {serviceId : ℕ} (hid : svc.serviceId = serviceId) (flags : BitVec 16) (down up : ℕ) :
    Represents (connected htc eid svc flags down up)
      (connections ++ [⟨serviceId, flags, down, up, eid⟩]) pipes where
  numbered := by
    rw [List.map_append, h.numbered, List.length_append, List.length_singleton,
      List.range'_concat, List.map_singleton, heid, h.index, Nat.one_mul, Nat.add_comm]
  index := by
    rw [List.length_append, List.length_singleton, ← h.index]
    rfl
  inTable := by
    have := eid.isLt
    change htc.currentEpIndex + 1 ≤ 22
    omega
  bound c hc := by
    rcases List.mem_append.mp hc with hold | hnew
    · obtain ⟨e, svc', he, hmem, hid', hbinding⟩ := h.bound c hold
      refine ⟨e, svc', he, hmem, hid', ?_⟩
      have hnumber : c.endpointId ∈ connections.map (·.endpointId) := List.mem_map_of_mem hold
      have hne : e ≠ eid := by
        rintro rfl
        rw [h.numbered, List.mem_range'_1] at hnumber
        have := h.index
        omega
      rw [← hbinding]
      exact congrArg Endpoint.binding (htc.updateEndpoint_of_ne _ hne)
    · obtain rfl := List.mem_singleton.mp hnew
      refine ⟨eid, svc, rfl, hsvc, hid, ?_⟩
      simp [Htc.connected, Endpoint.binding, connectEndpoint]
  assigned := h.assigned
  within := h.within
  pipes := h.pipes

theorem Represents.configured (h : Represents htc connections pipes) {pipeId creditCount : ℕ}
    (hcredits : htc.totalCreditsAssigned + creditCount ≤ htc.totalCredits) :
    Represents (configured htc pipeId creditCount) connections
      (pipes ++ [(pipeId, creditCount)]) where
  numbered := h.numbered
  index := h.index
  inTable := h.inTable
  bound := h.bound
  assigned := by
    have := h.assigned
    simp [Htc.configured, this]
  within := hcredits
  pipes := by
    have := h.pipes
    simp [Htc.configured, this]

/-- A message of the host gets one response, if it asks for one, and sets up what the response
says. -/
theorem Represents.processControlMsg {msg : ControlMsg} (h : Represents htc connections pipes)
    (hprocess : processControlMsg htc msg = some htc') :
    ∃ responses, Responds htc htc' responses ∧
      responses.length = (if msg.asks then 1 else 0) ∧
      Represents htc' (connections ++ (Exchange.connection ⟨msg, responses⟩).toList)
        (pipes ++ (Exchange.pipe ⟨msg, responses⟩).toList) ∧
      (Exchange.failed ⟨msg, responses⟩ → SetupKept htc { htc' with inFlight := htc.inFlight }) := by
  -- sending the response sets nothing up
  have hsent : ∀ mid buf, SetupKept htc mid →
      SetupKept htc { htcSendMsg mid endpoint0 buf with inFlight := htc.inFlight } := by
    intro mid buf hkept
    refine ⟨fun e => ?_, hkept.index, hkept.services, hkept.assigned, hkept.total, hkept.pipes,
      [], (List.append_nil _).symm, rfl⟩
    exact (htcSendMsg_binding mid endpoint0 buf e).trans (hkept.binding e)
  cases msg with
  | connectService serviceId flags down up =>
    obtain ⟨buf, mid, hkept, hcase⟩ := connect_cases hprocess
    rcases hcase with ⟨status, hstatus, rfl⟩ | ⟨eid, svc, heid, hsvc, hid, rfl⟩
    · refine ⟨_, hkept.flight.trans (respond_responds _ rfl), rfl, ?_, fun _ => hsent _ _ hkept⟩
      simpa [Exchange.connection, Exchange.pipe, putTail, hstatus] using (h.kept hkept).send _ _
    · refine ⟨_, hkept.flight.trans (respond_responds (Htc.connected mid eid svc flags down up) rfl),
        rfl, ?_, fun hfailed => ?_⟩
      · have hconnected := (h.kept hkept).connected (heid.trans hkept.index.symm)
          (hkept.services ▸ hsvc) hid flags down up
        simpa [Exchange.connection, Exchange.pipe, putTail] using hconnected.send _ _
      · simp [Exchange.failed, Exchange.connection, putTail] at hfailed
  | configPipe pipeId creditCount =>
    obtain ⟨buf, mid, hkept, hcase⟩ := configPipe_cases hprocess
    rcases hcase with ⟨status, hstatus, rfl⟩ | ⟨hcredits, rfl⟩
    · refine ⟨_, hkept.flight.trans (respond_responds _ rfl), rfl, ?_, fun _ => hsent _ _ hkept⟩
      simpa [Exchange.connection, Exchange.pipe, putTail, hstatus] using (h.kept hkept).send _ _
    · refine ⟨_, hkept.flight.trans (respond_responds (Htc.configured mid pipeId creditCount) rfl),
        rfl, ?_, fun hfailed => ?_⟩
      · have hconfigured : Represents (Htc.configured mid pipeId creditCount) _ _ :=
          (h.kept hkept).configured (hkept.assigned ▸ hcredits)
        simpa [Exchange.connection, Exchange.pipe, putTail] using hconfigured.send _ _
      · simp [Exchange.failed, Exchange.pipe, putTail] at hfailed
  | setupComplete =>
    cases hprocess
    refine ⟨[], (SetupKept.refl htc).flight, rfl, ?_, fun _ => .refl htc⟩
    simpa [Exchange.connection, Exchange.pipe] using h
  | unknown =>
    cases hprocess
    refine ⟨[], (SetupKept.refl htc).flight, rfl, ?_, fun _ => .refl htc⟩
    simpa [Exchange.connection, Exchange.pipe] using h

end

/-! ## Runs -/

structure SetupInv (s : SetupSession) : Prop where
  wake : WakeInv ∅ s.htc
  answered : ∀ x ∈ s.exchanges, x.responses.length = if x.request.asks then 1 else 0
  represents : Represents s.htc (s.exchanges.filterMap Exchange.connection)
    (s.exchanges.filterMap Exchange.pipe)

section

variable {s s' : SetupSession} {e : Event}

/-- An event without a message of the host sets nothing up and sends no response. -/
theorem step_setupKept {htc htc' : Context} (hwake : WakeInv ∅ htc) (hnone : e.request = none)
    (h : step e htc = some htc') :
    ∃ flight, SetupKept { htc with inFlight := flight } htc' := by
  cases e with
  | ready => exact ⟨_, htcReady_setupKept h⟩
  | recv frame script =>
    rcases recv_cases hwake h with ⟨-, hkept⟩ | ⟨_, _, hsome, -⟩
    · exact ⟨_, hkept⟩
    · change frame.request = none at hnone
      rw [hnone] at hsome
      cases hsome
  | sendDone i script =>
    obtain ⟨msg, -, hrest⟩ := Option.bind_eq_some_iff.mp h
    obtain ⟨pService, -, hcomplete⟩ := Option.bind_eq_some_iff.mp hrest
    refine ⟨htc.inFlight.eraseIdx i, ?_⟩
    split at hcomplete
    · exact sendComplete_setupKept hcomplete
    · exact runScript_setupKept hcomplete
  | services script => exact ⟨_, runScript_setupKept h⟩

theorem Represents.of_flight {htc : Context} {connections : List Connection}
    {pipes : List (ℕ × ℕ)} (h : Represents htc connections pipes) (flight : List SentMsg) :
    Represents { htc with inFlight := flight } connections pipes :=
  ⟨h.numbered, h.index, h.inTable, h.bound, h.assigned, h.within, h.pipes⟩

theorem filterMap_singleton {α β : Type} (f : α → Option β) (x : α) :
    [x].filterMap f = (f x).toList := by
  cases h : f x <;> simp [h]

/-- A message of the host adds its exchange. -/
theorem SetupInv.exchange (h : SetupInv s) {msg : ControlMsg} (hmsg : e.request = some msg)
    (hs : setupStep e s = some s') :
    ∃ x, s'.exchanges = s.exchanges ++ [x] ∧
      x.responses.length = (if x.request.asks then 1 else 0) ∧
      Represents s'.htc ((s.exchanges ++ [x]).filterMap Exchange.connection)
        ((s.exchanges ++ [x]).filterMap Exchange.pipe) ∧
      (x.failed → SetupKept s.htc { s'.htc with inFlight := s.htc.inFlight }) := by
  obtain ⟨htc', hstep, rfl⟩ := Option.map_eq_some_iff.mp hs
  cases e with
  | recv frame script =>
    change frame.request = some msg at hmsg
    rcases recv_cases h.wake hstep with ⟨hnone, -⟩ | ⟨mid₀, mid₁, hsome, hbefore, hprocess, hafter⟩
    · rw [hnone] at hmsg
      cases hmsg
    · obtain rfl : frame.msg = msg := Option.some.inj (hsome.symm.trans hmsg)
      obtain ⟨responses, hresponds, hlength, hrepresents, hfailed⟩ :=
        (h.represents.kept hbefore).processControlMsg hprocess
      have hall : Responds s.htc htc' responses := by
        simpa using (hbefore.flight.trans hresponds).trans hafter.flight
      refine ⟨⟨frame.msg, responses⟩, ?_, hlength, ?_, fun hfail => ?_⟩
      · simp only [Event.request, hmsg, Option.map_some, Option.toList_some, hall.newResponses_eq]
      · rw [List.filterMap_append, List.filterMap_append, filterMap_singleton, filterMap_singleton]
        exact hrepresents.kept hafter
      · have hmid := hfailed hfail
        exact ⟨fun e => ((hafter.binding e).trans (hmid.binding e)).trans (hbefore.binding e),
          (hafter.index.trans hmid.index).trans hbefore.index,
          (hafter.services.trans hmid.services).trans hbefore.services,
          (hafter.assigned.trans hmid.assigned).trans hbefore.assigned,
          (hbefore.total.trans hmid.total).trans hafter.total,
          (hafter.pipes.trans hmid.pipes).trans hbefore.pipes, [],
          (List.append_nil _).symm, rfl⟩
  | ready => cases hmsg
  | sendDone i script => cases hmsg
  | services script => cases hmsg

theorem SetupInv.step (h : SetupInv s) (hs : setupStep e s = some s') : SetupInv s' := by
  obtain ⟨htc', hstep, rfl⟩ := Option.map_eq_some_iff.mp hs
  cases hmsg : e.request with
  | none =>
    obtain ⟨flight, hkept⟩ := step_setupKept h.wake hmsg hstep
    refine ⟨h.wake.step hstep, ?_, ?_⟩
    · simpa using h.answered
    · simpa using (h.represents.of_flight flight).kept hkept
  | some msg =>
    obtain ⟨x, hexchanges, hlength, hrepresents, -⟩ := h.exchange hmsg hs
    simp only [hmsg] at hexchanges
    refine ⟨h.wake.step hstep, ?_, ?_⟩
    · rw [hexchanges]
      intro y hy
      rcases List.mem_append.mp hy with hold | hnew
      · exact h.answered y hold
      · rwa [List.mem_singleton.mp hnew]
    · rw [hexchanges]
      exact hrepresents

theorem setupInv (h : setup.Reachable s) : SetupInv s := by
  apply h.invariant
  · rintro s ⟨⟨creditSize, creditNumber, hinit⟩, hnone⟩
    refine ⟨hinit ▸ htcInit_wakeInv creditSize creditNumber, ?_, ?_⟩
    · rw [hnone]
      simp
    · rw [hinit, hnone]
      exact .init creditSize creditNumber
  · exact fun _ _ _ hinv _ hs => hinv.step hs

end

/-- A frame with a message for endpoint 0. -/
def controlFrame (msg : ControlMsg) : Event := .recv ⟨0, 0, 0, msg⟩ []

def freshSession : SetupSession := ⟨htcInit 320 45, []⟩

theorem freshSession_init : setup.Init freshSession := ⟨⟨320, 45, rfl⟩, rfl⟩

end Ath9kHtc.Htc
