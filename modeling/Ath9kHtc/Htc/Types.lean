import Mathlib.Algebra.Ring.Nat
import Mathlib.Data.List.FinRange
import Mathlib.Logic.Function.Basic

/-!
# HTC data model

The endpoint table, the credit maps and the buffers of `htc.c`.  What the host
interface sees (returned receive buffers, submitted frames) is kept in a log, so
that the counters of the endpoints can be compared with it.
-/

namespace Ath9kHtc.Htc

/-- `ENDPOINT_MAX` endpoints; an index outside the table is not a value of this type. -/
abbrev EndpointId := Fin 22

instance neZeroEndpoints : NeZero 22 := ⟨by decide⟩

def endpointMax : ℕ := 22

def endpoint0 : EndpointId := 0

/-- `A_INT16`: what a 16-bit signed field keeps of `x`. -/
def aInt16 (x : Int) : Int := (x + 32768) % 65536 - 32768

theorem aInt16_of_bounds {x : Int} (lo : -32768 ≤ x) (hi : x < 32768) : aInt16 x = x := by
  unfold aInt16
  omega

/-- What a C `int` keeps of `x`. -/
def cInt (x : Int) : Int := (x + 2147483648) % 4294967296 - 2147483648

-- sizes of the wire records
def htcHdrLength : ℕ := 8
def sizeofRecordHdr : ℕ := 2
def sizeofCreditReport : ℕ := 2
def sizeofReadyMsg : ℕ := 8
def sizeofConnectServiceResponseMsg : ℕ := 10
def sizeofConfigPipeResponseMsg : ℕ := 4

def maxHtcSetupMsgSize : ℕ := 64
def numCtrlBuffers : ℕ := 4
def maxEpPendingCreditRpts : Int := 3

-- frame header flags
def htcFlagsNeedCreditUpdate : BitVec 8 := 1
def htcFlagsRecvTrailer : BitVec 8 := 2
def htcFlagsCreditRedistribution : BitVec 8 := 4

-- flags of a buffer's private area
def htcFlagsCrptEpMask : BitVec 8 := 0x1F
def htcFlagsCreditRpt : BitVec 8 := 0x20
def htcFlagsBufHdr : BitVec 8 := 0x40

-- connection flags
def htcConnectFlagsReduceCreditDribble : BitVec 16 := 4
def htcConnectFlagsThresholdLevelMask : BitVec 16 := 3

-- connect and pipe status codes
def htcServiceSuccess : ℕ := 0
def htcServiceNotFound : ℕ := 1
def htcServiceNoResources : ℕ := 3
def htcConfigpipeSuccess : ℕ := 0
def htcConfigpipeNosuchpipe : ℕ := 1
def htcConfigpipeNoresource : ℕ := 2

-- USB pipes
def hifUsbPipeTx : ℕ := 1
def hifUsbPipeInterrupt : ℕ := 3
def hifUsbPipeCommand : ℕ := 4
def hifUsbPipeHpTx : ℕ := 5
def hifUsbPipeMpTx : ℕ := 6

/-- `_HIFusb_get_max_msg_len_patch` -/
def hifGetMaxMsgLen (pipe : ℕ) : ℕ :=
  if pipe = hifUsbPipeInterrupt ∨ pipe = hifUsbPipeCommand then 512 else 1600

/-- `_HIFusb_is_pipe_supported` -/
def hifIsPipeSupported (pipe : ℕ) : Bool :=
  decide (hifUsbPipeTx ≤ pipe ∧ pipe ≤ hifUsbPipeMpTx)

/-- The pipes `_HIFusb_config_pipe` and `_HIFusb_return_recv_buf` have a queue for; any other
fails the assertion of `get_queue_from_pipe`. -/
def hifPipeHasQueue (pipe : ℕ) : Bool :=
  pipe = hifUsbPipeCommand ∨ pipe = hifUsbPipeTx ∨ pipe = hifUsbPipeHpTx ∨ pipe = hifUsbPipeMpTx

/-- The handlers a service can be registered with. -/
inductive ServiceKind
  | control | wmi | beacon | cab | uapsd | mgmt | dataBE | dataBK | dataVI | dataVO
  deriving DecidableEq, Repr

structure Service where
  kind : ServiceKind
  serviceId : ℕ
  maxSvcMsgSize : ℕ
  deriving DecidableEq, Repr

def htcControlService : Service := ⟨.control, 0, maxHtcSetupMsgSize⟩

/-- `pServiceList` after `tgt_hif_htc_wmi_init`: each registration pushes at the head. -/
def registeredServices : List Service :=
  [⟨.wmi, 0x100, 1540⟩, ⟨.dataVO, 0x105, 1600⟩, ⟨.dataVI, 0x106, 1600⟩, ⟨.dataBK, 0x108, 1600⟩,
    ⟨.dataBE, 0x107, 1600⟩, ⟨.mgmt, 0x104, 1600⟩, ⟨.uapsd, 0x103, 1600⟩, ⟨.cab, 0x102, 1600⟩,
    ⟨.beacon, 0x101, 1600⟩]

structure Endpoint where
  creditsToReturn : Int := 0
  pService : Option Service := none
  creditReturnThreshhold : Int := 0
  creditsConsumed : Int := 0
  connectionFlags : BitVec 16 := 0
  pendingCreditReports : Int := 0
  downLinkPipeId : ℕ := 0
  upLinkPipeId : ℕ := 0

/-- What a message carries between its header and its trailer. -/
inductive Payload
  | empty
  | ready (creditSize creditCount maxEndpoints : ℕ)
  | connectServiceResponse (serviceId status endpointId maxMsgSize : ℕ)
  | configPipeResponse (pipeId status : ℕ)
  | service (tag : ℕ)
  deriving DecidableEq, Repr

/-- A network buffer: the room around its data and the HTC part of its private area, which
nothing clears when the buffer is recycled. -/
structure NBuf where
  headroom : ℕ
  len : ℕ
  tailroom : ℕ
  htcFlags : BitVec 8
  endPoint : ℕ
  payload : Payload
  deriving DecidableEq, Repr

structure CreditReport where
  endpointId : EndpointId
  credits : ℕ
  deriving DecidableEq, Repr

/-- A frame handed to `HIF_send_buffer` and not completed yet. -/
structure SentMsg where
  nbuf : NBuf
  endpointId : EndpointId
  pipe : ℕ
  flags : BitVec 8
  controlBytes0 : ℕ
  payloadLen : ℕ
  reports : List CreditReport

/-- Receive buffers are named by numbers. -/
abbrev RecvBuf := ℕ

/-- What the host interface and the host see of the endpoint `eid`. -/
inductive LogEntry
  /-- A frame was accepted; `counted` says that setup was complete. -/
  | received (eid : EndpointId) (buf : RecvBuf) (counted : Bool)
  /-- `HIF_return_recv_buf` on `pipe`; `counted` says that it earned the endpoint a credit. -/
  | returned (eid : EndpointId) (pipe : ℕ) (buf : RecvBuf) (counted : Bool)
  /-- A frame with these credit reports in its trailer was submitted. -/
  | trailer (reports : List CreditReport)

/-- `HTC_CONTEXT`, with the pool of control buffers and the frames at the host interface. -/
structure Context where
  endpoints : EndpointId → Endpoint
  epHostNeedsCreditMap : BitVec 32
  epCreditPendingMap : BitVec 32
  currentEpIndex : ℕ
  pServiceList : List Service
  setupComplete : Bool
  sendCreditUpdateSoon : Bool
  recvBufferSize : ℕ
  totalCredits : Int
  totalCreditsAssigned : Int
  ctrlPool : List NBuf
  inFlight : List SentMsg
  pipes : List (ℕ × ℕ)
  log : List LogEntry

/-- `pHTC->Endpoints[eid]` updated in place. -/
def Context.updateEndpoint (htc : Context) (eid : EndpointId) (f : Endpoint → Endpoint) :
    Context :=
  { htc with endpoints := Function.update htc.endpoints eid (f (htc.endpoints eid)) }

@[simp] theorem Context.updateEndpoint_endpoints (htc : Context) (eid : EndpointId)
    (f : Endpoint → Endpoint) :
    (htc.updateEndpoint eid f).endpoints =
      Function.update htc.endpoints eid (f (htc.endpoints eid)) := rfl

theorem Context.updateEndpoint_of_ne (htc : Context) {eid e : EndpointId}
    (f : Endpoint → Endpoint) (h : e ≠ eid) :
    (htc.updateEndpoint eid f).endpoints e = htc.endpoints e :=
  Function.update_of_ne h _ _

/-- What the update `f` leaves alone in one endpoint is left alone in all of them. -/
theorem Context.updateEndpoint_congr {α : Type*} (htc : Context) (eid e : EndpointId)
    {f : Endpoint → Endpoint} (g : Endpoint → α) (hg : ∀ ep, g (f ep) = g ep) :
    g ((htc.updateEndpoint eid f).endpoints e) = g (htc.endpoints e) := by
  by_cases he : e = eid
  · subst he
    simp [hg]
  · rw [htc.updateEndpoint_of_ne f he]

def Context.record (htc : Context) (entry : LogEntry) : Context :=
  { htc with log := entry :: htc.log }

/-- `1 << eid` -/
def epMask (eid : EndpointId) : BitVec 32 := BitVec.twoPow 32 eid

theorem getLsbD_epMask (eid i : EndpointId) :
    (epMask eid).getLsbD i = decide (eid = i) := by
  have := i.isLt
  rw [epMask, BitVec.getLsbD_twoPow]
  simp only [Fin.ext_iff]
  rw [Bool.eq_iff_iff]
  simp
  omega

theorem and_epMask_ne_zero (map : BitVec 32) (eid : EndpointId) :
    map &&& epMask eid ≠ 0 ↔ map.getLsbD eid = true := by
  constructor
  · intro h
    by_contra hclear
    apply h
    ext i hi
    rw [BitVec.getElem_and, epMask, BitVec.getElem_twoPow]
    by_cases heq : (eid : ℕ) = i
    · subst heq
      simpa [← BitVec.getLsbD_eq_getElem] using hclear
    · simp [Ne.symm heq]
  · intro h hzero
    have hbit := congrArg (fun v : BitVec 32 => v.getLsbD eid) hzero
    simp [BitVec.getLsbD_and, getLsbD_epMask, h] at hbit

/-- The buffers of the control pool after `BUF_Pool_create_pool`. -/
def freshCtrlBuffer : NBuf :=
  { headroom := 0, len := 0, tailroom := maxHtcSetupMsgSize, htcFlags := 0, endPoint := 0,
    payload := .empty }

/-- `_HTC_Init` and the registration of the services. `creditNumber` is `ATH_TXBUF`. -/
def htcInit (creditSize creditNumber : ℕ) : Context where
  endpoints := fun eid =>
    if eid = endpoint0 then
      { pService := some htcControlService, upLinkPipeId := hifUsbPipeCommand,
        downLinkPipeId := hifUsbPipeInterrupt }
    else {}
  epHostNeedsCreditMap := 0
  epCreditPendingMap := 0
  currentEpIndex := 1
  pServiceList := registeredServices
  setupComplete := false
  sendCreditUpdateSoon := false
  recvBufferSize := creditSize
  totalCredits := creditNumber
  totalCreditsAssigned := 0
  ctrlPool := List.replicate numCtrlBuffers freshCtrlBuffer
  inFlight := []
  pipes := [(hifUsbPipeCommand, 1)]
  log := []

end Ath9kHtc.Htc
