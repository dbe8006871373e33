import Mathlib.Algebra.BigOperators.Fin
import Mathlib.Algebra.Order.Ring.Int
import Ath9kHtc.Htc.Wakeup

/-!
# Credit conservation

The books of an endpoint are its two counters, its bit in the pending map and what the log says
about it.  They stay balanced as long as the host does not spend credits it does not have: a
trailer can report at most 255 credits of an endpoint.
-/

namespace Ath9kHtc.Htc

/-! ## The books of an endpoint -/

/-- The credit accounts of one endpoint, with 16-bit counters and reports of one byte. -/
structure Books where
  toReturn : Int
  consumed : Int
  pending : Bool
  setup : Bool
  /-- frames received and buffers given back since setup -/
  accepted : ℕ
  returned : ℕ
  /-- credits in the trailers sent so far -/
  reported : ℕ
  /-- frames received and buffers given back before setup -/
  acceptedEarly : ℕ
  returnedEarly : ℕ

namespace Books

/-- A frame arrives. -/
def accept (b : Books) : Books :=
  if b.setup then { b with consumed := aInt16 (b.consumed + 1), accepted := b.accepted + 1 }
  else { b with acceptedEarly := b.acceptedEarly + 1 }

/-- Its buffer is given back. -/
def giveBack (b : Books) : Books :=
  if b.setup then
    { b with
      toReturn := aInt16 (b.toReturn + 1)
      consumed := aInt16 (b.consumed - 1)
      pending := true
      returned := b.returned + 1 }
  else { b with returnedEarly := b.returnedEarly + 1 }

/-- A trailer carries the credits away. -/
def report (b : Books) : Books :=
  { b with
    toReturn := 0
    pending := false
    reported := b.reported + (b.toReturn % 256).toNat }

def finishSetup (b : Books) : Books := { b with setup := true }

/-- Frames of the setup phase whose buffers were not given back in it. -/
def early (b : Books) : Int := b.acceptedEarly - b.returnedEarly

/-- Frames received whose buffers were not given back yet. -/
def held (b : Books) : Int := b.early + b.accepted - b.returned

/-- Frames the host sent without having their credit back. -/
def spent (b : Books) : Int := b.early + b.accepted - b.reported

structure Balanced (b : Books) : Prop where
  reported : (b.reported : Int) + b.toReturn = b.returned
  accepted : b.toReturn + b.consumed + b.reported = b.accepted
  pending : 0 < b.toReturn → b.pending = true
  nonneg : 0 ≤ b.toReturn
  held : 0 ≤ b.held
  spent : b.spent ≤ 255
  early : 0 ≤ b.early ∧ b.early ≤ 255
  setup : b.setup = false → b.accepted = 0 ∧ b.returned = 0

variable {b : Books}

/-- What is spent is held by a service or waits to be reported. -/
theorem Balanced.spent_eq (h : b.Balanced) : b.spent = b.toReturn + b.held := by
  have := h.reported
  simp only [Books.spent, Books.held]
  omega

/-- The counters never come near the ends of 16 bits. -/
theorem Balanced.bounds (h : b.Balanced) :
    b.toReturn ≤ 255 ∧ -255 ≤ b.consumed ∧ b.consumed ≤ 255 := by
  have hspent := h.spent_eq
  obtain ⟨hreported, haccepted, -, hnonneg, hheld, hle, hearly, -⟩ := h
  simp only [Books.held] at hheld hspent
  omega

theorem held_accept : b.accept.held = b.held + 1 := by
  unfold accept
  split <;> simp only [held, early] <;> omega

theorem held_giveBack : b.giveBack.held = b.held - 1 := by
  unfold giveBack
  split <;> simp only [held, early] <;> omega

@[simp] theorem held_report : b.report.held = b.held := rfl

/-- The host may send while fewer than 255 of its credits are out. -/
theorem Balanced.accept (h : b.Balanced) (hspent : b.spent < 255) : b.accept.Balanced := by
  have hbounds := h.bounds
  have heq := h.spent_eq
  obtain ⟨hreported, haccepted, hpending, hnonneg, hheld, hle, hearly, hsetup⟩ := h
  unfold Books.accept
  split
  · rename_i hs
    have hwrap : aInt16 (b.consumed + 1) = b.consumed + 1 := aInt16_of_bounds (by omega) (by omega)
    simp only [Books.held, Books.spent, Books.early] at *
    constructor <;> simp only [Books.held, Books.spent, Books.early, hwrap]
    case pending => exact hpending
    case setup => exact fun h => absurd hs (by simp [h])
    all_goals omega
  · rename_i hs
    have hzero := hsetup (by simpa using hs)
    simp only [Books.held, Books.spent, Books.early] at *
    constructor <;> simp only [Books.held, Books.spent, Books.early]
    case pending => exact hpending
    case setup => exact hsetup
    all_goals omega

theorem Balanced.giveBack (h : b.Balanced) (hheld : 0 < b.held) : b.giveBack.Balanced := by
  have hbounds := h.bounds
  have heq := h.spent_eq
  obtain ⟨hreported, haccepted, hpending, hnonneg, -, hle, hearly, hsetup⟩ := h
  unfold Books.giveBack
  split
  · rename_i hs
    have hwrap : aInt16 (b.toReturn + 1) = b.toReturn + 1 := aInt16_of_bounds (by omega) (by omega)
    have hwrap' : aInt16 (b.consumed - 1) = b.consumed - 1 := aInt16_of_bounds (by omega) (by omega)
    simp only [Books.held, Books.spent, Books.early] at *
    constructor <;> simp only [Books.held, Books.spent, Books.early, hwrap, hwrap']
    case pending => exact fun _ => trivial
    case setup => exact fun h => absurd hs (by simp [h])
    all_goals omega
  · rename_i hs
    have hzero := hsetup (by simpa using hs)
    simp only [Books.held, Books.spent, Books.early] at *
    constructor <;> simp only [Books.held, Books.spent, Books.early]
    case pending => exact hpending
    case setup => exact hsetup
    all_goals omega

/-- At most 255 credits are pending, so the byte of the report holds them all. -/
theorem Balanced.report (h : b.Balanced) : b.report.Balanced := by
  have hbounds := h.bounds
  obtain ⟨hreported, haccepted, hpending, hnonneg, hheld, hle, hearly, hsetup⟩ := h
  simp only [Books.held, Books.spent, Books.early] at *
  constructor <;> simp only [Books.report, Books.held, Books.spent, Books.early]
  case pending => exact fun h => absurd h (lt_irrefl 0)
  case setup => exact hsetup
  all_goals omega

theorem Balanced.finishSetup (h : b.Balanced) : b.finishSetup.Balanced :=
  { h with setup := fun hs => by cases hs }

theorem Balanced.reports (h : b.Balanced) (n : ℕ) : (Books.report^[n] b).Balanced := by
  induction n generalizing b with
  | zero => exact h
  | succ n ih => exact ih h.report

theorem held_reports (n : ℕ) : (Books.report^[n] b).held = b.held := by
  induction n generalizing b with
  | zero => rfl
  | succ n ih => exact ih

end Books

/-! ## The books kept by the target -/

/-- Frames received on `eid`, after setup (`counted`) or before. -/
def LogEntry.receivedOn (eid : EndpointId) (counted : Bool) : LogEntry → ℕ
  | .received e _ c => if e = eid ∧ c = counted then 1 else 0
  | _ => 0

/-- Buffers returned on `eid`, after setup (`counted`) or before. -/
def LogEntry.returnedOn (eid : EndpointId) (counted : Bool) : LogEntry → ℕ
  | .returned e _ _ c => if e = eid ∧ c = counted then 1 else 0
  | _ => 0

def creditsFor (eid : EndpointId) (reports : List CreditReport) : ℕ :=
  (reports.map fun report => if report.endpointId = eid then report.credits else 0).sum

/-- Credits of `eid` in a trailer. -/
def LogEntry.reportedFor (eid : EndpointId) : LogEntry → ℕ
  | .trailer reports => creditsFor eid reports
  | _ => 0

def logSum (f : LogEntry → ℕ) (log : List LogEntry) : ℕ := (log.map f).sum

@[simp] theorem logSum_cons (f : LogEntry → ℕ) (entry : LogEntry) (log : List LogEntry) :
    logSum f (entry :: log) = f entry + logSum f log := by
  simp [logSum]

/-- The counters of the endpoint, and what the host interface saw of it. -/
def Context.books (htc : Context) (eid : EndpointId) : Books where
  toReturn := (htc.endpoints eid).creditsToReturn
  consumed := (htc.endpoints eid).creditsConsumed
  pending := htc.epCreditPendingMap.getLsbD eid
  setup := htc.setupComplete
  accepted := logSum (LogEntry.receivedOn eid true) htc.log
  returned := logSum (LogEntry.returnedOn eid true) htc.log
  reported := logSum (LogEntry.reportedFor eid) htc.log
  acceptedEarly := logSum (LogEntry.receivedOn eid false) htc.log
  returnedEarly := logSum (LogEntry.returnedOn eid false) htc.log

/-- Messages were sent: the books change by reports only. -/
def Reporting (htc htc' : Context) : Prop :=
  ∀ eid, ∃ n, htc'.books eid = Books.report^[n] (htc.books eid)

theorem Reporting.of_eq {htc htc' : Context} (h : ∀ eid, htc'.books eid = htc.books eid) :
    Reporting htc htc' :=
  fun eid => ⟨0, h eid⟩

theorem Reporting.refl (htc : Context) : Reporting htc htc := .of_eq fun _ => rfl

theorem Reporting.trans {htc₁ htc₂ htc₃ : Context} (h : Reporting htc₁ htc₂)
    (h' : Reporting htc₂ htc₃) : Reporting htc₁ htc₃ := by
  intro eid
  obtain ⟨n, hn⟩ := h eid
  obtain ⟨m, hm⟩ := h' eid
  exact ⟨m + n, by rw [hm, hn, Function.iterate_add_apply]⟩

theorem Reporting.held {htc htc' : Context} (h : Reporting htc htc') (eid : EndpointId) :
    (htc'.books eid).held = (htc.books eid).held := by
  obtain ⟨n, hn⟩ := h eid
  rw [hn, Books.held_reports]

/-! ## Trailers -/

theorem creditsFor_append (eid : EndpointId) (reports : List CreditReport)
    (report : CreditReport) :
    creditsFor eid (reports ++ [report]) =
      creditsFor eid reports + if report.endpointId = eid then report.credits else 0 := by
  simp [creditsFor]

/-- A trailer leaves an endpoint alone or reports it once. -/
theorem fillTrailer_credits (htc : Context) (room : Int) (e : EndpointId) :
    (((fillTrailer htc room).endpoints e).creditsToReturn = (htc.endpoints e).creditsToReturn ∧
      (fillTrailer htc room).creditsPendingMap.getLsbD e = htc.epCreditPendingMap.getLsbD e ∧
      creditsFor e (fillTrailer htc room).reports = 0) ∨
    (((fillTrailer htc room).endpoints e).creditsToReturn = 0 ∧
      (fillTrailer htc room).creditsPendingMap.getLsbD e = false ∧
      creditsFor e (fillTrailer htc room).reports =
        ((htc.endpoints e).creditsToReturn % 256).toNat) := by
  refine fillTrailer_induction (P := fun t =>
    ((t.endpoints e).creditsToReturn = (htc.endpoints e).creditsToReturn ∧
      t.creditsPendingMap.getLsbD e = htc.epCreditPendingMap.getLsbD e ∧
      creditsFor e t.reports = 0) ∨
    ((t.endpoints e).creditsToReturn = 0 ∧ t.creditsPendingMap.getLsbD e = false ∧
      creditsFor e t.reports = ((htc.endpoints e).creditsToReturn % 256).toNat)) htc room
    (.inl ⟨rfl, rfl, rfl⟩) (fun _ => .inl ⟨rfl, rfl, rfl⟩) ?_
  intro t i ih hbit _
  by_cases hie : i = e
  · subst hie
    rcases ih with ⟨hret, -, hnone⟩ | ⟨-, hclear, -⟩
    · refine .inr ⟨?_, by simp, ?_⟩
      · simp only [Trailer.addReport, Function.update_self, checkAndAdjustCreditThreshold,
          adjustCreditThreshold]
        split <;> rfl
      · simp only [Trailer.addReport, creditsFor_append, hnone, hret, if_true, Nat.zero_add]
    · exact absurd (hclear.symm.trans hbit) (by simp)
  · have hreport : creditsFor e (t.addReport i).reports = creditsFor e t.reports := by
      simp only [Trailer.addReport, creditsFor_append, hie, if_false, Nat.add_zero]
    rw [Trailer.addReport_endpoints_of_ne t hie, Trailer.addReport_pending, hreport]
    simpa [hie] using ih

/-- The books after a message with a trailer of `room` bytes. -/
theorem htcSendMsg_books (htc : Context) (eid e : EndpointId) (buf : NBuf) {room : Int}
    (hroom : trailerRoom (htc.endpoints eid).downLinkPipeId (pushHtcHdr eid buf) = room) :
    (htcSendMsg htc eid buf).books e =
      { htc.books e with
        toReturn := ((fillTrailer htc room).endpoints e).creditsToReturn
        pending := (fillTrailer htc room).creditsPendingMap.getLsbD e
        reported := (htc.books e).reported + creditsFor e (fillTrailer htc room).reports } := by
  have hconsumed : ((fillTrailer htc room).endpoints e).creditsConsumed =
      (htc.endpoints e).creditsConsumed :=
    congrArg (·.2.2.2.2.2) (fillTrailer_untrailed htc room e)
  simp [Context.books, htcSendMsg, hroom, hconsumed, LogEntry.receivedOn, LogEntry.returnedOn,
    LogEntry.reportedFor, Nat.add_comm]

theorem htcSendMsg_reporting (htc : Context) (eid : EndpointId) (buf : NBuf) :
    Reporting htc (htcSendMsg htc eid buf) := by
  intro e
  rw [htcSendMsg_books htc eid e buf rfl]
  rcases fillTrailer_credits htc _ e with ⟨hret, hbit, hnone⟩ | ⟨hret, hbit, hall⟩
  · refine ⟨0, ?_⟩
    rw [hret, hbit, hnone]
    rfl
  · refine ⟨1, ?_⟩
    rw [hret, hbit, hall]
    rfl

/-- With room for all endpoints, a pending endpoint is reported. -/
theorem htcSendMsg_reports {htc : Context} (eid e : EndpointId) (buf : NBuf)
    (hroom : 46 ≤ trailerRoom (htc.endpoints eid).downLinkPipeId (pushHtcHdr eid buf))
    (hpending : htc.epCreditPendingMap.getLsbD e = true) :
    (htcSendMsg htc eid buf).books e = (htc.books e).report := by
  rw [htcSendMsg_books htc eid e buf rfl]
  have hclear := fillTrailer_clears htc hroom e
  rcases fillTrailer_credits htc (trailerRoom (htc.endpoints eid).downLinkPipeId
    (pushHtcHdr eid buf)) e with ⟨-, hbit, -⟩ | ⟨hret, hbit, hall⟩
  · exact absurd (hbit.symm.trans hclear) (by simp [hpending])
  · rw [hret, hbit, hall]
    rfl

/-! ## Control buffers and reports -/

theorem htcAllocMsgBuffer_reporting {htc htc' : Context} {buf : NBuf}
    (h : htcAllocMsgBuffer htc = some (buf, htc')) : Reporting htc htc' := by
  unfold htcAllocMsgBuffer at h
  split at h
  · cases h
  · cases h
    exact .of_eq fun _ => rfl

/-- An update that leaves the counters of the endpoint alone. -/
theorem updateEndpoint_reporting (htc : Context) (eid : EndpointId) (f : Endpoint → Endpoint)
    (hret : ∀ ep, (f ep).creditsToReturn = ep.creditsToReturn)
    (hcons : ∀ ep, (f ep).creditsConsumed = ep.creditsConsumed) :
    Reporting htc (htc.updateEndpoint eid f) := by
  refine .of_eq fun e => ?_
  unfold Context.books
  rw [htc.updateEndpoint_congr eid e (·.creditsToReturn) hret,
    htc.updateEndpoint_congr eid e (·.creditsConsumed) hcons]
  rfl

theorem htcCheckAndSendCreditReport_reporting (htc : Context) (mask : BitVec 32)
    (pEndpoint : Option EndpointId) :
    Reporting htc (htcCheckAndSendCreditReport htc mask pEndpoint) := by
  have announced : Reporting htc { htc with sendCreditUpdateSoon := true } := .of_eq fun _ => rfl
  unfold htcCheckAndSendCreditReport
  split
  · exact .refl htc
  split
  · exact .refl htc
  cases pEndpoint with
  | some eid =>
    dsimp only
    split
    · exact .refl htc
    split
    · exact announced
    split
    · exact announced
    · rename_i buf htc' halloc
      have hcount := updateEndpoint_reporting htc' eid (addPendingReports 1) (fun _ => rfl)
        (fun _ => rfl)
      exact ((htcAllocMsgBuffer_reporting halloc).trans hcount).trans (htcSendMsg_reporting _ _ _)
  | none =>
    dsimp only
    split
    · exact announced
    · rename_i buf htc' halloc
      exact (htcAllocMsgBuffer_reporting halloc).trans (htcSendMsg_reporting _ _ _)

theorem htcReady_reporting {htc htc' : Context} (h : htcReady htc = some htc') :
    Reporting htc htc' := by
  obtain ⟨⟨buf, mid⟩, halloc, hsend⟩ := Option.bind_eq_some_iff.mp h
  cases hsend
  exact (htcAllocMsgBuffer_reporting halloc).trans (htcSendMsg_reporting _ _ _)

theorem htcProcessConnectMsg_reporting {htc htc' : Context} {serviceId down up : ℕ}
    {flags : BitVec 16} (h : htcProcessConnectMsg htc serviceId flags down up = some htc') :
    Reporting htc htc' := by
  obtain ⟨⟨buf, mid⟩, halloc, hrest⟩ := Option.bind_eq_some_iff.mp h
  have hmid := htcAllocMsgBuffer_reporting halloc
  dsimp only at hrest
  split at hrest
  · cases hrest
    exact hmid.trans (htcSendMsg_reporting _ _ _)
  · rename_i status svc hfind
    split at hrest
    · rename_i inTable
      cases hrest
      have hbound := updateEndpoint_reporting mid ⟨mid.currentEpIndex, inTable⟩
        (connectEndpoint svc flags down up) (fun _ => rfl) (fun _ => rfl)
      have hnext : Reporting _ { mid.updateEndpoint ⟨mid.currentEpIndex, inTable⟩
          (connectEndpoint svc flags down up) with currentEpIndex := mid.currentEpIndex + 1 } :=
        hbound.trans (.of_eq fun _ => rfl)
      exact (hmid.trans hnext).trans (htcSendMsg_reporting _ _ _)
    · cases hrest

theorem htcProcessConfigPipeMsg_reporting {htc htc' : Context} {pipeId creditCount : ℕ}
    (h : htcProcessConfigPipeMsg htc pipeId creditCount = some htc') : Reporting htc htc' := by
  obtain ⟨⟨buf, mid⟩, halloc, hrest⟩ := Option.bind_eq_some_iff.mp h
  have hmid := htcAllocMsgBuffer_reporting halloc
  dsimp only at hrest
  split at hrest
  · cases hrest
    exact hmid.trans (htcSendMsg_reporting _ _ _)
  split at hrest
  · split at hrest
    · cases hrest
      have hassigned : Reporting mid { mid with
          totalCreditsAssigned := mid.totalCreditsAssigned + creditCount
          pipes := (pipeId, creditCount) :: mid.pipes } := .of_eq fun _ => rfl
      exact (hmid.trans hassigned).trans (htcSendMsg_reporting _ _ _)
    · cases hrest
  · cases hrest
    exact hmid.trans (htcSendMsg_reporting _ _ _)

theorem processControlMsg_reporting {htc htc' : Context} {msg : ControlMsg}
    (h : processControlMsg htc msg = some htc') : Reporting htc htc' := by
  cases msg with
  | connectService serviceId flags down up => exact htcProcessConnectMsg_reporting h
  | configPipe pipeId creditCount => exact htcProcessConfigPipeMsg_reporting h
  | setupComplete =>
    cases h
    exact .refl htc
  | unknown =>
    cases h
    exact .refl htc

/-! ## Buffers come and go -/

theorem returnBuffer_books (htc : Context) (eid e : EndpointId) (buf : RecvBuf) :
    (returnBuffer htc eid buf).books e =
      if e = eid then (htc.books e).giveBack else htc.books e := by
  unfold returnBuffer Books.giveBack
  cases hs : htc.setupComplete <;> by_cases he : e = eid
  · subst he
    simp [Context.books, Context.record, hs, LogEntry.receivedOn, LogEntry.returnedOn,
      LogEntry.reportedFor, Nat.add_comm]
  · simp [Context.books, Context.record, hs, LogEntry.receivedOn, LogEntry.returnedOn,
      LogEntry.reportedFor, he, Ne.symm he]
  · subst he
    simp [Context.books, Context.record, Context.updateEndpoint, hs, LogEntry.receivedOn,
      LogEntry.returnedOn, LogEntry.reportedFor, earnCredit, getLsbD_epMask, Nat.add_comm]
  · simp [Context.books, Context.record, Context.updateEndpoint, hs, LogEntry.receivedOn,
      LogEntry.returnedOn, LogEntry.reportedFor, he, Ne.symm he, getLsbD_epMask]

theorem noteHostNeed_books (htc : Context) (eid e : EndpointId) (flags : BitVec 8) :
    (noteHostNeed htc eid flags).books e = htc.books e := by
  unfold noteHostNeed Context.books
  split
  · rw [Context.updateEndpoint_congr _ eid e (·.creditsToReturn) fun ep => ?_,
      Context.updateEndpoint_congr _ eid e (·.creditsConsumed) fun ep =>
        congrArg (·.2.2.2.2.2) (checkAndAdjustCreditThreshold_untrailed ep)]
    · rfl
    · simp only [checkAndAdjustCreditThreshold, adjustCreditThreshold]
      split <;> rfl
  · have hret := Context.updateEndpoint_congr
      { htc with epHostNeedsCreditMap := htc.epHostNeedsCreditMap &&& ~~~epMask eid } eid e
      (f := clearThreshold) (·.creditsToReturn) fun _ => rfl
    have hcons := Context.updateEndpoint_congr
      { htc with epHostNeedsCreditMap := htc.epHostNeedsCreditMap &&& ~~~epMask eid } eid e
      (f := clearThreshold) (·.creditsConsumed) fun _ => rfl
    rw [hret, hcons]
    rfl

theorem recvAccount_books (htc : Context) (eid e : EndpointId) (frame : Frame) :
    (recvAccount htc eid frame).books e =
      if e = eid then (htc.books e).accept else htc.books e := by
  rw [recvAccount, noteHostNeed_books]
  unfold consumeCredit Books.accept
  cases hs : htc.setupComplete <;> by_cases he : e = eid
  · subst he
    simp [Context.books, Context.record, hs, LogEntry.receivedOn, LogEntry.returnedOn,
      LogEntry.reportedFor, Nat.add_comm]
  · simp [Context.books, Context.record, hs, LogEntry.receivedOn, LogEntry.returnedOn,
      LogEntry.reportedFor, he, Ne.symm he]
  · subst he
    simp [Context.books, Context.record, Context.updateEndpoint, hs, LogEntry.receivedOn,
      LogEntry.returnedOn, LogEntry.reportedFor, addConsumed, Nat.add_comm]
  · simp [Context.books, Context.record, Context.updateEndpoint, hs, LogEntry.receivedOn,
      LogEntry.returnedOn, LogEntry.reportedFor, he, Ne.symm he]

/-! ## Scripts of the services -/

/-- The books of every endpoint are balanced. -/
def AllBalanced (htc : Context) : Prop := ∀ eid, (htc.books eid).Balanced

theorem Reporting.allBalanced {htc htc' : Context} (h : Reporting htc htc')
    (hb : AllBalanced htc) : AllBalanced htc' := by
  intro eid
  obtain ⟨n, hn⟩ := h eid
  exact hn ▸ (hb eid).reports n

/-- How many buffers of `eid` an action gives back. -/
def ServiceAction.returns (eid : EndpointId) : ServiceAction → ℕ
  | .returnBuffers e _ => if e = eid then 1 else 0
  | .returnBuffersList e bufs => if e = eid then bufs.length else 0
  | .sendMsg _ _ => 0

def returnsIn (script : List ServiceAction) (eid : EndpointId) : ℕ :=
  (script.map (ServiceAction.returns eid)).sum

theorem AllBalanced.returnBuffer {htc : Context} (h : AllBalanced htc) {eid : EndpointId}
    (hheld : 0 < (htc.books eid).held) (buf : RecvBuf) :
    AllBalanced (returnBuffer htc eid buf) := by
  intro e
  rw [returnBuffer_books]
  split
  · rename_i he
    exact (h e).giveBack (he ▸ hheld)
  · exact h e

theorem returnBuffer_held (htc : Context) (eid e : EndpointId) (buf : RecvBuf) :
    ((returnBuffer htc eid buf).books e).held =
      (htc.books e).held - if eid = e then 1 else 0 := by
  rw [returnBuffer_books]
  by_cases he : e = eid
  · rw [if_pos he, if_pos he.symm, Books.held_giveBack]
  · rw [if_neg he, if_neg (Ne.symm he), sub_zero]

theorem htcReturnBuffers_reporting (htc : Context) (eid : EndpointId) (buf : RecvBuf) :
    Reporting (returnBuffer htc eid buf) (htcReturnBuffers htc eid buf) := by
  unfold htcReturnBuffers
  dsimp only
  split
  · exact htcCheckAndSendCreditReport_reporting _ _ _
  · exact .refl _

theorem AllBalanced.returnList {htc : Context} (h : AllBalanced htc) (eid : EndpointId)
    (bufs : List RecvBuf) (hheld : (bufs.length : Int) ≤ (htc.books eid).held) :
    AllBalanced (bufs.foldl (fun htc buf => Htc.returnBuffer htc eid buf) htc) ∧
      ∀ e, ((bufs.foldl (fun htc buf => Htc.returnBuffer htc eid buf) htc).books e).held =
        (htc.books e).held - if eid = e then (bufs.length : Int) else 0 := by
  induction bufs generalizing htc with
  | nil => exact ⟨h, by simp⟩
  | cons buf bufs ih =>
    simp only [List.length_cons, Nat.cast_add, Nat.cast_one] at hheld
    have hone := returnBuffer_held htc eid eid buf
    rw [if_pos rfl] at hone
    have hfirst : 0 < (htc.books eid).held := by omega
    obtain ⟨hbalanced, hrest⟩ := ih (h.returnBuffer hfirst buf) (by omega)
    refine ⟨hbalanced, fun e => ?_⟩
    have hstep := returnBuffer_held htc eid e buf
    have hrest' := hrest e
    simp only [List.foldl_cons, List.length_cons, Nat.cast_add, Nat.cast_one]
    by_cases he : eid = e
    · rw [if_pos he] at hstep hrest' ⊢
      omega
    · rw [if_neg he] at hstep hrest' ⊢
      omega

theorem AllBalanced.action {htc htc' : Context} (h : AllBalanced htc) {action : ServiceAction}
    (hheld : ∀ e, (action.returns e : Int) ≤ (htc.books e).held)
    (hrun : action.run htc = some htc') :
    AllBalanced htc' ∧ ∀ e, (htc'.books e).held = (htc.books e).held - action.returns e := by
  cases action with
  | returnBuffers eid buf =>
    cases hrun
    have hreport := htcReturnBuffers_reporting htc eid buf
    have hone := hheld eid
    simp only [ServiceAction.returns, if_true, Nat.cast_one] at hone
    refine ⟨hreport.allBalanced (h.returnBuffer (by omega) buf), fun e => ?_⟩
    rw [hreport.held, returnBuffer_held, ServiceAction.returns, Nat.cast_ite, Nat.cast_one,
      Nat.cast_zero]
  | returnBuffersList eid bufs =>
    cases hrun
    have hall := hheld eid
    simp only [ServiceAction.returns, if_true] at hall
    obtain ⟨hbalanced, hcount⟩ := h.returnList eid bufs hall
    have hreport := htcCheckAndSendCreditReport_reporting
      (bufs.foldl (fun htc buf => Htc.returnBuffer htc eid buf) htc) (epMask eid) (some eid)
    refine ⟨hreport.allBalanced hbalanced, fun e => ?_⟩
    rw [ServiceAction.returns, Nat.cast_ite, Nat.cast_zero]
    exact (hreport.held e).trans (hcount e)
  | sendMsg eid buf =>
    simp only [ServiceAction.run, Option.ite_none_right_eq_some, Option.some.injEq] at hrun
    obtain ⟨-, rfl⟩ := hrun
    have hreport := htcSendMsg_reporting htc eid buf
    exact ⟨hreport.allBalanced h, fun e => by simp [hreport.held, ServiceAction.returns]⟩

theorem AllBalanced.runScript {htc htc' : Context} (h : AllBalanced htc)
    {script : List ServiceAction}
    (hheld : ∀ e, (returnsIn script e : Int) ≤ (htc.books e).held)
    (hrun : runScript htc script = some htc') : AllBalanced htc' := by
  induction script generalizing htc with
  | nil =>
    cases hrun
    exact h
  | cons action rest ih =>
    obtain ⟨mid, haction, hrest⟩ := Option.bind_eq_some_iff.mp hrun
    have hsplit : ∀ e, returnsIn (action :: rest) e = action.returns e + returnsIn rest e :=
      fun e => by simp [returnsIn]
    obtain ⟨hmid, hcount⟩ := h.action (fun e => by have := hheld e; rw [hsplit] at this; omega)
      haction
    refine ih hmid (fun e => ?_) hrest
    have := hheld e
    rw [hsplit] at this
    rw [hcount]
    omega

/-! ## Runs -/

/-- Services give back buffers that they hold, on the endpoint they were received on. -/
def LegalReturns (htc : Context) : Event → Prop
  | .ready => True
  | .recv frame script => ∀ e : EndpointId, (returnsIn script e : Int) ≤
      (htc.books e).held + if frame.endpointId = e then 1 else 0
  | .sendDone _ script => ∀ e : EndpointId, (returnsIn script e : Int) ≤ (htc.books e).held
  | .services script => ∀ e : EndpointId, (returnsIn script e : Int) ≤ (htc.books e).held

/-- The host sends on an endpoint only while fewer than 255 of the credits it spent there are
out, as it does when it owns fewer than 256 credits and never sends without one. -/
def WithinCredits (htc : Context) : Event → Prop
  | .recv frame _ => ∀ e : EndpointId, frame.endpointId = e → (htc.books e).spent < 255
  | _ => True

theorem AllBalanced.controlMsg {htc htc' : Context} (h : AllBalanced htc) {eid : EndpointId}
    {msg : ControlMsg} {buf : RecvBuf} (heid : eid = endpoint0)
    (hheld : 0 < (htc.books eid).held)
    (hmsg : htcControlSvcProcessMsg htc eid msg buf = some htc') : AllBalanced htc' := by
  obtain ⟨mid, hprocess, hrest⟩ := Option.bind_eq_some_iff.mp hmsg
  have hreport := processControlMsg_reporting hprocess
  have hmid := hreport.allBalanced h
  have hheld' : 0 < (mid.books endpoint0).held := by
    rw [hreport.held, ← heid]
    exact hheld
  have hrecycled : AllBalanced (recycleControlBuffer mid eid buf) := by
    unfold recycleControlBuffer
    split
    · exact (htcReturnBuffers_reporting mid endpoint0 buf).allBalanced
        (hmid.returnBuffer hheld' buf)
    · rename_i hsetup
      have hsame : ∀ e, (mid.record (.returned eid (mid.endpoints eid).upLinkPipeId buf
          false)).books e = (Htc.returnBuffer mid eid buf).books e := by
        intro e
        unfold Htc.returnBuffer
        dsimp only [Context.record]
        rw [if_neg hsetup, eq_false_of_ne_true hsetup]
        rfl
      intro e
      rw [hsame]
      exact hmid.returnBuffer (heid ▸ hheld') buf e
  cases hrest
  split
  · exact fun e => (hrecycled e).finishSetup
  · exact hrecycled

theorem AllBalanced.recv {htc htc' : Context} (h : AllBalanced htc) (hpath : WakeInv ∅ htc)
    {frame : Frame} {script : List ServiceAction}
    (hlegal : LegalReturns htc (.recv frame script))
    (hcredits : WithinCredits htc (.recv frame script))
    (hrecv : htcMsgRecvHandler htc frame script = some htc') : AllBalanced htc' := by
  unfold htcMsgRecvHandler at hrecv
  split at hrecv
  · rename_i inTable
    dsimp only at hrecv
    split at hrecv
    · cases hrecv
      exact h
    · obtain ⟨svc, hsvc, hrest⟩ := Option.bind_eq_some_iff.mp hrecv
      obtain ⟨mid, hservice, hcheck⟩ := Option.bind_eq_some_iff.mp hrest
      cases hcheck
      set eid : EndpointId := ⟨frame.endpointId, inTable⟩
      have hbooks := fun e => recvAccount_books htc eid e frame
      have haccepted : AllBalanced (recvAccount htc eid frame) := by
        intro e
        rw [hbooks]
        split
        · rename_i he
          exact (h e).accept (hcredits e (he ▸ rfl))
        · exact h e
      have hmid : AllBalanced mid := by
        unfold processRecvMsg at hservice
        split at hservice
        · rename_i hkind
          have hzero : eid = endpoint0 := by
            by_contra hne
            exact (hpath.recvAccount eid frame).path.services eid svc hne hsvc hkind
          refine haccepted.controlMsg hzero ?_ hservice
          rw [hbooks, if_pos rfl, Books.held_accept]
          exact Int.lt_add_one_of_le (h eid).held
        · refine haccepted.runScript (fun e => ?_) hservice
          have hle := hlegal e
          rw [hbooks]
          by_cases he : e = eid
          · subst he
            rw [if_pos rfl] at hle ⊢
            rw [Books.held_accept]
            exact hle
          · rw [if_neg (fun heq => he (Fin.ext heq.symm))] at hle
            rw [if_neg he]
            omega
      exact (htcCheckAndSendCreditReport_reporting mid _ _).allBalanced hmid
  · cases hrecv

theorem settleCreditReport_reporting {htc htc' : Context} {flags : BitVec 8}
    (h : settleCreditReport htc flags = some htc') : Reporting htc htc' := by
  rcases settleCreditReport_spec h with ⟨eid, -, -, rfl⟩ | ⟨-, rfl⟩
  · exact updateEndpoint_reporting htc eid _ (fun _ => rfl) (fun _ => rfl)
  · exact .refl htc'

theorem AllBalanced.sendDone {htc htc' : Context} (h : AllBalanced htc) {i : ℕ}
    {script : List ServiceAction} (hlegal : LegalReturns htc (.sendDone i script))
    (hdone : htcSendDoneHandler htc i script = some htc') : AllBalanced htc' := by
  obtain ⟨msg, -, hrest⟩ := Option.bind_eq_some_iff.mp hdone
  obtain ⟨svc, -, hrest⟩ := Option.bind_eq_some_iff.mp hrest
  have herased : AllBalanced { htc with inFlight := htc.inFlight.eraseIdx i } := h
  split at hrest
  · obtain ⟨mid, hsettle, hlast⟩ := Option.bind_eq_some_iff.mp hrest
    have hmid := (settleCreditReport_reporting hsettle).allBalanced herased
    have hfreed : AllBalanced (htcFreeMsgBuffer mid (pullHtcHdr msg.nbuf)) := hmid
    cases hlast
    split
    · exact (htcCheckAndSendCreditReport_reporting
        { htcFreeMsgBuffer mid (pullHtcHdr msg.nbuf) with sendCreditUpdateSoon := false } _
        _).allBalanced hfreed
    · exact hfreed
  · exact herased.runScript hlegal hrest

theorem AllBalanced.step {htc htc' : Context} (h : AllBalanced htc) (hpath : WakeInv ∅ htc)
    {event : Event} (hlegal : LegalReturns htc event) (hcredits : WithinCredits htc event)
    (hstep : step event htc = some htc') : AllBalanced htc' := by
  cases event with
  | ready => exact (htcReady_reporting hstep).allBalanced h
  | recv frame script => exact h.recv hpath hlegal hcredits hstep
  | sendDone i script => exact h.sendDone hlegal hstep
  | services script => exact h.runScript hlegal hstep

theorem htcInit_allBalanced (creditSize creditNumber : ℕ) :
    AllBalanced (htcInit creditSize creditNumber) := by
  intro e
  have hret : ((htcInit creditSize creditNumber).endpoints e).creditsToReturn = 0 := by
    simp only [htcInit]
    split <;> rfl
  have hcons : ((htcInit creditSize creditNumber).endpoints e).creditsConsumed = 0 := by
    simp only [htcInit]
    split <;> rfl
  constructor <;> simp [Context.books, hret, hcons, Books.held, Books.spent, Books.early] <;>
    simp [htcInit, logSum]

/-- The condition under which the books stay balanced. -/
def Disciplined (htc : Context) (event : Event) : Prop :=
  LegalReturns htc event ∧ WithinCredits htc event

theorem reachable_allBalanced {htc : Context} (h : target.ReachableWhere Disciplined htc) :
    AllBalanced htc := by
  have hinv : AllBalanced htc ∧ WakeInv ∅ htc := by
    refine h.invariant (P := fun htc => AllBalanced htc ∧ WakeInv ∅ htc) ?_ ?_
    · rintro _ ⟨creditSize, creditNumber, rfl⟩
      exact ⟨htcInit_allBalanced creditSize creditNumber, htcInit_wakeInv creditSize creditNumber⟩
    · rintro s event s' ⟨hbalanced, hwake⟩ ⟨hlegal, hcredits⟩ hstep
      exact ⟨hbalanced.step hwake hlegal hcredits hstep, hwake.step hstep⟩
  exact hinv.1

/-- No credit is lost, duplicated or reported for another endpoint. -/
theorem credits_conserved {htc : Context} (h : target.ReachableWhere Disciplined htc)
    (eid : EndpointId) :
    ((htc.books eid).reported : Int) + (htc.endpoints eid).creditsToReturn =
      (htc.books eid).returned ∧
    (htc.endpoints eid).creditsToReturn + (htc.endpoints eid).creditsConsumed +
      (htc.books eid).reported = (htc.books eid).accepted ∧
    (0 < (htc.endpoints eid).creditsToReturn →
      htc.epCreditPendingMap.getLsbD eid = true) :=
  have hb := reachable_allBalanced h eid
  ⟨hb.reported, hb.accepted, hb.pending⟩

instance (htc : Context) (event : Event) : Decidable (LegalReturns htc event) := by
  cases event <;> unfold LegalReturns <;> infer_instance

instance (htc : Context) (event : Event) : Decidable (WithinCredits htc event) := by
  cases event <;> unfold WithinCredits <;> infer_instance

instance (htc : Context) (event : Event) : Decidable (Disciplined htc event) :=
  inferInstanceAs (Decidable (_ ∧ _))

/-- A service is connected, setup completes and two frames arrive; the buffer of the first goes
back and its credit leaves in the trailer of an answer, the buffer of the second is kept. -/
def answeredRun : List Event :=
  [.recv ⟨0, 0, 0, .connectService 0x101 0 hifUsbPipeInterrupt hifUsbPipeTx⟩ [],
    .recv ⟨0, 0, 0, .setupComplete⟩ [],
    .recv ⟨1, 0, 0, .unknown⟩ [.returnBuffers 1 0],
    .services [.sendMsg 1 ⟨8, 20, 100, 0, 0, .service 0⟩],
    .recv ⟨1, 0, 1, .unknown⟩ []]

theorem credits_conserved_answered :
    ∃ htc, target.ReachableWhere Disciplined htc ∧ (htc.books 1).accepted = 2 ∧
      (htc.books 1).reported = 1 ∧ (htc.endpoints 1).creditsToReturn = 0 ∧
      (htc.endpoints 1).creditsConsumed = 1 := by
  have run : (Machine.runWhere step Disciplined answeredRun (htcInit 320 45)).map
      (fun htc => ((htc.books 1).accepted, (htc.books 1).returned, (htc.books 1).reported)) =
      some (2, 1, 1) := by
    decide +kernel
  obtain ⟨htc, hrun, hbooks⟩ := Option.map_eq_some_iff.mp run
  simp only [Prod.mk.injEq] at hbooks
  obtain ⟨haccepted, hreturned, hreported⟩ := hbooks
  have hreach : target.ReachableWhere Disciplined htc :=
    Machine.ReachableWhere.trans (.init ⟨320, 45, rfl⟩) (Machine.stepsWhere_of_runWhere hrun)
  obtain ⟨hreport, haccept, -⟩ := credits_conserved hreach 1
  exact ⟨htc, hreach, haccepted, hreported, by omega, by omega⟩

/-! ## Sending without credits -/

/-- With `n` receive buffers a frame can arrive while one of them is not held by a service. -/
def FreeBuffer (n : ℕ) (htc : Context) : Event → Prop
  | .recv _ _ => ∑ eid, (htc.books eid).held < n
  | _ => True

instance (n : ℕ) (htc : Context) (event : Event) : Decidable (FreeBuffer n htc event) := by
  cases event <;> unfold FreeBuffer <;> infer_instance

/-- The host has sent `n` frames on endpoint 1, never asking for credits, and every buffer went
back at once. -/
structure Flooded (n : ℕ) (htc : Context) : Prop where
  setup : htc.setupComplete = true
  service : (htc.endpoints 1).pService = some ⟨.beacon, 0x101, 1600⟩
  returned : (htc.books 1).returned = n
  toReturn : (htc.endpoints 1).creditsToReturn = n
  pending : 0 < n → htc.epCreditPendingMap.getLsbD 1 = true
  reported : (htc.books 1).reported = 0
  held : ∀ eid, (htc.books eid).held = 0

/-- One more frame on endpoint 1; its buffer goes back within the handler. -/
def floodEvent : Event := .recv ⟨1, 0, 0, .unknown⟩ [.returnBuffers 1 0]

/-- Without the host's need nothing is reported. -/
theorem check_idle {htc : Context} {eid : EndpointId}
    (h : htc.epHostNeedsCreditMap.getLsbD eid = false) (pEndpoint : Option EndpointId) :
    htcCheckAndSendCreditReport htc (epMask eid) pEndpoint = htc := by
  unfold htcCheckAndSendCreditReport
  rw [if_pos]
  by_contra hne
  exact absurd ((and_epMask_ne_zero _ _).mp hne) (by simp [h])

theorem returnBuffer_needs (htc : Context) (eid : EndpointId) (buf : RecvBuf) :
    (returnBuffer htc eid buf).epHostNeedsCreditMap = htc.epHostNeedsCreditMap := by
  unfold returnBuffer
  dsimp only [Context.record]
  split <;> rfl

/-- What one more frame does to the books, whatever the counters are. -/
theorem Flooded.step_books {n : ℕ} {htc : Context} (h : Flooded n htc) :
    ∃ htc', Htc.step floodEvent htc = some htc' ∧
      (htc'.endpoints 1).pService = some ⟨.beacon, 0x101, 1600⟩ ∧
      ∀ e, htc'.books e = if e = 1 then (htc.books e).accept.giveBack else htc.books e := by
  set frame : Frame := ⟨1, 0, 0, .unknown⟩ with hframe
  set mid := recvAccount htc 1 frame with hmid
  have hneeds : mid.epHostNeedsCreditMap.getLsbD (1 : EndpointId) = false := by
    have hclear := getLsbD_clear htc.epHostNeedsCreditMap 1 1
    simp only [ne_eq, not_true_eq_false, decide_false, Bool.and_false] at hclear
    simpa [hmid, hframe, recvAccount, noteHostNeed, consumeCredit, Context.record, h.setup,
      Context.updateEndpoint] using hclear
  have hsetup : mid.setupComplete = true := by
    simp [hmid, hframe, recvAccount, noteHostNeed, consumeCredit, Context.record, h.setup,
      Context.updateEndpoint]
  have hservice : (mid.endpoints 1).pService = some ⟨.beacon, 0x101, 1600⟩ := by
    simp [hmid, hframe, recvAccount, noteHostNeed, consumeCredit, Context.record, h.setup,
      Context.updateEndpoint, clearThreshold, addConsumed, h.service]
  have hreturn : htcReturnBuffers mid 1 0 = returnBuffer mid 1 0 := by
    unfold htcReturnBuffers
    dsimp only
    rw [if_pos hsetup]
    exact check_idle (by rw [returnBuffer_needs]; exact hneeds) _
  have hrun : Htc.step floodEvent htc = some (returnBuffer mid 1 0) := by
    have hlast : htcCheckAndSendCreditReport (returnBuffer mid 1 0) (epMask 1) (some 1) =
        returnBuffer mid 1 0 := check_idle (by rw [returnBuffer_needs]; exact hneeds) _
    have hscript : runScript mid [.returnBuffers 1 0] = some (returnBuffer mid 1 0) :=
      congrArg some hreturn
    change htcMsgRecvHandler htc frame [.returnBuffers 1 0] = _
    have heid : frame.endpointId = (1 : EndpointId) := rfl
    rw [htcMsgRecvHandler_of_service _ heid (by decide) hservice, processRecvMsg,
      if_neg (by simp), ← hmid, hscript, Option.map_some, hlast]
  refine ⟨_, hrun, ?_, ?_⟩
  · have hsame : ((returnBuffer mid 1 0).endpoints 1).pService = (mid.endpoints 1).pService := by
      simp [returnBuffer, hsetup, Context.record, Context.updateEndpoint, earnCredit]
    rw [hsame, hservice]
  · intro e
    rw [returnBuffer_books, hmid, recvAccount_books]
    split <;> rfl

theorem Flooded.step {n : ℕ} {htc : Context} (h : Flooded n htc) (hn : n < 32767) :
    ∃ htc', Htc.step floodEvent htc = some htc' ∧ Flooded (n + 1) htc' := by
  obtain ⟨htc', hrun, hservice, hbooks⟩ := h.step_books
  have hb := hbooks 1
  rw [if_pos rfl] at hb
  have hs : (htc.books 1).setup = true := h.setup
  have hret : (htc.books 1).toReturn = n := h.toReturn
  have hwrap : aInt16 ((n : Int) + 1) = n + 1 := aInt16_of_bounds (by omega) (by omega)
  refine ⟨htc', hrun, ?_, hservice, ?_, ?_, ?_, ?_, ?_⟩
  · exact (congrArg Books.setup hb).trans (by simp [Books.giveBack, Books.accept, hs])
  · rw [hb]
    simp [Books.giveBack, Books.accept, hs, h.returned]
  · have := congrArg Books.toReturn hb
    simp only [Books.giveBack, Books.accept, hs, if_true, hret, hwrap] at this
    exact this.trans (by push_cast; rfl)
  · intro _
    exact (congrArg Books.pending hb).trans (by simp [Books.giveBack, Books.accept, hs])
  · rw [hb]
    simp [Books.giveBack, Books.accept, hs, h.reported]
  · intro e
    rw [hbooks]
    split
    · rw [Books.held_giveBack, Books.held_accept, h.held]
      rfl
    · exact h.held e

theorem Flooded.allowed {n : ℕ} {htc : Context} (h : Flooded n htc) :
    LegalReturns htc floodEvent ∧ FreeBuffer 1 htc floodEvent := by
  constructor
  · intro e
    rw [h.held]
    by_cases he : (1 : EndpointId) = e
    · subst he
      simp [returnsIn, ServiceAction.returns]
    · simp only [returnsIn, ServiceAction.returns, he, List.map_cons, List.map_nil, if_false,
        List.sum_cons, List.sum_nil]
      split <;> simp
  · simp [FreeBuffer, floodEvent, h.held]

/-- `n` frames can be sent this way with a single receive buffer. -/
theorem flooded_reachable {htc : Context} (n : ℕ) (hn : n ≤ 32767)
    (hreach : target.ReachableWhere (fun htc event => LegalReturns htc event ∧
      FreeBuffer 1 htc event) htc) (h : Flooded 0 htc) :
    ∃ htc', target.ReachableWhere (fun htc event => LegalReturns htc event ∧
      FreeBuffer 1 htc event) htc' ∧ Flooded n htc' := by
  refine hreach.advance h (fun n mid hlt hflooded => ?_) n hn
  obtain ⟨htc', hstep, hflooded'⟩ := hflooded.step hlt
  exact ⟨floodEvent, htc', hflooded.allowed, hstep, hflooded'⟩

/-- A service is connected and setup completes. -/
def floodStart : List Event :=
  [.recv ⟨0, 0, 0, .connectService 0x101 0 3 1⟩ [], .recv ⟨0, 0, 0, .setupComplete⟩ []]

theorem flooded_start (ok : Context → Event → Prop) [∀ htc event, Decidable (ok htc event)]
    (P : Context → Prop) [DecidablePred P]
    (run : (Machine.runWhere step ok floodStart (htcInit 320 45)).any (fun htc =>
      decide (htc.setupComplete = true ∧
        (htc.endpoints 1).pService = some ⟨.beacon, 0x101, 1600⟩ ∧
        (htc.books 1).returned = 0 ∧ (htc.endpoints 1).creditsToReturn = 0 ∧
        (htc.books 1).reported = 0 ∧ (∀ eid, (htc.books eid).held = 0) ∧ P htc)) = true) :
    ∃ htc, target.ReachableWhere ok htc ∧ Flooded 0 htc ∧ P htc := by
  obtain ⟨start, steps, hsetup, hservice, hreturned, hret, hreported, hheld, hP⟩ :=
    Machine.exists_of_runWhere target.Init step ok floodStart run
  have hflooded : Flooded 0 start :=
    ⟨hsetup, hservice, hreturned, hret, by simp, hreported, hheld⟩
  exact ⟨start, .trans (.init ⟨320, 45, rfl⟩) steps, hflooded, hP⟩

/-- A trailer that follows 256 frames sent without credits reports none of them, although never
more than one receive buffer was in use. -/
theorem credits_not_conserved :
    ¬∀ n < 256, ∀ htc, target.ReachableWhere (fun htc event => LegalReturns htc event ∧
        FreeBuffer n htc event) htc → htc.setupComplete = true → ∀ eid,
      ((htc.books eid).reported : Int) + (htc.endpoints eid).creditsToReturn =
        (htc.books eid).returned ∧
      (htc.endpoints eid).creditsToReturn + (htc.endpoints eid).creditsConsumed +
        (htc.books eid).reported = (htc.books eid).accepted ∧
      (0 < (htc.endpoints eid).creditsToReturn →
        htc.epCreditPendingMap.getLsbD eid = true) := by
  intro claim
  obtain ⟨start, hstart, hfresh, -⟩ := flooded_start (fun htc event =>
    LegalReturns htc event ∧ FreeBuffer 1 htc event) (fun _ => True) (by decide +kernel)
  obtain ⟨htc, hreach, hflooded⟩ := flooded_reachable 256 (by omega) hstart hfresh
  -- the answer leaves on endpoint 1 with room for a full trailer
  set buf : NBuf := ⟨8, 20, 100, 0, 0, .service 0⟩ with hbuf
  have hsend : Htc.step (.services [.sendMsg 1 buf]) htc = some (htcSendMsg htc 1 buf) := by
    simp [Htc.step, runScript, ServiceAction.run, hbuf, endpoint0, htcHdrLength]
  have hlegal : LegalReturns htc (.services [.sendMsg 1 buf]) := by
    intro e
    simp [returnsIn, ServiceAction.returns, hflooded.held]
  obtain ⟨hafter, -⟩ := claim 1 (by omega) _ (hreach.step ⟨hlegal, trivial⟩ hsend)
    hflooded.setup 1
  have hroom : 46 ≤ trailerRoom (htc.endpoints 1).downLinkPipeId (pushHtcHdr 1 buf) := by
    simp only [trailerRoom, cInt, pushHtcHdr, hbuf, hifGetMaxMsgLen, htcHdrLength]
    split <;> omega
  have hbooks := htcSendMsg_reports 1 1 buf hroom (hflooded.pending (by omega))
  have hzero : ((htcSendMsg htc 1 buf).endpoints 1).creditsToReturn = 0 :=
    congrArg Books.toReturn hbooks
  have hbyte : ((htc.books 1).toReturn % 256).toNat = 0 := by
    rw [show (htc.books 1).toReturn = 256 from hflooded.toReturn]
    rfl
  rw [hzero, hbooks] at hafter
  simp only [Books.report, hbyte, hflooded.reported, hflooded.returned] at hafter
  omega

end Ath9kHtc.Htc
