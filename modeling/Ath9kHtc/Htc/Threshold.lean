import Ath9kHtc.Htc.Credits
import Ath9kHtc.Htc.Issued

/-!
# The credit threshold

The threshold of an endpoint is taken from the credits that are out when the host asks for some.
A trailer takes credits away and adjusts it again, so that it never asks for more than the service
can still give back.
-/

namespace Ath9kHtc.Htc

/-- The counters of an endpoint, and its threshold within reach of them. -/
structure Endpoint.Covered (ep : Endpoint) : Prop where
  toReturn : 0 ≤ ep.creditsToReturn
  consumed : 0 ≤ ep.creditsConsumed
  bounded : ep.creditsToReturn + ep.creditsConsumed ≤ 32767
  threshold : ep.creditReturnThreshhold ≤ ep.creditsToReturn + ep.creditsConsumed
  dribble : ep.creditReturnThreshhold ≠ 0 →
    ep.connectionFlags &&& htcConnectFlagsReduceCreditDribble ≠ 0

namespace Endpoint.Covered

variable {ep : Endpoint}

/-- All four levels round within the credits that are out. -/
theorem adjust (h : ep.Covered) (hflag : ep.connectionFlags &&& htcConnectFlagsReduceCreditDribble ≠ 0) :
    (adjustCreditThreshold ep).Covered := by
  have hret := h.toReturn
  have hcons := h.consumed
  have hle := h.bounded
  have hsum : aInt16 (ep.creditsToReturn + ep.creditsConsumed) =
      ep.creditsToReturn + ep.creditsConsumed := aInt16_of_bounds (by omega) (by omega)
  have hlevel : (adjustCreditThreshold ep).creditReturnThreshhold ≤
      ep.creditsToReturn + ep.creditsConsumed := by
    simp only [adjustCreditThreshold, hsum]
    split
    · omega
    split
    · omega
    split
    · rw [aInt16_of_bounds (by omega) (by omega)]
      omega
    · exact le_rfl
  exact ⟨hret, hcons, hle, hlevel, fun _ => hflag⟩

theorem checkAndAdjust (h : ep.Covered) : (checkAndAdjustCreditThreshold ep).Covered := by
  unfold checkAndAdjustCreditThreshold
  split
  · exact h.adjust ‹_›
  · exact h

/-- A trailer carries the credits away. -/
theorem report (h : ep.Covered) :
    (checkAndAdjustCreditThreshold { ep with creditsToReturn := 0 }).Covered := by
  have hret := h.toReturn
  have hcons := h.consumed
  have hle := h.bounded
  by_cases hflag : ep.connectionFlags &&& htcConnectFlagsReduceCreditDribble ≠ 0
  · -- the old threshold may be beyond what is left; only the adjustment brings it back
    have hcleared : Endpoint.Covered
        { ep with creditsToReturn := 0, creditReturnThreshhold := 0 } :=
      ⟨le_rfl, hcons, by simp only; omega, by simp only; omega, fun _ => hflag⟩
    have hadjusted := hcleared.adjust hflag
    rw [checkAndAdjustCreditThreshold, if_pos hflag]
    exact hadjusted
  · have hzero : ep.creditReturnThreshhold = 0 := by
      by_contra hne
      exact hflag (h.dribble hne)
    rw [checkAndAdjustCreditThreshold, if_neg hflag]
    exact ⟨le_rfl, hcons, by simp only; omega, by simp only; omega, h.dribble⟩

theorem addConsumed (h : ep.Covered) (hroom : ep.creditsToReturn + ep.creditsConsumed < 32767) :
    (addConsumed ep).Covered := by
  have hret := h.toReturn
  have hcons := h.consumed
  have hthreshold := h.threshold
  have hwrap : aInt16 (ep.creditsConsumed + 1) = ep.creditsConsumed + 1 :=
    aInt16_of_bounds (by omega) (by omega)
  constructor <;> simp only [Htc.addConsumed, hwrap]
  case dribble => exact h.dribble
  all_goals omega

theorem earnCredit (h : ep.Covered) (hheld : 0 < ep.creditsConsumed) :
    (earnCredit ep).Covered := by
  have hret := h.toReturn
  have hle := h.bounded
  have hthreshold := h.threshold
  have hwrap : aInt16 (ep.creditsToReturn + 1) = ep.creditsToReturn + 1 :=
    aInt16_of_bounds (by omega) (by omega)
  have hwrap' : aInt16 (ep.creditsConsumed - 1) = ep.creditsConsumed - 1 :=
    aInt16_of_bounds (by omega) (by omega)
  constructor <;> simp only [Htc.earnCredit, hwrap, hwrap']
  case dribble => exact h.dribble
  all_goals omega

theorem clearThreshold (h : ep.Covered) : (clearThreshold ep).Covered := by
  have hret := h.toReturn
  have hcons := h.consumed
  exact ⟨hret, hcons, h.bounded, by simp only [Htc.clearThreshold]; omega,
    fun hne => absurd rfl hne⟩

end Endpoint.Covered

/-- Frames received on an endpoint after setup whose buffers were not given back since. -/
def Context.heldBuffers (htc : Context) (eid : EndpointId) : Int :=
  logSum (LogEntry.receivedOn eid true) htc.log - logSum (LogEntry.returnedOn eid true) htc.log

def Endpoint.reducesDribble (ep : Endpoint) : Prop :=
  ep.connectionFlags &&& htcConnectFlagsReduceCreditDribble ≠ 0

/-- The counters of every endpoint are covered, `CreditsConsumed` counts what its service holds,
and no endpoint has a threshold that is not connected yet. -/
structure Thresholds (htc : Context) : Prop where
  covered : ∀ e, (htc.endpoints e).Covered
  held : ∀ e, (htc.endpoints e).creditsConsumed = htc.heldBuffers e
  fresh : ∀ e : EndpointId, htc.currentEpIndex ≤ e → ¬(htc.endpoints e).reducesDribble

/-! ## Messages -/

/-- Messages were sent: credits may have left in their trailers. -/
structure Messaging (htc htc' : Context) : Prop where
  covered : ∀ e, (htc.endpoints e).Covered → (htc'.endpoints e).Covered
  consumed : ∀ e, (htc'.endpoints e).creditsConsumed = (htc.endpoints e).creditsConsumed
  flags : ∀ e, (htc'.endpoints e).connectionFlags = (htc.endpoints e).connectionFlags
  held : ∀ e, htc'.heldBuffers e = htc.heldBuffers e
  index : htc'.currentEpIndex = htc.currentEpIndex
  setup : htc'.setupComplete = htc.setupComplete

section

variable {htc htc' htc₁ htc₂ : Context}

theorem Messaging.refl (htc : Context) : Messaging htc htc :=
  ⟨fun _ h => h, fun _ => rfl, fun _ => rfl, fun _ => rfl, rfl, rfl⟩

theorem Messaging.trans (h : Messaging htc htc₁) (h' : Messaging htc₁ htc₂) :
    Messaging htc htc₂ where
  covered e hc := h'.covered e (h.covered e hc)
  consumed e := (h'.consumed e).trans (h.consumed e)
  flags e := (h'.flags e).trans (h.flags e)
  held e := (h'.held e).trans (h.held e)
  index := h'.index.trans h.index
  setup := h'.setup.trans h.setup

theorem Messaging.thresholds (h : Messaging htc htc') (hth : Thresholds htc) :
    Thresholds htc' where
  covered e := h.covered e (hth.covered e)
  held e := by rw [h.consumed, h.held, hth.held]
  fresh e he := by
    rw [Endpoint.reducesDribble, h.flags]
    exact hth.fresh e (h.index ▸ he)

theorem htcSendMsg_messaging (htc : Context) (eid : EndpointId) (buf : NBuf) :
    Messaging htc (htcSendMsg htc eid buf) where
  covered e hc := by
    refine fillTrailer_induction (P := fun t => (t.endpoints e).Covered) htc _ hc (fun _ => hc) ?_
    intro t i ht _ _
    by_cases hie : i = e
    · subst hie
      simp only [Trailer.addReport, Function.update_self]
      exact ht.report
    · rwa [Trailer.addReport_endpoints_of_ne t hie]
  consumed e := congrArg (·.2.2.2.2.2) (htcSendMsg_untrailed htc eid e buf)
  flags e := congrArg (·.2.1) (htcSendMsg_untrailed htc eid e buf)
  held e := by
    simp [Context.heldBuffers, htcSendMsg, LogEntry.receivedOn, LogEntry.returnedOn]
  index := rfl
  setup := rfl

/-- An update of an endpoint that leaves its credits alone. -/
theorem updateEndpoint_messaging (htc : Context) (eid : EndpointId) (f : Endpoint → Endpoint)
    (hcovered : ∀ ep, ep.Covered → (f ep).Covered)
    (hcons : ∀ ep, (f ep).creditsConsumed = ep.creditsConsumed)
    (hflags : ∀ ep, (f ep).connectionFlags = ep.connectionFlags) :
    Messaging htc (htc.updateEndpoint eid f) where
  covered e hc := by
    by_cases he : e = eid
    · subst he
      simpa using hcovered _ hc
    · rwa [htc.updateEndpoint_of_ne f he]
  consumed e := htc.updateEndpoint_congr eid e (·.creditsConsumed) hcons
  flags e := htc.updateEndpoint_congr eid e (·.connectionFlags) hflags
  held _ := rfl
  index := rfl
  setup := rfl

theorem addPendingReports_messaging (htc : Context) (eid : EndpointId) (n : Int) :
    Messaging htc (htc.updateEndpoint eid (addPendingReports n)) :=
  updateEndpoint_messaging htc eid _
    (fun _ h => ⟨h.toReturn, h.consumed, h.bounded, h.threshold, h.dribble⟩) (fun _ => rfl)
    fun _ => rfl

theorem alloc_messaging {buf : NBuf} (h : htcAllocMsgBuffer htc = some (buf, htc₁)) :
    Messaging htc htc₁ := by
  obtain ⟨old, rest, -, rfl, -⟩ := htcAllocMsgBuffer_some h
  exact ⟨fun _ h => h, fun _ => rfl, fun _ => rfl, fun _ => rfl, rfl, rfl⟩

theorem check_messaging (htc : Context) (mask : BitVec 32) (pEndpoint : Option EndpointId) :
    Messaging htc (htcCheckAndSendCreditReport htc mask pEndpoint) := by
  rcases check_cases htc mask pEndpoint with heq | heq | ⟨buf, htc₁, halloc, hcase⟩
  · rw [heq]
    exact .refl htc
  · rw [heq]
    exact ⟨fun _ h => h, fun _ => rfl, fun _ => rfl, fun _ => rfl, rfl, rfl⟩
  · rcases hcase with ⟨eid, -, -, heq⟩ | ⟨-, heq⟩
    · rw [heq]
      exact ((alloc_messaging halloc).trans (addPendingReports_messaging htc₁ eid 1)).trans
        (htcSendMsg_messaging ..)
    · rw [heq]
      exact (alloc_messaging halloc).trans (htcSendMsg_messaging ..)

theorem htcReady_messaging (h : htcReady htc = some htc') : Messaging htc htc' := by
  obtain ⟨⟨buf, mid⟩, halloc, hsend⟩ := Option.bind_eq_some_iff.mp h
  obtain rfl := Option.some.inj hsend
  exact (alloc_messaging halloc).trans (htcSendMsg_messaging ..)

theorem htcProcessConfigPipeMsg_messaging {pipeId creditCount : ℕ}
    (h : htcProcessConfigPipeMsg htc pipeId creditCount = some htc') : Messaging htc htc' := by
  obtain ⟨⟨buf, mid⟩, halloc, hrest⟩ := Option.bind_eq_some_iff.mp h
  have hmid := alloc_messaging halloc
  dsimp only at hrest
  split at hrest
  · obtain rfl := Option.some.inj hrest
    exact hmid.trans (htcSendMsg_messaging ..)
  split at hrest
  · split at hrest
    · obtain rfl := Option.some.inj hrest
      have hpipe : Messaging mid
          { mid with
            totalCreditsAssigned := mid.totalCreditsAssigned + creditCount
            pipes := (pipeId, creditCount) :: mid.pipes } :=
        ⟨fun _ h => h, fun _ => rfl, fun _ => rfl, fun _ => rfl, rfl, rfl⟩
      exact (hmid.trans hpipe).trans (htcSendMsg_messaging ..)
    · cases hrest
  · obtain rfl := Option.some.inj hrest
    exact hmid.trans (htcSendMsg_messaging ..)

/-! ## Connections -/

/-- A new connection finds no threshold on its endpoint. -/
theorem Thresholds.connect (h : Thresholds htc) (inTable : htc.currentEpIndex < 22) (svc : Service)
    (flags : BitVec 16) (down up : ℕ) :
    Thresholds { htc.updateEndpoint ⟨htc.currentEpIndex, inTable⟩
      (connectEndpoint svc flags down up) with currentEpIndex := htc.currentEpIndex + 1 } := by
  set idx : EndpointId := ⟨htc.currentEpIndex, inTable⟩ with hidx
  have hzero : (htc.endpoints idx).creditReturnThreshhold = 0 := by
    by_contra hne
    exact h.fresh idx le_rfl ((h.covered idx).dribble hne)
  constructor
  · intro e
    by_cases he : e = idx
    · subst he
      have hc := h.covered idx
      have hconnected : (connectEndpoint svc flags down up (htc.endpoints idx)).Covered :=
        ⟨hc.toReturn, hc.consumed, hc.bounded, hc.threshold, fun hne => absurd hzero hne⟩
      simpa using hconnected
    · have hsame := htc.updateEndpoint_of_ne (connectEndpoint svc flags down up) he
      change ((htc.updateEndpoint idx (connectEndpoint svc flags down up)).endpoints e).Covered
      rw [hsame]
      exact h.covered e
  · intro e
    exact (htc.updateEndpoint_congr idx e (f := connectEndpoint svc flags down up)
      (·.creditsConsumed) fun _ => rfl).trans (h.held e)
  · intro e he
    have hlt : htc.currentEpIndex < e := he
    have hne : e ≠ idx := by
      rintro rfl
      exact absurd hlt (lt_irrefl _)
    have hsame := htc.updateEndpoint_of_ne (connectEndpoint svc flags down up) hne
    change ¬((htc.updateEndpoint idx (connectEndpoint svc flags down up)).endpoints
      e).reducesDribble
    rw [hsame]
    exact h.fresh e hlt.le

theorem Thresholds.htcProcessConnectMsg {serviceId down up : ℕ} {flags : BitVec 16}
    (h : Thresholds htc) (hconnect : htcProcessConnectMsg htc serviceId flags down up = some htc') :
    Thresholds htc' := by
  obtain ⟨⟨buf, mid⟩, halloc, hrest⟩ := Option.bind_eq_some_iff.mp hconnect
  have hmid := (alloc_messaging halloc).thresholds h
  dsimp only at hrest
  split at hrest
  · obtain rfl := Option.some.inj hrest
    exact (htcSendMsg_messaging ..).thresholds hmid
  · split at hrest
    · rename_i inTable
      obtain rfl := Option.some.inj hrest
      exact (htcSendMsg_messaging ..).thresholds (hmid.connect inTable _ flags down up)
    · cases hrest

theorem Thresholds.processControlMsg {msg : ControlMsg} (h : Thresholds htc)
    (hmsg : processControlMsg htc msg = some htc') : Thresholds htc' := by
  cases msg with
  | connectService serviceId flags down up => exact h.htcProcessConnectMsg hmsg
  | configPipe pipeId creditCount => exact (htcProcessConfigPipeMsg_messaging hmsg).thresholds h
  | setupComplete =>
      obtain rfl := Option.some.inj hmsg
      exact h
  | unknown =>
      obtain rfl := Option.some.inj hmsg
      exact h

/-! ## Buffers come and go -/

theorem heldBuffers_eq (htc : Context) (e : EndpointId) :
    htc.heldBuffers e = (htc.books e).accepted - (htc.books e).returned := rfl

theorem Reporting.same {b : Books} (n : ℕ) :
    (Books.report^[n] b).accepted = b.accepted ∧ (Books.report^[n] b).returned = b.returned ∧
      (Books.report^[n] b).setup = b.setup := by
  induction n with
  | zero => exact ⟨rfl, rfl, rfl⟩
  | succ n ih =>
      rw [Function.iterate_succ_apply']
      exact ih

theorem Reporting.heldBuffers (h : Reporting htc htc') (e : EndpointId) :
    htc'.heldBuffers e = htc.heldBuffers e ∧ htc'.setupComplete = htc.setupComplete := by
  obtain ⟨n, hn⟩ := h e
  obtain ⟨haccepted, hreturned, hsetup⟩ := Reporting.same (b := htc.books e) n
  rw [← hn] at haccepted hreturned hsetup
  rw [heldBuffers_eq, heldBuffers_eq, haccepted, hreturned]
  exact ⟨rfl, hsetup⟩

theorem returnBuffer_heldBuffers (htc : Context) (eid e : EndpointId) (buf : RecvBuf) :
    (returnBuffer htc eid buf).heldBuffers e =
      htc.heldBuffers e - if htc.setupComplete ∧ eid = e then 1 else 0 := by
  rw [heldBuffers_eq, returnBuffer_books]
  by_cases he : e = eid
  · subst he
    have hsetup : (htc.books e).setup = htc.setupComplete := rfl
    rw [if_pos rfl, Books.giveBack, hsetup]
    cases htc.setupComplete with
    | true =>
        simp only [if_true, and_self, heldBuffers_eq]
        omega
    | false => simp [heldBuffers_eq]
  · rw [if_neg he, if_neg fun h => he h.2.symm]
    exact (sub_zero _).symm

theorem returnBuffer_endpoints (htc : Context) (eid e : EndpointId) (buf : RecvBuf) :
    (returnBuffer htc eid buf).endpoints e =
      if htc.setupComplete ∧ eid = e then earnCredit (htc.endpoints e) else htc.endpoints e := by
  unfold returnBuffer
  cases hsetup : htc.setupComplete with
  | false => simp [Context.record, hsetup]
  | true =>
      by_cases he : eid = e
      · subst he
        simp [Context.record, hsetup]
      · simp [Context.record, hsetup, he, Ne.symm he]

theorem returnBuffer_currentEpIndex (htc : Context) (eid : EndpointId) (buf : RecvBuf) :
    (returnBuffer htc eid buf).currentEpIndex = htc.currentEpIndex := by
  unfold returnBuffer
  dsimp only [Context.record]
  split <;> rfl

theorem returnBuffer_setupComplete (htc : Context) (eid : EndpointId) (buf : RecvBuf) :
    (returnBuffer htc eid buf).setupComplete = htc.setupComplete := by
  unfold returnBuffer
  dsimp only [Context.record]
  split <;> rfl

theorem Thresholds.returnBuffer (h : Thresholds htc) {eid : EndpointId}
    (hheld : htc.setupComplete = true → 0 < htc.heldBuffers eid) (buf : RecvBuf) :
    Thresholds (returnBuffer htc eid buf) := by
  constructor
  · intro e
    rw [returnBuffer_endpoints]
    split
    · rename_i he
      refine (h.covered e).earnCredit ?_
      rw [h.held, ← he.2]
      exact hheld he.1
    · exact h.covered e
  · intro e
    have hc := h.covered e
    have hle := hc.bounded
    have hret := hc.toReturn
    have hcons := hc.consumed
    rw [returnBuffer_endpoints, returnBuffer_heldBuffers, ← h.held]
    split
    · exact aInt16_of_bounds (by omega) (by omega)
    · exact (sub_zero _).symm
  · intro e he
    rw [returnBuffer_currentEpIndex] at he
    rw [Endpoint.reducesDribble, returnBuffer_endpoints]
    split
    · exact h.fresh e he
    · exact h.fresh e he

theorem Thresholds.htcReturnBuffers (h : Thresholds htc) {eid : EndpointId}
    (hheld : htc.setupComplete = true → 0 < htc.heldBuffers eid) (buf : RecvBuf) :
    Thresholds (htcReturnBuffers htc eid buf) := by
  have hreturned := h.returnBuffer hheld buf
  unfold Htc.htcReturnBuffers
  dsimp only
  split
  · exact (check_messaging ..).thresholds hreturned
  · exact hreturned

/-- A list of buffers, all of them held. -/
theorem Thresholds.returnList (h : Thresholds htc) (eid : EndpointId) (bufs : List RecvBuf)
    (hheld : (bufs.length : Int) ≤ htc.heldBuffers eid) :
    Thresholds (bufs.foldl (fun htc buf => Htc.returnBuffer htc eid buf) htc) ∧
      ∀ e, htc.heldBuffers e - (if eid = e then (bufs.length : Int) else 0) ≤
        (bufs.foldl (fun htc buf => Htc.returnBuffer htc eid buf) htc).heldBuffers e := by
  induction bufs generalizing htc with
  | nil => exact ⟨h, by simp⟩
  | cons buf bufs ih =>
      simp only [List.length_cons, Nat.cast_add, Nat.cast_one] at hheld
      have hafter := fun e => returnBuffer_heldBuffers htc eid e buf
      have hone := hafter eid
      have hfirst : Thresholds (Htc.returnBuffer htc eid buf) :=
        h.returnBuffer (fun _ => by omega) buf
      have hrest : (bufs.length : Int) ≤ (Htc.returnBuffer htc eid buf).heldBuffers eid := by
        split at hone <;> omega
      obtain ⟨hthresholds, hleft⟩ := ih hfirst hrest
      refine ⟨hthresholds, fun e => ?_⟩
      have hleft' := hleft e
      have hstep := hafter e
      simp only [List.foldl_cons, List.length_cons, Nat.cast_add, Nat.cast_one]
      by_cases he : eid = e
      · rw [if_pos he] at hleft' ⊢
        split at hstep <;> omega
      · rw [if_neg he] at hleft' ⊢
        rw [if_neg fun hboth => he hboth.2] at hstep
        omega

theorem Thresholds.action {action : ServiceAction} (h : Thresholds htc)
    (hheld : ∀ e, (action.returns e : Int) ≤ htc.heldBuffers e)
    (hrun : action.run htc = some htc') :
    Thresholds htc' ∧ ∀ e, htc.heldBuffers e - action.returns e ≤ htc'.heldBuffers e := by
  cases action with
  | returnBuffers eid buf =>
      obtain rfl := Option.some.inj hrun
      have hone := hheld eid
      simp only [ServiceAction.returns, if_true, Nat.cast_one] at hone
      refine ⟨h.htcReturnBuffers (fun _ => by omega) buf, fun e => ?_⟩
      rw [((htcReturnBuffers_reporting htc eid buf).heldBuffers e).1, returnBuffer_heldBuffers]
      by_cases he : eid = e
      · simp only [ServiceAction.returns, if_pos he, Nat.cast_one]
        split <;> omega
      · rw [if_neg fun hboth => he hboth.2]
        simp [ServiceAction.returns, he]
  | returnBuffersList eid bufs =>
      obtain rfl := Option.some.inj hrun
      have hall := hheld eid
      simp only [ServiceAction.returns, if_true] at hall
      obtain ⟨hthresholds, hleft⟩ := h.returnList eid bufs hall
      have hcheck := check_messaging
        (bufs.foldl (fun htc buf => Htc.returnBuffer htc eid buf) htc) (epMask eid) (some eid)
      refine ⟨hcheck.thresholds hthresholds, fun e => ?_⟩
      have hleft' := hleft e
      rw [← hcheck.held e] at hleft'
      rw [ServiceAction.returns, Nat.cast_ite, Nat.cast_zero]
      exact hleft'
  | sendMsg eid buf =>
      simp only [ServiceAction.run, Option.ite_none_right_eq_some, Option.some.injEq] at hrun
      obtain ⟨-, rfl⟩ := hrun
      have hsend := htcSendMsg_messaging htc eid buf
      refine ⟨hsend.thresholds h, fun e => ?_⟩
      rw [hsend.held]
      simp [ServiceAction.returns]

theorem Thresholds.runScript {script : List ServiceAction} (h : Thresholds htc)
    (hheld : ∀ e, (returnsIn script e : Int) ≤ htc.heldBuffers e)
    (hrun : runScript htc script = some htc') : Thresholds htc' := by
  induction script generalizing htc with
  | nil =>
      obtain rfl := Option.some.inj hrun
      exact h
  | cons action rest ih =>
      obtain ⟨mid, haction, hrest⟩ := Option.bind_eq_some_iff.mp hrun
      have hsplit : ∀ e, returnsIn (action :: rest) e = action.returns e + returnsIn rest e :=
        fun e => by simp [returnsIn]
      have hbound : ∀ e, (action.returns e : Int) + returnsIn rest e ≤ htc.heldBuffers e := by
        intro e
        have hle := hheld e
        rw [hsplit, Nat.cast_add] at hle
        exact hle
      have hfirst : ∀ e, (action.returns e : Int) ≤ htc.heldBuffers e := by
        intro e
        have hle := hbound e
        omega
      obtain ⟨hmid, hleft⟩ := h.action hfirst haction
      refine ih hmid ?_ hrest
      intro e
      have hle := hbound e
      have hge := hleft e
      omega

/-! ## Frames of the host -/

theorem noteHostNeed_endpoints (htc : Context) (eid e : EndpointId) (flags : BitVec 8) :
    (noteHostNeed htc eid flags).endpoints e =
      if eid = e then
        if flags &&& htcFlagsNeedCreditUpdate ≠ 0 then
          checkAndAdjustCreditThreshold (htc.endpoints e)
        else clearThreshold (htc.endpoints e)
      else htc.endpoints e := by
  unfold noteHostNeed
  by_cases he : eid = e
  · subst he
    split <;> simp [*]
  · split <;> simp [*, Ne.symm he]

theorem consumeCredit_endpoints (htc : Context) (eid e : EndpointId) :
    (consumeCredit htc eid).endpoints e =
      if htc.setupComplete ∧ eid = e then addConsumed (htc.endpoints e) else htc.endpoints e := by
  unfold consumeCredit
  cases hsetup : htc.setupComplete with
  | false => simp
  | true =>
      by_cases he : eid = e
      · subst he
        simp
      · simp [he, Ne.symm he]

theorem noteHostNeed_kept (htc : Context) (eid : EndpointId) (flags : BitVec 8) :
    (noteHostNeed htc eid flags).currentEpIndex = htc.currentEpIndex ∧
      (noteHostNeed htc eid flags).setupComplete = htc.setupComplete := by
  unfold noteHostNeed
  split <;> exact ⟨rfl, rfl⟩

theorem consumeCredit_kept (htc : Context) (eid : EndpointId) :
    (consumeCredit htc eid).currentEpIndex = htc.currentEpIndex ∧
      (consumeCredit htc eid).setupComplete = htc.setupComplete := by
  unfold consumeCredit
  split <;> exact ⟨rfl, rfl⟩

theorem recvAccount_kept (htc : Context) (eid : EndpointId) (frame : Frame) :
    (recvAccount htc eid frame).currentEpIndex = htc.currentEpIndex ∧
      (recvAccount htc eid frame).setupComplete = htc.setupComplete := by
  set counted := htc.record (.received eid frame.buf htc.setupComplete) with hcounted
  obtain ⟨hindex, hsetup⟩ := consumeCredit_kept counted eid
  obtain ⟨hindex', hsetup'⟩ := noteHostNeed_kept (consumeCredit counted eid) eid frame.flags
  exact ⟨hindex'.trans hindex, hsetup'.trans hsetup⟩

theorem recvAccount_heldBuffers (htc : Context) (eid e : EndpointId) (frame : Frame) :
    (recvAccount htc eid frame).heldBuffers e =
      htc.heldBuffers e + if htc.setupComplete ∧ eid = e then 1 else 0 := by
  rw [heldBuffers_eq, recvAccount_books]
  by_cases he : e = eid
  · subst he
    have hsetup : (htc.books e).setup = htc.setupComplete := rfl
    rw [if_pos rfl, Books.accept, hsetup]
    cases htc.setupComplete with
    | true =>
        simp only [if_true, and_self, heldBuffers_eq]
        omega
    | false => simp [heldBuffers_eq]
  · rw [if_neg he, if_neg fun h => he h.2.symm]
    exact (add_zero _).symm

theorem Thresholds.recvAccount (h : Thresholds htc) {eid : EndpointId} {frame : Frame}
    (hroom : htc.setupComplete = true →
      (htc.endpoints eid).creditsToReturn + (htc.endpoints eid).creditsConsumed < 32767) :
    Thresholds (recvAccount htc eid frame) := by
  set mid := consumeCredit (htc.record (.received eid frame.buf htc.setupComplete)) eid with hmid
  have hconsumed : ∀ e, mid.endpoints e =
      if htc.setupComplete ∧ eid = e then addConsumed (htc.endpoints e) else htc.endpoints e :=
    fun e => consumeCredit_endpoints _ eid e
  have hcovered : ∀ e, (mid.endpoints e).Covered := by
    intro e
    rw [hconsumed]
    split
    · rename_i he
      exact (h.covered e).addConsumed (he.2 ▸ hroom he.1)
    · exact h.covered e
  have hcount : ∀ e, (mid.endpoints e).creditsConsumed =
      htc.heldBuffers e + if htc.setupComplete ∧ eid = e then 1 else 0 := by
    intro e
    have hc := h.covered e
    have hret := hc.toReturn
    have hcons := hc.consumed
    rw [hconsumed, ← h.held]
    split
    · rename_i he
      have hlt := hroom he.1
      rw [he.2] at hlt
      exact aInt16_of_bounds (by omega) (by omega)
    · exact (add_zero _).symm
  have hflags : ∀ e, (mid.endpoints e).connectionFlags = (htc.endpoints e).connectionFlags := by
    intro e
    rw [hconsumed]
    split <;> rfl
  have hnote : ∀ e, (Htc.recvAccount htc eid frame).endpoints e = _ := fun e =>
    noteHostNeed_endpoints mid eid e frame.flags
  have huntrailed : ∀ e, ((Htc.recvAccount htc eid frame).endpoints e).creditsConsumed =
      (mid.endpoints e).creditsConsumed ∧
      ((Htc.recvAccount htc eid frame).endpoints e).connectionFlags =
        (mid.endpoints e).connectionFlags := by
    intro e
    have hsame := checkAndAdjustCreditThreshold_untrailed (mid.endpoints e)
    rw [hnote]
    split
    · split
      · exact ⟨congrArg (·.2.2.2.2.2) hsame, congrArg (·.2.1) hsame⟩
      · exact ⟨rfl, rfl⟩
    · exact ⟨rfl, rfl⟩
  constructor
  · intro e
    rw [hnote]
    split
    · split
      · exact (hcovered e).checkAndAdjust
      · exact (hcovered e).clearThreshold
    · exact hcovered e
  · intro e
    rw [(huntrailed e).1, hcount, recvAccount_heldBuffers]
  · intro e he
    rw [(recvAccount_kept htc eid frame).1] at he
    rw [Endpoint.reducesDribble, (huntrailed e).2, hflags]
    exact h.fresh e he

/-! ## Runs -/

/-- After setup the services give back buffers of frames received since, on the endpoint they
were received on. -/
def ReturnsHeld (htc : Context) : Event → Prop
  | .ready => True
  | .recv frame script => ∀ e : EndpointId, (returnsIn script e : Int) ≤
      htc.heldBuffers e + if htc.setupComplete ∧ frame.endpointId = e then 1 else 0
  | .sendDone _ script => ∀ e : EndpointId, (returnsIn script e : Int) ≤ htc.heldBuffers e
  | .services script => ∀ e : EndpointId, (returnsIn script e : Int) ≤ htc.heldBuffers e

/-- A frame finds room in the 16-bit counters: the host has fewer than 32767 frames on the
endpoint whose credits it was not told of. -/
def WithinCounters (htc : Context) : Event → Prop
  | .recv frame _ => htc.setupComplete = true → ∀ e : EndpointId, frame.endpointId = e →
      (htc.endpoints e).creditsToReturn + (htc.endpoints e).creditsConsumed < 32767
  | _ => True

def Sustained (htc : Context) (event : Event) : Prop :=
  ReturnsHeld htc event ∧ WithinCounters htc event

instance decidableReturnsHeld (htc : Context) : (event : Event) → Decidable (ReturnsHeld htc event)
  | .ready => inferInstanceAs (Decidable True)
  | .recv _ _ => inferInstanceAs (Decidable (∀ _ : EndpointId, _ ≤ _))
  | .sendDone _ _ => inferInstanceAs (Decidable (∀ _ : EndpointId, _ ≤ _))
  | .services _ => inferInstanceAs (Decidable (∀ _ : EndpointId, _ ≤ _))

instance decidableWithinCounters (htc : Context) :
    (event : Event) → Decidable (WithinCounters htc event)
  | .recv _ _ => inferInstanceAs (Decidable (_ → ∀ _ : EndpointId, _ → _ < _))
  | .ready => inferInstanceAs (Decidable True)
  | .sendDone _ _ => inferInstanceAs (Decidable True)
  | .services _ => inferInstanceAs (Decidable True)

instance decidableSustained (htc : Context) (event : Event) : Decidable (Sustained htc event) :=
  inferInstanceAs (Decidable (_ ∧ _))

theorem Thresholds.controlMsg {msg : ControlMsg} {buf : RecvBuf} (h : Thresholds htc)
    (hheld : htc.setupComplete = true → 0 < htc.heldBuffers endpoint0)
    (hmsg : htcControlSvcProcessMsg htc endpoint0 msg buf = some htc') : Thresholds htc' := by
  obtain ⟨mid, hprocess, hrest⟩ := Option.bind_eq_some_iff.mp hmsg
  have hmid := h.processControlMsg hprocess
  obtain ⟨hsame, hsetup⟩ := (processControlMsg_reporting hprocess).heldBuffers endpoint0
  have hrecycled : Thresholds (recycleControlBuffer mid endpoint0 buf) := by
    unfold recycleControlBuffer
    split
    · rename_i hset
      refine hmid.htcReturnBuffers (fun _ => ?_) buf
      rw [hsame]
      exact hheld (hsetup ▸ hset)
    · refine ⟨hmid.covered, fun e => (hmid.held e).trans ?_, hmid.fresh⟩
      simp [Context.heldBuffers, Context.record, LogEntry.receivedOn, LogEntry.returnedOn]
  obtain rfl := Option.some.inj hrest
  split
  · exact ⟨hrecycled.covered, hrecycled.held, hrecycled.fresh⟩
  · exact hrecycled

theorem Thresholds.recv {frame : Frame} {script : List ServiceAction} (h : Thresholds htc)
    (hwake : WakeInv ∅ htc) (hok : Sustained htc (.recv frame script))
    (hrecv : htcMsgRecvHandler htc frame script = some htc') : Thresholds htc' := by
  obtain ⟨hreturns, hroom⟩ := hok
  unfold htcMsgRecvHandler at hrecv
  split at hrecv
  · rename_i inTable
    dsimp only at hrecv
    split at hrecv
    · obtain rfl := Option.some.inj hrecv
      exact h
    · obtain ⟨svc, hsvc, hrest⟩ := Option.bind_eq_some_iff.mp hrecv
      obtain ⟨mid, hservice, hcheck⟩ := Option.bind_eq_some_iff.mp hrest
      obtain rfl := Option.some.inj hcheck
      set eid : EndpointId := ⟨frame.endpointId, inTable⟩ with heid
      have haccepted : Thresholds (Htc.recvAccount htc eid frame) :=
        h.recvAccount fun hsetup => hroom hsetup eid rfl
      have hheld := fun e => recvAccount_heldBuffers htc eid e frame
      have hmid : Thresholds mid := by
        unfold processRecvMsg at hservice
        split at hservice
        · rename_i hkind
          have hzero : eid = endpoint0 := by
            by_contra hne
            exact (hwake.recvAccount eid frame).path.services eid svc hne hsvc hkind
          rw [hzero] at hservice haccepted
          refine haccepted.controlMsg (fun hsetup => ?_) hservice
          -- the message's own buffer is among those held
          have hown := recvAccount_heldBuffers htc endpoint0 endpoint0 frame
          have hcovered := h.covered endpoint0
          have hcons := hcovered.consumed
          rw [(recvAccount_kept htc endpoint0 frame).2] at hsetup
          rw [if_pos ⟨hsetup, rfl⟩, ← h.held] at hown
          omega
        · refine haccepted.runScript (fun e => ?_) hservice
          have hle := hreturns e
          have hsame : frame.endpointId = e ↔ eid = e := by
            rw [heid, Fin.ext_iff]
          rw [hheld]
          simpa only [hsame] using hle
      exact (check_messaging ..).thresholds hmid
  · cases hrecv

theorem settleCreditReport_messaging {flags : BitVec 8}
    (h : settleCreditReport htc flags = some htc') : Messaging htc htc' := by
  rcases settleCreditReport_spec h with ⟨eid, -, -, rfl⟩ | ⟨-, rfl⟩
  · exact addPendingReports_messaging htc eid (-1)
  · exact .refl htc'

theorem Thresholds.sendDone {i : ℕ} {script : List ServiceAction} (h : Thresholds htc)
    (hreturns : ReturnsHeld htc (.sendDone i script))
    (hdone : htcSendDoneHandler htc i script = some htc') : Thresholds htc' := by
  obtain ⟨msg, -, hrest⟩ := Option.bind_eq_some_iff.mp hdone
  obtain ⟨svc, -, hrest⟩ := Option.bind_eq_some_iff.mp hrest
  have herased : Thresholds { htc with inFlight := htc.inFlight.eraseIdx i } :=
    ⟨h.covered, h.held, h.fresh⟩
  split at hrest
  · obtain ⟨mid, hsettle, hlast⟩ := Option.bind_eq_some_iff.mp hrest
    have hmid := (settleCreditReport_messaging hsettle).thresholds herased
    obtain rfl := Option.some.inj hlast
    split
    · apply (check_messaging ..).thresholds
      exact ⟨hmid.covered, hmid.held, hmid.fresh⟩
    · exact ⟨hmid.covered, hmid.held, hmid.fresh⟩
  · exact herased.runScript hreturns hrest

theorem Thresholds.step {event : Event} (h : Thresholds htc) (hwake : WakeInv ∅ htc)
    (hok : Sustained htc event) (hstep : Htc.step event htc = some htc') : Thresholds htc' := by
  cases event with
  | ready => exact (htcReady_messaging hstep).thresholds h
  | recv frame script => exact h.recv hwake hok hstep
  | sendDone i script => exact h.sendDone hok.1 hstep
  | services script => exact h.runScript hok.1 hstep

end

theorem htcInit_thresholds (creditSize creditNumber : ℕ) :
    Thresholds (htcInit creditSize creditNumber) := by
  constructor
  · intro e
    by_cases he : e = endpoint0 <;> constructor <;> simp [htcInit, he]
  · intro e
    by_cases he : e = endpoint0 <;> simp [htcInit, he, Context.heldBuffers, logSum]
  · intro e _
    by_cases he : e = endpoint0 <;> simp [htcInit, he, Endpoint.reducesDribble]

theorem reachable_thresholds {htc : Context} (h : target.ReachableWhere Sustained htc) :
    Thresholds htc := by
  have hinv : Thresholds htc ∧ WakeInv ∅ htc := by
    refine h.invariant (P := fun htc => Thresholds htc ∧ WakeInv ∅ htc) ?_ ?_
    · rintro _ ⟨creditSize, creditNumber, rfl⟩
      exact ⟨htcInit_thresholds creditSize creditNumber, htcInit_wakeInv creditSize creditNumber⟩
    · rintro s event s' ⟨hthresholds, hwake⟩ hok hstep
      exact ⟨hthresholds.step hwake hok hstep, hwake.step hstep⟩
  exact hinv.1

/-- The threshold stays within the credits that are out, so that a service that holds no buffer
has earned enough of them. -/
theorem threshold_within_reach {htc : Context} (h : target.ReachableWhere Sustained htc)
    (eid : EndpointId) :
    0 ≤ (htc.endpoints eid).creditsToReturn ∧ 0 ≤ (htc.endpoints eid).creditsConsumed ∧
      (htc.endpoints eid).creditReturnThreshhold ≤
        (htc.endpoints eid).creditsToReturn + (htc.endpoints eid).creditsConsumed ∧
      (htc.heldBuffers eid = 0 →
        (htc.endpoints eid).creditReturnThreshhold ≤ (htc.endpoints eid).creditsToReturn) := by
  have hth := reachable_thresholds h
  have hc := hth.covered eid
  refine ⟨hc.toReturn, hc.consumed, hc.threshold, fun hheld => ?_⟩
  have hcons := (hth.held eid).trans hheld
  have hle := hc.threshold
  omega

/-- An endpoint that wants its credits in large lots: two frames ask for credits, one buffer goes
back and stays below the threshold, the second brings both credits out. -/
theorem threshold_within_reach_lots :
    ∃ htc, target.ReachableWhere Sustained htc ∧ htc.heldBuffers 1 = 0 ∧
      (htc.endpoints 1).creditReturnThreshhold ≤ (htc.endpoints 1).creditsToReturn := by
  obtain ⟨htc, steps, hheld⟩ := Machine.exists_of_runWhere target.Init step Sustained
    (P := fun htc : Context => htc.heldBuffers 1 = 0) (s := htcInit 320 45)
    [.recv ⟨0, 0, 0, .connectService 0x101 7 hifUsbPipeInterrupt hifUsbPipeTx⟩ [],
      .recv ⟨0, 0, 0, .setupComplete⟩ [],
      .recv ⟨1, 1, 0, .unknown⟩ [],
      .recv ⟨1, 1, 1, .unknown⟩ [.returnBuffers 1 0],
      .services [.returnBuffers 1 1]]
    (by decide +kernel)
  have hreach : target.ReachableWhere Sustained htc := .trans (.init ⟨320, 45, rfl⟩) steps
  obtain ⟨-, -, -, hreached⟩ := threshold_within_reach hreach 1
  exact ⟨htc, hreach, hheld, hreached hheld⟩

/-- `n` frames were received and returned since setup, with nothing reported. -/
structure Swamped (n : ℕ) (htc : Context) : Prop extends Flooded n htc where
  empty : ∀ e, htc.heldBuffers e = 0

theorem Swamped.step {n : ℕ} {htc : Context} (h : Swamped n htc) (hn : n < 32767) :
    ∃ htc', Htc.step floodEvent htc = some htc' ∧ Swamped (n + 1) htc' := by
  obtain ⟨htc', hrun, -, hbooks⟩ := h.toFlooded.step_books
  obtain ⟨htc'', hrun', hflooded⟩ := h.toFlooded.step hn
  obtain rfl := Option.some.inj (hrun.symm.trans hrun')
  have hs : (htc.books 1).setup = true := h.setup
  refine ⟨htc', hrun, hflooded, fun e => ?_⟩
  have hempty := h.empty e
  rw [heldBuffers_eq] at hempty ⊢
  rw [hbooks]
  split
  · rename_i he
    subst he
    simp only [Books.giveBack, Books.accept, hs, if_true, Nat.cast_add, Nat.cast_one]
    omega
  · exact hempty

theorem Swamped.allowed {n : ℕ} {htc : Context} (h : Swamped n htc) :
    ReturnsHeld htc floodEvent ∧ FreeBuffer 1 htc floodEvent := by
  refine ⟨fun e => ?_, h.toFlooded.allowed.2⟩
  have hle := h.toFlooded.allowed.1 e
  rw [h.held] at hle
  rw [h.empty]
  simpa [h.setup] using hle

/-- The counters are 16 bits wide: 32768 frames that ask for nothing and no trailer in between
make `CreditsToReturn` negative, although no more than one receive buffer was ever in use. -/
theorem counter_wraps :
    ¬∀ htc, target.ReachableWhere (fun htc event => ReturnsHeld htc event ∧
        FreeBuffer 1 htc event) htc → htc.setupComplete = true → ∀ eid,
      0 ≤ (htc.endpoints eid).creditsToReturn ∧ 0 ≤ (htc.endpoints eid).creditsConsumed ∧
        (htc.endpoints eid).creditReturnThreshhold ≤
          (htc.endpoints eid).creditsToReturn + (htc.endpoints eid).creditsConsumed := by
  intro claim
  obtain ⟨start, hstart, hflooded, hempty⟩ := flooded_start (fun htc event =>
    ReturnsHeld htc event ∧ FreeBuffer 1 htc event) (fun htc => ∀ e, htc.heldBuffers e = 0)
    (by decide +kernel)
  have hswamped : Swamped 0 start := ⟨hflooded, hempty⟩
  have hnext : ∀ n mid, n < 32767 → Swamped n mid → ∃ event htc', (ReturnsHeld mid event ∧
      FreeBuffer 1 mid event) ∧ Htc.step event mid = some htc' ∧ Swamped (n + 1) htc' := by
    intro n mid hlt hmid
    obtain ⟨htc', hstep, hmid'⟩ := hmid.step hlt
    exact ⟨floodEvent, htc', hmid.allowed, hstep, hmid'⟩
  obtain ⟨htc, hreach, hfull⟩ := hstart.advance hswamped hnext 32767 le_rfl
  obtain ⟨htc', hstep, -, hbooks⟩ := hfull.toFlooded.step_books
  have hb := hbooks 1
  have hs : (htc.books 1).setup = true := hfull.setup
  have hlast : (htc.books 1).toReturn = 32767 := hfull.toReturn
  simp only [if_pos, Books.giveBack, Books.accept, hs, hlast] at hb
  have hsetup : htc'.setupComplete = true := congrArg Books.setup hb
  have hret : (htc'.endpoints 1).creditsToReturn = aInt16 (32767 + 1) := congrArg Books.toReturn hb
  obtain ⟨hnonneg, -⟩ := claim htc' (hreach.step hfull.allowed hstep) hsetup 1
  rw [hret] at hnonneg
  exact absurd hnonneg (by decide)

end Ath9kHtc.Htc
