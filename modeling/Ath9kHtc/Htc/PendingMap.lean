import Ath9kHtc.Htc.System
import Ath9kHtc.Htc.Issued
import Ath9kHtc.Htc.Encoding

/-!
# The map of pending credits

Only bits of endpoints are ever set in it.
-/

namespace Ath9kHtc.Htc

/-- No bit beyond the endpoint table is set on the way. -/
def MapKept (htc htc' : Context) : Prop :=
  ∀ n, 22 ≤ n → htc'.epCreditPendingMap.getLsbD n = true → htc.epCreditPendingMap.getLsbD n = true

section

variable {htc htc' htc₁ htc₂ : Context}

theorem MapKept.of_eq (h : htc'.epCreditPendingMap = htc.epCreditPendingMap) : MapKept htc htc' := by
  intro n _ hn
  rwa [h] at hn

theorem MapKept.trans (h : MapKept htc htc₁) (h' : MapKept htc₁ htc₂) : MapKept htc htc₂ :=
  fun n hn hbit => h n hn (h' n hn hbit)

theorem MapKept.pendingInTable (h : MapKept htc htc') (hmap : PendingInTable htc) :
    PendingInTable htc' := by
  intro n hn
  apply Bool.eq_false_iff.mpr
  intro hbit
  have hbefore := h n hn hbit
  rw [hmap n hn] at hbefore
  cases hbefore

theorem htcSendMsg_mapKept (htc : Context) (eid : EndpointId) (buf : NBuf) :
    MapKept htc (htcSendMsg htc eid buf) := by
  intro n _
  apply fillTrailer_induction (P := fun t => t.creditsPendingMap.getLsbD n = true →
    htc.epCreditPendingMap.getLsbD n = true)
  · exact fun h => h
  · exact fun _ h => h
  · intro t i ih _ _ hbit
    simp only [Trailer.addReport, BitVec.getLsbD_and, Bool.and_eq_true] at hbit
    exact ih hbit.1

theorem alloc_mapKept {buf : NBuf} (h : htcAllocMsgBuffer htc = some (buf, htc₁)) :
    MapKept htc htc₁ := by
  unfold htcAllocMsgBuffer at h
  split at h
  · cases h
  · cases h
    exact .of_eq rfl

theorem check_mapKept (htc : Context) (mask : BitVec 32) (pEndpoint : Option EndpointId) :
    MapKept htc (htcCheckAndSendCreditReport htc mask pEndpoint) := by
  rcases check_cases htc mask pEndpoint with heq | heq | ⟨buf, htc₁, halloc, hcase⟩
  · rw [heq]
    exact .of_eq rfl
  · rw [heq]
    exact .of_eq rfl
  · have hkept := alloc_mapKept halloc
    rcases hcase with ⟨eid, -, -, heq⟩ | ⟨-, heq⟩
    · rw [heq]
      have hcount : MapKept htc₁ (htc₁.updateEndpoint eid (addPendingReports 1)) := .of_eq rfl
      exact (hkept.trans hcount).trans (htcSendMsg_mapKept _ _ _)
    · rw [heq]
      exact hkept.trans (htcSendMsg_mapKept _ _ _)

theorem returnBuffer_mapKept (htc : Context) (eid : EndpointId) (buf : RecvBuf) :
    MapKept htc (returnBuffer htc eid buf) := by
  unfold returnBuffer
  dsimp only
  split
  · intro n hn hbit
    change (htc.epCreditPendingMap ||| epMask eid).getLsbD n = true at hbit
    rw [BitVec.getLsbD_or, epMask, BitVec.getLsbD_twoPow, Bool.or_eq_true] at hbit
    rcases hbit with hbit | hbit
    · exact hbit
    · have heid := eid.isLt
      simp only [Bool.and_eq_true, decide_eq_true_eq] at hbit
      omega
  · exact .of_eq rfl

theorem htcReturnBuffers_mapKept (htc : Context) (eid : EndpointId) (buf : RecvBuf) :
    MapKept htc (htcReturnBuffers htc eid buf) := by
  have hreturned := returnBuffer_mapKept htc eid buf
  unfold htcReturnBuffers
  dsimp only
  split
  · exact hreturned.trans (check_mapKept _ _ _)
  · exact hreturned

theorem returnList_mapKept (htc : Context) (eid : EndpointId) (bufs : List RecvBuf) :
    MapKept htc (bufs.foldl (fun htc buf => returnBuffer htc eid buf) htc) := by
  induction bufs generalizing htc with
  | nil => exact .of_eq rfl
  | cons buf bufs ih => exact (returnBuffer_mapKept htc eid buf).trans (ih _)

theorem runScript_mapKept {script : List ServiceAction} (h : runScript htc script = some htc') :
    MapKept htc htc' := by
  induction script generalizing htc with
  | nil =>
    obtain rfl := Option.some.inj h
    exact .of_eq rfl
  | cons action rest ih =>
    obtain ⟨mid, haction, hrest⟩ := Option.bind_eq_some_iff.mp h
    have hmid : MapKept htc mid := by
      cases action with
      | returnBuffers eid buf =>
        obtain rfl := Option.some.inj haction
        exact htcReturnBuffers_mapKept htc eid buf
      | returnBuffersList eid bufs =>
        obtain rfl := Option.some.inj haction
        exact (returnList_mapKept htc eid bufs).trans (check_mapKept _ (epMask eid) (some eid))
      | sendMsg eid buf =>
        simp only [ServiceAction.run, Option.ite_none_right_eq_some, Option.some.injEq] at haction
        obtain ⟨-, rfl⟩ := haction
        exact htcSendMsg_mapKept htc eid buf
    exact hmid.trans (ih hrest)

theorem processControlMsg_mapKept {msg : ControlMsg} (h : processControlMsg htc msg = some htc') :
    MapKept htc htc' := by
  cases msg with
  | connectService serviceId flags down up =>
    obtain ⟨⟨buf, mid⟩, halloc, hrest⟩ := Option.bind_eq_some_iff.mp h
    apply (alloc_mapKept halloc).trans
    dsimp only at hrest
    split at hrest
    · obtain rfl := Option.some.inj hrest
      exact htcSendMsg_mapKept _ _ _
    · split at hrest
      · obtain rfl := Option.some.inj hrest
        refine MapKept.trans ?_ (htcSendMsg_mapKept _ _ _)
        exact .of_eq rfl
      · cases hrest
  | configPipe pipeId creditCount =>
    obtain ⟨⟨buf, mid⟩, halloc, hrest⟩ := Option.bind_eq_some_iff.mp h
    apply (alloc_mapKept halloc).trans
    dsimp only at hrest
    split at hrest
    · obtain rfl := Option.some.inj hrest
      exact htcSendMsg_mapKept _ _ _
    split at hrest
    · split at hrest
      · obtain rfl := Option.some.inj hrest
        refine MapKept.trans ?_ (htcSendMsg_mapKept _ _ _)
        exact .of_eq rfl
      · cases hrest
    · obtain rfl := Option.some.inj hrest
      exact htcSendMsg_mapKept _ _ _
  | setupComplete =>
    obtain rfl := Option.some.inj h
    exact .of_eq rfl
  | unknown =>
    obtain rfl := Option.some.inj h
    exact .of_eq rfl

theorem processRecvMsg_mapKept {pService : Service} {eid : EndpointId} {frame : Frame}
    {script : List ServiceAction} (h : processRecvMsg htc pService eid frame script = some htc') :
    MapKept htc htc' := by
  unfold processRecvMsg at h
  split at h
  · obtain ⟨mid, hmsg, hmid⟩ := Option.bind_eq_some_iff.mp h
    have hrecycled : MapKept mid (recycleControlBuffer mid eid frame.buf) := by
      unfold recycleControlBuffer
      split
      · exact htcReturnBuffers_mapKept _ _ _
      · exact .of_eq rfl
    apply ((processControlMsg_mapKept hmsg).trans hrecycled).trans
    dsimp only at hmid
    split at hmid
    · obtain rfl := Option.some.inj hmid
      exact .of_eq rfl
    · obtain rfl := Option.some.inj hmid
      exact .of_eq rfl
  · exact runScript_mapKept h

theorem recvAccount_mapKept (htc : Context) (eid : EndpointId) (frame : Frame) :
    MapKept htc (recvAccount htc eid frame) := by
  apply MapKept.of_eq
  unfold recvAccount noteHostNeed consumeCredit
  split <;> split <;> rfl

theorem sendComplete_mapKept {nbuf : NBuf}
    (h : htcControlSvcProcessSendComplete htc nbuf = some htc') : MapKept htc htc' := by
  obtain ⟨mid, hsettle, hrest⟩ := Option.bind_eq_some_iff.mp h
  have hsettled : MapKept htc mid := by
    unfold settleCreditReport at hsettle
    dsimp only at hsettle
    split at hsettle
    · split at hsettle
      · cases hsettle
        exact .of_eq rfl
      · cases hsettle
    · cases hsettle
      exact .of_eq rfl
  apply hsettled.trans
  dsimp only at hrest
  split at hrest
  · cases hrest
    exact check_mapKept { htcFreeMsgBuffer mid nbuf with sendCreditUpdateSoon := false } _ none
  · cases hrest
    exact .of_eq rfl

theorem step_mapKept {e : Event} (h : step e htc = some htc') : MapKept htc htc' := by
  cases e with
  | ready =>
    obtain ⟨⟨buf, mid⟩, halloc, hsend⟩ := Option.bind_eq_some_iff.mp h
    obtain rfl := Option.some.inj hsend
    exact (alloc_mapKept halloc).trans (htcSendMsg_mapKept _ _ _)
  | recv frame script =>
    change htcMsgRecvHandler htc frame script = some htc' at h
    unfold htcMsgRecvHandler at h
    split at h
    · dsimp only at h
      split at h
      · cases h
        exact .of_eq rfl
      · obtain ⟨pService, -, hrest⟩ := Option.bind_eq_some_iff.mp h
        obtain ⟨mid, hprocess, hcheck⟩ := Option.bind_eq_some_iff.mp hrest
        obtain rfl := Option.some.inj hcheck
        exact ((recvAccount_mapKept _ _ _).trans (processRecvMsg_mapKept hprocess)).trans
          (check_mapKept _ _ _)
    · cases h
  | sendDone i script =>
    obtain ⟨msg, -, hrest⟩ := Option.bind_eq_some_iff.mp h
    obtain ⟨pService, -, hrest⟩ := Option.bind_eq_some_iff.mp hrest
    have htaken : MapKept htc { htc with inFlight := htc.inFlight.eraseIdx i } := .of_eq rfl
    apply htaken.trans
    split at hrest
    · exact sendComplete_mapKept hrest
    · exact runScript_mapKept hrest
  | services script => exact runScript_mapKept h

end

theorem reachable_pendingInTable {htc : Context} (h : target.Reachable htc) :
    PendingInTable htc := by
  apply h.invariant
  · rintro _ ⟨creditSize, creditNumber, rfl⟩ n -
    exact BitVec.getLsbD_zero
  · intro htc e htc' hmap _ hs
    exact (step_mapKept hs).pendingInTable hmap

end Ath9kHtc.Htc
