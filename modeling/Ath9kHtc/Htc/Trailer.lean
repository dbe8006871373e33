import Ath9kHtc.Htc.Core

/-!
# The trailer of an outgoing message

What the credit loop of `_HTC_SendMsg` does to the endpoints, to the pending map and to the
room in the buffer.
-/

namespace Ath9kHtc.Htc

theorem getLsbD_clear (map : BitVec 32) (i e : EndpointId) :
    (map &&& ~~~epMask i).getLsbD e = (map.getLsbD e && decide (i ≠ e)) := by
  have := e.isLt
  rw [BitVec.getLsbD_and, BitVec.getLsbD_not, getLsbD_epMask]
  simp [show (e : ℕ) < 32 by omega]

namespace Trailer

@[simp] theorem addReport_pending (t : Trailer) (i e : EndpointId) :
    (t.addReport i).creditsPendingMap.getLsbD e =
      (t.creditsPendingMap.getLsbD e && decide (i ≠ e)) :=
  getLsbD_clear t.creditsPendingMap i e

theorem addReport_endpoints_of_ne (t : Trailer) {i e : EndpointId} (h : i ≠ e) :
    (t.addReport i).endpoints e = t.endpoints e :=
  Function.update_of_ne (Ne.symm h) _ _

/-- The loop only ever adds a report for an endpoint that is pending, when there is room. -/
theorem build_induction {P : Trailer → Prop} (is : List EndpointId) (t : Trailer) (h : P t)
    (hadd : ∀ t (i : EndpointId), P t → t.creditsPendingMap.getLsbD i = true →
      ¬t.room < sizeofCreditReport → P (t.addReport i)) : P (build is t) := by
  induction is generalizing t with
  | nil => exact h
  | cons i is ih =>
    rw [build]
    by_cases hstop : t.creditsPendingMap = 0 ∨ t.room < sizeofCreditReport
    · rwa [if_pos hstop]
    rw [if_neg hstop]
    by_cases hbit : t.creditsPendingMap.getLsbD i = true
    · have hroom : ¬t.room < sizeofCreditReport := fun h => hstop (.inr h)
      rw [if_pos hbit]
      split
      · exact hadd t i h hbit hroom
      · exact ih _ (hadd t i h hbit hroom)
    · rw [if_neg hbit]
      exact ih t h

/-- With room for a report of every endpoint on the walk, all of them are reported. -/
theorem build_clears (is : List EndpointId) (t : Trailer)
    (room : (sizeofCreditReport * is.length : ℕ) ≤ t.room) (e : EndpointId) (he : e ∈ is) :
    (build is t).creditsPendingMap.getLsbD e = false := by
  have monotone : ∀ (js : List EndpointId) (u : Trailer),
      u.creditsPendingMap.getLsbD e = false →
        (build js u).creditsPendingMap.getLsbD e = false := by
    intro js u hu
    refine build_induction (P := fun u => u.creditsPendingMap.getLsbD e = false) js u hu ?_
    intro u i hu _ _
    simp [hu]
  induction is generalizing t with
  | nil => cases he
  | cons i is ih =>
    rw [build]
    simp only [List.length_cons, sizeofCreditReport] at room
    by_cases hzero : t.creditsPendingMap = 0
    · rw [if_pos (.inl hzero), hzero]
      simp
    have hroom : ¬t.room < sizeofCreditReport := by simp only [sizeofCreditReport]; omega
    rw [if_neg (not_or.mpr ⟨hzero, hroom⟩)]
    by_cases hbit : t.creditsPendingMap.getLsbD i = true
    · rw [if_pos hbit]
      rcases List.mem_cons.mp he with rfl | hmem
      · have hclear : (t.addReport e).creditsPendingMap.getLsbD e = false := by simp
        split
        · exact hclear
        · exact monotone is _ hclear
      · have hnonempty : 0 < is.length := List.length_pos_of_mem hmem
        have hroom' : ((sizeofCreditReport * is.length : ℕ) : Int) ≤ (t.addReport i).room := by
          simp only [addReport, sizeofCreditReport]
          omega
        rw [if_neg (by simp only [sizeofCreditReport] at hroom' ⊢; omega)]
        exact ih _ hroom' hmem
    · rw [if_neg hbit]
      rcases List.mem_cons.mp he with rfl | hmem
      · exact monotone is t (by simpa using hbit)
      · exact ih t (by simp only [sizeofCreditReport]; omega) hmem

end Trailer

/-- What holds of the empty trailer, with or without a record header, and is kept by a report
holds of the trailer that is sent. -/
theorem fillTrailer_induction {P : Trailer → Prop} (htc : Context) (room : Int)
    (hnone : P ⟨htc.endpoints, htc.epCreditPendingMap, room, 0, []⟩)
    (hhdr : (4 : Int) ≤ room → P ⟨htc.endpoints, htc.epCreditPendingMap, room - 2, 2, []⟩)
    (hadd : ∀ t (i : EndpointId), P t → t.creditsPendingMap.getLsbD i = true →
      ¬t.room < sizeofCreditReport → P (t.addReport i)) : P (fillTrailer htc room) := by
  unfold fillTrailer
  by_cases hroom : room < (sizeofCreditReport + sizeofRecordHdr : ℕ)
  · rwa [if_pos hroom]
  rw [if_neg hroom]
  by_cases hzero : htc.epCreditPendingMap = 0
  · rwa [if_pos hzero]
  rw [if_neg hzero]
  refine Trailer.build_induction _ _ (hhdr ?_) hadd
  simpa [sizeofCreditReport, sizeofRecordHdr] using hroom

/-- An endpoint that stays pending is left alone. -/
theorem fillTrailer_pending (htc : Context) (room : Int) (e : EndpointId)
    (h : (fillTrailer htc room).creditsPendingMap.getLsbD e = true) :
    htc.epCreditPendingMap.getLsbD e = true ∧
      (fillTrailer htc room).endpoints e = htc.endpoints e := by
  revert h
  refine fillTrailer_induction (P := fun t => t.creditsPendingMap.getLsbD e = true →
    htc.epCreditPendingMap.getLsbD e = true ∧ t.endpoints e = htc.endpoints e)
    htc room (fun h => ⟨h, rfl⟩) (fun _ h => ⟨h, rfl⟩) ?_
  intro t i ih _ _ hbit
  simp only [Trailer.addReport_pending, Bool.and_eq_true, decide_eq_true_eq] at hbit
  rw [Trailer.addReport_endpoints_of_ne t hbit.2]
  exact ih hbit.1

/-- A buffer with room for all endpoints leaves nothing pending. -/
theorem fillTrailer_clears (htc : Context) {room : Int} (h : 46 ≤ room) (e : EndpointId) :
    (fillTrailer htc room).creditsPendingMap.getLsbD e = false := by
  unfold fillTrailer
  rw [if_neg (by simp only [sizeofCreditReport, sizeofRecordHdr]; omega)]
  by_cases hzero : htc.epCreditPendingMap = 0
  · simp [hzero]
  rw [if_neg hzero]
  refine Trailer.build_clears _ _ ?_ e (List.mem_finRange e)
  simp only [List.length_finRange, sizeofCreditReport, sizeofRecordHdr, endpointMax]
  omega

/-- The trailer fits into the room. -/
theorem fillTrailer_bytes_le (htc : Context) {room : Int} (h : 0 ≤ room) :
    ((fillTrailer htc room).totalReportBytes : Int) ≤ room := by
  suffices ((fillTrailer htc room).totalReportBytes : Int) + (fillTrailer htc room).room = room ∧
      0 ≤ (fillTrailer htc room).room by omega
  refine fillTrailer_induction
    (P := fun t => (t.totalReportBytes : Int) + t.room = room ∧ 0 ≤ t.room) htc room
    ⟨by simp, h⟩ (fun h => ⟨by simp only; omega, by simp only; omega⟩) ?_
  rintro t i ⟨hsum, hroom⟩ _ hfits
  simp only [sizeofCreditReport, Trailer.addReport] at hfits ⊢
  omega

/-- The fields of an endpoint that a trailer never touches. -/
def Endpoint.untrailed (ep : Endpoint) :
    Option Service × BitVec 16 × ℕ × ℕ × Int × Int :=
  (ep.pService, ep.connectionFlags, ep.downLinkPipeId, ep.upLinkPipeId,
    ep.pendingCreditReports, ep.creditsConsumed)

@[simp] theorem checkAndAdjustCreditThreshold_untrailed (ep : Endpoint) :
    (checkAndAdjustCreditThreshold ep).untrailed = ep.untrailed := by
  unfold checkAndAdjustCreditThreshold
  split <;> rfl

theorem fillTrailer_untrailed (htc : Context) (room : Int) (e : EndpointId) :
    ((fillTrailer htc room).endpoints e).untrailed = (htc.endpoints e).untrailed := by
  refine fillTrailer_induction
    (P := fun t => (t.endpoints e).untrailed = (htc.endpoints e).untrailed) htc room rfl
    (fun _ => rfl) ?_
  intro t i ih _ _
  by_cases hie : i = e
  · subst hie
    simp only [Trailer.addReport, Function.update_self, checkAndAdjustCreditThreshold_untrailed]
    exact ih
  · rw [Trailer.addReport_endpoints_of_ne t hie]
    exact ih

end Ath9kHtc.Htc
