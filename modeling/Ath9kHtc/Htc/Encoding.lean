import Ath9kHtc.Htc.Trailer
import Ath9kHtc.Htc.Frame

/-!
# The frame on the wire

The record of the trailer loop is that of the first pending endpoints that fit; what the host
decodes is the payload and this record.
-/

namespace Ath9kHtc.Htc

/-! ## The endpoints of the record -/

/-- The endpoints with credits to report, in ascending order. -/
def pendingEndpoints (map : BitVec 32) : List EndpointId :=
  (List.finRange 22).filter fun i => map.getLsbD i

/-- Those of them that a record in `room` bytes takes in. -/
def reportable (htc : Context) (room : ℕ) : List EndpointId :=
  if room < 4 then [] else (pendingEndpoints htc.epCreditPendingMap).take ((room - 2) / 2)

/-- The bits of the map are those of endpoints. -/
def PendingInTable (htc : Context) : Prop :=
  ∀ n, 22 ≤ n → htc.epCreditPendingMap.getLsbD n = false

section

variable {htc : Context} {room : ℕ}

theorem mem_pendingEndpoints {map : BitVec 32} {i : EndpointId} :
    i ∈ pendingEndpoints map ↔ map.getLsbD i = true := by
  rw [pendingEndpoints, List.mem_filter]
  exact and_iff_right (List.mem_finRange i)

theorem nodup_pendingEndpoints (map : BitVec 32) : (pendingEndpoints map).Nodup :=
  (List.nodup_finRange 22).filter _

theorem PendingInTable.eq_zero_iff (h : PendingInTable htc) :
    htc.epCreditPendingMap = 0 ↔ pendingEndpoints htc.epCreditPendingMap = [] := by
  constructor
  · intro hzero
    rw [hzero]
    apply List.eq_nil_iff_forall_not_mem.mpr
    intro i hi
    have hbit := mem_pendingEndpoints.mp hi
    simp at hbit
  · intro hnone
    apply BitVec.eq_of_getLsbD_eq
    intro n hn
    change _ = (0#32).getLsbD n
    rw [BitVec.getLsbD_zero]
    by_cases htable : n < 22
    · apply Bool.eq_false_iff.mpr
      intro hbit
      have hmem : (⟨n, htable⟩ : EndpointId) ∈ pendingEndpoints htc.epCreditPendingMap :=
        mem_pendingEndpoints.mpr hbit
      rw [hnone] at hmem
      cases hmem
    · exact h n (Nat.le_of_not_lt htable)

theorem reportable_sublist (htc : Context) (room : ℕ) :
    (reportable htc room).Sublist (pendingEndpoints htc.epCreditPendingMap) := by
  rw [reportable]
  split
  · exact List.nil_sublist _
  · exact List.take_sublist _ _

theorem nodup_reportable (htc : Context) (room : ℕ) : (reportable htc room).Nodup :=
  (reportable_sublist htc room).nodup (nodup_pendingEndpoints _)

theorem length_reportable_le (htc : Context) (room : ℕ) : (reportable htc room).length ≤ 22 := by
  have hlen := (reportable_sublist htc room).length_le
  have hfilter := List.length_filter_le (fun i : EndpointId => htc.epCreditPendingMap.getLsbD i)
    (List.finRange 22)
  rw [List.length_finRange] at hfilter
  exact hlen.trans hfilter

end

/-! ## The loop -/

namespace Outgoing

@[simp] theorem addReport_trailer (p : ℕ) (o : Outgoing) (i : EndpointId) :
    (o.addReport p i).trailer = o.trailer.addReport i := rfl

/-- On the credits the loop does what the loop without the bytes does. -/
theorem build_trailer (p : ℕ) (is : List EndpointId) (o : Outgoing) :
    (build p is o).trailer = Trailer.build is o.trailer := by
  induction is generalizing o with
  | nil => rfl
  | cons i is ih =>
    rw [build, Trailer.build]
    by_cases hstop : o.trailer.creditsPendingMap = 0 ∨ o.trailer.room < sizeofCreditReport
    · rw [if_pos hstop, if_pos hstop]
    rw [if_neg hstop, if_neg hstop]
    by_cases hbit : o.trailer.creditsPendingMap.getLsbD i = true
    · rw [if_pos hbit, if_pos hbit, addReport_trailer]
      split
      · rfl
      · exact ih _
    · rw [if_neg hbit, if_neg hbit]
      exact ih o

/-- It takes in the first pending endpoints that fit. -/
theorem build_eq (p : ℕ) {is : List EndpointId} (hnodup : is.Nodup) (o : Outgoing) :
    build p is o = ((is.filter fun i : EndpointId => o.trailer.creditsPendingMap.getLsbD i).take
      (o.trailer.room / 2).toNat).foldl (addReport p) o := by
  induction is generalizing o with
  | nil => simp [build]
  | cons i is ih =>
    obtain ⟨hout, hnodup⟩ := List.nodup_cons.mp hnodup
    rw [build]
    by_cases hzero : o.trailer.creditsPendingMap = 0
    · rw [if_pos (.inl hzero)]
      simp [hzero]
    by_cases hfull : o.trailer.room < sizeofCreditReport
    · have hnone : (o.trailer.room / 2).toNat = 0 := by
        simp only [sizeofCreditReport] at hfull
        omega
      rw [if_pos (.inr hfull), hnone]
      rfl
    rw [if_neg (not_or.mpr ⟨hzero, hfull⟩)]
    by_cases hbit : o.trailer.creditsPendingMap.getLsbD i = true
    · have hroom : (o.trailer.room / 2).toNat =
          ((o.addReport p i).trailer.room / 2).toNat + 1 := by
        simp only [sizeofCreditReport, addReport_trailer, Trailer.addReport] at hfull ⊢
        omega
      have hfilter : is.filter (fun j : EndpointId => (o.addReport p i).trailer.creditsPendingMap.getLsbD j) =
          is.filter fun j : EndpointId => o.trailer.creditsPendingMap.getLsbD j := by
        apply List.filter_congr
        intro j hj
        have hne : i ≠ j := by
          rintro rfl
          exact hout hj
        simp [hne]
      have hcons : (i :: is).filter (fun j : EndpointId => o.trailer.creditsPendingMap.getLsbD j) =
          i :: is.filter fun j : EndpointId => o.trailer.creditsPendingMap.getLsbD j :=
        List.filter_cons_of_pos hbit
      rw [if_pos hbit, hcons, hroom, List.take_succ_cons, List.foldl_cons]
      split
      case isTrue hlast =>
        have hnone : ((o.addReport p i).trailer.room / 2).toNat = 0 := by
          simp only [sizeofCreditReport] at hlast
          omega
        rw [hnone]
        rfl
      case isFalse =>
        rw [ih hnodup, hfilter]
    · have hcons : (i :: is).filter (fun j : EndpointId => o.trailer.creditsPendingMap.getLsbD j) =
          is.filter fun j : EndpointId => o.trailer.creditsPendingMap.getLsbD j :=
        List.filter_cons_of_neg hbit
      rw [if_neg hbit, hcons]
      exact ih hnodup o

end Outgoing

/-! ## The record -/

/-- The bytes of a credit record. -/
def creditRecord (credits : EndpointId → Int) (l : List EndpointId) : List (BitVec 8) :=
  htcRecordCredits :: BitVec.ofNat 8 (2 * l.length) ::
    l.flatMap fun i : EndpointId => [BitVec.ofNat 8 i, BitVec.ofInt 8 (credits i)]

/-- The record of the endpoints `l` stands behind the data of `b`, and they have given their
credits. -/
structure Written (htc : Context) (mem : ℕ → BitVec 8) (b : Vbuf) (l : List EndpointId)
    (o : Outgoing) : Prop where
  buf : o.buf = adfNbufPutTail b (2 + 2 * l.length)
  total : o.trailer.totalReportBytes = 2 + 2 * l.length
  record : Memory.fetch o.mem b.last.tail (2 + 2 * l.length) =
    creditRecord (fun i => (htc.endpoints i).creditsToReturn) l
  outside : ∀ a, a < b.last.tail ∨ b.last.tail + (2 + 2 * l.length) ≤ a → o.mem a = mem a
  pending : ∀ i : EndpointId, o.trailer.creditsPendingMap.getLsbD i =
    (htc.epCreditPendingMap.getLsbD i && decide (i ∉ l))
  endpoints : ∀ i, i ∉ l → o.trailer.endpoints i = htc.endpoints i

section

variable {htc : Context} {mem : ℕ → BitVec 8} {b : Vbuf} {l : List EndpointId} {o : Outgoing}
  {i : EndpointId}

@[simp] theorem adfNbufPutTail_adfNbufPutTail (b : Vbuf) (n m : ℕ) :
    adfNbufPutTail (adfNbufPutTail b n) m = adfNbufPutTail b (n + m) := by
  simp [adfNbufPutTail, Vdesc.putTail, Nat.add_assoc]

theorem putTail_tail (b : Vbuf) (n : ℕ) : (adfNbufPutTail b n).last.tail = b.last.tail + n :=
  (Nat.add_assoc _ _ _).symm

theorem Written.header (h : Written htc mem b l o) :
    o.mem b.last.tail = htcRecordCredits ∧
      o.mem (b.last.tail + 1) = BitVec.ofNat 8 (2 * l.length) ∧
      Memory.fetch o.mem (b.last.tail + 1 + 1) (2 * l.length) =
        l.flatMap fun i : EndpointId =>
          [BitVec.ofNat 8 i, BitVec.ofInt 8 (htc.endpoints i).creditsToReturn] := by
  have hrecord := h.record
  rw [Nat.add_comm 2, Memory.fetch_succ, Memory.fetch_succ, creditRecord, List.cons.injEq,
    List.cons.injEq] at hrecord
  exact hrecord

theorem Written.addReport (h : Written htc mem b l o) (hi : i ∉ l) :
    Written htc mem b (l ++ [i]) (o.addReport b.last.tail i) := by
  have hlen : 2 + 2 * (l ++ [i]).length = 2 + 2 * l.length + 2 := by
    rw [List.length_append, List.length_singleton]
    omega
  have htail : o.buf.last.tail = b.last.tail + (2 + 2 * l.length) := by
    rw [h.buf, putTail_tail]
  constructor
  case buf =>
    rw [hlen]
    change adfNbufPutTail o.buf 2 = _
    rw [h.buf, adfNbufPutTail_adfNbufPutTail]
  case total =>
    rw [hlen, ← h.total]
    rfl
  case record =>
    have hbefore : ∀ a, a ≠ b.last.tail + 1 → a < b.last.tail + (2 + 2 * l.length) →
        (o.addReport b.last.tail i).mem a = o.mem a := by
      intro a hne ha
      change Function.update _ _ _ a = _
      rw [Function.update_of_ne hne, htail, Memory.store_outside (.inl ha)]
    have hcount : (o.addReport b.last.tail i).mem (b.last.tail + 1) =
        o.mem (b.last.tail + 1) + 2 := by
      change Function.update _ _ _ _ = _
      rw [Function.update_self, htail, Memory.store_outside (.inl (by omega))]
    have hreport : Memory.fetch (o.addReport b.last.tail i).mem (b.last.tail + (2 + 2 * l.length))
        2 = [BitVec.ofNat 8 i, BitVec.ofInt 8 (htc.endpoints i).creditsToReturn] := by
      have hstore : Memory.fetch (Memory.store o.mem o.buf.last.tail
          [BitVec.ofNat 8 i, BitVec.ofInt 8 (o.trailer.endpoints i).creditsToReturn])
          o.buf.last.tail 2 = [BitVec.ofNat 8 i,
            BitVec.ofInt 8 (o.trailer.endpoints i).creditsToReturn] := Memory.fetch_store_self
      rw [← h.endpoints i hi, ← hstore, ← htail]
      apply Memory.fetch_congr
      intro k _
      apply Function.update_of_ne
      omega
    obtain ⟨hid, hlength, hbytes⟩ := h.header
    rw [hlen, Memory.fetch_append, hreport, Nat.add_comm 2, Memory.fetch_succ, Memory.fetch_succ,
      hcount, hbefore _ (by omega) (by omega), hid, hlength]
    rw [Memory.fetch_congr fun k hk => hbefore _ (by omega) (by omega), hbytes, creditRecord,
      List.length_append, List.length_singleton, List.flatMap_append, List.flatMap_singleton,
      Nat.mul_add, BitVec.ofNat_add]
    rfl
  case outside =>
    intro a ha
    rw [hlen] at ha
    change Function.update _ _ _ a = _
    rw [Function.update_of_ne (by omega), htail,
      Memory.store_outside (by simp only [List.length_cons, List.length_nil]; omega)]
    exact h.outside a (by omega)
  case pending =>
    intro j
    rw [Outgoing.addReport_trailer, Trailer.addReport_pending, h.pending, Bool.and_assoc]
    simp [eq_comm]
  case endpoints =>
    intro j hj
    simp only [List.mem_append, List.mem_singleton, not_or] at hj
    rw [Outgoing.addReport_trailer, Trailer.addReport_endpoints_of_ne _ (Ne.symm hj.2)]
    exact h.endpoints j hj.1

theorem Written.foldl {is : List EndpointId} (h : Written htc mem b l o)
    (hnodup : (l ++ is).Nodup) :
    Written htc mem b (l ++ is) (is.foldl (Outgoing.addReport b.last.tail) o) := by
  induction is generalizing l o with
  | nil => rwa [List.append_nil]
  | cons i is ih =>
    have hout : i ∉ l := fun hi =>
      (List.nodup_append.mp hnodup).2.2 i hi i List.mem_cons_self rfl
    rw [List.append_cons] at hnodup ⊢
    exact ih (h.addReport hout) hnodup

theorem Written.empty (htc : Context) (room : Int) (mem : ℕ → BitVec 8) (b : Vbuf) :
    Written htc mem b []
      { trailer := ⟨htc.endpoints, htc.epCreditPendingMap, room, sizeofRecordHdr, []⟩
        mem := Memory.store mem b.last.tail [htcRecordCredits, 0]
        buf := adfNbufPutTail b sizeofRecordHdr } where
  buf := rfl
  total := rfl
  record := Memory.fetch_store_self
  outside a ha := Memory.store_outside ha
  pending i := by simp
  endpoints i _ := rfl

/-- Without reports there is no record either. -/
theorem putTrailer_bare (hmap : PendingInTable htc) {room : ℕ} (h : reportable htc room = [])
    (mem : ℕ → BitVec 8) (b : Vbuf) :
    putTrailer htc room mem b = ⟨⟨htc.endpoints, htc.epCreditPendingMap, room, 0, []⟩, mem, b⟩ := by
  rw [putTrailer]
  by_cases hroom : room < 4
  · rw [if_pos (by simp only [sizeofCreditReport, sizeofRecordHdr]; omega)]
  · rw [if_neg (by simp only [sizeofCreditReport, sizeofRecordHdr]; omega)]
    rw [reportable, if_neg hroom, List.take_eq_nil_iff] at h
    rcases h with hnone | hnone
    · omega
    · rw [if_pos (hmap.eq_zero_iff.mpr hnone)]

theorem putTrailer_written {room : ℕ} (h : reportable htc room ≠ []) (mem : ℕ → BitVec 8)
    (b : Vbuf) : Written htc mem b (reportable htc room) (putTrailer htc room mem b) := by
  rw [reportable] at h ⊢
  split at h
  case isTrue => exact absurd rfl h
  case isFalse hroom =>
    have hmap : htc.epCreditPendingMap ≠ 0 := by
      intro hzero
      apply h
      rw [hzero, pendingEndpoints]
      simp
    have htake : (((room : Int) - sizeofRecordHdr) / 2).toNat = (room - 2) / 2 := by
      simp only [sizeofRecordHdr]
      omega
    rw [if_neg hroom, putTrailer,
      if_neg (by simp only [sizeofCreditReport, sizeofRecordHdr]; omega), if_neg hmap]
    change Written htc mem b _ (Outgoing.build b.last.tail (List.finRange 22) _)
    rw [Outgoing.build_eq _ (List.nodup_finRange 22), htake]
    apply (Written.empty htc _ mem b).foldl
    exact ((List.nodup_finRange 22).filter _).sublist (List.take_sublist _ _)

end

end Ath9kHtc.Htc
