import Mathlib.Data.List.Pairwise
import Ath9kHtc.Htc.PendingMap

/-!
# What a frame conveys

A frame gives the host the payload and the credits taken off the endpoints, and stays within the
message length of its pipe, exactly when the trailer fits or there is none.
-/

namespace Ath9kHtc.Htc

/-! ## Buffers in bounds -/

/-- The data of every descriptor lies in its storage, the storage of each is its own, and the
caller has left head room for the HTC header. -/
structure Vbuf.InBounds (b : Vbuf) : Prop where
  fits : ∀ d ∈ b.descList, d.dataOffset + d.dataSize ≤ d.bufSize ∧ d.bufSize < 65536
  apart : b.descList.Pairwise fun d e => d.limit ≤ e.bufAddr ∨ e.limit ≤ d.bufAddr
  length : b.bufLength = (b.descList.map Vdesc.dataSize).sum
  small : b.bufLength < 65536
  headroom : htcHdrLength ≤ b.first.dataOffset

namespace Vbuf

variable {b : Vbuf} {d e : Vdesc} {mem mem' : ℕ → BitVec 8} {n : ℕ}

theorem last_mem (b : Vbuf) : b.last ∈ b.descList :=
  List.mem_append_right _ List.mem_cons_self

theorem first_mem (b : Vbuf) : b.first ∈ b.descList := by
  rw [first, descList]
  cases b.front with
  | nil => exact List.mem_cons_self
  | cons d front => exact List.mem_cons_self

theorem InBounds.disjoint (h : b.InBounds) (hd : d ∈ b.descList) (he : e ∈ b.descList)
    (hne : d ≠ e) : d.limit ≤ e.bufAddr ∨ e.limit ≤ d.bufAddr := by
  have hsymm : Std.Symm fun d e : Vdesc => d.limit ≤ e.bufAddr ∨ e.limit ≤ d.bufAddr :=
    ⟨fun _ _ h => h.symm⟩
  exact h.apart.forall hd he hne

theorem InBounds.within (h : b.InBounds) (hd : d ∈ b.descList) :
    d.bufAddr ≤ d.start ∧ d.start ≤ d.tail ∧ d.tail ≤ d.limit := by
  have hfits := (h.fits d hd).1
  rw [Vdesc.tail, Vdesc.start, Vdesc.limit]
  omega

theorem InBounds.room (h : b.InBounds) (hn : n ≤ b.nbuf.tailroom) :
    b.last.tail + n ≤ b.last.limit := by
  have hfits := (h.fits b.last b.last_mem).1
  simp only [nbuf] at hn
  rw [Vdesc.tail, Vdesc.start, Vdesc.limit]
  omega

theorem InBounds.header (h : b.InBounds) : b.first.bufAddr + htcHdrLength ≤ b.first.start :=
  Nat.add_le_add_left h.headroom _

/-- The header is written outside the data. -/
theorem InBounds.header_apart (h : b.InBounds) (hd : d ∈ b.descList) :
    d.tail ≤ b.first.start - htcHdrLength ∨ b.first.start ≤ d.start := by
  by_cases hfirst : d = b.first
  · subst hfirst
    exact .inr le_rfl
  have hhdr := h.header
  have hin := h.within hd
  have hin' := h.within b.first_mem
  rcases h.disjoint hd b.first_mem hfirst with hbelow | habove
  · left
    omega
  · right
    omega

/-- The trailer is written outside the data. -/
theorem InBounds.tail_apart (h : b.InBounds) (hn : n ≤ b.nbuf.tailroom) (hd : d ∈ b.descList) :
    d.tail ≤ b.last.tail ∨ b.last.tail + n ≤ d.start := by
  by_cases hlast : d = b.last
  · subst hlast
    exact .inl le_rfl
  have hroom := h.room hn
  have hin := h.within hd
  have hin' := h.within b.last_mem
  rcases h.disjoint hd b.last_mem hlast with hbelow | habove
  · left
    omega
  · right
    omega

theorem InBounds.header_tail (h : b.InBounds) (hn : n ≤ b.nbuf.tailroom) :
    b.first.start ≤ b.last.tail ∨ b.last.tail + n ≤ b.first.start - htcHdrLength := by
  by_cases hlast : b.first = b.last
  · left
    rw [hlast]
    exact (h.within b.last_mem).2.1
  have hroom := h.room hn
  have hhdr := h.header
  have hin := h.within b.first_mem
  have hin' := h.within b.last_mem
  rcases h.disjoint b.first_mem b.last_mem hlast with hbelow | habove
  · left
    omega
  · right
    omega

theorem bytes_congr (h : ∀ d ∈ b.descList, ∀ a, d.start ≤ a → a < d.tail → mem' a = mem a) :
    b.bytes mem' = b.bytes mem := by
  apply List.flatMap_congr
  intro d hd
  apply Memory.fetch_congr
  intro i hi
  apply h d hd _ (Nat.le_add_right _ _)
  rw [Vdesc.tail]
  omega

theorem InBounds.length_bytes (h : b.InBounds) (mem : ℕ → BitVec 8) :
    (b.bytes mem).length = b.bufLength := by
  have hsize : ∀ d : Vdesc, (d.data mem).length = d.dataSize := fun d => Memory.length_fetch
  rw [h.length, bytes, List.length_flatMap]
  simp only [hsize]

theorem bytes_putTail (b : Vbuf) (n : ℕ) (mem : ℕ → BitVec 8) :
    (adfNbufPutTail b n).bytes mem = b.bytes mem ++ Memory.fetch mem b.last.tail n := by
  rw [bytes, descList, List.flatMap_append, List.flatMap_singleton, bytes, descList,
    List.flatMap_append, List.flatMap_singleton, List.append_assoc]
  congr 1
  exact Memory.fetch_append n

end Vbuf

/-! ## The header pushed -/

section

variable {b : Vbuf} {n : ℕ}

theorem Vdesc.data_pushHead {d : Vdesc} (h : n ≤ d.dataOffset) (mem : ℕ → BitVec 8) :
    (d.pushHead n).data mem = Memory.fetch mem (d.start - n) n ++ d.data mem := by
  have hstart : (d.pushHead n).start = d.start - n := by
    simp only [Vdesc.start, Vdesc.pushHead]
    omega
  have hback : d.start - n + n = d.start := by
    rw [Vdesc.start]
    omega
  rw [Vdesc.data, hstart]
  change Memory.fetch mem _ (d.dataSize + n) = _
  rw [Nat.add_comm, Memory.fetch_append, hback]
  rfl

theorem bytes_pushHead (h : n ≤ b.first.dataOffset) (mem : ℕ → BitVec 8) :
    (adfNbufPushHead b n).bytes mem = Memory.fetch mem (b.first.start - n) n ++ b.bytes mem := by
  rcases b with ⟨front, last, len⟩
  cases front with
  | nil =>
    have hdata := Vdesc.data_pushHead (d := last) h mem
    simpa [Vbuf.bytes, Vbuf.descList, Vbuf.first, adfNbufPushHead] using hdata
  | cons d front =>
    have hdata := Vdesc.data_pushHead (d := d) h mem
    simp [Vbuf.bytes, Vbuf.descList, Vbuf.first, adfNbufPushHead, hdata]

/-- Where the header and the trailer of the buffer go. -/
theorem pushHead_spec (h : n ≤ b.first.dataOffset) :
    (adfNbufPushHead b n).first.start = b.first.start - n ∧
      (adfNbufPushHead b n).last.tail = b.last.tail ∧
      (adfNbufPushHead b n).nbuf.headroom = b.first.dataOffset - n ∧
      (adfNbufPushHead b n).nbuf.len = (b.bufLength + n) % 65536 ∧
      (adfNbufPushHead b n).nbuf.tailroom = b.nbuf.tailroom := by
  rcases b with ⟨front, last, len⟩
  cases front with
  | nil =>
    change n ≤ last.dataOffset at h
    refine ⟨?_, ?_, rfl, rfl, ?_⟩
    · change last.bufAddr + (last.dataOffset - n) = last.bufAddr + last.dataOffset - n
      omega
    · change last.bufAddr + (last.dataOffset - n) + (last.dataSize + n) =
        last.bufAddr + last.dataOffset + last.dataSize
      omega
    · change last.bufSize - (last.dataOffset - n) - (last.dataSize + n) =
        last.bufSize - last.dataOffset - last.dataSize
      omega
  | cons d front =>
    change n ≤ d.dataOffset at h
    refine ⟨?_, rfl, rfl, rfl, rfl⟩
    change d.bufAddr + (d.dataOffset - n) = d.bufAddr + d.dataOffset - n
    omega

end

/-- What is left for a trailer; a frame that is too long together with its head room leaves the
whole tail room. -/
def roomLeft (max headroom len tailroom : ℕ) : ℕ :=
  if headroom + len ≤ max then min tailroom (max - headroom - len) else tailroom

theorem trailerRoom_eq (pipe : ℕ) {buf : NBuf} (hhead : buf.headroom < 65536)
    (hlen : buf.len < 65536) (htail : buf.tailroom < 65536) :
    trailerRoom pipe buf =
      roomLeft (hifGetMaxMsgLen pipe) buf.headroom buf.len buf.tailroom := by
  have hmax : hifGetMaxMsgLen pipe ≤ 1600 := by
    rw [hifGetMaxMsgLen]
    split <;> omega
  rw [trailerRoom, roomLeft, cInt]
  split
  · omega
  · omega

/-! ## The header -/

theorem fetch_header (mem : ℕ → BitVec 8) (a : ℕ) : Memory.fetch mem a htcHdrLength =
    [mem a, mem (a + 1), mem (a + 2), mem (a + 3), mem (a + 4), mem (a + 5), mem (a + 6),
      mem (a + 7)] := rfl

/-- The bytes of the header, of which the last three are never written. -/
theorem header_bytes {mem : ℕ → BitVec 8} {a : ℕ} {eid : BitVec 8} (heid : mem a = eid)
    (hflags : mem (a + 1) = 0) (total n : ℕ) :
    Memory.fetch (completeHeader a total n mem) a htcHdrLength =
      [eid, if 0 < total then htcFlagsRecvTrailer else 0] ++ halfword (n + total) ++
        [if 0 < total then BitVec.ofNat 8 total else mem (a + 4), mem (a + 5), mem (a + 6),
          mem (a + 7)] := by
  rw [fetch_header, completeHeader, announceTrailer, halfword, Memory.store, Memory.store,
    Memory.store]
  split
  · simp [Function.update_apply, heid, hflags]
    omega
  · simp [Function.update_apply, heid, hflags]
    omega

/-- Only the header is touched. -/
theorem header_outside {mem : ℕ → BitVec 8} {a c : ℕ} (hc : c < a ∨ a + htcHdrLength ≤ c)
    (total n : ℕ) : completeHeader a total n mem c = mem c := by
  rw [htcHdrLength] at hc
  rw [completeHeader,
    Memory.store_outside (by simp only [halfword, List.length_cons, List.length_nil]; omega),
    announceTrailer]
  split
  · rw [Function.update_of_ne (by omega), Function.update_of_ne (by omega)]
  · rfl

/-! ## The host -/

section

variable {credits : EndpointId → Int} {l : List EndpointId} {payload : List (BitVec 8)}

theorem decodeReports_eq (credits : EndpointId → Int) (l : List EndpointId) :
    decodeReports (l.flatMap fun i : EndpointId =>
      [BitVec.ofNat 8 i, BitVec.ofInt 8 (credits i)]) =
      some (l.map fun i : EndpointId => ((i : ℕ), credits i % 256)) := by
  induction l with
  | nil => rfl
  | cons i l ih =>
    have heid : (BitVec.ofNat 8 i).toNat = i := by
      have hi := i.isLt
      rw [BitVec.toNat_ofNat]
      omega
    have hcredits : ((BitVec.ofInt 8 (credits i)).toNat : Int) = credits i % 256 := by
      rw [BitVec.toNat_ofInt]
      omega
    rw [List.flatMap_cons, List.cons_append, List.cons_append, List.nil_append, decodeReports, ih,
      Option.map_some, heid, hcredits, List.map_cons]

theorem length_flatMap_pairs (credits : EndpointId → Int) (l : List EndpointId) :
    (l.flatMap fun i : EndpointId =>
      [BitVec.ofNat 8 i, BitVec.ofInt 8 (credits i)]).length = 2 * l.length := by
  induction l with
  | nil => rfl
  | cons i l ih =>
    rw [List.flatMap_cons, List.length_append, ih, List.length_cons]
    simp only [List.length_cons, List.length_nil]
    omega

theorem length_creditRecord : (creditRecord credits l).length = 2 + 2 * l.length := by
  rw [creditRecord, List.length_cons, List.length_cons, length_flatMap_pairs]
  omega

theorem decodeTrailer_eq (hlen : l.length ≤ 22) :
    decodeTrailer (creditRecord credits l) = some (l.map fun i : EndpointId => ((i : ℕ), credits i % 256)) := by
  have hlength : (BitVec.ofNat 8 (2 * l.length)).toNat = 2 * l.length := by
    rw [BitVec.toNat_ofNat]
    omega
  rw [creditRecord, decodeTrailer, if_pos ⟨rfl, by rw [hlength, length_flatMap_pairs]⟩,
    decodeReports_eq]

theorem halfword_value {n : ℕ} (h : n < 65536) :
    (BitVec.ofNat 8 (n / 256)).toNat * 256 + (BitVec.ofNat 8 n).toNat = n := by
  rw [BitVec.toNat_ofNat, BitVec.toNat_ofNat]
  omega

theorem toNat_eid (eid : EndpointId) : (BitVec.ofNat 8 eid).toNat = eid := by
  have heid := eid.isLt
  rw [BitVec.toNat_ofNat]
  omega

theorem decodeFrame_bare (eid : EndpointId) (hlen : payload.length < 65536)
    (c x y z : BitVec 8) :
    decodeFrame (([BitVec.ofNat 8 eid, 0] ++ halfword payload.length ++ [c, x, y, z]) ++ payload) =
      some ⟨eid, payload, none⟩ := by
  simp only [halfword, List.cons_append, List.nil_append, decodeFrame, halfword_value hlen,
    toNat_eid]
  simp

theorem decodeFrame_trailer (eid : EndpointId) (hlen : payload.length + (2 + 2 * l.length) < 65536)
    (hfew : l.length ≤ 22) (x y z : BitVec 8) :
    decodeFrame (([BitVec.ofNat 8 eid, htcFlagsRecvTrailer] ++
        halfword (payload.length + (2 + 2 * l.length)) ++
        [BitVec.ofNat 8 (2 + 2 * l.length), x, y, z]) ++ (payload ++ creditRecord credits l)) =
      some ⟨eid, payload, some (l.map fun i : EndpointId => ((i : ℕ), credits i % 256))⟩ := by
  have hcontrol : (BitVec.ofNat 8 (2 + 2 * l.length)).toNat = 2 + 2 * l.length := by
    rw [BitVec.toNat_ofNat]
    omega
  have hbody : (payload ++ creditRecord credits l).length = payload.length + (2 + 2 * l.length) := by
    rw [List.length_append, length_creditRecord]
  have hflag : htcFlagsRecvTrailer &&& htcFlagsRecvTrailer ≠ 0 := by decide
  have hsplit : payload.length + (2 + 2 * l.length) - (2 + 2 * l.length) = payload.length := by omega
  simp only [halfword, List.cons_append, List.nil_append, decodeFrame, halfword_value hlen,
    toNat_eid, hcontrol, hbody, hsplit]
  rw [if_neg (by simp), if_neg hflag, if_neg (by omega), List.take_left, List.drop_left,
    decodeTrailer_eq hfew]
  rfl

end

/-! ## The frame -/

/-- The trailer that reports the endpoints `l`. -/
def trailerBytes (htc : Context) (l : List EndpointId) : List (BitVec 8) :=
  if l = [] then [] else creditRecord (fun i => (htc.endpoints i).creditsToReturn) l

/-- The trailer for the endpoints `l` stands behind the data of `b`, and only they have given
their credits. -/
structure Trailed (htc : Context) (mem : ℕ → BitVec 8) (b : Vbuf) (l : List EndpointId)
    (o : Outgoing) : Prop where
  bytes : ∀ mem', o.buf.bytes mem' =
    b.bytes mem' ++ Memory.fetch mem' b.last.tail (trailerBytes htc l).length
  total : o.trailer.totalReportBytes = (trailerBytes htc l).length
  record : Memory.fetch o.mem b.last.tail (trailerBytes htc l).length = trailerBytes htc l
  outside : ∀ a, a < b.last.tail ∨ b.last.tail + (trailerBytes htc l).length ≤ a →
    o.mem a = mem a
  pending : ∀ i : EndpointId, o.trailer.creditsPendingMap.getLsbD i =
    (htc.epCreditPendingMap.getLsbD i && decide (i ∉ l))
  endpoints : ∀ i, i ∉ l → o.trailer.endpoints i = htc.endpoints i

section

variable {htc : Context} {eid : EndpointId} {mem : ℕ → BitVec 8} {b : Vbuf} {l : List EndpointId}
  {o : Outgoing}

theorem putTrailer_trailed (hmap : PendingInTable htc) (room : ℕ) (mem : ℕ → BitVec 8)
    (b : Vbuf) : Trailed htc mem b (reportable htc room) (putTrailer htc room mem b) := by
  by_cases hnone : reportable htc room = []
  · rw [putTrailer_bare hmap hnone, hnone]
    refine ⟨fun mem' => ?_, rfl, rfl, fun _ _ => rfl, fun i => ?_, fun _ _ => rfl⟩
    · exact (List.append_nil _).symm
    · simp
  · have hwritten := putTrailer_written hnone mem b
    have hbytes : (trailerBytes htc (reportable htc room)).length =
        2 + 2 * (reportable htc room).length := by
      rw [trailerBytes, if_neg hnone, length_creditRecord]
    constructor
    case bytes =>
      intro mem'
      rw [hbytes, hwritten.buf, Vbuf.bytes_putTail]
    case total => rw [hbytes, hwritten.total]
    case record =>
      rw [hbytes, trailerBytes, if_neg hnone]
      exact hwritten.record
    case outside =>
      intro a ha
      rw [hbytes] at ha
      exact hwritten.outside a ha
    case pending => exact hwritten.pending
    case endpoints => exact hwritten.endpoints

/-- The room for the trailer of a frame, from the buffer the caller passes. -/
def frameRoom (htc : Context) (eid : EndpointId) (b : Vbuf) : ℕ :=
  roomLeft (hifGetMaxMsgLen (htc.endpoints eid).downLinkPipeId)
    (b.first.dataOffset - htcHdrLength) ((b.bufLength + htcHdrLength) % 65536) b.nbuf.tailroom

/-- The endpoints reported in the trailer of a frame. -/
def reported (htc : Context) (eid : EndpointId) (b : Vbuf) : List EndpointId :=
  reportable htc (frameRoom htc eid b)

theorem frameRoom_le (htc : Context) (eid : EndpointId) (b : Vbuf) :
    frameRoom htc eid b ≤ b.nbuf.tailroom := by
  rw [frameRoom, roomLeft]
  split
  · exact Nat.min_le_left _ _
  · exact le_rfl

theorem trailerBytes_le (htc : Context) (room : ℕ) :
    (trailerBytes htc (reportable htc room)).length ≤ room := by
  rw [trailerBytes]
  split
  case isTrue => exact Nat.zero_le _
  case isFalse hne =>
    rw [length_creditRecord, reportable]
    rw [reportable] at hne
    split at hne
    case isTrue => exact absurd rfl hne
    case isFalse hroom =>
      have htake := List.length_take_le ((room - 2) / 2) (pendingEndpoints htc.epCreditPendingMap)
      rw [if_neg hroom]
      omega

theorem Vbuf.InBounds.trailerRoom (h : b.InBounds) (htc : Context) (eid : EndpointId) :
    trailerRoom (htc.endpoints eid).downLinkPipeId (adfNbufPushHead b htcHdrLength).nbuf =
      frameRoom htc eid b := by
  obtain ⟨-, -, hhead, hlen, htail⟩ := pushHead_spec h.headroom
  have hfirst := h.fits b.first b.first_mem
  have hlast := h.fits b.last b.last_mem
  rw [trailerRoom_eq]
  · rw [hhead, hlen, htail]
    rfl
  · rw [hhead]
    omega
  · rw [hlen]
    omega
  · rw [htail]
    simp only [nbuf]
    omega

/-- The frame of `b` with the trailer for the endpoints `l`. -/
structure Sent (htc : Context) (eid : EndpointId) (mem : ℕ → BitVec 8) (b : Vbuf)
    (l : List EndpointId) (o : Outgoing) : Prop where
  frame : ∃ c x y z, o.buf.bytes o.mem =
    ([BitVec.ofNat 8 eid, if 0 < (trailerBytes htc l).length then htcFlagsRecvTrailer else 0] ++
      halfword (b.bufLength + (trailerBytes htc l).length) ++
      [if 0 < (trailerBytes htc l).length then BitVec.ofNat 8 (trailerBytes htc l).length else c,
        x, y, z]) ++ (b.bytes mem ++ trailerBytes htc l)
  outside : ∀ a, a < b.first.start - htcHdrLength ∨ b.first.start ≤ a →
    a < b.last.tail ∨ b.last.tail + (trailerBytes htc l).length ≤ a → o.mem a = mem a
  pending : ∀ i : EndpointId, o.trailer.creditsPendingMap.getLsbD i =
    (htc.epCreditPendingMap.getLsbD i && decide (i ∉ l))
  endpoints : ∀ i, i ∉ l → o.trailer.endpoints i = htc.endpoints i

/-- The trailer goes behind the data, then the header is completed. -/
theorem htcSendFrame_eq (hmap : PendingInTable htc) (hb : b.InBounds) (eid : EndpointId)
    (mem : ℕ → BitVec 8) :
    ∃ o, Trailed htc (Memory.store mem (b.first.start - htcHdrLength) [BitVec.ofNat 8 eid, 0])
        (adfNbufPushHead b htcHdrLength) (reported htc eid b) o ∧
      htcSendFrame htc eid mem b =
        { o with
          mem := completeHeader (b.first.start - htcHdrLength) o.trailer.totalReportBytes
            b.bufLength o.mem } := by
  refine ⟨_, putTrailer_trailed hmap (frameRoom htc eid b) _ _, ?_⟩
  rw [htcSendFrame, (pushHead_spec hb.headroom).1, hb.trailerRoom htc eid]

theorem htcSendFrame_sent (hmap : PendingInTable htc) (hb : b.InBounds) (eid : EndpointId)
    (mem : ℕ → BitVec 8) :
    Sent htc eid mem b (reported htc eid b) (htcSendFrame htc eid mem b) := by
  have htail := (pushHead_spec hb.headroom).2.1
  have hbound : (trailerBytes htc (reported htc eid b)).length ≤ b.nbuf.tailroom :=
    (trailerBytes_le htc _).trans (frameRoom_le htc eid b)
  obtain ⟨o, htrailed, hsend⟩ := htcSendFrame_eq hmap hb eid mem
  rw [hsend, htrailed.total]
  generalize reported htc eid b = l at *
  have hhdr := hb.header
  have hsep := hb.header_tail hbound
  have hin := hb.within b.first_mem
  have hpush : b.first.start - htcHdrLength + htcHdrLength = b.first.start := by omega
  have hkept : ∀ a, a < b.last.tail ∨ b.last.tail + (trailerBytes htc l).length ≤ a →
      o.mem a = Memory.store mem (b.first.start - htcHdrLength) [BitVec.ofNat 8 eid, 0] a := by
    intro a ha
    exact htrailed.outside a (by rwa [htail])
  have houtside : ∀ a, a < b.first.start - htcHdrLength ∨ b.first.start ≤ a →
      a < b.last.tail ∨ b.last.tail + (trailerBytes htc l).length ≤ a →
      completeHeader (b.first.start - htcHdrLength) (trailerBytes htc l).length b.bufLength o.mem a =
        mem a := by
    intro a hhead hend
    rw [header_outside (by omega), hkept a hend]
    apply Memory.store_outside
    simp only [htcHdrLength] at hpush hhead ⊢
    simp only [List.length_cons, List.length_nil]
    omega
  refine ⟨?_, houtside, htrailed.pending, htrailed.endpoints⟩
  have hpayload : b.bytes (completeHeader (b.first.start - htcHdrLength) (trailerBytes htc l).length
      b.bufLength o.mem) = b.bytes mem := by
    apply Vbuf.bytes_congr
    intro d hd a hlow hhigh
    have hheader := hb.header_apart hd
    have htrailer := hb.tail_apart hbound hd
    exact houtside a (by omega) (by omega)
  have hrecord : Memory.fetch (completeHeader (b.first.start - htcHdrLength)
      (trailerBytes htc l).length b.bufLength o.mem) b.last.tail (trailerBytes htc l).length =
      trailerBytes htc l := by
    conv_rhs => rw [← htrailed.record, htail]
    apply Memory.fetch_congr
    intro k hk
    exact header_outside (by omega) _ _
  have heid : o.mem (b.first.start - htcHdrLength) = BitVec.ofNat 8 eid := by
    rw [hkept _ (by simp only [htcHdrLength] at *; omega)]
    simp [Memory.store]
  have hflags : o.mem (b.first.start - htcHdrLength + 1) = 0 := by
    rw [hkept _ (by simp only [htcHdrLength] at *; omega)]
    simp [Memory.store]
  have hheader := header_bytes heid hflags (trailerBytes htc l).length b.bufLength
  refine ⟨o.mem (b.first.start - htcHdrLength + 4), o.mem (b.first.start - htcHdrLength + 5),
    o.mem (b.first.start - htcHdrLength + 6), o.mem (b.first.start - htcHdrLength + 7), ?_⟩
  rw [htrailed.bytes, bytes_pushHead hb.headroom, hheader, hpayload, htail, hrecord,
    List.append_assoc]

/-! ## What the host learns -/

/-- The endpoints whose credits a frame has taken. -/
def cleared (htc : Context) (t : Trailer) : List EndpointId :=
  (List.finRange 22).filter fun i =>
    htc.epCreditPendingMap.getLsbD i && !t.creditsPendingMap.getLsbD i

/-- The host gets the payload and the credits that were taken; the pending endpoints that are not
reported keep theirs, and the frame keeps to its buffer and to the message length of the pipe. -/
structure Conveyed (htc : Context) (eid : EndpointId) (mem : ℕ → BitVec 8) (b : Vbuf)
    (o : Outgoing) : Prop where
  decoded : decodeFrame (o.buf.bytes o.mem) = some ⟨eid, b.bytes mem,
    if cleared htc o.trailer = [] then none
    else some ((cleared htc o.trailer).map fun i : EndpointId =>
      ((i : ℕ), (htc.endpoints i).creditsToReturn))⟩
  pending : ∀ i : EndpointId, o.trailer.creditsPendingMap.getLsbD i = true →
    htc.epCreditPendingMap.getLsbD i = true
  kept : ∀ i, i ∉ cleared htc o.trailer → o.trailer.endpoints i = htc.endpoints i
  inside : ∀ a, o.mem a ≠ mem a →
    b.first.bufAddr ≤ a ∧ a < b.first.start ∨ b.last.tail ≤ a ∧ a < b.last.limit
  size : (b.bytes mem).length + htcHdrLength ≤
      hifGetMaxMsgLen (htc.endpoints eid).downLinkPipeId →
    (o.buf.bytes o.mem).length ≤ hifGetMaxMsgLen (htc.endpoints eid).downLinkPipeId
  bare : hifGetMaxMsgLen (htc.endpoints eid).downLinkPipeId <
    (b.bytes mem).length + htcHdrLength → cleared htc o.trailer = []

/-- No credits are reported, or the frame with those of the endpoints that the room takes in is
within the message length, and each has no more of them than a byte holds. -/
def TrailerFits (htc : Context) (eid : EndpointId) (b : Vbuf) : Prop :=
  reported htc eid b = [] ∨
    b.bufLength + htcHdrLength + (2 + 2 * (reported htc eid b).length) ≤
        hifGetMaxMsgLen (htc.endpoints eid).downLinkPipeId ∧
      ∀ i ∈ reported htc eid b,
        0 ≤ (htc.endpoints i).creditsToReturn ∧ (htc.endpoints i).creditsToReturn < 256

instance (htc : Context) (eid : EndpointId) (b : Vbuf) : Decidable (TrailerFits htc eid b) :=
  inferInstanceAs (Decidable (_ ∨ _ ∧ ∀ i ∈ reported htc eid b, _))

theorem Sent.cleared (h : Sent htc eid mem b (reported htc eid b) o) :
    cleared htc o.trailer = reported htc eid b := by
  have hfilter : Ath9kHtc.Htc.cleared htc o.trailer =
      (pendingEndpoints htc.epCreditPendingMap).filter fun i => decide (i ∈ reported htc eid b) := by
    rw [Ath9kHtc.Htc.cleared, pendingEndpoints, List.filter_filter]
    apply List.filter_congr
    intro i _
    rw [h.pending]
    cases htc.epCreditPendingMap.getLsbD i <;> simp
  rw [hfilter, reported, reportable]
  split
  · simp
  · conv_rhs => rw [List.Nodup.take_eq_filter_mem (nodup_pendingEndpoints _)]
    simp

theorem length_trailerBytes (htc : Context) (h : l ≠ []) :
    (trailerBytes htc l).length = 2 + 2 * l.length := by
  rw [trailerBytes, if_neg h, length_creditRecord]

theorem Sent.length (h : Sent htc eid mem b l o) (hb : b.InBounds) :
    (o.buf.bytes o.mem).length = b.bufLength + htcHdrLength + (trailerBytes htc l).length := by
  obtain ⟨c, x, y, z, hframe⟩ := h.frame
  have hlen := hb.length_bytes mem
  rw [hframe]
  simp only [List.length_append, List.length_cons, List.length_nil, halfword, hlen, htcHdrLength]
  omega

/-- A frame without a trailer. -/
theorem Sent.decode_bare (h : Sent htc eid mem b [] o) (hb : b.InBounds) :
    decodeFrame (o.buf.bytes o.mem) = some ⟨eid, b.bytes mem, none⟩ := by
  obtain ⟨c, x, y, z, hframe⟩ := h.frame
  have hlen := hb.length_bytes mem
  have hsmall : (b.bytes mem).length < 65536 := hlen ▸ hb.small
  have hdecode := decodeFrame_bare eid hsmall c x y z
  rw [hlen] at hdecode
  rw [hframe]
  simpa [trailerBytes] using hdecode

/-- What the host reads of a frame with a trailer. -/
theorem Sent.decode_trailer (h : Sent htc eid mem b l o) (hb : b.InBounds) (hl : l ≠ [])
    (hfew : l.length ≤ 22) (hsmall : b.bufLength + (2 + 2 * l.length) < 65536) :
    decodeFrame (o.buf.bytes o.mem) = some ⟨eid, b.bytes mem,
      some (l.map fun i : EndpointId => ((i : ℕ), (htc.endpoints i).creditsToReturn % 256))⟩ := by
  obtain ⟨c, x, y, z, hframe⟩ := h.frame
  have hlen := hb.length_bytes mem
  have hpos : 0 < (trailerBytes htc l).length := by
    rw [length_trailerBytes htc hl]
    omega
  rw [← hlen] at hsmall
  rw [hframe, if_pos hpos, if_pos hpos, length_trailerBytes htc hl, trailerBytes, if_neg hl, ← hlen]
  exact decodeFrame_trailer eid hsmall hfew x y z

/-- A frame that conveys its trailer has one that fits. -/
theorem Conveyed.fits (h : Conveyed htc eid mem b o)
    (hsent : Sent htc eid mem b (reported htc eid b) o) (hb : b.InBounds) :
    TrailerFits htc eid b := by
  by_cases hnone : reported htc eid b = []
  · exact .inl hnone
  have hmax : hifGetMaxMsgLen (htc.endpoints eid).downLinkPipeId ≤ 1600 := by
    rw [hifGetMaxMsgLen]
    split <;> omega
  have hshort : (b.bytes mem).length + htcHdrLength ≤
      hifGetMaxMsgLen (htc.endpoints eid).downLinkPipeId := by
    by_contra hlong
    have hbare := h.bare (Nat.lt_of_not_le hlong)
    rw [hsent.cleared] at hbare
    exact hnone hbare
  have hsize := h.size hshort
  rw [hsent.length hb, length_trailerBytes htc hnone] at hsize
  refine .inr ⟨hsize, ?_⟩
  have hdecoded := h.decoded
  rw [hsent.cleared, if_neg hnone, hsent.decode_trailer hb hnone (length_reportable_le htc _)
    (by omega)] at hdecoded
  simp only [Option.some.injEq, HostFrame.mk.injEq, true_and, List.map_inj_left, Prod.mk.injEq]
    at hdecoded
  intro i hi
  have hcredits := hdecoded i hi
  omega

theorem TrailerFits.conveyed (h : TrailerFits htc eid b)
    (hsent : Sent htc eid mem b (reported htc eid b) o) (hb : b.InBounds) :
    Conveyed htc eid mem b o := by
  have hhdr := hb.header
  have hroom := hb.room ((trailerBytes_le htc _).trans (frameRoom_le htc eid b))
  have hmax : hifGetMaxMsgLen (htc.endpoints eid).downLinkPipeId ≤ 1600 := by
    rw [hifGetMaxMsgLen]
    split <;> omega
  constructor
  case decoded =>
    rw [hsent.cleared]
    by_cases hnone : reported htc eid b = []
    · rw [if_pos hnone]
      rw [hnone] at hsent
      exact hsent.decode_bare hb
    · rcases h with habsent | ⟨hsize, hcredits⟩
      · exact absurd habsent hnone
      rw [if_neg hnone, hsent.decode_trailer hb hnone (length_reportable_le htc _) (by omega)]
      simp only [Option.some.injEq, HostFrame.mk.injEq, true_and, List.map_inj_left, Prod.mk.injEq]
      intro i hi
      have hbyte := hcredits i hi
      omega
  case pending =>
    intro i hi
    rw [hsent.pending, Bool.and_eq_true] at hi
    exact hi.1
  case kept =>
    intro i hi
    rw [hsent.cleared] at hi
    exact hsent.endpoints i hi
  case inside =>
    intro a ha
    by_contra hout
    apply ha
    rw [← reported] at hroom
    apply hsent.outside a
    · omega
    · omega
  case size =>
    intro hshort
    rw [hsent.length hb]
    rw [hb.length_bytes] at hshort
    rcases h with hnone | ⟨hsize, -⟩
    · rw [hnone]
      exact hshort
    · by_cases hnone : reported htc eid b = []
      · rw [hnone]
        exact hshort
      · rw [length_trailerBytes htc hnone]
        exact hsize
  case bare =>
    intro hlong
    rw [hsent.cleared]
    rw [hb.length_bytes] at hlong
    rcases h with hnone | ⟨hsize, -⟩
    · exact hnone
    · omega

end

/-! ## The message of the credit accounts -/

section

variable {htc : Context} {eid : EndpointId} {b : Vbuf}

theorem putTrailer_trailer (htc : Context) (room : Int) (mem : ℕ → BitVec 8) (b : Vbuf) :
    (putTrailer htc room mem b).trailer = fillTrailer htc room := by
  rw [putTrailer, fillTrailer]
  split
  · rfl
  · split
    · rfl
    · exact Outgoing.build_trailer _ _ _

/-- On the credits and the header fields the frame is the message of the accounts. -/
theorem htcSendMsg_frame (hb : b.InBounds) (hlen : b.bufLength + htcHdrLength < 65536)
    (eid : EndpointId) (mem : ℕ → BitVec 8) :
    (htcSendMsg htc eid b.nbuf).endpoints = (htcSendFrame htc eid mem b).trailer.endpoints ∧
      (htcSendMsg htc eid b.nbuf).epCreditPendingMap =
        (htcSendFrame htc eid mem b).trailer.creditsPendingMap ∧
      ∃ msg, (htcSendMsg htc eid b.nbuf).inFlight = htc.inFlight ++ [msg] ∧
        msg.payloadLen = (b.bufLength +
          (htcSendFrame htc eid mem b).trailer.totalReportBytes) % 65536 ∧
        msg.reports = (htcSendFrame htc eid mem b).trailer.reports := by
  obtain ⟨-, -, hhead, hpushed, htail⟩ := pushHead_spec hb.headroom
  have hroom : trailerRoom (htc.endpoints eid).downLinkPipeId
      (adfNbufPushHead b htcHdrLength).nbuf =
      trailerRoom (htc.endpoints eid).downLinkPipeId (pushHtcHdr eid b.nbuf) := by
    rw [trailerRoom, trailerRoom, hhead, hpushed, htail, Nat.mod_eq_of_lt hlen]
    rfl
  have htrailer : (htcSendFrame htc eid mem b).trailer = fillTrailer htc
      (trailerRoom (htc.endpoints eid).downLinkPipeId (pushHtcHdr eid b.nbuf)) := by
    rw [htcSendFrame, hroom]
    exact putTrailer_trailer _ _ _ _
  rw [htrailer]
  exact ⟨rfl, rfl, _, rfl, rfl, rfl⟩

end

/-- The frame conveys the payload and the credits exactly when the trailer fits. -/
theorem frame_conveyed_iff {htc : Context} (hmap : PendingInTable htc) {b : Vbuf}
    (hb : b.InBounds) (eid : EndpointId) (mem : ℕ → BitVec 8) :
    Conveyed htc eid mem b (htcSendFrame htc eid mem b) ↔ TrailerFits htc eid b := by
  have hsent := htcSendFrame_sent hmap hb eid mem
  constructor
  · intro h
    exact h.fits hsent hb
  · intro h
    exact h.conveyed hsent hb

/-- One credit to report on endpoint 1. -/
def oneCredit : Context := returnBuffer { htcInit 320 45 with setupComplete := true } 1 0

theorem oneCredit_pendingInTable : PendingInTable oneCredit :=
  (returnBuffer_mapKept _ _ _).pendingInTable fun _ _ => BitVec.getLsbD_zero

/-- A buffer of one descriptor, with room for the header in front of the data. -/
def plainBuffer (bufSize len : ℕ) : Vbuf := ⟨[], ⟨0, bufSize, htcHdrLength, len⟩, len⟩

theorem plainBuffer_inBounds {bufSize len : ℕ} (hfits : htcHdrLength + len ≤ bufSize)
    (hsize : bufSize < 65536) : (plainBuffer bufSize len).InBounds where
  fits := by
    intro d hd
    obtain rfl := List.mem_singleton.mp hd
    exact ⟨hfits, hsize⟩
  apart := List.pairwise_singleton _ _
  length := (Nat.add_zero len).symm
  small := by
    change len < 65536
    omega
  headroom := le_rfl

/-- Ten bytes, and the credit behind them. -/
theorem frame_conveyed_credit : cleared oneCredit
      (htcSendFrame oneCredit 2 (fun _ => 7) (plainBuffer 64 10)).trailer = [1] ∧
    Conveyed oneCredit 2 (fun _ => 7) (plainBuffer 64 10)
      (htcSendFrame oneCredit 2 (fun _ => 7) (plainBuffer 64 10)) :=
  ⟨by decide +kernel, (frame_conveyed_iff oneCredit_pendingInTable
    (plainBuffer_inBounds (by decide) (by decide)) 2 _).mpr (by decide +kernel)⟩

/-- A frame that is longer than the message length gets a trailer all the same. -/
theorem long_frame_trailed : ¬ ∀ (htc : Context) (eid : EndpointId) (mem : ℕ → BitVec 8) (b : Vbuf),
    PendingInTable htc → b.InBounds → Conveyed htc eid mem b (htcSendFrame htc eid mem b) := by
  intro hall
  have hb : (plainBuffer 2000 1600).InBounds := plainBuffer_inBounds (by decide) (by decide)
  have hconveyed := hall oneCredit 2 (fun _ => 0) _ oneCredit_pendingInTable hb
  have hfits := hconveyed.fits (htcSendFrame_sent oneCredit_pendingInTable hb 2 _) hb
  exact absurd hfits (by decide +kernel)

end Ath9kHtc.Htc
