import Ath9kHtc.Tx.WindowState

/-!
# Aggregates as they are formed

What `ath_tgt_tx_form_aggr` takes off the queue of a TID, and what the aggregate looks like when it
goes to the hardware.
-/

namespace Ath9kHtc.Tx

/-- The bit of a sequence number is set. -/
def Tid.Marked (tid : Tid) (seqno : ℕ) : Prop :=
  tid.txBufBitmap ((tid.bawHead + athBaIndex tid.seqStart seqno) % athTidMaxBufs) = true

/-- A delimiter and the frame. -/
def delimited (b : TxBuf) : ℕ := 4 + b.bfPktlen

/-- What stands between a frame and the next of the aggregate. -/
def separation (b : TxBuf) : ℕ := (4 - delimited b % 4) % 4 + 4 * aggrNdelim b

/-- The length of an aggregate. -/
def aggrLength (s : TxState) (frames : List BufId) : ℕ :=
  (frames.map fun bf => delimited (s.buf bf)).sum +
    (frames.dropLast.map fun bf => separation (s.buf bf)).sum

/-- The frames of a TID are there to be aggregated, and those sent before are in the window. -/
structure Formable (s : TxState) (k : TidId) : Prop where
  distinct : (s.tid k).bufQ.Nodup
  aggr : ∀ bf ∈ (s.tid k).bufQ, (s.buf bf).bfComp = some .aggr
  retried : ∀ bf ∈ (s.tid k).bufQ, (s.buf bf).bfIsretried = true →
    bawWithin (s.tid k).seqStart (s.tid k).bawSize (seqnoFromBfSeqno (s.buf bf).bfSeqno) = true →
    (s.tid k).Marked (seqnoFromBfSeqno (s.buf bf).bfSeqno)

/-- What `ath_tgt_tx_sched_aggr` does with the frames formed. -/
def schedFormed (s : TxState) : List BufId → TxState
  | [] => s
  | bf :: more =>
    if (s.buf bf).bfNframes = 1 then schedSingle s bf
    else schedAggregate s bf ((bf :: more).getLastD bf)

/-- The frames are those in front of the queue, they are in the window, and the aggregate in the
second state consists of them.  Its length is right if the length of each frame with its delimiter
fits 16 bits. -/
structure AggregateOf (s : TxState) (k : TidId) (first : BufId) (frames : List BufId)
    (s' : TxState) : Prop where
  queue : (s.tid k).bufQ = frames ++ (s'.tid k).bufQ
  within : ∀ bf ∈ frames, bawWithin (s'.tid k).seqStart (s'.tid k).bawSize
    (seqnoFromBfSeqno (s'.buf bf).bfSeqno) = true
  marked : ∀ bf ∈ frames, (s'.tid k).Marked (seqnoFromBfSeqno (s'.buf bf).bfSeqno)
  count : (s'.buf first).bfNframes = frames.length
  bounded : frames.length ≤ min ((s.tid k).bawSize / 2) s.cfg.maxAggrFrames
  chain : Chain (fun bf => (s'.buf bf).bfNext) frames.head? frames
  delims : ∀ bf ∈ frames.dropLast, (s'.buf bf).bfNdelim = aggrNdelim (s.buf bf)
  length : (∀ bf ∈ frames, delimited (s.buf bf) < 65536) →
    (s'.buf first).bfAl = aggrLength s frames
  limited : 2 ≤ frames.length → (s'.buf first).bfAl ≤ (athLookupRate s k.1 first).1

section

variable {s s₀ s' : TxState} {k : TidId} {bf first : BufId} {acc : AggrAcc} {rest frames : List BufId}

/-! ## Lengths -/

theorem aggrNdelim_lt (b : TxBuf) : aggrNdelim b < 128 := by
  unfold aggrNdelim
  dsimp only
  split <;> cases b.bfKeytype <;> dsimp only <;> omega

theorem aggrLimit_le (s : TxState) (ni : NodeId) (rcs : Fin 4 → RcSeries) (prate : Bool) :
    aggrLimit s ni rcs prate ≤ 65535 := by
  have hfold : ∀ (l : List (Fin 4)) (m : ℕ), m ≤ 65535 →
      l.foldl (fun m i => min m (rcs i).max4msframelen) m ≤ 65535 := by
    intro l
    induction l with
    | nil => exact fun m hm => hm
    | cons i l ih => exact fun m hm => ih _ ((min_le_left _ _).trans hm)
  unfold aggrLimit
  dsimp only
  split
  · exact Nat.zero_le _
  · have hmax := hfold ((List.finRange 4).filter fun i => (rcs i).tries ≠ 0)
      ieee80211AmpduLimitMax (le_refl _)
    split <;> split <;> omega

theorem aggrLength_snoc (s : TxState) (frames : List BufId) (bf : BufId) :
    aggrLength s (frames ++ [bf]) = (frames.map fun b => delimited (s.buf b)).sum +
      (frames.map fun b => separation (s.buf b)).sum + delimited (s.buf bf) := by
  rw [aggrLength, List.dropLast_concat, List.map_append, List.sum_append, List.map_singleton,
    List.sum_singleton]
  omega

/-! ## One frame -/

/-- What the forming of an aggregate reads of a frame. -/
def TxBuf.packet (b : TxBuf) : Option Comp × ℕ × ℕ × KeyType × Bool :=
  (b.bfComp, b.bfPktlen, b.bfSeqno, b.bfKeytype, b.bfIsretried)

theorem delimited_congr {b b' : TxBuf} (h : b'.packet = b.packet) : delimited b' = delimited b := by
  simp only [TxBuf.packet, Prod.mk.injEq] at h
  rw [delimited, delimited, h.2.1]

theorem aggrNdelim_congr {b b' : TxBuf} (h : b'.packet = b.packet) :
    aggrNdelim b' = aggrNdelim b := by
  simp only [TxBuf.packet, Prod.mk.injEq] at h
  unfold aggrNdelim
  rw [h.2.1, h.2.2.2.1]

theorem AggrAcc.push_congr {b b' : TxBuf} (acc : AggrAcc) (bf : BufId) (h : b'.packet = b.packet) :
    acc.push bf b' = acc.push bf b := by
  have hdelta : alDelta b' = alDelta b := congrArg (· % 65536) (delimited_congr h)
  rw [push, push, hdelta, aggrNdelim_congr h]

theorem logHanded_tid (s : TxState) (bf : BufId) (k : TidId) :
    ∃ handed, (logHanded s bf).tid k = { s.tid k with handed := handed } := by
  rw [logHanded]
  split
  · exact ⟨_, rfl⟩
  · rename_i k' _
    rcases eq_or_ne k k' with rfl | hne
    · exact ⟨_, s.modTid_tid_self _ _⟩
    · exact ⟨_, s.modTid_tid_of_ne _ _ hne⟩

theorem logHanded_buf (s : TxState) (bf : BufId) : (logHanded s bf).buf = s.buf := by
  rw [logHanded]
  split <;> rfl

theorem logHanded_cfg (s : TxState) (bf : BufId) : (logHanded s bf).cfg = s.cfg := by
  rw [logHanded]
  split <;> rfl

theorem athTxAddtoBaw_keeps (tid : Tid) (b : TxBuf) :
    (athTxAddtoBaw tid b).bufQ = tid.bufQ ∧ (athTxAddtoBaw tid b).seqStart = tid.seqStart ∧
      (athTxAddtoBaw tid b).bawSize = tid.bawSize ∧
      (athTxAddtoBaw tid b).bawHead = tid.bawHead := by
  rw [athTxAddtoBaw]
  split
  · exact ⟨rfl, rfl, rfl, rfl⟩
  · exact ⟨rfl, rfl, rfl, rfl⟩

/-- No frame loses its mark. -/
theorem athTxAddtoBaw_bits {tid : Tid} {i : ℕ} (b : TxBuf) (h : tid.txBufBitmap i = true) :
    (athTxAddtoBaw tid b).txBufBitmap i = true := by
  rw [athTxAddtoBaw]
  split
  · exact h
  · rcases eq_or_ne i ((tid.bawHead + athBaIndex tid.seqStart (seqnoFromBfSeqno b.bfSeqno)) %
        athTidMaxBufs) with rfl | hne
    · exact Function.update_self ..
    · exact (Function.update_of_ne hne ..).trans h

/-- A frame that joins the window is marked. -/
theorem athTxAddtoBaw_marked {tid : Tid} {b : TxBuf}
    (h : b.bfIsretried = true → tid.Marked (seqnoFromBfSeqno b.bfSeqno)) :
    (athTxAddtoBaw tid b).Marked (seqnoFromBfSeqno b.bfSeqno) := by
  rw [athTxAddtoBaw]
  split
  case isTrue hretried => exact h hretried
  case isFalse => exact Function.update_self ..

theorem Tid.Marked.mono {tid tid' : Tid} {seqno : ℕ} (h : tid.Marked seqno)
    (hhead : tid'.bawHead = tid.bawHead) (hstart : tid'.seqStart = tid.seqStart)
    (hbits : ∀ i, tid.txBufBitmap i = true → tid'.txBufBitmap i = true) : tid'.Marked seqno := by
  rw [Marked, hhead, hstart]
  exact hbits _ h

/-! ## Links -/

@[simp] theorem linkSubframe_tid (s : TxState) (prev : Option BufId) (bf : BufId) :
    (linkSubframe s prev bf).tid = s.tid := by
  cases prev <;> rfl

@[simp] theorem linkSubframe_cfg (s : TxState) (prev : Option BufId) (bf : BufId) :
    (linkSubframe s prev bf).cfg = s.cfg := by
  cases prev <;> rfl

/-- A link is all that is written. -/
theorem linkSubframe_buf (s : TxState) (prev : Option BufId) (bf b : BufId) :
    (linkSubframe s prev bf).buf b = if prev = some b then { s.buf b with bfNext := some bf }
      else s.buf b := by
  cases prev with
  | none => rfl
  | some prev =>
    rcases eq_or_ne prev b with rfl | hne
    · rw [if_pos rfl]
      exact Function.update_self ..
    · rw [if_neg fun h => hne (Option.some.inj h)]
      exact Function.update_of_ne hne.symm ..

/-! ## The loop -/

/-- What holds while an aggregate is formed, seen from the state before. -/
structure Filling (s₀ : TxState) (k : TidId) (limit : ℕ) (acc : AggrAcc) (s : TxState) : Prop where
  cfg : s.cfg = s₀.cfg
  queue : (s₀.tid k).bufQ = acc.bfQ ++ (s.tid k).bufQ
  seqStart : (s.tid k).seqStart = (s₀.tid k).seqStart
  bawSize : (s.tid k).bawSize = (s₀.tid k).bawSize
  bawHead : (s.tid k).bawHead = (s₀.tid k).bawHead
  bits : ∀ i, (s₀.tid k).txBufBitmap i = true → (s.tid k).txBufBitmap i = true
  packet : ∀ bf, (s.buf bf).packet = (s₀.buf bf).packet
  within : ∀ bf ∈ acc.bfQ, bawWithin (s₀.tid k).seqStart (s₀.tid k).bawSize
    (seqnoFromBfSeqno (s₀.buf bf).bfSeqno) = true
  marked : ∀ bf ∈ acc.bfQ, (s.tid k).Marked (seqnoFromBfSeqno (s₀.buf bf).bfSeqno)
  linked : Linked (fun b => (s.buf b).bfNext) acc.bfQ
  delims : ∀ bf ∈ acc.bfQ, (s.buf bf).bfNdelim = aggrNdelim (s₀.buf bf)
  count : acc.nframes = acc.bfQ.length
  bounded : acc.bfQ.length ≤ min ((s₀.tid k).bawSize / 2) s₀.cfg.maxAggrFrames
  length : (∀ bf ∈ acc.bfQ, delimited (s₀.buf bf) < 65536) →
    acc.al = aggrLength s₀ acc.bfQ ∧
      acc.al + acc.bpad = (acc.bfQ.map fun bf => delimited (s₀.buf bf)).sum +
        (acc.bfQ.map fun bf => separation (s₀.buf bf)).sum
  unasked : acc.rl = false → acc.bfQ = [] ∧ limit = (athLookupRate s k.1 ((s₀.tid k).bufQ.headD 0)).1
  asked : acc.rl = true → acc.aggrLimit = limit
  limited : 2 ≤ acc.bfQ.length → acc.al ≤ limit

theorem Filling.start (s : TxState) (k : TidId) :
    Filling s k (athLookupRate s k.1 ((s.tid k).bufQ.headD 0)).1 {} s where
  cfg := rfl
  queue := rfl
  seqStart := rfl
  bawSize := rfl
  bawHead := rfl
  bits := fun _ h => h
  packet := fun _ => rfl
  within := by simp
  marked := by simp
  linked := .nil
  delims := by simp
  count := rfl
  bounded := Nat.zero_le _
  length := fun _ => ⟨rfl, rfl⟩
  unasked := fun _ => ⟨rfl, rfl⟩
  asked := by simp
  limited := by simp

theorem lookupRate_buf (s : TxState) (ni : NodeId) (bf b : BufId) :
    ∃ rcs, ((athLookupRate s ni bf).2.buf b) = { s.buf b with bfRcs := rcs } := by
  rcases eq_or_ne b bf with rfl | hne
  · exact ⟨lookupSeries (s.buf b) (athRateFindrate s).1, Function.update_self ..⟩
  · exact ⟨(s.buf b).bfRcs, Function.update_of_ne hne ..⟩

/-- The rates are looked up once, for the first frame. -/
theorem Filling.rate {limit : ℕ} (h : Filling s₀ k limit acc s) (hq : (s.tid k).bufQ = bf :: rest) :
    Filling s₀ k limit (aggrRate s k bf acc).1 (aggrRate s k bf acc).2 ∧
      (aggrRate s k bf acc).1.rl = true ∧ (aggrRate s k bf acc).2.tid = s.tid := by
  rw [aggrRate]
  split
  case isTrue hrl => exact ⟨h, hrl, rfl⟩
  case isFalse hrl =>
    obtain ⟨hnone, hlimit⟩ := h.unasked (by simpa using hrl)
    have hqueue := h.queue
    rw [hnone, hq, List.nil_append] at hqueue
    rw [hqueue, List.headD_cons] at hlimit
    have hbuf := lookupRate_buf s k.1 bf
    refine ⟨⟨h.cfg, h.queue, h.seqStart, h.bawSize, h.bawHead, h.bits, ?_, h.within, h.marked, ?_, ?_,
      h.count, h.bounded, h.length, by simp, fun _ => hlimit.symm, h.limited⟩, rfl, rfl⟩
    · intro b
      obtain ⟨rcs, heq⟩ := hbuf b
      exact (congrArg TxBuf.packet heq).trans (h.packet b)
    · rw [hnone]
      exact .nil
    · rw [hnone]
      simp

/-- What the move of a frame into the aggregate writes. -/
theorem aggrTake_spec (hcomp : (s.buf bf).bfComp = some .aggr) :
    ∃ s', aggrTake s k bf acc = some s' ∧ s'.cfg = s.cfg ∧
      (∃ handed, s'.tid k = { athTxAddtoBaw (s.tid k) (s.buf bf) with
        bufQ := (s.tid k).bufQ.tail, handed := handed }) ∧
      ∀ b, s'.buf b = { s.buf b with
        bfNdelim := if b = bf then aggrNdelim (s.buf bf) else (s.buf b).bfNdelim
        bfNext := if acc.bfQ.getLast? = some b then some bf else (s.buf b).bfNext } := by
  have hbufQ := (athTxAddtoBaw_keeps (s.tid k) (s.buf bf)).1
  have hbyte : aggrNdelim (s.buf bf) % 256 = aggrNdelim (s.buf bf) :=
    Nat.mod_eq_of_lt ((aggrNdelim_lt _).trans (by decide))
  set s₁ := bufQRemoveHead (s.modTid k fun tid => athTxAddtoBaw tid (s.buf bf)) k with hs₁
  have htid : s₁.tid k = { athTxAddtoBaw (s.tid k) (s.buf bf) with bufQ := (s.tid k).bufQ.tail } := by
    rw [hs₁, bufQRemoveHead, TxState.modTid_tid_self, TxState.modTid_tid_self, hbufQ]
  obtain ⟨handed, hlogged⟩ := logHanded_tid s₁ bf k
  refine ⟨_, by rw [aggrTake, if_pos hcomp], ?_, ⟨handed, ?_⟩, ?_⟩
  · rw [linkSubframe_cfg]
    exact logHanded_cfg s₁ bf
  · rw [linkSubframe_tid]
    exact hlogged.trans (by rw [htid])
  · intro b
    have hbuf : (logHanded s₁ bf).buf = s.buf := logHanded_buf s₁ bf
    have hmod : ((logHanded s₁ bf).modBuf bf fun b => { b with bfNdelim := aggrNdelim b % 256 }).buf b =
        { s.buf b with bfNdelim := if b = bf then aggrNdelim (s.buf bf) else (s.buf b).bfNdelim } := by
      rcases eq_or_ne b bf with rfl | hne
      · rw [TxState.modBuf_buf_self, hbuf, if_pos rfl, hbyte]
      · rw [TxState.modBuf_buf_of_ne _ _ _ hne, hbuf, if_neg hne]
    rw [linkSubframe_buf, hmod]
    by_cases hlast : acc.bfQ.getLast? = some b
    · rw [if_pos hlast, if_pos hlast]
    · rw [if_neg hlast, if_neg hlast]

/-- One more frame joins the aggregate. -/
theorem Filling.take {limit : ℕ} (h : Filling s₀ k limit acc s) (hform : Formable s₀ k)
    (hlimit : limit ≤ 65535) (hq : (s.tid k).bufQ = bf :: rest) (hrl : acc.rl = true)
    (hin : bawWithin (s.tid k).seqStart (s.tid k).bawSize (seqnoFromBfSeqno (s.buf bf).bfSeqno) = true)
    (hfull : aggrFull s k bf acc = false) :
    ∃ s', aggrTake s k bf acc = some s' ∧
      Filling s₀ k limit (acc.push bf (s.buf bf)) s' ∧ (s'.tid k).bufQ = rest := by
  have hmem : bf ∈ (s₀.tid k).bufQ := by
    rw [h.queue, hq]
    simp
  have hout : bf ∉ acc.bfQ ∧ acc.bfQ.Nodup := by
    have hnodup := hform.distinct
    rw [h.queue, hq] at hnodup
    have hsplit := List.nodup_append.mp hnodup
    exact ⟨fun hbf => hsplit.2.2 bf hbf bf List.mem_cons_self rfl, hsplit.1⟩
  have hpacket := h.packet bf
  simp only [TxBuf.packet, Prod.mk.injEq] at hpacket
  obtain ⟨hcomp, hlen, hseq, -, hretried⟩ := hpacket
  obtain ⟨s', htake : aggrTake s k bf acc = some s', hcfg, ⟨handed, htid⟩, hbuf⟩ :=
    aggrTake_spec (hcomp.trans (hform.aggr bf hmem))
  obtain ⟨hbufQ, hstart, hsize, hhead⟩ := athTxAddtoBaw_keeps (s.tid k) (s.buf bf)
  have htail : (s'.tid k).bufQ = rest := by
    rw [htid, hq]
    rfl
  have hstart' : (s'.tid k).seqStart = (s.tid k).seqStart := by rw [htid]; exact hstart
  have hhead' : (s'.tid k).bawHead = (s.tid k).bawHead := by rw [htid]; exact hhead
  have hbits' : ∀ i, (s.tid k).txBufBitmap i = true → (s'.tid k).txBufBitmap i = true := by
    intro i hi
    rw [htid]
    exact athTxAddtoBaw_bits _ hi
  have hinside : bawWithin (s₀.tid k).seqStart (s₀.tid k).bawSize
      (seqnoFromBfSeqno (s₀.buf bf).bfSeqno) = true := by
    rw [← h.seqStart, ← h.bawSize, ← hseq]
    exact hin
  have hmarked : (s'.tid k).Marked (seqnoFromBfSeqno (s₀.buf bf).bfSeqno) := by
    rw [htid, ← hseq]
    apply athTxAddtoBaw_marked
    intro hsent
    rw [hseq]
    rw [hretried] at hsent
    exact (hform.retried bf hmem hsent hinside).mono h.bawHead h.seqStart h.bits
  simp only [aggrFull, decide_eq_false_iff_not, not_or, not_and, not_lt, not_le] at hfull
  obtain ⟨hroom, hmore⟩ := hfull
  rw [h.asked hrl] at hroom
  rw [h.count] at hroom hmore
  refine ⟨s', htake, ⟨hcfg.trans h.cfg, ?_, hstart'.trans h.seqStart, ?_, hhead'.trans h.bawHead,
    fun i hi => hbits' i (h.bits i hi), ?_, ?_, ?_, ?_, ?_, ?_, ?_, ?_, ?_, fun _ => h.asked hrl,
    ?_⟩, htail⟩
  · rw [h.queue, hq, htail]
    exact List.append_cons acc.bfQ bf rest
  · rw [htid]
    exact hsize.trans h.bawSize
  · intro b
    exact (congrArg TxBuf.packet (hbuf b)).trans (h.packet b)
  · intro b hb
    rcases List.mem_append.mp hb with hb | hb
    · exact h.within b hb
    · rw [List.mem_singleton.mp hb]
      exact hinside
  · intro b hb
    rcases List.mem_append.mp hb with hb | hb
    · exact (h.marked b hb).mono hhead' hstart' hbits'
    · rw [List.mem_singleton.mp hb]
      exact hmarked
  · apply h.linked.snoc_last hout.2
    intro c _
    rw [hbuf c]
  · intro b hb
    rw [hbuf b]
    rcases eq_or_ne b bf with rfl | hne
    · exact (if_pos rfl).trans (aggrNdelim_congr (h.packet b))
    · have hb : b ∈ acc.bfQ := by
        rcases List.mem_append.mp hb with hb | hb
        · exact hb
        · exact absurd (List.mem_singleton.mp hb) hne
      exact (if_neg hne).trans (h.delims b hb)
  · rw [AggrAcc.push, List.length_append, List.length_singleton, h.count]
  · rw [AggrAcc.push, List.length_append, List.length_singleton, ← h.bawSize, ← h.cfg]
    exact hmore
  · intro hshort
    obtain ⟨hal, hseparated⟩ := h.length fun b hb => hshort b (List.mem_append_left _ hb)
    have hdelta : alDelta (s.buf bf) = delimited (s₀.buf bf) := by
      rw [alDelta, hlen]
      exact Nat.mod_eq_of_lt (hshort bf (List.mem_append_right _ (List.mem_singleton_self bf)))
    have hsum : acc.al + acc.bpad + alDelta (s.buf bf) = aggrLength s₀ (acc.bfQ ++ [bf]) := by
      rw [aggrLength_snoc, hseparated, hdelta]
    have hsmall : acc.al + acc.bpad + alDelta (s.buf bf) < 65536 := by
      rcases Nat.eq_zero_or_pos acc.bfQ.length with hzero | hpos
      · rw [hsum, List.eq_nil_of_length_eq_zero hzero, aggrLength_snoc, ← hdelta, alDelta]
        simp only [List.map_nil, List.sum_nil]
        omega
      · have hle := hroom hpos
        omega
    have hal' : (acc.push bf (s.buf bf)).al = aggrLength s₀ (acc.bfQ ++ [bf]) :=
      (Nat.mod_eq_of_lt hsmall).trans hsum
    have hpad : (acc.push bf (s.buf bf)).bpad = separation (s₀.buf bf) := by
      have hdelims := aggrNdelim_lt (s.buf bf)
      rw [separation, ← hdelta, ← aggrNdelim_congr (h.packet bf)]
      change ((4 - alDelta (s.buf bf) % 4) % 4 + aggrNdelim (s.buf bf) * 4) % 65536 = _
      omega
    refine ⟨hal', ?_⟩
    rw [hal', hpad, AggrAcc.push, aggrLength_snoc]
    simp only [List.map_append, List.sum_append, List.map_singleton, List.sum_singleton]
    omega
  · intro hunasked
    exact absurd (hrl.symm.trans hunasked) (by decide)
  · intro htwo
    rw [AggrAcc.push, List.length_append, List.length_singleton] at htwo
    have hle := hroom (by omega)
    exact (Nat.mod_le _ _).trans hle

/-- The loop takes frames until one does not fit. -/
theorem Filling.loop {limit : ℕ} (hform : Formable s₀ k) (hlimit : limit ≤ 65535)
    (h : Filling s₀ k limit acc s) (hq : (s.tid k).bufQ = rest) :
    ∃ status acc' s', formAggrLoop k rest acc s = some (status, acc', s') ∧
      Filling s₀ k limit acc' s' := by
  induction rest generalizing acc s with
  | nil => exact ⟨_, _, _, rfl, h⟩
  | cons bf rest ih =>
    rw [formAggrLoop]
    split
    case isFalse => exact ⟨_, _, _, rfl, h⟩
    case isTrue hin =>
      obtain ⟨hrated, hrl, htid⟩ := h.rate hq
      have hpacket := (hrated.packet bf).trans (h.packet bf).symm
      dsimp only
      split
      case isTrue => exact ⟨_, _, _, rfl, hrated⟩
      case isFalse hfull =>
        have hpush := AggrAcc.push_congr (aggrRate s k bf acc).1 bf hpacket
        simp only [TxBuf.packet, Prod.mk.injEq] at hpacket
        obtain ⟨s', htake, hfilling, hrest⟩ := hrated.take hform hlimit (by rw [htid]; exact hq) hrl
          (by rw [htid, hpacket.2.2.1]; exact hin) (by simpa using hfull)
        rw [htake, Option.bind_some, ← hpush]
        exact ih hfilling hrest

/-! ## The whole aggregate -/

/-- What the forming leaves, with the totals written to the first frame. -/
theorem athTgtTxFormAggr_filling (hform : Formable s k)
    (hq : (s.tid k).bufQ = first :: rest) :
    ∃ status acc s', athTgtTxFormAggr s k = some (status, acc.bfQ, s'.modBuf first fun b =>
        { b with bfAl := acc.al, bfNframes := acc.nframes }) ∧
      Filling s k (athLookupRate s k.1 first).1 acc s' := by
  have hstart := Filling.start s k
  rw [hq, List.headD_cons] at hstart
  obtain ⟨status, acc, s', hloop, hfilling⟩ := hstart.loop hform (aggrLimit_le _ _ _ _) hq
  refine ⟨status, acc, s', ?_, hfilling⟩
  rw [athTgtTxFormAggr, hq]
  dsimp only
  rw [hloop]
  rfl

theorem schedFormed_tid (s : TxState) (frames : List BufId) : (schedFormed s frames).tid = s.tid := by
  cases frames with
  | nil => rfl
  | cons bf more =>
    rw [schedFormed]
    split
    · rw [schedSingle, (athTgtTxqAddUcast_spares _ _).1]
      rfl
    · rw [schedAggregate, (athTgtTxqAddUcast_spares _ _).1]
      rfl

theorem TxState.modBuf_get {γ : Type} {f : TxBuf → TxBuf} (s : TxState) (g : TxBuf → γ)
    (hg : ∀ x, g (f x) = g x) (bf b : BufId) : g ((s.modBuf bf f).buf b) = g (s.buf b) := by
  rcases eq_or_ne b bf with rfl | hne
  · rw [modBuf_buf_self, hg]
  · rw [modBuf_buf_of_ne _ _ _ hne]

theorem schedSingle_bufs (s : TxState) (bf : BufId) : (schedSingle s bf).buf = (s.modBuf bf fun b =>
    { b with bfIsaggr := false, bfLastds := bf, bfNext := none }).buf :=
  (athTgtTxqAddUcast_spares _ _).2

theorem schedAggregate_bufs (s : TxState) (bf last : BufId) : ∃ lastds,
    (schedAggregate s bf last).buf =
      ((s.modBuf last fun b => { b with bfNext := none, bfNdelim := 0 }).modBuf bf fun b =>
        { b with bfIsaggr := true, bfLastds := lastds }).buf :=
  ⟨_, (athTgtTxqAddUcast_spares _ _).2⟩

theorem getLast?_cons_eq (bf : BufId) (more : List BufId) :
    (bf :: more).getLast? = some ((bf :: more).getLastD bf) := by
  rw [List.getLastD_eq_getLast?, List.getLast?_eq_getLast_of_ne_nil (List.cons_ne_nil _ _)]
  rfl

/-- What the last steps towards the hardware leave alone. -/
theorem schedFormed_get {γ : Type} (s : TxState) (frames : List BufId) (g : TxBuf → γ)
    (hset : ∀ x aggr lastds, g { x with bfIsaggr := aggr, bfLastds := lastds } = g x)
    (hnext : ∀ x, g { x with bfNext := none } = g x) {b : BufId}
    (hndelim : frames.getLast? = some b → ∀ x, g { x with bfNdelim := 0 } = g x) :
    g ((schedFormed s frames).buf b) = g (s.buf b) := by
  cases frames with
  | nil => rfl
  | cons bf more =>
    rw [schedFormed]
    split
    · rw [schedSingle_bufs]
      have hsingle : ∀ x : TxBuf,
          g { x with bfIsaggr := false, bfLastds := bf, bfNext := none } = g x :=
        fun x => (hnext { x with bfIsaggr := false, bfLastds := bf }).trans (hset x false bf)
      exact s.modBuf_get g hsingle bf b
    · obtain ⟨lastds, hbufs⟩ := schedAggregate_bufs s bf ((bf :: more).getLastD bf)
      have hfirst : ∀ x : TxBuf, g { x with bfIsaggr := true, bfLastds := lastds } = g x :=
        fun x => hset x true lastds
      rw [hbufs, TxState.modBuf_get _ g hfirst]
      rcases eq_or_ne b ((bf :: more).getLastD bf) with rfl | hne
      · have hlast : ∀ x : TxBuf, g { x with bfNext := none, bfNdelim := 0 } = g x :=
          fun x => (hndelim (getLast?_cons_eq bf more) { x with bfNext := none }).trans (hnext x)
        exact s.modBuf_get g hlast _ _
      · rw [TxState.modBuf_buf_of_ne _ _ _ hne]

/-- The last frame links to none. -/
theorem schedFormed_next (hcount : ∀ bf ∈ frames.head?, (s.buf bf).bfNframes = frames.length)
    (b : BufId) : ((schedFormed s frames).buf b).bfNext =
      if frames.getLast? = some b then none else (s.buf b).bfNext := by
  cases frames with
  | nil => rfl
  | cons bf more =>
    rw [schedFormed, hcount bf rfl, getLast?_cons_eq]
    split
    case isTrue hone =>
      obtain rfl : more = [] := by simpa using hone
      rw [schedSingle_bufs]
      rcases eq_or_ne b bf with rfl | hne
      · rw [TxState.modBuf_buf_self]
        exact (if_pos rfl).symm
      · rw [TxState.modBuf_buf_of_ne _ _ _ hne]
        exact (if_neg fun h => hne (Option.some.inj h).symm).symm
    case isFalse =>
      obtain ⟨lastds, hbufs⟩ := schedAggregate_bufs s bf ((bf :: more).getLastD bf)
      have hfirst : ∀ x : TxBuf, { x with bfIsaggr := true, bfLastds := lastds }.bfNext = x.bfNext :=
        fun _ => rfl
      rw [hbufs, TxState.modBuf_get _ (·.bfNext) hfirst]
      rcases eq_or_ne b ((bf :: more).getLastD bf) with rfl | hne
      · rw [TxState.modBuf_buf_self, if_pos rfl]
      · rw [TxState.modBuf_buf_of_ne _ _ _ hne, if_neg fun h => hne (Option.some.inj h).symm]

/-- One `ath_tgt_tx_form_aggr` and what `ath_tgt_tx_sched_aggr` does with its frames. -/
theorem aggregate_formed (hform : Formable s k)
    (hq : (s.tid k).bufQ = first :: rest) :
    ∃ status frames formed, athTgtTxFormAggr s k = some (status, frames, formed) ∧
      AggregateOf s k first frames (schedFormed formed frames) := by
  obtain ⟨status, acc, s', hformed, h⟩ := athTgtTxFormAggr_filling hform hq
  refine ⟨status, acc.bfQ, _, hformed, ?_⟩
  set formed := s'.modBuf first fun b => { b with bfAl := acc.al, bfNframes := acc.nframes }
    with hf
  have hhead : ∀ bf ∈ acc.bfQ.head?, bf = first := by
    intro bf hbf
    have hqueue := h.queue
    rw [hq] at hqueue
    cases hacc : acc.bfQ with
    | nil =>
      rw [hacc] at hbf
      cases hbf
    | cons a l =>
      rw [hacc] at hbf hqueue
      rw [(List.cons.inj hqueue).1]
      exact (Option.some.inj hbf).symm
  have hkept : ∀ {γ : Type} (g : TxBuf → γ) (b : BufId),
      (∀ x, g { x with bfAl := acc.al, bfNframes := acc.nframes } = g x) →
      g (formed.buf b) = g (s'.buf b) := fun g b hg => s'.modBuf_get g hg first b
  have hself : formed.buf first = { s'.buf first with bfAl := acc.al, bfNframes := acc.nframes } :=
    s'.modBuf_buf_self first _
  have hcount : ∀ bf ∈ acc.bfQ.head?, (formed.buf bf).bfNframes = acc.bfQ.length := by
    intro bf hbf
    rw [hhead bf hbf, hself]
    exact h.count
  have hnodup : acc.bfQ.Nodup := by
    have hnodup := hform.distinct
    rw [h.queue] at hnodup
    exact (List.nodup_append.mp hnodup).1
  have htid : (schedFormed formed acc.bfQ).tid = s'.tid := schedFormed_tid formed acc.bfQ
  have hget : ∀ {γ : Type} (g : TxBuf → γ) (b : BufId),
      (∀ x aggr lastds, g { x with bfIsaggr := aggr, bfLastds := lastds } = g x) →
      (∀ x, g { x with bfNext := none } = g x) → (∀ x, g { x with bfNdelim := 0 } = g x) →
      g ((schedFormed formed acc.bfQ).buf b) = g (formed.buf b) :=
    fun g b hset hnext hndelim => schedFormed_get formed acc.bfQ g hset hnext fun _ => hndelim
  have hseq : ∀ b, ((schedFormed formed acc.bfQ).buf b).bfSeqno = (s.buf b).bfSeqno := by
    intro b
    have hpacket := (hkept TxBuf.packet b fun _ => rfl).trans (h.packet b)
    simp only [TxBuf.packet, Prod.mk.injEq] at hpacket
    exact (hget (·.bfSeqno) b (fun _ _ _ => rfl) (fun _ => rfl) fun _ => rfl).trans hpacket.2.2.1
  have hal : ((schedFormed formed acc.bfQ).buf first).bfAl = acc.al :=
    (hget (·.bfAl) first (fun _ _ _ => rfl) (fun _ => rfl) fun _ => rfl).trans (by rw [hself])
  refine ⟨?_, ?_, ?_, ?_, h.bounded, ?_, ?_, ?_, ?_⟩
  · rw [htid]
    exact h.queue
  · intro bf hbf
    rw [htid, hseq, h.seqStart, h.bawSize]
    exact h.within bf hbf
  · intro bf hbf
    rw [htid, hseq]
    exact h.marked bf hbf
  · rw [hget (·.bfNframes) first (fun _ _ _ => rfl) (fun _ => rfl) (fun _ => rfl), hself]
    exact h.count
  · have hnext : ∀ b, (formed.buf b).bfNext = (s'.buf b).bfNext :=
      fun b => hkept (·.bfNext) b fun _ => rfl
    rcases List.eq_nil_or_concat acc.bfQ with hnil | ⟨init, last, hsplit⟩
    · rw [hnil]
      rfl
    · rw [List.concat_eq_append] at hsplit
      have hlinked := h.linked
      rw [hsplit] at hlinked hnodup
      have hend : ((schedFormed formed acc.bfQ).buf last).bfNext = none := by
        rw [schedFormed_next hcount, hsplit, List.getLast?_concat, if_pos rfl]
      have hothers : ∀ c ∈ init, ((schedFormed formed acc.bfQ).buf c).bfNext =
          (formed.buf c).bfNext := by
        intro c hc
        have hne : last ≠ c := by
          rintro rfl
          exact (List.nodup_append.mp hnodup).2.2 last hc last List.mem_cons_self rfl
        rw [schedFormed_next hcount, hsplit, List.getLast?_concat,
          if_neg fun h => hne (Option.some.inj h)]
      have hkept : ∀ c ∈ init, ((schedFormed formed acc.bfQ).buf c).bfNext = (s'.buf c).bfNext :=
        fun c hc => (hothers c hc).trans (hnext c)
      have hchain : Chain (fun b => ((schedFormed formed acc.bfQ).buf b).bfNext)
          (init ++ [last]).head? (init ++ [last]) := hlinked.chain hend hkept
      rwa [← hsplit] at hchain
  · intro bf hbf
    have hlast : acc.bfQ.getLast? ≠ some bf := by
      intro hlast
      obtain ⟨init, hsplit⟩ := List.getLast?_eq_some_iff.mp hlast
      rw [hsplit, List.dropLast_concat] at hbf
      rw [hsplit] at hnodup
      exact (List.nodup_append.mp hnodup).2.2 bf hbf bf List.mem_cons_self rfl
    rw [schedFormed_get formed acc.bfQ (·.bfNdelim) (fun _ _ _ => rfl) (fun _ => rfl)
      fun h => absurd h hlast]
    exact (hkept (·.bfNdelim) bf fun _ => rfl).trans
      (h.delims bf (List.mem_of_mem_dropLast hbf))
  · intro hshort
    rw [hal]
    exact (h.length hshort).1
  · intro htwo
    rw [hal]
    exact h.limited htwo

/-- A round of `ath_tgt_tx_sched_aggr` is the forming of an aggregate and what is done with it. -/
theorem schedAggrLoop_succ (n : ℕ) (hq : (s.tid k).bufQ ≠ []) :
    schedAggrLoop k (n + 1) s = (athTgtTxFormAggr s k).bind fun r =>
      if r.2.1 ≠ [] ∧ ((schedFormed r.2.2 r.2.1).txq (tidToActxq k.2)).axqDepth < athAggrMinQdepth ∧
          r.1 ≠ .bawClosed then schedAggrLoop k n (schedFormed r.2.2 r.2.1)
      else some (schedFormed r.2.2 r.2.1) := by
  rw [schedAggrLoop, if_neg hq]
  congr
  funext r
  obtain ⟨status, frames, formed⟩ := r
  cases frames with
  | nil => rfl
  | cons bf more => simp [schedFormed]

end

/-- In a run the frames of a TID are there to be aggregated, unless a cleanup is under way. -/
theorem formable_of_reachable {t : Tier} {sc : Softc} {k : TidId}
    (h : transmit.ReachableWhere (Disciplined t) sc)
    (hc : (sc.tx.tid k).cleanupInprogres = false) : Formable sc.tx k := by
  obtain ⟨⟨lost, hfine⟩, hsound⟩ := reachable_sound h
  obtain ⟨R, F, n, hsound⟩ := hsound k
  have hwf := hfine.wf
  refine ⟨?_, fun bf hbf => (hwf.queued k bf hbf).comp, ?_⟩
  · have hqueued : ((sc.tx.tid k).bufQ : Multiset BufId) ≤ sc.tx.ledger.queued := by
      have hsplit := gather_update (fun k => (sc.tx.ledger.tid k).bufQ) k []
      rw [Multiset.coe_nil, add_zero] at hsplit
      rw [Ledger.queued, ← hsplit]
      exact Multiset.le_add_left _ _
    have htotal := (Multiset.nodup_add.mp hwf.nodup).2.1
    have hplaces := (Multiset.nodup_add.mp (Multiset.nodup_add.mp htotal).1).2.1
    exact Multiset.coe_nodup.mp (Multiset.nodup_of_le hqueued hplaces)
  · intro bf hbf hsent _
    have hwaits : frameOf (sc.tx.buf bf) ∈ R ++ F := by
      rw [← hsound.queue_eq]
      exact List.mem_map_of_mem hbf
    have hR : frameOf (sc.tx.buf bf) ∈ R := by
      rcases List.mem_append.mp hwaits with hR | hF
      · exact hR
      · exact absurd (hsound.fresh _ hF) (by simp [frameOf, hsent])
    have hmem : seqnoFromBfSeqno (sc.tx.buf bf).bfSeqno ∈ (sc.tx.view k).numbers R := by
      rw [Session.numbers, Multiset.map_add]
      exact Multiset.mem_add.mpr (.inr (Multiset.mem_map_of_mem Frame.seq (Multiset.mem_coe.mpr hR)))
    exact (hsound.holds hc).marked _ hmem

/-- Behind a frame at the hardware two more wait. -/
theorem aggregate_formed_two : ∃ sc : Softc, (sc.tx.tid (0, 0)).bufQ = [2, 3] ∧
    ∃ status frames formed, athTgtTxFormAggr sc.tx (0, 0) = some (status, frames, formed) ∧
      AggregateOf sc.tx (0, 0) 2 frames (schedFormed formed frames) := by
  obtain ⟨sc, steps, hq, hc⟩ := Machine.exists_of_runWhere transmit.Init step (Disciplined .clear)
    (P := fun sc => (sc.tx.tid (0, 0)).bufQ = [2, 3] ∧
      (sc.tx.tid (0, 0)).cleanupInprogres = false) (s := attach smallConfig steadyAnswers)
    [.icUpdate 65535 false, .nodeCreate (createNode 0), .enableAggr 0 0 true,
      .recvData 0 (dataTo 0) blankFrame, .recvData 0 (dataTo 0) blankFrame,
      .recvData 0 (dataTo 0) blankFrame] (by decide +kernel)
  exact ⟨sc, hq, aggregate_formed (formable_of_reachable ⟨_, ⟨_, _, by decide, rfl⟩, steps⟩ hc) hq⟩

/-- A TID with one frame of a given length in its queue. -/
def waitingFrame (pktlen : ℕ) : TxState :=
  ((attachTx smallConfig steadyAnswers).modTid (0, 0) fun tid =>
    { owlTgtTidInit tid with bufQ := [2] }).modBuf 2 fun b =>
      { b with bfComp := some .aggr, bfPktlen := pktlen }

theorem formable_waitingFrame (pktlen : ℕ) : Formable (waitingFrame pktlen) (0, 0) where
  distinct := List.nodup_singleton 2
  aggr := by
    intro bf hbf
    rw [List.mem_singleton.mp hbf]
    rfl
  retried := by
    intro bf hbf hsent
    rw [List.mem_singleton.mp hbf] at hsent
    cases hsent

/-- A frame of 65532 bytes makes an aggregate of length 0. -/
theorem long_frame_truncated : ¬ ∀ s k first rest, Formable s k → (s.tid k).bufQ = first :: rest →
    ∃ status frames formed, athTgtTxFormAggr s k = some (status, frames, formed) ∧
      ((schedFormed formed frames).buf first).bfAl = aggrLength s frames := by
  intro hall
  obtain ⟨status, frames, formed, hformed, hal⟩ :=
    hall _ (0, 0) 2 [] (formable_waitingFrame 65532) rfl
  have hframes : (athTgtTxFormAggr (waitingFrame 65532) (0, 0)).map (fun r => r.2.1) = some [2] := by
    decide +kernel
  have hlen : (athTgtTxFormAggr (waitingFrame 65532) (0, 0)).map
      (fun r => ((schedFormed r.2.2 r.2.1).buf 2).bfAl) = some 0 := by decide +kernel
  rw [hformed] at hframes hlen
  obtain rfl : frames = [2] := Option.some.inj hframes
  exact absurd ((Option.some.inj hlen).symm.trans hal) (by decide +kernel)

end Ath9kHtc.Tx
