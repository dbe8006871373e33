import Ath9kHtc.Tx.Formation
import Ath9kHtc.Tx.FrameDescriptors

/-!
# The descriptors of aggregates

What `ath_tgt_tx_form_aggr` and `ath_tgt_tx_sched_aggr` write to the descriptors of the frames they
take off the queue of a TID, and what the hardware makes of them.
-/

namespace Ath9kHtc.Tx

open BitField

/-! ## Aggregates as the hardware reads them -/

namespace TxOrder

/-- A delimiter and the frame. -/
def subframe (o : TxOrder) : ℕ := 4 + o.frameLen.toNat

/-- From one delimiter to that of the next frame. -/
def stride (o : TxOrder) : ℕ := o.subframe + (4 - o.subframe % 4) % 4 + 4 * o.padDelim.toNat

end TxOrder

/-- The length of the frames with their delimiters and padding. -/
def ampduLength : List TxOrder → ℕ
  | [] => 0
  | [o] => o.subframe
  | o :: next :: more => o.stride + ampduLength (next :: more)

/-- The hardware sends the frames as one aggregate and knows its length from the start. -/
structure Ampdu (orders : List TxOrder) : Prop where
  several : 2 ≤ orders.length
  isAggr : ∀ o ∈ orders, o.isAggr = true
  more : ∀ o ∈ orders.dropLast, o.moreAggr = true
  ends : ∀ o ∈ orders.getLast?, o.moreAggr = false ∧ o.padDelim = 0
  length : ∀ o ∈ orders.head?, o.aggrLen.toNat = ampduLength orders
  spaced : ∀ o ∈ orders.dropLast, 256 ≤ o.stride

/-- The hardware sends a frame of its own or an aggregate. -/
def OnAir (orders : List TxOrder) : Prop :=
  (∃ o, orders = [o] ∧ o.Placed .alone) ∨ Ampdu orders

/-! ## The calls -/

/-- The descriptors of the transmit buffers, one for each. -/
abbrev Descriptors := BufId → Ar5416Desc

namespace Descriptors

variable (hw : Descriptors)

def call (bf : BufId) (c : HalCall) : Descriptors := Function.update hw bf (c.run (hw bf))

/-- A call on each descriptor from `bf_desc` to `bf_lastds`, which lie one behind the other. -/
def callUpTo (bf lastds : BufId) (c : HalCall) : Descriptors :=
  fun b => if bf ≤ b ∧ b ≤ lastds then c.run (hw b) else hw b

end Descriptors

/-- The calls of `ath_tgt_tx_form_aggr` on the frames it takes. -/
def markTaken (s : TxState) (frames : List BufId) (hw : Descriptors) : Descriptors :=
  frames.foldl (fun hw bf => hw.callUpTo bf (s.buf bf).bfLastds
    (.set11nAggrMiddle (BitVec.ofNat 32 (s.buf bf).bfNdelim))) hw

/-- The calls of `ath_tgt_tx_sched_aggr` on the frames formed; `rates` is that of
`ath_buf_set_rate`. -/
def markFormed (rates : HalCall) (s : TxState) (frames : List BufId) (hw : Descriptors) :
    Descriptors :=
  match frames with
  | [] => hw
  | bf :: more =>
    if (s.buf bf).bfNframes = 1 then (hw.callUpTo bf bf .clr11nAggr).call bf rates
    else
      let last := (bf :: more).getLastD bf
      let s := s.modBuf last fun b => { b with bfNext := none, bfNdelim := 0 }
      ((hw.call bf rates).call bf (.set11nAggrFirst (BitVec.ofNat 32 (s.buf bf).bfAl)
        (BitVec.ofNat 32 (s.buf bf).bfNdelim))).call last .set11nAggrLast

/-- The loop of `ath_tgt_tx_sched_aggr` with the descriptors, and what went to the hardware. -/
def schedAggrRounds (rates : TxState → BufId → HalCall) (k : TidId) :
    ℕ → TxState → Descriptors → Option (List (List BufId) × TxState × Descriptors)
  | 0, s, hw => some ([], s, hw)
  | n + 1, s, hw =>
    if (s.tid k).bufQ = [] then some ([], s, hw)
    else
      (athTgtTxFormAggr s k).bind fun r =>
        if r.2.1 = [] then some ([], r.2.2, hw)
        else
          let s' := schedFormed r.2.2 r.2.1
          let hw' := markFormed (rates r.2.2 (r.2.1.headD 0)) r.2.2 r.2.1 (markTaken r.2.2 r.2.1 hw)
          if (s'.txq (tidToActxq k.2)).axqDepth < athAggrMinQdepth ∧ r.1 ≠ .bawClosed then
            (schedAggrRounds rates k n s' hw').map fun q => (r.2.1 :: q.1, q.2)
          else some ([r.2.1], s', hw')

/-- The descriptor of a frame is that of its buffer, as `ath_tx_tgt_setds` left it. -/
structure Programmed (fields : BufId → FrameFields) (s : TxState) (hw : Descriptors) (bf : BufId) :
    Prop where
  carries : Carries (fields bf) (hw bf).order
  pktlen : (fields bf).bfPktlen.toNat = (s.buf bf).bfPktlen
  short : (s.buf bf).bfPktlen < 4096
  lastds : (s.buf bf).bfLastds = bf

section

variable {s s' : TxState} {k : TidId} {bf first last : BufId} {frames init mid : List BufId}
  {hw : Descriptors} {rates : HalCall} {fields : BufId → FrameFields} {acc : AggrAcc}

@[simp]
theorem Descriptors.call_self (c : HalCall) : hw.call bf c bf = c.run (hw bf) :=
  Function.update_self ..

theorem Descriptors.call_of_ne {b : BufId} (c : HalCall) (h : b ≠ bf) : hw.call bf c b = hw b :=
  Function.update_of_ne h ..

/-- A frame has one descriptor. -/
theorem Descriptors.callUpTo_own (c : HalCall) : hw.callUpTo bf bf c = hw.call bf c := by
  funext b
  rw [callUpTo]
  rcases eq_or_ne b bf with rfl | hne
  · rw [if_pos ⟨le_refl b, le_refl b⟩, call_self]
  · rw [if_neg fun h => hne (le_antisymm h.2 h.1), call_of_ne c hne]

/-- The descriptors of the frames had calls that a data frame can have, and the others none. -/
def Touched (frames : List BufId) (hw hw' : Descriptors) : Prop :=
  ∀ b, ∃ calls : List HalCall, (∀ c ∈ calls, c.Later) ∧ (b ∉ frames → calls = []) ∧
    hw' b = runCalls calls (hw b)

namespace Touched

variable {hw' hw'' : Descriptors}

theorem refl (frames : List BufId) (hw : Descriptors) : Touched frames hw hw :=
  fun _ => ⟨[], fun _ hc => absurd hc List.not_mem_nil, fun _ => rfl, rfl⟩

theorem trans (h : Touched frames hw hw') (h' : Touched frames hw' hw'') :
    Touched frames hw hw'' := by
  intro b
  obtain ⟨calls, hlater, hnone, heq⟩ := h b
  obtain ⟨calls', hlater', hnone', heq'⟩ := h' b
  refine ⟨calls ++ calls', ?_, ?_, ?_⟩
  · intro c hc
    rcases List.mem_append.mp hc with hc | hc
    · exact hlater c hc
    · exact hlater' c hc
  · intro hb
    rw [hnone hb, hnone' hb, List.append_nil]
  · rw [heq', heq]
    exact List.foldl_append.symm

theorem call {c : HalCall} (hbf : bf ∈ frames) (hc : c.Later) (hw : Descriptors) :
    Touched frames hw (hw.call bf c) := by
  intro b
  rcases eq_or_ne b bf with rfl | hne
  · refine ⟨[c], ?_, fun hb => absurd hbf hb, Descriptors.call_self c⟩
    intro c' hc'
    rw [List.mem_singleton.mp hc']
    exact hc
  · exact ⟨[], fun _ hc => absurd hc List.not_mem_nil, fun _ => rfl, Descriptors.call_of_ne c hne⟩

theorem mono {all : List BufId} (h : Touched frames hw hw') (hsub : ∀ bf ∈ frames, bf ∈ all) :
    Touched all hw hw' := by
  intro b
  obtain ⟨calls, hlater, hnone, heq⟩ := h b
  exact ⟨calls, hlater, fun hb => hnone fun hin => hb (hsub b hin), heq⟩

/-- The frame in the buffer is still the one the hardware is told of. -/
theorem carries {f : FrameFields} {b : BufId} (h : Touched frames hw hw')
    (hcarries : Carries f (hw b).order) : Carries f (hw' b).order := by
  obtain ⟨calls, hlater, -, heq⟩ := h b
  rw [heq, order_runCalls fun c hc => fits_of_later (hlater c hc)]
  exact orderCalls_keeps (P := Carries f) (fun c hc o hkept => hkept.later (hlater c hc)) hcarries

theorem eq_of_notMem {b : BufId} (h : Touched frames hw hw') (hb : b ∉ frames) : hw' b = hw b := by
  obtain ⟨calls, -, hnone, heq⟩ := h b
  rw [heq, hnone hb]
  rfl

end Touched

/-- Each frame is marked once, and no other. -/
theorem markTaken_apply (hnodup : frames.Nodup) (hown : ∀ bf ∈ frames, (s.buf bf).bfLastds = bf)
    (hw : Descriptors) (b : BufId) :
    markTaken s frames hw b =
      if b ∈ frames then
        (HalCall.set11nAggrMiddle (BitVec.ofNat 32 (s.buf b).bfNdelim)).run (hw b)
      else hw b := by
  induction frames generalizing hw with
  | nil => rfl
  | cons bf frames ih =>
      obtain ⟨hout, hnodup⟩ := List.nodup_cons.mp hnodup
      have hrest := ih hnodup fun c hc => hown c (List.mem_cons_of_mem _ hc)
      rw [markTaken, List.foldl_cons, hown bf List.mem_cons_self, Descriptors.callUpTo_own]
      refine (hrest _).trans ?_
      rcases eq_or_ne b bf with rfl | hne
      · rw [if_neg hout, if_pos List.mem_cons_self, Descriptors.call_self]
      · rw [Descriptors.call_of_ne _ hne]
        simp only [List.mem_cons, hne, false_or]

theorem ampduLength_snoc (init : List TxOrder) (last : TxOrder) :
    ampduLength (init ++ [last]) = (init.map TxOrder.stride).sum + last.subframe := by
  induction init with
  | nil => exact (Nat.zero_add _).symm
  | cons o init ih =>
      rw [List.map_cons, List.sum_cons, Nat.add_assoc, ← ih]
      cases init <;> rfl

theorem HalCall.IsRates.eq {c : HalCall} (h : c.IsRates = true) :
    ∃ en rate series flags, c = .set11nRateScenario en rate series flags := by
  cases c <;> cases h
  exact ⟨_, _, _, _, rfl⟩

/-- The last steps touch the first frame and the last. -/
theorem markFormed_several (hframes : frames = first :: mid ++ [last])
    (hcount : (s.buf first).bfNframes ≠ 1) (hne : first ≠ last) (b : BufId) :
    markFormed rates s frames hw b =
      if b = last then HalCall.set11nAggrLast.run (hw b)
      else if b = first then
        (HalCall.set11nAggrFirst (BitVec.ofNat 32 (s.buf first).bfAl)
          (BitVec.ofNat 32 (s.buf first).bfNdelim)).run (rates.run (hw b))
      else hw b := by
  have hlast : (first :: (mid ++ [last])).getLastD first = last := by
    rw [List.getLastD_cons, List.getLastD_concat]
  rw [hframes, List.cons_append, markFormed, if_neg hcount, hlast, TxState.modBuf_buf_of_ne _ _ _ hne]
  split
  case isTrue hb =>
    rw [hb, Descriptors.call_self, Descriptors.call_of_ne _ hne.symm,
      Descriptors.call_of_ne _ hne.symm]
  case isFalse hb =>
    rw [Descriptors.call_of_ne _ hb]
    split
    case isTrue hfirst =>
      rw [hfirst, Descriptors.call_self, Descriptors.call_self]
    case isFalse hfirst =>
      rw [Descriptors.call_of_ne _ hfirst, Descriptors.call_of_ne _ hfirst]

/-! ## Numbers of the descriptor -/

theorem frameLen_of_programmed (h : Programmed fields s hw bf) :
    (hw bf).order.frameLen.toNat = (s.buf bf).bfPktlen := by
  have hwide : arFrameLen.Wide 12 := by decide
  rw [h.carries.frameLen, hwide.cut_of_lt (lt_of_eq_of_lt h.pktlen h.short), h.pktlen]

theorem padDelim_cut {n : ℕ} (h : n < 256) :
    (arPadDelim.cut (BitVec.ofNat 32 n)).toNat = n := by
  have hwide : arPadDelim.Wide 8 := by decide
  have hn : (BitVec.ofNat 32 n).toNat = n := by
    rw [BitVec.toNat_ofNat]
    omega
  rw [hwide.cut_of_lt (lt_of_eq_of_lt hn h), hn]

theorem aggrLen_cut {n : ℕ} (h : n < 65536) : (arAggrLen.cut (BitVec.ofNat 32 n)).toNat = n := by
  have hwide : arAggrLen.Wide 16 := by decide
  have hn : (BitVec.ofNat 32 n).toNat = n := by
    rw [BitVec.toNat_ofNat]
    omega
  rw [hwide.cut_of_lt (lt_of_eq_of_lt hn h), hn]

/-- The delimiters keep the frames 256 bytes apart. -/
theorem spaced_of_ndelim (b : TxBuf) : 256 ≤ delimited b + separation b := by
  have hndelim : delimited b < 256 → (256 - delimited b) / 4 ≤ aggrNdelim b := by
    intro hshort
    rw [delimited] at hshort
    unfold aggrNdelim
    dsimp only
    rw [if_pos (by omega), delimited]
    omega
  rw [separation]
  omega

/-! ## One round -/

theorem aggrTake_lastds (h : aggrTake s k bf acc = some s') (b : BufId) :
    (s'.buf b).bfLastds = (s.buf b).bfLastds := by
  have hcomp : (s.buf bf).bfComp = some .aggr := by
    rw [aggrTake] at h
    dsimp only at h
    split at h
    · assumption
    · cases h
  obtain ⟨s'', htake : aggrTake s k bf acc = some s'', -, -, hbuf⟩ := aggrTake_spec hcomp
  obtain rfl := Option.some.inj (h.symm.trans htake)
  rw [hbuf b]

theorem aggrRate_lastds (b : BufId) :
    ((aggrRate s k bf acc).2.buf b).bfLastds = (s.buf b).bfLastds := by
  rw [aggrRate]
  split
  · rfl
  · obtain ⟨rcs, heq⟩ := lookupRate_buf s k.1 bf b
    have hlastds := congrArg TxBuf.bfLastds heq
    exact hlastds

theorem formAggrLoop_lastds {l : List BufId} {status : AggrStatus} {acc' : AggrAcc}
    (h : formAggrLoop k l acc s = some (status, acc', s')) (b : BufId) :
    (s'.buf b).bfLastds = (s.buf b).bfLastds := by
  induction l generalizing acc s with
  | nil =>
      cases h
      rfl
  | cons bf l ih =>
      rw [formAggrLoop] at h
      split at h
      · dsimp only at h
        split at h
        · cases h
          exact aggrRate_lastds b
        · obtain ⟨s₁, htake, hrest⟩ := Option.bind_eq_some_iff.mp h
          exact (ih hrest).trans ((aggrTake_lastds htake b).trans (aggrRate_lastds b))
      · cases h
        rfl

theorem athTgtTxFormAggr_lastds {status : AggrStatus} {formed : TxState}
    (h : athTgtTxFormAggr s k = some (status, frames, formed)) (b : BufId) :
    (formed.buf b).bfLastds = (s.buf b).bfLastds := by
  rw [athTgtTxFormAggr] at h
  split at h
  · cases h
  · obtain ⟨⟨status', acc', s'⟩, hloop, heq⟩ := Option.map_eq_some_iff.mp h
    cases heq
    have hset : ∀ x : TxBuf,
        { x with bfAl := acc'.al, bfNframes := acc'.nframes }.bfLastds = x.bfLastds := fun _ => rfl
    rw [TxState.modBuf_get _ (·.bfLastds) hset]
    exact formAggrLoop_lastds hloop b

/-- What the descriptors need to know of the frames formed. -/
structure FormedFrames (s formed : TxState) (frames : List BufId) : Prop where
  nodup : frames.Nodup
  lastds : ∀ bf ∈ frames, (formed.buf bf).bfLastds = bf
  count : ∀ bf ∈ frames.head?, (formed.buf bf).bfNframes = frames.length
  ndelim : ∀ bf ∈ frames, (formed.buf bf).bfNdelim = aggrNdelim (s.buf bf)
  al : ∀ bf ∈ frames.head?, (formed.buf bf).bfAl = aggrLength s frames
  small : aggrLength s frames < 65536

/-- What a frame in an aggregate says of itself, in front of another frame or at the end. -/
structure InAmpdu (b : TxBuf) (o : TxOrder) : Prop where
  isAggr : o.isAggr = true
  subframe : o.subframe = delimited b
  more : o.moreAggr = true
  stride : o.stride = delimited b + separation b

theorem InAmpdu.of_order {b : TxBuf} {o : TxOrder} (haggr : o.isAggr = true)
    (hmore : o.moreAggr = true) (hlen : o.frameLen.toNat = b.bfPktlen)
    (hpad : o.padDelim = arPadDelim.cut (BitVec.ofNat 32 (aggrNdelim b))) : InAmpdu b o := by
  have hsub : o.subframe = delimited b := by rw [TxOrder.subframe, hlen, delimited]
  refine ⟨haggr, hsub, hmore, ?_⟩
  rw [TxOrder.stride, hsub, hpad, padDelim_cut ((aggrNdelim_lt b).trans (by decide)), separation,
    Nat.add_assoc]

/-- The first frame, those between and the last make an aggregate. -/
theorem ampdu_of_frames {o : BufId → TxOrder} (hinit : init ≠ [])
    (hin : ∀ bf ∈ init, InAmpdu (s.buf bf) (o bf))
    (hlast : (o last).Placed .last ∧ (o last).subframe = delimited (s.buf last))
    (hal : ∀ bf ∈ init.head?, (o bf).aggrLen.toNat = aggrLength s (init ++ [last])) :
    Ampdu ((init ++ [last]).map o) := by
  have hsplit : (init ++ [last]).map o = init.map o ++ [o last] := by
    rw [List.map_append, List.map_singleton]
  have hlength : ampduLength ((init ++ [last]).map o) = aggrLength s (init ++ [last]) := by
    have hstrides : (init.map o).map TxOrder.stride =
        init.map fun bf => delimited (s.buf bf) + separation (s.buf bf) := by
      rw [List.map_map]
      exact List.map_congr_left fun bf hbf => (hin bf hbf).stride
    rw [hsplit, ampduLength_snoc, hstrides, hlast.2, aggrLength_snoc, List.sum_map_add]
  refine ⟨?_, ?_, ?_, ?_, ?_, ?_⟩
  · have hpos := List.length_pos_iff.mpr hinit
    rw [List.length_map, List.length_append, List.length_singleton]
    omega
  · rw [hsplit]
    intro x hx
    rcases List.mem_append.mp hx with hx | hx
    · obtain ⟨bf, hbf, rfl⟩ := List.mem_map.mp hx
      exact (hin bf hbf).isAggr
    · rw [List.mem_singleton.mp hx]
      exact hlast.1.1
  · rw [hsplit, List.dropLast_concat]
    intro x hx
    obtain ⟨bf, hbf, rfl⟩ := List.mem_map.mp hx
    exact (hin bf hbf).more
  · rw [hsplit, List.getLast?_concat]
    intro x hx
    rw [← Option.some.inj hx]
    exact hlast.1.2
  · rw [hlength]
    intro x hx
    obtain ⟨bf, more, rfl⟩ := List.exists_cons_of_ne_nil hinit
    rw [← Option.some.inj hx]
    exact hal bf rfl
  · rw [hsplit, List.dropLast_concat]
    intro x hx
    obtain ⟨bf, hbf, rfl⟩ := List.mem_map.mp hx
    rw [(hin bf hbf).stride]
    exact spaced_of_ndelim (s.buf bf)

namespace FormedFrames

variable {formed : TxState} {rest : List BufId} (h : FormedFrames s formed frames)

include h

/-- A frame that is marked as one of an aggregate. -/
theorem marked (hbf : bf ∈ frames) :
    (markTaken formed frames hw bf).order =
      (HalCall.set11nAggrMiddle (BitVec.ofNat 32 (aggrNdelim (s.buf bf)))).order (hw bf).order := by
  rw [markTaken_apply h.nodup h.lastds, if_pos hbf, h.ndelim bf hbf]
  exact HalCall.order_run _ trivial

theorem marked_inAmpdu (hprog : Programmed fields s hw bf) (hbf : bf ∈ frames) :
    InAmpdu (s.buf bf) (markTaken formed frames hw bf).order := by
  rw [h.marked hbf]
  exact .of_order rfl rfl (frameLen_of_programmed hprog) rfl

/-- A frame of its own is taken out again. -/
theorem onAir_single (hrates : rates.IsRates = true) (hone : frames = [first]) :
    OnAir (frames.map fun bf => (markFormed rates formed frames (markTaken formed frames hw)
      bf).order) := by
  subst hone
  obtain ⟨en, rate, series, flags, rfl⟩ := HalCall.IsRates.eq hrates
  have hcount : (formed.buf first).bfNframes = 1 := h.count first rfl
  refine .inl ⟨_, rfl, ?_⟩
  beta_reduce
  rw [markFormed, if_pos hcount, Descriptors.callUpTo_own, Descriptors.call_self,
    Descriptors.call_self, HalCall.order_run _ (by exact trivial), HalCall.order_run _ (by exact trivial)]
  exact ⟨rfl, rfl⟩

theorem onAir_several (hprog : ∀ bf ∈ frames, Programmed fields s hw bf)
    (hrates : rates.IsRates = true) (hframes : frames = first :: mid ++ [last]) :
    OnAir (frames.map fun bf => (markFormed rates formed frames (markTaken formed frames hw)
      bf).order) := by
  obtain ⟨en, rate, series, flags, rfl⟩ := HalCall.IsRates.eq hrates
  have hnodup := h.nodup
  rw [hframes] at hnodup
  have hfirst : first ∈ frames := by simp [hframes]
  have hend : last ∈ frames := by simp [hframes]
  have hout : ∀ bf ∈ first :: mid, bf ≠ last := fun bf hbf =>
    (List.nodup_append.mp hnodup).2.2 bf hbf last List.mem_cons_self
  have hne : first ≠ last := hout first List.mem_cons_self
  have hcount : (formed.buf first).bfNframes ≠ 1 := by
    rw [h.count first (by rw [hframes]; rfl), hframes, List.length_append, List.length_cons,
      List.length_singleton]
    omega
  have hmarked := fun bf hbf => h.marked_inAmpdu (hprog bf hbf) hbf
  have hal : (formed.buf first).bfAl = aggrLength s frames := h.al first (by rw [hframes]; rfl)
  right
  have hampdu : Ampdu ((first :: mid ++ [last]).map fun bf =>
      (markFormed (.set11nRateScenario en rate series flags) formed frames
        (markTaken formed frames hw) bf).order) := by
    apply ampdu_of_frames (List.cons_ne_nil first mid)
    · intro bf hbf
      rw [markFormed_several hframes hcount hne, if_neg (hout bf hbf)]
      split
      case isTrue hself =>
        rw [hself, HalCall.order_run _ (by exact trivial), HalCall.order_run _ (by exact trivial), h.marked hfirst,
          h.ndelim first hfirst]
        exact .of_order rfl rfl (frameLen_of_programmed (hprog first hfirst)) rfl
      case isFalse =>
        have hin : bf ∈ frames := by
          rw [hframes]
          exact List.mem_append_left _ hbf
        exact hmarked bf hin
    · rw [markFormed_several hframes hcount hne, if_pos rfl, HalCall.order_run _ (by exact trivial)]
      exact ⟨⟨rfl, rfl, rfl⟩, (hmarked last hend).subframe⟩
    · intro bf hbf
      obtain rfl : first = bf := Option.some.inj hbf
      rw [markFormed_several hframes hcount hne, if_neg hne, if_pos rfl, HalCall.order_run _ (by exact trivial),
        ← hframes, hal]
      exact aggrLen_cut h.small
  rwa [← hframes] at hampdu

/-- A round is calls on the descriptors of its frames. -/
theorem touched (hrates : rates.IsRates = true) (hw : Descriptors) :
    Touched frames hw (markFormed rates formed frames (markTaken formed frames hw)) := by
  have hlater : rates.Later := by
    obtain ⟨en, rate, series, flags, rfl⟩ := HalCall.IsRates.eq hrates
    trivial
  have htaken : Touched frames hw (markTaken formed frames hw) := by
    intro b
    rw [markTaken_apply h.nodup h.lastds]
    split
    case isTrue hb =>
      obtain ⟨calls, hcall⟩ := Touched.call hb
        (c := .set11nAggrMiddle (BitVec.ofNat 32 (formed.buf b).bfNdelim)) trivial hw b
      rw [Descriptors.call_self] at hcall
      exact ⟨calls, hcall⟩
    case isFalse => exact Touched.refl frames hw b
  refine htaken.trans ?_
  cases frames with
  | nil => exact .refl [] _
  | cons first more =>
      have hfirst : first ∈ first :: more := List.mem_cons_self
      have hend : (first :: more).getLastD first ∈ first :: more := by
        rw [List.getLastD_cons]
        exact List.getLastD_mem_cons ..
      rw [markFormed]
      split
      · rw [Descriptors.callUpTo_own]
        exact (Touched.call hfirst (by exact trivial) _).trans (.call hfirst hlater _)
      · exact ((Touched.call hfirst hlater _).trans (.call hfirst (by exact trivial) _)).trans
          (.call hend (by exact trivial) _)

end FormedFrames

/-! ## All rounds -/

/-- After a round the rest of the queue is as it was. -/
theorem formable_after {limit : ℕ} (hform : Formable s k) (h : Filling s k limit acc s')
    (first : BufId) (al nframes : ℕ) :
    Formable (schedFormed (s'.modBuf first fun b => { b with bfAl := al, bfNframes := nframes })
      acc.bfQ) k := by
  set formed := s'.modBuf first fun b => { b with bfAl := al, bfNframes := nframes } with hformed
  have htid : (schedFormed formed acc.bfQ).tid = s'.tid := schedFormed_tid formed acc.bfQ
  have hpacket : ∀ b, ((schedFormed formed acc.bfQ).buf b).packet = (s.buf b).packet := by
    intro b
    have hset : ∀ x : TxBuf, { x with bfAl := al, bfNframes := nframes }.packet = x.packet :=
      fun _ => rfl
    rw [schedFormed_get formed acc.bfQ TxBuf.packet (fun _ _ _ => rfl) (fun _ => rfl)
      fun _ _ => rfl, hformed, TxState.modBuf_get s' TxBuf.packet hset]
    exact h.packet b
  have hrest : ∀ bf ∈ (s'.tid k).bufQ, bf ∈ (s.tid k).bufQ := by
    intro bf hbf
    rw [h.queue]
    exact List.mem_append_right _ hbf
  refine ⟨?_, ?_, ?_⟩
  · have hnodup := hform.distinct
    rw [h.queue] at hnodup
    rw [htid]
    exact (List.nodup_append.mp hnodup).2.1
  · rw [htid]
    intro bf hbf
    have hcomp := congrArg Prod.fst (hpacket bf)
    exact hcomp.trans (hform.aggr bf (hrest bf hbf))
  · rw [htid]
    intro bf hbf hsent hin
    have heq := hpacket bf
    simp only [TxBuf.packet, Prod.mk.injEq] at heq
    rw [heq.2.2.2.2] at hsent
    rw [heq.2.2.1, h.seqStart, h.bawSize] at hin
    rw [heq.2.2.1]
    exact (hform.retried bf (hrest bf hbf) hsent hin).mono h.bawHead h.seqStart h.bits

theorem schedFormed_lastds (hbf : bf ∉ frames) :
    ((schedFormed s frames).buf bf).bfLastds = (s.buf bf).bfLastds := by
  cases frames with
  | nil => rfl
  | cons first more =>
      have hfirst : bf ≠ first := fun h => hbf (h ▸ List.mem_cons_self)
      rw [schedFormed]
      split
      · rw [schedSingle_bufs, TxState.modBuf_buf_of_ne _ _ _ hfirst]
      · obtain ⟨lastds, hbufs⟩ := schedAggregate_bufs s first ((first :: more).getLastD first)
        have hset : ∀ x : TxBuf, { x with bfNext := none, bfNdelim := 0 }.bfLastds = x.bfLastds :=
          fun _ => rfl
        rw [hbufs, TxState.modBuf_buf_of_ne _ _ _ hfirst, TxState.modBuf_get s (·.bfLastds) hset]

theorem aggrLength_small {limit : ℕ} (h : Filling s k limit acc s') (hlimit : limit ≤ 65535)
    (hshort : ∀ bf ∈ acc.bfQ, delimited (s.buf bf) < 65536)
    (hal : acc.al = aggrLength s acc.bfQ) : aggrLength s acc.bfQ < 65536 := by
  rcases Nat.lt_or_ge acc.bfQ.length 2 with hone | htwo
  · rcases List.eq_nil_or_concat acc.bfQ with hnil | ⟨init, last, hsplit⟩
    · rw [hnil]
      exact Nat.zero_lt_succ 65535
    · rw [List.concat_eq_append] at hsplit
      rw [hsplit, List.length_append, List.length_singleton] at hone
      have hnil : init = [] := List.length_eq_zero_iff.mp (by omega)
      have hlast := hshort last (by simp [hsplit])
      rw [hsplit, hnil, aggrLength_snoc]
      exact lt_of_eq_of_lt (by simp) hlast
  · have hle := h.limited htwo
    omega

/-- A round puts a frame or an aggregate on the air, and leaves what it does not take as it was. -/
structure Round (fields : BufId → FrameFields) (k : TidId) (s : TxState) (hw : Descriptors)
    (frames : List BufId) (s' : TxState) (hw' : Descriptors) : Prop where
  queue : (s.tid k).bufQ = frames ++ (s'.tid k).bufQ
  formable : Formable s' k
  programmed : ∀ bf ∈ (s'.tid k).bufQ, Programmed fields s' hw' bf
  touched : Touched frames hw hw'
  onAir : frames ≠ [] → OnAir (frames.map fun bf => (hw' bf).order)

theorem round_ordered {rest : List BufId} {rates : TxState → BufId → HalCall} (hform : Formable s k)
    (hq : (s.tid k).bufQ = first :: rest)
    (hprog : ∀ bf ∈ (s.tid k).bufQ, Programmed fields s hw bf)
    (hrates : ∀ s bf, (rates s bf).IsRates = true) :
    ∃ status frames formed, athTgtTxFormAggr s k = some (status, frames, formed) ∧
      Round fields k s hw frames (schedFormed formed frames)
        (markFormed (rates formed (frames.headD 0)) formed frames (markTaken formed frames hw)) := by
  obtain ⟨status, acc, s', hformed, h⟩ := athTgtTxFormAggr_filling hform hq
  refine ⟨status, acc.bfQ, _, hformed, ?_⟩
  have hlastds := athTgtTxFormAggr_lastds hformed
  set formed := s'.modBuf first fun b => { b with bfAl := acc.al, bfNframes := acc.nframes }
    with hf
  have htid : (schedFormed formed acc.bfQ).tid = s'.tid := schedFormed_tid formed acc.bfQ
  have hin : ∀ bf ∈ acc.bfQ, bf ∈ (s.tid k).bufQ := by
    intro bf hbf
    rw [h.queue]
    exact List.mem_append_left _ hbf
  have hsplit := List.nodup_append.mp (h.queue ▸ hform.distinct)
  have hhead : ∀ bf ∈ acc.bfQ.head?, formed.buf bf =
      { s'.buf first with bfAl := acc.al, bfNframes := acc.nframes } := by
    intro bf hbf
    have hqueue := h.queue
    rw [hq] at hqueue
    cases hacc : acc.bfQ with
    | nil =>
      rw [hacc] at hbf
      cases hbf
    | cons a l =>
      rw [hacc] at hbf hqueue
      rw [← Option.some.inj hbf, ← (List.cons.inj hqueue).1]
      exact s'.modBuf_buf_self first _
  have hshort : ∀ bf ∈ acc.bfQ, delimited (s.buf bf) < 65536 := by
    intro bf hbf
    have hshort := (hprog bf (hin bf hbf)).short
    rw [delimited]
    omega
  have hal := h.length hshort
  have hready : FormedFrames s formed acc.bfQ := by
    refine ⟨hsplit.1, ?_, ?_, ?_, ?_, ?_⟩
    · intro bf hbf
      rw [hlastds]
      exact (hprog bf (hin bf hbf)).lastds
    · intro bf hbf
      rw [hhead bf hbf]
      exact h.count
    · intro bf hbf
      have hset : ∀ x : TxBuf,
          { x with bfAl := acc.al, bfNframes := acc.nframes }.bfNdelim = x.bfNdelim := fun _ => rfl
      rw [hf, TxState.modBuf_get s' (·.bfNdelim) hset]
      exact h.delims bf hbf
    · intro bf hbf
      rw [hhead bf hbf]
      exact hal.1
    · exact aggrLength_small h (aggrLimit_le _ _ _ _) hshort hal.1
  have htouched := hready.touched (hrates formed (acc.bfQ.headD 0)) hw
  refine ⟨?_, formable_after hform h first acc.al acc.nframes, ?_, htouched, ?_⟩
  · rw [htid]
    exact h.queue
  · rw [htid]
    intro bf hbf
    have hmem : bf ∈ (s.tid k).bufQ := by
      rw [h.queue]
      exact List.mem_append_right _ hbf
    have hout : bf ∉ acc.bfQ := fun hacc => hsplit.2.2 bf hacc bf hbf rfl
    have hset : ∀ x : TxBuf,
        { x with bfAl := acc.al, bfNframes := acc.nframes }.packet = x.packet := fun _ => rfl
    have hpacket : ((schedFormed formed acc.bfQ).buf bf).packet = (s.buf bf).packet := by
      rw [schedFormed_get formed acc.bfQ TxBuf.packet (fun _ _ _ => rfl) (fun _ => rfl)
        fun _ _ => rfl, hf, TxState.modBuf_get s' TxBuf.packet hset]
      exact h.packet bf
    simp only [TxBuf.packet, Prod.mk.injEq] at hpacket
    have hbefore := hprog bf hmem
    refine ⟨htouched.carries hbefore.carries, ?_, ?_, ?_⟩
    · rw [hpacket.2.1]
      exact hbefore.pktlen
    · rw [hpacket.2.1]
      exact hbefore.short
    · rw [schedFormed_lastds hout, hlastds]
      exact hbefore.lastds
  · intro hne
    have htaken : ∀ bf ∈ acc.bfQ, Programmed fields s hw bf := fun bf hbf => hprog bf (hin bf hbf)
    rcases List.eq_nil_or_concat acc.bfQ with hnil | ⟨init, last, hlast⟩
    · exact absurd hnil hne
    · rw [List.concat_eq_append] at hlast
      cases init with
      | nil => exact hready.onAir_single (hrates _ _) hlast
      | cons head mid => exact hready.onAir_several htaken (hrates _ _) hlast

/-- The descriptors do not matter to the schedule. -/
theorem schedAggrRounds_state (rates : TxState → BufId → HalCall) (k : TidId) (n : ℕ) (s : TxState)
    (hw : Descriptors) :
    (schedAggrRounds rates k n s hw).map (fun q => q.2.1) = schedAggrLoop k n s := by
  induction n generalizing s hw with
  | zero => rfl
  | succ n ih =>
      by_cases hq : (s.tid k).bufQ = []
      · rw [schedAggrRounds, schedAggrLoop, if_pos hq, if_pos hq]
        rfl
      · rw [schedAggrLoop_succ n hq, schedAggrRounds, if_neg hq, Option.map_bind]
        congr
        funext r
        obtain ⟨status, frames, formed⟩ := r
        dsimp only [Function.comp_apply]
        by_cases hnone : frames = []
        · rw [if_pos hnone, if_neg fun h => h.1 hnone, hnone]
          rfl
        · rw [if_neg hnone]
          split
          case isTrue hmore =>
            rw [if_pos ⟨hnone, hmore⟩, Option.map_map]
            exact ih _ _
          case isFalse hmore => rw [if_neg fun h => hmore h.2, Option.map_some]

theorem rounds_ordered {rates : TxState → BufId → HalCall}
    (hrates : ∀ s bf, (rates s bf).IsRates = true) (n : ℕ) (hform : Formable s k)
    (hprog : ∀ bf ∈ (s.tid k).bufQ, Programmed fields s hw bf) :
    ∃ chains s' hw', schedAggrRounds rates k n s hw = some (chains, s', hw') ∧
      (s.tid k).bufQ = chains.flatten ++ (s'.tid k).bufQ ∧ Touched chains.flatten hw hw' ∧
      ∀ chain ∈ chains, OnAir (chain.map fun bf => (hw' bf).order) := by
  have hidle : ∀ (s : TxState) (hw : Descriptors),
      (s.tid k).bufQ = ([] : List (List BufId)).flatten ++ (s.tid k).bufQ ∧
      Touched ([] : List (List BufId)).flatten hw hw ∧
      ∀ chain ∈ ([] : List (List BufId)), OnAir (chain.map fun bf => (hw bf).order) :=
    fun s hw => ⟨rfl, .refl _ hw, fun chain hchain => absurd hchain List.not_mem_nil⟩
  induction n generalizing s hw with
  | zero => exact ⟨[], s, hw, rfl, hidle s hw⟩
  | succ n ih =>
      rw [schedAggrRounds]
      split
      case isTrue => exact ⟨[], s, hw, rfl, hidle s hw⟩
      case isFalse hq =>
        obtain ⟨first, rest, hq⟩ := List.exists_cons_of_ne_nil hq
        obtain ⟨status, frames, formed, hformed, hround⟩ := round_ordered hform hq hprog hrates
        rw [hformed, Option.bind_some]
        dsimp only
        split
        case isTrue hnone =>
          rw [hnone] at hround
          exact ⟨[], formed, hw, rfl, hround.queue, .refl _ hw,
            fun chain hchain => absurd hchain List.not_mem_nil⟩
        case isFalse hsome =>
          split
          case isTrue =>
            obtain ⟨chains, s', hw', hrun, hqueue, htouched, hair⟩ :=
              ih hround.formable hround.programmed
            -- the later rounds take other frames
            have hsplit := List.nodup_append.mp (hround.queue ▸ hform.distinct)
            have hout : ∀ bf ∈ frames, bf ∉ chains.flatten := by
              intro bf hbf hlater
              refine hsplit.2.2 bf hbf bf ?_ rfl
              rw [hqueue]
              exact List.mem_append_left _ hlater
            refine ⟨frames :: chains, s', hw', by rw [hrun, Option.map_some], ?_, ?_, ?_⟩
            · rw [List.flatten_cons, List.append_assoc, ← hqueue]
              exact hround.queue
            · rw [List.flatten_cons]
              exact (hround.touched.mono fun bf hbf => List.mem_append_left _ hbf).trans
                (htouched.mono fun bf hbf => List.mem_append_right _ hbf)
            · intro chain hchain
              rcases List.mem_cons.mp hchain with rfl | hchain
              · have hkept := hround.onAir hsome
                have hsame : (chain.map fun bf => (hw' bf).order) = chain.map fun bf => _ :=
                  List.map_congr_left fun bf hbf =>
                    congrArg Ar5416Desc.order (htouched.eq_of_notMem (hout bf hbf))
                rw [hsame]
                exact hkept
              · exact hair chain hchain
          case isFalse =>
            refine ⟨[frames], _, _, rfl, ?_, ?_, ?_⟩
            · rw [List.flatten_singleton]
              exact hround.queue
            · rw [List.flatten_singleton]
              exact hround.touched
            · intro chain hchain
              rw [List.mem_singleton.mp hchain]
              exact hround.onAir hsome

end

/-- The fields of two frames that wait behind one at the hardware. -/
def waitingFields (sc : Softc) (bf : BufId) : FrameFields :=
  { protectedFrame with bfPktlen := BitVec.ofNat 32 (sc.tx.buf bf).bfPktlen }

end Ath9kHtc.Tx
