import Ath9kHtc.Rate.AirTime
import Ath9kHtc.Tx.DescriptorOrders
import Mathlib.Data.Fin.VecNotation

/-!
# The descriptors of frames

How `if_owl.c` and `if_ath.c` program the descriptor of a data frame, a management frame, a BAR and
a beacon, and what the hardware is told of each.  A frame has one segment.
-/

namespace Ath9kHtc.Tx

open BitField

/-! ## Data frames -/

/-- The fields of an `ath_tx_buf` that `ath_tx_tgt_setds` reads, and the length of its segment. -/
structure FrameFields where
  bfPktlen : Word
  bfAtype : Word
  bfKeyix : Word
  bfKeytype : Word
  bfProtmode : Word
  bfFlags : Word
  segLen : Word
  deriving DecidableEq

-- IEEE80211_PROT
def ieee80211ProtNone : Word := 0
def ieee80211ProtCtsonly : Word := 1
def ieee80211ProtRtscts : Word := 2

/-- `bf_flags` with what the protection mode adds. -/
def FrameFields.guarded (f : FrameFields) : Word :=
  if f.bfProtmode = ieee80211ProtRtscts then f.bfFlags ||| halTxdescRtsena
  else if f.bfProtmode = ieee80211ProtCtsonly then f.bfFlags ||| halTxdescCtsena
  else f.bfFlags

/-- The calls of `ath_filltxdesc` for a frame of one segment. -/
def athFilltxdescCalls (segLen : Word) : List HalCall := [.fillTxDesc segLen true true {}]

/-- The calls of `ath_tx_tgt_setds`. -/
def athTxTgtSetds (f : FrameFields) : List HalCall :=
  .set11nTxDesc f.bfPktlen f.bfAtype 60 f.bfKeyix f.bfKeytype (f.guarded ||| halTxdescIntreq) ::
    athFilltxdescCalls f.segLen

/-- The calls on a data frame from its `ath_tx_tgt_setds` to its completion: its rates, its place in
an aggregate and what a retry takes back. -/
def HalCall.Later : HalCall → Prop
  | .set11nRateScenario _ _ _ _ => True
  | .set11nAggrFirst _ _ => True
  | .set11nAggrMiddle _ => True
  | .set11nAggrLast => True
  | .clr11nAggr => True
  | .set11nBurstDuration burstDuration => burstDuration = 0
  | .set11nVirtualMoreFrag vmf => vmf = false
  | _ => False

def HalCall.IsRates : HalCall → Bool
  | .set11nRateScenario _ _ _ _ => true
  | _ => false

/-- Where in an aggregate a frame is. -/
inductive Position
  | alone
  | first (aggrLen numDelims : Word)
  | middle (numDelims : Word)
  | last
  deriving DecidableEq

/-- The place a call gives to its frame. -/
def HalCall.position : HalCall → Option Position
  | .set11nAggrFirst aggrLen numDelims => some (.first aggrLen numDelims)
  | .set11nAggrMiddle numDelims => some (.middle numDelims)
  | .set11nAggrLast => some .last
  | .clr11nAggr => some .alone
  | _ => none

/-- The hardware is told of that place. -/
def TxOrder.Placed (o : TxOrder) : Position → Prop
  | .alone => o.isAggr = false ∧ o.moreAggr = false
  | .first aggrLen numDelims => o.isAggr = true ∧ o.moreAggr = true ∧
      o.aggrLen = arAggrLen.cut aggrLen ∧ o.padDelim = arPadDelim.cut numDelims
  | .middle numDelims => o.isAggr = true ∧ o.moreAggr = true ∧ o.padDelim = arPadDelim.cut numDelims
  | .last => o.isAggr = true ∧ o.moreAggr = false ∧ o.padDelim = 0

/-- The hardware is told of the rates. -/
structure TxOrder.Rated (o : TxOrder) (durUpdateEn : Bool) (rtsctsRate : Word)
    (series : Fin 4 → Hal11nRateSeries) (flags : Word) : Prop where
  series : ∀ i, o.series i = (series i).order i
  rtsEnable : o.rtsEnable = on flags halTxdescRtsena
  ctsEnable : o.ctsEnable = (on flags halTxdescCtsena && !on flags halTxdescRtsena)
  durUpdateEn : o.durUpdateEn = durUpdateEn
  rtsctsRate : o.rtsctsRate = arRTSCTSRate.cut rtsctsRate

/-- The hardware is told of the frame of the buffer. -/
structure Carries (f : FrameFields) (o : TxOrder) : Prop where
  frameLen : o.frameLen = arFrameLen.cut f.bfPktlen
  frameType : o.frameType = arFrameType.cut f.bfAtype
  xmitPower : o.xmitPower = 60
  segment : o.bufLen = f.segLen ∧ o.txMore = false
  keyed : o.destIdxValid = decide (f.bfKeyix ≠ halTxkeyixInvalid)
  key : f.bfKeyix ≠ halTxkeyixInvalid → o.destIdx = arDestIdx.cut f.bfKeyix
  encrType : o.encrType = arEncrType.cut f.bfKeytype
  noAck : o.noAck = on f.bfFlags halTxdescNoack
  clrDestMask : o.clrDestMask = on f.bfFlags halTxdescClrdmask
  veol : o.veol = on f.bfFlags halTxdescVeol
  extension : o.extOnly = on f.bfFlags halTxdescExtOnly ∧ o.extAndCtl = on f.bfFlags halTxdescExtAndCtl
  interrupt : o.txIntrReq = true

section

variable {f : FrameFields} {o : TxOrder} {calls : List HalCall}

theorem on_guarded {m : Word} (hrts : halTxdescRtsena &&& m = 0#32)
    (hcts : halTxdescCtsena &&& m = 0#32) (hintr : halTxdescIntreq &&& m = 0#32) :
    on (f.guarded ||| halTxdescIntreq) m = on f.bfFlags m := by
  rw [on_or, on_of_disjoint hintr, Bool.or_false, FrameFields.guarded]
  split
  · rw [on_or, on_of_disjoint hrts, Bool.or_false]
  · split
    · rw [on_or, on_of_disjoint hcts, Bool.or_false]
    · rfl

theorem carries_setds (o : TxOrder) : Carries f (orderCalls (athTxTgtSetds f) o) where
  frameLen := rfl
  frameType := rfl
  xmitPower := rfl
  segment := ⟨BitVec.zero_or, rfl⟩
  keyed := rfl
  key := fun hkey => if_pos hkey
  encrType := rfl
  noAck := on_guarded (by decide) (by decide) (by decide)
  clrDestMask := on_guarded (by decide) (by decide) (by decide)
  veol := on_guarded (by decide) (by decide) (by decide)
  extension := ⟨on_guarded (by decide) (by decide) (by decide),
    on_guarded (by decide) (by decide) (by decide)⟩
  interrupt := by
    have hon : on (f.guarded ||| halTxdescIntreq) halTxdescIntreq = true := by
      rw [on_or, on_of_meets (a := halTxdescIntreq) (by decide), Bool.or_true]
    exact hon

theorem Carries.later {call : HalCall} (h : Carries f o) (hcall : call.Later) :
    Carries f (call.order o) := by
  cases call with
  | setupTxDesc => exact hcall.elim
  | fillTxDesc => exact hcall.elim
  | fillKeyTxDesc => exact hcall.elim
  | set11nTxDesc => exact hcall.elim
  | set11nRateScenario | set11nAggrFirst | set11nAggrMiddle | set11nAggrLast | clr11nAggr
  | set11nBurstDuration | set11nVirtualMoreFrag =>
      exact ⟨h.frameLen, h.frameType, h.xmitPower, h.segment, h.keyed, h.key, h.encrType, h.noAck,
        h.clrDestMask, h.veol, h.extension, h.interrupt⟩

theorem orderCalls_append (calls more : List HalCall) (o : TxOrder) :
    orderCalls (calls ++ more) o = orderCalls more (orderCalls calls o) :=
  List.foldl_append

/-- What every call keeps holds after all of them. -/
theorem orderCalls_keeps {P : TxOrder → Prop}
    (hstep : ∀ call ∈ calls, ∀ o, P o → P (call.order o)) (h : P o) : P (orderCalls calls o) := by
  induction calls generalizing o with
  | nil => exact h
  | cons call calls ih =>
      exact ih (fun c hc => hstep c (List.mem_cons_of_mem _ hc))
        (hstep call List.mem_cons_self o h)

/-- The last call that decides something decides it for good. -/
theorem orderCalls_last {P : TxOrder → Prop} {pre post : List HalCall} {call : HalCall}
    (hcall : ∀ o, P (call.order o)) (hpost : ∀ c ∈ post, ∀ o, P o → P (c.order o)) (o : TxOrder) :
    P (orderCalls (pre ++ call :: post) o) := by
  rw [orderCalls_append]
  have hkept : P (orderCalls post (call.order (orderCalls pre o))) :=
    orderCalls_keeps hpost (hcall _)
  exact hkept

theorem placed_order {call : HalCall} {p : Position} (h : call.position = some p) (o : TxOrder) :
    (call.order o).Placed p := by
  cases call <;> cases h
  case set11nAggrFirst => exact ⟨rfl, rfl, rfl, rfl⟩
  case set11nAggrMiddle => exact ⟨rfl, rfl, rfl⟩
  case set11nAggrLast => exact ⟨rfl, rfl, rfl⟩
  case clr11nAggr => exact ⟨rfl, rfl⟩

theorem rated_order (en : Bool) (rate : Word) (series : Fin 4 → Hal11nRateSeries) (flags : Word)
    (o : TxOrder) :
    ((HalCall.set11nRateScenario en rate series flags).order o).Rated en rate series flags :=
  ⟨fun _ => rfl, rfl, rfl, rfl, rfl⟩

theorem TxOrder.Placed.later {call : HalCall} {p : Position} (h : o.Placed p)
    (hcall : call.Later) (hnone : call.position = none) : (call.order o).Placed p := by
  cases call <;> cases hnone <;> first | exact hcall.elim | (cases p <;> exact h)

theorem TxOrder.Rated.later {call : HalCall} {en : Bool} {rate flags : Word}
    {series : Fin 4 → Hal11nRateSeries} (h : o.Rated en rate series flags) (hcall : call.Later)
    (hrates : call.IsRates = false) : (call.order o).Rated en rate series flags := by
  cases call <;> cases hrates <;>
    first
    | exact hcall.elim
    | exact ⟨h.series, h.rtsEnable, h.ctsEnable, h.durUpdateEn, h.rtsctsRate⟩

theorem fits_of_later {call : HalCall} (h : call.Later) : call.Fits := by
  cases call <;> first | exact h.elim | exact trivial

theorem fits_setds (hseg : f.segLen.toNat < 2 ^ 12) : ∀ call ∈ athTxTgtSetds f, call.Fits := by
  intro call hcall
  rcases List.mem_cons.mp hcall with rfl | hcall
  · exact trivial
  · rw [List.mem_singleton.mp hcall]
    exact hseg

theorem order_data (hseg : f.segLen.toNat < 2 ^ 12) (hlater : ∀ call ∈ calls, call.Later)
    (d : Ar5416Desc) :
    (runCalls (athTxTgtSetds f ++ calls) d).order =
      orderCalls calls (orderCalls (athTxTgtSetds f) d.order) := by
  have hfits : ∀ call ∈ athTxTgtSetds f ++ calls, call.Fits := by
    intro call hcall
    rcases List.mem_append.mp hcall with hcall | hcall
    · exact fits_setds hseg call hcall
    · exact fits_of_later (hlater call hcall)
  rw [order_runCalls hfits, orderCalls_append]

theorem carries_run (hseg : f.segLen.toNat < 2 ^ 12) (hlater : ∀ call ∈ calls, call.Later)
    (d : Ar5416Desc) : Carries f (runCalls (athTxTgtSetds f ++ calls) d).order := by
  rw [order_data hseg hlater]
  exact orderCalls_keeps (P := Carries f) (fun c hc o h => h.later (hlater c hc))
    (carries_setds d.order)

theorem rated_run (hseg : f.segLen.toNat < 2 ^ 12) {pre post : List HalCall} {en : Bool}
    {rate flags : Word} {series : Fin 4 → Hal11nRateSeries}
    (hlater : ∀ call ∈ pre ++ .set11nRateScenario en rate series flags :: post, call.Later)
    (hpost : ∀ c ∈ post, c.IsRates = false) (d : Ar5416Desc) :
    (runCalls (athTxTgtSetds f ++ (pre ++ .set11nRateScenario en rate series flags :: post))
      d).order.Rated en rate series flags := by
  rw [order_data hseg hlater]
  have hkeep : ∀ c ∈ post, ∀ o : TxOrder, o.Rated en rate series flags →
      (c.order o).Rated en rate series flags := fun c hc o h =>
    h.later (hlater c (List.mem_append_right _ (List.mem_cons_of_mem _ hc))) (hpost c hc)
  exact orderCalls_last (P := (·.Rated en rate series flags))
    (rated_order en rate series flags) hkeep _

/-- Whatever was in the descriptor before, and whatever places, rates and retries came since: the
hardware is told of the frame in the buffer, of its last place and of its last rates. -/
theorem data_frame_ordered (f : FrameFields) (hseg : f.segLen.toNat < 2 ^ 12) (d : Ar5416Desc)
    {calls : List HalCall} (hlater : ∀ call ∈ calls, call.Later) :
    Carries f (runCalls (athTxTgtSetds f ++ calls) d).order ∧
    ((∀ call ∈ calls, call.position = none) →
      (runCalls (athTxTgtSetds f ++ calls) d).order.Placed .alone) ∧
    (∀ pre call post p, calls = pre ++ call :: post → call.position = some p →
      (∀ c ∈ post, c.position = none) →
      (runCalls (athTxTgtSetds f ++ calls) d).order.Placed p) ∧
    (∀ pre en rate series flags post, calls = pre ++ .set11nRateScenario en rate series flags :: post →
      (∀ c ∈ post, c.IsRates = false) →
      (runCalls (athTxTgtSetds f ++ calls) d).order.Rated en rate series flags) := by
  refine ⟨carries_run hseg hlater d, ?_, ?_, ?_⟩
  · intro hnone
    rw [order_data hseg hlater]
    have halone : (orderCalls (athTxTgtSetds f) d.order).Placed .alone := ⟨rfl, rfl⟩
    exact orderCalls_keeps (P := (·.Placed .alone))
      (fun c hc o h => h.later (hlater c hc) (hnone c hc)) halone
  · intro pre call post p hsplit hp hpost
    rw [order_data hseg hlater, hsplit]
    rw [hsplit] at hlater
    have hkeep : ∀ c ∈ post, ∀ o : TxOrder, o.Placed p → (c.order o).Placed p := fun c hc o h =>
      h.later (hlater c (List.mem_append_right _ (List.mem_cons_of_mem _ hc))) (hpost c hc)
    exact orderCalls_last (P := (·.Placed p)) (placed_order hp) hkeep _
  · intro pre en rate series flags post hsplit hpost
    rw [hsplit] at hlater ⊢
    exact rated_run hseg hlater hpost d

end

/-- A frame for one station, encrypted and to be protected behind RTS. -/
def protectedFrame : FrameFields where
  bfPktlen := 1504
  bfAtype := halPktTypeNormal
  bfKeyix := 4
  bfKeytype := 3
  bfProtmode := ieee80211ProtRtscts
  bfFlags := halTxdescClrdmask
  segLen := 1500

/-- In the middle of an aggregate that fails, and then sent on its own. -/
theorem retried_frame_ordered :
    Carries protectedFrame (runCalls (athTxTgtSetds protectedFrame ++
      [.set11nAggrMiddle 3, .clr11nAggr, .set11nRateScenario true 0x0b (fun _ => {}) 0]) {}).order ∧
    (runCalls (athTxTgtSetds protectedFrame ++
      [.set11nAggrMiddle 3, .clr11nAggr, .set11nRateScenario true 0x0b (fun _ => {}) 0]) {}).order.Placed
        .alone := by
  have hlater : ∀ call ∈ [.set11nAggrMiddle 3, .clr11nAggr,
      .set11nRateScenario true 0x0b (fun _ => {}) 0], HalCall.Later call := by
    simp [HalCall.Later]
  have hordered := data_frame_ordered protectedFrame (by decide) {} hlater
  exact ⟨hordered.1, hordered.2.2.1 [.set11nAggrMiddle 3] .clr11nAggr
    [.set11nRateScenario true 0x0b (fun _ => {}) 0] .alone rfl rfl (by simp [HalCall.position])⟩

/-! ## Rates -/

-- flags of a rate series
def athRcDsFlag : BitVec 16 := 0x01
def athRcTxStbcFlag : BitVec 16 := 0x20

/-- What `ath_buf_set_rate` reads besides the frame. -/
structure RateContext where
  /-- the Magpie build, which knows STBC -/
  merlin : Bool
  pCap : Rate.HalCapabilities
  info : ℕ → Rate.HalRate
  controlRate : ℕ → ℕ
  scProtrix : ℕ
  icTxChainmask : Word

/-- The fields of an `ath_tx_buf` that `ath_buf_set_rate` reads. -/
structure RateFields where
  bfRcs : Fin 4 → RcSeries
  bfProtmode : Word
  bfFlags : Word
  bfIsmcast : Bool
  pkt : Rate.PktState

namespace RateContext

variable (c : RateContext) (b : RateFields)

/-- `prot_mode` -/
def protMode : Bool :=
  decide (b.bfProtmode ≠ ieee80211ProtNone) &&
    (decide ((c.info (b.bfRcs 0).rix).phy = .ofdm) || decide ((c.info (b.bfRcs 0).rix).phy = .ht)) &&
    !on b.bfFlags halTxdescNoack

/-- The flags for the protection of the frame. -/
def protFlags : Word :=
  if c.protMode b then b.bfFlags &&& (halTxdescRtsena ||| halTxdescCtsena)
  else if Rate.athHalGetcapability c.pCap .ht ≠ .ok ∧ b.bfIsmcast = false then halTxdescRtsena
  else b.bfFlags &&& (halTxdescRtsena ||| halTxdescCtsena)

/-- The index of the rate for RTS and CTS: that of protection, or that of the last series in use. -/
def cix : ℕ :=
  if c.protMode b then c.controlRate c.scProtrix
  else if (b.bfRcs 3).tries ≠ 0 then c.controlRate (b.bfRcs 3).rix
  else if (b.bfRcs 2).tries ≠ 0 then c.controlRate (b.bfRcs 2).rix
  else if (b.bfRcs 1).tries ≠ 0 then c.controlRate (b.bfRcs 1).rix
  else if (b.bfRcs 0).tries ≠ 0 then c.controlRate (b.bfRcs 0).rix
  else c.controlRate c.scProtrix

/-- A rate code, for the short preamble if the frame uses it. -/
def rateCode (rix : ℕ) (shpream : Bool) : Word :=
  ((c.info rix).rateCode ||| if shpream then (c.info rix).shortPreamble else 0).setWidth 32

/-- `RateFlags` of a series in use. -/
def rateFlags (rc : RcSeries) : Word :=
  flag (on rc.flags athRcRtsctsFlag = true) halRateseriesRtsCts
    ||| flag (on rc.flags athRcCw40Flag = true) halRateseries2040
    ||| flag (on rc.flags athRcHt40SgiFlag = true) halRateseriesHalfgi
    ||| flag (c.merlin = true ∧ on rc.flags athRcTxStbcFlag = true) halRateseriesStbc
    ||| flag (c.protMode b = true) halRateseriesRtsCts
    ||| flag (on rc.flags athRcDsFlag = true) halRateseriesRtsCts

/-- An element of `series`, cleared where the rate is not to be tried. -/
def series (i : Fin 4) : Option Hal11nRateSeries :=
  let rc := b.bfRcs i
  if rc.tries = 0 then some {}
  else
    (Rate.athPktDuration c.pCap (c.info rc.rix) b.pkt (on rc.flags athRcCw40Flag)
        (on rc.flags athRcHt40SgiFlag)).map fun duration =>
      { tries := BitVec.ofNat 32 rc.tries
        rate := c.rateCode rc.rix b.pkt.bfShpream
        pktDuration := BitVec.ofNat 32 duration
        chSel := c.icTxChainmask
        rateFlags := c.rateFlags b rc }

end RateContext

/-- `ath_buf_set_rate`, without a result where a duration divides by zero. -/
def athBufSetRate (c : RateContext) (b : RateFields) : Option HalCall := do
  let s₀ ← c.series b 0
  let s₁ ← c.series b 1
  let s₂ ← c.series b 2
  let s₃ ← c.series b 3
  some (.set11nRateScenario true (c.rateCode (c.cix b) b.pkt.bfShpream) ![s₀, s₁, s₂, s₃]
    (c.protFlags b))

/-- What goes out before a frame to reserve the air. -/
inductive Guard
  | none | cts | rts
  deriving DecidableEq

/-- What the hardware sends before the frame at one of its rates. -/
def TxOrder.guard (o : TxOrder) (i : Fin 4) : Guard :=
  if (o.series i).rtsctsQual then
    if o.rtsEnable then .rts else if o.ctsEnable then .cts else .none
  else .none

/-- The guard of the frames of a protection mode. -/
def guardOf (protmode : Word) : Guard :=
  if protmode = ieee80211ProtRtscts then .rts
  else if protmode = ieee80211ProtCtsonly then .cts
  else .none

section

variable {c : RateContext} {b : RateFields} {f : FrameFields} {call : HalCall}

theorem athBufSetRate_spec (h : athBufSetRate c b = some call) :
    ∃ series : Fin 4 → Hal11nRateSeries, (∀ i, c.series b i = some (series i)) ∧
      call = .set11nRateScenario true (c.rateCode (c.cix b) b.pkt.bfShpream) series
        (c.protFlags b) := by
  simp only [athBufSetRate, Option.bind_eq_bind, Option.bind_eq_some_iff] at h
  obtain ⟨s₀, h₀, s₁, h₁, s₂, h₂, s₃, h₃, hcall⟩ := h
  refine ⟨![s₀, s₁, s₂, s₃], ?_, (Option.some.inj hcall).symm⟩
  intro i
  fin_cases i
  · exact h₀
  · exact h₁
  · exact h₂
  · exact h₃

/-- A series that is not to be tried is empty; the others are the hardware's copy of the choice. -/
theorem series_spec {i : Fin 4} {r : Hal11nRateSeries} (h : c.series b i = some r) :
    ((b.bfRcs i).tries = 0 ∧ r = {}) ∨ ((b.bfRcs i).tries ≠ 0 ∧
      r.tries = BitVec.ofNat 32 (b.bfRcs i).tries ∧
      r.rate = c.rateCode (b.bfRcs i).rix b.pkt.bfShpream ∧
      r.rateFlags = c.rateFlags b (b.bfRcs i)) := by
  rw [RateContext.series] at h
  split at h
  case isTrue hzero => exact .inl ⟨hzero, (Option.some.inj h).symm⟩
  case isFalse hused =>
    obtain ⟨duration, -, rfl⟩ := Option.map_eq_some_iff.mp h
    exact .inr ⟨hused, rfl, rfl, rfl⟩

theorem on_rateFlags (rc : RcSeries) : on (c.rateFlags b rc) halRateseriesRtsCts =
    (c.protMode b || on rc.flags athRcRtsctsFlag || on rc.flags athRcDsFlag) := by
  simp (disch := decide) only [RateContext.rateFlags, on_or, on_flag, on_flag_of_disjoint,
    Bool.or_false, Bool.decide_eq_true]
  cases c.protMode b <;> cases on rc.flags athRcRtsctsFlag <;> rfl

/-- A rate is guarded as the flags say, if the series is used and asks for it. -/
theorem guard_of_rated {o : TxOrder} {en : Bool} {rate flags : Word}
    {series : Fin 4 → Hal11nRateSeries} (h : o.Rated en rate series flags) {i : Fin 4}
    (hseries : c.series b i = some (series i)) :
    o.guard i =
      if (b.bfRcs i).tries ≠ 0 ∧ (c.protMode b || on (b.bfRcs i).flags athRcRtsctsFlag ||
          on (b.bfRcs i).flags athRcDsFlag) = true then
        if on flags halTxdescRtsena then .rts
        else if on flags halTxdescCtsena then .cts else .none
      else .none := by
  have hqual : (o.series i).rtsctsQual = on (series i).rateFlags halRateseriesRtsCts :=
    congrArg SeriesOrder.rtsctsQual (h.series i)
  rw [TxOrder.guard, hqual, h.rtsEnable, h.ctsEnable]
  rcases series_spec hseries with ⟨hzero, hempty⟩ | ⟨hused, -, -, hflags⟩
  · have hoff : on (series i).rateFlags halRateseriesRtsCts = false := by
      rw [hempty]
      exact on_of_disjoint BitVec.zero_and
    rw [hoff, if_neg Bool.false_ne_true, if_neg fun hand => hand.1 hzero]
  · rw [hflags, on_rateFlags]
    by_cases hasks : (c.protMode b || on (b.bfRcs i).flags athRcRtsctsFlag ||
        on (b.bfRcs i).flags athRcDsFlag) = true
    · have hboth := And.intro hused hasks
      rw [if_pos hasks, if_pos hboth]
      cases on flags halTxdescRtsena <;> cases on flags halTxdescCtsena <;> rfl
    · rw [if_neg hasks, if_neg fun hand => hasks hand.2]

/-- What the flags of a data frame ask for is what its protection mode says. -/
theorem guard_flags (hclean : f.bfFlags = halTxdescClrdmask) :
    (if on (f.guarded &&& (halTxdescRtsena ||| halTxdescCtsena)) halTxdescRtsena then Guard.rts
      else if on (f.guarded &&& (halTxdescRtsena ||| halTxdescCtsena)) halTxdescCtsena then .cts
      else .none) = guardOf f.bfProtmode := by
  rw [FrameFields.guarded, guardOf, hclean]
  split
  · decide
  · split <;> decide

theorem protFlags_unicast (hmode : c.protMode b = false) (hmcast : b.bfIsmcast = false) :
    c.protFlags b = halTxdescRtsena := by
  rw [RateContext.protFlags, hmode, if_neg Bool.false_ne_true, Rate.athHalGetcapability_ht]
  exact if_pos ⟨by decide, hmcast⟩

theorem protFlags_multicast (hmcast : b.bfIsmcast = true) :
    c.protFlags b = b.bfFlags &&& (halTxdescRtsena ||| halTxdescCtsena) := by
  rw [RateContext.protFlags, hmcast]
  split
  · rfl
  · exact if_neg fun hand => Bool.noConfusion hand.2

/-- The frames that are to be protected go out behind RTS or CTS, as their protection mode says, at
every rate in use; of the others those rates are protected that ask for it, behind RTS if the frame
goes to one station.  This survives aggregation and retries. -/
theorem protection_honoured (hprot : b.bfProtmode = f.bfProtmode) (hflags : b.bfFlags = f.guarded)
    (hclean : f.bfFlags = halTxdescClrdmask) (hseg : f.segLen.toNat < 2 ^ 12)
    (hrates : athBufSetRate c b = some call) {pre post : List HalCall}
    (hlater : ∀ later ∈ pre ++ call :: post, later.Later)
    (hpost : ∀ later ∈ post, later.IsRates = false) (d : Ar5416Desc) (i : Fin 4) :
    (runCalls (athTxTgtSetds f ++ (pre ++ call :: post)) d).order.guard i =
      (if (b.bfRcs i).tries = 0 then .none
      else if c.protMode b then guardOf b.bfProtmode
      else if on (b.bfRcs i).flags athRcRtsctsFlag || on (b.bfRcs i).flags athRcDsFlag then
        if b.bfIsmcast then guardOf b.bfProtmode else .rts
      else .none) := by
  obtain ⟨series, hseries, rfl⟩ := athBufSetRate_spec hrates
  have hrated := rated_run hseg hlater hpost d
  rw [guard_of_rated hrated (hseries i)]
  have hguard := guard_flags hclean
  rw [← hflags, ← hprot] at hguard
  by_cases hused : (b.bfRcs i).tries = 0
  · rw [if_neg fun hand => hand.1 hused, if_pos hused]
  · rw [if_neg hused]
    cases hmode : c.protMode b
    · rw [Bool.false_or, if_neg Bool.false_ne_true]
      by_cases hasks : (on (b.bfRcs i).flags athRcRtsctsFlag ||
          on (b.bfRcs i).flags athRcDsFlag) = true
      · rw [if_pos ⟨hused, hasks⟩, if_pos hasks]
        cases hmcast : b.bfIsmcast
        · rw [protFlags_unicast hmode hmcast, if_neg Bool.false_ne_true]
          decide
        · rw [protFlags_multicast hmcast]
          exact hguard
      · rw [if_neg hasks, if_neg fun hand => hasks hand.2]
    · have hasked : c.protFlags b = b.bfFlags &&& (halTxdescRtsena ||| halTxdescCtsena) :=
        if_pos hmode
      rw [hasked, if_pos ⟨hused, rfl⟩]
      exact hguard

end

/-- A rate of 6 Mbit/s for every index. -/
def plainRates : RateContext where
  merlin := false
  pCap := ⟨true, true, false⟩
  info := fun _ => ⟨.ofdm, 6000, 0x0b, 0⟩
  controlRate := fun _ => 0
  scProtrix := 0
  icTxChainmask := 1

/-- The rates of the protected frame, of which the first is in use. -/
def protectedRates : RateFields where
  bfRcs := Function.update (fun _ => {}) 0 { tries := 2 }
  bfProtmode := ieee80211ProtRtscts
  bfFlags := protectedFrame.guarded
  bfIsmcast := false
  pkt := ⟨false, 0, 1504, false⟩

theorem aggregated_frame_guarded : ∃ call, athBufSetRate plainRates protectedRates = some call ∧
    (runCalls (athTxTgtSetds protectedFrame ++ ([.set11nAggrMiddle 3] ++ call :: [.clr11nAggr]))
      {}).order.guard 0 = .rts := by
  have hsome : (athBufSetRate plainRates protectedRates).isSome = true := by decide
  obtain ⟨call, hcall⟩ := Option.isSome_iff_exists.mp hsome
  obtain ⟨series, -, hrates⟩ := athBufSetRate_spec hcall
  have hlater : ∀ later ∈ [.set11nAggrMiddle 3] ++ call :: [.clr11nAggr], HalCall.Later later := by
    rw [hrates]
    simp [HalCall.Later]
  have hguard := protection_honoured (b := protectedRates) (f := protectedFrame) rfl rfl rfl
    (by decide) hcall hlater (by simp [HalCall.IsRates]) {} 0
  exact ⟨call, hcall, hguard.trans (by decide)⟩

/-! ## Management frames, BARs and beacons -/

def ieee80211CrcLen : ℕ := 4

-- i_fc[0] and i_fc[1]
def ieee80211Fc0TypeMask : BitVec 8 := 0x0c
def ieee80211Fc0TypeMgt : BitVec 8 := 0x00
def ieee80211Fc0TypeCtl : BitVec 8 := 0x04
def ieee80211Fc0SubtypeMask : BitVec 8 := 0xf0
def ieee80211Fc0SubtypeProbeResp : BitVec 8 := 0x50
def ieee80211Fc0SubtypeAtim : BitVec 8 := 0x90
def ieee80211Fc0SubtypeAuth : BitVec 8 := 0xb0
def ieee80211Fc1Wep : BitVec 8 := 0x40

def athShortPreamble : BitVec 8 := 1

/-- What `ath_tgt_send_mgt` reads of a frame and of its `ath_mgt_hdr_t`. -/
structure MgtFrame where
  fc0 : BitVec 8
  fc1 : BitVec 8
  ismcast : Bool
  len : ℕ
  segLen : Word
  flags : BitVec 8
  keyix : BitVec 8
  keytype : BitVec 8
  deriving DecidableEq

/-- What `ath_tgt_send_mgt` reads besides. -/
structure MgtContext where
  pCap : Rate.HalCapabilities
  info : ℕ → Rate.HalRate
  controlRate : ℕ → ℕ
  lpAckDuration : ℕ → ℕ
  spAckDuration : ℕ → ℕ
  scProtrix : ℕ
  minrateidx : ℕ
  ivRtsthreshold : ℕ
  icTxChainmask : Word

namespace MgtFrame

variable (m : MgtFrame)

def isCtl : Bool := decide (m.fc0 &&& ieee80211Fc0TypeMask = ieee80211Fc0TypeCtl)

def iswep : Bool := on m.fc1 ieee80211Fc1Wep

/-- `atype` -/
def atype : Word :=
  if m.fc0 &&& ieee80211Fc0TypeMask = ieee80211Fc0TypeMgt then
    if m.fc0 &&& ieee80211Fc0SubtypeMask = ieee80211Fc0SubtypeProbeResp then halPktTypeProbeResp
    else if m.fc0 &&& ieee80211Fc0SubtypeMask = ieee80211Fc0SubtypeAtim then halPktTypeAtim
    else halPktTypeNormal
  else halPktTypeNormal

def shortPreamble : Bool := decide (m.flags = athShortPreamble)

/-- `bf_protmode` -/
def protmode : BitVec 8 := m.flags &&& 3

def pktlen : ℕ := m.len + ieee80211CrcLen

/-- `keyix` is a signed byte, and so is what stands for no key. -/
def keyixArg : Word := (if m.iswep then m.keyix else 0xff).signExtend 32

/-- The flags before the interrupt is asked for. -/
def txFlags (ivRtsthreshold : ℕ) : Word :=
  let flags := halTxdescClrdmask ||| if m.isCtl then halTxdescNoack else 0
  if m.ismcast then flags ||| halTxdescNoack
  else if ivRtsthreshold < m.pktlen then flags ||| halTxdescRtsena
  else flags

end MgtFrame

/-- The rate of the frame, a byte. -/
def MgtContext.txrate (c : MgtContext) (m : MgtFrame) : BitVec 8 :=
  (c.info c.minrateidx).rateCode |||
    if m.shortPreamble then (c.info c.minrateidx).shortPreamble else 0

/-- The rate for RTS; 255 where there is none yet. -/
def MgtContext.cix (c : MgtContext) (m : MgtFrame) : ℕ :=
  if m.protmode ≠ 0 ∧ (c.info c.minrateidx).phy = .ofdm ∧
      on (m.txFlags c.ivRtsthreshold) halTxdescNoack = false then c.controlRate c.scProtrix
  else if m.ismcast = false ∧ c.ivRtsthreshold < m.pktlen then c.controlRate c.minrateidx
  else 0xff

/-- `ctsrate`, `ctsduration` and `try0`; without a result where the assertion on `cix` fails. -/
def MgtContext.protection (c : MgtContext) (m : MgtFrame) : Option (Word × Word × Word) :=
  let flags := m.txFlags c.ivRtsthreshold
  if asks flags (halTxdescRtsena ||| halTxdescCtsena) then
    if c.cix m = 0xff then none
    else do
      let ack := if m.shortPreamble then c.spAckDuration (c.cix m) else c.lpAckDuration (c.cix m)
      let time ← Rate.athHalComputetxtime c.pCap (c.info c.minrateidx) m.pktlen m.shortPreamble
      let duration := (if asks flags halTxdescRtsena then ack else 0) +
        (if asks flags halTxdescNoack then 0 else ack) + time
      let rate := (c.info (c.cix m)).rateCode |||
        if m.shortPreamble then (c.info (c.cix m)).shortPreamble else 0
      some (rate.setWidth 32, BitVec.ofNat 32 duration, 1)
  else some (0, 0, if m.ismcast then 1 else BitVec.ofNat 32 athTxmaxtry)

/-- The calls of `ath_tgt_send_mgt`. -/
def athTgtSendMgtCalls (c : MgtContext) (m : MgtFrame) : Option (List HalCall) := do
  let (ctsrate, ctsduration, try0) ← c.protection m
  let flags := m.txFlags c.ivRtsthreshold ||| halTxdescIntreq
  let txrate := (c.txrate m).setWidth 32
  let series : Hal11nRateSeries := { tries := 2, rate := txrate, chSel := c.icTxChainmask }
  some (.setupTxDesc (BitVec.ofNat 32 m.pktlen) m.atype 60 txrate try0 m.keyixArg flags ctsrate
        ctsduration ::
      ((if m.iswep = true ∧ m.keyixArg ≠ halTxkeyixInvalid ∧
            m.fc0 &&& ieee80211Fc0SubtypeMask = ieee80211Fc0SubtypeAuth then
          [HalCall.fillKeyTxDesc (m.keytype.signExtend 32)]
        else []) ++
        athFilltxdescCalls m.segLen ++
        [HalCall.set11nRateScenario false ctsrate (fun _ => series) 0]))

/-- The calls of `ath_bar_tx`: the length of the BAR, its segment and the key index of the frame it
takes the buffer from. -/
def athBarTxCalls (len : ℕ) (segLen bfKeyix icTxChainmask : Word) : List HalCall :=
  let minRate : Word := 0x0b
  let series : Hal11nRateSeries :=
    { tries := BitVec.ofNat 32 athTxmaxtry, rate := minRate, chSel := icTxChainmask }
  .setupTxDesc (BitVec.ofNat 32 (len + ieee80211CrcLen)) halPktTypeNormal 60 minRate
      (BitVec.ofNat 32 athTxmaxtry) bfKeyix (halTxdescIntreq ||| halTxdescClrdmask) 0 0 ::
    .clr11nAggr ::
    (athFilltxdescCalls segLen ++ [.set11nRateScenario false 0 (fun _ => series) 4])

def maxRatePower : Word := 63

/-- The calls of `ath_beacon_setup`: the length of the beacon and its rate code. -/
def athBeaconSetupCalls (len : ℕ) (rate : BitVec 8) (icTxChainmask : Word) : List HalCall :=
  let first : Hal11nRateSeries :=
    { tries := 1, rate := rate.setWidth 32, chSel := icTxChainmask }
  [.setupTxDesc (BitVec.ofNat 32 (len + ieee80211CrcLen)) halPktTypeBeacon maxRatePower
      (rate.setWidth 32) 1 halTxkeyixInvalid halTxdescNoack 0 0,
    .fillTxDesc (BitVec.ofNat 32 ((len + 3) / 4 * 4)) true true {},
    .set11nRateScenario false 0 (Function.update (fun _ => {}) 0 first) 0]

/-- What the hardware is told of a management frame, over a descriptor that was used before. -/
structure ManagementOrder (c : MgtContext) (m : MgtFrame) (before o : TxOrder) : Prop where
  frameLen : o.frameLen = arFrameLen.cut (BitVec.ofNat 32 m.pktlen)
  frameType : o.frameType = m.atype
  xmitPower : o.xmitPower = 60
  segment : o.bufLen = m.segLen ∧ o.txMore = false
  alone : o.Placed .alone
  noAck : o.noAck = (m.ismcast || m.isCtl)
  /-- a key is given for every frame, the last of the table for those without one -/
  keyed : o.destIdxValid = true ∧
    o.destIdx = if m.iswep then arDestIdx.cut (m.keyix.signExtend 32) else 0x7f
  /-- only shared-key authentication says how to encrypt, others go by what was there before -/
  encrType : o.encrType =
    if m.iswep = true ∧ m.fc0 &&& ieee80211Fc0SubtypeMask = ieee80211Fc0SubtypeAuth then
      arEncrType.cut (m.keytype.signExtend 32)
    else before.encrType
  rates : ∀ i, (o.series i).tries = 2 ∧ (o.series i).rate = (c.txrate m).setWidth 32 ∧
    (o.series i).chainSel = (arChainSel i).cut c.icTxChainmask
  /-- the threshold for RTS does not matter -/
  unguarded : ∀ i, o.guard i = .none
  interrupt : o.txIntrReq = true

/-- What the hardware is told of a BAR in the buffer of a data frame. -/
structure BarOrder (f : FrameFields) (len : ℕ) (segLen icTxChainmask : Word) (o : TxOrder) :
    Prop where
  frameLen : o.frameLen = arFrameLen.cut (BitVec.ofNat 32 (len + ieee80211CrcLen))
  frameType : o.frameType = halPktTypeNormal
  segment : o.bufLen = segLen ∧ o.txMore = false
  alone : o.Placed .alone
  acknowledged : o.noAck = false
  /-- the key and the cipher are those of the data frame -/
  keyed : o.destIdxValid = decide (f.bfKeyix ≠ halTxkeyixInvalid)
  key : f.bfKeyix ≠ halTxkeyixInvalid → o.destIdx = arDestIdx.cut f.bfKeyix
  encrType : o.encrType = arEncrType.cut f.bfKeytype
  rates : ∀ i, (o.series i).tries = 11 ∧ (o.series i).rate = 0x0b ∧
    (o.series i).chainSel = (arChainSel i).cut icTxChainmask
  /-- RTS is enabled, but no rate asks for it -/
  unguarded : o.rtsEnable = true ∧ ∀ i, o.guard i = .none
  interrupt : o.txIntrReq = true

/-- What the hardware is told of a beacon. -/
structure BeaconOrder (len : ℕ) (rate : BitVec 8) (icTxChainmask : Word) (o : TxOrder) : Prop where
  frameLen : o.frameLen = arFrameLen.cut (BitVec.ofNat 32 (len + ieee80211CrcLen))
  frameType : o.frameType = halPktTypeBeacon
  segment : o.bufLen.toNat = (len + 3) / 4 * 4 ∧ o.txMore = false
  alone : o.Placed .alone
  unacknowledged : o.noAck = true
  keyless : o.destIdxValid = false
  once : (o.series 0).tries = 1 ∧ (o.series 0).rate = rate.setWidth 32 ∧
    (o.series 0).chainSel = (arChainSel 0).cut icTxChainmask
  onlyOnce : ∀ i, i ≠ 0 → (o.series i).tries = 0
  unguarded : ∀ i, o.guard i = .none
  silent : o.txIntrReq = false

section

variable {c : MgtContext} {m : MgtFrame} {calls : List HalCall}

theorem atype_lt (m : MgtFrame) : m.atype.toNat < 2 ^ 4 := by
  rw [MgtFrame.atype]
  split
  · split
    · decide
    · split <;> decide
  · decide

theorem setWidth_lt (r : BitVec 8) : (r.setWidth 32).toNat < 2 ^ 8 := by
  rw [BitVec.toNat_setWidth, Nat.mod_eq_of_lt (r.isLt.trans (by decide))]
  exact r.isLt

theorem signExtend_ne_invalid (x : BitVec 8) : x.signExtend 32 ≠ halTxkeyixInvalid := by
  revert x
  decide

theorem on_txFlags_noack (thr : ℕ) :
    on (m.txFlags thr) halTxdescNoack = (m.ismcast || m.isCtl) := by
  by_cases hlong : thr < m.pktlen <;> cases hctl : m.isCtl <;> cases hmcast : m.ismcast <;>
    simp only [MgtFrame.txFlags, hctl, hmcast, hlong, if_true, if_false, Bool.false_eq_true] <;>
    decide

theorem cut_xmitRate (i : Fin 4) (r : BitVec 8) :
    (arXmitRate i).cut (r.setWidth 32) = r.setWidth 32 := by
  have hwide : ∀ i, (arXmitRate i).Wide 8 := by decide
  exact (hwide i).cut_of_lt (setWidth_lt r)

/-- A rate that does not ask for protection has none. -/
theorem guard_unasked {o : TxOrder} {en : Bool} {rate flags : Word}
    {series : Fin 4 → Hal11nRateSeries} (h : o.Rated en rate series flags) {i : Fin 4}
    (hflags : (series i).rateFlags = 0) : o.guard i = .none := by
  have hqual : (o.series i).rtsctsQual = false := by
    rw [h.series i]
    exact (congrArg (on · halRateseriesRtsCts) hflags).trans (by decide)
  rw [TxOrder.guard, hqual, if_neg Bool.false_ne_true]

theorem fits_filltxdesc {segLen : Word} (hseg : segLen.toNat < 2 ^ 12) :
    ∀ call ∈ athFilltxdescCalls segLen, call.Fits := by
  intro call hcall
  rw [List.mem_singleton.mp hcall]
  exact hseg

/-- An interface at 6 Mbit/s without a threshold for RTS. -/
def plainInterface : MgtContext where
  pCap := ⟨true, true, false⟩
  info := fun _ => ⟨.ofdm, 6000, 0x0b, 0⟩
  controlRate := fun _ => 0
  lpAckDuration := fun _ => 44
  spAckDuration := fun _ => 44
  scProtrix := 0
  minrateidx := 0
  ivRtsthreshold := 2346
  icTxChainmask := 1

/-- The third frame of a shared-key authentication, encrypted. -/
def sharedKeyAuth : MgtFrame where
  fc0 := ieee80211Fc0SubtypeAuth
  fc1 := ieee80211Fc1Wep
  ismcast := false
  len := 160
  segLen := 160
  flags := 0
  keyix := 1
  keytype := 1

/-- Whatever was in the descriptor before, a beacon goes out once, alone, without a key, an
acknowledgement or an interrupt. -/
theorem beacon_ordered {len : ℕ} (hlen : len < 4093) (rate : BitVec 8) (icTxChainmask : Word)
    (d : Ar5416Desc) :
    BeaconOrder len rate icTxChainmask
      (runCalls (athBeaconSetupCalls len rate icTxChainmask) d).order := by
  have hseg : (BitVec.ofNat 32 ((len + 3) / 4 * 4)).toNat = (len + 3) / 4 * 4 := by
    rw [BitVec.toNat_ofNat]
    omega
  have hfits : ∀ call ∈ athBeaconSetupCalls len rate icTxChainmask, call.Fits := by
    intro call hcall
    rcases List.mem_cons.mp hcall with rfl | hcall
    · exact ⟨by decide, setWidth_lt rate⟩
    · rcases List.mem_cons.mp hcall with rfl | hcall
      · exact lt_of_eq_of_lt hseg (by omega)
      · rw [List.mem_singleton.mp hcall]
        exact trivial
  rw [order_runCalls hfits]
  set first : Hal11nRateSeries :=
    { tries := 1, rate := rate.setWidth 32, chSel := icTxChainmask } with hfirst
  have hothers : ∀ i : Fin 4, i ≠ 0 →
      Function.update (fun (_ : Fin 4) => ({} : Hal11nRateSeries)) 0 first i = {} :=
    fun i hi => Function.update_of_ne hi ..
  have hflags : ∀ i : Fin 4,
      (Function.update (fun (_ : Fin 4) => ({} : Hal11nRateSeries)) 0 first i).rateFlags = 0 := by
    intro i
    rcases eq_or_ne i 0 with rfl | hi
    · rfl
    · rw [hothers i hi]
  have htries : (arXmitDataTries 0).cut 1 = 1 := by decide
  refine ⟨rfl, rfl, ⟨?_, rfl⟩, ⟨rfl, rfl⟩, ?_, ?_, ⟨htries, cut_xmitRate 0 rate, rfl⟩, ?_,
    fun i => guard_unasked (rated_order _ _ _ _ _) (hflags i), ?_⟩
  · exact (congrArg BitVec.toNat BitVec.zero_or).trans hseg
  · exact (by decide : on halTxdescNoack halTxdescNoack = true)
  · exact (by decide : decide (halTxkeyixInvalid ≠ halTxkeyixInvalid) = false)
  · intro i hi
    have hseries : (orderCalls (athBeaconSetupCalls len rate icTxChainmask) d.order).series i =
        ({} : Hal11nRateSeries).order i := by
      rw [← hothers i hi]
      rfl
    have hempty : ∀ i, (({} : Hal11nRateSeries).order i).tries = 0 := by decide
    rw [hseries]
    exact hempty i
  · exact (by decide : on halTxdescNoack halTxdescIntreq = false)

theorem beacon_of_hundred_bytes :
    BeaconOrder 100 0x1b 1 (runCalls (athBeaconSetupCalls 100 0x1b 1) {}).order :=
  beacon_ordered (by decide) 0x1b 1 {}

end

end Ath9kHtc.Tx
