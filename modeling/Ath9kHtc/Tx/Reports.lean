import Ath9kHtc.Tx.System
import Mathlib.Tactic.IntervalCases

/-!
# Entries of the transmit status events

What `ath_tx_status_update` and `ath_tx_status_update_aggr` write into the next slot of the
`tx_status` arrays, compared with what the frame itself says.  The slots keep what earlier
tasklets wrote, and only the first of the two writers wipes the flags.
-/

namespace Ath9kHtc.Tx

/-- A call of one of the two writers of a status entry. -/
inductive StatusCall
  | update (bf : BufId)
  | aggr (bf : BufId) (stat : TxStat) (rcs : Option (Fin 4 → RcSeries)) (txok : Bool)

/-- What a frame's own completion says: its cookie and endpoint, its outcome, and the series
the hardware used for it if the writer is told. -/
structure Outcome where
  cookie : BitVec 8
  endpt : EndpointId
  acked : Bool
  filtered : Bool
  rate : Option RcSeries
  deriving DecidableEq

namespace StatusCall

def run (s : TxState) : StatusCall → TxState
  | .update bf => athTxStatusUpdate s bf
  | .aggr bf stat rcs txok => athTxStatusUpdateAggr s bf stat rcs txok

/-- What the call is told about its frame. -/
def outcome (s : TxState) : StatusCall → Outcome
  | .update bf =>
    let stat := (s.ds (s.buf bf).bfLastds).dsTxstat
    { cookie := (s.buf bf).bfCookie
      endpt := (s.buf bf).bfEndpt
      acked := txAcked stat.tsStatus
      filtered := decide (stat.tsStatus &&& halTxerrFilt ≠ 0)
      rate := some ((s.buf bf).bfRcs stat.tsRate) }
  | .aggr bf stat rcs txok =>
    { cookie := (s.buf bf).bfCookie
      endpt := (s.buf bf).bfEndpt
      acked := txok
      filtered := false
      rate := rcs.map fun rcs => rcs stat.tsRate }

/-- The call finds a slot, in array `i`. -/
def Writes (s : TxState) (i : Fin 2) : Prop :=
  s.scTxDraining = false ∧ athTxStatusGet s = some i

/-- The entry the call leaves in the slot it fills. -/
def entry (c : StatusCall) (s : TxState) (i : Fin 2) : TxStatusEntry :=
  ((c.run s).txStatus i).txstatus (s.txStatus i).cnt

/-- The flags an earlier entry left in the slot, where the call does not wipe them. -/
def staleFlags (s : TxState) (i : Fin 2) : StatusCall → BitVec 8
  | .update _ => 0
  | .aggr .. => ((s.txStatus i).txstatus (s.txStatus i).cnt).tsFlags

end StatusCall

namespace Outcome

def ht (cfg : Config) (o : Outcome) : Bool :=
  o.rate.any fun rc => cfg.rateCode rc.rix &&& 0x80 ≠ 0

def hasRateFlag (flag : BitVec 16) (o : Outcome) : Bool :=
  o.rate.any fun rc => rc.flags &&& flag ≠ 0

/-- The low half of `ts_rate`. -/
def rateIndex (cfg : Config) (o : Outcome) : BitVec 8 :=
  match o.rate with
  | none => 0
  | some rc => (if o.ht cfg then cfg.dot11Rate rc.rix else BitVec.ofNat 8 rc.rix) &&& 0x0f

/-- An entry that says of the frame what its own outcome and rate say, and nothing else. -/
structure Reported (cfg : Config) (o : Outcome) (e : TxStatusEntry) : Prop where
  cookie : e.cookie = o.cookie
  tsRate : e.tsRate = txstatEpid o.endpt ||| o.rateIndex cfg
  ack : e.tsFlags &&& ath9kHtcTxstatAck ≠ 0 ↔ o.acked
  filt : e.tsFlags &&& ath9kHtcTxstatFilt ≠ 0 ↔ o.filtered
  rtcCts : e.tsFlags &&& ath9kHtcTxstatRtcCts ≠ 0 ↔ o.hasRateFlag athRcRtsctsFlag
  mcs : e.tsFlags &&& ath9kHtcTxstatMcs ≠ 0 ↔ o.ht cfg
  cw40 : e.tsFlags &&& ath9kHtcTxstatCw40 ≠ 0 ↔ o.ht cfg ∧ o.hasRateFlag athRcCw40Flag
  sgi : e.tsFlags &&& ath9kHtcTxstatSgi ≠ 0 ↔ o.ht cfg ∧ o.hasRateFlag athRcHt40SgiFlag
  other : e.tsFlags &&& 0xc0 = 0

/-- A flag of the entry, or nothing. -/
def flag (set : Bool) (mask : BitVec 8) : BitVec 8 := if set then mask else 0

theorem flag_decide (p : Prop) [Decidable p] (mask : BitVec 8) :
    flag (decide p) mask = if p then mask else 0 := by
  simp [flag]

/-- The flags that the frame's own outcome and rate set. -/
def tsFlags (cfg : Config) (o : Outcome) : BitVec 8 :=
  flag o.filtered ath9kHtcTxstatFilt ||| flag o.acked ath9kHtcTxstatAck |||
    flag (o.ht cfg) ath9kHtcTxstatMcs |||
    flag (o.ht cfg && o.hasRateFlag athRcCw40Flag) ath9kHtcTxstatCw40 |||
    flag (o.ht cfg && o.hasRateFlag athRcHt40SgiFlag) ath9kHtcTxstatSgi |||
    flag (o.hasRateFlag athRcRtsctsFlag) ath9kHtcTxstatRtcCts

def toEntry (cfg : Config) (o : Outcome) : TxStatusEntry :=
  { cookie := o.cookie
    tsRate := txstatEpid o.endpt ||| o.rateIndex cfg
    tsFlags := o.tsFlags cfg }

end Outcome

/-! ## Flags bit by bit -/

theorem txstat_bits (f : BitVec 8) :
    (f &&& ath9kHtcTxstatAck ≠ 0 ↔ f.getLsbD 0) ∧ (f &&& ath9kHtcTxstatFilt ≠ 0 ↔ f.getLsbD 1) ∧
      (f &&& ath9kHtcTxstatRtcCts ≠ 0 ↔ f.getLsbD 2) ∧
      (f &&& ath9kHtcTxstatMcs ≠ 0 ↔ f.getLsbD 3) ∧
      (f &&& ath9kHtcTxstatCw40 ≠ 0 ↔ f.getLsbD 4) ∧
      (f &&& ath9kHtcTxstatSgi ≠ 0 ↔ f.getLsbD 5) ∧
      (f &&& 0xc0 = 0 ↔ f.getLsbD 6 = false ∧ f.getLsbD 7 = false) := by
  revert f
  decide +kernel

theorem flag_bits (ack filt rtcCts mcs cw40 sgi : Bool) :
    let f := Outcome.flag filt ath9kHtcTxstatFilt ||| Outcome.flag ack ath9kHtcTxstatAck |||
      Outcome.flag mcs ath9kHtcTxstatMcs ||| Outcome.flag cw40 ath9kHtcTxstatCw40 |||
      Outcome.flag sgi ath9kHtcTxstatSgi ||| Outcome.flag rtcCts ath9kHtcTxstatRtcCts
    f.getLsbD 0 = ack ∧ f.getLsbD 1 = filt ∧ f.getLsbD 2 = rtcCts ∧ f.getLsbD 3 = mcs ∧
      f.getLsbD 4 = cw40 ∧ f.getLsbD 5 = sgi ∧ f.getLsbD 6 = false ∧ f.getLsbD 7 = false := by
  revert ack filt rtcCts mcs cw40 sgi
  decide +kernel

theorem byte_ext {f g : BitVec 8} (h0 : f.getLsbD 0 = g.getLsbD 0) (h1 : f.getLsbD 1 = g.getLsbD 1)
    (h2 : f.getLsbD 2 = g.getLsbD 2) (h3 : f.getLsbD 3 = g.getLsbD 3)
    (h4 : f.getLsbD 4 = g.getLsbD 4) (h5 : f.getLsbD 5 = g.getLsbD 5)
    (h6 : f.getLsbD 6 = g.getLsbD 6) (h7 : f.getLsbD 7 = g.getLsbD 7) : f = g := by
  apply BitVec.eq_of_getLsbD_eq
  intro i hi
  interval_cases i <;> assumption

namespace Outcome

variable {cfg : Config} {o : Outcome} {e : TxStatusEntry}

theorem reported_toEntry (cfg : Config) (o : Outcome) : o.Reported cfg (o.toEntry cfg) := by
  have hbits := txstat_bits (o.tsFlags cfg)
  have hown := flag_bits o.acked o.filtered (o.hasRateFlag athRcRtsctsFlag) (o.ht cfg)
    (o.ht cfg && o.hasRateFlag athRcCw40Flag) (o.ht cfg && o.hasRateFlag athRcHt40SgiFlag)
  rcases hbits with ⟨hack, hfilt, hrts, hmcs, hcw40, hsgi, hother⟩
  rcases hown with ⟨oack, ofilt, orts, omcs, ocw40, osgi, o6, o7⟩
  constructor
  · rfl
  · rfl
  · exact hack.trans (iff_of_eq (congrArg (· = true) oack))
  · exact hfilt.trans (iff_of_eq (congrArg (· = true) ofilt))
  · exact hrts.trans (iff_of_eq (congrArg (· = true) orts))
  · exact hmcs.trans (iff_of_eq (congrArg (· = true) omcs))
  · exact (hcw40.trans (iff_of_eq (congrArg (· = true) ocw40))).trans Bool.and_eq_true_iff
  · exact (hsgi.trans (iff_of_eq (congrArg (· = true) osgi))).trans Bool.and_eq_true_iff
  · exact hother.mpr ⟨o6, o7⟩

/-- A frame's outcome determines the entry that reports it. -/
theorem Reported.unique {e e' : TxStatusEntry} (h : o.Reported cfg e) (h' : o.Reported cfg e') :
    e = e' := by
  have hflags : e.tsFlags = e'.tsFlags := by
    have hb := txstat_bits e.tsFlags
    have hb' := txstat_bits e'.tsFlags
    apply byte_ext
    · exact Bool.eq_iff_iff.mpr ((hb.1.symm.trans h.ack).trans (h'.ack.symm.trans hb'.1))
    · exact Bool.eq_iff_iff.mpr
        ((hb.2.1.symm.trans h.filt).trans (h'.filt.symm.trans hb'.2.1))
    · exact Bool.eq_iff_iff.mpr
        ((hb.2.2.1.symm.trans h.rtcCts).trans (h'.rtcCts.symm.trans hb'.2.2.1))
    · exact Bool.eq_iff_iff.mpr
        ((hb.2.2.2.1.symm.trans h.mcs).trans (h'.mcs.symm.trans hb'.2.2.2.1))
    · exact Bool.eq_iff_iff.mpr
        ((hb.2.2.2.2.1.symm.trans h.cw40).trans (h'.cw40.symm.trans hb'.2.2.2.2.1))
    · exact Bool.eq_iff_iff.mpr
        ((hb.2.2.2.2.2.1.symm.trans h.sgi).trans (h'.sgi.symm.trans hb'.2.2.2.2.2.1))
    · exact (hb.2.2.2.2.2.2.mp h.other).1.trans (hb'.2.2.2.2.2.2.mp h'.other).1.symm
    · exact (hb.2.2.2.2.2.2.mp h.other).2.trans (hb'.2.2.2.2.2.2.mp h'.other).2.symm
  cases e
  cases e'
  simp only [TxStatusEntry.mk.injEq]
  exact ⟨h.cookie.trans h'.cookie.symm, h.tsRate.trans h'.tsRate.symm, hflags⟩

theorem reported_iff : o.Reported cfg e ↔ e = o.toEntry cfg :=
  ⟨fun h => h.unique (reported_toEntry cfg o), fun h => h ▸ reported_toEntry cfg o⟩

end Outcome

/-! ## What the writers write -/

section

variable (s : TxState) (i : Fin 2) (f : TxStatusEntry → TxStatusEntry)

theorem putTxStatus_entry :
    ((putTxStatus s i f).txStatus i).txstatus (s.txStatus i).cnt =
      f ((s.txStatus i).txstatus (s.txStatus i).cnt) := by
  simp [putTxStatus]

/-- `ath_tx_status_update_rate` adds the rate and its flags to an entry. -/
theorem athTxStatusUpdateRate_eq (cfg : Config) (rc : RcSeries) (e : TxStatusEntry) (o : Outcome)
    (hrate : o.rate = some rc) :
    athTxStatusUpdateRate cfg rc e =
      { e with
        tsRate := e.tsRate ||| o.rateIndex cfg
        tsFlags := e.tsFlags ||| Outcome.flag (o.ht cfg) ath9kHtcTxstatMcs |||
          Outcome.flag (o.ht cfg && o.hasRateFlag athRcCw40Flag) ath9kHtcTxstatCw40 |||
          Outcome.flag (o.ht cfg && o.hasRateFlag athRcHt40SgiFlag) ath9kHtcTxstatSgi |||
          Outcome.flag (o.hasRateFlag athRcRtsctsFlag) ath9kHtcTxstatRtcCts } := by
  simp only [athTxStatusUpdateRate, Outcome.rateIndex, Outcome.ht, Outcome.hasRateFlag,
    Outcome.flag, hrate, Option.any_some, decide_eq_true_eq, Bool.and_eq_true]

end

namespace StatusCall

variable {s : TxState} {i : Fin 2}

theorem entry_update (bf : BufId) (h : Writes s i) :
    (StatusCall.update bf).entry s i =
      ((StatusCall.update bf).outcome s).toEntry s.cfg := by
  rw [entry, run, athTxStatusUpdate, h.1, h.2]
  simp only [Bool.false_eq_true, if_false]
  rw [putTxStatus_entry,
    athTxStatusUpdateRate_eq s.cfg _ _ ((StatusCall.update bf).outcome s) rfl]
  simp only [Outcome.toEntry, Outcome.tsFlags, outcome, Outcome.flag_decide]
  rfl

theorem entry_aggr (bf : BufId) (stat : TxStat) (rcs : Option (Fin 4 → RcSeries)) (txok : Bool)
    (h : Writes s i) :
    (StatusCall.aggr bf stat rcs txok).entry s i =
      { ((StatusCall.aggr bf stat rcs txok).outcome s).toEntry s.cfg with
        tsFlags := ((s.txStatus i).txstatus (s.txStatus i).cnt).tsFlags |||
          ((StatusCall.aggr bf stat rcs txok).outcome s).tsFlags s.cfg } := by
  rw [entry, run, athTxStatusUpdateAggr, h.1, h.2]
  simp only [Bool.false_eq_true, if_false]
  rw [putTxStatus_entry]
  cases rcs with
  | none =>
      cases txok <;>
        simp [outcome, Outcome.toEntry, Outcome.tsFlags, Outcome.flag, Outcome.rateIndex,
          Outcome.ht, Outcome.hasRateFlag]
  | some rcs =>
      dsimp only
      rw [athTxStatusUpdateRate_eq s.cfg _ _ ((StatusCall.aggr bf stat (some rcs) txok).outcome s)
        rfl]
      cases txok <;>
        simp [outcome, Outcome.toEntry, Outcome.tsFlags, Outcome.flag, BitVec.or_assoc]

/-- What a call writes: the frame's own entry over the flags that were left in the slot. -/
theorem entry_eq (c : StatusCall) (h : Writes s i) :
    c.entry s i =
      { (c.outcome s).toEntry s.cfg with
        tsFlags := c.staleFlags s i ||| (c.outcome s).tsFlags s.cfg } := by
  cases c with
  | update bf =>
      rw [entry_update bf h]
      simp [staleFlags, Outcome.toEntry]
  | aggr bf stat rcs txok => exact entry_aggr bf stat rcs txok h

/-- The flags left in the slot are flags the frame sets itself. -/
def Unstained (s : TxState) (i : Fin 2) (c : StatusCall) : Prop :=
  c.staleFlags s i ||| (c.outcome s).tsFlags s.cfg = (c.outcome s).tsFlags s.cfg

instance decidableUnstained (s : TxState) (i : Fin 2) (c : StatusCall) :
    Decidable (Unstained s i c) := inferInstanceAs (Decidable (_ = _))

theorem unstained_update (bf : BufId) : Unstained s i (.update bf) :=
  BitVec.zero_or

theorem reported_entry_iff (c : StatusCall) (h : Writes s i) :
    (c.outcome s).Reported s.cfg (c.entry s i) ↔ Unstained s i c := by
  rw [Outcome.reported_iff, entry_eq c h, Unstained, Outcome.toEntry]
  simp only [TxStatusEntry.mk.injEq, true_and]

end StatusCall

/-- Two completions of a frame with one outcome leave one entry, which speaks of that outcome
only, exactly if neither finds flags in its slot that the frame does not set itself. -/
theorem entry_of_own_frame {s₁ s₂ : TxState} {i₁ i₂ : Fin 2} (c₁ c₂ : StatusCall)
    (h₁ : StatusCall.Writes s₁ i₁) (h₂ : StatusCall.Writes s₂ i₂) (hcfg : s₁.cfg = s₂.cfg)
    (hsame : c₁.outcome s₁ = c₂.outcome s₂) :
    (c₁.entry s₁ i₁ = c₂.entry s₂ i₂ ∧
        (c₁.outcome s₁).Reported s₁.cfg (c₁.entry s₁ i₁) ∧
        (c₂.outcome s₂).Reported s₂.cfg (c₂.entry s₂ i₂)) ↔
      StatusCall.Unstained s₁ i₁ c₁ ∧ StatusCall.Unstained s₂ i₂ c₂ := by
  rw [StatusCall.reported_entry_iff c₁ h₁, StatusCall.reported_entry_iff c₂ h₂]
  constructor
  · exact And.right
  · intro hclean
    refine ⟨?_, hclean⟩
    have own₁ := (StatusCall.reported_entry_iff c₁ h₁).mpr hclean.1
    have own₂ := (StatusCall.reported_entry_iff c₂ h₂).mpr hclean.2
    rw [← hsame, ← hcfg] at own₂
    exact own₁.unique own₂

/-- A completed single frame, reported in the first slot or behind an earlier entry. -/
theorem entry_of_own_frame_run :
    ∃ s₁ s₂ : TxState, ∃ i₁ i₂ : Fin 2, (s₁.txStatus i₁).cnt ≠ (s₂.txStatus i₂).cnt ∧
      (StatusCall.update 0).entry s₁ i₁ = (StatusCall.update 0).entry s₂ i₂ ∧
      ((StatusCall.update 0).outcome s₁).Reported s₁.cfg ((StatusCall.update 0).entry s₁ i₁) := by
  have h₁ : StatusCall.Writes (attachTx smallConfig steadyAnswers) 0 := ⟨rfl, by decide⟩
  have h₂ : StatusCall.Writes (athTxStatusUpdate (attachTx smallConfig steadyAnswers) 1) 0 :=
    ⟨rfl, by decide⟩
  have hentry := (entry_of_own_frame (.update 0) (.update 0) h₁ h₂ rfl (by decide)).mpr
    (by decide)
  exact ⟨_, _, 0, 0, by decide, hentry.1, hentry.2.1⟩

/-- The first entry a round writes. -/
def nextEntry (sc sc' : Softc) : Option TxStatusEntry :=
  (athTxStatusGet sc.tx).map fun i => (sc'.tx.txStatus i).txstatus (sc.tx.txStatus i).cnt

/-- The first frame of a queue is the first of an aggregate whose TID is in cleanup: the round
reports it as not sent, whatever the hardware says. -/
def CleansUp (sc : Softc) (q : QueueId) (bf : BufId) : Prop :=
  (sc.tx.txq q).axqQ.head? = some bf ∧ (sc.tx.buf bf).bfComp = some .aggr ∧
    (sc.tx.buf bf).bfIsaggr = true ∧
    (sc.tx.tidOf bf).any (fun k => (sc.tx.tid k).cleanupInprogres) = true

instance decidableCleansUp (sc : Softc) (q : QueueId) (bf : BufId) :
    Decidable (CleansUp sc q bf) := inferInstanceAs (Decidable (_ ∧ _ ∧ _ ∧ _))

/-- What a writer is told about a frame of an aggregate that is alike in two states. -/
def SameCompletion (sc₁ sc₂ : Softc) (bf : BufId) : Prop :=
  (sc₁.tx.buf bf).bfCookie = (sc₂.tx.buf bf).bfCookie ∧
    (sc₁.tx.buf bf).bfEndpt = (sc₂.tx.buf bf).bfEndpt ∧
    (sc₁.tx.buf bf).bfRcs = (sc₂.tx.buf bf).bfRcs

instance decidableSameCompletion (sc₁ sc₂ : Softc) (bf : BufId) :
    Decidable (SameCompletion sc₁ sc₂ bf) := inferInstanceAs (Decidable (_ ∧ _ ∧ _))

/-- An acknowledged frame, then an aggregate of two whose TID is being cleaned up; the tasklet
that reports the first may end before the aggregate completes. -/
def cleanedUpEvents (between : List Event) : List Event :=
  [.icUpdate 65535 false, .nodeCreate (createNode 0), .enableAggr 0 0 true,
    .recvData 0 (dataTo 0) blankFrame, .recvData 0 (dataTo 0) blankFrame,
    .recvData 0 (dataTo 0) blankFrame, .processq 0 .active sent] ++ between ++
    [.enableAggr 0 0 false]

/-- A frame that was not sent is reported as acknowledged, because an earlier one was. -/
theorem stale_ack_reported :
    ¬ ∀ (sc₀ sc₁ sc₂ sc₁' sc₂' : Softc) (q : QueueId) (stat : TxStat) (bf : BufId),
      transmit.Init sc₀ → transmit.StepsWhere (fun _ _ => True) sc₀ sc₁ →
      transmit.StepsWhere (fun _ _ => True) sc₀ sc₂ →
      CleansUp sc₁ q bf → CleansUp sc₂ q bf → SameCompletion sc₁ sc₂ bf →
      step (.processq q .active (some stat)) sc₁ = some sc₁' →
      step (.processq q .active (some stat)) sc₂ = some sc₂' →
      nextEntry sc₁ sc₁' = nextEntry sc₂ sc₂' := by
  intro h
  let sc₀ := attach smallConfig steadyAnswers
  obtain ⟨sc₁, steps₁, clean₁, frame₁, entry₁⟩ := Machine.exists_of_runWhere transmit.Init step
    (fun _ _ => True)
    (P := fun sc : Softc => CleansUp sc 0 2 ∧ SameCompletion sc sc₀ 2 ∧
      (step (.processq 0 .active failed) sc).map (nextEntry sc) =
        some (some { tsFlags := ath9kHtcTxstatAck }))
    (s := sc₀) (cleanedUpEvents [.statusSend, .statusClear]) (by decide +kernel)
  obtain ⟨sc₂, steps₂, clean₂, frame₂, entry₂⟩ := Machine.exists_of_runWhere transmit.Init step
    (fun _ _ => True)
    (P := fun sc : Softc => CleansUp sc 0 2 ∧ SameCompletion sc sc₀ 2 ∧
      (step (.processq 0 .active failed) sc).map (nextEntry sc) = some (some {}))
    (s := sc₀) (cleanedUpEvents []) (by decide +kernel)
  obtain ⟨sc₁', step₁, flags₁⟩ := Option.map_eq_some_iff.mp entry₁
  obtain ⟨sc₂', step₂, flags₂⟩ := Option.map_eq_some_iff.mp entry₂
  have hsame : SameCompletion sc₁ sc₂ 2 :=
    ⟨frame₁.1.trans frame₂.1.symm, frame₁.2.1.trans frame₂.2.1.symm,
      frame₁.2.2.trans frame₂.2.2.symm⟩
  have hentry := h sc₀ sc₁ sc₂ sc₁' sc₂' 0 { tsStatus := halTxerrXretry } 2
    ⟨_, _, by decide, rfl⟩ steps₁ steps₂ clean₁ clean₂ hsame step₁ step₂
  rw [flags₁, flags₂] at hentry
  exact absurd hentry (by decide)

end Ath9kHtc.Tx
