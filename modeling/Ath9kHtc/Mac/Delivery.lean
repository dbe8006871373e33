import Ath9kHtc.Mac.Passes

/-!
# From the air to the host

In the main loop no interrupt is served between a scan and the receive tasklet, so every frame
keeps its place, and a pass that is told of reception gives the host what has come.
-/

namespace Ath9kHtc.Mac

open BitField Cmnos Framing
open Rx (Segment Handed Assembled NoneWaiting Taken)

variable {t t' t₂ : Target} {l : List Task} {c : Cause} {g : List Handed}

/-- After the start: the hardware stays within the longest packet, and the host neither starts,
stops nor flushes reception. -/
def Streams : Target → Event → Prop
  | t, .receive seg => Rx.Fits t.rx.cfg (openFrame Segment.more t.rx.received) seg
  | _, .startRecv => False
  | _, .stopRecv => False
  | _, .flushRecv => False
  | _, _ => True

instance (t : Target) (e : Event) : Decidable (Streams t e) :=
  match e with
  | .receive seg =>
    inferInstanceAs (Decidable (Rx.Fits t.rx.cfg (openFrame Segment.more t.rx.received) seg))
  | .startRecv | .stopRecv | .flushRecv => .isFalse id
  | .advance | .complete _ | .enableIntr _ | .init _ | .disableIntr
  | .procTxDesc _ | .isr _ _ | .run | .ret _ _ =>
    .isTrue trivial

/-- The loop has run since reception was started for the first time. -/
def Streaming (t : Target) : Prop :=
  ∃ cfg t₀ t₁, mainLoop.Reachable t₀ ∧ t₀.rx = Rx.attach cfg ∧ step .startRecv t₀ = some t₁ ∧
    mainLoop.StepsWhere Streams t₁ t

/-! ## The order of the frames -/

theorem Working.noneWaiting (h : Working t l) (hphase : t.phase = .host) : NoneWaiting t.rx := by
  refine h.receiving.waiting.resolve_left ?_
  rw [h.due_host hphase]
  exact List.not_mem_nil

/-- What a step does to the receive path. -/
theorem rx_cases {e : Event} (he : Streams t e) (hs : step e t = some t') : t'.rx = t.rx ∨
    (∃ e', Rx.Flows t.rx e' ∧ Rx.step e' t.rx = some t'.rx ∧ (∀ n, e' ≠ .interrupt n)) ∨
    ∃ n, t.phase = .host ∧ Rx.athUapsdProcesstriggers n t.rx = some t'.rx := by
  have hrx : ∀ {e : Rx.Event}, stepRx e t = some t' → Rx.step e t.rx = some t'.rx := by
    intro e hs
    obtain ⟨rx, hrx, rfl⟩ := Option.map_eq_some_iff.mp hs
    exact hrx
  cases e with
  | receive seg => exact .inr (.inl ⟨.receive seg, he, hrx hs, by simp⟩)
  | advance => exact .inr (.inl ⟨.advance, trivial, hrx hs, by simp⟩)
  | complete i => exact .inr (.inl ⟨.complete i, trivial, hrx (inPhase_eq hs).2, by simp⟩)
  | startRecv => exact he.elim
  | stopRecv => exact he.elim
  | flushRecv => exact he.elim
  | enableIntr intr =>
      obtain rfl := Option.some.inj (inPhase_eq hs).2
      exact .inl rfl
  | init ht =>
      obtain rfl := Option.some.inj (inPhase_eq hs).2
      exact .inl rfl
  | disableIntr =>
      obtain rfl := Option.some.inj (inPhase_eq hs).2
      exact .inl rfl
  | procTxDesc underruns =>
      obtain rfl := Option.some.inj (inPhase_eq hs).2
      exact .inl rfl
  | isr rounds c =>
      obtain ⟨hphase, hs⟩ := inPhase_eq hs
      obtain ⟨t₁, hisr, rfl⟩ := Option.map_eq_some_iff.mp hs
      rcases athIntr_cases hisr with ⟨-, rfl⟩ | ⟨mac, rx, -, hscan, rfl⟩
      · exact .inl rfl
      · split at hscan
        · exact .inr (.inr ⟨rounds, hphase, hscan⟩)
        · exact .inl (Option.some.inj hscan).symm
  | run =>
      obtain rfl := Option.some.inj (inPhase_eq hs).2
      exact .inl rfl
  | ret rounds underruns =>
      obtain ⟨u, -, hs⟩ := Option.bind_eq_some_iff.mp (inPhase_eq hs).2
      obtain ⟨t₁, hfunc, hs⟩ := Option.bind_eq_some_iff.mp hs
      obtain ⟨sched, -, rfl⟩ := Option.map_eq_some_iff.mp hs
      cases u with
      | rx =>
          obtain ⟨rx, htasklet, rfl⟩ := Option.map_eq_some_iff.mp hfunc
          exact .inr (.inl ⟨.tasklet rounds, trivial, htasklet, by simp⟩)
      | tx =>
          obtain rfl := Option.some.inj hfunc
          exact .inl rfl
      | bmiss =>
          obtain rfl := Option.some.inj hfunc
          exact .inl rfl
      | fatal =>
          obtain rfl := Option.some.inj hfunc
          exact .inl rfl

theorem Working.assembled {e : Event} (h : Working t l) (ha : Assembled t.rx) (he : Streams t e)
    (hs : Mac.step e t = some t') : Assembled t'.rx := by
  rcases rx_cases he hs with heq | ⟨e', he', hs', -⟩ | ⟨n, hphase, hscan⟩
  · rwa [heq]
  · exact ha.step he' hs'
  · exact ha.interrupt (.inl (h.noneWaiting hphase).head) hscan

theorem Streaming.invariant (h : Streaming t) : (∃ l, Working t l) ∧ Assembled t.rx := by
  obtain ⟨cfg, t₀, t₁, h₀, hrx, hstart, hs⟩ := h
  induction hs with
  | refl =>
      refine ⟨working (h₀.step trivial hstart), ?_⟩
      obtain ⟨rx, hrx', rfl⟩ := Option.map_eq_some_iff.mp (inPhase_eq hstart).2
      rw [hrx] at hrx'
      exact Rx.assembled_startrecv hrx'
  | tail _ last ih =>
      obtain ⟨e, he, hs⟩ := last
      obtain ⟨⟨l, hw⟩, ha⟩ := ih
      exact ⟨hw.step hs, hw.assembled ha he hs⟩

/-- The loop from the start of reception on. -/
theorem streaming_of_run {P : Target → Prop} [DecidablePred P] {t₁ : Target} (es : List Event)
    (hstart : step .startRecv (.attach Rx.smallConfig) = some t₁)
    (hrun : (Machine.runWhere step Streams es t₁).any (fun t => decide (P t)) = true) :
    ∃ t, Streaming t ∧ P t := by
  obtain ⟨t, steps, hP⟩ := Machine.exists_of_runWhere mainLoop.Init step Streams es hrun
  exact ⟨t, ⟨Rx.smallConfig, _, t₁, .init ⟨Rx.smallConfig, rfl⟩, rfl, hstart, steps⟩, hP⟩

/-- The hardware says that there is something for the receive path. -/
structure ReportsFrame (c : Cause) : Prop where
  pending : ar5416IsInterruptPending c = true
  irq : on c.asyncCause arIntrMacIrq = true
  awake : c.rtcStatus &&& arRtcStatusM = arRtcStatusOn
  read : c.isrRac ≠ 0xffffffff
  frame : on c.isrRac (arRxok ||| arRxerr) = true ∨ on c.isrRac HalInt.rxeol = true ∨
    on c.isrRac HalInt.rxorn = true

theorem ReportsFrame.receives {m : MacState} (hc : ReportsFrame c)
    (hrx : on m.scImask HalInt.rx = true) (hrxeol : on m.scImask HalInt.rxeol = true)
    (hrxorn : on m.scImask HalInt.rxorn = true) : receives (statusOf c m) = true := by
  have hpending : (ar5416GetPendingInterrupts c m).masked = maskedOf c := by
    rw [ar5416GetPendingInterrupts, if_neg (by simp [hc.irq]),
      if_neg (by rw [hc.awake]; exact fun hne => hne rfl), if_neg hc.read]
  rw [Mac.receives, statusOf, hpending, (getPendingInterrupts_sameMasks c m).imask,
    on_or_mask, on_or_mask, on_and (k := 0) (by decide) (by decide),
    on_and (k := 4) (by decide) (by decide), on_and (k := 5) (by decide) (by decide), hrx, hrxeol,
    hrxorn]
  simp only [maskedOf, on_or, Bool.and_true]
  rcases hc.frame with hframe | hframe | hframe
  · rw [hframe, on_flag (c := true = true) (g := HalInt.rx) (m := HalInt.rx) (by decide)]
    simp
  · rw [on_and (a := c.isrRac) (m := HalInt.rxeol) (k := 4) (by decide) (by decide), hframe,
      show on HalInt.common HalInt.rxeol = true by decide]
    simp
  · rw [on_and (a := c.isrRac) (m := HalInt.rxorn) (k := 5) (by decide) (by decide), hframe,
      show on HalInt.common HalInt.rxorn = true by decide]
    simp

/-- The frames `g` but for the last are with the host, or will be when the pass ends. -/
def Delivers (g : List Handed) (t : Target) : Prop :=
  g.dropLast <+: t.rx.handed ∨ (t.phase ≠ .host ∧ Taken g t.rx)

/-- With no frame in a record the frames are with the host. -/
theorem taken_handed (h : Taken g t.rx) (hn : NoneWaiting t.rx) : g.dropLast <+: t.rx.handed := by
  obtain ⟨h, C, U, W, X, F, as, hg⟩ := h
  obtain rfl := as.records.eq_nil hn.head
  have hhanded := as.handed
  rw [List.map_nil, List.append_nil] at hhanded
  rwa [hhanded]

/-- What is taken stays so, but for a scan. -/
theorem taken_step {e : Rx.Event} {s s' : Rx.RxState} (h : Taken g s) (he : Rx.Flows s e)
    (hne : ∀ n, e ≠ .interrupt n) (hs : Rx.step e s = some s') : Taken g s' := by
  cases e with
  | startRecv => exact he.elim
  | stopRecv => exact he.elim
  | flushRecv => exact he.elim
  | receive seg =>
      obtain ⟨h, C, U, W, X, F, as, hg⟩ := h
      obtain ⟨C', U', as'⟩ := as.receive he hs
      exact ⟨h, C', U', W, X, F, as', hg⟩
  | advance =>
      obtain ⟨h, C, U, W, X, F, as, hg⟩ := h
      exact ⟨h, C, U, W, X, F, as.advance hs, hg⟩
  | interrupt n => exact absurd rfl (hne n)
  | tasklet rounds =>
      refine Rx.tasklet_rule (P := Taken g) ?_ rounds h hs
      rintro s bf rest skb hbuf hdone hskb ⟨h, C, U, W, X, F, as, hg⟩
      obtain ⟨W', X', as'⟩ := as.handOver hbuf hdone hskb
      exact ⟨h, C, U, W', X', F, as', hg⟩
  | complete i =>
      obtain ⟨h, C, U, W, X, F, as, hg⟩ := h
      obtain ⟨h', U', as'⟩ := as.complete hs
      exact ⟨h', C, U', W, X, F, as', hg⟩

theorem Working.delivers {e : Event} (h : Working t l) (hg : Delivers g t) (he : Streams t e)
    (hs : Mac.step e t = some t') : Delivers g t' := by
  obtain ⟨l', hw'⟩ := h.step hs
  rcases hg with hg | ⟨hphase, htaken⟩
  · refine .inl (hg.trans ?_)
    rcases rx_cases he hs with heq | ⟨e', -, hs', -⟩ | ⟨n, -, hscan⟩
    · rw [heq]
    · exact Rx.step_handed h.receiving.attached hs'
    · rw [(Rx.scan_logs h.receiving.attached hscan).1]
  · have htaken' : Taken g t'.rx := by
      rcases rx_cases he hs with heq | ⟨e', he', hs', hne⟩ | ⟨n, hhost, -⟩
      · rwa [heq]
      · exact taken_step htaken he' hne hs'
      · exact absurd hhost hphase
    by_cases hhost : t'.phase = .host
    · exact .inl (taken_handed htaken' (hw'.noneWaiting hhost))
    · exact .inr ⟨hhost, htaken'⟩

/-- An interrupt that reports a frame takes what has come. -/
theorem Working.isr_delivers {rounds : ℕ} (h : Working t l) (ha : Assembled t.rx)
    (hinit : on t.mac.scImask HalInt.global = true) (hc : ReportsFrame c)
    (hs : Mac.step (.isr rounds c) t = some t') :
    Delivers ((frames Segment.more t.rx.received).map Handed.ofFrame) t' := by
  obtain ⟨hphase, hs⟩ := inPhase_eq hs
  obtain ⟨t₁, hisr, rfl⟩ := Option.map_eq_some_iff.mp hs
  have hframes := h.masks.frames hinit
  rw [h.due_host hphase] at hframes
  have hover := h.masks.overruns hinit
  have hreceives := hc.receives (hframes.resolve_right List.not_mem_nil) hover.1 hover.2
  rcases athIntr_cases hisr with ⟨hidle, -⟩ | ⟨mac, rx, -, hscan, rfl⟩
  · rw [hc.pending] at hidle
    cases hidle
  · rw [if_pos hreceives] at hscan
    refine .inr ⟨Phase.noConfusion, ?_⟩
    rw [← (Rx.scan_logs h.receiving.attached hscan).2]
    exact Rx.scan_taken ha (h.noneWaiting hphase) hscan

theorem delivers_run (h : ∃ l, Working t l) (hg : Delivers g t)
    (hrun : mainLoop.StepsWhere Streams t t') : (∃ l, Working t' l) ∧ Delivers g t' := by
  induction hrun with
  | refl => exact ⟨h, hg⟩
  | tail _ last ih =>
      obtain ⟨e, he, hs⟩ := last
      obtain ⟨⟨l, hw⟩, hg'⟩ := ih
      exact ⟨hw.step hs, hw.delivers hg' he hs⟩

theorem frameCause_reports : ReportsFrame frameCause where
  pending := by decide
  irq := by decide
  awake := by decide
  read := by decide
  frame := by decide

end Ath9kHtc.Mac
