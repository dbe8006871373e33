import Ath9kHtc.Mac.MainLoop

/-!
# The passes of the main loop

What every step of the loop and of the hardware keeps: the masks are those of the driver, a frame
waits only while the receive tasklet is due, and a pass comes to its end.
-/

namespace Ath9kHtc.Mac

open BitField Cmnos

variable {t t' : Target} {m m' : MacState} {s s' : Rx.RxState} {l p p' : List Task} {c : Cause}
  {status : Word}

/-! ## The receive path -/

/-- A frame waits in a record only while the receive tasklet is among those due. -/
structure Receiving (s : Rx.RxState) (p : List Task) : Prop where
  attached : Rx.Attached s
  bounded : ∃ W X, Rx.Bounded s W X
  waiting : Task.rx ∈ p ∨ Rx.NoneWaiting s

namespace Receiving

theorem mono (h : Receiving s p) (hp : Task.rx ∈ p → Task.rx ∈ p') : Receiving s p' :=
  ⟨h.attached, h.bounded, h.waiting.imp_left hp⟩

/-- What the hardware, a completion, a start or a stop does. -/
theorem step {e : Rx.Event} (h : Receiving s p) (hs : Rx.step e s = some s')
    (he : e = .startRecv ∨ e = .stopRecv ∨ (∃ seg, e = .receive seg) ∨ e = .advance ∨
      ∃ i, e = .complete i) : Receiving s' p := by
  obtain ⟨W, X, hb⟩ := h.bounded
  have hidle : Rx.FlushesIdle s e := by
    rcases he with rfl | rfl | ⟨seg, rfl⟩ | rfl | ⟨i, rfl⟩ <;> trivial
  refine ⟨h.attached.step hs, hb.step h.attached hidle hs, h.waiting.imp_right fun hn => ?_⟩
  rw [Rx.NoneWaiting, Rx.step_scRxbuf h.attached hs he]
  exact hn

/-- Between the passes a flush finds no frame. -/
theorem flush (h : Receiving s []) (hs : Rx.athFlushrecvTgt s = some s') : Receiving s' [] := by
  obtain ⟨W, X, hb⟩ := h.bounded
  have hn : Rx.NoneWaiting s := h.waiting.resolve_left List.not_mem_nil
  have hidle : Rx.FlushesIdle s .flushRecv := by
    intro bf hbf
    obtain rfl := hb.waiting.eq_nil hn.head
    rw [hb.waiting.list] at hbf
    exact (hb.waiting.free bf hbf).2
  exact ⟨h.attached.step (e := .flushRecv) hs, hb.step (e := .flushRecv) h.attached hidle hs,
    .inr (Rx.flush_noneWaiting hn hs)⟩

theorem scan {n : ℕ} (h : Receiving s p) (hs : Rx.athUapsdProcesstriggers n s = some s')
    (hp : Task.rx ∈ p') : Receiving s' p' := by
  obtain ⟨W, X, hb⟩ := h.bounded
  exact ⟨h.attached.step (e := .interrupt n) hs,
    hb.step (e := .interrupt n) h.attached trivial hs, .inl hp⟩

/-- The tasklet leaves no frame behind. -/
theorem tasklet {n : ℕ} (h : Receiving s p) (hs : Rx.athTgtRxTasklet n s = some s') :
    Receiving s' p' := by
  obtain ⟨W, X, hb⟩ := h.bounded
  obtain ⟨W', X', hb'⟩ := hb.step (e := .tasklet n) h.attached trivial hs
  exact ⟨h.attached.step (e := .tasklet n) hs, ⟨W', X', hb'⟩,
    .inr (hb'.waiting.noneWaiting (Rx.tasklet_head n hs))⟩

end Receiving

/-! ## The masks -/

/-- The hardware has the masks of the driver, and the driver masks reception only while the receive
tasklet is among those due. -/
structure Masks (m : MacState) (p : List Task) : Prop where
  masked : Masked m
  follows : Follows m
  overruns : on m.scImask HalInt.global = true →
    on m.scImask HalInt.rxeol = true ∧ on m.scImask HalInt.rxorn = true
  frames : on m.scImask HalInt.global = true → on m.scImask HalInt.rx = true ∨ Task.rx ∈ p

namespace Masks

theorem mono (h : Masks m p) (hp : Task.rx ∈ p → Task.rx ∈ p') : Masks m p' :=
  ⟨h.masked, h.follows, h.overruns, fun hglobal => (h.frames hglobal).imp_right hp⟩

theorem congr (h : Masks m p) (hsame : SameMasks m m') : Masks m' p where
  masked := hsame.masked h.masked
  follows := hsame.follows h.follows
  overruns := by
    rw [hsame.imask]
    exact h.overruns
  frames := by
    rw [hsame.imask]
    exact h.frames

/-- New masks go to the hardware. -/
theorem set (hm : Masked m) (imask : Word)
    (hover : on imask HalInt.global = true →
      on imask HalInt.rxeol = true ∧ on imask HalInt.rxorn = true)
    (hrx : on imask HalInt.global = true → on imask HalInt.rx = true ∨ Task.rx ∈ p) :
    Masks (setInterruptsImask (setImask imask m)) p :=
  ⟨(hm.setImask imask).setInterruptsImask, follows_setInterruptsImask _, hover, hrx⟩

theorem enableIntr (h : Masks m p) (intr : Word) : Masks (athEnableIntrTgt intr m) p := by
  have hother : ∀ bit, HalInt.swba &&& bit = 0 → HalInt.bmiss &&& bit = 0 →
      on (if on intr HalInt.bmiss then
          (if on intr HalInt.swba then m.scImask ||| HalInt.swba
            else m.scImask &&& ~~~HalInt.swba) ||| HalInt.bmiss
        else if on intr HalInt.swba then m.scImask ||| HalInt.swba
          else m.scImask &&& ~~~HalInt.swba) bit = on m.scImask bit := by
    intro bit hswba hbmiss
    split <;> split <;>
      simp [on_or, on_of_disjoint hswba, on_of_disjoint hbmiss, on_clear_of_disjoint hswba]
  rw [athEnableIntrTgt]
  refine set h.masked _ ?_ ?_
  · rw [hother _ (by decide) (by decide), hother _ (by decide) (by decide),
      hother _ (by decide) (by decide)]
    exact h.overruns
  · rw [hother _ (by decide) (by decide), hother _ (by decide) (by decide)]
    exact h.frames

theorem init (h : Masks m p) (ht : Bool) : Masks (athInitTgt ht m) p := by
  refine set h.masked _ (fun _ => ?_) fun _ => .inl ?_
  · cases ht <;> decide
  · cases ht <;> decide

theorem disableIntr (h : Masks m p) : Masks (athDisableIntrTgt m) p :=
  ⟨h.masked.setInterrupts 0, .inr rfl, h.overruns, h.frames⟩

theorem unmaskRx (h : Masks m p) : Masks (unmaskRx m) p' := by
  have hother : ∀ bit, HalInt.rx &&& bit = 0 →
      on (m.scImask ||| HalInt.rx) bit = on m.scImask bit := by
    intro bit hbit
    rw [on_or, on_of_disjoint hbit, Bool.or_false]
  refine set h.masked _ ?_ fun _ => .inl ?_
  · rw [hother _ (by decide), hother _ (by decide), hother _ (by decide)]
    exact h.overruns
  · rw [on_or, show on HalInt.rx HalInt.rx = true by decide, Bool.or_true]

theorem maskRx (h : Masks m p) (hp : Task.rx ∈ p') : Masks (maskRx m) p' := by
  refine set h.masked _ ?_ fun _ => .inr hp
  rw [on_clear_of_disjoint (by decide), on_clear_of_disjoint (by decide),
    on_clear_of_disjoint (by decide)]
  exact h.overruns

end Masks

theorem bump_sameMasks (counts : Bool) (f : Wmi.IntStats → Wmi.IntStats) (m : MacState) :
    SameMasks m (bump counts f m) := by
  rw [bump]
  split <;> exact ⟨rfl, rfl, rfl, rfl⟩

/-- The branches of `ath_intr` change the masks where the status is about reception, and nowhere
else. -/
theorem macStatus_spec (hm : Masked m) : ∃ m₁, SameMasks m m₁ ∧
    SameMasks (if receives status then maskRx m₁ else m₁) (macStatus c status m) := by
  have hswba : SameMasks m
      (if on status HalInt.swba then { m with scSwbaTsf := c.swbaTsf } else m) := by
    split <;> exact ⟨rfl, rfl, rfl, rfl⟩
  have hbefore := (hswba.trans (bump_sameMasks (on status HalInt.rxorn)
    (fun s => { s with astRxorn := s.astRxorn + 1 }) _)).trans
    (bump_sameMasks (on status HalInt.rxeol) (fun s => { s with astRxeol := s.astRxeol + 1 }) _)
  have hafter : ∀ m₂, Masked m₂ → SameMasks m₂
      (bump (on status HalInt.cst) (fun s => { s with astCst := s.astCst + 1 })
        (bump (on status HalInt.gtt) (fun s => { s with astTxto := s.astTxto + 1 })
          (if on status HalInt.txurn then
            (ar5416UpdateTxTrigLevel true
              (bump true (fun s => { s with astTxurn := s.astTxurn + 1 }) m₂)).2
          else m₂))) := by
    intro m₂ hm₂
    refine SameMasks.trans ?_ ((bump_sameMasks _ _ _).trans (bump_sameMasks _ _ _))
    split
    · have hcount := bump_sameMasks true
        (fun s : Wmi.IntStats => { s with astTxurn := s.astTxurn + 1 }) m₂
      exact hcount.trans (updateTxTrigLevel_sameMasks (hcount.masked hm₂) true)
    · exact .refl m₂
  rw [macStatus]
  by_cases hr : receives status = true
  · have hrx := hbefore.trans (bump_sameMasks (on status HalInt.rx)
      (fun s => { s with astRx := s.astRx + 1 }) _)
    refine ⟨_, hrx, ?_⟩
    simp only [if_pos hr]
    refine hafter _ ?_
    exact ((hrx.masked hm).setImask _).setInterruptsImask
  · refine ⟨_, hbefore, ?_⟩
    simp only [if_neg hr]
    exact hafter _ (hbefore.masked hm)

/-! ## The interrupt -/

theorem statusOf_fatal (c : Cause) (m : MacState) : on (statusOf c m) HalInt.fatal = false := by
  rw [statusOf, on_and (k := 30) (by decide) (by decide), fatal_notMem_masked, Bool.false_and]

/-- What `ath_intr` can do. -/
theorem athIntr_cases {rounds : ℕ} (hs : athIntr rounds c t = some t') :
    (ar5416IsInterruptPending c = false ∧ t' = t) ∨ ∃ mac rx, SameMasks t.mac mac ∧
      (if receives (statusOf c t.mac) then Rx.athUapsdProcesstriggers rounds t.rx
        else some t.rx) = some rx ∧
      t' = { t with
        mac := macStatus c (statusOf c t.mac) mac
        sched := schedStatus (statusOf c t.mac) t.sched
        rx := rx
        events := if on (statusOf c t.mac) HalInt.swba then
          .swba c.tsf c.beaconPending :: t.events else t.events } := by
  rw [athIntr] at hs
  split at hs
  · exact .inl ⟨‹_›, (Option.some.inj hs).symm⟩
  · have hnot : ¬ on (statusOf c t.mac) HalInt.fatal = true := by
      rw [statusOf_fatal]
      exact Bool.false_ne_true
    rw [handleStatus, if_neg hnot] at hs
    obtain ⟨rx, hrx, rfl⟩ := Option.map_eq_some_iff.mp hs
    exact .inr ⟨_, rx, getPendingInterrupts_sameMasks c t.mac, hrx, rfl⟩

theorem athIntr_returns {n : ℕ} {rx : Rx.RxState} (c : Cause)
    (hrx : Rx.athUapsdProcesstriggers n t.rx = some rx) : ∃ t₁, athIntr n c t = some t₁ := by
  have hscan : ∃ rx, (if receives (statusOf c t.mac) then Rx.athUapsdProcesstriggers n t.rx
      else some t.rx) = some rx := by
    split
    · exact ⟨rx, hrx⟩
    · exact ⟨t.rx, rfl⟩
  obtain ⟨rx, hscan⟩ := hscan
  rw [athIntr]
  split
  · exact ⟨t, rfl⟩
  · rw [handleStatus]
    split
    · exact ⟨_, rfl⟩
    · rw [hscan]
      exact ⟨_, rfl⟩

theorem taskFunc_sched {rounds : ℕ} {underruns : ℕ → ℕ} {u : Task}
    (hs : taskFunc rounds underruns t u = some t') :
    t'.sched = t.sched := by
  cases u with
  | rx =>
      obtain ⟨rx, -, rfl⟩ := Option.map_eq_some_iff.mp hs
      rfl
  | tx =>
      obtain rfl := Option.some.inj hs
      rfl
  | bmiss =>
      obtain rfl := Option.some.inj hs
      rfl
  | fatal =>
      obtain rfl := Option.some.inj hs
      rfl

/-- The queue of frames after beacons is none of those the tasklet looks at. -/
theorem txTasklet_sameMasks (hm : Masked m) (underruns : ℕ → ℕ) :
    SameMasks m (owlTgtTxTasklet underruns m) := by
  have hfold : ∀ qs : List ℕ, cabqNum ∉ qs →
      SameMasks m (qs.foldl (fun m i =>
        if i = cabqNum then owltgtTxProcessCabq (underruns i) m
        else owltgtTxProcessq (underruns i) m) m) := by
    intro qs
    induction qs using List.reverseRecOn with
    | nil => exact fun _ => .refl m
    | append_singleton qs q ih =>
        intro hqs
        rw [List.mem_append, List.mem_singleton, not_or] at hqs
        have hbefore := ih hqs.1
        rw [List.foldl_append, List.foldl_cons, List.foldl_nil, if_neg (Ne.symm hqs.2)]
        exact hbefore.trans (processq_sameMasks (hbefore.masked hm) _)
  exact hfold _ (by decide)

/-! ## Runs -/

theorem inPhase_eq {phase : Phase} {next : Option Target} (h : inPhase phase t next = some t') :
    t.phase = phase ∧ next = some t' := by
  rw [inPhase] at h
  split at h
  · exact ⟨‹_›, h⟩
  · cases h

/-- Where the tasklets are. -/
def Place : Phase → List Task → List Task → Prop
  | .host, stack, l => stack = [] ∧ l = []
  | .intr, stack, _ => stack = []
  | .tasklets, stack, l => ∃ u, stack = [u] ∧ u ∉ l

/-- The tasklets that are scheduled or run. -/
def due (t : Target) (l : List Task) : List Task := t.sched.stack ++ l

structure Working (t : Target) (l : List Task) : Prop where
  lined : Lined t.sched l
  place : Place t.phase t.sched.stack l
  receiving : Receiving t.rx (due t l)
  masks : Masks t.mac (due t l)
  silent : Task.fatal ∉ due t l ∧ WmiEvent.fatal ∉ t.events

theorem due_setSched {sched : Scheduler Task} (hstack : sched.stack = l.head?.toList) :
    due (setSched sched t) l.tail = l := by
  show sched.stack ++ l.tail = l
  rw [hstack]
  cases l <;> rfl

theorem phase_setSched (sched : Scheduler Task) (t : Target) :
    (setSched sched t).phase ≠ .intr := by
  show (if sched.stack = [] then Phase.host else Phase.tasklets) ≠ .intr
  split
  · exact Phase.noConfusion
  · exact Phase.noConfusion

namespace Working

theorem due_host (h : Working t l) (hphase : t.phase = .host) : due t l = [] := by
  have hplace := h.place
  rw [hphase] at hplace
  rw [due, hplace.1, hplace.2]
  rfl

theorem attach (cfg : Rx.Config) : Working (.attach cfg) [] where
  lined := lined_fresh
  place := ⟨rfl, rfl⟩
  receiving := by
    refine ⟨.inl ⟨cfg, rfl⟩, ⟨[], _, Rx.bounded_attach cfg⟩, .inr fun bf hbf => ?_⟩
    rw [List.eq_of_mem_replicate hbf]
  masks := by
    have hnone : ¬ on macAttach.scImask HalInt.global = true := by decide
    exact ⟨masked_macAttach, .inl rfl, fun h => absurd h hnone, fun h => absurd h hnone⟩
  silent := ⟨List.not_mem_nil, List.not_mem_nil⟩

theorem stepRx {e : Rx.Event} (h : Working t l) (hs : stepRx e t = some t')
    (he : e = .startRecv ∨ e = .stopRecv ∨ (∃ seg, e = .receive seg) ∨ e = .advance ∨
      ∃ i, e = .complete i) : Working t' l := by
  obtain ⟨rx, hrx, rfl⟩ := Option.map_eq_some_iff.mp hs
  exact ⟨h.lined, h.place, h.receiving.step hrx he, h.masks, h.silent⟩

theorem setMac (h : Working t l) (hm : Masks m (due t l)) : Working (setMac m t) l :=
  ⟨h.lined, h.place, h.receiving, hm, h.silent⟩

/-- The loop of the tasklets takes the next one off the list, or ends. -/
theorem setSched {sched : Scheduler Task} (hlined : Lined sched l.tail)
    (hstack : sched.stack = l.head?.toList) (hnodup : l.Nodup) (hr : Receiving t.rx l)
    (hm : Masks t.mac l) (hsilent : Task.fatal ∉ l ∧ WmiEvent.fatal ∉ t.events) :
    Working (setSched sched t) l.tail := by
  have hdue : due (Mac.setSched sched t) l.tail = l := due_setSched hstack
  constructor
  case lined => exact hlined
  case place =>
    show Place (if sched.stack = [] then .host else .tasklets) sched.stack l.tail
    rw [hstack]
    cases l with
    | nil => exact ⟨rfl, rfl⟩
    | cons u l => exact ⟨u, rfl, (List.nodup_cons.mp hnodup).1⟩
  case receiving =>
    rw [hdue]
    exact hr
  case masks =>
    rw [hdue]
    exact hm
  case silent =>
    rw [hdue]
    exact hsilent

theorem isr {rounds : ℕ} (h : Working t l) (hphase : t.phase = .host)
    (hs : athIntr rounds c t = some t') : ∃ l', Working { t' with phase := .intr } l' := by
  have hplace := h.place
  rw [hphase] at hplace
  obtain ⟨hstack, rfl⟩ := hplace
  rcases athIntr_cases hs with ⟨-, rfl⟩ | ⟨mac, rx, hsame, hrx, rfl⟩
  · exact ⟨[], h.lined, hstack, h.receiving, h.masks, h.silent⟩
  obtain ⟨l', hlined, hmem⟩ := h.lined.schedStatus (statusOf c t.mac)
  have hdue : due t [] = [] := h.due_host hphase
  have hmasks : Masks mac (due t []) := h.masks.congr hsame
  obtain ⟨m₁, hsame₁, hsame₂⟩ := macStatus_spec hmasks.masked
  have hm₁ : Masks m₁ (due t []) := hmasks.congr hsame₁
  have hstack' : (schedStatus (statusOf c t.mac) t.sched).stack = [] := by
    rw [stack_schedStatus]
    exact hstack
  have hl' : ∀ t₁ : Target, t₁.sched = schedStatus (statusOf c t.mac) t.sched → due t₁ l' = l' := by
    intro t₁ hsched
    rw [due, hsched, hstack']
    rfl
  refine ⟨l', hlined, hstack', ?_, ?_, ?_⟩
  · rw [hl' _ rfl]
    have hreceiving := h.receiving
    rw [hdue] at hreceiving
    split at hrx
    · next hr => exact hreceiving.scan hrx ((hmem .rx).mpr (by simp [hr]))
    · obtain rfl := Option.some.inj hrx
      exact hreceiving.mono fun hnil => absurd hnil List.not_mem_nil
  · rw [hl' _ rfl]
    refine Masks.congr ?_ hsame₂
    split
    · next hr => exact hm₁.maskRx ((hmem .rx).mpr (by simp [hr]))
    · refine hm₁.mono fun hnil => ?_
      rw [hdue] at hnil
      exact absurd hnil List.not_mem_nil
  · rw [hl' _ rfl]
    refine ⟨fun hfatal => ?_, ?_⟩
    · have hcases := (hmem .fatal).mp hfatal
      simp at hcases
    · dsimp only
      split
      · rw [List.mem_cons, not_or]
        exact ⟨WmiEvent.noConfusion, h.silent.2⟩
      · exact h.silent.2

/-- The function of a tasklet, and its return. -/
theorem ret {rounds : ℕ} {underruns : ℕ → ℕ} {u : Task} {t₁ : Target} {sched : Scheduler Task}
    (h : Working t l) (hstack : t.sched.stack = [u]) (hu : u ∉ l)
    (hfunc : taskFunc rounds underruns t u = some t₁)
    (hs : stepTasklet .ret t₁.sched = some sched) :
    Working (Mac.setSched sched t₁) l.tail := by
  have hdue : due t l = u :: l := by
    rw [due, hstack]
    rfl
  have hsilent := h.silent
  rw [hdue, List.mem_cons, not_or] at hsilent
  have hrest : u ≠ .rx → Task.rx ∈ due t l → Task.rx ∈ l := by
    intro hne hmem
    rw [hdue] at hmem
    exact (List.mem_cons.mp hmem).resolve_left fun heq => hne heq.symm
  have hkept : t₁.sched = t.sched ∧ Receiving t₁.rx l ∧ Masks t₁.mac l ∧
      WmiEvent.fatal ∉ t₁.events := by
    cases u with
    | rx =>
        obtain ⟨rx, hrx, rfl⟩ := Option.map_eq_some_iff.mp hfunc
        exact ⟨rfl, h.receiving.tasklet hrx, h.masks.unmaskRx, hsilent.2⟩
    | tx =>
        obtain rfl := Option.some.inj hfunc
        refine ⟨rfl, h.receiving.mono (hrest Task.noConfusion), ?_, hsilent.2⟩
        exact (h.masks.congr (txTasklet_sameMasks h.masks.masked underruns)).mono
          (hrest Task.noConfusion)
    | bmiss =>
        obtain rfl := Option.some.inj hfunc
        refine ⟨rfl, h.receiving.mono (hrest Task.noConfusion),
          h.masks.mono (hrest Task.noConfusion), ?_⟩
        rw [List.mem_cons, not_or]
        exact ⟨WmiEvent.noConfusion, hsilent.2⟩
    | fatal => exact absurd rfl hsilent.1.1
  obtain ⟨hsched, hreceiving, hmasks, hevents⟩ := hkept
  rw [hsched] at hs
  obtain ⟨sched', hret, hlined, hstack'⟩ := h.lined.ret hstack hu
  obtain rfl := Option.some.inj (hs.symm.trans hret)
  exact setSched hlined hstack' h.lined.served.list.nodup hreceiving hmasks ⟨hsilent.1.2, hevents⟩

theorem run (h : Working t l) (hphase : t.phase = .intr) :
    Working (Mac.setSched (cmnosTaskletRunLoop t.sched) t) l.tail := by
  have hplace := h.place
  rw [hphase] at hplace
  have hdue : due t l = l := by
    rw [due, show t.sched.stack = [] from hplace]
    rfl
  obtain ⟨hlined, hstack⟩ := h.lined.runLoop
  rw [show t.sched.stack = [] from hplace, List.append_nil] at hstack
  have hr := h.receiving
  have hm := h.masks
  have hsilent := h.silent
  rw [hdue] at hr hm hsilent
  exact setSched hlined hstack h.lined.served.list.nodup hr hm hsilent

theorem step {e : Event} (h : Working t l) (hs : step e t = some t') : ∃ l', Working t' l' := by
  cases e with
  | receive seg => exact ⟨l, h.stepRx hs (by simp)⟩
  | advance => exact ⟨l, h.stepRx hs (by simp)⟩
  | complete i => exact ⟨l, h.stepRx (inPhase_eq hs).2 (by simp)⟩
  | startRecv => exact ⟨l, h.stepRx (inPhase_eq hs).2 (by simp)⟩
  | stopRecv => exact ⟨l, h.stepRx (inPhase_eq hs).2 (by simp)⟩
  | flushRecv =>
      obtain ⟨hphase, hs⟩ := inPhase_eq hs
      obtain ⟨rx, hrx, rfl⟩ := Option.map_eq_some_iff.mp hs
      have hr := h.receiving
      rw [h.due_host hphase] at hr
      exact ⟨l, h.lined, h.place, (hr.flush hrx).mono (fun hnil => absurd hnil List.not_mem_nil),
        h.masks, h.silent⟩
  | enableIntr intr =>
      obtain rfl := Option.some.inj (inPhase_eq hs).2
      exact ⟨l, h.setMac (h.masks.enableIntr intr)⟩
  | init ht =>
      obtain rfl := Option.some.inj (inPhase_eq hs).2
      exact ⟨l, h.setMac (h.masks.init ht)⟩
  | disableIntr =>
      obtain rfl := Option.some.inj (inPhase_eq hs).2
      exact ⟨l, h.setMac h.masks.disableIntr⟩
  | procTxDesc underruns =>
      obtain rfl := Option.some.inj (inPhase_eq hs).2
      exact ⟨l, h.setMac (h.masks.congr (processq_sameMasks h.masks.masked underruns))⟩
  | isr rounds c =>
      obtain ⟨hphase, hs⟩ := inPhase_eq hs
      obtain ⟨t₁, hisr, rfl⟩ := Option.map_eq_some_iff.mp hs
      exact h.isr hphase hisr
  | run =>
      obtain ⟨hphase, hs⟩ := inPhase_eq hs
      obtain rfl := Option.some.inj hs
      exact ⟨l.tail, h.run hphase⟩
  | ret rounds underruns =>
      obtain ⟨hphase, hs⟩ := inPhase_eq hs
      have hplace := h.place
      rw [hphase] at hplace
      obtain ⟨u, hstack, hu⟩ := hplace
      rw [hstack, List.head?_cons, Option.bind_some] at hs
      obtain ⟨t₁, hfunc, hs⟩ := Option.bind_eq_some_iff.mp hs
      obtain ⟨sched, hret, rfl⟩ := Option.map_eq_some_iff.mp hs
      exact ⟨l.tail, h.ret hstack hu hfunc hret⟩

end Working

theorem working {ok : Target → Event → Prop} (h : mainLoop.ReachableWhere ok t) : ∃ l, Working t l := by
  refine h.invariant (P := fun t => ∃ l, Working t l) ?_ ?_
  · rintro _ ⟨cfg, rfl⟩
    exact ⟨[], .attach cfg⟩
  · rintro t e t' ⟨l, hw⟩ - hs
    exact hw.step hs

/-! ## Reception is not masked for good -/

/-- The causes of reception get through. -/
structure ReceiveOpen (m : MacState) : Prop where
  enabled : m.regs.arIer = true
  causes : ∀ bit ∈ [arRxok, arRxdesc, arRxerr, HalInt.rxeol, HalInt.rxorn],
    on m.regs.arImr bit = true

theorem on_imrOf_rx {ints bit : Word} (hrx : on ints HalInt.rx = true)
    (hbit : (arRxerr ||| arRxok ||| arRxdesc) &&& bit ≠ 0) : on (imrOf ints) bit = true := by
  simp only [imrOf, on_or]
  rw [on_flag hbit, hrx]
  simp

theorem on_imrOf_common {ints bit : Word} {k : ℕ} (hk : k < 32) (hbit : bit = BitVec.twoPow 32 k)
    (hcommon : on HalInt.common bit = true) (hints : on ints bit = true) :
    on (imrOf ints) bit = true := by
  simp only [imrOf, on_or]
  rw [on_and hk hbit, hints, hcommon]
  simp

/-- The driver's masks, given to the hardware, let reception through. -/
theorem Masked.receiveOpen (hm : Masked m) (hglobal : on m.ahMaskReg HalInt.global = true)
    (hrx : on m.ahMaskReg HalInt.rx = true) (hrxeol : on m.ahMaskReg HalInt.rxeol = true)
    (hrxorn : on m.ahMaskReg HalInt.rxorn = true) : ReceiveOpen m := by
  refine ⟨hm.2.trans hglobal, fun bit hbit => ?_⟩
  rw [hm.1]
  simp only [List.mem_cons, List.not_mem_nil, or_false] at hbit
  rcases hbit with rfl | rfl | rfl | rfl | rfl
  · exact on_imrOf_rx hrx (by decide)
  · exact on_imrOf_rx hrx (by decide)
  · exact on_imrOf_rx hrx (by decide)
  · exact on_imrOf_common (k := 4) (by decide) (by decide) (by decide) hrxeol
  · exact on_imrOf_common (k := 5) (by decide) (by decide) (by decide) hrxorn

theorem Working.rx_due {l : List Task} (h : Working t l) (hrx : Task.rx ∈ due t l) :
    t.sched.ctx.state .rx = .scheduled ∨ Task.rx ∈ t.sched.stack :=
  (List.mem_append.mp hrx).symm.imp_left (h.lined.served.list.mem_iff .rx).mp

/-- Once the host has turned interrupts on, reception is masked only while the receive tasklet is
scheduled or runs; between the passes it is not, unless the host has turned all interrupts off. -/
theorem reception_unmasked (h : mainLoop.Reachable t)
    (hinit : on t.mac.scImask HalInt.global = true) :
    Masked t.mac ∧ Follows t.mac ∧
      (on t.mac.scImask HalInt.rx = false →
        t.sched.ctx.state .rx = .scheduled ∨ Task.rx ∈ t.sched.stack) ∧
      (t.phase = .host → t.mac.ahMaskReg ≠ 0 → ReceiveOpen t.mac) := by
  obtain ⟨l, hw⟩ := working h
  have hframes := hw.masks.frames hinit
  refine ⟨hw.masks.masked, hw.masks.follows, fun hoff => ?_, fun hphase hon => ?_⟩
  · refine hw.rx_due (hframes.resolve_left ?_)
    rw [hoff]
    exact Bool.false_ne_true
  · rw [hw.due_host hphase] at hframes
    have hmask : t.mac.ahMaskReg = t.mac.scImask := hw.masks.follows.resolve_right hon
    have hover := hw.masks.overruns hinit
    refine hw.masks.masked.receiveOpen ?_ ?_ ?_ ?_
    · rwa [hmask]
    · rw [hmask]
      exact hframes.resolve_right List.not_mem_nil
    · rw [hmask]
      exact hover.1
    · rw [hmask]
      exact hover.2

/-- A frame has come, and a bus error. -/
def frameCause : Cause where
  hostIsr := 0x2
  asyncCause := 0x2
  rtcStatus := 0x2
  isrRac := 0x1
  isrS0 := 0
  isrS1 := 0
  isrS2 := 0
  syncCause := 0x20
  tsf := 0
  swbaTsf := 0
  beaconPending := 0

theorem reception_unmasked_interrupted : ∃ t : Target,
    on t.mac.scImask HalInt.rx = false ∧
      (t.sched.ctx.state .rx = .scheduled ∨ Task.rx ∈ t.sched.stack) := by
  obtain ⟨t, steps, hinit, hoff⟩ := Machine.exists_of_runWhere mainLoop.Init step
    (fun _ _ => True)
    (P := fun t => on t.mac.scImask HalInt.global = true ∧ on t.mac.scImask HalInt.rx = false)
    (s := .attach Rx.smallConfig)
    [.init true, .startRecv, .receive Rx.shortFrame, .advance, .isr 9 frameCause]
    (by decide +kernel)
  have hopen := reception_unmasked ⟨_, ⟨Rx.smallConfig, rfl⟩, steps⟩ hinit
  exact ⟨t, hoff, hopen.2.2.1 hoff⟩

/-! ## Fatal errors -/

/-- Whatever the hardware says, the host is never told of a fatal error. -/
theorem fatal_never_reported (h : mainLoop.Reachable t) :
    WmiEvent.fatal ∉ t.events ∧ t.sched.ctx.state .fatal ≠ .scheduled ∧
      Task.fatal ∉ t.sched.stack := by
  obtain ⟨l, hw⟩ := working h
  have hdue := hw.silent.1
  rw [due, List.mem_append, not_or] at hdue
  refine ⟨hw.silent.2, fun hstate => ?_, hdue.1⟩
  exact hdue.2 ((hw.lined.served.list.mem_iff .fatal).mpr hstate)

theorem bus_error_never_reported : ∃ t : Target,
    t.mac.regs.arIntrSyncCauseClr = 0x20 ∧ t.phase = .host ∧ WmiEvent.fatal ∉ t.events := by
  obtain ⟨t, steps, hcleared, hphase⟩ := Machine.exists_of_runWhere mainLoop.Init step
    (fun _ _ => True)
    (P := fun t => t.mac.regs.arIntrSyncCauseClr = 0x20 ∧ t.phase = .host)
    (s := .attach Rx.smallConfig)
    [.init true, .startRecv, .receive Rx.shortFrame, .advance, .isr 9 frameCause, .run, .ret 9 0,
      .ret 9 0] (by decide +kernel)
  exact ⟨t, hcleared, hphase, (fatal_never_reported ⟨_, ⟨Rx.smallConfig, rfl⟩, steps⟩).1⟩

/-! ## Passes come to an end -/

/-- The steps of `A_TASKLET_RUN`. -/
def Event.ofTasklets : Event → Bool
  | .run => true
  | .ret _ _ => true
  | _ => false

/-- The steps of `A_TASKLET_RUN` that are left. -/
def work (t : Target) : ℕ :=
  (Finset.univ.filter fun u => t.sched.ctx.state u = .scheduled).card + t.sched.stack.length +
    if t.phase = .intr then 1 else 0

theorem Working.work_eq (h : Working t l) :
    work t = (due t l).length + if t.phase = .intr then 1 else 0 := by
  have hlist := h.lined.served.list
  have hset : (Finset.univ.filter fun u => t.sched.ctx.state u = .scheduled) = l.toFinset := by
    ext u
    rw [List.mem_toFinset, hlist.mem_iff, Finset.mem_filter]
    exact ⟨And.right, fun hu => ⟨Finset.mem_univ u, hu⟩⟩
  rw [work, hset, List.toFinset_card_of_nodup hlist.nodup, due, List.length_append]
  omega

theorem Working.due_nodup (h : Working t l) : (due t l).Nodup := by
  have hplace := h.place
  have hnodup := h.lined.served.list.nodup
  rw [due]
  cases hphase : t.phase with
  | host =>
      rw [hphase] at hplace
      rw [hplace.1]
      exact hnodup
  | intr =>
      rw [hphase] at hplace
      rw [show t.sched.stack = [] from hplace]
      exact hnodup
  | tasklets =>
      rw [hphase] at hplace
      obtain ⟨u, hstack, hu⟩ := hplace
      rw [hstack]
      exact List.nodup_cons.mpr ⟨hu, hnodup⟩

theorem Working.work_le (h : Working t l) : work t ≤ 5 := by
  have hlen : (due t l).length ≤ 4 := h.due_nodup.length_le_card
  rw [h.work_eq]
  split <;> omega

/-- A step of `A_TASKLET_RUN` leaves less to do, and no other step of a pass more. -/
theorem Working.work_step {e : Event} (h : Working t l) (hphase : t.phase ≠ .host)
    (hs : Mac.step e t = some t') : work t' + (if e.ofTasklets then 1 else 0) ≤ work t := by
  have hrx : ∀ {e : Rx.Event}, Mac.stepRx e t = some t' → work t' = work t := by
    intro e hs
    obtain ⟨rx, -, rfl⟩ := Option.map_eq_some_iff.mp hs
    rfl
  -- what is left once the loop has gone on
  have hleft : ∀ {sched : Scheduler Task} {t₁ : Target}, sched.stack = l.head?.toList →
      Working (Mac.setSched sched t₁) l.tail → work (Mac.setSched sched t₁) = l.length := by
    intro sched t₁ hstack hw
    rw [hw.work_eq, due_setSched hstack, if_neg (phase_setSched sched t₁), Nat.add_zero]
  have hplace := h.place
  cases e with
  | receive seg => exact (hrx hs).le
  | advance => exact (hrx hs).le
  | run =>
      obtain ⟨hphase, hs⟩ := inPhase_eq hs
      obtain rfl := Option.some.inj hs
      rw [hphase] at hplace
      have hnil : t.sched.stack = [] := hplace
      have hstack := h.lined.runLoop.2
      rw [hnil, List.append_nil] at hstack
      rw [hleft hstack (h.run hphase), h.work_eq, due, hnil, if_pos hphase]
      exact le_refl _
  | ret rounds underruns =>
      obtain ⟨hphase, hs⟩ := inPhase_eq hs
      rw [hphase] at hplace
      obtain ⟨u, hstack, hu⟩ := hplace
      rw [hstack, List.head?_cons, Option.bind_some] at hs
      obtain ⟨t₁, hfunc, hs⟩ := Option.bind_eq_some_iff.mp hs
      obtain ⟨sched, hret, rfl⟩ := Option.map_eq_some_iff.mp hs
      obtain ⟨sched', hret', -, hstack'⟩ := h.lined.ret hstack hu
      rw [taskFunc_sched hfunc, hret'] at hret
      obtain rfl := Option.some.inj hret
      have hw' := h.ret hstack hu hfunc (by rw [taskFunc_sched hfunc, hret'])
      rw [hleft hstack' hw', h.work_eq, due, hstack, List.length_append]
      simp only [Event.ofTasklets, if_true, List.length_singleton]
      omega
  | _ => exact absurd (inPhase_eq hs).1 hphase

end Ath9kHtc.Mac
