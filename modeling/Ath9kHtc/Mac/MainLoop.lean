import Ath9kHtc.Cmnos.TaskletList
import Ath9kHtc.Mac.Interrupts
import Ath9kHtc.Rx.Leftover

/-!
# The main loop

`wlan_task` calls `HIF_isr_handler`, in which the commands of the host are served, then `ath_intr`,
then the tasklets that are scheduled.  The hardware goes on all the time.
-/

namespace Ath9kHtc.Mac

open BitField Cmnos

/-- The tasklets of `ath_tgt_attach`. -/
inductive Task
  | rx
  | tx
  | bmiss
  | fatal
  deriving DecidableEq, Repr

instance : Fintype Task := ⟨{.rx, .tx, .bmiss, .fatal}, fun task => by cases task <;> decide⟩

/-- What is told to the host with `wmi_event`. -/
inductive WmiEvent
  | swba (tsf : BitVec 64) (beaconPendingCount : Word)
  | bmiss
  | fatal
  deriving DecidableEq

/-- Where `wlan_task` is: outside `wlan_pci_isr` and `A_TASKLET_RUN`, between the two, or in a
tasklet. -/
inductive Phase
  | host
  | intr
  | tasklets
  deriving DecidableEq, Repr

structure Target where
  mac : MacState
  sched : Scheduler Task
  rx : Rx.RxState
  events : List WmiEvent
  phase : Phase

/-- `ATH_SCHEDULE_TQUEUE` -/
def scheduleTqueue (task : Task) (s : Scheduler Task) : Scheduler Task :=
  { s with
    ctx := cmnosTaskletSchedule s.ctx task
    log := s.note (s.ctx.state task ≠ .scheduled) (.scheduled (s.ctx.call task)) }

/-! ## The interrupt -/

def bump (counts : Bool) (f : Wmi.IntStats → Wmi.IntStats) (m : MacState) : MacState :=
  if counts then { m with scIntStats := f m.scIntStats } else m

/-- There is something for the receive path. -/
def receives (status : Word) : Bool := on status (HalInt.rx ||| HalInt.rxeol ||| HalInt.rxorn)

/-- What the branches of `ath_intr` do to the registers and masks, in their order. -/
def macStatus (c : Cause) (status : Word) (m : MacState) : MacState :=
  let m := if on status HalInt.swba then { m with scSwbaTsf := c.swbaTsf } else m
  let m := bump (on status HalInt.rxorn) (fun s => { s with astRxorn := s.astRxorn + 1 }) m
  let m := bump (on status HalInt.rxeol) (fun s => { s with astRxeol := s.astRxeol + 1 }) m
  let m :=
    if receives status then
      maskRx (bump (on status HalInt.rx) (fun s => { s with astRx := s.astRx + 1 }) m)
    else m
  let m :=
    if on status HalInt.txurn then
      (ar5416UpdateTxTrigLevel true (bump true (fun s => { s with astTxurn := s.astTxurn + 1 }) m)).2
    else m
  let m := bump (on status HalInt.gtt) (fun s => { s with astTxto := s.astTxto + 1 }) m
  bump (on status HalInt.cst) (fun s => { s with astCst := s.astCst + 1 }) m

/-- What they schedule. -/
def schedStatus (status : Word) (s : Scheduler Task) : Scheduler Task :=
  let s := if receives status then scheduleTqueue .rx s else s
  let s := scheduleTqueue .tx s
  if on status HalInt.bmiss then scheduleTqueue .bmiss s else s

/-- The handling of a status; the queue of frames after beacons is drained elsewhere. -/
def handleStatus (rounds : ℕ) (c : Cause) (status : Word) (t : Target) : Option Target :=
  if on status HalInt.fatal then
    some { t with
      mac := (ar5416SetInterrupts 0 t.mac).2
      sched := scheduleTqueue .fatal t.sched }
  else
    (if receives status then Rx.athUapsdProcesstriggers rounds t.rx else some t.rx).map fun rx =>
      { t with
        mac := macStatus c status t.mac
        sched := schedStatus status t.sched
        rx := rx
        events :=
          if on status HalInt.swba then .swba c.tsf c.beaconPending :: t.events else t.events }

/-- The causes the driver looks at. -/
def statusOf (c : Cause) (m : MacState) : Word :=
  (ar5416GetPendingInterrupts c m).masked &&& (ar5416GetPendingInterrupts c m).mac.scImask

/-- `ath_intr`, if the scan ends within so many rounds. -/
def athIntr (rounds : ℕ) (c : Cause) (t : Target) : Option Target :=
  if ar5416IsInterruptPending c = false then some t
  else
    handleStatus rounds c (statusOf c t.mac)
      { t with mac := (ar5416GetPendingInterrupts c t.mac).mac }

/-! ## The tasklets -/

def halNumTxQueues : ℕ := 10

def cabqNum : ℕ := 8

/-- What `owl_tgt_tx_tasklet` does to the masks, by the underruns of each queue. -/
def owlTgtTxTasklet (underruns : ℕ → ℕ) (m : MacState) : MacState :=
  (List.range (halNumTxQueues - 6)).foldl
    (fun m i =>
      if i = cabqNum then owltgtTxProcessCabq (underruns i) m
      else owltgtTxProcessq (underruns i) m) m

/-- The function of a tasklet. -/
def taskFunc (rounds : ℕ) (underruns : ℕ → ℕ) (t : Target) : Task → Option Target
  | .rx =>
    (Rx.athTgtRxTasklet rounds t.rx).map fun rx => { t with rx := rx, mac := unmaskRx t.mac }
  | .tx => some { t with mac := owlTgtTxTasklet underruns t.mac }
  | .bmiss => some { t with events := .bmiss :: t.events }
  | .fatal => some { t with events := .fatal :: t.events }

/-! ## The machine -/

/-- What the hardware does, the completion of a transfer, the commands and frames of the host, and
what `wlan_task` does; a handler with a loop comes with a number of rounds. -/
inductive Event
  | receive (seg : Rx.Segment)
  | advance
  | complete (i : ℕ)
  | startRecv
  | stopRecv
  | flushRecv
  | enableIntr (intr : Word)
  | init (ht : Bool)
  | disableIntr
  | procTxDesc (underruns : ℕ)
  | isr (rounds : ℕ) (c : Cause)
  | run
  | ret (rounds : ℕ) (underruns : ℕ → ℕ)

def stepRx (e : Rx.Event) (t : Target) : Option Target :=
  (Rx.step e t.rx).map fun rx => { t with rx := rx }

def inPhase (phase : Phase) (t : Target) (next : Option Target) : Option Target :=
  if t.phase = phase then next else none

def setMac (mac : MacState) (t : Target) : Target := { t with mac := mac }

/-- The loop of `cmnos_tasklet_run` is at its test, or in a tasklet. -/
def setSched (sched : Scheduler Task) (t : Target) : Target :=
  { t with sched := sched, phase := if sched.stack = [] then .host else .tasklets }

def step : Event → Target → Option Target
  | .receive seg, t => stepRx (.receive seg) t
  | .advance, t => stepRx .advance t
  | .complete i, t => inPhase .host t (stepRx (.complete i) t)
  | .startRecv, t => inPhase .host t (stepRx .startRecv t)
  | .stopRecv, t => inPhase .host t (stepRx .stopRecv t)
  | .flushRecv, t => inPhase .host t (stepRx .flushRecv t)
  | .enableIntr intr, t => inPhase .host t (some (setMac (athEnableIntrTgt intr t.mac) t))
  | .init ht, t => inPhase .host t (some (setMac (athInitTgt ht t.mac) t))
  | .disableIntr, t => inPhase .host t (some (setMac (athDisableIntrTgt t.mac) t))
  | .procTxDesc underruns, t =>
    inPhase .host t (some (setMac (owltgtTxProcessq underruns t.mac) t))
  | .isr rounds c, t =>
    inPhase .host t ((athIntr rounds c t).map fun t => { t with phase := .intr })
  | .run, t => inPhase .intr t (some (setSched (cmnosTaskletRunLoop t.sched) t))
  | .ret rounds underruns, t =>
    inPhase .tasklets t
      (t.sched.stack.head?.bind fun task =>
        (taskFunc rounds underruns t task).bind fun t =>
          (stepTasklet .ret t.sched).map fun sched => setSched sched t)

/-- The target after `ath_tgt_attach`. -/
def Target.attach (cfg : Rx.Config) : Target where
  mac := macAttach
  sched := freshScheduler Task
  rx := Rx.attach cfg
  events := []
  phase := .host

def mainLoop : Machine Target Event := .ofPartial (fun t => ∃ cfg, t = .attach cfg) step

/-! ## The list of tasklets -/

/-- What is on the list, and nothing behind a tasklet that is not. -/
structure Lined (s : Scheduler Task) (l : List Task) : Prop where
  served : Served s l
  links : ∀ u, u ∉ l → s.ctx.next u = none

variable {s s' : Scheduler Task} {l : List Task} {u : Task}

theorem lined_fresh : Lined (freshScheduler Task) [] :=
  ⟨Served.init freshScheduler_init, fun _ _ => rfl⟩

theorem mem_after_schedule {v : Task} : v ∈ TaskletEvent.after l (.schedule u) ↔ v = u ∨ v ∈ l := by
  rw [TaskletEvent.after]
  split
  · constructor
    · exact .inr
    · rintro (rfl | hv)
      · assumption
      · exact hv
  · exact List.mem_cons

theorem Lined.schedule (h : Lined s l) (u : Task) :
    Lined (scheduleTqueue u s) (TaskletEvent.after l (.schedule u)) := by
  have horderly : Orderly s (.schedule u) := by
    by_cases hu : u ∈ l
    · exact .inl ((h.served.list.mem_iff u).mp hu)
    · exact .inr (.inr (h.links u hu))
  refine ⟨h.served.step horderly rfl, fun v hv => ?_⟩
  rw [mem_after_schedule, not_or] at hv
  have hnext := h.links v hv.2
  simp only [scheduleTqueue, cmnosTaskletSchedule]
  split
  · exact hnext
  · split
    · simpa [TaskletContext.next, TaskletContext.tasklets_update_of_ne _ _ hv.1] using hnext
    · simpa [TaskletContext.next, TaskletContext.tasklets_update_of_ne _ _ hv.1] using hnext

theorem Lined.runLoop (h : Lined s l) : Lined (cmnosTaskletRunLoop s) l.tail ∧
    (cmnosTaskletRunLoop s).stack = l.head?.toList ++ s.stack := by
  obtain ⟨hserved, hstack⟩ := h.served.runLoop
  refine ⟨⟨hserved, fun v hv => ?_⟩, hstack⟩
  rw [cmnosTaskletRunLoop]
  cases l with
  | nil =>
      have hempty : s.ctx.scheduleTasks = none := h.served.list.scheduleTasks_eq
      rw [hempty]
      exact h.links v hv
  | cons u l =>
      have hhead : s.ctx.scheduleTasks = some u := h.served.list.scheduleTasks_eq
      rw [hhead]
      dsimp only
      rw [TaskletContext.next_update_setState, TaskletContext.next_update_setNext]
      by_cases hvu : v = u
      · rw [hvu, Function.update_self]
      · rw [Function.update_of_ne hvu]
        refine h.links v ?_
        rw [List.mem_cons, not_or]
        exact ⟨hvu, hv⟩

theorem Lined.ret (h : Lined s l) (hstack : s.stack = [u]) (hu : u ∉ l) :
    ∃ s', stepTasklet .ret s = some s' ∧ Lined s' l.tail ∧ s'.stack = l.head?.toList := by
  have hdone : Lined { s with ctx := s.ctx.update u (setState .disable), stack := [] } l := by
    refine ⟨⟨h.served.list.setState_of_notMem hu (by decide), fun c => ?_⟩, fun v hv => ?_⟩
    · dsimp only
      rw [TaskletContext.call_update_setState]
      exact h.served.balanced c
    · dsimp only
      rw [TaskletContext.next_update_setState]
      exact h.links v hv
  obtain ⟨hlined, hstack'⟩ := hdone.runLoop
  refine ⟨_, ?_, hlined, ?_⟩
  · simp only [stepTasklet, hstack]
  · rw [hstack', List.append_nil]

/-- What a status schedules. -/
theorem Lined.schedStatus (h : Lined s l) (status : Word) : ∃ l', Lined (schedStatus status s) l' ∧
    ∀ v, v ∈ l' ↔
      v ∈ l ∨ v = .tx ∨ (v = .rx ∧ receives status) ∨ (v = .bmiss ∧ on status HalInt.bmiss) := by
  have hrx : ∃ l₁, Lined (if receives status then scheduleTqueue .rx s else s) l₁ ∧
      ∀ v, v ∈ l₁ ↔ v ∈ l ∨ (v = .rx ∧ receives status) := by
    by_cases hr : receives status = true
    · rw [if_pos hr]
      refine ⟨_, h.schedule .rx, fun v => ?_⟩
      rw [mem_after_schedule]
      simp only [hr, and_true]
      tauto
    · rw [if_neg hr]
      exact ⟨l, h, fun v => by simp [hr]⟩
  obtain ⟨l₁, h₁, hmem₁⟩ := hrx
  have h₂ := h₁.schedule .tx
  rw [Mac.schedStatus]
  by_cases hb : on status HalInt.bmiss = true
  · rw [if_pos hb]
    refine ⟨_, h₂.schedule .bmiss, fun v => ?_⟩
    rw [mem_after_schedule, mem_after_schedule, hmem₁]
    simp only [hb, and_true]
    tauto
  · rw [if_neg hb]
    refine ⟨_, h₂, fun v => ?_⟩
    rw [mem_after_schedule, hmem₁]
    simp only [hb]
    tauto

@[simp] theorem stack_scheduleTqueue : (scheduleTqueue u s).stack = s.stack := rfl

@[simp] theorem stack_schedStatus (status : Word) : (schedStatus status s).stack = s.stack := by
  rw [schedStatus]
  split <;> split <;> rfl

end Ath9kHtc.Mac
