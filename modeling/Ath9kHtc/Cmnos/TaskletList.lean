import Ath9kHtc.Cmnos.Tasklet

/-!
# The list of the scheduled tasklets

What each function makes of the list, and from it that every scheduling of a tasklet leads to
one call of its function.
-/

namespace Ath9kHtc.Cmnos

variable {τ : Type} {ctx : TaskletContext τ} {l : List τ} {t : τ}

/-- The list from `schedule_tasks` on is `l`, each tasklet at most once and exactly those whose
state is `SCHEDULED`. -/
structure Scheduled (ctx : TaskletContext τ) (l : List τ) : Prop where
  chain : Chain ctx.next ctx.scheduleTasks l
  nodup : l.Nodup
  mem_iff : ∀ t, t ∈ l ↔ ctx.state t = .scheduled

namespace Scheduled

theorem scheduleTasks_eq (h : Scheduled ctx l) : ctx.scheduleTasks = l.head? :=
  h.chain.head?_eq.symm

theorem length_le_card [Fintype τ] (h : Scheduled ctx l) : l.length ≤ Fintype.card τ :=
  h.nodup.length_le_card

end Scheduled

variable [DecidableEq τ]

namespace TaskletContext

@[simp] theorem next_update_setState (state : TaskletState) :
    (ctx.update t (setState state)).next = ctx.next := by
  funext u
  rw [next, next]
  by_cases hu : u = t
  · subst hu
    rw [tasklets_update_self]
    rfl
  · rw [tasklets_update_of_ne _ _ hu]

@[simp] theorem state_update_setNext (next : Option τ) :
    (ctx.update t (setNext next)).state = ctx.state := by
  funext u
  rw [state, state]
  by_cases hu : u = t
  · subst hu
    rw [tasklets_update_self]
    rfl
  · rw [tasklets_update_of_ne _ _ hu]

theorem state_update_setState (state : TaskletState) :
    (ctx.update t (setState state)).state = Function.update ctx.state t state := by
  funext u
  by_cases hu : u = t
  · subst hu
    rw [Function.update_self, TaskletContext.state, tasklets_update_self]
    rfl
  · rw [Function.update_of_ne hu, TaskletContext.state, tasklets_update_of_ne _ _ hu]
    rfl

theorem next_update_setNext (next : Option τ) :
    (ctx.update t (setNext next)).next = Function.update ctx.next t next := by
  funext u
  by_cases hu : u = t
  · subst hu
    rw [Function.update_self, TaskletContext.next, tasklets_update_self]
    rfl
  · rw [Function.update_of_ne hu, TaskletContext.next, tasklets_update_of_ne _ _ hu]
    rfl

theorem call_update (f : Tasklet τ → Tasklet τ) (hfunc : ∀ c, (f c).func = c.func)
    (harg : ∀ c, (f c).arg = c.arg) : (ctx.update t f).call = ctx.call := by
  funext u
  by_cases hu : u = t
  · subst hu
    simp [call, tasklets_update_self, hfunc, harg]
  · simp [call, tasklets_update_of_ne _ _ hu]

@[simp] theorem call_update_setState (state : TaskletState) :
    (ctx.update t (setState state)).call = ctx.call :=
  call_update _ (fun _ => rfl) fun _ => rfl

@[simp] theorem call_update_setNext (next : Option τ) :
    (ctx.update t (setNext next)).call = ctx.call :=
  call_update _ (fun _ => rfl) fun _ => rfl

end TaskletContext

namespace Scheduled

theorem count_eq_one (h : Scheduled ctx l) (t : τ) :
    l.count t = 1 ↔ ctx.state t = .scheduled := by
  rw [← h.mem_iff]
  constructor
  · intro hone
    apply List.count_pos_iff.mp
    omega
  · exact List.count_eq_one_of_mem h.nodup

/-- A tasklet that is off the list gets a state other than `SCHEDULED`. -/
theorem setState_of_notMem (h : Scheduled ctx l) (ht : t ∉ l) {state : TaskletState}
    (hstate : state ≠ .scheduled) : Scheduled (ctx.update t (setState state)) l where
  chain := by
    rw [TaskletContext.next_update_setState]
    exact h.chain
  nodup := h.nodup
  mem_iff u := by
    rw [TaskletContext.state_update_setState]
    by_cases hu : u = t
    · subst hu
      simp [ht, hstate]
    · rw [Function.update_of_ne hu]
      exact h.mem_iff u

theorem initTask (h : Scheduled ctx l) (ht : ctx.state t ≠ .scheduled) (fn arg : ℕ) :
    Scheduled (cmnosTaskletInitTask ctx fn arg t) l := by
  have hout : t ∉ l := fun hmem => ht ((h.mem_iff t).mp hmem)
  have hsame : ∀ u, u ≠ t → (cmnosTaskletInitTask ctx fn arg t).tasklets u = ctx.tasklets u :=
    fun u hu => ctx.tasklets_update_of_ne _ hu
  refine ⟨h.chain.congr fun u hu => ?_, h.nodup, fun u => ?_⟩
  · have hne : u ≠ t := by
      rintro rfl
      exact hout hu
    simp only [TaskletContext.next, hsame u hne]
  · by_cases hu : u = t
    · subst hu
      have hdisable : (cmnosTaskletInitTask ctx fn arg u).state u = .disable := by
        simp [cmnosTaskletInitTask, TaskletContext.state, TaskletContext.tasklets_update_self]
      simp [hout, hdisable]
    · simp only [TaskletContext.state, hsame u hu]
      exact h.mem_iff u

/-- A tasklet off the list is put in front of it. -/
theorem push (h : Scheduled ctx l) (ht : t ∉ l) (hnext : ctx.next t = l.head?) :
    Scheduled { ctx.update t (setState .scheduled) with scheduleTasks := some t } (t :: l) where
  chain := by
    have hkept : (ctx.update t (setState .scheduled)).next = ctx.next :=
      TaskletContext.next_update_setState .scheduled
    refine ⟨rfl, ?_⟩
    change Chain (ctx.update t (setState .scheduled)).next _ l
    rw [hkept]
    change Chain ctx.next ((ctx.update t (setState .scheduled)).next t) l
    rw [hkept, hnext, ← h.scheduleTasks_eq]
    exact h.chain
  nodup := List.nodup_cons.mpr ⟨ht, h.nodup⟩
  mem_iff u := by
    change _ ↔ (ctx.update t (setState .scheduled)).state u = _
    rw [TaskletContext.state_update_setState, List.mem_cons]
    by_cases hu : u = t
    · subst hu
      simp
    · rw [Function.update_of_ne hu]
      simp [hu, h.mem_iff u]

/-- The link of a tasklet off the list is written. -/
theorem setNext_of_notMem (h : Scheduled ctx l) (ht : t ∉ l) (next : Option τ) :
    Scheduled (ctx.update t (setNext next)) l where
  chain := by
    rw [TaskletContext.next_update_setNext]
    apply h.chain.congr
    intro u hu
    apply Function.update_of_ne
    rintro rfl
    exact ht hu
  nodup := h.nodup
  mem_iff u := by
    rw [TaskletContext.state_update_setNext]
    exact h.mem_iff u

theorem schedule (h : Scheduled ctx l)
    (hlink : ctx.state t = .scheduled ∨ ctx.scheduleTasks ≠ none ∨ ctx.next t = none) :
    Scheduled (cmnosTaskletSchedule ctx t) (if t ∈ l then l else t :: l) := by
  rw [cmnosTaskletSchedule]
  by_cases hstate : ctx.state t = .scheduled
  · rw [if_pos hstate, if_pos ((h.mem_iff t).mpr hstate)]
    exact h
  · have ht : t ∉ l := fun hmem => hstate ((h.mem_iff t).mp hmem)
    rw [if_neg hstate, if_neg ht]
    dsimp only
    split
    case isTrue hempty =>
      rw [TaskletContext.scheduleTasks_update] at hempty
      have hnext : ctx.next t = none := by simpa [hstate, hempty] using hlink
      apply h.push ht
      rw [← h.scheduleTasks_eq, hempty, hnext]
    case isFalse =>
      -- the two writes to the tasklet commute
      have hcomm : (ctx.update t (setState .scheduled)).update t (setNext ctx.scheduleTasks) =
          (ctx.update t (setNext ctx.scheduleTasks)).update t (setState .scheduled) := by
        simp [TaskletContext.update, setState, setNext]
      rw [TaskletContext.scheduleTasks_update, hcomm]
      apply (h.setNext_of_notMem ht ctx.scheduleTasks).push ht
      rw [TaskletContext.next_update_setNext, Function.update_self]
      exact h.scheduleTasks_eq

/-- The loop of `cmnos_tasklet_disable` finds a tasklet of the list. -/
theorem seek_eq [Fintype τ] (h : Scheduled ctx l) (ht : t ∈ l) :
    ∃ l₁ l₂, l = l₁ ++ t :: l₂ ∧ t ∉ l₁ ∧
      seek ctx.next (· = t) (Fintype.card τ) none ctx.scheduleTasks =
        some (l₁.getLast?, some t) := by
  obtain ⟨l₁, l₂, rfl, hseek, hbefore, hat⟩ := h.chain.seek_split h.length_le_card (· = t)
  have hout : t ∉ l₁ := by
    intro hmem
    simpa using hbefore t hmem
  cases l₂ with
  | nil => simp [hout] at ht
  | cons u l₂ =>
    obtain rfl : u = t := by simpa using hat u rfl
    exact ⟨l₁, l₂, rfl, hout, hseek⟩

/-- The link to a tasklet of the list is written over with its own link. -/
theorem unlink {l₁ l₂ : List τ} {prev : τ} (h : Scheduled ctx (l₁ ++ t :: l₂))
    (hprev : l₁.getLast? = some prev) :
    Scheduled ((ctx.update prev (setNext (ctx.next t))).update t (setState .disable))
      (l₁ ++ l₂) where
  chain := by
    have hpart := List.nodup_append.mp h.nodup
    have hmem : prev ∈ l₁ := List.mem_of_getLast? hprev
    rw [TaskletContext.next_update_setState, TaskletContext.next_update_setNext]
    have hrest : Chain (Function.update ctx.next prev (ctx.next t)) (ctx.next t) l₂ := by
      have htail := (Chain.append h.chain).2
      apply htail.congr
      intro u hu
      apply Function.update_of_ne
      rintro rfl
      exact hpart.2.2 u hmem u (List.mem_cons_of_mem _ hu) rfl
    have hchain := h.chain.relink hrest (fun b hb => ?_) fun u hu => ?_
    · rwa [hprev] at hchain
    · obtain rfl : prev = b := Option.some.inj (hprev.symm.trans hb)
      exact Function.update_self _ _ _
    · apply Function.update_of_ne
      rintro rfl
      -- the last node does not occur before
      have hsplit := List.dropLast_append_getLast? u hprev
      have hnodup := hsplit ▸ hpart.1
      exact (List.nodup_append.mp hnodup).2.2 u hu u List.mem_cons_self rfl
  nodup := by
    have := h.nodup
    rw [List.nodup_middle] at this
    exact (List.nodup_cons.mp this).2
  mem_iff u := by
    have hnodup := h.nodup
    rw [List.nodup_middle] at hnodup
    have hout := (List.nodup_cons.mp hnodup).1
    have hiff := h.mem_iff u
    rw [TaskletContext.state_update_setState, TaskletContext.state_update_setNext]
    by_cases hu : u = t
    · subst hu
      simp only [Function.update_self]
      simpa using hout
    · rw [Function.update_of_ne hu, ← hiff]
      simp [hu]

/-- A tasklet that is alone is taken off the list. -/
theorem unlink_only (h : Scheduled ctx [t]) :
    Scheduled ({ ctx with scheduleTasks := none }.update t (setState .disable)) [] where
  chain := rfl
  nodup := List.nodup_nil
  mem_iff u := by
    have hiff := h.mem_iff u
    rw [TaskletContext.state_update_setState]
    by_cases hu : u = t
    · subst hu
      simp
    · rw [Function.update_of_ne hu]
      change _ ↔ ctx.state u = _
      simpa [hu] using hiff

/-- `cmnos_tasklet_disable` ends, and takes the one tasklet off the list. -/
theorem disable [Fintype τ] (h : Scheduled ctx l)
    (hhead : ctx.scheduleTasks = some t → ctx.next t = none) :
    ∃ ctx', cmnosTaskletDisable ctx t = some ctx' ∧ Scheduled ctx' (l.erase t) ∧
      ctx'.call = ctx.call := by
  rw [cmnosTaskletDisable]
  by_cases hstate : ctx.state t = .scheduled
  · obtain ⟨l₁, l₂, rfl, hout, hseek⟩ := h.seek_eq ((h.mem_iff t).mpr hstate)
    rw [if_neg (not_not.mpr hstate), hseek, List.erase_append_right _ hout,
      List.erase_cons_head]
    refine ⟨_, rfl, ?_⟩
    cases hprev : l₁.getLast? with
    | some prev =>
      refine ⟨h.unlink hprev, ?_⟩
      simp [removeTasklet]
    | none =>
      obtain rfl := List.getLast?_eq_none_iff.mp hprev
      have hlast : ctx.next t = none := hhead h.scheduleTasks_eq
      obtain rfl : l₂ = [] := by
        have hrest := h.chain.2
        rw [hlast] at hrest
        cases l₂ with
        | nil => rfl
        | cons => cases hrest.1
      refine ⟨h.unlink_only, ?_⟩
      exact TaskletContext.call_update_setState .disable
  · have hout : t ∉ l := fun hmem => hstate ((h.mem_iff t).mp hmem)
    rw [if_pos hstate, List.erase_of_not_mem hout]
    exact ⟨ctx, rfl, h, rfl⟩

/-- The head of the list is taken off it before its function is called. -/
theorem pop (h : Scheduled ctx (t :: l)) :
    Scheduled (({ ctx with scheduleTasks := ctx.next t }.update t (setNext none)).update t
      (setState .running)) l where
  chain := by
    have hout := (List.nodup_cons.mp h.nodup).1
    rw [TaskletContext.next_update_setState, TaskletContext.next_update_setNext]
    apply h.chain.2.congr
    intro u hu
    apply Function.update_of_ne
    rintro rfl
    exact hout hu
  nodup := (List.nodup_cons.mp h.nodup).2
  mem_iff u := by
    have hout := (List.nodup_cons.mp h.nodup).1
    have hiff := h.mem_iff u
    rw [TaskletContext.state_update_setState, TaskletContext.state_update_setNext]
    by_cases hu : u = t
    · subst hu
      simp [hout]
    · rw [Function.update_of_ne hu]
      change _ ↔ ctx.state u = _
      simpa [hu] using hiff

end Scheduled

/-! ## Runs -/

/-- What an event makes of the list. -/
def TaskletEvent.after (l : List τ) : TaskletEvent τ → List τ
  | .initTask _ _ _ => l
  | .schedule t => if t ∈ l then l else t :: l
  | .disable t => l.erase t
  | .run => l.tail
  | .ret => l.tail

/-- Every call that was scheduled was executed, was taken off the list, or is on it. -/
def Balanced (s : Scheduler τ) (l : List τ) : Prop :=
  ∀ c, s.log.count (.scheduled c) =
    s.log.count (.executed c) + s.log.count (.disabled c) + (l.map s.ctx.call).count c

structure Served (s : Scheduler τ) (l : List τ) : Prop where
  list : Scheduled s.ctx l
  balanced : Balanced s l

/-- The loop runs the head of the list, or ends with the list. -/
theorem Served.runLoop {s : Scheduler τ} {l : List τ} (h : Served s l) :
    Served (cmnosTaskletRunLoop s) l.tail ∧
      (cmnosTaskletRunLoop s).stack = l.head?.toList ++ s.stack := by
  rw [cmnosTaskletRunLoop]
  cases l with
  | nil =>
    have hempty : s.ctx.scheduleTasks = none := h.list.scheduleTasks_eq
    rw [hempty]
    refine ⟨⟨?_, h.balanced⟩, rfl⟩
    exact ⟨rfl, List.nodup_nil, h.list.mem_iff⟩
  | cons t l =>
    have hhead : s.ctx.scheduleTasks = some t := h.list.scheduleTasks_eq
    rw [hhead]
    refine ⟨⟨h.list.pop, fun c => ?_⟩, rfl⟩
    have hc := h.balanced c
    dsimp only
    rw [TaskletContext.call_update_setState, TaskletContext.call_update_setNext]
    change _ = _ + _ + (l.map s.ctx.call).count c
    change _ = _ + _ + (s.ctx.call t :: l.map s.ctx.call).count c at hc
    change _ = (Entry.executed (s.ctx.call t) :: s.log).count _ + _ + _
    simp only [List.count_cons, beq_iff_eq, Entry.executed.injEq, reduceCtorEq, if_false] at hc ⊢
    omega

theorem Served.init {s : Scheduler τ} (h : s.Init) : Served s [] := by
  obtain ⟨hhead, _, hlog, hidle⟩ := h
  refine ⟨⟨hhead, List.nodup_nil, fun t => ?_⟩, fun c => ?_⟩
  · rw [(hidle t).1]
    simp
  · rw [hlog]
    rfl

section

variable [Fintype τ] {s s' : Scheduler τ} {e : TaskletEvent τ}

/-- Nothing that is done in good order gets stuck, but the return of no function. -/
theorem Served.step (h : Served s l) (he : Orderly s e) (hs : stepTasklet e s = some s') :
    Served s' (e.after l) := by
  cases e with
  | initTask fn arg t =>
    cases hs
    have hout : t ∉ l := fun hmem => he ((h.list.mem_iff t).mp hmem)
    refine ⟨h.list.initTask he fn arg, fun c => ?_⟩
    have hcalls : l.map (cmnosTaskletInitTask s.ctx fn arg t).call = l.map s.ctx.call := by
      apply List.map_congr_left
      intro u hu
      have hne : u ≠ t := by
        rintro rfl
        exact hout hu
      simp [TaskletContext.call, cmnosTaskletInitTask,
        TaskletContext.tasklets_update_of_ne _ _ hne]
    dsimp only
    rw [TaskletEvent.after, hcalls]
    exact h.balanced c
  | schedule t =>
    cases hs
    refine ⟨h.list.schedule he, fun c => ?_⟩
    have hcall : (cmnosTaskletSchedule s.ctx t).call = s.ctx.call := by
      rw [cmnosTaskletSchedule]
      split
      · rfl
      · dsimp only
        split
        · exact TaskletContext.call_update_setState .scheduled
        · change (TaskletContext.update _ _ _).call = _
          simp
    have hc := h.balanced c
    dsimp only
    rw [TaskletEvent.after, hcall, Scheduler.note]
    by_cases hmem : t ∈ l
    · simpa [hmem, (h.list.mem_iff t).mp hmem] using hc
    · have hstate : s.ctx.state t ≠ .scheduled := fun heq => hmem ((h.list.mem_iff t).mpr heq)
      simp only [hmem, hstate, if_false, ne_eq, not_false_eq_true, decide_true, if_true,
        List.map_cons, List.count_cons, beq_iff_eq, Entry.scheduled.injEq, reduceCtorEq]
      omega
  | disable t =>
    obtain ⟨ctx', hctx, hlist, hcall⟩ := h.list.disable he
    simp only [stepTasklet, hctx, Option.map_some, Option.some.injEq] at hs
    subst hs
    refine ⟨hlist, fun c => ?_⟩
    have hc := h.balanced c
    dsimp only
    rw [TaskletEvent.after, hcall, Scheduler.note]
    by_cases hmem : t ∈ l
    · have hperm := ((List.perm_cons_erase hmem).map s.ctx.call).count_eq c
      rw [List.map_cons, List.count_cons] at hperm
      simp only [(h.list.mem_iff t).mp hmem, decide_true, if_true, List.count_cons, beq_iff_eq,
        Entry.disabled.injEq, reduceCtorEq, if_false] at hperm ⊢
      omega
    · have hstate : s.ctx.state t ≠ .scheduled := fun heq => hmem ((h.list.mem_iff t).mpr heq)
      simpa [hmem, hstate, List.erase_of_not_mem hmem] using hc
  | run =>
    cases hs
    exact h.runLoop.1
  | ret =>
    simp only [stepTasklet] at hs
    cases hstack : s.stack with
    | nil => simp [hstack] at hs
    | cons tmp stack =>
      simp only [hstack, Option.some.injEq] at hs
      subst hs
      by_cases hstate : s.ctx.state tmp = .scheduled
      · -- the loop calls the tasklet again, whatever its state
        have hhead : s.ctx.scheduleTasks = some tmp := he tmp (by rw [hstack]; rfl) hstate
        have hagain : cmnosTaskletRunLoop { s with
              ctx := s.ctx.update tmp (setState .disable), stack := stack } =
            cmnosTaskletRunLoop { s with stack := stack } := by
          simp [cmnosTaskletRunLoop, hhead, TaskletContext.update, TaskletContext.next,
            TaskletContext.call, setState, setNext]
        rw [hagain]
        exact (Served.runLoop (s := { s with stack := stack }) ⟨h.list, h.balanced⟩).1
      · have hout : tmp ∉ l := fun hmem => hstate ((h.list.mem_iff tmp).mp hmem)
        have hdone : Served { s with
            ctx := s.ctx.update tmp (setState .disable), stack := stack } l := by
          refine ⟨h.list.setState_of_notMem hout (by decide), fun c => ?_⟩
          dsimp only
          rw [TaskletContext.call_update_setState]
          exact h.balanced c
        exact hdone.runLoop.1

theorem served (h : (scheduler τ).ReachableWhere Orderly s) : ∃ l, Served s l := by
  apply h.invariant
  · intro s hinit
    exact ⟨[], .init hinit⟩
  · intro s e s' hl he hs
    obtain ⟨l, hl⟩ := hl
    exact ⟨e.after l, hl.step he hs⟩

/-- The test of the loop, reached by an event, calls the head of the list. -/
theorem Served.log_eq (h : Served s l) (hloop : e = .run ∨ e = .ret)
    (hs : stepTasklet e s = some s') :
    s'.log = (l.head?.map fun t => .executed (s.ctx.call t)).toList ++ s.log := by
  have hlog : ∀ s₀ : Scheduler τ, s₀.ctx.scheduleTasks = l.head? → s₀.ctx.call = s.ctx.call →
      s₀.log = s.log → (cmnosTaskletRunLoop s₀).log =
        (l.head?.map fun t => .executed (s.ctx.call t)).toList ++ s.log := by
    intro s₀ hhead hcall hlog
    rw [cmnosTaskletRunLoop, hhead]
    cases l with
    | nil => exact hlog
    | cons t l =>
      simp only [List.head?_cons, TaskletContext.call_update_setState,
        TaskletContext.call_update_setNext, Option.map_some, Option.toList_some,
        List.singleton_append, hlog, ← hcall]
      rfl
  rcases hloop with rfl | rfl
  · cases hs
    exact hlog s h.list.scheduleTasks_eq rfl rfl
  · cases hstack : s.stack with
    | nil => simp [stepTasklet, hstack] at hs
    | cons tmp stack =>
      simp only [stepTasklet, hstack, Option.some.injEq] at hs
      subst hs
      apply hlog
      · exact h.list.scheduleTasks_eq
      · exact TaskletContext.call_update_setState .disable
      · rfl

/-- Every call that was scheduled was executed or taken off the list. -/
def Settled (s : Scheduler τ) : Prop :=
  ∀ c, s.log.count (.scheduled c) = s.log.count (.executed c) + s.log.count (.disabled c)

/-- In good order the list is acyclic and holds exactly the tasklets that are scheduled, once
each; disabling a tasklet takes this one off it; the loop calls what is on the list, and when it
ends, every scheduling has led to one call unless it was taken back. -/
theorem tasklets_run_once (h : (scheduler τ).ReachableWhere Orderly s) :
    ∃ l, Scheduled s.ctx l ∧
      (∀ t, s.ctx.state t = .scheduled ↔ l.count t = 1) ∧
      (∀ t, Orderly s (.disable t) → ∃ s', stepTasklet (.disable t) s = some s' ∧
        Scheduled s'.ctx (l.erase t) ∧ s'.stack = s.stack) ∧
      Balanced s l ∧
      ∀ e s', (e = .run ∨ e = .ret) → Orderly s e → stepTasklet e s = some s' →
        s'.log = (l.head?.map fun t => .executed (s.ctx.call t)).toList ++ s.log ∧
          (l = [] → Settled s') := by
  obtain ⟨l, hl⟩ := served h
  refine ⟨l, hl.list, fun t => (hl.list.count_eq_one t).symm, fun t ht => ?_, hl.balanced,
    fun e s' hloop he hs => ⟨hl.log_eq hloop hs, ?_⟩⟩
  · obtain ⟨ctx', hctx, hlist, -⟩ := hl.list.disable ht
    have hstep : stepTasklet (.disable t) s = some { s with
        ctx := ctx', log := s.note (s.ctx.state t = .scheduled) (.disabled (s.ctx.call t)) } := by
      simp only [stepTasklet, hctx, Option.map_some]
    exact ⟨_, hstep, hlist, rfl⟩
  · rintro rfl c
    have hc := (hl.step he hs).balanced c
    rcases hloop with rfl | rfl <;> simpa [TaskletEvent.after] using hc

end

/-- Every tasklet as `cmnos_tasklet_init_task` leaves it. -/
def freshScheduler (τ : Type) : Scheduler τ where
  ctx := ⟨fun _ => ⟨0, 0, .disable, none⟩, none⟩
  stack := []
  log := []

theorem freshScheduler_init {τ : Type} : (freshScheduler τ).Init :=
  ⟨rfl, rfl, rfl, fun _ => ⟨rfl, rfl⟩⟩

/-- Three tasklets, one of them disabled and scheduled again by the function of another. -/
theorem tasklets_run_once_rescheduled : ∃ s : Scheduler (Fin 3),
    s.stack = [] ∧ s.log.length = 8 ∧ ∃ l, Scheduled s.ctx l ∧ Balanced s l := by
  obtain ⟨s, steps, hstack, hlog⟩ := Machine.exists_of_runWhere Scheduler.Init stepTasklet Orderly
    (P := fun s => s.stack = [] ∧ s.log.length = 8) (s := freshScheduler (Fin 3))
    [.schedule 0, .schedule 1, .schedule 2, .disable 1, .run, .schedule 1, .ret, .ret, .ret]
    (by decide +kernel)
  obtain ⟨l, hl, -, -, hb, -⟩ := tasklets_run_once ⟨_, freshScheduler_init, steps⟩
  exact ⟨s, hstack, hlog, l, hl, hb⟩

/-- Disabling the first of two scheduled tasklets drops the other, which is never run and, its
state being `SCHEDULED`, can never be scheduled again. -/
theorem disable_drops_others :
    ¬ ∀ s, (scheduler (Fin 2)).Reachable s → ∃ l, Scheduled s.ctx l ∧ Balanced s l := by
  intro hall
  obtain ⟨s, steps, hstate, hhead⟩ := Machine.exists_of_runWhere Scheduler.Init stepTasklet
    (fun _ _ => True)
    (P := fun s => s.ctx.state 0 = .scheduled ∧ s.ctx.scheduleTasks = none)
    (s := freshScheduler (Fin 2)) [.schedule 0, .schedule 1, .disable 1, .schedule 0, .run]
    (by decide +kernel)
  obtain ⟨l, hl, -⟩ := hall s ⟨_, freshScheduler_init, steps⟩
  have hmem := (hl.mem_iff 0).mpr hstate
  have hempty := hl.scheduleTasks_eq
  rw [hhead] at hempty
  rw [List.head?_eq_none_iff.mp hempty.symm] at hmem
  cases hmem

end Ath9kHtc.Cmnos
