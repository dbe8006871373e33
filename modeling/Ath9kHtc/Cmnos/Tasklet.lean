import Ath9kHtc.Lib.Run
import Ath9kHtc.Lib.Splice
import Mathlib.Data.Fintype.Card
import Mathlib.Data.Fintype.Pi

/-!
# Tasklets

`cmnos_tasklet.c`, function by function, and the steps it takes between the calls of the
tasklets' functions.  A function that runs may do all that the outside may do, so the stack holds
the tasklets whose functions have not returned.
-/

namespace Ath9kHtc.Cmnos

variable {τ : Type} [DecidableEq τ]

/-- `A_TASKLET_STATE_` -/
inductive TaskletState
  | disable
  | scheduled
  | running
  deriving DecidableEq, Repr

/-- `A_tasklet_t`; the function and its argument are addresses. -/
structure Tasklet (τ : Type) where
  func : ℕ
  arg : ℕ
  state : TaskletState
  next : Option τ
  deriving DecidableEq, Repr

/-- `g_tasklet_ctx`, with the memory of the tasklets. -/
structure TaskletContext (τ : Type) where
  tasklets : τ → Tasklet τ
  scheduleTasks : Option τ

namespace TaskletContext

def next (ctx : TaskletContext τ) (t : τ) : Option τ := (ctx.tasklets t).next

def state (ctx : TaskletContext τ) (t : τ) : TaskletState := (ctx.tasklets t).state

/-- `*t` updated in place. -/
def update (ctx : TaskletContext τ) (t : τ) (f : Tasklet τ → Tasklet τ) : TaskletContext τ :=
  { ctx with tasklets := Function.update ctx.tasklets t (f (ctx.tasklets t)) }

@[simp] theorem scheduleTasks_update (ctx : TaskletContext τ) (t : τ) (f : Tasklet τ → Tasklet τ) :
    (ctx.update t f).scheduleTasks = ctx.scheduleTasks := rfl

theorem tasklets_update_self (ctx : TaskletContext τ) (t : τ) (f : Tasklet τ → Tasklet τ) :
    (ctx.update t f).tasklets t = f (ctx.tasklets t) :=
  Function.update_self t _ _

theorem tasklets_update_of_ne (ctx : TaskletContext τ) {t u : τ} (f : Tasklet τ → Tasklet τ)
    (h : u ≠ t) : (ctx.update t f).tasklets u = ctx.tasklets u :=
  Function.update_of_ne h _ _

end TaskletContext

def setState (state : TaskletState) (t : Tasklet τ) : Tasklet τ := { t with state := state }

def setNext (next : Option τ) (t : Tasklet τ) : Tasklet τ := { t with next := next }

/-! ## The functions -/

def cmnosTaskletInitTask (ctx : TaskletContext τ) (fn arg : ℕ) (tasklet : τ) : TaskletContext τ :=
  ctx.update tasklet fun _ => ⟨fn, arg, .disable, none⟩

def cmnosTaskletSchedule (ctx : TaskletContext τ) (tasklet : τ) : TaskletContext τ :=
  if ctx.state tasklet = .scheduled then ctx
  else
    let ctx := ctx.update tasklet (setState .scheduled)
    if ctx.scheduleTasks = none then { ctx with scheduleTasks := some tasklet }
    else { ctx.update tasklet (setNext ctx.scheduleTasks) with scheduleTasks := some tasklet }

/-- What the loop of `cmnos_tasklet_disable` does where it finds the tasklet. -/
def removeTasklet (ctx : TaskletContext τ) (prev : Option τ) (tmp : τ) : TaskletContext τ :=
  let ctx :=
    match prev with
    -- the whole list, not only its head
    | none => { ctx with scheduleTasks := none }
    | some prev => ctx.update prev (setNext (ctx.next tmp))
  ctx.update tmp (setState .disable)

/-- It is `none` where the loop never ends. -/
def cmnosTaskletDisable [Fintype τ] (ctx : TaskletContext τ) (tasklet : τ) :
    Option (TaskletContext τ) :=
  if ctx.state tasklet ≠ .scheduled then some ctx
  else
    (seek ctx.next (· = tasklet) (Fintype.card τ) none ctx.scheduleTasks).map fun
      | (_, none) => ctx
      | (prev, some tmp) => removeTasklet ctx prev tmp

/-! ## The scheduler -/

/-- A tasklet with the function and the argument it is called with. -/
structure Call (τ : Type) where
  tasklet : τ
  func : ℕ
  arg : ℕ
  deriving DecidableEq, Repr

def TaskletContext.call (ctx : TaskletContext τ) (t : τ) : Call τ :=
  ⟨t, (ctx.tasklets t).func, (ctx.tasklets t).arg⟩

/-- What happened to a tasklet: it was scheduled, taken off again, or its function was called. -/
inductive Entry (τ : Type)
  | scheduled (call : Call τ)
  | disabled (call : Call τ)
  | executed (call : Call τ)
  deriving DecidableEq, Repr

structure Scheduler (τ : Type) where
  ctx : TaskletContext τ
  /-- The tasklets whose functions run, each called by the loop within the next. -/
  stack : List τ
  log : List (Entry τ)

/-- The loop of `cmnos_tasklet_run` from its test to the call of the function, or to its end. -/
def cmnosTaskletRunLoop (s : Scheduler τ) : Scheduler τ :=
  match s.ctx.scheduleTasks with
  | none => { s with ctx := { s.ctx with scheduleTasks := none } }
  | some tmp =>
    let ctx := { s.ctx with scheduleTasks := s.ctx.next tmp }
    let ctx := ctx.update tmp (setNext none)
    let ctx := ctx.update tmp (setState .running)
    { ctx := ctx, stack := tmp :: s.stack, log := .executed (ctx.call tmp) :: s.log }

/-- The calls of the module's functions, and the return of a tasklet's function. -/
inductive TaskletEvent (τ : Type)
  | initTask (fn arg : ℕ) (tasklet : τ)
  | schedule (tasklet : τ)
  | disable (tasklet : τ)
  | run
  | ret
  deriving DecidableEq, Repr

/-- An entry for a call that changes whether the tasklet is scheduled. -/
def Scheduler.note (s : Scheduler τ) (changes : Bool) (entry : Entry τ) : List (Entry τ) :=
  if changes then entry :: s.log else s.log

def stepTasklet [Fintype τ] : TaskletEvent τ → Scheduler τ → Option (Scheduler τ)
  | .initTask fn arg t, s => some { s with ctx := cmnosTaskletInitTask s.ctx fn arg t }
  | .schedule t, s =>
    some { s with
      ctx := cmnosTaskletSchedule s.ctx t
      log := s.note (s.ctx.state t ≠ .scheduled) (.scheduled (s.ctx.call t)) }
  | .disable t, s =>
    (cmnosTaskletDisable s.ctx t).map fun ctx =>
      { s with
        ctx := ctx
        log := s.note (s.ctx.state t = .scheduled) (.disabled (s.ctx.call t)) }
  | .run, s => some (cmnosTaskletRunLoop s)
  | .ret, s =>
    match s.stack with
    | [] => none
    | tmp :: stack =>
      some (cmnosTaskletRunLoop { s with ctx := s.ctx.update tmp (setState .disable), stack := stack })

/-- After `cmnos_tasklet_init`, with every tasklet as `cmnos_tasklet_init_task` leaves it. -/
def Scheduler.Init (s : Scheduler τ) : Prop :=
  s.ctx.scheduleTasks = none ∧ s.stack = [] ∧ s.log = [] ∧
    ∀ t, s.ctx.state t = .disable ∧ s.ctx.next t = none

def scheduler (τ : Type) [DecidableEq τ] [Fintype τ] : Machine (Scheduler τ) (TaskletEvent τ) :=
  .ofPartial Scheduler.Init stepTasklet

/-- A tasklet is not initialised while it is scheduled, nothing is scheduled in front of a stale
link, the first of several scheduled tasklets is not disabled, and a function does not leave its
own tasklet scheduled behind another. -/
def Orderly (s : Scheduler τ) : TaskletEvent τ → Prop
  | .initTask _ _ t => s.ctx.state t ≠ .scheduled
  | .schedule t =>
    s.ctx.state t = .scheduled ∨ s.ctx.scheduleTasks ≠ none ∨ s.ctx.next t = none
  | .disable t => s.ctx.scheduleTasks = some t → s.ctx.next t = none
  | .run => True
  | .ret => ∀ t ∈ s.stack.head?, s.ctx.state t = .scheduled → s.ctx.scheduleTasks = some t

instance (s : Scheduler τ) : ∀ e : TaskletEvent τ, Decidable (Orderly s e)
  | .initTask _ _ _ => inferInstanceAs (Decidable (_ ≠ _))
  | .schedule _ => inferInstanceAs (Decidable (_ ∨ _ ≠ _ ∨ _))
  | .disable _ => inferInstanceAs (Decidable (_ → _))
  | .run => .isTrue trivial
  | .ret => inferInstanceAs (Decidable (∀ t ∈ s.stack.head?, _))

end Ath9kHtc.Cmnos
