import Ath9kHtc.Lib.Run
import Ath9kHtc.Lib.Splice
import Mathlib.Algebra.Ring.Nat
import Mathlib.Data.Fintype.Card
import Mathlib.Data.Fintype.Pi

/-!
# Timers

`cmnos_timer.c`, function by function, and the steps of its handler between the calls of the
timers' functions.  Ticks are counted without a bound; `NOW()` is the 32-bit counter.
-/

namespace Ath9kHtc.Cmnos

variable {τ : Type} [DecidableEq τ]

/-- `ONE_MSEC` -/
def oneMsec : ℕ := 40000

/-- `TIMER_IS_EARLIER` -/
def timerIsEarlier (t1 t2 : BitVec 32) : Bool := (t1 - t2).toInt ≤ 0

/-- `cmnos_timer_t`, without the period, which nothing reads. -/
structure Timer (τ : Type) where
  timerNext : Option τ
  timerExpire : BitVec 32
  timerFunction : ℕ
  timerArg : ℕ
  deriving DecidableEq, Repr

def Timer.setNext (next : Option τ) (timer : Timer τ) : Timer τ := { timer with timerNext := next }

/-- The fields a timer gets when it is put into the list. -/
def Timer.place (next : Option τ) (expire : BitVec 32) (timer : Timer τ) : Timer τ :=
  { timer with timerNext := next, timerExpire := expire }

/-- `timer_list`, with the memory of the timers. -/
structure TimerContext (τ : Type) where
  timers : τ → Timer τ
  timerList : Option τ

namespace TimerContext

def next (ctx : TimerContext τ) (t : τ) : Option τ := (ctx.timers t).timerNext

def expire (ctx : TimerContext τ) (t : τ) : BitVec 32 := (ctx.timers t).timerExpire

/-- `*t` updated in place. -/
def update (ctx : TimerContext τ) (t : τ) (f : Timer τ → Timer τ) : TimerContext τ :=
  { ctx with timers := Function.update ctx.timers t (f (ctx.timers t)) }

/-- The link after `prev`, or the head of the list, is written. -/
def relink (ctx : TimerContext τ) (prev next : Option τ) : TimerContext τ :=
  match prev with
  | none => { ctx with timerList := next }
  | some prev => ctx.update prev (.setNext next)

end TimerContext

/-! ## The functions -/

def cmnosTimerSetfn (ctx : TimerContext τ) (fn arg : ℕ) (ptimer : τ) : TimerContext τ :=
  ctx.update ptimer fun _ => ⟨none, 0, fn, arg⟩

/-- `NOW()` -/
def nowTicks (now : ℕ) : BitVec 32 := BitVec.ofNat 32 now

/-- `MILLIS_TO_TIMER_TICKS` -/
def millisToTimerTicks (milliseconds : ℕ) : BitVec 32 := BitVec.ofNat 32 (milliseconds * oneMsec)

/-- It is `none` where the search for the place never ends. -/
def cmnosTimerArm [Fintype τ] (ctx : TimerContext τ) (now milliseconds : ℕ) (ptimer : τ) :
    Option (TimerContext τ) :=
  let timerExpire := nowTicks now + millisToTimerTicks milliseconds
  (seek ctx.next (fun curr => timerIsEarlier timerExpire (ctx.expire curr)) (Fintype.card τ) none
    ctx.timerList).map fun (prev, curr) =>
      (ctx.update ptimer (.place curr timerExpire)).relink prev (some ptimer)

/-- It is `none` where the search for the timer never ends. -/
def cmnosTimerDisarm [Fintype τ] (ctx : TimerContext τ) (ptimer : τ) : Option (TimerContext τ) :=
  (seek ctx.next (· = ptimer) (Fintype.card τ) none ctx.timerList).map fun (prev, curr) =>
    let ctx :=
      match curr with
      | none => ctx
      | some curr => ctx.relink prev (ctx.next curr)
    ctx.update ptimer (.setNext none)

/-! ## The system -/

/-- An arming of a timer: the tick by which the delay has elapsed. -/
structure Arming (τ : Type) where
  timer : τ
  deadline : ℕ
  deriving DecidableEq, Repr

structure TimerSystem (τ : Type) where
  ctx : TimerContext τ
  now : ℕ
  /-- The timers whose functions run, each called by the handler within the next. -/
  stack : List τ
  /-- For each timer the deadline of its last arming. -/
  deadline : τ → ℕ
  armed : List (Arming τ)
  disarmed : List (Arming τ)
  /-- The armings that fired, with the tick they fired at. -/
  fired : List (Arming τ × ℕ)

def TimerSystem.arming (s : TimerSystem τ) (t : τ) : Arming τ := ⟨t, s.deadline t⟩

/-- The timers found from the head of the list on. -/
def TimerSystem.listed [Fintype τ] (s : TimerSystem τ) : List τ :=
  walk s.ctx.next (Fintype.card τ) s.ctx.timerList

/-- The loop of `cmnos_timer_handler` from its test to the call of the function, or to its end. -/
def cmnosTimerHandlerLoop (s : TimerSystem τ) : TimerSystem τ :=
  match s.ctx.timerList with
  | none => s
  | some ptimer =>
    if timerIsEarlier (s.ctx.expire ptimer) (nowTicks s.now) then
      let ctx := { s.ctx with timerList := s.ctx.next ptimer }
      { s with
        ctx := ctx.update ptimer (.setNext none)
        stack := ptimer :: s.stack
        fired := (s.arming ptimer, s.now) :: s.fired }
    else s

/-- The calls of the module's functions, the return of a timer's function, and ticks that
pass. -/
inductive TimerEvent (τ : Type)
  | setfn (fn arg : ℕ) (ptimer : τ)
  | arm (ptimer : τ) (milliseconds : ℕ)
  | disarm (ptimer : τ)
  | tick (n : ℕ)
  | run
  | ret
  deriving DecidableEq, Repr

/-- Delays are below `2 ^ 31` ticks. -/
def stepTimer [Fintype τ] : TimerEvent τ → TimerSystem τ → Option (TimerSystem τ)
  | .setfn fn arg t, s => some { s with ctx := cmnosTimerSetfn s.ctx fn arg t }
  | .arm t milliseconds, s =>
    if milliseconds * oneMsec < 2147483648 then
      let deadline := s.now + milliseconds * oneMsec
      (cmnosTimerArm s.ctx s.now milliseconds t).map fun ctx =>
        { s with
          ctx := ctx
          deadline := Function.update s.deadline t deadline
          armed := ⟨t, deadline⟩ :: s.armed }
    else none
  | .disarm t, s =>
    (cmnosTimerDisarm s.ctx t).map fun ctx =>
      { s with
        ctx := ctx
        disarmed := if t ∈ s.listed then s.arming t :: s.disarmed else s.disarmed }
  | .tick n, s => some { s with now := s.now + n }
  | .run, s => some (cmnosTimerHandlerLoop s)
  | .ret, s =>
    match s.stack with
    | [] => none
    | _ :: stack => some (cmnosTimerHandlerLoop { s with stack := stack })

/-- After `cmnos_timer_init`, with every timer as `cmnos_timer_setfn` leaves it. -/
def TimerSystem.Init (s : TimerSystem τ) : Prop :=
  s.ctx.timerList = none ∧ s.stack = [] ∧ s.armed = [] ∧ s.disarmed = [] ∧ s.fired = [] ∧
    ∀ t, s.ctx.next t = none

def timerMachine (τ : Type) [DecidableEq τ] [Fintype τ] :
    Machine (TimerSystem τ) (TimerEvent τ) :=
  .ofPartial TimerSystem.Init stepTimer

/-- No timer is armed or set up while it is on the list, and no timer on the list is overdue by
so much that the difference to the time it is compared with reaches `2 ^ 31` ticks. -/
def Timely [Fintype τ] (s : TimerSystem τ) : TimerEvent τ → Prop
  | .setfn _ _ t => t ∉ s.listed
  | .arm t milliseconds =>
    t ∉ s.listed ∧ ∀ u ∈ s.listed, s.now + milliseconds * oneMsec < s.deadline u + 2147483648
  | .disarm _ => True
  | .tick _ => True
  | .run => ∀ u ∈ s.listed, s.now ≤ s.deadline u + 2147483648
  | .ret => ∀ u ∈ s.listed, s.now ≤ s.deadline u + 2147483648

instance [Fintype τ] (s : TimerSystem τ) : ∀ e : TimerEvent τ, Decidable (Timely s e)
  | .setfn _ _ _ => inferInstanceAs (Decidable (¬ _))
  | .arm _ _ => inferInstanceAs (Decidable (_ ∧ _))
  | .disarm _ => .isTrue trivial
  | .tick _ => .isTrue trivial
  | .run => inferInstanceAs (Decidable (∀ u ∈ s.listed, _))
  | .ret => inferInstanceAs (Decidable (∀ u ∈ s.listed, _))

end Ath9kHtc.Cmnos
