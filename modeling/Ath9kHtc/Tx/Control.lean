import Ath9kHtc.Lib.Run
import Ath9kHtc.Tx.Window

/-!
# The scheduling of TIDs

What decides when a TID may send: its flags, how many frames wait in it, what its cleanup still
counts, and the lists of TIDs the hardware queues serve.  The actions are the only ways in which
the transmit path changes these.
-/

namespace Ath9kHtc.Tx

/-- The part of a TID that its scheduling depends on. -/
structure Ctl where
  waiting : ℕ
  paused : Bool
  sched : Bool
  cleanup : Bool
  reinit : Bool
  incomp : Int

def Tid.ctl (tid : Tid) : Ctl where
  waiting := tid.bufQ.length
  paused := tid.paused
  sched := tid.sched
  cleanup := tid.cleanupInprogres
  reinit := tid.reinitializeFlag
  incomp := tid.incomp

namespace Ctl

/-- What a TID has beside its queue and its place in a list. -/
def core (t : Ctl) : Ctl := { t with waiting := 0, sched := false }

end Ctl

structure Control where
  tid : TidId → Ctl
  tidq : QueueId → List TidId

def TxState.control (s : TxState) : Control where
  tid k := (s.tid k).ctl
  tidq q := (s.txq q).axqTidq

inductive ControlAct
  /-- frames join the queue of the TID, which is scheduled -/
  | push (k : TidId) (n : ℕ)
  /-- the first TID of a list sends some of its frames -/
  | serve (q : QueueId) (k : TidId) (n : ℕ)
  /-- the first TID of a list is paused and leaves the list -/
  | skip (q : QueueId) (k : TidId)
  /-- the first TID of a list is drained -/
  | unlist (q : QueueId) (k : TidId)
  /-- frames are thrown out of the queue -/
  | shed (k : TidId) (n : ℕ)
  | pause (k : TidId)
  | resume (k : TidId)
  /-- a cleanup starts, or counts again -/
  | count (k : TidId) (incomp : Int)
  /-- the cleanup has one frame less to wait for -/
  | land (k : TidId)
  | finish (k : TidId)
  | postpone (k : TidId)
  | init (k : TidId)

namespace Control

variable {c : Control} {k k' : TidId} {q : QueueId} {n : ℕ}

def modTid (c : Control) (k : TidId) (f : Ctl → Ctl) : Control :=
  { c with tid := Function.update c.tid k (f (c.tid k)) }

def setTidq (c : Control) (q : QueueId) (l : List TidId) : Control :=
  { c with tidq := Function.update c.tidq q l }

@[simp] theorem modTid_tid_self (f : Ctl → Ctl) : (c.modTid k f).tid k = f (c.tid k) :=
  Function.update_self ..

theorem modTid_tid_of_ne (f : Ctl → Ctl) (h : k' ≠ k) : (c.modTid k f).tid k' = c.tid k' :=
  Function.update_of_ne h ..

@[simp] theorem modTid_tidq (f : Ctl → Ctl) : (c.modTid k f).tidq = c.tidq := rfl

@[simp] theorem setTidq_tid (l : List TidId) : (c.setTidq q l).tid = c.tid := rfl

@[simp] theorem setTidq_tidq_self (l : List TidId) : (c.setTidq q l).tidq q = l :=
  Function.update_self ..

theorem setTidq_tidq_of_ne {q' : QueueId} (l : List TidId) (h : q' ≠ q) :
    (c.setTidq q l).tidq q' = c.tidq q' :=
  Function.update_of_ne h ..

def setWaiting (c : Control) (k : TidId) (n : ℕ) : Control :=
  c.modTid k fun t => { t with waiting := n }

def schedule (c : Control) (q : QueueId) (k : TidId) : Control :=
  (c.modTid k fun t => { t with sched := true }).setTidq q (c.tidq q ++ [k])

/-- `ath_tgt_tx_enqueue` -/
def enqueue (c : Control) (q : QueueId) (k : TidId) : Control :=
  if (c.tid k).paused then c else if (c.tid k).sched then c else c.schedule q k

/-- `ath_tgt_tx_enqueue` of a TID that has frames. -/
def requeue (c : Control) (q : QueueId) (k : TidId) : Control :=
  if (c.tid k).waiting = 0 then c else c.enqueue q k

def dequeue (c : Control) (q : QueueId) (k : TidId) : Control :=
  (c.setTidq q (c.tidq q).tail).modTid k fun t => { t with sched := false }

def act (c : Control) : ControlAct → Control
  | .push k n =>
    (c.setWaiting k ((c.tid k).waiting + n)).enqueue (tidToActxq k.2) k
  | .serve q k n =>
    ((c.dequeue q k).setWaiting k ((c.tid k).waiting - n)).requeue q k
  | .skip q k => c.dequeue q k
  | .unlist q k => (c.dequeue q k).setWaiting k 0
  | .shed k n => c.setWaiting k ((c.tid k).waiting - n)
  | .pause k => c.modTid k fun t => { t with paused := true }
  | .resume k => (c.modTid k fun t => { t with paused := false }).requeue (tidToActxq k.2) k
  | .count k incomp => c.modTid k fun t => { t with incomp := incomp, cleanup := true }
  | .land k => c.modTid k fun t => { t with incomp := aInt8 (t.incomp - 1) }
  | .finish k => c.modTid k fun t => { t with cleanup := false }
  | .postpone k => c.modTid k fun t => { t with reinit := true }
  | .init k =>
    c.modTid k fun t =>
      { t with waiting := 0, paused := false, sched := false, cleanup := false, reinit := false }

/-- When an action can happen. -/
def Can (c : Control) : ControlAct → Prop
  | .serve q k _ => (c.tidq q).head? = some k ∧ (c.tid k).paused = false
  | .skip q k => (c.tidq q).head? = some k ∧ (c.tid k).paused = true
  | .unlist q k => (c.tidq q).head? = some k
  | .count k _ => (c.tid k).paused = true
  | .land k => (c.tid k).cleanup = true
  | .finish k => (c.tid k).cleanup = true ∧ (c.tid k).incomp = 0
  | .postpone k => (c.tid k).cleanup = true
  | _ => True

end Control

namespace ControlAct

/-- The TID an action is about. -/
def tid : ControlAct → TidId
  | .push k _ | .serve _ k _ | .skip _ k | .unlist _ k | .shed k _ | .pause k | .resume k
  | .count k _ | .land k | .finish k | .postpone k | .init k => k

/-- What an action does to the flags of its TID. -/
def onCore : ControlAct → Ctl → Ctl
  | .pause _, t => { t with paused := true }
  | .resume _, t => { t with paused := false }
  | .count _ incomp, t => { t with incomp := incomp, cleanup := true }
  | .land _, t => { t with incomp := aInt8 (t.incomp - 1) }
  | .finish _, t => { t with cleanup := false }
  | .postpone _, t => { t with reinit := true }
  | .init _, t => { t with paused := false, cleanup := false, reinit := false }
  | _, t => t

/-- What no condition of a step has to be asked for. -/
def Plain : ControlAct → Prop
  | .resume _ | .finish _ | .init _ => False
  | _ => True

end ControlAct

/-- Nothing waits and nothing is scheduled at the start. -/
def controller : Machine Control ControlAct where
  Init c := c = ⟨fun _ => ⟨0, false, false, false, false, 0⟩, fun _ => []⟩
  Step c a c' := c.Can a ∧ c' = c.act a

namespace Control

variable {c c' : Control} {k k' : TidId} {q : QueueId} {n : ℕ} {a : ControlAct}
  {G : Control → ControlAct → Prop} {P : Control → Prop}

theorem steps_one (h : G c a) (hcan : c.Can a) : controller.StepsWhere G c (c.act a) :=
  .single ⟨a, h, hcan, rfl⟩

/-- What every action keeps holds after any number of them. -/
theorem steps_invariant (steps : controller.StepsWhere G c c') (hc : P c)
    (hact : ∀ c a, P c → G c a → c.Can a → P (c.act a)) : P c' := by
  induction steps with
  | refl => exact hc
  | tail _ last ih =>
    obtain ⟨a, hG, hcan, rfl⟩ := last
    exact hact _ a ih hG hcan

theorem schedule_tid_of_ne (h : k' ≠ k) : (c.schedule q k).tid k' = c.tid k' :=
  Function.update_of_ne h ..

@[simp] theorem schedule_tid_self :
    (c.schedule q k).tid k = { c.tid k with sched := true } :=
  Function.update_self ..

theorem dequeue_tid_of_ne (h : k' ≠ k) : (c.dequeue q k).tid k' = c.tid k' :=
  Function.update_of_ne h ..

@[simp] theorem dequeue_tid_self : (c.dequeue q k).tid k = { c.tid k with sched := false } :=
  Function.update_self ..

/-- A TID is scheduled, or was scheduled before, or is paused. -/
theorem enqueue_cases {P : Control → Prop} (hself : (c.tid k).paused = true → P c)
    (hlisted : (c.tid k).sched = true → P c)
    (hadd : (c.tid k).paused = false → (c.tid k).sched = false → P (c.schedule q k)) :
    P (c.enqueue q k) := by
  rw [enqueue]
  split
  · exact hself ‹_›
  · split
    · exact hlisted ‹_›
    · exact hadd (by simpa using ‹¬(c.tid k).paused = true›) (by simpa using ‹¬(c.tid k).sched = true›)

theorem core_modTid {f : Ctl → Ctl} (hf : ∀ t, (f t).core = t.core) :
    ((c.modTid k f).tid k').core = (c.tid k').core := by
  rcases eq_or_ne k' k with rfl | hne
  · rw [modTid_tid_self, hf]
  · rw [modTid_tid_of_ne f hne]

theorem core_schedule : ((c.schedule q k).tid k').core = (c.tid k').core := by
  rcases eq_or_ne k' k with rfl | hne
  · rw [schedule_tid_self]
    rfl
  · rw [schedule_tid_of_ne hne]

theorem core_setWaiting : ((c.setWaiting k n).tid k').core = (c.tid k').core := by
  rw [setWaiting]
  exact core_modTid fun _ => rfl

theorem core_enqueue : ((c.enqueue q k).tid k').core = (c.tid k').core :=
  enqueue_cases (P := fun d => (d.tid k').core = (c.tid k').core) (fun _ => rfl) (fun _ => rfl)
    fun _ _ => core_schedule

theorem core_requeue : ((c.requeue q k).tid k').core = (c.tid k').core := by
  rw [requeue]
  split
  · rfl
  · exact core_enqueue

theorem core_dequeue : ((c.dequeue q k).tid k').core = (c.tid k').core := by
  rw [dequeue]
  exact core_modTid fun _ => rfl

theorem core_modTid_onCore {f g : Ctl → Ctl} (hf : ∀ t, (f t).core = g t.core) :
    ((c.modTid k' f).tid k).core = if k = k' then g (c.tid k).core else (c.tid k).core := by
  split
  · subst k'
    rw [modTid_tid_self, hf]
  · rw [modTid_tid_of_ne f ‹_›]

/-- An action changes the flags of its own TID only. -/
theorem core_act (a : ControlAct) :
    ((c.act a).tid k).core = if k = a.tid then a.onCore (c.tid k).core else (c.tid k).core := by
  cases a with
  | push k' n =>
      rw [act, core_enqueue, core_setWaiting]
      exact (ite_self _).symm
  | serve q k' n =>
      rw [act, core_requeue, core_setWaiting, core_dequeue]
      exact (ite_self _).symm
  | skip q k' =>
      rw [act, core_dequeue]
      exact (ite_self _).symm
  | unlist q k' =>
      rw [act, core_setWaiting, core_dequeue]
      exact (ite_self _).symm
  | shed k' n =>
      rw [act, core_setWaiting]
      exact (ite_self _).symm
  | resume k' =>
      rw [act, core_requeue]
      exact core_modTid_onCore fun _ => rfl
  | _ =>
      rw [act]
      exact core_modTid_onCore fun _ => rfl

end Control

end Ath9kHtc.Tx
