import Ath9kHtc.Tx.Controlled

/-!
# TIDs and the lists of the hardware queues

A TID is marked as scheduled exactly while it is on the list of its hardware queue, and no
frame is forgotten in a TID that is neither scheduled nor paused.
-/

namespace Ath9kHtc.Tx

namespace Control

variable {c : Control} {k k' : TidId} {q : QueueId} {n : ℕ}

/-- A TID is once on its list while it is scheduled, and on no list otherwise. -/
def Filed (c : Control) : Prop :=
  ∀ q k, (c.tidq q).count k =
    if (c.tid k).sched = true ∧ q = tidToActxq k.2 then 1 else 0

/-- No frame waits in a TID that is neither scheduled nor paused. -/
def Waits (c : Control) (k : TidId) : Prop :=
  (c.tid k).waiting ≠ 0 → (c.tid k).sched = true ∨ (c.tid k).paused = true

structure Listed (c : Control) : Prop where
  filed : c.Filed
  waits : ∀ k, c.Waits k

theorem Filed.of_sched (h : c.Filed) {f : Ctl → Ctl} (hf : ∀ t, (f t).sched = t.sched) :
    (c.modTid k f).Filed := by
  intro q k'
  have hsched : ((c.modTid k f).tid k').sched = (c.tid k').sched := by
    rcases eq_or_ne k' k with rfl | hne
    · rw [modTid_tid_self, hf]
    · rw [modTid_tid_of_ne f hne]
  rw [modTid_tidq, hsched]
  exact h q k'

theorem Filed.setWaiting (h : c.Filed) : (c.setWaiting k n).Filed := by
  rw [Control.setWaiting]
  exact h.of_sched fun _ => rfl

theorem Filed.unscheduled (h : c.Filed) (hs : (c.tid k).sched = false) (q : QueueId) :
    (c.tidq q).count k = 0 := by
  rw [h q k, hs]
  exact if_neg fun hand => absurd hand.1 (by decide)

/-- A TID on a list is scheduled, and the list is its own. -/
theorem Filed.of_mem (h : c.Filed) (hmem : k ∈ c.tidq q) :
    (c.tid k).sched = true ∧ q = tidToActxq k.2 := by
  by_contra hnot
  have hcount := h q k
  rw [if_neg hnot] at hcount
  exact List.count_eq_zero.mp hcount hmem

theorem Filed.schedule (h : c.Filed) (hs : (c.tid k).sched = false) :
    (c.schedule (tidToActxq k.2) k).Filed := by
  intro q k'
  have htidq : (c.schedule (tidToActxq k.2) k).tidq q =
      if q = tidToActxq k.2 then c.tidq q ++ [k] else c.tidq q := by
    rw [Control.schedule]
    split
    · subst q
      rw [setTidq_tidq_self]
    · rw [setTidq_tidq_of_ne _ ‹_›]
      rfl
  rw [htidq]
  rcases eq_or_ne k' k with rfl | hne
  · rw [schedule_tid_self]
    have hzero := h.unscheduled hs q
    split
    · rw [List.count_append, hzero, List.count_singleton_self]
      exact (if_pos ⟨rfl, ‹_›⟩).symm
    · rw [hzero]
      exact (if_neg fun hand => ‹¬_› hand.2).symm
  · have hcount : (if q = tidToActxq k.2 then c.tidq q ++ [k] else c.tidq q).count k' =
        (c.tidq q).count k' := by
      split
      · rw [List.count_append, List.count_singleton, if_neg (by simpa using hne.symm), Nat.add_zero]
      · rfl
    rw [hcount, schedule_tid_of_ne hne]
    exact h q k'

theorem Filed.enqueue (h : c.Filed) : (c.enqueue (tidToActxq k.2) k).Filed :=
  enqueue_cases (fun _ => h) (fun _ => h) fun _ hs => h.schedule hs

theorem Filed.requeue (h : c.Filed) : (c.requeue (tidToActxq k.2) k).Filed := by
  rw [Control.requeue]
  split
  · exact h
  · exact h.enqueue

/-- The first TID of a list leaves it. -/
theorem Filed.dequeue (h : c.Filed) (hhead : (c.tidq q).head? = some k) :
    (c.dequeue q k).Filed := by
  obtain ⟨rest, hq⟩ := List.head?_eq_some_iff.mp hhead
  obtain ⟨hs, rfl⟩ := h.of_mem (hq ▸ List.mem_cons_self)
  intro q k'
  have htidq : (c.dequeue (tidToActxq k.2) k).tidq q =
      if q = tidToActxq k.2 then rest else c.tidq q := by
    rw [Control.dequeue, modTid_tidq]
    split
    · subst q
      rw [setTidq_tidq_self, hq]
      rfl
    · rw [setTidq_tidq_of_ne _ ‹_›]
  have hcount := h q k'
  rcases eq_or_ne k' k with rfl | hne
  · have hunscheduled : ¬(((c.dequeue (tidToActxq k'.2) k').tid k').sched = true ∧
        q = tidToActxq k'.2) := by
      rw [dequeue_tid_self]
      exact fun hand => Bool.false_ne_true hand.1
    rw [if_neg hunscheduled, htidq]
    by_cases hown : q = tidToActxq k'.2
    · subst q
      rw [hq, List.count_cons_self, if_pos ⟨hs, rfl⟩] at hcount
      rw [if_pos rfl]
      exact Nat.succ_inj.mp hcount
    · rw [if_neg hown]
      rwa [if_neg fun hand => hown hand.2] at hcount
  · rw [dequeue_tid_of_ne hne, ← hcount, htidq]
    split
    · subst q
      rw [hq, List.count_cons_of_ne hne.symm]
    · rfl

theorem waits_of_eq {d : Control} (h : c.Waits k) (htid : d.tid k = c.tid k) : d.Waits k := by
  rw [Waits, htid]
  exact h

/-- A TID that has just been scheduled forgets no frame. -/
theorem waits_enqueue (h : k' ≠ k → c.Waits k') : (c.enqueue q k).Waits k' := by
  rcases eq_or_ne k' k with rfl | hne
  · refine enqueue_cases (P := fun d => d.Waits k') (fun hp _ => .inr hp) (fun hs _ => .inl hs)
      fun _ _ _ => .inl ?_
    rw [schedule_tid_self]
  · refine enqueue_cases (P := fun d => d.Waits k') (fun _ => h hne) (fun _ => h hne) fun _ _ => ?_
    exact waits_of_eq (h hne) (schedule_tid_of_ne hne)

theorem waits_requeue (h : k' ≠ k → c.Waits k') : (c.requeue q k).Waits k' := by
  rw [requeue]
  split
  · rcases eq_or_ne k' k with rfl | hne
    · exact fun hw => absurd ‹_› hw
    · exact h hne
  · exact waits_enqueue h

theorem waits_modTid {f : Ctl → Ctl} (h : c.Waits k')
    (hf : k' = k → c.Waits k → (f (c.tid k)).waiting ≠ 0 →
      (f (c.tid k)).sched = true ∨ (f (c.tid k)).paused = true) : (c.modTid k f).Waits k' := by
  rcases eq_or_ne k' k with rfl | hne
  · rw [Waits, modTid_tid_self]
    exact hf rfl h
  · exact waits_of_eq h (modTid_tid_of_ne f hne)

/-- Every action keeps the lists in order, but the initialisation of a scheduled TID. -/
theorem listed_act (h : c.Listed) {a : ControlAct} (hcan : c.Can a)
    (hinit : ∀ k, a = .init k → (c.tid k).sched = false) : (c.act a).Listed := by
  obtain ⟨hfiled, hwaits⟩ := h
  cases a with
  | push k n =>
      refine ⟨hfiled.setWaiting.enqueue, fun k' => waits_enqueue fun hne => ?_⟩
      exact waits_of_eq (hwaits k') (modTid_tid_of_ne _ hne)
  | serve q k n =>
      obtain ⟨hhead, -⟩ := hcan
      obtain ⟨-, rfl⟩ := hfiled.of_mem (List.mem_of_head? hhead)
      refine ⟨((hfiled.dequeue hhead).setWaiting).requeue, fun k' => waits_requeue fun hne => ?_⟩
      exact waits_of_eq (hwaits k')
        ((modTid_tid_of_ne _ hne).trans (dequeue_tid_of_ne hne))
  | skip q k =>
      rw [act]
      refine ⟨hfiled.dequeue hcan.1, fun k' => ?_⟩
      rcases eq_or_ne k' k with rfl | hne
      · intro _
        rw [dequeue_tid_self]
        exact .inr hcan.2
      · exact waits_of_eq (hwaits k') (dequeue_tid_of_ne hne)
  | unlist q k =>
      rw [act]
      refine ⟨(hfiled.dequeue hcan).setWaiting, fun k' => ?_⟩
      rcases eq_or_ne k' k with rfl | hne
      · intro hw
        rw [setWaiting, modTid_tid_self] at hw
        exact absurd rfl hw
      · refine waits_of_eq (hwaits k') ?_
        rw [setWaiting, modTid_tid_of_ne _ hne, dequeue_tid_of_ne hne]
  | shed k n =>
      rw [act]
      refine ⟨hfiled.setWaiting, fun k' => ?_⟩
      rw [setWaiting]
      refine waits_modTid (hwaits k') fun _ hw hne => hw fun hzero => hne ?_
      show (c.tid k).waiting - n = 0
      rw [hzero, Nat.zero_sub]
  | pause k =>
      rw [act]
      refine ⟨hfiled.of_sched fun _ => rfl, fun k' => ?_⟩
      exact waits_modTid (hwaits k') fun _ _ _ => .inr rfl
  | resume k =>
      rw [act]
      have hresumed : (c.modTid k fun t => { t with paused := false }).Filed :=
        hfiled.of_sched fun _ => rfl
      refine ⟨hresumed.requeue, fun k' => waits_requeue fun hne => ?_⟩
      exact waits_of_eq (hwaits k') (modTid_tid_of_ne _ hne)
  | init k =>
      rw [act]
      have hs := hinit k rfl
      refine ⟨fun q k' => ?_, fun k' => waits_modTid (hwaits k') fun _ _ hne => absurd rfl hne⟩
      have hcount := hfiled q k'
      rcases eq_or_ne k' k with rfl | hne
      · rw [modTid_tidq, modTid_tid_self, hcount, hs]
      · rw [modTid_tidq, modTid_tid_of_ne _ hne]
        exact hcount
  | _ =>
      rw [act]
      refine ⟨hfiled.of_sched fun _ => rfl, fun k' => ?_⟩
      exact waits_modTid (hwaits k') fun _ hw => hw

end Control

variable {sc sc' : Softc} {s : TxState} {k : TidId} {bf : BufId} {e : Event}

instance (s : TxState) (bf : BufId) (k : TidId) : Decidable (LandsOne s bf k) :=
  decidable_of_iff ((s.tid k).cleanupInprogres = true ∧
      ((s.buf bf).bfComp = some .normal ∨
        (s.buf bf).bfComp = some .aggr ∧ (s.buf bf).bfIsaggr = false) ∧
      aInt8 ((s.tid k).incomp - 1) = 0)
    ⟨fun h => ⟨h.1, h.2.1, h.2.2⟩, fun h => ⟨h.cleanup, h.kind, h.last⟩⟩

/-- No TID is initialised while it is scheduled: neither by the creation of its node, nor at the
end of a cleanup that the creation of its node has postponed it to. -/
def InitsUnscheduled (sc : Softc) : Event → Prop
  | .processq q state answer =>
    ∀ bf ∈ processed q state answer sc.tx, ∀ k ∈ keyOf (sc.tx.buf bf), LandsOne sc.tx bf k →
      (sc.tx.tid k).reinitializeFlag = true → (sc.tx.tid k).sched = false
  | .nodeCreate cmd =>
    ∀ k : TidId, cmd.niNodeindex = k.1 → (sc.tx.tid k).cleanupInprogres = false →
      (sc.tx.tid k).sched = false
  | _ => True

instance (sc : Softc) (e : Event) : Decidable (InitsUnscheduled sc e) :=
  match e with
  | .processq q state answer =>
    inferInstanceAs (Decidable (∀ bf ∈ processed q state answer sc.tx,
      ∀ k ∈ keyOf (sc.tx.buf bf), _ → _ → _))
  | .nodeCreate cmd =>
    inferInstanceAs (Decidable (∀ k : TidId, cmd.niNodeindex = k.1 → _ → _))
  | .recvData .. | .recvMgmt .. | .statusClear | .statusSend | .drainStart | .drainTidq .. |
    .drainEnd | .enableAggr .. | .nodeCleanup .. | .nodeUpdate .. | .icUpdate .. =>
    inferInstanceAs (Decidable True)

theorem governed_init {c : Control} (hok : InitsUnscheduled sc e)
    (h : Governed sc e c (.init k)) : (c.tid k).sched = false := by
  rcases h with hplain | hrisk
  · exact False.elim hplain
  · cases hrisk with
    | @complete q state answer bf k' c _ hproc hkey hr =>
        cases hr with
        | init hl hreinit =>
            rw [Control.act, Control.modTid_tid_self]
            exact hok bf hproc k hkey hl hreinit
    | create hni hc hsame =>
        rw [hsame]
        exact hok k hni hc

/-- A TID is scheduled exactly while it is on the list of its own hardware queue, where it is
once, and on no other list; and no frame waits in a TID that is neither scheduled nor paused. -/
structure TidsListed (s : TxState) : Prop where
  sched_iff : ∀ k, (s.tid k).sched = true ↔
    (s.txq (tidToActxq k.2)).axqTidq.count k = 1 ∧
      ∀ q, q ≠ tidToActxq k.2 → k ∉ (s.txq q).axqTidq
  unlisted : ∀ k, (s.tid k).sched = false → ∀ q, k ∉ (s.txq q).axqTidq
  waiting : ∀ k, (s.tid k).bufQ ≠ [] → (s.tid k).sched = true ∨ (s.tid k).paused = true

theorem tidsListed_of_listed (h : s.control.Listed) : TidsListed s := by
  obtain ⟨hfiled, hwaits⟩ := h
  have hunlisted : ∀ k, (s.tid k).sched = false → ∀ q, k ∉ (s.txq q).axqTidq :=
    fun k hs q => List.count_eq_zero.mp (hfiled.unscheduled hs q)
  refine ⟨fun k => ⟨fun hs => ⟨?_, fun q hne hmem => ?_⟩, fun hcount => ?_⟩, hunlisted, ?_⟩
  · exact (hfiled (tidToActxq k.2) k).trans (if_pos ⟨hs, rfl⟩)
  · exact hne (hfiled.of_mem hmem).2
  · by_contra hs
    have hzero := hfiled.unscheduled (k := k) (Bool.eq_false_iff.mpr hs) (tidToActxq k.2)
    rw [show s.control.tidq (tidToActxq k.2) = (s.txq (tidToActxq k.2)).axqTidq from rfl,
      hcount.1] at hzero
    exact absurd hzero (by decide)
  · intro k hne
    exact hwaits k fun hzero => hne (List.length_eq_zero_iff.mp hzero)

/-- On every run in which no scheduled TID is initialised, flags, lists and queues agree. -/
theorem tids_listed (h : transmit.ReachableWhere InitsUnscheduled sc) : TidsListed sc.tx := by
  refine tidsListed_of_listed (control_invariant h ?_ ?_)
  · rintro c rfl
    exact ⟨fun q k => (if_neg fun hand => Bool.false_ne_true hand.1).symm,
      fun k hne => absurd rfl hne⟩
  · intro sc e c a hok _ hc hG hcan
    refine Control.listed_act hc hcan ?_
    rintro k rfl
    exact governed_init hok hG

/-- Two frames in flight for a TID, one of which waits for the other. -/
def waitingEvents : List Event :=
  [.nodeCreate (createNode 0), .enableAggr 0 0 true, .recvData 0 (dataTo 0) blankFrame,
    .recvData 0 (dataTo 0) blankFrame]

theorem tids_listed_run : ∃ sc : Softc, (sc.tx.tid (0, 0)).sched = true ∧
    (sc.tx.tid (0, 0)).bufQ ≠ [] ∧ TidsListed sc.tx := by
  obtain ⟨sc, steps, hsched, hne⟩ := Machine.exists_of_runWhere transmit.Init step
    InitsUnscheduled
    (P := fun sc => (sc.tx.tid (0, 0)).sched = true ∧ (sc.tx.tid (0, 0)).bufQ ≠ [])
    (s := attach smallConfig steadyAnswers) waitingEvents (by decide +kernel)
  exact ⟨sc, hsched, hne, tids_listed ⟨_, ⟨_, _, by decide, rfl⟩, steps⟩⟩

/-- A node created again takes the mark off a TID that stays on its list. -/
theorem node_create_strands_tid : ¬ ∀ sc, transmit.Reachable sc → TidsListed sc.tx := by
  intro h
  obtain ⟨sc, steps, hsched, hlisted⟩ := Machine.exists_of_runWhere transmit.Init step
    (fun _ _ => True)
    (P := fun sc : Softc => (sc.tx.tid (0, 0)).sched = false ∧
      (sc.tx.txq (tidToActxq 0)).axqTidq.count (0, 0) = 1 ∧
        ∀ q, q ≠ tidToActxq 0 → ((0, 0) : TidId) ∉ (sc.tx.txq q).axqTidq)
    (s := attach smallConfig steadyAnswers) (waitingEvents ++ [.nodeCreate (createNode 0)])
    (by decide +kernel)
  have hmark := ((h sc ⟨_, ⟨_, _, by decide, rfl⟩, steps⟩).sched_iff (0, 0)).mpr hlisted
  exact Bool.false_ne_true (hsched.symm.trans hmark)

end Ath9kHtc.Tx
