import Ath9kHtc.Rx.Reassembly

/-!
# What is left on the ring

A scan takes every frame the hardware has completed, perhaps but for the last, and the tasklet
empties the records.
-/

namespace Ath9kHtc.Rx

open Framing

variable {s s' : RxState} {Q C U R : List DescId} {ds h : DescId} {W X : List RxBuf}
  {F : List (List Segment)}

/-! ## The end of a scan -/

theorem finishFrame_ne_stop {c : Scan} {len : ℕ} : finishFrame s c ds len ≠ .stop s' := by
  intro heq
  rw [finishFrame] at heq
  split at heq
  · cases heq
  · split at heq <;> cases heq

theorem scanDone_ne_stop {c : Scan} : scanDone s c ds ≠ .stop s' := by
  intro heq
  rw [scanDone] at heq
  split at heq
  · cases heq
  · dsimp only at heq
    split at heq
    · cases heq
    · exact finishFrame_ne_stop heq

/-- The scan stops where no descriptor follows that the hardware has gone on to. -/
theorem scanRound_stop {c : Scan} {Q₁ : List DescId} (sc : Scans c s h Q C U W X F)
    (hat : At c s Q₁ ds R) (hstop : scanRound c s = .stop s') : s' = s ∧ C.length ≤ 1 := by
  obtain ⟨rfl, hCU⟩ := sc.at_eq hat
  have as := sc.assembly
  have hshort : ¬ c.cnt + 1 = s.cfg.numrxbufs - 1 := by
    have hlt := as.length_lt
    rw [sc.cnt]
    omega
  have hlinks : (ds :: R).IsChain fun d d' => (s.desc d).dsLink = some d' := by
    rw [← hCU]
    exact (List.isChain_append.mp as.chained.links).2.1
  have hlen : C.length ≤ (ds :: R).length := by
    rw [← hCU, List.length_append]
    exact Nat.le_add_right _ _
  simp only [scanRound, hat.2.1, if_neg hshort] at hstop
  cases hlink : (s.desc ds).dsLink with
  | none =>
      simp only [hlink] at hstop
      cases R with
      | nil => exact ⟨(Round.stop.inj hstop).symm, hlen⟩
      | cons d R =>
          have hnext := hlinks.rel
          rw [hlink] at hnext
          cases hnext
  | some nds =>
      simp only [hlink] at hstop
      cases hrecord : s.scRxbuf[c.bf]? with
      | none =>
          rw [hrecord] at hstop
          cases hstop
      | some bf =>
          simp only [hrecord] at hstop
          by_cases hbusy : bf.done = true
          · rw [if_pos hbusy] at hstop
            cases hstop
          rw [if_neg hbusy] at hstop
          by_cases hwait : inProgress s ds nds = true
          · rw [if_pos hwait] at hstop
            refine ⟨(Round.stop.inj hstop).symm, ?_⟩
            cases C with
            | nil => exact Nat.zero_le 1
            | cons d C =>
                obtain ⟨rfl, hR⟩ := List.cons.inj hCU
                cases C with
                | nil => exact le_refl 1
                | cons d' C =>
                    -- the next one is filled too
                    obtain rfl : d' = nds := by
                      rw [← hR] at hlinks
                      exact (Option.some.inj (hlink.symm.trans hlinks.rel)).symm
                    have hdone := as.completed d (by simp)
                    have hdone' := as.completed d' (by simp)
                    simp [inProgress, hdone, hdone'] at hwait
          · rw [if_neg hwait] at hstop
            exact absurd hstop scanDone_ne_stop

/-- All frames that have come are in records or with the host, perhaps but for the last. -/
def Taken (g : List Handed) (s : RxState) : Prop :=
  ∃ h C U W X F, Assembly s h [] C U W X F ∧ g.dropLast <+: F.map Handed.ofFrame

theorem dropLast_prefix {α : Type} {F g : List α} (hg : g.length ≤ 1) :
    (F ++ g).dropLast <+: F := by
  cases g with
  | nil =>
      rw [List.append_nil]
      exact F.dropLast_prefix
  | cons a g =>
      obtain rfl : g = [] := List.length_eq_zero_iff.mp (Nat.le_zero.mp (Nat.le_of_succ_le_succ hg))
      exact List.dropLast_concat.symm ▸ List.prefix_refl F

theorem Assembly.taken (as : Assembly s h Q C U W X F) (hC : C.length ≤ 1) :
    Taken ((Framing.frames Segment.more s.received).map Handed.ofFrame) s := by
  refine ⟨h, Q ++ C, U, W, X, F, as.reset, ?_⟩
  have hnoted : ∀ seg ∈ Q.map (segmentOf s), seg.more = true := by
    intro seg hseg
    obtain ⟨d, hd, rfl⟩ := List.mem_map.mp hseg
    exact (as.noted d hd).1
  have hleft : (Framing.frames Segment.more ((Q ++ C).map (segmentOf s))).length ≤ 1 := by
    rw [List.map_append]
    exact length_frames_le hnoted (by rwa [List.length_map])
  rw [as.received, frames_flatten_append as.frames, List.map_append]
  refine dropLast_prefix ?_
  rwa [List.length_map]

/-- What the loop of a scan leaves. -/
theorem scanLoop_taken (n : ℕ) : ∀ {c : Scan} {s s' : RxState}, (∃ Q ds R, At c s Q ds R) →
    ScansOn c s → scanLoop n c s = some s' →
      Taken ((frames Segment.more s'.received).map Handed.ofFrame) s' := by
  induction n with
  | zero => simp [scanLoop]
  | succ n ih =>
      intro c s s' hat hsc hrun
      obtain ⟨Q, ds, R, hat⟩ := hat
      have hscan : Scanned s c Q ds R (scanRound c s) := by
        obtain ⟨⟨h, hr⟩, hds, hhead⟩ := hat
        exact scanRound_spec hr hhead hds
      have hnext := hscan.at_next hat
      have hsc' := hscan.scansOn hat hsc
      rw [scanLoop] at hrun
      cases hcase : scanRound c s with
      | more a =>
          rw [hcase] at hrun hnext hsc'
          exact ih hnext hsc' hrun
      | stop s'' =>
          rw [hcase] at hrun
          obtain rfl := Option.some.inj hrun
          obtain ⟨h, Q', C, U, W, X, F, sc⟩ := hsc
          obtain ⟨rfl, hC⟩ := scanRound_stop sc hat hcase
          exact sc.assembly.taken hC
      | fault =>
          rw [hcase] at hrun
          cases hrun

/-! ## The records -/

/-- No frame waits in a record. -/
def NoneWaiting (s : RxState) : Prop := ∀ bf ∈ s.scRxbuf, bf.done = false

theorem Waiting.eq_nil (hw : Waiting s W X) (hn : ∀ bf ∈ s.scRxbuf.head?, bf.done = false) :
    W = [] := by
  cases W with
  | nil => rfl
  | cons w W =>
      have hhead : s.scRxbuf.head? = some w := by
        rw [hw.list]
        rfl
      have hnot := hn w hhead
      rw [(hw.waiting w List.mem_cons_self).1] at hnot
      cases hnot

theorem NoneWaiting.head (hn : NoneWaiting s) : ∀ bf ∈ s.scRxbuf.head?, bf.done = false :=
  fun bf hbf => hn bf (List.mem_of_mem_head? hbf)

theorem Waiting.noneWaiting (hw : Waiting s W X) (hn : ∀ bf ∈ s.scRxbuf.head?, bf.done = false) :
    NoneWaiting s := by
  obtain rfl := hw.eq_nil hn
  intro bf hbf
  rw [hw.list] at hbf
  exact (hw.free bf hbf).1

/-- The tasklet returns when the first record is free. -/
theorem tasklet_head (n : ℕ) : ∀ {s : RxState}, athTgtRxTasklet n s = some s' →
    ∀ bf ∈ s'.scRxbuf.head?, bf.done = false := by
  induction n with
  | zero => simp [athTgtRxTasklet]
  | succ n ih =>
      intro s hrun
      rw [athTgtRxTasklet] at hrun
      cases hbuf : s.scRxbuf with
      | nil =>
          simp only [taskletRound, hbuf] at hrun
          obtain rfl := Option.some.inj hrun
          simp [hbuf]
      | cons bf rest =>
          by_cases hdone : bf.done = true
          · cases hskb : bf.bfSkb with
            | none =>
                simp only [taskletRound, hbuf, if_pos hdone, hskb] at hrun
                exact ih hrun
            | some skb =>
                rw [taskletRound_handOver hbuf hdone hskb] at hrun
                exact ih hrun
          · simp only [taskletRound, hbuf, if_neg hdone] at hrun
            obtain rfl := Option.some.inj hrun
            simpa [hbuf] using hdone

/-- What neither scans nor flushes leaves the records alone. -/
theorem step_scRxbuf {e : Event} (hattached : Attached s) (hs : step e s = some s')
    (he : e = .startRecv ∨ e = .stopRecv ∨ (∃ seg, e = .receive seg) ∨ e = .advance ∨
      ∃ i, e = .complete i) : s'.scRxbuf = s.scRxbuf := by
  by_cases hstart : e = .startRecv
  · subst hstart
    obtain ⟨p, rest, s₁, B, h', -, -, hst, rfl⟩ := hattached.startrecv hs
    exact hst.scRxbuf
  rcases hattached with ⟨cfg, rfl⟩ | ⟨l, h, hr, -⟩
  · obtain rfl := step_attach hs hstart
    rfl
  rcases he with rfl | rfl | ⟨seg, rfl⟩ | rfl | ⟨i, rfl⟩
  · exact absurd rfl hstart
  · obtain rfl := Option.some.inj hs
    rfl
  · obtain ⟨ds, b, -, -, -, rfl⟩ := hwReceive_cases hs
    rfl
  · obtain ⟨ds, next, -, -, -, rfl⟩ := hwAdvance_cases hs
    rfl
  · obtain ⟨frags, hi, -⟩ := Option.map_eq_some_iff.mp hs
    obtain ⟨F, h', hfilled⟩ := hr.complete hi hs
    exact hfilled.scRxbuf

theorem flush_noneWaiting (hn : NoneWaiting s) (hs : athFlushrecvTgt s = some s') :
    NoneWaiting s' := by
  rcases athFlushrecvTgt_cases hs with rfl | rfl
  · exact hn
  · intro bf' hbf'
    obtain ⟨bf, hbf, rfl⟩ := List.mem_map.mp hbf'
    exact hn bf hbf

/-- A scan that finds the records free takes what has come. -/
theorem scan_taken {n : ℕ} (ha : Assembled s) (hn : NoneWaiting s)
    (hs : athUapsdProcesstriggers n s = some s') :
    Taken ((frames Segment.more s'.received).map Handed.ofFrame) s' := by
  obtain ⟨h, C, U, W, X, F, as⟩ := ha
  obtain rfl := as.records.eq_nil hn.head
  refine scanLoop_taken n (as.ring.at_start as.nonempty) ⟨h, [], C, U, [], X, F, as, rfl, rfl, rfl, ?_⟩
    hs
  have hne : C ++ U ≠ [] := as.nonempty
  show s.scRxdesc.head? = _
  rw [as.ring.list, List.nil_append, List.head?_append_of_ne_nil _ hne]

/-! ## What the host was given -/

/-- A scan neither receives nor hands over. -/
theorem scan_logs {n : ℕ} (hattached : Attached s)
    (hs : athUapsdProcesstriggers n s = some s') :
    s'.handed = s.handed ∧ s'.received = s.received := by
  rcases hattached with ⟨cfg, rfl⟩ | ⟨l, h, hr, hl⟩
  · obtain rfl := step_attach (e := .interrupt n) hs Event.noConfusion
    exact ⟨rfl, rfl⟩
  · refine (scanLoop_rule (P := fun _ s₁ => s₁.handed = s.handed ∧ s₁.received = s.received)
      (O := fun s₁ => s₁.handed = s.handed ∧ s₁.received = s.received) ?_ n (hr.at_start hl)
      ⟨rfl, rfl⟩ hs).1
    intro s₁ c Q ds R r hat hP hscan
    cases hscan with
    | dropped _ turned => exact ⟨turned.handed.trans hP.1, turned.received.trans hP.2⟩
    | waits => exact hP
    | noRecord => trivial
    | busy => exact hP
    | @segment bf b =>
        have hn := note_noted s₁ c.bf ds b
        exact ⟨hn.handed.trans hP.1, hn.received.trans hP.2⟩
    | @finished bf b _ _ _ _ _ _ _ _ _ _ _ _ _ _ turned =>
        have hn := note_noted s₁ c.bf ds b
        exact ⟨turned.handed.trans (hn.handed.trans hP.1),
          turned.received.trans (hn.received.trans hP.2)⟩

theorem tasklet_handed {n : ℕ} (hs : athTgtRxTasklet n s = some s') : s.handed <+: s'.handed := by
  refine tasklet_rule (P := fun s₁ => s.handed <+: s₁.handed) ?_ n (List.prefix_refl _) hs
  intro s₁ bf rest skb _ _ _ hP
  exact hP.trans (List.prefix_append _ _)

/-- A frame the host was given stays with it. -/
theorem step_handed {e : Event} (hattached : Attached s) (hs : step e s = some s') :
    s.handed <+: s'.handed := by
  by_cases hstart : e = .startRecv
  · subst hstart
    obtain ⟨p, rest, s₁, B, h', -, -, hst, rfl⟩ := hattached.startrecv hs
    exact hst.handed ▸ List.prefix_refl s.handed
  cases e with
  | startRecv => exact absurd rfl hstart
  | stopRecv =>
      obtain rfl := Option.some.inj hs
      exact List.prefix_refl _
  | flushRecv => rcases athFlushrecvTgt_cases hs with rfl | rfl <;> exact List.prefix_refl _
  | receive seg =>
      obtain ⟨ds, b, -, -, -, rfl⟩ := hwReceive_cases hs
      exact List.prefix_refl _
  | advance =>
      obtain ⟨ds, next, -, -, -, rfl⟩ := hwAdvance_cases hs
      exact List.prefix_refl _
  | interrupt rounds => exact (scan_logs hattached hs).1 ▸ List.prefix_refl s.handed
  | tasklet rounds => exact tasklet_handed hs
  | complete i =>
      rcases hattached with ⟨cfg, rfl⟩ | ⟨l, h, hr, -⟩
      · obtain rfl := step_attach hs hstart
        exact List.prefix_refl _
      · obtain ⟨frags, hi, -⟩ := Option.map_eq_some_iff.mp hs
        obtain ⟨F, h', hfilled⟩ := hr.complete hi hs
        exact hfilled.handed ▸ List.prefix_refl s.handed

end Ath9kHtc.Rx
