import Ath9kHtc.Tx.Tally

/-!
# Sequence numbers are not given out again

On every run in which a drain or the end of a session goes back only over numbers of MSDUs that
were never sent.
-/

namespace Ath9kHtc.Tx

open Numbering

variable {sc sc' : Softc} {k : TidId} {e : Event} {v : Session} {a : Action} {skb : SkbId}

/-- How many MSDUs got their number from the one of `a` on, up to the frame in front of
`between`. -/
def numbered (between : List Issue) (a : Issue) : ℕ := (a :: between).countP Issue.ends

/-- The numbers of a TID since its last initialisation, the latest first. -/
structure NotReissued (tid : Tid) : Prop where
  fragments : ∀ newer b a older, tid.issued = newer ++ b :: a :: older → a.moreFrag = true →
    b.seq = a.seq
  apart : ∀ newer b between a older, tid.issued = newer ++ b :: (between ++ a :: older) →
    b.seq = a.seq → a.skb ∈ tid.handed → 0 < numbered between a → 4096 ≤ numbered between a

theorem Fragments.split {issued newer older : List Issue} {a b : Issue} {n : ℕ}
    (h : Fragments issued n) (hissued : issued = newer ++ b :: a :: older)
    (hmore : a.moreFrag = true) : b.seq = a.seq := by
  subst hissued
  induction newer generalizing n with
  | nil => exact h.2.1 hmore
  | cons i newer ih => exact ih h.2

theorem Session.IsTallied.notReissued {s : TxState} (h : (s.view k).IsTallied) :
    NotReissued (s.tid k) := by
  obtain ⟨R, new, old, h⟩ := h
  refine ⟨fun newer b a older hissued => h.fragments.split hissued, ?_⟩
  intro newer b between a older hissued hsame hhanded hpos
  have hlog : (marked true new old).map Prod.fst = newer ++ b :: (between ++ a :: older) := by
    rw [← hissued, show (s.tid k).issued = _ from h.issued]
    simp [marked, Function.comp_def]
  obtain ⟨newer', l, hsplit, -, hl⟩ := List.map_eq_append_iff.mp hlog
  obtain ⟨⟨b, sb⟩, l', rfl, rfl, hl'⟩ := List.map_eq_cons_iff.mp hl
  obtain ⟨between', l'', rfl, rfl, hl''⟩ := List.map_eq_append_iff.mp hl'
  obtain ⟨⟨a, sa⟩, older', rfl, rfl, -⟩ := List.map_eq_cons_iff.mp hl''
  have hmem : (a, sa) ∈ marked true new old := by
    rw [hsplit]
    simp
  have hstands : sa = true := by
    rcases List.mem_append.mp hmem with hnew | hold
    · obtain ⟨i, -, heq⟩ := List.mem_map.mp hnew
      exact (Prod.ext_iff.mp heq).2.symm
    · exact h.stands _ hold (.inl hhanded)
  subst hstands
  have hapart := h.lawful.apart
  rw [hsplit] at hapart
  exact hapart.of_append.1 between' a older' rfl hsame hpos

/-! ## The steps of the transmit path -/

/-- A TID is drained, or a BAR of it given up, only where `seq_next` goes back over no number
of an MSDU that was sent. -/
def SparesSent (sc : Softc) : Event → Prop
  | .processq q state answer =>
    ∀ bf ∈ processed q state answer sc.tx, ∀ k ∈ keyOf (sc.tx.buf bf),
      (sc.tx.buf bf).bfComp = some .bar →
      (completedStat state answer sc.tx bf).tsStatus &&& halTxerrXretry ≠ 0 →
      owlmaxBarRetries ≤ (sc.tx.buf bf).bfRetries →
      (sc.tx.view k).GivesBack (sc.tx.view k).edge
  | .drainTidq q =>
    ∀ k ∈ (sc.tx.txq q).axqTidq.head?, (sc.tx.view k).GivesBack (sc.tx.tid k).seqStart
  | _ => True

instance (sc : Softc) (e : Event) : Decidable (SparesSent sc e) :=
  match e with
  | .processq q state answer =>
    inferInstanceAs (Decidable (∀ bf ∈ processed q state answer sc.tx,
      ∀ k ∈ keyOf (sc.tx.buf bf), _ → _ → _ → _))
  | .drainTidq q =>
    inferInstanceAs (Decidable (∀ k ∈ (sc.tx.txq q).axqTidq.head?, _))
  | .recvData .. | .recvMgmt .. | .statusClear | .statusSend | .drainStart | .drainEnd |
    .enableAggr .. | .nodeCreate .. | .nodeCleanup .. | .nodeUpdate .. |
    .icUpdate .. => inferInstanceAs (Decidable True)

theorem Allowed.rewinds (hok : SparesSent sc e) (h : Allowed sc e k v a) : v.Rewinds a := by
  rcases h with hsafe | hrisk
  · cases a <;> first | exact trivial | exact False.elim hsafe
  · cases hrisk with
    | send _ _ hsends => rcases hsends with ⟨-, rfl⟩ | ⟨-, rfl | rfl⟩ <;> exact trivial
    | @complete q state answer bf k a hproc hkey hcomp =>
        cases hcomp with
        | teardown hcomp hxretry hmax => exact hok bf hproc k hkey hcomp hxretry hmax
        | _ => exact trivial
    | drain hk => exact hok _ hk
    | _ => exact trivial

/-- A frame that gets a number is the first of its event to do anything. -/
theorem Allowed.at_view (h : Allowed sc e k v a) (htag : Session.issuedTag a = some skb) :
    v = sc.tx.view k := by
  rcases h with hsafe | hrisk
  · cases a <;> first | exact False.elim hsafe | cases htag
  · cases hrisk with
    | send => rfl
    | complete _ _ hcomp => cases hcomp <;> cases htag
    | _ => cases htag

theorem isTallied_init (h : session.Init v) : v.IsTallied := by
  obtain rfl : v = _ := h
  refine ⟨[], [], [], ⟨rfl, rfl, lawful_nil, trivial, rfl, ?_, ?_, ?_, List.nodup_nil,
    fun _ => ⟨rfl, rfl⟩, fun _ => rfl, ?_⟩⟩
  · exact fun f hf => by cases hf
  · exact fun i hi => by cases hi
  · exact fun p hp => by cases hp
  · exact ⟨Nat.zero_lt_succ _, Nat.zero_lt_succ _, Nat.zero_lt_succ _⟩

theorem below_init (h : session.Init v) (n : ℕ) : v.Below n := by
  obtain rfl : v = _ := h
  refine ⟨fun i hi => (by cases hi), ?_⟩
  rintro skb (h | ⟨f, hf, -⟩)
  · cases h
  · exact absurd hf (by simp)

theorem reachable_tallied
    (h : transmit.ReachableWhere (fun sc e => Settles sc e ∧ SparesSent sc e) sc) :
    (∃ lost, Fine sc lost) ∧ ∀ k, (sc.tx.view k).IsTallied ∧ (sc.tx.view k).Below sc.skbs := by
  refine h.invariant (P := fun sc => (∃ lost, Fine sc lost) ∧
    ∀ k, (sc.tx.view k).IsTallied ∧ (sc.tx.view k).Below sc.skbs) ?_ ?_
  · rintro sc ⟨cfg, rateAnswers, -, rfl⟩
    have hinit := view_attach cfg rateAnswers
    exact ⟨⟨0, fine_attach cfg rateAnswers⟩,
      fun k => ⟨isTallied_init (hinit k), below_init (hinit k) _⟩⟩
  · rintro sc e sc' ⟨⟨lost, hfine⟩, hall⟩ ⟨hsettles, hok⟩ hstep
    refine ⟨⟨_, step_fine hfine hsettles hstep⟩, fun k => ?_⟩
    have hskbs : sc'.skbs = sc.skbs + e.tags := (step_scSta hstep).1
    have hle : sc.skbs ≤ sc'.skbs := hskbs.symm ▸ Nat.le_add_right _ _
    obtain ⟨htallied, hbelow⟩ := hall k
    have hbelow' : (sc.tx.view k).Below sc'.skbs :=
      ⟨fun i hi => (hbelow.issued i hi).trans_le hle,
        fun skb hu => (hbelow.used skb hu).trans_le hle⟩
    refine Session.steps_invariant (P := fun v => v.IsTallied ∧ v.Below sc'.skbs) ?_
      ⟨htallied, hbelow'⟩ ((step_track hfine hsettles hstep).runs k)
    rintro v a ⟨hv, hbelow''⟩ hallowed hcan
    refine ⟨hv.act hcan (fun skb htag => ?_) (hallowed.rewinds hok),
      hbelow''.act hcan le_rfl fun skb htag => ?_⟩
    · obtain ⟨rfl, -⟩ := hallowed.tag htag
      obtain rfl := hallowed.at_view htag
      exact hbelow.not_mentions
    · obtain ⟨rfl, htags⟩ := hallowed.tag htag
      rw [hskbs, htags]
      exact Nat.lt_succ_self _

/-- A number is given out again only after 4096 others, or to make up for one that was never
sent. -/
theorem numbers_not_reissued
    (h : transmit.ReachableWhere (fun sc e => Settles sc e ∧ SparesSent sc e) sc) (k : TidId) :
    NotReissued (sc.tx.tid k) :=
  ((reachable_tallied h).2 k).1.notReissued

/-- The drain gives back the number of the frame that waits behind the first. -/
theorem numbers_not_reissued_run : ∃ sc : Softc,
    (sc.tx.tid (0, 0)).issued = [⟨1, 2, false⟩, ⟨1, 1, false⟩, ⟨0, 0, false⟩] ∧
      NotReissued (sc.tx.tid (0, 0)) := by
  obtain ⟨sc, steps, hissued⟩ := Machine.exists_of_runWhere transmit.Init step
    (fun sc e => Settles sc e ∧ SparesSent sc e)
    (P := fun sc => (sc.tx.tid (0, 0)).issued = [⟨1, 2, false⟩, ⟨1, 1, false⟩, ⟨0, 0, false⟩])
    (s := attach smallConfig steadyAnswers)
    [.nodeCreate (createNode 0), .enableAggr 0 0 true, .recvData 0 (dataTo 0) blankFrame,
      .recvData 0 (dataTo 0) blankFrame, .drainStart, .processq 0 .stopped sent, .drainTidq 0,
      .drainEnd, .recvData 0 (dataTo 0) blankFrame] (by decide +kernel)
  exact ⟨sc, hissued, numbers_not_reissued ⟨_, ⟨_, _, by decide, rfl⟩, steps⟩ (0, 0)⟩

/-- A block-ack acknowledges the second frame of an aggregate and not the first; the drain that
follows goes back to the number of the first, and both are given out again. -/
theorem acknowledged_number_reissued : ¬ ∀ sc, transmit.Reachable sc → ∀ k,
    NotReissued (sc.tx.tid k) := by
  intro h
  obtain ⟨sc, steps, hissued, hhanded⟩ := Machine.exists_of_runWhere transmit.Init step
    (fun _ _ => True)
    (P := fun sc => (sc.tx.tid (0, 0)).issued = [⟨2, 4, false⟩, ⟨1, 3, false⟩, ⟨2, 2, false⟩,
        ⟨1, 1, false⟩, ⟨0, 0, false⟩] ∧ 2 ∈ (sc.tx.tid (0, 0)).handed)
    (s := attach smallConfig steadyAnswers)
    [.icUpdate 65535 false, .nodeCreate (createNode 0), .enableAggr 0 0 true,
      .recvData 0 (dataTo 0) blankFrame, .recvData 0 (dataTo 0) blankFrame,
      .recvData 0 (dataTo 0) blankFrame, .processq 0 .active sent, .drainStart,
      .processq 0 .stopped (some { tsFlags := halTxBa, tsSeqnum := 1, ba := 0b10 }),
      .drainTidq 0, .drainEnd, .recvData 0 (dataTo 0) blankFrame,
      .recvData 0 (dataTo 0) blankFrame] (by decide +kernel)
  have hapart := (h sc ⟨_, ⟨_, _, by decide, rfl⟩, steps⟩ (0, 0)).apart [] ⟨2, 4, false⟩
    [⟨1, 3, false⟩] ⟨2, 2, false⟩ [⟨1, 1, false⟩, ⟨0, 0, false⟩] hissued rfl hhanded (by decide)
  exact absurd hapart (by decide)

end Ath9kHtc.Tx
