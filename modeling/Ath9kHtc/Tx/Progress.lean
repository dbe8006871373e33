import Ath9kHtc.Tx.WindowState

/-!
# The transmit window does not wedge

Where the numbers that were issued continue the window, a TID that may send has something to
send or to wait for.
-/

namespace Ath9kHtc.Tx

open Ledger

variable {t : Tier} {sc sc' : Softc} {s : TxState} {k : TidId} {v : Session} {R F : List Frame}
  {n : ℕ} {f : Frame}

namespace Session

/-- A full window waits for a frame in the air, unless a frame waits to be sent again. -/
theorem Sound.exists_air (h : v.Sound .tight [] F n) (hpend : v.pend = [])
    (hfull : v.size ≠ 0) : ∃ f ∈ v.air, v.offset f.seq = 0 := by
  have hset := (h.tight rfl).2 hfull
  obtain ⟨s, hs, hoff⟩ := h.owned (by decide) 0 (Nat.pos_of_ne_zero hfull) hset
  obtain ⟨f, hf, rfl⟩ := Multiset.mem_map.mp hs
  rw [hpend, Multiset.coe_nil, add_zero, add_zero] at hf
  exact ⟨f, hf, hoff⟩

theorem Sound.progress (h : v.Sound .tight R F n) (haggr : v.aggr = true)
    (hp : v.paused = false) (hpend : v.pend = []) (hf : f ∈ v.queue.head?) :
    v.offset f.seq < v.bawSize ∨ ∃ g ∈ v.air, v.offset g.seq < v.bawSize := by
  have hc := h.not_cleanup hp
  rw [h.queue_eq] at hf
  cases R with
  | cons r R =>
      obtain rfl : r = f := Option.some_inj.mp hf
      left
      have hmem : r.seq ∈ v.numbers (r :: R) :=
        Multiset.mem_map_of_mem _ (Multiset.mem_add.mpr (.inr (by simp)))
      exact ((h.holds hc).within _ hmem).trans_le h.size_le
  | nil =>
      cases F with
      | nil => cases hf
      | cons g F =>
          obtain rfl : g = f := Option.some_inj.mp hf
          have hbaw := h.ready haggr
          have hle := h.size_le
          have hseq : g.seq = v.edge := h.run.1.trans (h.tight rfl).1
          have hoff : v.offset g.seq = v.size := by
            rw [hseq, offset, edge, h.valid.offset_add (by omega)]
          rcases hle.lt_or_eq with hlt | heq
          · exact .inl (hoff.trans_lt hlt)
          · obtain ⟨f, hf, hzero⟩ := h.exists_air hpend (by omega)
            exact .inr ⟨f, hf, by omega⟩

theorem Sound.caught_up (h : v.Sound .tight R F n) (hair : v.air = 0) (hq : v.queue = [])
    (hpend : v.pend = []) : v.win.start = v.seqNext := by
  obtain ⟨rfl, rfl⟩ := List.append_eq_nil_iff.mp (h.queue_eq.symm.trans hq)
  have hsize : v.size = 0 := by
    by_contra hne
    obtain ⟨s, hs, -⟩ := h.owned (by decide) 0 (Nat.pos_of_ne_zero hne) ((h.tight rfl).2 hne)
    simp [numbers, hair, hpend] at hs
  have hn : n = v.seqNext := h.run
  rw [← hn, (h.tight rfl).1, edge, hsize, Nat.add_zero, Nat.mod_eq_of_lt h.valid.start_lt]

end Session

/-- A TID never waits for nothing: it may send its first frame or a frame of its window is at
the hardware; and once all its frames are gone the window has caught up with the numbers. -/
structure Live (s : TxState) (k : TidId) : Prop where
  progress : (s.tid k).aggrEnabled = true → (s.tid k).paused = false →
    ∀ bf ∈ (s.tid k).bufQ.head?,
      bawWithin (s.tid k).seqStart (s.tid k).bawSize (seqnoFromBfSeqno (s.buf bf).bfSeqno) = true ∨
      ∃ q, ∃ e ∈ (s.txq q).axqQ, ∃ b ∈ s.subframes e, keyOf (s.buf b) = some k ∧
        bawWithin (s.tid k).seqStart (s.tid k).bawSize
          (seqnoFromBfSeqno (s.buf b).bfSeqno) = true
  caught_up : Grounded s k → (s.tid k).bufQ = [] → (s.tid k).seqStart = (s.tid k).seqNext

/-- A frame in the air is in a buffer at the hardware. -/
theorem mem_hwAir {g : Frame} (h : g ∈ s.ledger.hwAir k) :
    ∃ q, ∃ e ∈ (s.txq q).axqQ, ∃ b ∈ s.subframes e, keyOf (s.buf b) = some k ∧
      frameOf (s.buf b) = g := by
  obtain ⟨b, hb, hair⟩ := (Multiset.mem_filterMap _ _).mp h
  obtain ⟨q, e, he, hb⟩ := mem_onHw.mp hb
  have hair : airFrame k (s.buf b) = some g := hair
  rw [airFrame] at hair
  split at hair
  · rename_i hboth
    exact ⟨q, e, he, b, hb, hboth.2, Option.some_inj.mp hair⟩
  · cases hair

theorem live_of_sound (h : (s.view k).IsSound .tight) : Live s k := by
  obtain ⟨R, F, n, h⟩ := h
  refine ⟨fun haggr hp bf hbf => ?_, fun hair hq => ?_⟩
  · have hfirst : frameOf (s.buf bf) ∈ (s.view k).queue.head? := by
      show frameOf (s.buf bf) ∈ ((s.tid k).bufQ.map fun b => frameOf (s.buf b)).head?
      rw [List.head?_map, Option.mem_def.mp hbf]
      rfl
    rcases h.progress haggr hp rfl hfirst with hin | ⟨g, hg, hin⟩
    · exact .inl (bawWithin_iff.mpr hin)
    · right
      rw [view_air] at hg
      obtain ⟨q, e, he, b, hb, hkey, rfl⟩ := mem_hwAir hg
      exact ⟨q, e, he, b, hb, hkey, bawWithin_iff.mpr hin⟩
  · refine h.caught_up ?_ ?_ rfl
    · rw [view_air]
      exact hwAir_of_grounded hair
    · show (s.tid k).bufQ.map _ = []
      rw [hq]
      rfl

/-- On every run of the tight tier no TID waits for nothing. -/
theorem window_live (h : transmit.ReachableWhere (Disciplined .tight) sc) (k : TidId) :
    Live sc.tx k :=
  live_of_sound ((reachable_sound h).2 k)

theorem window_live_run : ∃ sc : Softc, (sc.tx.tid (0, 0)).seqNext = 2 ∧
    (sc.tx.tid (0, 0)).bufQ ≠ [] ∧ Live sc.tx (0, 0) := by
  obtain ⟨sc, steps, hnext, hq⟩ := Machine.exists_of_runWhere transmit.Init step
    (Disciplined .tight)
    (P := fun sc => (sc.tx.tid (0, 0)).seqNext = 2 ∧ (sc.tx.tid (0, 0)).bufQ ≠ [])
    (s := attach smallConfig steadyAnswers)
    [.nodeCreate (createNode 0), .enableAggr 0 0 true, .recvData 0 (dataTo 0) blankFrame,
      .recvData 0 (dataTo 0) blankFrame] (by decide +kernel)
  exact ⟨sc, hnext, hq, window_live ⟨_, ⟨_, _, by decide, rfl⟩, steps⟩ (0, 0)⟩

/-- A fragment that is sent without aggregation moves the window past the numbers: the TID then
waits for ever. -/
theorem fragment_wedges : ¬ ∀ sc, transmit.Reachable sc → ∀ k, Live sc.tx k := by
  intro h
  obtain ⟨sc, steps, haggr, hp, hq, hout, hidle⟩ := Machine.exists_of_runWhere transmit.Init step
    (fun _ _ => True)
    (P := fun sc => (sc.tx.tid (0, 0)).aggrEnabled = true ∧ (sc.tx.tid (0, 0)).paused = false ∧
      (sc.tx.tid (0, 0)).bufQ = [2] ∧ bawWithin (sc.tx.tid (0, 0)).seqStart
        (sc.tx.tid (0, 0)).bawSize (seqnoFromBfSeqno (sc.tx.buf 2).bfSeqno) = false ∧
      ∀ q, (sc.tx.txq q).axqQ = [])
    (s := attach smallConfig steadyAnswers)
    [.nodeCreate (createNode 0), .recvData 0 (dataTo 0) fragment, .processq 0 .active sent,
      .enableAggr 0 0 true, .recvData 0 (dataTo 0) blankFrame] (by decide +kernel)
  have hlive := (h sc ⟨_, ⟨_, _, by decide, rfl⟩, steps⟩ (0, 0)).progress haggr hp 2 (by rw [hq]; rfl)
  rcases hlive with hin | ⟨q, e, he, -⟩
  · rw [hout] at hin
    cases hin
  · rw [hidle q] at he
    cases he

end Ath9kHtc.Tx
