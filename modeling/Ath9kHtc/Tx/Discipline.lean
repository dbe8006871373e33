import Ath9kHtc.Tx.Refinement
import Ath9kHtc.Tx.SessionInvariant

/-!
# Disciplined runs

The steps under which the sessions of all TIDs stay sound, in each tier.
-/

namespace Ath9kHtc.Tx

open Ledger

variable {t : Tier} {sc sc' : Softc} {s : TxState} {k : TidId} {e : Event} {lost : Multiset BufId}
  {v : Session} {a : Action} {l : Multiset BufId}

/-- No aggregation frame of the TID is at the hardware. -/
def Grounded (s : TxState) (k : TidId) : Prop :=
  ∀ q, ∀ e ∈ (s.txq q).axqQ, ∀ b ∈ s.subframes e,
    ¬((s.buf b).bfComp = some .aggr ∧ keyOf (s.buf b) = some k)

instance (s : TxState) (k : TidId) : Decidable (Grounded s k) :=
  inferInstanceAs (Decidable (∀ q, ∀ e ∈ (s.txq q).axqQ, ∀ b ∈ s.subframes e, ¬(_ ∧ _)))

/-- The TID has no bit set. -/
def Tid.Blank (tid : Tid) : Prop := ∀ i < athTidMaxBufs, tid.txBufBitmap i = false

instance (tid : Tid) : Decidable tid.Blank :=
  inferInstanceAs (Decidable (∀ i < athTidMaxBufs, _))

/-- What a tier asks of a step.  With aggregation on no fragment comes but the last; a cleanup
sees neither a frame that was sent without aggregation nor a BAR complete with success; and no
TID is initialised anew while its aggregation frames are at the hardware.  The clear tier asks
that a drain finds no bit set, the tight tier that there are no fragments at all and that
aggregation is switched off only where every waiting frame has been sent before. -/
def Disciplined (t : Tier) (sc : Softc) : Event → Prop
  | .recvData _ dh frame =>
    isMoreFrag frame = true → t ≠ .tight ∧
      ∀ k : TidId, athTgtFindNode sc dh.niIndex = some (some k.1) → dh.tidno = k.2 →
        (sc.tx.tid k).aggrEnabled = false
  | .processq q state answer =>
    ∀ bf ∈ processed q state answer sc.tx, ∀ k ∈ keyOf (sc.tx.buf bf),
      (sc.tx.tid k).cleanupInprogres = true → (sc.tx.buf bf).bfComp ≠ some .normal ∧
        ((sc.tx.buf bf).bfComp = some .bar →
          (completedStat state answer sc.tx bf).tsStatus &&& halTxerrXretry ≠ 0)
  | .drainTidq q =>
    t = .clear → ∀ k ∈ (sc.tx.txq q).axqTidq.head?, (sc.tx.tid k).Blank
  | .enableAggr nodeindex tidno false =>
    t = .tight → ∀ k : TidId, nodeindex = k.1 → tidno = k.2 →
      ∀ b ∈ (sc.tx.tid k).bufQ, (sc.tx.buf b).bfIsretried = true
  | .nodeCreate cmd =>
    ∀ k : TidId, cmd.niNodeindex = k.1 → (sc.tx.tid k).cleanupInprogres = false →
      Grounded sc.tx k
  | _ => True

instance (t : Tier) (sc : Softc) (e : Event) : Decidable (Disciplined t sc e) :=
  match e with
  | .recvData _ dh frame =>
    inferInstanceAs (Decidable (isMoreFrag frame = true → t ≠ .tight ∧
      ∀ k : TidId, athTgtFindNode sc dh.niIndex = some (some k.1) → dh.tidno = k.2 → _))
  | .processq q state answer =>
    inferInstanceAs (Decidable (∀ bf ∈ processed q state answer sc.tx,
      ∀ k ∈ keyOf (sc.tx.buf bf), _ → _ ∧ (_ → _)))
  | .drainTidq q =>
    inferInstanceAs (Decidable (t = .clear → ∀ k ∈ (sc.tx.txq q).axqTidq.head?,
      (sc.tx.tid k).Blank))
  | .enableAggr nodeindex tidno false =>
    inferInstanceAs (Decidable (t = .tight → ∀ k : TidId, nodeindex = k.1 → tidno = k.2 →
      ∀ b ∈ (sc.tx.tid k).bufQ, _))
  | .nodeCreate cmd =>
    inferInstanceAs (Decidable (∀ k : TidId, cmd.niNodeindex = k.1 → _ → Grounded sc.tx k))
  | .enableAggr _ _ true | .recvMgmt .. | .statusClear | .statusSend | .drainStart | .drainEnd |
    .nodeCleanup .. | .nodeUpdate .. | .icUpdate .. => inferInstanceAs (Decidable True)

theorem hwAir_of_grounded (h : Grounded s k) : s.ledger.hwAir k = 0 := by
  apply Multiset.eq_zero_of_forall_notMem
  intro f hf
  obtain ⟨b, hb, hair⟩ := (Multiset.mem_filterMap _ _).mp hf
  obtain ⟨q, e, he, hb⟩ := mem_onHw.mp hb
  have hair : airFrame k (s.buf b) = some f := hair
  rw [airFrame, if_neg (h q e he b hb)] at hair
  cases hair

theorem view_air (s : TxState) (k : TidId) : (s.view k).air = s.ledger.hwAir k := by
  rw [TxState.view, view_idle]
  rfl

/-- A disciplined step is orderly for every session. -/
theorem Allowed.orderly (hd : Disciplined t sc e) (h : Allowed sc e k v a) : v.Orderly t a := by
  rcases h with hsafe | hrisk
  · cases a <;> first | exact trivial | exact False.elim hsafe
  · cases hrisk with
    | @send endpt dh frame k a hfind htid hsends =>
        rcases hsends with ⟨-, rfl⟩ | ⟨haggr, rfl | rfl⟩
        · intro ht
          by_contra hmore
          exact (hd (by simpa using hmore)).1 ht
        all_goals
          show isMoreFrag frame = false
          by_contra hmore
          have := (hd (by simpa using hmore)).2 k hfind htid
          exact absurd (haggr.symm.trans this) (by decide)
    | @complete q state answer bf k a hproc hkey hcomp =>
        have hd := hd bf hproc k hkey
        cases hcomp with
        | other hcomp hc => exact absurd hcomp (hd hc).1
        | resume hcomp hok =>
            show (sc.tx.tid k).cleanupInprogres = false
            by_contra hc
            exact (hd (by simpa using hc)).2 hcomp hok
        | teardown => exact trivial
        | single => exact trivial
    | subframe => exact trivial
    | @drain q k hk =>
        intro ht j hj
        exact hd ht k hk _ (Nat.mod_lt _ (by decide))
    | @disable k haggr =>
        intro ht f hf
        obtain ⟨b, hb, rfl⟩ := List.mem_map.mp hf
        exact hd ht k rfl rfl b hb
    | @init cmd k hni hc =>
        show (sc.tx.view k).air = 0
        rw [view_air]
        exact hwAir_of_grounded (hd k hni hc)

/-! ## Soundness along a run -/

/-- The frames of an element at the hardware are in the air. -/
theorem length_subframes_le {q : QueueId} {bf : BufId} {es : List BufId}
    (hwf : s.ledger.WF ⟨[], [], l⟩) (hq : (s.txq q).axqQ = bf :: es)
    (hcomp : (s.buf bf).bfComp = some .aggr) (hkey : keyOf (s.buf bf) = some k) :
    1 ≤ (s.subframes bf).length ∧ (s.subframes bf).length ≤ (s.view k).air.card := by
  have hel : Element s.ledger.buf s.ledger.txBufs q bf :=
    hwf.onHw q bf (show bf ∈ (s.txq q).axqQ from hq ▸ List.mem_cons_self)
  have hair : ∀ b ∈ s.subframes bf, AirFor k (s.buf b) := by
    rcases hel.kind with ⟨hnone, -⟩ | ⟨k', -, halone⟩ | ⟨k', -, hair, -⟩
    · exact nomatch hnone.symm.trans hcomp
    · rcases halone.comp with h | h <;> exact nomatch h.symm.trans hcomp
    · have hk : k' = k := Option.some_inj.mp ((hair bf hel.mem_subframes).key.symm.trans hkey)
      exact hk ▸ hair
  refine ⟨List.length_pos_of_mem hel.mem_subframes, ?_⟩
  have hpop := ((Track.pop (G := fun _ _ _ => False) hwf hq).runs k).eq_of_never
  have hcard : (s.view k).air.card =
      (s.ledger.frames k (s.subframes bf)).length + ((s.ledger.setHwq q es).hwAir k).card := by
    rw [← TxState.view_eq s k l, ← hpop]
    have hair : ((s.ledger.setHwq q es).view ⟨s.ledger.subframes bf, [], l⟩ k).air =
        ((s.ledger.frames k (s.subframes bf) : List Frame) : Multiset Frame) +
          (s.ledger.setHwq q es).hwAir k := rfl
    rw [hair, Multiset.card_add, Multiset.coe_card]
  have hlen : (s.ledger.frames k (s.subframes bf)).length = (s.subframes bf).length := by
    have hmap : s.ledger.frames k (s.subframes bf) =
        (s.subframes bf).map fun b => frameOf (s.buf b) := by
      rw [← List.filterMap_eq_map]
      exact List.filterMap_congr fun b hb => (hair b hb).airFrame
    rw [hmap, List.length_map]
  omega

theorem settles_of_sound (hfine : Fine sc lost) (hsound : ∀ k, (sc.tx.view k).IsSound t)
    (e : Event) : Settles sc e := by
  cases e with
  | processq q state answer =>
      intro bf hproc hcomp k hkey
      obtain ⟨es, hq⟩ : ∃ es, (sc.tx.txq q).axqQ = bf :: es := by
        have hproc : processed q state answer sc.tx = some bf := hproc
        rw [processed] at hproc
        split at hproc
        · cases hproc
        · exact List.head?_eq_some_iff.mp hproc
      obtain ⟨hpos, hle⟩ := length_subframes_le hfine.wf hq hcomp hkey
      obtain ⟨R, F, n, hs⟩ := hsound k
      rw [Settled]
      split
      · rename_i hc
        obtain ⟨-, -, -, -, -, hincomp, hcard⟩ := hs.busy hc
        have hcard : ((sc.tx.view k).air.card : Int) ≤ (sc.tx.tid k).incomp := hcard
        have hincomp : (sc.tx.tid k).incomp ≤ 64 := hincomp
        exact ⟨by omega, by omega⟩
      · rename_i hc
        have hc : (sc.tx.view k).cleanup = false := Bool.eq_false_iff.mpr hc
        by_contra haggr
        have haggr : (sc.tx.view k).aggr = false := Bool.eq_false_iff.mpr haggr
        have hair := ((hs.off haggr).2.2 hc).1
        rw [hair, Multiset.card_zero] at hle
        omega
  | _ => exact trivial

theorem isSound_init (h : session.Init v) : v.IsSound t := by
  obtain rfl : v = _ := h
  refine ⟨[], [], 0, ?_⟩
  constructor
  case valid => exact ⟨Nat.zero_lt_succ _, Nat.zero_lt_succ _, Nat.zero_lt_succ _⟩
  case size_le => exact Nat.zero_le _
  case ends => exact fun hne => absurd rfl hne
  case holds => exact fun _ => .zero _ _ _
  case off => exact fun _ => ⟨rfl, rfl, fun _ => ⟨rfl, rfl⟩⟩
  case owned => exact fun _ j hj => absurd hj (Nat.not_lt_zero j)
  case clear => exact fun _ j _ hset => nomatch hset
  case tight => exact fun _ => ⟨rfl, fun hne => absurd rfl hne⟩
  all_goals simp [Consecutive]

/-- On a disciplined run every session stays sound. -/
theorem reachable_sound (h : transmit.ReachableWhere (Disciplined t) sc) :
    (∃ lost, Fine sc lost) ∧ ∀ k, (sc.tx.view k).IsSound t := by
  refine h.invariant (P := fun sc => (∃ lost, Fine sc lost) ∧ ∀ k, (sc.tx.view k).IsSound t)
    ?_ ?_
  · rintro sc ⟨cfg, rateAnswers, -, rfl⟩
    exact ⟨⟨0, fine_attach cfg rateAnswers⟩, fun k => isSound_init (view_attach ..)⟩
  · rintro sc e sc' ⟨⟨lost, hfine⟩, hsound⟩ hd hstep
    have hsettles := settles_of_sound hfine hsound e
    refine ⟨⟨_, step_fine hfine hsettles hstep⟩, fun k => ?_⟩
    exact Session.steps_invariant (fun v a hv hok hcan => hv.act hcan (hok.orderly hd)) (hsound k)
      ((step_track hfine hsettles hstep).runs k)

end Ath9kHtc.Tx
