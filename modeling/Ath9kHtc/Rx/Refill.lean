import Ath9kHtc.Rx.RingInvariant

/-!
# Filling the ring

`ath_rx_complete` arms descriptors with the fragments of a frame the host has got;
`ath_startrecv` arms all the descriptors on `sc_rxdesc` but the last.
-/

namespace Ath9kHtc.Rx

variable {s s' : RxState} {l R F : List DescId} {h q ds : DescId} {b : BufId} {pool : List BufId}

/-! ## Frames given back -/

/-- The descriptor `ds` goes back from the idle ones, and the held one is armed with `b`. -/
def refill (s : RxState) (ds : DescId) (b : BufId) : RxState :=
  let out := (athRxdescInit { s with pool := b :: s.pool } ds).2
  { out with scRxdesc := out.scRxdesc ++ [ds], scRxdescIdle := out.scRxdescIdle.erase ds }

/-- The armed descriptors of `l` stay, and `F` are armed behind them with the buffers `frags`. -/
structure Refilled (s s' : RxState) (l F : List DescId) (h' : DescId) (frags : List BufId) :
    Prop where
  ring : Ring s' (l ++ F) h'
  kept : Kept s s' frags l l F
  bufs : onRing s' (l ++ F) = onRing s l ++ frags
  cfg : s'.cfg = s.cfg
  pool : s'.pool = s.pool
  scRxbuf : s'.scRxbuf = s.scRxbuf
  inTransfer : s'.inTransfer = s.inTransfer
  received : s'.received = s.received
  handed : s'.handed = s.handed

section

variable {idle : List DescId} (hr : Ring s l h) (hidle : s.scRxdescIdle = ds :: idle)

include hr

theorem Ring.refill_rearmed (ds : DescId) (b : BufId) :
    Rearmed { s with pool := b :: s.pool } (rearm { s with pool := b :: s.pool } ds h b s.pool)
      ds h b s.pool :=
  rearm_spec s.pool b ds hr.held_notMem_rxlink

include hidle

theorem Ring.refill_eq (b : BufId) : refill s ds b =
    { rearm { s with pool := b :: s.pool } ds h b s.pool with
      scRxdesc := l ++ [h] ++ [ds], scRxdescIdle := idle } := by
  have hinit : athRxdescInit { s with pool := b :: s.pool } ds =
      (true, rearm { s with pool := b :: s.pool } ds h b s.pool) :=
    athRxdescInit_cons hr.held (hr.empty h List.mem_cons_self) rfl
  have hspec := hr.refill_rearmed ds b
  rw [refill, hinit]
  show ({ rearm { s with pool := b :: s.pool } ds h b s.pool with
    scRxdesc := (rearm { s with pool := b :: s.pool } ds h b s.pool).scRxdesc ++ [ds]
    scRxdescIdle := (rearm { s with pool := b :: s.pool } ds h b s.pool).scRxdescIdle.erase ds } :
      RxState) = _
  rw [hspec.list, hspec.idle, hr.list, hidle, List.erase_cons_head]

theorem Ring.refilled (b : BufId) : Refilled s (refill s ds b) l [h] ds [b] := by
  have hspec := hr.refill_rearmed ds b
  have hkept : Kept s (rearm { s with pool := b :: s.pool } ds h b s.pool) [b] l l [h] :=
    (hspec.kept_ring hr.held_notMem hr.last (rearm_nbuf ..)).repool
  have hempty : ∀ d ∈ ds :: idle,
      ((rearm { s with pool := b :: s.pool } ds h b s.pool).desc d).dsNbuf = none := by
    intro d hd
    have hdh : d ≠ h := by
      rintro rfl
      have hnodup := (List.nodup_append.mp hr.nodup).2.1
      rw [hidle] at hnodup
      exact (List.nodup_cons.mp hnodup).1 hd
    obtain ⟨link, hlink⟩ := hspec.kept hdh
    rw [hlink]
    exact hr.empty d (List.mem_cons_of_mem _ (by rwa [hidle]))
  rw [hr.refill_eq hidle]
  constructor
  case ring =>
    constructor
    case list => rfl
    case held => exact hspec.held
    case perm =>
      show ((l ++ [h]) ++ ds :: idle).Perm
        (List.range (rearm { s with pool := b :: s.pool } ds h b s.pool).cfg.numrxdescs)
      rw [hspec.cfg, ← hidle, List.append_assoc]
      exact hr.perm
    case loaded =>
      intro d hd
      show ∃ b', ((rearm { s with pool := b :: s.pool } ds h b s.pool).desc d).dsNbuf = some b' ∧
        ((rearm { s with pool := b :: s.pool } ds h b s.pool).desc d).dsData = some b'
      rcases List.mem_append.mp hd with hd | hd
      · obtain ⟨link, hlink⟩ := hkept.desc d hd
        rw [hlink]
        exact hr.loaded d hd
      · obtain rfl := List.mem_singleton.mp hd
        rw [hspec.armed]
        exact ⟨b, rfl, rfl⟩
    case empty => exact hempty
    case last =>
      intro d hd
      obtain rfl : h = d := by simpa using hd
      show ((rearm { s with pool := b :: s.pool } ds h b s.pool).desc h).dsLink = none
      rw [hspec.armed]
    case rxlink =>
      right
      rw [List.getLast?_append, List.getLast?_singleton]
      exact hspec.rxlink
  case kept => exact hkept.relist _ _
  case bufs =>
    have hl : onRing (rearm { s with pool := b :: s.pool } ds h b s.pool) l = onRing s l := by
      refine onRing_congr fun d hd => ?_
      obtain ⟨link, hlink⟩ := hkept.desc d hd
      rw [hlink]
    show onRing (rearm { s with pool := b :: s.pool } ds h b s.pool) (l ++ [h]) = onRing s l ++ [b]
    rw [onRing_append, hl, hspec.onRing_held]
  case cfg => exact hspec.cfg
  case pool => exact hspec.pool
  case scRxbuf => exact hspec.scRxbuf
  case inTransfer => exact hspec.inTransfer
  case received => exact hspec.received
  case handed => exact hspec.handed

end

theorem Refilled.trans {s'' : RxState} {F' : List DescId} {h' h'' : DescId}
    {frags frags' : List BufId} (r : Refilled s s' l F h' frags)
    (r' : Refilled s' s'' (l ++ F) F' h'' frags') :
    Refilled s s'' l (F ++ F') h'' (frags ++ frags') where
  ring := by
    rw [← List.append_assoc]
    exact r'.ring
  kept := by
    refine (r.kept.mono fun b hb => List.mem_append_left frags' hb).trans r'.kept ?_ ?_ ?_
    · exact fun d hd => hd
    · exact fun d hd => hd
    · exact fun b hb => List.mem_append_right frags hb
  bufs := by
    rw [← List.append_assoc, r'.bufs, r.bufs, List.append_assoc]
  cfg := r'.cfg.trans r.cfg
  pool := r'.pool.trans r.pool
  scRxbuf := r'.scRxbuf.trans r.scRxbuf
  inTransfer := r'.inTransfer.trans r.inTransfer
  received := r'.received.trans r.received
  handed := r'.handed.trans r.handed

theorem Ring.refilled_nil (hr : Ring s l h) : Refilled s s l [] h [] := by
  have heq : l ++ [] = l := List.append_nil l
  constructor
  case ring => rwa [heq]
  case kept => exact .refl s [] l
  case bufs => rw [heq, List.append_nil]
  all_goals rfl

/-- As many fragments go back to the ring as there are idle descriptors. -/
theorem rxCompleteLoop_spec (idle : List DescId) : ∀ (frags : List BufId) (s : RxState)
    (l : List DescId) (h : DescId), Ring s l h → s.scRxdescIdle = idle →
    ∃ F h', Refilled s (rxCompleteLoop idle frags s) l F h' (frags.take idle.length) := by
  induction idle with
  | nil =>
      intro frags s l h hr _
      exact ⟨[], h, hr.refilled_nil⟩
  | cons ds idle ih =>
      intro frags s l h hr hidle
      cases frags with
      | nil => exact ⟨[], h, hr.refilled_nil⟩
      | cons b frags =>
          have hone := hr.refilled hidle b
          have hrest : (refill s ds b).scRxdescIdle = idle := by
            rw [hr.refill_eq hidle]
          obtain ⟨F, h', hmore⟩ := ih frags (refill s ds b) (l ++ [h]) ds hone.ring hrest
          exact ⟨[h] ++ F, h', hone.trans hmore⟩

/-! ## Starting -/

/-- In the middle of `ath_startrecv`: the descriptors `A` are armed, `p` is held and `rest` are to
come. -/
structure Starting (s : RxState) (A : List DescId) (p : DescId) (rest : List DescId) : Prop where
  list : s.scRxdesc = A ++ p :: rest
  held : s.scRxdescHeld = some p
  perm : (A ++ p :: rest ++ s.scRxdescIdle).Perm (List.range s.cfg.numrxdescs)
  loaded : ∀ d ∈ A, ∃ b, (s.desc d).dsNbuf = some b ∧ (s.desc d).dsData = some b
  waiting : ∀ d ∈ p :: rest, (s.desc d).dsNbuf = none ∨
    ∃ b, (s.desc d).dsNbuf = some b ∧ (s.desc d).dsData = some b
  final : ∀ d ∈ (p :: rest).getLast?, (s.desc d).dsNbuf = none
  idle : ∀ d ∈ s.scRxdescIdle, (s.desc d).dsNbuf = none
  enough : (p :: rest).countP (fun d => (s.desc d).dsNbuf.isNone) ≤ s.pool.length + 1
  last : ∀ d ∈ A.getLast?, (s.desc d).dsLink = none
  rxlink : s.scRxlink = A.getLast?

/-- The descriptor that is held is armed with its own buffer. -/
theorem reuse_spec (ds : DescId) (hne : h ∉ s.scRxlink) (hb : (s.desc h).dsNbuf = some b)
    (hd : (s.desc h).dsData = some b) :
    Rearmed s (armRxdesc { s with scRxdescHeld := some ds } h) ds h b s.pool := by
  rw [armRxdesc]
  cases hlink : s.scRxlink with
  | none =>
      constructor
      case desc =>
        intro d hd' _
        simp [RxState.modDesc, Function.update_of_ne hd']
      all_goals simp [RxState.modDesc, hlink, hb, hd]
  | some last =>
      have hlast : h ≠ last := fun heq => hne (heq ▸ hlink)
      constructor
      case desc =>
        intro d hd' hnot
        have hd'' : d ≠ last := fun heq => hnot (heq ▸ hlink)
        simp [RxState.modDesc, Function.update_of_ne hd', Function.update_of_ne hd'']
      all_goals simp [RxState.modDesc, hlink, hb, hd, Function.update_of_ne hlast,
        Function.update_of_ne hlast.symm]

namespace Starting

variable {A rest : List DescId} {p : DescId}

theorem nodup (st : Starting s A p rest) : (A ++ p :: rest ++ s.scRxdescIdle).Nodup :=
  st.perm.nodup_iff.mpr List.nodup_range

theorem notMem (st : Starting s A p rest) : p ∉ A := fun hmem =>
  List.disjoint_of_nodup_append (List.nodup_append.mp st.nodup).1 hmem List.mem_cons_self

/-- The next descriptor is held and the one before it armed. -/
theorem arm (st : Starting s A p (ds :: rest)) : ∃ s' b pool,
    athRxdescInit s ds = (true, s') ∧ Rearmed s s' ds p b pool ∧
      (pool : Multiset BufId) + {b} = s.pool + onRing s [p] ∧
      (ds :: rest).countP (fun d => (s.desc d).dsNbuf.isNone) ≤ pool.length + 1 ∧
      (∀ b ∈ pool, b ∈ s.pool) ∧
      ((s.desc p).dsNbuf = none → s.pool = b :: pool ∧
        s'.nbuf = Function.update s.nbuf b { s.nbuf b with len := 0 }) := by
  have hlink : p ∉ s.scRxlink := by
    rw [st.rxlink]
    exact fun hmem => st.notMem (List.mem_of_mem_getLast? hmem)
  have henough := st.enough
  rw [List.countP_cons] at henough
  rcases st.waiting p List.mem_cons_self with hnone | ⟨b, hb, hd⟩
  · have hfinal : 0 < (ds :: rest).countP fun d => (s.desc d).dsNbuf.isNone := by
      rw [List.countP_pos_iff]
      obtain ⟨d, hd⟩ : ∃ d, d ∈ (ds :: rest).getLast? :=
        ⟨_, List.getLast?_eq_some_getLast (List.cons_ne_nil ds rest)⟩
      refine ⟨d, List.mem_of_mem_getLast? hd, ?_⟩
      rw [st.final d hd]
      rfl
    rw [hnone] at henough
    simp only [Option.isNone_none, if_true] at henough
    obtain ⟨b, pool, hpool⟩ : ∃ b pool, s.pool = b :: pool := by
      cases hp : s.pool with
      | nil =>
          rw [hp, List.length_nil] at henough
          omega
      | cons b pool => exact ⟨b, pool, rfl⟩
    refine ⟨_, b, pool, athRxdescInit_cons st.held hnone hpool, rearm_spec pool b ds hlink,
      ?_, ?_, ?_, fun _ => ⟨hpool, rearm_nbuf ..⟩⟩
    · have honly : onRing s [p] = [] := by
        rw [onRing, List.filterMap_cons, hnone]
        rfl
      rw [honly, hpool, Multiset.coe_nil, add_zero, ← Multiset.cons_coe, add_comm,
        Multiset.singleton_add]
    · rw [hpool, List.length_cons] at henough
      omega
    · rw [hpool]
      exact fun b' hb => List.mem_cons_of_mem b hb
  · refine ⟨_, b, s.pool, ?_, reuse_spec ds hlink hb hd, ?_, ?_, fun b hb => hb, ?_⟩
    · simp [athRxdescInit, st.held, fillRxdesc, hb]
    · rw [onRing_cons hb]
      rfl
    · omega
    · rw [hb]
      exact fun hnot => absurd hnot (Option.some_ne_none b)

theorem next {b : BufId} {pool : List BufId} (st : Starting s A p (ds :: rest))
    (hs : Rearmed s s' ds p b pool)
    (henough : (ds :: rest).countP (fun d => (s.desc d).dsNbuf.isNone) ≤ pool.length + 1) :
    Starting s' (A ++ [p]) ds rest := by
  have hnodup := st.nodup
  have hother : ∀ d ∈ ds :: rest ++ s.scRxdescIdle, (s'.desc d).dsNbuf = (s.desc d).dsNbuf ∧
      (s'.desc d).dsData = (s.desc d).dsData := by
    intro d hd
    have hdp : d ≠ p := by
      rintro rfl
      rw [List.append_assoc] at hnodup
      exact (List.nodup_cons.mp (List.nodup_append.mp hnodup).2.1).1 hd
    obtain ⟨link, hlink⟩ := hs.kept hdp
    rw [hlink]
    exact ⟨rfl, rfl⟩
  have hrest : ∀ d ∈ ds :: rest, (s'.desc d).dsNbuf = (s.desc d).dsNbuf ∧
      (s'.desc d).dsData = (s.desc d).dsData := fun d hd => hother d (List.mem_append_left _ hd)
  constructor
  case list =>
    rw [hs.list, st.list, List.append_assoc]
    rfl
  case held => exact hs.held
  case perm =>
    rw [hs.idle, hs.cfg, List.append_assoc A]
    exact st.perm
  case loaded =>
    intro d hd
    rcases List.mem_append.mp hd with hd | hd
    · obtain ⟨link, hlink⟩ := hs.kept fun heq => st.notMem (heq ▸ hd)
      rw [hlink]
      exact st.loaded d hd
    · obtain rfl := List.mem_singleton.mp hd
      rw [hs.armed]
      exact ⟨b, rfl, rfl⟩
  case waiting =>
    intro d hd
    rw [(hrest d hd).1, (hrest d hd).2]
    exact st.waiting d (List.mem_cons_of_mem _ hd)
  case final =>
    intro d hd
    rw [(hrest d (List.mem_of_mem_getLast? hd)).1]
    exact st.final d (by rwa [List.getLast?_cons_cons])
  case idle =>
    intro d hd
    rw [hs.idle] at hd
    rw [(hother d (List.mem_append_right _ hd)).1]
    exact st.idle d hd
  case enough =>
    rw [hs.pool]
    refine le_of_eq_of_le (List.countP_congr fun d hd => ?_) henough
    rw [(hrest d hd).1]
  case last =>
    intro d hd
    obtain rfl : p = d := by simpa using hd
    rw [hs.armed]
  case rxlink =>
    rw [List.getLast?_append, List.getLast?_singleton]
    exact hs.rxlink

/-- At the end all but the last are armed. -/
theorem ring (st : Starting s A p []) : Ring s A p where
  list := st.list
  held := st.held
  perm := by
    rw [List.append_cons]
    exact st.perm
  loaded := st.loaded
  empty := by
    intro d hd
    rcases List.mem_cons.mp hd with rfl | hd
    · exact st.final d rfl
    · exact st.idle d hd
  last := st.last
  rxlink := .inr st.rxlink

theorem onRing_next {b : BufId} {pool : List BufId} (st : Starting s A p (ds :: rest))
    (hs : Rearmed s s' ds p b pool)
    (hbufs : (pool : Multiset BufId) + {b} = s.pool + onRing s [p]) :
    (s'.pool : Multiset BufId) + onRing s' (A ++ [p] ++ ds :: rest) =
      s.pool + onRing s (A ++ p :: ds :: rest) := by
  have hkeep : ∀ l : List DescId, p ∉ l → onRing s' l = onRing s l := by
    intro l hl
    refine onRing_congr fun d hd => ?_
    obtain ⟨link, hlink⟩ := hs.kept fun heq : d = p => hl (heq ▸ hd)
    rw [hlink]
  have hrest : p ∉ ds :: rest :=
    (List.nodup_cons.mp (List.nodup_append.mp (List.nodup_append.mp st.nodup).1).2.1).1
  rw [onRing_append, onRing_append, hs.onRing_held, hkeep A st.notMem, hkeep _ hrest, hs.pool,
    List.append_cons A p, onRing_append, onRing_append]
  simp only [← Multiset.coe_add, Multiset.coe_singleton]
  calc (pool : Multiset BufId) + (onRing s A + {b} + onRing s (ds :: rest))
      = (pool + {b}) + (onRing s A + onRing s (ds :: rest)) := by abel
    _ = (s.pool + onRing s [p]) + (onRing s A + onRing s (ds :: rest)) := by rw [hbufs]
    _ = s.pool + (onRing s A + onRing s [p] + onRing s (ds :: rest)) := by abel

end Starting

/-- What `ath_startrecv` makes of descriptors of which `A` are armed. -/
structure Started (s s' : RxState) (A : List DescId) (p : DescId) (rest B : List DescId)
    (h' : DescId) : Prop where
  ring : Ring s' (A ++ B) h'
  list : B ++ [h'] = p :: rest
  bufs : (s'.pool : Multiset BufId) + onRing s' (A ++ B) = s.pool + onRing s (A ++ p :: rest)
  kept : (∀ d ∈ p :: rest, (s.desc d).dsNbuf = none) → Kept s s' s.pool A A B
  cfg : s'.cfg = s.cfg
  scRxbuf : s'.scRxbuf = s.scRxbuf
  inTransfer : s'.inTransfer = s.inTransfer
  received : s'.received = s.received
  handed : s'.handed = s.handed

theorem startrecvLoop_spec (rest : List DescId) : ∀ (s : RxState) (A : List DescId) (p : DescId),
    Starting s A p rest →
      ∃ s' B h', startrecvLoop rest s = (true, s') ∧ Started s s' A p rest B h' := by
  induction rest with
  | nil =>
      intro s A p st
      refine ⟨s, [], p, rfl, ?_⟩
      constructor
      case ring =>
        rw [List.append_nil]
        exact st.ring
      case list => rfl
      case bufs =>
        have hempty : onRing s [p] = [] := by
          rw [onRing, List.filterMap_cons, st.final p rfl]
          rfl
        rw [List.append_nil, onRing_append, hempty, List.append_nil]
      case kept => exact fun _ => .refl s s.pool A
      all_goals rfl
  | cons ds rest ih =>
      intro s A p st
      obtain ⟨s₁, b, pool, hinit, hs, hbufs, henough, hpool, hnbuf⟩ := st.arm
      obtain ⟨s', B, h', hrun, hst⟩ := ih s₁ (A ++ [p]) ds (st.next hs henough)
      refine ⟨s', p :: B, h', ?_, ?_⟩
      · rw [startrecvLoop, hinit]
        exact hrun
      · constructor
        case ring =>
          rw [List.append_cons]
          exact hst.ring
        case list => rw [List.cons_append, hst.list]
        case bufs =>
          rw [List.append_cons, hst.bufs, st.onRing_next hs hbufs]
        case kept =>
          intro hall
          obtain ⟨hhead, hnbuf⟩ := hnbuf (hall p List.mem_cons_self)
          have hone : Kept s s₁ s.pool A A [p] := by
            refine (hs.kept_ring st.notMem st.last hnbuf).mono fun x hx => ?_
            rw [hhead, List.mem_singleton.mp hx]
            exact List.mem_cons_self
          have hmore : Kept s₁ s' s₁.pool (A ++ [p]) (A ++ [p]) B := by
            refine hst.kept fun d hd => ?_
            have hdp : d ≠ p := by
              rintro rfl
              have hnodup := (List.nodup_append.mp (List.nodup_append.mp st.nodup).1).2.1
              exact (List.nodup_cons.mp hnodup).1 hd
            obtain ⟨link, hlink⟩ := hs.kept hdp
            rw [hlink]
            exact hall d (List.mem_cons_of_mem _ hd)
          refine hone.trans hmore (fun d hd => hd) (fun d hd => hd) fun x hx => ?_
          rw [hs.pool] at hx
          exact hpool x hx
        case cfg => exact hst.cfg.trans hs.cfg
        case scRxbuf => exact hst.scRxbuf.trans hs.scRxbuf
        case inTransfer => exact hst.inTransfer.trans hs.inTransfer
        case received => exact hst.received.trans hs.received
        case handed => exact hst.handed.trans hs.handed

/-- `ath_startrecv` fills the ring. -/
theorem athStartrecv_spec {p : DescId} {rest : List DescId} (hlist : s.scRxdesc = p :: rest)
    (hrest : rest ≠ [])
    (st : Starting { s with scRxlink := none, scRxdescHeld := some p } [] p rest) :
    ∃ s' B h', athStartrecv s = some { s' with rxdp := B.head? } ∧ B ≠ [] ∧
      Started { s with scRxlink := none, scRxdescHeld := some p } s' [] p rest B h' := by
  obtain ⟨s', B, h', hrun, hst⟩ := startrecvLoop_spec rest _ [] p st
  have hB : B ≠ [] := by
    rintro rfl
    exact hrest (List.cons.inj hst.list).2.symm
  refine ⟨s', B, h', ?_, hB, hst⟩
  have hloop : startrecvLoop s.scRxdesc { s with scRxlink := none, scRxdescHeld := none } =
      (true, s') :=
    (congrArg (fun list => startrecvLoop list _) hlist).trans hrun
  obtain ⟨first, B', rfl⟩ := List.exists_cons_of_ne_nil hB
  rw [athStartrecv, hloop]
  simp only [if_true, hst.ring.list, List.nil_append, List.cons_append, List.head?_cons,
    Option.map_some]

end Ath9kHtc.Rx
