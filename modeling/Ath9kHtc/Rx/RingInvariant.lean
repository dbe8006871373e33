import Mathlib.Data.List.Perm.Basic
import Mathlib.Data.List.Chain
import Mathlib.Algebra.Order.Group.Multiset
import Mathlib.Tactic.Abel
import Ath9kHtc.Rx.Receive

/-!
# The invariant of the ring

Every descriptor is armed, held or idle.  A round of the receive path takes the first armed
descriptor off the ring; the held one is armed in its place if there is a buffer for it.
-/

namespace Ath9kHtc.Rx

variable {s s' : RxState} {l R F : List DescId} {h q ds : DescId} {b : BufId} {pool : List BufId}

/-- The descriptors of `l` are armed, and `h` is held. -/
structure Ring (s : RxState) (l : List DescId) (h : DescId) : Prop where
  list : s.scRxdesc = l ++ [h]
  held : s.scRxdescHeld = some h
  perm : (l ++ h :: s.scRxdescIdle).Perm (List.range s.cfg.numrxdescs)
  loaded : ∀ d ∈ l, ∃ b, (s.desc d).dsNbuf = some b ∧ (s.desc d).dsData = some b
  empty : ∀ d ∈ h :: s.scRxdescIdle, (s.desc d).dsNbuf = none
  last : ∀ d ∈ l.getLast?, (s.desc d).dsLink = none
  rxlink : s.scRxlink = none ∨ s.scRxlink = l.getLast?

namespace Ring

theorem nodup (hr : Ring s l h) : (l ++ h :: s.scRxdescIdle).Nodup :=
  hr.perm.nodup_iff.mpr List.nodup_range

theorem held_notMem (hr : Ring s l h) : h ∉ l := fun hmem =>
  List.disjoint_of_nodup_append hr.nodup hmem List.mem_cons_self

theorem idle_notMem (hr : Ring s l h) (hd : ds ∈ s.scRxdescIdle) : ds ∉ l := fun hmem =>
  List.disjoint_of_nodup_append hr.nodup hmem (List.mem_cons_of_mem _ hd)

theorem held_notMem_rxlink (hr : Ring s l h) : h ∉ s.scRxlink := by
  intro hlink
  rcases hr.rxlink with hnone | hlast
  · rw [hnone] at hlink
    cases hlink
  · rw [hlast] at hlink
    exact hr.held_notMem (List.mem_of_mem_getLast? hlink)

/-- Nothing the ring depends on has changed. -/
theorem congr (hr : Ring s l h) (hcfg : s'.cfg = s.cfg) (hlist : s'.scRxdesc = s.scRxdesc)
    (hidle : s'.scRxdescIdle = s.scRxdescIdle) (hheld : s'.scRxdescHeld = s.scRxdescHeld)
    (hlink : s'.scRxlink = s.scRxlink) (hdesc : ∀ d, (s'.desc d).dsNbuf = (s.desc d).dsNbuf ∧
      (s'.desc d).dsData = (s.desc d).dsData ∧ (s'.desc d).dsLink = (s.desc d).dsLink) :
    Ring s' l h where
  list := hlist.trans hr.list
  held := hheld.trans hr.held
  perm := by
    rw [hidle, hcfg]
    exact hr.perm
  loaded := by
    intro d hd
    rw [(hdesc d).1, (hdesc d).2.1]
    exact hr.loaded d hd
  empty := by
    intro d hd
    rw [hidle] at hd
    rw [(hdesc d).1]
    exact hr.empty d hd
  last := by
    intro d hd
    rw [(hdesc d).2.2]
    exact hr.last d hd
  rxlink := by
    rw [hlink]
    exact hr.rxlink

end Ring

/-! ## Arming the held descriptor -/

/-- The held descriptor is armed with a buffer of the pool, and `ds` is held. -/
def rearm (s : RxState) (ds h : DescId) (b : BufId) (pool : List BufId) : RxState :=
  armRxdesc ((({ s with scRxdescHeld := some ds, pool := pool } : RxState).modNbuf b fun n =>
    { n with len := 0 }).modDesc h fun d => { d with dsNbuf := some b, dsData := some b }) h

theorem athRxdescInit_nil (hheld : s.scRxdescHeld = some h) (hnbuf : (s.desc h).dsNbuf = none)
    (hpool : s.pool = []) : athRxdescInit s ds = (false, s) := by
  simp [athRxdescInit, hheld, fillRxdesc, hnbuf, athAllocSkbAlign, hpool]

theorem athRxdescInit_cons (hheld : s.scRxdescHeld = some h) (hnbuf : (s.desc h).dsNbuf = none)
    (hpool : s.pool = b :: pool) : athRxdescInit s ds = (true, rearm s ds h b pool) := by
  simp [athRxdescInit, hheld, fillRxdesc, hnbuf, athAllocSkbAlign, hpool, rearm]

/-- What arming leaves alone, and what it writes to descriptors. -/
structure Rearmed (s s' : RxState) (ds h : DescId) (b : BufId) (pool : List BufId) : Prop where
  cfg : s'.cfg = s.cfg
  list : s'.scRxdesc = s.scRxdesc
  idle : s'.scRxdescIdle = s.scRxdescIdle
  held : s'.scRxdescHeld = some ds
  rxlink : s'.scRxlink = some h
  pool : s'.pool = pool
  scRxbuf : s'.scRxbuf = s.scRxbuf
  inTransfer : s'.inTransfer = s.inTransfer
  received : s'.received = s.received
  handed : s'.handed = s.handed
  rxdp : s.scRxlink ≠ none → s'.rxdp = s.rxdp
  armed : s'.desc h =
    { s.desc h with dsNbuf := some b, dsData := some b, dsLink := none, rxDone := false }
  linked : ∀ last ∈ s.scRxlink, s'.desc last = { s.desc last with dsLink := some h }
  desc : ∀ d, d ≠ h → d ∉ s.scRxlink → s'.desc d = s.desc d

theorem rearm_nbuf (s : RxState) (ds h : DescId) (b : BufId) (pool : List BufId) :
    (rearm s ds h b pool).nbuf = Function.update s.nbuf b { s.nbuf b with len := 0 } := by
  rw [rearm, armRxdesc]
  cases s.scRxlink <;> simp [RxState.modDesc, RxState.modNbuf]

theorem rearm_spec (pool : List BufId) (b : BufId) (ds : DescId) (hne : h ∉ s.scRxlink) :
    Rearmed s (rearm s ds h b pool) ds h b pool := by
  rw [rearm, armRxdesc]
  cases hlink : s.scRxlink with
  | none =>
      constructor
      case desc =>
        intro d hd _
        simp [RxState.modDesc, RxState.modNbuf, Function.update_of_ne hd]
      all_goals simp [RxState.modDesc, RxState.modNbuf, hlink]
  | some last =>
      have hlast : h ≠ last := fun heq => hne (heq ▸ hlink)
      constructor
      case desc =>
        intro d hd hnot
        have hd' : d ≠ last := fun heq => hnot (heq ▸ hlink)
        simp [RxState.modDesc, RxState.modNbuf, Function.update_of_ne hd,
          Function.update_of_ne hd']
      all_goals simp [RxState.modDesc, RxState.modNbuf, hlink, Function.update_of_ne hlast,
        Function.update_of_ne hlast.symm]

/-- All but the descriptor that is armed keep what is theirs. -/
theorem Rearmed.kept (hs : Rearmed s s' ds h b pool) {d : DescId} (hd : d ≠ h) :
    ∃ link, s'.desc d = { s.desc d with dsLink := link } := by
  by_cases hlink : d ∈ s.scRxlink
  · exact ⟨_, hs.linked d hlink⟩
  · exact ⟨_, hs.desc d hd hlink⟩

/-- The receive path without the buffer of a descriptor, and with another pool. -/
def unload (s : RxState) (ds : DescId) (pool : List BufId) : RxState :=
  { s.modDesc ds fun d => { d with dsNbuf := none } with pool := pool }

theorem unload_desc_self : (unload s q pool).desc q = { s.desc q with dsNbuf := none } :=
  Function.update_self ..

theorem unload_desc_of_ne {d : DescId} (hd : d ≠ q) : (unload s q pool).desc d = s.desc d :=
  Function.update_of_ne hd ..

section

variable (hr : Ring s (q :: l) h)

include hr

theorem Ring.first_ne : q ≠ h := fun heq => hr.held_notMem (heq ▸ List.mem_cons_self)

theorem Ring.unload_held : ((unload s q pool).desc h).dsNbuf = none := by
  rw [unload_desc_of_ne hr.first_ne.symm]
  exact hr.empty h List.mem_cons_self

theorem Ring.erase_first : s.scRxdesc.erase q = l ++ [h] := by
  rw [hr.list, List.cons_append, List.erase_cons_head]

/-- Without a buffer in the pool the first descriptor becomes idle. -/
theorem Ring.recycle_idle : recycleRxdesc (unload s q []) q =
    { unload s q [] with scRxdesc := l ++ [h], scRxdescIdle := s.scRxdescIdle ++ [q] } := by
  have hinit : athRxdescInit (unload s q []) q = (false, unload s q []) :=
    athRxdescInit_nil hr.held hr.unload_held rfl
  rw [recycleRxdesc, hinit]
  simp only [Bool.false_eq_true, if_false]
  rw [show (unload s q []).scRxdesc.erase q = l ++ [h] from hr.erase_first]
  rfl

theorem Ring.idle (hl : l ≠ []) : Ring (recycleRxdesc (unload s q []) q) l h := by
  rw [hr.recycle_idle]
  have hnodup := hr.nodup
  have hne : ∀ d ∈ l, d ≠ q := by
    intro d hd heq
    exact (List.nodup_cons.mp hnodup).1 (heq ▸ List.mem_append_left _ hd)
  constructor
  case list => rfl
  case held => exact hr.held
  case perm =>
    refine List.Perm.trans ?_ hr.perm
    show (l ++ h :: (s.scRxdescIdle ++ [q])).Perm (q :: (l ++ h :: s.scRxdescIdle))
    rw [← List.cons_append, ← List.append_assoc]
    exact List.perm_append_singleton ..
  case loaded =>
    intro d hd
    show ∃ b, ((unload s q []).desc d).dsNbuf = some b ∧ ((unload s q []).desc d).dsData = some b
    rw [unload_desc_of_ne (hne d hd)]
    exact hr.loaded d (List.mem_cons_of_mem _ hd)
  case empty =>
    intro d hd
    show ((unload s q []).desc d).dsNbuf = none
    by_cases heq : d = q
    · rw [heq, unload_desc_self]
    · rw [unload_desc_of_ne heq]
      refine hr.empty d ?_
      simpa [heq] using hd
  case last =>
    intro d hd
    show ((unload s q []).desc d).dsLink = none
    rw [unload_desc_of_ne (hne d (List.mem_of_mem_getLast? hd))]
    exact hr.last d (by rwa [List.getLast?_cons_of_ne_nil hl])
  case rxlink =>
    refine hr.rxlink.imp id fun hlink => ?_
    rw [List.getLast?_cons_of_ne_nil hl] at hlink
    exact hlink

/-- With a buffer in the pool the held descriptor is armed, and the first one held. -/
theorem Ring.recycle_armed : recycleRxdesc (unload s q (b :: pool)) q =
    { rearm (unload s q (b :: pool)) q h b pool with scRxdesc := l ++ [h] ++ [q] } := by
  have hinit : athRxdescInit (unload s q (b :: pool)) q =
      (true, rearm (unload s q (b :: pool)) q h b pool) :=
    athRxdescInit_cons hr.held hr.unload_held rfl
  have hspec : Rearmed _ (rearm (unload s q (b :: pool)) q h b pool) q h b pool :=
    rearm_spec pool b q (show h ∉ (unload s q (b :: pool)).scRxlink from hr.held_notMem_rxlink)
  rw [recycleRxdesc, hinit]
  simp only [if_true]
  rw [hspec.list, show (unload s q (b :: pool)).scRxdesc.erase q = l ++ [h] from hr.erase_first]

theorem Ring.rearmed (b : BufId) (pool : List BufId) : Rearmed (unload s q (b :: pool))
    (rearm (unload s q (b :: pool)) q h b pool) q h b pool :=
  rearm_spec pool b q hr.held_notMem_rxlink

theorem Ring.rearmed_desc {d : DescId} (b : BufId) (pool : List BufId) (hd : d ∈ l) :
    ∃ link, (rearm (unload s q (b :: pool)) q h b pool).desc d =
      { s.desc d with dsLink := link } := by
  have hdq : d ≠ q := fun heq =>
    (List.nodup_cons.mp hr.nodup).1 (heq ▸ List.mem_append_left _ hd)
  have hdh : d ≠ h := fun heq => hr.held_notMem (heq ▸ List.mem_cons_of_mem _ hd)
  have hkept := (hr.rearmed b pool).kept hdh
  rwa [unload_desc_of_ne hdq] at hkept

theorem Ring.rearmed_empty {d : DescId} (hd : d ∈ q :: s.scRxdescIdle) :
    ((rearm (unload s q (b :: pool)) q h b pool).desc d).dsNbuf = none := by
  have hnone : ((unload s q (b :: pool)).desc d).dsNbuf = none := by
    by_cases heq : d = q
    · rw [heq, unload_desc_self]
    · rw [unload_desc_of_ne heq]
      exact hr.empty d (List.mem_cons_of_mem _ ((List.mem_cons.mp hd).resolve_left heq))
  have hdh : d ≠ h := by
    rintro rfl
    have hnodup := (List.nodup_append.mp hr.nodup).2.1
    rcases List.mem_cons.mp hd with rfl | hidle
    · exact hr.first_ne rfl
    · exact (List.nodup_cons.mp hnodup).1 hidle
  obtain ⟨link, hlink⟩ := (hr.rearmed b pool).kept hdh
  rw [hlink]
  exact hnone

theorem Ring.armed : Ring (recycleRxdesc (unload s q (b :: pool)) q) (l ++ [h]) q := by
  rw [hr.recycle_armed]
  have hspec := hr.rearmed b pool
  constructor
  case list => rfl
  case held => exact hspec.held
  case perm =>
    show ((l ++ [h]) ++ q :: (rearm (unload s q (b :: pool)) q h b pool).scRxdescIdle).Perm
      (List.range (rearm (unload s q (b :: pool)) q h b pool).cfg.numrxdescs)
    rw [hspec.idle, hspec.cfg]
    refine List.Perm.trans ?_ hr.perm
    show ((l ++ [h]) ++ q :: s.scRxdescIdle).Perm (q :: (l ++ h :: s.scRxdescIdle))
    rw [List.append_cons l h s.scRxdescIdle]
    exact List.perm_middle
  case loaded =>
    intro d hd
    show ∃ b', ((rearm (unload s q (b :: pool)) q h b pool).desc d).dsNbuf = some b' ∧
      ((rearm (unload s q (b :: pool)) q h b pool).desc d).dsData = some b'
    rcases List.mem_append.mp hd with hd | hd
    · obtain ⟨link, hlink⟩ := hr.rearmed_desc b pool hd
      rw [hlink]
      exact hr.loaded d (List.mem_cons_of_mem _ hd)
    · obtain rfl := List.mem_singleton.mp hd
      rw [hspec.armed]
      exact ⟨b, rfl, rfl⟩
  case empty =>
    intro d hd
    refine hr.rearmed_empty ?_
    rw [show RxState.scRxdescIdle _ = s.scRxdescIdle from hspec.idle] at hd
    exact hd
  case last =>
    intro d hd
    obtain rfl : h = d := by simpa using hd
    show ((rearm (unload s q (b :: pool)) q h b pool).desc h).dsLink = none
    rw [hspec.armed]
  case rxlink =>
    right
    rw [List.getLast?_append, List.getLast?_singleton]
    exact hspec.rxlink

end

/-! ## Buffers on the ring -/

/-- The buffers of some descriptors. -/
def onRing (s : RxState) (l : List DescId) : List BufId := l.filterMap fun d => (s.desc d).dsNbuf

theorem onRing_congr (hl : ∀ d ∈ l, (s'.desc d).dsNbuf = (s.desc d).dsNbuf) :
    onRing s' l = onRing s l :=
  List.filterMap_congr hl

theorem Ring.length_onRing (hr : Ring s l h) : (onRing s l).length = l.length := by
  have hsome : ∀ d ∈ l, ((s.desc d).dsNbuf).isSome := by
    intro d hd
    obtain ⟨b, hb, -⟩ := hr.loaded d hd
    rw [hb]
    rfl
  rw [onRing, List.length_filterMap_eq_countP, List.countP_eq_length]
  exact hsome

/-- The ring is turned from `l` to `l'`, and `out` is taken off it. -/
structure Turned (s s' : RxState) (l l' : List DescId) (h' : DescId) (out : List BufId) : Prop where
  ring : Ring s' l' h'
  nonempty : l' ≠ []
  bufs : (s'.pool : Multiset BufId) + onRing s' l' + out = s.pool + onRing s l
  cfg : s'.cfg = s.cfg
  scRxbuf : s'.scRxbuf = s.scRxbuf
  inTransfer : s'.inTransfer = s.inTransfer
  received : s'.received = s.received
  handed : s'.handed = s.handed

theorem Turned.trans {s'' : RxState} {l' l'' : List DescId} {h' h'' : DescId}
    {out out' : List BufId} (t : Turned s s' l l' h' out) (t' : Turned s' s'' l' l'' h'' out') :
    Turned s s'' l l'' h'' (out ++ out') where
  ring := t'.ring
  nonempty := t'.nonempty
  bufs := by
    calc (s''.pool : Multiset BufId) + onRing s'' l'' + (out ++ out' : List BufId)
        = (s''.pool + onRing s'' l'' + out') + out := by
          rw [← Multiset.coe_add]
          abel
      _ = s'.pool + onRing s' l' + out := by rw [t'.bufs]
      _ = s.pool + onRing s l := t.bufs
  cfg := t'.cfg.trans t.cfg
  scRxbuf := t'.scRxbuf.trans t.scRxbuf
  inTransfer := t'.inTransfer.trans t.inTransfer
  received := t'.received.trans t.received
  handed := t'.handed.trans t.handed

/-- The hardware can follow the links along `l`, and `sc_rxlink` is at the end of it. -/
structure Chained (s : RxState) (l : List DescId) : Prop where
  rxlink : l ≠ [] → s.scRxlink = l.getLast?
  links : l.IsChain fun d d' => (s.desc d).dsLink = some d'

/-- What stays of the armed descriptors `R` of `l`, where `F` are armed behind them with buffers of
`P`. -/
structure Kept (s s' : RxState) (P : List BufId) (l R F : List DescId) : Prop where
  desc : ∀ d ∈ R, ∃ link, s'.desc d = { s.desc d with dsLink := link }
  fresh : ∀ d ∈ F, (s'.desc d).rxDone = false ∧
    ∃ b ∈ P, (s'.desc d).dsNbuf = some b ∧ (s'.nbuf b).len = 0
  nbuf : ∀ b, s'.nbuf b = s.nbuf b ∨ b ∈ P ∧ s'.nbuf b = { s.nbuf b with len := 0 }
  rxdp : s.scRxlink ≠ none → s'.scRxlink ≠ none ∧ s'.rxdp = s.rxdp
  chained : Chained s l → Chained s' (R ++ F)

theorem Kept.refl (s : RxState) (P : List BufId) (l : List DescId) : Kept s s P l l [] where
  desc := fun _ _ => ⟨_, rfl⟩
  fresh := by simp
  nbuf := fun _ => .inl rfl
  rxdp := fun hlink => ⟨hlink, rfl⟩
  chained := by
    rw [List.append_nil]
    exact id

theorem Kept.nbuf_len (k : Kept s s' pool l R F) (hb : (s.nbuf b).len = 0) :
    (s'.nbuf b).len = 0 := by
  rcases k.nbuf b with heq | ⟨-, heq⟩
  · rw [heq]
    exact hb
  · rw [heq]

/-- Two changes in a row, the second with buffers the first could have used. -/
theorem Kept.trans {s'' : RxState} {P P' : List BufId} {R R' F F' F'' : List DescId}
    (k : Kept s s' P l R F) (k' : Kept s' s'' P' (R ++ F) (R' ++ F') F'')
    (hR : ∀ d ∈ R', d ∈ R) (hF : ∀ d ∈ F', d ∈ F) (hP : ∀ b ∈ P', b ∈ P) :
    Kept s s'' P l R' (F' ++ F'') where
  desc := by
    intro d hd
    obtain ⟨link, hlink⟩ := k.desc d (hR d hd)
    obtain ⟨link', hlink'⟩ := k'.desc d (List.mem_append_left _ hd)
    exact ⟨link', by rw [hlink', hlink]⟩
  fresh := by
    intro d hd
    rcases List.mem_append.mp hd with hd | hd
    · obtain ⟨hdone, b, hb, hnbuf, hlen⟩ := k.fresh d (hF d hd)
      obtain ⟨link, hlink⟩ := k'.desc d (List.mem_append_right _ hd)
      rw [hlink]
      exact ⟨hdone, b, hb, hnbuf, k'.nbuf_len hlen⟩
    · obtain ⟨hdone, b, hb, hnbuf⟩ := k'.fresh d hd
      exact ⟨hdone, b, hP b hb, hnbuf⟩
  nbuf := by
    intro b
    rcases k.nbuf b with heq | ⟨hb, heq⟩
    · rcases k'.nbuf b with heq' | ⟨hb', heq'⟩
      · exact .inl (heq'.trans heq)
      · exact .inr ⟨hP b hb', by rw [heq', heq]⟩
    · rcases k'.nbuf b with heq' | ⟨-, heq'⟩
      · exact .inr ⟨hb, heq'.trans heq⟩
      · exact .inr ⟨hb, by rw [heq', heq]⟩
  rxdp := by
    intro hlink
    obtain ⟨hlink', hrxdp⟩ := k.rxdp hlink
    obtain ⟨hlink'', hrxdp'⟩ := k'.rxdp hlink'
    exact ⟨hlink'', hrxdp'.trans hrxdp⟩
  chained := by
    intro hchained
    rw [← List.append_assoc]
    exact k'.chained (k.chained hchained)

theorem Kept.mono {P P' : List BufId} (k : Kept s s' P l R F) (hP : ∀ b ∈ P, b ∈ P') :
    Kept s s' P' l R F where
  desc := k.desc
  fresh := by
    intro d hd
    obtain ⟨hdone, b, hb, hnbuf⟩ := k.fresh d hd
    exact ⟨hdone, b, hP b hb, hnbuf⟩
  nbuf := fun b => (k.nbuf b).imp id fun ⟨hb, heq⟩ => ⟨hP b hb, heq⟩
  rxdp := k.rxdp
  chained := k.chained

/-- The lists the descriptors are on do not matter. -/
theorem Kept.relist {P : List BufId} (k : Kept s s' P l R F) (list idle : List DescId) :
    Kept s { s' with scRxdesc := list, scRxdescIdle := idle } P l R F where
  desc := k.desc
  fresh := k.fresh
  nbuf := k.nbuf
  rxdp := k.rxdp
  chained := fun hc => ⟨(k.chained hc).rxlink, (k.chained hc).links⟩

theorem Kept.repool {P bs : List BufId} (k : Kept { s with pool := bs } s' P l R F) :
    Kept s s' P l R F where
  desc := k.desc
  fresh := k.fresh
  nbuf := k.nbuf
  rxdp := k.rxdp
  chained := fun hc => k.chained ⟨hc.rxlink, hc.links⟩

/-- Arming the held descriptor leaves the ring as it is and goes on behind it. -/
theorem Rearmed.kept_ring (hs : Rearmed s s' ds h b pool) (hh : h ∉ l)
    (hlast : ∀ d ∈ l.getLast?, (s.desc d).dsLink = none)
    (hnbuf : s'.nbuf = Function.update s.nbuf b { s.nbuf b with len := 0 }) :
    Kept s s' [b] l l [h] where
  desc := fun d hd => hs.kept fun heq => hh (heq ▸ hd)
  fresh := by
    intro d hd
    obtain rfl := List.mem_singleton.mp hd
    rw [hs.armed, hnbuf]
    refine ⟨rfl, b, List.mem_singleton_self b, rfl, ?_⟩
    rw [Function.update_self]
  nbuf := by
    intro b'
    rw [hnbuf]
    by_cases heq : b' = b
    · right
      rw [heq, Function.update_self]
      exact ⟨List.mem_singleton_self b, rfl⟩
    · left
      exact Function.update_of_ne heq ..
  rxdp := by
    intro hlink
    refine ⟨?_, hs.rxdp hlink⟩
    rw [hs.rxlink]
    exact Option.some_ne_none h
  chained := by
    intro hc
    refine ⟨fun _ => ?_, List.isChain_append.mpr ⟨?_, List.isChain_singleton h, ?_⟩⟩
    · rw [List.getLast?_append, List.getLast?_singleton]
      exact hs.rxlink
    · refine hc.links.imp_of_mem_imp fun d d' hd _ hlink => ?_
      have hnot : d ∉ s.scRxlink := by
        intro hmem
        rw [hc.rxlink (List.ne_nil_of_mem hd)] at hmem
        rw [hlast d hmem] at hlink
        cases hlink
      rw [hs.desc d (fun heq => hh (heq ▸ hd)) hnot]
      exact hlink
    · intro d hd d' hd'
      obtain rfl : h = d' := by simpa using hd'
      have hmem : d ∈ s.scRxlink := by
        rw [hc.rxlink (List.ne_nil_of_mem (List.mem_of_mem_getLast? hd))]
        exact hd
      rw [hs.linked d hmem]

theorem Rearmed.onRing_held (hs : Rearmed s s' ds h b pool) : onRing s' [h] = [b] := by
  rw [onRing, List.filterMap_cons, hs.armed]
  rfl

/-! ## A round -/

theorem onRing_cons (hb : (s.desc q).dsNbuf = some b) : onRing s (q :: l) = b :: onRing s l := by
  rw [onRing, List.filterMap_cons, hb]
  rfl

theorem onRing_append : onRing s (l ++ R) = onRing s l ++ onRing s R :=
  List.filterMap_append

section

variable (hr : Ring s (q :: l) h)

include hr

theorem Ring.ne_first (hd : ds ∈ l) : ds ≠ q := fun heq =>
  (List.nodup_cons.mp hr.nodup).1 (heq ▸ List.mem_append_left _ hd)

theorem Ring.recycle_idle_desc (hd : ds ∈ l) :
    (recycleRxdesc (unload s q []) q).desc ds = s.desc ds := by
  rw [hr.recycle_idle]
  show (unload s q []).desc ds = s.desc ds
  exact unload_desc_of_ne (hr.ne_first hd)

theorem Ring.turned_idle {out : List BufId} (hl : l ≠ []) (hb : (s.desc q).dsNbuf = some b)
    (hpool : (out : Multiset BufId) = {b} + s.pool) :
    Turned s (recycleRxdesc (unload s q []) q) (q :: l) l h out where
  ring := hr.idle hl
  nonempty := hl
  bufs := by
    have hrest : onRing (recycleRxdesc (unload s q []) q) l = onRing s l :=
      onRing_congr fun d hd => by rw [hr.recycle_idle_desc hd]
    have hempty : (recycleRxdesc (unload s q []) q).pool = [] := by
      rw [hr.recycle_idle]
      rfl
    rw [hrest, hempty, onRing_cons hb, hpool, Multiset.coe_nil, ← Multiset.cons_coe,
      ← Multiset.singleton_add]
    abel
  cfg := by
    rw [hr.recycle_idle]
    rfl
  scRxbuf := by
    rw [hr.recycle_idle]
    rfl
  inTransfer := by
    rw [hr.recycle_idle]
    rfl
  received := by
    rw [hr.recycle_idle]
    rfl
  handed := by
    rw [hr.recycle_idle]
    rfl

theorem Ring.kept_idle (hl : l ≠ []) :
    Kept s (recycleRxdesc (unload s q []) q) [] (q :: l) l [] where
  desc := fun d hd => ⟨_, hr.recycle_idle_desc hd⟩
  fresh := by simp
  nbuf := by
    intro b
    left
    rw [hr.recycle_idle]
    rfl
  rxdp := by
    intro hlink
    rw [hr.recycle_idle]
    exact ⟨hlink, rfl⟩
  chained := by
    intro hc
    rw [List.append_nil]
    refine ⟨fun _ => ?_, hc.links.of_cons.imp_of_mem_imp fun d d' hd _ hlink => ?_⟩
    · rw [hr.recycle_idle, ← List.getLast?_cons_of_ne_nil hl]
      exact hc.rxlink (List.cons_ne_nil q l)
    · rw [hr.recycle_idle_desc hd]
      exact hlink

theorem Ring.turned_armed {out : List BufId} {b' : BufId} (hb : (s.desc q).dsNbuf = some b)
    (hpool : ((b' :: pool : List BufId) : Multiset BufId) + out = {b} + s.pool) :
    Turned s (recycleRxdesc (unload s q (b' :: pool)) q) (q :: l) (l ++ [h]) q out := by
  have hring : Ring (recycleRxdesc (unload s q (b' :: pool)) q) (l ++ [h]) q := hr.armed
  have hspec := hr.rearmed b' pool
  rw [hr.recycle_armed] at hring ⊢
  constructor
  case ring => exact hring
  case nonempty => exact List.append_ne_nil_of_right_ne_nil l (List.cons_ne_nil h [])
  case bufs =>
    have hl : onRing (rearm (unload s q (b' :: pool)) q h b' pool) l = onRing s l := by
      refine onRing_congr fun d hd => ?_
      obtain ⟨link, hlink⟩ := hr.rearmed_desc b' pool hd
      rw [hlink]
    show ((rearm (unload s q (b' :: pool)) q h b' pool).pool : Multiset BufId) +
      (onRing (rearm (unload s q (b' :: pool)) q h b' pool) (l ++ [h]) : List BufId) + out = _
    rw [onRing_append, hl, hspec.onRing_held, hspec.pool, onRing_cons hb, ← Multiset.coe_add,
      Multiset.coe_singleton, ← Multiset.cons_coe b, ← Multiset.singleton_add]
    rw [← Multiset.cons_coe, ← Multiset.singleton_add] at hpool
    calc (pool : Multiset BufId) + (onRing s l + {b'}) + out = ({b'} + pool + out) + onRing s l := by
          abel
      _ = {b} + s.pool + onRing s l := by rw [hpool]
      _ = s.pool + ({b} + onRing s l) := by abel
  case cfg => exact hspec.cfg
  case scRxbuf => exact hspec.scRxbuf
  case inTransfer => exact hspec.inTransfer
  case received => exact hspec.received
  case handed => exact hspec.handed

theorem Ring.kept_unload {P : List BufId} (k : Kept (unload s q pool) s' P l l F) :
    Kept s s' P (q :: l) l F where
  desc := by
    intro d hd
    have hkept := k.desc d hd
    rwa [unload_desc_of_ne (hr.ne_first hd)] at hkept
  fresh := k.fresh
  nbuf := k.nbuf
  rxdp := k.rxdp
  chained := by
    intro hc
    refine k.chained ⟨fun hl => ?_, hc.links.of_cons.imp_of_mem_imp fun d d' hd _ hlink => ?_⟩
    · rw [← List.getLast?_cons_of_ne_nil hl]
      exact hc.rxlink (List.cons_ne_nil q l)
    · rw [unload_desc_of_ne (hr.ne_first hd)]
      exact hlink

theorem Ring.kept_armed (b' : BufId) (pool : List BufId) :
    Kept s (recycleRxdesc (unload s q (b' :: pool)) q) [b'] (q :: l) l [h] := by
  have hh : h ∉ l := fun hmem => hr.held_notMem (List.mem_cons_of_mem _ hmem)
  have hlast : ∀ d ∈ l.getLast?, ((unload s q (b' :: pool)).desc d).dsLink = none := by
    intro d hd
    rw [unload_desc_of_ne (hr.ne_first (List.mem_of_mem_getLast? hd))]
    refine hr.last d ?_
    rwa [List.getLast?_cons_of_ne_nil (List.ne_nil_of_mem (List.mem_of_mem_getLast? hd))]
  rw [hr.recycle_armed]
  exact hr.kept_unload (((hr.rearmed b' pool).kept_ring hh hlast (rearm_nbuf ..)).relist (l ++ [h] ++ [q]) _)

/-- A descriptor whose buffer is taken is recycled, where the buffer is in `out` or goes to the
pool. -/
theorem Ring.turn {out : List BufId} (hb : (s.desc q).dsNbuf = some b) (hl : l ≠ [] ∨ pool ≠ [])
    (hpool : (pool : Multiset BufId) + out = {b} + s.pool) :
    ∃ F h', Turned s (recycleRxdesc (unload s q pool) q) (q :: l) (l ++ F) h' out ∧
      Kept s (recycleRxdesc (unload s q pool) q) pool (q :: l) l F ∧
      ∀ b ∈ (recycleRxdesc (unload s q pool) q).pool, b ∈ pool := by
  cases pool with
  | nil =>
      have hne : l ≠ [] := hl.resolve_right (fun hnot => hnot rfl)
      rw [Multiset.coe_nil, zero_add] at hpool
      refine ⟨[], h, ?_, hr.kept_idle hne, ?_⟩
      · rw [List.append_nil]
        exact hr.turned_idle hne hb hpool
      · rw [hr.recycle_idle]
        exact fun b hb => hb
  | cons b' pool =>
      refine ⟨[h], q, hr.turned_armed hb hpool, ?_, ?_⟩
      · exact (hr.kept_armed b' pool).mono fun b hb =>
          List.mem_singleton.mp hb ▸ List.mem_cons_self
      · have hspec := hr.rearmed b' pool
        rw [hr.recycle_armed]
        intro b hb
        rw [show RxState.pool _ = pool from hspec.pool] at hb
        exact List.mem_cons_of_mem _ hb

end

/-! ## The rounds of a frame -/

theorem next_eq {A B : List DescId} (hlist : s.scRxdesc = A ++ ds :: B) (hA : ds ∉ A) :
    s.next ds = B.head? := by
  have hdrop : (A ++ ds :: B).dropWhile (· ≠ ds) = ds :: B := by
    rw [List.dropWhile_append_of_pos]
    · simp
    · intro d hd
      simpa using fun heq : d = ds => hA (heq ▸ hd)
  rw [RxState.next, hlist, hdrop, List.tail_cons]

/-- What `take` does with the buffer of a descriptor: it keeps `kept`, and leaves `pool`. -/
structure Takes (take : DescId → Taking → Option Taking) (out : BufId → List BufId)
    (pool : BufId → List BufId → List BufId) : Prop where
  eq : ∀ (s : RxState) (q : DescId) (b : BufId) (taken : List BufId), (s.desc q).dsNbuf = some b →
    take q (taken, s) = some (taken ++ out b, unload s q (pool b s.pool))
  bufs : ∀ (b : BufId) (bs : List BufId), (pool b bs : Multiset BufId) + out b = {b} + bs

theorem queueNbuf_takes : Takes queueNbuf (fun b => [b]) (fun _ bs => bs) where
  eq := by
    intro s q b taken hb
    rw [queueNbuf, hb]
    rfl
  bufs := by
    intro b bs
    rw [Multiset.coe_singleton, add_comm]

theorem dropNbuf_takes : Takes dropNbuf (fun _ => []) (fun b bs => b :: bs) where
  eq := by
    intro s q b taken hb
    rw [dropNbuf, hb, List.append_nil]
    rfl
  bufs := by
    intro b bs
    rw [Multiset.coe_nil, add_zero, ← Multiset.cons_coe, Multiset.singleton_add]

theorem recycleRun_succ {take : DescId → Taking → Option Taking} {dsTail next : DescId} {n : ℕ}
    {taken taken' : List BufId} (hnext : s.next ds = some next)
    (htake : take ds (taken, s) = some (taken', s')) :
    recycleRun take dsTail (n + 1) ds (taken, s) =
      if ds = dsTail then some (taken', recycleRxdesc s' ds)
      else recycleRun take dsTail n next (taken', recycleRxdesc s' ds) := by
  simp only [recycleRun, hnext, htake, Option.bind_some]

/-- The rounds over a run of the first descriptors. -/
theorem recycleRun_spec {take : DescId → Taking → Option Taking} {o : BufId → List BufId}
    {p : BufId → List BufId → List BufId} {dsTail : DescId} (ht : Takes take o p)
    (Q : List DescId) : ∀ (n : ℕ) (q h : DescId) (s : RxState) (R : List DescId)
      (taken : List BufId), Ring s (q :: (Q ++ R)) h → (R ≠ [] ∨ ∀ b bs, p b bs ≠ []) →
      dsTail ∈ (q :: Q).getLast? → Q.length < n →
      ∃ s' F h',
        recycleRun take dsTail n q (taken, s) =
          some (taken ++ (onRing s (q :: Q)).flatMap o, s') ∧
        Turned s s' (q :: (Q ++ R)) (R ++ F) h' ((onRing s (q :: Q)).flatMap o) ∧
        ((∀ b bs, ∀ x ∈ p b bs, x ∈ bs) →
          Kept s s' s.pool (q :: (Q ++ R)) R F ∧ ∀ b ∈ s'.pool, b ∈ s.pool) := by
  induction Q with
  | nil =>
      intro n q h s R taken hr hR htail hn
      obtain rfl : q = dsTail := by simpa using htail
      obtain ⟨b, hb, -⟩ := hr.loaded q List.mem_cons_self
      obtain ⟨F, h', hturned, hkept, hsub⟩ :=
        hr.turn hb (hR.imp id fun hp => hp b s.pool) (ht.bufs b s.pool)
      have hnext : s.next q = (R ++ [h]).head? := next_eq hr.list (List.not_mem_nil)
      have hout : (onRing s [q]).flatMap o = o b := by
        rw [onRing_cons hb, List.flatMap_cons]
        exact List.append_nil (o b)
      rw [hout]
      refine ⟨_, F, h', ?_, hturned, fun hp => ⟨hkept.mono (hp b s.pool), fun x hx => ?_⟩⟩
      · obtain ⟨n, rfl⟩ := Nat.exists_eq_succ_of_ne_zero (Nat.ne_of_gt hn)
        obtain ⟨next, hsome⟩ : ∃ next, (R ++ [h]).head? = some next := by
          cases R <;> exact ⟨_, rfl⟩
        rw [recycleRun_succ (hnext.trans hsome) (ht.eq s q b taken hb)]
        exact if_pos rfl
      · exact hp b s.pool x (hsub x hx)
  | cons q₂ Q ih =>
      intro n q h s R taken hr hR htail hn
      obtain ⟨b, hb, -⟩ := hr.loaded q List.mem_cons_self
      obtain ⟨F, h', hturned, hkept, hsub⟩ :=
        hr.turn hb (.inl (List.cons_ne_nil q₂ _)) (ht.bufs b s.pool)
      have hnext : s.next q = some q₂ :=
        next_eq (A := []) (B := q₂ :: (Q ++ R ++ [h])) (by rw [hr.list]; simp) List.not_mem_nil
      have hne : q ≠ dsTail := by
        rintro rfl
        rw [List.getLast?_cons_cons] at htail
        refine hr.ne_first (List.mem_append_left R ?_) rfl
        exact List.mem_of_mem_getLast? htail
      obtain ⟨n, rfl⟩ := Nat.exists_eq_succ_of_ne_zero (Nat.ne_of_gt (Nat.zero_lt_of_lt hn))
      have hring : Ring (recycleRxdesc (unload s q (p b s.pool)) q) (q₂ :: (Q ++ (R ++ F))) h' := by
        rw [← List.append_assoc Q]
        exact hturned.ring
      obtain ⟨s', F', h'', hrun, hturned', hkept'⟩ := ih n q₂ h' _ (R ++ F) (taken ++ o b) hring
        (hR.imp (fun hne => by simp [hne]) id) (by rwa [List.getLast?_cons_cons] at htail)
        (Nat.lt_of_succ_lt_succ hn)
      have hsame : onRing (recycleRxdesc (unload s q (p b s.pool)) q) (q₂ :: Q) =
          onRing s (q₂ :: Q) := by
        refine onRing_congr fun d hd => ?_
        obtain ⟨link, hlink⟩ := hkept.desc d (List.mem_append_left R hd)
        rw [hlink]
      have hout : (onRing s (q :: q₂ :: Q)).flatMap o = o b ++ (onRing s (q₂ :: Q)).flatMap o := by
        rw [onRing_cons hb, List.flatMap_cons]
      rw [hsame] at hrun hturned'
      rw [hout]
      refine ⟨s', F ++ F', h'', ?_, ?_, fun hp => ?_⟩
      · rw [recycleRun_succ hnext (ht.eq s q b taken hb), if_neg hne, hrun, List.append_assoc]
      · rw [← List.append_assoc Q] at hturned'
        rw [← List.append_assoc R]
        exact hturned.trans hturned'
      · obtain ⟨hkept', hsub'⟩ := hkept' hp
        rw [← List.append_assoc Q] at hkept'
        refine ⟨?_, fun x hx => hp b s.pool x (hsub x (hsub' x hx))⟩
        refine (hkept.mono (hp b s.pool)).trans hkept' ?_ ?_ ?_
        · exact fun d hd => List.mem_append_right _ hd
        · exact fun d hd => hd
        · exact fun x hx => hp b s.pool x (hsub x hx)

end Ath9kHtc.Rx
