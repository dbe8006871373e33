import Ath9kHtc.Lib.Numbering
import Ath9kHtc.Tx.SessionInvariant
import Ath9kHtc.Tx.Refinement

/-!
# Sequence numbers are not given out again

The counter of a TID goes up by one for each MSDU.  Where a drain or the end of a session sets it
back to the start of the window, a number is given out again; that does no harm as long as the
frames that had it have never been sent.
-/

namespace Ath9kHtc.Tx

open Numbering

/-- A fragment that is the last of its MSDU. -/
def Issue.ends (i : Issue) : Bool := !i.moreFrag

/-- The number after those that stand. -/
def nextNumber (log : List (Issue × Bool)) : ℕ := next 4096 Issue.seq Issue.ends log

/-- The fragments of an MSDU carry one number, and `n` is the next. -/
def Fragments : List Issue → ℕ → Prop
  | [], _ => True
  | i :: issued, n => (i.moreFrag = true → n = i.seq) ∧ Fragments issued i.seq

theorem Fragments.next {issued : List Issue} {n m : ℕ} (h : Fragments issued n)
    (hm : ∀ i ∈ issued.head?, i.moreFrag = true → m = i.seq) : Fragments issued m := by
  cases issued with
  | nil => trivial
  | cons i issued => exact ⟨hm i rfl, h.2⟩

/-- The frame of the host that waits with its number. -/
def waiting (i : Issue) : Frame := ⟨some i.skb, i.seq, false⟩

namespace Session

/-- A frame with this host buffer has been sent since the last initialisation, or has been before
and is still on its way. -/
def Used (v : Session) (R : List Frame) (skb : SkbId) : Prop :=
  skb ∈ v.handed ∨ ∃ f ∈ v.air + ↑v.pend + ↑R, f.skb = some skb

/-- The host buffer is that of a frame of the TID. -/
def Mentions (v : Session) (skb : SkbId) : Prop :=
  (∃ i ∈ v.issued, i.skb = skb) ∨ v.Used v.queue skb

/-- The log of a session: the frames of `new` wait to be sent for the first time, those of `R`
to be sent again; the entries of `old` stand or were given back. -/
structure Tallied (v : Session) (R : List Frame) (new : List Issue) (old : List (Issue × Bool)) :
    Prop where
  issued : v.issued = new ++ old.map Prod.fst
  next : v.seqNext = nextNumber (marked true new old)
  lawful : Lawful 4096 Issue.seq Issue.ends (marked true new old)
  fragments : Fragments v.issued v.seqNext
  queue : v.queue = R ++ (new.map waiting).reverse
  retried : ∀ f ∈ R ++ v.pend, f.retried = true
  unused : ∀ i ∈ new, ¬v.Used R i.skb
  stands : ∀ p ∈ old, v.Used R p.1.skb → p.2 = true
  distinct : (v.issued.map Issue.skb).Nodup
  off : v.aggr = false → v.queue = [] ∧ v.pend = []
  quiet : v.cleanup = true → v.pend = []
  valid : v.win.Valid 4096 128

variable {v v' : Session} {R R' : List Frame} {new : List Issue} {old : List (Issue × Bool)}
  {f : Frame} {skb : SkbId} {more : Bool} {n : ℕ}

theorem Used.mono (h : v.Used R skb) (hhanded : ∀ s ∈ v.handed, s ∈ v'.handed)
    (hair : ∀ f ∈ v.air, f ∈ v'.air) (hpend : v'.pend = v.pend) (hR : ∀ f ∈ R, f ∈ R') :
    v'.Used R' skb := by
  rcases h with h | ⟨f, hf, hskb⟩
  · exact .inl (hhanded skb h)
  · refine .inr ⟨f, ?_, hskb⟩
    rw [hpend]
    simp only [Multiset.mem_add, Multiset.mem_coe] at hf ⊢
    rcases hf with (hf | hf) | hf
    · exact .inl (.inl (hair f hf))
    · exact .inl (.inr hf)
    · exact .inr (hR f hf)

namespace Tallied

/-- A change beside the log and the frames that wait. -/
theorem congr (h : v.Tallied R new old) (hissued : v'.issued = v.issued)
    (hnext : v'.seqNext = v.seqNext) (hqueue : v'.queue = v.queue) (hpend : v'.pend = v.pend)
    (hused : ∀ s, v'.Used R s → v.Used R s) (haggr : v'.aggr = false → v.aggr = false)
    (hcleanup : v'.cleanup = true → v.cleanup = true) (hvalid : v'.win.Valid 4096 128) :
    v'.Tallied R new old where
  issued := hissued.trans h.issued
  next := hnext.trans h.next
  lawful := h.lawful
  fragments := by
    rw [hissued, hnext]
    exact h.fragments
  queue := hqueue.trans h.queue
  retried := by
    rw [hpend]
    exact h.retried
  unused i hi hu := h.unused i hi (hused _ hu)
  stands p hp hu := h.stands p hp (hused _ hu)
  distinct := by
    rw [hissued]
    exact h.distinct
  off ha := by
    rw [hqueue, hpend]
    exact h.off (haggr ha)
  quiet hc := by
    rw [hpend]
    exact h.quiet (hcleanup hc)
  valid := hvalid

theorem of_empty_queue (h : v.Tallied R new old) (hq : v.queue = []) : R = [] ∧ new = [] := by
  have hqueue := h.queue
  rw [hq] at hqueue
  obtain ⟨hR, hnew⟩ := List.append_eq_nil_iff.mp hqueue.symm
  exact ⟨hR, List.map_eq_nil_iff.mp (List.reverse_eq_nil_iff.mp hnew)⟩

/-- The next entry of the log. -/
theorem nextNumber_cons :
    (v.issue skb more).seqNext = nextNumber ((⟨v.seqNext, skb, more⟩, true) :: old) := by
  rw [nextNumber, Numbering.next, if_pos rfl]
  cases more <;> rfl

theorem fragments_issue (h : Fragments v.issued v.seqNext) :
    Fragments (v.issue skb more).issued (v.issue skb more).seqNext := by
  refine ⟨fun hmore => ?_, h⟩
  exact if_pos hmore

theorem distinct_issue (h : (v.issued.map Issue.skb).Nodup) (hnew : ¬v.Mentions skb) :
    ((v.issue skb more).issued.map Issue.skb).Nodup := by
  refine List.nodup_cons.mpr ⟨fun hmem => ?_, h⟩
  obtain ⟨i, hi, hskb⟩ := List.mem_map.mp hmem
  exact hnew (.inl ⟨i, hi, hskb⟩)

/-- A frame gets the next number and is sent at once. -/
theorem send (h : v.Tallied R new old) (hq : v.queue = []) (hnew : ¬v.Mentions skb)
    (hissued : v'.issued = (v.issue skb more).issued)
    (hnext : v'.seqNext = (v.issue skb more).seqNext) (hqueue : v'.queue = [])
    (hpend : v'.pend = v.pend) (hused : ∀ s, v'.Used [] s → v.Used [] s ∨ s = skb)
    (haggr : v'.aggr = v.aggr) (hcleanup : v'.cleanup = v.cleanup)
    (hvalid : v'.win.Valid 4096 128) :
    v'.Tallied [] [] ((⟨v.seqNext, skb, more⟩, true) :: old) := by
  obtain ⟨rfl, rfl⟩ := h.of_empty_queue hq
  constructor
  case issued =>
    rw [hissued]
    exact congrArg (List.cons _) h.issued
  case next => exact hnext.trans nextNumber_cons
  case lawful => exact h.lawful.give (by decide) h.next
  case fragments =>
    rw [hissued, hnext]
    exact fragments_issue h.fragments
  case queue => exact hqueue
  case retried =>
    rw [hpend]
    exact h.retried
  case unused => exact fun i hi => by cases hi
  case stands =>
    intro p hp hu
    rcases List.mem_cons.mp hp with rfl | hp
    · rfl
    · rcases hused _ hu with hu | heq
      · exact h.stands p hp hu
      · refine absurd (.inl ⟨p.1, ?_, heq⟩) hnew
        rw [h.issued]
        exact List.mem_map_of_mem hp
  case distinct =>
    rw [hissued]
    exact distinct_issue h.distinct hnew
  case off =>
    intro ha
    rw [hqueue, hpend]
    exact ⟨rfl, (h.off (haggr.symm.trans ha)).2⟩
  case quiet =>
    intro hc
    rw [hpend]
    exact h.quiet (hcleanup.symm.trans hc)
  case valid => exact hvalid

/-- A frame gets the next number and waits. -/
theorem enqueue (h : v.Tallied R new old) (ha : v.aggr = true) (hnew : ¬v.Mentions skb) :
    (v.act (.enqueue skb more)).Tallied R (⟨v.seqNext, skb, more⟩ :: new) old where
  issued := congrArg (List.cons _) h.issued
  next := nextNumber_cons
  lawful := h.lawful.give (by decide) h.next
  fragments := fragments_issue h.fragments
  queue := by
    show v.queue ++ [v.fresh skb] = _
    rw [h.queue, List.append_assoc, List.map_cons, List.reverse_cons]
    rfl
  retried := h.retried
  unused i hi := by
    rcases List.mem_cons.mp hi with rfl | hi
    · intro hu
      have hu : v.Used R skb := hu
      refine hnew (.inr (hu.mono (fun _ => id) (fun _ => id) rfl fun f hf => ?_))
      rw [h.queue]
      exact List.mem_append_left _ hf
    · exact h.unused i hi
  stands := h.stands
  distinct := distinct_issue h.distinct hnew
  off hoff := absurd (ha.symm.trans hoff) (by decide)
  quiet := h.quiet
  valid := h.valid

theorem used_hand (h : (v.hand f).Used R skb) : v.Used R skb ∨ f.skb = some skb := by
  rcases h with h | hair
  · rcases List.mem_append.mp (show skb ∈ f.skb.toList ++ v.handed from h) with hf | hmem
    · exact .inr (Option.mem_toList.mp hf)
    · exact .inl (.inl hmem)
  · exact .inl (.inr hair)

theorem used_launch (h : (v.launch f).Used R skb) : v.Used R skb ∨ f.skb = some skb := by
  rcases h with h | ⟨g, hg, hskb⟩
  · exact used_hand (.inl h)
  · change g ∈ (f ::ₘ v.air) + ↑v.pend + ↑R at hg
    rw [Multiset.cons_add, Multiset.cons_add] at hg
    rcases Multiset.mem_cons.mp hg with rfl | hmem
    · exact .inr hskb
    · exact .inl (.inr ⟨g, hmem, hskb⟩)

/-- A frame without aggregation is sent. -/
theorem sendNormal (h : v.Tallied R new old) (ha : v.aggr = false) (hnew : ¬v.Mentions skb) :
    (v.act (.sendNormal skb more)).Tallied [] [] ((⟨v.seqNext, skb, more⟩, true) :: old) := by
  have hq := (h.off ha).1
  refine h.send hq hnew rfl rfl hq rfl (fun s hs => ?_) rfl rfl
    ⟨Nat.mod_lt _ (by decide), h.valid.head_lt, h.valid.tail_lt⟩
  have hs : (v.hand (v.fresh skb)).Used [] s := hs
  exact (used_hand hs).imp id fun hskb => (Option.some_inj.mp hskb).symm

theorem valid_enter (h : v.win.Valid 4096 128) (f : Frame) : (v.enter f).win.Valid 4096 128 := by
  show (if f.retried then v.win else v.win.add 4096 128 f.seq).Valid 4096 128
  split
  · exact h
  · exact h.add f.seq

theorem sendDirect (h : v.Tallied R new old) (hcan : v.Can (.sendDirect skb more))
    (hnew : ¬v.Mentions skb) :
    (v.act (.sendDirect skb more)).Tallied [] [] ((⟨v.seqNext, skb, more⟩, true) :: old) := by
  have hq := hcan.2.2.1
  refine h.send hq hnew rfl rfl hq rfl (fun s hs => ?_) rfl rfl
    (valid_enter (v := v.issue skb more) h.valid (v.fresh skb))
  have hs : (v.launch (v.fresh skb)).Used [] s := hs
  exact (used_launch hs).imp id fun hskb => (Option.some_inj.mp hskb).symm

/-- The first frame of the queue is sent. -/
theorem sendQueued (h : v.Tallied R new old) (hcan : v.Can .sendQueued) :
    ∃ R' new' old', (v.act .sendQueued).Tallied R' new' old' := by
  obtain ⟨ha, -, f, queue, hq, -⟩ := hcan
  have hact : v.act .sendQueued = ({ v with queue := queue } : Session).launch f := by
    simp only [act, hq]
  have hvalid := valid_enter (v := { v with queue := queue }) h.valid f
  have hoff : ¬v.aggr = false := fun hf => by
    rw [ha] at hf
    cases hf
  rw [hact]
  have hsplit := h.queue
  rw [hq] at hsplit
  cases R with
  | cons r R =>
      obtain ⟨rfl, hqueue⟩ := List.cons.inj hsplit
      have hused : ∀ s, (({ v with queue := queue } : Session).launch f).Used R s →
          v.Used (f :: R) s := by
        intro s hs
        rcases used_launch hs with hu | hskb
        · exact hu.mono (fun _ => id) (fun _ => id) rfl fun _ => List.mem_cons_of_mem f
        · refine .inr ⟨f, ?_, hskb⟩
          exact Multiset.mem_add.mpr (.inr List.mem_cons_self)
      refine ⟨R, new, old, ⟨h.issued, h.next, h.lawful, h.fragments, hqueue, ?_, ?_, ?_, h.distinct,
        fun hf => absurd hf hoff, h.quiet, hvalid⟩⟩
      · exact fun g hg => h.retried g (List.mem_cons_of_mem _ hg)
      · exact fun i hi hu => h.unused i hi (hused _ hu)
      · exact fun p hp hu => h.stands p hp (hused _ hu)
  | nil =>
      rw [List.nil_append] at hsplit
      obtain ⟨new, i, rfl⟩ : ∃ new' i, new = new' ++ [i] := by
        rcases List.eq_nil_or_concat' new with rfl | h
        · cases hsplit
        · exact h
      rw [List.map_append, List.reverse_append] at hsplit
      obtain ⟨rfl, hqueue⟩ := List.cons.inj hsplit
      have hissued : v.issued = new ++ i :: old.map Prod.fst := by
        rw [h.issued, List.append_assoc]
        rfl
      have hmarked : marked true (new ++ [i]) old = marked true new ((i, true) :: old) := by
        simp [marked]
      have hdistinct := h.distinct
      rw [hissued, List.map_append, List.map_cons] at hdistinct
      obtain ⟨-, hrest, hapart⟩ := List.nodup_append.mp hdistinct
      refine ⟨[], new, (i, true) :: old, ⟨hissued, hmarked ▸ h.next, hmarked ▸ h.lawful, h.fragments,
        hqueue, h.retried, ?_, ?_, h.distinct, fun hf => absurd hf hoff, h.quiet, hvalid⟩⟩
      · intro j hj hu
        rcases used_launch hu with hu | hskb
        · exact h.unused j (List.mem_append_left _ hj) hu
        · exact hapart _ (List.mem_map_of_mem hj) _ List.mem_cons_self (Option.some_inj.mp hskb).symm
      · intro p hp hu
        rcases List.mem_cons.mp hp with rfl | hp
        · rfl
        · rcases used_launch hu with hu | hskb
          · exact h.stands p hp hu
          · refine absurd ?_ (List.nodup_cons.mp hrest).1
            rw [show i.skb = p.1.skb from Option.some_inj.mp hskb]
            exact List.mem_map_of_mem (List.mem_map_of_mem hp)

/-! ## Completions -/

theorem used_land (h : (v.land f).Used R skb) : v.Used R skb :=
  h.imp id fun ⟨g, hg, hskb⟩ => by
    refine ⟨g, ?_, hskb⟩
    simp only [Multiset.mem_add] at hg ⊢
    exact hg.imp (Or.imp Multiset.mem_of_mem_erase id) id

theorem retire (h : v.Tallied R new old) : (v.act (.retire f)).Tallied R new old :=
  h.congr rfl rfl rfl rfl (fun s hs => used_land (show (v.land f).Used R s from hs)) id id
    (h.valid.valid_retire _)

theorem used_retry (hf : f ∈ v.air) (h : (v.act (.retry f)).Used R skb) : v.Used R skb := by
  rcases h with h | ⟨g, hg, hskb⟩
  · exact .inl h
  · right
    change g ∈ v.air.erase f + ↑(v.pend ++ [f.retry]) + ↑R at hg
    simp only [Multiset.mem_add, Multiset.mem_coe, List.mem_append, List.mem_singleton] at hg
    rcases hg with (hg | hg | rfl) | hg
    · exact ⟨g, by simp [Multiset.mem_of_mem_erase hg], hskb⟩
    · exact ⟨g, by simp [hg], hskb⟩
    · exact ⟨f, by simp [hf], hskb⟩
    · exact ⟨g, by simp [hg], hskb⟩

theorem retry (h : v.Tallied R new old) (hcan : v.Can (.retry f)) :
    (v.act (.retry f)).Tallied R new old := by
  obtain ⟨hc, ha, hf⟩ := hcan
  refine ⟨h.issued, h.next, h.lawful, h.fragments, h.queue, ?_, fun i hi hu => h.unused i hi
    (used_retry hf hu), fun p hp hu => h.stands p hp (used_retry hf hu), h.distinct,
    fun hoff => ?_, fun hclean => ?_, h.valid⟩
  · intro g hg
    change g ∈ R ++ (v.pend ++ [f.retry]) at hg
    rw [← List.append_assoc] at hg
    rcases List.mem_append.mp hg with hg | hg
    · exact h.retried g hg
    · rw [List.mem_singleton.mp hg]
      rfl
  · exact absurd (ha.symm.trans hoff) (by decide)
  · exact absurd (hc.symm.trans hclean) (by decide)

theorem used_prepend (h : (v.act .prepend).Used (v.pend ++ R) skb) : v.Used R skb := by
  rcases h with h | ⟨g, hg, hskb⟩
  · exact .inl h
  · refine .inr ⟨g, ?_, hskb⟩
    change g ∈ v.air + ↑([] : List Frame) + ↑(v.pend ++ R) at hg
    simp only [Multiset.mem_add, Multiset.mem_coe, List.mem_append, List.not_mem_nil,
      or_false] at hg ⊢
    exact (or_assoc).mpr hg

theorem prepend (h : v.Tallied R new old) : (v.act .prepend).Tallied (v.pend ++ R) new old := by
  refine ⟨h.issued, h.next, h.lawful, h.fragments, ?_, fun g hg => ?_, fun i hi hu => h.unused i hi
    (used_prepend hu), fun p hp hu => h.stands p hp (used_prepend hu), h.distinct, fun hoff => ?_,
    fun _ => rfl, h.valid⟩
  · show v.pend ++ v.queue = _
    rw [h.queue, List.append_assoc]
  · have hg : g ∈ v.pend ++ R ++ [] := hg
    rw [List.append_nil] at hg
    rcases List.mem_append.mp hg with hg | hg
    · exact h.retried g (List.mem_append_right _ hg)
    · exact h.retried g (List.mem_append_left _ hg)
  · obtain ⟨hqueue, hpend⟩ := h.off hoff
    refine ⟨?_, rfl⟩
    show v.pend ++ v.queue = []
    rw [hqueue, hpend]
    rfl

theorem land (h : v.Tallied R new old) : (v.land f).Tallied R new old :=
  h.congr rfl rfl rfl rfl (fun _ => used_land) id id h.valid

theorem countDown (h : v.Tallied R new old) : v.countDown.Tallied R new old :=
  h.congr rfl rfl rfl rfl (fun _ => id) id id h.valid

theorem endCleanup (h : v.Tallied R new old) : v.endCleanup.Tallied R new old :=
  h.congr rfl rfl rfl rfl (fun _ => id) id (fun hc => by cases hc) h.valid

theorem reset (hpend : v.pend = []) : v.reset.Tallied [] [] [] where
  issued := rfl
  next := rfl
  lawful := lawful_nil
  fragments := trivial
  queue := rfl
  retried := by
    intro f hf
    rw [show v.reset.pend = [] from hpend] at hf
    cases hf
  unused := fun i hi => by cases hi
  stands := fun p hp => by cases hp
  distinct := List.nodup_nil
  off := fun _ => ⟨rfl, hpend⟩
  quiet := fun _ => hpend
  valid := ⟨Nat.zero_lt_succ _, Nat.zero_lt_succ _, Nat.zero_lt_succ _⟩

/-! ## Going back -/

theorem discard_spec {w : SlidingWindow} (hw : w.Valid 4096 128) (fs : List Frame) :
    (discard w fs).Valid 4096 128 ∧
      ((discard w fs).start + (discard w fs).size 128) % 4096 =
        (w.start + w.size 128) % 4096 := by
  induction fs generalizing w with
  | nil => exact ⟨hw, rfl⟩
  | cons f fs ih =>
      rw [discard]
      split
      · obtain ⟨hvalid, hend⟩ := ih (hw.valid_retire f.seq)
        exact ⟨hvalid, hend.trans (hw.end_retire f.seq)⟩
      · exact ih hw

/-- A cleanup leaves the empty window behind the old one. -/
theorem cleanUp_spec (h : v.win.Valid 4096 128) :
    v.cleanUp.win.Valid 4096 128 ∧ v.cleanUp.win.start = v.edge := by
  obtain ⟨hvalid, hend⟩ := discard_spec h v.queue
  obtain ⟨w, hflush, hw, hstart, -⟩ := hvalid.flush (Nat.le_of_lt hvalid.size_lt)
  simp only [cleanUp, hflush]
  exact ⟨hw, hstart.trans hend⟩

theorem used_nil (h : v.Used [] skb) : v.Used R skb :=
  h.mono (fun _ => id) (fun _ => id) rfl fun g hg => by cases hg

/-- The frames that wait are thrown away, the last of them with their numbers. -/
theorem rewind {back mid : List Issue} (h : v.Tallied R (back ++ mid) old)
    (hends : back ≠ [] → ∀ p ∈ (marked true mid old).head?, p.2 = true → Issue.ends p.1 = true)
    (hissued : v'.issued = v.issued) (hnext : v'.seqNext = nextNumber (marked true mid old))
    (hfrag : Fragments v.issued v'.seqNext) (hqueue : v'.queue = [])
    (hused : ∀ s, v'.Used [] s → v.Used R s) (hempty : v'.pend = [])
    (hvalid : v'.win.Valid 4096 128) :
    v'.Tallied [] [] (marked false back (marked true mid old)) := by
  have hmarked : marked true (back ++ mid) old = marked true back (marked true mid old) := by
    simp [marked]
  constructor
  case issued =>
    rw [hissued, h.issued]
    simp [marked, Function.comp_def]
  case next => exact hnext.trans next_marked_false.symm
  case lawful =>
    apply Lawful.takeBack _ hends
    rw [← hmarked]
    exact h.lawful
  case fragments =>
    rw [hissued]
    exact hfrag
  case queue => exact hqueue
  case retried =>
    intro f hf
    rw [hempty] at hf
    cases hf
  case unused => exact fun i hi => by cases hi
  case stands =>
    intro p hp hu
    rcases List.mem_append.mp hp with hp | hp
    · obtain ⟨i, hi, rfl⟩ := List.mem_map.mp hp
      exact absurd (hused _ hu) (h.unused i (List.mem_append_left _ hi))
    · rcases List.mem_append.mp hp with hp | hp
      · obtain ⟨i, -, rfl⟩ := List.mem_map.mp hp
        rfl
      · exact h.stands p hp (hused _ hu)
  case distinct =>
    rw [hissued]
    exact h.distinct
  case off => exact fun _ => ⟨hqueue, hempty⟩
  case quiet => exact fun _ => hempty
  case valid => exact hvalid

theorem disable (h : v.Tallied R new old) (hcan : v.Can .disable) :
    (v.act .disable).Tallied [] [] (marked true new old) := by
  have hsplit : v.Tallied R ([] ++ new) old := h
  exact hsplit.rewind (fun hne => absurd rfl hne) rfl h.next h.fragments rfl
    (fun _ => used_nil) hcan.2 (cleanUp_spec (v := v.stopAggr) h.valid).1

end Tallied

/-- A frame of the TID waits to be sent for the first time. -/
def Waits (v : Session) (skb : SkbId) : Prop :=
  ∃ f ∈ v.queue, f.retried = false ∧ f.skb = some skb

instance (v : Session) (skb : SkbId) : Decidable (v.Waits skb) :=
  inferInstanceAs (Decidable (∃ f ∈ v.queue, _))

/-- The MSDUs from the number `n` on all wait, with all their fragments. -/
def Unsent (v : Session) (n : ℕ) : List Issue → Prop
  | [] => False
  | i :: issued =>
    v.Waits i.skb ∧
      (i.seq = n ∧ (∀ j ∈ issued.head?, j.moreFrag = false) ∨ v.Unsent n issued)

instance decidableUnsent (v : Session) (n : ℕ) : (issued : List Issue) →
    Decidable (v.Unsent n issued)
  | [] => inferInstanceAs (Decidable False)
  | i :: issued =>
    have := decidableUnsent v n issued
    inferInstanceAs (Decidable (v.Waits i.skb ∧
      (i.seq = n ∧ (∀ j ∈ issued.head?, j.moreFrag = false) ∨ v.Unsent n issued)))

/-- To go on with the number `n` gives back only numbers of MSDUs that were never sent, and
parts no MSDU. -/
def GivesBack (v : Session) (n : ℕ) : Prop :=
  n = v.seqNext ∨
    v.Unsent n v.issued ∧ ∀ i ∈ v.issued.head?, i.moreFrag = true → n = i.seq

instance (v : Session) (n : ℕ) : Decidable (v.GivesBack n) :=
  inferInstanceAs (Decidable (_ ∨ _ ∧ _))

theorem Unsent.split {issued : List Issue} (h : v.Unsent n issued) :
    ∃ back i older, issued = back ++ i :: older ∧ (∀ j ∈ back ++ [i], v.Waits j.skb) ∧
      i.seq = n ∧ ∀ j ∈ older.head?, j.moreFrag = false := by
  induction issued with
  | nil => cases h
  | cons i issued ih =>
      obtain ⟨hwaits, ⟨hseq, hends⟩ | h⟩ := h
      · refine ⟨[], i, issued, rfl, ?_, hseq, hends⟩
        intro j hj
        obtain rfl := List.mem_singleton.mp hj
        exact hwaits
      · obtain ⟨back, j, older, rfl, hall, hj⟩ := ih h
        exact ⟨i :: back, j, older, rfl, List.forall_mem_cons.mpr ⟨hwaits, hall⟩, hj⟩

namespace Tallied

theorem waits_new (h : v.Tallied R new old) (hw : v.Waits skb) : ∃ i ∈ new, i.skb = skb := by
  obtain ⟨f, hf, hfresh, hskb⟩ := hw
  rw [h.queue] at hf
  rcases List.mem_append.mp hf with hf | hf
  · rw [h.retried f (List.mem_append_left _ hf)] at hfresh
    cases hfresh
  · obtain ⟨i, hi, rfl⟩ := List.mem_map.mp (List.mem_reverse.mp hf)
    exact ⟨i, hi, Option.some_inj.mp hskb⟩

/-- The numbers that are given back are the last that were given. -/
theorem split (h : v.Tallied R new old) (hback : v.GivesBack n) :
    ∃ back mid, new = back ++ mid ∧ n = nextNumber (marked true mid old) ∧
      (back ≠ [] → ∀ p ∈ (marked true mid old).head?, p.2 = true → Issue.ends p.1 = true) ∧
      Fragments v.issued n := by
  rcases hback with rfl | ⟨hunsent, hhead⟩
  · exact ⟨[], new, rfl, h.next, fun hne => absurd rfl hne, h.fragments⟩
  obtain ⟨back, i, older, hissued, hwaits, hseq, holder⟩ := hunsent.split
  obtain ⟨mid, hnew, hmid⟩ : ∃ mid, new = back ++ [i] ++ mid ∧ older = mid ++ old.map Prod.fst := by
    have hboth : (back ++ [i]) ++ older = new ++ old.map Prod.fst := by
      rw [← h.issued, hissued, List.append_assoc]
      rfl
    rcases List.append_eq_append_iff.mp hboth with ⟨mid, hnew, hmid⟩ | ⟨extra, hback, hold⟩
    · exact ⟨mid, hnew, hmid⟩
    · cases extra with
      | nil => exact ⟨[], by simpa using hback.symm, by simpa using hold.symm⟩
      | cons j extra =>
          exfalso
          obtain ⟨i', hi', hskb⟩ := h.waits_new (hwaits j (by simp [hback]))
          have hdistinct := h.distinct
          rw [h.issued, hold, List.map_append] at hdistinct
          have hapart := (List.nodup_append.mp hdistinct).2.2
          exact hapart _ (List.mem_map_of_mem hi') j.skb (by simp) hskb
  have hmarked : marked true new old = marked true (back ++ [i]) (marked true mid old) := by
    simp [marked, hnew]
  refine ⟨back ++ [i], mid, hnew, ?_, fun _ p hp _ => ?_, h.fragments.next hhead⟩
  · rw [← hseq]
    exact Lawful.last_seq (hmarked ▸ h.lawful)
  · have hfst : (marked true mid old).map Prod.fst = older := by
      rw [hmid]
      simp [marked, Function.comp_def]
    have hmore := holder p.1 (by rw [← hfst, List.head?_map, Option.mem_def.mp hp]; rfl)
    simp [Issue.ends, hmore]

theorem drain (h : v.Tallied R new old) (hcan : v.Can .drain) (hback : v.GivesBack v.win.start) :
    ∃ old', (v.act .drain).Tallied [] [] old' := by
  obtain ⟨back, mid, rfl, hnext, hends, hfrag⟩ := h.split hback
  exact ⟨_, h.rewind hends rfl hnext hfrag rfl (fun _ => used_nil) hcan.2
    ⟨h.valid.start_lt, h.valid.head_lt, h.valid.head_lt⟩⟩

theorem teardown (h : v.Tallied R new old) (hcan : v.Can .teardown) (hback : v.GivesBack v.edge) :
    ∃ old', (v.act .teardown).Tallied [] [] old' := by
  obtain ⟨back, mid, rfl, hnext, hends, hfrag⟩ := h.split hback
  obtain ⟨hvalid, hstart⟩ := cleanUp_spec (v := v.stopAggr) h.valid
  have hseq : (v.act .teardown).seqNext = v.edge := hstart
  exact ⟨_, h.rewind hends rfl (hseq.trans hnext) (hseq ▸ hfrag) rfl (fun _ => used_nil) hcan
    ⟨hvalid.start_lt, hvalid.head_lt, hvalid.head_lt⟩⟩

end Tallied

/-! ## Every action -/

def IsTallied (v : Session) : Prop := ∃ R new old, v.Tallied R new old

theorem IsTallied.completed (h : v.IsTallied) (hc : v.cleanup = true) : v.completed.IsTallied := by
  obtain ⟨R, new, old, h⟩ := h
  exact completed_cases (P := IsTallied) ⟨_, _, _, h.countDown⟩
    ⟨_, _, _, Tallied.reset (h.quiet hc)⟩ ⟨_, _, _, h.countDown.endCleanup⟩

theorem IsTallied.completedSubframe (h : v.IsTallied) : v.completedSubframe.IsTallied := by
  obtain ⟨R, new, old, h⟩ := h
  exact completedSubframe_cases (P := IsTallied) ⟨_, _, _, h.countDown⟩
    ⟨_, _, _, h.countDown.endCleanup⟩

/-- Where an action sets the counter back, it gives back numbers that were never sent. -/
def Rewinds (v : Session) : Action → Prop
  | .drain => v.GivesBack v.win.start
  | .teardown => v.GivesBack v.edge
  | _ => True

theorem IsTallied.act {a : Action} (h : v.IsTallied) (hcan : v.Can a)
    (hnew : ∀ skb, issuedTag a = some skb → ¬v.Mentions skb) (hback : v.Rewinds a) :
    (v.act a).IsTallied := by
  obtain ⟨R, new, old, h⟩ := h
  cases a with
  | sendNormal skb more => exact ⟨_, _, _, h.sendNormal hcan.1 (hnew skb rfl)⟩
  | sendDirect skb more => exact ⟨_, _, _, h.sendDirect hcan (hnew skb rfl)⟩
  | enqueue skb more => exact ⟨_, _, _, h.enqueue hcan.1 (hnew skb rfl)⟩
  | sendQueued => exact h.sendQueued hcan
  | retire f => exact ⟨_, _, _, h.retire⟩
  | retry f => exact ⟨_, _, _, h.retry hcan⟩
  | prepend => exact ⟨_, _, _, h.prepend⟩
  | pause | resume | postpone =>
      exact ⟨_, _, _, h.congr rfl rfl rfl rfl (fun _ => id) id id h.valid⟩
  | completeSingle f => exact IsTallied.completed ⟨_, _, _, h.land⟩ hcan.1
  | completeSubframe f => exact IsTallied.completedSubframe ⟨_, _, _, h.land⟩
  | completeOther => exact IsTallied.completed ⟨_, _, _, h⟩ hcan
  | enable =>
      exact ⟨_, _, _, h.congr rfl rfl rfl rfl (fun _ => id) (fun ha => by cases ha) id h.valid⟩
  | disable => exact ⟨_, _, _, h.disable hcan⟩
  | teardown => exact ⟨_, _, h.teardown hcan hback⟩
  | drain => exact ⟨_, _, h.drain hcan hback⟩
  | init => exact ⟨_, _, _, Tallied.reset hcan.2⟩

/-! ## Host buffers of the past -/

/-- Every frame of the TID came in one of the first `n` host buffers. -/
structure Below (v : Session) (n : ℕ) : Prop where
  issued : ∀ i ∈ v.issued, i.skb < n
  used : ∀ skb, v.Used v.queue skb → skb < n

theorem Below.not_mentions (h : v.Below n) : ¬v.Mentions n := by
  rintro (⟨i, hi, rfl⟩ | hu)
  · exact absurd (h.issued i hi) (Nat.lt_irrefl _)
  · exact absurd (h.used n hu) (Nat.lt_irrefl _)

theorem used_reset (h : v.reset.Used [] skb) : v.Used R skb := by
  rcases h with h | hair
  · cases h
  · exact Tallied.used_nil (.inr hair)

theorem used_completed (h : v.completed.Used v.completed.queue skb) : v.Used v.queue skb := by
  revert h
  exact completed_cases (P := fun w => w.Used w.queue skb → v.Used v.queue skb) id
    (fun h => used_reset (show v.reset.Used [] skb from h)) id

theorem used_completedSubframe (h : v.completedSubframe.Used v.completedSubframe.queue skb) :
    v.Used v.queue skb := by
  revert h
  exact completedSubframe_cases (P := fun w => w.Used w.queue skb → v.Used v.queue skb) id id

/-- A frame that is used after an action was used or waited before, or came with it. -/
theorem used_act {a : Action} (hcan : v.Can a) (h : (v.act a).Used (v.act a).queue skb) :
    v.Used v.queue skb ∨ issuedTag a = some skb := by
  cases a with
  | sendNormal tag more => exact Tallied.used_hand (show (v.hand (v.fresh tag)).Used _ skb from h)
  | sendDirect tag more =>
      exact Tallied.used_launch (show (v.launch (v.fresh tag)).Used _ skb from h)
  | enqueue tag more =>
      rcases h with h | ⟨g, hg, hskb⟩
      · exact .inl (.inl h)
      · change g ∈ v.air + ↑v.pend + ↑(v.queue ++ [v.fresh tag]) at hg
        rw [← Multiset.coe_add, ← add_assoc] at hg
        rcases Multiset.mem_add.mp hg with hg | hg
        · exact .inl (.inr ⟨g, hg, hskb⟩)
        · obtain rfl := List.mem_singleton.mp (Multiset.mem_coe.mp hg)
          exact .inr hskb
  | sendQueued =>
      left
      obtain ⟨-, -, f, queue, hq, -⟩ := hcan
      simp only [act, hq] at h
      rw [hq]
      rcases Tallied.used_launch h with hu | hskb
      · have hu : v.Used queue skb := hu
        exact hu.mono (fun _ => id) (fun _ => id) rfl fun g => List.mem_cons_of_mem f
      · exact .inr ⟨f, Multiset.mem_add.mpr (.inr List.mem_cons_self), hskb⟩
  | retire f => exact .inl (Tallied.used_land (show (v.land f).Used v.queue skb from h))
  | retry f => exact .inl (Tallied.used_retry hcan.2.2 h)
  | prepend => exact .inl (Tallied.used_prepend h)
  | completeSingle f => exact .inl (Tallied.used_land (used_completed h))
  | completeSubframe f => exact .inl (Tallied.used_land (used_completedSubframe h))
  | completeOther => exact .inl (used_completed h)
  | disable | teardown | drain => exact .inl (Tallied.used_nil (show v.Used [] skb from h))
  | init => exact .inl (used_reset h)
  | _ => exact .inl h

theorem Below.act {a : Action} {m : ℕ} (h : v.Below n) (hcan : v.Can a) (hle : n ≤ m)
    (htag : ∀ skb, issuedTag a = some skb → skb < m) : (v.act a).Below m where
  issued i hi := by
    rcases mem_act_issued hi with hi | hi
    · exact Nat.lt_of_lt_of_le (h.issued i hi) hle
    · exact htag _ hi
  used skb hu := by
    rcases used_act hcan hu with hu | hskb
    · exact Nat.lt_of_lt_of_le (h.used skb hu) hle
    · exact htag _ hskb

end Session

end Ath9kHtc.Tx
