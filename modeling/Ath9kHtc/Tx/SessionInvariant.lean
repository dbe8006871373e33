import Ath9kHtc.Tx.Session

/-!
# The invariant of a session

How the frames of a session lie in its window.  The invariant comes in three tiers: the plain
one, one in which no mark is ever left outside the window, and one in which the numbers that
were issued always continue the window.
-/

namespace Ath9kHtc.Tx

/-- The frames carry the numbers from `n` on, and `m` is the number after the last. -/
def Consecutive : ℕ → List Frame → ℕ → Prop
  | n, [], m => n = m
  | n, f :: fs, m => f.seq = n ∧ Consecutive ((n + 1) % 4096) fs m

theorem Consecutive.snoc {n m : ℕ} {fs : List Frame} {f : Frame} (h : Consecutive n fs m)
    (hf : f.seq = m) : Consecutive n (fs ++ [f]) ((m + 1) % 4096) := by
  induction fs generalizing n with
  | nil =>
      cases h
      exact ⟨hf, rfl⟩
  | cons g gs ih => exact ⟨h.1, ih h.2⟩

theorem Consecutive.lt {n m : ℕ} {fs : List Frame} (h : Consecutive n fs m) (hn : n < 4096) :
    m < 4096 := by
  induction fs generalizing n with
  | nil =>
      cases h
      exact hn
  | cons g gs ih => exact ih h.2 (Nat.mod_lt _ (by decide))

/-- What is required of the runs an invariant is about. -/
inductive Tier
  | plain | clear | tight
  deriving DecidableEq

namespace Session

/-- The numbers of the window's frames, `R` being those that wait to be sent again. -/
def numbers (v : Session) (R : List Frame) : Multiset ℕ :=
  (v.air + ↑v.pend + ↑R).map Frame.seq

/-- The number behind the window. -/
def edge (v : Session) : ℕ := (v.win.start + v.size) % 4096

/-- The invariant: `R` waits to be sent again, `F` to be sent for the first time, from the
number `n` on. -/
structure Sound (t : Tier) (v : Session) (R F : List Frame) (n : ℕ) : Prop where
  valid : v.win.Valid 4096 128
  size_le : v.size ≤ v.bawSize
  baw_le : v.bawSize ≤ 64
  ready : v.aggr = true → v.bawSize = 64
  queue_eq : v.queue = R ++ F
  retried : ∀ f ∈ R ++ v.pend, f.retried = true
  fresh : ∀ f ∈ F, f.retried = false
  run : Consecutive n F v.seqNext
  n_lt : n < 4096
  ends : v.size ≠ 0 → n = v.edge
  holds : v.cleanup = false → v.win.Holds 4096 128 (v.numbers R)
  busy : v.cleanup = true →
    v.paused = true ∧ v.size = 0 ∧ R = [] ∧ v.pend = [] ∧ 0 < v.incomp ∧ v.incomp ≤ 64 ∧
      (v.air.card : Int) ≤ v.incomp
  idle : v.cleanup = false → v.incomp = 0
  off : v.aggr = false →
    v.queue = [] ∧ v.pend = [] ∧ (v.cleanup = false → v.air = 0 ∧ v.size = 0)
  owned : t ≠ .plain → v.win.Owned 4096 128 (v.numbers R)
  exact_count : t ≠ .plain → v.cleanup = true → v.incomp = v.air.card
  clear : t = .clear → v.win.Clear 128
  tight : t = .tight → n = v.edge ∧ v.win.HeadMarked 128

/-- The steps that keep the invariant of a tier. -/
def Orderly (t : Tier) (v : Session) : Action → Prop
  | .sendNormal _ more => t = .tight → more = false
  | .sendDirect _ more => more = false
  | .enqueue _ more => more = false
  | .resume => v.cleanup = false
  | .completeOther => False
  | .disable => t = .tight → ∀ f ∈ v.queue, f.retried = true
  | .drain => t = .clear → ∀ j < 128, v.win.slot 128 j = false
  | .init => v.air = 0
  | _ => True

variable {t : Tier} {v : Session} {R F : List Frame} {n : ℕ} {f : Frame}

theorem numbers_cons_air (v : Session) (R : List Frame) (f : Frame) :
    ({ v with air := f ::ₘ v.air } : Session).numbers R = f.seq ::ₘ v.numbers R := by
  simp only [numbers, Multiset.cons_add, Multiset.map_cons]

theorem numbers_land (hf : f ∈ v.air) (R : List Frame) :
    v.numbers R = f.seq ::ₘ (v.land f).numbers R := by
  conv_lhs => rw [numbers, ← Multiset.cons_erase hf]
  simp only [numbers, land, Multiset.cons_add, Multiset.map_cons]

/-- The next number enters the window at its end, or behind it where the window is empty. -/
theorem Sound.size_le_offset (h : v.Sound t R F n) : v.size ≤ v.offset n := by
  rcases Nat.eq_zero_or_pos v.size with h0 | hpos
  · omega
  · have hlt : v.size < 4096 := by
      have := h.size_le
      have := h.baw_le
      omega
    rw [h.ends (by omega), offset, edge, h.valid.offset_add hlt]

/-- What entering the window does to it. -/
theorem Sound.add_next (h : v.Sound t R F n) (hin : v.offset n < v.bawSize)
    (hc : v.cleanup = false) :
    (v.win.add 4096 128 n).Valid 4096 128 ∧
    (v.win.add 4096 128 n).size 128 = v.offset n + 1 ∧
    (v.win.add 4096 128 n).Holds 4096 128 (n ::ₘ v.numbers R) ∧
    (n + 1) % 4096 = (v.win.start + (v.offset n + 1)) % 4096 ∧
    (t ≠ .plain → (v.win.add 4096 128 n).Owned 4096 128 (n ::ₘ v.numbers R)) ∧
    (t = .clear → (v.win.add 4096 128 n).Clear 128) ∧
    (t = .tight → (v.win.add 4096 128 n).HeadMarked 128) := by
  have hbaw := h.baw_le
  have hle : v.size ≤ v.offset n := h.size_le_offset
  have hlt : v.win.offset 4096 n + 1 < 128 := by
    show v.offset n + 1 < 128
    omega
  have hgap : t = .tight → v.offset n = v.size := by
    intro ht
    have hsize : v.size < 4096 := by
      have := h.size_le
      omega
    rw [(h.tight ht).1, offset, edge, h.valid.offset_add hsize]
  refine ⟨h.valid.add n, ?_, (h.holds hc).add h.valid h.n_lt hlt hle, ?_, fun ht => ?_,
    fun ht => (h.clear ht).add h.valid hlt,
    fun ht => (h.tight ht).2.add h.valid hlt (hgap ht)⟩
  · rw [h.valid.size_add hlt]
    show max v.size (v.offset n + 1) = v.offset n + 1
    omega
  · have := h.valid.start_add_offset h.n_lt
    rw [← Nat.add_assoc, ← Nat.mod_add_mod (v.win.start + v.offset n)]
    rw [show (v.win.start + v.offset n) % 4096 = n from this]
  · apply (h.owned ht).add h.valid hlt hle
    cases t with
    | plain => exact absurd rfl ht
    | clear => exact .inl (h.clear rfl)
    | tight => exact .inr (hgap rfl)

/-! ## Sending -/

theorem Sound.not_cleanup (h : v.Sound t R F n) (hp : v.paused = false) :
    v.cleanup = false := by
  by_contra hc
  have := (h.busy (by simpa using hc)).1
  rw [hp] at this
  cases this

theorem Sound.empty_queue (h : v.Sound t R F n) (hq : v.queue = []) :
    R = [] ∧ F = [] ∧ n = v.seqNext := by
  have hRF : R = [] ∧ F = [] := by
    rw [← List.append_eq_nil_iff, ← h.queue_eq, hq]
  refine ⟨hRF.1, hRF.2, ?_⟩
  have := h.run
  rw [hRF.2] at this
  exact this

theorem Sound.sendNormal (h : v.Sound t R F n) {skb : SkbId} {more : Bool}
    (ha : v.aggr = false) (hok : v.Orderly t (.sendNormal skb more)) :
    (v.act (.sendNormal skb more)).Sound t [] []
      (if more then v.seqNext else (v.seqNext + 1) % 4096) := by
  obtain ⟨hq, hp, hoff⟩ := h.off ha
  obtain ⟨rfl, rfl, rfl⟩ := h.empty_queue hq
  have hsize : v.size = 0 := by
    cases hc : v.cleanup with
    | false => exact (hoff hc).2
    | true => exact (h.busy hc).2.1
  have hstart : v.win.start < 4096 := h.valid.start_lt
  have hn := h.n_lt
  constructor
  case valid => exact ⟨Nat.mod_lt _ (by decide), h.valid.head_lt, h.valid.tail_lt⟩
  case size_le => exact h.size_le
  case baw_le => exact h.baw_le
  case ready => exact h.ready
  case queue_eq => exact hq
  case retried => exact h.retried
  case fresh => simp
  case run => rfl
  case n_lt =>
    split
    · exact hn
    · exact Nat.mod_lt _ (by decide)
  case ends => exact fun hne => absurd hsize hne
  case holds =>
    intro hc
    have h0 : v.numbers [] = 0 := by simp [numbers, (hoff hc).1, hp]
    show SlidingWindow.Holds 4096 128 _ (v.numbers [])
    rw [h0]
    exact .zero _ _ _
  case busy => exact h.busy
  case idle => exact h.idle
  case off => exact h.off
  case owned =>
    intro _ j hj
    change j < v.size at hj
    omega
  case exact_count => exact h.exact_count
  case clear => exact h.clear
  case tight =>
    intro ht
    have hedge := (h.tight ht).1
    simp only [edge, hsize, Nat.add_zero, Nat.mod_eq_of_lt hstart] at hedge
    refine ⟨?_, fun hne => absurd hsize hne⟩
    simp only [hok ht, Bool.false_eq_true, if_false]
    show (v.seqNext + 1) % 4096 = ((v.win.start + 1) % 4096 + v.size) % 4096
    rw [hedge, hsize]
    omega

theorem Sound.sendDirect (h : v.Sound t R F n) {skb : SkbId} {more : Bool}
    (hcan : v.Can (.sendDirect skb more)) (hok : v.Orderly t (.sendDirect skb more)) :
    (v.act (.sendDirect skb more)).Sound t [] [] ((v.seqNext + 1) % 4096) := by
  obtain ⟨ha, hp, hq, hin, -⟩ := hcan
  obtain rfl : more = false := hok
  obtain ⟨rfl, rfl, rfl⟩ := h.empty_queue hq
  have hc : v.cleanup = false := h.not_cleanup hp
  obtain ⟨hvalid, hsize, hholds, hedge, howned, hclear, hhead⟩ := h.add_next hin hc
  have hnum : (v.act (.sendDirect skb false)).numbers [] = v.seqNext ::ₘ v.numbers [] :=
    numbers_cons_air v [] (v.fresh skb)
  constructor
  case valid => exact hvalid
  case size_le => exact hsize.trans_le hin
  case baw_le => exact h.baw_le
  case ready => exact h.ready
  case queue_eq => exact hq
  case retried => exact h.retried
  case fresh => simp
  case run => rfl
  case n_lt => exact Nat.mod_lt _ (by decide)
  case ends =>
    intro _
    show _ = (v.win.start + (v.win.add 4096 128 v.seqNext).size 128) % 4096
    rw [hsize, hedge]
  case holds =>
    intro _
    rw [hnum]
    exact hholds
  case busy => exact fun hc' => absurd (hc.symm.trans hc') (by decide)
  case idle => exact h.idle
  case off => exact fun ha' => absurd (ha.symm.trans ha') (by decide)
  case owned =>
    intro ht
    rw [hnum]
    exact howned ht
  case exact_count => exact fun _ hc' => absurd (hc.symm.trans hc') (by decide)
  case clear => exact hclear
  case tight =>
    intro ht
    refine ⟨?_, hhead ht⟩
    show _ = (v.win.start + (v.win.add 4096 128 v.seqNext).size 128) % 4096
    rw [hsize, hedge]

theorem Sound.enqueue (h : v.Sound t R F n) {skb : SkbId} {more : Bool}
    (ha : v.aggr = true) (hok : v.Orderly t (.enqueue skb more)) :
    (v.act (.enqueue skb more)).Sound t R (F ++ [v.fresh skb]) n := by
  obtain rfl : more = false := hok
  exact
    { h with
      queue_eq := by
        show v.queue ++ [v.fresh skb] = R ++ (F ++ [v.fresh skb])
        rw [h.queue_eq, List.append_assoc]
      fresh := by
        intro f hf
        rcases List.mem_append.mp hf with hf | hf
        · exact h.fresh f hf
        · rw [List.mem_singleton.mp hf]
          rfl
      run := h.run.snoc rfl
      off := fun ha' => absurd (ha.symm.trans ha') (by decide) }

/-- A frame that was sent before leaves the window as it is. -/
theorem Sound.resend {r : Frame} (h : v.Sound t (r :: R) F n) (ha : v.aggr = true)
    (hp : v.paused = false) : (v.act .sendQueued).Sound t R F n := by
  have hc : v.cleanup = false := h.not_cleanup hp
  have hr : r.retried = true := h.retried r (by simp)
  have hq : v.queue = r :: (R ++ F) := h.queue_eq
  have hact : v.act .sendQueued = { v with
      queue := R ++ F, air := r ::ₘ v.air, handed := r.skb.toList ++ v.handed } := by
    simp only [act, hq, launch, enter, hand, hr, if_true]
  have hnum : ({ v with
      queue := R ++ F, air := r ::ₘ v.air, handed := r.skb.toList ++ v.handed } :
      Session).numbers R = v.numbers (r :: R) := by
    simp only [numbers, Multiset.cons_add, ← Multiset.cons_coe, Multiset.add_cons]
  rw [hact]
  exact
    { h with
      queue_eq := rfl
      retried := fun f hf => h.retried f (List.mem_cons_of_mem _ hf)
      holds := fun _ => hnum ▸ h.holds hc
      busy := fun hc' => absurd (hc.symm.trans hc') (by decide)
      off := fun ha' => absurd (ha.symm.trans ha') (by decide)
      owned := fun ht => hnum ▸ h.owned ht
      exact_count := fun _ hc' => absurd (hc.symm.trans hc') (by decide) }

theorem Sound.sendFirst (h : v.Sound t [] (f :: F) n) (ha : v.aggr = true)
    (hp : v.paused = false) (hin : v.offset f.seq < v.bawSize) :
    (v.act .sendQueued).Sound t [] F ((n + 1) % 4096) := by
  have hc : v.cleanup = false := h.not_cleanup hp
  have hf : f.retried = false := h.fresh f List.mem_cons_self
  have hseq : f.seq = n := h.run.1
  have hq : v.queue = f :: F := h.queue_eq
  have hact : v.act .sendQueued = { v with
      win := v.win.add 4096 128 n, queue := F, air := f ::ₘ v.air,
      handed := f.skb.toList ++ v.handed } := by
    simp only [act, hq, launch, enter, hand, hf, hseq, Bool.false_eq_true, if_false]
  rw [hseq] at hin
  obtain ⟨hvalid, hsize, hholds, hedge, howned, hclear, hhead⟩ := h.add_next hin hc
  rw [hact]
  have hnum : ∀ w : SlidingWindow, ({ v with
      win := w, queue := F, air := f ::ₘ v.air, handed := f.skb.toList ++ v.handed } :
      Session).numbers [] = n ::ₘ v.numbers [] := by
    intro w
    simp only [numbers, Multiset.cons_add, Multiset.map_cons, hseq]
  constructor
  case valid => exact hvalid
  case size_le => exact hsize.trans_le hin
  case baw_le => exact h.baw_le
  case ready => exact h.ready
  case queue_eq => rfl
  case retried => exact h.retried
  case fresh => exact fun g hg => h.fresh g (List.mem_cons_of_mem _ hg)
  case run => exact h.run.2
  case n_lt => exact Nat.mod_lt _ (by decide)
  case ends =>
    intro _
    show _ = (v.win.start + (v.win.add 4096 128 n).size 128) % 4096
    rw [hsize, hedge]
  case holds =>
    intro _
    rw [hnum]
    exact hholds
  case busy => exact fun hc' => absurd (hc.symm.trans hc') (by decide)
  case idle => exact h.idle
  case off => exact fun ha' => absurd (ha.symm.trans ha') (by decide)
  case owned =>
    intro ht
    rw [hnum]
    exact howned ht
  case exact_count => exact fun _ hc' => absurd (hc.symm.trans hc') (by decide)
  case clear => exact hclear
  case tight =>
    intro ht
    refine ⟨?_, hhead ht⟩
    show _ = (v.win.start + (v.win.add 4096 128 n).size 128) % 4096
    rw [hsize, hedge]

theorem Sound.sendQueued (h : v.Sound t R F n) (hcan : v.Can .sendQueued) :
    ∃ R' F' n', (v.act .sendQueued).Sound t R' F' n' := by
  obtain ⟨ha, hp, f, queue, hq, hin⟩ := hcan
  cases R with
  | cons r R => exact ⟨R, F, n, h.resend ha hp⟩
  | nil =>
      have hF : F = f :: queue := by rw [← hq, h.queue_eq, List.nil_append]
      subst hF
      exact ⟨[], queue, _, h.sendFirst ha hp hin⟩

/-! ## Completions -/

theorem Sound.retire (h : v.Sound t R F n) (hcan : v.Can (.retire f)) :
    (v.act (.retire f)).Sound t R F n := by
  obtain ⟨hc, hf⟩ := hcan
  have hnum : v.numbers R = f.seq ::ₘ (v.act (.retire f)).numbers R := numbers_land hf R
  have hholds : v.win.Holds 4096 128 (f.seq ::ₘ (v.act (.retire f)).numbers R) :=
    hnum ▸ h.holds hc
  have hle : (v.win.retire 4096 128 f.seq).size 128 ≤ v.size := h.valid.size_retire_le f.seq
  have hin : v.win.offset 4096 f.seq < v.size := hholds.within _ (Multiset.mem_cons_self _ _)
  have hedge : (v.act (.retire f)).edge = v.edge := h.valid.end_retire f.seq
  have hbaw := h.baw_le
  have hsz := h.size_le
  constructor
  case valid => exact h.valid.valid_retire f.seq
  case size_le => exact hle.trans h.size_le
  case baw_le => exact h.baw_le
  case ready => exact h.ready
  case queue_eq => exact h.queue_eq
  case retried => exact h.retried
  case fresh => exact h.fresh
  case run => exact h.run
  case n_lt => exact h.n_lt
  case ends =>
    intro hne
    rw [hedge]
    apply h.ends
    change (v.win.retire 4096 128 f.seq).size 128 ≠ 0 at hne
    omega
  case holds => exact fun _ => hholds.retire h.valid
  case busy => exact fun hc' => absurd (hc.symm.trans hc') (by decide)
  case idle => exact h.idle
  case off =>
    intro ha
    rw [((h.off ha).2.2 hc).1] at hf
    exact absurd hf (Multiset.notMem_zero f)
  case owned =>
    intro ht
    have howned := h.owned ht
    rw [hnum] at howned
    exact howned.retire hholds h.valid
  case exact_count => exact fun _ hc' => absurd (hc.symm.trans hc') (by decide)
  case clear => exact fun ht => (h.clear ht).retire h.valid (by omega)
  case tight => exact fun ht => ⟨hedge ▸ (h.tight ht).1, .retire h.valid f.seq⟩

theorem Sound.retry (h : v.Sound t R F n) (hcan : v.Can (.retry f)) :
    (v.act (.retry f)).Sound t R F n := by
  obtain ⟨hc, ha, hf⟩ := hcan
  have hnum : (v.act (.retry f)).numbers R = v.numbers R := by
    rw [numbers_land hf R]
    show (v.air.erase f + ((v.pend ++ [f.retry] : List Frame) : Multiset Frame) + R).map _ = _
    rw [← Multiset.coe_add, Multiset.coe_singleton, ← add_assoc, add_right_comm,
      Multiset.map_add, Multiset.map_singleton, add_comm, Multiset.singleton_add]
    rfl
  exact
    { h with
      retried := by
        intro g hg
        change g ∈ R ++ (v.pend ++ [f.retry]) at hg
        rw [← List.append_assoc] at hg
        rcases List.mem_append.mp hg with hg | hg
        · exact h.retried g hg
        · rw [List.mem_singleton.mp hg]
          rfl
      holds := fun _ => hnum.symm ▸ h.holds hc
      busy := fun hc' => absurd (hc.symm.trans hc') (by decide)
      off := fun ha' => absurd (ha.symm.trans ha') (by decide)
      owned := fun ht => hnum.symm ▸ h.owned ht
      exact_count := fun _ hc' => absurd (hc.symm.trans hc') (by decide) }

theorem Sound.prepend (h : v.Sound t R F n) :
    (v.act .prepend).Sound t (v.pend ++ R) F n := by
  have hnum : (v.act .prepend).numbers (v.pend ++ R) = v.numbers R := by
    simp only [numbers, act, Multiset.coe_nil, add_zero, ← Multiset.coe_add, add_assoc]
  exact
    { h with
      queue_eq := by
        show v.pend ++ v.queue = v.pend ++ R ++ F
        rw [h.queue_eq, List.append_assoc]
      retried := by
        intro g hg
        apply h.retried g
        simp only [act, List.append_nil, List.mem_append] at hg ⊢
        exact hg.symm
      holds := fun hc => hnum.symm ▸ h.holds hc
      busy := by
        intro hc
        obtain ⟨hp, hs, hR, hpend, hrest⟩ := h.busy hc
        exact ⟨hp, hs, by rw [hR, hpend]; rfl, rfl, hrest⟩
      off := by
        intro ha
        obtain ⟨hq, hp, hoff⟩ := h.off ha
        refine ⟨?_, rfl, hoff⟩
        show v.pend ++ v.queue = []
        rw [hp, hq]
        rfl
      owned := fun ht => hnum.symm ▸ h.owned ht }

theorem Sound.pause (h : v.Sound t R F n) : (v.act .pause).Sound t R F n :=
  { h with busy := fun hc => ⟨rfl, (h.busy hc).2⟩ }

theorem Sound.resume (h : v.Sound t R F n) (hok : v.Orderly t .resume) :
    (v.act .resume).Sound t R F n :=
  { h with busy := fun hc => absurd (Eq.trans (Eq.symm hok) hc) (by decide) }

/-! ## The count of a cleanup -/

theorem reset_size (v : Session) : v.reset.size = 0 :=
  SlidingWindow.Valid.size_eq_zero (N := 4096) ⟨Nat.zero_lt_succ _, Nat.zero_lt_succ _,
    Nat.zero_lt_succ _⟩ |>.mpr rfl

theorem Sound.reset (hair : v.air = 0) (hpend : v.pend = []) (hincomp : v.incomp = 0) :
    v.reset.Sound t [] [] 0 where
  valid := ⟨Nat.zero_lt_succ _, Nat.zero_lt_succ _, Nat.zero_lt_succ _⟩
  size_le := by
    rw [reset_size]
    exact Nat.zero_le _
  baw_le := le_refl 64
  ready := nofun
  queue_eq := rfl
  retried := by simp [Session.reset, hpend]
  fresh := nofun
  run := rfl
  n_lt := Nat.zero_lt_succ _
  ends := fun hne => absurd (reset_size v) hne
  holds := by
    intro _
    have h0 : v.reset.numbers [] = 0 := by simp [numbers, Session.reset, hair, hpend]
    rw [h0]
    exact .zero _ _ _
  busy := nofun
  idle := fun _ => hincomp
  off := fun _ => ⟨rfl, hpend, fun _ => ⟨hair, reset_size v⟩⟩
  owned := by
    intro _ j hj
    change j < v.reset.size at hj
    rw [reset_size] at hj
    exact absurd hj (Nat.not_lt_zero j)
  exact_count := fun _ => nofun
  clear := by
    intro _ j hj hset
    have hlt : (0 + j) % 128 < 128 := Nat.mod_lt _ (by decide)
    simp only [SlidingWindow.slot, Session.reset, hlt, if_true, Bool.false_eq_true] at hset
  tight := by
    intro _
    refine ⟨?_, fun hne => absurd (reset_size v) hne⟩
    rw [edge, reset_size]
    rfl

theorem Sound.countDown_incomp (h : v.Sound t R F n) (hc : v.cleanup = true) :
    (v.land f).countDown.incomp = v.incomp - 1 := by
  obtain ⟨-, -, -, -, hpos, hle, -⟩ := h.busy hc
  have hlo : -128 ≤ v.incomp - 1 := by omega
  have hhi : v.incomp - 1 < 128 := by omega
  exact aInt8_of_bounds hlo hhi

theorem card_land (hf : f ∈ v.air) : ((v.land f).air.card : Int) = v.air.card - 1 := by
  have : (v.air.erase f).card + 1 = v.air.card := Multiset.card_erase_add_one hf
  show ((v.air.erase f).card : Int) = _
  omega

/-- One of the frames a cleanup waits for is gone. -/
theorem Sound.landed (h : v.Sound t R F n) (hc : v.cleanup = true) (hf : f ∈ v.air)
    (hne : (v.land f).countDown.incomp ≠ 0) : (v.land f).countDown.Sound t R F n := by
  obtain ⟨hpaused, hsize, rfl, hpend, hpos, hle, hcard⟩ := h.busy hc
  have hdown : (v.land f).countDown.incomp = v.incomp - 1 := h.countDown_incomp hc
  have hair : ((v.land f).countDown.air.card : Int) = v.air.card - 1 := card_land hf
  exact
    { h with
      holds := fun hc' => absurd (hc.symm.trans hc') (by decide)
      busy := fun _ => ⟨hpaused, hsize, rfl, hpend, by omega, by omega, by omega⟩
      idle := fun hc' => absurd (hc.symm.trans hc') (by decide)
      off := fun ha => ⟨(h.off ha).1, hpend, fun hc' => absurd (hc.symm.trans hc') (by decide)⟩
      owned := by
        intro _ j hj
        change j < v.size at hj
        omega
      exact_count := by
        intro ht _
        have := h.exact_count ht hc
        omega }

/-- With the last frame a cleanup waits for gone, none of the window is in the air. -/
theorem Sound.air_of_last (h : v.Sound t R F n) (hc : v.cleanup = true) (hf : f ∈ v.air)
    (hzero : (v.land f).countDown.incomp = 0) : (v.land f).air = 0 := by
  obtain ⟨-, -, -, -, -, -, hcard⟩ := h.busy hc
  have hdown := h.countDown_incomp (f := f) hc
  have := card_land hf
  apply Multiset.card_eq_zero.mp
  omega

/-- The last of the frames a cleanup waits for is gone, and the TID goes on. -/
theorem Sound.landed_last (h : v.Sound t R F n) (hc : v.cleanup = true) (hf : f ∈ v.air)
    (hzero : (v.land f).countDown.incomp = 0) :
    (v.land f).countDown.endCleanup.Sound t R F n := by
  obtain ⟨-, hsize, rfl, hpend, -⟩ := h.busy hc
  have hair : (v.land f).air = 0 := h.air_of_last hc hf hzero
  exact
    { h with
      holds := by
        intro _
        have h0 : (v.land f).countDown.endCleanup.numbers [] = 0 := by
          show ((v.land f).air + (v.pend : Multiset Frame) + ([] : List Frame)).map _ = 0
          rw [hair, hpend]
          rfl
        rw [h0]
        exact .zero _ _ _
      busy := nofun
      idle := fun _ => hzero
      off := fun ha => ⟨(h.off ha).1, hpend, fun _ => ⟨hair, hsize⟩⟩
      owned := by
        intro _ j hj
        change j < v.size at hj
        omega
      exact_count := fun _ => nofun }

theorem Sound.completeSubframe (h : v.Sound t R F n) (hcan : v.Can (.completeSubframe f)) :
    (v.act (.completeSubframe f)).Sound t R F n := by
  obtain ⟨hc, hf⟩ := hcan
  show (v.land f).completedSubframe.Sound t R F n
  rw [completedSubframe]
  split
  · exact h.landed_last hc hf ‹_›
  · exact h.landed hc hf ‹_›

theorem Sound.completeSingle (h : v.Sound t R F n) (hcan : v.Can (.completeSingle f)) :
    ∃ R' F' n', (v.act (.completeSingle f)).Sound t R' F' n' := by
  obtain ⟨hc, hf⟩ := hcan
  show ∃ R' F' n', (v.land f).completed.Sound t R' F' n'
  rw [completed]
  split
  · exact ⟨R, F, n, h.landed hc hf ‹_›⟩
  · have hzero : (v.land f).countDown.incomp = 0 := not_not.mp ‹_›
    split
    · exact ⟨[], [], 0, .reset (h.air_of_last hc hf hzero) (h.busy hc).2.2.2.1 hzero⟩
    · exact ⟨R, F, n, h.landed_last hc hf hzero⟩

/-! ## Cleanup and drain -/

/-- What is left of the window of `v` once the frames that waited are out of it. -/
structure Discarded (t : Tier) (v : Session) (w : SlidingWindow) : Prop where
  valid : w.Valid 4096 128
  size_le : w.size 128 ≤ v.size
  edge_eq : (w.start + w.size 128) % 4096 = v.edge
  holds : v.cleanup = false → w.Holds 4096 128 (v.numbers [])
  owned : t ≠ .plain → v.cleanup = false → w.Owned 4096 128 (v.numbers [])
  clear : t = .clear → w.Clear 128

theorem discard_fresh (w : SlidingWindow) (hF : ∀ f ∈ F, f.retried = false) :
    discard w F = w := by
  induction F generalizing w with
  | nil => rfl
  | cons f F ih =>
      rw [discard, if_neg (by simp [hF f List.mem_cons_self])]
      exact ih w fun g hg => hF g (List.mem_cons_of_mem _ hg)

theorem discard_append (w : SlidingWindow) (R F : List Frame) :
    discard w (R ++ F) = discard (discard w R) F := by
  induction R generalizing w with
  | nil => rfl
  | cons f R ih => exact ih _

theorem Discarded.discard {w : SlidingWindow} (hR : ∀ f ∈ R, f.retried = true)
    (hbaw : v.size < 128) (hvalid : w.Valid 4096 128) (hle : w.size 128 ≤ v.size)
    (hedge : (w.start + w.size 128) % 4096 = v.edge)
    (hholds : w.Holds 4096 128 (v.numbers R))
    (howned : t ≠ .plain → w.Owned 4096 128 (v.numbers R))
    (hclear : t = .clear → w.Clear 128) : Discarded t v (Session.discard w R) := by
  induction R generalizing w with
  | nil => exact ⟨hvalid, hle, hedge, fun _ => hholds, fun ht _ => howned ht, hclear⟩
  | cons f R ih =>
      have hnum : v.numbers (f :: R) = f.seq ::ₘ v.numbers R := by
        simp only [numbers, ← Multiset.cons_coe, Multiset.add_cons, Multiset.map_cons]
      rw [hnum] at hholds howned
      have hin := hholds.within _ (Multiset.mem_cons_self _ _)
      rw [Session.discard, if_pos (hR f List.mem_cons_self)]
      exact ih (fun g hg => hR g (List.mem_cons_of_mem _ hg)) (hvalid.valid_retire _)
        ((hvalid.size_retire_le _).trans hle) ((hvalid.end_retire _).trans hedge)
        (hholds.retire hvalid) (fun ht => (howned ht).retire hholds hvalid)
        fun ht => (hclear ht).retire hvalid (by omega)

theorem Sound.size_lt (h : v.Sound t R F n) : v.size < 128 := by
  have := h.size_le
  have := h.baw_le
  omega

theorem Sound.discarded (h : v.Sound t R F n) :
    Discarded t v (Session.discard v.win v.queue) := by
  rw [h.queue_eq, discard_append, discard_fresh _ h.fresh]
  cases hc : v.cleanup with
  | false =>
      exact .discard (fun f hf => h.retried f (List.mem_append_left _ hf)) h.size_lt h.valid
        le_rfl rfl (h.holds hc) h.owned h.clear
  | true =>
      obtain ⟨-, -, rfl, -⟩ := h.busy hc
      exact ⟨h.valid, le_rfl, rfl, fun hc' => absurd (hc.symm.trans hc') (by decide),
        fun _ hc' => absurd (hc.symm.trans hc') (by decide), h.clear⟩

theorem card_numbers_nil (hpend : v.pend = []) : (v.numbers []).card = v.air.card := by
  simp [numbers, hpend]

/-- A cleanup counts a mark of the window for each of its frames in the air. -/
theorem Sound.cleanUp (h : v.Sound t R F n) (hpend : v.pend = []) {m : ℕ} (hm : m < 4096)
    (htight : t = .tight → m = v.edge) :
    ({ v.stopAggr.cleanUp with seqNext := m } : Session).Sound t [] [] m := by
  have hd := h.discarded
  have hlt := h.size_lt
  have hbaw := h.baw_le
  have hsize_le := h.size_le
  have hn : (Session.discard v.win v.queue).size 128 ≤ 128 := by
    have := hd.size_le
    omega
  have hclear := fun ht => (hd.clear ht).flush hd.valid hn
  obtain ⟨w, hflush, hw, hstart, hhead, htail, -⟩ := hd.valid.flush hn
  set c := Nat.count
    (fun j => (Session.discard v.win v.queue).slot 128 j = true)
    ((Session.discard v.win v.queue).size 128) with hcount
  have hcle : c ≤ v.size := (Nat.count_le _).trans hd.size_le
  have hzero : w.size 128 = 0 := hw.size_eq_zero.mpr (hhead.trans htail.symm)
  have hedge : w.start = v.edge := hstart.trans hd.edge_eq
  rw [hflush] at hclear
  have heq : ({ v.stopAggr.cleanUp with seqNext := m } : Session) =
      { v with
        win := w, queue := [], aggr := false, seqNext := m
        incomp := if c = 0 then v.incomp else aInt8 (v.incomp + c)
        cleanup := v.cleanup || decide (c ≠ 0)
        paused := v.cleanup || decide (c ≠ 0) } := by
    simp only [Session.cleanUp, stopAggr, hflush]
  rw [heq]
  have hcase : v.cleanup = true → c = 0 := by
    intro hc
    have := (h.busy hc).2.1
    omega
  have hcard : v.cleanup = false → v.air.card ≤ c := by
    intro hc
    rw [← card_numbers_nil hpend]
    exact (hd.holds hc).card_le_count hd.valid
  constructor
  case valid => exact hw
  case size_le => exact hzero.trans_le (Nat.zero_le _)
  case baw_le => exact h.baw_le
  case ready => exact nofun
  case queue_eq => rfl
  case retried =>
    show ∀ f ∈ ([] : List Frame) ++ v.pend, _
    simp [hpend]
  case fresh => simp
  case run => rfl
  case n_lt => exact hm
  case ends => exact fun hne => absurd hzero hne
  case holds =>
    intro hc
    simp only [Bool.or_eq_false_iff, decide_eq_false_iff_not, not_not] at hc
    have hair : v.air = 0 := Multiset.card_eq_zero.mp (by have := hcard hc.1; omega)
    have h0 : (v.air + (v.pend : Multiset Frame) + ([] : List Frame)).map Frame.seq = 0 := by
      simp [hair, hpend]
    show SlidingWindow.Holds 4096 128 w
      ((v.air + (v.pend : Multiset Frame) + ([] : List Frame)).map Frame.seq)
    rw [h0]
    exact .zero _ _ _
  case busy =>
    intro hc
    refine ⟨hc, hzero, rfl, hpend, ?_⟩
    cases hold : v.cleanup with
    | true =>
        obtain ⟨-, -, -, -, hrest⟩ := h.busy hold
        simp only [hcase hold, if_true]
        exact hrest
    | false =>
        simp only [hold, Bool.false_or, decide_eq_true_eq] at hc
        have hidle := h.idle hold
        have hle := hcard hold
        have hincomp : aInt8 (v.incomp + c) = c := by
          rw [hidle, zero_add]
          exact aInt8_of_bounds (by omega) (by omega)
        simp only [hc, if_false, hincomp]
        omega
  case idle =>
    intro hc
    simp only [Bool.or_eq_false_iff, decide_eq_false_iff_not, not_not] at hc
    simp only [hc.2, if_true]
    exact h.idle hc.1
  case off =>
    intro _
    refine ⟨rfl, hpend, fun hc => ⟨?_, hzero⟩⟩
    simp only [Bool.or_eq_false_iff, decide_eq_false_iff_not, not_not] at hc
    have hle := hcard hc.1
    exact Multiset.card_eq_zero.mp (show v.air.card = 0 by omega)
  case owned =>
    intro _ j hj
    change j < w.size 128 at hj
    omega
  case exact_count =>
    intro ht hc
    cases hold : v.cleanup with
    | true =>
        simp only [hcase hold, if_true]
        exact h.exact_count ht hold
    | false =>
        simp only [hold, Bool.false_or, decide_eq_true_eq] at hc
        have hle := hcard hold
        have hge : c ≤ v.air.card := by
          rw [← card_numbers_nil hpend]
          exact (hd.owned ht hold).count_le_card
        have hincomp : aInt8 (v.incomp + c) = c := by
          rw [h.idle hold, zero_add]
          exact aInt8_of_bounds (by omega) (by omega)
        simp only [hc, if_false, hincomp]
        show (c : Int) = v.air.card
        omega
  case clear =>
    intro ht j hj hset
    rw [hclear ht j hj] at hset
    cases hset
  case tight =>
    intro ht
    refine ⟨?_, fun hne => absurd hzero hne⟩
    show m = (w.start + w.size 128) % 4096
    rw [hzero, Nat.add_zero, Nat.mod_eq_of_lt hw.start_lt, hedge]
    exact htight ht

theorem Sound.disable (h : v.Sound t R F n) (hcan : v.Can .disable)
    (hok : v.Orderly t .disable) : (v.act .disable).Sound t [] [] v.seqNext := by
  refine h.cleanUp hcan.2 (h.run.lt h.n_lt) fun ht => ?_
  have hF : F = [] := by
    by_contra hne
    obtain ⟨f, fs, rfl⟩ := List.exists_cons_of_ne_nil hne
    have hretried := hok ht f (by rw [h.queue_eq]; simp)
    rw [h.fresh f List.mem_cons_self] at hretried
    cases hretried
  have hrun : n = v.seqNext := by
    have := h.run
    rwa [hF] at this
  show v.seqNext = v.edge
  rw [← hrun]
  exact (h.tight ht).1

/-- The end of the window is where its cleanup leaves it. -/
theorem Sound.cleanUp_win (h : v.Sound t R F n) :
    v.stopAggr.cleanUp.win.start = v.edge ∧
      v.stopAggr.cleanUp.win.head =
        v.stopAggr.cleanUp.win.tail := by
  have hd := h.discarded
  have hlt := h.size_lt
  have hn : (Session.discard v.win v.queue).size 128 ≤ 128 := by
    have := hd.size_le
    omega
  obtain ⟨w, hflush, -, hstart, hhead, htail, -⟩ := hd.valid.flush hn
  simp only [Session.cleanUp, stopAggr, hflush]
  exact ⟨hstart.trans hd.edge_eq, hhead.trans htail.symm⟩

theorem drained_of_empty {u : Session} (hq : u.queue = []) (hwin : u.win.head = u.win.tail) :
    u.drained = { u with seqNext := u.win.start } := by
  rcases u with ⟨⟨start, head, tail, mark⟩, _⟩
  cases hq
  cases hwin
  rfl

theorem Sound.teardown (h : v.Sound t R F n) (hpend : v.pend = []) :
    (v.act .teardown).Sound t [] [] v.edge := by
  obtain ⟨hstart, hhead⟩ := h.cleanUp_win
  have hsound := h.cleanUp (m := v.edge) hpend (Nat.mod_lt _ (by decide)) fun _ => rfl
  have heq : v.act .teardown = { v.stopAggr.cleanUp with seqNext := v.edge } :=
    (drained_of_empty rfl hhead).trans (by rw [hstart])
  rw [heq]
  exact hsound

theorem Sound.drain (h : v.Sound t R F n) (hcan : v.Can .drain)
    (hok : v.Orderly t .drain) : (v.act .drain).Sound t [] [] v.win.start := by
  obtain ⟨hair, hpend⟩ := hcan
  have hzero : (v.act .drain).size = 0 := by
    show fwd 128 v.win.head v.win.head = 0
    exact fwd_self h.valid.head_lt
  have hnum : (v.act .drain).numbers [] = 0 := by
    show (v.air + (v.pend : Multiset Frame) + ([] : List Frame)).map Frame.seq = 0
    simp [hair, hpend]
  constructor
  case valid => exact ⟨h.valid.start_lt, h.valid.head_lt, h.valid.head_lt⟩
  case size_le => exact hzero.trans_le (Nat.zero_le _)
  case baw_le => exact h.baw_le
  case ready => exact h.ready
  case queue_eq => rfl
  case retried =>
    show ∀ f ∈ ([] : List Frame) ++ v.pend, _
    simp [hpend]
  case fresh => simp
  case run => rfl
  case n_lt => exact h.valid.start_lt
  case ends => exact fun hne => absurd hzero hne
  case holds =>
    intro _
    rw [hnum]
    exact .zero _ _ _
  case busy =>
    intro hc
    obtain ⟨hpaused, -, -, -, hrest⟩ := h.busy hc
    exact ⟨hpaused, hzero, rfl, hpend, hrest⟩
  case idle => exact h.idle
  case off => exact fun _ => ⟨rfl, hpend, fun _ => ⟨hair, hzero⟩⟩
  case owned =>
    intro _ j hj
    change j < (v.act .drain).size at hj
    omega
  case exact_count => exact h.exact_count
  case clear =>
    intro ht j hj hset
    exact absurd hset (by
      rw [show (v.act .drain).win.slot 128 j = v.win.slot 128 j from rfl, hok ht j hj]
      decide)
  case tight =>
    intro _
    refine ⟨?_, fun hne => absurd hzero hne⟩
    rw [edge, hzero, Nat.add_zero]
    exact (Nat.mod_eq_of_lt h.valid.start_lt).symm

/-- The frames of a session lie as they should. -/
def IsSound (t : Tier) (v : Session) : Prop := ∃ R F n, v.Sound t R F n

/-- Every orderly action keeps the invariant. -/
theorem IsSound.act {a : Action} (h : v.IsSound t) (hcan : v.Can a) (hok : v.Orderly t a) :
    (v.act a).IsSound t := by
  obtain ⟨R, F, n, h⟩ := h
  cases a with
  | sendNormal skb more => exact ⟨_, _, _, h.sendNormal hcan.1 hok⟩
  | sendDirect skb more => exact ⟨_, _, _, h.sendDirect hcan hok⟩
  | enqueue skb more => exact ⟨_, _, _, h.enqueue hcan.1 hok⟩
  | sendQueued => exact h.sendQueued hcan
  | retire f => exact ⟨_, _, _, h.retire hcan⟩
  | retry f => exact ⟨_, _, _, h.retry hcan⟩
  | prepend => exact ⟨_, _, _, h.prepend⟩
  | pause => exact ⟨_, _, _, h.pause⟩
  | resume => exact ⟨_, _, _, h.resume hok⟩
  | completeSingle f => exact h.completeSingle hcan
  | completeSubframe f => exact ⟨_, _, _, h.completeSubframe hcan⟩
  | completeOther => exact absurd hok id
  | enable => exact ⟨_, _, _, { h with ready := fun _ => hcan, off := nofun }⟩
  | disable => exact ⟨_, _, _, h.disable hcan hok⟩
  | teardown => exact ⟨_, _, _, h.teardown hcan⟩
  | drain => exact ⟨_, _, _, h.drain hcan hok⟩
  | init => exact ⟨_, _, _, .reset hok hcan.2 (h.idle hcan.1)⟩
  | postpone => exact ⟨_, _, _, { h with }⟩

end Session

end Ath9kHtc.Tx
