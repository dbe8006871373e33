import Ath9kHtc.Cmnos.Timer

/-!
# The list of the armed timers

What each function makes of the list, and from it that every arming fires once, not before its
delay has elapsed, and that the handler ends.
-/

namespace Ath9kHtc.Cmnos

variable {τ : Type} {ctx : TimerContext τ} {l : List τ} {t u : τ}

/-! ## Wrap-around order -/

/-- Tick `b` is not before tick `a`, and near enough to it for the comparison of their low 32
bits. -/
def Within (a b : ℕ) : Prop := a ≤ b ∧ b < a + 2147483648

theorem timerIsEarlier_iff {a b : ℕ} (hab : a < b + 2147483648) (hba : b ≤ a + 2147483648) :
    timerIsEarlier (BitVec.ofNat 32 a) (BitVec.ofNat 32 b) = true ↔ a ≤ b := by
  rw [timerIsEarlier, decide_eq_true_iff]
  simp only [BitVec.toInt_eq_toNat_bmod, BitVec.toNat_sub, BitVec.toNat_ofNat, Int.bmod_def]
  omega

/-- A tick ahead is never taken for one that has passed. -/
theorem le_of_timerIsEarlier {a b : ℕ} (hab : a < b + 2147483648)
    (h : timerIsEarlier (BitVec.ofNat 32 a) (BitVec.ofNat 32 b) = true) : a ≤ b := by
  by_contra hlt
  have := (timerIsEarlier_iff hab (by omega)).mp h
  omega

/-! ## The invariant -/

/-- The list from `timer_list` on is `l`, each timer at most once, sorted by the deadlines, whose
low 32 bits are the expiry ticks. -/
structure ArmedList (s : TimerSystem τ) (l : List τ) : Prop where
  chain : Chain s.ctx.next s.ctx.timerList l
  nodup : l.Nodup
  expire : ∀ t ∈ l, s.ctx.expire t = BitVec.ofNat 32 (s.deadline t)
  near : ∀ t ∈ l, s.deadline t < s.now + 2147483648
  sorted : l.Pairwise fun a b => Within (s.deadline a) (s.deadline b)

variable {s s' : TimerSystem τ}

namespace ArmedList

theorem timerList_eq (h : ArmedList s l) : s.ctx.timerList = l.head? := h.chain.head?_eq.symm

theorem listed_eq [Fintype τ] (h : ArmedList s l) : s.listed = l :=
  h.chain.walk_eq h.nodup.length_le_card

/-- The expiry ticks are in wrap-around order. -/
theorem earlier (h : ArmedList s l) :
    l.Pairwise fun a b => timerIsEarlier (s.ctx.expire a) (s.ctx.expire b) = true := by
  apply List.Pairwise.imp_of_mem _ h.sorted
  intro a b ha hb hab
  obtain ⟨hle, hnear⟩ := hab
  rw [h.expire a ha, h.expire b hb]
  exact (timerIsEarlier_iff (by omega) hnear.le).mpr hle

/-- The list depends on the links, the expiry ticks and the deadlines of its timers, and on a
clock that does not go back. -/
theorem congr (h : ArmedList s l) (hhead : s'.ctx.timerList = s.ctx.timerList)
    (hnext : ∀ t ∈ l, s'.ctx.next t = s.ctx.next t)
    (hexpire : ∀ t ∈ l, s'.ctx.expire t = s.ctx.expire t) (hdeadline : s'.deadline = s.deadline)
    (hnow : s.now ≤ s'.now) : ArmedList s' l where
  chain := hhead ▸ h.chain.congr hnext
  nodup := h.nodup
  expire t ht := by rw [hexpire t ht, hdeadline, h.expire t ht]
  near t ht := by
    have := h.near t ht
    rw [hdeadline]
    omega
  sorted := by
    rw [hdeadline]
    exact h.sorted

/-- Fewer timers in the same order. -/
theorem sublist {l' : List τ} {ctx : TimerContext τ} (h : ArmedList s l) (hsub : l'.Sublist l)
    (hexpire : ctx.expire = s.ctx.expire) (hchain : Chain ctx.next ctx.timerList l') :
    ArmedList { s with ctx := ctx } l' where
  chain := hchain
  nodup := h.nodup.sublist hsub
  expire u hu := by
    change ctx.expire u = _
    rw [hexpire]
    exact h.expire u (hsub.subset hu)
  near u hu := h.near u (hsub.subset hu)
  sorted := h.sorted.sublist hsub

end ArmedList

variable [DecidableEq τ]

namespace TimerContext

theorem timers_update_of_ne (ctx : TimerContext τ) {t u : τ} (f : Timer τ → Timer τ) (h : u ≠ t) :
    (ctx.update t f).timers u = ctx.timers u :=
  Function.update_of_ne h _ _

theorem timers_update_self (ctx : TimerContext τ) (t : τ) (f : Timer τ → Timer τ) :
    (ctx.update t f).timers t = f (ctx.timers t) :=
  Function.update_self t _ _

theorem next_update_of_ne (ctx : TimerContext τ) {t u : τ} (f : Timer τ → Timer τ) (h : u ≠ t) :
    (ctx.update t f).next u = ctx.next u := by
  rw [next, next, ctx.timers_update_of_ne f h]

theorem expire_update_of_ne (ctx : TimerContext τ) {t u : τ} (f : Timer τ → Timer τ)
    (h : u ≠ t) : (ctx.update t f).expire u = ctx.expire u := by
  rw [expire, expire, ctx.timers_update_of_ne f h]

theorem relink_some (ctx : TimerContext τ) (p : τ) (next : Option τ) :
    ctx.relink (some p) next = ctx.update p (.setNext next) := rfl

@[simp] theorem expire_update_setNext (ctx : TimerContext τ) (t : τ) (next : Option τ) :
    (ctx.update t (.setNext next)).expire = ctx.expire := by
  funext u
  by_cases hu : u = t
  · subst hu
    simp [expire, timers_update_self, Timer.setNext]
  · exact ctx.expire_update_of_ne _ hu

theorem next_update_setNext (ctx : TimerContext τ) (t : τ) (next : Option τ) :
    (ctx.update t (.setNext next)).next t = next := by
  simp [TimerContext.next, timers_update_self, Timer.setNext]

@[simp] theorem expire_relink (ctx : TimerContext τ) (prev next : Option τ) :
    (ctx.relink prev next).expire = ctx.expire := by
  cases prev with
  | none => rfl
  | some p => exact ctx.expire_update_setNext p next

/-- A part of the list is replaced from a link on. -/
theorem chain_relink (ctx : TimerContext τ) {ctx₀ : TimerContext τ} {l₁ l₂ l₃ : List τ} {x : Option τ}
    (h : Chain ctx₀.next ctx₀.timerList (l₁ ++ l₂)) (hd : l₁.Nodup)
    (hhead : ctx.timerList = ctx₀.timerList) (hsame : ∀ u ∈ l₁, ctx.next u = ctx₀.next u)
    (hx : Chain ctx.next x l₃) (hout : ∀ u ∈ l₃, u ∉ l₁) :
    Chain (ctx.relink l₁.getLast? x).next (ctx.relink l₁.getLast? x).timerList (l₁ ++ l₃) := by
  cases hlast : l₁.getLast? with
  | none =>
    obtain rfl := List.getLast?_eq_none_iff.mp hlast
    exact hx
  | some p =>
    obtain ⟨l, rfl⟩ : ∃ l, l₁ = l ++ [p] := List.getLast?_eq_some_iff.mp hlast
    have hp : p ∉ l := fun hmem =>
      (List.nodup_append.mp hd).2.2 p hmem p List.mem_cons_self rfl
    have hrest : Chain (ctx.update p (.setNext x)).next x l₃ := by
      apply hx.congr
      intro u hu
      apply ctx.next_update_of_ne
      rintro rfl
      exact hout u hu (List.mem_append_right _ List.mem_cons_self)
    have hkept : ∀ u ∈ l, (ctx.update p (.setNext x)).next u = ctx₀.next u := by
      intro u hu
      have hne : u ≠ p := by
        rintro rfl
        exact hp hu
      exact (ctx.next_update_of_ne _ hne).trans (hsame u (List.mem_append_left _ hu))
    rw [List.append_assoc] at h ⊢
    rw [relink_some]
    exact hhead ▸ h.splice (ctx.next_update_setNext p x) hkept hrest

end TimerContext

/-! ## The functions on the list -/

namespace ArmedList

/-- What `cmnos_timer_arm` makes of the system. -/
def armedAt (s : TimerSystem τ) (ctx : TimerContext τ) (t : τ) (deadline : ℕ) : TimerSystem τ :=
  { s with
    ctx := ctx
    deadline := Function.update s.deadline t deadline
    armed := ⟨t, deadline⟩ :: s.armed }

/-- The timer goes behind the timers with earlier deadlines, in front of the others. -/
theorem insert {l₁ l₂ : List τ} {deadline : ℕ} (h : ArmedList s (l₁ ++ l₂)) (ht : t ∉ l₁ ++ l₂)
    (hnow : s.now ≤ deadline) (hnear : deadline < s.now + 2147483648)
    (hlate : ∀ u ∈ l₁ ++ l₂, deadline < s.deadline u + 2147483648)
    (hbefore : ∀ u ∈ l₁, s.deadline u < deadline)
    (hafter : ∀ u ∈ l₂.head?, deadline ≤ s.deadline u) :
    ArmedList (armedAt s
      ((s.ctx.update t (.place l₂.head? (BitVec.ofNat 32 deadline))).relink l₁.getLast? (some t))
      t deadline) (l₁ ++ t :: l₂) := by
  have hne : ∀ u ∈ l₁ ++ l₂, u ≠ t := by
    rintro u hu rfl
    exact ht hu
  have hkept : ∀ u ∈ l₁ ++ l₂, Function.update s.deadline t deadline u = s.deadline u :=
    fun u hu => Function.update_of_ne (hne u hu) _ _
  have hmid : (l₁ ++ t :: l₂).Perm (t :: (l₁ ++ l₂)) := List.perm_middle
  -- the deadlines from the place of the insertion on
  have hge : ∀ u ∈ l₂, deadline ≤ s.deadline u := by
    intro u hu
    cases l₂ with
    | nil => cases hu
    | cons v l₂ =>
      have hv := hafter v rfl
      rcases List.mem_cons.mp hu with rfl | hu
      · exact hv
      · have hsorted := (List.pairwise_append.mp h.sorted).2.1
        exact hv.trans ((List.pairwise_cons.mp hsorted).1 u hu).1
  constructor
  · apply TimerContext.chain_relink _ h.chain (List.nodup_append.mp h.nodup).1
    · rfl
    · intro u hu
      exact s.ctx.next_update_of_ne _ (hne u (List.mem_append_left _ hu))
    · refine ⟨rfl, ?_⟩
      rw [TimerContext.next, TimerContext.timers_update_self]
      apply (Chain.append h.chain).congr
      intro u hu
      exact s.ctx.next_update_of_ne _ (hne u (List.mem_append_right _ hu))
    · intro u hu hmem
      rcases List.mem_cons.mp hu with rfl | hu
      · exact hne u (List.mem_append_left _ hmem) rfl
      · exact (List.nodup_append.mp h.nodup).2.2 u hmem u hu rfl
  · exact hmid.nodup_iff.mpr (List.nodup_cons.mpr ⟨ht, h.nodup⟩)
  · intro u hu
    simp only [armedAt, TimerContext.expire_relink]
    rcases List.mem_cons.mp (hmid.mem_iff.mp hu) with rfl | hu
    · rw [TimerContext.expire, TimerContext.timers_update_self, Function.update_self]
      rfl
    · rw [s.ctx.expire_update_of_ne _ (hne u hu), hkept u hu, h.expire u hu]
  · intro u hu
    simp only [armedAt]
    rcases List.mem_cons.mp (hmid.mem_iff.mp hu) with rfl | hu
    · rwa [Function.update_self]
    · rw [hkept u hu]
      exact h.near u hu
  · change (l₁ ++ t :: l₂).Pairwise fun a b => Within (Function.update s.deadline t deadline a)
      (Function.update s.deadline t deadline b)
    have hold : (l₁ ++ l₂).Pairwise fun a b => Within (Function.update s.deadline t deadline a)
        (Function.update s.deadline t deadline b) := by
      apply List.Pairwise.imp_of_mem _ h.sorted
      intro a b ha hb hab
      rwa [hkept a ha, hkept b hb]
    obtain ⟨h₁, h₂, h₁₂⟩ := List.pairwise_append.mp hold
    refine List.pairwise_append.mpr ⟨h₁, List.pairwise_cons.mpr ⟨fun u hu => ?_, h₂⟩, ?_⟩
    · rw [Function.update_self, hkept u (List.mem_append_right _ hu)]
      have hu' := h.near u (List.mem_append_right _ hu)
      exact ⟨hge u hu, by omega⟩
    · intro a ha b hb
      rcases List.mem_cons.mp hb with rfl | hb
      · rw [Function.update_self, hkept a (List.mem_append_left _ ha)]
        exact ⟨(hbefore a ha).le, hlate a (List.mem_append_left _ ha)⟩
      · exact h₁₂ a ha b hb

/-- `cmnos_timer_arm` ends, and puts the timer into the list. -/
theorem arm [Fintype τ] {milliseconds : ℕ} (h : ArmedList s l) (ht : t ∉ l)
    (hticks : milliseconds * oneMsec < 2147483648)
    (hlate : ∀ u ∈ l, s.now + milliseconds * oneMsec < s.deadline u + 2147483648) :
    ∃ ctx l', cmnosTimerArm s.ctx s.now milliseconds t = some ctx ∧ l'.Perm (t :: l) ∧
      ArmedList (armedAt s ctx t (s.now + milliseconds * oneMsec)) l' := by
  have hexpire : nowTicks s.now + millisToTimerTicks milliseconds =
      BitVec.ofNat 32 (s.now + milliseconds * oneMsec) := (BitVec.ofNat_add _ _).symm
  -- the comparison of the loop is one of deadlines
  have hcmp : ∀ u ∈ l, timerIsEarlier (BitVec.ofNat 32 (s.now + milliseconds * oneMsec))
      (s.ctx.expire u) = true ↔ s.now + milliseconds * oneMsec ≤ s.deadline u := by
    intro u hu
    have := h.near u hu
    rw [h.expire u hu]
    exact timerIsEarlier_iff (hlate u hu) (by omega)
  obtain ⟨l₁, l₂, rfl, hseek, hbefore, hat⟩ := h.chain.seek_split h.nodup.length_le_card fun curr =>
    timerIsEarlier (BitVec.ofNat 32 (s.now + milliseconds * oneMsec)) (s.ctx.expire curr)
  have harm : cmnosTimerArm s.ctx s.now milliseconds t =
      some ((s.ctx.update t (.place l₂.head?
        (BitVec.ofNat 32 (s.now + milliseconds * oneMsec)))).relink l₁.getLast? (some t)) := by
    rw [cmnosTimerArm, hexpire, hseek]
    rfl
  refine ⟨_, l₁ ++ t :: l₂, harm, List.perm_middle, ?_⟩
  · apply h.insert ht (Nat.le_add_right _ _) (by omega) hlate
    · intro u hu
      have hu' := hcmp u (List.mem_append_left _ hu)
      rw [hbefore u hu] at hu'
      simpa using hu'
    · intro u hu
      exact (hcmp u (List.mem_append_right _ (List.mem_of_mem_head? hu))).mp (hat u hu)

/-- `cmnos_timer_disarm` ends, and takes the timer off the list. -/
theorem disarm [Fintype τ] (h : ArmedList s l) (t : τ) :
    ∃ ctx, cmnosTimerDisarm s.ctx t = some ctx ∧ ArmedList { s with ctx := ctx } (l.erase t) := by
  obtain ⟨l₁, l₂, rfl, hseek, hbefore, hat⟩ :=
    h.chain.seek_split h.nodup.length_le_card (· = t)
  have hout : t ∉ l₁ := by
    intro hmem
    simpa using hbefore t hmem
  have hclear : ∀ (ctx : TimerContext τ) (l : List τ), t ∉ l → Chain ctx.next ctx.timerList l →
      Chain (ctx.update t (.setNext none)).next (ctx.update t (.setNext none)).timerList l := by
    intro ctx l hl hchain
    apply hchain.congr
    intro u hu
    apply ctx.next_update_of_ne
    rintro rfl
    exact hl hu
  rw [cmnosTimerDisarm, hseek, List.erase_append_right _ hout]
  refine ⟨_, rfl, ?_⟩
  cases l₂ with
  | nil =>
    simp only [List.head?_nil, List.erase_nil, List.append_nil] at h ⊢
    apply h.sublist (List.Sublist.refl _) (by simp)
    exact hclear _ _ hout h.chain
  | cons u l₂ =>
    obtain rfl : u = t := by simpa using hat u rfl
    have hdisjoint := (List.nodup_append.mp h.nodup).2.2
    have hu : u ∉ l₂ := (List.nodup_cons.mp (List.nodup_append.mp h.nodup).2.1).1
    simp only [List.head?_cons, List.erase_cons_head]
    apply h.sublist ((List.Sublist.refl _).append (List.sublist_cons_self _ _)) (by simp)
    apply hclear
    · simp [hout, hu]
    · apply TimerContext.chain_relink s.ctx h.chain (List.nodup_append.mp h.nodup).1
      · rfl
      · exact fun _ _ => rfl
      · exact (Chain.append h.chain).2
      · intro v hv hmem
        exact hdisjoint v hmem v (List.mem_cons_of_mem _ hv) rfl

/-- The head of the list is taken off it before its function is called. -/
theorem pop (h : ArmedList s (t :: l)) :
    ArmedList { s with
      ctx := { s.ctx with timerList := s.ctx.next t }.update t (.setNext none) } l := by
  have hout := (List.nodup_cons.mp h.nodup).1
  apply h.sublist (List.sublist_cons_self _ _)
  · rw [TimerContext.expire_update_setNext]
    rfl
  · apply h.chain.2.congr
    intro u hu
    apply TimerContext.next_update_of_ne
    rintro rfl
    exact hout hu

end ArmedList

/-! ## Runs -/

/-- Every arming fired, was taken off the list, or is on it; none fired early. -/
structure TimersServed (s : TimerSystem τ) (l : List τ) : Prop where
  list : ArmedList s l
  balanced : ∀ a, s.armed.count a =
    (s.fired.map Prod.fst).count a + s.disarmed.count a + (l.map s.arming).count a
  punctual : ∀ f ∈ s.fired, f.1.deadline ≤ f.2

namespace TimersServed

theorem init (h : s.Init) : TimersServed s [] := by
  obtain ⟨hhead, _, harmed, hdisarmed, hfired, _⟩ := h
  refine ⟨⟨hhead, List.nodup_nil, by simp, by simp, List.Pairwise.nil⟩, fun a => ?_, ?_⟩
  · simp [harmed, hdisarmed, hfired]
  · simp [hfired]

/-- The head of the list, if its tick has come. -/
def due (s : TimerSystem τ) : Option τ :=
  s.ctx.timerList.filter fun t => timerIsEarlier (s.ctx.expire t) (nowTicks s.now)

/-- The test of the handler ends the loop where the list has no due timer in front. -/
theorem loop_of_none (h : due s = none) : cmnosTimerHandlerLoop s = s := by
  rw [cmnosTimerHandlerLoop]
  cases hhead : s.ctx.timerList with
  | none => rfl
  | some t =>
    have hlater : timerIsEarlier (s.ctx.expire t) (nowTicks s.now) = false := by
      simpa [due, hhead] using h
    simp [hlater]

/-- Otherwise the timer in front is fired. -/
theorem loop_of_some (h : TimersServed s l) (hdue : due s = some t) :
    ∃ rest, l = t :: rest ∧ TimersServed (cmnosTimerHandlerLoop s) rest ∧
      (cmnosTimerHandlerLoop s).fired = (s.arming t, s.now) :: s.fired ∧
      (cmnosTimerHandlerLoop s).armed = s.armed ∧
      (cmnosTimerHandlerLoop s).arming = s.arming := by
  obtain ⟨hhead, hearlier⟩ := Option.filter_eq_some_iff.mp hdue
  have hl := h.list.timerList_eq
  rw [hhead] at hl
  cases l with
  | nil => cases hl
  | cons u rest =>
    obtain rfl : t = u := Option.some.inj hl
    have hloop : cmnosTimerHandlerLoop s = { s with
        ctx := { s.ctx with timerList := s.ctx.next t }.update t (.setNext none)
        stack := t :: s.stack
        fired := (s.arming t, s.now) :: s.fired } := by
      rw [cmnosTimerHandlerLoop, hhead]
      exact if_pos hearlier
    have hlist := h.list.pop
    rw [hloop]
    refine ⟨rest, rfl, ⟨⟨hlist.chain, hlist.nodup, hlist.expire, hlist.near, hlist.sorted⟩,
      fun a => ?_, fun f hf => ?_⟩, rfl, rfl, rfl⟩
    · have ha := h.balanced a
      rw [List.map_cons, List.count_cons] at ha
      change _ = (((s.arming t, s.now) :: s.fired).map Prod.fst).count a + _ +
        (rest.map s.arming).count a
      rw [List.map_cons, List.count_cons]
      dsimp only
      omega
    · rcases List.mem_cons.mp hf with rfl | hf
      · rw [h.list.expire t List.mem_cons_self] at hearlier
        exact le_of_timerIsEarlier (h.list.near t List.mem_cons_self) hearlier
      · exact h.punctual f hf

/-- Where the loop ends in time, the delay of no armed timer has elapsed. -/
theorem lt_of_none (h : TimersServed s l) (hdue : due s = none)
    (hlate : ∀ u ∈ l, s.now ≤ s.deadline u + 2147483648) : ∀ u ∈ l, s.now < s.deadline u := by
  cases l with
  | nil => simp
  | cons t l =>
    have hnear := h.list.near t List.mem_cons_self
    have ht : s.now < s.deadline t := by
      rw [due, h.list.timerList_eq, List.head?_cons, Option.filter_some,
        h.list.expire t List.mem_cons_self] at hdue
      by_contra hle
      have := (timerIsEarlier_iff (by omega) (hlate t List.mem_cons_self)).mpr (not_lt.mp hle)
      simp [nowTicks, this] at hdue
    intro u hu
    rcases List.mem_cons.mp hu with rfl | hu
    · exact ht
    · exact ht.trans_le ((List.pairwise_cons.mp h.list.sorted).1 u hu).1

/-- The armings since there were `n`. -/
def recent (s : TimerSystem τ) (n : ℕ) : List (Arming τ) := s.armed.take (s.armed.length - n)

/-- How many timers of the list were not armed since. -/
def old (s : TimerSystem τ) (n : ℕ) (l : List τ) : ℕ := l.countP (s.arming · ∉ recent s n)

/-- The handler finds no timer due that was armed since there were `n` armings. -/
def NoneRearmed (n : ℕ) (s : TimerSystem τ) (e : TimerEvent τ) : Prop :=
  e = .run ∨ e = .ret → ∀ t ∈ due s, s.arming t ∉ recent s n

theorem old_le_length (s : TimerSystem τ) (n : ℕ) (l : List τ) : old s n l ≤ l.length :=
  List.countP_le_length

variable {n : ℕ}

/-- What a step makes of the list and of the number of timers that may still fire. -/
structure Follows (s s' : TimerSystem τ) (l l' : List τ) (n : ℕ) : Prop where
  served : TimersServed s' l'
  grows : s.armed.length ≤ s'.armed.length
  falls : s'.fired.length + old s' n l' ≤ s.fired.length + old s n l

theorem follows_of_eq (h : TimersServed s l) (hlist : ArmedList s' l)
    (harmed : s'.armed = s.armed) (hdisarmed : s'.disarmed = s.disarmed)
    (hfired : s'.fired = s.fired) (hdeadline : s'.deadline = s.deadline) :
    Follows s s' l l n := by
  have harming : s'.arming = s.arming := by
    funext t
    rw [TimerSystem.arming, TimerSystem.arming, hdeadline]
  refine ⟨⟨hlist, fun a => ?_, ?_⟩, harmed ▸ le_rfl, ?_⟩
  · rw [harmed, hdisarmed, hfired, harming]
    exact h.balanced a
  · rw [hfired]
    exact h.punctual
  · rw [old, old, recent, recent, harmed, hfired, harming]

theorem follows_arm (h : TimersServed s l) (ht : t ∉ l) {ctx : TimerContext τ} {l' : List τ}
    {deadline : ℕ} (hperm : l'.Perm (t :: l))
    (hlist : ArmedList (ArmedList.armedAt s ctx t deadline) l') (hn : n ≤ s.armed.length) :
    Follows s (ArmedList.armedAt s ctx t deadline) l l' n := by
  have hnew : (ArmedList.armedAt s ctx t deadline).arming t = ⟨t, deadline⟩ := by
    simp [TimerSystem.arming, ArmedList.armedAt]
  have hkept : ∀ u ∈ l, (ArmedList.armedAt s ctx t deadline).arming u = s.arming u := by
    intro u hu
    have hne : u ≠ t := by
      rintro rfl
      exact ht hu
    simp [TimerSystem.arming, ArmedList.armedAt, Function.update_of_ne hne]
  refine ⟨⟨hlist, fun a => ?_, h.punctual⟩, Nat.le_succ _, ?_⟩
  · have ha := h.balanced a
    rw [(hperm.map _).count_eq a, List.map_cons, hnew, List.map_congr_left hkept]
    change ((⟨t, deadline⟩ : Arming τ) :: s.armed).count a = _ + s.disarmed.count a + _
    rw [List.count_cons, List.count_cons]
    change _ = (s.fired.map Prod.fst).count a + _ + _
    omega
  · have hrecent : recent (ArmedList.armedAt s ctx t deadline) n =
        ⟨t, deadline⟩ :: recent s n := by
      rw [recent, recent, ArmedList.armedAt, List.length_cons, Nat.succ_sub hn, List.take_succ_cons]
    have hle : old (ArmedList.armedAt s ctx t deadline) n l' ≤ old s n l := by
      rw [old, hperm.countP_eq, List.countP_cons, hnew, hrecent]
      simp only [List.mem_cons, true_or, not_true_eq_false, decide_false, Bool.false_eq_true,
        if_false, Nat.add_zero]
      apply List.countP_mono_left
      intro u hu hout
      rw [hkept u hu] at hout
      simp only [not_or, decide_eq_true_eq] at hout ⊢
      exact hout.2
    exact Nat.add_le_add_left hle _

theorem follows_disarm (h : TimersServed s l) {ctx : TimerContext τ} (t : τ)
    (hlist : ArmedList { s with ctx := ctx } (l.erase t)) :
    Follows s { s with
      ctx := ctx
      disarmed := if t ∈ l then s.arming t :: s.disarmed else s.disarmed } l (l.erase t) n := by
  refine ⟨⟨⟨hlist.chain, hlist.nodup, hlist.expire, hlist.near, hlist.sorted⟩, fun a => ?_,
    h.punctual⟩, le_rfl, ?_⟩
  · have ha := h.balanced a
    change _ = _ + _ + ((l.erase t).map s.arming).count a
    dsimp only
    by_cases ht : t ∈ l
    · have hperm := ((List.perm_cons_erase ht).map s.arming).count_eq a
      rw [List.map_cons, List.count_cons] at hperm
      rw [if_pos ht, List.count_cons]
      omega
    · rwa [if_neg ht, List.erase_of_not_mem ht]
  · exact Nat.add_le_add_left (List.erase_sublist.countP_le) _

theorem follows_loop (h : TimersServed s l) (hold : ∀ t ∈ due s, s.arming t ∉ recent s n) :
    ∃ l', Follows s (cmnosTimerHandlerLoop s) l l' n := by
  cases hdue : due s with
  | none =>
    rw [loop_of_none hdue]
    exact ⟨l, h.follows_of_eq h.list rfl rfl rfl rfl⟩
  | some t =>
    obtain ⟨rest, rfl, hserved, hfired, harmed, harming⟩ := h.loop_of_some hdue
    refine ⟨rest, hserved, harmed ▸ le_rfl, ?_⟩
    have ht := hold t hdue
    have hsame : old (cmnosTimerHandlerLoop s) n rest = old s n rest := by
      rw [old, old, recent, recent, harmed, harming]
    rw [hsame, hfired, List.length_cons, old, old, List.countP_cons, if_pos (by simpa using ht)]
    omega

/-- A step in time keeps the invariant, and a handler that finds no timer due that was armed since
uses up the others. -/
theorem step [Fintype τ] {e : TimerEvent τ} (h : TimersServed s l) (he : Timely s e)
    (hn : n ≤ s.armed.length) (hold : NoneRearmed n s e) (hs : stepTimer e s = some s') :
    ∃ l', Follows s s' l l' n := by
  cases e with
  | setfn fn arg t =>
    cases hs
    have ht : t ∉ l := h.list.listed_eq ▸ he
    have hkept : ∀ u ∈ l, (cmnosTimerSetfn s.ctx fn arg t).timers u = s.ctx.timers u := by
      intro u hu
      apply s.ctx.timers_update_of_ne
      rintro rfl
      exact ht hu
    refine ⟨l, h.follows_of_eq (h.list.congr rfl ?_ ?_ rfl le_rfl) rfl rfl rfl rfl⟩
    · exact fun u hu => congrArg Timer.timerNext (hkept u hu)
    · exact fun u hu => congrArg Timer.timerExpire (hkept u hu)
  | arm t milliseconds =>
    obtain ⟨ht, hlate⟩ := he
    rw [h.list.listed_eq] at ht hlate
    simp only [stepTimer] at hs
    split at hs
    case isTrue hticks =>
      obtain ⟨ctx, l', harm, hperm, hlist⟩ := h.list.arm ht hticks hlate
      simp only [harm, Option.map_some, Option.some.injEq] at hs
      subst hs
      exact ⟨l', h.follows_arm ht hperm hlist hn⟩
    case isFalse => cases hs
  | disarm t =>
    obtain ⟨ctx, hdisarm, hlist⟩ := h.list.disarm t
    simp only [stepTimer, hdisarm, Option.map_some, Option.some.injEq, h.list.listed_eq] at hs
    subst hs
    exact ⟨l.erase t, h.follows_disarm t hlist⟩
  | tick k =>
    cases hs
    refine ⟨l, h.follows_of_eq (h.list.congr rfl ?_ ?_ rfl ?_) rfl rfl rfl rfl⟩
    · exact fun _ _ => rfl
    · exact fun _ _ => rfl
    · exact Nat.le_add_right _ _
  | run =>
    cases hs
    exact h.follows_loop (hold (.inl rfl))
  | ret =>
    simp only [stepTimer] at hs
    cases hstack : s.stack with
    | nil => simp [hstack] at hs
    | cons t stack =>
      simp only [hstack, Option.some.injEq] at hs
      subst hs
      have hreturned : TimersServed { s with stack := stack } l :=
        ⟨⟨h.list.chain, h.list.nodup, h.list.expire, h.list.near, h.list.sorted⟩, h.balanced,
          h.punctual⟩
      obtain ⟨l', hserved, hgrows, hfalls⟩ := hreturned.follows_loop (n := n) (hold (.inr rfl))
      exact ⟨l', hserved, hgrows, hfalls⟩

end TimersServed

variable [Fintype τ]

theorem timers_served (h : (timerMachine τ).ReachableWhere Timely s) :
    ∃ l, TimersServed s l := by
  apply h.invariant
  · intro s hinit
    exact ⟨[], .init hinit⟩
  · intro s e s' hl he hs
    obtain ⟨l, hl⟩ := hl
    obtain ⟨l', hfollows⟩ := hl.step he le_rfl (by simp [TimersServed.NoneRearmed,
      TimersServed.recent]) hs
    exact ⟨l', hfollows.served⟩

/-- As long as the handler finds no timer due that was armed since, it fires the timers that were
on the list and no more. -/
theorem TimersServed.fired_le (h : TimersServed s l)
    (steps : (timerMachine τ).StepsWhere
      (fun s₁ e => Timely s₁ e ∧ NoneRearmed s.armed.length s₁ e) s s') :
    s'.fired.length ≤ s.fired.length + l.length := by
  have hrun : ∃ l', TimersServed s' l' ∧ s.armed.length ≤ s'.armed.length ∧
      s'.fired.length + old s' s.armed.length l' ≤ s.fired.length + l.length := by
    induction steps with
    | refl => exact ⟨l, h, le_rfl, Nat.add_le_add_left (old_le_length _ _ _) _⟩
    | tail _ last ih =>
      obtain ⟨l₁, hl₁, hn, hle⟩ := ih
      obtain ⟨e, ⟨he, hold⟩, hs⟩ := last
      obtain ⟨l', hserved, hgrows, hfalls⟩ := hl₁.step he hn hold hs
      exact ⟨l', hserved, hn.trans hgrows, hfalls.trans hle⟩
  obtain ⟨l', -, -, hle⟩ := hrun
  omega

/-- A step of the handler fires the timer in front of the list, or ends. -/
theorem TimersServed.lt_of_ended {e : TimerEvent τ} (h : TimersServed s l) (he : Timely s e)
    (hloop : e = .run ∨ e = .ret) (hs : stepTimer e s = some s') (hended : s'.fired = s.fired) :
    ∀ u ∈ l, s.now < s.deadline u := by
  have hlate : ∀ u ∈ l, s.now ≤ s.deadline u + 2147483648 := by
    rw [← h.list.listed_eq]
    rcases hloop with rfl | rfl <;> exact he
  apply h.lt_of_none _ hlate
  have hloop' : ∀ stack, (cmnosTimerHandlerLoop { s with stack := stack }).fired = s.fired →
      due s = none := by
    intro stack hsame
    by_contra hsome
    obtain ⟨t, ht⟩ := Option.ne_none_iff_exists'.mp hsome
    have hserved : TimersServed { s with stack := stack } l :=
      ⟨⟨h.list.chain, h.list.nodup, h.list.expire, h.list.near, h.list.sorted⟩, h.balanced,
        h.punctual⟩
    obtain ⟨_, _, _, hfired, -⟩ := hserved.loop_of_some ht
    rw [hsame] at hfired
    exact List.cons_ne_self _ _ hfired.symm
  rcases hloop with rfl | rfl
  · cases hs
    exact hloop' s.stack hended
  · cases hstack : s.stack with
    | nil => simp [stepTimer, hstack] at hs
    | cons t stack =>
      simp only [stepTimer, hstack, Option.some.injEq] at hs
      subst hs
      exact hloop' stack hended

/-- The searches of the list end. -/
theorem TimersServed.returns (h : TimersServed s l) :
    (∀ t milliseconds, milliseconds * oneMsec < 2147483648 → Timely s (.arm t milliseconds) →
      (stepTimer (.arm t milliseconds) s).isSome) ∧ ∀ t, (stepTimer (.disarm t) s).isSome := by
  constructor
  · intro t milliseconds hticks he
    obtain ⟨ht, hlate⟩ := he
    rw [h.list.listed_eq] at ht hlate
    obtain ⟨ctx, l', harm, -⟩ := h.list.arm ht hticks hlate
    simp [stepTimer, hticks, harm]
  · intro t
    obtain ⟨ctx, hdisarm, -⟩ := h.list.disarm t
    simp [stepTimer, hdisarm]

/-- In time, the list is acyclic and sorted in wrap-around order, and holds every arming that
neither fired nor was taken back exactly once; no timer fires early; arming and disarming end; the
handler leaves no timer whose delay has elapsed, and it fires no more timers than were on the list
unless it finds one due that was armed since. -/
theorem timers_fire_once (h : (timerMachine τ).ReachableWhere Timely s) :
    ∃ l, ArmedList s l ∧
      (l.Pairwise fun a b => timerIsEarlier (s.ctx.expire a) (s.ctx.expire b) = true) ∧
      (∀ a, s.armed.count a =
        (s.fired.map Prod.fst).count a + s.disarmed.count a + (l.map s.arming).count a) ∧
      (∀ f ∈ s.fired, f.1.deadline ≤ f.2) ∧
      ((∀ t milliseconds, milliseconds * oneMsec < 2147483648 → Timely s (.arm t milliseconds) →
        (stepTimer (.arm t milliseconds) s).isSome) ∧ ∀ t, (stepTimer (.disarm t) s).isSome) ∧
      (∀ e s', (e = .run ∨ e = .ret) → Timely s e → stepTimer e s = some s' →
        s'.fired = s.fired → ∀ u ∈ l, s.now < s.deadline u) ∧
      ∀ s', (timerMachine τ).StepsWhere
          (fun s₁ e => Timely s₁ e ∧ TimersServed.NoneRearmed s.armed.length s₁ e) s s' →
        s'.fired.length ≤ s.fired.length + l.length := by
  obtain ⟨l, hl⟩ := timers_served h
  exact ⟨l, hl.list, hl.list.earlier, hl.balanced, hl.punctual, hl.returns,
    fun e s' hloop he hs hended => hl.lt_of_ended he hloop hs hended,
    fun s' steps => hl.fired_le steps⟩

/-- No timer armed, shortly before the tick counter wraps around. -/
def freshTimers (τ : Type) : TimerSystem τ where
  ctx := ⟨fun _ => ⟨none, 0, 0, 0⟩, none⟩
  now := 4294900000
  stack := []
  deadline := fun _ => 0
  armed := []
  disarmed := []
  fired := []

theorem freshTimers_init {τ : Type} : (freshTimers τ).Init :=
  ⟨rfl, rfl, rfl, rfl, rfl, fun _ => rfl⟩

/-- Three timers armed across the wrap-around, one of them disarmed, one armed again by its own
function. -/
theorem timers_fire_once_wrapped : ∃ s : TimerSystem (Fin 3),
    s.fired.length = 2 ∧ ∃ l, ArmedList s l ∧ ∀ f ∈ s.fired, f.1.deadline ≤ f.2 := by
  obtain ⟨s, steps, hfired⟩ := Machine.exists_of_runWhere TimerSystem.Init stepTimer Timely
    (P := fun s => s.fired.length = 2) (s := freshTimers (Fin 3))
    [.arm 0 3, .arm 1 1, .arm 2 2, .disarm 2, .tick 50000, .run, .arm 1 5, .ret, .tick 90000, .run,
      .ret] (by decide +kernel)
  obtain ⟨l, hl, -, -, hpunctual, -⟩ := timers_fire_once ⟨_, freshTimers_init, steps⟩
  exact ⟨s, hfired, l, hl, hpunctual⟩

/-- Arming a timer that is on the list links it to itself. -/
theorem arm_armed_cycle :
    ¬ ∀ s, (timerMachine (Fin 1)).Reachable s → ∃ l, Chain s.ctx.next s.ctx.timerList l := by
  intro hall
  obtain ⟨s, steps, hhead, hnext⟩ := Machine.exists_of_runWhere TimerSystem.Init stepTimer
    (fun _ _ => True)
    (P := fun s => s.ctx.timerList = some 0 ∧ s.ctx.next 0 = some 0)
    (s := freshTimers (Fin 1)) [.arm 0 1, .arm 0 2] (by decide +kernel)
  obtain ⟨l, hl⟩ := hall s ⟨_, freshTimers_init, steps⟩
  rw [hhead] at hl
  induction l with
  | nil => cases hl
  | cons a l ih =>
    obtain ⟨ha, hrest⟩ := hl
    obtain rfl : 0 = a := Option.some.inj ha
    rw [hnext] at hrest
    exact ih hrest

end Ath9kHtc.Cmnos
