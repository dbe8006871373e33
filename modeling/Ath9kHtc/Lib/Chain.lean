import Mathlib.Data.List.Chain
import Mathlib.Data.List.Nodup
import Mathlib.Logic.Function.Basic

/-!
# Chains of links

A singly linked chain in a heap, seen as the list of its nodes.
-/

universe u

variable {α : Type u} {next next' : α → Option α} {p : Option α} {l : List α} {n : ℕ}

/-- `l` lists the nodes from `p` to the end of the chain. -/
def Chain (next : α → Option α) : Option α → List α → Prop
  | p, [] => p = none
  | p, a :: l => p = some a ∧ Chain next (next a) l

/-- The nodes that at most `n` steps along the links visit. -/
def walk (next : α → Option α) : ℕ → Option α → List α
  | 0, _ => []
  | _ + 1, none => []
  | n + 1, some a => a :: walk next n (next a)

@[simp] theorem walk_none : walk next n none = [] := by
  cases n <;> rfl

namespace Chain

@[simp] theorem nil_iff : Chain next p [] ↔ p = none := Iff.rfl

@[simp] theorem cons_iff {a : α} : Chain next p (a :: l) ↔ p = some a ∧ Chain next (next a) l :=
  Iff.rfl

theorem walk_eq (h : Chain next p l) (hn : l.length ≤ n) : walk next n p = l := by
  induction l generalizing p n with
  | nil => rw [nil_iff.mp h, walk_none]
  | cons a l ih =>
    obtain ⟨rfl, hl⟩ := h
    cases n with
    | zero => simp at hn
    | succ n => rw [walk, ih hl (Nat.le_of_succ_le_succ hn)]

theorem congr (h : Chain next p l) (hnext : ∀ a ∈ l, next' a = next a) : Chain next' p l := by
  induction l generalizing p with
  | nil => exact h
  | cons a l ih =>
    refine ⟨h.1, ?_⟩
    rw [hnext a List.mem_cons_self]
    exact ih h.2 fun b hb => hnext b (List.mem_cons_of_mem _ hb)

/-- A node of the chain links to the next. -/
theorem next_eq {a : α} {l' : List α} (h : Chain next p (l ++ a :: l')) : next a = l'.head? := by
  induction l generalizing p with
  | nil =>
    obtain ⟨-, hrest⟩ := h
    cases l' with
    | nil => exact hrest
    | cons b l' => exact hrest.1
  | cons b l ih => exact ih h.2

end Chain

theorem walk_congr (h : ∀ a ∈ walk next n p, next' a = next a) :
    walk next' n p = walk next n p := by
  induction n generalizing p with
  | zero => rfl
  | succ n ih =>
    cases p with
    | none => rfl
    | some a =>
      rw [walk, walk, h a List.mem_cons_self]
      congr 1
      exact ih fun b hb => h b (List.mem_cons_of_mem _ hb)

/-- A walk gets no longer where links are cut. -/
theorem length_walk_le (h : ∀ a, next' a = none ∨ next' a = next a) :
    (walk next' n p).length ≤ (walk next n p).length := by
  induction n generalizing p with
  | zero => exact le_rfl
  | succ n ih =>
    cases p with
    | none => exact le_rfl
    | some a =>
      rw [walk, walk, List.length_cons, List.length_cons]
      rcases h a with hcut | hsame
      · rw [hcut, walk_none]
        exact Nat.succ_le_succ (Nat.zero_le _)
      · rw [hsame]
        exact Nat.succ_le_succ ih

/-! ## Chains under construction -/

/-- A stack to which nodes are pushed one after the other. -/
theorem Chain.foldl_push {σ : Type*} (links : σ → α → Option α) (head : σ → Option α)
    {push : σ → α → σ} (hhead : ∀ s a, head (push s a) = some a)
    (hself : ∀ s a, links (push s a) a = head s)
    (hother : ∀ s a c, c ≠ a → links (push s a) c = links s c) {s : σ} {stack : List α}
    (h : Chain (links s) (head s) stack) (hd : (l.reverse ++ stack).Nodup) :
    Chain (links (l.foldl push s)) (head (l.foldl push s)) (l.reverse ++ stack) := by
  induction l generalizing s stack with
  | nil => exact h
  | cons a l ih =>
    rw [List.reverse_cons, List.append_assoc, List.singleton_append] at hd ⊢
    have ha : a ∉ stack := (List.nodup_cons.mp (List.nodup_append.mp hd).2.1).1
    apply ih _ hd
    refine ⟨hhead s a, ?_⟩
    rw [hself]
    apply h.congr
    intro c hc
    exact hother s a c (ne_of_mem_of_not_mem hc ha)

/-- Every node of the list but the last links to the next. -/
def Linked (next : α → Option α) (l : List α) : Prop := l.IsChain fun a b => next a = some b

namespace Linked

variable {a b : α}

theorem nil : Linked next [] := List.isChain_nil

theorem singleton (a : α) : Linked next [a] := List.isChain_singleton a

/-- A node is added by linking the last one to it. -/
theorem snoc (h : Linked next (l ++ [a])) (hlink : next' a = some b)
    (hnext : ∀ c ∈ l, next' c = next c) : Linked next' (l ++ [a] ++ [b]) := by
  induction l with
  | nil => exact List.isChain_pair.mpr hlink
  | cons c l ih =>
    obtain ⟨hhead, htail⟩ := List.isChain_cons.mp h
    refine List.isChain_cons.mpr ⟨fun y hy => ?_, ?_⟩
    · rw [hnext c List.mem_cons_self]
      apply hhead y
      cases l <;> exact hy
    · exact ih htail fun d hd => hnext d (List.mem_cons_of_mem _ hd)

/-- A node is added by a write to the link of the last one alone. -/
theorem snoc_last [DecidableEq α] (h : Linked next l) (hd : l.Nodup)
    (hnext : ∀ c ∈ l, next' c = if l.getLast? = some c then some b else next c) :
    Linked next' (l ++ [b]) := by
  rcases List.eq_nil_or_concat l with rfl | ⟨init, a, rfl⟩
  · exact .singleton b
  · rw [List.concat_eq_append] at *
    rw [List.getLast?_concat] at hnext
    apply h.snoc
    · rw [hnext a (by simp), if_pos rfl]
    · intro c hc
      have hne : a ≠ c := by
        rintro rfl
        exact (List.nodup_append.mp hd).2.2 a hc a List.mem_cons_self rfl
      rw [hnext c (List.mem_append_left _ hc), if_neg fun h => hne (Option.some.inj h)]

theorem congr (h : Linked next l) (hnext : ∀ c ∈ l, next' c = next c) : Linked next' l := by
  induction l with
  | nil => exact .nil
  | cons c l ih =>
    obtain ⟨hhead, htail⟩ := List.isChain_cons.mp h
    refine List.isChain_cons.mpr ⟨?_, ih htail fun d hd => hnext d (List.mem_cons_of_mem _ hd)⟩
    rw [hnext c List.mem_cons_self]
    exact hhead

/-- Another node takes the place of the first. -/
theorem replace_head (h : Linked next (a :: (l ++ [b]))) {c : α} (hlink : next' c = next a)
    (hnext : ∀ d ∈ l, next' d = next d) : Linked next' (c :: (l ++ [b])) := by
  obtain ⟨hhead, htail⟩ := List.isChain_cons.mp h
  refine List.isChain_cons.mpr ⟨hlink ▸ hhead, ?_⟩
  clear hhead h
  induction l with
  | nil => exact .singleton b
  | cons d l ih =>
    obtain ⟨hd, hrest⟩ := List.isChain_cons.mp htail
    refine List.isChain_cons.mpr ⟨?_, ih (fun e he => hnext e (List.mem_cons_of_mem _ he)) hrest⟩
    rw [hnext d List.mem_cons_self]
    exact hd

/-- A list ending where another begins. -/
theorem append {l' : List α} (h : Linked next (l ++ [a])) (h' : Linked next (a :: l')) :
    Linked next (l ++ a :: l') := by
  have hjoined := List.IsChain.append_overlap h h' (List.cons_ne_nil a [])
  rwa [List.append_assoc] at hjoined

theorem left {l' : List α} (h : Linked next (l ++ l')) : Linked next l :=
  (List.isChain_append.mp h).1

theorem right {l' : List α} (h : Linked next (l ++ l')) : Linked next l' :=
  (List.isChain_append.mp h).2.1

/-- The last node of a part links to the first of what follows. -/
theorem next_getLast {l' : List α} (h : Linked next (l ++ l')) (ha : l.getLast? = some a)
    (hb : l'.head? = some b) : next a = some b :=
  (List.isChain_append.mp h).2.2 a ha b hb

/-- The list is a chain once its last node links to none. -/
theorem chain (h : Linked next (l ++ [a])) (hend : next' a = none)
    (hnext : ∀ c ∈ l, next' c = next c) : Chain next' (l ++ [a]).head? (l ++ [a]) := by
  induction l with
  | nil => exact ⟨rfl, hend⟩
  | cons c l ih =>
    obtain ⟨hhead, htail⟩ := List.isChain_cons.mp h
    refine ⟨rfl, ?_⟩
    have hlink : next' c = (l ++ [a]).head? := by
      rw [hnext c List.mem_cons_self]
      cases l <;> exact hhead _ rfl
    rw [hlink]
    exact ih htail fun d hd => hnext d (List.mem_cons_of_mem _ hd)

end Linked

/-! ## Loops along a chain -/

/-- The nodes visited by a loop that ends with the first node that meets `stop`; it is `none`
where the loop runs off the chain, or over more than `n` nodes. -/
def walkUntil (next : α → Option α) (stop : α → Bool) : ℕ → α → Option (List α)
  | 0, _ => none
  | n + 1, a =>
    if stop a then some [a]
    else (next a).bind fun b => (walkUntil next stop n b).map (a :: ·)

/-- The nodes visited by a loop that ends with the chain or with the first node that meets
`stop`; it is `none` where the loop runs over more than `n` nodes. -/
def walkUpTo (next : α → Option α) (stop : α → Bool) : ℕ → Option α → Option (List α)
  | _, none => some []
  | 0, some _ => none
  | n + 1, some a =>
    if stop a then some [a] else (walkUpTo next stop n (next a)).map (a :: ·)

section

variable {stop : α → Bool} {a b : α}

theorem Chain.walkUpTo_eq (h : Chain next p l) (hn : l.length ≤ n) :
    walkUpTo next (fun _ => false) n p = some l := by
  induction l generalizing p n with
  | nil =>
    rw [nil_iff.mp h]
    cases n <;> rfl
  | cons a l ih =>
    obtain ⟨rfl, hl⟩ := h
    cases n with
    | zero => simp at hn
    | succ n => simp [walkUpTo, ih hl (Nat.le_of_succ_le_succ hn)]

theorem walkUpTo_length_le (h : walkUpTo next stop n p = some l) : l.length ≤ n := by
  induction n generalizing p l with
  | zero =>
    cases p with
    | none =>
      obtain rfl := Option.some.inj h
      exact le_rfl
    | some a => cases h
  | succ n ih =>
    cases p with
    | none =>
      obtain rfl := Option.some.inj h
      exact Nat.zero_le _
    | some a =>
      rw [walkUpTo] at h
      split at h
      · obtain rfl := Option.some.inj h
        simp
      · obtain ⟨l', hl', rfl⟩ := Option.map_eq_some_iff.mp h
        exact Nat.succ_le_succ (ih hl')

/-- In a list without duplicates only the last node is the last one. -/
theorem stop_tail (hd : (a :: b :: l).Nodup)
    (hstop : ∀ c ∈ a :: b :: l, stop c = true ↔ (a :: b :: l).getLast? = some c) :
    stop a = false ∧ ∀ c ∈ b :: l, stop c = true ↔ (b :: l).getLast? = some c := by
  constructor
  · apply Bool.eq_false_iff.mpr
    intro ha
    have hlast := (hstop a List.mem_cons_self).mp ha
    rw [List.getLast?_cons_cons] at hlast
    exact (List.nodup_cons.mp hd).1 (List.mem_of_getLast? hlast)
  · intro c hc
    rw [hstop c (List.mem_cons_of_mem _ hc), List.getLast?_cons_cons]

theorem Linked.walkUntil_eq (h : Linked next l) (hp : l.head? = some a) (hd : l.Nodup)
    (hstop : ∀ c ∈ l, stop c = true ↔ l.getLast? = some c) (hn : l.length ≤ n) :
    walkUntil next stop n a = some l := by
  induction l generalizing a n with
  | nil => cases hp
  | cons x l ih =>
    obtain rfl : x = a := Option.some.inj hp
    cases n with
    | zero => simp at hn
    | succ n =>
      cases l with
      | nil => simp [walkUntil, (hstop x List.mem_cons_self).mpr rfl]
      | cons b l =>
        obtain ⟨hx, htail⟩ := stop_tail hd hstop
        obtain ⟨hlink, hl⟩ := List.isChain_cons_cons.mp h
        have hrest := ih hl rfl (List.nodup_cons.mp hd).2 htail (Nat.le_of_succ_le_succ hn)
        simp [walkUntil, hx, hlink, hrest]

theorem Linked.walkUpTo_eq (h : Linked next l) (hd : l.Nodup)
    (hstop : ∀ c ∈ l, stop c = true ↔ l.getLast? = some c) (hn : l.length ≤ n) :
    walkUpTo next stop n l.head? = some l := by
  induction l generalizing n with
  | nil => cases n <;> rfl
  | cons x l ih =>
    cases n with
    | zero => simp at hn
    | succ n =>
      cases l with
      | nil => simp [walkUpTo, (hstop x List.mem_cons_self).mpr rfl]
      | cons b l =>
        obtain ⟨hx, htail⟩ := stop_tail hd hstop
        obtain ⟨hlink, hl⟩ := List.isChain_cons_cons.mp h
        have hrest := ih hl (List.nodup_cons.mp hd).2 htail (Nat.le_of_succ_le_succ hn)
        rw [List.head?_cons] at hrest
        simp [walkUpTo, hx, hlink, hrest]

end

/-! ## Cells written by a loop -/

universe v w

variable {β : Type v} {γ : Type w} [DecidableEq α] {h : α → β} {x : α}

/-- One write to every cell of a list. -/
def writeAll (body : α → β → β) : List α → (α → β) → α → β
  | [], h => h
  | a :: l, h => writeAll body l (Function.update h a (body a (h a)))

theorem writeAll_of_notMem {body : α → β → β} (hx : x ∉ l) : writeAll body l h x = h x := by
  induction l generalizing h with
  | nil => rfl
  | cons a l ih =>
    obtain ⟨hne, hx⟩ := not_or.mp (List.mem_cons.not.mp hx)
    rw [writeAll, ih hx, Function.update_of_ne hne]

theorem writeAll_of_mem {body : α → β → β} (hd : l.Nodup) (hx : x ∈ l) :
    writeAll body l h x = body x (h x) := by
  induction l generalizing h with
  | nil => cases hx
  | cons a l ih =>
    obtain ⟨ha, hl⟩ := List.nodup_cons.mp hd
    rw [writeAll]
    rcases List.mem_cons.mp hx with rfl | hmem
    · rw [writeAll_of_notMem ha, Function.update_self]
    · have hne : x ≠ a := fun h => ha (h ▸ hmem)
      rw [ih hl hmem, Function.update_of_ne hne]

/-- One write to every cell of a list, and a link to it from the cell before. -/
def thread (setNext : Option α → β → β) (body : α → β → β) : Option α → List α → (α → β) → α → β
  | _, [], h => h
  | none, a :: l, h => thread setNext body (some a) l (Function.update h a (body a (h a)))
  | some p, a :: l, h =>
    let h := Function.update h a (body a (h a))
    thread setNext body (some a) l (Function.update h p (setNext (some a) (h p)))

section

variable {setNext : Option α → β → β} {body : α → β → β} {prev : Option α}

theorem thread_of_notMem (hx : x ∉ l) (hprev : prev ≠ some x) :
    thread setNext body prev l h x = h x := by
  induction l generalizing prev h with
  | nil => cases prev <;> rfl
  | cons a l ih =>
    obtain ⟨hne, hx⟩ := not_or.mp (List.mem_cons.not.mp hx)
    have hnext : some a ≠ some x := fun h => hne (Option.some.inj h).symm
    cases prev with
    | none => rw [thread, ih hx hnext, Function.update_of_ne hne]
    | some p =>
      have hp : x ≠ p := fun h => hprev (h ▸ rfl)
      rw [thread, ih hx hnext, Function.update_of_ne hp, Function.update_of_ne hne]

/-- What the links leave alone is what the writes made of it. -/
theorem thread_field {f : β → γ} (hf : ∀ n b, f (setNext n b) = f b) (hd : l.Nodup)
    (hprev : ∀ p ∈ prev, p ∉ l) :
    f (thread setNext body prev l h x) = if x ∈ l then f (body x (h x)) else f (h x) := by
  induction l generalizing prev h with
  | nil => cases prev <;> rfl
  | cons a l ih =>
    obtain ⟨ha, hl⟩ := List.nodup_cons.mp hd
    have hnext : ∀ p ∈ some a, p ∉ l := fun p hp => Option.some.inj hp ▸ ha
    have hcell : ∀ h' : α → β, (∀ y, f (h' y) = f (Function.update h a (body a (h a)) y)) →
        (∀ y ∈ l, h' y = h y) →
        f (thread setNext body (some a) l h' x) =
          if x ∈ a :: l then f (body x (h x)) else f (h x) := by
      intro h' hsame hrest
      rw [ih hl hnext]
      by_cases hx : x ∈ l
      · rw [if_pos hx, if_pos (List.mem_cons_of_mem _ hx), hrest x hx]
      · rw [if_neg hx, hsame]
        by_cases hxa : x = a
        · subst hxa
          simp
        · simp [hx, hxa]
    have hkept : ∀ y ∈ l, Function.update h a (body a (h a)) y = h y := by
      intro y hy
      apply Function.update_of_ne
      rintro rfl
      exact ha hy
    cases prev with
    | none => exact hcell _ (fun _ => rfl) hkept
    | some p =>
      have hp := not_or.mp (List.mem_cons.not.mp (hprev p rfl))
      apply hcell
      · intro y
        by_cases hy : y = p
        · subst hy
          rw [Function.update_self, hf]
        · rw [Function.update_of_ne hy]
      · intro y hy
        have hne : y ≠ p := fun he => hp.2 (he ▸ hy)
        rw [Function.update_of_ne hne, hkept y hy]

/-- The cells end up linked in the order of the list. -/
theorem thread_linked {field : β → Option α} (hset : ∀ n b, field (setNext n b) = n)
    (hd : (prev.toList ++ l).Nodup) :
    Linked (fun a => field (thread setNext body prev l h a)) (prev.toList ++ l) := by
  induction l generalizing prev h with
  | nil =>
    cases prev with
    | none => exact .nil
    | some p => exact .singleton p
  | cons a l ih =>
    cases prev with
    | none => exact ih hd
    | some p =>
      obtain ⟨hp, hal⟩ := List.nodup_cons.mp hd
      refine List.isChain_cons_cons.mpr ⟨?_, ih hal⟩
      obtain ⟨hpa, hpl⟩ := not_or.mp (List.mem_cons.not.mp hp)
      have hlast : some a ≠ some p := fun h => hpa (Option.some.inj h).symm
      simp only [thread]
      rw [thread_of_notMem hpl hlast, Function.update_self, hset]

/-- The loop that starts without a cell before the first. -/
theorem thread_all {field : β → Option α} (hset : ∀ n b, field (setNext n b) = n) (hd : l.Nodup) :
    Linked (fun a => field (thread setNext body none l h a)) l := by
  have hnone : ((none : Option α).toList ++ l).Nodup := hd
  exact thread_linked hset hnone

theorem thread_all_field {f : β → γ} (hf : ∀ n b, f (setNext n b) = f b) (hd : l.Nodup)
    (hx : x ∈ l) : f (thread setNext body none l h x) = f (body x (h x)) := by
  have hnone : ∀ p ∈ (none : Option α), p ∉ l := by simp
  rw [thread_field hf hd hnone, if_pos hx]

end
