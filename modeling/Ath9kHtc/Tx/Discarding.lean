import Ath9kHtc.Tx.Cleanup
import Ath9kHtc.Tx.System

/-!
# What a cleanup removes

`ath_tgt_tx_cleanup` looks at one frame of `buf_q` after the other, and takes the first frame off
the queue for each one it selects.
-/

namespace Ath9kHtc.Tx

variable {s s' s₁ : TxState} {k : TidId} {discardAll : Bool} {bf tmp : BufId}
  {gone kept rest : List BufId}

/-! ## Lists of which one part comes first -/

section

universe u

variable {α : Type u} {p : α → Bool} {l l₁ l₂ : List α}

/-- Those that meet `p` come first. -/
theorem pairwise_of_append (h₁ : ∀ a ∈ l₁, p a) (h₂ : ∀ a ∈ l₂, ¬ p a) :
    (l₁ ++ l₂).Pairwise fun a b => p b → p a := by
  apply List.pairwise_append.mpr
  refine ⟨?_, ?_, ?_⟩
  · apply List.Pairwise.imp_of_mem _ (List.pairwise_of_forall fun _ _ => trivial)
    intro a _ ha _ _ _
    exact h₁ a ha
  · apply List.Pairwise.imp_of_mem _ (List.pairwise_of_forall fun _ _ => trivial)
    intro _ b _ hb _ hpb
    exact absurd hpb (h₂ b hb)
  · intro a ha _ _ _
    exact h₁ a ha

theorem exists_append_of_pairwise (h : l.Pairwise fun a b => p b → p a) :
    ∃ l₁ l₂, l = l₁ ++ l₂ ∧ (∀ a ∈ l₁, p a) ∧ ∀ a ∈ l₂, ¬ p a := by
  induction l with
  | nil => exact ⟨[], [], rfl, by simp, by simp⟩
  | cons a l ih =>
    obtain ⟨hhead, htail⟩ := List.pairwise_cons.mp h
    by_cases ha : p a = true
    · obtain ⟨l₁, l₂, rfl, h₁, h₂⟩ := ih htail
      exact ⟨a :: l₁, l₂, rfl, List.forall_mem_cons.mpr ⟨ha, h₁⟩, h₂⟩
    · refine ⟨[], a :: l, rfl, by simp, List.forall_mem_cons.mpr ⟨ha, ?_⟩⟩
      exact fun b hb hpb => ha (hhead b hb hpb)

theorem filter_append_of (h₁ : ∀ a ∈ l₁, p a) (h₂ : ∀ a ∈ l₂, ¬ p a) :
    (l₁ ++ l₂).filter p = l₁ ∧ (l₁ ++ l₂).filter (fun a => !p a) = l₂ := by
  rw [List.filter_append, List.filter_append]
  constructor
  · rw [List.filter_eq_self.mpr h₁, List.filter_eq_nil_iff.mpr h₂, List.append_nil]
  · have hnone : l₁.filter (fun a => !p a) = [] := by
      apply List.filter_eq_nil_iff.mpr
      intro a ha
      simp [h₁ a ha]
    have hall : l₂.filter (fun a => !p a) = l₂ := by
      apply List.filter_eq_self.mpr
      intro a ha
      simp [h₂ a ha]
    rw [hnone, hall, List.nil_append]

/-- Where as many are dropped as meet `p` and none that meets it is left, they came first. -/
theorem pairwise_of_drop (h : l.drop (l.countP p) = l.filter fun a => !p a) :
    l.Pairwise fun a b => p b → p a := by
  have hdrop : ∀ a ∈ l.drop (l.countP p), ¬ p a := by
    intro a ha
    rw [h] at ha
    simpa using (List.mem_filter.mp ha).2
  have hcount : (l.take (l.countP p)).countP p = l.countP p := by
    have hsplit : l.countP p = (l.take (l.countP p) ++ l.drop (l.countP p)).countP p := by
      rw [List.take_append_drop]
    rw [List.countP_append, List.countP_eq_zero.mpr hdrop, Nat.add_zero] at hsplit
    exact hsplit.symm
  have htake : ∀ a ∈ l.take (l.countP p), p a := by
    apply List.countP_eq_length.mp
    rw [hcount, List.length_take, Nat.min_eq_left List.countP_le_length]
  have hpair := pairwise_of_append htake hdrop
  rwa [List.take_append_drop] at hpair

end

/-! ## A frame that is freed -/

/-- The host buffers of a frame. -/
def returnsOf (b : TxBuf) : List Output := b.bfSkbhead.map (Output.returnBuffers b.bfEndpt)

/-- The free buffers, the held one last. -/
def TxState.spare (s : TxState) : List BufId := s.scTxbuf ++ s.scTxbufHeld.toList

/-- The state after the buffer `bf` was freed in exchange for `tmp`. -/
structure Freed (bf tmp : BufId) (s s' : TxState) : Prop where
  tid : s'.tid = s.tid
  buf : ∀ b, b ≠ bf → b ≠ tmp → s'.buf b = s.buf b
  held : s'.scTxbufHeld = some bf
  spare : s'.spare = s.spare ++ [bf]
  out : s'.out = (returnsOf (s.buf bf)).reverse ++ s.out

theorem athTxFreebuf_freed (hheld : s.scTxbufHeld = some tmp) :
    ∃ s', athTxFreebuf s bf = some s' ∧ Freed bf tmp s s' := by
  set s₀ := (athTgtSkbFree s bf).modBuf bf fun b =>
    { b with bfSkb := none, bfComp := none, bfNode := none, bfNext := none } with hs₀
  have htoggle : athBufToggle s₀ bf false = some (tmp, { s₀ with scTxbufHeld := some bf }) := by
    have hheld₀ : s₀.scTxbufHeld = some tmp := hheld
    rw [athBufToggle, hheld₀]
    rfl
  have hfree : athTxFreebuf s bf = some (scTxbufInsertTail
      (({ s₀ with scTxbufHeld := some bf } : TxState).modBuf tmp fun b =>
        { b with bfRetries := 0, bfIsretried := false }) tmp) := by
    rw [athTxFreebuf, ← hs₀]
    dsimp only
    rw [htoggle]
    rfl
  refine ⟨_, hfree, rfl, ?_, rfl, ?_, rfl⟩
  · intro b hbf htmp
    simp only [scTxbufInsertTail, TxState.modBuf, TxState.setBuf, hs₀, athTgtSkbFree]
    rw [Function.update_of_ne htmp, Function.update_of_ne hbf, Function.update_of_ne hbf]
  · simp only [TxState.spare, hheld]
    rfl

/-! ## The walk over the queue -/

/-- The frames a cleanup selects. -/
def selected (s : TxState) (discardAll : Bool) (b : BufId) : Bool :=
  discardAll || (s.buf b).bfIsretried

/-- The state after the frames `gone` at the head of the queue were freed. -/
structure Purged (k : TidId) (gone : List BufId) (s s' : TxState) : Prop where
  tid : s'.tid k = (s.tid k).discarded (gone.map s.buf)
  others : ∀ k', k' ≠ k → s'.tid k' = s.tid k'
  buf : ∀ b, b ∉ gone → s.scTxbufHeld ≠ some b → s'.buf b = s.buf b
  held : s'.scTxbufHeld.isSome
  heldIn : ∀ b ∈ s'.scTxbufHeld, b ∈ gone ∨ s.scTxbufHeld = some b
  spare : s'.spare = s.spare ++ gone
  out : s'.out = (gone.flatMap fun b => returnsOf (s.buf b)).reverse ++ s.out

/-- One frame that is selected: the first of the queue goes. -/
theorem cleanupBufQ_select {first : BufId} {q : List BufId} (hq : (s.tid k).bufQ = first :: q)
    (hsel : selected s discardAll bf = true) (hheld : s.scTxbufHeld.isSome) :
    ∃ s₁, cleanupBufQ k discardAll (bf :: rest) s = cleanupBufQ k discardAll rest s₁ ∧
      Purged k [first] s s₁ := by
  obtain ⟨tmp, htmp⟩ := Option.isSome_iff_exists.mp hheld
  set s₀ := discardFromBaw (bufQRemoveHead s k) k first with hs₀
  have hsame : s₀ = { s with tid := s₀.tid } := by
    rw [hs₀, discardFromBaw]
    split <;> rfl
  have htid₀ : s₀.tid k = (s.tid k).discarded [s.buf first] ∧
      ∀ k', k' ≠ k → s₀.tid k' = s.tid k' := by
    rw [hs₀, discardFromBaw, bufQRemoveHead]
    split
    · rename_i hret
      have hret : (s.buf first).bfIsretried = true := hret
      constructor
      · rw [modTid_modTid, TxState.modTid_tid_self, Tid.discarded, Tid.discarded, if_pos hret]
        rfl
      · intro k' hne
        exact (Function.update_of_ne hne ..).trans (Function.update_of_ne hne ..)
    · rename_i hret
      have hret : ¬ (s.buf first).bfIsretried = true := hret
      constructor
      · rw [TxState.modTid_tid_self, Tid.discarded, Tid.discarded, if_neg hret]
      · intro k' hne
        exact Function.update_of_ne hne ..
  have hheld₀ : s₀.scTxbufHeld = some tmp := by
    rw [hsame]
    exact htmp
  obtain ⟨s₁, hfree : athTxFreebuf s₀ first = some s₁, hfreed⟩ := athTxFreebuf_freed hheld₀
  have hsel' : discardAll = true ∨ (s.buf bf).bfIsretried = true := by
    rwa [selected, Bool.or_eq_true] at hsel
  have hbuf₀ : s₀.buf = s.buf := by rw [hsame]
  refine ⟨s₁, ?_, ?_, ?_, ?_, ?_, ?_, ?_, ?_⟩
  · rw [cleanupBufQ, if_pos hsel', hq]
    dsimp only
    rw [← hs₀, hfree, Option.bind_some]
  · rw [hfreed.tid]
    exact htid₀.1
  · intro k' hne
    rw [hfreed.tid]
    exact htid₀.2 k' hne
  · intro b hb hne
    rw [List.mem_singleton] at hb
    rw [hfreed.buf b hb fun h => hne (h ▸ htmp), hbuf₀]
  · rw [hfreed.held]
    rfl
  · intro b hb
    rw [hfreed.held] at hb
    exact .inl (List.mem_singleton.mpr (Option.some.inj hb).symm)
  · have hspare₀ : s₀.spare = s.spare := by rw [hsame]; rfl
    rw [hfreed.spare, hspare₀]
  · have hout₀ : s₀.out = s.out := by rw [hsame]
    rw [hfreed.out, hbuf₀, hout₀, List.flatMap_singleton]

theorem discarded_append (tid : Tid) (bufs bufs' : List TxBuf) :
    tid.discarded (bufs ++ bufs') = (tid.discarded bufs).discarded bufs' := by
  induction bufs generalizing tid with
  | nil => rfl
  | cons b bufs ih => exact ih _

theorem Purged.cons {first : BufId} {s₂ : TxState} (h : Purged k [first] s s₁)
    (h' : Purged k gone s₁ s₂) (hnot : first ∉ gone) (hheld : ∀ b ∈ gone, s.scTxbufHeld ≠ some b) :
    Purged k (first :: gone) s s₂ := by
  have hbuf : ∀ b ∈ gone, s₁.buf b = s.buf b := by
    intro b hb
    apply h.buf b _ (hheld b hb)
    rw [List.mem_singleton]
    rintro rfl
    exact hnot hb
  constructor
  · rw [h'.tid, h.tid, List.map_congr_left hbuf]
    rfl
  · exact fun k' hne => (h'.others k' hne).trans (h.others k' hne)
  · intro b hb hne
    rw [List.mem_cons, not_or] at hb
    rw [h'.buf b hb.2, h.buf b (by simpa using hb.1) hne]
    intro hin
    rcases h.heldIn b hin with hfirst | hold
    · exact hb.1 (List.mem_singleton.mp hfirst)
    · exact hne hold
  · exact h'.held
  · intro b hb
    rcases h'.heldIn b hb with hgone | hold
    · exact .inl (List.mem_cons_of_mem _ hgone)
    · rcases h.heldIn b hold with hfirst | hold'
      · rw [List.mem_singleton.mp hfirst]
        exact .inl List.mem_cons_self
      · exact .inr hold'
  · rw [h'.spare, h.spare, List.append_assoc, List.singleton_append]
  · have hmap : gone.flatMap (fun b => returnsOf (s₁.buf b)) =
        gone.flatMap fun b => returnsOf (s.buf b) :=
      List.flatMap_congr fun b hb => by rw [hbuf b hb]
    rw [h'.out, h.out, hmap]
    simp

theorem Purged.nil (hheld : s.scTxbufHeld.isSome) : Purged k [] s s := by
  refine ⟨rfl, fun _ _ => rfl, fun _ _ _ => rfl, hheld, fun _ hb => .inr hb, ?_, rfl⟩
  rw [List.append_nil]

/-- Selected frames at the head of the queue go one after the other. -/
theorem cleanupBufQ_purge (hq : (s.tid k).bufQ = gone ++ kept)
    (hsel : ∀ b ∈ gone, selected s discardAll b = true) (hd : (gone ++ kept).Nodup)
    (hheld : s.scTxbufHeld.isSome) (hout : ∀ b ∈ gone ++ kept, s.scTxbufHeld ≠ some b) :
    ∃ s₁, cleanupBufQ k discardAll (gone ++ kept) s = cleanupBufQ k discardAll kept s₁ ∧
      Purged k gone s s₁ := by
  induction gone generalizing s with
  | nil => exact ⟨s, rfl, .nil hheld⟩
  | cons b gone ih =>
    obtain ⟨hnot, hrest⟩ := List.nodup_cons.mp hd
    obtain ⟨s₁, hrun : cleanupBufQ k discardAll (b :: (gone ++ kept)) s = _, hpurged⟩ :=
      cleanupBufQ_select hq (hsel b List.mem_cons_self) hheld
    have hbuf : ∀ c ∈ gone ++ kept, s₁.buf c = s.buf c := by
      intro c hc
      apply hpurged.buf c _ (hout c (List.mem_cons_of_mem _ hc))
      rw [List.mem_singleton]
      rintro rfl
      exact hnot hc
    have hq₁ : (s₁.tid k).bufQ = gone ++ kept := by
      rw [hpurged.tid, discarded_bufQ, hq]
      rfl
    have hsel₁ : ∀ c ∈ gone, selected s₁ discardAll c = true := by
      intro c hc
      rw [selected, hbuf c (List.mem_append_left _ hc)]
      exact hsel c (List.mem_cons_of_mem _ hc)
    have hout₁ : ∀ c ∈ gone ++ kept, s₁.scTxbufHeld ≠ some c := by
      intro c hc hin
      rcases hpurged.heldIn c hin with hfirst | hold
      · exact hnot (List.mem_singleton.mp hfirst ▸ hc)
      · exact hout c (List.mem_cons_of_mem _ hc) hold
    obtain ⟨s₂, hrun₂, hpurged₂⟩ := ih hq₁ hsel₁ hrest hpurged.held hout₁
    refine ⟨s₂, hrun.trans hrun₂, hpurged.cons hpurged₂ ?_ ?_⟩
    · exact fun hb => hnot (List.mem_append_left _ hb)
    · intro c hc
      exact hout c (List.mem_cons_of_mem _ (List.mem_append_left _ hc))

/-- The frames that stay are completed as others from now on. -/
def keepFrames (s : TxState) (kept : List BufId) : TxState :=
  { s with buf := fun b => if b ∈ kept then { s.buf b with bfComp := some .normal } else s.buf b }

theorem cleanupBufQ_keep (hsel : ∀ b ∈ kept, ¬ selected s discardAll b = true) :
    cleanupBufQ k discardAll kept s = some (keepFrames s kept) := by
  induction kept generalizing s with
  | nil =>
    rw [cleanupBufQ]
    rfl
  | cons b kept ih =>
    have hb : ¬ (discardAll = true ∨ (s.buf b).bfIsretried = true) := by
      have hnot := hsel b List.mem_cons_self
      rwa [selected, Bool.or_eq_true] at hnot
    have hsame : ∀ c, selected (s.modBuf b fun b => { b with bfComp := some .normal }) discardAll c =
        selected s discardAll c := by
      intro c
      rw [selected, selected, TxState.modBuf, TxState.setBuf]
      dsimp only
      by_cases hc : c = b
      · rw [hc, Function.update_self]
      · rw [Function.update_of_ne hc]
    rw [cleanupBufQ, if_neg hb, ih]
    · simp only [keepFrames, TxState.modBuf, TxState.setBuf]
      congr 2
      funext c
      by_cases hc : c = b
      · rw [hc, Function.update_self]
        simp
      · simp [hc]
    · intro c hc
      rw [hsame]
      exact hsel c (List.mem_cons_of_mem _ hc)

/-- Whatever was selected, as many frames are gone from the head of the queue. -/
theorem cleanupBufQ_bufQ (hsuffix : rest <:+ (s.tid k).bufQ) (hd : (s.tid k).bufQ.Nodup)
    (hheld : s.scTxbufHeld.isSome) (hout : ∀ b ∈ (s.tid k).bufQ, s.scTxbufHeld ≠ some b) :
    ∃ s', cleanupBufQ k discardAll rest s = some s' ∧
      (s'.tid k).bufQ = (s.tid k).bufQ.drop (rest.countP (selected s discardAll)) := by
  induction rest generalizing s with
  | nil => exact ⟨s, rfl, rfl⟩
  | cons b rest ih =>
    by_cases hsel : selected s discardAll b = true
    · obtain ⟨first, q, hq⟩ : ∃ first q, (s.tid k).bufQ = first :: q := by
        apply List.exists_cons_of_ne_nil
        intro hnil
        rw [hnil] at hsuffix
        exact List.cons_ne_nil _ _ (List.suffix_nil.mp hsuffix)
      rw [hq] at hsuffix hd hout
      obtain ⟨hnot, hdq⟩ := List.nodup_cons.mp hd
      have hrest : rest <:+ q := by
        rcases List.suffix_cons_iff.mp hsuffix with heq | hsuf
        · rw [(List.cons.inj heq).2]
        · exact (List.suffix_cons b rest).trans hsuf
      obtain ⟨s₁, hrun : cleanupBufQ k discardAll (b :: rest) s = _, hpurged⟩ :=
        cleanupBufQ_select hq hsel hheld
      have hq₁ : (s₁.tid k).bufQ = q := by
        rw [hpurged.tid, discarded_bufQ, hq]
        rfl
      have hbuf : ∀ c ∈ q, s₁.buf c = s.buf c := by
        intro c hc
        apply hpurged.buf c _ (hout c (List.mem_cons_of_mem _ hc))
        rw [List.mem_singleton]
        rintro rfl
        exact hnot hc
      have hcount : rest.countP (selected s₁ discardAll) = rest.countP (selected s discardAll) := by
        apply List.countP_congr
        intro c hc
        rw [selected, selected, hbuf c (hrest.subset hc)]
      have hout₁ : ∀ c ∈ (s₁.tid k).bufQ, s₁.scTxbufHeld ≠ some c := by
        intro c hc hin
        rw [hq₁] at hc
        rcases hpurged.heldIn c hin with hfirst | hold
        · exact hnot (List.mem_singleton.mp hfirst ▸ hc)
        · exact hout c (List.mem_cons_of_mem _ hc) hold
      obtain ⟨s', hrun', hq'⟩ := ih (hq₁ ▸ hrest) (hq₁ ▸ hdq) hpurged.held hout₁
      refine ⟨s', hrun.trans hrun', ?_⟩
      rw [hq', hq₁, hcount, hq, List.countP_cons_of_pos hsel, List.drop_succ_cons]
    · have hb : ¬ (discardAll = true ∨ (s.buf b).bfIsretried = true) := by
        rwa [selected, Bool.or_eq_true] at hsel
      set s₁ := s.modBuf b fun b => { b with bfComp := some .normal } with hs₁
      have hsame : selected s₁ discardAll = selected s discardAll := by
        funext c
        rw [selected, selected, hs₁, TxState.modBuf, TxState.setBuf]
        dsimp only
        by_cases hc : c = b
        · rw [hc, Function.update_self]
        · rw [Function.update_of_ne hc]
      have hsuf : rest <:+ (s₁.tid k).bufQ := (List.suffix_cons b rest).trans hsuffix
      obtain ⟨s', hrun', hq'⟩ := ih hsuf hd hheld hout
      refine ⟨s', ?_, ?_⟩
      · rw [cleanupBufQ, if_neg hb]
        exact hrun'
      · rw [hq', hsame, List.countP_cons_of_neg hsel]
        rfl

/-! ## The window -/

/-- The numbers of the frames sent before. -/
def retriedNumbers (fs : List Frame) : Multiset ℕ :=
  ((fs.filter Frame.retried).map Frame.seq : List ℕ)

/-- A window whose marks are those of the numbers `W`, and no other marks on the ring. -/
structure Exact (w : SlidingWindow) (W : Multiset ℕ) : Prop where
  valid : w.Valid 4096 128
  holds : w.Holds 4096 128 W
  owned : w.Owned 4096 128 W
  clear : w.Clear 128

theorem Exact.discard {w : SlidingWindow} {W : Multiset ℕ} {fs : List Frame}
    (h : Exact w (retriedNumbers fs + W)) : Exact (Session.discard w fs) W ∧
      ((Session.discard w fs).start + (Session.discard w fs).size 128) % 4096 =
        (w.start + w.size 128) % 4096 := by
  induction fs generalizing w with
  | nil =>
    rw [retriedNumbers, List.filter_nil, List.map_nil, Multiset.coe_nil, zero_add] at h
    exact ⟨h, rfl⟩
  | cons f fs ih =>
    rw [Session.discard]
    by_cases hf : f.retried = true
    · have hnumbers : retriedNumbers (f :: fs) + W = f.seq ::ₘ (retriedNumbers fs + W) := by
        rw [retriedNumbers, List.filter_cons_of_pos hf, List.map_cons, ← Multiset.cons_coe,
          Multiset.cons_add]
        rfl
      rw [hnumbers] at h
      have hwithin := h.holds.within f.seq (Multiset.mem_cons_self ..)
      have hoffset : w.offset 4096 f.seq < 128 := hwithin.trans h.valid.size_lt
      have hretired : Exact (w.retire 4096 128 f.seq) (retriedNumbers fs + W) :=
        ⟨h.valid.valid_retire _, h.holds.retire h.valid, h.owned.retire h.holds h.valid,
          h.clear.retire h.valid hoffset⟩
      obtain ⟨hexact, hend⟩ := ih hretired
      rw [if_pos hf]
      exact ⟨hexact, hend.trans (h.valid.end_retire _)⟩
    · have hnumbers : retriedNumbers (f :: fs) = retriedNumbers fs := by
        rw [retriedNumbers, List.filter_cons_of_neg hf]
        rfl
      rw [hnumbers] at h
      rw [if_neg hf]
      exact ih h

/-- The window is flushed: its numbers are counted and no mark is left. -/
theorem Exact.flush {w : SlidingWindow} {W : Multiset ℕ} (h : Exact w W) :
    ∃ w', w.flush 4096 128 128 = (W.card, w') ∧ w'.head = w'.tail ∧
      (∀ i < 128, w'.mark i = false) ∧ w'.start = (w.start + w.size 128) % 4096 := by
  have hsize : w.size 128 ≤ 128 := h.valid.size_lt.le
  obtain ⟨w', heq, hvalid, hstart, hhead, htail, -⟩ := h.valid.flush hsize
  have hclear := h.clear.flush h.valid hsize
  rw [heq] at hclear
  rw [h.holds.count_eq_card h.owned h.valid] at heq
  refine ⟨w', heq, hhead.trans htail.symm, ?_, hstart⟩
  intro i hi
  have hslot := hclear (fwd 128 w'.head i) (fwd_lt (by decide))
  rwa [SlidingWindow.slot, add_fwd hvalid.head_lt hi] at hslot

/-! ## The cleanup -/

/-- The frames of `buf_q` that were sent before are in the window, and no bit lies outside it. -/
structure InOrder (s : TxState) (k : TidId) : Prop where
  valid : (s.tid k).window.Valid 4096 128
  clear : (s.tid k).window.Clear 128
  queued : (s.tid k).window.Holds 4096 128
    (retriedNumbers (((s.tid k).bufQ.map s.buf).map frameOf))
  nodup : (s.tid k).bufQ.Nodup
  held : s.scTxbufHeld.isSome
  heldOut : ∀ b ∈ (s.tid k).bufQ, s.scTxbufHeld ≠ some b

/-- The numbers of the window whose frames are not in `buf_q`. -/
def awayNumbers (s : TxState) (k : TidId) : Multiset ℕ :=
  (s.tid k).window.numbers 4096 128 - retriedNumbers (((s.tid k).bufQ.map s.buf).map frameOf)

/-- `ath_tgt_tx_cleanup` up to the point where it lets the TID go on. -/
def cleanupTid (s : TxState) (k : TidId) (discardAll : Bool) : Option TxState :=
  (cleanupBufQ k discardAll (s.tid k).bufQ s).map fun s =>
    (athAggrPauseTid s k).modTid k (cleanupBaw athTidMaxBufs)

theorem athTgtTxCleanup_resume : athTgtTxCleanup s k discardAll =
    (cleanupTid s k discardAll).bind fun s =>
      if (s.tid k).cleanupInprogres then some s else athAggrResumeTid s k := by
  rw [athTgtTxCleanup, cleanupTid, Option.bind_map]
  rfl

/-- What a cleanup is to do. -/
structure CleanedUp (k : TidId) (discardAll : Bool) (s s' : TxState) : Prop where
  queue : (s'.tid k).bufQ = (s.tid k).bufQ.filter fun b => !selected s discardAll b
  freed : s'.spare = s.spare ++ (s.tid k).bufQ.filter (selected s discardAll)
  returned : s'.out = (((s.tid k).bufQ.filter (selected s discardAll)).flatMap
    fun b => returnsOf (s.buf b)).reverse ++ s.out
  comp : ∀ b ∈ (s'.tid k).bufQ, s'.buf b = { s.buf b with bfComp := some .normal }
  empty : (s'.tid k).bawHead = (s'.tid k).bawTail
  noBit : ∀ i < 128, (s'.tid k).txBufBitmap i = false
  start : (s'.tid k).seqStart = ((s.tid k).seqStart + (s.tid k).window.size 128) % 4096
  incomp : (s'.tid k).incomp = if (awayNumbers s k).card = 0 then (s.tid k).incomp
    else aInt8 ((s.tid k).incomp + (awayNumbers s k).card)
  cleanup : (s'.tid k).cleanupInprogres =
    ((s.tid k).cleanupInprogres || decide ((awayNumbers s k).card ≠ 0))

theorem InOrder.exact (h : InOrder s k) : Exact (s.tid k).window
    (retriedNumbers (((s.tid k).bufQ.map s.buf).map frameOf) + awayNumbers s k) := by
  have hle : retriedNumbers (((s.tid k).bufQ.map s.buf).map frameOf) ≤
      (s.tid k).window.numbers 4096 128 := h.queued.le_numbers h.valid
  rw [awayNumbers, add_tsub_cancel_of_le hle]
  exact ⟨h.valid, h.valid.holds_numbers (by decide), h.valid.owned_numbers (by decide), h.clear⟩

/-- The frames that were sent before are all among the first that go. -/
theorem retriedNumbers_prefix {gone kept : List BufId}
    (hkept : ∀ b ∈ kept, ¬ (s.buf b).bfIsretried = true) :
    retriedNumbers (((gone ++ kept).map s.buf).map frameOf) =
      retriedNumbers ((gone.map s.buf).map frameOf) := by
  have hnil : ((kept.map s.buf).map frameOf).filter Frame.retried = [] := by
    apply List.filter_eq_nil_iff.mpr
    intro f hf
    obtain ⟨x, hx, rfl⟩ := List.mem_map.mp hf
    obtain ⟨b, hb, rfl⟩ := List.mem_map.mp hx
    exact hkept b hb
  rw [retriedNumbers, List.map_append, List.map_append, List.filter_append, hnil, List.append_nil]
  rfl

/-- A TID after its queue was gone through and its window flushed. -/
theorem cleanupBaw_discarded {tid : Tid} {bufs : List TxBuf} {W : Multiset ℕ}
    (h : Exact tid.window (retriedNumbers (bufs.map frameOf) + W)) :
    let t := cleanupBaw athTidMaxBufs { tid.discarded bufs with paused := true }
    t.bufQ = tid.bufQ.drop bufs.length ∧ t.bawHead = t.bawTail ∧
      (∀ i < 128, t.txBufBitmap i = false) ∧
      t.seqStart = (tid.seqStart + tid.window.size 128) % 4096 ∧
      t.incomp = (if W.card = 0 then tid.incomp else aInt8 (tid.incomp + W.card)) ∧
      t.cleanupInprogres = (tid.cleanupInprogres || decide (W.card ≠ 0)) := by
  intro t
  obtain ⟨hexact, hend⟩ := h.discard
  obtain ⟨w', hflush, hempty, hclear, hstart⟩ := hexact.flush
  have hdisc := session_discarded tid bufs [] 0 []
  have hwin : (tid.discarded bufs).window = Session.discard tid.window (bufs.map frameOf) :=
    (congrArg Session.win hdisc :)
  have hincomp : (tid.discarded bufs).incomp = tid.incomp := (congrArg Session.incomp hdisc :)
  have hcleanup : (tid.discarded bufs).cleanupInprogres = tid.cleanupInprogres :=
    (congrArg Session.cleanup hdisc :)
  have hbaw := session_cleanupBaw athTidMaxBufs { tid.discarded bufs with paused := true } [] 0 []
  have hpaused : ({ tid.discarded bufs with paused := true } : Tid).window =
      (tid.discarded bufs).window := rfl
  rw [hpaused, hwin, athTidMaxBufs, hflush] at hbaw
  have hw : t.window = w' := (congrArg Session.win hbaw :)
  refine ⟨?_, ?_, ?_, ?_, ?_, ?_⟩
  · rw [cleanupBaw_bufQ]
    exact discarded_bufQ tid bufs
  · rw [← hw] at hempty
    exact hempty
  · rw [← hw] at hclear
    exact hclear
  · have hseq : t.window.start = w'.start := by rw [hw]
    exact hseq.trans (hstart.trans hend)
  · have hcount : t.incomp = _ := (congrArg Session.incomp hbaw :)
    rw [hcount]
    dsimp only
    rw [hincomp]
  · have hflag : t.cleanupInprogres = _ := (congrArg Session.cleanup hbaw :)
    rw [hflag]
    dsimp only
    rw [hcleanup]

/-- The queue begins with the frames that are selected. -/
theorem cleanupTid_cleanedUp (h : InOrder s k) (hq : (s.tid k).bufQ = gone ++ kept)
    (hgone : ∀ b ∈ gone, selected s discardAll b = true)
    (hkept : ∀ b ∈ kept, ¬ selected s discardAll b = true) :
    ∃ s', cleanupTid s k discardAll = some s' ∧ CleanedUp k discardAll s s' := by
  have hd := h.nodup
  have hout := h.heldOut
  rw [hq] at hd hout
  obtain ⟨s₁, hrun, hpurged⟩ := cleanupBufQ_purge hq hgone hd h.held hout
  have hbuf : ∀ b ∈ kept, s₁.buf b = s.buf b := by
    intro b hb
    apply hpurged.buf b _ (hout b (List.mem_append_right _ hb))
    intro hin
    exact (List.nodup_append.mp hd).2.2 b hin b hb rfl
  have hkept₁ : ∀ b ∈ kept, ¬ selected s₁ discardAll b = true := by
    intro b hb
    rw [selected, hbuf b hb]
    exact hkept b hb
  have hfresh : ∀ b ∈ kept, ¬ (s.buf b).bfIsretried = true := by
    intro b hb hret
    apply hkept b hb
    rw [selected, hret, Bool.or_true]
  have hexact := h.exact
  rw [hq, retriedNumbers_prefix hfresh] at hexact
  have hcleaned := cleanupBaw_discarded hexact
  rw [← hpurged.tid] at hcleaned
  set s₂ := (athAggrPauseTid (keepFrames s₁ kept) k).modTid k (cleanupBaw athTidMaxBufs) with hs₂
  have htid : s₂.tid k = cleanupBaw athTidMaxBufs { s₁.tid k with paused := true } := by
    rw [hs₂, TxState.modTid_tid_self, athAggrPauseTid, TxState.modTid_tid_self]
    rfl
  obtain ⟨hqueue, hempty, hbits, hstart, hincomp, hcleanup⟩ := hcleaned
  rw [← htid] at hqueue hempty hbits hstart hincomp hcleanup
  obtain ⟨hfilter, hfilter'⟩ := filter_append_of hgone hkept
  have hqueue' : (s₂.tid k).bufQ = kept := by
    rw [hqueue, hq, List.length_map, List.drop_left]
  refine ⟨s₂, ?_, ?_, ?_, ?_, ?_, hempty, hbits, hstart, hincomp, hcleanup⟩
  · rw [cleanupTid, hq, hrun, cleanupBufQ_keep hkept₁, Option.map_some]
  · rw [hqueue', hq, hfilter']
  · rw [hq, hfilter]
    exact hpurged.spare
  · rw [hq, hfilter]
    exact hpurged.out
  · intro b hb
    rw [hqueue'] at hb
    have hkeep : s₂.buf b = (keepFrames s₁ kept).buf b := rfl
    rw [hkeep, keepFrames]
    dsimp only
    rw [if_pos hb, hbuf b hb]

/-- A cleanup does what it is to do if it selects every frame, or if no frame that was sent before
stands behind one that was not. -/
theorem cleanup_exact (h : InOrder s k) (discardAll : Bool) :
    ∃ s', cleanupTid s k discardAll = some s' ∧
      athTgtTxCleanup s k discardAll =
        (if (s'.tid k).cleanupInprogres then some s' else athAggrResumeTid s' k) ∧
      (CleanedUp k discardAll s s' ↔ discardAll = true ∨
        (s.tid k).bufQ.Pairwise fun a b => (s.buf b).bfIsretried → (s.buf a).bfIsretried) := by
  obtain ⟨s₁, hrun : cleanupBufQ k discardAll (s.tid k).bufQ s = some s₁, hbufQ⟩ :=
    cleanupBufQ_bufQ List.suffix_rfl h.nodup h.held h.heldOut
  have hclean : cleanupTid s k discardAll =
      some ((athAggrPauseTid s₁ k).modTid k (cleanupBaw athTidMaxBufs)) := by
    rw [cleanupTid, hrun, Option.map_some]
  refine ⟨_, hclean, by rw [athTgtTxCleanup_resume, hclean]; rfl, ?_⟩
  set s' := (athAggrPauseTid s₁ k).modTid k (cleanupBaw athTidMaxBufs) with hs'
  have hqueue : (s'.tid k).bufQ =
      (s.tid k).bufQ.drop ((s.tid k).bufQ.countP (selected s discardAll)) := by
    rw [hs', TxState.modTid_tid_self, cleanupBaw_bufQ, athAggrPauseTid, TxState.modTid_tid_self]
    exact hbufQ
  constructor
  · intro hcleaned
    have hdrop := hcleaned.queue
    rw [hqueue] at hdrop
    cases discardAll with
    | true => exact .inl rfl
    | false =>
      right
      apply (pairwise_of_drop hdrop).imp
      intro a b hab hb
      simpa [selected] using hab (by simpa [selected] using hb)
  · intro hcond
    obtain ⟨gone, kept, hq, hgone, hkept⟩ : ∃ gone kept, (s.tid k).bufQ = gone ++ kept ∧
        (∀ b ∈ gone, selected s discardAll b = true) ∧
        ∀ b ∈ kept, ¬ selected s discardAll b = true := by
      rcases hcond with rfl | hpair
      · exact ⟨(s.tid k).bufQ, [], (List.append_nil _).symm, fun _ _ => rfl, by simp⟩
      · cases discardAll with
        | true => exact ⟨(s.tid k).bufQ, [], (List.append_nil _).symm, fun _ _ => rfl, by simp⟩
        | false => exact exists_append_of_pairwise (p := selected s false) (hpair.imp fun h => h)
    obtain ⟨s₂, hclean₂, hcleaned⟩ := cleanupTid_cleanedUp h hq hgone hkept
    rw [hclean] at hclean₂
    rwa [Option.some.inj hclean₂]

/-! ### A frame sent before, and one that was not -/

/-- The frame 2 is in the window with one that is at the hardware, the frame 1 is not. -/
def queueState (bufQ : List BufId) : TxState :=
  { attachTx smallConfig steadyAnswers with
    buf := fun b =>
      if b = 2 then { bfLastds := 2, bfIsretried := true } else { bfLastds := b, bfSeqno := 32 }
    tid := fun _ =>
      { seqNext := 3
        bawSize := 64
        bawTail := 2
        txBufBitmap := fun i => decide (i < 2)
        bufQ := bufQ } }

theorem inOrder_queueState {bufQ : List BufId} (h : bufQ = [2, 1] ∨ bufQ = [1, 2]) :
    InOrder (queueState bufQ) (0, 0) := by
  have hnumbers : retriedNumbers ((bufQ.map (queueState bufQ).buf).map frameOf) = {0} := by
    rcases h with rfl | rfl <;> rfl
  have hwindow : ((queueState bufQ).tid (0, 0)).window = ⟨0, 0, 2, fun i => decide (i < 2)⟩ := rfl
  have hqueue : ((queueState bufQ).tid (0, 0)).bufQ = bufQ := rfl
  have hheld : (queueState bufQ).scTxbufHeld = some 0 := rfl
  refine ⟨?_, ?_, ?_, ?_, rfl, ?_⟩
  · rw [hwindow]
    exact ⟨by decide, by decide, by decide⟩
  · rw [hwindow, SlidingWindow.Clear]
    decide
  · rw [hwindow, hqueue, hnumbers]
    constructor
    · simp
    · intro x hx
      rw [Multiset.mem_singleton.mp hx]
      decide
    · intro x hx
      rw [Multiset.mem_singleton.mp hx]
      decide
    · exact Multiset.nodup_singleton 0
  · rw [hqueue]
    rcases h with rfl | rfl <;> decide
  · rw [hqueue, hheld]
    rcases h with rfl | rfl <;> decide

theorem retried_first_cleaned : ∃ s', cleanupTid (queueState [2, 1]) (0, 0) false = some s' ∧
    CleanedUp (0, 0) false (queueState [2, 1]) s' := by
  obtain ⟨s', hrun, -, hiff⟩ := cleanup_exact (inOrder_queueState (.inl rfl)) false
  exact ⟨s', hrun, hiff.mpr (.inr (by decide))⟩

theorem fresh_frame_removed :
    ¬ ∀ s k discardAll, InOrder s k →
      ∃ s', cleanupTid s k discardAll = some s' ∧ CleanedUp k discardAll s s' := by
  intro h
  obtain ⟨s', hrun, hcleaned⟩ := h (queueState [1, 2]) (0, 0) false (inOrder_queueState (.inr rfl))
  have hleft : (cleanupTid (queueState [1, 2]) (0, 0) false).map (fun s => (s.tid (0, 0)).bufQ) =
      some [2] := by
    rfl
  rw [hrun] at hleft
  have hleft' : (s'.tid (0, 0)).bufQ = [2] := Option.some.inj hleft
  have hqueue := hcleaned.queue
  rw [hleft'] at hqueue
  revert hqueue
  decide

end Ath9kHtc.Tx
