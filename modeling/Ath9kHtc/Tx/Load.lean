import Mathlib.Algebra.BigOperators.Finprod
import Ath9kHtc.Tx.Completing

/-!
# What is still to happen to the frames of the host

Every buffer with a frame carries one host buffer, and its retries and its completion function
say how often it can still come back from the hardware.
-/

namespace Ath9kHtc.Tx

variable {s s' s'' : TxState} {bf c : BufId} {k : TidId} {q : QueueId} {n m : ℕ}

namespace TxBuf

/-- How many completions the frame of a buffer has before it at most: a frame of an aggregation
session becomes a BAR after its last retry. -/
def load (b : TxBuf) : ℕ :=
  match b.bfComp with
  | none => 0
  | some .normal => 1
  | some .bar => 1 + (owlmaxBarRetries - b.bfRetries)
  | some .aggr => 2 + (owlmaxRetries - b.bfRetries)

/-- A buffer with a completion function holds one host buffer. -/
def Carries (b : TxBuf) : Prop :=
  b.bfComp ≠ none → ∃ skb, b.bfSkbhead = [skb] ∧ b.bfSkb = some skb

/-- Two buffers with the same frame to come back. -/
structure SameLoad (b b' : TxBuf) : Prop where
  comp : b'.bfComp = b.bfComp
  retries : b'.bfRetries = b.bfRetries
  skb : b'.bfSkb = b.bfSkb
  skbhead : b'.bfSkbhead = b.bfSkbhead

variable {b b' b'' : TxBuf}

theorem SameLoad.refl (b : TxBuf) : SameLoad b b := ⟨rfl, rfl, rfl, rfl⟩

theorem SameLoad.trans (h : SameLoad b b') (h' : SameLoad b' b'') : SameLoad b b'' :=
  ⟨h'.comp.trans h.comp, h'.retries.trans h.retries, h'.skb.trans h.skb,
    h'.skbhead.trans h.skbhead⟩

theorem SameLoad.load_eq (h : SameLoad b b') : b'.load = b.load := by
  rw [load, load, h.comp, h.retries]

theorem SameLoad.carries (h : SameLoad b b') (hb : b.Carries) : b'.Carries := by
  rw [Carries, h.comp, h.skb, h.skbhead]
  exact hb

theorem load_idle (h : b.bfComp = none) : b.load = 0 := by
  rw [load, h]

theorem load_pos (h : b.bfComp ≠ none) : 1 ≤ b.load := by
  rw [load]
  split
  · exact absurd ‹b.bfComp = none› h
  · exact le_refl 1
  · exact Nat.le_add_right 1 _
  · exact Nat.le_trans (by decide) (Nat.le_add_right 2 _)

theorem carries_idle (h : b.bfComp = none) : b.Carries := fun hne => absurd h hne

end TxBuf

open TxBuf

/-- What all frames together have before them. -/
noncomputable def TxState.load (s : TxState) : ℕ := ∑ᶠ b, (s.buf b).load

/-- Every buffer with a completion function holds one host buffer, and the held one has none. -/
structure Laden (s : TxState) : Prop where
  held : ∃ tmp, s.scTxbufHeld = some tmp ∧ (s.buf tmp).bfComp = none
  carries : ∀ b, (s.buf b).Carries
  finite : {b | (s.buf b).bfComp ≠ none}.Finite

theorem Laden.ne_held (h : Laden s) (hcomp : (s.buf bf).bfComp ≠ none) :
    ∀ b ∈ s.scTxbufHeld, b ≠ bf := by
  obtain ⟨tmp, hheld, hidle⟩ := h.held
  intro b hb
  rw [hheld] at hb
  obtain rfl := Option.some_inj.mp hb
  rintro rfl
  exact hcomp hidle

theorem Laden.support (h : Laden s) : (Function.support fun b => (s.buf b).load).Finite :=
  h.finite.subset fun _ hb hidle => hb (load_idle hidle)

/-- One value of a sum can be changed by itself. -/
theorem finsum_update {w : BufId → ℕ} (h : w.support.Finite) (a v : ℕ) :
    finsum (Function.update w a v) + w a = finsum w + v := by
  set S := insert a h.toFinset
  have ha : a ∈ S := Finset.mem_insert_self a _
  have hw : Function.support w ⊆ S := fun b hb =>
    Finset.mem_coe.mpr (Finset.mem_insert_of_mem (h.mem_toFinset.mpr hb))
  have hupdate : Function.support (Function.update w a v) ⊆ S := by
    intro b hb
    rcases eq_or_ne b a with rfl | hne
    · exact ha
    · rw [Function.mem_support, Function.update_of_ne hne] at hb
      exact hw hb
  rw [finsum_eq_sum_of_support_subset _ hw, finsum_eq_sum_of_support_subset _ hupdate,
    Finset.sum_update_of_mem ha, Finset.sum_eq_add_sum_sdiff_singleton_of_mem ha w]
  omega

/-- A function that keeps every frame in its buffer, and after which there is less to come, by
`n` at least. -/
structure Eases (n : ℕ) (s s' : TxState) : Prop where
  laden : Laden s → Laden s'
  load : Laden s → s'.load + n ≤ s.load

namespace Eases

theorem refl (s : TxState) : Eases 0 s s := ⟨id, fun _ => le_refl _⟩

theorem trans (h : Eases n s s') (h' : Eases m s' s'') : Eases (n + m) s s'' := by
  refine ⟨h'.laden ∘ h.laden, fun hs => ?_⟩
  have := h.load hs
  have := h'.load (h.laden hs)
  omega

theorem followed (h : Eases n s s') (h' : Eases 0 s' s'') : Eases n s s'' := h.trans h'

theorem after (h : Eases 0 s s') (h' : Eases n s' s'') : Eases n s s'' := by
  have := h.trans h'
  rwa [Nat.zero_add] at this

theorem mono (h : Eases n s s') (hle : m ≤ n) : Eases m s s' :=
  ⟨h.laden, fun hs => Nat.le_trans (Nat.add_le_add_left hle _) (h.load hs)⟩

/-- A function that writes to no buffer. -/
theorem of_eq (hbuf : s'.buf = s.buf) (hheld : s'.scTxbufHeld = s.scTxbufHeld) :
    Eases 0 s s' := by
  refine ⟨fun h => ⟨?_, ?_, ?_⟩, fun _ => ?_⟩
  · rw [hbuf, hheld]
    exact h.held
  · rw [hbuf]
    exact h.carries
  · rw [hbuf]
    exact h.finite
  · rw [TxState.load, TxState.load, hbuf]
    exact le_refl _

/-- A function that writes to one buffer. -/
theorem write {x : TxBuf} (hbuf : s'.buf = Function.update s.buf bf x)
    (hheld : s'.scTxbufHeld = s.scTxbufHeld)
    (hidle : (s.buf bf).bfComp = none → x.bfComp = none)
    (hcarries : (s.buf bf).Carries → x.Carries) (hload : x.load + n ≤ (s.buf bf).load) :
    Eases n s s' := by
  have hself : s'.buf bf = x := by rw [hbuf, Function.update_self]
  have hothers : ∀ b, b ≠ bf → s'.buf b = s.buf b := fun b hb => by
    rw [hbuf, Function.update_of_ne hb]
  refine ⟨fun h => ⟨?_, fun b => ?_, ?_⟩, fun h => ?_⟩
  · obtain ⟨tmp, htmp, hcomp⟩ := h.held
    refine ⟨tmp, hheld.trans htmp, ?_⟩
    rcases eq_or_ne tmp bf with rfl | hne
    · rw [hself]
      exact hidle hcomp
    · rw [hothers tmp hne]
      exact hcomp
  · rcases eq_or_ne b bf with rfl | hne
    · rw [hself]
      exact hcarries (h.carries b)
    · rw [hothers b hne]
      exact h.carries b
  · apply (h.finite.insert bf).subset
    intro b hb
    rcases eq_or_ne b bf with rfl | hne
    · exact Set.mem_insert b _
    · refine Set.mem_insert_of_mem _ ?_
      show (s.buf b).bfComp ≠ none
      rw [← hothers b hne]
      exact hb
  · have hsum := finsum_update h.support bf x.load
    have hfun : (fun b => (s'.buf b).load) =
        Function.update (fun b => (s.buf b).load) bf x.load := by
      funext b
      rcases eq_or_ne b bf with rfl | hne
      · rw [Function.update_self, hself]
      · rw [Function.update_of_ne hne, hothers b hne]
    rw [TxState.load, TxState.load, hfun]
    omega

theorem modBuf (f : TxBuf → TxBuf) (hf : SameLoad (s.buf bf) (f (s.buf bf))) :
    Eases 0 s (s.modBuf bf f) := by
  refine write rfl rfl (fun h => hf.comp.trans h) hf.carries ?_
  rw [hf.load_eq]
  exact le_refl _

/-- The held buffer is another one now. -/
theorem hold (hbuf : s'.buf = s.buf) (hheld : s'.scTxbufHeld = some bf)
    (hidle : (s.buf bf).bfComp = none) : Eases 0 s s' := by
  refine ⟨fun h => ⟨⟨bf, hheld, hbuf ▸ hidle⟩, hbuf ▸ h.carries, hbuf ▸ h.finite⟩, fun _ => ?_⟩
  rw [TxState.load, TxState.load, hbuf]
  exact le_refl _

end Eases

/-! ## Releasing buffers -/

/-- A handler that is done with a buffer has left the frames of the others where they were. -/
structure Kept (bf : BufId) (s s' : TxState) : Prop where
  comp : ∀ b, b ≠ bf → (s.buf b).bfComp ≠ none → (s'.buf b).bfComp = (s.buf b).bfComp
  next : ∀ b, b ≠ bf → (s.buf b).bfComp ≠ none → (s'.buf b).bfNext = (s.buf b).bfNext
  key : ∀ b, b ≠ bf → (s.buf b).bfComp ≠ none → keyOf (s'.buf b) = keyOf (s.buf b)

theorem Kept.of_buf (h : ∀ b, b ≠ bf → (s.buf b).bfComp ≠ none → s'.buf b = s.buf b) :
    Kept bf s s' where
  comp b hb hcomp := by rw [h b hb hcomp]
  next b hb hcomp := by rw [h b hb hcomp]
  key b hb hcomp := by rw [h b hb hcomp]

/-- What is left alone beside a buffer `c` that had no frame. -/
theorem Kept.via (h : Kept bf s s') (h' : Kept c s' s'')
    (hc : ∀ b, b ≠ bf → (s.buf b).bfComp ≠ none → b ≠ c) : Kept bf s s'' where
  comp b hb hcomp :=
    (h'.comp b (hc b hb hcomp) (h.comp b hb hcomp ▸ hcomp)).trans (h.comp b hb hcomp)
  next b hb hcomp :=
    (h'.next b (hc b hb hcomp) (h.comp b hb hcomp ▸ hcomp)).trans (h.next b hb hcomp)
  key b hb hcomp :=
    (h'.key b (hc b hb hcomp) (h.comp b hb hcomp ▸ hcomp)).trans (h.key b hb hcomp)

theorem Kept.trans (h : Kept bf s s') (h' : Kept bf s' s'') : Kept bf s s'' :=
  h.via h' fun _ hb _ => hb

/-- `ath_tx_freebuf` never fails, and all that the frame had before it is over. -/
theorem athTxFreebuf_total (h : Laden s) (bf : BufId) : ∃ s', athTxFreebuf s bf = some s' ∧
    Eases (s.buf bf).load s s' ∧ Kept bf s s' ∧ s'.tid = s.tid ∧ s'.txq = s.txq ∧
    s'.cfg = s.cfg := by
  obtain ⟨tmp, hheld, hidle⟩ := h.held
  set s₁ := (athTgtSkbFree s bf).modBuf bf fun b =>
    { b with bfSkb := none, bfComp := none, bfNode := none, bfNext := none } with hs₁
  set x : TxBuf := { s.buf bf with
    bfSkbhead := [], bfSkb := none, bfComp := none, bfNode := none, bfNext := none }
  have hbuf₁ : s₁.buf = Function.update s.buf bf x := by
    rw [hs₁, athTgtSkbFree]
    simp only [TxState.modBuf, TxState.setBuf, Function.update_self, Function.update_idem]
    rfl
  have hfirst : Eases (s.buf bf).load s s₁ :=
    .write hbuf₁ rfl (fun _ => rfl) (fun _ => carries_idle rfl) (by
      rw [load_idle (b := x) rfl, Nat.zero_add])
  set s₂ : TxState := { s₁ with scTxbufHeld := some bf } with hs₂
  have hhold : Eases 0 s₁ s₂ := by
    refine .hold rfl rfl ?_
    rw [hbuf₁, Function.update_self]
  have hidle₂ : (s₂.buf tmp).bfComp = none := by
    show (s₁.buf tmp).bfComp = none
    rw [hbuf₁]
    rcases eq_or_ne tmp bf with rfl | hne
    · rw [Function.update_self]
    · rw [Function.update_of_ne hne]
      exact hidle
  set y : TxBuf := { s₂.buf tmp with bfRetries := 0, bfIsretried := false }
  set s₃ := scTxbufInsertTail (s₂.modBuf tmp fun b =>
    { b with bfRetries := 0, bfIsretried := false }) tmp with hs₃
  have hclear : Eases 0 s₂ s₃ := by
    refine .write (x := y) rfl rfl (fun h => h) (fun _ => carries_idle hidle₂) ?_
    rw [load_idle (b := y) hidle₂, Nat.zero_add]
    exact Nat.zero_le _
  have hfree : athTxFreebuf s bf = some s₃ := by
    have htoggle : athBufToggle s₁ bf false = some (tmp, s₂) := by
      rw [athBufToggle, show s₁.scTxbufHeld = some tmp from hheld]
      rfl
    show (athBufToggle s₁ bf false).map _ = _
    rw [htoggle]
    rfl
  refine ⟨s₃, hfree, (hfirst.followed hhold).followed hclear, .of_buf fun b hb hcomp => ?_, rfl,
    rfl, rfl⟩
  have hne : b ≠ tmp := fun heq => hcomp (heq ▸ hidle)
  show Function.update s₂.buf tmp y b = s.buf b
  rw [Function.update_of_ne hne, show s₂.buf = s₁.buf from rfl, hbuf₁, Function.update_of_ne hb]

/-- `ath_buf_comp` never fails. -/
theorem athBufComp_total (h : Laden s) (hcomp : (s.buf bf).bfComp = none) :
    ∃ s', athBufComp s bf = some s' ∧ Eases 0 s s' ∧ s'.txq = s.txq := by
  obtain ⟨tmp, hheld, -⟩ := h.held
  set s₁ := (athTgtSkbFree s bf).modBuf bf fun b => { b with bfSkb := none, bfNode := none }
    with hs₁
  set x : TxBuf := { s.buf bf with bfSkbhead := [], bfSkb := none, bfNode := none }
  have hbuf₁ : s₁.buf = Function.update s.buf bf x := by
    rw [hs₁, athTgtSkbFree]
    simp only [TxState.modBuf, TxState.setBuf, Function.update_self, Function.update_idem]
    rfl
  have hfirst : Eases 0 s s₁ := by
    refine .write hbuf₁ rfl (fun h => h) (fun _ => carries_idle hcomp) ?_
    rw [load_idle (b := x) hcomp]
    exact Nat.zero_le _
  set s₂ : TxState := { s₁ with scTxbufHeld := some bf }
  have hhold : Eases 0 s₁ s₂ := by
    refine .hold rfl rfl ?_
    rw [hbuf₁, Function.update_self]
    exact hcomp
  have hlast : Eases 0 s₂ (scTxbufInsertTail s₂ tmp) := .of_eq rfl rfl
  have htoggle : athBufToggle s₁ bf false = some (tmp, s₂) := by
    rw [athBufToggle, show s₁.scTxbufHeld = some tmp from hheld]
    rfl
  refine ⟨scTxbufInsertTail s₂ tmp, ?_, (hfirst.followed hhold).followed hlast, rfl⟩
  show (athBufToggle s₁ bf false).map _ = _
  rw [htoggle]
  rfl

/-! ## Sending a frame again -/

/-- `ath_buf_toggle` moves any frame. -/
theorem athBufToggle_total (h : Laden s) (hcomp : (s.buf bf).bfComp ≠ none) :
    ∃ c s', athBufToggle s bf true = some (c, s') ∧ Eases 0 s s' ∧
      SameLoad (s.buf bf) (s'.buf c) ∧ Kept bf s s' ∧ s'.tid = s.tid ∧ s'.cfg = s.cfg := by
  obtain ⟨tmp, hheld, hidle⟩ := h.held
  have hne : tmp ≠ bf := h.ne_held hcomp tmp hheld
  obtain ⟨skb, hskbhead, hskb⟩ := h.carries bf hcomp
  have hbf : (s.modBuf tmp fun b => { b with bfSkbhead := [] }).buf bf = s.buf bf :=
    s.modBuf_buf_of_ne tmp _ hne.symm
  obtain ⟨s', htoggle, hsame⟩ : ∃ s', athBufToggle s bf true = some (tmp, s') ∧
      SameLoad (s.buf bf) (s'.buf tmp) := by
    rw [athBufToggle, hheld]
    simp only [if_true, toggleMove, hbf, hskbhead, Option.map_some]
    refine ⟨_, rfl, ?_⟩
    constructor <;>
      simp [athFilltxdesc, TxState.modBuf, TxState.setBuf, TxState.modDs, hne, hskbhead]
  have t := athBufToggle_true htoggle (h.ne_held hcomp)
  have hothers : ∀ b, b ≠ bf → (s.buf b).bfComp ≠ none → s'.buf b = s.buf b :=
    fun b hb hb' => t.others b hb fun heq => hb' (heq ▸ hidle)
  have hbuf : (fun b => (s'.buf b).load) =
      Function.update (Function.update (fun b => (s.buf b).load) tmp (s.buf bf).load) bf 0 := by
    funext b
    rcases eq_or_ne b bf with rfl | hb
    · rw [Function.update_self]
      exact load_idle t.clean.comp
    · rw [Function.update_of_ne hb]
      rcases eq_or_ne b tmp with rfl | hb'
      · rw [Function.update_self, hsame.load_eq]
      · rw [Function.update_of_ne hb', t.others b hb hb']
  refine ⟨tmp, s', htoggle, ⟨fun _ => ⟨⟨bf, t.held', t.clean.comp⟩, fun b => ?_, ?_⟩, fun _ => ?_⟩,
    hsame, .of_buf hothers, t.tid, t.cfg⟩
  · rcases eq_or_ne b bf with rfl | hb
    · exact carries_idle t.clean.comp
    · rcases eq_or_ne b tmp with rfl | hb'
      · exact hsame.carries (h.carries bf)
      · rw [t.others b hb hb']
        exact h.carries b
  · apply (h.finite.insert tmp).subset
    intro b hb
    rcases eq_or_ne b tmp with rfl | hb'
    · exact Set.mem_insert b _
    · refine Set.mem_insert_of_mem _ ?_
      have hbf : b ≠ bf := by
        rintro rfl
        exact hb t.clean.comp
      show (s.buf b).bfComp ≠ none
      rw [← t.others b hbf hb']
      exact hb
  · have hfirst := finsum_update h.support tmp (s.buf bf).load
    have hfinite : (Function.support (Function.update (fun b => (s.buf b).load) tmp
        (s.buf bf).load)).Finite := by
      apply (h.support.insert tmp).subset
      intro b hb
      rcases eq_or_ne b tmp with rfl | hb'
      · exact Set.mem_insert b _
      · rw [Function.mem_support, Function.update_of_ne hb'] at hb
        exact Set.mem_insert_of_mem _ hb
    have hsecond := finsum_update hfinite bf 0
    rw [Function.update_of_ne hne.symm] at hsecond
    have hzero := load_idle hidle
    rw [TxState.load, TxState.load, hbuf]
    omega

theorem athTxSetRetry_total (h : Laden s) (hcomp : (s.buf c).bfComp = some .aggr ∨
      (s.buf c).bfComp = some .bar) (hr : (s.buf c).bfRetries < owlmaxRetries) :
    ∃ s', athTxSetRetry s c = some s' ∧ Eases 1 s s' ∧ Kept c s s' ∧ s'.tid = s.tid ∧
      s'.cfg = s.cfg := by
  have hne : (s.buf c).bfComp ≠ none := by
    rcases hcomp with hcomp | hcomp <;> rw [hcomp] <;> exact Option.some_ne_none _
  obtain ⟨skb, hskbhead, hskb⟩ := h.carries c hne
  have hmod : ((s.buf c).bfRetries + 1) % 256 = (s.buf c).bfRetries + 1 := by
    rw [owlmaxRetries] at hr
    omega
  rw [athTxSetRetry, hskb, Option.map_some]
  refine ⟨_, rfl, ?_, ?_, rfl, rfl⟩
  · refine .write rfl rfl (fun h => h) (fun h => h) ?_
    rcases hcomp with hcomp | hcomp
    · simp only [load, hcomp, hmod]
      omega
    · simp only [load, hcomp, hmod, owlmaxBarRetries]
      rw [owlmaxRetries] at hr
      omega
  · exact .of_buf fun b hb _ => Function.update_of_ne hb ..

end Ath9kHtc.Tx
