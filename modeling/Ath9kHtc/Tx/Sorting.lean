import Ath9kHtc.Tx.Resending
import Ath9kHtc.Tx.System
import Mathlib.Data.List.Forall2

/-!
# The subframes of an aggregate that completes

Every subframe is acknowledged, sent again or dropped, and the first that is dropped becomes the
block-ack request.
-/

namespace Ath9kHtc.Tx

/-- The transmission was OK, and its block-ack has the bit of the frame. -/
def Acknowledged (stat : TxStat) (b : TxBuf) : Prop :=
  stat.tsStatus = 0 ∧ stat.tsFlags &&& halTxBa ≠ 0 ∧
    athBaIndex stat.tsSeqnum (seqnoFromBfSeqno b.bfSeqno) < 64 ∧
    stat.ba.getLsbD (athBaIndex stat.tsSeqnum (seqnoFromBfSeqno b.bfSeqno)) = true

instance (stat : TxStat) (b : TxBuf) : Decidable (Acknowledged stat b) :=
  inferInstanceAs (Decidable (_ ∧ _ ∧ _ ∧ _))

/-- What becomes of a subframe. -/
inductive Fate
  | acked | again | dropped
  deriving DecidableEq

def fate (acked : TxBuf → Bool) (b : TxBuf) : Fate :=
  if acked b then .acked else if b.bfRetries < owlmaxRetries then .again else .dropped

/-- The subframes with a fate. -/
def TxState.fated (s : TxState) (acked : TxBuf → Bool) (f : Fate) (frames : List BufId) :
    List BufId :=
  frames.filter fun b => fate acked (s.buf b) = f

/-- The subframes that are freed: those acknowledged, and those dropped behind the first. -/
def TxState.freed (s : TxState) (acked : TxBuf → Bool) (frames : List BufId) : List BufId :=
  frames.filter fun b => fate acked (s.buf b) = .acked ∨
    fate acked (s.buf b) = .dropped ∧ (s.fated acked .dropped frames).head? ≠ some b

/-- What the host gets back when a frame is freed. -/
def TxState.returned (s : TxState) (b : BufId) : List Output :=
  (s.buf b).bfSkbhead.map (Output.returnBuffers (s.buf b).bfEndpt)

/-- The retry bit of the header. -/
def markRetry (n : Nbuf) : Nbuf :=
  { n with byte := Function.update n.byte 1 (n.byte 1 ||| 0x08) }

/-- The second buffer holds the frame the first one held, with one more retry. -/
structure Requeued (s s' : TxState) (b c : BufId) : Prop where
  state : (s'.buf c).toBufState = { (s.buf b).toBufState with
    bfIsretried := true, bfRetries := (s.buf b).bfRetries + 1 }
  node : (s'.buf c).bfNode = (s.buf b).bfNode
  skb : (s'.buf c).bfSkb = (s.buf b).bfSkb
  skbhead : (s'.buf c).bfSkbhead = (s.buf b).bfSkbhead
  endpt : (s'.buf c).bfEndpt = (s.buf b).bfEndpt
  cookie : (s'.buf c).bfCookie = (s.buf b).bfCookie
  header : ∀ skb ∈ (s.buf b).bfSkb, s'.nbuf skb = markRetry (s.nbuf skb)

/-- A frame has become the block-ack request of its TID. -/
structure BarBuilt (s s' : TxState) (k : TidId) (d : BufId) : Prop where
  queued : ∀ q, (s'.txq q).axqQ =
    if q = (s.buf d).bfTxq then (s.txq q).axqQ ++ [d] else (s.txq q).axqQ
  comp : (s'.buf d).bfComp = some .bar
  skbhead : (s'.buf d).bfSkbhead = (s.buf d).bfSkbhead
  frame : ∀ skb ∈ (s.buf d).bfSkb,
    s'.nbuf skb = barFrame k.2 (s'.tid k).seqStart (s.nbuf skb)
  paused : (s'.tid k).paused = true

/-- The subframes of an aggregate of a TID. -/
structure AggregateAt (s : TxState) (k : TidId) (frames : List BufId) : Prop where
  chain : Chain (fun b => (s.buf b).bfNext) frames.head? frames
  distinct : frames.Nodup
  few : frames.length ≤ s.cfg.txBufs
  owner : ∀ b ∈ frames, s.tidOf b = some k
  carries : ∀ b ∈ frames, ∃ skb, (s.buf b).bfSkb = some skb ∧ (s.buf b).bfSkbhead = [skb]
  apart : ∀ b ∈ frames, ∀ c ∈ frames, (s.buf b).bfSkb = (s.buf c).bfSkb → b = c
  held : ∃ h, s.scTxbufHeld = some h ∧ h ∉ frames

/-- Every subframe went where its fate says. -/
structure Completed (s : TxState) (k : TidId) (acked : TxBuf → Bool) (frames : List BufId)
    (s' : TxState) : Prop where
  again : ∃ again, (s'.tid k).bufQ = again ++ (s.tid k).bufQ ∧
    List.Forall₂ (Requeued s s') (s.fated acked .again frames) again
  out : s'.out = .rateTxComplete k.1 frames.length
      (frames.filter fun b => fate acked (s.buf b) ≠ .acked).length ::
    ((s.freed acked frames).flatMap s.returned).reverse ++ s.out
  free : s'.scTxbuf.length = s.scTxbuf.length + (s.freed acked frames).length
  noBar : s.fated acked .dropped frames = [] → ∀ q, (s'.txq q).axqQ = (s.txq q).axqQ
  bar : ∀ d ∈ (s.fated acked .dropped frames).head?, BarBuilt s s' k d

section

variable {s s₀ s₁ s' : TxState} {k : TidId} {b c d h : BufId} {done rest frames : List BufId}
  {acc : CompAcc} {acked : TxBuf → Bool} {stat : TxStat}

/-! ## Fates -/

theorem fate_ne_acked {b : TxBuf} (h : acked b = false) : fate acked b ≠ .acked := by
  rw [fate, h]
  by_cases hfew : b.bfRetries < owlmaxRetries <;> simp [hfew]

theorem fated_snoc (s : TxState) (acked : TxBuf → Bool) (f : Fate) (done : List BufId) (b : BufId) :
    s.fated acked f (done ++ [b]) =
      s.fated acked f done ++ if fate acked (s.buf b) = f then [b] else [] := by
  rw [TxState.fated, List.filter_append, List.filter_singleton]
  congr 1
  by_cases hf : fate acked (s.buf b) = f <;> simp [hf]

theorem freed_snoc_acked (done : List BufId) (hb : fate acked (s.buf b) = .acked) :
    s.freed acked (done ++ [b]) = s.freed acked done ++ [b] := by
  have hdropped : s.fated acked .dropped (done ++ [b]) = s.fated acked .dropped done := by
    simp [fated_snoc, hb]
  rw [TxState.freed, hdropped, List.filter_append, TxState.freed]
  simp [hb]

theorem freed_snoc_again (done : List BufId) (hb : fate acked (s.buf b) = .again) :
    s.freed acked (done ++ [b]) = s.freed acked done := by
  have hdropped : s.fated acked .dropped (done ++ [b]) = s.fated acked .dropped done := by
    simp [fated_snoc, hb]
  rw [TxState.freed, hdropped, List.filter_append, TxState.freed]
  simp [hb]

/-- The first frame that is dropped is not freed. -/
theorem freed_snoc_first (hb : fate acked (s.buf b) = .dropped)
    (hnone : s.fated acked .dropped done = []) :
    s.freed acked (done ++ [b]) = s.freed acked done := by
  have hdropped : s.fated acked .dropped (done ++ [b]) = [b] := by
    simp [fated_snoc, hb, hnone]
  have hdone : ∀ a ∈ done, fate acked (s.buf a) ≠ .dropped := by
    intro a ha heq
    have hmem : a ∈ s.fated acked .dropped done := List.mem_filter.mpr ⟨ha, by simpa using heq⟩
    rw [hnone] at hmem
    cases hmem
  rw [TxState.freed, hdropped, List.filter_append, TxState.freed]
  have hlast : ([b].filter fun a => fate acked (s.buf a) = .acked ∨
      fate acked (s.buf a) = .dropped ∧ [b].head? ≠ some a) = [] := by simp [hb]
  rw [hlast, List.append_nil]
  apply List.filter_congr
  intro a ha
  simp [hdone a ha]

theorem freed_snoc_dropped (hb : fate acked (s.buf b) = .dropped)
    (hsome : s.fated acked .dropped done ≠ []) (hnew : b ∉ done) :
    s.freed acked (done ++ [b]) = s.freed acked done ++ [b] := by
  obtain ⟨d, l, hfated⟩ := List.exists_cons_of_ne_nil hsome
  have hhead : (s.fated acked .dropped (done ++ [b])).head? =
      (s.fated acked .dropped done).head? := by
    rw [fated_snoc, hfated]
    rfl
  have hne : d ≠ b := by
    rintro rfl
    have hmem : d ∈ s.fated acked .dropped done := hfated ▸ List.mem_cons_self
    exact hnew (List.mem_of_mem_filter hmem)
  rw [TxState.freed, hhead, List.filter_append, TxState.freed]
  congr 1
  simp [hb, hfated, hne]

/-! ## What the functions of the loop do -/

/-- Neither the buffers nor the queues are touched. -/
structure Level (k : TidId) (s s' : TxState) : Prop where
  buf : s'.buf = s.buf
  nbuf : s'.nbuf = s.nbuf
  held : s'.scTxbufHeld = s.scTxbufHeld
  free : s'.scTxbuf = s.scTxbuf
  out : s'.out = s.out
  txq : s'.txq = s.txq
  cfg : s'.cfg = s.cfg
  bufQ : (s'.tid k).bufQ = (s.tid k).bufQ

theorem level_updateBaw (s : TxState) (k : TidId) (seqno : ℕ) (b : BufId) (stat : TxStat)
    (rcs : Option (Fin 4 → RcSeries)) (txok : Bool) :
    Level k s (athTxStatusUpdateAggr (s.modTid k fun tid => athTxUpdateBaw tid seqno) b stat rcs
      txok) := by
  have hbufQ : ((s.modTid k fun tid => athTxUpdateBaw tid seqno).tid k).bufQ = (s.tid k).bufQ := by
    have hrest := congrArg Tid.bufQ (rest_athTxUpdateBaw (s.tid k) seqno)
    rw [TxState.modTid_tid_self]
    exact hrest
  unfold athTxStatusUpdateAggr
  dsimp only
  split
  · exact ⟨rfl, rfl, rfl, rfl, rfl, rfl, rfl, hbufQ⟩
  · split
    · exact ⟨rfl, rfl, rfl, rfl, rfl, rfl, rfl, hbufQ⟩
    · exact ⟨rfl, rfl, rfl, rfl, rfl, rfl, rfl, hbufQ⟩

/-- A frame is freed: its buffer is held, and the one held before is free. -/
structure Released (s : TxState) (b h : BufId) (s' : TxState) : Prop where
  others : ∀ c, c ≠ b → c ≠ h → s'.buf c = s.buf c
  held : s'.scTxbufHeld = some b
  free : s'.scTxbuf = s.scTxbuf ++ [h]
  out : s'.out = (s.returned b).reverse ++ s.out
  nbuf : s'.nbuf = s.nbuf
  tid : s'.tid = s.tid
  txq : s'.txq = s.txq
  cfg : s'.cfg = s.cfg

theorem athTxFreebuf_released (hheld : s.scTxbufHeld = some h) :
    ∃ s', athTxFreebuf s b = some s' ∧ Released s b h s' := by
  set s₁ := (athTgtSkbFree s b).modBuf b fun b =>
    { b with bfSkb := none, bfComp := none, bfNode := none, bfNext := none } with hs₁
  have hheld' : s₁.scTxbufHeld = some h := hheld
  have hfree : athTxFreebuf s b = some (scTxbufInsertTail
      (({ s₁ with scTxbufHeld := some b } : TxState).modBuf h fun b =>
        { b with bfRetries := 0, bfIsretried := false }) h) := by
    rw [athTxFreebuf, athBufToggle, ← hs₁, hheld']
    rfl
  refine ⟨_, hfree, ?_, rfl, rfl, ?_, rfl, rfl, rfl, rfl⟩
  · intro c hb hh
    exact (Function.update_of_ne hh ..).trans
      ((Function.update_of_ne hb ..).trans (Function.update_of_ne hb ..))
  · rfl

/-- The lists, the queues and the log are as before. -/
structure Aside (s s' : TxState) : Prop where
  free : s'.scTxbuf = s.scTxbuf
  out : s'.out = s.out
  tid : s'.tid = s.tid
  txq : s'.txq = s.txq
  cfg : s'.cfg = s.cfg

theorem Aside.trans {s'' : TxState} (h : Aside s s') (h' : Aside s' s'') : Aside s s'' :=
  ⟨h'.free.trans h.free, h'.out.trans h.out, h'.tid.trans h.tid, h'.txq.trans h.txq,
    h'.cfg.trans h.cfg⟩

/-- The second buffer holds the frame the first one held. -/
structure Moved (s : TxState) (b c : BufId) (s' : TxState) : Prop where
  state : (s'.buf c).toBufState = (s.buf b).toBufState
  node : (s'.buf c).bfNode = (s.buf b).bfNode
  skb : (s'.buf c).bfSkb = (s.buf b).bfSkb
  skbhead : (s'.buf c).bfSkbhead = (s.buf b).bfSkbhead
  endpt : (s'.buf c).bfEndpt = (s.buf b).bfEndpt
  cookie : (s'.buf c).bfCookie = (s.buf b).bfCookie
  others : ∀ d, d ≠ b → d ≠ c → s'.buf d = s.buf d
  held : c = b ∧ s'.scTxbufHeld = s.scTxbufHeld ∨
    s.scTxbufHeld = some c ∧ s'.scTxbufHeld = some b
  nbuf : s'.nbuf = s.nbuf
  aside : Aside s s'

theorem athBufToggle_moved {skb : SkbId} (hheld : s.scTxbufHeld = some h) (hne : h ≠ b)
    (hskb : (s.buf b).bfSkbhead = [skb]) :
    ∃ s', athBufToggle s b true = some (h, s') ∧ Moved s b h s' := by
  have hkept : (s.modBuf h fun x => { x with bfSkbhead := [] }).buf b = s.buf b :=
    s.modBuf_buf_of_ne h _ hne.symm
  obtain ⟨s₁, hmove⟩ : ∃ s₁, toggleMove s b h = some s₁ := by
    rw [toggleMove]
    dsimp only
    rw [hkept, hskb]
    exact ⟨_, rfl⟩
  have htoggle : athBufToggle s b true = some (h, { s₁ with scTxbufHeld := some b }) := by
    rw [athBufToggle, hheld]
    dsimp only
    rw [if_pos rfl, hmove]
    rfl
  rw [toggleMove] at hmove
  dsimp only at hmove
  rw [hkept, hskb] at hmove
  obtain rfl := Option.some.inj hmove
  refine ⟨_, htoggle, ⟨?_, ?_, ?_, ?_, ?_, ?_, ?_, .inr ⟨hheld, rfl⟩, rfl, ⟨rfl, rfl, rfl, rfl, rfl⟩⟩⟩
  · simp [athFilltxdesc, TxState.modBuf, TxState.setBuf, TxState.modDs, hne]
  · simp [athFilltxdesc, TxState.modBuf, TxState.setBuf, TxState.modDs, hne]
  · simp [athFilltxdesc, TxState.modBuf, TxState.setBuf, TxState.modDs, hne]
  · simp [athFilltxdesc, TxState.modBuf, TxState.setBuf, TxState.modDs, hne, hskb]
  · simp [athFilltxdesc, TxState.modBuf, TxState.setBuf, TxState.modDs, hne]
  · simp [athFilltxdesc, TxState.modBuf, TxState.setBuf, TxState.modDs, hne]
  · intro d hb hh
    simp [athFilltxdesc, TxState.modBuf, TxState.setBuf, TxState.modDs, hb, hh]

/-- A frame that stays in its buffer gets its own last descriptor back. -/
theorem moved_lastds (s : TxState) (b : BufId) :
    Moved s b b (s.modBuf b fun x => { x with bfLastds := b }) := by
  have hself := s.modBuf_buf_self b fun x => { x with bfLastds := b }
  constructor
  · rw [hself]
  · rw [hself]
  · rw [hself]
  · rw [hself]
  · rw [hself]
  · rw [hself]
  · intro d hd _
    exact s.modBuf_buf_of_ne b _ hd
  · exact .inl ⟨rfl, rfl⟩
  · rfl
  · exact ⟨rfl, rfl, rfl, rfl, rfl⟩

/-- A frame goes on to be sent again, in its own buffer or in the one held. -/
structure Resent (s : TxState) (b c : BufId) (s' : TxState) : Prop where
  requeued : Requeued s s' b c
  others : ∀ d, d ≠ b → d ≠ c → s'.buf d = s.buf d
  nbuf : ∀ skb, (s.buf b).bfSkb ≠ some skb → s'.nbuf skb = s.nbuf skb
  held : c = b ∧ s'.scTxbufHeld = s.scTxbufHeld ∨
    s.scTxbufHeld = some c ∧ s'.scTxbufHeld = some b
  aside : Aside s s'

/-- `ath_tx_set_retry` after the move. -/
theorem Moved.setRetry {skb : SkbId} (h : Moved s b c s₁) (hskb : (s.buf b).bfSkb = some skb)
    (hfew : (s.buf b).bfRetries < owlmaxRetries) :
    ∃ s', athTxSetRetry s₁ c = some s' ∧ Resent s b c s' := by
  have hset : athTxSetRetry s₁ c = some ((s₁.modBuf c fun b =>
      { b with bfIsretried := true, bfRetries := (b.bfRetries + 1) % 256 }).modNbuf skb markRetry) := by
    rw [athTxSetRetry, h.skb, hskb]
    rfl
  have hretries : (s₁.buf c).bfRetries = (s.buf b).bfRetries := congrArg BufState.bfRetries h.state
  have hbyte : ((s₁.buf c).bfRetries + 1) % 256 = (s.buf b).bfRetries + 1 := by
    rw [hretries]
    apply Nat.mod_eq_of_lt
    rw [owlmaxRetries] at hfew
    omega
  set s' := (s₁.modBuf c fun b =>
    { b with bfIsretried := true, bfRetries := (b.bfRetries + 1) % 256 }).modNbuf skb markRetry
  have hself : s'.buf c = { s₁.buf c with
      bfIsretried := true, bfRetries := ((s₁.buf c).bfRetries + 1) % 256 } :=
    Function.update_self ..
  have hnbuf : s'.nbuf = Function.update s.nbuf skb (markRetry (s.nbuf skb)) := by
    rw [← h.nbuf]
    rfl
  refine ⟨s', hset, ⟨⟨?_, ?_, ?_, ?_, ?_, ?_, ?_⟩, ?_, ?_, h.held,
    h.aside.trans ⟨rfl, rfl, rfl, rfl, rfl⟩⟩⟩
  · rw [hself, ← h.state, hbyte, hretries]
  · rw [hself, ← h.node]
  · rw [hself, ← h.skb]
  · rw [hself, ← h.skbhead]
  · rw [hself, ← h.endpt]
  · rw [hself, ← h.cookie]
  · intro skb' hskb'
    obtain rfl := Option.some.inj (hskb.symm.trans hskb')
    rw [hnbuf, Function.update_self]
  · intro d hb hc
    exact (Function.update_of_ne hc ..).trans (h.others d hb hc)
  · intro skb' hne
    rw [hnbuf, Function.update_of_ne]
    rintro rfl
    exact hne hskb

/-- A frame with retries left goes on to be sent again. -/
theorem athTxRetrySubframe_resent {skb : SkbId} (acc : CompAcc) (hheld : s.scTxbufHeld = some h)
    (hne : h ≠ b) (hskb : (s.buf b).bfSkb = some skb) (hhead : (s.buf b).bfSkbhead = [skb])
    (howner : s.tidOf b = some k) (hfew : (s.buf b).bfRetries < owlmaxRetries) :
    ∃ c s', athTxRetrySubframe s b acc = some ({ acc with bfQ := acc.bfQ ++ [c] }, s') ∧
      Resent s b c s' ∧ (c = b ∨ (s.buf b).bfNext = none) := by
  rw [athTxRetrySubframe, howner, Option.bind_some]
  dsimp only
  rw [if_neg (Nat.not_le.mpr hfew)]
  split
  case isTrue hlast =>
    obtain ⟨s₁, htoggle, hmoved⟩ := athBufToggle_moved hheld hne hhead
    obtain ⟨s', hset, hresent⟩ := hmoved.setRetry hskb hfew
    exact ⟨h, s', by rw [htoggle, Option.bind_some, hset]; rfl, hresent, .inr hlast⟩
  case isFalse =>
    obtain ⟨s', hset, hresent⟩ := (moved_lastds s b).setRetry hskb hfew
    exact ⟨b, s', by rw [Option.bind_some, hset]; rfl, hresent, .inl rfl⟩

/-! ## The loop -/

/-- What holds while the subframes are looked at: `done` are those behind, `rest` those in front. -/
structure Sorting (s₀ : TxState) (k : TidId) (acked : TxBuf → Bool) (done rest : List BufId)
    (acc : CompAcc) (s : TxState) : Prop where
  same : ∀ b ∈ rest, s.buf b = s₀.buf b
  sameHeader : ∀ b ∈ rest, ∀ skb ∈ (s₀.buf b).bfSkb, s.nbuf skb = s₀.nbuf skb
  apart : ∀ b ∈ rest, b ∉ acc.bfQ
  held : ∃ h, s.scTxbufHeld = some h ∧ h ∉ rest ∧ h ∉ acc.bfQ ∧ acc.bar ≠ some h
  again : List.Forall₂ (Requeued s₀ s) (s₀.fated acked .again done) acc.bfQ
  bar : acc.bar = (s₀.fated acked .dropped done).head?
  sameBar : ∀ d ∈ acc.bar, s.buf d = s₀.buf d ∧ d ∉ acc.bfQ ∧
    ∀ skb ∈ (s₀.buf d).bfSkb, s.nbuf skb = s₀.nbuf skb
  nbad : acc.nbad = (done.filter fun b => fate acked (s₀.buf b) ≠ .acked).length
  out : s.out = ((s₀.freed acked done).flatMap s₀.returned).reverse ++ s₀.out
  free : s.scTxbuf.length = s₀.scTxbuf.length + (s₀.freed acked done).length
  bufQ : (s.tid k).bufQ = (s₀.tid k).bufQ
  txq : s.txq = s₀.txq
  cfg : s.cfg = s₀.cfg

theorem Sorting.start (hagg : AggregateAt s k frames) : Sorting s k acked [] frames {} s where
  same := fun _ _ => rfl
  sameHeader := fun _ _ _ _ => rfl
  apart := by simp
  held := by
    obtain ⟨h, hheld, hout⟩ := hagg.held
    exact ⟨h, hheld, hout, by simp, by simp⟩
  again := .nil
  bar := rfl
  sameBar := by simp
  nbad := rfl
  out := rfl
  free := rfl
  bufQ := rfl
  txq := rfl
  cfg := rfl

/-- A frame stays requeued as long as its buffer and its header are left alone. -/
theorem Requeued.mono (hreq : Requeued s₀ s b c) (hbuf : s'.buf c = s.buf c)
    (hnbuf : ∀ skb ∈ (s₀.buf b).bfSkb, s'.nbuf skb = s.nbuf skb) : Requeued s₀ s' b c where
  state := (congrArg TxBuf.toBufState hbuf).trans hreq.state
  node := (congrArg TxBuf.bfNode hbuf).trans hreq.node
  skb := (congrArg TxBuf.bfSkb hbuf).trans hreq.skb
  skbhead := (congrArg TxBuf.bfSkbhead hbuf).trans hreq.skbhead
  endpt := (congrArg TxBuf.bfEndpt hbuf).trans hreq.endpt
  cookie := (congrArg TxBuf.bfCookie hbuf).trans hreq.cookie
  header := fun skb hskb => (hnbuf skb hskb).trans (hreq.header skb hskb)

theorem Requeued.of_same (hreq : Requeued s s' b c) (hbuf : s.buf b = s₀.buf b)
    (hnbuf : ∀ skb ∈ (s₀.buf b).bfSkb, s.nbuf skb = s₀.nbuf skb) : Requeued s₀ s' b c := by
  obtain ⟨hstate, hnode, hskb, hskbhead, hendpt, hcookie, hheader⟩ := hreq
  rw [hbuf] at hstate hnode hskb hskbhead hendpt hcookie hheader
  refine ⟨hstate, hnode, hskb, hskbhead, hendpt, hcookie, ?_⟩
  intro skb hmem
  rw [hheader skb hmem, hnbuf skb hmem]

theorem forall₂_mono {α β : Type} {R S : α → β → Prop} {l : List α} {m : List β}
    (h : List.Forall₂ R l m) (himp : ∀ a ∈ l, ∀ b ∈ m, R a b → S a b) : List.Forall₂ S l m := by
  induction h with
  | nil => exact .nil
  | cons hab _ ih =>
    refine .cons (himp _ List.mem_cons_self _ List.mem_cons_self hab) (ih ?_)
    intro a ha b hb
    exact himp a (List.mem_cons_of_mem _ ha) b (List.mem_cons_of_mem _ hb)

theorem Sorting.level (hs : Sorting s₀ k acked done rest acc s) (hl : Level k s s') :
    Sorting s₀ k acked done rest acc s' where
  same := hl.buf ▸ hs.same
  sameHeader := hl.nbuf ▸ hs.sameHeader
  apart := hs.apart
  held := hl.held ▸ hs.held
  again := forall₂_mono hs.again fun _ _ c _ hreq =>
    hreq.mono (congrFun hl.buf c) fun skb _ => congrFun hl.nbuf skb
  bar := hs.bar
  sameBar := by
    rw [hl.buf, hl.nbuf]
    exact hs.sameBar
  nbad := hs.nbad
  out := hl.out.trans hs.out
  free := (congrArg List.length hl.free).trans hs.free
  bufQ := hl.bufQ.trans hs.bufQ
  txq := hl.txq.trans hs.txq
  cfg := hl.cfg.trans hs.cfg

theorem AggregateAt.fresh (hagg : AggregateAt s k (done ++ b :: rest)) : b ∉ done ∧ b ∉ rest := by
  have hsplit := List.nodup_append.mp hagg.distinct
  refine ⟨?_, (List.nodup_cons.mp hsplit.2.1).1⟩
  intro hb
  exact hsplit.2.2 b hb b List.mem_cons_self rfl

theorem Sorting.bar_mem (hs : Sorting s₀ k acked done rest acc s) (hd : d ∈ acc.bar) : d ∈ done := by
  rw [hs.bar] at hd
  exact List.mem_of_mem_filter (List.mem_of_mem_head? hd)

/-- A subframe is freed. -/
theorem Sorting.release {nbad : ℕ} (hs : Sorting s₀ k acked done (b :: rest) acc s)
    (hagg : AggregateAt s₀ k (done ++ b :: rest)) (hheld : s.scTxbufHeld = some h)
    (hr : Released s b h s') (hagain : fate acked (s₀.buf b) ≠ .again)
    (hbar : acc.bar = (s₀.fated acked .dropped (done ++ [b])).head?)
    (hfreed : s₀.freed acked (done ++ [b]) = s₀.freed acked done ++ [b])
    (hnbad : nbad = ((done ++ [b]).filter fun b => fate acked (s₀.buf b) ≠ .acked).length) :
    Sorting s₀ k acked (done ++ [b]) rest { acc with nbad := nbad } s' := by
  obtain ⟨hdone, hrest⟩ := hagg.fresh
  obtain ⟨h', hheld', hh, hhQ, hhbar⟩ := hs.held
  obtain rfl := Option.some.inj (hheld.symm.trans hheld')
  have hbQ : b ∉ acc.bfQ := hs.apart b List.mem_cons_self
  have hbuf := hs.same b List.mem_cons_self
  refine ⟨?_, ?_, fun c hc => hs.apart c (List.mem_cons_of_mem b hc), ⟨b, hr.held, hrest, hbQ, ?_⟩,
    ?_, hbar, ?_, hnbad, ?_, ?_, ?_, hr.txq.trans hs.txq, hr.cfg.trans hs.cfg⟩
  · intro c hc
    have hcb : c ≠ b := ne_of_mem_of_not_mem hc hrest
    have hch : c ≠ h := ne_of_mem_of_not_mem (List.mem_cons_of_mem b hc) hh
    rw [hr.others c hcb hch]
    exact hs.same c (List.mem_cons_of_mem b hc)
  · intro c hc
    rw [hr.nbuf]
    exact hs.sameHeader c (List.mem_cons_of_mem b hc)
  · intro hb
    exact hdone (hs.bar_mem hb)
  · rw [fated_snoc, if_neg hagain, List.append_nil]
    refine forall₂_mono hs.again ?_
    intro a _ c hc hreq
    have hcb : c ≠ b := ne_of_mem_of_not_mem hc hbQ
    have hch : c ≠ h := ne_of_mem_of_not_mem hc hhQ
    exact hreq.mono (hr.others c hcb hch) fun skb _ => congrFun hr.nbuf skb
  · intro d hd
    obtain ⟨hsame, hout, hheader⟩ := hs.sameBar d hd
    have hdb : d ≠ b := ne_of_mem_of_not_mem (hs.bar_mem hd) hdone
    have hdh : d ≠ h := by
      rintro rfl
      exact hhbar hd
    rw [hr.others d hdb hdh, hr.nbuf]
    exact ⟨hsame, hout, hheader⟩
  · have hreturned : s.returned b = s₀.returned b := by rw [TxState.returned, hbuf]; rfl
    rw [hr.out, hs.out, hfreed, hreturned, List.flatMap_append, List.reverse_append,
      List.flatMap_singleton, List.append_assoc]
  · rw [hr.free, hfreed, List.length_append, List.length_append, hs.free]
    exact Nat.add_assoc _ _ _
  · rw [hr.tid]
    exact hs.bufQ

/-- The first subframe that is dropped is kept for the block-ack request. -/
theorem Sorting.keep {nbad : ℕ} (hs : Sorting s₀ k acked done (b :: rest) acc s)
    (hagg : AggregateAt s₀ k (done ++ b :: rest)) (hnone : acc.bar = none)
    (hdropped : fate acked (s₀.buf b) = .dropped)
    (hnbad : nbad = ((done ++ [b]).filter fun b => fate acked (s₀.buf b) ≠ .acked).length) :
    Sorting s₀ k acked (done ++ [b]) rest { acc with bar := some b, nbad := nbad } s := by
  obtain ⟨hdone, hrest⟩ := hagg.fresh
  obtain ⟨h, hheld, hh, hhQ, hhbar⟩ := hs.held
  have hfirst : s₀.fated acked .dropped done = [] := by
    have hbar := hs.bar
    rw [hnone] at hbar
    exact List.head?_eq_none_iff.mp hbar.symm
  have hfreed := freed_snoc_first hdropped hfirst
  refine ⟨fun c hc => hs.same c (List.mem_cons_of_mem b hc),
    fun c hc => hs.sameHeader c (List.mem_cons_of_mem b hc),
    fun c hc => hs.apart c (List.mem_cons_of_mem b hc),
    ⟨h, hheld, fun hmem => hh (List.mem_cons_of_mem b hmem), hhQ, ?_⟩, ?_, ?_, ?_, hnbad, ?_, ?_,
    hs.bufQ, hs.txq, hs.cfg⟩
  · rintro ⟨⟩
    exact hh List.mem_cons_self
  · rw [fated_snoc, hdropped]
    simpa using hs.again
  · rw [fated_snoc, hfirst, if_pos hdropped]
    rfl
  · rintro d ⟨⟩
    exact ⟨hs.same b List.mem_cons_self, hs.apart b List.mem_cons_self,
      hs.sameHeader b List.mem_cons_self⟩
  · rw [hfreed]
    exact hs.out
  · rw [hfreed]
    exact hs.free

/-- A subframe goes on to be sent again. -/
theorem Sorting.resend {nbad : ℕ} (hs : Sorting s₀ k acked done (b :: rest) acc s)
    (hagg : AggregateAt s₀ k (done ++ b :: rest)) (hr : Resent s b c s')
    (hlast : c = b ∨ rest = []) (hagain : fate acked (s₀.buf b) = .again)
    (hnbad : nbad = ((done ++ [b]).filter fun b => fate acked (s₀.buf b) ≠ .acked).length) :
    Sorting s₀ k acked (done ++ [b]) rest { acc with bfQ := acc.bfQ ++ [c], nbad := nbad } s' := by
  obtain ⟨hdone, hrest⟩ := hagg.fresh
  obtain ⟨h, hheld, hh, hhQ, hhbar⟩ := hs.held
  have hbQ : b ∉ acc.bfQ := hs.apart b List.mem_cons_self
  have hbuf := hs.same b List.mem_cons_self
  have hfreed := freed_snoc_again done hagain
  -- the buffer is the subframe's own, or the one that was held
  have hc : c = b ∨ c = h := by
    rcases hr.held with ⟨hcb, -⟩ | ⟨hc, -⟩
    · exact .inl hcb
    · exact .inr (Option.some.inj (hc.symm.trans hheld))
  have hcQ : c ∉ acc.bfQ := by
    rcases hc with rfl | rfl
    · exact hbQ
    · exact hhQ
  have hbar : ∀ d ∈ acc.bar, d ≠ b ∧ d ≠ c := by
    intro d hd
    have hdb : d ≠ b := ne_of_mem_of_not_mem (hs.bar_mem hd) hdone
    refine ⟨hdb, ?_⟩
    rcases hc with rfl | rfl
    · exact hdb
    · rintro rfl
      exact hhbar hd
  have hskb : ∀ a ∈ done ++ b :: rest, a ≠ b → ∀ skb ∈ (s₀.buf a).bfSkb, s'.nbuf skb = s.nbuf skb := by
    intro a ha hne skb hskb
    apply hr.nbuf
    intro hb
    rw [hbuf] at hb
    exact hne (hagg.apart a ha b (by simp) (Eq.trans hskb hb.symm))
  refine ⟨?_, ?_, ?_, ?_, ?_, ?_, ?_, hnbad, ?_, ?_, ?_, hr.aside.txq.trans hs.txq,
    hr.aside.cfg.trans hs.cfg⟩
  · intro a ha
    have hab : a ≠ b := ne_of_mem_of_not_mem ha hrest
    have hac : a ≠ c := by
      rcases hlast with rfl | rfl
      · exact hab
      · cases ha
    rw [hr.others a hab hac]
    exact hs.same a (List.mem_cons_of_mem b ha)
  · intro a ha skb hskb'
    have hmem : a ∈ done ++ b :: rest := List.mem_append_right _ (List.mem_cons_of_mem b ha)
    rw [hskb a hmem (ne_of_mem_of_not_mem ha hrest) skb hskb']
    exact hs.sameHeader a (List.mem_cons_of_mem b ha) skb hskb'
  · intro a ha hmem
    rcases List.mem_append.mp hmem with hmem | hmem
    · exact hs.apart a (List.mem_cons_of_mem b ha) hmem
    · obtain rfl := List.mem_singleton.mp hmem
      rcases hlast with rfl | rfl
      · exact hrest ha
      · cases ha
  · rcases hr.held with ⟨rfl, hheld'⟩ | ⟨hheldc, hheld'⟩
    · refine ⟨h, hheld'.trans hheld, fun hmem => hh (List.mem_cons_of_mem c hmem), ?_, hhbar⟩
      intro hmem
      rcases List.mem_append.mp hmem with hmem | hmem
      · exact hhQ hmem
      · exact hh (List.mem_singleton.mp hmem ▸ List.mem_cons_self)
    · obtain rfl := Option.some.inj (hheldc.symm.trans hheld)
      refine ⟨b, hheld', hrest, ?_, fun hb => hdone (hs.bar_mem hb)⟩
      intro hmem
      rcases List.mem_append.mp hmem with hmem | hmem
      · exact hbQ hmem
      · exact hh (List.mem_singleton.mp hmem ▸ List.mem_cons_self)
  · rw [fated_snoc, if_pos hagain]
    have hold : List.Forall₂ (Requeued s₀ s') (s₀.fated acked .again done) acc.bfQ := by
      refine forall₂_mono hs.again ?_
      intro a ha d hd hreq
      have hadone : a ∈ done := List.mem_of_mem_filter ha
      have hdb : d ≠ b := ne_of_mem_of_not_mem hd hbQ
      have hdc : d ≠ c := ne_of_mem_of_not_mem hd hcQ
      refine hreq.mono (hr.others d hdb hdc) ?_
      exact hskb a (List.mem_append_left _ hadone) (ne_of_mem_of_not_mem hadone hdone)
    have hnew : Requeued s₀ s' b c :=
      hr.requeued.of_same hbuf (hs.sameHeader b List.mem_cons_self)
    exact List.rel_append hold (.cons hnew .nil)
  · rw [fated_snoc, hagain]
    simpa using hs.bar
  · intro d hd
    obtain ⟨hsame, hout, hheader⟩ := hs.sameBar d hd
    obtain ⟨hdb, hdc⟩ := hbar d hd
    refine ⟨(hr.others d hdb hdc).trans hsame, ?_, ?_⟩
    · intro hmem
      rcases List.mem_append.mp hmem with hmem | hmem
      · exact hout hmem
      · exact hdc (List.mem_singleton.mp hmem)
    · intro skb hskb'
      have hmem : d ∈ done ++ b :: rest := List.mem_append_left _ (hs.bar_mem hd)
      rw [hskb d hmem hdb skb hskb']
      exact hheader skb hskb'
  · rw [hfreed]
    exact hr.aside.out.trans hs.out
  · rw [hfreed]
    exact (congrArg List.length hr.aside.free).trans hs.free
  · rw [hr.aside.tid]
    exact hs.bufQ

/-- One round of the loop. -/
theorem Sorting.step (hs : Sorting s₀ k acked done (b :: rest) acc s)
    (hagg : AggregateAt s₀ k (done ++ b :: rest)) (stat : TxStat) (rcs : Fin 4 → RcSeries)
    (n : ℕ) :
    ∃ acc' s', compAggrLoop k stat rcs acked (n + 1) (some b) acc s =
        compAggrLoop k stat rcs acked n rest.head? acc' s' ∧
      Sorting s₀ k acked (done ++ [b]) rest acc' s' := by
  have hmem : b ∈ done ++ b :: rest := by simp
  have hbuf := hs.same b List.mem_cons_self
  have hnext : (s.buf b).bfNext = rest.head? := by
    rw [hbuf]
    exact hagg.chain.next_eq
  have howner : s.tidOf b = some k := by
    rw [TxState.tidOf, hbuf]
    exact hagg.owner b hmem
  obtain ⟨skb, hskb, hhead⟩ := hagg.carries b hmem
  rw [← hbuf] at hskb hhead
  obtain ⟨h, hheld, hh, -, -⟩ := hs.held
  have hhb : h ≠ b := fun heq => hh (heq ▸ List.mem_cons_self)
  rw [compAggrLoop]
  dsimp only
  rw [hnext]
  split
  case isTrue hacked =>
    have hfate : fate acked (s₀.buf b) = .acked := by
      rw [fate, ← hbuf, if_pos hacked]
    have hl := level_updateBaw s k (seqnoFromBfSeqno (s.buf b).bfSeqno) b stat (some rcs) true
    obtain ⟨s', hfree, hreleased⟩ := athTxFreebuf_released (b := b) (hl.held.trans hheld)
    refine ⟨acc, s', by rw [ackSubframe, hfree]; rfl, ?_⟩
    have hcount : acc.nbad = ((done ++ [b]).filter fun b => fate acked (s₀.buf b) ≠ .acked).length := by
      rw [hs.nbad, List.filter_append, List.length_append]
      simp [hfate]
    refine (hs.level hl).release hagg (hl.held.trans hheld) hreleased (by simp [hfate]) ?_
      (freed_snoc_acked done hfate) hcount
    rw [fated_snoc, hs.bar]
    simp [hfate]
  case isFalse hacked =>
    have hcount : acc.nbad + 1 =
        ((done ++ [b]).filter fun b => fate acked (s₀.buf b) ≠ .acked).length := by
      have hfate : fate acked (s₀.buf b) ≠ .acked := by
        rw [fate, ← hbuf, if_neg hacked]
        split <;> decide
      rw [hs.nbad, List.filter_append, List.length_append]
      simp [hfate]
    by_cases hfew : (s.buf b).bfRetries < owlmaxRetries
    · have hfate : fate acked (s₀.buf b) = .again := by
        rw [fate, ← hbuf, if_neg hacked, if_pos hfew]
      obtain ⟨c, s', hretry, hresent, hlast⟩ :=
        athTxRetrySubframe_resent acc hheld hhb hskb hhead howner hfew
      refine ⟨_, s', by rw [hretry]; rfl, hs.resend hagg hresent ?_ hfate hcount⟩
      rw [hnext, List.head?_eq_none_iff] at hlast
      exact hlast
    · have hfate : fate acked (s₀.buf b) = .dropped := by
        rw [fate, ← hbuf, if_neg hacked, if_neg hfew]
      have hl := level_updateBaw s k (seqnoFromBfSeqno (s.buf b).bfSeqno) b
        (s.ds (s.buf b).bfLastds).dsTxstat none false
      rw [athTxRetrySubframe, howner, Option.bind_some]
      dsimp only
      rw [if_pos (Nat.le_of_not_lt hfew)]
      cases hbar : acc.bar with
      | none => exact ⟨_, _, rfl, (hs.level hl).keep hagg hbar hfate hcount⟩
      | some d =>
        obtain ⟨s', hfree, hreleased⟩ := athTxFreebuf_released (b := b) (hl.held.trans hheld)
        have hsome : s₀.fated acked .dropped done ≠ [] := by
          intro hnil
          rw [hs.bar, hnil] at hbar
          cases hbar
        refine ⟨_, s', by dsimp only; rw [hfree]; rfl, (hs.level hl).release hagg
          (hl.held.trans hheld) hreleased (by simp [hfate]) ?_
          (freed_snoc_dropped hfate hsome hagg.fresh.1) hcount⟩
        obtain ⟨e, l, hcons⟩ := List.exists_cons_of_ne_nil hsome
        rw [fated_snoc, hs.bar, hcons]
        rfl

/-- The loop looks at all subframes. -/
theorem Sorting.loop (hs : Sorting s₀ k acked done rest acc s)
    (stat : TxStat) (rcs : Fin 4 → RcSeries) {n : ℕ} (hagg : AggregateAt s₀ k (done ++ rest))
    (hn : rest.length ≤ n) :
    ∃ acc' s', compAggrLoop k stat rcs acked n rest.head? acc s = some (acc', s') ∧
      Sorting s₀ k acked (done ++ rest) [] acc' s' := by
  induction rest generalizing done acc s n with
  | nil =>
    refine ⟨acc, s, ?_, by rwa [List.append_nil]⟩
    cases n <;> rfl
  | cons b rest ih =>
    cases n with
    | zero => cases hn
    | succ n =>
      obtain ⟨acc₁, s₁, hround, hs₁⟩ := hs.step hagg stat rcs n
      rw [List.append_cons] at hagg
      obtain ⟨acc', s', hloop, hsorted⟩ := ih hs₁ hagg (Nat.le_of_succ_le_succ hn)
      refine ⟨acc', s', hround.trans hloop, ?_⟩
      rwa [List.append_cons]

/-! ## The end of the completion -/

theorem athTgtTxqAddUcast_axqQ (s : TxState) (b : BufId) (q : QueueId) :
    ((athTgtTxqAddUcast s b).txq q).axqQ =
      if q = (s.buf b).bfTxq then (s.txq q).axqQ ++ [b] else (s.txq q).axqQ := by
  have hlink : ∀ link, (axqLinkTo s link b).txq = s.txq := by
    intro link
    cases link <;> rfl
  rw [athTgtTxqAddUcast]
  dsimp only [TxState.modTxq]
  rw [hlink]
  by_cases hq : q = (s.buf b).bfTxq
  · rw [hq, Function.update_self, if_pos rfl]
  · rw [Function.update_of_ne hq, if_neg hq]

/-- `ath_bar_tx` makes the frame a block-ack request and hands it to the hardware. -/
theorem athBarTx_built {skb : SkbId} (hskb : (s.buf d).bfSkb = some skb)
    (hhead : (s.buf d).bfSkbhead = [skb]) :
    ∃ s', athBarTx s k d = some s' ∧ BarBuilt s s' k d ∧ (s'.tid k).bufQ = (s.tid k).bufQ ∧
      (∀ c, c ≠ d → s'.buf c = s.buf c) ∧ (∀ skb', skb' ≠ skb → s'.nbuf skb' = s.nbuf skb') ∧
      s'.out = s.out ∧ s'.scTxbuf = s.scTxbuf := by
  have htid : (athAggrPauseTid s k).tid k = { s.tid k with paused := true } :=
    s.modTid_tid_self k fun tid => { tid with paused := true }
  have hstart : ((athAggrPauseTid s k).tid k).seqStart = (s.tid k).seqStart := by rw [htid]
  have hpaused : ((athAggrPauseTid s k).buf d).bfSkbhead = [skb] := hhead
  set x : TxBuf := { s.buf d with
    bfSkbhead := [skb], bfSeqno := (s.tid k).seqStart * 16, bfComp := some .bar, bfTidno := k.2,
    bfNode := some k.1, bfIsaggr := false, bfNext := none }
  set s₁ := ((athAggrPauseTid s k).modNbuf skb (barFrame k.2 (s.tid k).seqStart)).modBuf d fun _ => x
    with hs₁
  have hbar : athBarTx s k d = some (athTgtTxqAddUcast (athFilltxdesc s₁ d) d) := by
    rw [athBarTx]
    dsimp only
    rw [hpaused]
    dsimp only
    rw [hstart]
    rfl
  obtain ⟨hkept, hbuf⟩ := athTgtTxqAddUcast_spares (athFilltxdesc s₁ d) d
  have hself : (athFilltxdesc s₁ d).buf d = { x with bfLastds := d } := by
    have hx : (s₁.modDs d fun ds => { ds with dsLink := none }).buf d = x := Function.update_self ..
    rw [athFilltxdesc, TxState.modBuf_buf_self, hx]
  have htid' : (athTgtTxqAddUcast (athFilltxdesc s₁ d) d).tid k = { s.tid k with paused := true } :=
    (congrFun hkept k).trans htid
  have hrest : (athTgtTxqAddUcast (athFilltxdesc s₁ d) d).nbuf =
      Function.update s.nbuf skb (barFrame k.2 (s.tid k).seqStart (s.nbuf skb)) ∧
      (athTgtTxqAddUcast (athFilltxdesc s₁ d) d).out = s.out ∧
      (athTgtTxqAddUcast (athFilltxdesc s₁ d) d).scTxbuf = s.scTxbuf := by
    rw [athTgtTxqAddUcast]
    cases ((athFilltxdesc s₁ d).txq ((athFilltxdesc s₁ d).buf d).bfTxq).axqLink <;>
      exact ⟨rfl, rfl, rfl⟩
  obtain ⟨hnbuf, hout, hfree⟩ := hrest
  refine ⟨_, hbar, ⟨?_, ?_, ?_, ?_, ?_⟩, ?_, ?_, ?_, hout, hfree⟩
  · intro q
    rw [athTgtTxqAddUcast_axqQ, hself]
    rfl
  · rw [hbuf, hself]
  · rw [hbuf, hself, hhead]
  · intro skb' hskb'
    obtain rfl := Option.some.inj (hskb.symm.trans hskb')
    rw [hnbuf, htid', Function.update_self]
  · rw [htid']
  · rw [htid']
  · intro c hc
    rw [hbuf]
    exact (Function.update_of_ne hc ..).trans (Function.update_of_ne hc ..)
  · intro skb' hne
    rw [hnbuf, Function.update_of_ne hne]

/-- The frames to send again go in front of the queue. -/
theorem prepended (s : TxState) (k : TidId) (q : QueueId) (again : List BufId) :
    ∃ s', (if again = [] then s else athTgtTxEnqueue (prependBufQ s k again) q k) = s' ∧
      (s'.tid k).bufQ = again ++ (s.tid k).bufQ ∧ (s'.tid k).paused = (s.tid k).paused ∧
      (s'.tid k).seqStart = (s.tid k).seqStart ∧ s'.buf = s.buf ∧ s'.nbuf = s.nbuf ∧
      s'.out = s.out ∧ s'.scTxbuf = s.scTxbuf ∧ ∀ q', (s'.txq q').axqQ = (s.txq q').axqQ := by
  refine ⟨_, rfl, ?_⟩
  split
  case isTrue hnil =>
    rw [hnil]
    exact ⟨rfl, rfl, rfl, rfl, rfl, rfl, rfl, fun _ => rfl⟩
  case isFalse =>
    have hself : (prependBufQ s k again).tid k =
        { s.tid k with bufQ := again ++ (s.tid k).bufQ } := s.modTid_tid_self k _
    rw [athTgtTxEnqueue, hself]
    split
    · rw [hself]
      exact ⟨rfl, rfl, rfl, rfl, rfl, rfl, rfl, fun _ => rfl⟩
    · split
      · rw [hself]
        exact ⟨rfl, rfl, rfl, rfl, rfl, rfl, rfl, fun _ => rfl⟩
      · have htid := (prependBufQ s k again).modTid_tid_self k fun tid => { tid with sched := true }
        rw [hself] at htid
        have hbufQ := congrArg Tid.bufQ htid
        have hpaused := congrArg Tid.paused htid
        have hstart := congrArg Tid.seqStart htid
        refine ⟨hbufQ, hpaused, hstart, rfl, rfl, rfl, rfl, ?_⟩
        intro q'
        rw [TxState.modTxq]
        dsimp only
        by_cases hq : q' = q
        · rw [hq, Function.update_self]
          rfl
        · rw [Function.update_of_ne hq]
          rfl

/-- What the loop has collected goes to its places. -/
theorem Sorting.finish (hs : Sorting s₀ k acked frames [] acc s) (hagg : AggregateAt s₀ k frames)
    (q : QueueId) :
    ∃ s', finishAggr (s.emit (.rateTxComplete k.1 frames.length acc.nbad)) k q acc = some s' ∧
      Completed s₀ k acked frames s' := by
  set s₁ := s.emit (.rateTxComplete k.1 frames.length acc.nbad) with hs₁
  have hout : s₁.out = .rateTxComplete k.1 frames.length
      (frames.filter fun b => fate acked (s₀.buf b) ≠ .acked).length ::
      ((s₀.freed acked frames).flatMap s₀.returned).reverse ++ s₀.out := by
    rw [← hs.nbad, List.cons_append, ← hs.out]
    rfl
  rw [finishAggr]
  cases hbar : acc.bar with
  | none =>
    have hnone : s₀.fated acked .dropped frames = [] := by
      rw [hs.bar] at hbar
      exact List.head?_eq_none_iff.mp hbar
    obtain ⟨s', hs', hbufQ, -, -, hbuf, hnbuf, hout', hfree, haxq⟩ := prepended s₁ k q acc.bfQ
    refine ⟨s', congrArg some hs', ⟨acc.bfQ, ?_, ?_⟩, hout'.trans hout, ?_, ?_, ?_⟩
    · rw [hbufQ]
      exact congrArg (acc.bfQ ++ ·) hs.bufQ
    · refine forall₂_mono hs.again fun a _ c _ hreq => ?_
      exact hreq.mono (congrFun hbuf c) fun skb _ => congrFun hnbuf skb
    · rw [hfree]
      exact hs.free
    · intro _ q'
      rw [haxq, ← hs.txq]
      rfl
    · rw [hnone]
      simp
  | some d =>
    obtain ⟨hsame, hdQ, hheader⟩ := hs.sameBar d hbar
    have hmem : d ∈ frames := hs.bar_mem hbar
    obtain ⟨skb, hskb, hhead⟩ := hagg.carries d hmem
    rw [← hsame] at hskb hhead
    obtain ⟨s₂, hbuilt, hb, hbufQ₂, hbuf₂, hnbuf₂, hout₂, hfree₂⟩ :=
      athBarTx_built (s := s₁) (k := k) hskb hhead
    obtain ⟨s', hs', hbufQ, hpaused, hstart, hbuf, hnbuf, hout', hfree, haxq⟩ :=
      prepended s₂ k q acc.bfQ
    refine ⟨s', by dsimp only; rw [hbuilt]; exact congrArg some hs', ⟨acc.bfQ, ?_, ?_⟩,
      (hout'.trans hout₂).trans hout, ?_, ?_, ?_⟩
    · rw [hbufQ, hbufQ₂]
      exact congrArg (acc.bfQ ++ ·) hs.bufQ
    · refine forall₂_mono hs.again fun a ha c hc hreq => ?_
      have hcd : c ≠ d := ne_of_mem_of_not_mem hc hdQ
      refine hreq.mono ((congrFun hbuf c).trans (hbuf₂ c hcd)) fun skb' hskb' => ?_
      have hne : skb' ≠ skb := by
        rintro rfl
        have had : a = d := by
          apply hagg.apart a (List.mem_of_mem_filter ha) d hmem
          exact Eq.trans hskb' (hsame ▸ hskb.symm)
        have hfate := (List.mem_filter.mp ha).2
        have hdrop : d ∈ s₀.fated acked .dropped frames := by
          rw [hs.bar] at hbar
          exact List.mem_of_mem_head? hbar
        have hfate' := (List.mem_filter.mp hdrop).2
        rw [had] at hfate
        simp only [decide_eq_true_eq] at hfate hfate'
        rw [hfate] at hfate'
        cases hfate'
      exact (congrFun hnbuf skb').trans (hnbuf₂ skb' hne)
    · rw [hfree, hfree₂]
      exact hs.free
    · intro hnone
      rw [hs.bar, hnone] at hbar
      cases hbar
    · rw [← hs.bar, hbar]
      rintro e ⟨⟩
      refine ⟨?_, ?_, ?_, ?_, hpaused.trans hb.paused⟩
      · intro q'
        rw [haxq, hb.queued q', ← hs.txq, ← hsame]
        rfl
      · rw [hbuf]
        exact hb.comp
      · rw [hbuf, ← hsame]
        exact hb.skbhead
      · intro skb' hskb'
        rw [hnbuf, hstart, ← hheader skb' hskb']
        rw [← hsame] at hskb'
        exact hb.frame skb' hskb'

/-- The completion of an aggregate puts every subframe into one of three classes. -/
theorem aggregate_completed {bf : BufId} {more : List BufId} (hagg : AggregateAt s k (bf :: more))
    (haggr : (s.buf bf).bfIsaggr = true) (hcount : (s.buf bf).bfNframes = (bf :: more).length)
    (hclean : (s.tid k).cleanupInprogres = false)
    (hstat : (s.ds (s.buf bf).bfLastds).dsTxstat = stat) (hfilt : stat.tsFlags ≠ halTxSwFiltered) :
    ∃ s', athTgtTxCompAggr s k bf = some s' ∧
      Completed s k (fun b => Acknowledged stat b) (bf :: more) s' := by
  have hstart : Sorting s k (fun b => Acknowledged stat b) [] (bf :: more) {} s := .start hagg
  obtain ⟨acc, s₁, hloop, hsorted⟩ := hstart.loop stat (s.buf bf).bfRcs hagg hagg.few
  obtain ⟨s', hfinish, hcompleted⟩ := hsorted.finish hagg (s.buf bf).bfTxq
  refine ⟨s', ?_, hcompleted⟩
  have herror : (∀ b, ¬Acknowledged stat b) → athTxCompAggrError s k bf = some s' := by
    intro hnone
    have hacked : (fun b => decide (Acknowledged stat b)) = fun _ => false :=
      funext fun b => decide_eq_false (hnone b)
    have hall : acc.nbad = (bf :: more).length := by
      rw [hsorted.nbad, hacked, List.filter_eq_self.mpr]
      · rfl
      · intro b _
        exact decide_eq_true (fate_ne_acked rfl)
    rw [hacked] at hloop
    rw [hall] at hfinish
    rw [athTxCompAggrError]
    dsimp only
    rw [hstat, hcount]
    exact Option.bind_eq_some_iff.mpr ⟨(acc, s₁), hloop, hfinish⟩
  rw [athTgtTxCompAggr]
  dsimp only
  rw [hclean, hstat, haggr, if_neg (by simp), if_neg hfilt, if_neg (by simp)]
  split
  case isTrue hxretry =>
    apply herror
    rintro b ⟨hok, -⟩
    rw [hok] at hxretry
    exact hxretry (by decide)
  case isFalse =>
    split
    case isTrue hbabug =>
      apply herror
      rintro b ⟨-, hba, -⟩
      exact hba hbabug.2
    case isFalse hba =>
      have hacked : (fun b => decide (Acknowledged stat b)) =
          fun b => decide (stat.tsStatus = 0) && baIsset stat b := by
        funext b
        rw [Bool.eq_iff_iff, decide_eq_true_eq, Bool.and_eq_true, decide_eq_true_eq]
        constructor
        · rintro ⟨hok, -, -, hbit⟩
          exact ⟨hok, hbit⟩
        · rintro ⟨hok, hbit⟩
          exact ⟨hok, fun hflag => hba ⟨hok, hflag⟩, BitVec.lt_of_getLsbD hbit, hbit⟩
      rw [hacked] at hloop
      rw [hcount]
      exact Option.bind_eq_some_iff.mpr ⟨(acc, s₁), hloop, hfinish⟩

end

/-- Two subframes wait at the hardware behind one that was sent before them. -/
theorem aggregate_completed_two : ∃ sc : Softc, AggregateAt sc.tx (0, 0) [2, 3] ∧
    ∃ s', athTgtTxCompAggr sc.tx (0, 0) 2 = some s' ∧
      Completed sc.tx (0, 0) (fun b => Acknowledged (sc.tx.ds 3).dsTxstat b) [2, 3] s' := by
  obtain ⟨sc, -, hnext, hskb, hhead, htid, hheld, htx, haggr, hcount, hclean, hlast, hfilt⟩ :=
    Machine.exists_of_runWhere transmit.Init step (fun _ _ => True)
    (P := fun sc => ((sc.tx.buf 2).bfNext = some 3 ∧ (sc.tx.buf 3).bfNext = none) ∧
      ((sc.tx.buf 2).bfSkb = some 1 ∧ (sc.tx.buf 3).bfSkb = some 2) ∧
      ((sc.tx.buf 2).bfSkbhead = [1] ∧ (sc.tx.buf 3).bfSkbhead = [2]) ∧
      (sc.tx.tidOf 2 = some (0, 0) ∧ sc.tx.tidOf 3 = some (0, 0)) ∧
      sc.tx.scTxbufHeld = some 1 ∧ sc.tx.cfg.txBufs = 4 ∧ (sc.tx.buf 2).bfIsaggr = true ∧
      (sc.tx.buf 2).bfNframes = 2 ∧ (sc.tx.tid (0, 0)).cleanupInprogres = false ∧
      (sc.tx.buf 2).bfLastds = 3 ∧ (sc.tx.ds 3).dsTxstat.tsFlags ≠ halTxSwFiltered)
    (s := attach smallConfig steadyAnswers)
    [.icUpdate 65535 false, .nodeCreate (createNode 0), .enableAggr 0 0 true,
      .recvData 0 (dataTo 0) blankFrame, .recvData 0 (dataTo 0) blankFrame,
      .recvData 0 (dataTo 0) blankFrame, .processq 0 .active sent] (by decide +kernel)
  have hagg : AggregateAt sc.tx (0, 0) [2, 3] := by
    refine ⟨⟨rfl, hnext.1, hnext.2⟩, by decide, htx ▸ by decide, ?_, ?_, ?_, 1, hheld, by decide⟩
    · simp [htid]
    · simp [hskb, hhead]
    · simp [hskb]
  refine ⟨sc, hagg, ?_⟩
  have h := aggregate_completed hagg haggr hcount hclean rfl (by rw [hlast]; exact hfilt)
  rw [hlast] at h
  exact h

end Ath9kHtc.Tx
