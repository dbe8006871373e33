import Mathlib.Algebra.BigOperators.Group.Finset.Piecewise
import Mathlib.Algebra.BigOperators.Group.Multiset.Basic
import Mathlib.Algebra.Order.Group.Multiset
import Mathlib.Data.Fintype.Basic
import Mathlib.Data.Fintype.Prod
import Mathlib.Tactic.Abel
import Ath9kHtc.Tx.Completion
import Ath9kHtc.Tx.Session

/-!
# Where the buffers are

The part of the transmit path that says where each buffer is and what it holds, and the
condition under which every buffer is where its contents say.
-/

namespace Ath9kHtc.Tx

/-- Everything of a TID but its place on a queue of TIDs. -/
def Tid.unsched (tid : Tid) : Tid := { tid with sched := false }

structure Ledger where
  txBufs : ℕ
  buf : BufId → TxBuf
  free : List BufId
  held : Option BufId
  tid : TidId → Tid
  hwq : QueueId → List BufId
  tidq : QueueId → List TidId

def TxState.ledger (s : TxState) : Ledger where
  txBufs := s.cfg.txBufs
  buf := s.buf
  free := s.scTxbuf
  held := s.scTxbufHeld
  tid := fun k => (s.tid k).unsched
  hwq := fun q => (s.txq q).axqQ
  tidq := fun q => (s.txq q).axqTidq

def keyOf (b : TxBuf) : Option TidId := b.bfNode.map fun ni => (ni, b.bfTidno)

theorem tidOf_eq (s : TxState) (bf : BufId) : s.tidOf bf = keyOf (s.buf bf) := rfl

def frameOf (b : TxBuf) : Frame := ⟨b.bfSkb, seqnoFromBfSeqno b.bfSeqno, b.bfIsretried⟩

/-- The aggregation frame of a TID that a buffer holds. -/
def airFrame (k : TidId) (b : TxBuf) : Option Frame :=
  if b.bfComp = some .aggr ∧ keyOf b = some k then some (frameOf b) else none

/-- A buffer no one uses. -/
structure Clean (b : TxBuf) : Prop where
  comp : b.bfComp = none
  next : b.bfNext = none
  node : b.bfNode = none
  skb : b.bfSkb = none
  skbhead : b.bfSkbhead = []

/-- A buffer with an aggregation frame of a TID. -/
structure AirFor (k : TidId) (b : TxBuf) : Prop where
  comp : b.bfComp = some .aggr
  key : keyOf b = some k
  txq : b.bfTxq = tidToActxq k.2

theorem AirFor.airFrame {k : TidId} {b : TxBuf} (h : AirFor k b) :
    airFrame k b = some (frameOf b) := by
  rw [Tx.airFrame, if_pos ⟨h.comp, h.key⟩]

/-- A buffer with another frame of a TID, which is sent alone. -/
structure AloneFor (k : TidId) (b : TxBuf) : Prop where
  comp : b.bfComp = some .normal ∨ b.bfComp = some .bar
  key : keyOf b = some k
  txq : b.bfTxq = tidToActxq k.2
  next : b.bfNext = none

theorem airFrame_of_comp_ne {k : TidId} {b : TxBuf} (h : b.bfComp ≠ some .aggr) :
    airFrame k b = none := if_neg fun hand => h hand.1

theorem airFrame_of_key_ne {k k' : TidId} {b : TxBuf} (h : keyOf b = some k) (hne : k' ≠ k) :
    airFrame k' b = none := by
  refine if_neg fun hand => hne ?_
  exact Option.some_inj.mp (hand.2.symm.trans h)

/-- Two buffers with the same frame. -/
structure SameFrame (b b' : TxBuf) : Prop where
  comp : b'.bfComp = b.bfComp
  node : b'.bfNode = b.bfNode
  tidno : b'.bfTidno = b.bfTidno
  txq : b'.bfTxq = b.bfTxq
  skb : b'.bfSkb = b.bfSkb
  seqno : b'.bfSeqno = b.bfSeqno
  retried : b'.bfIsretried = b.bfIsretried

namespace SameFrame

variable {b b' : TxBuf} {k : TidId}

theorem refl (b : TxBuf) : SameFrame b b := ⟨rfl, rfl, rfl, rfl, rfl, rfl, rfl⟩

theorem of_eq (h : b' = b) : SameFrame b b' := h ▸ refl b

theorem trans {b'' : TxBuf} (h : SameFrame b b') (h' : SameFrame b' b'') : SameFrame b b'' :=
  ⟨h'.comp.trans h.comp, h'.node.trans h.node, h'.tidno.trans h.tidno, h'.txq.trans h.txq,
    h'.skb.trans h.skb, h'.seqno.trans h.seqno, h'.retried.trans h.retried⟩

theorem keyOf_eq (h : SameFrame b b') : keyOf b' = keyOf b := by
  rw [keyOf, keyOf, h.node, h.tidno]

theorem frameOf_eq (h : SameFrame b b') : frameOf b' = frameOf b := by
  rw [frameOf, frameOf, h.skb, h.seqno, h.retried]

theorem airFrame_eq (h : SameFrame b b') (k : TidId) : airFrame k b' = airFrame k b := by
  rw [airFrame, airFrame, h.comp, h.keyOf_eq, h.frameOf_eq]

theorem airFor (h : SameFrame b b') (hair : AirFor k b) : AirFor k b' :=
  ⟨h.comp.trans hair.comp, h.keyOf_eq.trans hair.key, h.txq.trans hair.txq⟩

end SameFrame

/-- What several lists hold together. -/
@[irreducible]
def gather {ι : Type} [Fintype ι] (f : ι → List BufId) : Multiset BufId :=
  ∑ i, (f i : Multiset BufId)

theorem mem_gather {ι : Type} [Fintype ι] {f : ι → List BufId} {b : BufId} :
    b ∈ gather f ↔ ∃ i, b ∈ f i := by
  rw [gather, Multiset.mem_sum]
  simp

theorem gather_nil {ι : Type} [Fintype ι] : gather (fun _ : ι => []) = 0 := by
  rw [gather]
  simp

/-- One of the lists can be changed by itself. -/
theorem gather_update {ι : Type} [Fintype ι] [DecidableEq ι] (f : ι → List BufId) (i : ι)
    (l : List BufId) : gather (Function.update f i l) + f i = gather f + l := by
  rw [gather, gather]
  have hsum : ∑ j ∈ Finset.univ.erase i, (Function.update f i l j : Multiset BufId) =
      ∑ j ∈ Finset.univ.erase i, (f j : Multiset BufId) := by
    apply Finset.sum_congr rfl
    intro j hj
    rw [Function.update_of_ne (Finset.ne_of_mem_erase hj)]
  rw [← Finset.add_sum_erase _ _ (Finset.mem_univ i), hsum, Function.update_self,
    ← Finset.add_sum_erase _ (fun j => (f j : Multiset BufId)) (Finset.mem_univ i)]
  abel

theorem filterMap_congr_mem {α β : Type} {f g : α → Option β} {s : Multiset α}
    (h : ∀ a ∈ s, f a = g a) : s.filterMap f = s.filterMap g := by
  induction s using Quotient.inductionOn with
  | h l => exact congrArg _ (List.filterMap_congr h)

/-- A buffer and its `bf_next` subframes, where there are `n` buffers. -/
def subframesOf (buf : BufId → TxBuf) (n : ℕ) (bf : BufId) : List BufId :=
  walk (fun b => (buf b).bfNext) n (some bf)

/-- An element of a hardware queue. -/
structure Element (buf : BufId → TxBuf) (n : ℕ) (q : QueueId) (e : BufId) : Prop where
  chain : Chain (fun b => (buf b).bfNext) (some e) (subframesOf buf n e)
  kind : ((buf e).bfComp = none ∧ (buf e).bfNext = none) ∨
    (∃ k, tidToActxq k.2 = q ∧ AloneFor k (buf e)) ∨
    ∃ k, tidToActxq k.2 = q ∧ (∀ b ∈ subframesOf buf n e, AirFor k (buf b)) ∧
      ((buf e).bfIsaggr = false → (buf e).bfNext = none)

/-- The session of a TID with the frames that wait, are in the air or are about to wait. -/
def Tid.session (tid : Tid) (queue : List Frame) (air : Multiset Frame) (pend : List Frame) :
    Session where
  win := tid.window
  bawSize := tid.bawSize
  seqNext := tid.seqNext
  paused := tid.paused
  cleanup := tid.cleanupInprogres
  aggr := tid.aggrEnabled
  reinit := tid.reinitializeFlag
  incomp := tid.incomp
  issued := tid.issued
  handed := tid.handed
  queue := queue
  air := air
  pend := pend

/-- The buffers in the hand of the running handler: those on their way to or from the hardware,
those on their way back to a queue, and others. -/
structure Hand where
  rest : List BufId := []
  pend : List BufId := []
  loose : Multiset BufId := 0

def Hand.all (h : Hand) : Multiset BufId := h.rest + h.pend + h.loose

namespace Ledger

def subframes (L : Ledger) (bf : BufId) : List BufId := subframesOf L.buf L.txBufs bf

/-- The buffers of a hardware queue, subframes included. -/
def onQ (L : Ledger) (q : QueueId) : List BufId := (L.hwq q).flatMap L.subframes

def onHw (L : Ledger) : Multiset BufId := gather L.onQ

def queued (L : Ledger) : Multiset BufId := gather fun k => (L.tid k).bufQ

/-- Every place a buffer can be in, beside the hand of the running handler. -/
def places (L : Ledger) : Multiset BufId :=
  (L.free : Multiset BufId) + (L.held.toList : Multiset BufId) + L.queued + L.onHw

def total (L : Ledger) (h : Hand) : Multiset BufId := h.all + L.places

/-- Every buffer is in one place at most, and holds what its place says. -/
structure WF (L : Ledger) (h : Hand) : Prop where
  nodup : (L.total h).Nodup
  lt : ∀ b ∈ L.total h, b < L.txBufs
  clean_free : ∀ b ∈ L.free, Clean (L.buf b)
  clean_held : ∀ b ∈ L.held, Clean (L.buf b)
  queued : ∀ k, ∀ b ∈ (L.tid k).bufQ, AirFor k (L.buf b)
  onHw : ∀ q, ∀ e ∈ L.hwq q, Element L.buf L.txBufs q e
  filed : ∀ q, ∀ k ∈ L.tidq q, tidToActxq k.2 = q

/-- Only a TID with aggregation has frames in its queue. -/
def Off (L : Ledger) : Prop := ∀ k, (L.tid k).aggrEnabled = false → (L.tid k).bufQ = []

/-- The frames of a TID in a list of buffers. -/
def frames (L : Ledger) (k : TidId) (l : List BufId) : List Frame :=
  l.filterMap fun b => airFrame k (L.buf b)

def hwAir (L : Ledger) (k : TidId) : Multiset Frame :=
  L.onHw.filterMap fun b => airFrame k (L.buf b)

def waiting (L : Ledger) (k : TidId) : List Frame :=
  (L.tid k).bufQ.map fun b => frameOf (L.buf b)

/-- The session of a TID. -/
def view (L : Ledger) (h : Hand) (k : TidId) : Session :=
  (L.tid k).session (L.waiting k) (L.frames k h.rest + L.hwAir k) (L.frames k h.pend)

variable {L L' : Ledger} {h h' : Hand} {b e : BufId} {k : TidId} {q : QueueId}
  {kept : Multiset BufId}

/-! ## Membership -/

theorem mem_queued : b ∈ L.queued ↔ ∃ k, b ∈ (L.tid k).bufQ := by
  rw [queued, mem_gather]

theorem mem_onHw : b ∈ L.onHw ↔ ∃ q, ∃ e ∈ L.hwq q, b ∈ L.subframes e := by
  rw [onHw, mem_gather]
  simp only [onQ, List.mem_flatMap]

theorem mem_places : b ∈ L.places ↔ b ∈ L.free ∨ b ∈ L.held ∨ b ∈ L.queued ∨ b ∈ L.onHw := by
  simp [places, or_assoc, Option.mem_toList]

theorem WF.not_mem_places (hwf : L.WF h) (hb : b ∈ h.all) : b ∉ L.places :=
  fun hmem => Multiset.disjoint_left.mp (Multiset.nodup_add.mp hwf.nodup).2.2 hb hmem

theorem WF.not_mem_bufQ (hwf : L.WF h) (hb : b ∈ h.all) : b ∉ (L.tid k).bufQ := by
  intro hmem
  apply hwf.not_mem_places hb
  rw [mem_places]
  exact .inr (.inr (.inl (mem_queued.mpr ⟨k, hmem⟩)))

theorem WF.not_mem_subframes (hwf : L.WF h) (hb : b ∈ h.all) (he : e ∈ L.hwq q) :
    b ∉ L.subframes e := by
  intro hmem
  apply hwf.not_mem_places hb
  rw [mem_places]
  exact .inr (.inr (.inr (mem_onHw.mpr ⟨q, e, he, hmem⟩)))

end Ledger

theorem Element.mem_subframes {buf : BufId → TxBuf} {n : ℕ} {q : QueueId} {e : BufId}
    (h : Element buf n q e) : e ∈ subframesOf buf n e := by
  have hchain := h.chain
  cases hsub : subframesOf buf n e with
  | nil =>
      rw [hsub] at hchain
      cases hchain
  | cons a l =>
      rw [hsub] at hchain
      rw [← Option.some_inj.mp hchain.1]
      exact List.mem_cons_self

/-- An element stays one as long as its buffers are not written to. -/
theorem Element.congr {buf buf' : BufId → TxBuf} {n : ℕ} {q : QueueId} {e : BufId}
    (h : Element buf n q e) (heq : ∀ b ∈ subframesOf buf n e, buf' b = buf b) :
    subframesOf buf' n e = subframesOf buf n e ∧ Element buf' n q e := by
  have hsub : subframesOf buf' n e = subframesOf buf n e :=
    walk_congr fun b hb => by rw [heq b hb]
  refine ⟨hsub, ⟨?_, ?_⟩⟩
  · rw [hsub]
    exact h.chain.congr fun b hb => by rw [heq b hb]
  · rw [hsub, heq e h.mem_subframes]
    rcases h.kind with hnone | halone | ⟨k, hq, hair, haggr⟩
    · exact .inl hnone
    · exact .inr (.inl halone)
    · exact .inr (.inr ⟨k, hq, fun b hb => by rw [heq b hb]; exact hair b hb, haggr⟩)

namespace Ledger

variable {L L' : Ledger} {h h' : Hand} {b e : BufId} {k : TidId} {q : QueueId}
  {kept : Multiset BufId}

/-! ## Writing to buffers -/

/-- The queues are as before, and so are the frames in them and in the buffers kept. -/
structure Keeps (L L' : Ledger) (kept : Multiset BufId) : Prop where
  txBufs : L'.txBufs = L.txBufs
  tid : L'.tid = L.tid
  hwq : L'.hwq = L.hwq
  tidq : L'.tidq = L.tidq
  kept : ∀ b ∈ kept, SameFrame (L.buf b) (L'.buf b)
  queued : ∀ k, ∀ b ∈ (L.tid k).bufQ, SameFrame (L.buf b) (L'.buf b)
  onHw : ∀ q, ∀ e ∈ L.hwq q, ∀ b ∈ L.subframes e, L'.buf b = L.buf b

namespace Keeps

theorem subframes (hk : L.Keeps L' kept) (he : e ∈ L.hwq q) : L'.subframes e = L.subframes e := by
  rw [Ledger.subframes, hk.txBufs]
  exact walk_congr fun b hb => by rw [hk.onHw q e he b hb]

theorem onHw_eq (hk : L.Keeps L' kept) : L'.onHw = L.onHw := by
  rw [Ledger.onHw, Ledger.onHw]
  congr 1
  funext q
  rw [onQ, onQ, hk.hwq]
  exact List.flatMap_congr fun e he => hk.subframes he

theorem queued_eq (hk : L.Keeps L' kept) : L'.queued = L.queued := by
  rw [Ledger.queued, Ledger.queued, hk.tid]

theorem hwAir_eq (hk : L.Keeps L' kept) (k : TidId) : L'.hwAir k = L.hwAir k := by
  rw [hwAir, hwAir, hk.onHw_eq]
  apply filterMap_congr_mem
  intro b hb
  obtain ⟨q, e, he, hb⟩ := mem_onHw.mp hb
  rw [hk.onHw q e he b hb]

theorem waiting_eq (hk : L.Keeps L' kept) (k : TidId) : L'.waiting k = L.waiting k := by
  rw [waiting, waiting, hk.tid]
  exact List.map_congr_left fun b hb => (hk.queued k b hb).frameOf_eq

theorem frames_eq (hk : L.Keeps L' kept) (k : TidId) {l : List BufId} (hl : ∀ b ∈ l, b ∈ kept) :
    L'.frames k l = L.frames k l :=
  List.filterMap_congr fun b hb => (hk.kept b (hl b hb)).airFrame_eq k

theorem view_eq (hk : L.Keeps L' kept) (hrest : ∀ b ∈ h.rest, b ∈ kept)
    (hpend : ∀ b ∈ h.pend, b ∈ kept) (k : TidId) : L'.view h k = L.view h k := by
  rw [view, view, hk.tid, hk.waiting_eq, hk.hwAir_eq, hk.frames_eq k hrest, hk.frames_eq k hpend]

theorem total_eq (hk : L.Keeps L' kept)
    (hall : h'.all + L'.free + L'.held.toList = h.all + L.free + L.held.toList) :
    L'.total h' = L.total h := by
  rw [Ledger.total, Ledger.total, places, places, hk.queued_eq, hk.onHw_eq]
  calc h'.all + (↑L'.free + ↑L'.held.toList + L.queued + L.onHw)
      = (h'.all + L'.free + L'.held.toList) + (L.queued + L.onHw) := by abel
    _ = h.all + (↑L.free + ↑L.held.toList + L.queued + L.onHw) := by
        rw [hall]
        abel

end Keeps

/-- Buffers may move between the hand, the free list and the held slot, as long as those no one
uses are clean. -/
theorem WF.keep (hwf : L.WF h) (hk : L.Keeps L' kept) (htotal : L'.total h' = L.total h)
    (hfree : ∀ b ∈ L'.free, Clean (L'.buf b)) (hheld : ∀ b ∈ L'.held, Clean (L'.buf b)) :
    L'.WF h' where
  nodup := htotal ▸ hwf.nodup
  lt := by
    rw [htotal, hk.txBufs]
    exact hwf.lt
  clean_free := hfree
  clean_held := hheld
  queued := by
    intro k b hb
    rw [hk.tid] at hb
    exact (hk.queued k b hb).airFor (hwf.queued k b hb)
  onHw := by
    intro q e he
    rw [hk.hwq] at he
    rw [hk.txBufs]
    exact ((hwf.onHw q e he).congr (hk.onHw q e he)).2
  filed := by
    rw [hk.tidq]
    exact hwf.filed

end Ledger

/-! ## Tracking a handler -/

/-- A piece of a handler leads from one ledger to another: no buffer is lost or doubled, and
every session takes steps that `G` allows. -/
structure Track (G : TidId → Session → Action → Prop) (L : Ledger) (h : Hand) (L' : Ledger)
    (h' : Hand) : Prop where
  wf : L'.WF h'
  total : L'.total h' = L.total h
  off : L.Off → L'.Off
  runs : ∀ k, session.StepsWhere (G k) (L.view h k) (L'.view h' k)

namespace Track

variable {G : TidId → Session → Action → Prop} {L L' L'' : Ledger} {h h' h'' : Hand} {b e : BufId}
  {k : TidId} {q : QueueId}

theorem refl (hwf : L.WF h) : Track G L h L h := ⟨hwf, rfl, id, fun _ => .refl⟩

theorem trans (t : Track G L h L' h') (t' : Track G L' h' L'' h'') : Track G L h L'' h'' :=
  ⟨t'.wf, t'.total.trans t.total, t'.off ∘ t.off, fun k => (t.runs k).trans (t'.runs k)⟩

/-- What does not touch the queues. -/
theorem keep (hwf : L.WF h) {K : Multiset BufId} (hk : L.Keeps L' K)
    (hrest : ∀ b ∈ h.rest, b ∈ K) (hpend : ∀ b ∈ h.pend, b ∈ K)
    (hrest' : h'.rest = h.rest) (hpend' : h'.pend = h.pend)
    (hall : h'.all + L'.free + L'.held.toList = h.all + L.free + L.held.toList)
    (hfree : ∀ b ∈ L'.free, Clean (L'.buf b)) (hheld : ∀ b ∈ L'.held, Clean (L'.buf b)) :
    Track G L h L' h' where
  wf := hwf.keep hk (hk.total_eq hall) hfree hheld
  total := hk.total_eq hall
  off := by
    intro hoff
    rw [Ledger.Off, hk.tid]
    exact hoff
  runs := by
    intro k
    have hview : L'.view h' k = L.view h k := by
      rw [← hk.view_eq hrest hpend, Ledger.view, Ledger.view, hrest', hpend']
    rw [hview]

end Track

end Ath9kHtc.Tx
