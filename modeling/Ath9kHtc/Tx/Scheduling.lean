import Ath9kHtc.Tx.SessionMoves

/-!
# What scheduling does

An aggregate is formed in the hand of the scheduler and then goes to the hardware as one element.
-/

namespace Ath9kHtc.Tx

open Ledger

variable {G : TidId → Session → Action → Prop} {k : TidId} {q : QueueId} {s s' : TxState} {bf : BufId}
  {bs : List BufId} {l : Multiset BufId} {acc acc' : AggrAcc}

/-- What holds while an aggregate is formed. -/
structure Forming (k : TidId) (l : Multiset BufId) (acc : AggrAcc) (s : TxState) : Prop where
  wf : s.ledger.WF ⟨acc.bfQ, [], l⟩
  aggr : (s.tid k).aggrEnabled = true
  paused : (s.tid k).paused = false
  air : ∀ b ∈ acc.bfQ, AirFor k (s.buf b)
  linked : Linked (fun b => (s.buf b).bfNext) acc.bfQ
  count : acc.nframes = acc.bfQ.length

/-- What the forming of an aggregate has done so far. -/
structure Formed (G : TidId → Session → Action → Prop) (k : TidId) (l : Multiset BufId)
    (acc : AggrAcc) (s : TxState) (acc' : AggrAcc) (s' : TxState) : Prop where
  forming : Forming k l acc' s'
  track : Track G s.ledger ⟨acc.bfQ, [], l⟩ s'.ledger ⟨acc'.bfQ, [], l⟩
  txq : s'.txq = s.txq
  loose : ∀ b ∈ l, s'.buf b = s.buf b
  taken : ∃ taken, acc'.bfQ = acc.bfQ ++ taken ∧ (s.tid k).bufQ = taken ++ (s'.tid k).bufQ

theorem Formed.refl (h : Forming k l acc s) : Formed G k l acc s acc s where
  forming := h
  track := .refl h.wf
  txq := rfl
  loose := fun _ _ => rfl
  taken := ⟨[], (List.append_nil _).symm, rfl⟩

/-- A write beside the frame and the link of a buffer that waits. -/
theorem Forming.modBuf (h : Forming k l acc s) (hbf : bf ∈ (s.tid k).bufQ ∨ bf ∈ acc.bfQ)
    {f : TxBuf → TxBuf} (hf : SameFrame (s.buf bf) (f (s.buf bf)))
    (hnext : (f (s.buf bf)).bfNext = (s.buf bf).bfNext) :
    Formed G k l acc s acc (s.modBuf bf f) := by
  have hmem : bf ∈ Hand.all ⟨acc.bfQ, [], l⟩ ∨ bf ∈ (s.ledger.tid k).bufQ :=
    hbf.symm.imp (fun h => mem_all.mpr (.inl h)) id
  have htrack : Track G s.ledger ⟨acc.bfQ, [], l⟩ (s.modBuf bf f).ledger ⟨acc.bfQ, [], l⟩ :=
    .rewrite h.wf hmem hf
  have hsame : ∀ b, SameFrame (s.buf b) ((s.modBuf bf f).buf b) ∧
      ((s.modBuf bf f).buf b).bfNext = (s.buf b).bfNext := by
    intro b
    rcases eq_or_ne b bf with rfl | hne
    · rw [TxState.modBuf_buf_self]
      exact ⟨hf, hnext⟩
    · rw [TxState.modBuf_buf_of_ne s bf f hne]
      exact ⟨.refl _, rfl⟩
  have hloose : bf ∉ l := by
    intro hl
    rcases hbf with hq | hb
    · exact h.wf.not_mem_bufQ (mem_all_of_loose hl) hq
    · exact h.wf.not_mem_rest hl hb
  refine ⟨⟨htrack.wf, h.aggr, h.paused, fun b hb => (hsame b).1.airFor (h.air b hb), ?_, h.count⟩,
    htrack, rfl, fun b hb => s.modBuf_buf_of_ne bf f (ne_of_mem_of_not_mem hb hloose),
    [], (List.append_nil _).symm, rfl⟩
  have : (fun b => ((s.modBuf bf f).buf b).bfNext) = fun b => (s.buf b).bfNext :=
    funext fun b => (hsame b).2
  rw [this]
  exact h.linked

theorem Formed.trans {acc'' : AggrAcc} {s'' : TxState} (h : Formed G k l acc s acc' s')
    (h' : Formed G k l acc' s' acc'' s'') : Formed G k l acc s acc'' s'' where
  forming := h'.forming
  track := h.track.trans h'.track
  txq := h'.txq.trans h.txq
  loose := fun b hb => (h'.loose b hb).trans (h.loose b hb)
  taken := by
    obtain ⟨d, hd, hq⟩ := h.taken
    obtain ⟨d', hd', hq'⟩ := h'.taken
    exact ⟨d ++ d', by rw [hd', hd, List.append_assoc], by rw [hq, hq', List.append_assoc]⟩

/-- The link from the last frame of the aggregate to the next. -/
theorem linkSubframe_spec {L₀ : List BufId} (hwf : s.ledger.WF ⟨L₀ ++ [bf], [], l⟩)
    (hlinked : Linked (fun b => (s.buf b).bfNext) L₀) :
    Track G s.ledger ⟨L₀ ++ [bf], [], l⟩ (linkSubframe s L₀.getLast? bf).ledger
        ⟨L₀ ++ [bf], [], l⟩ ∧
      Linked (fun b => ((linkSubframe s L₀.getLast? bf).buf b).bfNext) (L₀ ++ [bf]) ∧
      (∀ b, SameFrame (s.buf b) ((linkSubframe s L₀.getLast? bf).buf b)) ∧
      (∀ b, b ∉ L₀ → (linkSubframe s L₀.getLast? bf).buf b = s.buf b) ∧
      (linkSubframe s L₀.getLast? bf).tid = s.tid ∧
      (linkSubframe s L₀.getLast? bf).txq = s.txq := by
  rcases List.eq_nil_or_concat L₀ with rfl | ⟨init, prev, rfl⟩
  · exact ⟨.refl hwf, .singleton bf, fun _ => .refl _, fun _ _ => rfl, rfl, rfl⟩
  · rw [List.concat_eq_append] at *
    rw [List.getLast?_concat]
    have hsame : SameFrame (s.buf prev) { s.buf prev with bfNext := some bf } :=
      ⟨rfl, rfl, rfl, rfl, rfl, rfl, rfl⟩
    have hmem : prev ∈ Hand.all ⟨init ++ [prev] ++ [bf], [], l⟩ := mem_all.mpr (.inl (by simp))
    have hinit : prev ∉ init := by
      have hnodup := (Multiset.nodup_add.mp (Multiset.nodup_add.mp hwf.nodup_hand).1).1
      have := (List.nodup_append.mp (Multiset.coe_nodup.mp hnodup)).1
      exact fun hprev => (List.nodup_append.mp this).2.2 prev hprev prev (by simp) rfl
    refine ⟨Track.modFrame hwf hmem (fun b => { b with bfNext := some bf }) hsame, hlinked.snoc ?_ ?_, ?_, ?_, rfl, rfl⟩
    · show ((s.modBuf prev fun b => { b with bfNext := some bf }).buf prev).bfNext = _
      rw [TxState.modBuf_buf_self]
    · intro c hc
      show ((s.modBuf prev fun b => { b with bfNext := some bf }).buf c).bfNext = _
      rw [TxState.modBuf_buf_of_ne _ _ _ (ne_of_mem_of_not_mem hc hinit)]
    · intro b
      show SameFrame _ ((s.modBuf prev fun b => { b with bfNext := some bf }).buf b)
      rcases eq_or_ne b prev with rfl | hne
      · rw [TxState.modBuf_buf_self]
        exact hsame
      · rw [TxState.modBuf_buf_of_ne _ _ _ hne]
        exact .refl _
    · intro b hb
      show (s.modBuf prev fun b => { b with bfNext := some bf }).buf b = _
      apply TxState.modBuf_buf_of_ne
      rintro rfl
      exact hb (by simp)

/-- The first frame of the queue joins the aggregate. -/
theorem Forming.take (h : Forming k l acc s) (hq : (s.tid k).bufQ = bf :: bs)
    (hin : bawWithin (s.tid k).seqStart (s.tid k).bawSize (seqnoFromBfSeqno (s.buf bf).bfSeqno))
    (hsafe : ∀ k v a, Action.Safe a → G k v a) (htake : aggrTake s k bf acc = some s') (b : TxBuf) :
    Formed G k l acc s (acc.push bf b) s' := by
  have hmem : bf ∈ (s.tid k).bufQ := hq ▸ List.mem_cons_self
  have hair : AirFor k (s.buf bf) := h.wf.queued k bf hmem
  rw [aggrTake, if_pos hair.comp] at htake
  obtain rfl := Option.some_inj.mp htake
  rw [takeHead_eq (s := s) hair.key]
  have htaken := Track.take h.wf hq h.aggr h.paused hin hsafe
  set s₁ := s.modTid k fun tid => tid.takeHead (s.buf bf)
  have htid : s₁.tid k = (s.tid k).takeHead (s.buf bf) := s.modTid_tid_self k _
  set f : TxBuf → TxBuf := fun b => { b with bfNdelim := aggrNdelim b % 256 }
  have hf : ∀ b, SameFrame b (f b) := fun b => ⟨rfl, rfl, rfl, rfl, rfl, rfl, rfl⟩
  have hndelim : Track G s₁.ledger ⟨acc.bfQ ++ [bf], [], l⟩ (s₁.modBuf bf f).ledger
      ⟨acc.bfQ ++ [bf], [], l⟩ := .modFrame htaken.wf (mem_all.mpr (.inl (by simp))) f (hf _)
  have hout : bf ∉ acc.bfQ := fun hb => h.wf.not_mem_bufQ (mem_all.mpr (.inl hb)) hmem
  have hlinked : Linked (fun b => ((s₁.modBuf bf f).buf b).bfNext) acc.bfQ := by
    have : (fun b => ((s₁.modBuf bf f).buf b).bfNext) = fun b => (s.buf b).bfNext := by
      funext b
      rcases eq_or_ne b bf with rfl | hne
      · rw [TxState.modBuf_buf_self]
        rfl
      · rw [TxState.modBuf_buf_of_ne _ _ _ hne]
        rfl
    rw [this]
    exact h.linked
  obtain ⟨hlink, hlinked', hsame, hkept, htid', htxq'⟩ := linkSubframe_spec (G := G) hndelim.wf hlinked
  have hsame' : ∀ b, SameFrame (s.buf b)
      ((linkSubframe (s₁.modBuf bf f) acc.bfQ.getLast? bf).buf b) := by
    intro b
    refine .trans ?_ (hsame b)
    rcases eq_or_ne b bf with rfl | hne
    · rw [TxState.modBuf_buf_self]
      exact hf _
    · rw [TxState.modBuf_buf_of_ne _ _ _ hne]
      exact .refl _
  have htrack := htaken.trans (hndelim.trans hlink)
  refine ⟨⟨htrack.wf, ?_, ?_, ?_, hlinked', ?_⟩, htrack, ?_, ?_, [bf], rfl, ?_⟩
  · rw [htid']
    exact (congrArg Tid.aggrEnabled htid).trans ((takeHead_aggrEnabled _ _).trans h.aggr)
  · rw [htid']
    exact (congrArg Tid.paused htid).trans ((takeHead_paused _ _).trans h.paused)
  · intro b hb
    apply (hsame' b).airFor
    rcases List.mem_append.mp hb with hb | hb
    · exact h.air b hb
    · rw [List.mem_singleton.mp hb]
      exact hair
  · simp [AggrAcc.push, h.count]
  · rw [htxq']
    rfl
  · intro b hb
    rw [hkept b (fun hmem => h.wf.not_mem_rest hb hmem)]
    refine TxState.modBuf_buf_of_ne _ _ _ ?_
    rintro rfl
    exact h.wf.not_mem_bufQ (mem_all_of_loose hb) hmem
  · rw [htid']
    show (s.tid k).bufQ = [bf] ++ (s₁.tid k).bufQ
    rw [htid, takeHead_bufQ, hq]
    rfl

theorem athLookupRate_snd (s : TxState) (ni : NodeId) (bf : BufId) :
    (athLookupRate s ni bf).2 = (athRateFindrate s).2.modBuf bf fun b =>
      { b with bfRcs := lookupSeries (s.buf bf) (athRateFindrate s).1 } := rfl

/-- The lookup of the rates for the first frame. -/
theorem Forming.rate (h : Forming k l acc s) (hbf : bf ∈ (s.tid k).bufQ) :
    Formed G k l acc s (aggrRate s k bf acc).1 (aggrRate s k bf acc).2 := by
  rw [aggrRate]
  split
  · exact .refl h
  · have hcalls : Forming k l acc { s with rateCalls := s.rateCalls + 1 } :=
      ⟨h.wf, h.aggr, h.paused, h.air, h.linked, h.count⟩
    have := hcalls.modBuf (G := G) (.inl hbf)
      (f := fun b => { b with bfRcs := lookupSeries (s.buf bf) (athRateFindrate s).1 })
      ⟨rfl, rfl, rfl, rfl, rfl, rfl, rfl⟩ rfl
    exact ⟨⟨this.forming.wf, this.forming.aggr, this.forming.paused, this.forming.air,
      this.forming.linked, this.forming.count⟩, this.track, this.txq, this.loose, this.taken⟩

theorem aggrRate_same (s : TxState) (k : TidId) (bf : BufId) (acc : AggrAcc) :
    (aggrRate s k bf acc).2.tid = s.tid ∧
      SameFrame (s.buf bf) ((aggrRate s k bf acc).2.buf bf) := by
  rw [aggrRate]
  split
  · exact ⟨rfl, .refl _⟩
  · refine ⟨rfl, ?_⟩
    show SameFrame _ ((athLookupRate s k.1 bf).2.buf bf)
    rw [athLookupRate_snd, TxState.modBuf_buf_self]
    exact ⟨rfl, rfl, rfl, rfl, rfl, rfl, rfl⟩

theorem Forming.loop (hsafe : ∀ k v a, Action.Safe a → G k v a) {status : AggrStatus} :
    ∀ {rest : List BufId} {acc : AggrAcc} {s : TxState}, Forming k l acc s →
      (s.tid k).bufQ = rest → formAggrLoop k rest acc s = some (status, acc', s') →
      Formed G k l acc s acc' s' := by
  intro rest
  induction rest with
  | nil =>
      intro acc s h _ hloop
      obtain ⟨-, rfl, rfl⟩ := by simpa [formAggrLoop] using hloop
      exact .refl h
  | cons bf rest ih =>
      intro acc s h hq hloop
      rw [formAggrLoop] at hloop
      split at hloop
      · rename_i hin
        have hrate := h.rate (G := G) (hq ▸ List.mem_cons_self : bf ∈ (s.tid k).bufQ)
        dsimp only at hloop
        split at hloop
        · simp only [Option.some.injEq, Prod.mk.injEq] at hloop
          obtain ⟨-, rfl, rfl⟩ := hloop
          exact hrate
        · obtain ⟨s₁, htake, hloop⟩ := Option.bind_eq_some_iff.mp hloop
          obtain ⟨htid, hsame⟩ := aggrRate_same s k bf acc
          have hqrate : ((aggrRate s k bf acc).2.tid k).bufQ = bf :: rest := by rw [htid, hq]
          have htaken := hrate.forming.take (G := G) hqrate
            (by rw [htid, hsame.seqno]; exact hin) hsafe htake (s.buf bf)
          refine hrate.trans (htaken.trans (ih htaken.forming ?_ hloop))
          obtain ⟨taken, hbfQ, htail⟩ := htaken.taken
          rw [htid, hq, ← List.append_cancel_left hbfQ] at htail
          exact (List.cons.inj htail).2.symm
      · obtain ⟨-, rfl, rfl⟩ := by simpa using hloop
        exact .refl h

theorem athTgtTxFormAggr_spec (hwf : s.ledger.WF ⟨[], [], l⟩)
    (ha : (s.tid k).aggrEnabled = true) (hp : (s.tid k).paused = false)
    (hsafe : ∀ k v a, Action.Safe a → G k v a) {status : AggrStatus}
    (h : athTgtTxFormAggr s k = some (status, bs, s')) :
    ∃ acc', acc'.bfQ = bs ∧ Formed G k l {} s acc' s' ∧
      ∀ bf ∈ bs.head?, (s'.buf bf).bfNframes = bs.length := by
  rw [athTgtTxFormAggr] at h
  split at h
  · cases h
  · rename_i first rest hq
    obtain ⟨⟨status', acc', s₁⟩, hloop, heq⟩ := Option.map_eq_some_iff.mp h
    simp only [Prod.mk.injEq] at heq
    obtain ⟨rfl, rfl, rfl⟩ := heq
    have hforming : Forming k l {} s := ⟨hwf, ha, hp, nofun, .nil, rfl⟩
    have hformed := hforming.loop hsafe hq hloop
    obtain ⟨taken, hbfQ, htaken⟩ := hformed.taken
    rw [List.nil_append] at hbfQ
    rw [hq, ← hbfQ] at htaken
    have hfirst : first ∈ (s₁.tid k).bufQ ∨ first ∈ acc'.bfQ := by
      have : first ∈ acc'.bfQ ++ (s₁.tid k).bufQ := htaken ▸ List.mem_cons_self
      exact (List.mem_append.mp this).symm
    have hlast := hformed.forming.modBuf (G := G) hfirst
      (f := fun b => { b with bfAl := acc'.al, bfNframes := acc'.nframes })
      ⟨rfl, rfl, rfl, rfl, rfl, rfl, rfl⟩ rfl
    refine ⟨acc', rfl, hformed.trans hlast, fun bf hbf => ?_⟩
    have : bf = first := by
      cases hacc : acc'.bfQ with
      | nil =>
          rw [hacc] at hbf
          cases hbf
      | cons a as =>
          rw [hacc] at hbf htaken
          rw [(List.cons.inj htaken).1]
          exact (Option.some_inj.mp hbf).symm
    rw [this, TxState.modBuf_buf_self]
    exact hformed.forming.count

/-- Different buffers below `n` are at most `n`. -/
theorem length_le_of_nodup {bs : List BufId} {n : ℕ} (hnodup : bs.Nodup) (hlt : ∀ b ∈ bs, b < n) :
    bs.length ≤ n := by
  have hsub : bs ⊆ List.range n := fun b hb => List.mem_range.mpr (hlt b hb)
  simpa using (hnodup.subperm hsub).length_le

theorem Ledger.WF.nodup_rest {L : Ledger} {h : Hand} (hwf : L.WF h) : h.rest.Nodup :=
  Multiset.coe_nodup.mp (Multiset.nodup_add.mp (Multiset.nodup_add.mp hwf.nodup_hand).1).1

/-- The formed aggregate, with its head and its last frame set up, goes to the hardware. -/
theorem Track.pushFormed (hwf : s.ledger.WF ⟨bf :: bs, [], l⟩)
    (hair : ∀ b ∈ bf :: bs, AirFor k (s.buf b))
    (hchain : Chain (fun b => (s.buf b).bfNext) (some bf) (bf :: bs))
    (haggr : (s.buf bf).bfIsaggr = false → (s.buf bf).bfNext = none) :
    Track G s.ledger ⟨bf :: bs, [], l⟩ (athTgtTxqAddUcast s bf).ledger ⟨[], [], l⟩ := by
  have hlt : ∀ b ∈ bf :: bs, b < s.ledger.txBufs :=
    fun b hb => hwf.lt b (Multiset.mem_add.mpr (.inl (mem_all.mpr (.inl hb))))
  have hsub : s.ledger.subframes bf = bf :: bs :=
    hchain.walk_eq (length_le_of_nodup hwf.nodup_rest hlt)
  have hq : (s.buf bf).bfTxq = tidToActxq k.2 := (hair bf List.mem_cons_self).txq
  rw [ledger_athTgtTxqAddUcast, hq, ← hsub]
  refine push (hsub ▸ hwf) ⟨?_, .inr (.inr ⟨k, rfl, ?_, haggr⟩)⟩
  · show Chain _ _ (s.ledger.subframes bf)
    rw [hsub]
    exact hchain
  · intro b hb
    change b ∈ s.ledger.subframes bf at hb
    rw [hsub] at hb
    exact hair b hb

theorem Forming.single (h : Forming k l acc s) (hacc : acc.bfQ = [bf]) :
    Track G s.ledger ⟨[bf], [], l⟩ (schedSingle s bf).ledger ⟨[], [], l⟩ := by
  have hwf : s.ledger.WF ⟨[bf], [], l⟩ := hacc ▸ h.wf
  have hair : AirFor k (s.buf bf) := h.air bf (by simp [hacc])
  set f : TxBuf → TxBuf := fun b => { b with bfIsaggr := false, bfLastds := bf, bfNext := none }
  have hf : SameFrame (s.buf bf) (f (s.buf bf)) := ⟨rfl, rfl, rfl, rfl, rfl, rfl, rfl⟩
  have hwrite := Track.modFrame (G := G) hwf (mem_all.mpr (.inl (by simp))) f hf
  have hbuf : (s.modBuf bf f).buf bf = f (s.buf bf) := s.modBuf_buf_self bf f
  refine hwrite.trans (Track.pushFormed (k := k)
    (s := (s.modBuf bf f).modDs bf fun ds => { ds with dsLink := none }) hwrite.wf ?_ ?_ ?_)
  · intro b hb
    rw [List.mem_singleton.mp hb]
    exact hbuf ▸ hf.airFor hair
  · exact ⟨rfl, congrArg TxBuf.bfNext hbuf⟩
  · exact fun _ => congrArg TxBuf.bfNext hbuf

theorem Forming.aggregate (h : Forming k l acc s) (hacc : acc.bfQ = bf :: bs) :
    Track G s.ledger ⟨bf :: bs, [], l⟩
      (schedAggregate s bf ((bf :: bs).getLastD bf)).ledger ⟨[], [], l⟩ := by
  have hwf : s.ledger.WF ⟨bf :: bs, [], l⟩ := hacc ▸ h.wf
  have hair := h.air
  have hlinked := h.linked
  rw [hacc] at hair hlinked
  obtain ⟨init, bfLast, hsplit⟩ := List.eq_nil_or_concat (bf :: bs) |>.resolve_left (by simp)
  rw [List.concat_eq_append] at hsplit
  have hlast : (bf :: bs).getLastD bf = bfLast := by rw [hsplit]; simp
  have hnodup : (bf :: bs).Nodup := hwf.nodup_rest
  rw [hsplit] at hnodup
  have hinit : bfLast ∉ init :=
    fun hmem => (List.nodup_append.mp hnodup).2.2 bfLast hmem bfLast (by simp) rfl
  rw [hlast]
  set f : TxBuf → TxBuf := fun b => { b with bfNext := none, bfNdelim := 0 }
  have hf : ∀ b, SameFrame b (f b) := fun b => ⟨rfl, rfl, rfl, rfl, rfl, rfl, rfl⟩
  have hmem : bfLast ∈ bf :: bs := hsplit ▸ by simp
  have hwrite := Track.modFrame (G := G) hwf (mem_all.mpr (.inl hmem)) f (hf _)
  set s₁ := (s.modBuf bfLast f).modDs ((s.modBuf bfLast f).buf bfLast).bfLastds fun ds =>
    { ds with dsLink := none }
  set g : TxBuf → TxBuf := fun b =>
    { b with bfIsaggr := true, bfLastds := ((s.modBuf bfLast f).buf bfLast).bfLastds }
  have hg : ∀ b, SameFrame b (g b) := fun b => ⟨rfl, rfl, rfl, rfl, rfl, rfl, rfl⟩
  have hwrite' := Track.modFrame (G := G) (s := s₁) hwrite.wf
    (mem_all.mpr (.inl List.mem_cons_self)) g (hg _)
  have hlink : ∀ b, ((s₁.modBuf bf g).buf b).bfNext = ((s.modBuf bfLast f).buf b).bfNext := by
    intro b
    rcases eq_or_ne b bf with rfl | hne
    · rw [TxState.modBuf_buf_self]
      rfl
    · rw [TxState.modBuf_buf_of_ne _ _ _ hne]
      rfl
  have hkept : ∀ b, b ≠ bfLast → (s.modBuf bfLast f).buf b = s.buf b :=
    fun b hne => s.modBuf_buf_of_ne bfLast f hne
  have hsame : ∀ b, SameFrame (s.buf b) ((s₁.modBuf bf g).buf b) := by
    intro b
    have hfirst : SameFrame (s.buf b) (s₁.buf b) := by
      rcases eq_or_ne b bfLast with rfl | hne
      · exact (s.modBuf_buf_self b f) ▸ hf _
      · exact .of_eq (hkept b hne)
    refine hfirst.trans ?_
    rcases eq_or_ne b bf with rfl | hne
    · exact (s₁.modBuf_buf_self b g) ▸ hg _
    · exact .of_eq (s₁.modBuf_buf_of_ne bf g hne)
  have hend : ((s₁.modBuf bf g).buf bfLast).bfNext = none := by
    rw [hlink, TxState.modBuf_buf_self]
  have hchain : Chain (fun b => ((s₁.modBuf bf g).buf b).bfNext) (some bf) (bf :: bs) := by
    rw [hsplit] at hlinked
    have hnext : ∀ c ∈ init, ((s₁.modBuf bf g).buf c).bfNext = (s.buf c).bfNext := fun c hc => by
      rw [hlink, hkept c (ne_of_mem_of_not_mem hc hinit)]
    have hchain := Linked.chain (l := init) hlinked hend hnext
    rwa [← hsplit] at hchain
  refine hwrite.trans (hwrite'.trans (Track.pushFormed (k := k) hwrite'.wf
    (fun b hb => (hsame b).airFor (hair b hb)) hchain ?_))
  intro hfalse
  rw [TxState.modBuf_buf_self] at hfalse
  cases hfalse

/-! ## The scheduler -/

/-- A piece of a handler moves frames from queues to the hardware, and does not touch what the
handler holds. -/
structure Scheduled (G : TidId → Session → Action → Prop) (l : Multiset BufId) (s s' : TxState) :
    Prop where
  track : Track G s.ledger ⟨[], [], l⟩ s'.ledger ⟨[], [], l⟩
  loose : ∀ b ∈ l, s'.buf b = s.buf b

namespace Scheduled

theorem refl (hwf : s.ledger.WF ⟨[], [], l⟩) : Scheduled G l s s := ⟨.refl hwf, fun _ _ => rfl⟩

theorem trans {s'' : TxState} (h : Scheduled G l s s') (h' : Scheduled G l s' s'') :
    Scheduled G l s s'' :=
  ⟨h.track.trans h'.track, fun b hb => (h'.loose b hb).trans (h.loose b hb)⟩

end Scheduled

theorem athTgtTxqAddUcast_spares (s : TxState) (bf : BufId) :
    (athTgtTxqAddUcast s bf).tid = s.tid ∧ (athTgtTxqAddUcast s bf).buf = s.buf := by
  rw [athTgtTxqAddUcast]
  cases (s.txq (s.buf bf).bfTxq).axqLink <;> exact ⟨rfl, rfl⟩

theorem schedSingle_buf {b : BufId} (h : b ≠ bf) : (schedSingle s bf).buf b = s.buf b := by
  rw [schedSingle, (athTgtTxqAddUcast_spares _ _).2]
  exact Function.update_of_ne h ..

theorem schedAggregate_buf {b bfLast : BufId} (h : b ≠ bf) (h' : b ≠ bfLast) :
    (schedAggregate s bf bfLast).buf b = s.buf b := by
  rw [schedAggregate, (athTgtTxqAddUcast_spares _ _).2]
  exact (Function.update_of_ne h ..).trans (Function.update_of_ne h' ..)

/-- One formed aggregate goes out. -/
theorem Forming.send (h : Forming k l acc s) (hacc : acc.bfQ = bf :: bs)
    (hframes : (s.buf bf).bfNframes = (bf :: bs).length)
    (hs' : s' = if (s.buf bf).bfNframes = 1 then schedSingle s bf
      else schedAggregate s bf ((bf :: bs).getLastD bf)) :
    Track G s.ledger ⟨bf :: bs, [], l⟩ s'.ledger ⟨[], [], l⟩ ∧ s'.tid = s.tid ∧
      ∀ b ∈ l, s'.buf b = s.buf b := by
  have hrest : ∀ b ∈ l, b ∉ bf :: bs := fun b hb => hacc ▸ h.wf.not_mem_rest hb
  split at hs'
  · rename_i hone
    have hnil : bs = [] := by
      rw [hframes] at hone
      simpa using hone
    subst hnil hs'
    refine ⟨h.single hacc, (athTgtTxqAddUcast_spares _ _).1, fun b hb => schedSingle_buf ?_⟩
    rintro rfl
    exact hrest b hb List.mem_cons_self
  · subst hs'
    refine ⟨h.aggregate hacc, (athTgtTxqAddUcast_spares _ _).1,
      fun b hb => schedAggregate_buf ?_ ?_⟩
    · rintro rfl
      exact hrest b hb List.mem_cons_self
    · rintro rfl
      apply hrest _ hb
      rw [← List.getLast_eq_getLastD (by simp)]
      exact List.getLast_mem _

theorem schedAggrLoop_spec (hsafe : ∀ k v a, Action.Safe a → G k v a) {n : ℕ}
    (hwf : s.ledger.WF ⟨[], [], l⟩) (ha : (s.tid k).aggrEnabled = true)
    (hp : (s.tid k).paused = false) (h : schedAggrLoop k n s = some s') :
    Scheduled G l s s' := by
  induction n generalizing s with
  | zero =>
      obtain rfl := Option.some_inj.mp h
      exact .refl hwf
  | succ n ih =>
      rw [schedAggrLoop] at h
      split at h
      · obtain rfl := Option.some_inj.mp h
        exact .refl hwf
      · obtain ⟨⟨status, bfQ, s₁⟩, hform, h⟩ := Option.bind_eq_some_iff.mp h
        obtain ⟨acc, rfl, hformed, hframes⟩ := athTgtTxFormAggr_spec hwf ha hp hsafe hform
        have hforming := hformed.forming
        have htrack := hformed.track
        cases hacc : acc.bfQ with
        | nil =>
            simp only [hacc] at h
            obtain rfl := Option.some_inj.mp h
            rw [hacc] at htrack
            exact ⟨htrack, hformed.loose⟩
        | cons bf more =>
            simp only [hacc] at h
            rw [hacc] at hframes htrack
            generalize hs₂ : (if (s₁.buf bf).bfNframes = 1 then schedSingle s₁ bf
              else schedAggregate s₁ bf ((bf :: more).getLastD bf)) = s₂ at h
            obtain ⟨hsend, htid, hloose⟩ :=
              hforming.send (G := G) hacc (hframes bf rfl) hs₂.symm
            have hsched := Scheduled.mk (htrack.trans hsend)
              fun b hb => (hloose b hb).trans (hformed.loose b hb)
            split at h
            · refine hsched.trans (ih hsched.track.wf ?_ ?_ h)
              · rw [htid]
                exact hforming.aggr
              · rw [htid]
                exact hforming.paused
            · obtain rfl := Option.some_inj.mp h
              exact hsched

/-- Whether a TID is marked as scheduled is not in the ledger. -/
theorem ledger_modTid_sched (s : TxState) (k : TidId) (sched : Bool) :
    (s.modTid k fun tid => { tid with sched := sched }).ledger = s.ledger := by
  rw [TxState.ledger_modTid]
  exact s.ledger.setTid_self k

theorem Track.athTgtTxEnqueue {h : Hand} (hwf : s.ledger.WF h) (hq : tidToActxq k.2 = q) :
    Track G s.ledger h (athTgtTxEnqueue s q k).ledger h := by
  rw [Tx.athTgtTxEnqueue]
  split
  · exact .refl hwf
  · split
    · exact .refl hwf
    · rw [TxState.ledger_modTxq_axqTidq _ _ rfl, ledger_modTid_sched]
      refine .setTidq hwf fun k' hk' => ?_
      rcases List.mem_append.mp hk' with hk' | hk'
      · exact .inl hk'
      · exact .inr (List.mem_singleton.mp hk' ▸ hq)

theorem Track.tidqRemoveHead {h : Hand} (hwf : s.ledger.WF h) :
    Track G s.ledger h (tidqRemoveHead s q k).ledger h := by
  rw [Tx.tidqRemoveHead, ledger_modTid_sched, TxState.ledger_modTxq_axqTidq _ _ rfl]
  exact .setTidq hwf fun k' hk' => .inl (List.mem_of_mem_tail hk')

theorem Scheduled.athTgtTxEnqueue (hwf : s.ledger.WF ⟨[], [], l⟩) (hq : tidToActxq k.2 = q) :
    Scheduled G l s (athTgtTxEnqueue s q k) := by
  refine ⟨.athTgtTxEnqueue hwf hq, fun b _ => ?_⟩
  rw [Tx.athTgtTxEnqueue]
  split
  · rfl
  · split <;> rfl

theorem Scheduled.requeueTid (hwf : s.ledger.WF ⟨[], [], l⟩) (hq : tidToActxq k.2 = q) :
    Scheduled G l s (requeueTid s q k) := by
  rw [Tx.requeueTid]
  split
  · exact .refl hwf
  · exact .athTgtTxEnqueue hwf hq

theorem athTgtTxSchedNormal_of_nil (h : (s.tid k).bufQ = []) : athTgtTxSchedNormal s k = s := by
  rw [athTgtTxSchedNormal, schedNormalLoop, h]

theorem txqScheduleLoop_spec (hsafe : ∀ k v a, Action.Safe a → G k v a) {ks : List TidId}
    (hks : ∀ k ∈ ks, tidToActxq k.2 = q) (hwf : s.ledger.WF ⟨[], [], l⟩) (hoff : s.ledger.Off)
    (h : txqScheduleLoop q ks s = some s') : Scheduled G l s s' := by
  induction ks generalizing s with
  | nil =>
      obtain rfl := Option.some_inj.mp h
      exact .refl hwf
  | cons k ks ih =>
      rw [txqScheduleLoop] at h
      have hremove : Scheduled G l s (tidqRemoveHead s q k) := ⟨.tidqRemoveHead hwf, fun _ _ => rfl⟩
      have hwf' := hremove.track.wf
      have hoff' := hremove.track.off hoff
      refine hremove.trans ?_
      split at h
      · exact ih (fun k' hk' => hks k' (List.mem_cons_of_mem _ hk')) hwf' hoff' h
      · rename_i hpaused
        obtain ⟨s₁, hsched, rfl⟩ := Option.map_eq_some_iff.mp h
        have hs₁ : Scheduled G l (tidqRemoveHead s q k) s₁ := by
          split at hsched
          · rename_i haggr
            exact schedAggrLoop_spec hsafe hwf' haggr (by simpa using hpaused) hsched
          · rename_i haggr
            rw [athTgtTxSchedNormal_of_nil (hoff' k (Bool.not_eq_true _ ▸ haggr))] at hsched
            obtain rfl := Option.some_inj.mp hsched
            exact .refl hwf'
        exact hs₁.trans (.requeueTid hs₁.track.wf (hks k List.mem_cons_self))

theorem athTgtTxqSchedule_spec (hsafe : ∀ k v a, Action.Safe a → G k v a)
    (hwf : s.ledger.WF ⟨[], [], l⟩) (hoff : s.ledger.Off)
    (h : athTgtTxqSchedule s q = some s') : Scheduled G l s s' :=
  txqScheduleLoop_spec hsafe (hwf.filed q) hwf hoff h

/-- What `ath_aggr_resume_tid` does once the TID is resumed. -/
theorem athAggrResumeTid_spec (hsafe : ∀ k v a, Action.Safe a → G k v a)
    (hwf : (s.modTid k fun tid => { tid with paused := false }).ledger.WF ⟨[], [], l⟩)
    (hoff : (s.modTid k fun tid => { tid with paused := false }).ledger.Off)
    (h : athAggrResumeTid s k = some s') :
    Scheduled G l (s.modTid k fun tid => { tid with paused := false }) s' := by
  rw [athAggrResumeTid] at h
  split at h
  · obtain rfl := Option.some_inj.mp h
    exact .refl hwf
  · have henqueue := Scheduled.athTgtTxEnqueue (G := G) (q := tidToActxq k.2) hwf rfl
    exact henqueue.trans
      (athTgtTxqSchedule_spec hsafe henqueue.track.wf (henqueue.track.off hoff) h)

end Ath9kHtc.Tx
