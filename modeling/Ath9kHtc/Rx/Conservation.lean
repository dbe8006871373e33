import Mathlib.Data.Multiset.Range
import Ath9kHtc.Rx.Scanning

/-!
# Receive buffers are conserved

A buffer is in the pool, on a descriptor, in a frame record or in transfer to the host.
-/

namespace Ath9kHtc.Rx

variable {s s' : RxState} {l : List DescId} {h : DescId}

/-- The buffers of the frames that wait for the tasklet. -/
def inRecords (s : RxState) : List BufId := s.scRxbuf.flatMap fun bf => bf.bfSkb.getD []

/-- The buffers that are on descriptors. -/
def onDescs (s : RxState) : List BufId := onRing s (List.range s.cfg.numrxdescs)

/-- All buffers, each as often as it is somewhere. -/
def buffers (s : RxState) : Multiset BufId :=
  s.pool + onDescs s + inRecords s + s.inTransfer.flatten

theorem Ring.coe_onDescs (hr : Ring s l h) : (onDescs s : Multiset BufId) = onRing s l := by
  have hperm : (onRing s (l ++ h :: s.scRxdescIdle)).Perm (onDescs s) := hr.perm.filterMap _
  have hnone : onRing s (h :: s.scRxdescIdle) = [] := by
    rw [onRing, List.filterMap_eq_nil_iff]
    exact hr.empty
  rw [onRing_append, hnone, List.append_nil] at hperm
  exact (Multiset.coe_eq_coe.mpr hperm).symm

/-! ## Records -/

theorem flatMap_modify {α : Type} (f : α → α) (g : α → List BufId) :
    ∀ (l : List α) (i : ℕ) (a : α), l[i]? = some a →
      ((l.modify i f).flatMap g : Multiset BufId) + g a = (l.flatMap g : Multiset BufId) + g (f a)
  | [], i, a, h => by simp at h
  | x :: l, 0, a, h => by
      obtain rfl : x = a := by simpa using h
      simp only [List.modify_zero_cons, List.flatMap_cons, ← Multiset.coe_add]
      abel
  | x :: l, i + 1, a, h => by
      have ih := flatMap_modify f g l i a (by simpa using h)
      simp only [List.modify_succ_cons, List.flatMap_cons, ← Multiset.coe_add]
      rw [add_assoc, ih, add_assoc]

theorem inRecords_modify (i : ℕ) {bf : RxBuf} (f : RxBuf → RxBuf) (hi : s.scRxbuf[i]? = some bf) :
    (inRecords (modRxbuf s i f) : Multiset BufId) + bf.bfSkb.getD [] =
      inRecords s + (f bf).bfSkb.getD [] :=
  flatMap_modify f _ s.scRxbuf i bf hi

/-- A record that is not done has no frame. -/
def RecordsEmpty (s : RxState) : Prop := ∀ bf ∈ s.scRxbuf, bf.done = false → bf.bfSkb = none

theorem mem_modify {α : Type} {f : α → α} {x : α} {l : List α} {i : ℕ} (h : x ∈ l.modify i f) :
    x ∈ l ∨ ∃ a, l[i]? = some a ∧ x = f a := by
  obtain ⟨j, hj, rfl⟩ := List.mem_iff_getElem.mp h
  rw [List.length_modify] at hj
  rw [List.getElem_modify]
  split
  · rename_i heq
    subst heq
    exact .inr ⟨_, List.getElem?_eq_getElem hj, rfl⟩
  · exact .inl (List.getElem_mem hj)

/-! ## A round of the scan -/

theorem Turned.buffers {l' : List DescId} {h' : DescId} {out : List BufId} (hr : Ring s l h)
    (t : Turned s s' l l' h' out) : buffers s' + out = buffers s := by
  have hrecords : inRecords s' = inRecords s := by rw [inRecords, t.scRxbuf, inRecords]
  rw [Rx.buffers, Rx.buffers, t.ring.coe_onDescs, hr.coe_onDescs, hrecords, t.inTransfer]
  calc (s'.pool : Multiset BufId) + onRing s' l' + inRecords s + s.inTransfer.flatten + out
      = (s'.pool + onRing s' l' + out) + inRecords s + s.inTransfer.flatten := by abel
    _ = s.pool + onRing s l + inRecords s + s.inTransfer.flatten := by rw [t.bufs]

theorem Noted.onDescs (hn : Noted s s') : onDescs s' = onDescs s := by
  rw [Rx.onDescs, hn.cfg, hn.onRing, Rx.onDescs]

section

variable {i : ℕ} {bf : RxBuf} (hi : s.scRxbuf[i]? = some bf)

include hi

theorem note_record (ds : DescId) (b : BufId) : (note s i ds b).scRxbuf[i]? = some
    { bf with rsDatalen := (s.desc ds).dataLen, rsMore := (s.desc ds).rxMore } := by
  rw [note_scRxbuf, List.getElem?_modify_eq, hi]
  rfl

theorem buffers_note (ds : DescId) (b : BufId) : buffers (note s i ds b) = buffers s := by
  have hn := note_noted s i ds b
  have hrecords : (inRecords (note s i ds b) : Multiset BufId) = inRecords s := by
    have heq := flatMap_modify (fun bf : RxBuf =>
      { bf with rsDatalen := (s.desc ds).dataLen, rsMore := (s.desc ds).rxMore })
      (fun bf => bf.bfSkb.getD []) s.scRxbuf i bf hi
    rw [inRecords, note_scRxbuf]
    exact add_right_cancel heq
  rw [buffers, hn.onDescs, hn.pool, hrecords, hn.inTransfer, buffers]

theorem buffers_recordFrame (hfree : bf.bfSkb = none) (len : ℕ) (frags : List BufId) :
    buffers (recordFrame s i len frags) = buffers s + frags := by
  have hrecords : (inRecords (recordFrame s i len frags) : Multiset BufId) =
      inRecords s + frags := by
    have heq := inRecords_modify i (fun bf : RxBuf =>
      { bf with rsDatalen := len, bfSkb := some frags, done := true }) hi
    rw [hfree] at heq
    exact (add_zero _).symm.trans heq
  calc buffers (recordFrame s i len frags)
      = (s.pool : Multiset BufId) + onDescs s + inRecords (recordFrame s i len frags) +
          s.inTransfer.flatten := rfl
    _ = s.pool + onDescs s + (inRecords s + frags) + s.inTransfer.flatten := by rw [hrecords]
    _ = buffers s + frags := by
      rw [buffers]
      abel

end

theorem recordsEmpty_note (he : RecordsEmpty s) (i : ℕ) (ds : DescId) (b : BufId) :
    RecordsEmpty (note s i ds b) := by
  intro x hx
  rw [note_scRxbuf] at hx
  rcases mem_modify hx with hx | ⟨a, ha, rfl⟩
  · exact he x hx
  · exact he a (List.mem_of_getElem? ha)

theorem recordsEmpty_recordFrame (he : RecordsEmpty s) (i len : ℕ) (frags : List BufId) :
    RecordsEmpty (recordFrame s i len frags) := by
  intro x hx hdone
  rcases mem_modify hx with hx | ⟨a, -, rfl⟩
  · exact he x hx hdone
  · cases hdone

/-- The receive path has these buffers, and no record hides one. -/
structure Accounted (cfg : Config) (all : Multiset BufId) (s : RxState) : Prop where
  config : s.cfg = cfg
  buffers : buffers s = all
  records : RecordsEmpty s

variable {cfg : Config} {all : Multiset BufId}

theorem Scanned.accounted {c : Scan} {Q R : List DescId} {ds : DescId}
    {r : Round (Scan × RxState)} (hat : At c s Q ds R) (ha : Accounted cfg all s)
    (hs : Scanned s c Q ds R r) : r.Sat (fun a => Accounted cfg all a.2) (Accounted cfg all) := by
  obtain ⟨⟨h, hr⟩, -, -⟩ := hat
  obtain ⟨hcfg, hall, he⟩ := ha
  cases hs with
  | dropped _ turned =>
      have hsum := turned.buffers hr
      rw [Multiset.coe_nil, add_zero] at hsum
      refine ⟨turned.cfg.trans hcfg, hsum.trans hall, ?_⟩
      rw [RecordsEmpty, turned.scRxbuf]
      exact he
  | waits => exact ⟨hcfg, hall, he⟩
  | noRecord => trivial
  | busy => exact ⟨hcfg, hall, he⟩
  | segment _ hrecord =>
      refine ⟨(note_noted ..).cfg.trans hcfg, ?_, recordsEmpty_note he _ _ _⟩
      exact (buffers_note hrecord ..).trans hall
  | @finished bf b d nds R' s' F h' _ hrecord hfree _ _ _ _ _ turned =>
      have hnone : bf.bfSkb = none := he bf (List.mem_of_getElem? hrecord) hfree
      have hthere := note_record hrecord ds b
      have hempty := recordsEmpty_note he c.bf ds b
      rw [← turned.scRxbuf] at hthere
      rw [RecordsEmpty, ← turned.scRxbuf] at hempty
      refine ⟨?_, ?_, recordsEmpty_recordFrame hempty _ _ _⟩
      · exact turned.cfg.trans ((note_noted s c.bf ds b).cfg.trans hcfg)
      · rw [buffers_recordFrame hthere hnone, turned.buffers ((note_noted s c.bf ds b).ring hr),
          buffers_note hrecord, hall]

/-! ## The other events -/

theorem buffers_congr (hcfg : s'.cfg = s.cfg) (hpool : s'.pool = s.pool)
    (hdesc : ∀ d, (s'.desc d).dsNbuf = (s.desc d).dsNbuf) (hbuf : s'.scRxbuf = s.scRxbuf)
    (htransfer : s'.inTransfer = s.inTransfer) : buffers s' = buffers s := by
  have hdescs : onDescs s' = onDescs s := by
    rw [onDescs, hcfg]
    exact onRing_congr fun d _ => hdesc d
  rw [buffers, hpool, hdescs, inRecords, hbuf, htransfer, buffers, inRecords]

theorem Accounted.handOver {bf : RxBuf} {rest : List RxBuf} {skb : List BufId}
    (ha : Accounted cfg all s) (hbuf : s.scRxbuf = bf :: rest) (hskb : bf.bfSkb = some skb) :
    Accounted cfg all (handOver s bf rest skb) where
  config := ha.config
  buffers := by
    refine Eq.trans ?_ ha.buffers
    have hbefore : inRecords s = skb ++ rest.flatMap fun bf => bf.bfSkb.getD [] := by
      rw [inRecords, hbuf, List.flatMap_cons, hskb]
      rfl
    have hafter : inRecords (Rx.handOver s bf rest skb) =
        rest.flatMap fun bf => bf.bfSkb.getD [] := by
      show (rest ++ [_]).flatMap _ = _
      rw [List.flatMap_append]
      exact List.append_nil _
    have htransfer : (Rx.handOver s bf rest skb).inTransfer.flatten =
        s.inTransfer.flatten ++ skb := by
      show (s.inTransfer ++ [skb]).flatten = _
      rw [List.flatten_append, List.flatten_singleton]
    rw [Rx.buffers, hafter, htransfer, Rx.buffers, hbefore, ← Multiset.coe_add, ← Multiset.coe_add]
    show (s.pool : Multiset BufId) + onDescs s + _ + _ = _
    abel
  records := by
    intro x hx hdone
    rcases List.mem_append.mp hx with hx | hx
    · exact ha.records x (hbuf ▸ List.mem_cons_of_mem _ hx) hdone
    · rw [List.mem_singleton.mp hx]

theorem eraseIdx_flatten {α : Type} : ∀ (ls : List (List α)) (i : ℕ) (l : List α),
    ls[i]? = some l →
    (((ls.eraseIdx i).flatten : List α) : Multiset α) + l = (ls.flatten : List α)
  | [], i, l, h => by simp at h
  | x :: ls, 0, l, h => by
      obtain rfl : x = l := by simpa using h
      rw [List.eraseIdx_cons_zero, List.flatten_cons, ← Multiset.coe_add, add_comm]
  | x :: ls, i + 1, l, h => by
      have ih := eraseIdx_flatten ls i l (by simpa using h)
      simp only [List.eraseIdx_cons_succ, List.flatten_cons, ← Multiset.coe_add]
      rw [add_assoc, ih]

/-- What of a frame goes back, and what is lost. -/
theorem buffers_complete {i : ℕ} {frags : List BufId} (hr : Ring s l h)
    (hi : s.inTransfer[i]? = some frags) (hs : complete s i = some s') :
    buffers s' + frags.drop s.scRxdescIdle.length = buffers s := by
  obtain ⟨F, h', hfilled⟩ := hr.complete hi hs
  have hrecords : inRecords s' = inRecords s := by rw [inRecords, hfilled.scRxbuf, inRecords]
  have hsplit : (frags : Multiset BufId) =
      frags.take s.scRxdescIdle.length + frags.drop s.scRxdescIdle.length := by
    rw [Multiset.coe_add, List.take_append_drop]
  rw [buffers, hfilled.ring.coe_onDescs, hfilled.bufs, hfilled.pool, hrecords, hfilled.inTransfer,
    buffers, hr.coe_onDescs, ← eraseIdx_flatten _ _ _ hi, ← Multiset.coe_add, hsplit]
  show (s.pool : Multiset BufId) + (onRing s l + _) + inRecords s +
    (s.inTransfer.eraseIdx i).flatten + _ = _
  abel

/-- A transfer is complete. -/
theorem Accounted.complete {i : ℕ} {frags : List BufId} (hr : Ring s l h)
    (ha : Accounted cfg all s) (hi : s.inTransfer[i]? = some frags)
    (hs : complete s i = some s') :
    ∃ rest, Accounted cfg rest s' ∧ rest + frags.drop s.scRxdescIdle.length = all := by
  have hsum := buffers_complete hr hi hs
  obtain ⟨F, h', hfilled⟩ := hr.complete hi hs
  refine ⟨Rx.buffers s', ⟨hfilled.cfg.trans ha.config, rfl, ?_⟩, hsum.trans ha.buffers⟩
  rw [RecordsEmpty, hfilled.scRxbuf]
  exact ha.records

/-- Starting moves buffers of the pool to descriptors only. -/
theorem Accounted.started {s₀ : RxState} {p : DescId} {rest B : List DescId} {h' : DescId}
    (ha : Accounted cfg all s) (hst : Started s₀ s' [] p rest B h')
    (hdescs : (onDescs s : Multiset BufId) = onRing s₀ (p :: rest)) (hcfg : s₀.cfg = s.cfg)
    (hpool : s₀.pool = s.pool) (hbuf : s₀.scRxbuf = s.scRxbuf)
    (htransfer : s₀.inTransfer = s.inTransfer) : Accounted cfg all s' where
  config := hst.cfg.trans (hcfg.trans ha.config)
  buffers := by
    have hrecords : inRecords s' = inRecords s := by
      rw [inRecords, hst.scRxbuf, hbuf, inRecords]
    refine Eq.trans ?_ ha.buffers
    rw [Rx.buffers, hst.ring.coe_onDescs, hst.bufs, hpool, hrecords, hst.inTransfer, htransfer,
      Rx.buffers, hdescs]
    rfl
  records := by
    rw [RecordsEmpty, hst.scRxbuf, hbuf]
    exact ha.records

/-! ## Runs -/

/-- A completion finds an idle descriptor for each fragment, and a flush no frame in a record. -/
def Returns : RxState → Event → Prop
  | s, .complete i => ∀ frags ∈ s.inTransfer[i]?, frags.length ≤ s.scRxdescIdle.length
  | s, .flushRecv => ∀ bf ∈ s.scRxbuf, bf.bfSkb = none
  | _, _ => True

instance (s : RxState) (e : Event) : Decidable (Returns s e) :=
  match e with
  | .complete i =>
    inferInstanceAs (Decidable (∀ frags ∈ s.inTransfer[i]?, frags.length ≤ s.scRxdescIdle.length))
  | .flushRecv => inferInstanceAs (Decidable (∀ bf ∈ s.scRxbuf, bf.bfSkb = none))
  | .startRecv | .stopRecv | .receive _ | .advance | .interrupt _ | .tasklet _ => .isTrue trivial

theorem accounted_attach (cfg : Config) :
    Accounted cfg (Multiset.range cfg.numrxdescs) (attach cfg) where
  config := rfl
  buffers := by
    have hdescs : onDescs (attach cfg) = [] := by
      rw [onDescs, onRing, List.filterMap_eq_nil_iff]
      exact fun _ _ => rfl
    have hrecords : inRecords (attach cfg) = [] := by
      rw [inRecords, List.flatMap_eq_nil_iff]
      intro bf hbf
      rw [List.eq_of_mem_replicate hbf]
      rfl
    rw [Rx.buffers, hdescs, hrecords]
    show ((List.range cfg.numrxdescs).reverse : Multiset BufId) + ([] : List BufId) +
      ([] : List BufId) + ([] : List BufId) = _
    simp only [Multiset.coe_nil, add_zero]
    exact Multiset.coe_eq_coe.mpr (List.reverse_perm _)
  records := by
    intro bf hbf _
    rw [List.eq_of_mem_replicate hbf]

theorem Accounted.congr (ha : Accounted cfg all s) (hcfg : s'.cfg = s.cfg) (hpool : s'.pool = s.pool)
    (hdesc : ∀ d, (s'.desc d).dsNbuf = (s.desc d).dsNbuf) (hbuf : s'.scRxbuf = s.scRxbuf)
    (htransfer : s'.inTransfer = s.inTransfer) : Accounted cfg all s' where
  config := hcfg.trans ha.config
  buffers := (buffers_congr hcfg hpool hdesc hbuf htransfer).trans ha.buffers
  records := by
    rw [RecordsEmpty, hbuf]
    exact ha.records

theorem Attached.coe_onDescs (ha : Attached s) :
    (onDescs s : Multiset BufId) = onRing s s.scRxdesc := by
  rcases ha with ⟨cfg, rfl⟩ | ⟨l, h, hr, hl⟩
  · rfl
  · have hnone : onRing s [h] = [] := by
      rw [onRing, List.filterMap_cons, hr.empty h List.mem_cons_self]
      rfl
    rw [hr.coe_onDescs, hr.list, onRing_append, hnone, List.append_nil]

theorem Accounted.startrecv (ha : Accounted cfg all s) (hattached : Attached s)
    (hs : athStartrecv s = some s') : Accounted cfg all s' := by
  obtain ⟨p, rest, s₁, B, h', hlist, -, hst, rfl⟩ := hattached.startrecv hs
  have hdescs := hattached.coe_onDescs
  rw [hlist] at hdescs
  exact (ha.started hst hdescs rfl rfl rfl rfl).congr rfl rfl (fun _ => rfl) rfl rfl

theorem Accounted.step {e : Event} (ha : Accounted cfg all s) (hattached : Attached s)
    (he : Returns s e) (hs : step e s = some s') : Accounted cfg all s' := by
  by_cases hstart : e = .startRecv
  · subst hstart
    exact ha.startrecv hattached hs
  rcases hattached with ⟨cfg', rfl⟩ | hr
  · obtain rfl := step_attach hs hstart
    exact ha
  cases e with
  | startRecv => exact absurd rfl hstart
  | stopRecv =>
      obtain rfl := Option.some.inj hs
      exact ha.congr rfl rfl (fun _ => rfl) rfl rfl
  | flushRecv =>
      rcases athFlushrecvTgt_cases hs with rfl | rfl
      · exact ha
      · refine ha.congr rfl rfl (fun _ => rfl) ?_ rfl
        refine (List.map_congr_left fun bf hbf => ?_).trans (List.map_id _)
        show { bf with bfSkb := none } = bf
        rw [← he bf hbf]
  | receive seg =>
      obtain ⟨ds, b, -, -, -, rfl⟩ := hwReceive_cases hs
      refine ha.congr rfl rfl (fun d => ?_) rfl rfl
      rw [filled_desc]
      split <;> rfl
  | advance =>
      obtain ⟨ds, next, -, -, -, rfl⟩ := hwAdvance_cases hs
      exact ha.congr rfl rfl (fun _ => rfl) rfl rfl
  | interrupt rounds =>
      obtain ⟨l, h, hr, hl⟩ := hr
      exact (scanLoop_rule (P := fun _ s => Accounted cfg all s) (O := Accounted cfg all)
        (fun hat ha hscan => hscan.accounted hat ha) rounds (hr.at_start hl) ha hs).1
  | tasklet rounds =>
      exact tasklet_rule (fun hbuf _ hskb ha => ha.handOver hbuf hskb) rounds ha hs
  | complete i =>
      obtain ⟨l, h, hr, hl⟩ := hr
      obtain ⟨frags, hi, -⟩ := Option.map_eq_some_iff.mp hs
      obtain ⟨rest, ha', hrest⟩ := ha.complete hr hi hs
      rw [List.drop_of_length_le (he frags hi), Multiset.coe_nil, add_zero] at hrest
      rwa [hrest] at ha'

theorem accounted_of_reachable (hs : receive.ReachableWhere Returns s) :
    Accounted s.cfg (Multiset.range s.cfg.numrxdescs) s := by
  have hinv : ∃ cfg, Attached s ∧ Accounted cfg (Multiset.range cfg.numrxdescs) s := by
    refine hs.invariant
      (P := fun s => ∃ cfg, Attached s ∧ Accounted cfg (Multiset.range cfg.numrxdescs) s) ?_ ?_
    · rintro _ ⟨cfg, rfl⟩
      exact ⟨cfg, .inl ⟨cfg, rfl⟩, accounted_attach cfg⟩
    · rintro s e s' ⟨cfg, hattached, ha⟩ he hstep
      exact ⟨cfg, hattached.step hstep, ha.step hattached he hstep⟩
  obtain ⟨cfg, -, ha⟩ := hinv
  obtain rfl := ha.config
  exact ha

/-- Every buffer is in exactly one place; with no frame on its way all are in the pool or on
descriptors. -/
theorem rx_buffers_conserved (hs : receive.ReachableWhere Returns s) :
    buffers s = Multiset.range s.cfg.numrxdescs ∧
      (inRecords s = [] → s.inTransfer = [] →
        (s.pool : Multiset BufId) + onDescs s = Multiset.range s.cfg.numrxdescs) := by
  have ha := accounted_of_reachable hs
  refine ⟨ha.buffers, fun hrecords htransfer => ?_⟩
  have hall := ha.buffers
  rw [buffers, hrecords, htransfer, List.flatten_nil, Multiset.coe_nil, add_zero, add_zero] at hall
  exact hall

/-- The smallest of the platforms. -/
def smallConfig : Config := ⟨11, 11, by decide, by decide⟩

def shortFrame : Segment := ⟨[1, 2], false⟩

theorem rx_buffers_conserved_run : ∃ s : RxState, s.scRxdescIdle = [1] ∧
    buffers s = Multiset.range s.cfg.numrxdescs ∧
      (inRecords s = [] → s.inTransfer = [] →
        (s.pool : Multiset BufId) + onDescs s = Multiset.range s.cfg.numrxdescs) := by
  obtain ⟨s, steps, hidle⟩ := Machine.exists_of_runWhere receive.Init step Returns
    (P := fun s => s.scRxdescIdle = [1]) (s := attach smallConfig)
    [.startRecv, .receive shortFrame, .advance, .receive shortFrame, .advance, .interrupt 9,
      .tasklet 9] (by decide +kernel)
  exact ⟨s, hidle, rx_buffers_conserved ⟨_, ⟨smallConfig, rfl⟩, steps⟩⟩

/-- The completion of the first frame finds no idle descriptor. -/
theorem first_completion_loses_buffer :
    ¬ ∀ s, receive.Reachable s → buffers s = Multiset.range s.cfg.numrxdescs := by
  intro hall
  obtain ⟨s, steps, hlost⟩ := Machine.exists_of_runWhere receive.Init step (fun _ _ => True)
    (P := fun s => ¬ buffers s = Multiset.range s.cfg.numrxdescs) (s := attach smallConfig)
    [.startRecv, .receive shortFrame, .advance, .interrupt 9, .tasklet 9, .complete 0]
    (by decide +kernel)
  exact hlost (hall s ⟨_, ⟨smallConfig, rfl⟩, steps⟩)

end Ath9kHtc.Rx
