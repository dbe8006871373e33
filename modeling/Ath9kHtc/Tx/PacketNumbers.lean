import Ath9kHtc.Tx.System

/-!
# Packet numbers are not reused

The counter of a node goes up by one for every encrypted frame, and the bytes of the frame say
the same number.
-/

namespace Ath9kHtc.Tx

variable {sc sc' : Softc} {ni : NodeId} {pn : PacketNumber} {es : List Encap}

/-- `iv32:iv16` -/
def PacketNumber.value (pn : PacketNumber) : ℕ := pn.iv16.toNat + 65536 * pn.iv32.toNat

/-- The number of some bytes, the lowest first. -/
def bytesValue (bytes : List (BitVec 8)) : ℕ := bytes.foldr (fun b n => b.toNat + 256 * n) 0

/-- The packet number in a CCMP header, the sequence counter in a TKIP header. -/
def decodeIv : KeyType → List (BitVec 8) → Option ℕ
  | .aes, [pn0, pn1, _, _, pn2, pn3, pn4, pn5] => some (bytesValue [pn0, pn1, pn2, pn3, pn4, pn5])
  | .tkip, [tsc1, _, tsc0, _, tsc2, tsc3, tsc4, tsc5] =>
    some (bytesValue [tsc0, tsc1, tsc2, tsc3, tsc4, tsc5])
  | _, _ => none

theorem value_incr (pn : PacketNumber) : pn.incr.value = (pn.value + 1) % 2 ^ 48 := by
  have h16 := pn.iv16.isLt
  have h32 := pn.iv32.isLt
  rw [PacketNumber.value, PacketNumber.value, PacketNumber.incr]
  have hlow : (pn.iv16 + 1).toNat = (pn.iv16.toNat + 1) % 65536 := BitVec.toNat_add ..
  have hhigh : (pn.iv32 + 1).toNat = (pn.iv32.toNat + 1) % 4294967296 := BitVec.toNat_add ..
  by_cases hcarry : pn.iv16 + 1 = 0
  · have hzero : (pn.iv16 + 1).toNat = 0 := congrArg BitVec.toNat hcarry
    simp only [hcarry, if_true]
    rw [hhigh, show (0 : BitVec 16).toNat = 0 from rfl]
    omega
  · have hpos : (pn.iv16 + 1).toNat ≠ 0 := fun h => hcarry (BitVec.eq_of_toNat_eq h)
    simp only [hcarry, if_false]
    rw [hlow]
    omega

theorem bytesValue_iv (pn : PacketNumber) :
    bytesValue ([pn.iv16.extractLsb' 0 8, pn.iv16.extractLsb' 8 8] ++ iv32Bytes pn.iv32) =
      pn.value := by
  have h16 := pn.iv16.isLt
  have h32 := pn.iv32.isLt
  simp only [bytesValue, iv32Bytes, PacketNumber.value, List.cons_append, List.nil_append,
    List.foldr_cons, List.foldr_nil, BitVec.extractLsb'_toNat, Nat.shiftRight_eq_div_pow]
  omega

theorem decodeIv_ccmpIv (pn : PacketNumber) (old : BitVec 8) :
    decodeIv .aes (ccmpIv pn old) = some pn.value :=
  congrArg some (bytesValue_iv pn)

theorem decodeIv_tkipIv (pn : PacketNumber) (old : BitVec 8) :
    decodeIv .tkip (tkipIv pn old) = some pn.value :=
  congrArg some (bytesValue_iv pn)

/-- The bytes stored are the bytes found. -/
theorem read_putBytes (byte : ℕ → BitVec 8) (offset : ℕ) (bytes : List (BitVec 8)) :
    ((List.range bytes.length).map fun i => putBytes byte offset bytes (offset + i)) = bytes := by
  apply List.ext_getElem
  · rw [List.length_map, List.length_range]
  · intro i _ hi
    rw [List.getElem_map, List.getElem_range, putBytes, if_pos (Nat.le_add_right ..),
      Nat.add_sub_cancel_left]
    exact (List.getElem_eq_getD _).symm

/-! ## The counter of a node -/

/-- A log whose entries say the number of frames encrypted so far, on 48 bits. -/
def Numbered : List Encap → Prop
  | [] => True
  | e :: es =>
    e.pn.value = (es.length + 1) % 2 ^ 48 ∧ decodeIv e.keytype e.iv = some e.pn.value ∧ Numbered es

/-- The counter of a node is the length of its log. -/
def Counted (sc : Softc) (ni : NodeId) : Prop :=
  (sc.scSta ni).pn.value = (sc.encaps ni).length % 2 ^ 48 ∧ Numbered (sc.encaps ni)

/-- What a step does to the counter and the log of a node it does not create. -/
inductive Counts (sc sc' : Softc) (ni : NodeId) : Prop
  | same : (sc'.scSta ni).pn = (sc.scSta ni).pn → sc'.encaps ni = sc.encaps ni → Counts sc sc' ni
  | next {keytype : KeyType} {iv : List (BitVec 8)} :
      (sc'.scSta ni).pn = (sc.scSta ni).pn.incr →
      sc'.encaps ni = ⟨(sc.scSta ni).pn.incr, keytype, iv⟩ :: sc.encaps ni →
      decodeIv keytype iv = some (sc.scSta ni).pn.incr.value → Counts sc sc' ni

theorem Counts.counted (h : Counts sc sc' ni) (hc : Counted sc ni) : Counted sc' ni := by
  obtain ⟨hvalue, hnumbered⟩ := hc
  cases h with
  | same hpn hlog =>
      rw [Counted, hpn, hlog]
      exact ⟨hvalue, hnumbered⟩
  | next hpn hlog hiv =>
      have hnext : (sc.scSta ni).pn.incr.value = ((sc.encaps ni).length + 1) % 2 ^ 48 := by
        rw [value_incr, hvalue, Nat.mod_add_mod]
      rw [Counted, hpn, hlog]
      exact ⟨hnext, hnext, hiv, hnumbered⟩

theorem Counts.of_eq (hsta : (sc'.scSta ni).pn = (sc.scSta ni).pn) (hlog : sc'.encaps = sc.encaps) :
    Counts sc sc' ni :=
  .same hsta (congrFun hlog ni)

theorem Counts.congr {sc₁ sc₁' : Softc} (h : Counts sc sc' ni)
    (hsta : (sc₁.scSta ni).pn = (sc.scSta ni).pn) (hlog : sc₁.encaps = sc.encaps)
    (hsta' : (sc₁'.scSta ni).pn = (sc'.scSta ni).pn) (hlog' : sc₁'.encaps = sc'.encaps) :
    Counts sc₁ sc₁' ni := by
  cases h with
  | same hpn hsame => exact .same (by rw [hsta', hpn, hsta]) (by rw [hlog', hsame, hlog])
  | next hpn hnext hiv =>
      exact .next (by rw [hsta', hpn, hsta]) (by rw [hlog', hnext, hsta, hlog]) (by rw [hsta, hiv])

/-- A step of the node itself that keeps its counter. -/
theorem modSta_pn (sc : Softc) (ni' : NodeId) (f : Node → Node) (hf : ∀ node, (f node).pn = node.pn) :
    ((sc.modSta ni' f).scSta ni).pn = (sc.scSta ni).pn := by
  dsimp only [Softc.modSta]
  by_cases hni : ni = ni'
  · subst hni
    rw [Function.update_self]
    exact hf _
  · rw [Function.update_of_ne hni]

theorem modSta_txseqmgmt (sc : Softc) (ni' : NodeId) :
    ((sc.modSta ni' fun node => { node with
      niTxseqmgmt := (node.niTxseqmgmt + 1) % ieee80211SeqMax }).scSta ni).pn = (sc.scSta ni).pn :=
  modSta_pn sc ni' _ fun _ => rfl

theorem encap_incr (pn : PacketNumber) (n : Nbuf) {keytype : KeyType}
    (h : keytype = .aes ∨ keytype = .tkip) :
    (ieee80211TgtCryptoEncap pn n keytype).1 = pn.incr := by
  rcases h with rfl | rfl <;> rfl

theorem decodeIv_encap (pn : PacketNumber) (n : Nbuf) {keytype : KeyType}
    (h : keytype = .aes ∨ keytype = .tkip) :
    decodeIv keytype ((List.range 8).map fun i =>
      (ieee80211TgtCryptoEncap pn n keytype).2.byte (ivOffset n + i)) = some pn.incr.value := by
  have hread := read_putBytes n.byte (ivOffset n)
  rcases h with rfl | rfl
  · have hccmp := hread (ccmpIv pn.incr (n.byte (ivOffset n + 3)))
    rw [show (ccmpIv pn.incr (n.byte (ivOffset n + 3))).length = 8 from rfl] at hccmp
    exact (congrArg (decodeIv .aes) hccmp).trans (decodeIv_ccmpIv ..)
  · have htkip := hread (tkipIv pn.incr (n.byte (ivOffset n + 3)))
    rw [show (tkipIv pn.incr (n.byte (ivOffset n + 3))).length = 8 from rfl] at htkip
    exact (congrArg (decodeIv .tkip) htkip).trans (decodeIv_tkipIv ..)

theorem encapFrame_counts (sc : Softc) (ni' : NodeId) (skb : SkbId) (keytype : KeyType) :
    Counts sc (encapFrame sc ni' skb keytype) ni := by
  rw [encapFrame]
  split
  · rename_i henc
    by_cases hni : ni = ni'
    · subst hni
      refine .next ?_ ?_ (decodeIv_encap _ (sc.tx.nbuf skb) henc.2)
      · dsimp only [Softc.modSta]
        rw [Function.update_self]
        exact encap_incr _ _ henc.2
      · dsimp only
        rw [Function.update_self, encap_incr _ _ henc.2]
    · refine .same ?_ (Function.update_of_ne hni ..)
      dsimp only [Softc.modSta]
      rw [Function.update_of_ne hni]
  · exact .same rfl rfl

theorem prepareBuf_counts (sc : Softc) (k : TidId) (dh : DataHdr) (skb : SkbId) (bf : BufId)
    (s : TxState) : Counts sc (prepareBuf sc k dh skb bf s) ni := by
  rw [prepareBuf]
  generalize TxState.modBuf (athTgtTxSeqnoNormal _ k bf skb) bf _ = s₁
  set sc₁ : Softc := { sc.modSta k.1 fun node =>
    { node with niTxseqmgmt := (node.niTxseqmgmt + 1) % ieee80211SeqMax } with tx := s₁ }
  have hsta : (sc.scSta ni).pn = (sc₁.scSta ni).pn := (modSta_txseqmgmt sc k.1).symm
  have hcounts : Counts sc₁ (encapFrame sc₁ k.1 skb dh.keytype) ni := encapFrame_counts ..
  exact hcounts.congr hsta rfl rfl rfl

theorem athTgtTxPrepare_counts {skb : SkbId} {dh : DataHdr} {found : Option (TidId × BufId)}
    (h : athTgtTxPrepare sc skb dh = some (found, sc')) : Counts sc sc' ni := by
  obtain ⟨node, -, h⟩ := Option.bind_eq_some_iff.mp h
  cases node with
  | none =>
      obtain ⟨-, rfl⟩ := Prod.mk.inj (Option.some_inj.mp h)
      exact .same rfl rfl
  | some ni' =>
      dsimp only at h
      split at h
      · split at h
        · obtain ⟨-, rfl⟩ := Prod.mk.inj (Option.some_inj.mp h)
          exact .same rfl rfl
        · obtain ⟨⟨bf, s⟩, -, h⟩ := Option.map_eq_some_iff.mp h
          obtain ⟨-, rfl⟩ := Prod.mk.inj h
          exact prepareBuf_counts sc _ dh skb bf s
      · cases h

theorem tgtHtcRecvMessageHandler_counts {endpt : EndpointId} {skb : SkbId} {dh : DataHdr}
    (h : tgtHtcRecvMessageHandler sc endpt skb dh = some sc') : Counts sc sc' ni := by
  obtain ⟨⟨found, sc₁⟩, hprep, rfl⟩ := Option.map_eq_some_iff.mp h
  have hcounts : Counts sc sc₁ ni := athTgtTxPrepare_counts hprep
  cases found <;> exact hcounts.congr rfl rfl rfl rfl

theorem athTgtSendMgt_counts {endpt : EndpointId} {skb : SkbId} {mh : MgtHdr}
    (h : athTgtSendMgt sc endpt skb mh = some sc') : Counts sc sc' ni := by
  rw [athTgtSendMgt] at h
  cases hfree : sc.tx.scTxbuf with
  | nil =>
      rw [hfree] at h
      obtain rfl := Option.some_inj.mp h
      exact .same rfl rfl
  | cons bf rest =>
      rw [hfree] at h
      obtain ⟨node, -, rfl⟩ := Option.map_eq_some_iff.mp h
      cases node with
      | none => exact .same rfl rfl
      | some ni' => exact .same (modSta_txseqmgmt sc ni') rfl

/-! ## Runs -/

/-- No command rewrites the counter of a node in use. -/
def KeepsCounters (sc : Softc) : Event → Prop
  | .nodeUpdate cmd => ∀ ni : NodeId, cmd.niNodeindex = ni → (sc.scSta ni).pn = ⟨0, 0⟩
  | _ => True

instance (sc : Softc) (e : Event) : Decidable (KeepsCounters sc e) :=
  match e with
  | .nodeUpdate cmd =>
    inferInstanceAs (Decidable (∀ ni : NodeId, cmd.niNodeindex = ni → _))
  | .recvData .. | .recvMgmt .. | .processq .. | .statusClear | .statusSend | .drainStart |
    .drainTidq .. | .drainEnd | .enableAggr .. | .nodeCreate .. | .nodeCleanup .. |
    .icUpdate .. => inferInstanceAs (Decidable True)

/-- The event creates the node. -/
def Creates (ni : NodeId) : Event → Prop
  | .nodeCreate cmd => cmd.niNodeindex = ni
  | _ => False

theorem step_counts {e : Event} (hk : KeepsCounters sc e) (hnot : ¬Creates ni e)
    (h : step e sc = some sc') : Counts sc sc' ni := by
  cases e with
  | recvData endpt dh frame =>
      have hcounts : Counts (arrive sc frame) sc' ni := tgtHtcRecvMessageHandler_counts h
      exact hcounts.congr rfl rfl rfl rfl
  | recvMgmt endpt mh frame =>
      have hcounts : Counts (arrive sc frame) sc' ni := athTgtSendMgt_counts h
      exact hcounts.congr rfl rfl rfl rfl
  | processq q state answer =>
      obtain ⟨out, -, rfl⟩ := Option.map_eq_some_iff.mp h
      exact .same rfl rfl
  | statusClear | statusSend | drainStart | drainEnd | icUpdate ampduLimit enableCoex =>
      obtain rfl := Option.some_inj.mp h
      exact .same rfl rfl
  | drainTidq q =>
      obtain ⟨s, -, rfl⟩ := Option.map_eq_some_iff.mp h
      exact .same rfl rfl
  | enableAggr nodeindex tidno enable =>
      have h : athEnableAggrTgt sc nodeindex tidno enable = some sc' := h
      rw [athEnableAggrTgt] at h
      split at h
      · split at h
        · dsimp only at h
          split at h
          · obtain rfl := Option.some_inj.mp h
            exact .same rfl rfl
          · split at h
            · obtain rfl := Option.some_inj.mp h
              exact .same rfl rfl
            · split at h
              · obtain ⟨s, -, rfl⟩ := Option.map_eq_some_iff.mp h
                exact .same rfl rfl
              · obtain rfl := Option.some_inj.mp h
                exact .same rfl rfl
        · obtain rfl := Option.some_inj.mp h
          exact .same rfl rfl
      · obtain rfl := Option.some_inj.mp h
        exact .same rfl rfl
  | nodeCreate cmd =>
      have h : athNodeCreateTgt sc cmd = some sc' := h
      rw [athNodeCreateTgt] at h
      split at h
      · rename_i hlt
        split at h
        · cases h
        · obtain rfl := Option.some_inj.mp h
          have hne : ni ≠ ⟨cmd.niNodeindex, hlt⟩ := fun heq => hnot (congrArg Fin.val heq).symm
          refine .same ?_ (Function.update_of_ne hne ..)
          dsimp only [Softc.modSta]
          rw [Function.update_of_ne hne]
      · cases h
  | nodeCleanup nodeIndex =>
      have h : athNodeCleanupTgt sc nodeIndex = some sc' := h
      rw [athNodeCleanupTgt] at h
      split at h
      · obtain rfl := Option.some_inj.mp h
        exact .same (modSta_pn sc _ _ fun _ => rfl) rfl
      · cases h
  | nodeUpdate cmd =>
      have h : athNodeUpdateTgt sc cmd = some sc' := h
      rw [athNodeUpdateTgt] at h
      split at h
      · rename_i hlt
        obtain rfl := Option.some_inj.mp h
        refine .same ?_ rfl
        dsimp only [Softc.modSta]
        by_cases hni : ni = ⟨cmd.niNodeindex, hlt⟩
        · have hzero : (sc.scSta ni).pn = ⟨0, 0⟩ := hk ni (congrArg Fin.val hni).symm
          subst hni
          rw [Function.update_self, hzero]
        · rw [Function.update_of_ne hni]
      · cases h

theorem counted_of_creates {e : Event} (he : Creates ni e) (h : step e sc = some sc') :
    Counted sc' ni := by
  cases e with
  | nodeCreate cmd =>
      have h : athNodeCreateTgt sc cmd = some sc' := h
      rw [athNodeCreateTgt] at h
      split at h
      · rename_i hlt
        split at h
        · cases h
        · obtain rfl := Option.some_inj.mp h
          have hni : ni = ⟨cmd.niNodeindex, hlt⟩ := Fin.ext (Eq.symm he)
          rw [Counted]
          dsimp only [Softc.modSta]
          rw [hni, Function.update_self, Function.update_self]
          exact ⟨rfl, trivial⟩
      · cases h
  | _ => exact he.elim

theorem reachable_counted (h : transmit.ReachableWhere KeepsCounters sc) (ni : NodeId) :
    Counted sc ni := by
  refine h.invariant (P := fun sc => Counted sc ni) ?_ ?_
  · rintro sc ⟨cfg, rateAnswers, -, rfl⟩
    exact ⟨rfl, trivial⟩
  · intro sc e sc' hcounted hk hstep
    by_cases he : Creates ni e
    · exact counted_of_creates he hstep
    · exact (step_counts hk he hstep).counted hcounted

/-- The log of a node up to the wrap of the counter, whose numbers only grow, and whose bytes
say them. -/
structure NeverReused (es : List Encap) : Prop where
  increasing : (es.drop (es.length - (2 ^ 48 - 1))).Pairwise fun later earlier =>
    earlier.pn.value < later.pn.value
  decodes : ∀ e ∈ es, decodeIv e.keytype e.iv = some e.pn.value

theorem Numbered.drop (h : Numbered es) (n : ℕ) : Numbered (es.drop n) := by
  induction es generalizing n with
  | nil => simpa using h
  | cons e es ih =>
    cases n with
    | zero => exact h
    | succ n => exact ih h.2.2 n

theorem Numbered.value_le (h : Numbered es) (hlen : es.length < 2 ^ 48) :
    ∀ e ∈ es, e.pn.value ≤ es.length := by
  induction es with
  | nil => simp
  | cons e es ih =>
    intro e' he'
    have hlen' : es.length + 1 < 2 ^ 48 := hlen
    rcases List.mem_cons.mp he' with rfl | he'
    · rw [h.1]
      exact Nat.mod_le _ _
    · have := ih h.2.2 (by omega) e' he'
      rw [List.length_cons]
      omega

theorem Numbered.pairwise (h : Numbered es) (hlen : es.length < 2 ^ 48) :
    es.Pairwise fun later earlier => earlier.pn.value < later.pn.value := by
  induction es with
  | nil => exact .nil
  | cons e es ih =>
    have hlen' : es.length + 1 < 2 ^ 48 := hlen
    refine .cons (fun e' he' => ?_) (ih h.2.2 (by omega))
    have hle := h.2.2.value_le (by omega) e' he'
    rw [h.1, Nat.mod_eq_of_lt hlen']
    omega

theorem Numbered.decodes (h : Numbered es) : ∀ e ∈ es, decodeIv e.keytype e.iv = some e.pn.value := by
  induction es with
  | nil => simp
  | cons e es ih =>
    intro e' he'
    rcases List.mem_cons.mp he' with rfl | he'
    · exact h.2.1
    · exact ih h.2.2 e' he'

/-- Between two creations of a node its packet numbers grow, and no other event takes its
counter back. -/
theorem packet_numbers_never_reused (h : transmit.ReachableWhere KeepsCounters sc) (ni : NodeId) :
    NeverReused (sc.encaps ni) ∧ ∀ e sc', KeepsCounters sc e → ¬Creates ni e →
      step e sc = some sc' → (sc'.scSta ni).pn = (sc.scSta ni).pn ∨
        (sc'.scSta ni).pn.value = ((sc.scSta ni).pn.value + 1) % 2 ^ 48 := by
  obtain ⟨-, hnumbered⟩ := reachable_counted h ni
  refine ⟨⟨?_, hnumbered.decodes⟩, fun e sc' hk hnot hstep => ?_⟩
  · apply (hnumbered.drop _).pairwise
    rw [List.length_drop]
    omega
  · cases step_counts hk hnot hstep with
    | same hpn => exact .inl hpn
    | next hpn => exact .inr (by rw [hpn, value_incr])

/-- A frame to encrypt. -/
def secretFrame : Nbuf := ⟨100, fun i => if i = 1 then 0x40 else 0⟩

def secretTo (keytype : KeyType) : DataHdr := { dataTo 0 with keytype := keytype }

theorem packet_numbers_never_reused_run : ∃ sc : Softc,
    ((sc.encaps 0).map fun e => e.pn.value) = [2, 1] ∧ NeverReused (sc.encaps 0) := by
  obtain ⟨sc, steps, hlog⟩ := Machine.exists_of_runWhere transmit.Init step KeepsCounters
    (P := fun sc => ((sc.encaps 0).map fun e => e.pn.value) = [2, 1])
    (s := attach smallConfig steadyAnswers)
    [.nodeCreate (createNode 0), .recvData 0 (secretTo .aes) secretFrame,
      .recvData 0 (secretTo .tkip) secretFrame] (by decide +kernel)
  have hreach : transmit.ReachableWhere KeepsCounters sc :=
    ⟨_, ⟨smallConfig, steadyAnswers, by decide, rfl⟩, steps⟩
  exact ⟨sc, hlog, (packet_numbers_never_reused hreach 0).1⟩

/-- An update of a node starts its counter again. -/
theorem node_update_reuses_number :
    ¬ ∀ sc ni, transmit.Reachable sc → NeverReused (sc.encaps ni) := by
  intro hall
  obtain ⟨sc, steps, hlog⟩ := Machine.exists_of_runWhere transmit.Init step (fun _ _ => True)
    (P := fun sc => ¬((sc.encaps 0).drop ((sc.encaps 0).length - (2 ^ 48 - 1))).Pairwise
      fun later earlier => earlier.pn.value < later.pn.value) (s := attach smallConfig steadyAnswers)
    [.nodeCreate (createNode 0), .recvData 0 (secretTo .aes) secretFrame,
      .nodeUpdate (createNode 0), .recvData 0 (secretTo .aes) secretFrame] (by decide +kernel)
  exact hlog (hall sc 0 ⟨_, ⟨smallConfig, steadyAnswers, by decide, rfl⟩, steps⟩).increasing

end Ath9kHtc.Tx
