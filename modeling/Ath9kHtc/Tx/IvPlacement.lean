import Ath9kHtc.Tx.PacketNumbers

/-!
# Where the initialisation vector goes

`ieee80211_tgt_crypto_encap` takes a bit of the second `i_qos` byte of a four-address header for
the length of every header.
-/

namespace Ath9kHtc.Tx

variable {n : Nbuf} {mesh : Option ℕ}

/-- A multiple of four. -/
def align4 (size : ℕ) : ℕ := (size + 3) / 4 * 4

/-- A mesh control has six bytes, and six more for each of its extended addresses. -/
def meshControlLen : Option ℕ → ℕ
  | none => 0
  | some addresses => 6 + 6 * addresses

/-- The header with its mesh control, where it has one. -/
def completeHdrsize (n : Nbuf) (mesh : Option ℕ) : ℕ := ieee80211Anyhdrsize n + meshControlLen mesh

/-- `IEEE80211_FC1_DIR_DSTODS` -/
def isDstods (n : Nbuf) : Bool := n.byte 1 &&& 0x03 = 0x03

/-- The bit of `i_qos[1]` that stands for a mesh control. -/
def meshBit (n : Nbuf) : Bool := n.byte 31 &&& 0x01 ≠ 0

/-- The vector follows the header, which alone decides where, and no other byte changes. -/
structure IvPlacement (n : Nbuf) (mesh : Option ℕ) : Prop where
  offset : ivOffset n = align4 (completeHdrsize n mesh)
  header : ∀ n' : Nbuf, (∀ i < completeHdrsize n mesh, n'.byte i = n.byte i) →
    ivOffset n' = ivOffset n
  vector : ∀ pn keytype, keytype = .aes ∨ keytype = .tkip →
    decodeIv keytype ((List.range 8).map fun i =>
      (ieee80211TgtCryptoEncap pn n keytype).2.byte (align4 (completeHdrsize n mesh) + i)) =
        some pn.incr.value
  others : ∀ pn keytype i,
    i < align4 (completeHdrsize n mesh) ∨ align4 (completeHdrsize n mesh) + 8 ≤ i →
    (ieee80211TgtCryptoEncap pn n keytype).2.byte i = n.byte i
  agrees : ivOffset n = align4 (ieee80211Anyhdrsize n)

theorem ivOffset_eq :
    ivOffset n = if meshBit n then 32 else if ieee80211QosHasSeq n then 28 else 24 := by
  simp [ivOffset, meshBit]

theorem ivOffset_le : ivOffset n ≤ 32 := by
  rw [ivOffset_eq]
  split
  · exact le_rfl
  · split <;> decide

theorem ivOffset_eq_32_iff : ivOffset n = 32 ↔ meshBit n := by
  rw [ivOffset_eq]
  cases meshBit n <;> cases ieee80211QosHasSeq n <;> decide

/-- The offset is not the same for the other value of the bit. -/
theorem ivOffset_flip :
    ivOffset { n with byte := Function.update n.byte 31 (n.byte 31 ^^^ 0x01) } ≠ ivOffset n := by
  intro heq
  have hbit : meshBit { n with byte := Function.update n.byte 31 (n.byte 31 ^^^ 0x01) } =
      !meshBit n := by
    simp only [meshBit, Function.update_self]
    generalize n.byte 31 = x
    revert x
    decide
  have hiff : ivOffset { n with byte := Function.update n.byte 31 (n.byte 31 ^^^ 0x01) } = 32 ↔ _ :=
    ivOffset_eq_32_iff
  rw [heq, hbit, ivOffset_eq_32_iff] at hiff
  cases hmesh : meshBit n <;> simp [hmesh] at hiff

theorem putBytes_others {byte : ℕ → BitVec 8} {offset i : ℕ} {bytes : List (BitVec 8)}
    (hi : i < offset ∨ offset + bytes.length ≤ i) : putBytes byte offset bytes i = byte i := by
  rw [putBytes]
  rcases hi with hlt | hle
  · rw [if_neg (Nat.not_le_of_lt hlt)]
  · have hout : bytes.length ≤ i - offset := by omega
    rw [if_pos (by omega), List.getD_eq_getElem?_getD, List.getElem?_eq_none hout, Option.getD_none]

/-- Only the eight bytes of the vector change. -/
theorem encap_others {pn : PacketNumber} {keytype : KeyType} {i : ℕ}
    (hi : i < ivOffset n ∨ ivOffset n + 8 ≤ i) :
    (ieee80211TgtCryptoEncap pn n keytype).2.byte i = n.byte i := by
  cases keytype with
  | aes => exact putBytes_others hi
  | tkip => exact putBytes_others hi
  | _ => rfl

/-- Only the header of a QoS frame with four addresses has 32 bytes. -/
theorem anyhdrsize_eq_32_iff :
    ieee80211Anyhdrsize n = 32 ↔ isDstods n ∧ ieee80211QosHasSeq n := by
  have hdir : isDstods n = true ↔ n.byte 1 &&& 0x03 = 0x03 := decide_eq_true_iff
  rw [ieee80211Anyhdrsize]
  split
  · rename_i hctl
    have hqos : ieee80211QosHasSeq n = false := by
      rw [ieee80211QosHasSeq]
      generalize n.byte 0 = fc0 at hctl ⊢
      revert fc0
      decide
    rw [hqos]
    split <;> simp
  · simp only [← hdir]
    cases isDstods n <;> cases ieee80211QosHasSeq n <;> decide

/-- The offset is right for the four-address headers of QoS data whose bit is set, if no mesh
control counts as part of them, and wrong for every other header. -/
theorem iv_placement (n : Nbuf) (mesh : Option ℕ) :
    IvPlacement n mesh ↔
      isDstods n ∧ ieee80211QosHasSeq n ∧ meshBit n ∧ mesh = none := by
  constructor
  · intro h
    -- the bit was read from the header, so the header has its 32 bytes
    have hlong : 32 ≤ completeHdrsize n mesh := by
      by_contra hshort
      apply ivOffset_flip (n := n)
      apply h.header
      intro i hi
      apply Function.update_of_ne
      omega
    have h32 : ivOffset n = 32 := by
      have hle := ivOffset_le (n := n)
      have hoffset := h.offset
      rw [align4] at hoffset
      omega
    have hagrees := h.agrees
    have hoffset := h.offset
    rw [h32, align4] at hagrees hoffset
    rw [completeHdrsize] at hlong hoffset
    cases mesh with
    | none =>
      have hsize : ieee80211Anyhdrsize n = 32 := by
        rw [meshControlLen] at hlong
        omega
      obtain ⟨hdir, hqos⟩ := anyhdrsize_eq_32_iff.mp hsize
      exact ⟨hdir, hqos, ivOffset_eq_32_iff.mp h32, rfl⟩
    | some addresses =>
      rw [meshControlLen] at hoffset
      omega
  · rintro ⟨hdir, hqos, hbit, rfl⟩
    have hsize : ieee80211Anyhdrsize n = 32 := anyhdrsize_eq_32_iff.mpr ⟨hdir, hqos⟩
    have hcomplete : completeHdrsize n none = 32 := by
      rw [completeHdrsize, hsize, meshControlLen]
    have hoffset : ivOffset n = align4 32 := ivOffset_eq_32_iff.mpr hbit
    constructor
    · rw [hcomplete, hoffset]
    · rw [hcomplete]
      intro n' hsame
      have hbit' : meshBit n' = meshBit n := by
        rw [meshBit, meshBit, hsame 31 (by decide)]
      rw [ivOffset_eq, ivOffset_eq, hbit', hbit]
      rfl
    · intro pn keytype hkey
      rw [hcomplete, ← hoffset]
      exact decodeIv_encap pn n hkey
    · intro pn keytype i hi
      rw [hcomplete, ← hoffset] at hi
      exact encap_others hi
    · rw [hsize, hoffset]

/-- A three-address frame of QoS data whose byte 31, of its payload, is odd. -/
def threeAddrFrame : Nbuf where
  len := 100
  byte i := if i = 0 then 0x88 else if i = 1 then 0x41 else if i = 31 then 0x01 else 0

theorem iv_behind_payload :
    ieee80211Anyhdrsize threeAddrFrame = 26 ∧ ivOffset threeAddrFrame = 32 ∧
      ¬ IvPlacement threeAddrFrame none := by
  refine ⟨by decide, by decide, fun h => ?_⟩
  have hoffset := h.offset
  revert hoffset
  decide

end Ath9kHtc.Tx
