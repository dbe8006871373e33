import Ath9kHtc.Tx.Types

/-!
# Packet numbers

`ieee80211_tgt_crypto_encap`: the counter of a node and the bytes of the initialisation vector.
-/

namespace Ath9kHtc.Tx

/-- `ni_iv16` and `ni_iv32` -/
structure PacketNumber where
  iv16 : BitVec 16
  iv32 : BitVec 32
  deriving DecidableEq, Repr

/-- The increment of `ni_iv16` with its carry into `ni_iv32`. -/
def PacketNumber.incr (pn : PacketNumber) : PacketNumber where
  iv16 := pn.iv16 + 1
  iv32 := if pn.iv16 + 1 = 0 then pn.iv32 + 1 else pn.iv32

/-- `IEEE80211_QOS_HAS_SEQ` -/
def ieee80211QosHasSeq (n : Nbuf) : Bool := n.byte 0 &&& 0x8c = 0x88

/-- Where the initialisation vector of a frame starts. -/
def ivOffset (n : Nbuf) : ℕ :=
  if n.byte 31 &&& 0x01 ≠ 0 then 32 else if ieee80211QosHasSeq n then 28 else 24

/-- Bytes stored from an offset on. -/
def putBytes (byte : ℕ → BitVec 8) (offset : ℕ) (bytes : List (BitVec 8)) : ℕ → BitVec 8 :=
  fun i => if offset ≤ i then bytes.getD (i - offset) (byte i) else byte i

/-- The four bytes of `ni_iv32`, the lowest first. -/
def iv32Bytes (iv32 : BitVec 32) : List (BitVec 8) :=
  [iv32.extractLsb' 0 8, iv32.extractLsb' 8 8, iv32.extractLsb' 16 8, iv32.extractLsb' 24 8]

/-- The CCMP header. -/
def ccmpIv (pn : PacketNumber) (old : BitVec 8) : List (BitVec 8) :=
  [pn.iv16.extractLsb' 0 8, pn.iv16.extractLsb' 8 8, 0x00, old ||| 0x20] ++ iv32Bytes pn.iv32

/-- The TKIP header. -/
def tkipIv (pn : PacketNumber) (old : BitVec 8) : List (BitVec 8) :=
  let b1 := pn.iv16.extractLsb' 8 8
  [b1, (b1 ||| 0x20) &&& 0x7f, pn.iv16.extractLsb' 0 8, old ||| 0x20] ++ iv32Bytes pn.iv32

/-- `ieee80211_tgt_crypto_encap`: the counter and the frame afterwards. -/
def ieee80211TgtCryptoEncap (pn : PacketNumber) (n : Nbuf) (keytype : KeyType) :
    PacketNumber × Nbuf :=
  let offset := ivOffset n
  let old := n.byte (offset + 3)
  match keytype with
  | .aes => (pn.incr, { n with byte := putBytes n.byte offset (ccmpIv pn.incr old) })
  | .tkip => (pn.incr, { n with byte := putBytes n.byte offset (tkipIv pn.incr old) })
  | _ => (pn, n)

end Ath9kHtc.Tx
