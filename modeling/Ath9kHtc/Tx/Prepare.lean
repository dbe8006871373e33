import Ath9kHtc.Tx.Completion
import Ath9kHtc.Tx.Crypto

/-!
# Frames from the host

The handlers of data and management frames: `ath_tgt_tx_prepare` and what follows it,
`ath_tgt_send_mgt`.
-/

namespace Ath9kHtc.Tx

/-- The part of `ieee80211_node_target` and `ath_node_target` beside the TIDs;
`niVap` is whether `ni_vap` is set. -/
structure Node where
  anValid : Bool := false
  niVap : Bool := false
  niTxseqmgmt : ℕ := 0
  pn : PacketNumber := ⟨0, 0⟩

/-- A frame encrypted by the target: the packet number and the bytes stored for it. -/
structure Encap where
  pn : PacketNumber
  keytype : KeyType
  iv : List (BitVec 8)

/-- `ath_softc_tgt`: the transmit path, the stations, the number of host frames received, and a
log of the packet numbers used since the creation of each node, the latest first. -/
structure Softc where
  tx : TxState
  scSta : NodeId → Node
  skbs : SkbId
  encaps : NodeId → List Encap

/-- `ath_data_hdr_t` -/
structure DataHdr where
  niIndex : ℕ
  vapIndex : ℕ
  tidno : ℕ
  keytype : KeyType
  cookie : BitVec 8

/-- `ath_mgt_hdr_t` -/
structure MgtHdr where
  niIndex : ℕ
  vapIndex : ℕ
  cookie : BitVec 8

namespace Softc

def modSta (sc : Softc) (ni : NodeId) (f : Node → Node) : Softc :=
  { sc with scSta := Function.update sc.scSta ni (f (sc.scSta ni)) }

end Softc

/-- `ath_tgt_find_node`: `none` where the code reads past the table of stations, which it
does for one index. -/
def athTgtFindNode (sc : Softc) (nodeIndex : ℕ) : Option (Option NodeId) :=
  if h : nodeIndex < 8 then
    let ni : NodeId := ⟨nodeIndex, h⟩
    some (if (sc.scSta ni).anValid ∧ (sc.scSta ni).niVap then some ni else none)
  else if 8 < nodeIndex then some none
  else none

/-- `ieee80211_anyhdrsize` -/
def ieee80211Anyhdrsize (n : Nbuf) : ℕ :=
  let fc0 := n.byte 0
  if fc0 &&& 0x0c = 0x04 then if fc0 &&& 0xf0 = 0xc0 ∨ fc0 &&& 0xf0 = 0xd0 then 10 else 16
  else
    24 + (if n.byte 1 &&& 0x03 = 0x03 then 6 else 0) + (if ieee80211QosHasSeq n then 2 else 0)

/-- `ath_get_pktlen` -/
def athGetPktlen (n : Nbuf) : ℕ :=
  (((n.len : Int) - ieee80211Anyhdrsize n % 4 + 4) % 65536).toNat

def isMoreFrag (n : Nbuf) : Bool := n.byte 1 &&& 0x04 ≠ 0

/-- The sequence control field with a number and the fragment number it holds already. -/
def putSeqno (bfSeqno : ℕ) (n : Nbuf) : Nbuf :=
  let fragno := n.byte 22 &&& 0x0f
  let byte := Function.update n.byte 22 (BitVec.ofNat 8 (bfSeqno % 256) ||| fragno)
  { n with byte := Function.update byte 23 (BitVec.ofNat 8 (bfSeqno / 256)) }

/-- The number `ath_tgt_tx_seqno_normal` takes from its TID. -/
def takeSeqno (tid : Tid) (skb : SkbId) (moreFrag : Bool) : Tid :=
  { tid with
    seqNext := if moreFrag then tid.seqNext else (tid.seqNext + 1) % ieee80211SeqMax
    issued := ⟨tid.seqNext, skb, moreFrag⟩ :: tid.issued }

/-- `ath_tgt_tx_seqno_normal` -/
def athTgtTxSeqnoNormal (s : TxState) (k : TidId) (bf : BufId) (skb : SkbId) : TxState :=
  let bfSeqno := (s.tid k).seqNext * 16
  let s := s.modBuf bf fun b => { b with bfSeqno := bfSeqno }
  let s := s.modNbuf skb (putSeqno bfSeqno)
  s.modTid k fun tid => takeSeqno tid skb (isMoreFrag (s.nbuf skb))

/-- What the key type of an encrypted frame adds to its length. -/
def keyTrailer : KeyType → ℕ
  | .wep => 4
  | .aes => 8
  | .tkip => 4
  | _ => 0

def isEncrypted (n : Nbuf) : Bool := n.byte 1 &&& 0x40 ≠ 0

/-- What `ath_tgt_txbuf_setup` and `ath_key_setup` put into the buffer. -/
def setupBuf (n : Nbuf) (b : TxBuf) : TxBuf :=
  let pktlen := athGetPktlen n
  { b with
    bfPktlen := if isEncrypted n then (pktlen + keyTrailer b.bfKeytype) % 65536 else pktlen
    bfIsmcast := n.byte 4 &&& 0x01 ≠ 0
    bfKeytype := if isEncrypted n then b.bfKeytype else .clear }

/-- The encapsulation of a frame of a node, where its key type asks for one. -/
def encapFrame (sc : Softc) (ni : NodeId) (skb : SkbId) (keytype : KeyType) : Softc :=
  let n := sc.tx.nbuf skb
  if isEncrypted n ∧ (keytype = .aes ∨ keytype = .tkip) then
    let out := ieee80211TgtCryptoEncap (sc.scSta ni).pn n keytype
    let iv := (List.range 8).map fun i => out.2.byte (ivOffset n + i)
    { sc.modSta ni fun node => { node with pn := out.1 } with
      tx := sc.tx.modNbuf skb fun _ => out.2
      encaps := Function.update sc.encaps ni (⟨out.1, keytype, iv⟩ :: sc.encaps ni) }
  else sc

/-- What `ath_tgt_tx_prepare` puts into the buffer before its setup. -/
def fillBuf (k : TidId) (dh : DataHdr) (skb : SkbId) (b : TxBuf) : TxBuf :=
  { b with
    bfTidno := k.2
    bfTxq := tidToActxq k.2
    bfKeytype := dh.keytype
    bfNode := some k.1
    bfSkbhead := b.bfSkbhead ++ [skb]
    bfSkb := (b.bfSkbhead ++ [skb]).head? }

/-- `ath_tgt_tx_prepare` once it has a buffer. -/
def prepareBuf (sc : Softc) (k : TidId) (dh : DataHdr) (skb : SkbId) (bf : BufId)
    (s : TxState) : Softc :=
  let s := athTgtTxSeqnoNormal (s.modBuf bf (fillBuf k dh skb)) k bf skb
  let s := s.modBuf bf (setupBuf (s.nbuf skb))
  let sc := { sc.modSta k.1 fun node =>
    { node with niTxseqmgmt := (node.niTxseqmgmt + 1) % ieee80211SeqMax } with tx := s }
  let sc := encapFrame sc k.1 skb dh.keytype
  { sc with tx := athFilltxdesc sc.tx bf }

/-- `ath_tgt_tx_prepare`: the TID and the buffer of an accepted frame. -/
def athTgtTxPrepare (sc : Softc) (skb : SkbId) (dh : DataHdr) :
    Option (Option (TidId × BufId) × Softc) :=
  (athTgtFindNode sc dh.niIndex).bind fun
    | none => some (none, sc)
    | some ni =>
      if h : dh.tidno < 8 then
        let k : TidId := (ni, ⟨dh.tidno, h⟩)
        if (sc.tx.tid k).reinitializeFlag then some (none, sc)
        else
          (athTxBufAlloc sc.tx).map fun (bf, s) => (some (k, bf), prepareBuf sc k dh skb bf s)
      else none

def athTgtHandleNormal (s : TxState) (k : TidId) (bf : BufId) : TxState :=
  let s := s.modBuf bf fun b => { b with bfComp := some .normal }
  athTgtTxSendNormal
    (s.modTid k fun tid => { tid with seqStart := (tid.seqStart + 1) % ieee80211SeqMax }) bf

/-- Whether `ath_tgt_handle_aggr` queues the frame. -/
def queueFrame (s : TxState) (k : TidId) (bf : BufId) : Bool :=
  let tid := s.tid k
  decide (athAggrMinQdepth ≤ (s.txq (s.buf bf).bfTxq).axqDepth) || !tid.bufQ.isEmpty ||
    tid.paused || !bawWithin tid.seqStart tid.bawSize (seqnoFromBfSeqno (s.buf bf).bfSeqno)

def athTgtHandleAggr (s : TxState) (k : TidId) (bf : BufId) : TxState :=
  let s := s.modBuf bf fun b => { b with bfComp := some .aggr }
  if queueFrame s k bf then
    athTgtTxEnqueue (s.modTid k fun tid => { tid with bufQ := tid.bufQ ++ [bf] })
      (s.buf bf).bfTxq k
  else
    athTgtTxSendNormal (s.modTid k fun tid => athTxAddtoBaw tid (s.buf bf)) bf

/-- What `tgt_HTCRecvMessageHandler` does with a prepared frame. -/
def sendPrepared (s : TxState) (k : TidId) (endpt : EndpointId) (dh : DataHdr) (bf : BufId) :
    TxState :=
  let s := s.modBuf bf fun b =>
    { b with bfEndpt := endpt, bfCookie := dh.cookie, vapIndex := dh.vapIndex }
  if (s.tid k).aggrEnabled then athTgtHandleAggr s k bf else athTgtHandleNormal s k bf

/-- `tgt_HTCRecvMessageHandler`, for the host buffer `skb` behind its header. -/
def tgtHtcRecvMessageHandler (sc : Softc) (endpt : EndpointId) (skb : SkbId) (dh : DataHdr) :
    Option Softc :=
  (athTgtTxPrepare sc skb dh).map fun
    | (none, sc) => { sc with tx := sc.tx.emit (.returnBuffers endpt skb) }
    | (some (k, bf), sc) => { sc with tx := sendPrepared sc.tx k endpt dh bf }

/-- What `ath_tgt_send_mgt` puts into the buffer. -/
def fillMgtBuf (sc : Softc) (ni : NodeId) (endpt : EndpointId) (skb : SkbId) (mh : MgtHdr)
    (b : TxBuf) : TxBuf :=
  let rc : RcSeries := { rix := sc.tx.cfg.minrateidx mh.vapIndex, tries := athTxmaxtry }
  { b with
    bfEndpt := endpt
    bfCookie := mh.cookie
    bfSkb := some skb
    bfSkbhead := b.bfSkbhead ++ [skb]
    bfRcs := Function.update (fun _ => {}) 0 rc
    bfNode := some ni }

/-- The number of a management frame; it has no fragments. -/
def putMgtSeqno (txseqmgmt : ℕ) (n : Nbuf) : Nbuf :=
  let byte := Function.update n.byte 22 (BitVec.ofNat 8 (txseqmgmt * 16 % 256))
  { n with byte := Function.update byte 23 (BitVec.ofNat 8 (txseqmgmt * 16 / 256)) }

/-- `ath_tgt_send_mgt` once it has a buffer and a node. -/
def sendMgtBuf (sc : Softc) (ni : NodeId) (endpt : EndpointId) (skb : SkbId) (mh : MgtHdr)
    (bf : BufId) : Softc :=
  let s := sc.tx.modBuf bf (fillMgtBuf sc ni endpt skb mh)
  let s := s.modNbuf skb (putMgtSeqno (sc.scSta ni).niTxseqmgmt)
  let s := athFilltxdesc s bf
  { sc.modSta ni fun node =>
      { node with niTxseqmgmt := (node.niTxseqmgmt + 1) % ieee80211SeqMax } with
    tx := athTgtTxqaddbuf s 1 bf (s.buf bf).bfLastds }

/-- `ath_tgt_send_mgt`: a buffer is taken before the node is looked up. -/
def athTgtSendMgt (sc : Softc) (endpt : EndpointId) (skb : SkbId) (mh : MgtHdr) :
    Option Softc :=
  match sc.tx.scTxbuf with
  | [] => some { sc with tx := sc.tx.emit (.returnBuffers endpt skb) }
  | bf :: rest =>
    let sc := { sc with tx := { sc.tx with scTxbuf := rest } }
    (athTgtFindNode sc mh.niIndex).map fun
      | none => { sc with tx := sc.tx.emit (.returnBuffers endpt skb) }
      | some ni => sendMgtBuf sc ni endpt skb mh bf

end Ath9kHtc.Tx
