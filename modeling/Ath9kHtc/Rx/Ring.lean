import Ath9kHtc.Rx.Types

/-!
# The ring of descriptors

How `if_ath.c` arms descriptors, takes frames off them and gives buffers back.  A function that
can fail an assertion or dereference a null pointer is partial.
-/

namespace Ath9kHtc.Rx

/-- `ath_alloc_skb_align` -/
def athAllocSkbAlign (s : RxState) : Option (BufId × RxState) :=
  match s.pool with
  | [] => none
  | b :: pool => some (b, ({ s with pool := pool } : RxState).modNbuf b fun n => { n with len := 0 })

/-- `BUF_Pool_free_buf`: a null buffer is written to unless the pool is empty. -/
def bufPoolFreeBuf (s : RxState) : Option BufId → Option RxState
  | some b => some { s with pool := b :: s.pool }
  | none => if s.pool = [] then some s else none

/-- The buffer of the descriptor to arm. -/
def fillRxdesc (s : RxState) (ds : DescId) : Option RxState :=
  match (s.desc ds).dsNbuf with
  | some _ => some s
  | none =>
    (athAllocSkbAlign s).map fun (b, s) =>
      s.modDesc ds fun d => { d with dsNbuf := some b, dsData := some b }

/-- The end of `ath_rxdesc_init`: the descriptor goes to the hardware. -/
def armRxdesc (s : RxState) (ds : DescId) : RxState :=
  let s := s.modDesc ds fun d => { d with dsLink := none, rxDone := false }
  let s := match s.scRxlink with
    | none => { s with rxdp := some ds }
    | some last => s.modDesc last fun d => { d with dsLink := some ds }
  { s with scRxlink := some ds, rxEnabled := true }

/-- `ath_rxdesc_init`: whether it returns 0.  The descriptor held so far is armed, and the new one
is held. -/
def athRxdescInit (s : RxState) (ds : DescId) : Bool × RxState :=
  match s.scRxdescHeld with
  | none => (true, { s with scRxdescHeld := some ds })
  | some held =>
    match fillRxdesc { s with scRxdescHeld := some ds } held with
    | none => (false, s)
    | some s => (true, armRxdesc s held)

/-- `ath_rxdesc_init` of a descriptor of `sc_rxdesc`, and where it goes. -/
def recycleRxdesc (s : RxState) (ds : DescId) : RxState :=
  let out := athRxdescInit s ds
  let rest := out.2.scRxdesc.erase ds
  if out.1 then { out.2 with scRxdesc := rest ++ [ds] }
  else { out.2 with scRxdesc := rest, scRxdescIdle := out.2.scRxdescIdle ++ [ds] }

/-- The loop of `ath_rx_complete` over the idle descriptors and the fragments. -/
def rxCompleteLoop : List DescId → List BufId → RxState → RxState
  | ds :: idle, b :: frags, s =>
    let s := (athRxdescInit { s with pool := b :: s.pool } ds).2
    rxCompleteLoop idle frags
      { s with
        scRxdescIdle := s.scRxdescIdle.erase ds
        scRxdesc := s.scRxdesc ++ [ds] }
  | _, _, s => s

/-- `ath_rx_complete` of a frame split into its fragments. -/
def athRxComplete (s : RxState) (frags : List BufId) : RxState :=
  rxCompleteLoop s.scRxdescIdle frags s

/-! ## Commands -/

/-- The loop of `ath_startrecv`, and whether it ends without an error. -/
def startrecvLoop : List DescId → RxState → Bool × RxState
  | [], s => (true, s)
  | ds :: rest, s =>
    let out := athRxdescInit s ds
    if out.1 then startrecvLoop rest out.2 else (false, out.2)

/-- `ath_startrecv` -/
def athStartrecv (s : RxState) : Option RxState :=
  let out := startrecvLoop s.scRxdesc { s with scRxlink := none, scRxdescHeld := none }
  if out.1 then out.2.scRxdesc.head?.map fun ds => { out.2 with rxdp := some ds } else some out.2

/-- `ath_stoprecv_tgt` -/
def athStoprecvTgt (s : RxState) : RxState :=
  { s with rxEnabled := false, scRxlink := none }

/-- `ath_flushrecv_tgt`: the queue `bf_skbhead` it frees from is always empty. -/
def athFlushrecvTgt (s : RxState) : Option RxState :=
  if s.scRxbuf.any (fun bf => bf.bfSkb.isSome) then
    (bufPoolFreeBuf s none).map fun s =>
      { s with scRxbuf := s.scRxbuf.map fun bf => { bf with bfSkb := none } }
  else some s

end Ath9kHtc.Rx
