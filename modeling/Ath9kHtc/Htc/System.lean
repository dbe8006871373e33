import Ath9kHtc.Lib.Run
import Ath9kHtc.Htc.Core

/-!
# The HTC target as a machine

Every event runs one handler to completion: a frame arrives, the host interface completes a
send, or the services act on their own (the transmit and receive tasklets, the USB patches).
-/

namespace Ath9kHtc.Htc

inductive Event
  | ready
  | recv (frame : Frame) (script : List ServiceAction)
  | sendDone (i : ℕ) (script : List ServiceAction)
  | services (script : List ServiceAction)

def step : Event → Context → Option Context
  | .ready, htc => htcReady htc
  | .recv frame script, htc => htcMsgRecvHandler htc frame script
  | .sendDone i script, htc => htcSendDoneHandler htc i script
  | .services script, htc => runScript htc script

/-- The target from `_HTC_Init` on. -/
def target : Machine Context Event :=
  .ofPartial (fun htc => ∃ creditSize creditNumber, htc = htcInit creditSize creditNumber) step

end Ath9kHtc.Htc
