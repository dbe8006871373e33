import Ath9kHtc.Lib.Run
import Ath9kHtc.Lib.SlidingWindow
import Ath9kHtc.Lib.Chain
import Ath9kHtc.Lib.Framing
import Ath9kHtc.Lib.Memory
import Ath9kHtc.Htc.System
import Ath9kHtc.Htc.Trailer
import Ath9kHtc.Htc.Credits
import Ath9kHtc.Htc.Wakeup
import Ath9kHtc.Htc.Issued
import Ath9kHtc.Htc.Threshold
import Ath9kHtc.Htc.Setup
import Ath9kHtc.Htc.Connections
import Ath9kHtc.Usb.RegOut
import Ath9kHtc.Usb.Commands
import Ath9kHtc.Lib.Segments
import Ath9kHtc.Usb.StatusIn
import Ath9kHtc.Lib.Stride
import Ath9kHtc.Wmi.Dispatch
import Ath9kHtc.Wmi.Registers
import Ath9kHtc.Tx.Types
import Ath9kHtc.Tx.System
import Ath9kHtc.Tx.SessionInvariant
import Ath9kHtc.Tx.Ledger
import Ath9kHtc.Tx.Refinement
import Ath9kHtc.Tx.Conservation
import Ath9kHtc.Tx.Discipline
import Ath9kHtc.Tx.WindowState
import Ath9kHtc.Tx.Progress
import Ath9kHtc.Tx.CleanupCount
import Ath9kHtc.Tx.PacketNumbers
import Ath9kHtc.Tx.Listing
import Ath9kHtc.Tx.Reinitialize
import Ath9kHtc.Tx.Reports
import Ath9kHtc.Tx.Formation
import Ath9kHtc.Tx.FreeBuffers
import Ath9kHtc.Tx.Sorting
import Ath9kHtc.Rx.Reassembly
import Ath9kHtc.Rx.Conservation
import Ath9kHtc.Rx.Termination
import Ath9kHtc.Rx.Timestamp
import Ath9kHtc.Lib.Sweep
import Ath9kHtc.Rate.Types
import Ath9kHtc.Rate.Control
import Ath9kHtc.Rate.PacketErrors
import Ath9kHtc.Rate.Ceiling
import Ath9kHtc.Dma.Types
import Ath9kHtc.Dma.Engine
import Ath9kHtc.Dma.Ring
import Ath9kHtc.Dma.Packets
import Ath9kHtc.Dma.Transmit
import Ath9kHtc.Dma.Fifo
import Ath9kHtc.Dma.Receive
import Ath9kHtc.Dma.Recycle
import Ath9kHtc.Lib.Splice
import Ath9kHtc.Cmnos.Tasklet
import Ath9kHtc.Cmnos.TaskletList
import Ath9kHtc.Cmnos.Timer
import Ath9kHtc.Cmnos.TimerList
import Ath9kHtc.Usb.Events
import Ath9kHtc.Htc.Frame
import Ath9kHtc.Htc.Encoding
import Ath9kHtc.Htc.PendingMap
import Ath9kHtc.Htc.Conveyance
import Ath9kHtc.Lib.Scan
import Ath9kHtc.Rate.Choice
import Ath9kHtc.Rate.RateSets
import Ath9kHtc.Rate.Series
import Ath9kHtc.Rate.Attribution
import Ath9kHtc.Lib.Rounds
import Ath9kHtc.Tx.Draining
import Ath9kHtc.Tx.Indices
import Ath9kHtc.Cmnos.Sflash
import Ath9kHtc.Tx.IvPlacement
import Ath9kHtc.Tx.Discarding
import Ath9kHtc.Rate.AirTime
import Ath9kHtc.Lib.Chains
import Ath9kHtc.Pool.Nbuf
import Ath9kHtc.Pool.Frames
import Ath9kHtc.Pool.Fragments
import Ath9kHtc.Pool.Static
import Ath9kHtc.Dma.Client
import Ath9kHtc.Lib.Region
import Ath9kHtc.Cmnos.Allocram
import Ath9kHtc.Cmnos.Rompatch
import Ath9kHtc.Lib.Numeral
import Ath9kHtc.Cmnos.Printf
import Ath9kHtc.Cmnos.Formatting
import Ath9kHtc.Lib.Numbering
import Ath9kHtc.Tx.SequenceNumbers
import Ath9kHtc.Pool.Conservation
import Ath9kHtc.Lib.BitField
import Ath9kHtc.Tx.AggregateDescriptors
import Ath9kHtc.Fwd.Download
import Ath9kHtc.Usb.Download
import Ath9kHtc.Mac.Delivery
