import Ath9kHtc.Lib.Stride
import Ath9kHtc.Wmi.Dispatch

/-!
# Commands of any length

The handlers of the register commands in `if_ath.c` with all they access, the replies of all
handlers, and the commands for which they stay in bounds.
-/

namespace Ath9kHtc.Wmi

/-! ## The handlers -/

/-- The handlers of `Magpie_Sys_DispatchEntries`, in its order. -/
inductive Handler
  | handleEchoCommand | dispatchMagpieSysCmds | athGetTgtVersion | athDisableIntrTgt
  | athEnableIntrTgt | athInitTgt | athAborttxqTgt | athStopTxDmaTgt | athAborttxDmaTgt
  | athTxDraintxqTgt | athDraintxqTgt | athStartrecvTgt | athStoprecvTgt | athFlushrecvTgt
  | athSetcurmodeTgt | athNodeCreateTgt | athNodeCleanupTgt | athVapDeleteTgt | athVapCreateTgt
  | athHalRegReadTgt | athHalRegWriteTgt | handleRcStateChangeCmd | handleRcRateUpdateCmd
  | athIcUpdateTgt | athEnableAggrTgt | athDetachTgt | athNodeUpdateTgt | athIntStatsTgt
  | athTxStatsTgt | athRxStatsTgt | athRcMaskTgt | athHalRegRmwTgt
  deriving DecidableEq, Repr

/-- The command of `WMI_COMMAND_ID` a handler is registered for. -/
def Handler.cmdId : Handler → BitVec 16
  | handleEchoCommand => 1
  | dispatchMagpieSysCmds => 2
  | athGetTgtVersion => 3
  | athDisableIntrTgt => 4
  | athEnableIntrTgt => 5
  | athInitTgt => 6
  | athAborttxqTgt => 7
  | athStopTxDmaTgt => 8
  | athAborttxDmaTgt => 9
  | athTxDraintxqTgt => 10
  | athDraintxqTgt => 11
  | athStartrecvTgt => 12
  | athStoprecvTgt => 13
  | athFlushrecvTgt => 14
  | athSetcurmodeTgt => 15
  | athNodeCreateTgt => 16
  | athNodeCleanupTgt => 17
  | athVapDeleteTgt => 18
  | athVapCreateTgt => 19
  | athHalRegReadTgt => 20
  | athHalRegWriteTgt => 21
  | handleRcStateChangeCmd => 22
  | handleRcRateUpdateCmd => 23
  | athIcUpdateTgt => 24
  | athEnableAggrTgt => 25
  | athDetachTgt => 26
  | athNodeUpdateTgt => 27
  | athIntStatsTgt => 28
  | athTxStatsTgt => 29
  | athRxStatsTgt => 30
  | athRcMaskTgt => 31
  | athHalRegRmwTgt => 32

/-- `Magpie_Sys_DispatchEntries` -/
def magpieSysDispatchEntries : List (DispatchEntry Handler) :=
  [.handleEchoCommand, .dispatchMagpieSysCmds, .athGetTgtVersion, .athDisableIntrTgt,
    .athEnableIntrTgt, .athInitTgt, .athAborttxqTgt, .athStopTxDmaTgt, .athAborttxDmaTgt,
    .athTxDraintxqTgt, .athDraintxqTgt, .athStartrecvTgt, .athStoprecvTgt, .athFlushrecvTgt,
    .athSetcurmodeTgt, .athNodeCreateTgt, .athNodeCleanupTgt, .athVapDeleteTgt, .athVapCreateTgt,
    .athHalRegReadTgt, .athHalRegWriteTgt, .handleRcStateChangeCmd, .handleRcRateUpdateCmd,
    .athIcUpdateTgt, .athEnableAggrTgt, .athDetachTgt, .athNodeUpdateTgt, .athIntStatsTgt,
    .athTxStatsTgt, .athRxStatsTgt, .athRcMaskTgt, .athHalRegRmwTgt].map
    fun h => ⟨some h, h.cmdId, 0⟩

/-- What a handler gets as its context, and what a reply is sent through. -/
inductive Handle
  | sc | tgtWmiHandle
  deriving DecidableEq, Repr

/-- The table the firmware registers. -/
def magpieSysCommandsTbl : Table Handler Handle := ⟨.sc, magpieSysDispatchEntries⟩

/-! ## Replies -/

def wmiSvcMaxBufferedEventSize : ℕ := 100

def htcHdrLength : ℕ := 8

/-- A reply in the buffer it was allocated from: the size of the buffer, where the data starts, and
the data that was copied behind it. -/
structure Reply where
  handle : Handle
  cmdId : BitVec 16
  seqNo : BitVec 16
  bufSize : ℕ
  dataOffset : ℕ
  data : List Byte

/-- The data does not reach beyond the buffer. -/
def Reply.Fits (r : Reply) : Prop := r.dataOffset + r.data.length ≤ r.bufSize

/-- `wmi_cmd_rsp`, where `free` buffers are in the pool for replies; without one its assertion
fails. -/
def wmiCmdRsp (free : ℕ) (pContext : Handle) (cmdId seqNo : BitVec 16) (buffer : List Byte) :
    Option Reply :=
  if free = 0 then none
  else some ⟨pContext, cmdId, seqNo, wmiSvcMaxBufferedEventSize + wmiCmdHdrLength + htcHdrLength,
    wmiCmdHdrLength + htcHdrLength, buffer⟩

/-- The bytes of a word, as they are in memory. -/
def wordBytes (w : BitVec 32) : List Byte :=
  [w.extractLsb' 24 8, w.extractLsb' 16 8, w.extractLsb' 8 8, w.extractLsb' 0 8]

/-- `sc_int_stats` -/
structure IntStats where
  astRx : BitVec 32
  astRxorn : BitVec 32
  astRxeol : BitVec 32
  astTxurn : BitVec 32
  astTxto : BitVec 32
  astCst : BitVec 32

/-- `sc_tx_stats` -/
structure TxStats where
  astTxXretries : BitVec 32
  astTxFifoerr : BitVec 32
  astTxFiltered : BitVec 32
  astTxTimerExp : BitVec 32
  astTxShortretry : BitVec 32
  astTxLongretry : BitVec 32
  txQnull : BitVec 32
  txNoskbs : BitVec 32
  txNobufs : BitVec 32

/-- `sc_rx_stats` -/
structure RxStats where
  astRxNobuf : BitVec 32
  astRxSend : BitVec 32
  astRxDone : BitVec 32

/-- What replies are made of. -/
structure Softc where
  scIntStats : IntStats
  scTxStats : TxStats
  scRxStats : RxStats

/-- The `fusion_stats` of `ath_int_stats_tgt`. -/
def IntStats.bytes (s : IntStats) : List Byte :=
  [s.astRx, s.astRxorn, s.astRxeol, s.astTxurn, s.astTxto, s.astCst].flatMap wordBytes

/-- The `fusion_stats` of `ath_tx_stats_tgt`. -/
def TxStats.bytes (s : TxStats) : List Byte :=
  [s.astTxXretries, s.astTxFifoerr, s.astTxFiltered, s.astTxTimerExp, s.astTxShortretry,
    s.astTxLongretry, s.txQnull, s.txNoskbs, s.txNobufs].flatMap wordBytes

/-- The `fusion_stats` of `ath_rx_stats_tgt`. -/
def RxStats.bytes (s : RxStats) : List Byte :=
  [s.astRxNobuf, s.astRxSend, s.astRxDone].flatMap wordBytes

/-- The `wmi_fw_version` of `ath_get_tgt_version`: two halfwords. -/
def versionBytes : List Byte := [0, 1, 0, 4]

/-! ## Register commands -/

/-- An access a handler makes: four bytes of the command are loaded, an element of `val` is
stored, `ath_reg_read_filter` and `ath_hal_reg_write_filter` are called. -/
inductive Access
  | load (offset : ℕ)
  | store (index : ℕ)
  | regRead (addr : BitVec 32)
  | regWrite (reg val : BitVec 32)
  deriving DecidableEq, Repr

/-- What the registers hold, after what has been accessed. -/
abbrev Registers := List Access → BitVec 32 → BitVec 32

/-- The word at an offset of the command. -/
def loadWord (data : ℕ → Byte) (offset : ℕ) : BitVec 32 :=
  data offset ++ data (offset + 1) ++ data (offset + 2) ++ data (offset + 3)

section

variable (regs : Registers) (data : ℕ → Byte)

/-- The accesses of `ath_hal_reg_read_tgt` and its local array, after a round of its loop. -/
def regReadBody (i : ℕ) (s : List Access × List (BitVec 32)) : List Access × List (BitVec 32) :=
  let addr := loadWord data i
  let trace := s.1 ++ [.load i, .regRead addr]
  (trace ++ [.store (i / 4)], s.2 ++ [regs trace addr])

/-- A round of the loop of `ath_hal_reg_write_tgt`. -/
def regWriteBody (i : ℕ) (trace : List Access) : List Access :=
  trace ++ [.load i, .load (i + 4), .regWrite (loadWord data i) (loadWord data (i + 4))]

/-- A round of the loop of `ath_hal_reg_rmw_tgt`. -/
def regRmwBody (i : ℕ) (trace : List Access) : List Access :=
  let reg := loadWord data i
  let trace := trace ++ [.load i, .regRead reg]
  let val := regs trace reg
  trace ++ [.load (i + 8), .load (i + 4), .load i,
    .regWrite reg (val &&& ~~~ loadWord data (i + 8) ||| loadWord data (i + 4))]

/-- What a handler has accessed, and its reply. -/
structure Outcome where
  trace : List Access := []
  reply : Option Reply

/-- A handler at work on a command of `datalen` bytes; of the others than those of the registers
only the reply is given. -/
def Handler.run (sc : Softc) (free : ℕ) (h : Handler) (context : Handle) (cmd seq : BitVec 16) (datalen : ℕ) :
    Outcome :=
  match h with
  | athHalRegReadTgt =>
    let s := strideLoop 4 datalen (regReadBody regs data) datalen 0 ([], [])
    ⟨s.1, wmiCmdRsp free .tgtWmiHandle cmd seq ((s.2.flatMap wordBytes).take datalen)⟩
  | athHalRegWriteTgt =>
    ⟨strideLoop 8 datalen (regWriteBody data) datalen 0 [], wmiCmdRsp free .tgtWmiHandle cmd seq []⟩
  | athHalRegRmwTgt =>
    ⟨strideLoop 12 datalen (regRmwBody regs data) datalen 0 [],
      wmiCmdRsp free .tgtWmiHandle cmd seq []⟩
  | handleEchoCommand =>
    ⟨[], wmiCmdRsp free context handleEchoCommand.cmdId seq ((List.range datalen).map data)⟩
  | dispatchMagpieSysCmds => ⟨[], none⟩
  | athGetTgtVersion => ⟨[], wmiCmdRsp free .tgtWmiHandle cmd seq versionBytes⟩
  | athIntStatsTgt => ⟨[], wmiCmdRsp free .tgtWmiHandle cmd seq sc.scIntStats.bytes⟩
  | athTxStatsTgt => ⟨[], wmiCmdRsp free .tgtWmiHandle cmd seq sc.scTxStats.bytes⟩
  | athRxStatsTgt => ⟨[], wmiCmdRsp free .tgtWmiHandle cmd seq sc.scRxStats.bytes⟩
  | _ => ⟨[], wmiCmdRsp free .tgtWmiHandle cmd seq []⟩

/-! ## Staying in bounds -/

/-- The access is to bytes of the command, or to an element of the local array. -/
def Access.InBounds (datalen : ℕ) : Access → Prop
  | load offset => offset + 4 ≤ datalen
  | store index => index < 32
  | _ => True

/-- All of some accesses are in bounds. -/
def Within (datalen : ℕ) (trace : List Access) : Prop := ∀ a ∈ trace, a.InBounds datalen

/-- The accesses for the groups at some offsets of the command, one after another. -/
def Handler.accesses : Handler → List ℕ → List Access
  | athHalRegReadTgt, groups => (groups.foldl (fun s i => regReadBody regs data i s) ([], [])).1
  | athHalRegWriteTgt, groups => groups.foldl (fun s i => regWriteBody data i s) []
  | athHalRegRmwTgt, groups => groups.foldl (fun s i => regRmwBody regs data i s) []
  | _, _ => []

/-- The size of the groups a register command consists of. -/
def Handler.groupSize : Handler → ℕ
  | athHalRegReadTgt => 4
  | athHalRegWriteTgt => 8
  | athHalRegRmwTgt => 12
  | _ => 1

/-- Nothing but the command and the local array is accessed, each group is processed once and in
order, and the reply fits. -/
structure Outcome.Safe (h : Handler) (datalen : ℕ) (out : Outcome) : Prop where
  inBounds : Within datalen out.trace
  inOrder : out.trace = h.accesses regs data (strideGroups h.groupSize datalen)
  fits : ∀ r ∈ out.reply, r.Fits

/-- The lengths a handler stays in bounds with. -/
def Handler.Admits (free datalen : ℕ) : Handler → Prop
  | athHalRegReadTgt => 4 ∣ datalen ∧ datalen ≤ 128 ∧ (0 < free → datalen ≤ 100)
  | athHalRegWriteTgt => 8 ∣ datalen
  | athHalRegRmwTgt => 12 ∣ datalen
  | handleEchoCommand => 0 < free → datalen ≤ 100
  | _ => True

/-- A reply fits with up to 100 bytes. -/
theorem wmiCmdRsp_fits {free : ℕ} {pContext : Handle} {cmd seq : BitVec 16} {buffer : List Byte} :
    (∀ r ∈ wmiCmdRsp free pContext cmd seq buffer, r.Fits) ↔ (0 < free → buffer.length ≤ 100) := by
  rw [wmiCmdRsp]
  split
  · rename_i hfree
    simp [hfree]
  · rename_i hfree
    simp [Reply.Fits, Nat.pos_of_ne_zero hfree, wmiSvcMaxBufferedEventSize, wmiCmdHdrLength,
      htcHdrLength]
    omega

variable {datalen : ℕ}

theorem within_nil : Within datalen [] := by
  intro a ha
  cases ha

theorem within_cons {a : Access} {trace : List Access} :
    Within datalen (a :: trace) ↔ a.InBounds datalen ∧ Within datalen trace :=
  List.forall_mem_cons

theorem within_append {trace accesses : List Access} :
    Within datalen (trace ++ accesses) ↔ Within datalen trace ∧ Within datalen accesses :=
  List.forall_mem_append

theorem regRead_within :
    Within datalen (strideLoop 4 datalen (regReadBody regs data) datalen 0 ([], [])).1 ↔
      4 ∣ datalen ∧ datalen ≤ 128 := by
  have hbody : ∀ i (s : List Access × List (BitVec 32)), Within datalen (regReadBody regs data i s).1 ↔
      Within datalen s.1 ∧ i + 4 ≤ datalen ∧ i / 4 < 32 := by
    intro i s
    rw [regReadBody, within_append, within_append, and_assoc]
    simp only [within_cons, within_nil, Access.InBounds, and_true]
  have hloop : Within datalen (strideLoop 4 datalen (regReadBody regs data) datalen 0 ([], [])).1 ↔
      Within datalen [] ∧ ∀ j < strideRounds 4 datalen, 4 * j + 4 ≤ datalen ∧ 4 * j / 4 < 32 :=
    strideLoop_iff (P := fun s : List Access × List (BitVec 32) => Within datalen s.1) (by decide) hbody
  rw [hloop, dvd_iff_rounds_within (by decide)]
  constructor
  · rintro ⟨-, hin⟩
    refine ⟨fun j hj => (hin j hj).1, ?_⟩
    by_contra hmore
    have hround : 32 < strideRounds 4 datalen := (lt_strideRounds (by decide)).mpr (by omega)
    have := (hin 32 hround).2
    omega
  · rintro ⟨hin, hle⟩
    refine ⟨within_nil, fun j hj => ⟨hin j hj, ?_⟩⟩
    have := hin j hj
    omega

theorem regWrite_within :
    Within datalen (strideLoop 8 datalen (regWriteBody data) datalen 0 []) ↔ 8 ∣ datalen := by
  have hbody : ∀ i (s : List Access), Within datalen (regWriteBody data i s) ↔
      Within datalen s ∧ i + 8 ≤ datalen := by
    intro i s
    rw [regWriteBody, within_append]
    apply and_congr_right
    intro _
    simp only [within_cons, within_nil, Access.InBounds, and_true]
    omega
  rw [strideLoop_iff (P := Within datalen) (by decide) hbody, dvd_iff_rounds_within (by decide)]
  exact and_iff_right within_nil

theorem regRmw_within :
    Within datalen (strideLoop 12 datalen (regRmwBody regs data) datalen 0 []) ↔ 12 ∣ datalen := by
  have hbody : ∀ i (s : List Access), Within datalen (regRmwBody regs data i s) ↔
      Within datalen s ∧ i + 12 ≤ datalen := by
    intro i s
    rw [regRmwBody, within_append, within_append, and_assoc]
    apply and_congr_right
    intro _
    simp only [within_cons, within_nil, Access.InBounds, and_true]
    omega
  rw [strideLoop_iff (P := Within datalen) (by decide) hbody, dvd_iff_rounds_within (by decide)]
  exact and_iff_right within_nil

/-- The loop of a register command processes its groups where it consists of them. -/
theorem strideLoop_groups {σ : Type} {size : ℕ} {body : ℕ → σ → σ} {s : σ} (hsize : 0 < size)
    (h : size ∣ datalen) : strideLoop size datalen body datalen 0 s =
      (strideGroups size datalen).foldl (fun s i => body i s) s := by
  rw [strideLoop_eq hsize, strideRounds_of_dvd hsize h, strideGroups]

theorem length_flatMap_wordBytes (ws : List (BitVec 32)) :
    (ws.flatMap wordBytes).length = 4 * ws.length := by
  induction ws with
  | nil => rfl
  | cons w ws ih =>
    rw [List.flatMap_cons, List.length_append, ih, List.length_cons]
    exact (Nat.add_comm _ _).trans (Nat.mul_succ _ _).symm

/-- The reply to a read has as many bytes as the command. -/
theorem length_regRead :
    (((strideLoop 4 datalen (regReadBody regs data) datalen 0 ([], [])).2.flatMap wordBytes).take
      datalen).length = datalen := by
  have hfold : ∀ (l : List ℕ) (s : List Access × List (BitVec 32)),
      (l.foldl (fun s i => regReadBody regs data i s) s).2.length = s.2.length + l.length := by
    intro l
    induction l with
    | nil => exact fun s => rfl
    | cons i l ih =>
      intro s
      rw [List.foldl_cons, ih, regReadBody, List.length_append, List.length_cons, List.length_cons]
      exact Nat.add_right_comm _ _ _
  rw [List.length_take, length_flatMap_wordBytes, strideLoop_eq (by decide), hfold]
  simp only [List.length_nil, List.length_map, List.length_range, Nat.zero_add, strideRounds]
  omega

/-- A handler is safe with the lengths it admits, and with no others. -/
theorem Handler.safe_iff (sc : Softc) (free : ℕ) (h : Handler) (context : Handle)
    (cmd seq : BitVec 16) :
    Outcome.Safe regs data h datalen (h.run regs data sc free context cmd seq datalen) ↔
      h.Admits free datalen := by
  cases h
  case athHalRegReadTgt =>
    constructor
    · intro hsafe
      obtain ⟨hdvd, hle⟩ := (regRead_within regs data).mp hsafe.inBounds
      have hfits := wmiCmdRsp_fits.mp hsafe.fits
      rw [length_regRead] at hfits
      exact ⟨hdvd, hle, hfits⟩
    · rintro ⟨hdvd, hle, hfits⟩
      refine ⟨(regRead_within regs data).mpr ⟨hdvd, hle⟩, ?_, wmiCmdRsp_fits.mpr ?_⟩
      · exact congrArg Prod.fst (strideLoop_groups (by decide) hdvd)
      · rwa [length_regRead]
  case athHalRegWriteTgt =>
    constructor
    · exact fun hsafe => (regWrite_within data).mp hsafe.inBounds
    · intro hdvd
      refine ⟨(regWrite_within data).mpr hdvd, strideLoop_groups (by decide) hdvd, ?_⟩
      exact wmiCmdRsp_fits.mpr fun _ => Nat.zero_le _
  case athHalRegRmwTgt =>
    constructor
    · exact fun hsafe => (regRmw_within regs data).mp hsafe.inBounds
    · intro hdvd
      refine ⟨(regRmw_within regs data).mpr hdvd, strideLoop_groups (by decide) hdvd, ?_⟩
      exact wmiCmdRsp_fits.mpr fun _ => Nat.zero_le _
  case handleEchoCommand =>
    have hfits : (∀ r ∈ wmiCmdRsp free context handleEchoCommand.cmdId seq
        ((List.range datalen).map data), r.Fits) ↔ (0 < free → datalen ≤ 100) := by
      rw [wmiCmdRsp_fits, List.length_map, List.length_range]
    exact ⟨fun hsafe => hfits.mp hsafe.fits, fun h => ⟨within_nil, rfl, hfits.mpr h⟩⟩
  case dispatchMagpieSysCmds =>
    refine ⟨fun _ => trivial, fun _ => ⟨within_nil, rfl, ?_⟩⟩
    rintro r ⟨⟩
  all_goals
    refine ⟨fun _ => trivial, fun _ => ⟨within_nil, rfl, wmiCmdRsp_fits.mpr fun _ => ?_⟩⟩
    exact Nat.le_of_ble_eq_true rfl

end

/-! ## Every message -/

/-- An entry of the table is for the command of its handler, and there is one for each handler. -/
theorem scanEntries_magpie {cmd : BitVec 16} {length : ℕ} {h : Handler} :
    scanEntries cmd length magpieSysDispatchEntries none = some h ↔ h.cmdId = cmd := by
  constructor
  · intro hscan
    obtain ⟨before, e, after, heq, -, hcmd, -, hh⟩ := scanEntries_eq_some.mp hscan
    have hmem : e ∈ magpieSysDispatchEntries := by
      rw [heq]
      simp
    obtain ⟨h', -, rfl⟩ := List.mem_map.mp hmem
    obtain rfl := Option.some.inj hh
    exact hcmd
  · rintro rfl
    cases h <;> rfl

/-- The bytes from the command on: the command itself, and what lies behind it in memory. -/
def commandMemory (payload : List Byte) (beyond : ℕ → Byte) (i : ℕ) : Byte :=
  payload.getD i (beyond i)

/-- What the handlers called do with the message is safe. -/
def Action.Safe (regs : Registers) (sc : Softc) (free : ℕ) (beyond : ℕ → Byte) :
    Action Handler Handle → Prop
  | .call h context cmd seq payload length =>
    Outcome.Safe regs (commandMemory payload beyond) h length
      (h.run regs (commandMemory payload beyond) sc free context cmd seq length)
  | .returnBuffers _ _ => True

/-- Every command stays in bounds with the lengths its handler admits, and with no others. -/
theorem commands_in_bounds (regs : Registers) (sc : Softc) (free : ℕ) (beyond : ℕ → Byte)
    (endPt buf : ℕ) (data : List Byte) :
    ∃ pWMI actions, addTables [magpieSysCommandsTbl] = some pWMI ∧
      wmiRecvMessageHandler pWMI endPt buf data = some actions ∧
      ((∀ a ∈ actions, a.Safe regs sc free beyond) ↔
        ∀ c₁ c₂ s₁ s₂ payload h, data = c₁ :: c₂ :: s₁ :: s₂ :: payload →
          Handler.cmdId h = c₁ ++ c₂ → h.Admits free payload.length) := by
  refine ⟨linked [magpieSysCommandsTbl], ?_⟩
  match data with
  | [] | [_] | [_, _] | [_, _, _] =>
    refine ⟨[.returnBuffers endPt buf], addTables_eq _, rfl, ?_⟩
    simp [Action.Safe]
  | c₁ :: c₂ :: s₁ :: s₂ :: payload =>
    obtain ⟨calls, hrun, hcalls⟩ :=
      wmiRecvMessageHandler_linked [magpieSysCommandsTbl] endPt buf c₁ c₂ s₁ s₂ payload
    refine ⟨_, addTables_eq _, hrun, ?_⟩
    rcases hcalls with ⟨t, h, ⟨before, after, heq, -, haccepts⟩, rfl⟩ | ⟨hnone, rfl⟩
    · obtain rfl : magpieSysCommandsTbl = t := by
        rcases List.singleton_eq_append_iff.mp heq with ⟨-, h⟩ | ⟨-, h⟩
        · exact (List.cons.inj h).1.symm
        · cases h
      have hscan := scanEntries_eq_some.mpr haccepts
      have hsafe : Outcome.Safe regs (commandMemory payload beyond) h payload.length _ ↔
          h.Admits free payload.length :=
        h.safe_iff regs _ sc free magpieSysCommandsTbl.pContext (c₁ ++ c₂) (s₁ ++ s₂)
      rw [List.forall_mem_append, List.forall_mem_singleton, List.forall_mem_singleton, Action.Safe,
        hsafe, Action.Safe, and_true]
      constructor
      · rintro hadmits _ _ _ _ _ h' ⟨⟩ hcmd
        have hscan' : scanEntries (c₁ ++ c₂) payload.length magpieSysDispatchEntries none = some h' :=
          scanEntries_magpie.mpr hcmd
        obtain rfl : h = h' := Option.some.inj (hscan.symm.trans hscan')
        exact hadmits
      · intro hall
        exact hall c₁ c₂ s₁ s₂ payload h rfl (scanEntries_magpie.mp hscan)
    · constructor
      · rintro - _ _ _ _ _ h ⟨⟩ hcmd
        apply absurd _ (hnone magpieSysCommandsTbl List.mem_cons_self h)
        exact scanEntries_eq_some.mp (scanEntries_magpie.mpr hcmd)
      · intro _ a ha
        rw [List.mem_singleton.mp ha]
        exact trivial

/-- A command that reads `n` registers. -/
def readCommand (n : ℕ) : List Byte := [0, 20, 0, 1] ++ List.replicate (4 * n) 0

/-- The reply to a command that reads 26 registers does not fit. -/
theorem long_read_overruns : ∃ pWMI actions, addTables [magpieSysCommandsTbl] = some pWMI ∧
    wmiRecvMessageHandler pWMI 1 0 (readCommand 26) = some actions ∧
    ∃ a ∈ actions, ∀ regs sc beyond, ¬ a.Safe regs sc 1 beyond := by
  refine ⟨linked [magpieSysCommandsTbl], _, addTables_eq _, rfl, _, List.mem_cons_self, ?_⟩
  intro regs sc beyond hsafe
  have hadmits := (Handler.safe_iff regs (commandMemory _ beyond) sc 1 .athHalRegReadTgt .sc 20 1).mp
    hsafe
  exact absurd (hadmits.2.2 Nat.one_pos) (by decide)

end Ath9kHtc.Wmi
