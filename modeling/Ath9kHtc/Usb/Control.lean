import Ath9kHtc.Lib.Run
import Mathlib.Data.Nat.Basic

/-!
# Requests on endpoint 0

The SETUP packets of `usb_api.c` with the patches that the firmware puts in.  A descriptor is sent
packet by packet, one for every IN interrupt, and what the host downloads comes with the OUT
interrupts.  The configuration of the other endpoints and the wait for an empty FIFO are left out.
-/

namespace Ath9kHtc.Usb

def ep0MaxPacketSize : ℕ := 64

/-- `Setup_Packet` -/
structure SetupPacket where
  direction : BitVec 8
  type : BitVec 8
  object : BitVec 8
  request : BitVec 16
  value : BitVec 16
  index : BitVec 16
  length : BitVec 16

/-- `mGetByte0` to `mGetByte3` -/
def mGetByte (i : ℕ) (data : BitVec 32) : BitVec 8 := data.extractLsb' (8 * i) 8

def mLowByte (w : BitVec 16) : BitVec 8 := w.extractLsb' 0 8

def mHighByte (w : BitVec 16) : BitVec 8 := w.extractLsb' 8 8

/-- What `vUsb_ep0setup` makes of the two words in the FIFO. -/
def controlCmd (first second : BitVec 32) : SetupPacket where
  direction := mGetByte 0 first &&& 0x80
  type := mGetByte 0 first &&& 0x60
  object := mGetByte 0 first &&& 0x03
  request := (mGetByte 1 first).setWidth 16
  value := (mGetByte 2 first).setWidth 16 + (mGetByte 3 first).setWidth 16 <<< 8
  index := (mGetByte 0 second).setWidth 16 + (mGetByte 1 second).setWidth 16 <<< 8
  length := (mGetByte 2 second).setWidth 16 + (mGetByte 3 second).setWidth 16 <<< 8

/-- The tables that `vUsb_SetupDescriptor` points to, the configurations, and the words of the flash
by their offset. -/
structure Tables where
  device : List (BitVec 16)
  string00 : List (BitVec 16)
  string10 : List (BitVec 16)
  string20 : List (BitVec 16)
  string30 : List (BitVec 16)
  hsConfig : List (BitVec 16)
  fsConfig : List (BitVec 16)
  flash : BitVec 16 → BitVec 32

inductive CommandType
  | void
  | getDescriptor
  | setDescriptor
deriving DecidableEq

inductive Action
  | idle
  | done
  | stall
deriving DecidableEq

/-- What is written to the registers of the endpoint. -/
inductive Ep0Write
  | data (bytes : List (BitVec 8))
  | cxConfigStatus (v : BitVec 8)
  | phyTestSelect (v : BitVec 8)
deriving DecidableEq

/-- The variables of the control endpoint.  `highSpeed` is bit 6 of `ZM_MAIN_CTRL_OFFSET`.
`pu8DescriptorEX` holds the words of a table from the pointer on, and none where a vendor request has
set the pointer to an address. -/
structure Ep0 where
  usbChirpFinish : Bool
  eUsbCxCommand : CommandType
  eUsbCxFinishAction : Action
  u16TxRxCounter : ℕ
  pu8DescriptorEX : List (BitVec 16)
  u8ConfigDescriptorEX : List (BitVec 16)
  u8DeviceQualifierDescriptorEX : List (BitVec 16)
  u8OtherSpeedConfigDescriptorEX : List (BitVec 16)
  usbStatus : List (BitVec 16)
  u8UsbConfigValue : BitVec 16
  u8UsbInterfaceValue : BitVec 16
  u8UsbInterfaceAlternateSetting : BitVec 16
  highSpeed : Bool
  deviceAddress : BitVec 8
  fwCheckSum : BitVec 32
  downloadEnable : Bool
  writes : List Ep0Write

namespace Ep0

def write (s : Ep0) (w : Ep0Write) : Ep0 := { s with writes := s.writes ++ [w] }

def finish (s : Ep0) (a : Action) : Ep0 := { s with eUsbCxFinishAction := a }

def setCommand (s : Ep0) (c : CommandType) : Ep0 := { s with eUsbCxCommand := c }

end Ep0

/-- `m2BYTE` -/
def m2Byte (low high : BitVec 8) : BitVec 16 := high ++ low

/-- A configuration and its interface, up to the descriptors of the endpoints. -/
def interfaceWords : List (BitVec 16) :=
  [m2Byte 0x09 0x02, 0x003C, m2Byte 0x01 0x01, m2Byte 0x00 0x80, m2Byte 0xFA 0x09,
    m2Byte 0x04 0x00, m2Byte 0x00 0x06, m2Byte 0xFF 0x00, m2Byte 0x00 0x00]

/-- The tables of `usb_table.c`, of a device with this `BOOTROM_VER` and this flash. -/
def usbTables (bootromVer : BitVec 16) (flash : BitVec 16 → BitVec 32) : Tables where
  device :=
    [m2Byte 0x12 0x01, 0x0200, m2Byte 0xFF 0xFF, m2Byte 0xFF 0x40, 0x0CF3, 0x7010, bootromVer,
      m2Byte 0x10 0x20, m2Byte 0x30 0x01]
  string00 := [0x0304, 0x0409]
  string10 :=
    0x0360 :: ((List.replicate 5 [0x0041, 0x0054, 0x0048, 0x0045, 0x0052, 0x004f, 0x0053,
      0x002c]).flatten ++ [0x0041, 0x0054, 0x0048, 0x0045, 0x0052, 0x004f, 0x0053])
  string20 :=
    [0x0318, 0x0055, 0x0053, 0x0042, 0x0032, 0x002E, 0x0030, 0x0020, 0x0057, 0x004C, 0x0041,
      0x004E]
  string30 := [0x030c, 0x0031, 0x0032, 0x0033, 0x0034, 0x0035]
  hsConfig := interfaceWords ++
    [m2Byte 0x07 0x05, m2Byte 0x01 0x02, 0x0200,
      m2Byte 0x00 0x07, m2Byte 0x05 0x82, m2Byte 0x02 0x00, m2Byte 0x02 0x00,
      m2Byte 0x07 0x05, m2Byte 0x83 0x03, 0x0040,
      m2Byte 0x01 0x07, m2Byte 0x05 0x04, m2Byte 0x03 0x40, m2Byte 0x00 0x01,
      m2Byte 0x07 0x05, m2Byte 0x05 0x02, 0x0200,
      m2Byte 0x00 0x07, m2Byte 0x05 0x06, m2Byte 0x02 0x00, m2Byte 0x02 0x00]
  fsConfig := interfaceWords ++
    [m2Byte 0x07 0x05, m2Byte 0x01 0x02, 0x0040,
      m2Byte 0x00 0x07, m2Byte 0x05 0x82, m2Byte 0x02 0x40, m2Byte 0x00 0x00,
      m2Byte 0x07 0x05, m2Byte 0x83 0x03, 0x0040,
      m2Byte 0x01 0x07, m2Byte 0x05 0x04, m2Byte 0x02 0x40, m2Byte 0x00 0x00,
      m2Byte 0x07 0x05, m2Byte 0x05 0x02, 0x0040,
      m2Byte 0x00 0x07, m2Byte 0x05 0x06, m2Byte 0x02 0x40, m2Byte 0x00 0x00]
  flash := flash

/-! ## Sending and receiving -/

/-- The bytes of a word of the FIFO. -/
def wordBytes (w : BitVec 32) : List (BitVec 8) :=
  [mGetByte 0 w, mGetByte 1 w, mGetByte 2 w, mGetByte 3 w]

/-- `n` words for the FIFO, of two words of the descriptor each. -/
def writeWords : ℕ → List (BitVec 16) → Option (List (BitVec 8) × List (BitVec 16))
  | 0, words => some ([], words)
  | n + 1, low :: high :: words =>
    (writeWords n words).map fun r => (wordBytes (high ++ low) ++ r.1, r.2)
  | _ + 1, _ => none

/-- The last word, of which `ZM_CBUS_FIFO_SIZE_OFFSET` lets `remainder` bytes through. -/
def writeLast (remainder : ℕ) (words : List (BitVec 16)) :
    Option (List (BitVec 8) × List (BitVec 16)) :=
  if remainder = 3 then
    match words with
    | low :: high :: words => some ((wordBytes (high ++ low)).take 3, words)
    | _ => none
  else if remainder = 0 then some ([], words)
  else words.head?.map fun w => ((wordBytes (w.setWidth 32)).take remainder, words)

/-- `u8temp`, what a packet takes of the counter. -/
def packetSize (s : Ep0) : ℕ :=
  if s.u16TxRxCounter < ep0MaxPacketSize then s.u16TxRxCounter else ep0MaxPacketSize

/-- `vUsbEP0TxData`; it is `none` where it reads behind the descriptor. -/
def vUsbEP0TxData (s : Ep0) : Option Ep0 :=
  let u8temp := packetSize s
  match writeWords (u8temp / 4) s.pu8DescriptorEX with
  | none => none
  | some (bytes, words) =>
    match writeLast (u8temp % 4) words with
    | none => none
    | some (bytes', words) =>
      let s := { s.write (.data (bytes ++ bytes')) with
        u16TxRxCounter := s.u16TxRxCounter - u8temp
        pu8DescriptorEX := words }
      some (if s.u16TxRxCounter = 0 then (s.setCommand .void).finish .done else s)

/-- `vUsb_ep0tx` -/
def vUsbEp0tx (s : Ep0) : Option Ep0 :=
  match s.eUsbCxCommand with
  | .getDescriptor => vUsbEP0TxData s
  | .void | .setDescriptor => some (s.write (.cxConfigStatus 0x40))

/-- The words of a packet, as the FIFO gives them. -/
def packetWords (size : ℕ) (out : ℕ → BitVec 32) : List (BitVec 32) :=
  (List.range ((size + 3) / 4)).map out

/-- `vUsbEP0RxData`, in which the writes to the memory are left to the ROM. -/
def vUsbEP0RxData (out : ℕ → BitVec 32) (s : Ep0) : Ep0 :=
  let words := packetWords (packetSize s) out
  let s := { s with
    u16TxRxCounter := s.u16TxRxCounter - packetSize s
    pu8DescriptorEX := s.pu8DescriptorEX.drop (2 * words.length)
    fwCheckSum := words.foldl (· ^^^ ·) s.fwCheckSum }
  if s.u16TxRxCounter = 0 then (s.setCommand .void).finish .done else s

/-- `vUsb_ep0rx` -/
def vUsbEp0rx (out : ℕ → BitVec 32) (s : Ep0) : Ep0 :=
  let s :=
    match s.eUsbCxCommand with
    | .setDescriptor => vUsbEP0RxData out s
    | .void | .getDescriptor => s
  if s.u16TxRxCounter ≠ 0 then s.finish .idle else s

/-! ## Descriptors -/

/-- `mTABLE_LEN` of the first word. -/
def tableLen (table : List (BitVec 16)) : ℕ := (mLowByte (table.getD 0 0)).toNat

/-- The length in the second word. -/
def totalLen (table : List (BitVec 16)) : ℕ := (table.getD 1 0).toNat

def Tables.string (T : Tables) (i : BitVec 8) : Option (List (BitVec 16)) :=
  match i.toNat with
  | 0x00 => some T.string00
  | 0x10 => some T.string10
  | 0x20 => some T.string20
  | 0x30 => some T.string30
  | _ => none

/-- The descriptor that `bGet_descriptor` looks up, with its length. -/
def getDescriptor (T : Tables) (p : SetupPacket) (s : Ep0) : Option (List (BitVec 16) × ℕ) :=
  match (mHighByte p.value).toNat with
  | 1 => some (T.device, tableLen T.device)
  | 2 =>
    if mLowByte p.value = 0 then some (s.u8ConfigDescriptorEX, totalLen s.u8ConfigDescriptorEX)
    else none
  | 3 => (T.string (mLowByte p.value)).map fun table => (table, tableLen table)
  | 6 => some (s.u8DeviceQualifierDescriptorEX, tableLen s.u8DeviceQualifierDescriptorEX)
  | 7 => some (s.u8OtherSpeedConfigDescriptorEX, totalLen s.u8OtherSpeedConfigDescriptorEX)
  | _ => none

/-- The descriptor is set, and its length or that of the request, whichever is less. -/
def setDescriptor (p : SetupPacket) (s : Ep0) (table : List (BitVec 16)) (len : ℕ) : Ep0 :=
  { s with
    pu8DescriptorEX := table
    u16TxRxCounter := if p.length.toNat < len then p.length.toNat else len }

def beginDescriptor (p : SetupPacket) (s : Ep0) (table : List (BitVec 16)) (len : ℕ) :
    Option Ep0 := vUsbEP0TxData (setDescriptor p s table len)

/-- `bGet_descriptor` -/
def bGetDescriptor (T : Tables) (p : SetupPacket) (s : Ep0) : Option (Bool × Ep0) :=
  match getDescriptor T p s with
  | none => some (false, s)
  | some (table, len) =>
    (beginDescriptor p s table len).map fun s =>
      (true, if 0 < s.u16TxRxCounter then s.setCommand .getDescriptor else s)

/-- `BCD_DEVICE_FW_SIGNATURE` at `BCD_DEVICE_OFFSET`, by which the host knows the firmware. -/
def signed (device : List (BitVec 16)) : List (BitVec 16) := device.set 6 0xffff

/-- `bGet_descriptor_patch` -/
def bGetDescriptorPatch (T : Tables) (p : SetupPacket) (s : Ep0) : Option (Bool × Ep0) :=
  match (mHighByte p.value).toNat with
  | 1 =>
    (beginDescriptor p s (signed (T.device.take 9)) (tableLen T.device)).map fun s => (true, s)
  | 2 =>
    if mLowByte p.value = 0 then
      (beginDescriptor p s (s.u8ConfigDescriptorEX.take 30)
        (totalLen (s.u8ConfigDescriptorEX.take 30))).map fun s => (true, s)
    else some (false, s)
  | _ => bGetDescriptor T p s

/-! ## The other requests -/

/-- `bGet_status`; it is `none` behind the end of `UsbStatus`. -/
def bGetStatus (p : SetupPacket) (s : Ep0) : Option (Bool × Ep0) :=
  (s.usbStatus[(p.object &&& 0x0f).toNat]?).map fun status =>
    (true, (s.write (.data [mLowByte status, 0])).finish .done)

/-- `bClear_feature` -/
def bClearFeature (p : SetupPacket) (s : Ep0) : Bool × Ep0 :=
  if 1 < p.value.toNat then (false, s)
  else if p.value = 0 ∧ p.object ≠ 2 then (false, s)
  else (true, { s with usbStatus := s.usbStatus.set 2 0 }.finish .done)

/-- `TestPatn0` -/
def testPatn0 : List (BitVec 8) := [0x02, 0x04, 0x08]

/-- `TestPatn1` and the last word of the test packet, of three bytes. -/
def testPacket : List (BitVec 8) :=
  ([0x00000000, 0x00000000, 0xAA00AA00, 0xAAAAAAAA, 0xEEAAAAAA, 0xEEEEEEEE, 0xFEEEEEEE,
    0xFFFFFFFF, 0xFFFFFFFF, 0x7FFFFFFF, 0xF7EFDFBF, 0x7EFCFDFB, 0xFDFBDFBF].flatMap wordBytes) ++
    (wordBytes 0x007EFDFB).take 3

/-- The test mode of `bSet_feature`. -/
def setTestMode (p : SetupPacket) (s : Ep0) : Bool × Ep0 :=
  match (p.index >>> 8).toNat with
  | 1 => (true, (s.write (.phyTestSelect (testPatn0.getD 0 0))).finish .done)
  | 2 => (true, (s.write (.phyTestSelect (testPatn0.getD 1 0))).finish .done)
  | 3 => (true, (s.write (.phyTestSelect (testPatn0.getD 2 0))).finish .done)
  | 4 =>
    (true, { s with
      writes := s.writes ++ [.phyTestSelect 0x10, .cxConfigStatus 0x01, .phyTestSelect 0x10,
        .data testPacket, .cxConfigStatus 0x02] })
  | 5 => (true, s)
  | _ => (false, s)

/-- The cases of `bSet_feature`; the bit for the remote wakeup is left out. -/
def setFeature (p : SetupPacket) (s : Ep0) : Bool × Ep0 :=
  match p.value.toNat with
  | 0 => if p.object = 2 then (true, s.finish .done) else (false, s)
  | 1 => (true, s.finish .done)
  | 2 => setTestMode p s
  | _ => (false, s)

/-- `bSet_feature` -/
def bSetFeature (p : SetupPacket) (s : Ep0) : Bool × Ep0 :=
  let r := setFeature p s
  if r.1 ∧ r.2.eUsbCxFinishAction = .done then
    (true, { r.2 with usbStatus := r.2.usbStatus.set 2 1 })
  else r

/-- `bSet_address` -/
def bSetAddress (p : SetupPacket) (s : Ep0) : Bool × Ep0 :=
  if 0x0100 ≤ p.value.toNat then (false, s)
  else (true, { s with deviceAddress := p.value.setWidth 8 }.finish .done)

/-- `bGet_configuration` -/
def bGetConfiguration (s : Ep0) : Bool × Ep0 :=
  (true, (s.write (.data [mLowByte s.u8UsbConfigValue])).finish .done)

/-- `bSet_configuration`; both speeds have one configuration. -/
def bSetConfiguration (p : SetupPacket) (s : Ep0) : Bool × Ep0 :=
  if mLowByte p.value = 0 then
    (true, { s with
      u8UsbConfigValue := 0, deviceAddress := s.deviceAddress &&& ~~~0x80 }.finish .done)
  else if 1 < (mLowByte p.value).toNat then (false, s)
  else
    (true, { s with
      u8UsbConfigValue := (mLowByte p.value).setWidth 16
      deviceAddress := s.deviceAddress ||| 0x80 }.finish .done)

/-- `bSet_configuration_patch` -/
def bSetConfigurationPatch (p : SetupPacket) (s : Ep0) : Bool × Ep0 :=
  (true, (bSetConfiguration p s).2.finish .done)

/-- `mUsbCfgST` -/
def Ep0.configured (s : Ep0) : Bool := s.deviceAddress.getLsbD 7

/-- `bGet_interface` -/
def bGetInterface (p : SetupPacket) (s : Ep0) : Bool × Ep0 :=
  if ¬s.configured then (false, s)
  else if s.u8UsbConfigValue = 1 then
    if 1 < p.index.toNat then (false, s)
    else
      (true, { s.write (.data [mLowByte s.u8UsbInterfaceAlternateSetting]) with
        u16TxRxCounter := 1 }.finish .done)
  else (false, s)

/-- `bSet_interface` -/
def bSetInterface (p : SetupPacket) (s : Ep0) : Bool × Ep0 :=
  if s.configured ∧ p.index = 0 ∧
      mLowByte p.value = mLowByte (s.u8ConfigDescriptorEX.getD 6 0) then
    (true, { s with
      u8UsbInterfaceValue := (p.index.setWidth 8).setWidth 16
      u8UsbInterfaceAlternateSetting := (mLowByte p.value).setWidth 16 }.finish .done)
  else (false, s)

/-- `bStandardCommand`, which does not look at what `A_USB_SET_CONFIG` and `A_USB_SET_INTERFACE`
return. -/
def bStandardCommand (T : Tables) (p : SetupPacket) (s : Ep0) : Option (Bool × Ep0) :=
  match p.request.toNat with
  | 0 => bGetStatus p s
  | 1 => some (bClearFeature p s)
  | 3 => some (bSetFeature p s)
  | 5 => some (bSetAddress p s)
  | 6 => bGetDescriptorPatch T p s
  | 8 => some (bGetConfiguration s)
  | 9 => some (true, (bSetConfigurationPatch p s).2)
  | 10 => some (bGetInterface p s)
  | 11 => some (true, (bSetInterface p s).2)
  | _ => some (false, s)

/-- `bStandardCommand_patch` -/
def bStandardCommandPatch (T : Tables) (p : SetupPacket) (s : Ep0) : Option (Bool × Ep0) :=
  if p.request = 9 then some (true, (bSetConfigurationPatch p s).2) else bStandardCommand T p s

/-! ## Vendor requests -/

/-- The loop of `flash_read`, on addresses of 16 bits. -/
def flashReadLoop (flash : BitVec 16 → BitVec 32) (endAddr : BitVec 16) :
    ℕ → BitVec 16 → Option (List (BitVec 32))
  | 0, _ => none
  | rounds + 1, startAddr =>
    if startAddr < endAddr then
      (flashReadLoop flash endAddr rounds (startAddr + 4)).map (flash startAddr :: ·)
    else some []

/-- After so many rounds `start_addr` is what it was. -/
def flashRounds : ℕ := 0x4000

/-- `flash_read`; it is `none` where the loop does not end. -/
def flashRead (flash : BitVec 16 → BitVec 32) (len ofset : BitVec 16) : Option (List (BitVec 32)) :=
  flashReadLoop flash (ofset + len) flashRounds ofset

def cUsbReqDownload : BitVec 16 := 0x30

def cUsbReqDownloadComp : BitVec 16 := 0x31

def cUsbReqFlashRead : BitVec 16 := 0x35

def cUsbReqFlashReadComp : BitVec 16 := 0x36

/-- The length and the address of a vendor request. -/
def setPointer (p : SetupPacket) (s : Ep0) : Ep0 :=
  { s with u16TxRxCounter := p.length.toNat, pu8DescriptorEX := [] }

/-- The answer to the end of a download. -/
def completeDownload (s : Ep0) : Ep0 :=
  { s with
    fwCheckSum := 0
    downloadEnable := true
    writes := s.writes ++ [.data [0], .cxConfigStatus 0x01] }

/-- `VendorCommand`, in which the test of the checksum is compiled out. -/
def vendorCommand (T : Tables) (p : SetupPacket) (s : Ep0) : Option Ep0 :=
  if p.request = cUsbReqFlashRead then
    (flashRead T.flash p.length p.value).map fun words =>
      { setPointer p s with
        writes := s.writes ++ words.map (fun w => .data (wordBytes w)) ++ [.cxConfigStatus 0x01] }
  else if p.request = cUsbReqFlashReadComp then
    some { s with
      writes := s.writes ++ [.data (wordBytes (T.flash 0x0004)), .cxConfigStatus 0x01] }
  else if p.request = cUsbReqDownload then some ((setPointer p s).setCommand .setDescriptor)
  else if p.request = cUsbReqDownloadComp then some (completeDownload s)
  else some s

/-! ## The task -/

def Tables.config (T : Tables) (highSpeed : Bool) : List (BitVec 16) :=
  if highSpeed then T.hsConfig else T.fsConfig

/-- `u8DeviceQualifierDescriptorEX` -/
def Tables.qualifier (T : Tables) : List (BitVec 16) :=
  [0x060A, T.device.getD 1 0, T.device.getD 2 0, T.device.getD 3 0,
    T.device.getD 8 0 >>> 8 &&& 0x00ff]

/-- `u8OtherSpeedConfigDescriptorEX` -/
def Tables.otherSpeed (T : Tables) (highSpeed : Bool) : List (BitVec 16) :=
  0x0709 :: ((T.config (!highSpeed)).take 30).tail

/-- The descriptors are set up by the first request after a reset. -/
def setupDescriptors (T : Tables) (s : Ep0) : Ep0 :=
  if s.usbChirpFinish then s
  else
    { s with
      usbChirpFinish := true
      u8ConfigDescriptorEX := T.config s.highSpeed
      u8DeviceQualifierDescriptorEX := T.qualifier
      u8OtherSpeedConfigDescriptorEX := T.otherSpeed s.highSpeed }

/-- `vUsb_ep0setup` -/
def vUsbEp0setup (T : Tables) (p : SetupPacket) (s : Ep0) : Option Ep0 :=
  let s := setupDescriptors T s
  if p.type = 0 then
    (bStandardCommandPatch T p s).map fun r => if r.1 then r.2 else r.2.finish .stall
  else if p.type = 0x40 then vendorCommand T p s
  else some (s.finish .stall)

/-- `vUsb_ep0end` and `vUsb_ep0fail` -/
def endCommand (source0 : BitVec 8) (s : Ep0) : Ep0 :=
  let s :=
    if source0.getLsbD 3 then (s.setCommand .void).write (.cxConfigStatus 0x01) else s
  if source0.getLsbD 4 then s.write (.cxConfigStatus 0x04) else s

/-- The end of the part of `_usb_fw_task` for the endpoint. -/
def finishTask (s : Ep0) : Ep0 :=
  let s :=
    match s.eUsbCxFinishAction with
    | .stall => s.write (.cxConfigStatus 0x04)
    | .done => s.write (.cxConfigStatus 0x01)
    | .idle => s
  s.finish .idle

/-- `_usb_fw_task` with this `ZM_INTR_SOURCE_0_OFFSET`; the words of an OUT packet and those of a
SETUP packet are read from the FIFO. -/
def usbFwTask (T : Tables) (source0 : BitVec 8) (out : ℕ → BitVec 32) (first second : BitVec 32)
    (s : Ep0) : Option Ep0 :=
  (if source0.getLsbD 1 then vUsbEp0tx s else some s).bind fun s =>
    let s := if source0.getLsbD 2 then vUsbEp0rx out s else s
    let s := if source0.getLsbD 0 then vUsbEp0setup T (controlCmd first second) s else some s
    s.map fun s => finishTask (endCommand source0 s)

inductive Ep0Event
  /-- A reset of the bus, after which the speed may be another one. -/
  | reset (highSpeed : Bool)
  | task (source0 : BitVec 8) (out : ℕ → BitVec 32) (first second : BitVec 32)

def stepEp0 (T : Tables) : Ep0Event → Ep0 → Option Ep0
  | .reset highSpeed, s => some { s with usbChirpFinish := false, highSpeed := highSpeed }
  | .task source0 out first second, s => usbFwTask T source0 out first second s

/-- The descriptors are those of the speed. -/
def Enumerated (T : Tables) (s : Ep0) : Prop :=
  s.u8ConfigDescriptorEX = T.config s.highSpeed ∧
    s.u8DeviceQualifierDescriptorEX = T.qualifier ∧
    s.u8OtherSpeedConfigDescriptorEX = T.otherSpeed s.highSpeed

/-- The endpoint when the patches are put in: no request is under way. -/
structure Patched (T : Tables) (s : Ep0) : Prop where
  command : s.eUsbCxCommand = .void
  finish : s.eUsbCxFinishAction = .idle
  status : s.usbStatus.length = 3
  enumerated : s.usbChirpFinish = true → Enumerated T s

def ep0 (T : Tables) : Machine Ep0 Ep0Event := .ofPartial (Patched T) (stepEp0 T)

end Ath9kHtc.Usb
