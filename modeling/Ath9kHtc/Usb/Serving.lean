import Ath9kHtc.Usb.Control

/-!
# What the endpoint keeps

The bytes of a descriptor and those of a packet, and what holds between the tasks: no run in which
the flash is left alone reads behind a descriptor.
-/

namespace Ath9kHtc.Usb

variable {T : Tables} {s s' : Ep0} {p : SetupPacket} {table words : List (BitVec 16)} {len n : ℕ}
  {orderly : Prop}

/-- The bytes of a table, the low byte of a word first. -/
def descriptorBytes (words : List (BitVec 16)) : List (BitVec 8) :=
  words.flatMap fun w => [mLowByte w, mHighByte w]

@[simp] theorem descriptorBytes_nil : descriptorBytes [] = [] := rfl

@[simp] theorem descriptorBytes_cons (w : BitVec 16) (words : List (BitVec 16)) :
    descriptorBytes (w :: words) = mLowByte w :: mHighByte w :: descriptorBytes words := rfl

@[simp] theorem length_descriptorBytes (words : List (BitVec 16)) :
    (descriptorBytes words).length = 2 * words.length := by
  induction words with
  | nil => rfl
  | cons w words ih =>
    simp only [descriptorBytes_cons, List.length_cons, ih]
    omega

theorem descriptorBytes_drop (n : ℕ) (words : List (BitVec 16)) :
    descriptorBytes (words.drop n) = (descriptorBytes words).drop (2 * n) := by
  induction n generalizing words with
  | zero => rfl
  | succ n ih =>
    cases words with
    | nil => simp
    | cons w words =>
      rw [List.drop_succ_cons, ih, Nat.mul_succ, descriptorBytes_cons, List.drop_succ_cons,
        List.drop_succ_cons]

/-! ## A packet -/

theorem wordBytes_append (high low : BitVec 16) :
    wordBytes (high ++ low) = descriptorBytes [low, high] := by
  have hlow (i : ℕ) (hi : i < 2) :
      mGetByte i (high ++ low) = low.extractLsb' (8 * i) 8 := by
    ext j hj
    simp only [mGetByte, BitVec.getElem_extractLsb', BitVec.getLsbD_append]
    rw [if_pos (by omega)]
  have hhigh (i : ℕ) : mGetByte (2 + i) (high ++ low) = high.extractLsb' (8 * i) 8 := by
    ext j hj
    simp only [mGetByte, BitVec.getElem_extractLsb', BitVec.getLsbD_append]
    rw [if_neg (by omega)]
    congr 1
    omega
  simp only [wordBytes, descriptorBytes_cons, descriptorBytes_nil, mLowByte, mHighByte]
  rw [hlow 0 (by omega), hlow 1 (by omega), hhigh 0, hhigh 1]

theorem wordBytes_setWidth (w : BitVec 16) :
    (wordBytes (w.setWidth 32)).take 2 = descriptorBytes [w] := by
  have h (i : ℕ) (hi : i < 2) : mGetByte i (w.setWidth 32) = w.extractLsb' (8 * i) 8 := by
    ext j hj
    simp only [mGetByte, BitVec.getElem_extractLsb', BitVec.getLsbD_setWidth]
    simp only [Bool.and_eq_right_iff_imp, decide_eq_true_eq]
    omega
  simp only [wordBytes, descriptorBytes_cons, descriptorBytes_nil, mLowByte, mHighByte,
    List.take_succ_cons, List.take_zero]
  rw [h 0 (by omega), h 1 (by omega)]

theorem writeWords_eq (h : 2 * n ≤ words.length) :
    writeWords n words = some ((descriptorBytes words).take (4 * n), words.drop (2 * n)) := by
  induction n generalizing words with
  | zero => rfl
  | succ n ih =>
    obtain _ | ⟨low, _ | ⟨high, words⟩⟩ := words
    · simp at h
    · simp only [List.length_singleton] at h
      omega
    · have h : 2 * n ≤ words.length := by
        simp only [List.length_cons] at h
        omega
      rw [writeWords, ih h, wordBytes_append, Option.map_some]
      rfl

theorem writeLast_eq {r : ℕ} (hr : r < 4) (h : r ≤ 2 * words.length) :
    ∃ rest, writeLast r words = some ((descriptorBytes words).take r, rest) := by
  rcases (by omega : r = 0 ∨ r = 3 ∨ r = 1 ∨ r = 2) with rfl | rfl | rfl | rfl
  · exact ⟨words, rfl⟩
  · obtain _ | ⟨low, _ | ⟨high, words⟩⟩ := words
    · simp at h
    · simp at h
    · refine ⟨words, ?_⟩
      simp only [writeLast, if_true, wordBytes_append]
      rfl
  · obtain _ | ⟨w, words⟩ := words
    · simp at h
    · refine ⟨w :: words, ?_⟩
      have hw : (wordBytes (w.setWidth 32)).take 1 = (descriptorBytes [w]).take 1 := by
        rw [← wordBytes_setWidth, List.take_take]
        rfl
      simp only [writeLast, List.head?_cons, Option.map_some, hw]
      rfl
  · obtain _ | ⟨w, words⟩ := words
    · simp at h
    · refine ⟨w :: words, ?_⟩
      simp only [writeLast, List.head?_cons, Option.map_some, wordBytes_setWidth]
      rfl

/-- Where more than a packet is left, a packet goes out. -/
theorem txData_more (hn : ep0MaxPacketSize < s.u16TxRxCounter)
    (h : s.u16TxRxCounter ≤ 2 * s.pu8DescriptorEX.length) :
    vUsbEP0TxData s = some
      { s.write (.data ((descriptorBytes s.pu8DescriptorEX).take ep0MaxPacketSize)) with
        u16TxRxCounter := s.u16TxRxCounter - ep0MaxPacketSize
        pu8DescriptorEX := s.pu8DescriptorEX.drop 32 } := by
  have hlen : packetSize s = 64 := if_neg (by omega)
  simp only [ep0MaxPacketSize] at hn
  have hwords : writeWords (64 / 4) s.pu8DescriptorEX =
      some ((descriptorBytes s.pu8DescriptorEX).take 64, s.pu8DescriptorEX.drop 32) :=
    writeWords_eq (by omega)
  have hlast : writeLast (64 % 4) (s.pu8DescriptorEX.drop 32) =
      some ([], s.pu8DescriptorEX.drop 32) := rfl
  have hleft : ¬s.u16TxRxCounter - 64 = 0 := by omega
  simp only [vUsbEP0TxData, hlen, hwords, hlast, hleft, List.append_nil, if_false]
  rfl

/-- Otherwise the rest goes out, and the transfer is done. -/
theorem txData_last (hn : s.u16TxRxCounter ≤ ep0MaxPacketSize)
    (h : s.u16TxRxCounter ≤ 2 * s.pu8DescriptorEX.length) :
    ∃ words, vUsbEP0TxData s = some
      ({ s.write (.data ((descriptorBytes s.pu8DescriptorEX).take s.u16TxRxCounter)) with
        u16TxRxCounter := 0
        pu8DescriptorEX := words
        eUsbCxCommand := .void }.finish .done) := by
  have hlen : packetSize s = s.u16TxRxCounter := by
    rw [packetSize]
    rcases Nat.lt_or_eq_of_le hn with hlt | heq
    · exact if_pos hlt
    · rw [if_neg (by omega), heq]
  have hwords : writeWords (s.u16TxRxCounter / 4) s.pu8DescriptorEX =
      some ((descriptorBytes s.pu8DescriptorEX).take (4 * (s.u16TxRxCounter / 4)),
        s.pu8DescriptorEX.drop (2 * (s.u16TxRxCounter / 4))) := writeWords_eq (by omega)
  have hleft : s.u16TxRxCounter % 4 ≤
      2 * (s.pu8DescriptorEX.drop (2 * (s.u16TxRxCounter / 4))).length := by
    rw [List.length_drop]
    omega
  obtain ⟨rest, hlast⟩ := writeLast_eq (by omega) hleft
  refine ⟨rest, ?_⟩
  have hbytes : (descriptorBytes s.pu8DescriptorEX).take (4 * (s.u16TxRxCounter / 4)) ++
      (descriptorBytes (s.pu8DescriptorEX.drop (2 * (s.u16TxRxCounter / 4)))).take
        (s.u16TxRxCounter % 4) = (descriptorBytes s.pu8DescriptorEX).take s.u16TxRxCounter := by
    have h4 : 2 * (2 * (s.u16TxRxCounter / 4)) = 4 * (s.u16TxRxCounter / 4) := by omega
    rw [descriptorBytes_drop, h4, ← List.take_add]
    congr 1
    omega
  simp only [vUsbEP0TxData, hlen, hwords, hlast, hbytes, Nat.sub_self, if_true]
  rfl

/-! ## The descriptors -/

/-- The descriptor of a type and an index at a speed, and its length. -/
def Tables.lookup (T : Tables) (highSpeed : Bool) (type index : BitVec 8) :
    Option (List (BitVec 16) × ℕ) :=
  match type.toNat with
  | 1 => some (signed T.device, tableLen T.device)
  | 2 => if index = 0 then some (T.config highSpeed, totalLen (T.config highSpeed)) else none
  | 3 => (T.string index).map fun table => (table, tableLen table)
  | 6 => some (T.qualifier, 10)
  | 7 => some (T.otherSpeed highSpeed, totalLen (T.config (!highSpeed)))
  | _ => none

/-- The bytes of a descriptor. -/
def Tables.descriptor (T : Tables) (highSpeed : Bool) (value : BitVec 16) :
    Option (List (BitVec 8)) :=
  (T.lookup highSpeed (mHighByte value) (mLowByte value)).map fun r =>
    (descriptorBytes r.1).take r.2

/-- A flash on which nothing is written. -/
def erased : BitVec 16 → BitVec 32 := fun _ => 0xffffffff

/-- The tables are as long as they say; the copies of the patches hold the device descriptor and a
configuration. -/
structure Tables.Sound (T : Tables) : Prop where
  device_length : T.device.length = 9
  device : tableLen T.device = 18
  string : ∀ i table, T.string i = some table → tableLen table ≤ 2 * table.length
  config_length : ∀ highSpeed, (T.config highSpeed).length = 30
  config : ∀ highSpeed, totalLen (T.config highSpeed) ≤ 60

theorem usbTables_sound (bootromVer : BitVec 16) (flash : BitVec 16 → BitVec 32) :
    (usbTables bootromVer flash).Sound where
  device_length := rfl
  device := by
    show (mLowByte (m2Byte 0x12 0x01)).toNat = 18
    decide
  string := by
    intro i table h
    simp only [Tables.string] at h
    split at h
    · obtain rfl := Option.some.inj h
      show tableLen (usbTables 0 erased).string00 ≤ 2 * (usbTables 0 erased).string00.length
      decide
    · obtain rfl := Option.some.inj h
      show tableLen (usbTables 0 erased).string10 ≤ 2 * (usbTables 0 erased).string10.length
      decide
    · obtain rfl := Option.some.inj h
      show tableLen (usbTables 0 erased).string20 ≤ 2 * (usbTables 0 erased).string20.length
      decide
    · obtain rfl := Option.some.inj h
      show tableLen (usbTables 0 erased).string30 ≤ 2 * (usbTables 0 erased).string30.length
      decide
    · cases h
  config_length := by
    intro highSpeed
    cases highSpeed <;> rfl
  config := by
    intro highSpeed
    show totalLen ((usbTables 0 erased).config highSpeed) ≤ 60
    cases highSpeed <;> decide

theorem Tables.Sound.lookup_le {highSpeed : Bool} {type index : BitVec 8} (hT : T.Sound)
    (h : T.lookup highSpeed type index = some (table, len)) : len ≤ 2 * table.length := by
  simp only [Tables.lookup] at h
  split at h
  · obtain ⟨rfl, rfl⟩ := Prod.mk.inj (Option.some.inj h)
    rw [signed, List.length_set, hT.device_length, hT.device]
  · split at h
    · obtain ⟨rfl, rfl⟩ := Prod.mk.inj (Option.some.inj h)
      rw [hT.config_length]
      exact hT.config highSpeed
    · cases h
  · obtain ⟨t, ht, heq⟩ := Option.map_eq_some_iff.mp h
    obtain ⟨rfl, rfl⟩ := Prod.mk.inj heq
    exact hT.string index t ht
  · obtain ⟨rfl, rfl⟩ := Prod.mk.inj (Option.some.inj h)
    exact le_refl 10
  · obtain ⟨rfl, rfl⟩ := Prod.mk.inj (Option.some.inj h)
    have hlen : (T.otherSpeed highSpeed).length = 30 := by
      simp only [Tables.otherSpeed, List.length_cons, List.length_tail, List.length_take,
        hT.config_length]
      rfl
    rw [hlen]
    exact hT.config _
  · cases h

/-- Where a transfer is left over, another IN interrupt goes on with it. -/
def resume (s : Ep0) : Ep0 :=
  if 0 < s.u16TxRxCounter then s.setCommand .getDescriptor else s

theorem resume_of_zero (h : s.u16TxRxCounter = 0) : resume s = s := if_neg (by omega)

theorem resume_of_pos (h : 0 < s.u16TxRxCounter) :
    resume s = s.setCommand .getDescriptor := if_pos h

theorem beginDescriptor_short (h : len ≤ 2 * table.length) (hlen : len ≤ ep0MaxPacketSize) :
    (beginDescriptor p s table len).map (fun s => (true, s)) =
      (beginDescriptor p s table len).map fun s => (true, resume s) := by
  have hle : (if p.length.toNat < len then p.length.toNat else len) ≤ len := by
    split
    · omega
    · exact le_refl len
  obtain ⟨words, heq⟩ := txData_last (s := setDescriptor p s table len)
    (le_trans hle hlen) (le_trans hle h)
  rw [beginDescriptor, heq]
  rfl

theorem totalLen_otherSpeed (hT : T.Sound) (highSpeed : Bool) :
    totalLen (T.otherSpeed highSpeed) = totalLen (T.config (!highSpeed)) := by
  have h := hT.config_length (!highSpeed)
  simp only [totalLen, Tables.otherSpeed, List.take_of_length_le (le_of_eq h)]
  cases T.config (!highSpeed) with
  | nil => rfl
  | cons w words => rfl

theorem getDescriptor_eq (hT : T.Sound) (h : Enumerated T s) (h1 : (mHighByte p.value).toNat ≠ 1) :
    getDescriptor T p s = T.lookup s.highSpeed (mHighByte p.value) (mLowByte p.value) := by
  have hqualifier : tableLen T.qualifier = 10 := by
    show (mLowByte 0x060A).toNat = 10
    decide
  obtain ⟨hconfig, hqual, hother⟩ := h
  simp only [getDescriptor, Tables.lookup, hconfig, hqual, hother, hqualifier,
    totalLen_otherSpeed hT]
  generalize (mHighByte p.value).toNat = type at h1 ⊢
  split
  · exact absurd rfl h1
  all_goals first | rfl | (split <;> first | rfl | contradiction)

/-- The patched lookup agrees with the tables. -/
theorem bGetDescriptorPatch_eq (hT : T.Sound) (h : Enumerated T s) :
    bGetDescriptorPatch T p s =
      match T.lookup s.highSpeed (mHighByte p.value) (mLowByte p.value) with
      | none => some (false, s)
      | some (table, len) => (beginDescriptor p s table len).map fun s => (true, resume s) := by
  have hdev : T.device.take 9 = T.device := List.take_of_length_le (le_of_eq hT.device_length)
  have hconf : (T.config s.highSpeed).take 30 = T.config s.highSpeed :=
    List.take_of_length_le (le_of_eq (hT.config_length s.highSpeed))
  by_cases h1 : (mHighByte p.value).toNat = 1
  · simp only [bGetDescriptorPatch, Tables.lookup, h1, hdev]
    refine beginDescriptor_short ?_ ?_
    · rw [signed, List.length_set, hT.device_length, hT.device]
    · rw [hT.device]
      simp [ep0MaxPacketSize]
  · rw [← getDescriptor_eq hT h h1]
    by_cases h2 : (mHighByte p.value).toNat = 2
    · simp only [bGetDescriptorPatch, getDescriptor, h2, h.1, hconf]
      split
      · refine beginDescriptor_short ?_ (le_trans (hT.config _) (by simp [ep0MaxPacketSize]))
        rw [hT.config_length]
        exact hT.config _
      · rfl
    · have hpatch : bGetDescriptorPatch T p s = bGetDescriptor T p s := by
        rw [bGetDescriptorPatch]
        split
        · exact absurd ‹_› h1
        · exact absurd ‹_› h2
        · rfl
      rw [hpatch, bGetDescriptor]
      rfl

/-! ## The invariant -/

/-- What holds all through a task.  Where no flash is read while a descriptor is sent, a transfer that
is under way has bytes left, and they are in its descriptor. -/
structure Serving (T : Tables) (orderly : Prop) (s : Ep0) : Prop where
  status : s.usbStatus.length = 3
  enumerated : s.usbChirpFinish = true → Enumerated T s
  pending : orderly → s.eUsbCxCommand = .getDescriptor →
    0 < s.u16TxRxCounter ∧ s.u16TxRxCounter ≤ 2 * s.pu8DescriptorEX.length

theorem Serving.write (h : Serving T orderly s) (w : Ep0Write) : Serving T orderly (s.write w) :=
  ⟨h.status, h.enumerated, h.pending⟩

theorem Serving.finish (h : Serving T orderly s) (a : Action) : Serving T orderly (s.finish a) :=
  ⟨h.status, h.enumerated, h.pending⟩

/-- A command other than that of a descriptor. -/
theorem Serving.setCommand (h : Serving T orderly s) {c : CommandType} (hc : c ≠ .getDescriptor) :
    Serving T orderly (s.setCommand c) :=
  ⟨h.status, h.enumerated, fun _ hget => absurd hget hc⟩

theorem Serving.setupDescriptors (h : Serving T orderly s) :
    Serving T orderly (setupDescriptors T s) := by
  rw [Usb.setupDescriptors]
  split
  · exact h
  · exact ⟨h.status, fun _ => ⟨rfl, rfl, rfl⟩, h.pending⟩

theorem Serving.reset (h : Serving T orderly s) (highSpeed : Bool) :
    Serving T orderly { s with usbChirpFinish := false, highSpeed := highSpeed } :=
  ⟨h.status, (by intro hc; cases hc), h.pending⟩

/-- A packet of a transfer that has not gone beyond its descriptor. -/
theorem txData_serving (hstatus : s.usbStatus.length = 3)
    (henumerated : s.usbChirpFinish = true → Enumerated T s)
    (hle : s.u16TxRxCounter ≤ 2 * s.pu8DescriptorEX.length) :
    ∃ s', vUsbEP0TxData s = some s' ∧ Serving T orderly s' ∧
      s'.u16TxRxCounter ≤ 2 * s'.pu8DescriptorEX.length := by
  by_cases hn : ep0MaxPacketSize < s.u16TxRxCounter
  · have hleft : 0 < s.u16TxRxCounter - ep0MaxPacketSize ∧
        s.u16TxRxCounter - ep0MaxPacketSize ≤ 2 * (s.pu8DescriptorEX.drop 32).length := by
      simp only [ep0MaxPacketSize, List.length_drop] at hn ⊢
      omega
    exact ⟨_, txData_more hn hle, ⟨hstatus, henumerated, fun _ _ => hleft⟩, hleft.2⟩
  · obtain ⟨words, heq⟩ := txData_last (le_of_not_gt hn) hle
    refine ⟨_, heq, ⟨hstatus, henumerated, ?_⟩, Nat.zero_le _⟩
    intro _ hc
    cases hc

/-- What a packet leaves as it is. -/
theorem txData_same (hs : vUsbEP0TxData s = some s') :
    s'.usbStatus = s.usbStatus ∧ s'.usbChirpFinish = s.usbChirpFinish ∧
      (Enumerated T s → Enumerated T s') := by
  rw [vUsbEP0TxData] at hs
  split at hs
  · cases hs
  · split at hs
    · cases hs
    · obtain rfl := Option.some.inj hs
      dsimp only
      split <;> exact ⟨rfl, rfl, id⟩

theorem Serving.tx_returns (h : Serving T orderly s) (horderly : orderly) :
    ∃ s', vUsbEp0tx s = some s' := by
  rw [vUsbEp0tx]
  cases hc : s.eUsbCxCommand with
  | void => exact ⟨_, rfl⟩
  | setDescriptor => exact ⟨_, rfl⟩
  | getDescriptor =>
    have hpacket : ∃ s', vUsbEP0TxData s = some s' ∧ Serving T orderly s' ∧
        s'.u16TxRxCounter ≤ 2 * s'.pu8DescriptorEX.length :=
      txData_serving h.status h.enumerated (h.pending horderly hc).2
    obtain ⟨s', heq, -⟩ := hpacket
    exact ⟨s', heq⟩

theorem Serving.tx (h : Serving T orderly s) (hs : vUsbEp0tx s = some s') :
    Serving T orderly s' := by
  rw [vUsbEp0tx] at hs
  cases hc : s.eUsbCxCommand with
  | void =>
    rw [hc] at hs
    obtain rfl := Option.some.inj hs
    exact h.write _
  | setDescriptor =>
    rw [hc] at hs
    obtain rfl := Option.some.inj hs
    exact h.write _
  | getDescriptor =>
    rw [hc] at hs
    by_cases horderly : orderly
    · obtain ⟨s₁, heq, h₁, -⟩ := txData_serving h.status h.enumerated (h.pending horderly hc).2
      obtain rfl := Option.some.inj (hs.symm.trans heq)
      exact h₁
    · obtain ⟨hstatus, hchirp, henumerated⟩ := txData_same (T := T) hs
      refine ⟨?_, ?_, fun h => absurd h horderly⟩
      · rw [hstatus]
        exact h.status
      · rw [hchirp]
        exact fun hc => henumerated (h.enumerated hc)

theorem Serving.rxData (h : Serving T orderly s) (out : ℕ → BitVec 32)
    (hc : s.eUsbCxCommand ≠ .getDescriptor) : Serving T orderly (vUsbEP0RxData out s) := by
  rw [vUsbEP0RxData]
  split
  · exact ⟨h.status, h.enumerated, fun _ hget => CommandType.noConfusion hget⟩
  · exact ⟨h.status, h.enumerated, fun _ hget => absurd hget hc⟩

/-- An OUT interrupt takes a packet of a download, and no other. -/
theorem rx_cases (out : ℕ → BitVec 32) (s : Ep0) :
    ∃ s₁, (s₁ = s ∨ s.eUsbCxCommand = .setDescriptor ∧ s₁ = vUsbEP0RxData out s) ∧
      (vUsbEp0rx out s = s₁.finish .idle ∨ vUsbEp0rx out s = s₁) := by
  have hend : ∀ s₁ : Ep0, (if s₁.u16TxRxCounter ≠ 0 then s₁.finish .idle else s₁) =
      s₁.finish .idle ∨ (if s₁.u16TxRxCounter ≠ 0 then s₁.finish .idle else s₁) = s₁ := by
    intro s₁
    split
    · exact .inl rfl
    · exact .inr rfl
  rw [vUsbEp0rx]
  cases s.eUsbCxCommand with
  | void => exact ⟨s, .inl rfl, hend s⟩
  | getDescriptor => exact ⟨s, .inl rfl, hend s⟩
  | setDescriptor => exact ⟨_, .inr ⟨rfl, rfl⟩, hend _⟩

theorem Serving.rx (h : Serving T orderly s) (out : ℕ → BitVec 32) :
    Serving T orderly (vUsbEp0rx out s) := by
  obtain ⟨s₁, hcases, hrx⟩ := rx_cases out s
  have h₁ : Serving T orderly s₁ := by
    rcases hcases with rfl | ⟨hc, rfl⟩
    · exact h
    · refine h.rxData out ?_
      rw [hc]
      exact CommandType.noConfusion
  rcases hrx with hrx | hrx <;> rw [hrx]
  · exact h₁.finish .idle
  · exact h₁

theorem Serving.resume (h : Serving T orderly s)
    (hle : s.u16TxRxCounter ≤ 2 * s.pu8DescriptorEX.length) : Serving T orderly (resume s) := by
  rw [Usb.resume]
  split
  · rename_i hpos
    exact ⟨h.status, h.enumerated, fun _ _ => ⟨hpos, hle⟩⟩
  · exact h

theorem Serving.begin (h : Serving T orderly s) (hle : len ≤ 2 * table.length) :
    ∃ s', beginDescriptor p s table len = some s' ∧ Serving T orderly (Usb.resume s') := by
  have hle' : (if p.length.toNat < len then p.length.toNat else len) ≤ 2 * table.length := by
    split <;> omega
  have hbegin : ∃ s', vUsbEP0TxData (setDescriptor p s table len) = some s' ∧
      Serving T orderly s' ∧ s'.u16TxRxCounter ≤ 2 * s'.pu8DescriptorEX.length :=
    txData_serving h.status h.enumerated hle'
  obtain ⟨s', heq, h', hle''⟩ := hbegin
  exact ⟨s', heq, h'.resume hle''⟩

/-! ### Requests -/

/-- Only the status of a recipient that `UsbStatus` has no word for is read behind its end. -/
def Misread (p : SetupPacket) : Prop := p.request = 0 ∧ p.object = 3

instance (p : SetupPacket) : Decidable (Misread p) := inferInstanceAs (Decidable (_ ∧ _))

theorem object_controlCmd (first second : BitVec 32) :
    (controlCmd first second).object.toNat < 4 := by
  show (mGetByte 0 first &&& 0x03).toNat < 4
  rw [BitVec.toNat_and]
  exact Nat.lt_of_le_of_lt Nat.and_le_right (by decide)

theorem bGetStatus_eq_none_iff (h : Serving T orderly s) (hobj : p.object.toNat < 4) :
    bGetStatus p s = none ↔ p.object = 3 := by
  have hmask : (p.object &&& 0x0f).toNat = p.object.toNat := by
    rw [BitVec.toNat_and, show (0x0f : BitVec 8).toNat = 2 ^ 4 - 1 from rfl,
      Nat.and_two_pow_sub_one_eq_mod]
    omega
  rw [bGetStatus, hmask, Option.map_eq_none_iff, List.getElem?_eq_none_iff, h.status,
    ← BitVec.toNat_inj]
  show 3 ≤ p.object.toNat ↔ p.object.toNat = 3
  omega

theorem Serving.setUsbStatus (h : Serving T orderly s) (v : BitVec 16) :
    Serving T orderly { s with usbStatus := s.usbStatus.set 2 v } where
  status := by rw [List.length_set, h.status]
  enumerated := h.enumerated
  pending := h.pending

theorem Serving.clearFeature (h : Serving T orderly s) : Serving T orderly (bClearFeature p s).2 := by
  rw [bClearFeature]
  split
  · exact h
  · split
    · exact h
    · exact (h.setUsbStatus 0).finish .done

theorem Serving.setTestMode (h : Serving T orderly s) : Serving T orderly (setTestMode p s).2 := by
  rw [Usb.setTestMode]
  split
  · exact (h.write _).finish _
  · exact (h.write _).finish _
  · exact (h.write _).finish _
  · exact ⟨h.status, h.enumerated, h.pending⟩
  · exact h
  · exact h

theorem Serving.setFeature (h : Serving T orderly s) : Serving T orderly (bSetFeature p s).2 := by
  have hr : Serving T orderly (Usb.setFeature p s).2 := by
    rw [Usb.setFeature]
    split
    · split
      · exact h.finish .done
      · exact h
    · exact h.finish .done
    · exact h.setTestMode
    · exact h
  rw [bSetFeature]
  split
  · exact hr.setUsbStatus 1
  · exact hr

theorem Serving.setAddress (h : Serving T orderly s) : Serving T orderly (bSetAddress p s).2 := by
  rw [bSetAddress]
  split
  · exact h
  · exact ⟨h.status, h.enumerated, h.pending⟩

theorem Serving.setConfiguration (h : Serving T orderly s) :
    Serving T orderly (bSetConfigurationPatch p s).2 := by
  rw [bSetConfigurationPatch, bSetConfiguration]
  split
  · exact ⟨h.status, h.enumerated, h.pending⟩
  · split
    · exact h.finish .done
    · exact ⟨h.status, h.enumerated, h.pending⟩

/-- It sets the counter, but where a transfer is under way the byte is still in the descriptor. -/
theorem Serving.getInterface (h : Serving T orderly s) : Serving T orderly (bGetInterface p s).2 := by
  rw [bGetInterface]
  split
  · exact h
  · split
    · split
      · exact h
      · refine ⟨h.status, h.enumerated, fun horderly hc => ⟨Nat.one_pos, ?_⟩⟩
        have hp := h.pending horderly hc
        show 1 ≤ 2 * s.pu8DescriptorEX.length
        omega
    · exact h

theorem Serving.setInterface (h : Serving T orderly s) : Serving T orderly (bSetInterface p s).2 := by
  rw [bSetInterface]
  split
  · exact ⟨h.status, h.enumerated, h.pending⟩
  · exact h

theorem Serving.getDescriptor (h : Serving T orderly s) (hT : T.Sound) (hchirp : s.usbChirpFinish = true) :
    ∃ r, bGetDescriptorPatch T p s = some r ∧ Serving T orderly r.2 := by
  rw [bGetDescriptorPatch_eq hT (h.enumerated hchirp)]
  split
  · exact ⟨_, rfl, h⟩
  · rename_i table len hlookup
    obtain ⟨s', heq, h'⟩ := h.begin (p := p) (hT.lookup_le hlookup)
    rw [heq]
    exact ⟨_, rfl, h'⟩

theorem Serving.answer {r : Bool × Ep0} (h : Serving T orderly r.2) (hne : p.request ≠ 0) :
    (some r = none ↔ Misread p) ∧ ∀ r' ∈ some r, Serving T orderly r'.2 := by
  refine ⟨⟨(by intro hn; cases hn), fun hm => absurd hm.1 hne⟩, ?_⟩
  intro r' hr'
  obtain rfl := Option.mem_some.mp hr'
  exact h

theorem Serving.standardCommand (h : Serving T orderly s) (hT : T.Sound)
    (hchirp : s.usbChirpFinish = true) (hobj : p.object.toNat < 4) :
    (bStandardCommandPatch T p s = none ↔ Misread p) ∧
      ∀ r ∈ bStandardCommandPatch T p s, Serving T orderly r.2 := by
  have hne {n : ℕ} (hn : p.request.toNat = n + 1) : p.request ≠ 0 := by
    intro h0
    rw [h0] at hn
    cases hn
  rw [bStandardCommandPatch]
  split
  · rename_i h9
    exact Serving.answer h.setConfiguration (hne (congrArg BitVec.toNat h9))
  · rw [bStandardCommand]
    split
    · rename_i h0
      have hreq : p.request = 0 := BitVec.eq_of_toNat_eq h0
      refine ⟨?_, ?_⟩
      · rw [bGetStatus_eq_none_iff h hobj, Misread, and_iff_right hreq]
      · intro r hr
        obtain ⟨status, -, rfl⟩ := Option.map_eq_some_iff.mp hr
        exact (h.write _).finish .done
    · exact Serving.answer h.clearFeature (hne ‹_›)
    · exact Serving.answer h.setFeature (hne ‹_›)
    · exact Serving.answer h.setAddress (hne ‹_›)
    · obtain ⟨r, heq, hr⟩ := h.getDescriptor (p := p) hT hchirp
      rw [heq]
      exact hr.answer (hne ‹_›)
    · exact Serving.answer ((h.write _).finish .done) (hne ‹_›)
    · exact Serving.answer h.setConfiguration (hne ‹_›)
    · exact Serving.answer h.getInterface (hne ‹_›)
    · exact Serving.answer h.setInterface (hne ‹_›)
    · rename_i h0 _ _ _ _ _ _ _ _
      exact Serving.answer h (fun hreq => h0 (congrArg BitVec.toNat hreq))

/-! ### Vendor requests -/

section Flash

variable {flash : BitVec 16 → BitVec 32} {endAddr startAddr : BitVec 16}

theorem flashReadLoop_eq_none_iff :
    flashReadLoop flash endAddr n startAddr = none ↔
      ∀ i < n, startAddr + BitVec.ofNat 16 (4 * i) < endAddr := by
  induction n generalizing startAddr with
  | zero => exact ⟨fun _ i hi => absurd hi (Nat.not_lt_zero i), fun _ => rfl⟩
  | succ n ih =>
    have hnext (i : ℕ) : startAddr + 4 + BitVec.ofNat 16 (4 * i) =
        startAddr + BitVec.ofNat 16 (4 * (i + 1)) := by
      show startAddr + BitVec.ofNat 16 4 + _ = _
      refine BitVec.eq_of_toNat_eq ?_
      simp only [BitVec.toNat_add, BitVec.toNat_ofNat]
      omega
    have hfirst : startAddr + BitVec.ofNat 16 (4 * 0) = startAddr := BitVec.add_zero startAddr
    rw [flashReadLoop]
    split
    · rename_i hlt
      rw [Option.map_eq_none_iff, ih]
      constructor
      · intro h i hi
        cases i with
        | zero =>
          rw [hfirst]
          exact hlt
        | succ i =>
          rw [← hnext]
          exact h i (Nat.lt_of_succ_lt_succ hi)
      · intro h i hi
        rw [hnext]
        exact h (i + 1) (Nat.succ_lt_succ hi)
    · rename_i hlt
      refine ⟨(by intro hn; cases hn), fun h => absurd ?_ hlt⟩
      rw [← hfirst]
      exact h 0 (Nat.succ_pos n)

end Flash

/-- The end of a read of the flash is above the last address that a step of four gets to. -/
def Endless (p : SetupPacket) : Prop :=
  65532 + p.value.toNat % 4 < (p.value + p.length).toNat

instance (p : SetupPacket) : Decidable (Endless p) := inferInstanceAs (Decidable (_ < _))

/-- Such a read does not end after any number of rounds. -/
theorem Endless.loops (h : Endless p) (flash : BitVec 16 → BitVec 32) (rounds : ℕ) :
    flashReadLoop flash (p.value + p.length) rounds p.value = none := by
  rw [flashReadLoop_eq_none_iff]
  intro i _
  rw [Endless] at h
  rw [BitVec.lt_def]
  have hlt := (p.value + BitVec.ofNat 16 (4 * i)).isLt
  simp only [BitVec.toNat_add p.value (BitVec.ofNat _ _), BitVec.toNat_ofNat] at hlt ⊢
  omega

theorem flashRead_eq_none_iff :
    flashRead T.flash p.length p.value = none ↔ Endless p := by
  refine ⟨fun h => ?_, fun h => h.loops T.flash flashRounds⟩
  rw [flashRead, flashReadLoop_eq_none_iff] at h
  have hlt := p.value.isLt
  have hlast := h ((65532 + p.value.toNat % 4 - p.value.toNat) / 4) (by
    show _ < 16384
    omega)
  rw [BitVec.lt_def] at hlast
  simp only [BitVec.toNat_add p.value (BitVec.ofNat _ _), BitVec.toNat_ofNat] at hlast
  rw [Endless]
  omega

theorem vendorCommand_eq_none_iff :
    vendorCommand T p s = none ↔ p.request = cUsbReqFlashRead ∧ Endless p := by
  rw [vendorCommand]
  split
  · rename_i hflash
    rw [Option.map_eq_none_iff, flashRead_eq_none_iff, and_iff_right hflash]
  · rename_i hflash
    refine ⟨fun h => ?_, fun h => absurd h.1 hflash⟩
    split at h
    · cases h
    · split at h
      · cases h
      · split at h <;> cases h

theorem Serving.vendor (h : Serving T orderly s) (hs : vendorCommand T p s = some s')
    (hflash : orderly → p.request = cUsbReqFlashRead → s.eUsbCxCommand ≠ .getDescriptor) :
    Serving T orderly s' := by
  rw [vendorCommand] at hs
  split at hs
  · rename_i hread
    obtain ⟨words, -, rfl⟩ := Option.map_eq_some_iff.mp hs
    exact ⟨h.status, h.enumerated, fun horderly hc => absurd hc (hflash horderly hread)⟩
  split at hs
  · obtain rfl := Option.some.inj hs
    exact ⟨h.status, h.enumerated, h.pending⟩
  split at hs
  · obtain rfl := Option.some.inj hs
    exact ⟨h.status, h.enumerated, fun _ hc => CommandType.noConfusion hc⟩
  split at hs
  · obtain rfl := Option.some.inj hs
    exact ⟨h.status, h.enumerated, h.pending⟩
  · obtain rfl := Option.some.inj hs
    exact h

/-! ### Tasks -/

/-- A request to read the flash. -/
def ReadsFlash (p : SetupPacket) : Prop := p.type = 0x40 ∧ p.request = cUsbReqFlashRead

instance (p : SetupPacket) : Decidable (ReadsFlash p) := inferInstanceAs (Decidable (_ ∧ _))

/-- The SETUP packets that a task does not come back from. -/
def Unserved (p : SetupPacket) : Prop := p.type = 0 ∧ Misread p ∨ ReadsFlash p ∧ Endless p

instance (p : SetupPacket) : Decidable (Unserved p) := inferInstanceAs (Decidable (_ ∨ _))

theorem chirp_setupDescriptors (T : Tables) (s : Ep0) :
    (setupDescriptors T s).usbChirpFinish = true := by
  rw [setupDescriptors]
  split
  · assumption
  · rfl

theorem command_setupDescriptors (T : Tables) (s : Ep0) :
    (setupDescriptors T s).eUsbCxCommand = s.eUsbCxCommand := by
  rw [setupDescriptors]
  split <;> rfl

theorem Serving.setup_eq_none_iff (h : Serving T orderly s) (hT : T.Sound)
    (hobj : p.object.toNat < 4) : vUsbEp0setup T p s = none ↔ Unserved p := by
  obtain ⟨hnone, -⟩ := h.setupDescriptors.standardCommand hT (chirp_setupDescriptors T s) hobj
  rw [vUsbEp0setup, Unserved, ReadsFlash]
  by_cases h0 : p.type = 0
  · have hvendor : ¬p.type = 0x40 := by
      rw [h0]
      decide
    rw [if_pos h0, Option.map_eq_none_iff, hnone, and_iff_right h0,
      or_iff_left fun h => hvendor h.1.1]
  · rw [if_neg h0, or_iff_right fun h => h0 h.1]
    split
    · rename_i hvendor
      rw [vendorCommand_eq_none_iff, and_iff_right hvendor]
    · rename_i hvendor
      exact ⟨(by intro hn; cases hn), fun h => absurd h.1.1 hvendor⟩

theorem Serving.setup (h : Serving T orderly s) (hT : T.Sound) (hobj : p.object.toNat < 4)
    (hs : vUsbEp0setup T p s = some s')
    (hflash : orderly → ReadsFlash p → s.eUsbCxCommand ≠ .getDescriptor) :
    Serving T orderly s' := by
  obtain ⟨-, hsome⟩ := h.setupDescriptors.standardCommand hT (chirp_setupDescriptors T s) hobj
  rw [vUsbEp0setup] at hs
  split at hs
  · obtain ⟨r, hr, rfl⟩ := Option.map_eq_some_iff.mp hs
    split
    · exact hsome r hr
    · exact (hsome r hr).finish .stall
  split at hs
  · rename_i hvendor
    refine h.setupDescriptors.vendor hs fun horderly hread => ?_
    rw [command_setupDescriptors]
    exact hflash horderly ⟨hvendor, hread⟩
  · obtain rfl := Option.some.inj hs
    exact h.setupDescriptors.finish .stall

theorem Serving.endCommand (h : Serving T orderly s) (source0 : BitVec 8) :
    Serving T orderly (endCommand source0 s) := by
  have h3 : Serving T orderly (if source0.getLsbD 3 then
      (s.setCommand .void).write (.cxConfigStatus 0x01) else s) := by
    split
    · exact (h.setCommand CommandType.noConfusion).write _
    · exact h
  rw [Usb.endCommand]
  split
  · exact h3.write _
  · exact h3

theorem Serving.finishTask (h : Serving T orderly s) : Serving T orderly (finishTask s) := by
  rw [Usb.finishTask]
  split
  · exact (h.write _).finish .idle
  · exact (h.write _).finish .idle
  · exact h.finish .idle

/-- An IN or an OUT interrupt does not begin to send. -/
theorem command_tx (hs : vUsbEp0tx s = some s') (hc : s.eUsbCxCommand ≠ .getDescriptor) :
    s'.eUsbCxCommand ≠ .getDescriptor := by
  rw [vUsbEp0tx] at hs
  split at hs
  · rename_i hget
    exact absurd hget hc
  all_goals
    obtain rfl := Option.some.inj hs
    exact hc

theorem command_rx (out : ℕ → BitVec 32) (hc : s.eUsbCxCommand ≠ .getDescriptor) :
    (vUsbEp0rx out s).eUsbCxCommand ≠ .getDescriptor := by
  obtain ⟨s₁, hcases, hrx⟩ := rx_cases out s
  have h₁ : s₁.eUsbCxCommand ≠ .getDescriptor := by
    rcases hcases with rfl | ⟨-, rfl⟩
    · exact hc
    · rw [vUsbEP0RxData]
      split
      · exact CommandType.noConfusion
      · exact hc
  rcases hrx with hrx | hrx <;> rw [hrx] <;> exact h₁

/-- No flash is read while a descriptor is sent. -/
def Orderly (s : Ep0) : Ep0Event → Prop
  | .reset _ => True
  | .task source0 _ first second =>
    source0.getLsbD 0 = true → ReadsFlash (controlCmd first second) →
      s.eUsbCxCommand ≠ .getDescriptor

variable {source0 : BitVec 8} {out : ℕ → BitVec 32} {first second : BitVec 32}

/-- What the SETUP packet of a task finds. -/
theorem Serving.packets (h : Serving T orderly s) (out : ℕ → BitVec 32)
    (hs : (if source0.getLsbD 1 then vUsbEp0tx s else some s) = some s') :
    Serving T orderly (if source0.getLsbD 2 then vUsbEp0rx out s' else s') ∧
      (s.eUsbCxCommand ≠ .getDescriptor →
        (if source0.getLsbD 2 then vUsbEp0rx out s' else s').eUsbCxCommand ≠ .getDescriptor) := by
  have htx : Serving T orderly s' ∧
      (s.eUsbCxCommand ≠ .getDescriptor → s'.eUsbCxCommand ≠ .getDescriptor) := by
    split at hs
    · exact ⟨h.tx hs, command_tx hs⟩
    · obtain rfl := Option.some.inj hs
      exact ⟨h, id⟩
  split
  · exact ⟨htx.1.rx out, fun hc => command_rx out (htx.2 hc)⟩
  · exact htx

theorem Serving.task (h : Serving T orderly s) (hT : T.Sound)
    (horderly : orderly → Orderly s (.task source0 out first second))
    (hs : usbFwTask T source0 out first second s = some s') :
    Serving T orderly s' ∧ s'.eUsbCxFinishAction = .idle := by
  obtain ⟨s₁, h₁, hs⟩ := Option.bind_eq_some_iff.mp hs
  obtain ⟨s₂, hsetup, rfl⟩ := Option.map_eq_some_iff.mp hs
  obtain ⟨hserving, hcommand⟩ := h.packets out h₁
  refine ⟨(Serving.endCommand ?_ source0).finishTask, rfl⟩
  split at hsetup
  · rename_i hbit
    exact hserving.setup hT (object_controlCmd first second) hsetup fun ho hread =>
      hcommand (horderly ho hbit hread)
  · obtain rfl := Option.some.inj hsetup
    exact hserving

/-- A task faults only on a packet that is not served. -/
theorem Serving.task_eq_none_iff (h : Serving T orderly s) (hT : T.Sound) (horderly : orderly) :
    usbFwTask T source0 out first second s = none ↔
      source0.getLsbD 0 = true ∧ Unserved (controlCmd first second) := by
  obtain ⟨s₁, h₁⟩ : ∃ s₁, (if source0.getLsbD 1 then vUsbEp0tx s else some s) = some s₁ := by
    split
    · exact h.tx_returns horderly
    · exact ⟨s, rfl⟩
  obtain ⟨hserving, -⟩ := h.packets out h₁
  simp only [usbFwTask, h₁, Option.bind_some, Option.map_eq_none_iff]
  split
  · rename_i hbit
    rw [hserving.setup_eq_none_iff hT (object_controlCmd first second), and_iff_right hbit]
  · rename_i hbit
    exact ⟨(by intro hn; cases hn), fun hn => absurd hn.1 hbit⟩

/-- What holds between the tasks. -/
structure Resting (T : Tables) (orderly : Prop) (s : Ep0) : Prop where
  serving : Serving T orderly s
  finish : s.eUsbCxFinishAction = .idle

theorem Patched.resting (h : Patched T s) : Resting T orderly s where
  serving := ⟨h.status, h.enumerated, by intro _ hc; rw [h.command] at hc; cases hc⟩
  finish := h.finish

theorem Resting.step (h : Resting T orderly s) (hT : T.Sound) (e : Ep0Event)
    (horderly : orderly → Orderly s e) (hs : stepEp0 T e s = some s') : Resting T orderly s' := by
  cases e with
  | reset highSpeed =>
    obtain rfl := Option.some.inj hs
    exact ⟨h.serving.reset highSpeed, h.finish⟩
  | task source0 out first second =>
    obtain ⟨hserving, hidle⟩ := h.serving.task hT horderly hs
    exact ⟨hserving, hidle⟩

theorem resting_of_reachable {ok : Ep0 → Ep0Event → Prop} (hT : T.Sound)
    (hok : orderly → ∀ s e, ok s e → Orderly s e) (h : (ep0 T).ReachableWhere ok s) :
    Resting T orderly s :=
  h.invariant (fun _ h => Patched.resting h) fun s e _ hr he hs =>
    hr.step hT e (fun ho => hok ho s e he) hs

/-- The endpoint after power on. -/
def quietEp0 (highSpeed : Bool) : Ep0 where
  usbChirpFinish := false
  eUsbCxCommand := .void
  eUsbCxFinishAction := .idle
  u16TxRxCounter := 0
  pu8DescriptorEX := []
  u8ConfigDescriptorEX := []
  u8DeviceQualifierDescriptorEX := []
  u8OtherSpeedConfigDescriptorEX := []
  usbStatus := [0, 0, 0]
  u8UsbConfigValue := 0
  u8UsbInterfaceValue := 0
  u8UsbInterfaceAlternateSetting := 0
  highSpeed := highSpeed
  deviceAddress := 0
  fwCheckSum := 0
  downloadEnable := false
  writes := []

theorem patched_quietEp0 (T : Tables) (highSpeed : Bool) : Patched T (quietEp0 highSpeed) where
  command := rfl
  finish := rfl
  status := rfl
  enumerated := by
    intro h
    cases h

/-- What the FIFO gives where nothing has come. -/
def noData : ℕ → BitVec 32 := fun _ => 0

/-- A task that does not come back. -/
def Ep0Event.Faults : Ep0Event → Prop
  | .reset _ => False
  | .task source0 _ first second =>
    source0.getLsbD 0 = true ∧ Unserved (controlCmd first second)

/-- In every run in which no flash is read while a descriptor is sent, no transfer reads behind its
descriptor, whatever interrupts come together and wherever transfers are given up: the only read
outside of the tables is that of the status of a recipient that is neither the device, nor an
interface, nor an endpoint, and the only loop that does not end a read of the flash up to its last
words. -/
theorem endpoint_reads_tables (hT : T.Sound) (h : (ep0 T).ReachableWhere Orderly s)
    (e : Ep0Event) : stepEp0 T e s = none ↔ e.Faults := by
  cases e with
  | reset highSpeed => exact ⟨(by intro hn; cases hn), False.elim⟩
  | task source0 out first second =>
    have hresting : Resting T True s := resting_of_reachable hT (fun _ _ _ => id) h
    exact hresting.serving.task_eq_none_iff hT trivial

theorem status_of_other_misread :
    stepEp0 (usbTables 0 erased) (.task 0x01 noData 0x00000083 0x00020000) (quietEp0 true) = none :=
  (endpoint_reads_tables (usbTables_sound 0 erased) (.init (patched_quietEp0 _ true)) _).mpr
    ⟨by decide, .inl (by decide)⟩

end Ath9kHtc.Usb
