import Ath9kHtc.Usb.Answers

/-!
# Vendor requests

What is downloaded is summed up word by word, and its end is answered whatever the sum.  A read of the
flash takes over the counter and the pointer of a descriptor that is being sent.
-/

namespace Ath9kHtc.Usb

variable {T : Tables} {s s' : Ep0} {p : SetupPacket} {n : ℕ} {first second : BitVec 32}

theorem setup_vendor (htype : p.type = 0x40) :
    vUsbEp0setup T p s = vendorCommand T p (setupDescriptors T s) := by
  have hstd : ¬p.type = 0 := by
    rw [htype]
    decide
  rw [vUsbEp0setup, if_neg hstd, if_pos htype]

/-! ## A read of the flash in the middle of a transfer -/

/-- The command stays, and what it is about does not. -/
theorem setup_readsFlash (hp : ReadsFlash p) (hend : ¬Endless p) :
    ∃ s', vUsbEp0setup T p s = some s' ∧ s'.eUsbCxCommand = s.eUsbCxCommand ∧
      s'.eUsbCxFinishAction = s.eUsbCxFinishAction ∧ s'.u16TxRxCounter = p.length.toNat ∧
      s'.pu8DescriptorEX = [] := by
  obtain ⟨words, hwords⟩ := Option.ne_none_iff_exists'.mp (flashRead_eq_none_iff.not.mpr hend)
  rw [setup_vendor hp.1, vendorCommand, if_pos hp.2, hwords, Option.map_some]
  exact ⟨_, rfl, command_setupDescriptors T s, finishAction_setupDescriptors T s, rfl, rfl⟩

theorem writeWords_nil_eq_none_iff : writeWords n [] = none ↔ n ≠ 0 := by
  cases n with
  | zero => exact ⟨(by intro h; cases h), fun h => absurd rfl h⟩
  | succ n => exact ⟨fun _ => Nat.succ_ne_zero n, fun _ => rfl⟩

theorem writeLast_nil_eq_none_iff : writeLast n [] = none ↔ n ≠ 0 := by
  unfold writeLast
  split
  · simp [*]
  · split <;> simp [*]

/-- A packet of an address is read outside of the tables, unless it is empty. -/
theorem txData_of_address (haddress : s.pu8DescriptorEX = []) :
    vUsbEP0TxData s = none ↔ s.u16TxRxCounter ≠ 0 := by
  have hsize : packetSize s ≠ 0 ↔ s.u16TxRxCounter ≠ 0 := by
    rw [packetSize, ep0MaxPacketSize]
    split <;> omega
  rw [← hsize, vUsbEP0TxData, haddress]
  by_cases hwords : packetSize s / 4 = 0
  · have hword : writeWords (packetSize s / 4) [] = some ([], []) := by
      rw [hwords]
      rfl
    simp only [hword]
    by_cases hlast : packetSize s % 4 = 0
    · have h0 : packetSize s = 0 := by omega
      simp [h0, writeLast]
    · have hne : packetSize s ≠ 0 := by omega
      simp [writeLast_nil_eq_none_iff.mpr hlast, hne]
  · have hne : packetSize s ≠ 0 := by omega
    simp [writeWords_nil_eq_none_iff.mpr hwords, hne]

/-- Only a descriptor is sent from memory. -/
theorem ep0tx_eq_none_iff :
    vUsbEp0tx s = none ↔ s.eUsbCxCommand = .getDescriptor ∧ vUsbEP0TxData s = none := by
  unfold vUsbEp0tx
  cases s.eUsbCxCommand <;> simp

/-- A FLASH_READ that comes while a descriptor is being sent makes the next IN interrupt send from the
address in its value, outside of the tables, unless it asks for nothing. -/
theorem flash_read_misleads (hT : T.Sound) (h : (ep0 T).Reachable s)
    (hp : ReadsFlash (controlCmd first second)) (hend : ¬Endless (controlCmd first second)) :
    ∃ s', stepEp0 T (setupTask first second) s = some s' ∧
      (stepEp0 T inTask s' = none ↔
        s.eUsbCxCommand = .getDescriptor ∧ (controlCmd first second).length ≠ 0) := by
  have hresting : Resting T False s := resting_of_reachable hT False.elim h
  obtain ⟨s₁, hsetup, hcommand, hfinish, hcounter, haddress⟩ :=
    setup_readsFlash (T := T) (s := s) hp hend
  have hlength : (controlCmd first second).length ≠ 0 ↔
      (controlCmd first second).length.toNat ≠ 0 := by
    rw [ne_eq, ne_eq, ← BitVec.toNat_inj]
    rfl
  have hsent : vUsbEP0TxData (s₁.finish .idle) = none ↔ s₁.u16TxRxCounter ≠ 0 :=
    txData_of_address haddress
  rw [step_setupTask, hsetup, Option.map_some, finishTask_idle (hfinish.trans hresting.finish)]
  refine ⟨_, rfl, ?_⟩
  rw [step_inTask, Option.map_eq_none_iff, hlength, ← hcounter, ← hcommand, ← hsent]
  exact ep0tx_eq_none_iff

/-- The string of the manufacturer takes a second packet, which is then read at `0x1000`. -/
theorem manufacturer_misled : ∃ s₁ s',
    stepEp0 (usbTables 0 erased) (setupTask 0x03100680 0x00ff0409) (quietEp0 true) = some s₁ ∧
      stepEp0 (usbTables 0 erased) (setupTask 0x100035c0 0x00040000) s₁ = some s' ∧
      stepEp0 (usbTables 0 erased) inTask s' = none := by
  have hreach : (ep0 (usbTables 0 erased)).Reachable (quietEp0 true) :=
    .init (patched_quietEp0 _ true)
  obtain ⟨s₁, hs₁, hget⟩ : ∃ s₁,
      stepEp0 (usbTables 0 erased) (setupTask 0x03100680 0x00ff0409) (quietEp0 true) = some s₁ ∧
        s₁.eUsbCxCommand = .getDescriptor := ⟨_, rfl, rfl⟩
  have hread : ReadsFlash (controlCmd 0x100035c0 0x00040000) := by decide
  obtain ⟨s', hs', hmisled⟩ := flash_read_misleads (usbTables_sound 0 erased)
    (hreach.step trivial hs₁) hread (by decide)
  exact ⟨s₁, s', hs₁, hs', hmisled.mpr ⟨hget, by decide⟩⟩

/-! ## Downloads -/

/-- A request to download. -/
def Downloads (p : SetupPacket) : Prop := p.type = 0x40 ∧ p.request = cUsbReqDownload

instance (p : SetupPacket) : Decidable (Downloads p) := inferInstanceAs (Decidable (_ ∧ _))

/-- The end of a download. -/
def Completes (p : SetupPacket) : Prop := p.type = 0x40 ∧ p.request = cUsbReqDownloadComp

instance (p : SetupPacket) : Decidable (Completes p) := inferInstanceAs (Decidable (_ ∧ _))

/-- An OUT interrupt by itself. -/
def outTask (out : ℕ → BitVec 32) : Ep0Event := .task 0x04 out 0 0

/-- The packets that a download of so many bytes takes. -/
def packetCount (n : ℕ) : ℕ := (n - 1) / ep0MaxPacketSize + 1

/-- The words that the packets bring, of a download with so many bytes left. -/
def downloadWords : ℕ → List (ℕ → BitVec 32) → List (BitVec 32)
  | _, [] => []
  | n, out :: outs =>
    packetWords (min n ep0MaxPacketSize) out ++ downloadWords (n - ep0MaxPacketSize) outs

/-- The sum of the words of an image. -/
def checksum (sum : BitVec 32) (words : List (BitVec 32)) : BitVec 32 := words.foldl (· ^^^ ·) sum

/-- A download is under way with so many bytes left. -/
structure Receiving (s : Ep0) (n : ℕ) : Prop where
  command : s.eUsbCxCommand = .setDescriptor
  finish : s.eUsbCxFinishAction = .idle
  counter : s.u16TxRxCounter = n

theorem step_outTask (T : Tables) (out : ℕ → BitVec 32) (s : Ep0) :
    stepEp0 T (outTask out) s = some (finishTask (vUsbEp0rx out s)) := rfl

theorem packetSize_eq (s : Ep0) : packetSize s = min s.u16TxRxCounter ep0MaxPacketSize := by
  rw [packetSize]
  split <;> omega

/-- The last packet ends the download. -/
theorem Receiving.last (h : Receiving s n) (out : ℕ → BitVec 32) (hn : n ≤ ep0MaxPacketSize) :
    ∃ s', stepEp0 T (outTask out) s = some s' ∧ s'.writes = s.writes ++ [.cxConfigStatus 0x01] ∧
      s'.fwCheckSum = checksum s.fwCheckSum (packetWords (min n ep0MaxPacketSize) out) := by
  have hsize := packetSize_eq s
  rw [h.counter] at hsize
  have hzero : n - min n ep0MaxPacketSize = 0 := by omega
  refine ⟨_, step_outTask T out s, ?_⟩
  simp only [vUsbEp0rx, h.command, vUsbEP0RxData, hsize, h.counter, hzero]
  exact ⟨rfl, rfl⟩

/-- Another packet leaves the rest. -/
theorem Receiving.more (h : Receiving s n) (out : ℕ → BitVec 32) (hn : ep0MaxPacketSize < n) :
    ∃ s', stepEp0 T (outTask out) s = some s' ∧ s'.writes = s.writes ∧
      s'.fwCheckSum = checksum s.fwCheckSum (packetWords (min n ep0MaxPacketSize) out) ∧
      Receiving s' (n - ep0MaxPacketSize) := by
  have hsize := packetSize_eq s
  rw [h.counter] at hsize
  have hleft : n - min n ep0MaxPacketSize = n - ep0MaxPacketSize := by omega
  have hne : ¬n - ep0MaxPacketSize = 0 := by omega
  refine ⟨_, step_outTask T out s, ?_⟩
  simp only [vUsbEp0rx, h.command, vUsbEP0RxData, hsize, h.counter, hleft, hne, if_false, ne_eq,
    not_false_eq_true, if_true]
  exact ⟨rfl, rfl, rfl, rfl, rfl⟩

theorem packetCount_of_le (hn : n ≤ ep0MaxPacketSize) : packetCount n = 1 := by
  simp only [packetCount, ep0MaxPacketSize] at hn ⊢
  omega

theorem packetCount_of_lt (hn : ep0MaxPacketSize < n) :
    packetCount n = packetCount (n - ep0MaxPacketSize) + 1 := by
  simp only [packetCount, ep0MaxPacketSize] at hn ⊢
  omega

/-- The packets of a download, of which only the last one is answered. -/
theorem Receiving.run (h : Receiving s n) {outs : List (ℕ → BitVec 32)}
    (hlen : outs.length ≤ packetCount n) :
    ∃ s', runEp0 T (outs.map outTask) s = some s' ∧
      s'.writes = s.writes ++ (if outs.length = packetCount n then [.cxConfigStatus 0x01] else []) ∧
      s'.fwCheckSum = checksum s.fwCheckSum (downloadWords n outs) := by
  induction outs generalizing s n with
  | nil =>
    have hne : ¬0 = packetCount n := (Nat.succ_ne_zero _).symm
    exact ⟨s, rfl, by rw [List.length_nil, if_neg hne, List.append_nil], rfl⟩
  | cons out outs ih =>
    rw [List.map_cons, runEp0, downloadWords, checksum, List.foldl_append]
    by_cases hn : n ≤ ep0MaxPacketSize
    · obtain ⟨s', heq, hwrites, hsum⟩ := h.last (T := T) out hn
      rw [packetCount_of_le hn] at hlen ⊢
      obtain rfl : outs = [] := by simpa using hlen
      exact ⟨s', by rw [heq]; rfl, hwrites, hsum⟩
    · obtain ⟨s₁, heq, hwrites, hsum, h₁⟩ := h.more (T := T) out (not_le.mp hn)
      rw [packetCount_of_lt (not_le.mp hn), List.length_cons] at hlen ⊢
      simp only [Nat.add_right_cancel_iff]
      obtain ⟨s', hrun, hwrites', hsum'⟩ := ih h₁ (Nat.le_of_succ_le_succ hlen)
      refine ⟨s', by rw [heq]; exact hrun, ?_, ?_⟩
      · rw [hwrites', hwrites]
      · rw [hsum', hsum]
        rfl

/-- A request to download, and the data of its OUT interrupts. -/
structure Transfer where
  first : BitVec 32
  second : BitVec 32
  outs : List (ℕ → BitVec 32)

namespace Transfer

def length (t : Transfer) : ℕ := (controlCmd t.first t.second).length.toNat

/-- All its packets come. -/
structure Complete (t : Transfer) : Prop where
  downloads : Downloads (controlCmd t.first t.second)
  packets : t.outs.length = packetCount t.length

def events (t : Transfer) : List Ep0Event := setupTask t.first t.second :: t.outs.map outTask

def words (t : Transfer) : List (BitVec 32) := downloadWords t.length t.outs

end Transfer

theorem runEp0_append (es es' : List Ep0Event) (s : Ep0) :
    runEp0 T (es ++ es') s = (runEp0 T es s).bind (runEp0 T es') := by
  induction es generalizing s with
  | nil => rfl
  | cons e es ih =>
    rw [List.cons_append, runEp0, runEp0, Option.bind_assoc]
    congr
    funext s'
    exact ih s'

/-- Between the tasks no action is left over. -/
theorem step_idle {e : Ep0Event} (hidle : s.eUsbCxFinishAction = .idle)
    (hs : stepEp0 T e s = some s') : s'.eUsbCxFinishAction = .idle := by
  cases e with
  | reset highSpeed =>
    obtain rfl := Option.some.inj hs
    exact hidle
  | task source0 out first second =>
    obtain ⟨s₁, -, hs⟩ := Option.bind_eq_some_iff.mp hs
    obtain ⟨s₂, -, rfl⟩ := Option.map_eq_some_iff.mp hs
    rfl

theorem run_idle {es : List Ep0Event} (hidle : s.eUsbCxFinishAction = .idle)
    (hs : runEp0 T es s = some s') : s'.eUsbCxFinishAction = .idle := by
  induction es generalizing s with
  | nil =>
    obtain rfl := Option.some.inj hs
    exact hidle
  | cons e es ih =>
    obtain ⟨s₁, h₁, hs⟩ := Option.bind_eq_some_iff.mp hs
    exact ih (step_idle hidle h₁) hs

/-- A request to download is not answered by itself. -/
theorem step_downloads (hp : Downloads (controlCmd first second))
    (hidle : s.eUsbCxFinishAction = .idle) :
    ∃ s', stepEp0 T (setupTask first second) s = some s' ∧ s'.writes = s.writes ∧
      s'.fwCheckSum = s.fwCheckSum ∧ Receiving s' (controlCmd first second).length.toNat := by
  have hfinish : ((setPointer (controlCmd first second) (setupDescriptors T s)).setCommand
      .setDescriptor).eUsbCxFinishAction = .idle := (finishAction_setupDescriptors T s).trans hidle
  have hsum : (setupDescriptors T s).fwCheckSum = s.fwCheckSum := by
    rw [setupDescriptors]
    split <;> rfl
  rw [step_setupTask, setup_vendor hp.1, vendorCommand, hp.2]
  refine ⟨_, rfl, ?_⟩
  rw [finishTask_idle hfinish]
  exact ⟨writes_setupDescriptors T s, hsum, rfl, rfl, rfl⟩

/-- A download that is complete. -/
theorem Transfer.Complete.run {t : Transfer} (ht : t.Complete)
    (hidle : s.eUsbCxFinishAction = .idle) :
    ∃ s', runEp0 T t.events s = some s' ∧ s'.writes = s.writes ++ [.cxConfigStatus 0x01] ∧
      s'.fwCheckSum = checksum s.fwCheckSum t.words := by
  obtain ⟨s₁, hsetup, hwrites, hsum, h₁⟩ := step_downloads (T := T) ht.downloads hidle
  have hpackets := ht.packets
  rw [Transfer.length] at hpackets
  obtain ⟨s', hrun, hwrites', hsum'⟩ := h₁.run (T := T) (le_of_eq hpackets)
  refine ⟨s', ?_, ?_, ?_⟩
  · rw [Transfer.events, runEp0, hsetup]
    exact hrun
  · rw [hwrites', hwrites, if_pos hpackets]
  · rw [hsum', hsum]
    rfl

/-- An image that comes in any number of downloads. -/
theorem image_summed {image : List Transfer} (himage : ∀ t ∈ image, t.Complete)
    (hidle : s.eUsbCxFinishAction = .idle) :
    ∃ s', runEp0 T (image.flatMap Transfer.events) s = some s' ∧
      s'.writes = s.writes ++ List.replicate image.length (.cxConfigStatus 0x01) ∧
      s'.fwCheckSum = checksum s.fwCheckSum (image.flatMap Transfer.words) := by
  induction image generalizing s with
  | nil => exact ⟨s, rfl, (List.append_nil _).symm, rfl⟩
  | cons t image ih =>
    obtain ⟨ht, hrest⟩ := List.forall_mem_cons.mp himage
    obtain ⟨s₁, h₁, hwrites, hsum⟩ := ht.run (T := T) hidle
    obtain ⟨s', hrun, hwrites', hsum'⟩ := ih hrest (run_idle hidle h₁)
    refine ⟨s', ?_, ?_, ?_⟩
    · rw [List.flatMap_cons, runEp0_append, h₁]
      exact hrun
    · rw [hwrites', hwrites, List.length_cons, List.replicate_succ, List.append_assoc]
      rfl
    · rw [hsum', hsum, List.flatMap_cons, checksum, checksum, checksum, List.foldl_append]

/-- An image that comes in any number of downloads is summed up, every download is answered once its
last packet has come, and the end is answered with success whatever the sum is. -/
theorem image_accepted (hT : T.Sound) (h : (ep0 T).Reachable s) {image : List Transfer}
    (himage : ∀ t ∈ image, t.Complete) (hp : Completes (controlCmd first second)) :
    ∃ s₁ s', runEp0 T (image.flatMap Transfer.events) s = some s₁ ∧
      s₁.writes = s.writes ++ List.replicate image.length (.cxConfigStatus 0x01) ∧
      s₁.fwCheckSum = checksum s.fwCheckSum (image.flatMap Transfer.words) ∧
      stepEp0 T (setupTask first second) s₁ = some s' ∧
      s'.writes = s₁.writes ++ [.data [0], .cxConfigStatus 0x01] ∧ s'.fwCheckSum = 0 ∧
      s'.downloadEnable = true := by
  have hresting : Resting T False s := resting_of_reachable hT False.elim h
  obtain ⟨s₁, hrun, hwrites, hsum⟩ := image_summed (T := T) himage hresting.finish
  have hfinish : (completeDownload (setupDescriptors T s₁)).eUsbCxFinishAction = .idle :=
    (finishAction_setupDescriptors T s₁).trans (run_idle hresting.finish hrun)
  have hstep : stepEp0 T (setupTask first second) s₁ =
      some (finishTask (completeDownload (setupDescriptors T s₁))) := by
    rw [step_setupTask, setup_vendor hp.1, vendorCommand, hp.2]
    rfl
  refine ⟨s₁, _, hrun, hwrites, hsum, hstep, ?_⟩
  rw [finishTask_idle hfinish, ← writes_setupDescriptors T s₁]
  exact ⟨rfl, rfl, rfl⟩

def ones : ℕ → BitVec 32 := fun _ => 1

/-- A download of 65 bytes. -/
def smallImage : List Transfer := [⟨0x50103040, 0x00410000, [ones, ones]⟩]

theorem small_image_accepted : ∃ s₁ s',
    runEp0 (usbTables 0 erased) (smallImage.flatMap Transfer.events) (quietEp0 true) = some s₁ ∧
      s₁.fwCheckSum = 1 ∧
      stepEp0 (usbTables 0 erased) (setupTask 0x50103140 0x00000000) s₁ = some s' ∧
      s'.downloadEnable = true := by
  have hcomplete : ∀ t ∈ smallImage, t.Complete := by
    intro t ht
    obtain rfl := List.mem_singleton.mp ht
    exact ⟨by decide, by decide⟩
  have hend : Completes (controlCmd 0x50103140 0x00000000) := by decide
  obtain ⟨s₁, s', hrun, -, hsum, hs', -, -, henable⟩ := image_accepted (usbTables_sound 0 erased)
    (.init (patched_quietEp0 _ true)) hcomplete hend
  exact ⟨s₁, s', hrun, hsum, hs', henable⟩

end Ath9kHtc.Usb
