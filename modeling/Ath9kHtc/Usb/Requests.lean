import Ath9kHtc.Lib.Segments
import Ath9kHtc.Usb.Serving

/-!
# Descriptors reach the host

A descriptor request gets the descriptor cut into packets, and the last packet ends the transfer.
-/

namespace Ath9kHtc.Usb

variable {T : Tables} {s s' : Ep0} {p : SetupPacket} {table words : List (BitVec 16)} {len n : ℕ}
  {orderly : Prop}

def runEp0 (T : Tables) : List Ep0Event → Ep0 → Option Ep0
  | [], s => some s
  | e :: es, s => (stepEp0 T e s).bind (runEp0 T es)

/-- A SETUP packet by itself. -/
def setupTask (first second : BitVec 32) : Ep0Event := .task 0x01 noData first second

/-- An IN interrupt by itself. -/
def inTask : Ep0Event := .task 0x02 noData 0 0

/-- The packets of a transfer. -/
def packets (bytes : List (BitVec 8)) : List (List (BitVec 8)) :=
  Segments.segment ep0MaxPacketSize bytes

/-- What the first `n` of these packets leave in the registers: the last one is followed by
`CX_DONE`. -/
def delivered (n : ℕ) (parts : List (List (BitVec 8))) : List Ep0Write :=
  (parts.take n).map .data ++ if n = parts.length then [.cxConfigStatus 0x01] else []

theorem packets_of_le {bytes : List (BitVec 8)} (h : bytes.length ≤ ep0MaxPacketSize) :
    packets bytes = [bytes] := Segments.segment_of_le h

theorem packets_of_lt {bytes : List (BitVec 8)} (h : ep0MaxPacketSize < bytes.length) :
    packets bytes = bytes.take ep0MaxPacketSize :: packets (bytes.drop ep0MaxPacketSize) :=
  Segments.segment_of_lt (by simp [ep0MaxPacketSize]) h

theorem delivered_cons (n : ℕ) (part : List (BitVec 8)) (parts : List (List (BitVec 8))) :
    delivered (n + 1) (part :: parts) = .data part :: delivered n parts := by
  simp only [delivered, List.take_succ_cons, List.map_cons, List.cons_append, List.length_cons,
    Nat.add_right_cancel_iff]

theorem delivered_zero {bytes : List (BitVec 8)} : delivered 0 (packets bytes) = [] := by
  have h : packets bytes ≠ [] := Segments.segment_ne_nil _ _
  rw [delivered, if_neg (by
    intro h0
    exact h (List.length_eq_zero_iff.mp h0.symm))]
  rfl

/-- These bytes are left to send. -/
structure Left (s : Ep0) (bytes : List (BitVec 8)) : Prop where
  le : s.u16TxRxCounter ≤ 2 * s.pu8DescriptorEX.length
  bytes : bytes = (descriptorBytes s.pu8DescriptorEX).take s.u16TxRxCounter

variable {bytes : List (BitVec 8)}

theorem Left.length (h : Left s bytes) : bytes.length = s.u16TxRxCounter := by
  rw [h.bytes, List.length_take, length_descriptorBytes]
  have := h.le
  omega

theorem Left.last (h : Left s bytes) (hlen : bytes.length ≤ ep0MaxPacketSize) :
    ∃ s', vUsbEP0TxData s = some s' ∧ s'.writes = s.writes ++ [.data bytes] ∧
      s'.u16TxRxCounter = 0 ∧ s'.eUsbCxFinishAction = .done := by
  rw [h.length] at hlen
  obtain ⟨words, heq⟩ := txData_last hlen h.le
  rw [← h.bytes] at heq
  exact ⟨_, heq, rfl, rfl, rfl⟩

theorem Left.more (h : Left s bytes) (hlen : ep0MaxPacketSize < bytes.length) :
    ∃ s', vUsbEP0TxData s = some s' ∧
      s'.writes = s.writes ++ [.data (bytes.take ep0MaxPacketSize)] ∧
      0 < s'.u16TxRxCounter ∧ s'.eUsbCxFinishAction = s.eUsbCxFinishAction ∧
      s'.eUsbCxCommand = s.eUsbCxCommand ∧ Left s' (bytes.drop ep0MaxPacketSize) := by
  rw [h.length] at hlen
  have hfirst : bytes.take ep0MaxPacketSize =
      (descriptorBytes s.pu8DescriptorEX).take ep0MaxPacketSize := by
    rw [h.bytes, List.take_take, Nat.min_eq_left (le_of_lt hlen)]
  have hrest : bytes.drop ep0MaxPacketSize = (descriptorBytes (s.pu8DescriptorEX.drop 32)).take
      (s.u16TxRxCounter - ep0MaxPacketSize) := by
    rw [h.bytes, List.drop_take, descriptorBytes_drop]
    rfl
  refine ⟨_, txData_more hlen h.le, by rw [hfirst]; rfl, Nat.sub_pos_of_lt hlen, rfl, rfl,
    ?_, hrest⟩
  have hle := h.le
  simp only [ep0MaxPacketSize, List.length_drop] at hlen ⊢
  omega

theorem Left.writes (h : Left s bytes) (hs : vUsbEP0TxData s = some s') :
    ∃ x, s'.writes = s.writes ++ [.data x] := by
  by_cases hlen : bytes.length ≤ ep0MaxPacketSize
  · obtain ⟨s₁, heq, hwrites, -⟩ := h.last hlen
    obtain rfl := Option.some.inj (hs.symm.trans heq)
    exact ⟨_, hwrites⟩
  · obtain ⟨s₁, heq, hwrites, -⟩ := h.more (not_le.mp hlen)
    obtain rfl := Option.some.inj (hs.symm.trans heq)
    exact ⟨_, hwrites⟩

/-- A transfer is under way with these bytes left. -/
structure Pending (s : Ep0) (bytes : List (BitVec 8)) : Prop where
  command : s.eUsbCxCommand = .getDescriptor
  finish : s.eUsbCxFinishAction = .idle
  left : Left s bytes

theorem finishTask_done (h : s.eUsbCxFinishAction = .done) :
    (finishTask s).writes = s.writes ++ [.cxConfigStatus 0x01] := by
  rw [finishTask, h]
  rfl

theorem finishTask_idle (h : s.eUsbCxFinishAction = .idle) : finishTask s = s.finish .idle := by
  rw [finishTask, h]

theorem step_inTask (T : Tables) (s : Ep0) :
    stepEp0 T inTask s = (vUsbEp0tx s).map finishTask := by
  show (vUsbEp0tx s).bind _ = _
  rw [Option.map_eq_bind]
  rfl

theorem step_setupTask (T : Tables) (first second : BitVec 32) (s : Ep0) :
    stepEp0 T (setupTask first second) s =
      (vUsbEp0setup T (controlCmd first second) s).map finishTask := rfl

/-- An IN interrupt sends the last packet and ends the transfer. -/
theorem Pending.last (h : Pending s bytes) (hlen : bytes.length ≤ ep0MaxPacketSize) :
    ∃ s', stepEp0 T inTask s = some s' ∧
      s'.writes = s.writes ++ [.data bytes, .cxConfigStatus 0x01] := by
  obtain ⟨s', heq, hwrites, -, hdone⟩ := h.left.last hlen
  rw [step_inTask, vUsbEp0tx, h.command]
  refine ⟨finishTask s', by simp only [heq, Option.map_some], ?_⟩
  rw [finishTask_done hdone, hwrites, List.append_assoc]
  rfl

/-- Or it sends a packet, and the rest is left. -/
theorem Pending.more (h : Pending s bytes) (hlen : ep0MaxPacketSize < bytes.length) :
    ∃ s', stepEp0 T inTask s = some s' ∧
      s'.writes = s.writes ++ [.data (bytes.take ep0MaxPacketSize)] ∧
      Pending s' (bytes.drop ep0MaxPacketSize) := by
  obtain ⟨s', heq, hwrites, -, hidle, hcommand, hleft⟩ := h.left.more hlen
  rw [h.finish] at hidle
  rw [h.command] at hcommand
  rw [step_inTask, vUsbEp0tx, h.command]
  refine ⟨s'.finish .idle, ?_, hwrites, hcommand, rfl, hleft.le, hleft.bytes⟩
  simp only [heq, Option.map_some, finishTask_idle hidle]

/-- The IN interrupts of a transfer send its packets. -/
theorem Pending.run (h : Pending s bytes) {n : ℕ} (hn : n ≤ (packets bytes).length) :
    ∃ s', runEp0 T (List.replicate n inTask) s = some s' ∧
      s'.writes = s.writes ++ delivered n (packets bytes) := by
  induction n generalizing s bytes with
  | zero => exact ⟨s, rfl, by rw [delivered_zero, List.append_nil]⟩
  | succ n ih =>
    rw [List.replicate_succ, runEp0]
    by_cases hlen : bytes.length ≤ ep0MaxPacketSize
    · rw [packets_of_le hlen] at hn ⊢
      obtain rfl : n = 0 := by simpa using hn
      obtain ⟨s', heq, hwrites⟩ := h.last (T := T) hlen
      exact ⟨s', by rw [heq]; rfl, hwrites⟩
    · obtain ⟨s₁, heq, hwrites, h₁⟩ := h.more (T := T) (not_le.mp hlen)
      rw [packets_of_lt (not_le.mp hlen)] at hn ⊢
      obtain ⟨s', heq', hwrites'⟩ := ih h₁ (Nat.le_of_succ_le_succ hn)
      refine ⟨s', by rw [heq]; exact heq', ?_⟩
      rw [hwrites', hwrites, delivered_cons, List.append_assoc]
      rfl

/-- What a request has to send, before its first packet. -/
theorem left_begin (h : len ≤ 2 * table.length) (p : SetupPacket) (s : Ep0) :
    Left (setDescriptor p s table len) (((descriptorBytes table).take len).take p.length.toNat) := by
  have hmin : (if p.length.toNat < len then p.length.toNat else len) = min p.length.toNat len := by
    split <;> omega
  refine ⟨?_, ?_⟩
  · show (if p.length.toNat < len then p.length.toNat else len) ≤ 2 * table.length
    omega
  · show _ = (descriptorBytes table).take (if p.length.toNat < len then p.length.toNat else len)
    rw [List.take_take, hmin]

/-- A standard request for a descriptor. -/
def GetsDescriptor (p : SetupPacket) : Prop := p.type = 0 ∧ p.request = 6

instance (p : SetupPacket) : Decidable (GetsDescriptor p) := inferInstanceAs (Decidable (_ ∧ _))

theorem setup_of_getsDescriptor (hp : GetsDescriptor p) :
    vUsbEp0setup T p s = (bGetDescriptorPatch T p (setupDescriptors T s)).map fun r =>
      if r.1 then r.2 else r.2.finish .stall := by
  obtain ⟨htype, hreq⟩ := hp
  have hne : ¬p.request = 9 := by
    rw [hreq]
    decide
  have h6 : p.request.toNat = 6 := by
    rw [hreq]
    rfl
  rw [vUsbEp0setup, if_pos htype, bStandardCommandPatch, if_neg hne, bStandardCommand]
  simp only [h6]

theorem highSpeed_setupDescriptors (T : Tables) (s : Ep0) :
    (setupDescriptors T s).highSpeed = s.highSpeed := by
  rw [setupDescriptors]
  split <;> rfl

theorem writes_setupDescriptors (T : Tables) (s : Ep0) :
    (setupDescriptors T s).writes = s.writes := by
  rw [setupDescriptors]
  split <;> rfl

theorem finishAction_setupDescriptors (T : Tables) (s : Ep0) :
    (setupDescriptors T s).eUsbCxFinishAction = s.eUsbCxFinishAction := by
  rw [setupDescriptors]
  split <;> rfl

/-- A descriptor that exists is begun with its length. -/
theorem setup_begins (hT : T.Sound) (h : Serving T orderly s) (hp : GetsDescriptor p)
    (hlookup : T.lookup s.highSpeed (mHighByte p.value) (mLowByte p.value) = some (table, len)) :
    vUsbEp0setup T p s = (beginDescriptor p (setupDescriptors T s) table len).map resume := by
  have henumerated := h.setupDescriptors.enumerated (chirp_setupDescriptors T s)
  rw [setup_of_getsDescriptor hp, bGetDescriptorPatch_eq hT henumerated,
    highSpeed_setupDescriptors, hlookup]
  simp only [Option.map_map]
  rfl

/-- In every state that tasks in any order lead to, a request for a descriptor makes the setup and
the IN interrupts after it send the bytes asked for, in packets of 64 bytes with a shorter one at
the end; `CX_DONE` is written with the last packet and not before. -/
theorem descriptor_delivered (hT : T.Sound) (h : (ep0 T).Reachable s) {first second : BitVec 32}
    {d : List (BitVec 8)} (hp : GetsDescriptor (controlCmd first second))
    (hd : T.descriptor s.highSpeed (controlCmd first second).value = some d) {n : ℕ}
    (hn : n < (packets (d.take (controlCmd first second).length.toNat)).length) :
    ∃ s', runEp0 T (setupTask first second :: List.replicate n inTask) s = some s' ∧
      s'.writes = s.writes ++
        delivered (n + 1) (packets (d.take (controlCmd first second).length.toNat)) := by
  obtain ⟨hserving, hidle⟩ := resting_of_reachable hT False.elim h
  obtain ⟨⟨table, len⟩, hlookup, rfl⟩ := Option.map_eq_some_iff.mp hd
  have hleft := left_begin (hT.lookup_le hlookup) (controlCmd first second) (setupDescriptors T s)
  rw [runEp0, step_setupTask, setup_begins hT hserving hp hlookup, beginDescriptor]
  rw [← finishAction_setupDescriptors T] at hidle
  rw [← writes_setupDescriptors T]
  generalize setupDescriptors T s = s₀ at hleft hidle ⊢
  by_cases hlen : (((descriptorBytes table).take len).take
      (controlCmd first second).length.toNat).length ≤ ep0MaxPacketSize
  · rw [packets_of_le hlen] at hn ⊢
    obtain rfl : n = 0 := by simpa using hn
    obtain ⟨s₁, heq, hwrites, hzero, hdone⟩ := hleft.last hlen
    refine ⟨finishTask s₁, ?_, ?_⟩
    · rw [heq, Option.map_some, resume_of_zero hzero]
      rfl
    · rw [finishTask_done hdone, hwrites, List.append_assoc]
      rfl
  · obtain ⟨s₁, heq, hwrites, hpos, hsame, -, hrest⟩ := hleft.more (not_le.mp hlen)
    have hidle₁ : (s₁.setCommand .getDescriptor).eUsbCxFinishAction = .idle := hsame.trans hidle
    have h₁ : Pending ((s₁.setCommand .getDescriptor).finish .idle) _ :=
      ⟨rfl, rfl, hrest.le, hrest.bytes⟩
    rw [packets_of_lt (not_le.mp hlen)] at hn ⊢
    obtain ⟨s', hrun, hwrites'⟩ := h₁.run (T := T) (Nat.le_of_lt_succ hn)
    refine ⟨s', ?_, ?_⟩
    · rw [heq, Option.map_some, resume_of_pos hpos, Option.map_some,
        finishTask_idle hidle₁]
      exact hrun
    · rw [hwrites', delivered_cons]
      show s₁.writes ++ _ = _
      rw [hwrites, List.append_assoc]
      rfl

/-- The bytes of the string of the manufacturer, which take two packets. -/
def manufacturer : List (BitVec 8) := descriptorBytes (usbTables 0 erased).string10

theorem manufacturer_delivered :
    ∃ s', runEp0 (usbTables 0 erased) (setupTask 0x03100680 0x00ff0409 :: List.replicate 1 inTask)
        (quietEp0 true) = some s' ∧
      s'.writes = delivered 2 (packets (manufacturer.take 255)) :=
  descriptor_delivered (usbTables_sound 0 erased) (.init (patched_quietEp0 _ _)) (by decide) rfl (by
    rw [packets_of_lt (by decide)]
    exact Nat.succ_lt_succ (List.length_pos_of_ne_nil (Segments.segment_ne_nil _ _)))

end Ath9kHtc.Usb
