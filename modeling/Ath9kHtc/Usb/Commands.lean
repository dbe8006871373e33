import Ath9kHtc.Lib.Framing
import Ath9kHtc.Usb.RegOut
import Mathlib.Data.List.Perm.Basic

/-!
# Commands put together

Along a run in which no command overruns its buffer, `recv_command` is called with the commands
of the stream, one for each and in order.
-/

namespace Ath9kHtc.Usb

open Framing

/-- A packet after which the command goes on. -/
def whole (p : Packet) : Bool := p.len = usbEp4MaxPktSize

/-- What the packets of a command carry. -/
def commandBytes (packets : List Packet) : List (BitVec 8) := packets.flatMap Packet.bytes

/-- The commands of a stream: packets of full size and a shorter one. -/
def commands (packets : List Packet) : List (List (BitVec 8)) :=
  (frames whole packets).map commandBytes

/-- The buffer a command is being put together in. -/
def UsbFifo.filling (s : UsbFifo) : List VbufId := if s.cmdIsNew then [] else s.buf.toList

@[simp] theorem Packet.length_bytes (p : Packet) : p.bytes.length = p.len :=
  Memory.length_fetch

theorem commandBytes_concat (cur : List Packet) (p : Packet) :
    commandBytes (cur ++ [p]) = commandBytes cur ++ p.bytes := by
  simp [commandBytes]

section

variable {L : Layout} {s s' : UsbFifo} {out : List VbufId} {b : VbufId}

/-! ## The buffers -/

def UsbFifo.links (s : UsbFifo) (b : VbufId) : Option VbufId := (s.vbuf b).nextBuf

/-- Every buffer is on the command queue or among `out`, once, and none has been resized. -/
structure Pool (L : Layout) (s : UsbFifo) (out : List VbufId) : Prop where
  bufAddr : ∀ b, (s.vbuf b).bufAddr = L.bufAddr b
  bufSize : ∀ b, (s.vbuf b).bufSize = commandMsgLen
  queued : ∃ q, Chain s.links s.cmdQueue q ∧ (q ++ out).Perm (List.range L.credits)
  unlinked : ∀ b ∈ out, s.links b = none

namespace Pool

theorem lt_credits (h : Pool L s out) (hb : b ∈ out) : b < L.credits := by
  obtain ⟨q, -, hperm⟩ := h.queued
  exact List.mem_range.mp (hperm.mem_iff.mp (List.mem_append_right q hb))

theorem nodup (h : Pool L s out) : out.Nodup := by
  obtain ⟨q, -, hperm⟩ := h.queued
  exact (List.nodup_append.mp (hperm.nodup_iff.mpr List.nodup_range)).2.1

theorem congr (h : Pool L s out) (hvbuf : s'.vbuf = s.vbuf) (hqueue : s'.cmdQueue = s.cmdQueue) :
    Pool L s' out := by
  have hlinks : s'.links = s.links := by
    funext c
    rw [UsbFifo.links, UsbFifo.links, hvbuf]
  rcases h with ⟨haddr, hsize, hqueued, hunlinked⟩
  constructor
  · simpa only [hvbuf] using haddr
  · simpa only [hvbuf] using hsize
  · simpa only [hlinks, hqueue] using hqueued
  · simpa only [hlinks] using hunlinked

/-- A change of one buffer that leaves its block of memory. -/
theorem change {out' q : List VbufId} (h : Pool L s out) (b : VbufId) (f : Vbuf → Vbuf)
    (hvbuf : s'.vbuf = (s.modVbuf b f).vbuf)
    (haddr : (f (s.vbuf b)).bufAddr = (s.vbuf b).bufAddr)
    (hsize : (f (s.vbuf b)).bufSize = (s.vbuf b).bufSize)
    (hchain : Chain (Function.update s.links b (f (s.vbuf b)).nextBuf) s'.cmdQueue q)
    (hperm : (q ++ out').Perm (List.range L.credits))
    (hunlinked : ∀ c ∈ out', Function.update s.links b (f (s.vbuf b)).nextBuf c = none) :
    Pool L s' out' := by
  have hsame : s'.vbuf b = f (s.vbuf b) := by rw [hvbuf, UsbFifo.modVbuf_self]
  have hother : ∀ c, c ≠ b → s'.vbuf c = s.vbuf c := by
    intro c hc
    rw [hvbuf, UsbFifo.modVbuf_of_ne s b f hc]
  have hlinks : s'.links = Function.update s.links b (f (s.vbuf b)).nextBuf := by
    funext c
    by_cases hc : c = b
    · rw [hc, Function.update_self, UsbFifo.links, hsame]
    · rw [Function.update_of_ne hc, UsbFifo.links, UsbFifo.links, hother c hc]
  constructor
  · intro c
    by_cases hc : c = b
    · rw [hc, hsame, haddr, h.bufAddr]
    · rw [hother c hc, h.bufAddr]
  · intro c
    by_cases hc : c = b
    · rw [hc, hsame, hsize, h.bufSize]
    · rw [hother c hc, h.bufSize]
  · exact ⟨q, hlinks ▸ hchain, hperm⟩
  · exact hlinks ▸ hunlinked

/-- What the owner of a buffer changes in it, its place and link apart. -/
theorem modVbuf {f : Vbuf → Vbuf} (h : Pool L s out) (hb : b ∈ out)
    (haddr : (f (s.vbuf b)).bufAddr = (s.vbuf b).bufAddr)
    (hsize : (f (s.vbuf b)).bufSize = (s.vbuf b).bufSize)
    (hnext : (f (s.vbuf b)).nextBuf = none) : Pool L (s.modVbuf b f) out := by
  obtain ⟨q, hchain, hperm⟩ := h.queued
  have hlinks : Function.update s.links b (f (s.vbuf b)).nextBuf = s.links := by
    rw [hnext, ← h.unlinked b hb, Function.update_eq_self]
  apply h.change b f rfl haddr hsize ?_ hperm
  · rw [hlinks]
    exact h.unlinked
  · rw [hlinks]
    exact hchain

theorem returnRecvBuf (h : Pool L s out) (hb : b ∈ out) :
    Pool L (hifusbReturnRecvBuf s b) (out.erase b) := by
  obtain ⟨q, hchain, hperm⟩ := h.queued
  have hperm' : (b :: q ++ out.erase b).Perm (List.range L.credits) :=
    (List.perm_middle.symm.trans (List.Perm.append_left q (List.perm_cons_erase hb).symm)).trans
      hperm
  have hfresh : b ∉ q ∧ b ∉ out.erase b := by
    have hnodup := hperm'.nodup_iff.mpr List.nodup_range
    rw [List.cons_append, List.nodup_cons, List.mem_append, not_or] at hnodup
    exact hnodup.1
  have hout : ∀ c ∈ out.erase b, s.links c = none := fun c hc =>
    h.unlinked c (List.mem_of_mem_erase hc)
  cases hhead : s.cmdQueue with
  | none =>
      rw [hhead] at hchain
      cases q with
      | cons c q => cases hchain.1
      | nil =>
          rw [hifusbReturnRecvBuf, hhead]
          exact ⟨h.bufAddr, h.bufSize, ⟨[b], ⟨rfl, h.unlinked b hb⟩, hperm'⟩, hout⟩
  | some head =>
      rw [hhead] at hchain
      simp only [hifusbReturnRecvBuf, hhead]
      refine h.change b (fun v => { v with nextBuf := some head }) ?_ rfl rfl ?_ hperm' ?_
      · rfl
      · refine ⟨rfl, ?_⟩
        rw [Function.update_self]
        apply hchain.congr
        intro c hc
        exact Function.update_of_ne (ne_of_mem_of_not_mem hc hfresh.1) _ _
      · intro c hc
        rw [Function.update_of_ne (ne_of_mem_of_not_mem hc hfresh.2), hout c hc]

theorem getCommandBuf (h : Pool L s out) (hget : usbfifoGetCommandBuf s = some (b, s')) :
    Pool L s' (b :: out) := by
  obtain ⟨c, hhead, heq⟩ := Option.map_eq_some_iff.mp hget
  obtain ⟨rfl, rfl⟩ := Prod.mk.inj heq
  obtain ⟨q, hchain, hperm⟩ := h.queued
  cases q with
  | nil =>
      rw [hchain] at hhead
      cases hhead
  | cons d q =>
      obtain rfl : c = d := Option.some.inj (hhead.symm.trans hchain.1)
      have hperm' : (q ++ c :: out).Perm (List.range L.credits) :=
        List.perm_middle.trans hperm
      have hfresh : c ∉ q ∧ c ∉ out := by
        have hnodup := hperm.nodup_iff.mpr List.nodup_range
        rw [List.cons_append, List.nodup_cons, List.mem_append, not_or] at hnodup
        exact hnodup.1
      refine h.change c (fun v => { v with nextBuf := none }) ?_ rfl rfl ?_ hperm' ?_
      · rfl
      · apply hchain.2.congr
        intro d hd
        exact Function.update_of_ne (ne_of_mem_of_not_mem hd hfresh.1) _ _
      · intro d hd
        rcases List.mem_cons.mp hd with rfl | hd
        · rw [Function.update_self]
        · rw [Function.update_of_ne (ne_of_mem_of_not_mem hd hfresh.2), h.unlinked d hd]

end Pool

/-- The command pipe as it is configured. -/
theorem pool_configCommandPipe (bufs : List VbufId) (h : Pool L s (bufs ++ out))
    (hnodup : (bufs ++ out).Nodup) : Pool L (configCommandPipe bufs s) out := by
  induction bufs generalizing s with
  | nil => exact h
  | cons b bufs ih =>
      have hreturned := h.returnRecvBuf (b := b) List.mem_cons_self
      rw [List.cons_append, List.erase_cons_head] at hreturned
      exact ih hreturned (List.nodup_cons.mp hnodup).2

/-! ## The copy from the FIFO -/

theorem copyWords_eq (fifo : ℕ → BitVec 8) (n : ℕ) (s : UsbFifo) :
    copyWords fifo n s =
      { s with
        mem := Memory.store s.mem s.regaddr (Memory.fetch fifo 0 (4 * n))
        regaddr := s.regaddr + 4 * n } := by
  induction n with
  | zero => rfl
  | succ n ih =>
      have hwords : Memory.fetch fifo 0 (4 * (n + 1)) =
          Memory.fetch fifo 0 (4 * n) ++ Memory.fetch fifo (4 * n) 4 := by
        rw [Nat.mul_succ, Memory.fetch_append, Nat.zero_add]
      rw [copyWords, List.range_succ, List.foldl_append, ← copyWords, ih, List.foldl_cons,
        List.foldl_nil, copyWord, hwords, Memory.store_append, Memory.length_fetch]
      rfl

/-- The words of a packet are its bytes and the padding of the last word. -/
theorem roundToWords_bounds (n : ℕ) : n ≤ 4 * roundToWords n ∧ 4 * roundToWords n < n + 4 := by
  unfold roundToWords
  split <;> omega

theorem roundToWords_le {k n : ℕ} (h : n ≤ 4 * k) : 4 * roundToWords n ≤ 4 * k := by
  unfold roundToWords
  split <;> omega

theorem roundToWords_whole : 4 * roundToWords usbEp4MaxPktSize = usbEp4MaxPktSize := rfl

/-! ## The stream -/

/-- The packets so far are the commands handed over and the packets `cur` of the next. -/
def Stream (received : List Command) (packets cur : List Packet) : Prop :=
  ∃ F : List (List Packet), packets = F.flatten ++ cur ∧ (∀ f ∈ F, IsFrame whole f) ∧
    (∀ p ∈ cur, whole p = true) ∧ received.map Command.data = F.map commandBytes ∧
    ∀ c ∈ received, c.dataSize = c.data.length

namespace Stream

variable {received : List Command} {packets cur : List Packet} {p : Packet} {c : Command}

theorem more (h : Stream received packets cur) (hp : whole p = true) :
    Stream received (packets ++ [p]) (cur ++ [p]) := by
  obtain ⟨F, rfl, hF, hcur, hdata, hsize⟩ := h
  refine ⟨F, List.append_assoc .., hF, ?_, hdata, hsize⟩
  intro q hq
  rcases List.mem_append.mp hq with hq | hq
  · exact hcur q hq
  · rw [List.mem_singleton.mp hq, hp]

theorem last (h : Stream received packets cur) (hp : whole p = false)
    (hc : c.data = commandBytes (cur ++ [p])) (hc' : c.dataSize = c.data.length) :
    Stream (received ++ [c]) (packets ++ [p]) [] := by
  obtain ⟨F, rfl, hF, hcur, hdata, hsize⟩ := h
  refine ⟨F ++ [cur ++ [p]], by simp, ?_, by simp, by simp [hdata, hc], ?_⟩
  · intro f hf
    rcases List.mem_append.mp hf with hf | hf
    · exact hF f hf
    · rw [List.mem_singleton.mp hf]
      exact ⟨cur, p, rfl, hcur, hp⟩
  · intro d hd
    rcases List.mem_append.mp hd with hd | hd
    · exact hsize d hd
    · rw [List.mem_singleton.mp hd, hc']

theorem framesFrom_whole (hcur : ∀ p ∈ cur, whole p = true) (before : List Packet) :
    framesFrom whole before cur = [] := by
  induction cur generalizing before with
  | nil => rfl
  | cons p cur ih =>
      rw [framesFrom, if_pos (hcur p List.mem_cons_self)]
      exact ih (fun q hq => hcur q (List.mem_cons_of_mem _ hq)) _

theorem commands_eq (h : Stream received packets cur) :
    received.map Command.data = commands packets := by
  obtain ⟨F, rfl, hF, hcur, hdata, -⟩ := h
  rw [hdata, commands, frames_flatten_append hF, frames, framesFrom_whole hcur, List.append_nil]

end Stream

/-! ## The invariant -/

/-- A command is being put together in `b`; once it has overrun the buffer only its length is
kept. -/
structure Filling (L : Layout) (s : UsbFifo) (held : List VbufId) (packets : List Packet)
    (b : VbufId) (cur : List Packet) : Prop where
  buf : s.buf = some b
  notNew : s.cmdIsNew = false
  pool : Pool L s (b :: held)
  stream : Stream s.received packets cur
  cmdLen : s.cmdLen = (commandBytes cur).length
  regaddr : s.cmdLen ≤ commandMsgLen → s.regaddr = L.bufAddr b + s.cmdLen
  data : s.cmdLen ≤ commandMsgLen →
    Memory.fetch s.mem (L.bufAddr b) s.cmdLen = commandBytes cur

/-- No command is being put together. -/
structure Idle (L : Layout) (s : UsbFifo) (held : List VbufId) (packets : List Packet) :
    Prop where
  isNew : s.cmdIsNew = true
  pool : Pool L s held
  stream : Stream s.received packets []

variable {held : List VbufId} {packets cur : List Packet} {p : Packet}

theorem Filling.cmdLen_mod (h : Filling L s held packets b cur) :
    s.cmdLen % usbEp4MaxPktSize = 0 := by
  obtain ⟨F, -, -, hcur, -, -⟩ := h.stream
  rw [h.cmdLen]
  clear h
  induction cur using List.reverseRecOn with
  | nil => rfl
  | append_singleton cur q ih =>
      have hq : q.len = 64 := of_decide_eq_true (hcur q (by simp))
      rw [commandBytes_concat, List.length_append, Packet.length_bytes, hq]
      have hrest := ih fun r hr => hcur r (List.mem_append_left _ hr)
      rw [usbEp4MaxPktSize] at hrest ⊢
      omega

/-- What holds between two calls. -/
def Assembling (L : Layout) (s : UsbFifo) (held : List VbufId) (packets : List Packet) : Prop :=
  Idle L s held packets ∨ ∃ b cur, Filling L s held packets b cur

/-- The length of the command before the next packet. -/
def UsbFifo.pendingLen (s : UsbFifo) : ℕ := if s.cmdIsNew then 0 else s.cmdLen

theorem beginCommand_filling (h : Assembling L s held packets)
    (hbegin : beginCommand s = some s') :
    (∃ b cur, Filling L s' held packets b cur) ∧ s'.mem = s.mem ∧ s'.received = s.received ∧
      s'.cmdLen = s.pendingLen := by
  rcases h with h | ⟨b, cur, h⟩
  · rw [beginCommand, if_pos h.isNew] at hbegin
    obtain ⟨⟨b, s₁⟩, hget, rfl⟩ := Option.map_eq_some_iff.mp hbegin
    have hpool := h.pool.getCommandBuf hget
    have hsame : s₁.mem = s.mem ∧ s₁.received = s.received := by
      obtain ⟨c, -, heq⟩ := Option.map_eq_some_iff.mp hget
      obtain ⟨-, rfl⟩ := Prod.mk.inj heq
      exact ⟨rfl, rfl⟩
    refine ⟨⟨b, [], ?_⟩, hsame.1, hsame.2, ?_⟩
    · refine ⟨rfl, rfl, hpool.congr rfl rfl, ?_, rfl, fun _ => hpool.bufAddr b, fun _ => rfl⟩
      rw [hsame.2]
      exact h.stream
    · rw [UsbFifo.pendingLen, if_pos h.isNew]
  · rw [beginCommand, h.notNew] at hbegin
    obtain rfl := Option.some.inj hbegin
    refine ⟨⟨b, cur, h⟩, rfl, rfl, ?_⟩
    rw [UsbFifo.pendingLen, h.notNew]
    rfl

/-- The copy of a packet that still fits. -/
theorem Filling.copied (h : Filling L s held packets b cur)
    (hfit : s.cmdLen + p.len ≤ commandMsgLen) :
    Memory.fetch (copyWords p.fifo (roundToWords p.len) s).mem (L.bufAddr b) (s.cmdLen + p.len) =
      commandBytes (cur ++ [p]) := by
  have hpre : s.cmdLen ≤ commandMsgLen := by omega
  rw [copyWords_eq, h.regaddr hpre, Memory.fetch_append, commandBytes_concat]
  congr 1
  · rw [Memory.fetch_store_outside (by omega), h.data hpre]
  · have hlen : p.len ≤ 4 * roundToWords p.len := (roundToWords_bounds p.len).1
    rw [Memory.fetch_store_take (by rwa [Memory.length_fetch]), Memory.take_fetch hlen]
    rfl

/-- The copy stays in the block of the buffer, padding included. -/
theorem Filling.copy_contained (h : Filling L s held packets b cur)
    (hfit : s.cmdLen + p.len ≤ commandMsgLen) {a : ℕ}
    (ha : (copyWords p.fifo (roundToWords p.len) s).mem a ≠ s.mem a) :
    L.bufAddr b ≤ a ∧ a < L.bufAddr b + commandMsgLen := by
  have hpre : s.cmdLen ≤ commandMsgLen := by omega
  rw [copyWords_eq, h.regaddr hpre] at ha
  have hblock := Memory.mem_block_of_store_ne ha
  rw [Memory.length_fetch] at hblock
  have hmod := h.cmdLen_mod
  have hwords : 4 * roundToWords p.len ≤ 4 * (128 - s.cmdLen / 4) := by
    apply roundToWords_le
    rw [usbEp4MaxPktSize] at hmod
    rw [commandMsgLen] at hfit
    omega
  rw [usbEp4MaxPktSize] at hmod
  rw [commandMsgLen] at hpre ⊢
  omega

/-- The packet leaves the command in its buffer, or only adds to the length of one that has
overrun it already, short of the wrap of the counter. -/
def Fits (s : UsbFifo) (p : Packet) : Prop :=
  (s.cmdIsNew = true → s.cmdQueue ≠ none) ∧
    (s.pendingLen + p.len ≤ commandMsgLen ∨ whole p = true ∧ s.pendingLen + p.len < 2 ^ 16)

instance decidableFits (s : UsbFifo) (p : Packet) : Decidable (Fits s p) :=
  inferInstanceAs (Decidable ((_ → _) ∧ (_ ∨ _ ∧ _)))

theorem takePacket_buf (p : Packet) (s : UsbFifo) (b : VbufId) :
    (takePacket p s b).buf = s.buf := by
  simp only [takePacket, finishCommand, copyWords_eq]
  split
  · rfl
  · split <;> rfl

theorem newlyReceived_of_eq (h : s'.received = s.received) : newlyReceived s s' = [] := by
  rw [newlyReceived, h, List.drop_length]
  rfl

theorem takePacket_overrun (h : Filling L s held packets b cur) (hp : whole p = true)
    (hover : commandMsgLen < s.cmdLen + p.len) (hwrap : s.cmdLen + p.len < 2 ^ 16) :
    Filling L (takePacket p s b) held (packets ++ [p]) b (cur ++ [p]) ∧
      (takePacket p s b).received = s.received ∧ (takePacket p s b).mem = s.mem := by
  have htake : takePacket p s b = { s with cmdLen := s.cmdLen + p.len } := by
    rw [takePacket, Nat.mod_eq_of_lt hwrap]
    exact if_pos (by rw [h.pool.bufSize]; exact hover)
  rw [htake]
  refine ⟨⟨h.buf, h.notNew, h.pool.congr rfl rfl, h.stream.more hp, ?_, ?_, ?_⟩, rfl, rfl⟩
  · change s.cmdLen + p.len = _
    rw [commandBytes_concat, List.length_append, Packet.length_bytes, h.cmdLen]
  · intro hle
    exact absurd hle (by exact Nat.not_le.mpr hover)
  · intro hle
    exact absurd hle (by exact Nat.not_le.mpr hover)

/-- A packet that fits is copied behind the ones before. -/
theorem takePacket_fits (h : Filling L s held packets b cur)
    (hfit : s.cmdLen + p.len ≤ commandMsgLen) :
    takePacket p s b =
      let s' := { copyWords p.fifo (roundToWords p.len) s with cmdLen := s.cmdLen + p.len }
      if p.len < usbEp4MaxPktSize then finishCommand s' b else s' := by
  have hmod : (s.cmdLen + p.len) % 2 ^ 16 = s.cmdLen + p.len := by
    apply Nat.mod_eq_of_lt
    rw [commandMsgLen] at hfit
    omega
  rw [takePacket, hmod, copyWords_eq, copyWords_eq]
  exact if_neg (by rw [h.pool.bufSize]; exact Nat.not_lt.mpr hfit)

theorem takePacket_whole (h : Filling L s held packets b cur) (hp : whole p = true)
    (hfit : s.cmdLen + p.len ≤ commandMsgLen) :
    Filling L (takePacket p s b) held (packets ++ [p]) b (cur ++ [p]) ∧
      (takePacket p s b).received = s.received ∧
      (takePacket p s b).mem = (copyWords p.fifo (roundToWords p.len) s).mem := by
  have hlen : p.len = usbEp4MaxPktSize := of_decide_eq_true hp
  have hdata := h.copied hfit
  have hregaddr : (copyWords p.fifo (roundToWords p.len) s).regaddr =
      L.bufAddr b + (s.cmdLen + p.len) := by
    rw [copyWords_eq, h.regaddr (by omega), hlen, ← Nat.add_assoc]
    exact congrArg (L.bufAddr b + s.cmdLen + ·) roundToWords_whole
  have htake := takePacket_fits h hfit
  rw [if_neg (by omega)] at htake
  rw [htake]
  refine ⟨?_, by rw [copyWords_eq], rfl⟩
  constructor
  · change (copyWords _ _ s).buf = some b
    rw [copyWords_eq]
    exact h.buf
  · change (copyWords _ _ s).cmdIsNew = false
    rw [copyWords_eq]
    exact h.notNew
  · apply h.pool.congr
    · rw [copyWords_eq]
    · rw [copyWords_eq]
  · change Stream (copyWords _ _ s).received _ _
    rw [copyWords_eq]
    exact h.stream.more hp
  · change s.cmdLen + p.len = _
    rw [commandBytes_concat, List.length_append, Packet.length_bytes, h.cmdLen]
  · exact fun _ => hregaddr
  · exact fun _ => hdata

theorem takePacket_last (h : Filling L s held packets b cur) (hp : whole p = false)
    (hlen : p.len ≤ usbEp4MaxPktSize) (hfit : s.cmdLen + p.len ≤ commandMsgLen) :
    Idle L (takePacket p s b) (newlyReceived s (takePacket p s b) ++ held) (packets ++ [p]) ∧
      (takePacket p s b).mem = (copyWords p.fifo (roundToWords p.len) s).mem := by
  have hshort : p.len < usbEp4MaxPktSize :=
    lt_of_le_of_ne hlen (of_decide_eq_false hp)
  have hdata := h.copied hfit
  have haddr := h.pool.bufAddr b
  have htake := takePacket_fits h hfit
  rw [if_pos hshort, copyWords_eq] at htake
  rw [copyWords_eq] at hdata ⊢
  have hreceived : (takePacket p s b).received =
      s.received ++ [⟨b, s.cmdLen + p.len, commandBytes (cur ++ [p])⟩] := by
    rw [htake, ← hdata, ← haddr]
    simp [finishCommand]
  have hpool : Pool L (takePacket p s b) (b :: held) := by
    have hfinished := h.pool.modVbuf (b := b) (f := fun v =>
      { v with
        dataOffset := 0
        dataSize := s.cmdLen + p.len
        control := 0
        nextBuf := none
        bufLength := s.cmdLen + p.len }) List.mem_cons_self rfl rfl rfl
    rw [htake]
    exact hfinished.congr rfl rfl
  have hnew : newlyReceived s (takePacket p s b) = [b] := by
    rw [newlyReceived, hreceived, List.drop_left]
    rfl
  rw [hnew]
  refine ⟨⟨?_, hpool, ?_⟩, ?_⟩
  · rw [htake]
    rfl
  · rw [hreceived]
    apply h.stream.last hp rfl
    rw [commandBytes_concat, List.length_append, Packet.length_bytes, h.cmdLen]
  · rw [htake]
    rfl

theorem takePacket_assembling (h : Filling L s held packets b cur)
    (hlen : p.len ≤ usbEp4MaxPktSize)
    (hfits : s.cmdLen + p.len ≤ commandMsgLen ∨ whole p = true ∧ s.cmdLen + p.len < 2 ^ 16) :
    Assembling L (takePacket p s b) (newlyReceived s (takePacket p s b) ++ held)
        (packets ++ [p]) ∧
      ∀ a, (takePacket p s b).mem a ≠ s.mem a →
        L.bufAddr b ≤ a ∧ a < L.bufAddr b + commandMsgLen := by
  by_cases hfit : s.cmdLen + p.len ≤ commandMsgLen
  · cases hp : whole p with
    | true =>
        obtain ⟨hfill, hreceived, hmem⟩ := takePacket_whole h hp hfit
        rw [newlyReceived_of_eq hreceived, hmem]
        exact ⟨.inr ⟨b, _, hfill⟩, fun a => h.copy_contained hfit⟩
    | false =>
        obtain ⟨hidle, hmem⟩ := takePacket_last h hp hlen hfit
        rw [hmem]
        exact ⟨.inl hidle, fun a => h.copy_contained hfit⟩
  · obtain ⟨hp, hwrap⟩ := hfits.resolve_left hfit
    obtain ⟨hfill, hreceived, hmem⟩ := takePacket_overrun h hp (Nat.lt_of_not_le hfit) hwrap
    rw [newlyReceived_of_eq hreceived, hmem]
    exact ⟨.inr ⟨b, _, hfill⟩, fun a ha => absurd rfl ha⟩

/-- A packet keeps the invariant, and writes into the buffer of its command only. -/
theorem usbRegOutPatch_assembling (h : Assembling L s held packets) (hfits : Fits s p)
    (hout : usbRegOutPatch p s = some s') :
    Assembling L s' (newlyReceived s s' ++ held) (packets ++ [p]) ∧
      ∀ a, s'.mem a ≠ s.mem a →
        ∃ b, s'.buf = some b ∧ L.bufAddr b ≤ a ∧ a < L.bufAddr b + commandMsgLen := by
  rw [usbRegOutPatch] at hout
  split at hout
  · cases hout
  rename_i hlen
  obtain ⟨s₁, hbegin, rfl⟩ := Option.map_eq_some_iff.mp hout
  obtain ⟨⟨b, cur, hfill⟩, hmem, hreceived, hcmdLen⟩ := beginCommand_filling h hbegin
  rw [Fits, ← hcmdLen] at hfits
  have hnew : newlyReceived s (takePacket p s₁ b) = newlyReceived s₁ (takePacket p s₁ b) := by
    rw [newlyReceived, newlyReceived, hreceived]
  obtain ⟨hassembling, hmem'⟩ := takePacket_assembling hfill (Nat.le_of_not_lt hlen) hfits.2
  simp only [hfill.buf]
  rw [hnew, ← hmem]
  exact ⟨hassembling, fun a ha => ⟨b, (takePacket_buf ..).trans hfill.buf, hmem' a ha⟩⟩

/-! ## Buffers in the hands of others -/

theorem Assembling.pool (h : Assembling L s held packets) : Pool L s (s.filling ++ held) := by
  rcases h with h | ⟨b, cur, h⟩
  · rw [UsbFifo.filling, if_pos h.isNew]
    exact h.pool
  · rw [UsbFifo.filling, h.notNew, h.buf]
    exact h.pool

theorem Assembling.stream (h : Assembling L s held packets) :
    ∃ cur, Stream s.received packets cur := by
  rcases h with h | ⟨b, cur, h⟩
  · exact ⟨[], h.stream⟩
  · exact ⟨cur, h.stream⟩

/-- A buffer that comes back leaves all but the queue as it was. -/
theorem hifusbReturnRecvBuf_eq (s : UsbFifo) (b : VbufId) :
    hifusbReturnRecvBuf s b =
      { s with vbuf := (hifusbReturnRecvBuf s b).vbuf, cmdQueue := some b } := by
  unfold hifusbReturnRecvBuf
  split <;> rfl

theorem Filling.ne_of_held {c : VbufId} (h : Filling L s held packets b cur) (hc : c ∈ held) :
    b ≠ c :=
  (ne_of_mem_of_not_mem hc (List.nodup_cons.mp h.pool.nodup).1).symm

theorem returnRecvBuf_assembling {c : VbufId} (h : Assembling L s held packets) (hc : c ∈ held) :
    Assembling L (hifusbReturnRecvBuf s c) (held.erase c) packets := by
  have heq := hifusbReturnRecvBuf_eq s c
  rcases h with h | ⟨b, cur, h⟩
  · have hpool := h.pool.returnRecvBuf hc
    rw [heq] at hpool ⊢
    exact .inl ⟨h.isNew, hpool, h.stream⟩
  · have hpool := h.pool.returnRecvBuf (List.mem_cons_of_mem b hc)
    rw [List.erase_cons_tail (by simpa using h.ne_of_held hc)] at hpool
    rw [heq] at hpool ⊢
    exact .inr ⟨b, cur, h.buf, h.notNew, hpool, h.stream, h.cmdLen, h.regaddr, h.data⟩

theorem useBuf_assembling {c : VbufId} (h : Assembling L s held packets) (hc : c ∈ held)
    {dataOffset dataSize : ℕ} {data : List (BitVec 8)} (hdata : data.length ≤ (s.vbuf c).bufSize) :
    Assembling L (useBuf s c dataOffset dataSize data) held packets := by
  have hused : ∀ {out : List VbufId}, Pool L s out → c ∈ out →
      Pool L (useBuf s c dataOffset dataSize data) out := by
    intro out hpool hout
    have hmod := hpool.modVbuf (f := fun v =>
      { v with dataOffset := dataOffset, dataSize := dataSize }) hout rfl rfl
      (hpool.unlinked c hout)
    exact hmod.congr rfl rfl
  rcases h with h | ⟨b, cur, h⟩
  · exact .inl ⟨h.isNew, hused h.pool hc, h.stream⟩
  · refine .inr ⟨b, cur, h.buf, h.notNew, hused h.pool (List.mem_cons_of_mem b hc), h.stream,
      h.cmdLen, h.regaddr, ?_⟩
    intro hle
    have hapart := L.apart b c (h.pool.lt_credits List.mem_cons_self)
      (h.pool.lt_credits (List.mem_cons_of_mem b hc)) (h.ne_of_held hc)
    rw [h.pool.bufSize] at hdata
    change Memory.fetch (Memory.store s.mem (s.vbuf c).bufAddr data) _ s.cmdLen = _
    rw [h.pool.bufAddr, Memory.fetch_store_outside, h.data hle]
    change s.cmdLen ≤ _ at hle
    omega

/-! ## Runs -/

variable {m : Ep4}

/-- No command overruns its buffer and ends, or fills the counter, and each finds a buffer. -/
def Fitting (m : Ep4) : Event → Prop
  | .packet p => Fits m.usb p
  | _ => True

instance decidableFitting (m : Ep4) (e : Event) : Decidable (Fitting m e) := by
  cases e <;> unfold Fitting <;> infer_instance

theorem configCommandPipe_eq (bufs : List VbufId) (s : UsbFifo) :
    configCommandPipe bufs s =
      { s with
        vbuf := (configCommandPipe bufs s).vbuf
        cmdQueue := (configCommandPipe bufs s).cmdQueue } := by
  induction bufs generalizing s with
  | nil => rfl
  | cons b bufs ih =>
      rw [configCommandPipe, ih, hifusbReturnRecvBuf_eq]

theorem attach_assembling (L : Layout) (mem : ℕ → BitVec 8) :
    Assembling L (attach L mem).usb (attach L mem).held (attach L mem).packets := by
  have hblank : Pool L (blankFifo L mem) (List.range L.credits ++ []) :=
    ⟨fun _ => rfl, fun _ => rfl, ⟨[], rfl, by simp⟩, fun _ _ => rfl⟩
  have hpool := pool_configCommandPipe (List.range L.credits) hblank
    (by simpa using List.nodup_range)
  have heq := configCommandPipe_eq (List.range L.credits) (blankFifo L mem)
  refine .inl ⟨?_, hpool, ?_⟩
  · rw [attach, heq]
    rfl
  · rw [attach, heq]
    exact ⟨[], rfl, by simp, by simp, rfl, by simp [blankFifo]⟩

theorem assembling_of_reachable (h : (ep4 L).ReachableWhere Fitting m) :
    Assembling L m.usb m.held m.packets := by
  refine h.invariant (P := fun m => Assembling L m.usb m.held m.packets) ?_ ?_
  · rintro _ ⟨mem, rfl⟩
    exact attach_assembling L mem
  · intro m e m' hm hok hstep
    cases e with
    | packet p =>
        obtain ⟨usb, hout, rfl⟩ := Option.map_eq_some_iff.mp hstep
        exact (usbRegOutPatch_assembling hm hok hout).1
    | useBuf b dataOffset dataSize data =>
        simp only [ep4, Machine.ofPartial_step, step] at hstep
        split at hstep
        · rename_i hb
          obtain rfl := Option.some.inj hstep
          exact useBuf_assembling hm hb.1 hb.2
        · cases hstep
    | returnRecvBuf b =>
        simp only [ep4, Machine.ofPartial_step, step] at hstep
        split at hstep
        · rename_i hb
          obtain rfl := Option.some.inj hstep
          exact returnRecvBuf_assembling hm hb
        · cases hstep

/-- The commands of the stream have been handed over, one call for each and in order; every
buffer is queued, being filled or in the hands of who was called; and a packet writes into the
buffer of its command only. -/
structure Reassembled (L : Layout) (m : Ep4) : Prop where
  delivered : m.usb.received.map Command.data = commands m.packets
  dataSize : ∀ c ∈ m.usb.received, c.dataSize = c.data.length
  kept : ∃ q, Chain m.usb.links m.usb.cmdQueue q ∧
    (q ++ (m.usb.filling ++ m.held)).Perm (List.range L.credits)
  contained : ∀ p m', Fitting m (.packet p) → step (.packet p) m = some m' →
    ∀ a, m'.usb.mem a ≠ m.usb.mem a →
      ∃ b, m'.usb.buf = some b ∧ L.bufAddr b ≤ a ∧ a < L.bufAddr b + commandMsgLen

theorem commands_reassembled (h : (ep4 L).ReachableWhere Fitting m) : Reassembled L m := by
  have hm := assembling_of_reachable h
  obtain ⟨cur, hstream⟩ := hm.stream
  constructor
  · exact hstream.commands_eq
  · obtain ⟨-, -, -, -, -, hsize⟩ := hstream
    exact hsize
  · exact hm.pool.queued
  · intro p m' hfits hstep
    obtain ⟨usb, hout, rfl⟩ := Option.map_eq_some_iff.mp hstep
    exact (usbRegOutPatch_assembling hm hfits hout).2

end

/-- Two buffers side by side. -/
def twoBuffers : Layout where
  credits := 2
  bufAddr := fun b => commandMsgLen * b
  apart := by
    intro a b ha hb hne
    rw [commandMsgLen]
    omega

def countingPacket (len : ℕ) : Packet := ⟨len, fun i => BitVec.ofNat 8 i⟩

def blankMem : ℕ → BitVec 8 := fun _ => 0

theorem commands_reassembled_run :
    ∃ m, m.usb.received.map Command.dataSize = [67, 0] ∧ m.held = [1] ∧
      Reassembled twoBuffers m := by
  obtain ⟨m, steps, hreceived, hheld⟩ := Machine.exists_of_runWhere (ep4 twoBuffers).Init step
    Fitting
    (P := fun m : Ep4 => m.usb.received.map Command.dataSize = [67, 0] ∧ m.held = [1])
    (s := attach twoBuffers blankMem)
    [.packet (countingPacket 64), .packet (countingPacket 3), .returnRecvBuf 1,
      .packet (countingPacket 0)] (by decide +kernel)
  exact ⟨m, hreceived, hheld, commands_reassembled ⟨_, ⟨_, rfl⟩, steps⟩⟩

/-- The command after one that was too long is never handed over. -/
theorem dropped_command_swallows_next :
    ¬ ∀ L m, (ep4 L).Reachable m →
      m.usb.received.map Command.data =
        (commands m.packets).filter fun c => c.length ≤ commandMsgLen := by
  intro h
  obtain ⟨m, steps, hm⟩ := Machine.exists_of_runWhere (ep4 twoBuffers).Init step
    (fun _ _ => True)
    (P := fun m : Ep4 => m.usb.received.map Command.data = [] ∧
      (commands m.packets).filter (fun c => c.length ≤ commandMsgLen) ≠ [])
    (s := attach twoBuffers blankMem)
    (.replicate 8 (.packet (countingPacket 64)) ++
      [.packet (countingPacket 1), .packet (countingPacket 1)]) (by decide +kernel)
  exact hm.2 ((h _ m ⟨_, ⟨_, rfl⟩, steps⟩).symm.trans hm.1)

end Ath9kHtc.Usb
