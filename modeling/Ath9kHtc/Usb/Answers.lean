import Ath9kHtc.Usb.Requests

/-!
# The host gets its answers

A request is answered in the task that reads it, but for a download, whose data are still to come,
and for three cases in which the code neither stalls nor finishes.
-/

namespace Ath9kHtc.Usb

variable {T : Tables} {s s' : Ep0} {p : SetupPacket} {orderly : Prop}

/-- The standard requests that get no answer: an interface that is refused, and the test mode in
which the code does nothing. -/
def SilentStandard (config : List (BitVec 16)) (s : Ep0) (p : SetupPacket) : Prop :=
  p.request = 11 ∧
      ¬(s.configured = true ∧ p.index = 0 ∧ mLowByte p.value = mLowByte (config.getD 6 0)) ∨
    p.request = 3 ∧ p.value = 2 ∧ p.index >>> 8 = 5

instance (config : List (BitVec 16)) (s : Ep0) (p : SetupPacket) :
    Decidable (SilentStandard config s p) := inferInstanceAs (Decidable (_ ∨ _))

/-- The vendor requests that get none: a download, and what is no request at all. -/
def SilentVendor (p : SetupPacket) : Prop :=
  p.request ≠ cUsbReqFlashRead ∧ p.request ≠ cUsbReqFlashReadComp ∧
    p.request ≠ cUsbReqDownloadComp

instance (p : SetupPacket) : Decidable (SilentVendor p) := inferInstanceAs (Decidable (_ ∧ _))

def Silent (T : Tables) (s : Ep0) (p : SetupPacket) : Prop :=
  p.type = 0 ∧ SilentStandard (T.config s.highSpeed) s p ∨ p.type = 0x40 ∧ SilentVendor p

instance (T : Tables) (s : Ep0) (p : SetupPacket) : Decidable (Silent T s p) :=
  inferInstanceAs (Decidable (_ ∨ _))

/-- What was written stays, and nothing is written or left to write just where a condition
holds. -/
structure Answers (s : Ep0) (r : Bool × Ep0) (silent : Prop) : Prop where
  kept : s.writes <+: r.2.writes
  silent : (r.1 = true ∧ r.2.eUsbCxFinishAction = .idle ∧ r.2.writes = s.writes) ↔ silent

theorem Answers.of_done {r : Bool × Ep0} {silent : Prop} (hkept : s.writes <+: r.2.writes)
    (hdone : r.2.eUsbCxFinishAction = .done) (hsilent : ¬silent) : Answers s r silent where
  kept := hkept
  silent := ⟨fun h => absurd (hdone.symm.trans h.2.1) (by decide), fun h => absurd h hsilent⟩

theorem Answers.of_written {r : Bool × Ep0} {w : Ep0Write} (h : r.2.writes = s.writes ++ [w]) :
    Answers s r False where
  kept := by
    rw [h]
    exact List.prefix_append _ _
  silent := ⟨fun hs => by simpa using h.symm.trans hs.2.2, False.elim⟩

theorem Answers.of_refused {silent : Prop} (hsilent : ¬silent) : Answers s (false, s) silent where
  kept := List.prefix_rfl
  silent := ⟨fun h => absurd h.1 Bool.false_ne_true, fun h => absurd h hsilent⟩

theorem answers_clearFeature : Answers s (bClearFeature p s) False := by
  rw [bClearFeature]
  split
  · exact .of_refused id
  · split
    · exact .of_refused id
    · exact .of_done List.prefix_rfl rfl id

theorem answers_setTestMode (h : s.eUsbCxFinishAction = .idle) :
    Answers s (setTestMode p s) (p.index >>> 8 = 5) := by
  have hne {n : ℕ} (hn : (p.index >>> 8).toNat = n) (hn5 : n ≠ 5) : p.index >>> 8 ≠ 5 := by
    intro h5
    rw [h5] at hn
    exact hn5 hn.symm
  rw [setTestMode]
  split
  · exact .of_done (List.prefix_append _ _) rfl (hne ‹_› (by decide))
  · exact .of_done (List.prefix_append _ _) rfl (hne ‹_› (by decide))
  · exact .of_done (List.prefix_append _ _) rfl (hne ‹_› (by decide))
  · refine ⟨List.prefix_append _ _, ⟨?_, fun h5 => absurd h5 (hne ‹_› (by decide))⟩⟩
    intro hw
    exact absurd hw.2.2 (by simp)
  · rename_i h5
    exact ⟨List.prefix_rfl, ⟨fun _ => BitVec.eq_of_toNat_eq h5, fun _ => ⟨rfl, h, rfl⟩⟩⟩
  · exact .of_refused (fun h5 => by simp_all)

theorem answers_setFeature (h : s.eUsbCxFinishAction = .idle) :
    Answers s (bSetFeature p s) (p.value = 2 ∧ p.index >>> 8 = 5) := by
  have hne {n : ℕ} (hn : p.value.toNat = n) (hn2 : n ≠ 2) :
      ¬(p.value = 2 ∧ p.index >>> 8 = 5) := by
    rintro ⟨h2, -⟩
    rw [h2] at hn
    exact hn2 hn.symm
  have hr : Answers s (setFeature p s) (p.value = 2 ∧ p.index >>> 8 = 5) := by
    rw [setFeature]
    split
    · split
      · exact .of_done List.prefix_rfl rfl (hne ‹_› (by decide))
      · exact .of_refused (hne ‹_› (by decide))
    · exact .of_done List.prefix_rfl rfl (hne ‹_› (by decide))
    · rename_i h2
      have hv : p.value = 2 := BitVec.eq_of_toNat_eq h2
      simp only [hv, true_and]
      exact answers_setTestMode h
    · rename_i h2
      exact .of_refused (fun hv => h2 (congrArg BitVec.toNat hv.1))
  rw [bSetFeature]
  split
  · rename_i hdone
    refine .of_done hr.kept hdone.2 (fun hs => ?_)
    exact absurd (hdone.2.symm.trans (hr.silent.mpr hs).2.1) (by decide)
  · exact hr

theorem answers_setAddress : Answers s (bSetAddress p s) False := by
  rw [bSetAddress]
  split
  · exact .of_refused id
  · exact .of_done List.prefix_rfl rfl id

theorem answers_setConfiguration : Answers s (true, (bSetConfigurationPatch p s).2) False := by
  have hwrites : (bSetConfiguration p s).2.writes = s.writes := by
    rw [bSetConfiguration]
    split
    · rfl
    · split <;> rfl
  refine .of_done ?_ rfl id
  show s.writes <+: (bSetConfiguration p s).2.writes
  exact hwrites.symm ▸ List.prefix_rfl

theorem answers_getInterface : Answers s (bGetInterface p s) False := by
  rw [bGetInterface]
  split
  · exact .of_refused id
  · split
    · split
      · exact .of_refused id
      · exact .of_done (List.prefix_append _ _) rfl id
    · exact .of_refused id

theorem answers_setInterface (h : s.eUsbCxFinishAction = .idle) :
    Answers s (true, (bSetInterface p s).2)
      ¬(s.configured = true ∧ p.index = 0 ∧
        mLowByte p.value = mLowByte (s.u8ConfigDescriptorEX.getD 6 0)) := by
  rw [bSetInterface]
  split
  · rename_i hset
    exact .of_done List.prefix_rfl rfl (fun hs => hs hset)
  · rename_i hset
    exact ⟨List.prefix_rfl, ⟨fun _ => hset, fun _ => ⟨rfl, h, rfl⟩⟩⟩

theorem answers_getDescriptor (hT : T.Sound) (h : Serving T orderly s)
    (hchirp : s.usbChirpFinish = true)
    {r : Bool × Ep0} (hr : bGetDescriptorPatch T p s = some r) : Answers s r False := by
  rw [bGetDescriptorPatch_eq hT (h.enumerated hchirp)] at hr
  split at hr
  · obtain rfl := Option.some.inj hr
    exact .of_refused id
  · rename_i table len hlookup
    obtain ⟨s₁, hs₁, rfl⟩ := Option.map_eq_some_iff.mp hr
    obtain ⟨x, hx⟩ := (left_begin (hT.lookup_le hlookup) p s).writes hs₁
    have hwrites : (resume s₁).writes = s.writes ++ [.data x] := by
      rw [resume]
      split <;> exact hx
    exact .of_written hwrites

theorem answers_standardCommand (hT : T.Sound) (h : Serving T orderly s)
    (hchirp : s.usbChirpFinish = true) (hidle : s.eUsbCxFinishAction = .idle) {r : Bool × Ep0}
    (hr : bStandardCommandPatch T p s = some r) :
    Answers s r (SilentStandard s.u8ConfigDescriptorEX s p) := by
  have hother {n : ℕ} (hn : p.request.toNat = n) (h11 : n ≠ 11) (h3 : n ≠ 3) :
      SilentStandard s.u8ConfigDescriptorEX s p ↔ False := by
    refine ⟨?_, False.elim⟩
    rintro (⟨heq, -⟩ | ⟨heq, -⟩)
    · rw [heq] at hn
      exact h11 hn.symm
    · rw [heq] at hn
      exact h3 hn.symm
  rw [bStandardCommandPatch] at hr
  split at hr
  · obtain rfl := Option.some.inj hr
    rw [hother (congrArg BitVec.toNat ‹p.request = 9›) (by decide) (by decide)]
    exact answers_setConfiguration
  · rw [bStandardCommand] at hr
    split at hr
    · obtain ⟨status, -, rfl⟩ := Option.map_eq_some_iff.mp hr
      rw [hother ‹_› (by decide) (by decide)]
      exact .of_done (List.prefix_append _ _) rfl id
    · obtain rfl := Option.some.inj hr
      rw [hother ‹_› (by decide) (by decide)]
      exact answers_clearFeature
    · obtain rfl := Option.some.inj hr
      have h3 : p.request = 3 := BitVec.eq_of_toNat_eq ‹_›
      have h11 : ¬p.request = 11 := by
        rw [h3]
        decide
      rw [SilentStandard, or_iff_right (fun h => h11 h.1), and_iff_right h3]
      exact answers_setFeature hidle
    · obtain rfl := Option.some.inj hr
      rw [hother ‹_› (by decide) (by decide)]
      exact answers_setAddress
    · rw [hother ‹_› (by decide) (by decide)]
      exact answers_getDescriptor hT h hchirp hr
    · obtain rfl := Option.some.inj hr
      rw [hother ‹_› (by decide) (by decide)]
      exact .of_done (List.prefix_append _ _) rfl id
    · obtain rfl := Option.some.inj hr
      rw [hother ‹_› (by decide) (by decide)]
      exact answers_setConfiguration
    · obtain rfl := Option.some.inj hr
      rw [hother ‹_› (by decide) (by decide)]
      exact answers_getInterface
    · obtain rfl := Option.some.inj hr
      have h11 : p.request = 11 := BitVec.eq_of_toNat_eq ‹_›
      have h3 : ¬p.request = 3 := by
        rw [h11]
        decide
      rw [SilentStandard, or_iff_left (fun h => h3 h.1), and_iff_right h11]
      exact answers_setInterface hidle
    · obtain rfl := Option.some.inj hr
      rename_i h3 _ _ _ _ _ h11
      refine .of_refused ?_
      rintro (⟨heq, -⟩ | ⟨heq, -⟩)
      · exact h11 (congrArg BitVec.toNat heq)
      · exact h3 (congrArg BitVec.toNat heq)

theorem configured_setupDescriptors (T : Tables) (s : Ep0) :
    (setupDescriptors T s).configured = s.configured := by
  rw [setupDescriptors]
  split <;> rfl

theorem exists_finishTask (s : Ep0) :
    ∃ ws, (finishTask s).writes = s.writes ++ ws ∧ (ws = [] ↔ s.eUsbCxFinishAction = .idle) := by
  rw [finishTask]
  cases s.eUsbCxFinishAction with
  | idle => exact ⟨[], (List.append_nil _).symm, by simp⟩
  | done => exact ⟨[.cxConfigStatus 0x01], rfl, by simp⟩
  | stall => exact ⟨[.cxConfigStatus 0x04], rfl, by simp⟩

/-- What the host has been sent at the end of the task. -/
theorem written_finishTask {silent : Prop} (hkept : s.writes <+: s'.writes)
    (hsilent : (s'.eUsbCxFinishAction = .idle ∧ s'.writes = s.writes) ↔ silent) :
    s.writes <+: (finishTask s').writes ∧ ((finishTask s').writes = s.writes ↔ silent) := by
  obtain ⟨ws, hws⟩ := hkept
  obtain ⟨ws', hfinish, hnil⟩ := exists_finishTask s'
  rw [hfinish, ← hws, List.append_assoc]
  refine ⟨List.prefix_append _ _, ?_⟩
  rw [List.append_right_eq_self, List.append_eq_nil_iff, hnil, ← hsilent, ← hws,
    List.append_right_eq_self]
  tauto

theorem Answers.finished {r : Bool × Ep0} {silent : Prop} (h : Answers s r silent) :
    s.writes <+: (finishTask (if r.1 then r.2 else r.2.finish .stall)).writes ∧
      ((finishTask (if r.1 then r.2 else r.2.finish .stall)).writes = s.writes ↔ silent) := by
  have hwrites : (if r.1 then r.2 else r.2.finish .stall).writes = r.2.writes := by
    split <;> rfl
  have hidle : (if r.1 then r.2 else r.2.finish .stall).eUsbCxFinishAction = .idle ↔
      r.1 = true ∧ r.2.eUsbCxFinishAction = .idle := by
    split
    · rename_i hr
      exact (and_iff_right hr).symm
    · rename_i hr
      exact ⟨(by intro hs; cases hs), fun hs => absurd hs.1 hr⟩
  refine written_finishTask ?_ ?_
  · rw [hwrites]
    exact h.kept
  · rw [hidle, hwrites, ← h.silent, and_assoc]

/-- What a vendor request writes by itself. -/
theorem vendorCommand_writes (hidle : s.eUsbCxFinishAction = .idle)
    (hs : vendorCommand T p s = some s') :
    s.writes <+: s'.writes ∧
      ((s'.eUsbCxFinishAction = .idle ∧ s'.writes = s.writes) ↔ SilentVendor p) := by
  have hwritten : ∀ ws, ¬SilentVendor p → s'.writes = s.writes ++ ws ++ [.cxConfigStatus 0x01] →
      s.writes <+: s'.writes ∧
        ((s'.eUsbCxFinishAction = .idle ∧ s'.writes = s.writes) ↔ SilentVendor p) := by
    intro ws hp hw
    rw [hw, List.append_assoc]
    refine ⟨List.prefix_append _ _, ⟨fun h => ?_, fun h => absurd h hp⟩⟩
    exact absurd h.2 (by simp)
  have hnothing : SilentVendor p → s'.writes = s.writes → s'.eUsbCxFinishAction = .idle →
      s.writes <+: s'.writes ∧
        ((s'.eUsbCxFinishAction = .idle ∧ s'.writes = s.writes) ↔ SilentVendor p) := by
    intro hp hw hidle'
    rw [hw]
    exact ⟨List.prefix_rfl, ⟨fun _ => hp, fun _ => ⟨hidle', rfl⟩⟩⟩
  rw [vendorCommand] at hs
  split at hs
  · rename_i hread
    obtain ⟨words, -, rfl⟩ := Option.map_eq_some_iff.mp hs
    exact hwritten _ (fun hp => hp.1 hread) rfl
  rename_i hread
  split at hs
  · rename_i hcomp
    obtain rfl := Option.some.inj hs
    exact hwritten [.data (wordBytes (T.flash 0x0004))] (fun hp => hp.2.1 hcomp) (by simp)
  rename_i hcomp
  split at hs
  · rename_i hdownload
    obtain rfl := Option.some.inj hs
    refine hnothing ?_ rfl hidle
    rw [SilentVendor, hdownload]
    decide
  split at hs
  · rename_i hdone
    obtain rfl := Option.some.inj hs
    exact hwritten [.data [0]] (fun hp => hp.2.2 hdone) (by simp [completeDownload])
  · rename_i hdone
    obtain rfl := Option.some.inj hs
    exact hnothing ⟨hread, hcomp, hdone⟩ rfl hidle

end Ath9kHtc.Usb
