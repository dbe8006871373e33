import Mathlib.Data.List.Induction

/-!
# Dispatching commands

`wmi_svc.c`: the dispatch tables that were registered, and the handler a message is given to.  The
target is big-endian, so the fields of a header are read as they are sent.
-/

universe u v

namespace Ath9kHtc.Wmi

abbrev Byte := BitVec 8

abbrev TableId := ℕ

section

variable {Handler : Type u} {Context : Type v}

/-- `WMI_DISPATCH_ENTRY` -/
structure DispatchEntry (Handler : Type u) where
  pCmdHandler : Option Handler
  cmdId : BitVec 16
  checkLength : ℕ

/-- What is filled in of a `WMI_DISPATCH_TABLE` before it is registered. -/
structure Table (Handler : Type u) (Context : Type v) where
  pContext : Context
  pTable : List (DispatchEntry Handler)

/-- `WMI_DISPATCH_TABLE` -/
structure DispatchTable (Handler : Type u) (Context : Type v) extends Table Handler Context where
  pNext : Option TableId := none

/-- The dispatch tables in memory, and the list of those registered in `WMI_SVC_CONTEXT`. -/
structure Service (Handler : Type u) (Context : Type v) where
  tables : List (DispatchTable Handler Context) := []
  pDispatchHead : Option TableId := none
  pDispatchTail : Option TableId := none

/-- `_WMI_RegisterDispatchTable` -/
def wmiRegisterDispatchTable (pDispatchTable : TableId) (pWMI : Service Handler Context) :
    Option (Service Handler Context) :=
  match pWMI.pDispatchHead with
  | none => some { pWMI with
      pDispatchHead := some pDispatchTable
      pDispatchTail := some pDispatchTable }
  | some _ => pWMI.pDispatchTail.map fun tail => { pWMI with
      tables := pWMI.tables.modify tail fun t => { t with pNext := some pDispatchTable }
      pDispatchTail := some pDispatchTable }

/-- A table is put into zeroed memory, filled in and registered, as `tgt_hif_htc_wmi_init` does. -/
def addTable (pWMI : Service Handler Context) (t : Table Handler Context) :
    Option (Service Handler Context) :=
  wmiRegisterDispatchTable pWMI.tables.length { pWMI with tables := pWMI.tables ++ [{ t with }] }

/-- The tables are registered one after another. -/
def addTables (ts : List (Table Handler Context)) : Option (Service Handler Context) :=
  ts.foldlM addTable {}

/-! ## Receiving a message -/

/-- The loop over the entries of a table; `pCmdHandler` is the handler found so far. -/
def scanEntries (cmd : BitVec 16) (length : ℕ) :
    List (DispatchEntry Handler) → Option Handler → Option Handler
  | [], pCmdHandler => pCmdHandler
  | e :: es, pCmdHandler =>
    if e.cmdId = cmd then
      if e.checkLength ≠ 0 ∧ length < e.checkLength then none else e.pCmdHandler
    else scanEntries cmd length es pCmdHandler

/-- The loop over the tables, for `n` of them at most: the handler that was found, and the context
of the last table looked at. -/
def scanTables (pWMI : Service Handler Context) (cmd : BitVec 16) (length : ℕ) :
    ℕ → Option TableId → Option Handler → Option Context → Option (Option Handler × Option Context)
  | _, none, pCmdHandler, pContext => some (pCmdHandler, pContext)
  | 0, some _, _, _ => none
  | n + 1, some id, pCmdHandler, _ => do
    let t ← pWMI.tables[id]?
    match scanEntries cmd length t.pTable pCmdHandler with
    | some h => some (some h, some t.pContext)
    | none => scanTables pWMI cmd length n t.pNext none (some t.pContext)

/-- What is done with a message. -/
inductive Action (Handler : Type u) (Context : Type v)
  | call (pCmdHandler : Handler) (pContext : Context) (cmd seq : BitVec 16)
      (pCmdBuffer : List Byte) (length : ℕ)
  | returnBuffers (endPt buf : ℕ)

/-- The size of `WMI_CMD_HDR`. -/
def wmiCmdHdrLength : ℕ := 4

/-- `WMIRecvMessageHandler`, for the buffer `buf` with the message `data`; HTC passes no header
buffer on. -/
def wmiRecvMessageHandler (pWMI : Service Handler Context) (endPt buf : ℕ) (data : List Byte) :
    Option (List (Action Handler Context)) :=
  match data with
  | c₁ :: c₂ :: s₁ :: s₂ :: pCmdBuffer => do
    let cmd := c₁ ++ c₂
    let seq := s₁ ++ s₂
    let length := data.length - wmiCmdHdrLength
    let found ← scanTables pWMI cmd length pWMI.tables.length pWMI.pDispatchHead none none
    match found with
    | (some h, some pContext) =>
      some [.call h pContext cmd seq pCmdBuffer length, .returnBuffers endPt buf]
    | (some _, none) => none
    | (none, _) => some [.returnBuffers endPt buf]
  | _ => some [.returnBuffers endPt buf]

/-! ## The registered tables -/

/-- The first entry for `cmd` accepts the length and has the handler `h`. -/
def Accepts (es : List (DispatchEntry Handler)) (cmd : BitVec 16) (length : ℕ) (h : Handler) :
    Prop :=
  ∃ before e after, es = before ++ e :: after ∧ (∀ e' ∈ before, e'.cmdId ≠ cmd) ∧
    e.cmdId = cmd ∧ e.checkLength ≤ length ∧ e.pCmdHandler = some h

variable {cmd : BitVec 16} {length : ℕ} {h : Handler} {c : Option Context}

theorem scanEntries_eq_some {es : List (DispatchEntry Handler)} :
    scanEntries cmd length es none = some h ↔ Accepts es cmd length h := by
  induction es with
  | nil => simp [scanEntries, Accepts]
  | cons e es ih =>
    rw [scanEntries]
    split
    · rename_i hid
      constructor
      · intro hfound
        rw [Option.ite_none_left_eq_some] at hfound
        exact ⟨[], e, es, rfl, by simp, hid, by omega, hfound.2⟩
      · rintro ⟨before, e', after, heq, hbefore, -, hlen, hh⟩
        cases before with
        | nil =>
          obtain ⟨rfl, -⟩ := List.cons.inj heq
          rw [if_neg (fun hshort => Nat.not_lt.mpr hlen hshort.2), hh]
        | cons d before =>
          obtain ⟨rfl, -⟩ := List.cons.inj heq
          exact absurd hid (hbefore e List.mem_cons_self)
    · rename_i hid
      rw [ih]
      constructor
      · rintro ⟨before, e', after, rfl, hbefore, hrest⟩
        refine ⟨e :: before, e', after, rfl, ?_, hrest⟩
        exact List.forall_mem_cons.mpr ⟨hid, hbefore⟩
      · rintro ⟨before, e', after, heq, hbefore, hcmd, hrest⟩
        cases before with
        | nil =>
          obtain ⟨rfl, -⟩ := List.cons.inj heq
          exact absurd hcmd hid
        | cons d before =>
          obtain ⟨rfl, rfl⟩ := List.cons.inj heq
          exact ⟨before, e', after, rfl, (List.forall_mem_cons.mp hbefore).2, hcmd, hrest⟩

/-- The tables linked in their order. -/
def linked (ts : List (Table Handler Context)) : Service Handler Context where
  tables := ts.mapIdx fun i t => { t with pNext := if i + 1 < ts.length then some (i + 1) else none }
  pDispatchHead := if ts = [] then none else some 0
  pDispatchTail := if ts = [] then none else some (ts.length - 1)

/-- The last table is linked to the new one. -/
theorem modify_linked {ts : List (Table Handler Context)} (hne : ts ≠ []) (t : Table Handler Context) :
    ((linked ts).tables ++ [({ t with } : DispatchTable Handler Context)]).modify (ts.length - 1)
        (fun t => { t with pNext := some ts.length }) = (linked (ts ++ [t])).tables := by
  have hpos : 0 < ts.length := List.length_pos_iff.mpr hne
  apply List.ext_getElem?
  intro i
  rw [List.getElem?_modify]
  simp only [linked, List.getElem?_append, List.length_mapIdx, List.getElem?_mapIdx]
  rcases Nat.lt_trichotomy i ts.length with hi | rfl | hi
  · have hlast : ts.length - 1 = i ↔ ts.length = i + 1 := by omega
    simp only [hlast, hi, List.getElem?_eq_getElem, Option.map_some]
    split
    · simp [‹ts.length = i + 1›]
    · have hnext : i + 1 < ts.length := by omega
      simp [hi, hnext]
  · have hlast : ts.length - 1 ≠ ts.length := by omega
    simp [hlast]
  · have hlast : ts.length - 1 ≠ i := by omega
    simp [Nat.not_lt.mpr (Nat.le_of_lt hi), Nat.ne_of_gt (Nat.sub_pos_of_lt hi)]

theorem addTable_linked (ts : List (Table Handler Context)) (t : Table Handler Context) :
    addTable (linked ts) t = some (linked (ts ++ [t])) := by
  cases ts with
  | nil => rfl
  | cons t₀ ts =>
    have htables := modify_linked (List.cons_ne_nil t₀ ts) t
    have hlength : (linked (t₀ :: ts)).tables.length = (t₀ :: ts).length := List.length_mapIdx
    rw [addTable, hlength]
    simp only [wmiRegisterDispatchTable, linked, if_neg (List.cons_ne_nil t₀ ts), Option.map_some]
    rw [linked] at htables
    rw [htables]
    simp [linked]

theorem addTables_eq (ts : List (Table Handler Context)) : addTables ts = some (linked ts) := by
  induction ts using List.reverseRecOn with
  | nil => rfl
  | append_singleton ts t ih =>
    rw [addTables, List.foldlM_append, ← addTables, ih]
    exact (bind_pure _).trans (addTable_linked ts t)

/-! ## Finding a handler -/

/-- The pointer to the first of the tables `after`, behind the tables `before`. -/
def pointer (before after : List (Table Handler Context)) : Option TableId :=
  if after = [] then none else some before.length

theorem tables_linked (before : List (Table Handler Context)) (t : Table Handler Context)
    (after : List (Table Handler Context)) :
    (linked (before ++ t :: after)).tables[before.length]? =
      some { t with pNext := pointer (before ++ [t]) after } := by
  rw [linked, List.getElem?_mapIdx, List.getElem?_append_right (Nat.le_refl _), Nat.sub_self,
    pointer]
  cases after <;> simp

/-- The table `t` is the first of `ts` that accepts the command, and has the handler `h`. -/
def Serves (ts : List (Table Handler Context)) (cmd : BitVec 16) (length : ℕ)
    (t : Table Handler Context) (h : Handler) : Prop :=
  ∃ before after, ts = before ++ t :: after ∧
    (∀ t' ∈ before, ∀ h', ¬ Accepts t'.pTable cmd length h') ∧ Accepts t.pTable cmd length h

/-- The scan finds the first table that accepts the command, if there is one. -/
theorem scanTables_linked (before after : List (Table Handler Context)) {n : ℕ}
    (hn : after.length ≤ n) :
    (∃ t h, Serves after cmd length t h ∧
        scanTables (linked (before ++ after)) cmd length n (pointer before after) none c =
          some (some h, some t.pContext)) ∨
      (∀ t ∈ after, ∀ h, ¬ Accepts t.pTable cmd length h) ∧
        ∃ c', scanTables (linked (before ++ after)) cmd length n (pointer before after) none c =
          some (none, c') := by
  induction after generalizing before n c with
  | nil =>
    right
    refine ⟨by simp, c, ?_⟩
    rw [pointer, if_pos rfl, scanTables]
  | cons t after ih =>
    obtain ⟨n, rfl⟩ := Nat.exists_eq_succ_of_ne_zero (Nat.ne_of_gt (Nat.lt_of_lt_of_le (by simp) hn))
    rw [pointer, if_neg (List.cons_ne_nil t after), scanTables, tables_linked]
    simp only [Option.bind_eq_bind, Option.bind_some]
    cases hscan : scanEntries cmd length t.pTable none with
    | some h =>
      left
      exact ⟨t, h, ⟨[], after, rfl, by simp, scanEntries_eq_some.mp hscan⟩, rfl⟩
    | none =>
      have hrejects : ∀ h, ¬ Accepts t.pTable cmd length h := by
        intro h haccepts
        rw [scanEntries_eq_some.mpr haccepts] at hscan
        cases hscan
      have happend : before ++ t :: after = (before ++ [t]) ++ after := by simp
      rw [happend]
      rcases ih (before ++ [t]) (Nat.le_of_succ_le_succ hn) with
        ⟨t', h, ⟨b, a, rfl, hb, haccepts⟩, hfound⟩ | ⟨hnone, hfound⟩
      · left
        refine ⟨t', h, ⟨t :: b, a, rfl, ?_, haccepts⟩, hfound⟩
        exact List.forall_mem_cons.mpr ⟨hrejects, hb⟩
      · right
        exact ⟨List.forall_mem_cons.mpr ⟨hrejects, hnone⟩, hfound⟩

/-- What is done with a message that has a header. -/
theorem wmiRecvMessageHandler_linked (ts : List (Table Handler Context)) (endPt buf : ℕ)
    (c₁ c₂ s₁ s₂ : Byte) (payload : List Byte) :
    ∃ calls, wmiRecvMessageHandler (linked ts) endPt buf (c₁ :: c₂ :: s₁ :: s₂ :: payload) =
        some (calls ++ [.returnBuffers endPt buf]) ∧
      ((∃ t h, Serves ts (c₁ ++ c₂) payload.length t h ∧
          calls = [.call h t.pContext (c₁ ++ c₂) (s₁ ++ s₂) payload payload.length]) ∨
        (∀ t ∈ ts, ∀ h, ¬ Accepts t.pTable (c₁ ++ c₂) payload.length h) ∧ calls = []) := by
  have hlength : (c₁ :: c₂ :: s₁ :: s₂ :: payload).length - wmiCmdHdrLength = payload.length := by
    simp [wmiCmdHdrLength]
  have hhead : (linked ts).pDispatchHead = pointer [] ts := rfl
  have htables : ts.length ≤ (linked ts).tables.length := Nat.le_of_eq List.length_mapIdx.symm
  have hscan : _ ∨ (∀ t ∈ ts, ∀ h, ¬ Accepts t.pTable (c₁ ++ c₂) payload.length h) ∧ _ :=
    scanTables_linked (c := none) [] ts htables
  rw [List.nil_append] at hscan
  rcases hscan with ⟨t, h, hserves, hfound⟩ | ⟨hnone, c', hfound⟩
  · refine ⟨[_], ?_, .inl ⟨t, h, hserves, rfl⟩⟩
    rw [wmiRecvMessageHandler, hlength, hhead]
    simp only [Option.bind_eq_bind]
    rw [hfound]
    rfl
  · refine ⟨[], ?_, .inr ⟨hnone, rfl⟩⟩
    rw [wmiRecvMessageHandler, hlength, hhead]
    simp only [Option.bind_eq_bind]
    rw [hfound]
    rfl

/-- A message is handled by the first table, in the order of registration, whose first entry for
the command accepts its length, and by no other; its buffer is returned once in any case. -/
theorem message_dispatched (ts : List (Table Handler Context)) (endPt buf : ℕ) (data : List Byte) :
    ∃ pWMI calls, addTables ts = some pWMI ∧
      wmiRecvMessageHandler pWMI endPt buf data = some (calls ++ [.returnBuffers endPt buf]) ∧
      ((data.length < wmiCmdHdrLength ∧ calls = []) ∨
        ∃ c₁ c₂ s₁ s₂ payload, data = c₁ :: c₂ :: s₁ :: s₂ :: payload ∧
          ((∃ t h, Serves ts (c₁ ++ c₂) payload.length t h ∧
              calls = [.call h t.pContext (c₁ ++ c₂) (s₁ ++ s₂) payload payload.length]) ∨
            (∀ t ∈ ts, ∀ h, ¬ Accepts t.pTable (c₁ ++ c₂) payload.length h) ∧ calls = [])) := by
  match data with
  | [] | [_] | [_, _] | [_, _, _] =>
    exact ⟨linked ts, [], addTables_eq ts, rfl, .inl ⟨by simp [wmiCmdHdrLength], rfl⟩⟩
  | c₁ :: c₂ :: s₁ :: s₂ :: payload =>
    obtain ⟨calls, hrun, hcalls⟩ := wmiRecvMessageHandler_linked ts endPt buf c₁ c₂ s₁ s₂ payload
    exact ⟨linked ts, calls, addTables_eq ts, hrun, .inr ⟨c₁, c₂, s₁, s₂, payload, rfl, hcalls⟩⟩

end

end Ath9kHtc.Wmi
