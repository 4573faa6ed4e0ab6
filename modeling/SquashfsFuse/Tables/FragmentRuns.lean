import SquashfsFuse.Core.FragmentTable

/-! Sequences of calls that load a fragment table. -/

namespace SquashfsFuse

variable {image : Image} {sb : SqfsSuperblock} {comp : Compressor}

/-! ## The readers have a meaning -/

private theorem sqfsMetaReadBlockAlloc_defined (image : Image) (comp : Compressor) (readBuf : Bool)
    (pos : Nat) : (sqfsMetaReadBlockAlloc image comp readBuf pos).Defined := by
  unfold sqfsMetaReadBlockAlloc
  rw [Outcome.defined_bind, Outcome.defined_mapErr]
  refine ⟨readMetaHeader_defined image pos, fun header _ => ?_⟩
  split
  · exact Outcome.defined_err _
  · split
    · exact readBlockFromDisk_defined image _ _
    · split
      · rw [Outcome.defined_bind]
        exact ⟨readBlockFromDisk_defined image _ _,
          fun stored _ => sqfsCompressorDecompress_defined comp _ stored _⟩
      · split
        · exact Outcome.defined_err _
        · rw [Outcome.defined_bind]
          exact ⟨readBlockFromDisk_defined image _ _,
            fun stored _ => sqfsCompressorDecompress_defined comp _ stored _⟩

private theorem readFragmentTableIndexAlloc_defined (image : Image) (index : Bool)
    (tablePos fragCount : Nat) :
    (readFragmentTableIndexAlloc image index tablePos fragCount).Defined := by
  unfold readFragmentTableIndexAlloc readFragmentTableIndex
  split
  · exact Outcome.defined_err _
  · rw [Outcome.defined_bind]
    refine ⟨sqfsPreadAll_defined image _ _, fun index read => Outcome.defined_mapM ?_⟩
    intro i member
    have length := Image.diskBytes_length (sqfsPreadAll_eq_ok.mp read)
    have bound := List.mem_range.mp member
    rcases @sqfsLe64ToCpu_of_le index (i * 8) (by omega) with ⟨value, loaded⟩
    rw [loaded]
    exact Outcome.defined_ok value

private theorem loadFragmentEntriesLoop_defined {fragCount : Nat} {index : List Nat}
    {readBuf : Nat → Bool} {entries : List SqfsFragEntry} :
    (loadFragmentEntriesLoop image comp fragCount readBuf index entries).Defined ∧
      (entries.length ≤ fragCount →
        (loadFragmentEntriesLoop image comp fragCount readBuf index entries).Ensures
          fun result => result.length ≤ fragCount) := by
  induction index generalizing readBuf entries with
  | nil => exact ⟨Outcome.defined_ok _, fun fits => (Outcome.ensures_ok _).mpr fits⟩
  | cons blockPos rest induction =>
      rw [loadFragmentEntriesLoop, Outcome.defined_bind, Outcome.ensures_bind]
      dsimp only
      constructor
      · refine ⟨sqfsMetaReadBlockAlloc_defined image comp _ blockPos, fun block _ => ?_⟩
        split
        · exact Outcome.defined_err _
        · next large =>
            rw [Outcome.defined_bind]
            refine ⟨Outcome.defined_mapM fun i member => ?_, fun copied _ => induction.1⟩
            have bound := List.mem_range.mp member
            rw [Outcome.defined_ofOption]
            exact SqfsFragEntry.ofBytes_isSome (by omega)
      · intro fits block _
        split
        · exact Outcome.ensures_err _
        · rw [Outcome.ensures_bind]
          intro copied copying
          apply induction.2
          have length := Outcome.length_of_mapM_eq_ok copying
          rw [List.length_range] at length
          rw [List.length_append, length]
          omega

private theorem loadFragmentEntriesAlloc_spec (alloc : LoadAllocations) (fragCount : Nat)
    (index : List Nat) :
    (loadFragmentEntriesAlloc image comp alloc fragCount index).Defined ∧
      (loadFragmentEntriesAlloc image comp alloc fragCount index).Ensures
        fun entries => entries.length = fragCount := by
  unfold loadFragmentEntriesAlloc
  split
  · exact ⟨Outcome.defined_err _, Outcome.ensures_err _⟩
  · rw [Outcome.defined_bind, Outcome.ensures_bind]
    have loop := @loadFragmentEntriesLoop_defined image comp fragCount index alloc.readBuf []
    refine ⟨⟨loop.1, fun _ _ => Outcome.defined_ok _⟩, fun entries read => ?_⟩
    have short : entries.length ≤ fragCount := loop.2 (Nat.zero_le _) entries read
    rintro result ⟨⟩
    rw [List.length_append, List.length_replicate]
    omega

/-! ## One call -/

namespace FragmentTableObject

structure IsLoaded (table : FragmentTableObject) : Prop where
  loaded : table.loaded = true
  counted : (table.entries.getD []).length = table.count

/-- No call finds a table in any other state. -/
def Intact (table : FragmentTableObject) : Prop :=
  table = sqfsFragmentTableInit ∨ table.IsLoaded

end FragmentTableObject

theorem sqfsFragmentTableLoadObject_loaded {table : FragmentTableObject}
    (loaded : table.loaded = true) (alloc : LoadAllocations) :
    sqfsFragmentTableLoadObject image sb comp alloc table = (.ok (), table) := if_pos loaded

private theorem sqfsFragmentTableLoadObject_init (image : Image) (sb : SqfsSuperblock)
    (comp : Compressor) (alloc : LoadAllocations) :
    (∃ table : FragmentTableObject, table.IsLoaded ∧
      sqfsFragmentTableLoadObject image sb comp alloc sqfsFragmentTableInit = (.ok (), table)) ∨
    ∃ error, sqfsFragmentTableLoadObject image sb comp alloc sqfsFragmentTableInit =
      (.err error, sqfsFragmentTableInit) := by
  unfold sqfsFragmentTableLoadObject
  dsimp only
  rw [if_neg (show ¬ sqfsFragmentTableInit.loaded = true by decide)]
  split
  · exact .inl ⟨_, ⟨rfl, rfl⟩, rfl⟩
  · split
    · exact .inr ⟨.noMemory, rfl⟩
    · have indexDefined := readFragmentTableIndexAlloc_defined image alloc.index
        sb.disk.fragTable sb.disk.fragCount
      split
      · next faulted =>
          rw [faulted] at indexDefined
          exact absurd indexDefined Outcome.not_defined_fault
      · next error _ => exact .inr ⟨error, rfl⟩
      · have counted : (List.replicate sb.disk.fragCount (⟨0, 0, 0⟩ : SqfsFragEntry)).length =
            sb.disk.fragCount := List.length_replicate
        exact .inl ⟨⟨some (List.replicate sb.disk.fragCount ⟨0, 0, 0⟩), sb.disk.fragCount, true⟩,
          ⟨rfl, counted⟩, rfl⟩
      · next index _ _ =>
          rcases @loadFragmentEntriesAlloc_spec image comp alloc sb.disk.fragCount index with
            ⟨entriesDefined, counted⟩
          split
          · next faulted =>
              rw [faulted] at entriesDefined
              exact absurd entriesDefined Outcome.not_defined_fault
          · next error _ => exact .inr ⟨error, rfl⟩
          · next entries read =>
              exact .inl ⟨⟨some entries, sb.disk.fragCount, true⟩, ⟨rfl, counted entries read⟩, rfl⟩

private theorem sqfsFragmentTableLoadObject_intact {table : FragmentTableObject}
    (intact : table.Intact) (alloc : LoadAllocations) :
    (sqfsFragmentTableLoadObject image sb comp alloc table).2.Intact := by
  rcases intact with rfl | loaded
  · rcases sqfsFragmentTableLoadObject_init image sb comp alloc with
      ⟨table, loaded, call⟩ | ⟨error, call⟩
    · rw [call]
      exact .inr loaded
    · rw [call]
      exact .inl rfl
  · rw [sqfsFragmentTableLoadObject_loaded loaded.loaded]
    exact .inr loaded

/-! ## Runs -/

/-- The table behind a sequence of calls. -/
def tableAfter (image : Image) (sb : SqfsSuperblock) (comp : Compressor)
    (calls : List LoadAllocations) (table : FragmentTableObject) : FragmentTableObject :=
  calls.foldl (fun table alloc => (sqfsFragmentTableLoadObject image sb comp alloc table).2) table

private theorem tableAfter_intact (calls : List LoadAllocations) {table : FragmentTableObject}
    (intact : table.Intact) : (tableAfter image sb comp calls table).Intact := by
  induction calls generalizing table with
  | nil => exact intact
  | cons alloc calls induction =>
      exact induction (sqfsFragmentTableLoadObject_intact intact alloc)

private theorem tableAfter_loaded (calls : List LoadAllocations) {table : FragmentTableObject}
    (loaded : table.loaded = true) : tableAfter image sb comp calls table = table := by
  induction calls with
  | nil => rfl
  | cons alloc calls induction =>
      rw [tableAfter, List.foldl_cons, sqfsFragmentTableLoadObject_loaded loaded]
      exact induction

/-- What a call that loads a fragment table does to it. -/
structure LoadsAllOrNothing (image : Image) (sb : SqfsSuperblock) (comp : Compressor)
    (table : FragmentTableObject) (call : Sqfs Unit × FragmentTableObject) : Prop where
  returns : call.1 = .ok () ∨ ∃ error, call.1 = .err error
  untouched : ∀ error, call.1 = .err error →
    call.2 = table ∧ table = { entries := none, count := 0, loaded := false }
  refused : ∀ error, call.1 = .err error →
    ∀ idx, ∃ code, sqfsFragmentGetEntryObject call.2 idx = .err code
  afresh : ∀ error, call.1 = .err error → ∀ retry,
    sqfsFragmentTableLoadObject image sb comp retry call.2 =
      sqfsFragmentTableLoadObject image sb comp retry sqfsFragmentTableInit
  idempotent : call.1 = .ok () → ∀ further alloc,
    sqfsFragmentTableLoadObject image sb comp alloc (tableAfter image sb comp further call.2) =
      (.ok (), call.2)
  served : call.1 = .ok () → ∀ idx, (sqfsFragmentGetEntryObject call.2 idx).Defined

private theorem sqfsFragmentGetEntryObject_defined {table : FragmentTableObject}
    (loaded : table.IsLoaded) (idx : Nat) :
    (sqfsFragmentGetEntryObject table idx).Defined := by
  have counted := loaded.counted
  unfold sqfsFragmentGetEntryObject
  rw [if_neg (by rw [loaded.loaded]; decide)]
  split
  · exact Outcome.defined_err _
  · next inside =>
      cases array : table.entries with
      | none =>
          rw [array, Option.getD_none, List.length_nil] at counted
          omega
      | some entries =>
          rw [array, Option.getD_some] at counted
          rw [Outcome.ofOption_some, Outcome.ok_bind, Outcome.defined_ofOption,
            List.getElem?_eq_getElem (by omega)]
          rfl

private theorem loadsAllOrNothing_of_loaded {table next : FragmentTableObject} (loaded : next.IsLoaded) :
    LoadsAllOrNothing image sb comp table (.ok (), next) where
  returns := .inl rfl
  untouched _ failed := nomatch failed
  refused _ failed := nomatch failed
  afresh _ failed := nomatch failed
  idempotent _ further alloc := by
    rw [tableAfter_loaded further loaded.loaded]
    exact sqfsFragmentTableLoadObject_loaded loaded.loaded alloc
  served _ idx := sqfsFragmentGetEntryObject_defined loaded idx

/-- Wherever a run of calls fails, the fragment table is as it was initialised; once one of
them succeeds, it stays as it is. -/
theorem sqfsFragmentTableLoad_allOrNothing (image : Image) (sb : SqfsSuperblock)
    (comp : Compressor) (history : List LoadAllocations) (alloc : LoadAllocations) :
    LoadsAllOrNothing image sb comp (tableAfter image sb comp history sqfsFragmentTableInit)
      (sqfsFragmentTableLoadObject image sb comp alloc
        (tableAfter image sb comp history sqfsFragmentTableInit)) := by
  rcases @tableAfter_intact image sb comp history sqfsFragmentTableInit (.inl rfl) with
    init | loaded
  · rw [init]
    rcases sqfsFragmentTableLoadObject_init image sb comp alloc with
      ⟨table, loaded, call⟩ | ⟨error, call⟩
    · rw [call]
      exact loadsAllOrNothing_of_loaded loaded
    · rw [call]
      exact {
        returns := .inr ⟨error, rfl⟩
        untouched := fun _ _ => ⟨rfl, rfl⟩
        refused := fun _ _ _ => ⟨.corrupt, rfl⟩
        afresh := fun _ _ _ => rfl
        idempotent := fun succeeded => by cases succeeded
        served := fun succeeded => by cases succeeded }
  · rw [sqfsFragmentTableLoadObject_loaded loaded.loaded]
    exact loadsAllOrNothing_of_loaded loaded

/-! ## Allocations that succeed -/

structure LoadAllocations.Succeed (alloc : LoadAllocations) : Prop where
  entries : alloc.entries = true
  index : alloc.index = true
  blockBuf : alloc.blockBuf = true
  readBuf : ∀ i, alloc.readBuf i = true

private theorem sqfsMetaReadBlockAlloc_of_allocated (image : Image) (comp : Compressor) (pos : Nat) :
    sqfsMetaReadBlockAlloc image comp true pos = sqfsMetaReadBlock image comp pos := by
  unfold sqfsMetaReadBlockAlloc sqfsMetaReadBlock
  apply congrArg
  funext header
  split
  · rfl
  · next valid =>
      cases header.uncompressed with
      | true =>
          dsimp only
          cases readBlockFromDisk image header.size (pos + 2) <;> rfl
      | false =>
          dsimp only
          by_cases shorter : header.size < sqfsMetaBlockSize
          · simp only [if_pos shorter]
            rfl
          · simp only [if_neg shorter]
            rfl

private theorem loadFragmentEntriesLoop_of_allocated {fragCount : Nat} {index : List Nat}
    {readBuf : Nat → Bool} (allocated : ∀ i, readBuf i = true) {entries : List SqfsFragEntry} :
    loadFragmentEntriesLoop image comp fragCount readBuf index entries =
      loadFragmentEntries image comp fragCount index entries := by
  induction index generalizing readBuf entries with
  | nil => rfl
  | cons blockPos rest induction =>
      rw [loadFragmentEntriesLoop, loadFragmentEntries, allocated,
        sqfsMetaReadBlockAlloc_of_allocated]
      apply congrArg
      funext block
      dsimp only
      split
      · rfl
      · apply congrArg
        funext copied
        exact induction fun i => allocated (i + 1)

/-- The table as the readers see it. -/
def FragmentTableObject.table (table : FragmentTableObject) : SqfsFragmentTable where
  entries := table.entries.getD []
  loaded := table.loaded

theorem sqfsFragmentGetEntryObject_eq {ctx : SqfsCtx} {table : FragmentTableObject}
    (loaded : table.IsLoaded) (installed : ctx.fragmentTable = some table.table) (idx : Nat) :
    sqfsFragmentGetEntryObject table idx = sqfsFragmentGetEntry ctx idx := by
  have counted := loaded.counted
  rw [sqfsFragmentGetEntryObject, sqfsFragmentGetEntry, installed, Outcome.ofOption_some,
    Outcome.ok_bind, FragmentTableObject.table, loaded.loaded]
  dsimp only
  rw [if_neg Bool.true_eq_false.mp, if_neg Bool.true_eq_false.mp]
  split
  · next behind => rw [List.getElem?_eq_none (by omega)]
  · next inside =>
      cases array : table.entries with
      | none =>
          rw [array, Option.getD_none, List.length_nil] at counted
          omega
      | some entries =>
          rw [array, Option.getD_some] at counted
          rw [Option.getD_some, Outcome.ofOption_some, Outcome.ok_bind,
            List.getElem?_eq_getElem (by omega)]
          rfl

/-- The first call on a table returns what a load returns, and leaves the table of it. -/
def LoadsAs (call : Sqfs Unit × FragmentTableObject) : Sqfs SqfsFragmentTable → Prop
  | .ok table => ∃ object : FragmentTableObject, object.table = table ∧ call = (.ok (), object)
  | .err error => call = (.err error, sqfsFragmentTableInit)
  | .fault => call.1 = .fault

theorem sqfsFragmentTableLoadObject_of_allocated {alloc : LoadAllocations}
    (succeed : alloc.Succeed) :
    LoadsAs (sqfsFragmentTableLoadObject image sb comp alloc sqfsFragmentTableInit)
      (sqfsFragmentTableLoad image sb comp) := by
  unfold sqfsFragmentTableLoad sqfsFragmentTableLoadObject
  dsimp only
  rw [if_neg (show ¬ sqfsFragmentTableInit.loaded = true by decide)]
  by_cases absent : sb.hasFragments = false ∨ sb.disk.fragCount = 0
  · rw [if_pos absent, if_pos absent]
    exact ⟨_, rfl, rfl⟩
  · have allocated : ¬ alloc.entries = false := by rw [succeed.entries]; decide
    rw [if_neg absent, if_neg absent, if_neg allocated, readFragmentTableIndexAlloc,
      succeed.index, if_neg (by decide)]
    cases readFragmentTableIndex image sb.disk.fragTable sb.disk.fragCount with
    | fault => rfl
    | err error => rfl
    | ok index =>
        have read : loadFragmentEntriesAlloc image comp alloc sb.disk.fragCount index =
            (do
              let entries ← loadFragmentEntries image comp sb.disk.fragCount index []
              pure (entries ++
                List.replicate (sb.disk.fragCount - entries.length) ⟨0, 0, 0⟩)) := by
          rw [loadFragmentEntriesAlloc, succeed.blockBuf, if_neg (by decide),
            loadFragmentEntriesLoop_of_allocated succeed.readBuf]
        rw [Outcome.ok_bind]
        cases index with
        | nil => exact ⟨_, rfl, rfl⟩
        | cons blockPos rest =>
            dsimp only
            rw [read]
            cases loadFragmentEntries image comp sb.disk.fragCount (blockPos :: rest) [] with
            | fault => rfl
            | err error => rfl
            | ok entries => exact ⟨_, rfl, rfl⟩

end SquashfsFuse
