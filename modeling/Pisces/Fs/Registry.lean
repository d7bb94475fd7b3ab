import Pisces.Fs.Files

/-! # The open-file registry

The hash table, the list and the counter of open files along runs of file long
calls.
-/

namespace Pisces.Fs

open Ledger Transition Util

/-- The state and the log of files opened and closed. -/
structure Registry where
  fs : State
  log : List (Event UInt64)

/-- A long call with what the kernel answers during it. -/
structure Request where
  lcall : Lcall
  vfs : Vfs

def Registry.serve (registry : Registry) (request : Request) : Registry :=
  let outcome := handle request.vfs registry.fs request.lcall
  { fs := outcome.state, log := outcome.files ++ registry.log }

/-- The files opened and not yet closed. -/
def Registry.opened (registry : Registry) : List UInt64 :=
  live registry.log

def registry : System Registry Request where
  initial state := initEnclaveFs = some state.fs ∧ state.log = []
  step state request := some (state.serve request)

/-- `file_open` returns a file, and none that is open. -/
def NewFile (state : Registry) (request : Request) : Prop :=
  ∀ mode path, request.lcall = .open mode path →
    fileOpen request.vfs path mode ≠ 0 ∧ fileOpen request.vfs path mode ∉ state.opened

/-- The handle that a call is about. -/
def Lcall.fileHandle : Lcall → Option UInt64
  | .open _ _ => none
  | .close file => some file
  | .size file => some file
  | .read lcall => some lcall.fileHandle
  | .write lcall => some lcall.fileHandle

/-- What ties the table, the list and the counters to the open files. -/
structure Registered (fs : State) (files : List UInt64) : Prop where
  distinct : files.Nodup
  real : 0 ∉ files
  wellFormed : fs.openFileTable.WellFormed fileHashFn
  own : ∀ entry ∈ fs.openFileTable.entries, entry.value = entry.key
  keys : fs.openFileTable.keys.Perm files
  listed : fs.openFileList.Perm files
  numFiles : fs.numFiles = .ofNat files.length
  entryCount : fs.openFileTable.entryCount = .ofNat files.length

variable {fs : State} {files : List UInt64} {file : UInt64} {vfs : Vfs}

theorem fileOpen_not_isErr (vfs : Vfs) (path : Nat → UInt8) (mode : UInt32) :
    isErr (fileOpen vfs path mode) = false := by
  simp only [fileOpen]
  split
  · decide
  · rename_i valid
    simpa using valid

theorem Registered.search_iff (registered : Registered fs files) : search fs file = true ↔ file ∈ files := by
  rw [← registered.keys.mem_iff]
  simp only [search, bne_iff_ne]
  constructor
  · intro found
    by_contra absent
    exact found (htableSearch_absent registered.wellFormed absent)
  · intro present found
    obtain ⟨entry, member, named, value⟩ := htableSearch_present registered.wellFormed present
    have null : file = 0 := by rw [← named, ← registered.own entry member, ← value, found]
    subst null
    exact registered.real (registered.keys.mem_iff.mp present)

theorem Registered.search_eq (registered : Registered fs files) : search fs file = decide (file ∈ files) := by
  rw [Bool.eq_iff_iff, registered.search_iff, decide_eq_true_iff]

theorem registered_init (created : initEnclaveFs = some fs) : Registered fs [] := by
  obtain ⟨table, made, rfl⟩ := Option.map_eq_some_iff.mp created
  obtain ⟨wellFormed, empty, count⟩ := createHtable_wellFormed made
  exact
    { distinct := List.nodup_nil
      real := List.not_mem_nil
      wellFormed := wellFormed
      own := fun entry member => by simp [empty] at member
      keys := by simp [Hashtable.keys, empty]
      listed := List.Perm.refl _
      numFiles := rfl
      entryCount := count }

theorem ofNat_length_cons (file : UInt64) (files : List UInt64) :
    UInt32.ofNat (file :: files).length = UInt32.ofNat files.length + 1 := by
  rw [List.length_cons, UInt32.ofNat_add]
  rfl

/-- A new file in the table, at the end of the list and in the counter -/
theorem Registered.enter (registered : Registered fs files) {table : Hashtable} (real : file ≠ 0) (new : file ∉ files)
    (wellFormed : table.WellFormed fileHashFn)
    (added : table.entries.Perm (⟨file, file, doHash fileHashFn file⟩ :: fs.openFileTable.entries))
    (count : table.entryCount = fs.openFileTable.entryCount + 1) :
    Registered { numFiles := fs.numFiles + 1, openFileTable := table, openFileList := fs.openFileList ++ [file] }
      (file :: files) where
  distinct := List.nodup_cons.mpr ⟨new, registered.distinct⟩
  real := by
    intro member
    rcases List.mem_cons.mp member with null | older
    · exact real null.symm
    · exact registered.real older
  wellFormed := wellFormed
  own := by
    intro entry member
    rcases List.mem_cons.mp (added.mem_iff.mp member) with rfl | older
    · rfl
    · exact registered.own entry older
  keys := (added.map _).trans (registered.keys.cons file)
  listed := List.perm_append_singleton .. |>.trans (registered.listed.cons file)
  numFiles := by rw [ofNat_length_cons, registered.numFiles]
  entryCount := by rw [ofNat_length_cons, count, registered.entryCount]

theorem Registered.open (registered : Registered fs files) {mode : UInt32} {path : Nat → UInt8}
    (real : fileOpen vfs path mode ≠ 0) (new : fileOpen vfs path mode ∉ files) :
    Registered (enclaveVfsOpenLcall vfs fs mode path).state (fileOpen vfs path mode :: files) := by
  simp only [enclaveVfsOpenLcall, fileOpen_not_isErr, registered.search_eq, decide_eq_true_eq, new, if_false,
    Bool.false_eq_true]
  obtain ⟨wellFormed, added, count⟩ := htableInsert_spec registered.wellFormed (fileOpen vfs path mode)
    (fileOpen vfs path mode)
  exact registered.enter real new wellFormed added count

theorem ofNat_length_erase (member : file ∈ files) :
    UInt32.ofNat (files.erase file).length = UInt32.ofNat files.length - 1 := by
  have grown : files.length = (files.erase file).length + 1 := by
    rw [List.length_erase_of_mem member]
    have := List.length_pos_of_mem member
    omega
  rw [grown, UInt32.ofNat_add]
  exact (UInt32.add_sub_cancel _ _).symm

theorem Registered.close (registered : Registered fs files) (member : file ∈ files) :
    Registered (enclaveVfsCloseLcall fs file).state (files.erase file) := by
  simp only [enclaveVfsCloseLcall, registered.search_eq, decide_eq_true_eq, member, if_true]
  obtain ⟨wellFormed, ⟨taken, named, removed⟩, count⟩ :=
    htableRemove_spec registered.wellFormed (registered.keys.mem_iff.mpr member)
  have keys : (file :: (htableRemove fileHashFn fs.openFileTable file).keys).Perm (file :: files.erase file) := by
    have taken := removed.map (·.key)
    rw [List.map_cons, named] at taken
    exact taken.trans (registered.keys.trans (List.perm_cons_erase member))
  exact
    { distinct := registered.distinct.erase file
      real := fun null => registered.real (List.mem_of_mem_erase null)
      wellFormed := wellFormed
      own := fun entry remains => registered.own entry (removed.mem_iff.mp (List.mem_cons_of_mem _ remains))
      keys := keys.cons_inv
      listed := registered.listed.erase file
      numFiles := by rw [ofNat_length_erase member, registered.numFiles]
      entryCount := by rw [ofNat_length_erase member, count, registered.entryCount] }

theorem Registered.close_missing (registered : Registered fs files) (absent : file ∉ files) :
    enclaveVfsCloseLcall fs file = { answers := [.missing], state := fs } := by
  simp [enclaveVfsCloseLcall, registered.search_eq, absent]

theorem open_files (fs : State) {mode : UInt32} {path : Nat → UInt8} (real : fileOpen vfs path mode ≠ 0) :
    (enclaveVfsOpenLcall vfs fs mode path).files = [.acquire (fileOpen vfs path mode)] := by
  simp [enclaveVfsOpenLcall, fileOpen_not_isErr, real]

theorem transfer_keeps (direction : Direction) (vfs : Vfs) (fs : State) (lcall : TransferLcall) :
    (enclaveVfsTransferLcall direction vfs fs lcall).state = fs ∧
      (enclaveVfsTransferLcall direction vfs fs lcall).files = [] := by
  unfold enclaveVfsTransferLcall
  split <;> exact ⟨rfl, rfl⟩

theorem size_keeps (vfs : Vfs) (fs : State) (file : UInt64) :
    (enclaveVfsSizeLcall vfs fs file).state = fs ∧ (enclaveVfsSizeLcall vfs fs file).files = [] := by
  unfold enclaveVfsSizeLcall
  split <;> exact ⟨rfl, rfl⟩

theorem Registered.serve {state : Registry} {request : Request} (registered : Registered state.fs state.opened)
    (new : NewFile state request) : Registered (state.serve request).fs (state.serve request).opened := by
  obtain ⟨lcall, vfs⟩ := request
  cases lcall with
  | «open» mode path =>
      obtain ⟨real, fresh⟩ := new mode path rfl
      simp only [Registry.serve, handle]
      rw [open_files state.fs real]
      exact registered.open real fresh
  | close file =>
      by_cases member : file ∈ state.opened
      · have released : (enclaveVfsCloseLcall state.fs file).files = [.release (some file)] := by
          rw [enclaveVfsCloseLcall, if_pos (registered.search_iff.mpr member)]
        simp only [Registry.serve, handle]
        rw [released]
        exact registered.close member
      · have same := registered.close_missing member
        simpa only [Registry.serve, handle, same, List.nil_append] using registered
  | size file =>
      obtain ⟨same, none⟩ := size_keeps vfs state.fs file
      simpa only [Registry.serve, handle, same, none, List.nil_append] using registered
  | read lcall =>
      obtain ⟨same, none⟩ := transfer_keeps .read vfs state.fs lcall
      simpa only [Registry.serve, handle, enclaveVfsReadLcall, same, none, List.nil_append] using registered
  | write lcall =>
      obtain ⟨same, none⟩ := transfer_keeps .write vfs state.fs lcall
      simpa only [Registry.serve, handle, enclaveVfsWriteLcall, same, none, List.nil_append] using registered

theorem reachable_registered {state : Registry} (reached : registry.Reachable NewFile state) :
    Registered state.fs state.opened := by
  apply reached.invariant
  · rintro start ⟨created, empty⟩
    rw [Registry.opened, empty]
    exact registered_init created
  · intro state request next registered new stepped
    cases stepped
    exact registered.serve new

theorem Registered.accepted_iff (registered : Registered fs files) {lcall : Lcall}
    (about : lcall.fileHandle = some file) :
    Answer.missing ∉ (handle vfs fs lcall).answers ↔ file ∈ files := by
  have found : search fs file = true ↔ file ∈ files := registered.search_iff
  cases lcall with
  | «open» mode path => cases about
  | close _ =>
      cases about
      rw [← found, handle, enclaveVfsCloseLcall]
      split <;> simp_all
  | size _ =>
      cases about
      rw [← found, handle, enclaveVfsSizeLcall]
      split <;> simp_all
  | read _ =>
      cases about
      rw [← found, handle, enclaveVfsReadLcall, enclaveVfsTransferLcall]
      split <;> simp_all
  | write _ =>
      cases about
      rw [← found, handle, enclaveVfsWriteLcall, enclaveVfsTransferLcall]
      split <;> simp_all

/-- In every run the table, the list and the open files agree, the counters are
their number in 32 bits, calls are accepted for open files only, and the
tear-down closes each open file once. -/
theorem files_registered {state : Registry} (reached : registry.Reachable NewFile state) :
    state.fs.openFileTable.keys.Nodup ∧ state.fs.openFileList.Nodup ∧ state.opened.Nodup ∧
      (∀ file, file ∈ state.fs.openFileTable.keys ↔ file ∈ state.opened) ∧
      (∀ file, file ∈ state.fs.openFileList ↔ file ∈ state.opened) ∧
      state.fs.numFiles.toNat = state.opened.length % 4294967296 ∧
      state.fs.openFileTable.entryCount.toNat = state.opened.length % 4294967296 ∧
      (∀ vfs lcall file, lcall.fileHandle = some file →
        (.missing ∉ (handle vfs state.fs lcall).answers ↔ file ∈ state.opened)) ∧
      ∀ file, (deinitEnclaveFs state.fs).count file = if file ∈ state.opened then 1 else 0 := by
  have registered := reachable_registered reached
  have listed : state.fs.openFileList.Nodup := registered.listed.nodup_iff.mpr registered.distinct
  refine ⟨registered.keys.nodup_iff.mpr registered.distinct, listed, registered.distinct,
    fun _ => registered.keys.mem_iff, fun _ => registered.listed.mem_iff, ?_, ?_, ?_, ?_⟩
  · rw [registered.numFiles, UInt32.toNat_ofNat']
  · rw [registered.entryCount, UInt32.toNat_ofNat']
  · intro vfs lcall file about
    exact registered.accepted_iff about
  · intro file
    rw [deinitEnclaveFs, listed.count]
    simp only [registered.listed.mem_iff]

def noPath : Nat → UInt8 :=
  fun _ => 0

/-- A kernel that opens one given file. -/
def opening (file : UInt64) : Vfs where
  filpOpen _ _ := file
  getattr _ := (0, 0)
  transfer _ _ _ _ _ := 0
  contents _ _ _ := 0
  bounded _ _ _ _ _ := Int.natCast_nonneg _

theorem fileOpen_opening (small : file.toNat ≤ 4294967296) : fileOpen (opening file) noPath 0 = file := by
  have valid : isErr file = false := by
    simp only [isErr, ge_iff_le, decide_eq_false_iff_not, UInt64.le_iff_toNat_le]
    exact Nat.not_le.mpr (Nat.lt_of_le_of_lt small (by decide))
  simp [fileOpen, opening, valid]

theorem serve_opening_opened (state : Registry) (small : file.toNat ≤ 4294967296) (real : file ≠ 0) :
    (state.serve ⟨.open 0 noPath, opening file⟩).opened = file :: state.opened := by
  have opens := fileOpen_opening small
  simp only [Registry.serve, Registry.opened, handle]
  rw [open_files state.fs (by rwa [opens]), opens]
  rfl

theorem reachable_opening {count : Nat} (bounded : count ≤ 4294967296) :
    ∃ state, registry.Reachable NewFile state ∧ state.opened.length = count ∧
      ∀ file ∈ state.opened, file.toNat ≤ count := by
  induction count with
  | zero =>
      obtain ⟨fs, created⟩ : ∃ fs, initEnclaveFs = some fs := ⟨_, rfl⟩
      exact ⟨⟨fs, []⟩, ⟨_, ⟨created, rfl⟩, .refl⟩, rfl, by simp [Registry.opened, live]⟩
  | succ count ih =>
      obtain ⟨state, reached, counted, below⟩ := ih (by omega)
      have exact : (UInt64.ofNat (count + 1)).toNat = count + 1 := by
        rw [UInt64.toNat_ofNat']
        omega
      have real : UInt64.ofNat (count + 1) ≠ 0 := by
        intro null
        have zero := congrArg UInt64.toNat null
        rw [exact] at zero
        cases zero
      have small : (UInt64.ofNat (count + 1)).toNat ≤ 4294967296 := by rw [exact]; exact bounded
      have opened := serve_opening_opened state small real
      refine ⟨state.serve ⟨.open 0 noPath, opening (.ofNat (count + 1))⟩, ?_, ?_, ?_⟩
      · apply reached.extend
        apply System.Path.single _ rfl
        intro mode path same
        cases same
        rw [fileOpen_opening small]
        refine ⟨real, ?_⟩
        intro present
        have limit := below _ present
        omega
      · rw [opened, List.length_cons, counted]
      · intro file member
        rw [opened] at member
        rcases List.mem_cons.mp member with rfl | older
        · exact Nat.le_of_eq exact
        · exact Nat.le_succ_of_le (below file older)

theorem files_registered_opened :
    ∃ state, registry.Reachable NewFile state ∧ state.opened.length = 2 ∧ state.fs.numFiles.toNat = 2 := by
  obtain ⟨state, reached, counted, _⟩ := reachable_opening (show 2 ≤ 4294967296 by decide)
  refine ⟨state, reached, counted, ?_⟩
  rw [(files_registered reached).2.2.2.2.2.1, counted]

/-- With 2^32 files open the counters are back at zero. -/
theorem counters_wrap :
    ¬ ∀ state, registry.Reachable NewFile state →
      state.fs.numFiles.toNat = state.opened.length ∧
        state.fs.openFileTable.entryCount.toNat = state.opened.length := by
  intro exact
  obtain ⟨state, reached, counted, _⟩ := reachable_opening (Nat.le_refl 4294967296)
  have claimed := (exact state reached).1
  have registered := reachable_registered reached
  rw [registered.numFiles, counted] at claimed
  revert claimed
  decide

end Pisces.Fs
