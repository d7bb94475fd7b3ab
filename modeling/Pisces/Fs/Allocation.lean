import Pisces.Fs.Registry

/-! # Opening files when memory is short

The open handler with the outcome of each of its allocations.
-/

namespace Pisces.Fs

open Ledger Transition Util

/-- Which calls of `kmalloc` succeed during one open. -/
structure Allocations where
  /-- the larger table -/
  newTable : Bool
  /-- the one of `tmp_realloc` -/
  fallback : Bool
  /-- `struct hash_entry` -/
  entry : Bool
  /-- `struct file_list_iter` -/
  iter : Bool
  deriving DecidableEq

/-- `hashtable_expand`.  If only the fallback gets its memory, the result of
`tmp_realloc` has as many bytes of the old table as that has entries, and
`memset` is given what stands behind the old length in it, a pointer that was
never written: nothing is known of the memory after that. -/
def hashtableExpandWith (allocations : Allocations) (htable : Hashtable) : Option Hashtable :=
  if htable.primeIndex = primes.length - 1 then some htable
  else if allocations.newTable then some (hashtableExpand htable)
  else if allocations.fallback then none
  else some htable

def htableInsertWith (allocations : Allocations) (hashFn : UInt64 → UInt32) (htable : Hashtable) (key value : UInt64) :
    Option Hashtable := do
  let counted := { htable with entryCount := htable.entryCount + 1 }
  let roomy ← if counted.entryCount > counted.loadLimit then hashtableExpandWith allocations counted else some counted
  if allocations.entry then
    return { roomy with
      table := Chained.push (slot roomy.tableLength) roomy.table ⟨key, value, doHash hashFn key⟩ }
  else return { roomy with entryCount := roomy.entryCount - 1 }

/-- The part of the open handler that enters a file; the result of
`htable_insert` is not looked at. -/
def register (allocations : Allocations) (state : State) (file : UInt64) : Option State := do
  if search state file then return state
  else
    let table ← htableInsertWith allocations fileHashFn state.openFileTable file file
    return { state with
      openFileTable := table
      openFileList := if allocations.iter then state.openFileList ++ [file] else state.openFileList }

def enclaveVfsOpenLcallWith (allocations : Allocations) (vfs : Vfs) (state : State) (mode : UInt32) (path : Nat → UInt8) :
    Option Outcome := do
  let file := fileOpen vfs path mode
  if isErr file then return { answers := [.done 0], state }
  else
    let registered ← register allocations state file
    return { answers := [.done file]
             state := { registered with numFiles := registered.numFiles + 1 }
             files := if file = 0 then [] else [.acquire file] }

/-- Only opens allocate. -/
def handleWith (allocations : Allocations) (vfs : Vfs) (state : State) : Lcall → Option Outcome
  | .open mode path => enclaveVfsOpenLcallWith allocations vfs state mode path
  | lcall => some (handle vfs state lcall)

def plenty : Allocations :=
  { newTable := true, fallback := true, entry := true, iter := true }

theorem hashtableExpandWith_plenty (htable : Hashtable) :
    hashtableExpandWith plenty htable = some (hashtableExpand htable) := by
  unfold hashtableExpandWith
  split
  · rename_i largest
    rw [hashtableExpand, if_pos largest]
  · rfl

theorem htableInsertWith_plenty (hashFn : UInt64 → UInt32) (htable : Hashtable) (key value : UInt64) :
    htableInsertWith plenty hashFn htable key value = some (htableInsert hashFn htable key value) := by
  simp only [htableInsertWith, htableInsert, hashtableExpandWith_plenty]
  split <;> rfl

/-- With memory for everything, the handlers are those of the registry. -/
theorem handleWith_plenty (vfs : Vfs) (state : State) (lcall : Lcall) :
    handleWith plenty vfs state lcall = some (handle vfs state lcall) := by
  cases lcall with
  | «open» mode path =>
      simp only [handleWith, handle, enclaveVfsOpenLcallWith, enclaveVfsOpenLcall, register, htableInsertWith_plenty]
      split
      · rfl
      · split <;> rfl
  | close | size | read | write => rfl

/-! ## Lost tables -/

/-- The next insertion expands the table. -/
def Grows (htable : Hashtable) : Prop :=
  htable.entryCount + 1 > htable.loadLimit ∧ htable.primeIndex ≠ primes.length - 1

/-- An open is answered with zero and changes nothing. -/
def LeavesNoTrace (allocations : Allocations) (vfs : Vfs) (state : State) (mode : UInt32) (path : Nat → UInt8) : Prop :=
  ∃ outcome, enclaveVfsOpenLcallWith allocations vfs state mode path = some outcome ∧ outcome.answers = [.done 0] ∧
    outcome.state = state

theorem register_numFiles {allocations : Allocations} {state registered : State} {file : UInt64}
    (entered : register allocations state file = some registered) : registered.numFiles = state.numFiles := by
  unfold register at entered
  split at entered
  · cases entered
    rfl
  · obtain ⟨table, _, made⟩ := Option.bind_eq_some_iff.mp entered
    cases made
    rfl

/-- A failed open counts as an open file. -/
theorem failed_open_leaves_trace {vfs : Vfs} {mode : UInt32} {path : Nat → UInt8}
    (fails : isErr (vfs.filpOpen path (mode ||| 0x8000)) = true) (allocations : Allocations) (state : State) :
    ¬ LeavesNoTrace allocations vfs state mode path := by
  rintro ⟨outcome, opened, _, same⟩
  have null : fileOpen vfs path mode = 0 := by simp [fileOpen, fails]
  simp only [enclaveVfsOpenLcallWith, null] at opened
  rw [if_neg (by decide)] at opened
  obtain ⟨registered, entered, made⟩ := Option.bind_eq_some_iff.mp opened
  cases made
  have counted := congrArg State.numFiles same
  rw [← register_numFiles entered] at counted
  simp at counted

def noFiles : State :=
  { numFiles := 0, openFileTable := ⟨53, List.replicate 53 [], 0, 35, 0⟩, openFileList := [] }

theorem initEnclaveFs_eq : initEnclaveFs = some noFiles :=
  rfl

theorem refused_traced : ¬ LeavesNoTrace plenty (opening (-2)) noFiles 0 noPath :=
  failed_open_leaves_trace (by decide) plenty noFiles

/-- The file that was not opened is counted, entered and closed. -/
theorem refused_closes_null :
    initEnclaveFs = some noFiles ∧
      ∃ outcome, enclaveVfsOpenLcallWith plenty (opening (-2)) noFiles 0 noPath = some outcome ∧
        outcome.answers = [.done 0] ∧ outcome.state.numFiles = 1 ∧ outcome.state.openFileTable.keys = [0] ∧
        deinitEnclaveFs outcome.state = [0] ∧ outcome.state ≠ noFiles := by
  refine ⟨initEnclaveFs_eq, _, rfl, rfl, rfl, ?_, rfl, ?_⟩
  · decide +kernel
  · intro same
    exact absurd (congrArg State.numFiles same) (by decide)

/-! ## Runs -/

/-- A long call with what the kernel answers and which memory it gets -/
structure Attempt extends Request where
  allocations : Allocations

def Registry.attempt (registry : Registry) (attempt : Attempt) : Option Registry :=
  (handleWith attempt.allocations attempt.vfs registry.fs attempt.lcall).map fun outcome =>
    { fs := outcome.state, log := outcome.files ++ registry.log }

/-- A registry is lost with the memory that holds it. -/
def allocating : System (Option Registry) Attempt where
  initial state := ∃ registry, state = some registry ∧ initEnclaveFs = some registry.fs ∧ registry.log = []
  step state attempt := some (state.bind (·.attempt attempt))

/-- Every handle given out and not closed is accepted, and the tear-down closes
those files, each once, and nothing else. -/
structure Usable (registry : Registry) : Prop where
  accepted : ∀ file ∈ registry.opened, ∀ allocations vfs lcall, lcall.fileHandle = some file →
    ∃ outcome, handleWith allocations vfs registry.fs lcall = some outcome ∧ .missing ∉ outcome.answers
  closed : ∀ file, (deinitEnclaveFs registry.fs).count file = if file ∈ registry.opened then 1 else 0

/-- An open gets a new file, a hash entry and a list node, and if its table has
to grow, the larger table, or neither that nor the memory to reallocate. -/
structure Allocated (registry : Registry) (attempt : Attempt) : Prop where
  new : NewFile registry attempt.toRequest
  nodes : ∀ mode path, attempt.lcall = .open mode path →
    attempt.allocations.entry = true ∧ attempt.allocations.iter = true
  table : ∀ mode path, attempt.lcall = .open mode path → Grows registry.fs.openFileTable →
    attempt.allocations.newTable = true ∨ attempt.allocations.fallback = false

section Runs

variable {allocations : Allocations} {htable : Hashtable} {hashFn : UInt64 → UInt32}

theorem hashtableExpandWith_spec (allocations : Allocations) (wellFormed : htable.WellFormed hashFn)
    (safe : htable.primeIndex ≠ primes.length - 1 → allocations.newTable = true ∨ allocations.fallback = false) :
    ∃ expanded, hashtableExpandWith allocations htable = some expanded ∧ expanded.WellFormed hashFn ∧
      expanded.entries.Perm htable.entries ∧ expanded.entryCount = htable.entryCount := by
  unfold hashtableExpandWith
  split
  · exact ⟨htable, rfl, wellFormed, List.Perm.refl _, rfl⟩
  · rename_i smaller
    split
    · exact ⟨_, rfl, hashtableExpand_wellFormed wellFormed⟩
    · rename_i failed
      have neither : allocations.fallback = false := (safe smaller).resolve_left failed
      rw [neither]
      exact ⟨htable, rfl, wellFormed, List.Perm.refl _, rfl⟩

/-- An insertion that gets its entry adds it, whatever becomes of the larger table. -/
theorem htableInsertWith_spec (wellFormed : htable.WellFormed hashFn) (entry : allocations.entry = true)
    (safe : Grows htable → allocations.newTable = true ∨ allocations.fallback = false) (key value : UInt64) :
    ∃ table, htableInsertWith allocations hashFn htable key value = some table ∧ table.WellFormed hashFn ∧
      table.entries.Perm (⟨key, value, doHash hashFn key⟩ :: htable.entries) ∧
      table.entryCount = htable.entryCount + 1 := by
  have counted : Hashtable.WellFormed hashFn { htable with entryCount := htable.entryCount + 1 } :=
    ⟨wellFormed.inTable, wellFormed.prime, wellFormed.length, wellFormed.placed, wellFormed.hashed⟩
  simp only [htableInsertWith, entry, if_true]
  split
  · rename_i full
    obtain ⟨roomy, expanded, fits, moved, count⟩ := hashtableExpandWith_spec allocations counted
      fun smaller => safe ⟨full, smaller⟩
    obtain ⟨grown, added⟩ := push_wellFormed fits key value
    rw [expanded]
    exact ⟨_, rfl, grown, added.trans (moved.cons _), count⟩
  · obtain ⟨grown, added⟩ := push_wellFormed counted key value
    exact ⟨_, rfl, grown, added, rfl⟩

theorem Registered.attempt_open {registry : Registry} {attempt : Attempt} {mode : UInt32} {path : Nat → UInt8}
    (registered : Registered registry.fs registry.opened) (allocated : Allocated registry attempt)
    (opens : attempt.lcall = .open mode path) :
    ∃ next, registry.attempt attempt = some next ∧ Registered next.fs next.opened := by
  obtain ⟨real, new⟩ := allocated.new mode path opens
  obtain ⟨entry, iter⟩ := allocated.nodes mode path opens
  obtain ⟨table, inserted, wellFormed, added, count⟩ := htableInsertWith_spec registered.wellFormed entry
    (allocated.table mode path opens) (fileOpen attempt.vfs path mode) (fileOpen attempt.vfs path mode)
  have absent : search registry.fs (fileOpen attempt.vfs path mode) = false := by
    rw [registered.search_eq, decide_eq_false_iff_not]
    exact new
  have entered := registered.enter real new wellFormed added count
  simp only [Registry.attempt, opens, handleWith, enclaveVfsOpenLcallWith, fileOpen_not_isErr, register, absent, inserted,
    iter, real]
  exact ⟨_, rfl, entered⟩

theorem Registered.attempt {registry : Registry} {attempt : Attempt}
    (registered : Registered registry.fs registry.opened) (allocated : Allocated registry attempt) :
    ∃ next, registry.attempt attempt = some next ∧ Registered next.fs next.opened := by
  have served := registered.serve allocated.new
  cases called : attempt.lcall with
  | «open» mode path => exact registered.attempt_open allocated called
  | close | size | read | write =>
      simp only [Registry.serve, called] at served
      simp only [Registry.attempt, called, handleWith]
      exact ⟨_, rfl, served⟩

theorem Registered.usable {registry : Registry} (registered : Registered registry.fs registry.opened) :
    Usable registry where
  accepted file member allocations vfs lcall about := by
    have accepted : Answer.missing ∉ (handle vfs registry.fs lcall).answers := (registered.accepted_iff about).mpr member
    cases lcall with
    | «open» mode path => cases about
    | close | size | read | write => exact ⟨_, rfl, accepted⟩
  closed file := by
    have listed : registry.fs.openFileList.Nodup := registered.listed.nodup_iff.mpr registered.distinct
    rw [deinitEnclaveFs, listed.count]
    simp only [registered.listed.mem_iff]

/-- In every run whose opens get their files and nodes, and whose fallback
reallocation never succeeds, every handle given out stays usable until it is
closed. -/
theorem handles_usable {state : Option Registry}
    (reached : allocating.Reachable (fun state attempt => ∀ registry, state = some registry →
      Allocated registry attempt) state) :
    ∃ registry, state = some registry ∧ Usable registry := by
  have registered : ∃ registry, state = some registry ∧ Registered registry.fs registry.opened := by
    apply reached.invariant
    · rintro start ⟨registry, rfl, created, empty⟩
      refine ⟨registry, rfl, ?_⟩
      rw [Registry.opened, empty]
      exact registered_init created
    · rintro state attempt next ⟨registry, rfl, registered⟩ allocated stepped
      cases stepped
      exact registered.attempt (allocated registry rfl)
  obtain ⟨registry, same, registered⟩ := registered
  exact ⟨registry, same, registered.usable⟩

def nodesOnly : Allocations :=
  { newTable := false, fallback := false, entry := true, iter := true }

theorem nodesOnly_allocated : Allocated ⟨noFiles, []⟩ ⟨⟨.open 0 noPath, opening 1⟩, nodesOnly⟩ where
  new mode path opens := by
    cases opens
    rw [fileOpen_opening (by decide)]
    exact ⟨by decide, List.not_mem_nil⟩
  nodes _ _ _ := ⟨rfl, rfl⟩
  table _ _ _ _ := .inr rfl

theorem usable_opened : ∃ registry,
    (Registry.mk noFiles []).attempt ⟨⟨.open 0 noPath, opening 1⟩, nodesOnly⟩ = some registry ∧
    Usable registry :=
  handles_usable
    ⟨some ⟨noFiles, []⟩, ⟨⟨noFiles, []⟩, rfl, initEnclaveFs_eq, rfl⟩,
      .single (fun registry same => by cases same; exact nodesOnly_allocated) rfl⟩

/-- Without its hash entry a file that was opened is not found again; without its
list node it is not closed. -/
theorem handle_lost :
    (∃ registry,
      (Registry.mk noFiles []).attempt ⟨⟨.open 0 noPath, opening 1⟩, { plenty with entry := false }⟩ = some registry ∧
      registry.opened = [1] ∧ (handle (opening 1) registry.fs (.size 1)).answers = [.missing] ∧ ¬ Usable registry) ∧
    (∃ registry,
      (Registry.mk noFiles []).attempt ⟨⟨.open 0 noPath, opening 1⟩, { plenty with iter := false }⟩ = some registry ∧
      registry.opened = [1] ∧ deinitEnclaveFs registry.fs = [] ∧ ¬ Usable registry) := by
  have missing : (handle (opening 1) (State.mk 1 ⟨53, List.replicate 53 [], 0, 35, 0⟩ [1]) (.size 1)).answers =
      [.missing] := by
    decide +kernel
  refine ⟨⟨⟨⟨1, ⟨53, List.replicate 53 [], 0, 35, 0⟩, [1]⟩, [.acquire 1]⟩, rfl, rfl, missing, fun usable => ?_⟩,
    ⟨_, rfl, rfl, rfl, fun usable => ?_⟩⟩
  · obtain ⟨outcome, handled, accepted⟩ := usable.accepted 1 (List.mem_singleton.mpr rfl) plenty (opening 1) (.size 1) rfl
    cases handled
    rw [missing] at accepted
    exact accepted (List.mem_singleton.mpr rfl)
  · exact absurd (usable.closed 1) (by decide)

end Runs

end Pisces.Fs
