import Pisces.Boot.Params
import Pisces.Enclave.Descriptors

/-! # The image files of an enclave

`pisces_enclave_create` takes a reference to the kernel and to the initrd,
`enclave_last_put` drops them, and every launch in between reads both files.
-/

namespace Pisces.Enclave.Images

open Boot.Params Transition

inductive Image where
  | kernel
  | initrd
  deriving DecidableEq

/-- What happens to the files, newest first in a log -/
inductive Event where
  | fget (image : Image)
  /-- `load_kernel` or `load_initrd` goes on to its file. -/
  | read (image : Image)
  /-- `file_close` -/
  | close (image : Image)
  | fput (image : Image)
  deriving DecidableEq

/-- Which of `kern_file` and `init_file` are not NULL -/
structure Files where
  kernFile : Bool
  initFile : Bool
  deriving DecidableEq

def Files.has (files : Files) : Image → Bool
  | .kernel => files.kernFile
  | .initrd => files.initFile

inductive Phase where
  | absent
  | present (descriptors : Descriptors.State)
  /-- `pisces_enclave_create` has freed what it could not register. -/
  | discarded
  deriving DecidableEq

structure State where
  phase : Phase
  files : Files
  log : List Event
  deriving DecidableEq

/-- A run of `pisces_enclave_launch`, with the files as it finds them -/
structure Attempt where
  /-- `pisces_cons_init` is reached. -/
  consInit : Bool
  /-- `pisces_lcall_init` succeeds. -/
  lcallInit : Bool
  /-- `load_kernel` is reached then. -/
  prepared : Bool
  kernelTarget : UInt64
  initrdTarget : UInt64
  kernel : File
  initrd : File
  /-- `boot_enclave` succeeds. -/
  booted : Bool

/-- `load_kernel` and `load_initrd`: a file that does not come whole is closed. -/
def loadImage (file : Bool) (image : Image) (content : File) (target : UInt64) (log : List Event) : Bool × List Event :=
  if !file then (false, log)
  else if (loadLoop content target 0).2 then (true, .read image :: log)
  else (false, .close image :: .read image :: log)

/-- What `setup_boot_params` does with the files -/
def setupImages (files : Files) (attempt : Attempt) (log : List Event) : Bool × List Event :=
  if !(attempt.consInit && attempt.lcallInit && attempt.prepared) then (false, log)
  else
    let kernel := loadImage files.kernFile .kernel attempt.kernel attempt.kernelTarget log
    if kernel.1 then loadImage files.initFile .initrd attempt.initrd attempt.initrdTarget kernel.2
    else kernel

/-- `enclave_last_put`; `fput` does not come back from a NULL pointer. -/
def enclaveLastPut (files : Files) (log : List Event) : List Event :=
  if files.kernFile then
    if files.initFile then .fput .initrd :: .fput .kernel :: log else .fput .kernel :: log
  else log

/-- `pisces_enclave_create`, with the answers of `fget` and of the registration
of the device -/
def enclaveCreate (kernFd initFd registered : Bool) : State where
  phase := if registered then .present Descriptors.create else .discarded
  files := ⟨kernFd, initFd⟩
  log := (if initFd then [.fget .initrd] else []) ++ (if kernFd then [.fget .kernel] else [])

/-- A request about an enclave, and `enclave_last_put` if it gives up the last reference -/
def State.request (state : State) (operation : Descriptors.Operation) : Option State :=
  match state.phase with
  | .present descriptors =>
      match Descriptors.step descriptors operation with
      | none => none
      | some next =>
          some { state with
            phase := .present next
            log := if descriptors.lastPuts < next.lastPuts then enclaveLastPut state.files state.log else state.log }
  | _ => none

/-- The long-call thread, which RESET and FREE stop -/
def State.kernThread (state : State) : Descriptors.KernThread :=
  match state.phase with
  | .present descriptors => descriptors.kernThread
  | _ => .null

inductive Operation where
  | create (kernFd initFd registered : Bool)
  | openDevice
  | closeDevice
  | launch (attempt : Attempt)
  | reset (attempt : Attempt)
  | free

def step (state : State) : Operation → Option State
  | .create kernFd initFd registered =>
      if state.phase = .absent then some (enclaveCreate kernFd initFd registered) else none
  | .openDevice => state.request .openDevice
  | .closeDevice => state.request (.close .device)
  | .launch attempt =>
      let setup := setupImages state.files attempt state.log
      { state with log := setup.2 }.request (.launch attempt.consInit attempt.lcallInit (setup.1 && attempt.booted))
  | .reset attempt =>
      -- without a thread to stop, RESET does not come to the launch
      let setup :=
        if state.kernThread = .live then setupImages state.files attempt state.log else (false, state.log)
      { state with log := setup.2 }.request (.reset attempt.consInit attempt.lcallInit (setup.1 && attempt.booted))
  | .free => state.request .free

def absent : State := ⟨.absent, ⟨false, false⟩, []⟩

def system : System State Operation where
  initial state := state = absent
  step := step

/-- Freed, and without a descriptor that is still open -/
def gone (descriptors : Descriptors.State) : Bool :=
  !descriptors.mapped && descriptors.opened.isEmpty

/-- The enclave does not exist any more. -/
def State.ended (state : State) : Bool :=
  match state.phase with
  | .absent => false
  | .present descriptors => gone descriptors
  | .discarded => true

/-- Reads are of files to which the enclave has its reference. -/
def ReadsHeld : List Event → Prop
  | [] => True
  | .read image :: log =>
      (.fget image ∈ log ∧ .close image ∉ log ∧ .fput image ∉ log) ∧ ReadsHeld log
  | .fget _ :: log => ReadsHeld log
  | .close _ :: log => ReadsHeld log
  | .fput _ :: log => ReadsHeld log

/-- The files that a launch reads come whole. -/
def Whole (files : Files) (attempt : Attempt) : Prop :=
  attempt.consInit = true → attempt.lcallInit = true → attempt.prepared = true → files.kernFile = true →
    attempt.kernel.Loads ∧ (files.initFile = true → attempt.initrd.Loads)

/-- Steps that do not meet a defect: an enclave that cannot be registered has no
file yet, NULL is not put before the initrd, no file that is read comes short, and
FREE finds a long-call thread to stop. -/
def Complete (state : State) : Operation → Prop
  | .create kernFd initFd registered => (registered = false → kernFd = false) ∧ (kernFd = false → initFd = false)
  | .launch attempt => Whole state.files attempt
  | .reset attempt => state.kernThread = .live → Whole state.files attempt
  | .free => state.kernThread = .live
  | _ => True

/-- The files of an enclave that exists, or has been given up -/
structure Account (files : Files) (given : Bool) (log : List Event) : Prop where
  pointers : files.kernFile = false → files.initFile = false
  closed : ∀ image, .close image ∉ log
  taken : ∀ image, log.count (.fget image) = if files.has image then 1 else 0
  dropped : ∀ image, log.count (.fput image) = if files.has image && given then 1 else 0
  held : ReadsHeld log

def Kept (state : State) : Prop :=
  match state.phase with
  | .absent => state.log = []
  | .present descriptors => Descriptors.Referenced descriptors ∧ Account state.files (gone descriptors) state.log
  | .discarded => state.log = []

section Kept

variable {files : Files} {log : List Event} {image : Image} {content : File} {target : UInt64} {attempt : Attempt}
  {descriptors next : Descriptors.State} {operation : Descriptors.Operation} {state after : State}

theorem loadLoop_whole : (loadLoop content target 0).2 = true ↔ content.Loads := by
  by_cases small : content.size.toNat < 0x8000000000000000
  · have loop := (loadLoop_spec (fun _ => True) content target small 0 (Nat.zero_le _) (Nat.zero_le _)).2
    rw [loop, File.Loads]
    exact (and_iff_right small).symm
  · rw [loadLoop_refused content target (Nat.le_of_not_lt small), File.Loads]
    simp [small]

theorem Account.read (account : Account files false log) (has : files.has image = true) :
    Account files false (.read image :: log) where
  pointers := account.pointers
  closed other := by
    rw [List.mem_cons, not_or]
    exact ⟨by simp, account.closed other⟩
  taken other := by
    rw [List.count_cons_of_ne (by simp)]
    exact account.taken other
  dropped other := by
    rw [List.count_cons_of_ne (by simp)]
    exact account.dropped other
  held := by
    have taken := account.taken image
    have dropped := account.dropped image
    rw [has, if_pos rfl] at taken
    rw [Bool.and_false, if_neg (by simp)] at dropped
    have present : .fget image ∈ log := List.count_pos_iff.mp (by omega)
    exact ⟨⟨present, account.closed image, List.count_eq_zero.mp dropped⟩, account.held⟩

theorem Account.loadImage (account : Account files false log) (whole : files.has image = true → content.Loads) :
    Account files false (Images.loadImage (files.has image) image content target log).2 ∧
      ((Images.loadImage (files.has image) image content target log).1 = true → files.has image = true) := by
  unfold Images.loadImage
  cases has : files.has image with
  | false => exact ⟨account, fun loaded => by cases loaded⟩
  | true =>
      have loads : (loadLoop content target 0).2 = true := loadLoop_whole.mpr (whole has)
      simp only [loads, Bool.not_true, Bool.false_eq_true, if_false, if_true, implies_true, and_true]
      exact account.read has

theorem Account.setupImages (account : Account files false log)
    (whole : Whole files attempt) : Account files false (Images.setupImages files attempt log).2 := by
  unfold Images.setupImages
  split
  · exact account
  · rename_i reached
    simp only [Bool.not_eq_true', Bool.not_eq_false, Bool.and_eq_true] at reached
    have complete := whole reached.1.1 reached.1.2 reached.2
    obtain ⟨read, loaded⟩ := @Account.loadImage files log .kernel attempt.kernel attempt.kernelTarget account
      fun has => (complete has).1
    dsimp only
    split
    · rename_i more
      have second := (complete (loaded more)).2
      exact (@Account.loadImage files _ .initrd attempt.initrd attempt.initrdTarget read second).1
    · exact read

theorem Account.lastPut (account : Account files false log) : Account files true (enclaveLastPut files log) := by
  obtain ⟨pointers, closed, taken, dropped, held⟩ := account
  have none : ∀ image, log.count (.fput image) = 0 := by
    intro image
    rw [dropped image, Bool.and_false, if_neg (by simp)]
  obtain ⟨kernFile, initFile⟩ := files
  cases kernFile with
  | false =>
      obtain rfl : initFile = false := pointers rfl
      refine ⟨pointers, closed, taken, ?_, held⟩
      intro image
      cases image <;> exact none _
  | true =>
      cases initFile with
      | false =>
          refine ⟨pointers, ?_, ?_, ?_, held⟩
          · simpa [enclaveLastPut] using closed
          · simpa [enclaveLastPut] using taken
          · intro image
            cases image <;> simp [enclaveLastPut, none, Files.has]
      | true =>
          refine ⟨pointers, ?_, ?_, ?_, held⟩
          · simpa [enclaveLastPut] using closed
          · simpa [enclaveLastPut] using taken
          · intro image
            cases image <;> simp [enclaveLastPut, none, Files.has]

/-- Nothing can be asked of an enclave that is gone. -/
theorem not_gone (stepped : Descriptors.step descriptors operation = some next) : gone descriptors = false := by
  obtain ⟨status, refcount, lastPuts, connected, mapped, kernThread, opLocked, opened⟩ := descriptors
  cases mapped with
  | true => rfl
  | false =>
      cases opened with
      | cons kind rest => rfl
      | nil => cases operation <;> simp [Descriptors.step, Descriptors.State.served] at stepped

theorem lastPuts_eq (referenced : Descriptors.Referenced descriptors) :
    descriptors.lastPuts = if gone descriptors then 1 else 0 := by
  rw [referenced.lastPuts]
  simp [gone]

theorem Kept.request (referenced : Descriptors.Referenced descriptors)
    (account : gone descriptors = false → Account files false log)
    (requested : State.request ⟨.present descriptors, files, log⟩ operation = some after)
    (counted : Descriptors.Counted descriptors operation) : Kept after := by
  simp only [State.request] at requested
  split at requested
  · cases requested
  · rename_i next stepped
    cases requested
    have standing := not_gone stepped
    have later := referenced.step counted stepped
    refine ⟨later, ?_⟩
    have before : descriptors.lastPuts = 0 := by rw [lastPuts_eq referenced, standing]; rfl
    rw [before, lastPuts_eq later]
    cases gone next with
    | false => exact account standing
    | true => exact (account standing).lastPut

theorem kept_create {kernFd initFd registered : Bool}
    (complete : (registered = false → kernFd = false) ∧ (kernFd = false → initFd = false)) :
    Kept (enclaveCreate kernFd initFd registered) := by
  obtain ⟨unregistered, pointers⟩ := complete
  cases registered with
  | false =>
      obtain rfl := unregistered rfl
      obtain rfl := pointers rfl
      rfl
  | true =>
      refine ⟨⟨by decide, by decide, by simp [Descriptors.create]⟩, ?_⟩
      refine ⟨pointers, ?_, ?_, ?_, ?_⟩
      · cases kernFd <;> cases initFd <;> simp [enclaveCreate]
      · intro image
        cases kernFd <;> cases initFd <;> cases image <;> rfl
      · intro image
        cases kernFd <;> cases initFd <;> cases image <;> rfl
      · cases kernFd <;> cases initFd <;> trivial

theorem Kept.step (kept : Kept state) {operation : Operation} (complete : Complete state operation)
    (stepped : Images.step state operation = some after) : Kept after := by
  obtain ⟨phase, files, log⟩ := state
  cases phase with
  | absent =>
      cases operation <;> simp [Images.step, State.request] at stepped
      subst stepped
      exact kept_create complete
  | discarded => cases operation <;> simp [Images.step, State.request] at stepped
  | present descriptors =>
      obtain ⟨referenced, account⟩ := kept
      have standing : gone descriptors = false → Account files false log := fun same => same ▸ account
      cases operation with
      | create kernFd initFd registered => simp [Images.step] at stepped
      | openDevice => exact Kept.request referenced standing stepped trivial
      | closeDevice => exact Kept.request referenced standing stepped trivial
      | launch attempt =>
          exact Kept.request referenced (fun same => (standing same).setupImages complete) stepped trivial
      | reset attempt =>
          refine Kept.request referenced (fun same => ?_) stepped trivial
          by_cases live : descriptors.kernThread = .live
          · have reads : State.kernThread ⟨.present descriptors, files, log⟩ = .live := live
            rw [if_pos reads]
            exact (standing same).setupImages (complete live)
          · have reads : State.kernThread ⟨.present descriptors, files, log⟩ ≠ .live := live
            rw [if_neg reads]
            exact standing same
      | free => exact Kept.request referenced standing stepped complete

end Kept

/-- A file of one page, with what can be read of it -/
def page (readable : Nat) : File where
  size := 4096
  readable := readable
  chunk length offset := min length (readable - offset)
  chunk_bounded length offset positive inside := by omega

def attempt (readable : Nat) : Attempt := ⟨true, true, true, 0x200000, 0xc00000, page readable, page 4096, true⟩

/-- An enclave with both files and an open device -/
def loaded : State where
  phase := .present ⟨.loaded, 2, 0, false, true, .null, false, [.device]⟩
  files := ⟨true, true⟩
  log := [.fget .initrd, .fget .kernel]

end Pisces.Enclave.Images
