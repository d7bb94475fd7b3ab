import Mathlib.Data.List.TakeWhile
import Pisces.Text

/-! # Launching a job

`pisces_run` from its options to the job specification that `pisces_run_job`
hands to the control channel.
-/

namespace Pisces.Run

open Text

abbrev Str := List UInt8

/-- What `getopt_long_only` makes of one option -/
inductive Opt where
  | jobFile
  | np (optarg : Str)
  | cpulist (optarg : Str)
  | useLargePages
  | useSmartmap
  | heapSize (optarg : Str)
  | stackSize (optarg : Str)
  | name (optarg : Str)
  | envp (optarg : Str)
  | unknown
  deriving DecidableEq

/-- The global variables that the options set -/
structure Settings where
  useJobFile : Bool
  numRanks : UInt32
  cpuList : Option Str
  useLargePages : UInt8
  useSmartmap : UInt8
  heapSize : UInt64
  stackSize : UInt64
  name : Option Str
  envp : Str
  deriving DecidableEq

def defaults : Settings where
  useJobFile := false
  numRanks := 1
  cpuList := none
  useLargePages := 0
  useSmartmap := 0
  heapSize := 16 * 1024 * 1024
  stackSize := 256 * 1024
  name := none
  envp := []

inductive Stop where
  | usage
  | jobFile
  /-- `free` of an argument of the command line -/
  | invalidFree
  /-- `strrchr` of a null pointer -/
  | noExe
  | invalidCpu (entry : Str)
  | missing
  | nameTooLarge
  | exeTooLarge
  | argvTooLarge
  | envpTooLarge
  deriving DecidableEq

/-- `struct pisces_job_spec`, with its strings up to the terminator -/
structure JobSpec where
  name : Str
  exePath : Str
  argv : Str
  envp : Str
  useLargePages : UInt8
  useSmartmap : UInt8
  numRanks : UInt8
  cpuMask : UInt64
  heapSize : UInt64
  stackSize : UInt64
  deriving DecidableEq

/-- `strtol(optarg, NULL, 10)` -/
def number (text : Str) : Int := (strtol 10 text).1

/-- `isdigit(*optarg)` -/
def startsWithDigit (text : Str) : Bool := text.head?.any (isDigit 10)

/-- An option that leads to `usage`: its number does not start with a digit, or
is zero in a variable of so many values. -/
def Opt.rejected : Opt → Bool
  | .np optarg => !startsWithDigit optarg || number optarg % 0x100000000 == 0
  | .heapSize optarg | .stackSize optarg =>
      !startsWithDigit optarg || number optarg % 0x10000000000000000 == 0
  | .unknown => true
  | _ => false

def Settings.set (settings : Settings) : Opt → Settings
  | .jobFile => { settings with useJobFile := true }
  | .np optarg => { settings with numRanks := UInt32.ofInt (number optarg) }
  | .cpulist optarg => { settings with cpuList := some optarg }
  | .useLargePages => { settings with useLargePages := 1 }
  | .useSmartmap => { settings with useSmartmap := 1 }
  | .heapSize optarg => { settings with heapSize := UInt64.ofInt (number optarg) * 1024 * 1024 }
  | .stackSize optarg => { settings with stackSize := UInt64.ofInt (number optarg) * 1024 * 1024 }
  | .name optarg => { settings with name := some optarg }
  | .envp optarg => { settings with envp := optarg }
  | .unknown => settings

/-- The loop over the options -/
def parseOptions (settings : Settings) : List Opt → Except Stop Settings
  | [] => .ok settings
  | option :: rest => if option.rejected then .error .usage else parseOptions (settings.set option) rest

/-- The loop over the arguments of the job: from the second on, what was joined
before is freed, which the first time is an element of `argv`. -/
def exeArgv : List Str → Except Stop (Option Str)
  | [] => .ok none
  | [argument] => .ok (some argument)
  | _ :: _ :: _ => .error .invalidFree

/-- `1ULL << idx`, shifted by the low six bits of the count -/
def shifted (idx : Int) : UInt64 := 1 <<< UInt64.ofInt idx

/-- The entries that `strsep` cuts off one after the other -/
def cpuEntries (list : Str) : List Str := list.splitOn 44

def invalidEntry (entry : Str) : Bool := atoi entry == 0 && entry.head? != some 48

/-- The loop over the entries -/
def cpuMask (mask : UInt64) : List Str → Except Stop UInt64
  | [] => .ok mask
  | entry :: rest =>
      if invalidEntry entry then .error (.invalidCpu entry) else cpuMask (mask ||| shifted (atoi entry)) rest

/-- Without a list, every CPU -/
def listMask : Option Str → Except Stop UInt64
  | none => .ok 0xffffffffffffffff
  | some list => cpuMask 0 (cpuEntries list)

/-- `pisces_run_job` up to the request -/
def piscesRunJob (name exePath exeArgv : Option Str) (envp : Str) (useLargePages useSmartmap numRanks : UInt8)
    (cpuMask heapSize stackSize : UInt64) : Except Stop JobSpec :=
  match name, exePath with
  | some name, some exePath =>
      if name.length > 63 then .error .nameTooLarge
      else if exePath.length > 255 then .error .exeTooLarge
      else if (exeArgv.getD []).length > 255 then .error .argvTooLarge
      else if envp.length > 255 then .error .envpTooLarge
      else
        .ok { name, exePath, argv := exeArgv.getD [], envp, useLargePages := useLargePages &&& 1
              useSmartmap := useSmartmap &&& 1, numRanks, cpuMask, heapSize, stackSize }
  | _, _ => .error .missing

/-- `main`, with what stands behind the options: the program and its arguments -/
def main (options : List Opt) (exePath : Option Str) (arguments : List Str) : Except Stop JobSpec := do
  let settings ← parseOptions defaults options
  if settings.useJobFile then .error .jobFile
  else
    let argv ← exeArgv arguments
    if settings.name = none ∧ exePath = none then .error .noExe
    else
      let name := settings.name <|> exePath.map afterSlash
      let mask ← listMask settings.cpuList
      piscesRunJob name exePath argv settings.envp settings.useLargePages settings.useSmartmap
        settings.numRanks.toUInt8 mask settings.heapSize settings.stackSize

/-! ## What was asked for -/

/-- The number that the last `--np` starts with, without a bound -/
def requestedNp (options : List Opt) : Nat :=
  options.foldl (fun requested option =>
    match option with
    | .np optarg => value 10 (optarg.takeWhile (isDigit 10))
    | _ => requested) 1

def requestedCpus (options : List Opt) : Option Str :=
  options.foldl (fun requested option =>
    match option with
    | .cpulist optarg => some optarg
    | _ => requested) none

/-- A plain decimal number of a CPU -/
def CpuNumber (entry : Str) : Prop :=
  entry ≠ [] ∧ (∀ byte ∈ entry, isDigit 10 byte = true) ∧ value 10 entry < 64

/-- The job is refused, or its specification carries the CPUs and the ranks
that the options ask for. -/
def AsAsked (options : List Opt) : Except Stop JobSpec → Prop
  | .error _ => True
  | .ok spec =>
      spec.numRanks.toNat = requestedNp options ∧
        ∀ list, requestedCpus options = some list →
          (∀ entry ∈ cpuEntries list, CpuNumber entry) ∧
            ∀ cpu < 64, spec.cpuMask.toNat.testBit cpu = true ↔ ∃ entry ∈ cpuEntries list, value 10 entry = cpu

/-- Everything that makes `pisces_run` stop before the request. -/
def Refused (options : List Opt) (exePath : Option Str) (arguments : List Str) : Prop :=
  (∃ option ∈ options, option.rejected = true) ∨ .jobFile ∈ options ∨ 2 ≤ arguments.length ∨ exePath = none ∨
    (∃ list, requestedCpus options = some list ∧ ∃ entry ∈ cpuEntries list, invalidEntry entry = true) ∨
    63 < (((options.foldl Settings.set defaults).name <|> exePath.map afterSlash).getD []).length ∨
    255 < (exePath.getD []).length ∨ 255 < (arguments.headD []).length ∨
    255 < (options.foldl Settings.set defaults).envp.length

variable {options : List Opt} {settings : Settings} {exePath : Option Str} {arguments entries : List Str}
  {entry list text : Str} {mask : UInt64} {spec : JobSpec}

/-! ## Numbers -/

/-- The digits that a text starts with are its number, up to the largest `long`. -/
theorem number_digits (digit : startsWithDigit text = true) :
    number text = min 0x7fffffffffffffff (value 10 (text.takeWhile (isDigit 10)) : Nat) := by
  cases text with
  | nil => simp [startsWithDigit] at digit
  | cons first rest =>
      have isFirst : isDigit 10 first = true := by simpa [startsWithDigit] using digit
      exact strtol_digits isFirst (skipPrefix_ten _)

theorem atoi_cpuNumber (number : CpuNumber entry) : atoi entry = value 10 entry := by
  obtain ⟨some_, digits, small⟩ := number
  obtain ⟨first, rest, rfl⟩ := List.exists_cons_of_ne_nil some_
  have whole : (first :: rest).takeWhile (isDigit 10) = first :: rest := List.takeWhile_eq_self_iff.mpr digits
  have starts : startsWithDigit (first :: rest) = true := by simpa [startsWithDigit] using digits first (by simp)
  have inLong : number (first :: rest) = value 10 (first :: rest) := by
    rw [number_digits starts, whole]
    omega
  rw [atoi, show (strtol 10 (first :: rest)).1 = value 10 (first :: rest) from inLong]
  apply Int.bmod_eq_of_le <;> omega

theorem requested_accepted (accepted : ¬ (Opt.np text).rejected = true) :
    (UInt32.ofInt (number text)).toNat =
      min 0x7fffffffffffffff (value 10 (text.takeWhile (isDigit 10))) % 0x100000000 := by
  have digit : startsWithDigit text = true := by
    simp only [Opt.rejected, Bool.or_eq_true, Bool.not_eq_true', not_or, Bool.not_eq_false] at accepted
    exact accepted.1
  rw [number_digits digit, UInt32.ofInt, UInt32.toNat_ofNat']
  omega

/-! ## The mask -/

theorem shifted_testBit {idx cpu : Nat} (small : idx < 64) : (shifted idx).toNat.testBit cpu = true ↔ idx = cpu := by
  have power : (shifted idx).toNat = 2 ^ idx := by
    have bound : (2 : Nat) ^ idx < 2 ^ 64 := Nat.pow_lt_pow_right (by decide) small
    have count : (UInt64.ofInt (idx : Int)).toNat % 64 = idx := by
      rw [UInt64.ofInt, UInt64.toNat_ofNat']
      omega
    rw [shifted, UInt64.toNat_shiftLeft, count, UInt64.toNat_one, Nat.one_shiftLeft, Nat.mod_eq_of_lt bound]
  rw [power, Nat.testBit_two_pow, decide_eq_true_eq]

theorem cpuMask_invalid (invalid : ∃ entry ∈ entries, invalidEntry entry = true) :
    ∃ stop, cpuMask mask entries = .error stop := by
  induction entries generalizing mask with
  | nil => simp at invalid
  | cons first rest ih =>
      cases refused : invalidEntry first with
      | true => exact ⟨.invalidCpu first, by simp only [cpuMask, refused, if_true]⟩
      | false =>
          have later : ∃ entry ∈ rest, invalidEntry entry = true := by simpa [refused] using invalid
          simpa [cpuMask, refused] using ih later

theorem cpuMask_valid (valid : ¬ ∃ entry ∈ entries, invalidEntry entry = true) :
    cpuMask mask entries = .ok (entries.foldl (fun mask entry => mask ||| shifted (atoi entry)) mask) := by
  induction entries generalizing mask with
  | nil => rfl
  | cons first rest ih =>
      simp only [List.exists_mem_cons_iff, not_or, Bool.not_eq_true] at valid
      have later : ¬ ∃ entry ∈ rest, invalidEntry entry = true := by simpa using valid.2
      simp only [cpuMask, valid.1, Bool.false_eq_true, if_false, ih later, List.foldl_cons]

/-- The bits of the mask are those of the numbers. -/
theorem mask_testBit {cpu : Nat} (numbers : ∀ entry ∈ entries, CpuNumber entry) :
    (entries.foldl (fun mask entry => mask ||| shifted (atoi entry)) mask).toNat.testBit cpu = true ↔
      mask.toNat.testBit cpu = true ∨ ∃ entry ∈ entries, value 10 entry = cpu := by
  induction entries generalizing mask with
  | nil => simp
  | cons first rest ih =>
      simp only [List.forall_mem_cons] at numbers
      rw [List.foldl_cons, ih numbers.2, UInt64.toNat_or, Nat.testBit_or, Bool.or_eq_true,
        atoi_cpuNumber numbers.1, shifted_testBit numbers.1.2.2, List.exists_mem_cons_iff, or_assoc]

theorem listMask_valid {list : Option Str}
    (valid : ¬ ∃ cpus, list = some cpus ∧ ∃ entry ∈ cpuEntries cpus, invalidEntry entry = true) :
    ∃ mask, listMask list = .ok mask := by
  cases list with
  | none => exact ⟨_, rfl⟩
  | some cpus => exact ⟨_, cpuMask_valid fun entry => valid ⟨cpus, rfl, entry⟩⟩

/-! ## The options -/

theorem parseOptions_rejected (rejected : ∃ option ∈ options, option.rejected = true) :
    parseOptions settings options = .error .usage := by
  induction options generalizing settings with
  | nil => simp at rejected
  | cons option rest ih =>
      rw [parseOptions]
      split
      · rfl
      · rename_i accepted
        exact ih (by simpa [accepted] using rejected)

theorem parseOptions_accepted (accepted : ¬ ∃ option ∈ options, option.rejected = true) :
    parseOptions settings options = .ok (options.foldl Settings.set settings) := by
  induction options generalizing settings with
  | nil => rfl
  | cons option rest ih =>
      simp only [List.exists_mem_cons_iff, not_or] at accepted
      rw [parseOptions, if_neg accepted.1, ih accepted.2, List.foldl_cons]

/-- The settings after the options agree with what was asked for, the number of
ranks as far as its variable goes. -/
theorem set_requested (accepted : ¬ ∃ option ∈ options, option.rejected = true) :
    (options.foldl Settings.set defaults).numRanks.toNat = min 0x7fffffffffffffff (requestedNp options) % 0x100000000 ∧
      (options.foldl Settings.set defaults).cpuList = requestedCpus options ∧
      ((options.foldl Settings.set defaults).useJobFile = true ↔ .jobFile ∈ options) := by
  induction options using List.reverseRecOn with
  | nil => exact ⟨by decide, rfl, by decide⟩
  | append_singleton rest option ih =>
      simp only [List.mem_append, List.mem_singleton, or_and_right, exists_or, exists_eq_left, not_or] at accepted
      obtain ⟨ranks, cpus, jobFile⟩ := ih accepted.1
      simp only [requestedNp, requestedCpus, List.foldl_append, List.foldl_cons, List.foldl_nil, List.mem_append,
        List.mem_singleton] at ranks cpus jobFile ⊢
      cases option with
      | np optarg => exact ⟨requested_accepted accepted.2, cpus, by simpa [Settings.set] using jobFile⟩
      | cpulist optarg => exact ⟨ranks, rfl, by simpa [Settings.set] using jobFile⟩
      | jobFile => exact ⟨ranks, cpus, by simp [Settings.set]⟩
      | _ => exact ⟨ranks, cpus, by simpa [Settings.set] using jobFile⟩

/-! ## The whole run -/

theorem exeArgv_several (several : 2 ≤ arguments.length) : exeArgv arguments = .error .invalidFree := by
  match arguments, several with
  | _ :: _ :: _, _ => rfl

theorem exeArgv_few (few : ¬ 2 ≤ arguments.length) :
    ∃ argv, exeArgv arguments = .ok argv ∧ argv.getD [] = arguments.headD [] := by
  match arguments, few with
  | [], _ => exact ⟨none, rfl, rfl⟩
  | [argument], _ => exact ⟨some argument, rfl, rfl⟩
  | _ :: _ :: _, few => exact absurd (by simp) few

theorem piscesRunJob_large {name exe envp : Str} {argv : Option Str} {large smart ranks : UInt8}
    {mask heap stack : UInt64}
    (large_ : 63 < name.length ∨ 255 < exe.length ∨ 255 < (argv.getD []).length ∨ 255 < envp.length) :
    ∃ stop, piscesRunJob (some name) (some exe) argv envp large smart ranks mask heap stack = .error stop := by
  simp only [piscesRunJob]
  split
  · exact ⟨_, rfl⟩
  · split
    · exact ⟨_, rfl⟩
    · split
      · exact ⟨_, rfl⟩
      · split
        · exact ⟨_, rfl⟩
        · omega

theorem piscesRunJob_small {name exe envp : Str} {argv : Option Str} {large smart ranks : UInt8}
    {mask heap stack : UInt64}
    (small : ¬ (63 < name.length ∨ 255 < exe.length ∨ 255 < (argv.getD []).length ∨ 255 < envp.length)) :
    ∃ spec, piscesRunJob (some name) (some exe) argv envp large smart ranks mask heap stack = .ok spec ∧
      spec.numRanks = ranks ∧ spec.cpuMask = mask := by
  simp only [not_or, Nat.not_lt] at small
  obtain ⟨nameFits, exeFits, argvFits, envpFits⟩ := small
  simp only [piscesRunJob, Nat.not_lt.mpr nameFits, Nat.not_lt.mpr exeFits, Nat.not_lt.mpr argvFits,
    Nat.not_lt.mpr envpFits, if_false]
  exact ⟨_, rfl, rfl, rfl⟩

theorem main_accepted (accepted : ¬ ∃ option ∈ options, option.rejected = true) (noJobFile : .jobFile ∉ options) :
    main options exePath arguments = (do
      let argv ← exeArgv arguments
      if (options.foldl Settings.set defaults).name = none ∧ exePath = none then .error .noExe
      else
        let mask ← listMask (requestedCpus options)
        piscesRunJob ((options.foldl Settings.set defaults).name <|> exePath.map afterSlash) exePath argv
          (options.foldl Settings.set defaults).envp (options.foldl Settings.set defaults).useLargePages
          (options.foldl Settings.set defaults).useSmartmap (options.foldl Settings.set defaults).numRanks.toUInt8 mask
          (options.foldl Settings.set defaults).heapSize (options.foldl Settings.set defaults).stackSize) := by
  obtain ⟨-, cpus, jobFile⟩ := set_requested accepted
  have no : (options.foldl Settings.set defaults).useJobFile = false := by
    simpa [noJobFile] using jobFile
  rw [main, parseOptions_accepted accepted, ← cpus]
  simp only [bind, Except.bind, no, Bool.false_eq_true, if_false]

/-- A run stops for one of the reasons listed, or sends a specification with the
ranks and the mask of the settings. -/
theorem main_cases (options : List Opt) (exePath : Option Str) (arguments : List Str) :
    (Refused options exePath arguments ∧ ∃ stop, main options exePath arguments = .error stop) ∨
      (¬ Refused options exePath arguments ∧ ∃ spec, main options exePath arguments = .ok spec ∧
        spec.numRanks = (options.foldl Settings.set defaults).numRanks.toUInt8 ∧
        listMask (requestedCpus options) = .ok spec.cpuMask) := by
  by_cases rejected : ∃ option ∈ options, option.rejected = true
  · refine .inl ⟨.inl rejected, .usage, ?_⟩
    rw [main, parseOptions_rejected rejected]
    rfl
  by_cases jobFile : .jobFile ∈ options
  · refine .inl ⟨.inr (.inl jobFile), .jobFile, ?_⟩
    have yes := (set_requested rejected).2.2.mpr jobFile
    rw [main, parseOptions_accepted rejected]
    simp only [bind, Except.bind, yes, if_true]
  rw [main_accepted rejected jobFile]
  by_cases several : 2 ≤ arguments.length
  · refine .inl ⟨.inr (.inr (.inl several)), .invalidFree, ?_⟩
    rw [exeArgv_several several]
    rfl
  obtain ⟨argv, joined, head⟩ := exeArgv_few several
  simp only [joined, bind, Except.bind]
  cases exe : exePath with
  | none =>
      refine .inl ⟨.inr (.inr (.inr (.inl rfl))), ?_⟩
      split
      · exact ⟨_, rfl⟩
      · cases listMask (requestedCpus options) with
        | error stop => exact ⟨stop, rfl⟩
        | ok mask => exact ⟨.missing, by simp [piscesRunJob]⟩
  | some path =>
      simp only [reduceCtorEq, and_false, if_false]
      by_cases invalid : ∃ list, requestedCpus options = some list ∧ ∃ entry ∈ cpuEntries list, invalidEntry entry = true
      · refine .inl ⟨.inr (.inr (.inr (.inr (.inl invalid)))), ?_⟩
        obtain ⟨list, requested, entries⟩ := invalid
        obtain ⟨stop, failed⟩ := @cpuMask_invalid _ 0 entries
        exact ⟨stop, by rw [requested, listMask, failed]⟩
      · obtain ⟨mask, masked⟩ := listMask_valid invalid
        obtain ⟨name, named⟩ : ∃ name,
            ((options.foldl Settings.set defaults).name <|> (some path).map afterSlash) = some name := by
          cases (options.foldl Settings.set defaults).name with
          | none => exact ⟨_, rfl⟩
          | some name => exact ⟨name, rfl⟩
        have lengths : Refused options (some path) arguments ↔ 63 < name.length ∨ 255 < path.length ∨
            255 < (argv.getD []).length ∨ 255 < (options.foldl Settings.set defaults).envp.length := by
          simp only [Refused, rejected, jobFile, several, invalid, named, head, Option.getD_some, false_or, reduceCtorEq]
        simp only [masked, named, lengths]
        by_cases large : 63 < name.length ∨ 255 < path.length ∨
            255 < (argv.getD []).length ∨ 255 < (options.foldl Settings.set defaults).envp.length
        · exact .inl ⟨large, piscesRunJob_large large⟩
        · obtain ⟨spec, sent, ranks, carried⟩ := piscesRunJob_small large
          exact .inr ⟨large, spec, sent, ranks, by rw [carried]⟩

/-- The specification is as asked exactly if the run stops for another reason,
or the ranks fit a byte and the list has plain numbers of CPUs below 64 only. -/
theorem run_job_as_asked (options : List Opt) (exePath : Option Str) (arguments : List Str) :
    AsAsked options (main options exePath arguments) ↔
      Refused options exePath arguments ∨
        (requestedNp options < 256 ∧
          ∀ list, requestedCpus options = some list → ∀ entry ∈ cpuEntries list, CpuNumber entry) := by
  rcases main_cases options exePath arguments with ⟨refused, stop, stopped⟩ | ⟨accepted, spec, sent, ranks, masked⟩
  · rw [stopped]
    exact iff_of_true trivial (.inl refused)
  · have valid : ¬ ∃ option ∈ options, option.rejected = true := fun rejected => accepted (.inl rejected)
    have number := (set_requested valid).1
    have narrowed : spec.numRanks.toNat = min 0x7fffffffffffffff (requestedNp options) % 0x100000000 % 256 := by
      rw [ranks, UInt32.toNat_toUInt8, number]
    rw [sent, AsAsked]
    constructor
    · intro ⟨equal, cpus⟩
      refine .inr ⟨?_, fun list requested => (cpus list requested).1⟩
      have bound := spec.numRanks.toNat_lt
      omega
    · intro possible
      obtain ⟨small, cpus⟩ := possible.resolve_left accepted
      refine ⟨by omega, fun list requested => ⟨cpus list requested, fun cpu bound => ?_⟩⟩
      have readable : ¬ ∃ entry ∈ cpuEntries list, invalidEntry entry = true :=
        fun invalid => accepted (.inr (.inr (.inr (.inr (.inl ⟨list, requested, invalid⟩)))))
      rw [requested, listMask, cpuMask_valid readable, Except.ok.injEq] at masked
      rw [← masked, mask_testBit (cpus list requested)]
      simp

/-- 300 ranks become 44, and CPU 64 becomes CPU 0. -/
theorem run_job_wraps :
    (∃ spec, main [.np [51, 48, 48], .cpulist [54, 52]] (some [97]) [] = .ok spec ∧
      spec.numRanks = 44 ∧ spec.cpuMask = 1) ∧
    ¬ AsAsked [.np [51, 48, 48]] (main [.np [51, 48, 48]] (some [97]) []) ∧
    ¬ AsAsked [.cpulist [54, 52]] (main [.cpulist [54, 52]] (some [97]) []) := by
  refine ⟨⟨_, rfl, rfl, rfl⟩, fun asked => ?_, fun asked => ?_⟩
  · have ranks : (44 : UInt8).toNat = requestedNp [.np [51, 48, 48]] := asked.1
    exact absurd ranks (by decide)
  · have number := (asked.2 [54, 52] rfl).1 [54, 52] (by decide)
    exact absurd number.2.2 (by decide)

end Pisces.Run
