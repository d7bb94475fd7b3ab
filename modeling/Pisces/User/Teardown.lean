import Pisces.Enclave.Reset
import Pisces.Text

/-! # Giving an enclave's resources back

`pisces_teardown` reads the enclave's CPUs and memory blocks from the proc files
and onlines them: `proc_cpu_show` and `proc_mem_show`, the parsing of their text,
and the loops over Linux memory blocks.
-/

namespace Pisces.User.Teardown

open Text Enclave

/-- `pet_block_size`: the kernel's memory blocks are a power of two of whole pages. -/
structure BlockSize where
  exponent : Nat
  pages : 12 ≤ exponent
  word : exponent < 64

def BlockSize.bytes (size : BlockSize) : Nat := 2 ^ size.exponent

def asInt (number : Nat) : Int :=
  if number % 0x100000000 < 0x80000000 then (number % 0x100000000 : Nat)
  else (number % 0x100000000 : Nat) - 0x100000000

def asUnsignedLong (number : Int) : Nat := (number % 0x10000000000000000).toNat

/-- "Num CPUs: " -/
def cpuHdrStr : List UInt8 := [78, 117, 109, 32, 67, 80, 85, 115, 58, 32]

/-- "CPU " -/
def cpuEntryStr : List UInt8 := [67, 80, 85, 32]

/-- "Num Memory Blocks: " -/
def memHdrStr : List UInt8 :=
  [78, 117, 109, 32, 77, 101, 109, 111, 114, 121, 32, 66, 108, 111, 99, 107, 115, 58, 32]

/-- ": " -/
def colon : List UInt8 := [58, 32]

/-- " - " -/
def dash : List UInt8 := [32, 45, 32]

def header (hdrStr : List UInt8) (count : UInt32) : List UInt8 :=
  hdrStr ++ printInt (asInt count.toNat) ++ [newline]

def cpuLine (cpu : Nat) : List UInt8 :=
  cpuEntryStr ++ printInt (asInt cpu) ++ [newline]

/-- The header counts what was added, the lines are those that `for_each_cpu` comes
to. -/
def procCpuShow (nrCpuIds : Nat) (record : Record) : List UInt8 :=
  header cpuHdrStr record.numCpus ++ (Reset.cpuList nrCpuIds record).flatMap cpuLine

/-- `iter->base_addr + (iter->pages * 4096)`; the product is a `u32`. -/
def endAddr (block : MemBlock) : UInt64 :=
  block.baseAddr + (block.pages * 4096).toUInt64

/-- `%p` prints 16 hexadecimal digits. -/
def memLine (block : MemBlock) (index : Nat) : List UInt8 :=
  printInt (asInt index) ++ colon ++ fixedHex 16 block.baseAddr.toNat ++ dash ++
    fixedHex 16 (endAddr block).toNat ++ [newline]

def procMemShow (record : Record) : List UInt8 :=
  header memHdrStr record.memdescNum ++ record.memdescList.zipIdx.flatMap fun (block, index) => memLine block index

/-- A loop of `pisces_teardown`: one entry a line, an error when a line is missing or wrong -/
def readEntries {Entry : Type*} (size : Nat) (parse : List UInt8 → Option Entry) :
    Nat → List UInt8 → Option (List Entry)
  | 0, _ => some []
  | count + 1, file =>
      if (fgets size file).1 = [] then none
      else
        match parse (fgets size file).1 with
        | none => none
        | some entry => (readEntries size parse count (fgets size file).2).map (entry :: ·)

def readFile {Entry : Type*} (hdrStr : List UInt8) (size : Nat) (parse : List UInt8 → Option Entry)
    (file : List UInt8) : Option (List Entry) :=
  let line := (fgets 62 file).1
  if hdrStr.isPrefixOf line then
    readEntries size parse (asUnsignedLong (atoi (line.drop hdrStr.length))) (fgets 62 file).2
  else none

def parseCpu (line : List UInt8) : Option UInt32 :=
  if cpuEntryStr.isPrefixOf line then some (.ofInt (atoi (line.drop cpuEntryStr.length))) else none

def expect (literal text : List UInt8) : Option (List UInt8) :=
  if literal.isPrefixOf text then some (text.drop literal.length) else none

/-- `([0-9A-Fa-f]{16})` -/
def hexField (text : List UInt8) : Option (List UInt8 × List UInt8) :=
  if 16 ≤ text.length ∧ (text.take 16).all (isDigit 16) then some (text.take 16, text.drop 16) else none

/-- `MEM_REGEX_STR` at the start of a text, and its two groups -/
def matchAt (text : List UInt8) : Option (List UInt8 × List UInt8) :=
  if (text.takeWhile (isDigit 10)).isEmpty then none
  else do
    let text ← expect colon (text.dropWhile (isDigit 10))
    let (first, text) ← hexField text
    let text ← expect dash text
    let (second, _) ← hexField text
    some (first, second)

/-- `regexec`: the first match in the line -/
def regexec : List UInt8 → Option (List UInt8 × List UInt8)
  | [] => none
  | byte :: text =>
      match matchAt (byte :: text) with
      | some groups => some groups
      | none => regexec text

def parseMem (line : List UInt8) : Option (Nat × Nat) :=
  (regexec line).map fun (first, second) => ((strtol 16 first).1.toNat, (strtol 16 second).1.toNat)

/-- The loop over the Linux memory blocks of an entry -/
def onlineBlocks (size : BlockSize) (entry : Nat × Nat) : List Int :=
  let numBlks := asInt ((entry.2 + 0x10000000000000000 - entry.1) % 0x10000000000000000 / size.bytes)
  (List.range numBlks.toNat).map fun i => asInt (entry.1 / size.bytes + i)

/-- What is handed to `pet_online_block` and `pet_online_cpu` -/
structure Onlined where
  blocks : List Int
  cpus : List UInt32
  deriving DecidableEq

/-- `pisces_teardown` as far as CPUs and memory go; each entry is put at the head
of `resource_list`. -/
def piscesTeardown (size : BlockSize) (cpuFile memFile : List UInt8) : Option Onlined := do
  let cpus ← readFile cpuHdrStr 30 parseCpu cpuFile
  let memory ← readFile memHdrStr 126 parseMem memFile
  some { blocks := memory.reverse.flatMap (onlineBlocks size), cpus := cpus.reverse }

def coveredBy (size : BlockSize) (block : MemBlock) : List Int :=
  (List.range (block.pages.toNat * 4096 / size.bytes)).map fun i => ((block.baseAddr.toNat / size.bytes + i : Nat) : Int)

def covered (size : BlockSize) (record : Record) : List Int :=
  record.memdescList.flatMap (coveredBy size)

/-- The record's counters are right, and its blocks consist of Linux memory blocks. -/
structure Consistent (size : BlockSize) (record : Record) : Prop where
  memory : record.memdescNum.toNat = record.memdescList.length
  cpus : record.numCpus.toNat = record.assignedCpus.card
  base : ∀ block ∈ record.memdescList, size.bytes ∣ block.baseAddr.toNat
  size : ∀ block ∈ record.memdescList, size.bytes ∣ block.pages.toNat * 4096

def Separate (record : Record) : Prop :=
  record.memdescList.Pairwise fun left right =>
    left.baseAddr.toNat + left.pages.toNat * 4096 ≤ right.baseAddr.toNat ∨
      right.baseAddr.toNat + right.pages.toNat * 4096 ≤ left.baseAddr.toNat

/-- Everything comes back, and nothing else: what each block covers, once unless
blocks overlap, and each CPU once. -/
structure Returned (size : BlockSize) (record : Record) (onlined : Onlined) : Prop where
  blocks : onlined.blocks.Perm (covered size record)
  once : Separate record → onlined.blocks.Nodup
  cpus : onlined.cpus.Perm record.assignedCpus.toList

/-- The headers are printed as they are, Linux knows every CPU, no block has 4 GB or
more, and Linux block numbers fit an `int`. -/
structure Returnable (nrCpuIds : Nat) (size : BlockSize) (record : Record) : Prop where
  memory : record.memdescList.length < 0x80000000
  cpus : record.assignedCpus.card < 0x80000000
  known : ∀ cpu ∈ record.assignedCpus, cpu.toNat < nrCpuIds
  small : ∀ block ∈ record.memdescList, block.pages.toNat * 4096 < 0x100000000
  numbered : ∀ block ∈ record.memdescList, block.pages ≠ 0 →
    (block.baseAddr.toNat + block.pages.toNat * 4096) / size.bytes ≤ 0x80000000

section Reading

variable {Item Entry : Type*} {parse : List UInt8 → Option Entry} {format : Item → List UInt8} {size : Nat}

/-- A text of one line that `fgets` reads as a whole -/
def IsLine (size : Nat) (text : List UInt8) : Prop :=
  ∃ line, text = line ++ [newline] ∧ newline ∉ line ∧ line.length < size

theorem IsLine.fgets {text rest : List UInt8} (isLine : IsLine size text) :
    fgets size (text ++ rest) = (text, rest) ∧ text ≠ [] := by
  obtain ⟨line, rfl, inside, short⟩ := isLine
  rw [List.append_assoc, List.singleton_append, fgets_line inside short]
  exact ⟨rfl, by simp⟩

theorem readEntries_all {entry : Item → Entry} {items : List Item} (lines : ∀ item ∈ items, IsLine size (format item))
    (parses : ∀ item ∈ items, parse (format item) = some (entry item)) :
    readEntries size parse items.length (items.flatMap format) = some (items.map entry) := by
  induction items with
  | nil => rfl
  | cons item rest ih =>
      obtain ⟨read, filled⟩ := (lines item (List.mem_cons_self ..)).fgets
      have later := ih (fun other member => lines other (List.mem_cons_of_mem _ member))
        (fun other member => parses other (List.mem_cons_of_mem _ member))
      rw [List.length_cons, List.flatMap_cons, readEntries, read]
      simp only [if_neg filled, parses item (List.mem_cons_self ..), later]
      rfl

/-- A file that ends too early is an error, whatever its lines say. -/
theorem readEntries_more {items : List Item} (lines : ∀ item ∈ items, IsLine size (format item)) {count : Nat}
    (more : items.length < count) : readEntries size parse count (items.flatMap format) = none := by
  induction items generalizing count with
  | nil =>
      obtain ⟨less, rfl⟩ : ∃ less, count = less + 1 := ⟨count - 1, by simp at more; omega⟩
      cases size <;> simp [readEntries, Text.fgets]
  | cons item rest ih =>
      obtain ⟨less, rfl⟩ : ∃ less, count = less + 1 := ⟨count - 1, by simp at more; omega⟩
      obtain ⟨read, filled⟩ := (lines item (List.mem_cons_self ..)).fgets
      have later := @ih (fun other member => lines other (List.mem_cons_of_mem _ member)) less
        (by simpa using more)
      rw [List.flatMap_cons, readEntries, read]
      simp only [if_neg filled, later]
      split <;> rfl

end Reading

section Numbers

theorem asInt_small {number : Nat} (small : number < 0x80000000) : asInt number = number := by
  rw [asInt, Nat.mod_eq_of_lt (by omega), if_pos small]

theorem asInt_bounds (number : Nat) : -0x80000000 ≤ asInt number ∧ asInt number < 0x80000000 := by
  rw [asInt]
  split <;> omega

theorem asUnsignedLong_small {number : Nat} (small : number < 0x80000000) :
    asUnsignedLong (asInt number) = number := by
  rw [asInt_small small, asUnsignedLong]
  omega

/-- A count that prints as a negative number is read as an enormous one. -/
theorem asUnsignedLong_large {number : Nat} (large : 0x80000000 ≤ number) (word : number < 0x100000000) :
    number < asUnsignedLong (asInt number) := by
  have negative : asInt number = number - 0x100000000 := by
    rw [asInt, Nat.mod_eq_of_lt word, if_neg (by omega)]
  rw [negative, asUnsignedLong]
  omega

theorem printInt_line (number : Nat) :
    newline ∉ printInt (asInt number) ∧ (printInt (asInt number)).length ≤ 11 := by
  obtain ⟨lower, upper⟩ := asInt_bounds number
  have digits : newline ∉ decimal (asInt number).natAbs := by
    intro member
    have digit := isDigit_decimal newline member
    rw [newline_not_digit] at digit
    cases digit
  have length : (decimal (asInt number).natAbs).length ≤ 9 + 1 := decimal_length (by omega)
  rw [printInt]
  split
  · refine ⟨fun member => ?_, Nat.succ_le_succ length⟩
    rcases List.mem_cons.mp member with minus | later
    · cases minus
    · exact digits later
  · exact ⟨digits, by omega⟩

theorem newline_stops {base : Nat} : ∀ byte, [newline].head? = some byte → isDigit base byte = false := by
  intro byte first
  obtain rfl := Option.some.inj first
  exact newline_not_digit base

end Numbers

section Files

theorem readFile_header {Entry : Type*} {hdrStr body : List UInt8} {size : Nat} {parse : List UInt8 → Option Entry}
    (count : UInt32) (inside : newline ∉ hdrStr) (short : hdrStr.length ≤ 50) :
    readFile hdrStr size parse (header hdrStr count ++ body) =
      readEntries size parse (asUnsignedLong (asInt count.toNat)) body := by
  obtain ⟨printed, length⟩ := printInt_line count.toNat
  have isLine : IsLine 62 (header hdrStr count) := by
    refine ⟨hdrStr ++ printInt (asInt count.toNat), rfl, ?_, ?_⟩
    · rw [List.mem_append]
      exact not_or_intro inside printed
    · rw [List.length_append]
      omega
  have hasPrefix : hdrStr.isPrefixOf (header hdrStr count) = true := by
    rw [List.isPrefixOf_iff_prefix, header, List.append_assoc]
    exact List.prefix_append _ _
  have number : atoi ((header hdrStr count).drop hdrStr.length) = asInt count.toNat := by
    rw [header, List.append_assoc, List.drop_left]
    exact atoi_printInt (asInt_bounds _).1 (asInt_bounds _).2 newline_stops
  rw [readFile, isLine.fgets.1]
  simp only [hasPrefix, if_true, number]

theorem cpuLine_isLine (cpu : Nat) : IsLine 30 (cpuLine cpu) := by
  obtain ⟨printed, length⟩ := printInt_line cpu
  refine ⟨cpuEntryStr ++ printInt (asInt cpu), rfl, ?_, ?_⟩
  · rw [List.mem_append]
    exact not_or_intro (by decide) printed
  · rw [List.length_append]
    have short : cpuEntryStr.length = 4 := rfl
    omega

theorem parseCpu_cpuLine (cpu : Nat) : parseCpu (cpuLine cpu) = some (.ofInt (asInt cpu)) := by
  have hasPrefix : cpuEntryStr.isPrefixOf (cpuLine cpu) = true := by
    rw [List.isPrefixOf_iff_prefix, cpuLine, List.append_assoc]
    exact List.prefix_append _ _
  rw [parseCpu, if_pos hasPrefix, cpuLine, List.append_assoc, List.drop_left,
    atoi_printInt (asInt_bounds _).1 (asInt_bounds _).2 newline_stops]

theorem memLine_isLine (block : MemBlock) (index : Nat) : IsLine 126 (memLine block index) := by
  obtain ⟨printed, length⟩ := printInt_line index
  have hex : ∀ number, newline ∉ fixedHex 16 number := by
    intro number member
    have digit := isDigit_fixedHex newline member
    rw [newline_not_digit] at digit
    cases digit
  have literals : newline ∉ colon ∧ newline ∉ dash := by decide
  refine ⟨printInt (asInt index) ++ colon ++ fixedHex 16 block.baseAddr.toNat ++ dash ++
    fixedHex 16 (endAddr block).toNat, rfl, ?_, ?_⟩
  · simp only [List.mem_append, not_or]
    exact ⟨⟨⟨⟨printed, literals.1⟩, hex _⟩, literals.2⟩, hex _⟩
  · have lengths : colon.length = 2 ∧ dash.length = 3 := by decide
    simp only [List.length_append, fixedHex_length, lengths]
    omega

theorem expect_literal (literal rest : List UInt8) : expect literal (literal ++ rest) = some rest := by
  have hasPrefix : literal.isPrefixOf (literal ++ rest) = true := by
    rw [List.isPrefixOf_iff_prefix]
    exact List.prefix_append _ _
  rw [expect, if_pos hasPrefix, List.drop_left]

theorem hexField_fixedHex (number : Nat) (rest : List UInt8) :
    hexField (fixedHex 16 number ++ rest) = some (fixedHex 16 number, rest) := by
  have taken : (fixedHex 16 number ++ rest).take 16 = fixedHex 16 number := by
    rw [List.take_append_of_le_length (by simp)]
    exact List.take_of_length_le (by simp)
  have dropped : (fixedHex 16 number ++ rest).drop 16 = rest := by
    rw [List.drop_append_of_le_length (by simp), List.drop_of_length_le (by simp), List.nil_append]
  have long : 16 ≤ (fixedHex 16 number ++ rest).length := by simp
  have digits : (fixedHex 16 number).all (isDigit 16) = true := List.all_eq_true.mpr isDigit_fixedHex
  rw [hexField, taken, dropped, if_pos ⟨long, digits⟩]

theorem parseMem_memLine (block : MemBlock) {index : Nat} (small : index < 0x80000000) :
    parseMem (memLine block index) =
      some (min block.baseAddr.toNat 0x7fffffffffffffff, min (endAddr block).toNat 0x7fffffffffffffff) := by
  have text : memLine block index = decimal index ++ (colon ++ (fixedHex 16 block.baseAddr.toNat ++
      (dash ++ (fixedHex 16 (endAddr block).toNat ++ [newline])))) := by
    have printed : printInt (asInt index) = decimal index := by
      rw [asInt_small small, printInt, if_neg (by omega), Int.natAbs_natCast]
    simp only [memLine, printed, List.append_assoc]
  have stops : ∀ rest byte, (colon ++ rest).head? = some byte → isDigit 10 byte = false := by
    intro rest byte first
    obtain rfl := Option.some.inj first
    decide
  have matched : matchAt (memLine block index) =
      some (fixedHex 16 block.baseAddr.toNat, fixedHex 16 (endAddr block).toNat) := by
    rw [text, matchAt, takeWhile_digits isDigit_decimal (stops _), dropWhile_digits isDigit_decimal (stops _),
      expect_literal]
    simp only [List.isEmpty_iff, decimal_ne_nil, if_false, Option.bind_eq_bind, Option.bind_some,
      hexField_fixedHex, expect_literal]
  have found : regexec (memLine block index) =
      some (fixedHex 16 block.baseAddr.toNat, fixedHex 16 (endAddr block).toNat) := by
    cases line : memLine block index with
    | nil =>
        rw [line] at matched
        cases matched
    | cons byte rest =>
        rw [line] at matched
        rw [regexec, matched]
  have word : ∀ address : UInt64, address.toNat < 16 ^ 16 := fun address =>
    Nat.lt_of_lt_of_le address.toNat_lt (by decide)
  rw [parseMem, found, Option.map_some]
  dsimp only
  rw [strtol_fixedHex (word _), strtol_fixedHex (word _)]
  rfl

def entryOf (block : MemBlock) : Nat × Nat :=
  (min block.baseAddr.toNat 0x7fffffffffffffff, min (endAddr block).toNat 0x7fffffffffffffff)

variable {nrCpuIds : Nat} {size : BlockSize} {record : Record}

theorem readMemory (consistent : Consistent size record) (small : record.memdescList.length < 0x80000000) :
    readFile memHdrStr 126 parseMem (procMemShow record) = some (record.memdescList.map entryOf) := by
  have entries : record.memdescList.zipIdx.map (entryOf ∘ Prod.fst) = record.memdescList.map entryOf := by
    rw [← List.map_map, List.zipIdx_map_fst]
  rw [procMemShow, readFile_header _ (by decide) (by decide), consistent.memory, asUnsignedLong_small small,
    ← entries, ← List.length_zipIdx (l := record.memdescList) (i := 0)]
  apply readEntries_all
  · rintro ⟨block, index⟩ _
    exact memLine_isLine block index
  · rintro ⟨block, index⟩ listed
    have bound := (List.mem_zipIdx' listed).1
    exact parseMem_memLine block (Nat.lt_trans bound small)

theorem readMemory_large (consistent : Consistent size record) (large : 0x80000000 ≤ record.memdescList.length) :
    readFile memHdrStr 126 parseMem (procMemShow record) = none := by
  have word : record.memdescList.length < 0x100000000 := consistent.memory ▸ record.memdescNum.toNat_lt
  rw [procMemShow, readFile_header _ (by decide) (by decide), consistent.memory]
  apply readEntries_more
  · rintro ⟨block, index⟩ _
    exact memLine_isLine block index
  · rw [List.length_zipIdx]
    exact asUnsignedLong_large large word

theorem cpuList_length (record : Record) :
    (Reset.cpuList nrCpuIds record).length = (record.cpumask nrCpuIds).card := by
  rw [Reset.cpuList, Finset.length_sort, Finset.card_image_of_injective _ fun _ _ => UInt32.toNat_inj.mp]

theorem readCpus (consistent : Consistent size record) (small : record.assignedCpus.card < 0x80000000)
    (known : ∀ cpu ∈ record.assignedCpus, cpu.toNat < nrCpuIds) :
    readFile cpuHdrStr 30 parseCpu (procCpuShow nrCpuIds record) =
      some ((Reset.cpuList nrCpuIds record).map fun cpu => .ofInt (asInt cpu)) := by
  have length : (Reset.cpuList nrCpuIds record).length = record.assignedCpus.card := by
    rw [cpuList_length, Record.cpumask_eq known]
  rw [procCpuShow, readFile_header _ (by decide) (by decide), consistent.cpus, asUnsignedLong_small small, ← length]
  exact readEntries_all (fun cpu _ => cpuLine_isLine cpu) (fun cpu _ => parseCpu_cpuLine cpu)

theorem readCpus_large (consistent : Consistent size record) (large : 0x80000000 ≤ record.assignedCpus.card) :
    readFile cpuHdrStr 30 parseCpu (procCpuShow nrCpuIds record) = none := by
  have word : record.assignedCpus.card < 0x100000000 := consistent.cpus ▸ record.numCpus.toNat_lt
  rw [procCpuShow, readFile_header _ (by decide) (by decide), consistent.cpus]
  refine readEntries_more (fun cpu _ => cpuLine_isLine cpu) ?_
  rw [cpuList_length]
  exact Nat.lt_of_le_of_lt (Finset.card_filter_le _ _) (asUnsignedLong_large large word)

/-- A CPU that Linux does not know is counted, but has no line. -/
theorem readCpus_unknown (consistent : Consistent size record) (small : record.assignedCpus.card < 0x80000000)
    {cpu : UInt32} (assigned : cpu ∈ record.assignedCpus) (unknown : ¬ cpu.toNat < nrCpuIds) :
    readFile cpuHdrStr 30 parseCpu (procCpuShow nrCpuIds record) = none := by
  rw [procCpuShow, readFile_header _ (by decide) (by decide), consistent.cpus, asUnsignedLong_small small]
  refine readEntries_more (fun cpu _ => cpuLine_isLine cpu) ?_
  rw [cpuList_length]
  refine Finset.card_lt_card (Finset.filter_ssubset.mpr ⟨cpu, assigned, unknown⟩)

/-- The CPUs come back under their own numbers, also beyond the range of `int`. -/
theorem cpus_returned (known : ∀ cpu ∈ record.assignedCpus, cpu.toNat < nrCpuIds) :
    ((Reset.cpuList nrCpuIds record).map fun cpu => UInt32.ofInt (asInt cpu)).Perm record.assignedCpus.toList := by
  have same : ∀ id : UInt32, UInt32.ofInt (asInt id.toNat) = id := by
    intro id
    have word : id.toNat < 0x100000000 := id.toNat_lt
    have read : (UInt32.ofInt (asInt id.toNat)).toNat =
        (asInt id.toNat % 0x100000000).toNat % 0x100000000 := UInt32.toNat_ofNat'
    apply UInt32.toNat_inj.mp
    rw [read, asInt]
    split <;> omega
  have listed : ∀ cpu, cpu ∈ Reset.cpuList nrCpuIds record ↔ ∃ id ∈ record.assignedCpus, id.toNat = cpu := by
    simp [Reset.cpuList, Record.cpumask_eq known]
  refine (List.perm_ext_iff_of_nodup ?_ (Finset.nodup_toList _)).mpr ?_
  · refine (Finset.sort_nodup _ _).map_on fun left isLeft right isRight equal => ?_
    obtain ⟨leftId, -, rfl⟩ := (listed left).mp isLeft
    obtain ⟨rightId, -, rfl⟩ := (listed right).mp isRight
    rw [same, same] at equal
    rw [equal]
  · intro id
    rw [List.mem_map, Finset.mem_toList]
    constructor
    · rintro ⟨cpu, member, rfl⟩
      obtain ⟨assigned, kept, rfl⟩ := (listed cpu).mp member
      rwa [same]
    · intro assigned
      exact ⟨id.toNat, (listed _).mpr ⟨id, assigned, rfl⟩, same id⟩

end Files

section Blocks

variable {size : BlockSize} {block : MemBlock}

theorem BlockSize.bytes_pos (size : BlockSize) : 0 < size.bytes := Nat.two_pow_pos _

theorem endAddr_toNat (block : MemBlock) : (endAddr block).toNat =
    (block.baseAddr.toNat + block.pages.toNat * 4096 % 0x100000000) % 0x10000000000000000 := by
  have page : (4096 : UInt32).toNat = 4096 := rfl
  rw [endAddr, UInt64.toNat_add, UInt32.toNat_toUInt64, UInt32.toNat_mul, page]

/-- Blocks of 4 GB and more are whole multiples of what the printed size drops. -/
theorem bytes_le_of_printed (aligned : size.bytes ∣ block.pages.toNat * 4096)
    (printed : block.pages.toNat * 4096 % 0x100000000 ≠ 0) : size.bytes ≤ 0x80000000 := by
  by_contra large
  have exponent : 32 ≤ size.exponent := by
    by_contra small
    have bound : size.bytes ≤ 2 ^ 31 := Nat.pow_le_pow_right (by decide) (by omega)
    omega
  have divides : 2 ^ 32 ∣ block.pages.toNat * 4096 := (Nat.pow_dvd_pow 2 exponent).trans aligned
  exact printed (Nat.mod_eq_zero_of_dvd divides)

theorem onlineBlocks_eq (base : size.bytes ∣ block.baseAddr.toNat) (aligned : size.bytes ∣ block.pages.toNat * 4096)
    (numbered : block.pages ≠ 0 → (block.baseAddr.toNat + block.pages.toNat * 4096) / size.bytes ≤ 0x80000000) :
    onlineBlocks size (entryOf block) =
      (coveredBy size block).take (block.pages.toNat * 4096 % 0x100000000 / size.bytes) := by
  have positive := size.bytes_pos
  have stop := endAddr_toNat block
  have word : block.baseAddr.toNat < 0x10000000000000000 := block.baseAddr.toNat_lt
  by_cases printed : block.pages.toNat * 4096 % 0x100000000 = 0
  · have same : (endAddr block).toNat = block.baseAddr.toNat := by
      rw [stop, printed, Nat.add_zero, Nat.mod_eq_of_lt word]
    have none : (min block.baseAddr.toNat 0x7fffffffffffffff + 0x10000000000000000 -
        min block.baseAddr.toNat 0x7fffffffffffffff) % 0x10000000000000000 = 0 := by
      rw [Nat.add_sub_cancel_left]
    rw [printed, onlineBlocks, entryOf, same]
    simp only [none, Nat.zero_div, List.take_zero]
    rfl
  · have pages : block.pages ≠ 0 := by
      rintro zero
      rw [zero] at printed
      exact printed rfl
    have bytes := bytes_le_of_printed aligned printed
    have page : 4096 ≤ size.bytes := by
      have power : 2 ^ 12 ≤ size.bytes := Nat.pow_le_pow_right (by decide) size.pages
      exact power
    have count := numbered pages
    have whole : block.baseAddr.toNat + block.pages.toNat * 4096 ≤ 0x80000000 * 0x80000000 := by
      have exact := Nat.div_mul_cancel (Nat.dvd_add base aligned)
      rw [← exact]
      exact Nat.mul_le_mul count bytes
    have split : (block.baseAddr.toNat + block.pages.toNat * 4096) / size.bytes =
        block.baseAddr.toNat / size.bytes + block.pages.toNat * 4096 / size.bytes := Nat.add_div_of_dvd_right base
    have fewer : block.pages.toNat * 4096 % 0x100000000 / size.bytes ≤ block.pages.toNat * 4096 / size.bytes :=
      Nat.div_le_div_right (Nat.mod_le _ _)
    have few : block.pages.toNat * 4096 % 0x100000000 / size.bytes < 0x80000000 := by
      have below : block.pages.toNat * 4096 % 0x100000000 / size.bytes ≤
          block.pages.toNat * 4096 % 0x100000000 / 4096 := Nat.div_le_div_left page (by decide)
      omega
    have entry : entryOf block =
        (block.baseAddr.toNat, block.baseAddr.toNat + block.pages.toNat * 4096 % 0x100000000) := by
      rw [entryOf, stop, Nat.min_eq_left (by omega), Nat.mod_eq_of_lt (by omega), Nat.min_eq_left (by omega)]
    have span : (block.baseAddr.toNat + block.pages.toNat * 4096 % 0x100000000 + 0x10000000000000000 -
        block.baseAddr.toNat) % 0x10000000000000000 = block.pages.toNat * 4096 % 0x100000000 := by
      omega
    rw [onlineBlocks, entry]
    simp only [span]
    rw [asInt_small few, Int.toNat_natCast, coveredBy, ← List.map_take, List.take_range, Nat.min_eq_left fewer]
    apply List.map_congr_left
    intro i listed
    have bound := List.mem_range.mp listed
    exact asInt_small (by omega)

theorem last_covered (base : size.bytes ∣ block.baseAddr.toNat) (aligned : size.bytes ∣ block.pages.toNat * 4096)
    (pages : block.pages ≠ 0) :
    (((block.baseAddr.toNat + block.pages.toNat * 4096) / size.bytes - 1 : Nat) : Int) ∈ coveredBy size block := by
  have positive : 0 < block.pages.toNat * 4096 / size.bytes := by
    have filled : 0 < block.pages.toNat := Nat.pos_of_ne_zero fun zero => pages (UInt32.toNat_inj.mp zero)
    exact Nat.div_pos (Nat.le_of_dvd (by omega) aligned) size.bytes_pos
  have split : (block.baseAddr.toNat + block.pages.toNat * 4096) / size.bytes =
      block.baseAddr.toNat / size.bytes + block.pages.toNat * 4096 / size.bytes := Nat.add_div_of_dvd_right base
  have number : block.baseAddr.toNat / size.bytes + (block.pages.toNat * 4096 / size.bytes - 1) =
      (block.baseAddr.toNat + block.pages.toNat * 4096) / size.bytes - 1 := by
    rw [split, Nat.add_sub_assoc positive]
  rw [← number]
  exact List.mem_map.mpr ⟨block.pages.toNat * 4096 / size.bytes - 1, List.mem_range.mpr (by omega), rfl⟩

theorem covered_mem {number : Int} : number ∈ coveredBy size block ↔
    ∃ i < block.pages.toNat * 4096 / size.bytes, ((block.baseAddr.toNat / size.bytes + i : Nat) : Int) = number := by
  simp [coveredBy]

theorem covered_nodup {record : Record} (consistent : Consistent size record) (separate : Separate record) :
    (covered size record).Nodup := by
  refine List.nodup_flatMap.mpr ⟨?_, ?_⟩
  · intro block _
    refine List.nodup_range.map fun left right equal => ?_
    have numbers : block.baseAddr.toNat / size.bytes + left = block.baseAddr.toNat / size.bytes + right :=
      Int.ofNat.inj equal
    omega
  · refine separate.imp_of_mem fun {left right} isLeft isRight apart => ?_
    intro number inLeft inRight
    obtain ⟨i, below, rfl⟩ := covered_mem.mp inLeft
    obtain ⟨j, under, equal⟩ := covered_mem.mp inRight
    have numbers : right.baseAddr.toNat / size.bytes + j = left.baseAddr.toNat / size.bytes + i :=
      Int.ofNat.inj equal
    -- Whole blocks that lie apart are numbered apart.
    have ordered : ∀ {first second : MemBlock}, first ∈ record.memdescList →
        first.baseAddr.toNat + first.pages.toNat * 4096 ≤ second.baseAddr.toNat →
        first.baseAddr.toNat / size.bytes + first.pages.toNat * 4096 / size.bytes ≤
          second.baseAddr.toNat / size.bytes := by
      intro first second listed before
      rw [← Nat.add_div_of_dvd_right (consistent.base first listed)]
      exact Nat.div_le_div_right before
    rcases apart with before | behind
    · have gap := ordered isLeft before
      omega
    · have gap := ordered isRight behind
      omega

/-- Parts that are no longer than the wholes are the wholes if their total is. -/
theorem parts_eq {Item Value : Type*} {part whole : Item → List Value} {items : List Item}
    (shorter : ∀ item ∈ items, (part item).length ≤ (whole item).length) :
    (items.flatMap part).length ≤ (items.flatMap whole).length ∧
      ((items.flatMap part).length = (items.flatMap whole).length →
        ∀ item ∈ items, (part item).length = (whole item).length) := by
  induction items with
  | nil => exact ⟨Nat.le_refl _, fun _ _ listed => absurd listed List.not_mem_nil⟩
  | cons item rest ih =>
      have first := shorter item (List.mem_cons_self ..)
      obtain ⟨sum, equal⟩ := ih fun other member => shorter other (List.mem_cons_of_mem _ member)
      simp only [List.flatMap_cons, List.length_append]
      refine ⟨Nat.add_le_add first sum, fun total other listed => ?_⟩
      rcases List.mem_cons.mp listed with rfl | older
      · omega
      · exact equal (by omega) other older

end Blocks

section Teardown

variable {nrCpuIds : Nat} {size : BlockSize} {record : Record}

/-- With counts that are printed as they are, both files are read to their ends. -/
theorem piscesTeardown_eq (consistent : Consistent size record) (memory : record.memdescList.length < 0x80000000)
    (cpus : record.assignedCpus.card < 0x80000000) (known : ∀ cpu ∈ record.assignedCpus, cpu.toNat < nrCpuIds) :
    piscesTeardown size (procCpuShow nrCpuIds record) (procMemShow record) =
      some { blocks := (record.memdescList.map entryOf).reverse.flatMap (onlineBlocks size)
             cpus := ((Reset.cpuList nrCpuIds record).map fun cpu => UInt32.ofInt (asInt cpu)).reverse } := by
  rw [piscesTeardown, readCpus consistent cpus known, readMemory consistent memory]
  rfl

theorem counts_of_teardown {onlined : Onlined} (consistent : Consistent size record)
    (returns : piscesTeardown size (procCpuShow nrCpuIds record) (procMemShow record) = some onlined) :
    record.memdescList.length < 0x80000000 ∧ record.assignedCpus.card < 0x80000000 ∧
      ∀ cpu ∈ record.assignedCpus, cpu.toNat < nrCpuIds := by
  have cpus : record.assignedCpus.card < 0x80000000 := by
    by_contra large
    rw [piscesTeardown, readCpus_large consistent (by omega)] at returns
    cases returns
  refine ⟨?_, cpus, ?_⟩
  · by_contra large
    rw [piscesTeardown, readMemory_large consistent (by omega)] at returns
    simp at returns
  · intro cpu assigned
    by_contra unknown
    rw [piscesTeardown, readCpus_unknown consistent cpus assigned unknown] at returns
    cases returns

theorem onlined_perm (blocks : List MemBlock) :
    ((blocks.map entryOf).reverse.flatMap (onlineBlocks size)).Perm
      (blocks.flatMap fun block => onlineBlocks size (entryOf block)) := by
  refine ((List.reverse_perm _).flatMap_right _).trans ?_
  rw [List.flatMap_map]

-- The number of the last covered block comes back as an `int`.
theorem numbered_of_perm (consistent : Consistent size record)
    (blocks : (record.memdescList.flatMap fun block => onlineBlocks size (entryOf block)).Perm (covered size record)) :
    ∀ block ∈ record.memdescList, block.pages ≠ 0 →
      (block.baseAddr.toNat + block.pages.toNat * 4096) / size.bytes ≤ 0x80000000 := by
  intro block listed pages
  have last := last_covered (consistent.base block listed) (consistent.size block listed) pages
  have online := blocks.symm.subset (List.mem_flatMap.mpr ⟨block, listed, last⟩)
  obtain ⟨other, -, number⟩ := List.mem_flatMap.mp online
  obtain ⟨i, -, equal⟩ := List.mem_map.mp number
  have bound := (asInt_bounds ((entryOf other).1 / size.bytes + i)).2
  omega

-- No block is onlined beyond what it covers, so by the total each is onlined whole.
theorem small_of_perm (consistent : Consistent size record)
    (numbered : ∀ block ∈ record.memdescList, block.pages ≠ 0 →
      (block.baseAddr.toNat + block.pages.toNat * 4096) / size.bytes ≤ 0x80000000)
    (blocks : (record.memdescList.flatMap fun block => onlineBlocks size (entryOf block)).Perm (covered size record)) :
    ∀ block ∈ record.memdescList, block.pages.toNat * 4096 < 0x100000000 := by
  intro block listed
  have parts : ∀ block ∈ record.memdescList, onlineBlocks size (entryOf block) =
      (coveredBy size block).take (block.pages.toNat * 4096 % 0x100000000 / size.bytes) :=
    fun block listed => onlineBlocks_eq (consistent.base block listed) (consistent.size block listed)
      (numbered block listed)
  have shorter : ∀ block ∈ record.memdescList,
      (onlineBlocks size (entryOf block)).length ≤ (coveredBy size block).length := by
    intro block listed
    rw [parts block listed]
    exact List.length_take_le' _ _
  have whole := (parts_eq shorter).2 blocks.length_eq block listed
  rw [parts block listed] at whole
  simp only [coveredBy, List.length_take, List.length_map, List.length_range] at whole
  have exact := Nat.div_mul_cancel (consistent.size block listed)
  have printed := Nat.div_mul_le_self (block.pages.toNat * 4096 % 0x100000000) size.bytes
  have same : block.pages.toNat * 4096 / size.bytes ≤ block.pages.toNat * 4096 % 0x100000000 / size.bytes := by
    omega
  have product := Nat.mul_le_mul_right size.bytes same
  omega

/-- Teardown gives everything back exactly when nothing is cut off on the way:
the counts, the CPU numbers, the sizes and the block numbers. -/
theorem teardown_returned_iff (consistent : Consistent size record) :
    (∃ onlined, piscesTeardown size (procCpuShow nrCpuIds record) (procMemShow record) = some onlined ∧
      Returned size record onlined) ↔ Returnable nrCpuIds size record := by
  constructor
  · rintro ⟨onlined, returns, returned⟩
    obtain ⟨memory, cpus, known⟩ := counts_of_teardown consistent returns
    rw [piscesTeardown_eq consistent memory cpus known] at returns
    obtain rfl := Option.some.inj returns
    have blocks : (record.memdescList.flatMap fun block => onlineBlocks size (entryOf block)).Perm
        (covered size record) := (onlined_perm _).symm.trans returned.blocks
    have numbered := numbered_of_perm consistent blocks
    exact ⟨memory, cpus, known, small_of_perm consistent numbered blocks, numbered⟩
  · intro returnable
    have whole : ∀ block ∈ record.memdescList, onlineBlocks size (entryOf block) = coveredBy size block := by
      intro block listed
      rw [onlineBlocks_eq (consistent.base block listed) (consistent.size block listed)
        (returnable.numbered block listed), Nat.mod_eq_of_lt (returnable.small block listed)]
      exact List.take_of_length_le (by simp [coveredBy])
    have blocks : ((record.memdescList.map entryOf).reverse.flatMap (onlineBlocks size)).Perm
        (covered size record) := by
      refine (onlined_perm _).trans (List.Perm.of_eq ?_)
      exact List.flatMap_congr whole
    refine ⟨_, piscesTeardown_eq consistent returnable.memory returnable.cpus returnable.known, blocks, ?_, ?_⟩
    · exact fun separate => blocks.nodup_iff.mpr (covered_nodup consistent separate)
    · exact (List.reverse_perm _).trans (cpus_returned returnable.known)

def blocks128MB : BlockSize := ⟨27, by decide, by decide⟩

def twoBlocks : Record :=
  { Record.empty with
    assignedCpus := {1, 3}
    numCpus := 2
    memdescList := [⟨0x8000000, 0x8000⟩, ⟨0x20000000, 0x10000⟩]
    memdescNum := 2 }

theorem twoBlocks_returned : ∃ onlined,
    piscesTeardown blocks128MB (procCpuShow 64 twoBlocks) (procMemShow twoBlocks) = some onlined ∧
      Returned blocks128MB twoBlocks onlined :=
  (teardown_returned_iff ⟨by decide, by decide, by decide, by decide⟩).mpr
    ⟨by decide, by decide, by simp [twoBlocks], by decide, by decide⟩

def fourGB : Record :=
  { Record.empty with memdescList := [⟨0x100000000, 0x100000⟩], memdescNum := 1 }

/-- A block of 4 GB is printed as an empty range, so nothing of it comes back. -/
theorem fourGB_not_returned : ¬ ∀ nrCpuIds size record, Consistent size record → ∃ onlined,
    piscesTeardown size (procCpuShow nrCpuIds record) (procMemShow record) = some onlined ∧
      Returned size record onlined := by
  intro always
  have consistent : Consistent blocks128MB fourGB := ⟨by decide, by decide, by decide, by decide⟩
  obtain ⟨onlined, returns, returned⟩ := always 64 _ _ consistent
  rw [piscesTeardown_eq consistent (by decide) (by decide) (by simp [fourGB, Record.empty])] at returns
  obtain rfl := Option.some.inj returns
  exact absurd returned.blocks.length_eq (by decide)

end Teardown

end Pisces.User.Teardown
