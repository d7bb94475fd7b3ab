import Mathlib.Data.List.Forall2
import Pisces.Packed

/-! # The guest image of `v3_create`

`build_image` puts the XML description of a VM and its auxiliary files into one
image.  `ezxml` supplies the list of files and the text that is written.
-/

namespace Pisces.Image

open Packed

def toInt (number : Int) : Int := number.bmod 4294967296

/-- A string as `ezxml_toxml` returns it, up to its terminator -/
structure CString where
  bytes : List UInt8
  terminated : 0 ∉ bytes

def CString.strlen (string : CString) : Nat := string.bytes.length

/-- A file that the description names: the size that `stat` finds, and what one
`read` after the other delivers once it is open -/
structure Source where
  stat : Option Nat
  opened : Option (List (List UInt8))
  deriving DecidableEq

/-- `struct file_info`; the file stands for its name, and nothing reads the id. -/
structure FileInfo where
  size : Int
  source : Source
  deriving DecidableEq

inductive Stop where
  /-- `exit` in `parse_aux_files` -/
  | exited
  /-- a write outside the image or the table of files -/
  | outside
  /-- `malloc` of a negative size -/
  | noMemory
  /-- `build_image` returns `NULL`. -/
  | noFile
  deriving DecidableEq

/-- The loop of `parse_aux_files`, which fills the table of 256 files -/
def parseAuxFiles (files : List FileInfo) : List Source → Except Stop (List FileInfo)
  | [] => .ok files
  | tag :: rest =>
      match tag.stat with
      | none => .error .exited
      | some size =>
          if files.length < 256 then parseAuxFiles (files ++ [⟨toInt size, tag⟩]) rest
          else .error .outside

def fileDataSize (files : List FileInfo) : Int :=
  files.foldl (fun total file => toInt (total + file.size)) 0

def guestImgSize (xml : CString) (files : List FileInfo) : Int :=
  toInt (8 + 4 + xml.strlen + 8 + 8 + files.length * 16 + 8 + fileDataSize files)

def store (image : List UInt8) (offset : Int) (bytes : List UInt8) : Except Stop (List UInt8) :=
  if 0 ≤ offset ∧ offset + bytes.length ≤ image.length then .ok (overwrite image offset.toNat bytes)
  else .error .outside

/-- `guest_img_data` and `offset` -/
structure Cursor where
  image : List UInt8
  offset : Int
  deriving DecidableEq

/-- A write at `offset`, and `offset` moved behind it -/
def Cursor.put (cursor : Cursor) (bytes : List UInt8) : Except Stop Cursor := do
  let image ← store cursor.image cursor.offset bytes
  return ⟨image, toInt (cursor.offset + bytes.length)⟩

/-- The loop over the 16-byte entries -/
def fileTable (index : Nat) (fileOffset : Int) (cursor : Cursor) : List FileInfo → Except Stop Cursor
  | [] => .ok cursor
  | file :: rest => do
      let cursor ← cursor.put (le 4 index)
      let cursor ← cursor.put (le 4 file.size)
      let cursor ← cursor.put (le 8 fileOffset)
      fileTable (index + 1) ((fileOffset + file.size) % 18446744073709551616) cursor rest

/-- `read` delivers at most the bytes that are left; a negative count is a large one. -/
def piece (left : Int) (chunk : List UInt8) : List UInt8 :=
  if left < 0 then chunk else chunk.take left.toNat

/-- The loop of `read_file`, with its return value -/
def readFile (image : List UInt8) (buf left haveRead : Int) : List (List UInt8) → Except Stop (List UInt8 × Int)
  | [] => .ok (image, if left = 0 then 0 else -1)
  | chunk :: rest =>
      if left = 0 then .ok (image, 0)
      else if chunk = [] then .ok (image, -1)
      else do
        let image ← store image (buf + haveRead) (piece left chunk)
        readFile image buf (left - (piece left chunk).length) (haveRead + (piece left chunk).length) rest

/-- The loop over the file data; nobody looks at the result of `read_file`. -/
def fileData (cursor : Cursor) : List FileInfo → Except Stop Cursor
  | [] => .ok cursor
  | file :: rest =>
      match file.source.opened with
      | none => .error .noFile
      | some chunks => do
          let (image, _) ← readFile cursor.image cursor.offset file.size 0 chunks
          fileData ⟨image, toInt (cursor.offset + file.size)⟩ rest

/-- `"v3vee\0\0\0"` -/
def magic : List UInt8 := [118, 51, 118, 101, 101, 0, 0, 0]

def zeros : List UInt8 := List.replicate 8 0

/-- The writes of `build_image` to the cleared image -/
def writes (xml : CString) (files : List FileInfo) (image : List UInt8) : Except Stop Cursor := do
  let cursor ← Cursor.put ⟨image, 0⟩ magic
  let cursor ← cursor.put (le 4 xml.strlen)
  let cursor ← cursor.put xml.bytes
  let cursor ← cursor.put zeros
  let cursor ← cursor.put (le 8 files.length)
  let cursor ← fileTable 0 ((cursor.offset + 16 * files.length + 8) % 18446744073709551616) cursor files
  let cursor ← cursor.put zeros
  fileData cursor files

def writeImage (xml : CString) (files : List FileInfo) (image : List UInt8) : Except Stop (List UInt8) := do
  let cursor ← writes xml files image
  return cursor.image

/-- The data blob of `build_image` -/
def buildImage (xml : CString) (tags : List Source) : Except Stop (List UInt8) := do
  let files ← parseAuxFiles [] tags
  if guestImgSize xml files < 0 then
    .error .noMemory
  else
    writeImage xml files (List.replicate (guestImgSize xml files).toNat 0)

/-! ## The documented layout -/

def dataStart (xml : List UInt8) (contents : List (List UInt8)) : Nat := 36 + xml.length + 16 * contents.length

/-- The entries from the one with number `index` on, whose data starts at `offset` -/
def entries (index offset : Nat) : List (List UInt8) → List (List UInt8)
  | [] => []
  | content :: rest =>
      (le 4 index ++ le 4 content.length ++ le 8 offset) :: entries (index + 1) (offset + content.length) rest

/-- The image as the comment in `build_image` describes it -/
def layout (xml : List UInt8) (contents : List (List UInt8)) : List UInt8 :=
  magic ++ le 4 xml.length ++ xml ++ zeros ++ le 8 contents.length ++
    (entries 0 (dataStart xml contents) contents).flatten ++ zeros ++ contents.flatten

structure Entry where
  index : Nat
  size : Nat
  offset : Nat
  deriving DecidableEq

def entryAt (image : List UInt8) (position : Nat) : Entry where
  index := value (slice image position 4)
  size := value (slice image (position + 4) 4)
  offset := value (slice image (position + 8) 8)

def decode (image : List UInt8) : Option (List UInt8 × List (List UInt8)) :=
  let length := value (slice image 8 4)
  let count := value (slice image (20 + length) 8)
  let found := (List.range count).map fun index => entryAt image (28 + length + 16 * index)
  if slice image 0 8 = magic ∧ slice image (12 + length) 8 = zeros ∧
      slice image (28 + length + 16 * count) 8 = zeros ∧ found.map (·.index) = List.range count ∧
      ∀ entry ∈ found, entry.offset + entry.size ≤ image.length then
    some (slice image 12 length, found.map fun entry => slice image entry.offset entry.size)
  else none

/-- Where the data of a file starts: the files stand one behind the other. -/
def offsetOf (xml : List UInt8) (contents : List (List UInt8)) (index : Nat) : Nat :=
  dataStart xml contents + ((contents.take index).map List.length).sum

/-- Everything that the layout says about the image of `xml` and `contents` -/
structure Represents (image xml : List UInt8) (contents : List (List UInt8)) : Prop where
  header : slice image 0 8 = magic
  xmlLength : value (slice image 8 4) = xml.length
  text : slice image 12 xml.length = xml
  gapBefore : slice image (12 + xml.length) 8 = zeros
  numFiles : value (slice image (20 + xml.length) 8) = contents.length
  entry : ∀ index (bound : index < contents.length), entryAt image (28 + xml.length + 16 * index) =
    ⟨index, contents[index].length, offsetOf xml contents index⟩
  gapAfter : slice image (28 + xml.length + 16 * contents.length) 8 = zeros
  content : ∀ index (bound : index < contents.length),
    slice image (offsetOf xml contents index) contents[index].length = contents[index]
  contiguous : ∀ index (bound : index < contents.length),
    offsetOf xml contents (index + 1) = offsetOf xml contents index + contents[index].length
  disjoint : ∀ index later (bound : index < contents.length), index < later →
    offsetOf xml contents index + contents[index].length ≤ offsetOf xml contents later
  ends : offsetOf xml contents contents.length = image.length

/-- `stat` and the reads agree on the contents of the file. -/
def Source.Delivers (source : Source) (content : List UInt8) : Prop :=
  source.stat = some content.length ∧
    ∃ chunks, source.opened = some chunks ∧ (∀ chunk ∈ chunks, chunk ≠ []) ∧ chunks.flatten = content

def FileInfo.Records (file : FileInfo) (content : List UInt8) : Prop :=
  file.size = content.length ∧ file.source.Delivers content

def Cursor.behind (size : Nat) (written : List UInt8) : Cursor := ⟨filled size written, written.length⟩

variable {size : Nat} {written bytes content : List UInt8} {files : List FileInfo} {tags : List Source}
  {contents : List (List UInt8)}

theorem toInt_eq {number : Int} (lower : 0 ≤ number) (upper : number < 2147483648) : toInt number = number := by
  apply Int.bmod_eq_of_le <;> omega

theorem store_behind {α : Type} (bound : written.length + bytes.length ≤ size)
    (next : List UInt8 → Except Stop α) :
    (store (filled size written) written.length bytes >>= next) = next (filled size (written ++ bytes)) := by
  have inside : (0 : Int) ≤ written.length ∧
      (written.length : Int) + bytes.length ≤ (filled size written).length := by
    rw [filled_length (by omega)]
    omega
  rw [store, if_pos inside, Int.toNat_natCast, overwrite_filled]
  rfl

theorem put_behind {α : Type} (bound : written.length + bytes.length ≤ size) (small : size < 2147483648)
    (next : Cursor → Except Stop α) :
    ((Cursor.behind size written).put bytes >>= next) = next (.behind size (written ++ bytes)) := by
  have moved : toInt ((written.length : Int) + bytes.length) = ((written ++ bytes).length : Nat) := by
    rw [toInt_eq (by omega) (by omega), List.length_append]
    omega
  rw [Cursor.put, Cursor.behind, store_behind bound, moved]
  rfl

theorem entries_length (index offset : Nat) (contents : List (List UInt8)) :
    (entries index offset contents).flatten.length = 16 * contents.length := by
  induction contents generalizing index offset with
  | nil => rfl
  | cons content rest ih =>
      simp only [entries, List.flatten_cons, List.length_append, le_length, ih, List.length_cons]
      omega

theorem fileTable_behind (recorded : List.Forall₂ FileInfo.Records files contents) (index fileOffset : Nat)
    (bound : written.length + 16 * contents.length ≤ size) (small : size < 2147483648)
    (fits : fileOffset + contents.flatten.length < 18446744073709551616) :
    fileTable index fileOffset (.behind size written) files =
      .ok (.behind size (written ++ (entries index fileOffset contents).flatten)) := by
  induction recorded generalizing index fileOffset written with
  | nil => simp [fileTable, entries]
  | @cons file content files contents record _ ih =>
      simp only [List.length_cons, List.flatten_cons, List.length_append] at bound fits
      have next : ((fileOffset : Int) + content.length) % 18446744073709551616 =
          (fileOffset + content.length : Nat) := by omega
      have later := @ih (written ++ le 4 index ++ le 4 content.length ++ le 8 fileOffset)
        (index + 1) (fileOffset + content.length) (by simp only [List.length_append, le_length]; omega) (by omega)
      simp only [fileTable, record.1, next]
      rw [put_behind (by simp only [le_length]; omega) small,
        put_behind (by simp only [List.length_append, le_length]; omega) small,
        put_behind (by simp only [List.length_append, le_length]; omega) small, later]
      simp only [entries, List.flatten_cons, List.append_assoc]

theorem piece_eq {left : Int} (enough : (content.length : Int) ≤ left) : piece left content = content := by
  rw [piece, if_neg (by omega), List.take_of_length_le (by omega)]

/-- The loop of `read_file` copies all there is. -/
theorem readFile_behind (written read : List UInt8) (chunks : List (List UInt8))
    (some : ∀ chunk ∈ chunks, chunk ≠ [])
    (bound : written.length + read.length + chunks.flatten.length ≤ size) :
    readFile (filled size (written ++ read)) written.length chunks.flatten.length read.length chunks =
      .ok (filled size (written ++ read ++ chunks.flatten), 0) := by
  induction chunks generalizing read with
  | nil => simp [readFile]
  | cons chunk rest ih =>
      have filled_some : chunk ≠ [] := some chunk (by simp)
      have positive := List.length_pos_iff.mpr filled_some
      simp only [List.flatten_cons, List.length_append] at bound
      have unread : ((chunk :: rest).flatten.length : Int) ≠ 0 := by
        simp only [List.flatten_cons, List.length_append]
        omega
      have whole : piece ((chunk :: rest).flatten.length : Int) chunk = chunk := by
        apply piece_eq
        simp only [List.flatten_cons, List.length_append]
        omega
      have position : (written.length : Int) + read.length = ((written ++ read).length : Nat) := by simp
      have remaining : ((chunk :: rest).flatten.length : Int) - chunk.length = rest.flatten.length := by simp
      have copied : (read.length : Int) + chunk.length = ((read ++ chunk).length : Nat) := by simp
      have later := ih (read ++ chunk) (fun other member => some other (by simp [member]))
        (by simp only [List.length_append]; omega)
      rw [readFile, if_neg unread, if_neg filled_some, whole, position,
        store_behind (by simp only [List.length_append]; omega), remaining, copied]
      simpa using later

theorem fileData_behind (recorded : List.Forall₂ FileInfo.Records files contents)
    (bound : written.length + contents.flatten.length ≤ size) (small : size < 2147483648) :
    fileData (.behind size written) files = .ok (.behind size (written ++ contents.flatten)) := by
  induction recorded generalizing written with
  | nil => simp [fileData]
  | @cons file content files contents record _ ih =>
      obtain ⟨length, _, chunks, opened, some, rfl⟩ := record
      simp only [List.flatten_cons, List.length_append] at bound
      have read : readFile (filled size (written ++ [])) written.length _ _ chunks = _ :=
        readFile_behind written [] chunks some (by simp only [List.length_nil]; omega)
      simp only [List.append_nil, List.length_nil, Nat.cast_zero] at read
      have moved : toInt ((written.length : Int) + chunks.flatten.length) =
          ((written ++ chunks.flatten).length : Nat) := by
        rw [toInt_eq (by omega) (by omega), List.length_append]
        omega
      have later := @ih (written ++ chunks.flatten) (by simp only [List.length_append]; omega)
      simp only [fileData, opened, length, Cursor.behind, read, moved]
      rw [List.flatten_cons, ← List.append_assoc]
      exact later

/-- What `parse_aux_files` records of a file -/
def Source.info (source : Source) : FileInfo := ⟨toInt (source.stat.getD 0), source⟩

theorem parseAuxFiles_eq (found : ∀ tag ∈ tags, tag.stat.isSome = true) (few : files.length + tags.length ≤ 256) :
    parseAuxFiles files tags = .ok (files ++ tags.map Source.info) := by
  induction tags generalizing files with
  | nil => simp [parseAuxFiles]
  | cons tag rest ih =>
      obtain ⟨size, stat⟩ := Option.isSome_iff_exists.mp (found tag (by simp))
      simp only [List.length_cons] at few
      have later := @ih (files ++ [⟨toInt size, tag⟩]) (fun other member => found other (by simp [member]))
        (by simp only [List.length_append, List.length_singleton]; omega)
      simp only [parseAuxFiles, stat, if_pos (show files.length < 256 by omega), later, List.map_cons, Source.info,
        Option.getD_some, List.append_assoc, List.singleton_append]

theorem recorded_info (delivered : List.Forall₂ Source.Delivers tags contents)
    (small : contents.flatten.length < 2147483648) :
    List.Forall₂ FileInfo.Records (tags.map Source.info) contents := by
  induction delivered with
  | nil => exact .nil
  | @cons tag content tags contents delivers _ ih =>
      simp only [List.flatten_cons, List.length_append] at small
      refine .cons ⟨?_, delivers⟩ (ih (by omega))
      simp only [Source.info, delivers.1, Option.getD_some]
      exact toInt_eq (by omega) (by omega)

theorem stat_found (delivered : List.Forall₂ Source.Delivers tags contents) :
    ∀ tag ∈ tags, tag.stat.isSome = true := by
  induction delivered with
  | nil => simp
  | cons delivers _ ih => simpa [delivers.1] using ih

theorem fileDataSize_eq (recorded : List.Forall₂ FileInfo.Records files contents)
    (small : contents.flatten.length < 2147483648) : fileDataSize files = contents.flatten.length := by
  have general : ∀ total : Nat, total + contents.flatten.length < 2147483648 →
      files.foldl (fun total file => toInt (total + file.size)) (total : Int) =
        (total + contents.flatten.length : Nat) := by
    clear small
    induction recorded with
    | nil => simp
    | @cons file content files contents record _ ih =>
        intro total bound
        simp only [List.flatten_cons, List.length_append] at bound ⊢
        have added : toInt ((total : Int) + content.length) = (total + content.length : Nat) := by
          rw [toInt_eq (by omega) (by omega)]
          omega
        rw [List.foldl_cons, record.1, added, ih (total + content.length) (by omega), Nat.add_assoc]
  have whole := general 0 (by omega)
  simpa [fileDataSize] using whole

theorem layout_length (xml : List UInt8) (contents : List (List UInt8)) :
    (layout xml contents).length = dataStart xml contents + contents.flatten.length := by
  simp only [layout, List.length_append, le_length, entries_length, dataStart]
  simp only [magic, zeros, List.length_cons, List.length_nil, List.length_replicate]
  omega

theorem guestImgSize_eq (xml : CString) (recorded : List.Forall₂ FileInfo.Records files contents)
    (small : (layout xml.bytes contents).length < 2147483648) :
    guestImgSize xml files = (layout xml.bytes contents).length := by
  have count : files.length = contents.length := recorded.length_eq
  rw [layout_length] at small ⊢
  rw [guestImgSize, fileDataSize_eq recorded (by omega), count]
  simp only [dataStart, CString.strlen] at small ⊢
  rw [toInt_eq (by omega) (by omega)]
  omega

theorem ok_bind {α β : Type} (result : α) (next : α → Except Stop β) :
    (Except.ok result >>= next) = next result := rfl

theorem writeImage_eq (xml : CString) (recorded : List.Forall₂ FileInfo.Records files contents)
    (small : (layout xml.bytes contents).length < 2147483648) :
    writeImage xml files (List.replicate (layout xml.bytes contents).length 0) = .ok (layout xml.bytes contents) := by
  have count : files.length = contents.length := recorded.length_eq
  have total := layout_length xml.bytes contents
  have table := entries_length 0 (dataStart xml.bytes contents) contents
  have header : magic.length = 8 := rfl
  have gap : zeros.length = 8 := rfl
  have text : xml.strlen = xml.bytes.length := rfl
  generalize layoutLength : (layout xml.bytes contents).length = size at small total ⊢
  simp only [dataStart] at total
  have cleared : (⟨List.replicate size 0, 0⟩ : Cursor) = .behind size [] := by simp [Cursor.behind, filled]
  have wide : ([] ++ magic ++ le 4 xml.strlen ++ xml.bytes ++ zeros ++ le 8 files.length).length =
      28 + xml.bytes.length := by
    simp only [List.length_append, le_length, List.length_nil]
    omega
  -- `file_offset` starts behind the table and the gap that follows it
  have start : ((Cursor.behind size
      ([] ++ magic ++ le 4 xml.strlen ++ xml.bytes ++ zeros ++ le 8 files.length)).offset +
        16 * files.length + 8) % 18446744073709551616 = (dataStart xml.bytes contents : Nat) := by
    simp only [Cursor.behind, wide, dataStart]
    omega
  rw [writeImage, writes, cleared, put_behind (by simp only [List.length_nil]; omega) small,
    put_behind (by simp only [List.length_append, List.length_nil, le_length]; omega) small,
    put_behind (by simp only [List.length_append, List.length_nil, le_length]; omega) small,
    put_behind (by simp only [List.length_append, List.length_nil, le_length]; omega) small,
    put_behind (by simp only [List.length_append, List.length_nil, le_length]; omega) small, start,
    fileTable_behind recorded 0 (dataStart xml.bytes contents) (by omega) small (by simp only [dataStart]; omega),
    ok_bind, put_behind (by rw [List.length_append]; omega) small,
    fileData_behind recorded (by rw [List.length_append, List.length_append]; omega) small, ok_bind]
  have whole : [] ++ magic ++ le 4 xml.strlen ++ xml.bytes ++ zeros ++ le 8 files.length ++
      (entries 0 (dataStart xml.bytes contents) contents).flatten ++ zeros ++ contents.flatten =
        layout xml.bytes contents := by
    rw [layout, count, text, List.nil_append]
  rw [whole]
  exact congrArg Except.ok (filled_full layoutLength)

/-- Every write of `build_image` is inside the image, and together they make the layout. -/
theorem buildImage_eq (xml : CString) (few : tags.length ≤ 256)
    (delivered : List.Forall₂ Source.Delivers tags contents)
    (small : (layout xml.bytes contents).length < 2147483648) :
    buildImage xml tags = .ok (layout xml.bytes contents) ∧
      parseAuxFiles [] tags = .ok (tags.map Source.info) ∧
      guestImgSize xml (tags.map Source.info) = (layout xml.bytes contents).length := by
  have length := layout_length xml.bytes contents
  have recorded := recorded_info delivered (by omega)
  have size := guestImgSize_eq xml recorded small
  have parsed : parseAuxFiles [] tags = .ok (tags.map Source.info) := by
    refine parseAuxFiles_eq ?_ (by simpa using few)
    exact stat_found delivered
  refine ⟨?_, parsed, size⟩
  have nonnegative : ¬ ((layout xml.bytes contents).length : Int) < 0 := by omega
  rw [buildImage, parsed]
  change (if _ then _ else _) = _
  rw [size, if_neg nonnegative, Int.toNat_natCast]
  exact writeImage_eq xml recorded small

/-! ## Reading the image -/

theorem offsetOf_succ (xml : List UInt8) {index : Nat} (bound : index < contents.length) :
    offsetOf xml contents (index + 1) = offsetOf xml contents index + contents[index].length := by
  simp only [offsetOf, List.take_succ_eq_append_getElem bound, List.map_append, List.sum_append, List.map_cons,
    List.map_nil, List.sum_singleton]
  omega

theorem offsetOf_mono (xml : List UInt8) (contents : List (List UInt8)) {earlier later : Nat}
    (order : earlier ≤ later) : offsetOf xml contents earlier ≤ offsetOf xml contents later := by
  induction later with
  | zero =>
      have same : earlier = 0 := by omega
      rw [same]
  | succ later ih =>
      rcases Nat.lt_or_ge later earlier with last | before
      · have same : earlier = later + 1 := by omega
        rw [same]
      · refine Nat.le_trans (ih before) ?_
        by_cases bound : later < contents.length
        · rw [offsetOf_succ xml bound]
          omega
        · simp only [offsetOf, List.take_of_length_le (show contents.length ≤ later by omega),
            List.take_of_length_le (show contents.length ≤ later + 1 by omega)]
          omega

theorem offsetOf_length (xml : List UInt8) (contents : List (List UInt8)) :
    offsetOf xml contents contents.length = (layout xml contents).length := by
  rw [layout_length, offsetOf, List.take_length, List.length_flatten]

theorem slice_entries (index offset : Nat) (contents : List (List UInt8)) {number : Nat}
    (bound : number < contents.length) :
    slice (entries index offset contents).flatten (16 * number) 16 =
      le 4 (index + number : Nat) ++ le 4 contents[number].length ++
        le 8 (offset + ((contents.take number).map List.length).sum : Nat) := by
  induction contents generalizing index offset number with
  | nil => simp at bound
  | cons content rest ih =>
      have width : (le 4 index ++ le 4 content.length ++ le 8 offset).length = 16 := by simp
      cases number with
      | zero =>
          rw [entries, List.flatten_cons]
          exact slice_left width _
      | succ number =>
          have later := @ih (index + 1) (offset + content.length) number (by simpa using bound)
          have position : 16 * (number + 1) = 16 + 16 * number := by omega
          have order : index + 1 + number = index + (number + 1) := by omega
          rw [entries, List.flatten_cons, position, slice_right width, later, order, List.take_succ_cons, List.map_cons,
            List.sum_cons, Nat.add_assoc]
          rfl

section Parts

variable (xml : List UInt8) (contents : List (List UInt8))

def front : List UInt8 := magic ++ le 4 xml.length ++ xml ++ zeros ++ le 8 contents.length

theorem front_length : (front xml contents).length = 28 + xml.length := by
  have header : magic.length = 8 := rfl
  have gap : zeros.length = 8 := rfl
  simp only [front, List.length_append, le_length]
  omega

theorem slice_table : slice (layout xml contents) (28 + xml.length) (16 * contents.length) =
    (entries 0 (dataStart xml contents) contents).flatten := by
  have split : layout xml contents =
      front xml contents ++ (entries 0 (dataStart xml contents) contents).flatten ++ (zeros ++ contents.flatten) := by
    simp [layout, front]
  exact slice_eq split (front_length xml contents) (entries_length _ _ _)

theorem slice_data : slice (layout xml contents) (dataStart xml contents) contents.flatten.length =
    contents.flatten := by
  have split : layout xml contents =
      (front xml contents ++ (entries 0 (dataStart xml contents) contents).flatten ++ zeros) ++ contents.flatten ++
        [] := by
    simp [layout, front]
  refine slice_eq split ?_ rfl
  have gap : zeros.length = 8 := rfl
  simp only [List.length_append, front_length, entries_length, dataStart]
  omega

theorem layout_entry {index : Nat} (bound : index < contents.length)
    (small : (layout xml contents).length < 2147483648) :
    entryAt (layout xml contents) (28 + xml.length + 16 * index) =
      ⟨index, contents[index].length, offsetOf xml contents index⟩ := by
  have found : slice (layout xml contents) (28 + xml.length + 16 * index) 16 =
      le 4 index ++ le 4 contents[index].length ++ le 8 (offsetOf xml contents index) := by
    have row := slice_entries 0 (dataStart xml contents) contents bound
    rw [← slice_table, slice_slice (by omega), Nat.zero_add] at row
    exact row
  have total := offsetOf_length xml contents
  have last := offsetOf_mono xml contents (show index + 1 ≤ contents.length from bound)
  have count := layout_length xml contents
  rw [offsetOf_succ xml bound] at last
  simp only [dataStart] at count
  have first : slice (layout xml contents) (28 + xml.length + 16 * index) 4 = le 4 index := by
    rw [← Nat.add_zero (28 + xml.length + 16 * index), ← slice_slice (show 0 + 4 ≤ 16 by omega), found]
    rw [List.append_assoc]
    exact slice_left (le_length _ _) _
  have second : slice (layout xml contents) (28 + xml.length + 16 * index + 4) 4 = le 4 contents[index].length := by
    rw [← slice_slice (show 4 + 4 ≤ 16 by omega), found]
    exact slice_eq rfl (le_length _ _) (le_length _ _)
  have third : slice (layout xml contents) (28 + xml.length + 16 * index + 8) 8 =
      le 8 (offsetOf xml contents index) := by
    rw [← slice_slice (show 8 + 8 ≤ 16 by omega), found]
    exact slice_eq (List.append_nil _).symm (by simp) (le_length _ _)
  rw [entryAt, first, second, third, value_le (by omega), value_le (by omega), value_le (by omega)]

end Parts

theorem layout_represents (xml : List UInt8) (contents : List (List UInt8))
    (small : (layout xml contents).length < 2147483648) : Represents (layout xml contents) xml contents := by
  have total := layout_length xml contents
  have header : magic.length = 8 := rfl
  have gap : zeros.length = 8 := rfl
  simp only [dataStart] at total
  generalize rest : (entries 0 (dataStart xml contents) contents).flatten ++ zeros ++ contents.flatten = tail
  have whole : layout xml contents = front xml contents ++ tail := by simp [layout, front, ← rest]
  constructor
  case header =>
    have split : layout xml contents =
        magic ++ (le 4 xml.length ++ xml ++ zeros ++ le 8 contents.length ++ tail) := by simp [whole, front]
    rw [split]
    exact slice_left header _
  case xmlLength =>
    have split : layout xml contents =
        magic ++ le 4 xml.length ++ (xml ++ zeros ++ le 8 contents.length ++ tail) := by simp [whole, front]
    rw [slice_eq split header (le_length _ _), value_le (by omega)]
  case text =>
    have split : layout xml contents =
        (magic ++ le 4 xml.length) ++ xml ++ (zeros ++ le 8 contents.length ++ tail) := by simp [whole, front]
    exact slice_eq split (by simp [header]) rfl
  case gapBefore =>
    have split : layout xml contents =
        (magic ++ le 4 xml.length ++ xml) ++ zeros ++ (le 8 contents.length ++ tail) := by simp [whole, front]
    refine slice_eq split ?_ gap
    simp only [List.length_append, le_length, header]
  case numFiles =>
    have split : layout xml contents =
        (magic ++ le 4 xml.length ++ xml ++ zeros) ++ le 8 contents.length ++ tail := by simp [whole, front]
    rw [slice_eq split ?_ (le_length _ _), value_le (by omega)]
    simp only [List.length_append, le_length, header, gap]
    omega
  case entry => exact fun index bound => layout_entry xml contents bound small
  case gapAfter =>
    have split : layout xml contents =
        (front xml contents ++ (entries 0 (dataStart xml contents) contents).flatten) ++ zeros ++
          contents.flatten := by simp [whole, ← rest]
    refine slice_eq split ?_ gap
    rw [List.length_append, front_length, entries_length]
  case content =>
    intro index bound
    have within : ((contents.take index).map List.length).sum + contents[index].length ≤ contents.flatten.length := by
      have last := offsetOf_mono xml contents (show index + 1 ≤ contents.length from bound)
      rw [offsetOf_succ xml bound, offsetOf_length, layout_length, offsetOf] at last
      omega
    rw [offsetOf, ← slice_slice within, slice_data]
    exact slice_flatten contents bound
  case contiguous => exact fun index bound => offsetOf_succ xml bound
  case disjoint =>
    intro index later bound order
    rw [← offsetOf_succ xml bound]
    exact offsetOf_mono xml contents order
  case ends => exact offsetOf_length xml contents

def table (xml : List UInt8) (contents : List (List UInt8)) : List Entry :=
  (List.range contents.length).map fun index =>
    ⟨index, (contents.getD index []).length, offsetOf xml contents index⟩

theorem Represents.table {image xml : List UInt8} (represents : Represents image xml contents) :
    (List.range contents.length).map (fun index => entryAt image (28 + xml.length + 16 * index)) =
      Image.table xml contents := by
  apply List.map_congr_left
  intro index member
  have bound := List.mem_range.mp member
  rw [represents.entry index bound]
  simp [bound]

theorem Represents.inside {image xml : List UInt8} (represents : Represents image xml contents) :
    ∀ entry ∈ Image.table xml contents, entry.offset + entry.size ≤ image.length := by
  intro entry member
  obtain ⟨index, listed, rfl⟩ := List.mem_map.mp member
  have bound := List.mem_range.mp listed
  have last := offsetOf_mono xml contents (show index + 1 ≤ contents.length from bound)
  rw [represents.contiguous index bound, represents.ends] at last
  simpa [bound] using last

theorem Represents.slices {image xml : List UInt8} (represents : Represents image xml contents) :
    (Image.table xml contents).map (fun entry => slice image entry.offset entry.size) = contents := by
  refine List.ext_getElem (by simp [Image.table]) ?_
  intro index _ bound
  simpa [Image.table, bound] using represents.content index bound

theorem Represents.decode {image xml : List UInt8} (represents : Represents image xml contents) :
    decode image = some (xml, contents) := by
  have order : (Image.table xml contents).map (·.index) = List.range contents.length := by
    simp [Image.table, List.map_map, Function.comp_def]
  rw [Image.decode]
  simp only [represents.xmlLength, represents.numFiles, represents.table]
  rw [if_pos ⟨represents.header, represents.gapBefore, represents.gapAfter, order, represents.inside⟩,
    represents.text, represents.slices]

/-- The image that `build_image` makes decodes to the text and the files, and
has exactly the size that was allocated. -/
theorem buildImage_decodes (xml : CString) (tags : List Source) (contents : List (List UInt8))
    (few : tags.length ≤ 256) (delivered : List.Forall₂ Source.Delivers tags contents)
    (fits : 36 + xml.strlen + 16 * tags.length + (contents.map List.length).sum < 2147483648) :
    ∃ image files, buildImage xml tags = .ok image ∧ parseAuxFiles [] tags = .ok files ∧
      guestImgSize xml files = image.length ∧ Represents image xml.bytes contents ∧
      decode image = some (xml.bytes, contents) := by
  have small : (layout xml.bytes contents).length < 2147483648 := by
    rw [layout_length, dataStart, List.length_flatten, ← delivered.length_eq]
    exact fits
  obtain ⟨built, parsed, size⟩ := buildImage_eq xml few delivered small
  have represents := layout_represents xml.bytes contents small
  exact ⟨_, _, built, parsed, size, represents, represents.decode⟩

/-- A text of one byte with an empty file and one of two bytes, read byte by byte -/
theorem buildImage_decodes_two :
    ∃ image, buildImage ⟨[60], by decide⟩ [⟨some 0, some []⟩, ⟨some 2, some [[1], [2]]⟩] = .ok image ∧
      decode image = some ([60], [[], [1, 2]]) := by
  have delivered : List.Forall₂ Source.Delivers [⟨some 0, some []⟩, ⟨some 2, some [[1], [2]]⟩] [[], [1, 2]] :=
    .cons ⟨rfl, [], rfl, by simp, rfl⟩ (.cons ⟨rfl, [[1], [2]], rfl, by simp, rfl⟩ .nil)
  obtain ⟨image, _, built, _, _, _, decoded⟩ :=
    buildImage_decodes ⟨[60], by decide⟩ _ _ (by decide) delivered (by decide)
  exact ⟨image, built, decoded⟩

end Pisces.Image
