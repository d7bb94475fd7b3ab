import Mathlib.Algebra.BigOperators.Ring.Finset
import Mathlib.Algebra.Order.BigOperators.Group.List
import Mathlib.Data.List.TakeWhile
import Pisces.User.Image

/-! # Any configuration of a guest image

When `parse_aux_files` and `build_image` keep to their buffers and their
arithmetic is exact, whatever the files are.
-/

namespace Pisces.Image

open Packed

/-- The size that `stat` finds -/
def Source.size (source : Source) : Nat := source.stat.getD 0

def sizes (tags : List Source) : List Int := tags.map fun tag => (tag.size : Int)

/-- The values of a variable that is moved step by step -/
def moves (wrap : Int → Int) (start : Int) (increments : List Int) : List Int :=
  increments.scanl (fun value increment => wrap (value + increment)) start

/-- What `build_image` adds to `offset` in front of the table of files -/
def frontIncrements (strlen : Int) : List Int := [8, 4, strlen, 8, 8]

/-- Everything that `build_image` adds to `offset` -/
def increments (strlen : Int) (sizes : List Int) : List Int :=
  frontIncrements strlen ++ sizes.flatMap (fun _ => [4, 4, 8]) ++ [8] ++ sizes

/-- The first `file_offset`, of type `unsigned long long` -/
def firstFileOffset (strlen : Int) (count : Nat) : Int :=
  ((frontIncrements strlen).foldl (fun offset increment => toInt (offset + increment)) 0 + 16 * count + 8) %
    18446744073709551616

/-- The size of the image by the formula in the comment -/
def trueSize (xml : CString) (tags : List Source) : Nat :=
  36 + xml.strlen + 16 * tags.length + (tags.map Source.size).sum

/-- No variable of `build_image` differs from what unbounded arithmetic on the
sizes of the files gives. -/
structure Exact (xml : CString) (tags : List Source) (files : List FileInfo) : Prop where
  recorded : files.map (·.size) = sizes tags
  fileDataSize : moves toInt 0 (files.map (·.size)) = moves id 0 (sizes tags)
  guestImgSize : Image.guestImgSize xml files = trueSize xml tags
  offset : moves toInt 0 (increments xml.strlen (files.map (·.size))) =
    moves id 0 (increments xml.strlen (sizes tags))
  fileOffset : moves (· % 18446744073709551616) (firstFileOffset xml.strlen files.length) (files.map (·.size)) =
    moves id (36 + xml.strlen + 16 * tags.length) (sizes tags)

/-- Nothing is written outside the table of files and the image, the sizes and
offsets are the true ones, and the only other results are reported errors. -/
def Safe (xml : CString) (tags : List Source) : Prop :=
  match parseAuxFiles [] tags with
  | .error stop => stop = .exited
  | .ok files => Exact xml tags files ∧ ∀ stop, buildImage xml tags = .error stop → stop = .noFile

/-- At most 256 files are recorded, and if `stat` finds them all, the image is
smaller than 2 GiB. -/
def Fits (xml : CString) (tags : List Source) : Prop :=
  (tags.takeWhile (·.stat.isSome)).length ≤ 256 ∧
    ((∀ tag ∈ tags, tag.stat.isSome = true) → trueSize xml tags < 2147483648)

variable {size : Nat} {tags : List Source} {files : List FileInfo} {cursor next : Cursor} {image : List UInt8}

/-! ## The table of files -/

theorem parseAuxFiles_exited (few : files.length + (tags.takeWhile (·.stat.isSome)).length ≤ 256)
    (missing : ¬ ∀ tag ∈ tags, tag.stat.isSome = true) : parseAuxFiles files tags = .error .exited := by
  induction tags generalizing files with
  | nil => simp at missing
  | cons tag rest ih =>
      cases stat : tag.stat with
      | none => simp [parseAuxFiles, stat]
      | some size =>
          simp only [List.takeWhile_cons, stat, Option.isSome_some, if_true, List.length_cons] at few
          simp only [List.forall_mem_cons, stat, Option.isSome_some, true_and] at missing
          simp only [parseAuxFiles, stat, if_pos (show files.length < 256 by omega)]
          refine ih ?_ missing
          simp only [List.length_append, List.length_singleton]
          omega

theorem parseAuxFiles_outside (start : files.length ≤ 256)
    (many : 256 < files.length + (tags.takeWhile (·.stat.isSome)).length) :
    parseAuxFiles files tags = .error .outside := by
  induction tags generalizing files with
  | nil =>
      simp only [List.takeWhile_nil, List.length_nil] at many
      omega
  | cons tag rest ih =>
      cases stat : tag.stat with
      | none =>
          simp only [List.takeWhile_cons, stat, Option.isSome_none, Bool.false_eq_true, if_false, List.length_nil] at many
          omega
      | some size =>
          simp only [List.takeWhile_cons, stat, Option.isSome_some, if_true, List.length_cons] at many
          simp only [parseAuxFiles, stat]
          split
          · refine ih ?_ ?_ <;> simp only [List.length_append, List.length_singleton] <;> omega
          · rfl

/-! ## Arithmetic -/

section Arithmetic

variable {wrap : Int → Int} {limit start : Int} {steps : List Int}

theorem moves_exact (exact : ∀ value, 0 ≤ value → value < limit → wrap value = value)
    (nonnegative : ∀ step ∈ steps, 0 ≤ step) (lower : 0 ≤ start) (upper : start + steps.sum < limit) :
    moves wrap start steps = moves id start steps := by
  induction steps generalizing start with
  | nil => rfl
  | cons step rest ih =>
      simp only [List.forall_mem_cons] at nonnegative
      have remaining : 0 ≤ rest.sum := List.sum_nonneg nonnegative.2
      rw [List.sum_cons] at upper
      have moved : wrap (start + step) = start + step := exact _ (by omega) (by omega)
      have later := ih nonnegative.2 (show 0 ≤ start + step by omega) (by omega)
      simp only [moves, id_eq, List.scanl_cons, moved] at later ⊢
      rw [later]

theorem foldl_exact (exact : ∀ value, 0 ≤ value → value < limit → wrap value = value)
    (nonnegative : ∀ step ∈ steps, 0 ≤ step) (lower : 0 ≤ start) (upper : start + steps.sum < limit) :
    steps.foldl (fun value step => wrap (value + step)) start = start + steps.sum := by
  induction steps generalizing start with
  | nil => simp
  | cons step rest ih =>
      simp only [List.forall_mem_cons] at nonnegative
      have remaining : 0 ≤ rest.sum := List.sum_nonneg nonnegative.2
      rw [List.sum_cons] at upper
      have moved : wrap (start + step) = start + step := exact _ (by omega) (by omega)
      rw [List.foldl_cons, moved, ih nonnegative.2 (by omega) (by omega), List.sum_cons, Int.add_assoc]

end Arithmetic

theorem toInt_exact (value : Int) (lower : 0 ≤ value) (upper : value < 2147483648) : toInt value = value :=
  toInt_eq lower upper

theorem sizes_nonneg (tags : List Source) : ∀ step ∈ sizes tags, 0 ≤ step := by
  intro step member
  obtain ⟨tag, -, rfl⟩ := List.mem_map.mp member
  exact Int.natCast_nonneg _

theorem sizes_sum (tags : List Source) : (sizes tags).sum = ((tags.map Source.size).sum : Nat) := by
  simp [sizes, Nat.cast_list_sum, List.map_map, Function.comp_def]

theorem increments_nonneg (xml : CString) (tags : List Source) :
    ∀ step ∈ increments xml.strlen (sizes tags), 0 ≤ step := by
  intro step member
  simp only [increments, frontIncrements, List.mem_append, List.mem_cons, List.mem_flatMap, List.not_mem_nil,
    or_false] at member
  rcases member with ((front | ⟨-, -, entry⟩) | gap) | data
  · omega
  · omega
  · omega
  · exact sizes_nonneg tags step data

theorem increments_sum (xml : CString) (tags : List Source) :
    (increments xml.strlen (sizes tags)).sum = trueSize xml tags := by
  have table : ((sizes tags).flatMap fun _ => [4, 4, 8]).sum = 16 * (tags.length : Int) := by
    rw [sizes, List.flatMap_map]
    induction tags with
    | nil => rfl
    | cons tag rest ih =>
        simp only [List.flatMap_cons, List.sum_append, ih, List.sum_cons, List.sum_nil, List.length_cons]
        omega
  simp only [increments, frontIncrements, List.sum_append, List.sum_cons, List.sum_nil, table, sizes_sum, trueSize]
  omega

theorem info_size (tag : Source) : tag.info.size = toInt (tag.size : Int) := by
  simp only [Source.info, Source.size]

theorem recorded_sizes (tags : List Source) (small : (tags.map Source.size).sum < 2147483648) :
    (tags.map Source.info).map (·.size) = sizes tags := by
  rw [sizes, List.map_map]
  apply List.map_congr_left
  intro tag member
  have part : tag.size ≤ (tags.map Source.size).sum := List.le_sum_of_mem (List.mem_map_of_mem member)
  rw [Function.comp_apply, info_size]
  exact toInt_eq (Int.natCast_nonneg _) (by omega)

/-- Below 2 GiB nothing wraps. -/
theorem exact_of_small (xml : CString) (tags : List Source) (small : trueSize xml tags < 2147483648) :
    Exact xml tags (tags.map Source.info) := by
  have total := increments_sum xml tags
  have data := sizes_sum tags
  unfold trueSize at small total
  have recorded := recorded_sizes tags (by omega)
  have wide (value : Int) (lower : 0 ≤ value) (upper : value < 18446744073709551616) :
      value % 18446744073709551616 = value := Int.emod_eq_of_lt lower upper
  refine ⟨recorded, ?_, ?_, ?_, ?_⟩
  · rw [recorded]
    exact moves_exact toInt_exact (sizes_nonneg tags) (by omega) (by omega)
  · have summed : fileDataSize (tags.map Source.info) = (sizes tags).sum := by
      have folded := foldl_exact toInt_exact (sizes_nonneg tags) (Int.le_refl 0) (by omega)
      rw [← recorded, List.foldl_map, recorded] at folded
      simpa [fileDataSize] using folded
    rw [Image.guestImgSize, summed, data, List.length_map, toInt_eq (by omega) (by omega), trueSize]
    omega
  · rw [recorded]
    exact moves_exact toInt_exact (increments_nonneg xml tags) (by omega) (by omega)
  · have front := @foldl_exact toInt 2147483648 0 (frontIncrements xml.strlen) toInt_exact
      (by simp [frontIncrements]) (by omega) (by simp [frontIncrements]; omega)
    have first : firstFileOffset xml.strlen (tags.map Source.info).length = 36 + xml.strlen + 16 * tags.length := by
      rw [firstFileOffset, front, List.length_map]
      simp only [frontIncrements, List.sum_cons, List.sum_nil]
      omega
    rw [recorded, first]
    exact moves_exact wide (sizes_nonneg tags) (by omega) (by omega)

theorem guestImgSize_lt (xml : CString) (files : List FileInfo) : guestImgSize xml files < 2147483648 :=
  Int.lt_of_lt_of_le (Int.bmod_lt (by decide)) (by decide)

/-! ## The writes -/

theorem store_inside (image : List UInt8) (offset : Nat) (bytes : List UInt8)
    (inside : offset + bytes.length ≤ image.length) :
    ∃ stored, store image offset bytes = .ok stored ∧ stored.length = image.length := by
  have bounds : (0 : Int) ≤ offset ∧ (offset : Int) + bytes.length ≤ image.length := by omega
  refine ⟨_, if_pos bounds, ?_⟩
  simp only [overwrite, Int.toNat_natCast, List.length_append, List.length_take, List.length_drop]
  omega

/-- The cursor stands at `offset` in an image of `size` bytes. -/
structure Cursor.At (cursor : Cursor) (size offset : Nat) : Prop where
  length : cursor.image.length = size
  offset : cursor.offset = offset

theorem Cursor.At.put {offset : Nat} (stands : cursor.At size offset) (bytes : List UInt8)
    (inside : offset + bytes.length ≤ size)
    (small : size < 2147483648) : ∃ next, cursor.put bytes = .ok next ∧ next.At size (offset + bytes.length) := by
  obtain ⟨stored, done, length⟩ := store_inside cursor.image offset bytes
    (by rw [stands.length]; exact inside)
  have moved : toInt ((offset : Int) + bytes.length) = (offset + bytes.length : Nat) := by
    rw [toInt_eq (by omega) (by omega)]
    omega
  refine ⟨⟨stored, toInt (cursor.offset + bytes.length)⟩, ?_, length.trans stands.length, ?_⟩
  · rw [Cursor.put, stands.offset, done]
    rfl
  · rw [stands.offset, moved]

theorem fileTable_inside {offset : Nat} (files : List FileInfo) (index : Nat) (fileOffset : Int)
    (stands : cursor.At size offset) (inside : offset + 16 * files.length ≤ size) (small : size < 2147483648) :
    ∃ next, fileTable index fileOffset cursor files = .ok next ∧ next.At size (offset + 16 * files.length) := by
  induction files generalizing cursor offset index fileOffset with
  | nil => exact ⟨cursor, rfl, stands⟩
  | cons file rest ih =>
      simp only [List.length_cons] at inside
      obtain ⟨first, wroteIndex, stands⟩ := stands.put (le 4 index) (by rw [le_length]; omega) small
      rw [le_length] at stands
      obtain ⟨second, wroteSize, stands⟩ := stands.put (le 4 file.size) (by rw [le_length]; omega) small
      rw [le_length] at stands
      obtain ⟨third, wroteOffset, stands⟩ := stands.put (le 8 fileOffset) (by rw [le_length]; omega) small
      rw [le_length] at stands
      obtain ⟨last, table, stands⟩ := ih (index + 1) ((fileOffset + file.size) % 18446744073709551616) stands (by omega)
      refine ⟨last, ?_, ?_⟩
      · simp only [fileTable, wroteIndex, ok_bind, wroteSize, wroteOffset, table]
      · rw [List.length_cons, show offset + 16 * (rest.length + 1) = offset + 4 + 4 + 8 + 16 * rest.length by omega]
        exact stands

theorem piece_length (left : Nat) (chunk : List UInt8) : (piece left chunk).length ≤ left := by
  rw [piece, if_neg (by omega), Int.toNat_natCast]
  exact List.length_take_le _ _

theorem readFile_inside (image : List UInt8) (buf left haveRead : Nat) (chunks : List (List UInt8))
    (inside : buf + haveRead + left ≤ image.length) :
    ∃ read result, readFile image buf left haveRead chunks = .ok (read, result) ∧ read.length = image.length := by
  induction chunks generalizing image left haveRead with
  | nil => exact ⟨image, _, rfl, rfl⟩
  | cons chunk rest ih =>
      by_cases done : (left : Int) = 0
      · exact ⟨image, 0, by rw [readFile, if_pos done], rfl⟩
      · by_cases stopped : chunk = []
        · exact ⟨image, -1, by rw [readFile, if_neg done, if_pos stopped], rfl⟩
        · have part := piece_length left chunk
          obtain ⟨stored, wrote, length⟩ := store_inside image (buf + haveRead) (piece left chunk) (by omega)
          have remaining : (left : Int) - (piece left chunk).length = (left - (piece left chunk).length : Nat) := by
            omega
          obtain ⟨read, result, finished, total⟩ := ih stored (left - (piece left chunk).length)
            (haveRead + (piece left chunk).length) (by omega)
          refine ⟨read, result, ?_, total.trans length⟩
          rw [readFile, if_neg done, if_neg stopped, ← Int.natCast_add, wrote, ok_bind, remaining, ← Int.natCast_add]
          exact finished

/-- Whatever the reads deliver, the data of the files stays inside. -/
theorem fileData_inside {offset : Nat} (files : List FileInfo) (nonnegative : ∀ file ∈ files, 0 ≤ file.size)
    (stands : cursor.At size offset) (inside : offset + (files.map (·.size)).sum ≤ size) (small : size < 2147483648) :
    fileData cursor files = .error .noFile ∨ ∃ next, fileData cursor files = .ok next := by
  induction files generalizing cursor offset with
  | nil => exact .inr ⟨cursor, rfl⟩
  | cons file rest ih =>
      simp only [List.forall_mem_cons] at nonnegative
      rw [List.map_cons, List.sum_cons] at inside
      have remaining : 0 ≤ (rest.map (·.size)).sum :=
        List.sum_nonneg (by simpa only [List.forall_mem_map] using nonnegative.2)
      cases opened : file.source.opened with
      | none => exact .inl (by simp only [fileData, opened])
      | some chunks =>
          obtain ⟨length, size_eq⟩ := Int.eq_ofNat_of_zero_le nonnegative.1
          rw [size_eq] at inside
          obtain ⟨read, result, finished, total⟩ := readFile_inside cursor.image offset length 0 chunks
            (by rw [stands.length]; omega)
          have moved : toInt ((offset : Int) + length) = (offset + length : Nat) := by
            rw [toInt_eq (by omega) (by omega)]
            omega
          have later := @ih ⟨read, (offset + length : Nat)⟩ (offset + length) nonnegative.2
              ⟨total.trans stands.length, rfl⟩ (by omega)
          simp only [fileData, opened, stands.offset, size_eq, moved]
          rw [show (0 : Int) = (0 : Nat) from rfl, finished, ok_bind]
          exact later

theorem writeImage_inside (xml : CString) (files : List FileInfo) (nonnegative : ∀ file ∈ files, 0 ≤ file.size)
    (fits : 36 + xml.strlen + 16 * files.length + (files.map (·.size)).sum ≤ size) (small : size < 2147483648) :
    writeImage xml files (List.replicate size 0) = .error .noFile ∨
      ∃ image, writeImage xml files (List.replicate size 0) = .ok image := by
  have remaining : 0 ≤ (files.map (·.size)).sum :=
    List.sum_nonneg (by simpa only [List.forall_mem_map] using nonnegative)
  have header : magic.length = 8 := rfl
  have gap : zeros.length = 8 := rfl
  have text : xml.bytes.length = xml.strlen := rfl
  have start : (⟨List.replicate size 0, 0⟩ : Cursor).At size 0 := ⟨List.length_replicate, rfl⟩
  obtain ⟨first, wroteMagic, stands⟩ := start.put magic (by omega) small
  rw [header] at stands
  obtain ⟨second, wroteLength, stands⟩ := stands.put (le 4 xml.strlen) (by rw [le_length]; omega) small
  rw [le_length] at stands
  obtain ⟨third, wroteText, stands⟩ := stands.put xml.bytes (by omega) small
  rw [text] at stands
  obtain ⟨fourth, wroteGap, stands⟩ := stands.put zeros (by omega) small
  rw [gap] at stands
  obtain ⟨fifth, wroteCount, stands⟩ := stands.put (le 8 files.length) (by rw [le_length]; omega) small
  rw [le_length] at stands
  obtain ⟨sixth, wroteTable, stands⟩ := fileTable_inside files 0
    ((fifth.offset + 16 * files.length + 8) % 18446744073709551616) stands (by omega) small
  obtain ⟨seventh, wroteEnd, stands⟩ := stands.put zeros (by omega) small
  rw [gap] at stands
  have data := fileData_inside files nonnegative stands (by omega) small
  simp only [writeImage, writes, wroteMagic, wroteLength, wroteText, wroteGap, wroteCount, wroteTable, wroteEnd, ok_bind]
  rcases data with missing | ⟨last, written⟩
  · exact .inl (by rw [missing]; rfl)
  · exact .inr ⟨last.image, by rw [written]; rfl⟩

/-! ## `offset` is what the cursor carries -/

def advance (offset : Int) (increments : List Int) : Int :=
  increments.foldl (fun offset increment => toInt (offset + increment)) offset

theorem advance_append (offset : Int) (first second : List Int) :
    advance (advance offset first) second = advance offset (first ++ second) :=
  List.foldl_append.symm

theorem Cursor.put_offset {bytes : List UInt8} (done : cursor.put bytes = .ok next) :
    next.offset = advance cursor.offset [bytes.length] := by
  cases stored : store cursor.image cursor.offset bytes with
  | error stop => simp [Cursor.put, stored, bind, Except.bind] at done
  | ok image =>
      simp only [Cursor.put, stored, ok_bind] at done
      cases done
      rfl

theorem bind_ok {α β : Type} {first : Except Stop α} {rest : α → Except Stop β} {result : β}
    (done : (first >>= rest) = .ok result) : ∃ middle, first = .ok middle ∧ rest middle = .ok result := by
  cases first with
  | error stop => cases done
  | ok middle => exact ⟨middle, rfl, done⟩

theorem fileTable_offset {index : Nat} {fileOffset : Int} (done : fileTable index fileOffset cursor files = .ok next) :
    next.offset = advance cursor.offset ((files.map (·.size)).flatMap fun _ => [4, 4, 8]) := by
  induction files generalizing index fileOffset cursor with
  | nil =>
      cases done
      rfl
  | cons file rest ih =>
      obtain ⟨first, wroteIndex, done⟩ := bind_ok done
      obtain ⟨second, wroteSize, done⟩ := bind_ok done
      obtain ⟨third, wroteOffset, done⟩ := bind_ok done
      rw [ih done, Cursor.put_offset wroteOffset, Cursor.put_offset wroteSize, Cursor.put_offset wroteIndex]
      simp only [advance, le_length, List.map_cons, List.flatMap_cons, List.foldl_append, List.foldl_cons,
        List.foldl_nil, Nat.cast_ofNat]

theorem fileData_offset (done : fileData cursor files = .ok next) :
    next.offset = advance cursor.offset (files.map (·.size)) := by
  induction files generalizing cursor with
  | nil =>
      cases done
      rfl
  | cons file rest ih =>
      cases opened : file.source.opened with
      | none => simp [fileData, opened] at done
      | some chunks =>
          simp only [fileData, opened] at done
          obtain ⟨read, -, done⟩ := bind_ok done
          rw [ih done, List.map_cons]
          rfl

/-- Behind all the writes, `offset` has been moved by `increments`. -/
theorem writes_offset {xml : CString} {last : Cursor} (done : writes xml files image = .ok last) :
    last.offset = advance 0 (increments xml.strlen (files.map (·.size))) := by
  obtain ⟨first, wroteMagic, done⟩ := bind_ok done
  obtain ⟨second, wroteLength, done⟩ := bind_ok done
  obtain ⟨third, wroteText, done⟩ := bind_ok done
  obtain ⟨fourth, wroteGap, done⟩ := bind_ok done
  obtain ⟨fifth, wroteCount, done⟩ := bind_ok done
  obtain ⟨sixth, wroteTable, done⟩ := bind_ok done
  obtain ⟨seventh, wroteEnd, wroteData⟩ := bind_ok done
  rw [fileData_offset wroteData, Cursor.put_offset wroteEnd, fileTable_offset wroteTable,
    Cursor.put_offset wroteCount, Cursor.put_offset wroteGap, Cursor.put_offset wroteText,
    Cursor.put_offset wroteLength, Cursor.put_offset wroteMagic]
  have header : magic.length = 8 := rfl
  have gap : zeros.length = 8 := rfl
  have text : xml.bytes.length = xml.strlen := rfl
  simp only [advance_append, increments, frontIncrements, le_length, header, gap, text, Nat.cast_ofNat,
    List.cons_append, List.nil_append]

/-! ## Which configurations are handled -/

theorem safe_of_fits {xml : CString} (fits : Fits xml tags) : Safe xml tags := by
  obtain ⟨few, small⟩ := fits
  unfold Safe
  by_cases found : ∀ tag ∈ tags, tag.stat.isSome = true
  · have whole : tags.takeWhile (·.stat.isSome) = tags := List.takeWhile_eq_self_iff.mpr found
    rw [whole] at few
    have parsed : parseAuxFiles [] tags = .ok (tags.map Source.info) :=
      parseAuxFiles_eq found (by simpa using few)
    have exact_ := exact_of_small xml tags (small found)
    have nonnegative : ∀ file ∈ tags.map Source.info, 0 ≤ file.size := by
      have sizes := sizes_nonneg tags
      rw [← exact_.recorded] at sizes
      simpa only [List.forall_mem_map] using sizes
    have size := exact_.guestImgSize
    rw [parsed]
    refine ⟨exact_, fun stop failed => ?_⟩
    rw [buildImage, parsed, ok_bind, size, if_neg (by omega), Int.toNat_natCast] at failed
    have written := @writeImage_inside (trueSize xml tags) xml (tags.map Source.info) nonnegative
      (by rw [exact_.recorded, sizes_sum, List.length_map, trueSize]; omega) (small found)
    rcases written with missing | ⟨image, written⟩
    · rw [missing] at failed
      exact (Except.error.inj failed).symm
    · rw [written] at failed
      cases failed
  · rw [parseAuxFiles_exited (by simpa using few) found]

theorem fits_of_safe {xml : CString} (safe : Safe xml tags) : Fits xml tags := by
  unfold Safe at safe
  have few : (tags.takeWhile (·.stat.isSome)).length ≤ 256 := by
    by_contra many
    rw [parseAuxFiles_outside (by simp) (by simp only [List.length_nil]; omega)] at safe
    cases safe
  refine ⟨few, fun found => ?_⟩
  have whole : tags.takeWhile (·.stat.isSome) = tags := List.takeWhile_eq_self_iff.mpr found
  rw [whole] at few
  rw [parseAuxFiles_eq found (by simpa using few)] at safe
  have bound := guestImgSize_lt xml ([] ++ tags.map Source.info)
  rw [safe.1.guestImgSize] at bound
  omega

/-- A configuration is handled safely exactly if `parse_aux_files` records no
more than 256 files and the image, if it comes to that, is smaller than 2 GiB. -/
theorem build_image_safe (xml : CString) (tags : List Source) : Safe xml tags ↔ Fits xml tags :=
  ⟨fits_of_safe, safe_of_fits⟩

/-- 257 empty files are written behind the table, and one file of 4 GiB is
recorded as empty. -/
theorem build_image_outside_table :
    ¬ Safe ⟨[60], by decide⟩ (List.replicate 257 ⟨some 0, some []⟩) ∧
    parseAuxFiles [] (List.replicate 257 ⟨some 0, some []⟩) = .error .outside ∧
    ¬ Safe ⟨[60], by decide⟩ [⟨some 4294967296, some [[1], [2]]⟩] ∧
    parseAuxFiles [] [⟨some 4294967296, some [[1], [2]]⟩] =
      .ok [⟨0, ⟨some 4294967296, some [[1], [2]]⟩⟩] := by
  have many : (List.takeWhile (·.stat.isSome) (List.replicate 257 (⟨some 0, some []⟩ : Source))).length = 257 := by
    simp only [List.takeWhile_replicate, Option.isSome_some, if_true, List.length_replicate]
  refine ⟨mt fits_of_safe ?_, parseAuxFiles_outside (by decide) (by rw [many]; decide), mt fits_of_safe ?_, by decide⟩
  · intro fits
    have few := fits.1
    rw [many] at few
    exact absurd few (by decide)
  · intro fits
    exact absurd (fits.2 (by simp)) (by decide)

end Pisces.Image
