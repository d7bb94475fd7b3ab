import Mathlib.Data.List.Infix
import Pisces.Text

/-! # Making the directories of a path

`mkdir_recursive` with the calls of `file_mkdir` it makes.  `perms` is handed on
unchanged.
-/

namespace Pisces.Mkdir

open Text

abbrev Str := List UInt8

/-- The characters are signed: no byte from 128 on is printable. -/
def isprint (byte : UInt8) : Bool := 32 ≤ byte.toNat && byte.toNat ≤ 126

/-- The call for the string in front of `tmp_iter`, unless the component is taken
to be empty; `fileMkdir` returns something for the last of the calls so far. -/
def makeLevel (fileMkdir : List Str → Int) (calls : List Str) (tmpStr : Str) (dirname : Nat) : Bool × List Str :=
  if tmpStr.length - dirname > 1 then (fileMkdir (calls ++ [tmpStr]) == 0, calls ++ [tmpStr])
  else (true, calls)

/-- Both loops of `mkdir_recursive`, which move `tmp_iter` from byte to byte.
`seen` is the text in front of it, `dirname` the offset of `dirname_ptr`, and a
slash stands for the terminator while the level is made. -/
def mkdirLoop (fileMkdir : List Str → Int) (calls : List Str) (seen : Str) (dirname : Nat) : Str → Int × List Str
  | [] =>
      match makeLevel fileMkdir calls seen dirname with
      | (true, calls) => (0, calls)
      | (false, calls) => (-1, calls)
  | byte :: rest =>
      if byte = slash then
        match makeLevel fileMkdir calls seen dirname with
        | (true, calls) => mkdirLoop fileMkdir calls (seen ++ [slash]) (seen.length + 1) rest
        | (false, calls) => (-1, calls)
      else if isprint byte then mkdirLoop fileMkdir calls (seen ++ [byte]) dirname rest
      else (-1, calls)

/-- The result and the calls of `file_mkdir` -/
def mkdirRecursive (kmalloc : Bool) (fileMkdir : List Str → Int) (path : Str) : Int × List Str :=
  if kmalloc then mkdirLoop fileMkdir [] [] 0 path else (-1, [])

/-- A prefix that ends with a whole component, which is not empty -/
def isLevel (path start : Str) : Bool :=
  afterSlash start != [] && (start == path || (start ++ [slash]).isPrefixOf path)

/-- The directories to make, outermost first -/
def levels (path : Str) : List Str := path.inits.filter (isLevel path)

/-- Every call has succeeded. -/
def Clean (fileMkdir : List Str → Int) (calls : List Str) : Prop :=
  ∀ count < calls.length, fileMkdir (calls.take (count + 1)) = 0

/-- What a call of `mkdir_recursive` is to do. -/
structure AsPromised (fileMkdir : List Str → Int) (path : Str) (result : Int × List Str) : Prop where
  made : (∀ byte ∈ path, isprint byte = true) → Clean fileMkdir result.2 → result = (0, levels path)
  failed : ∀ count < result.2.length, fileMkdir (result.2.take (count + 1)) ≠ 0 →
    result.1 = -1 ∧ count + 1 = result.2.length
  invalid : ¬ (∀ byte ∈ path, isprint byte = true) → result.1 = -1

variable {fileMkdir : List Str → Int} {calls : List Str} {seen rest path : Str} {dirname : Nat} {byte : UInt8}

/-! ## Levels -/

/-- The levels of a path that are not in front of `seen` -/
def levelsFrom (seen rest : Str) : List Str :=
  (rest.inits.map (seen ++ ·)).filter (isLevel (seen ++ rest))

def level (seen : Str) : List Str := if afterSlash seen = [] then [] else [seen]

theorem levelsFrom_nil (seen : Str) : levelsFrom seen [] = level seen := by
  by_cases empty : afterSlash seen = [] <;> simp [levelsFrom, level, isLevel, empty]

theorem levelsFrom_cons (seen rest : Str) (byte : UInt8) :
    levelsFrom seen (byte :: rest) =
      (if byte = slash then level seen else []) ++ levelsFrom (seen ++ [byte]) rest := by
  have next : isLevel (seen ++ byte :: rest) seen = (afterSlash seen != [] && byte == slash) := by
    have longer : (seen == seen ++ byte :: rest) = false := by simp
    have follows : (seen ++ [slash]).isPrefixOf (seen ++ byte :: rest) = (byte == slash) := by
      rw [Bool.eq_iff_iff, List.isPrefixOf_iff_prefix, List.prefix_append_right_inj, List.cons_prefix_cons]
      simp only [List.nil_prefix, and_true, beq_iff_eq]
      exact eq_comm
    rw [isLevel, longer, follows, Bool.false_or]
  have later : (byte :: rest).inits.map (seen ++ ·) = seen :: rest.inits.map (seen ++ [byte] ++ ·) := by
    simp [List.map_map, Function.comp_def]
  rw [levelsFrom, later, List.filter_cons, next, levelsFrom, List.append_assoc, List.singleton_append]
  by_cases separator : byte = slash <;> by_cases empty : afterSlash seen = [] <;> simp [separator, empty, level]

theorem levels_eq (path : Str) : levels path = levelsFrom [] path := by
  simp [levels, levelsFrom]

/-- The last component has more than one character. -/
def long (start : Str) : Bool := 1 < (afterSlash start).length

theorem level_long (seen : Str) :
    (level seen).filter long = if 1 < (afterSlash seen).length then [seen] else [] := by
  by_cases empty : afterSlash seen = []
  · simp [level, empty]
  · by_cases more : 1 < (afterSlash seen).length <;> simp [level, empty, long, more]

/-! ## Calls -/

/-- The last call, and only that one, has failed. -/
def Failed (fileMkdir : List Str → Int) (calls : List Str) : Prop :=
  ∃ earlier last, calls = earlier ++ [last] ∧ Clean fileMkdir earlier ∧ fileMkdir calls ≠ 0

theorem Clean.snoc (clean : Clean fileMkdir calls) {last : Str} (succeeded : fileMkdir (calls ++ [last]) = 0) :
    Clean fileMkdir (calls ++ [last]) := by
  intro count bound
  rw [List.length_append, List.length_singleton] at bound
  rcases Nat.lt_or_ge count calls.length with earlier | final
  · rw [List.take_append_of_le_length earlier]
    exact clean count earlier
  · rw [List.take_of_length_le (by simp only [List.length_append, List.length_singleton]; omega)]
    exact succeeded

theorem Failed.last (failed : Failed fileMkdir calls) {count : Nat} (bound : count < calls.length)
    (nonzero : fileMkdir (calls.take (count + 1)) ≠ 0) : count + 1 = calls.length := by
  obtain ⟨earlier, last, rfl, clean, -⟩ := failed
  rw [List.length_append, List.length_singleton] at bound ⊢
  by_contra different
  have before : count < earlier.length := by omega
  rw [List.take_append_of_le_length before] at nonzero
  exact nonzero (clean count before)

theorem Failed.not_clean (failed : Failed fileMkdir calls) : ¬ Clean fileMkdir calls := by
  obtain ⟨earlier, last, rfl, -, nonzero⟩ := failed
  intro clean
  have final := clean earlier.length (by simp)
  rw [List.take_of_length_le (by simp)] at final
  exact nonzero final

/-- `dirname_ptr` stands behind the last slash in front of `tmp_iter`. -/
def Behind (seen : Str) (dirname : Nat) : Prop := dirname + (afterSlash seen).length = seen.length

theorem Behind.slash (seen : Str) : Behind (seen ++ [Text.slash]) (seen.length + 1) := by
  simp [Behind]

theorem Behind.other (behind : Behind seen dirname) (different : byte ≠ Text.slash) :
    Behind (seen ++ [byte]) dirname := by
  simp only [Behind, afterSlash_append _ different, List.length_append, List.length_singleton] at behind ⊢
  omega

/-- A level is made exactly if its last component has more than one character. -/
theorem makeLevel_cases (clean : Clean fileMkdir calls) (behind : Behind seen dirname) :
    (makeLevel fileMkdir calls seen dirname = (true, calls ++ (level seen).filter long) ∧
        Clean fileMkdir (calls ++ (level seen).filter long)) ∨
      ∃ failed, makeLevel fileMkdir calls seen dirname = (false, failed) ∧ Failed fileMkdir failed := by
  have length : seen.length - dirname = (afterSlash seen).length := by
    unfold Behind at behind
    omega
  rw [makeLevel, length, level_long]
  by_cases more : 1 < (afterSlash seen).length
  · simp only [more, if_true]
    by_cases succeeded : fileMkdir (calls ++ [seen]) = 0
    · exact .inl ⟨by simp [succeeded], clean.snoc succeeded⟩
    · exact .inr ⟨_, by simp only [beq_eq_false_iff_ne.mpr succeeded], calls, seen, rfl, clean, succeeded⟩
  · simp only [more, if_false, List.append_nil]
    exact .inl ⟨trivial, clean⟩

/-- The loop makes the levels with a long last component, one after the other,
until a call fails or a character is not printable. -/
theorem mkdirLoop_cases (clean : Clean fileMkdir calls) (behind : Behind seen dirname) :
    ((∀ byte ∈ rest, isprint byte = true) ∧ mkdirLoop fileMkdir calls seen dirname rest =
        (0, calls ++ (levelsFrom seen rest).filter long) ∧
        Clean fileMkdir (calls ++ (levelsFrom seen rest).filter long)) ∨
      (¬ (∀ byte ∈ rest, isprint byte = true) ∧ ∃ made, mkdirLoop fileMkdir calls seen dirname rest = (-1, made) ∧
        Clean fileMkdir made) ∨
      ∃ made, mkdirLoop fileMkdir calls seen dirname rest = (-1, made) ∧ Failed fileMkdir made := by
  induction rest generalizing calls seen dirname with
  | nil =>
      rw [levelsFrom_nil]
      rcases makeLevel_cases clean behind with ⟨made, kept⟩ | ⟨failed, made, last⟩
      · exact .inl ⟨by simp, by rw [mkdirLoop, made], kept⟩
      · exact .inr (.inr ⟨failed, by rw [mkdirLoop, made], last⟩)
  | cons byte rest ih =>
      rw [levelsFrom_cons, List.filter_append, ← List.append_assoc]
      by_cases separator : byte = slash
      · have printable : isprint byte = true := by
          rw [separator]
          decide
        simp only [List.forall_mem_cons, printable, true_and, if_pos separator, mkdirLoop]
        rcases makeLevel_cases clean behind with ⟨made, kept⟩ | ⟨failed, made, last⟩
        · rw [made, separator]
          exact ih kept (.slash seen)
        · rw [made]
          exact .inr (.inr ⟨failed, rfl, last⟩)
      · simp only [List.forall_mem_cons, if_neg separator, List.filter_nil, List.append_nil, mkdirLoop]
        cases printable : isprint byte with
        | true => simpa using ih clean (behind.other separator)
        | false => exact .inr (.inl ⟨by simp, calls, by simp, clean⟩)

theorem mkdirLoop_path (fileMkdir : List Str → Int) (path : Str) :
    ((∀ byte ∈ path, isprint byte = true) ∧ mkdirLoop fileMkdir [] [] 0 path = (0, (levels path).filter long) ∧
        Clean fileMkdir ((levels path).filter long)) ∨
      (¬ (∀ byte ∈ path, isprint byte = true) ∧ ∃ made, mkdirLoop fileMkdir [] [] 0 path = (-1, made) ∧
        Clean fileMkdir made) ∨
      ∃ made, mkdirLoop fileMkdir [] [] 0 path = (-1, made) ∧ Failed fileMkdir made := by
  have none : Clean fileMkdir [] := fun _ bound => absurd bound (Nat.not_lt_zero _)
  have start : Behind [] 0 := rfl
  have cases_ := @mkdirLoop_cases fileMkdir [] [] path 0 none start
  rwa [← levels_eq, List.nil_append] at cases_

/-- Failed calls and characters that are not printable are always reported. -/
theorem mkdirRecursive_reports (kmalloc : Bool) (fileMkdir : List Str → Int) (path : Str) :
    (∀ count < (mkdirRecursive kmalloc fileMkdir path).2.length,
      fileMkdir ((mkdirRecursive kmalloc fileMkdir path).2.take (count + 1)) ≠ 0 →
        (mkdirRecursive kmalloc fileMkdir path).1 = -1 ∧
          count + 1 = (mkdirRecursive kmalloc fileMkdir path).2.length) ∧
      (¬ (∀ byte ∈ path, isprint byte = true) → (mkdirRecursive kmalloc fileMkdir path).1 = -1) := by
  cases kmalloc with
  | false => exact ⟨fun _ bound => absurd bound (Nat.not_lt_zero _), fun _ => rfl⟩
  | true =>
      rw [mkdirRecursive, if_pos rfl]
      rcases mkdirLoop_path fileMkdir path with ⟨printable, result, clean⟩ | ⟨-, made, result, clean⟩ |
        ⟨made, result, failed⟩
      · rw [result]
        exact ⟨fun count bound nonzero => absurd (clean count bound) nonzero, fun invalid => absurd printable invalid⟩
      · rw [result]
        exact ⟨fun count bound nonzero => absurd (clean count bound) nonzero, fun _ => rfl⟩
      · rw [result]
        exact ⟨fun count bound nonzero => ⟨rfl, failed.last bound nonzero⟩, fun _ => rfl⟩

/-- Without a failure the levels with a long last component are made. -/
theorem mkdirRecursive_made (printable : ∀ byte ∈ path, isprint byte = true)
    (clean : Clean fileMkdir (mkdirRecursive true fileMkdir path).2) :
    mkdirRecursive true fileMkdir path = (0, (levels path).filter long) := by
  rw [mkdirRecursive, if_pos rfl] at clean ⊢
  rcases mkdirLoop_path fileMkdir path with ⟨-, result, -⟩ | ⟨invalid, -⟩ | ⟨made, result, failed⟩
  · exact result
  · exact absurd printable invalid
  · rw [result] at clean
    exact absurd clean failed.not_clean

/-- Whatever the calls return, `mkdir_recursive` does what it is to do exactly
if a character is not printable, or the copy of the path can be allocated and
every component that is not empty has more than one character. -/
theorem mkdir_recursive_levels (kmalloc : Bool) (path : Str) :
    (∀ fileMkdir, AsPromised fileMkdir path (mkdirRecursive kmalloc fileMkdir path)) ↔
      ((∀ byte ∈ path, isprint byte = true) →
        kmalloc = true ∧ ∀ start ∈ levels path, 1 < (afterSlash start).length) := by
  have allLong : (levels path).filter long = levels path ↔ ∀ start ∈ levels path, 1 < (afterSlash start).length := by
    simp [List.filter_eq_self, long]
  constructor
  · intro promised printable
    have succeed : ∀ calls, Clean (fun _ => 0) calls := fun _ _ _ => rfl
    have made := (promised fun _ => 0).made printable (succeed _)
    cases kmalloc with
    | false => cases made
    | true =>
        rw [mkdirRecursive_made printable (succeed _), Prod.mk.injEq] at made
        exact ⟨rfl, allLong.mp made.2⟩
  · intro condition fileMkdir
    obtain ⟨failed, invalid⟩ := mkdirRecursive_reports kmalloc fileMkdir path
    refine ⟨fun printable clean => ?_, failed, invalid⟩
    obtain ⟨rfl, components⟩ := condition printable
    rw [mkdirRecursive_made printable clean, allLong.mpr components]

/-- `/a/bc`: there is no call for `/a`. -/
theorem mkdir_recursive_skips_a :
    ¬ AsPromised (fun _ => 0) [47, 97, 47, 98, 99] (mkdirRecursive true (fun _ => 0) [47, 97, 47, 98, 99]) ∧
    mkdirRecursive true (fun _ => 0) [47, 97, 47, 98, 99] = (0, [[47, 97, 47, 98, 99]]) ∧
    levels [47, 97, 47, 98, 99] = [[47, 97], [47, 97, 47, 98, 99]] := by
  refine ⟨fun promised => ?_, rfl, by decide⟩
  have made := promised.made (by simp [isprint]) fun _ _ => rfl
  exact absurd (congrArg (fun result => result.2.length) made) (by decide)

end Pisces.Mkdir
