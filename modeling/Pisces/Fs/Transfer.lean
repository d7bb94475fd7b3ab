import Mathlib.Algebra.Ring.Nat
import Mathlib.Data.List.Chain
import Pisces.Fs.Steady

/-! # Transfers

The two nested loops of the read and write handlers: between which places of
memory and of the file they move bytes, under short transfers and errors.
-/

namespace Pisces.Fs

open Assign Packed

def bytes (calls : List Io) : Nat :=
  (calls.map (·.result.toNat)).sum

def sizes (descs : List BufDesc) : Nat :=
  (descs.map (·.size.toNat)).sum

/-- The buffers of the descriptors in order, against the file from an offset on. -/
def plan (offset : UInt64) : List BufDesc → List (UInt64 × UInt64)
  | [] => []
  | desc :: rest => track desc.physAddr offset desc.size.toNat ++ plan (offset + desc.size.toUInt64) rest

section Lists

variable {address offset : UInt64} {first second : List Io} {descs : List BufDesc}

@[simp] theorem bytes_nil : bytes [] = 0 := rfl

@[simp] theorem bytes_cons (io : Io) (rest : List Io) : bytes (io :: rest) = io.result.toNat + bytes rest := rfl

@[simp] theorem bytes_append : bytes (first ++ second) = bytes first + bytes second := by
  simp [bytes]

@[simp] theorem bytes_reverse : bytes first.reverse = bytes first := by
  simp [bytes]

@[simp] theorem sizes_nil : sizes [] = 0 := rfl

@[simp] theorem sizes_cons (desc : BufDesc) (rest : List BufDesc) :
    sizes (desc :: rest) = desc.size.toNat + sizes rest := rfl

@[simp] theorem sizes_append (earlier later : List BufDesc) : sizes (earlier ++ later) = sizes earlier + sizes later := by
  simp [sizes]

@[simp] theorem track_length (address offset : UInt64) (count : Nat) : (track address offset count).length = count := by
  simp [track]

theorem track_add (address offset : UInt64) (first second : Nat) :
    track address offset (first + second) =
      track address offset first ++ track (address + .ofNat first) (offset + .ofNat first) second := by
  simp only [track, List.range_add, List.map_append, List.map_map, Function.comp_def, UInt64.ofNat_add, UInt64.add_assoc]

theorem track_take (address offset : UInt64) {count whole : Nat} (fits : count ≤ whole) :
    (track address offset whole).take count = track address offset count := by
  rw [track, ← List.map_take, List.take_range, Nat.min_eq_left fits]
  rfl

@[simp] theorem plan_length (offset : UInt64) (descs : List BufDesc) : (plan offset descs).length = sizes descs := by
  induction descs generalizing offset with
  | nil => rfl
  | cons desc rest ih => rw [plan, List.length_append, track_length, ih, sizes_cons]

theorem plan_take_first {desc : BufDesc} {count : Nat} (fits : count ≤ desc.size.toNat) :
    (plan offset (desc :: descs)).take count = track desc.physAddr offset count := by
  rw [plan, List.take_append_of_le_length (by rwa [track_length]), track_take _ _ fits]

theorem plan_take_rest {desc : BufDesc} (count : Nat) :
    (plan offset (desc :: descs)).take (desc.size.toNat + count) =
      track desc.physAddr offset desc.size.toNat ++ (plan (offset + desc.size.toUInt64) descs).take count := by
  rw [plan, List.take_append, track_length, List.take_of_length_le (by simp)]
  simp

end Lists

/-! ## One descriptor -/

/-- What the inner loop does with a descriptor of which `left` bytes are left.
It fills all of them, or a call that transfers nothing ends it. -/
structure Fills (address : UInt64) (left : Nat) (ret : Int) (progress : Progress) (calls : List Io)
    (last : Int) (next : Progress) : Prop where
  history : next.history = calls.reverse ++ progress.history
  total : next.total = progress.total + .ofNat (bytes calls)
  offset : next.offset = progress.offset + .ofNat (bytes calls)
  moved : calls.flatMap Io.moved = track address progress.offset (bytes calls)
  ends : (∀ io ∈ calls, 0 < io.result) ∧ bytes calls = left ∧ (0 < left → 0 < last) ∧
      (left = 0 → calls = [] ∧ last = ret) ∨
    ∃ others io, calls = others ++ [io] ∧ (∀ other ∈ others, 0 < other.result) ∧ bytes others < left ∧ io.result ≤ 0 ∧
      last = io.result

/-- The bytes done and left are at most the 32-bit size of the descriptor. -/
theorem descLoop_fills (vfs : Vfs) (file physAddr : UInt64) (done left : UInt32) (ret : Int) (progress : Progress)
    (fits : done.toNat + left.toNat < 4294967296) :
    ∃ calls, Fills (physAddr + done.toUInt64) left.toNat ret progress calls
      (descLoop vfs file physAddr done left ret progress).1 (descLoop vfs file physAddr done left ret progress).2 := by
  fun_induction descLoop vfs file physAddr done left ret progress with
  | case1 done ret progress =>
      exact ⟨[], by simp, by simp, by simp, rfl, .inl ⟨by simp, rfl, by simp, by simp⟩⟩
  | case2 done left ret progress some address result io stop =>
      have none : bytes [io] = 0 := by simp [io, stop]
      refine ⟨[io], by simp, by simp [none], by simp [none], ?_, .inr ⟨[], io, by simp, by simp, ?_, stop, rfl⟩⟩
      · rw [none, List.flatMap_singleton, Io.moved, Int.toNat_eq_zero.mpr stop]
      · exact Nat.pos_of_ne_zero fun zero => some (UInt32.toNat_inj.mp zero)
  | case3 done left ret progress some address result io stop smaller ih =>
      have within : result ≤ left.toNat := vfs.bounded ..
      have exact := ofNat_toNat within
      have rest : (left - .ofNat result.toNat).toNat = left.toNat - result.toNat := by
        rw [UInt32.toNat_sub_of_le _ _ (UInt32.le_iff_toNat_le.mpr (by omega)), exact]
      have done' : (done + .ofNat result.toNat).toNat = done.toNat + result.toNat := by
        rw [UInt32.toNat_add, exact]
        omega
      have answered : io.result = result := rfl
      obtain ⟨calls, fills⟩ := ih (by omega)
      refine ⟨io :: calls, ?_, ?_, ?_, ?_, ?_⟩
      · rw [fills.history]
        simp [Progress.advance]
      · rw [fills.total, bytes_cons, UInt64.ofNat_add, ← UInt64.add_assoc]
        rfl
      · rw [fills.offset, bytes_cons, UInt64.ofNat_add, ← UInt64.add_assoc]
        rfl
      · have address : physAddr + (done + .ofNat result.toNat).toUInt64 = io.address + .ofNat io.result.toNat := by
          apply UInt64.toNat_inj.mp
          change (physAddr + _).toNat = (physAddr + done.toUInt64 + .ofNat result.toNat).toNat
          simp only [UInt64.toNat_add, UInt32.toNat_toUInt64, UInt64.toNat_ofNat', done']
          omega
        rw [List.flatMap_cons, fills.moved, bytes_cons, track_add, address]
        rfl
      · rcases fills.ends with ⟨positive, filled, last, none⟩ | ⟨others, stopping, rfl, positive, short, stops, last⟩
        · refine .inl ⟨List.forall_mem_cons.mpr ⟨by omega, positive⟩, by rw [bytes_cons, filled, rest]; omega, ?_, ?_⟩
          · intro _
            rcases Nat.eq_zero_or_pos (left - .ofNat result.toNat).toNat with zero | more
            · rw [(none zero).2]
              omega
            · exact last more
          · intro zero
            exact absurd (UInt32.toNat_inj.mp zero) some
        · exact .inr ⟨io :: others, stopping, rfl, List.forall_mem_cons.mpr ⟨by omega, positive⟩,
            by rw [bytes_cons]; omega, stops, last⟩

theorem desc_fills (vfs : Vfs) (file : UInt64) (desc : BufDesc) (progress : Progress) :
    ∃ calls, Fills desc.physAddr desc.size.toNat 0 progress calls
      (descLoop vfs file desc.physAddr 0 desc.size 0 progress).1
      (descLoop vfs file desc.physAddr 0 desc.size 0 progress).2 := by
  have filled := descLoop_fills vfs file desc.physAddr 0 desc.size 0 progress (by simpa using desc.size.toNat_lt)
  simpa using filled

/-! ## All descriptors -/

/-- Nothing is transferred for descriptors of which the first is empty. -/
def Closed (descs : List BufDesc) : Prop :=
  ∀ desc ∈ descs.head?, desc.size.toNat = 0

/-- The descriptors behind the one that byte `index` belongs to -/
def behind (index : Nat) : List BufDesc → List BufDesc
  | [] => []
  | desc :: rest => if index < desc.size.toNat then rest else behind (index - desc.size.toNat) rest

section Descriptors

variable {vfs : Vfs} {file length : UInt64} {progress : Progress} {descs : List BufDesc} {desc : BufDesc}

theorem descsLoop_reached (enough : progress.total ≥ length) : descsLoop vfs file length descs progress = progress := by
  cases descs with
  | nil => rfl
  | cons desc rest => rw [descsLoop, if_pos enough]

theorem descsLoop_cons {last : Int} {next : Progress} (short : ¬ progress.total ≥ length)
    (filled : descLoop vfs file desc.physAddr 0 desc.size 0 progress = (last, next)) :
    descsLoop vfs file length (desc :: descs) progress =
      if last = 0 then next else descsLoop vfs file length descs next := by
  rw [descsLoop, if_neg short, filled]

theorem descsLoop_history (vfs : Vfs) (file length : UInt64) (descs : List BufDesc) (progress : Progress) :
    ∃ calls : List Io, (descsLoop vfs file length descs progress).history = calls.reverse ++ progress.history := by
  induction descs generalizing progress with
  | nil => exact ⟨[], rfl⟩
  | cons desc rest ih =>
      by_cases enough : progress.total ≥ length
      · exact ⟨[], by rw [descsLoop_reached enough]; rfl⟩
      · obtain ⟨first, fills⟩ := desc_fills vfs file desc progress
        rw [descsLoop_cons enough rfl]
        split
        · exact ⟨first, fills.history⟩
        · obtain ⟨later, history⟩ := ih (descLoop vfs file desc.physAddr 0 desc.size 0 progress).2
          exact ⟨first ++ later, by rw [history, fills.history, List.reverse_append, List.append_assoc]⟩

/-- No call is made if nothing is left to do or the next descriptor is empty. -/
theorem descsLoop_silent (vfs : Vfs) (file length : UInt64) (descs : List BufDesc) (progress : Progress) :
    (descsLoop vfs file length descs progress).history = progress.history ↔ progress.total ≥ length ∨ Closed descs := by
  by_cases enough : progress.total ≥ length
  · rw [descsLoop_reached enough]
    exact ⟨fun _ => .inl enough, fun _ => rfl⟩
  cases descs with
  | nil => exact ⟨fun _ => .inr (by simp [Closed]), fun _ => rfl⟩
  | cons desc rest =>
      obtain ⟨first, fills⟩ := desc_fills vfs file desc progress
      rw [descsLoop_cons enough rfl]
      constructor
      · intro same
        right
        intro _ here
        cases here
        by_contra some
        have called : first ≠ [] := by
          rcases fills.ends with ⟨_, filled, _, _⟩ | ⟨others, io, rfl, _⟩
          · rintro rfl
            exact some filled.symm
          · simp
        obtain ⟨later, history⟩ : ∃ later, (if (descLoop vfs file desc.physAddr 0 desc.size 0 progress).1 = 0 then
            (descLoop vfs file desc.physAddr 0 desc.size 0 progress).2
            else descsLoop vfs file length rest (descLoop vfs file desc.physAddr 0 desc.size 0 progress).2).history =
            later ++ (first.reverse ++ progress.history) := by
          split
          · exact ⟨[], fills.history⟩
          · obtain ⟨later, history⟩ :=
              descsLoop_history vfs file length rest (descLoop vfs file desc.physAddr 0 desc.size 0 progress).2
            exact ⟨later.reverse, by rw [history, fills.history]⟩
        rw [same] at history
        have grown := congrArg List.length history
        have positive := List.length_pos_of_ne_nil called
        simp only [List.length_append, List.length_reverse] at grown
        omega
      · rintro (reached | closed)
        · exact absurd reached enough
        · have empty := closed desc rfl
          rcases fills.ends with ⟨_, _, _, none⟩ | ⟨_, _, _, _, impossible, _⟩
          · obtain ⟨rfl, last⟩ := none empty
            rw [if_pos last, fills.history]
            rfl
          · omega

/-- What was transferred without an error -/
structure Moved (descs : List BufDesc) (offset : UInt64) (calls : List Io) : Prop where
  moved : calls.flatMap Io.moved = (plan offset descs).take (bytes calls)
  within : bytes calls ≤ sizes descs

/-- The first error -/
structure Failed (length total offset : UInt64) (descs : List BufDesc) (before : List Io) (io : Io) (after : List Io) :
    Prop extends Moved descs offset before where
  positive : ∀ other ∈ before, 0 < other.result
  fails : io.result < 0
  ends : after = [] ↔ length ≤ total + .ofNat (bytes before) ∨ Closed (behind (bytes before) descs)

/-- A result of zero comes from the last call. -/
def EofLast (calls : List Io) : Prop :=
  calls.IsChain fun io _ => io.result ≠ 0

theorem EofLast.append {first later : List Io} (nonzero : ∀ io ∈ first, io.result ≠ 0) (last : EofLast later) :
    EofLast (first ++ later) := by
  induction first with
  | nil => exact last
  | cons io rest ih =>
      obtain ⟨here, nonzero⟩ := List.forall_mem_cons.mp nonzero
      exact List.isChain_cons.mpr ⟨fun _ _ => here, ih nonzero⟩

theorem Moved.rest {offset : UInt64} {first later : List Io}
    (filled : first.flatMap Io.moved = track desc.physAddr offset (bytes first)) (full : bytes first = desc.size.toNat)
    (moved : Moved descs (offset + .ofNat (bytes first)) later) : Moved (desc :: descs) offset (first ++ later) := by
  have size : UInt64.ofNat desc.size.toNat = desc.size.toUInt64 := UInt64.toNat_inj.mp (by simp)
  refine ⟨?_, ?_⟩
  · rw [List.flatMap_append, filled, moved.moved, bytes_append, full, plan_take_rest, size]
  · rw [bytes_append, full, sizes_cons]
    exact Nat.add_le_add_left moved.within _

theorem Failed.rest {length total offset : UInt64} {first before after : List Io} {io : Io}
    (failed : Failed length (total + .ofNat (bytes first)) (offset + .ofNat (bytes first)) descs before io after)
    (filled : first.flatMap Io.moved = track desc.physAddr offset (bytes first)) (full : bytes first = desc.size.toNat)
    (positive : ∀ other ∈ first, 0 < other.result) :
    Failed length total offset (desc :: descs) (first ++ before) io after := by
  have further : behind (bytes first + bytes before) (desc :: descs) = behind (bytes before) descs := by
    rw [behind, if_neg (by omega), full, Nat.add_sub_cancel_left]
  refine ⟨.rest filled full failed.toMoved, List.forall_mem_append.mpr ⟨positive, failed.positive⟩, failed.fails, ?_⟩
  rw [bytes_append, UInt64.ofNat_add, ← UInt64.add_assoc, further]
  exact failed.ends

/-- The calls move the bytes of the plan in order, as many as are counted, until
an error; whether the error ends the transfer depends on what comes next. -/
theorem descsLoop_moves (vfs : Vfs) (file length : UInt64) (descs : List BufDesc) (progress : Progress) :
    ∃ calls, (descsLoop vfs file length descs progress).history = calls.reverse ++ progress.history ∧
      (descsLoop vfs file length descs progress).total = progress.total + .ofNat (bytes calls) ∧ EofLast calls ∧
      ((∀ io ∈ calls, 0 ≤ io.result) ∧ Moved descs progress.offset calls ∨
        ∃ before io after, calls = before ++ io :: after ∧
          Failed length progress.total progress.offset descs before io after) := by
  induction descs generalizing progress with
  | nil => exact ⟨[], rfl, by simp [descsLoop], .nil, .inl ⟨by simp, by simp [plan], by simp⟩⟩
  | cons desc rest ih =>
      by_cases enough : progress.total ≥ length
      · rw [descsLoop_reached enough]
        exact ⟨[], rfl, by simp, .nil, .inl ⟨by simp, by simp, by simp⟩⟩
      obtain ⟨first, fills⟩ := desc_fills vfs file desc progress
      rw [descsLoop_cons enough rfl]
      generalize (descLoop vfs file desc.physAddr 0 desc.size 0 progress).1 = last at fills
      generalize (descLoop vfs file desc.physAddr 0 desc.size 0 progress).2 = next at fills
      obtain ⟨later, history, total, last, course⟩ := ih next
      have wholeHistory : (descsLoop vfs file length rest next).history =
          (first ++ later).reverse ++ progress.history := by
        rw [history, fills.history, List.reverse_append, List.append_assoc]
      have wholeTotal : (descsLoop vfs file length rest next).total =
          progress.total + .ofNat (bytes (first ++ later)) := by
        rw [total, fills.total, bytes_append, UInt64.ofNat_add, UInt64.add_assoc]
      rcases fills.ends with ⟨positive, filled, goesOn, none⟩ | ⟨others, io, rfl, positive, short, stops, rfl⟩
      · rcases Nat.eq_zero_or_pos desc.size.toNat with empty | some
        · -- An empty descriptor leaves `ret` at zero, which ends the transfer.
          obtain ⟨rfl, rfl⟩ := none empty
          rw [if_pos rfl]
          exact ⟨[], fills.history, fills.total, .nil, .inl ⟨by simp, by simp, by simp⟩⟩
        · have positiveLast := goesOn some
          rw [if_neg (by omega)]
          have chain := last.append fun io member => Int.ne_of_gt (positive io member)
          refine ⟨first ++ later, wholeHistory, wholeTotal, chain, ?_⟩
          rw [fills.offset, fills.total] at course
          rcases course with ⟨nonnegative, moved⟩ | ⟨before, io, after, rfl, failed⟩
          · left
            refine ⟨List.forall_mem_append.mpr ⟨fun io member => Int.le_of_lt (positive io member), nonnegative⟩, ?_⟩
            exact .rest fills.moved filled moved
          · right
            exact ⟨first ++ before, io, after, by simp, failed.rest fills.moved filled positive⟩
      · have nothing : io.result.toNat = 0 := Int.toNat_eq_zero.mpr stops
        have same : bytes (others ++ [io]) = bytes others := by simp [nothing]
        have noBytes : io.moved = [] := by simp [Io.moved, nothing, track]
        have moved : Moved (desc :: rest) progress.offset others := by
          have run := fills.moved
          rw [same, List.flatMap_append, List.flatMap_singleton, noBytes, List.append_nil] at run
          exact ⟨by rw [run, plan_take_first (Nat.le_of_lt short)], by rw [sizes_cons]; omega⟩
        by_cases eof : io.result = 0
        · rw [if_pos eof]
          have chain : EofLast (others ++ [io]) :=
            .append (fun other member => Int.ne_of_gt (positive other member)) (.singleton io)
          refine ⟨others ++ [io], fills.history, fills.total, chain, .inl ⟨?_, ?_, ?_⟩⟩
          · rw [List.forall_mem_append]
            exact ⟨fun other member => Int.le_of_lt (positive other member), by simp [eof]⟩
          · rw [List.flatMap_append, List.flatMap_singleton, noBytes, List.append_nil, same, moved.moved]
          · rw [same]
            exact moved.within
        · -- The outer loop goes on behind an error.
          rw [if_neg eof]
          have nonzero : ∀ other ∈ others ++ [io], other.result ≠ 0 := by
            rw [List.forall_mem_append]
            exact ⟨fun other member => Int.ne_of_gt (positive other member), by simpa using eof⟩
          refine ⟨others ++ [io] ++ later, wholeHistory, wholeTotal, last.append nonzero,
            .inr ⟨others, io, later, by simp, moved, positive, by omega, ?_⟩⟩
          have silent := descsLoop_silent vfs file length rest next
          rw [history, fills.total, same] at silent
          rw [behind, if_pos short, ← ge_iff_le, ← silent]
          simp

/-- Every call has the kernel's answer for its result. -/
def Answered (vfs : Vfs) (file : UInt64) (history : List Io) : Prop :=
  ∀ io ∈ history, ∃ earlier, io.result = vfs.transfer file earlier io.address io.length io.offset

theorem descLoop_answered (vfs : Vfs) (file physAddr : UInt64) (done left : UInt32) (ret : Int) (progress : Progress)
    (answered : Answered vfs file progress.history) :
    Answered vfs file (descLoop vfs file physAddr done left ret progress).2.history := by
  fun_induction descLoop vfs file physAddr done left ret progress with
  | case1 => exact answered
  | case2 => exact List.forall_mem_cons.mpr ⟨⟨_, rfl⟩, answered⟩
  | case3 done left ret progress some address result io stop smaller ih =>
      exact ih (List.forall_mem_cons.mpr ⟨⟨_, rfl⟩, answered⟩)

theorem descsLoop_answered (vfs : Vfs) (file length : UInt64) (descs : List BufDesc) (progress : Progress)
    (answered : Answered vfs file progress.history) :
    Answered vfs file (descsLoop vfs file length descs progress).history := by
  induction descs generalizing progress with
  | nil => exact answered
  | cons desc rest ih =>
      have next := descLoop_answered vfs file desc.physAddr 0 desc.size 0 progress answered
      simp only [descsLoop]
      split
      · exact answered
      · split
        · exact next
        · exact ih _ next

end Descriptors

/-! ## Contents -/

def BufDesc.buffer (desc : BufDesc) : List UInt64 :=
  (List.range desc.size.toNat).map fun index => desc.physAddr + .ofNat index

/-- The bytes of the buffers in order -/
def buffers (descs : List BufDesc) : List UInt64 :=
  descs.flatMap BufDesc.buffer

theorem foldl_assign {Place Value Step : Type*} [DecidableEq Place] (writes : Step → List (Place × Value))
    (steps : List Step) (store : Place → Value) :
    steps.foldl (fun store step => assign store (writes step)) store = assign store (steps.flatMap writes) := by
  induction steps generalizing store with
  | nil => rfl
  | cons step rest ih => rw [List.foldl_cons, ih, List.flatMap_cons, assign_append]

theorem plan_fst (offset : UInt64) (descs : List BufDesc) : (plan offset descs).map Prod.fst = buffers descs := by
  induction descs generalizing offset with
  | nil => rfl
  | cons desc rest ih =>
      rw [plan, List.map_append, ih, track, List.map_map]
      rfl

theorem plan_snd (offset : UInt64) (descs : List BufDesc) :
    (plan offset descs).map Prod.snd = (List.range (sizes descs)).map fun index => offset + .ofNat index := by
  induction descs generalizing offset with
  | nil => rfl
  | cons desc rest ih =>
      have size : UInt64.ofNat desc.size.toNat = desc.size.toUInt64 := UInt64.toNat_inj.mp (by simp)
      rw [plan, List.map_append, ih, sizes_cons, List.range_add, List.map_append, track, List.map_map, List.map_map]
      simp only [Function.comp_def, UInt64.ofNat_add, UInt64.add_assoc, size]

theorem plan_get {offset address : UInt64} {descs : List BufDesc} {index : Nat}
    (found : (buffers descs)[index]? = some address) :
    (plan offset descs)[index]? = some (address, offset + .ofNat index) := by
  rw [← plan_fst offset, List.getElem?_map] at found
  obtain ⟨⟨place, position⟩, present, rfl⟩ := Option.map_eq_some_iff.mp found
  have inside : index < sizes descs := by
    rw [← plan_length offset]
    exact (List.getElem?_eq_some_iff.mp present).1
  have second : ((plan offset descs).map Prod.snd)[index]? = some position := by rw [List.getElem?_map, present]; rfl
  rw [plan_snd, List.getElem?_map, List.getElem?_range inside, Option.map_some] at second
  rw [present, Option.some_inj.mp second]

theorem nodup_places (start : UInt64) {count : Nat} (bounded : count ≤ 18446744073709551616) :
    ((List.range count).map fun index => start + .ofNat index).Nodup := by
  refine List.Nodup.map_on ?_ List.nodup_range
  intro first firstIn second secondIn same
  rw [List.mem_range] at firstIn secondIn
  have equal := congrArg UInt64.toNat ((UInt64.add_right_inj start).mp same)
  rw [UInt64.toNat_ofNat', UInt64.toNat_ofNat'] at equal
  omega

theorem sizes_lt {descs : List BufDesc} (counted : descs.length < 4294967296) :
    sizes descs < 18446744073709551616 := by
  have bounded : sizes descs ≤ descs.length * 4294967295 := by
    induction descs with
    | nil => simp
    | cons desc rest ih =>
        have size := desc.size.toNat_lt
        have later := ih (by simp only [List.length_cons] at counted; omega)
        simp only [sizes_cons, List.length_cons]
        omega
  omega

theorem nodup_buffers {descs : List BufDesc}
    (disjoint : descs.Pairwise fun one other => one.buffer.Disjoint other.buffer) :
    (buffers descs).Nodup := by
  refine List.nodup_flatMap.mpr ⟨fun desc _ => nodup_places desc.physAddr ?_, disjoint⟩
  have := desc.size.toNat_lt
  omega

section Transfers

variable {vfs : Vfs} {lcall : TransferLcall}

theorem transfers_moves (vfs : Vfs) (lcall : TransferLcall) :
    (transfers vfs lcall).total = .ofNat (bytes (steadyCalls vfs lcall)) ∧ EofLast (steadyCalls vfs lcall) ∧
      ((∀ io ∈ steadyCalls vfs lcall, 0 ≤ io.result) ∧ Moved lcall.descs lcall.offset (steadyCalls vfs lcall) ∨
        ∃ before io after, steadyCalls vfs lcall = before ++ io :: after ∧
          Failed lcall.length 0 lcall.offset lcall.descs before io after) := by
  obtain ⟨calls, history, total, last, course⟩ :=
    descsLoop_moves vfs lcall.fileHandle lcall.length lcall.descs ⟨lcall.offset, 0, []⟩
  have same : steadyCalls vfs lcall = calls := by
    rw [steadyCalls, transfers, history, List.append_nil, List.reverse_reverse]
  rw [UInt64.zero_add] at total
  rw [same]
  exact ⟨total, last, course⟩

theorem transfers_moved
    (answers : ∀ history address length offset, 0 ≤ vfs.transfer lcall.fileHandle history address length offset) :
    Moved lcall.descs lcall.offset (steadyCalls vfs lcall) := by
  obtain ⟨_, _, ⟨_, moved⟩ | ⟨before, io, after, split, failed⟩⟩ := transfers_moves vfs lcall
  · exact moved
  · exfalso
    have answered := descsLoop_answered vfs lcall.fileHandle lcall.length lcall.descs ⟨lcall.offset, 0, []⟩
      fun _ none => absurd none List.not_mem_nil
    have member : io ∈ steadyCalls vfs lcall := by rw [split]; simp
    obtain ⟨earlier, result⟩ := answered io (List.mem_reverse.mp member)
    have nonnegative := answers earlier io.address io.length io.offset
    have fails := failed.fails
    omega

/-- The status counts the bytes of the calls. -/
theorem transfers_status (moved : Moved lcall.descs lcall.offset (steadyCalls vfs lcall)) :
    (transfers vfs lcall).total.toNat = bytes (steadyCalls vfs lcall) ∧
      bytes (steadyCalls vfs lcall) ≤ (buffers lcall.descs).length := by
  have size := sizes_lt lcall.descs_lt
  have within := moved.within
  have length : (buffers lcall.descs).length = sizes lcall.descs := by
    rw [← plan_fst lcall.offset, List.length_map, plan_length]
  rw [(transfers_moves vfs lcall).1, UInt64.toNat_ofNat', length]
  exact ⟨Nat.mod_eq_of_lt (by omega), within⟩

/-- The calls of a read leave a file's bytes in the buffers. -/
theorem readInto_moved {calls : List Io} {offset : UInt64} {descs : List BufDesc} (moved : Moved descs offset calls)
    (disjoint : descs.Pairwise fun one other => one.buffer.Disjoint other.buffer) (data memory : UInt64 → UInt8) :
    (∀ index < bytes calls, ∀ address, (buffers descs)[index]? = some address →
      readInto data memory calls address = data (offset + .ofNat index)) ∧
      ∀ address ∉ (buffers descs).take (bytes calls), readInto data memory calls address = memory address := by
  have read : readInto data memory calls =
      assign memory (((plan offset descs).take (bytes calls)).map fun place => (place.1, data place.2)) := by
    rw [readInto, foldl_assign, ← List.map_flatMap, moved.moved]
  have addresses : (((plan offset descs).take (bytes calls)).map fun place => (place.1, data place.2)).map Prod.fst =
      (buffers descs).take (bytes calls) := by
    rw [List.map_map, ← plan_fst offset, ← List.map_take]
    rfl
  refine ⟨fun index inside address found => ?_, fun address outside => ?_⟩
  · have planned : (address, offset + .ofNat index) ∈ (plan offset descs).take (bytes calls) := by
      refine List.mem_of_getElem? (i := index) ?_
      rw [List.getElem?_take_of_lt inside, plan_get found]
    rw [read]
    refine assign_of_mem ?_ (List.mem_map.mpr ⟨_, planned, rfl⟩)
    rw [addresses]
    exact (nodup_buffers disjoint).sublist (List.take_sublist ..)
  · rw [read]
    exact assign_of_notMem (by rw [addresses]; exact outside)

/-- The calls of a write leave the bytes of the buffers in a file. -/
theorem writeOut_moved {calls : List Io} {offset : UInt64} {descs : List BufDesc} (moved : Moved descs offset calls)
    (bounded : bytes calls ≤ 18446744073709551616) (memory data : UInt64 → UInt8) :
    (∀ index < bytes calls, ∀ address, (buffers descs)[index]? = some address →
      writeOut memory data calls (offset + .ofNat index) = memory address) ∧
      ∀ position, (∀ index < bytes calls, position ≠ offset + .ofNat index) →
        writeOut memory data calls position = data position := by
  have within := moved.within
  have written : writeOut memory data calls =
      assign data (((plan offset descs).take (bytes calls)).map fun place => (place.2, memory place.1)) := by
    rw [writeOut, foldl_assign, ← List.map_flatMap, moved.moved]
  have positions : (((plan offset descs).take (bytes calls)).map fun place => (place.2, memory place.1)).map Prod.fst =
      (List.range (bytes calls)).map fun index => offset + .ofNat index := by
    have taken := congrArg (List.take (bytes calls)) (plan_snd offset descs)
    rw [← List.map_take, ← List.map_take, List.take_range, Nat.min_eq_left within] at taken
    rw [List.map_map, ← taken]
    rfl
  refine ⟨fun index inside address found => ?_, fun position outside => ?_⟩
  · have planned : (address, offset + .ofNat index) ∈ (plan offset descs).take (bytes calls) := by
      refine List.mem_of_getElem? (i := index) ?_
      rw [List.getElem?_take_of_lt inside, plan_get found]
    rw [written]
    refine assign_of_mem ?_ (List.mem_map.mpr ⟨_, planned, rfl⟩)
    rw [positions]
    exact nodup_places _ bounded
  · rw [written]
    refine assign_of_notMem ?_
    rw [positions]
    intro member
    obtain ⟨index, inside, rfl⟩ := List.mem_map.mp member
    exact outside index (List.mem_range.mp inside) rfl

/-- A read fills the buffers from the file and a write the file from the
buffers, in order and without a gap, as far as the status says and no further.
The buffers of a read lie apart from what is still read of the message. -/
theorem transfer_contiguous {state : State} (opened : search state lcall.fileHandle = true)
    (disjoint : lcall.descs.Pairwise fun one other => one.buffer.Disjoint other.buffer)
    (answers : ∀ history address length offset, 0 ≤ vfs.transfer lcall.fileHandle history address length offset) :
    (lcall.Apart → ∀ data, (∀ history, vfs.contents lcall.fileHandle history = data) →
      ∃ status : UInt64, status.toNat ≤ (buffers lcall.descs).length ∧
        (enclaveVfsReadLcall vfs state lcall).answers = [.done status] ∧
        (∀ index < status.toNat, ∀ address, (buffers lcall.descs)[index]? = some address →
          (transfer .read vfs lcall).1.memory address = data (lcall.offset + .ofNat index)) ∧
        ∀ address ∉ (buffers lcall.descs).take status.toNat,
          (transfer .read vfs lcall).1.memory address = lcall.memory address) ∧
      ∃ status : UInt64, status.toNat ≤ (buffers lcall.descs).length ∧
        (enclaveVfsWriteLcall vfs state lcall).answers = [.done status] ∧
        ∀ data, (∀ index < status.toNat, ∀ address, (buffers lcall.descs)[index]? = some address →
          writeOut lcall.memory data (calls .write vfs lcall) (lcall.offset + .ofNat index) = lcall.memory address) ∧
          ∀ position, (∀ index < status.toNat, position ≠ lcall.offset + .ofNat index) →
            writeOut lcall.memory data (calls .write vfs lcall) position = data position := by
  have moved := transfers_moved answers
  obtain ⟨status, within⟩ := transfers_status moved
  refine ⟨fun apart data contents =>
    ⟨(transfers vfs lcall).total, by omega, transfer_answers vfs opened fun _ => apart, ?_⟩,
    (transfers vfs lcall).total, by omega, transfer_answers vfs opened (by simp), ?_⟩
  · rw [transfer_read contents, calls_steady vfs fun _ => apart, status]
    exact readInto_moved moved disjoint data lcall.memory
  · rw [calls_steady vfs (by simp), status]
    have size := (transfers vfs lcall).total.toNat_lt
    exact writeOut_moved moved (by omega) lcall.memory

/-! ## Requests -/

def oneFile : State :=
  { numFiles := 1
    openFileTable := Util.htableInsert fileHashFn ⟨53, List.replicate 53 [], 0, 35, 0⟩ 1 1
    openFileList := [1] }

theorem oneFile_opened : search oneFile 1 = true := by
  decide +kernel

/-- A transfer of the file 1 from its start on -/
def request (length : UInt64) (descs : List BufDesc) : TransferLcall :=
  .of (List.replicate 12 0 ++ le 8 1 ++ le 8 0 ++ le 8 length.toNat ++ le 4 descs.length ++
    descs.flatMap fun desc => le 4 desc.size.toNat ++ le 8 desc.physAddr.toNat)

def twoBuffers : TransferLcall :=
  request 3 [⟨2, 100⟩, ⟨1, 200⟩]

/-- A kernel that transfers one byte at a time -/
def singleBytes : Vfs where
  filpOpen _ _ := 0
  getattr _ := (0, 0)
  transfer _ _ _ length _ := min 1 length.toNat
  contents _ _ position := .ofNat (position.toNat + 201)
  bounded _ _ _ _ _ := Int.min_le_right ..

theorem twoBuffers_descs : twoBuffers.descs = [⟨2, 100⟩, ⟨1, 200⟩] := by
  decide +kernel

theorem twoBuffers_handle : twoBuffers.fileHandle = 1 := by
  decide +kernel

theorem twoBuffers_apart : twoBuffers.Apart := by
  decide +kernel

theorem twoBuffers_contiguous :
    (∃ status : UInt64, (enclaveVfsReadLcall singleBytes oneFile twoBuffers).answers = [.done status] ∧
      ∀ address ∉ (buffers twoBuffers.descs).take status.toNat,
        (transfer .read singleBytes twoBuffers).1.memory address = twoBuffers.memory address) ∧
      ∃ status : UInt64, (enclaveVfsWriteLcall singleBytes oneFile twoBuffers).answers = [.done status] := by
  obtain ⟨read, written⟩ := @transfer_contiguous singleBytes twoBuffers oneFile
    (by rw [twoBuffers_handle]; exact oneFile_opened)
    (by rw [twoBuffers_descs]; simp [BufDesc.buffer, List.range_succ])
    (fun _ _ length _ => by simp only [singleBytes]; omega)
  obtain ⟨status, -, answered, -, outside⟩ := read twoBuffers_apart _ fun _ => rfl
  obtain ⟨total, -, completed, -⟩ := written
  exact ⟨⟨status, answered, outside⟩, total, completed⟩

/-- The first buffer is the lowest byte of the second's address. -/
def covering : TransferLcall :=
  request 3 [⟨1, 0x1000 + 56⟩, ⟨1, 200⟩, ⟨1, 201⟩]

/-- A turn for which one byte is asked -/
def singleTurn (direction : Direction) (i : Nat) (turn : TransferLcall × Progress) : TransferLcall × Progress :=
  let io : Io := ⟨turn.1.physAddr i, 1, turn.2.offset, 1⟩
  (direction.after singleBytes 1 turn.2.history io turn.1, turn.2.advance io)

theorem outerLoop_single (direction : Direction) {length : UInt64} {i : Nat} (turn : TransferLcall × Progress)
    (more : i < turn.1.numDescs.toNat) (short : ¬ turn.2.total ≥ length) (one : turn.1.size i = 1) :
    outerLoop direction singleBytes 1 length i turn.1 turn.2 =
      outerLoop direction singleBytes 1 length (i + 1)
        (singleTurn direction i turn).1 (singleTurn direction i turn).2 := by
  have filled : innerLoop direction singleBytes 1 i 0 1 0 turn.1 turn.2 = (1, singleTurn direction i turn) := by
    have answered (history : List Io) (address offset : UInt64) :
        singleBytes.transfer 1 history address 1 offset = 1 := rfl
    have base : turn.1.physAddr i + UInt32.toUInt64 0 = turn.1.physAddr i := UInt64.add_zero _
    rw [innerLoop, if_neg (by decide)]
    simp only [answered, base]
    rw [dif_neg (by decide), innerLoop, if_pos (by decide)]
    rfl
  rw [outerLoop, dif_pos more, if_neg short, one, filled]
  rfl

def coveringEnd : TransferLcall × Progress :=
  singleTurn .read 2 (singleTurn .read 1 (singleTurn .read 0 (covering, ⟨0, 0, []⟩)))

theorem covering_run : transfer .read singleBytes covering = coveringEnd := by
  have start : transfer .read singleBytes covering = outerLoop .read singleBytes 1 3 0 covering ⟨0, 0, []⟩ := by
    rw [transfer, show covering.fileHandle = 1 by decide +kernel, show covering.length = 3 by decide +kernel,
      show covering.offset = 0 by decide +kernel]
  rw [start, outerLoop_single .read (covering, ⟨0, 0, []⟩) (by decide +kernel) (by decide +kernel) (by decide +kernel),
    outerLoop_single .read (singleTurn .read 0 (covering, ⟨0, 0, []⟩)) (by decide +kernel) (by decide +kernel)
      (by decide +kernel),
    outerLoop_single .read (singleTurn .read 1 (singleTurn .read 0 (covering, ⟨0, 0, []⟩))) (by decide +kernel)
      (by decide +kernel) (by decide +kernel),
    outerLoop, dif_neg (by decide +kernel)]
  rfl

/-- The byte that the first buffer receives moves the second buffer onto the third. -/
theorem covering_shifts : ¬ ∀ vfs state (lcall : TransferLcall), search state lcall.fileHandle = true →
    (lcall.descs.Pairwise fun one other => one.buffer.Disjoint other.buffer) →
    (∀ history address length offset, 0 ≤ vfs.transfer lcall.fileHandle history address length offset) →
    ∀ data, (∀ history, vfs.contents lcall.fileHandle history = data) →
      ∃ status : UInt64, (enclaveVfsReadLcall vfs state lcall).answers = [.done status] ∧
        ∀ index < status.toNat, ∀ address, (buffers lcall.descs)[index]? = some address →
          (transfer .read vfs lcall).1.memory address = data (lcall.offset + .ofNat index) := by
  intro contiguous
  have listed : covering.descs = [⟨1, 0x1000 + 56⟩, ⟨1, 200⟩, ⟨1, 201⟩] := by decide +kernel
  have handle : covering.fileHandle = 1 := by decide +kernel
  have opened : search oneFile covering.fileHandle = true := by rw [handle, oneFile_opened]
  obtain ⟨status, answered, filled⟩ := contiguous singleBytes oneFile covering opened
    (by rw [listed]; simp [BufDesc.buffer, List.range_succ]) (fun _ _ length _ => by simp only [singleBytes]; omega) _
    fun _ => rfl
  have whole : (enclaveVfsReadLcall singleBytes oneFile covering).answers = [.done 3] := by
    rw [enclaveVfsReadLcall, enclaveVfsTransferLcall, if_pos opened, covering_run]
    rfl
  rw [whole] at answered
  obtain rfl : 3 = status := by simpa using answered
  have second := filled 1 (by decide) 200 (by rw [listed]; rfl)
  rw [covering_run] at second
  exact absurd second (by decide +kernel)

end Transfers

end Pisces.Fs
