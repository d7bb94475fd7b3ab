import Mathlib.Algebra.Ring.Nat
import Pisces.Fifo
import Pisces.Job

/-! # Reading the console

`console_read` of `enclave_cons.c` on the ring that the enclave writes its
console to.
-/

namespace Pisces.ConsoleRing

open Fifo

/-- `struct pisces_cons_ringbuf`; of `buf` the 65504 bytes from 0 on exist. -/
structure Ring where
  readIdx : UInt64
  writeIdx : UInt64
  curLen : UInt64
  buf : Nat → UInt8

/-- `sizeof(ringbuf->buf)` -/
def bufSize : UInt64 := 64 * 1024 - 32

/-- The ring, the file offset in two's complement and the user's buffer. -/
structure State where
  ring : Ring
  offset : UInt64
  user : Nat → UInt8

inductive Event where
  | lock
  | unlock
  | copyToUser (start count : UInt64)
  | subtract (whole part : UInt64)
deriving DecidableEq

inductive Fault where
  | efault
deriving DecidableEq

abbrev ReadJob := Job Event State Fault

/-- How many bytes each of the two calls of `copy_to_user` can copy. -/
structure Copies where
  first : Nat
  second : Nat

def subtract (whole part : UInt64) : ReadJob UInt64 := do
  Job.emit (.subtract whole part) id
  return whole - part

/-- Both calls copy to the start of the user's buffer. -/
def copyToUser (reach : Nat) (count : UInt64) : ReadJob Unit := do
  let start ← Job.read (·.ring.readIdx)
  Job.emit (.copyToUser start count) fun state =>
    { state with
      user := fun index =>
        if index < min reach count.toNat then state.ring.buf (start.toNat + index) else state.user index }
  if reach < count.toNat then do
    Job.emit .unlock id
    Job.stop .efault

/-- `ring.curLen` is written last. -/
def consume (readLen curLen : UInt64) (state : State) : State :=
  { state with
    offset := state.offset + readLen
    ring :=
      { state.ring with
        readIdx := (state.ring.readIdx + readLen) % bufSize
        curLen := curLen } }

/-- `read_len` after the test against what is left to read -/
def clamp (readLen leftToRead : UInt64) : UInt64 :=
  if readLen > leftToRead then leftToRead else readLen

/-- The bytes from `read_idx` to `whole`, as far as they are asked for. -/
def segment (reach : Nat) (whole leftToRead : UInt64) : ReadJob UInt64 := do
  let readIdx ← Job.read (·.ring.readIdx)
  let upTo ← subtract whole readIdx
  let readLen := clamp upTo leftToRead
  copyToUser reach readLen
  let curLen ← Job.read (·.ring.curLen)
  let rest ← subtract curLen readLen
  Job.update (consume readLen rest)
  subtract leftToRead readLen

/-- The first part, if the write index is not ahead of the read index. -/
def readToEnd (reach : Nat) (ring : Ring) (leftToRead : UInt64) : ReadJob UInt64 :=
  if leftToRead > 0 ∧ ring.readIdx ≥ ring.writeIdx then segment reach bufSize leftToRead else pure leftToRead

def readToWriteIdx (reach : Nat) (ring : Ring) (leftToRead : UInt64) : ReadJob Unit := do
  if leftToRead > 0 then
    let _ ← segment reach ring.writeIdx leftToRead

/-- The ring is read under its lock; `write_idx` does not change meanwhile. -/
def consoleRead (copies : Copies) (length : UInt64) : ReadJob UInt64 := do
  Job.emit .lock id
  let ring ← Job.read State.ring
  let length := clamp length ring.curLen
  let leftToRead ← readToEnd copies.first ring length
  readToWriteIdx copies.second ring leftToRead
  Job.emit .unlock id
  return length

variable {copies : Copies} {length whole left : UInt64} {state : State} {reach : Nat}

def copied (reach : Nat) (count : UInt64) (state : State) : State :=
  { state with
    user := fun index =>
      if index < min reach count.toNat then state.ring.buf (state.ring.readIdx.toNat + index) else state.user index }

theorem copyToUser_eq (reach : Nat) (count : UInt64) (state : State) :
    copyToUser reach count state =
      if reach < count.toNat then
        ⟨[.copyToUser state.ring.readIdx count, .unlock], copied reach count state, .error .efault⟩
      else ⟨[.copyToUser state.ring.readIdx count], copied reach count state, .ok ()⟩ := by
  by_cases fails : reach < count.toNat
  · simp only [copyToUser, if_pos fails]
    rfl
  · simp only [copyToUser, if_neg fails]
    rfl

theorem segment_faulted (fails : reach < (clamp (whole - state.ring.readIdx) left).toNat) :
    segment reach whole left state =
      ⟨[.subtract whole state.ring.readIdx,
          .copyToUser state.ring.readIdx (clamp (whole - state.ring.readIdx) left), .unlock],
        copied reach (clamp (whole - state.ring.readIdx) left) state, .error .efault⟩ := by
  have copy := copyToUser_eq reach (clamp (whole - state.ring.readIdx) left) state
  rw [if_pos fails] at copy
  simp only [segment, subtract, Bind.bind, Job.bind, Job.read, Job.emit, Pure.pure, Job.pure, id, copy]
  rfl

theorem segment_copied (copies : ¬ reach < (clamp (whole - state.ring.readIdx) left).toNat) :
    segment reach whole left state =
      ⟨[.subtract whole state.ring.readIdx,
          .copyToUser state.ring.readIdx (clamp (whole - state.ring.readIdx) left),
          .subtract state.ring.curLen (clamp (whole - state.ring.readIdx) left),
          .subtract left (clamp (whole - state.ring.readIdx) left)],
        consume (clamp (whole - state.ring.readIdx) left)
          (state.ring.curLen - clamp (whole - state.ring.readIdx) left)
          (copied reach (clamp (whole - state.ring.readIdx) left) state),
        .ok (left - clamp (whole - state.ring.readIdx) left)⟩ := by
  have copy := copyToUser_eq reach (clamp (whole - state.ring.readIdx) left) state
  rw [if_neg copies] at copy
  simp only [segment, subtract, Bind.bind, Job.bind, Job.read, Job.emit, Job.update, Pure.pure, Job.pure, id, copy]
  rfl

def advance (reach : Nat) (count : UInt64) (state : State) : State :=
  consume count (state.ring.curLen - count) (copied reach count state)

def segmentEvents (whole count left : UInt64) (state : State) : List Event :=
  [.subtract whole state.ring.readIdx, .copyToUser state.ring.readIdx count,
    .subtract state.ring.curLen count, .subtract left count]

def faultEvents (whole count : UInt64) (state : State) : List Event :=
  [.subtract whole state.ring.readIdx, .copyToUser state.ring.readIdx count, .unlock]

/-- The length of the segment from `read_idx` to `whole` -/
def upTo (whole left : UInt64) (state : State) : UInt64 :=
  clamp (whole - state.ring.readIdx) left

/-- Where the first segment ends: at the end of the buffer unless the write index is ahead. -/
def firstEnd (ring : Ring) : UInt64 :=
  if ring.readIdx ≥ ring.writeIdx then bufSize else ring.writeIdx

def firstReach (copies : Copies) (ring : Ring) : Nat :=
  if ring.readIdx ≥ ring.writeIdx then copies.first else copies.second

/-- Everything a read of `left` bytes can do, `left` being what the ring has of
the bytes asked for. -/
inductive Course (copies : Copies) (left : UInt64) (state : State) : Outcome Event State Fault UInt64 → Prop where
  | nothing (none : left = 0) : Course copies left state ⟨[.lock, .unlock], state, .ok left⟩
  | faulted {count : UInt64} (some : 0 < left) (first : count = upTo (firstEnd state.ring) left state)
      (fails : firstReach copies state.ring < count.toNat) :
      Course copies left state
        ⟨.lock :: faultEvents (firstEnd state.ring) count state,
          copied (firstReach copies state.ring) count state, .error .efault⟩
  | served {count : UInt64} (some : 0 < left) (first : count = upTo (firstEnd state.ring) left state)
      (reached : ¬ firstReach copies state.ring < count.toNat)
      (last : state.ring.readIdx ≥ state.ring.writeIdx → left - count = 0) :
      Course copies left state
        ⟨.lock :: segmentEvents (firstEnd state.ring) count left state ++ [.unlock],
          advance (firstReach copies state.ring) count state, .ok left⟩
  | brokenOff {count rest : UInt64} {middle : State} (ahead : state.ring.readIdx ≥ state.ring.writeIdx)
      (first : count = upTo bufSize left state) (reached : ¬ copies.first < count.toNat)
      (more : 0 < left - count) (between : middle = advance copies.first count state)
      (second : rest = upTo state.ring.writeIdx (left - count) middle) (fails : copies.second < rest.toNat) :
      Course copies left state
        ⟨.lock :: segmentEvents bufSize count left state ++ faultEvents state.ring.writeIdx rest middle,
          copied copies.second rest middle, .error .efault⟩
  | wrapped {count rest : UInt64} {middle : State} (ahead : state.ring.readIdx ≥ state.ring.writeIdx)
      (first : count = upTo bufSize left state) (reached : ¬ copies.first < count.toNat)
      (more : 0 < left - count) (between : middle = advance copies.first count state)
      (second : rest = upTo state.ring.writeIdx (left - count) middle) (all : ¬ copies.second < rest.toNat) :
      Course copies left state
        ⟨.lock :: segmentEvents bufSize count left state ++
            segmentEvents state.ring.writeIdx rest (left - count) middle ++ [.unlock],
          advance copies.second rest middle, .ok left⟩

section Evaluation

variable {middle after : State} {events first second : List Event}

theorem consoleRead_first_error
    (stopped : readToEnd copies.first state.ring (clamp length state.ring.curLen) state =
      ⟨events, after, .error .efault⟩) :
    consoleRead copies length state = ⟨.lock :: events, after, .error .efault⟩ := by
  simp only [consoleRead, Job.bind, Job.emit, Job.read, id, Bind.bind, stopped]
  rfl

theorem consoleRead_second_error
    (went : readToEnd copies.first state.ring (clamp length state.ring.curLen) state = ⟨first, middle, .ok left⟩)
    (stopped : readToWriteIdx copies.second state.ring left middle = ⟨second, after, .error .efault⟩) :
    consoleRead copies length state = ⟨.lock :: first ++ second, after, .error .efault⟩ := by
  simp only [consoleRead, Job.bind, Job.emit, Job.read, id, Bind.bind, went, stopped]
  rfl

theorem consoleRead_ok
    (went : readToEnd copies.first state.ring (clamp length state.ring.curLen) state = ⟨first, middle, .ok left⟩)
    (ended : readToWriteIdx copies.second state.ring left middle = ⟨second, after, .ok ()⟩) :
    consoleRead copies length state =
      ⟨.lock :: first ++ second ++ [.unlock], after, .ok (clamp length state.ring.curLen)⟩ := by
  simp only [consoleRead, Job.bind, Job.emit, Job.read, id, Bind.bind, went, ended, Pure.pure, Job.pure]
  simp

theorem readToEnd_skipped (behind : ¬ (left > 0 ∧ state.ring.readIdx ≥ state.ring.writeIdx)) :
    readToEnd reach state.ring left state = ⟨[], state, .ok left⟩ := by
  rw [readToEnd, if_neg behind]
  rfl

theorem readToWriteIdx_skipped (ring : Ring) (none : ¬ left > 0) :
    readToWriteIdx reach ring left state = ⟨[], state, .ok ()⟩ := by
  rw [readToWriteIdx, if_neg none]
  rfl

theorem readToWriteIdx_faulted (ring : Ring) (some : left > 0)
    (fails : reach < (upTo ring.writeIdx left state).toNat) :
    readToWriteIdx reach ring left state =
      ⟨faultEvents ring.writeIdx (upTo ring.writeIdx left state) state,
        copied reach (upTo ring.writeIdx left state) state, .error .efault⟩ := by
  rw [readToWriteIdx, if_pos some]
  exact Job.bind_error (segment_faulted fails)

theorem readToWriteIdx_copied (ring : Ring) (some : left > 0)
    (reached : ¬ reach < (upTo ring.writeIdx left state).toNat) :
    readToWriteIdx reach ring left state =
      ⟨segmentEvents ring.writeIdx (upTo ring.writeIdx left state) left state,
        advance reach (upTo ring.writeIdx left state) state, .ok ()⟩ := by
  rw [readToWriteIdx, if_pos some]
  exact Job.bind_ok (segment_copied reached)

theorem consoleRead_course (copies : Copies) (length : UInt64) (state : State) :
    Course copies (clamp length state.ring.curLen) state (consoleRead copies length state) := by
  generalize asked : clamp length state.ring.curLen = left
  by_cases some : left > 0
  · by_cases ahead : state.ring.readIdx ≥ state.ring.writeIdx
    · have ends : firstEnd state.ring = bufSize := if_pos ahead
      have reaches : firstReach copies state.ring = copies.first := if_pos ahead
      have first : readToEnd copies.first state.ring left = segment copies.first bufSize left := if_pos ⟨some, ahead⟩
      by_cases fails : copies.first < (upTo bufSize left state).toNat
      · rw [consoleRead_first_error (by rw [asked, first]; exact segment_faulted fails)]
        have faulted : Course copies left state _ := .faulted some (by rw [ends]) (by rw [reaches]; exact fails)
        rw [ends, reaches] at faulted
        exact faulted
      · have went := segment_copied fails
        by_cases more : left - upTo bufSize left state > 0
        · by_cases stops : copies.second <
              (upTo state.ring.writeIdx (left - upTo bufSize left state)
                (advance copies.first (upTo bufSize left state) state)).toNat
          · rw [consoleRead_second_error (by rw [asked, first]; exact went) (readToWriteIdx_faulted _ more stops)]
            exact .brokenOff ahead rfl fails more rfl rfl stops
          · rw [consoleRead_ok (by rw [asked, first]; exact went) (readToWriteIdx_copied _ more stops), asked]
            exact .wrapped ahead rfl fails more rfl rfl stops
        · rw [consoleRead_ok (by rw [asked, first]; exact went) (readToWriteIdx_skipped _ more), asked]
          have served : Course copies left state _ := .served some (by rw [ends]) (by rw [reaches]; exact fails)
            (fun _ => UInt64.le_zero_iff.mp (UInt64.not_lt.mp more))
          rw [ends, reaches] at served
          rw [List.append_nil]
          exact served
    · have ends : firstEnd state.ring = state.ring.writeIdx := if_neg ahead
      have reaches : firstReach copies state.ring = copies.second := if_neg ahead
      have skipped : readToEnd copies.first state.ring (clamp length state.ring.curLen) state =
          ⟨[], state, .ok left⟩ := by
        rw [asked]
        exact readToEnd_skipped fun both => ahead both.2
      by_cases fails : copies.second < (upTo state.ring.writeIdx left state).toNat
      · rw [consoleRead_second_error skipped (readToWriteIdx_faulted _ some fails)]
        have faulted : Course copies left state _ := .faulted some (by rw [ends]) (by rw [reaches]; exact fails)
        rw [ends, reaches] at faulted
        exact faulted
      · rw [consoleRead_ok skipped (readToWriteIdx_copied _ some fails), asked]
        have served : Course copies left state _ := .served some (by rw [ends]) (by rw [reaches]; exact fails)
          (fun behind => absurd behind ahead)
        rw [ends, reaches] at served
        exact served
  · have skipped : readToEnd copies.first state.ring (clamp length state.ring.curLen) state = ⟨[], state, .ok left⟩ := by
      rw [asked]
      exact readToEnd_skipped fun both => some both.1
    rw [consoleRead_ok skipped (readToWriteIdx_skipped _ some), asked]
    exact .nothing (UInt64.le_zero_iff.mp (UInt64.not_lt.mp some))

end Evaluation

/-! ## Rings in order -/

structure Ring.WellFormed (ring : Ring) : Prop where
  readIdx : ring.readIdx.toNat < 65504
  curLen : ring.curLen.toNat ≤ 65504
  writeIdx : ring.writeIdx.toNat = (ring.readIdx.toNat + ring.curLen.toNat) % 65504

/-- The bytes in the ring, oldest first -/
def Ring.queue (ring : Ring) : List UInt8 :=
  window ring.buf 65504 ring.readIdx.toNat ring.curLen.toNat

/-- A buffer whose first byte is unlike all others -/
def marked : Nat → UInt8 :=
  fun index => if index = 0 then 1 else 0

/-- The last byte of the buffer and its first -/
def atEnd : Ring :=
  { readIdx := 65503, writeIdx := 1, curLen := 2, buf := marked }

theorem atEnd_wellFormed : atEnd.WellFormed :=
  ⟨by decide, by decide, by decide⟩

def Event.Safe : Event → Prop
  | .copyToUser start count => start.toNat + count.toNat ≤ 65504
  | .subtract whole part => part ≤ whole
  | .lock | .unlock => True

theorem clamp_toNat (readLen leftToRead : UInt64) :
    (clamp readLen leftToRead).toNat = min readLen.toNat leftToRead.toNat := by
  unfold clamp
  split
  · rename_i above
    have := UInt64.lt_iff_toNat_lt.mp above
    omega
  · rename_i within
    have := UInt64.le_iff_toNat_le.mp (UInt64.not_lt.mp within)
    omega

variable {count : UInt64}

theorem advance_curLen (fits : count ≤ state.ring.curLen) :
    (advance reach count state).ring.curLen.toNat = state.ring.curLen.toNat - count.toNat :=
  UInt64.toNat_sub_of_le _ _ fits

section WellFormed

variable (wellFormed : state.ring.WellFormed)

include wellFormed

theorem first_length (some : 0 < left) (asked : left ≤ state.ring.curLen) :
    (upTo (firstEnd state.ring) left state).toNat = min (65504 - state.ring.readIdx.toNat) left.toNat ∧
      state.ring.readIdx ≤ firstEnd state.ring := by
  have read := wellFormed.readIdx
  have current := wellFormed.curLen
  have write := wellFormed.writeIdx
  have positive := UInt64.lt_iff_toNat_lt.mp some
  have bounded := UInt64.le_iff_toNat_le.mp asked
  have size : bufSize.toNat = 65504 := rfl
  rw [UInt64.toNat_zero] at positive
  by_cases ahead : state.ring.readIdx ≥ state.ring.writeIdx
  · have ends : firstEnd state.ring = bufSize := if_pos ahead
    have inside : state.ring.readIdx ≤ bufSize := UInt64.le_iff_toNat_le.mpr (by omega)
    rw [ends, upTo, clamp_toNat, UInt64.toNat_sub_of_le _ _ inside]
    exact ⟨rfl, inside⟩
  · have ends : firstEnd state.ring = state.ring.writeIdx := if_neg ahead
    have before := UInt64.lt_iff_toNat_lt.mp (UInt64.not_le.mp ahead)
    have inside : state.ring.readIdx ≤ state.ring.writeIdx := UInt64.le_iff_toNat_le.mpr (by omega)
    rw [ends, upTo, clamp_toNat, UInt64.toNat_sub_of_le _ _ inside]
    exact ⟨by omega, inside⟩

theorem advance_readIdx (fits : count ≤ state.ring.curLen) :
    (advance reach count state).ring.readIdx.toNat = (state.ring.readIdx.toNat + count.toNat) % 65504 := by
  have read := wellFormed.readIdx
  have current := wellFormed.curLen
  have bounded := UInt64.le_iff_toNat_le.mp fits
  have size : bufSize.toNat = 65504 := rfl
  have sum : (state.ring.readIdx + count).toNat = state.ring.readIdx.toNat + count.toNat := by
    simp only [UInt64.toNat_add, Nat.reducePow]
    omega
  rw [show (advance reach count state).ring.readIdx = (state.ring.readIdx + count) % bufSize from rfl,
    UInt64.toNat_mod, sum, size]

theorem advance_wellFormed (fits : count ≤ state.ring.curLen) :
    (advance reach count state).ring.WellFormed := by
  have read := wellFormed.readIdx
  have current := wellFormed.curLen
  have write := wellFormed.writeIdx
  have bounded := UInt64.le_iff_toNat_le.mp fits
  have moved : (advance reach count state).ring.readIdx.toNat = _ := advance_readIdx wellFormed fits
  have rest : (advance reach count state).ring.curLen.toNat = _ := advance_curLen fits
  have same : (advance reach count state).ring.writeIdx = state.ring.writeIdx := rfl
  exact ⟨by omega, by omega, by rw [same, moved, rest]; omega⟩

theorem served_length (some : 0 < left) (asked : left ≤ state.ring.curLen)
    (first : count = upTo (firstEnd state.ring) left state)
    (last : state.ring.readIdx ≥ state.ring.writeIdx → left - count = 0) :
    count = left ∧ left.toNat ≤ 65504 - state.ring.readIdx.toNat := by
  have read := wellFormed.readIdx
  have current := wellFormed.curLen
  have write := wellFormed.writeIdx
  have positive := UInt64.lt_iff_toNat_lt.mp some
  have bounded := UInt64.le_iff_toNat_le.mp asked
  have length := (first_length wellFormed some asked).1
  rw [← first] at length
  rw [UInt64.toNat_zero] at positive
  have whole : left.toNat ≤ 65504 - state.ring.readIdx.toNat := by
    by_cases ahead : state.ring.readIdx ≥ state.ring.writeIdx
    · have within : count ≤ left := UInt64.le_iff_toNat_le.mpr (by omega)
      have none := congrArg UInt64.toNat (last ahead)
      rw [UInt64.toNat_sub_of_le _ _ within, UInt64.toNat_zero] at none
      omega
    · have before := UInt64.lt_iff_toNat_lt.mp (UInt64.not_le.mp ahead)
      omega
  exact ⟨UInt64.toNat_inj.mp (by omega), whole⟩

/-- A read that goes on past the end of the buffer finds the rest at its start. -/
theorem second_length {rest : UInt64} {middle : State} (asked : left ≤ state.ring.curLen)
    (ahead : state.ring.readIdx ≥ state.ring.writeIdx) (first : count = upTo bufSize left state)
    (more : 0 < left - count) (between : middle = advance reach count state)
    (second : rest = upTo state.ring.writeIdx (left - count) middle) :
    count.toNat = 65504 - state.ring.readIdx.toNat ∧ count ≤ left ∧ middle.ring.readIdx = 0 ∧ rest = left - count := by
  have read := wellFormed.readIdx
  have current := wellFormed.curLen
  have write := wellFormed.writeIdx
  have bounded := UInt64.le_iff_toNat_le.mp asked
  have order := UInt64.le_iff_toNat_le.mp ahead
  have positive := UInt64.lt_iff_toNat_lt.mp more
  have inside : state.ring.readIdx ≤ bufSize := UInt64.le_iff_toNat_le.mpr (Nat.le_of_lt read)
  have length : count.toNat = min (65504 - state.ring.readIdx.toNat) left.toNat := by
    rw [first, upTo, clamp_toNat, UInt64.toNat_sub_of_le _ _ inside]
    rfl
  have within : count ≤ left := UInt64.le_iff_toNat_le.mpr (by omega)
  have difference := UInt64.toNat_sub_of_le _ _ within
  rw [UInt64.toNat_zero, difference] at positive
  have whole : count.toNat = 65504 - state.ring.readIdx.toNat := by omega
  have fits : count ≤ state.ring.curLen := UInt64.le_iff_toNat_le.mpr (by omega)
  have start : middle.ring.readIdx = 0 := by
    apply UInt64.toNat_inj.mp
    rw [between, advance_readIdx wellFormed fits, UInt64.toNat_zero]
    omega
  refine ⟨whole, within, start, UInt64.toNat_inj.mp ?_⟩
  rw [second, upTo, clamp_toNat, start, UInt64.sub_zero, difference]
  omega

end WellFormed

theorem rest_fits {rest : UInt64} {middle : State} (asked : left ≤ state.ring.curLen) (within : count ≤ left)
    (between : middle = advance reach count state) (found : rest = left - count) : rest ≤ middle.ring.curLen := by
  have bounded := UInt64.le_iff_toNat_le.mp asked
  have order := UInt64.le_iff_toNat_le.mp within
  rw [UInt64.le_iff_toNat_le, found, between, advance_curLen (UInt64.le_trans within asked),
    UInt64.toNat_sub_of_le _ _ within]
  omega

/-- What a read keeps, whatever becomes of its copies. -/
structure Kept (length : UInt64) (state : State) (outcome : Outcome Event State Fault UInt64) : Prop where
  wellFormed : outcome.state.ring.WellFormed
  writeIdx : outcome.state.ring.writeIdx = state.ring.writeIdx
  buf : outcome.state.ring.buf = state.ring.buf
  safe : ∀ event ∈ outcome.events, event.Safe
  removed : outcome.state.ring.curLen ≤ state.ring.curLen
  offset : outcome.state.offset = state.offset + (state.ring.curLen - outcome.state.ring.curLen)
  returned : ∀ count, outcome.answer = .ok count → count.toNat = min length.toNat state.ring.curLen.toNat ∧
    count = state.ring.curLen - outcome.state.ring.curLen
  locked : outcome.events.head? = some .lock ∧ outcome.events.count .lock = 1
  unlocked : outcome.events.getLast? = some .unlock ∧ outcome.events.count .unlock = 1

theorem sub_sub_self (whole part : UInt64) : whole - (whole - part) = part := by
  grind

theorem faultEvents_safe (begins : state.ring.readIdx ≤ whole)
    (inside : state.ring.readIdx.toNat + count.toNat ≤ 65504) :
    ∀ event ∈ faultEvents whole count state, event.Safe := by
  simp [faultEvents, Event.Safe, begins, inside]

theorem segmentEvents_safe (begins : state.ring.readIdx ≤ whole)
    (inside : state.ring.readIdx.toNat + count.toNat ≤ 65504) (fits : count ≤ state.ring.curLen) (within : count ≤ left) :
    ∀ event ∈ segmentEvents whole count left state, event.Safe := by
  simp [segmentEvents, Event.Safe, begins, inside, fits, within]

/-- The first of two segments is safe, and the second one begins inside the ring. -/
theorem past_end {rest : UInt64} {middle : State} (wellFormed : state.ring.WellFormed) (asked : left ≤ state.ring.curLen)
    (ahead : state.ring.readIdx ≥ state.ring.writeIdx) (first : count = upTo bufSize left state)
    (more : 0 < left - count) (between : middle = advance reach count state)
    (second : rest = upTo state.ring.writeIdx (left - count) middle) :
    (∀ event ∈ segmentEvents bufSize count left state, event.Safe) ∧ middle.ring.WellFormed ∧
      middle.ring.readIdx ≤ state.ring.writeIdx ∧ middle.ring.readIdx.toNat + rest.toNat ≤ 65504 := by
  obtain ⟨length, within, start, found⟩ := second_length wellFormed asked ahead first more between second
  have read := wellFormed.readIdx
  have current := wellFormed.curLen
  have bounded := UInt64.le_iff_toNat_le.mp asked
  have fits : count ≤ state.ring.curLen := UInt64.le_trans within asked
  have inside : state.ring.readIdx ≤ bufSize := UInt64.le_iff_toNat_le.mpr (Nat.le_of_lt read)
  refine ⟨segmentEvents_safe inside (by omega) fits within, between ▸ advance_wellFormed wellFormed fits, ?_, ?_⟩
  · rw [start]
    exact UInt64.zero_le
  · rw [start, found, UInt64.toNat_sub_of_le _ _ within, UInt64.toNat_zero]
    omega

theorem Course.kept {outcome : Outcome Event State Fault UInt64} (wellFormed : state.ring.WellFormed)
    (course : Course copies (clamp length state.ring.curLen) state outcome) : Kept length state outcome := by
  have asked : clamp length state.ring.curLen ≤ state.ring.curLen :=
    UInt64.le_iff_toNat_le.mpr (by rw [clamp_toNat]; omega)
  have counted := clamp_toNat length state.ring.curLen
  have read := wellFormed.readIdx
  have bounded := UInt64.le_iff_toNat_le.mp asked
  generalize clamp length state.ring.curLen = left at asked counted bounded course
  cases course with
  | nothing none =>
      refine ⟨wellFormed, rfl, rfl, by simp [Event.Safe], UInt64.le_refl _, by simp, ?_, by simp, by simp⟩
      intro returned same
      cases same
      exact ⟨counted, by simp [none]⟩
  | faulted some first fails =>
      obtain ⟨taken, begins⟩ := first_length wellFormed some asked
      rw [← first] at taken
      refine ⟨wellFormed, rfl, rfl, ?_, UInt64.le_refl _, by simp [copied], by simp, by simp [faultEvents],
        by simp [faultEvents]⟩
      simpa [Event.Safe] using faultEvents_safe begins (by omega)
  | served some first reached last =>
      obtain ⟨taken, begins⟩ := first_length wellFormed some asked
      obtain ⟨rfl, room⟩ := served_length wellFormed some asked first last
      refine ⟨advance_wellFormed wellFormed asked, rfl, rfl, ?_, ?_, ?_,
        ?_, by simp [segmentEvents], by simp [segmentEvents]⟩
      · simp only [List.cons_append, List.forall_mem_cons, List.forall_mem_append]
        exact ⟨trivial, segmentEvents_safe begins (by omega) asked (UInt64.le_refl _), trivial, by simp⟩
      · rw [UInt64.le_iff_toNat_le, advance_curLen asked]
        omega
      · change state.offset + _ = state.offset + (_ - (state.ring.curLen - _))
        rw [sub_sub_self]
      · intro returned same
        cases same
        exact ⟨counted, (sub_sub_self _ _).symm⟩
  | @brokenOff count rest middle ahead first reached more between second fails =>
      obtain ⟨_, within, _, _⟩ := second_length wellFormed asked ahead first more between second
      obtain ⟨safe, kept, begins, inside⟩ := past_end wellFormed asked ahead first more between second
      have fits : count ≤ state.ring.curLen := UInt64.le_trans within asked
      subst between
      refine ⟨kept, rfl, rfl, ?_, ?_, ?_, by simp, by simp [segmentEvents, faultEvents],
        by simp [segmentEvents, faultEvents]⟩
      · simp only [List.cons_append, List.forall_mem_cons, List.forall_mem_append]
        exact ⟨trivial, safe, faultEvents_safe begins inside⟩
      · change (advance copies.first count state).ring.curLen ≤ _
        rw [UInt64.le_iff_toNat_le, advance_curLen fits]
        omega
      · change state.offset + _ = state.offset + (_ - (state.ring.curLen - _))
        rw [sub_sub_self]
  | @wrapped count rest middle ahead first reached more between second all =>
      obtain ⟨_, within, _, found⟩ := second_length wellFormed asked ahead first more between second
      obtain ⟨safe, kept, begins, inside⟩ := past_end wellFormed asked ahead first more between second
      have rest_fits := rest_fits asked within between found
      have current : (advance copies.second rest middle).ring.curLen = state.ring.curLen - left := by
        subst between found
        change state.ring.curLen - count - (left - count) = state.ring.curLen - left
        grind
      subst between
      refine ⟨advance_wellFormed kept rest_fits, rfl, rfl, ?_, ?_, ?_,
        ?_, by simp [segmentEvents], by simp [segmentEvents]⟩
      · simp only [List.cons_append, List.forall_mem_cons, List.forall_mem_append]
        have last := segmentEvents_safe begins inside rest_fits (UInt64.le_of_eq found)
        exact ⟨trivial, ⟨safe, last⟩, trivial, by simp⟩
      · rw [current, UInt64.le_iff_toNat_le, UInt64.toNat_sub_of_le _ _ asked]
        omega
      · rw [current, sub_sub_self, found]
        change state.offset + count + (left - count) = state.offset + left
        grind
      · intro returned same
        cases same
        rw [current]
        exact ⟨counted, (sub_sub_self _ _).symm⟩

/-- A read keeps the ring in order wherever it ends, and gives the lock back once. -/
theorem consoleRead_keeps (wellFormed : state.ring.WellFormed) (copies : Copies) (length : UInt64) :
    Kept length state (consoleRead copies length state) :=
  (consoleRead_course copies length state).kept wellFormed

theorem atEnd_kept : Kept 2 ⟨atEnd, 0, marked⟩ (consoleRead ⟨1, 0⟩ 2 ⟨atEnd, 0, marked⟩) :=
  consoleRead_keeps atEnd_wellFormed ⟨1, 0⟩ 2

/-! ## Faults -/

/-- A fault leaves the ring and the offset as they were, and a retry does what
the read would have done. -/
def LosesNothing (copies : Copies) (length : UInt64) (state : State) : Prop :=
  (consoleRead copies length state).answer = .error .efault →
    (consoleRead copies length state).state.ring = state.ring ∧
      (consoleRead copies length state).state.offset = state.offset ∧
      ∀ again retried, (consoleRead again retried (consoleRead copies length state).state).answer =
          (consoleRead again retried state).answer ∧
        (consoleRead again retried (consoleRead copies length state).state).events =
          (consoleRead again retried state).events

/-- The bytes up to the end of the buffer are copied, and those from its start
are not. -/
structure Interrupted (copies : Copies) (length : UInt64) (ring : Ring) : Prop where
  ahead : ring.writeIdx ≤ ring.readIdx
  beyond : bufSize - ring.readIdx < clamp length ring.curLen
  copied : (bufSize - ring.readIdx).toNat ≤ copies.first
  fails : copies.second < (clamp ring.writeIdx (clamp length ring.curLen - (bufSize - ring.readIdx))).toNat

theorem clamp_of_lt {readLen left : UInt64} (below : readLen < left) : clamp readLen left = readLen :=
  if_neg (UInt64.not_lt.mpr (UInt64.le_of_lt below))

theorem lt_of_clamp {readLen left : UInt64} (more : 0 < left - clamp readLen left) : readLen < left := by
  by_contra within
  have whole : clamp readLen left = left := by
    by_cases longer : readLen > left
    · exact if_pos longer
    · have same : readLen = left := UInt64.le_antisymm (UInt64.not_lt.mp longer) (UInt64.not_lt.mp within)
      rw [clamp, if_neg longer, same]
  rw [whole, UInt64.sub_self] at more
  exact UInt64.lt_irrefl _ more

theorem add_sub_mod (whole part : UInt64) : (part + (whole - part)) % whole = 0 := by
  have whole_again : part + (whole - part) = whole := by grind
  rw [whole_again]
  exact UInt64.mod_self

theorem advance_to_end (reach : Nat) (state : State) :
    (advance reach (bufSize - state.ring.readIdx) state).ring.readIdx = 0 :=
  add_sub_mod bufSize state.ring.readIdx

theorem eq_zero_of_sub {whole part : UInt64} (same : whole - (part - 0) = whole) : part = 0 := by
  grind

theorem advance_ne (reach : Nat) (state : State) :
    (advance reach (bufSize - state.ring.readIdx) state).ring ≠ state.ring := by
  intro same
  have start := advance_to_end reach state
  have current : state.ring.curLen - (bufSize - state.ring.readIdx) = state.ring.curLen := congrArg Ring.curLen same
  rw [same] at start
  rw [start] at current
  have impossible : bufSize = 0 := eq_zero_of_sub current
  exact absurd impossible (by decide)

section Respects

open Job

theorem respects_subtract (whole part : UInt64) : Respects State.ring (subtract whole part) :=
  respects_bind (respects_emit fun _ _ same => same) fun _ => respects_pure _

theorem respects_copyToUser (reach : Nat) (count : UInt64) : Respects State.ring (copyToUser reach count) := by
  refine respects_bind (respects_read fun _ _ same => congrArg Ring.readIdx same) fun start => ?_
  refine respects_bind (respects_emit fun _ _ same => same) fun _ => ?_
  split
  · exact respects_bind (respects_emit fun _ _ same => same) fun _ => respects_stop _
  · exact respects_pure _

theorem respects_segment (reach : Nat) (whole left : UInt64) : Respects State.ring (segment reach whole left) := by
  refine respects_bind (respects_read fun _ _ same => congrArg Ring.readIdx same) fun readIdx => ?_
  refine respects_bind (respects_subtract _ _) fun upTo => ?_
  refine respects_bind (respects_copyToUser _ _) fun _ => ?_
  refine respects_bind (respects_read fun _ _ same => congrArg Ring.curLen same) fun curLen => ?_
  refine respects_bind (respects_subtract _ _) fun rest => ?_
  refine respects_bind (respects_update fun _ _ same => ?_) fun _ => respects_subtract _ _
  simp only [consume, same]

/-- What a read returns and does depends on the ring only. -/
theorem respects_consoleRead (copies : Copies) (length : UInt64) : Respects State.ring (consoleRead copies length) := by
  refine respects_bind (respects_emit fun _ _ same => same) fun _ => ?_
  refine respects_bind (respects_read fun _ _ same => same) fun ring => ?_
  refine respects_bind ?_ fun left => ?_
  · unfold readToEnd
    split
    · exact respects_segment _ _ _
    · exact respects_pure _
  · refine respects_bind ?_ fun _ => respects_bind (respects_emit fun _ _ same => same) fun _ => respects_pure _
    unfold readToWriteIdx
    split
    · exact respects_bind (respects_segment _ _ _) fun _ => respects_pure _
    · exact respects_pure _

end Respects

/-- A read that faults has lost bytes exactly if it got to the end of the buffer
and not beyond. -/
theorem loses_nothing_iff (copies : Copies) (length : UInt64) (state : State) :
    LosesNothing copies length state ↔ ¬ Interrupted copies length state.ring := by
  have course := consoleRead_course copies length state
  constructor
  · intro keeps interrupted
    have ahead : state.ring.readIdx ≥ state.ring.writeIdx := interrupted.ahead
    have ends : firstEnd state.ring = bufSize := if_pos ahead
    have reaches : firstReach copies state.ring = copies.first := if_pos ahead
    have whole : upTo bufSize (clamp length state.ring.curLen) state = bufSize - state.ring.readIdx :=
      clamp_of_lt interrupted.beyond
    have copied := interrupted.copied
    have beyond := interrupted.beyond
    have fails := interrupted.fails
    unfold LosesNothing at keeps
    generalize clamp length state.ring.curLen = left at course whole beyond fails
    generalize consoleRead copies length state = outcome at course keeps
    cases course with
    | nothing none =>
        rw [none] at beyond
        exact absurd beyond UInt64.not_lt_zero
    | faulted some first stops =>
        rw [first, ends, whole, reaches] at stops
        omega
    | served some first reached last =>
        have none := last ahead
        rw [first, ends, whole] at none
        have same : left = bufSize - state.ring.readIdx := by
          generalize bufSize - state.ring.readIdx = part at none
          grind
        rw [← same] at beyond
        exact UInt64.lt_irrefl _ beyond
    | brokenOff _ first reached more between second stops =>
        have same := (keeps rfl).1
        rw [first, whole] at between
        subst between
        exact advance_ne copies.first state same
    | wrapped _ first reached more between second all =>
        rw [second, between, first, whole, upTo, advance_to_end, UInt64.sub_zero] at all
        exact all fails
  · intro uninterrupted faulted
    have kept : (consoleRead copies length state).state.ring = state.ring ∧
        (consoleRead copies length state).state.offset = state.offset := by
      generalize asked : clamp length state.ring.curLen = left at course
      generalize consoleRead copies length state = outcome at course faulted
      cases course with
      | nothing | served | wrapped => cases faulted
      | faulted => exact ⟨rfl, rfl⟩
      | brokenOff ahead first reached more between second stops =>
          exfalso
          rw [first] at more
          have beyond := lt_of_clamp more
          have whole : upTo bufSize left state = bufSize - state.ring.readIdx := clamp_of_lt beyond
          rw [second, between, first, whole, upTo, advance_to_end, UInt64.sub_zero] at stops
          rw [first, whole] at reached
          exact uninterrupted ⟨ahead, by rw [asked]; exact beyond, Nat.not_lt.mp reached, by rw [asked]; exact stops⟩
    refine ⟨kept.1, kept.2, fun again retried => ?_⟩
    obtain ⟨answer, events, _⟩ := respects_consoleRead again retried _ _ kept.1
    exact ⟨answer, events⟩

theorem fault_loses_byte : ¬ LosesNothing ⟨1, 0⟩ 2 ⟨atEnd, 0, marked⟩ := by
  intro keeps
  have current := congrArg Ring.curLen (keeps rfl).1
  exact absurd current (by decide)

/-! ## Delivery -/

/-- A read whose copies succeed returns how much of the ring it takes, and the
oldest bytes stand at the start of the user's buffer. -/
def DeliversOldest (ring : Ring) (length : UInt64) : Prop :=
  ∀ copies offset user count, (consoleRead copies length ⟨ring, offset, user⟩).answer = .ok count →
    count.toNat = min length.toNat ring.curLen.toNat ∧
      slice (consoleRead copies length ⟨ring, offset, user⟩).state.user 0 count.toNat = ring.queue.take count.toNat

/-- One of several reads, with a buffer of its own -/
structure Request where
  copies : Copies
  length : UInt64
  user : Nat → UInt8

/-- The bytes that a sequence of reads delivers, unless one of them faults -/
def readPieces (ring : Ring) (offset : UInt64) : List Request → Option (List UInt8)
  | [] => some []
  | request :: rest =>
      let outcome := consoleRead request.copies request.length ⟨ring, offset, request.user⟩
      match outcome.answer with
      | .ok count =>
          (readPieces outcome.state.ring outcome.state.offset rest).map (slice outcome.state.user 0 count.toNat ++ ·)
      | .error _ => none

/-- Reads of these lengths deliver what one read of all of them takes. -/
def DeliversPieces (ring : Ring) (lengths : List UInt64) : Prop :=
  ∀ offset requests bytes, requests.map (·.length) = lengths → readPieces ring offset requests = some bytes →
    bytes = ring.queue.take (lengths.map UInt64.toNat).sum

/-- No read goes on past the end of the buffer. -/
def Unbroken (readIdx curLen : Nat) : List UInt64 → Prop
  | [] => True
  | length :: rest =>
      min length.toNat curLen ≤ 65504 - readIdx ∧
        Unbroken ((readIdx + min length.toNat curLen) % 65504) (curLen - min length.toNat curLen) rest

theorem read_moves (state : State) (wellFormed : state.ring.WellFormed)
    (served : (consoleRead copies length state).answer = .ok count) :
    count.toNat = min length.toNat state.ring.curLen.toNat ∧
      (consoleRead copies length state).state.ring.readIdx.toNat =
        (state.ring.readIdx.toNat + count.toNat) % 65504 ∧
      (consoleRead copies length state).state.ring.curLen.toNat = state.ring.curLen.toNat - count.toNat ∧
      (consoleRead copies length state).state.ring.buf = state.ring.buf := by
  have kept := (consoleRead_course copies length state).kept wellFormed
  obtain ⟨length, taken⟩ := kept.returned count served
  have read := wellFormed.readIdx
  have current := wellFormed.curLen
  have write := wellFormed.writeIdx
  have after := kept.wellFormed.readIdx
  have behind := kept.wellFormed.writeIdx
  have less := UInt64.le_iff_toNat_le.mp kept.removed
  have amount := congrArg UInt64.toNat taken
  rw [UInt64.toNat_sub_of_le _ _ kept.removed] at amount
  rw [kept.writeIdx] at behind
  exact ⟨length, by omega, by omega, kept.buf⟩

theorem read_queue (state : State) (wellFormed : state.ring.WellFormed)
    (served : (consoleRead copies length state).answer = .ok count) :
    (consoleRead copies length state).state.ring.queue = state.ring.queue.drop count.toNat := by
  obtain ⟨counted, moved, rest, same⟩ := read_moves state wellFormed served
  rw [Ring.queue, Ring.queue, moved, rest, same, window_drop (by omega)]
  apply window_congr
  intro index _
  rw [Nat.add_mod, Nat.mod_mod, ← Nat.add_mod]

theorem read_unbroken (state : State) (wellFormed : state.ring.WellFormed)
    (inside : min length.toNat state.ring.curLen.toNat ≤ 65504 - state.ring.readIdx.toNat)
    (served : (consoleRead copies length state).answer = .ok count) :
    slice (consoleRead copies length state).state.user 0 count.toNat = state.ring.queue.take count.toNat := by
  have asked : clamp length state.ring.curLen ≤ state.ring.curLen :=
    UInt64.le_iff_toNat_le.mpr (by rw [clamp_toNat]; omega)
  have course := consoleRead_course copies length state
  rw [← clamp_toNat] at inside
  generalize clamp length state.ring.curLen = left at asked course inside
  generalize consoleRead copies length state = outcome at course served
  cases course with
  | faulted | brokenOff => cases served
  | nothing none =>
      cases served
      simp [none, slice]
  | served some first reached last =>
      cases served
      obtain ⟨rfl, room⟩ := served_length wellFormed some asked first last
      rw [Ring.queue, window_take (UInt64.le_iff_toNat_le.mp asked)]
      symm
      apply window_eq_slice
      intro index below
      have read := wellFormed.readIdx
      simp only [advance, consume, copied]
      rw [if_pos (by omega), Nat.mod_eq_of_lt (by omega), Nat.zero_add]
  | wrapped ahead first reached more between second all =>
      exfalso
      have whole := second_length wellFormed asked ahead first more between second
      cases served
      have positive := UInt64.lt_iff_toNat_lt.mp more
      rw [UInt64.toNat_sub_of_le _ _ whole.2.1, UInt64.toNat_zero] at positive
      omega

/-- A read past the end of the buffer leaves the start of the buffer in front. -/
theorem read_broken (state : State) (wellFormed : state.ring.WellFormed)
    (beyond : 65504 - state.ring.readIdx.toNat < min length.toNat state.ring.curLen.toNat)
    (served : (consoleRead copies length state).answer = .ok count) :
    (consoleRead copies length state).state.user 0 = state.ring.buf 0 := by
  have asked : clamp length state.ring.curLen ≤ state.ring.curLen :=
    UInt64.le_iff_toNat_le.mpr (by rw [clamp_toNat]; omega)
  have course := consoleRead_course copies length state
  rw [← clamp_toNat] at beyond
  generalize clamp length state.ring.curLen = left at asked course beyond
  generalize consoleRead copies length state = outcome at course served
  cases course with
  | faulted | brokenOff => cases served
  | nothing none =>
      rw [none, UInt64.toNat_zero] at beyond
      omega
  | served some first reached last =>
      have room := (served_length wellFormed some asked first last).2
      omega
  | wrapped ahead first reached more between second all =>
      obtain ⟨whole, within, start, found⟩ := second_length wellFormed asked ahead first more between second
      have positive := UInt64.lt_iff_toNat_lt.mp more
      rw [← found, UInt64.toNat_zero] at positive
      simp only [advance, consume, copied]
      rw [if_pos (by omega), start, between]
      rfl

def allCopied : Copies := ⟨65504, 65504⟩

theorem allCopied_serves (state : State) (wellFormed : state.ring.WellFormed) (length : UInt64) :
    ∃ count, (consoleRead allCopied length state).answer = .ok count := by
  have asked : clamp length state.ring.curLen ≤ state.ring.curLen :=
    UInt64.le_iff_toNat_le.mpr (by rw [clamp_toNat]; omega)
  have bounded := UInt64.le_iff_toNat_le.mp asked
  have current := wellFormed.curLen
  have course := consoleRead_course allCopied length state
  generalize clamp length state.ring.curLen = left at asked course bounded
  generalize consoleRead allCopied length state = outcome at course
  cases course with
  | nothing | served | wrapped => exact ⟨_, rfl⟩
  | faulted some first fails =>
      exfalso
      have taken := (first_length wellFormed some asked).1
      have reaches : firstReach allCopied state.ring = 65504 := by
        unfold firstReach
        split <;> rfl
      rw [first, reaches] at fails
      omega
  | brokenOff ahead first reached more between second fails =>
      exfalso
      obtain ⟨_, within, _, found⟩ := second_length wellFormed asked ahead first more between second
      have whole : allCopied.second = 65504 := rfl
      rw [found, whole, UInt64.toNat_sub_of_le _ _ within] at fails
      omega

theorem take_piece {queue : List UInt8} {count asked rest : Nat} (counted : count = min asked queue.length) :
    queue.take (asked + rest) = queue.take count ++ (queue.drop count).take rest := by
  rw [List.take_add]
  by_cases more : asked ≤ queue.length
  · rw [counted, Nat.min_eq_left more]
  · rw [counted, Nat.min_eq_right (by omega), List.take_of_length_le (by omega : queue.length ≤ asked),
      List.take_length, List.drop_of_length_le (by omega : queue.length ≤ asked), List.drop_length]

theorem pieces_of_unbroken {lengths : List UInt64} {ring : Ring} (wellFormed : ring.WellFormed)
    (unbroken : Unbroken ring.readIdx.toNat ring.curLen.toNat lengths) : DeliversPieces ring lengths := by
  induction lengths generalizing ring with
  | nil =>
      intro offset requests bytes none delivered
      rw [List.map_eq_nil_iff.mp none] at delivered
      cases delivered
      simp
  | cons length lengths ih =>
      intro offset requests bytes asked delivered
      obtain ⟨request, rest, rfl, rfl, rfl⟩ := List.map_eq_cons_iff.mp asked
      obtain ⟨inside, later⟩ := unbroken
      simp only [readPieces] at delivered
      split at delivered
      · rename_i count served
        obtain ⟨counted, moved, left, same⟩ := read_moves ⟨ring, offset, request.user⟩ wellFormed served
        have first := read_unbroken ⟨ring, offset, request.user⟩ wellFormed inside served
        have behind := read_queue ⟨ring, offset, request.user⟩ wellFormed served
        have course := consoleRead_course request.copies request.length ⟨ring, offset, request.user⟩
        obtain ⟨others, found, rfl⟩ := Option.map_eq_some_iff.mp delivered
        have remaining := ih (course.kept wellFormed).wellFormed (by rw [moved, left, counted]; exact later) _ rest
            others rfl found
        have whole : count.toNat = min request.length.toNat ring.queue.length := by simpa [Ring.queue] using counted
        rw [List.map_cons, List.sum_cons, take_piece whole, remaining, first, behind]
      · cases delivered

theorem marked_broken {ring : Ring} {offset : UInt64} {user : Nat → UInt8} (wellFormed : ring.WellFormed)
    (mark : ring.buf = marked) (beyond : 65504 - ring.readIdx.toNat < min length.toNat ring.curLen.toNat)
    (served : (consoleRead copies length ⟨ring, offset, user⟩).answer = .ok count) :
    (slice (consoleRead copies length ⟨ring, offset, user⟩).state.user 0 count.toNat).head? ≠ ring.queue.head? := by
  have read := wellFormed.readIdx
  have current := wellFormed.curLen
  have counted : count.toNat = min length.toNat ring.curLen.toNat :=
    (read_moves ⟨ring, offset, user⟩ wellFormed served).1
  have front := read_broken ⟨ring, offset, user⟩ wellFormed beyond served
  have nonempty : count.toNat ≠ 0 := by omega
  have filled : ring.curLen.toNat ≠ 0 := by omega
  have oldest : ring.readIdx.toNat % 65504 ≠ 0 := by omega
  simp only [slice, Ring.queue, window, List.head?_map, List.head?_range, if_neg nonempty, if_neg filled, Option.map_some,
    Nat.add_zero, front, mark, marked, if_true, if_neg oldest]
  decide

theorem readPieces_cons {ring : Ring} {offset : UInt64} (request : Request) (rest : List Request)
    (served : (consoleRead request.copies request.length ⟨ring, offset, request.user⟩).answer = .ok count) :
    readPieces ring offset (request :: rest) =
      (readPieces (consoleRead request.copies request.length ⟨ring, offset, request.user⟩).state.ring
        (consoleRead request.copies request.length ⟨ring, offset, request.user⟩).state.offset rest).map
        (slice (consoleRead request.copies request.length ⟨ring, offset, request.user⟩).state.user 0
          count.toNat ++ ·) := by
  simp only [readPieces, served]

theorem allCopied_pieces {ring : Ring} (wellFormed : ring.WellFormed) (offset : UInt64) (lengths : List UInt64) :
    ∃ requests bytes, requests.map Request.length = lengths ∧ readPieces ring offset requests = some bytes := by
  induction lengths generalizing ring offset with
  | nil => exact ⟨[], [], rfl, rfl⟩
  | cons length lengths ih =>
      obtain ⟨count, served⟩ := allCopied_serves ⟨ring, offset, marked⟩ wellFormed length
      have course := consoleRead_course allCopied length ⟨ring, offset, marked⟩
      obtain ⟨requests, bytes, rfl, delivered⟩ := ih (course.kept wellFormed).wellFormed
        (consoleRead allCopied length ⟨ring, offset, marked⟩).state.offset
      have cons := readPieces_cons ⟨allCopied, length, marked⟩ requests served
      rw [delivered, Option.map_some] at cons
      exact ⟨_, _, rfl, cons⟩

theorem DeliversPieces.rest {ring : Ring} {lengths : List UInt64} {user : Nat → UInt8} (wellFormed : ring.WellFormed)
    (delivers : DeliversPieces ring (length :: lengths))
    (inside : min length.toNat ring.curLen.toNat ≤ 65504 - ring.readIdx.toNat) :
    DeliversPieces (consoleRead allCopied length ⟨ring, 0, user⟩).state.ring lengths := by
  intro offset requests bytes asked delivered
  have same : ∀ start, (consoleRead allCopied length ⟨ring, start, user⟩).state.ring =
      (consoleRead allCopied length ⟨ring, 0, user⟩).state.ring :=
    fun start => (respects_consoleRead allCopied length ⟨ring, 0, user⟩ ⟨ring, start, user⟩ rfl).2.2
  obtain ⟨count, served⟩ := allCopied_serves ⟨ring, offset - clamp length ring.curLen, user⟩ wellFormed length
  have kept := (consoleRead_course allCopied length ⟨ring, offset - clamp length ring.curLen, user⟩).kept wellFormed
  obtain ⟨counted, taken⟩ := kept.returned count served
  have whole : count = clamp length ring.curLen := UInt64.toNat_inj.mp (by rw [counted, clamp_toNat])
  have passed : (consoleRead allCopied length ⟨ring, offset - clamp length ring.curLen, user⟩).state.offset = offset := by
    rw [kept.offset, ← taken, whole]
    grind
  have first := read_unbroken ⟨ring, offset - clamp length ring.curLen, user⟩ wellFormed inside served
  have behind := read_queue ⟨ring, offset - clamp length ring.curLen, user⟩ wellFormed served
  have cons := readPieces_cons ⟨allCopied, length, user⟩ requests served
  rw [same, passed, delivered, Option.map_some] at cons
  have all := delivers _ _ _ (by rw [List.map_cons, asked]) cons
  have piece : count.toNat = min length.toNat ring.queue.length := by simpa [Ring.queue] using counted
  rw [List.map_cons, List.sum_cons, take_piece piece, first] at all
  rw [same] at behind
  rw [behind]
  exact List.append_cancel_left all

theorem unbroken_of_pieces {lengths : List UInt64} {ring : Ring} (wellFormed : ring.WellFormed)
    (mark : ring.buf = marked) (delivers : DeliversPieces ring lengths) :
    Unbroken ring.readIdx.toNat ring.curLen.toNat lengths := by
  induction lengths generalizing ring with
  | nil => trivial
  | cons length lengths ih =>
      obtain ⟨count, served⟩ := allCopied_serves ⟨ring, 0, marked⟩ wellFormed length
      have kept := (consoleRead_course allCopied length ⟨ring, 0, marked⟩).kept wellFormed
      obtain ⟨counted, moved, left, same⟩ := read_moves ⟨ring, 0, marked⟩ wellFormed served
      have inside : min length.toNat ring.curLen.toNat ≤ 65504 - ring.readIdx.toNat := by
        by_contra beyond
        have differs := marked_broken wellFormed mark (Nat.not_le.mp beyond) served
        obtain ⟨requests, bytes, asked, delivered⟩ := allCopied_pieces kept.wellFormed
          (consoleRead allCopied length ⟨ring, 0, marked⟩).state.offset lengths
        have cons := readPieces_cons ⟨allCopied, length, marked⟩ requests served
        rw [delivered, Option.map_some] at cons
        have all := congrArg List.head? (delivers _ _ _ (by rw [List.map_cons, asked]) cons)
        have read := wellFormed.readIdx
        have nonempty : count.toNat ≠ 0 := by
          rw [counted]
          change ¬ min length.toNat ring.curLen.toNat = 0
          omega
        have asks : (List.map UInt64.toNat (length :: lengths)).sum ≠ 0 := by
          rw [List.map_cons, List.sum_cons]
          omega
        have filled : (slice (consoleRead allCopied length ⟨ring, 0, marked⟩).state.user 0 count.toNat) ≠ [] := by
          simpa [slice] using nonempty
        rw [List.head?_append_of_ne_nil _ filled, List.head?_take, if_neg asks] at all
        exact differs all
      refine ⟨inside, ?_⟩
      have later := ih kept.wellFormed (same.trans mark) (delivers.rest wellFormed inside)
      rw [moved, left, counted] at later
      exact later

/-- Exactly the reads that stay before the end of the buffer deliver the stream,
alone and in sequence. -/
theorem delivers_iff_unbroken {ring : Ring} (wellFormed : ring.WellFormed) :
    (∀ length offset user, ∃ count, (consoleRead allCopied length ⟨ring, offset, user⟩).answer = .ok count) ∧
      (∀ length, (∀ buf, DeliversOldest { ring with buf } length) ↔
        min length.toNat ring.curLen.toNat ≤ 65504 - ring.readIdx.toNat) ∧
      ∀ lengths, (∀ buf, DeliversPieces { ring with buf } lengths) ↔
        Unbroken ring.readIdx.toNat ring.curLen.toNat lengths := by
  have again : ∀ buf, Ring.WellFormed { ring with buf } := fun _ =>
    ⟨wellFormed.readIdx, wellFormed.curLen, wellFormed.writeIdx⟩
  refine ⟨fun length offset user => allCopied_serves ⟨ring, offset, user⟩ wellFormed length,
    fun length => ⟨fun delivers => ?_, fun inside buf copies offset user count served => ?_⟩,
    fun lengths => ⟨fun delivers => ?_, fun unbroken buf => ?_⟩⟩
  · by_contra beyond
    obtain ⟨count, served⟩ := allCopied_serves ⟨{ ring with buf := marked }, 0, marked⟩ (again marked) length
    have differs := marked_broken (again marked) rfl (Nat.not_le.mp beyond) served
    obtain ⟨counted, oldest⟩ := delivers marked allCopied 0 marked count served
    have read := wellFormed.readIdx
    have asked : count.toNat = min length.toNat ring.curLen.toNat := counted
    have nonempty : count.toNat ≠ 0 := by omega
    rw [oldest, List.head?_take, if_neg nonempty] at differs
    exact differs rfl
  · exact ⟨(read_moves ⟨{ ring with buf }, offset, user⟩ (again buf) served).1,
      read_unbroken ⟨{ ring with buf }, offset, user⟩ (again buf) inside served⟩
  · have unbroken := unbroken_of_pieces (again marked) rfl (delivers marked)
    exact unbroken
  · exact pieces_of_unbroken (again buf) unbroken

theorem atEnd_piecewise : DeliversPieces atEnd [1, 1] :=
  ((delivers_iff_unbroken atEnd_wellFormed).2.2 [1, 1]).mpr ⟨by decide, by decide, trivial⟩ atEnd.buf

/-- One read of the two bytes leaves the second one in front, and nothing behind it. -/
theorem straddling_read :
    (consoleRead allCopied 2 ⟨atEnd, 0, fun _ => 7⟩).answer = .ok 2 ∧
      slice (consoleRead allCopied 2 ⟨atEnd, 0, fun _ => 7⟩).state.user 0 2 = [1, 7] ∧ atEnd.queue.take 2 = [0, 1] ∧
      ¬ DeliversOldest atEnd 2 := by
  have returned : (consoleRead allCopied 2 ⟨atEnd, 0, fun _ => 7⟩).answer = .ok 2 := rfl
  have found : slice (consoleRead allCopied 2 ⟨atEnd, 0, fun _ => 7⟩).state.user 0 2 = [1, 7] := by decide
  have queued : atEnd.queue.take 2 = [0, 1] := by decide
  refine ⟨returned, found, queued, fun delivers => ?_⟩
  have same := (delivers allCopied 0 (fun _ => 7) 2 returned).2
  rw [show (2 : UInt64).toNat = 2 from rfl, found, queued] at same
  exact absurd same (by decide)

end Pisces.ConsoleRing
