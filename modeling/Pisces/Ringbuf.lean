import Mathlib.Tactic.Ring
import Pisces.Fifo

/-! # The early ring buffer

`pisces_ringbuf.c`.  Each operation runs under the lock of the ring, so calls
are taken one after the other.
-/

namespace Pisces.Ringbuf

open Fifo Transition

/-- `struct pisces_early_ringbuf`; of `buf` the 8192 bytes from 0 on exist. -/
structure Ring where
  readIdx : UInt64
  writeIdx : UInt64
  size : UInt64
  curLen : UInt64
  buf : Nat → UInt8

/-- The conversion of a `u64` to `int` -/
def toInt (value : UInt64) : Int :=
  Int.bmod value.toNat 4294967296

def isReadLoop (ring : Ring) (len : UInt32) : Bool :=
  ring.readIdx ≥ ring.writeIdx && ring.curLen > 0 && ring.size - ring.readIdx < len.toUInt64

def isWriteLoop (ring : Ring) (len : UInt32) : Bool :=
  ring.writeIdx ≥ ring.readIdx && ring.curLen < ring.size && ring.size - ring.writeIdx < len.toUInt64

/-- `memcpy` into the buffer, `none` if it leaves it. -/
def copyIn (ring : Ring) (start count : UInt64) (data : Nat → UInt8) : Option Ring :=
  if start.toNat + count.toNat ≤ 8192 then
    some { ring with
      buf := fun position =>
        if start.toNat ≤ position ∧ position < start.toNat + count.toNat then data (position - start.toNat)
        else ring.buf position }
  else none

/-- `memcpy` out of the buffer, `none` if it leaves it. -/
def copyOut (ring : Ring) (start count : UInt64) : Option (List UInt8) :=
  if start.toNat + count.toNat ≤ 8192 then some (slice ring.buf start.toNat count.toNat) else none

/-- `pisces_early_ringbuf_init` -/
def piscesEarlyRingbufInit : Ring where
  readIdx := 0
  writeIdx := 0
  size := 1024 * 8
  curLen := 0
  buf := fun _ => 0

/-- `pisces_early_ringbuf_write`: the result and the ring. -/
def piscesEarlyRingbufWrite (ring : Ring) (data : Nat → UInt8) (writeLen : UInt64) : Option (Int × Ring) :=
  let availSpace := toInt (ring.size - ring.curLen)
  if writeLen > UInt64.ofInt availSpace then some (-1, ring)
  else if isWriteLoop ring writeLen.toUInt32 then do
    let sectionLen := UInt64.ofInt (toInt (ring.size - ring.writeIdx))
    let ring ← copyIn ring ring.writeIdx sectionLen data
    let ring ← copyIn ring 0 (writeLen - sectionLen) fun index => data (sectionLen.toNat + index)
    some (0, { ring with writeIdx := 0 + (writeLen - sectionLen), curLen := ring.curLen + writeLen })
  else do
    let ring ← copyIn ring ring.writeIdx writeLen data
    some (0, { ring with writeIdx := ring.writeIdx + writeLen, curLen := ring.curLen + writeLen })

/-- `pisces_early_ringbuf_read`: the result, the bytes delivered and the ring. -/
def piscesEarlyRingbufRead (ring : Ring) (readLen : UInt64) : Option (Int × List UInt8 × Ring) :=
  if readLen > ring.curLen then some (-1, [], ring)
  else if isReadLoop ring readLen.toUInt32 then do
    let sectionLen := UInt64.ofInt (toInt (ring.size - ring.readIdx))
    let first ← copyOut ring ring.readIdx sectionLen
    let second ← copyOut ring 0 (readLen - sectionLen)
    some (0, first ++ second, { ring with readIdx := 0 + (readLen - sectionLen), curLen := ring.curLen - readLen })
  else do
    let data ← copyOut ring ring.readIdx readLen
    some (0, data, { ring with readIdx := ring.readIdx + readLen, curLen := ring.curLen - readLen })

/-- The bytes in the ring, oldest first. -/
def Ring.queue (ring : Ring) : List UInt8 :=
  window ring.buf 8192 ring.readIdx.toNat ring.curLen.toNat

/-- The data is one piece between the indices, or two pieces around the end; an
index may rest at the end as well as at 0, but the write index leaves 0 for good. -/
def Arranged (readIdx writeIdx curLen : Nat) : Prop :=
  readIdx ≤ writeIdx ∧ curLen + readIdx = writeIdx ∨
    0 < writeIdx ∧ writeIdx ≤ readIdx ∧ curLen + readIdx = 8192 + writeIdx

structure Ring.WellFormed (ring : Ring) : Prop where
  size : ring.size = 8192
  readIdx : ring.readIdx.toNat ≤ 8192
  writeIdx : ring.writeIdx.toNat ≤ 8192
  curLen : ring.curLen.toNat ≤ 8192
  arranged : Arranged ring.readIdx.toNat ring.writeIdx.toNat ring.curLen.toNat

variable {ring : Ring} {data : Nat → UInt8} {len : UInt64}

theorem ofInt_toInt {value : UInt64} (small : value.toNat ≤ 8192) : UInt64.ofInt (toInt value) = value := by
  have same : toInt value = value.toNat := by
    unfold toInt
    rw [Int.bmod_eq_of_le (by omega) (by omega)]
  have small : (value.toNat : Int) % 18446744073709551616 = value.toNat := by omega
  simp only [same, UInt64.ofInt, Int.reducePow, small, Int.toNat_natCast, UInt64.ofNat_toNat]

theorem toUInt32_toUInt64 (small : len.toNat ≤ 8192) : len.toUInt32.toUInt64.toNat = len.toNat := by
  simp only [UInt32.toNat_toUInt64, UInt64.toNat_toUInt32, Nat.reducePow]
  omega

theorem toNat_add_small {left right : UInt64} (small : left.toNat + right.toNat ≤ 16384) :
    (left + right).toNat = left.toNat + right.toNat := by
  simp only [UInt64.toNat_add, Nat.reducePow]
  omega

/-- What a well-formed ring's tests compute. -/
theorem Ring.WellFormed.free (wellFormed : ring.WellFormed) (index : UInt64) (bounded : index.toNat ≤ 8192) :
    (ring.size - index).toNat = 8192 - index.toNat ∧ UInt64.ofInt (toInt (ring.size - index)) = ring.size - index := by
  have exact : (ring.size - index).toNat = 8192 - index.toNat := by
    rw [wellFormed.size, UInt64.toNat_sub_of_le _ _ (UInt64.le_iff_toNat_le.mpr bounded)]
    rfl
  exact ⟨exact, ofInt_toInt (by omega)⟩

theorem isWriteLoop_iff (wellFormed : ring.WellFormed) (small : len.toNat ≤ 8192) :
    isWriteLoop ring len.toUInt32 = true ↔ ring.readIdx.toNat ≤ ring.writeIdx.toNat ∧
      ring.curLen.toNat < 8192 ∧ 8192 - ring.writeIdx.toNat < len.toNat := by
  have left := (wellFormed.free ring.writeIdx wellFormed.writeIdx).1
  have full : ring.size.toNat = 8192 := by rw [wellFormed.size]; rfl
  simp only [isWriteLoop, Bool.and_eq_true, decide_eq_true_eq, ge_iff_le, UInt64.le_iff_toNat_le,
    UInt64.lt_iff_toNat_lt, left, toUInt32_toUInt64 small, full, and_assoc]

theorem isReadLoop_iff (wellFormed : ring.WellFormed) (small : len.toNat ≤ 8192) :
    isReadLoop ring len.toUInt32 = true ↔ ring.writeIdx.toNat ≤ ring.readIdx.toNat ∧
      0 < ring.curLen.toNat ∧ 8192 - ring.readIdx.toNat < len.toNat := by
  have left := (wellFormed.free ring.readIdx wellFormed.readIdx).1
  simp only [isReadLoop, Bool.and_eq_true, decide_eq_true_eq, ge_iff_le, gt_iff_lt, UInt64.le_iff_toNat_le,
    UInt64.lt_iff_toNat_lt, left, toUInt32_toUInt64 small, and_assoc]
  rfl

theorem write_refused (wellFormed : ring.WellFormed) (long : 8192 - ring.curLen.toNat < len.toNat) :
    piscesEarlyRingbufWrite ring data len = some (-1, ring) := by
  obtain ⟨space, same⟩ := wellFormed.free ring.curLen wellFormed.curLen
  have refused : len > UInt64.ofInt (toInt (ring.size - ring.curLen)) := by
    rw [same, gt_iff_lt, UInt64.lt_iff_toNat_lt, space]
    exact long
  simp only [piscesEarlyRingbufWrite, if_pos refused]

/-- The result of appending some bytes. -/
def Appends (ring after : Ring) (bytes : List UInt8) : Prop :=
  after.WellFormed ∧ after.queue = ring.queue ++ bytes

/-- What appending comes down to: the new bytes stand behind the old ones, and
those stay. -/
theorem appends_of {after : Ring} (size : after.size = 8192) (readIdx : after.readIdx = ring.readIdx)
    (bounded : ring.readIdx.toNat ≤ 8192) (writeIdx : after.writeIdx.toNat ≤ 8192)
    (curLen : after.curLen.toNat = ring.curLen.toNat + len.toNat) (fits : ring.curLen.toNat + len.toNat ≤ 8192)
    (arranged : Arranged ring.readIdx.toNat after.writeIdx.toNat (ring.curLen.toNat + len.toNat))
    (older : ∀ index < ring.curLen.toNat, after.buf ((ring.readIdx.toNat + index) % 8192) =
      ring.buf ((ring.readIdx.toNat + index) % 8192))
    (newer : ∀ index < len.toNat, after.buf ((ring.readIdx.toNat + ring.curLen.toNat + index) % 8192) =
      data (0 + index)) : Appends ring after (slice data 0 len.toNat) := by
  constructor
  · exact ⟨size, by rw [readIdx]; exact bounded, writeIdx, by rw [curLen]; exact fits,
      by rw [readIdx, curLen]; exact arranged⟩
  · rw [Ring.queue, readIdx, curLen, window_append, window_congr older, window_eq_slice newer]
    rfl

theorem write_accepted (data : Nat → UInt8) (wellFormed : ring.WellFormed) (fits : len.toNat ≤ 8192 - ring.curLen.toNat) :
    ∃ after, piscesEarlyRingbufWrite ring data len = some (0, after) ∧
      Appends ring after (slice data 0 len.toNat) := by
  obtain ⟨space, same⟩ := wellFormed.free ring.curLen wellFormed.curLen
  obtain ⟨left, sectionSame⟩ := wellFormed.free ring.writeIdx wellFormed.writeIdx
  have accepted : ¬ len > UInt64.ofInt (toInt (ring.size - ring.curLen)) := by
    rw [same, gt_iff_lt, UInt64.lt_iff_toNat_lt, space]
    omega
  have read := wellFormed.readIdx
  have write := wellFormed.writeIdx
  have current := wellFormed.curLen
  have arranged := wellFormed.arranged
  have sum : (ring.curLen + len).toNat = ring.curLen.toNat + len.toNat := toNat_add_small (by omega)
  simp only [piscesEarlyRingbufWrite, if_neg accepted]
  by_cases loops : isWriteLoop ring len.toUInt32 = true
  · obtain ⟨ordered, room, beyond⟩ := (isWriteLoop_iff wellFormed (by omega)).mp loops
    have rest : (len - (ring.size - ring.writeIdx)).toNat = len.toNat - (8192 - ring.writeIdx.toNat) := by
      rw [UInt64.toNat_sub_of_le _ _ (UInt64.le_iff_toNat_le.mpr (by omega)), left]
    have next : (0 + (len - (ring.size - ring.writeIdx))).toNat = len.toNat - (8192 - ring.writeIdx.toNat) := by
      rw [UInt64.zero_add, rest]
    rcases arranged with ⟨_, exact⟩ | ⟨_, _, exact⟩
    · simp only [if_pos loops, sectionSame, copyIn, left, rest]
      rw [if_pos (by omega)]
      simp only [Option.bind_eq_bind, Option.bind_some]
      rw [if_pos (by simp only [UInt64.toNat_zero]; omega)]
      refine ⟨_, rfl, appends_of wellFormed.size rfl read (by rw [next]; omega) sum (by omega) ?_ ?_ ?_⟩
      · rw [next]
        exact .inr (by omega)
      · intro index inside
        simp only [UInt64.toNat_zero]
        rw [if_neg (by omega), if_neg (by omega)]
      · intro index inside
        simp only [UInt64.toNat_zero]
        by_cases first : index < 8192 - ring.writeIdx.toNat
        · rw [if_neg (by omega), if_pos (by omega)]
          congr 1
          omega
        · rw [if_pos (by omega)]
          congr 1
          omega
    · omega
  · have straight := (isWriteLoop_iff wellFormed (by omega)).not.mp loops
    have next : (ring.writeIdx + len).toNat = ring.writeIdx.toNat + len.toNat := toNat_add_small (by omega)
    have inside : ring.writeIdx.toNat + len.toNat ≤ 8192 := by
      rcases arranged with ⟨_, exact⟩ | ⟨_, _, exact⟩ <;> omega
    simp only [if_neg loops, copyIn]
    rw [if_pos inside]
    simp only [Option.bind_eq_bind, Option.bind_some]
    refine ⟨_, rfl, appends_of wellFormed.size rfl read (by rw [next]; exact inside) sum (by omega) ?_ ?_ ?_⟩
    · rw [next]
      rcases arranged with ⟨_, exact⟩ | ⟨_, _, exact⟩
      · exact .inl (by omega)
      · exact .inr (by omega)
    · intro index older
      dsimp only
      rw [if_neg]
      rcases arranged with ⟨_, exact⟩ | ⟨_, _, exact⟩ <;> omega
    · intro index newer
      have position : (ring.readIdx.toNat + ring.curLen.toNat + index) % 8192 = ring.writeIdx.toNat + index := by
        rcases arranged with ⟨_, exact⟩ | ⟨_, _, exact⟩ <;> omega
      dsimp only
      rw [position, if_pos (by omega)]
      congr 1
      omega

theorem read_refused (long : ring.curLen.toNat < len.toNat) :
    piscesEarlyRingbufRead ring len = some (-1, [], ring) := by
  have refused : len > ring.curLen := UInt64.lt_iff_toNat_lt.mpr long
  simp only [piscesEarlyRingbufRead, if_pos refused]

/-- The result of taking the oldest bytes. -/
def Removes (ring after : Ring) (count : Nat) : Prop :=
  after.WellFormed ∧ after.queue = ring.queue.drop count

/-- What removing comes down to: the read index moves on around the ring. -/
theorem removes_of {after : Ring} (size : after.size = 8192) (buf : after.buf = ring.buf)
    (readIdx : after.readIdx.toNat ≤ 8192) (writeIdx : after.writeIdx = ring.writeIdx)
    (bounded : ring.writeIdx.toNat ≤ 8192) (fits : len.toNat ≤ ring.curLen.toNat)
    (current : ring.curLen.toNat ≤ 8192) (curLen : after.curLen = ring.curLen - len)
    (arranged : Arranged after.readIdx.toNat ring.writeIdx.toNat (ring.curLen.toNat - len.toNat))
    (moved : after.readIdx.toNat % 8192 = (ring.readIdx.toNat + len.toNat) % 8192) :
    Removes ring after len.toNat := by
  have left : after.curLen.toNat = ring.curLen.toNat - len.toNat := by
    rw [curLen, UInt64.toNat_sub_of_le _ _ (UInt64.le_iff_toNat_le.mpr fits)]
  constructor
  · exact ⟨size, readIdx, by rw [writeIdx]; exact bounded, by omega, by rw [writeIdx, left]; exact arranged⟩
  · rw [Ring.queue, Ring.queue, window_drop fits, buf, left]
    apply window_congr
    intro index _
    rw [Nat.add_mod, moved, ← Nat.add_mod]

theorem read_accepted (wellFormed : ring.WellFormed) (fits : len.toNat ≤ ring.curLen.toNat) :
    ∃ after, piscesEarlyRingbufRead ring len = some (0, ring.queue.take len.toNat, after) ∧
      Removes ring after len.toNat := by
  obtain ⟨left, sectionSame⟩ := wellFormed.free ring.readIdx wellFormed.readIdx
  have accepted : ¬ len > ring.curLen := by
    rw [gt_iff_lt, UInt64.lt_iff_toNat_lt]
    omega
  have read := wellFormed.readIdx
  have write := wellFormed.writeIdx
  have current := wellFormed.curLen
  have arranged := wellFormed.arranged
  simp only [piscesEarlyRingbufRead, if_neg accepted]
  rw [Ring.queue, window_take fits]
  by_cases loops : isReadLoop ring len.toUInt32 = true
  · obtain ⟨ordered, something, beyond⟩ := (isReadLoop_iff wellFormed (by omega)).mp loops
    have rest : (len - (ring.size - ring.readIdx)).toNat = len.toNat - (8192 - ring.readIdx.toNat) := by
      rw [UInt64.toNat_sub_of_le _ _ (UInt64.le_iff_toNat_le.mpr (by omega)), left]
    have next : (0 + (len - (ring.size - ring.readIdx))).toNat = len.toNat - (8192 - ring.readIdx.toNat) := by
      rw [UInt64.zero_add, rest]
    rcases arranged with ⟨_, exact⟩ | ⟨_, _, exact⟩
    · omega
    · simp only [if_pos loops, sectionSame, copyOut, left, rest, UInt64.toNat_zero]
      rw [if_pos (by omega), if_pos (by omega)]
      simp only [Option.bind_eq_bind, Option.bind_some]
      have pieces : window ring.buf 8192 ring.readIdx.toNat len.toNat =
          slice ring.buf ring.readIdx.toNat (8192 - ring.readIdx.toNat) ++
            slice ring.buf 0 (len.toNat - (8192 - ring.readIdx.toNat)) := by
        rw [← window_wrap read (by omega)]
        congr 1
        omega
      rw [pieces]
      refine ⟨_, rfl, removes_of wellFormed.size rfl (by rw [next]; omega) rfl write fits current rfl ?_ ?_⟩
      · rw [next]
        exact .inl (by omega)
      · rw [next]
        omega
  · have straight := (isReadLoop_iff wellFormed (by omega)).not.mp loops
    have next : (ring.readIdx + len).toNat = ring.readIdx.toNat + len.toNat := toNat_add_small (by omega)
    have inside : ring.readIdx.toNat + len.toNat ≤ 8192 := by
      rcases arranged with ⟨_, exact⟩ | ⟨_, _, exact⟩ <;> omega
    simp only [if_neg loops, copyOut]
    rw [if_pos inside]
    simp only [Option.bind_eq_bind, Option.bind_some]
    have piece : window ring.buf 8192 ring.readIdx.toNat len.toNat = slice ring.buf ring.readIdx.toNat len.toNat := by
      apply window_eq_slice
      intro index below
      congr 1
      omega
    rw [piece]
    refine ⟨_, rfl, removes_of wellFormed.size rfl (by rw [next]; exact inside) rfl write fits current rfl ?_ ?_⟩
    · rw [next]
      rcases arranged with ⟨_, exact⟩ | ⟨_, _, exact⟩
      · exact .inl (by omega)
      · exact .inr (by omega)
    · rw [next]

/-- The calls on a ring; the data to be written is where the pointer points. -/
inductive Request where
  | write (data : Nat → UInt8) (writeLen : UInt64)
  | read (readLen : UInt64)

/-- What a call asks of a queue of bytes. -/
def Request.call : Request → Call UInt8
  | .write data writeLen => .write (slice data 0 writeLen.toNat)
  | .read readLen => .read readLen.toNat

/-- A ring with the answers its operations have given, newest first. -/
structure Session where
  ring : Ring
  answers : List (Answer UInt8)

def Session.step (session : Session) : Request → Option Session
  | .write data writeLen =>
      (piscesEarlyRingbufWrite session.ring data writeLen).map fun (ret, ring) =>
        ⟨ring, (if ret = 0 then .written else .refused) :: session.answers⟩
  | .read readLen =>
      (piscesEarlyRingbufRead session.ring readLen).map fun (ret, data, ring) =>
        ⟨ring, (if ret = 0 then .delivered data else .refused) :: session.answers⟩

def system : System Session Request where
  initial session := session = ⟨piscesEarlyRingbufInit, []⟩
  step := Session.step

/-- Every call is allowed. -/
def anyCall (_ : Session) (_ : Request) : Prop :=
  True

/-- The queue that a session stands for. -/
def Session.fifo (session : Session) : Fifo.Session UInt8 :=
  ⟨session.ring.queue, session.answers⟩

theorem init_wellFormed : piscesEarlyRingbufInit.WellFormed :=
  ⟨rfl, by decide, by decide, by decide, .inl (by decide)⟩

@[simp] theorem queue_length (ring : Ring) : ring.queue.length = ring.curLen.toNat := by
  simp [Ring.queue]

/-- A call answers as the queue does and leaves the ring alone if it is refused. -/
theorem step_simulates {session : Session} (wellFormed : session.ring.WellFormed) (request : Request) :
    ∃ next, session.step request = some next ∧ next.ring.WellFormed ∧
      (Fifo.system 8192).step session.fifo request.call = some next.fifo ∧
      (next.answers.head? = some .refused → next.ring = session.ring) := by
  cases request with
  | write data writeLen =>
      simp only [Session.step, Request.call, Fifo.system, serve, Session.fifo, slice_length, queue_length]
      by_cases fits : writeLen.toNat ≤ 8192 - session.ring.curLen.toNat
      · obtain ⟨after, written, kept, queue⟩ := write_accepted data wellFormed fits
        rw [written, if_pos fits]
        refine ⟨_, rfl, kept, ?_, by simp⟩
        simp [queue]
      · rw [write_refused wellFormed (by omega), if_neg fits]
        exact ⟨_, rfl, wellFormed, rfl, fun _ => rfl⟩
  | read readLen =>
      simp only [Session.step, Request.call, Fifo.system, serve, Session.fifo, queue_length]
      by_cases fits : readLen.toNat ≤ session.ring.curLen.toNat
      · obtain ⟨after, delivered, kept, queue⟩ := read_accepted wellFormed fits
        rw [delivered, if_pos fits]
        refine ⟨_, rfl, kept, ?_, by simp⟩
        simp [queue]
      · rw [read_refused (by omega), if_neg fits]
        exact ⟨_, rfl, wellFormed, rfl, fun _ => rfl⟩

theorem path_simulates {before after : Session} (wellFormed : before.ring.WellFormed)
    (path : system.Path anyCall before after) :
    after.ring.WellFormed ∧ (Fifo.system 8192).Path (fun _ _ => True) before.fifo after.fifo := by
  apply path.project (fun session => session.ring.WellFormed) Session.fifo wellFormed
  intro session request next formed _ stepped
  obtain ⟨simulated, same, kept, matched, _⟩ := step_simulates formed request
  have equal : simulated = next := Option.some.inj (same.symm.trans stepped)
  subst equal
  exact ⟨kept, .single trivial matched⟩

/-- The ring is a queue of 8192 bytes: every session of calls on it is a session
of the queue with the same answers, no call leaves the buffer, and a refused call
changes nothing. -/
theorem ring_refines_fifo {session : Session} (reached : system.Reachable anyCall session) :
    (Fifo.system 8192).Reachable (fun _ _ => True) session.fifo ∧
      ∀ request, ∃ next, session.step request = some next ∧
        (Fifo.system 8192).step session.fifo request.call = some next.fifo ∧
        (next.answers.head? = some .refused → next.ring = session.ring) := by
  obtain ⟨start, rfl, path⟩ := reached
  obtain ⟨wellFormed, simulated⟩ := path_simulates init_wellFormed path
  refine ⟨⟨_, ⟨rfl, rfl⟩, simulated⟩, ?_⟩
  intro request
  obtain ⟨next, stepped, _, matched, refused⟩ := step_simulates wellFormed request
  exact ⟨next, stepped, matched, refused⟩

theorem ring_refines_fifo_refused :
    ∃ session, system.Reachable anyCall session ∧ session.answers = [.refused, .delivered [1, 1], .written] ∧
      (Fifo.system 8192).Reachable (fun _ _ => True) session.fifo := by
  obtain ⟨session, executed, observed⟩ := Option.map_eq_some_iff.mp
    (show (system.run (fun _ _ => true) ⟨piscesEarlyRingbufInit, []⟩
      [.write (fun _ => 1) 3, .read 2, .write (fun _ => 2) 8192]).map (·.answers) =
        some [.refused, .delivered [1, 1], .written] by decide +kernel)
  have reached : system.Reachable anyCall session :=
    ⟨_, rfl, System.run_path (fun _ => trivial) executed⟩
  exact ⟨session, reached, observed, (ring_refines_fifo reached).1⟩

/-! ## The status of the ring -/

def piscesEarlyRingbufIsFull (ring : Ring) : Bool := ring.curLen != 0

def piscesEarlyRingbufIsEmpty (ring : Ring) : Bool := ring.curLen == 0

/-- Every write of at least a byte fails. -/
def WritesFail (ring : Ring) : Prop :=
  ∀ data len, 0 < len → ∃ after, piscesEarlyRingbufWrite ring data len = some (-1, after)

/-- Every read of at least a byte fails. -/
def ReadsFail (ring : Ring) : Prop :=
  ∀ len, 0 < len → ∃ bytes after, piscesEarlyRingbufRead ring len = some (-1, bytes, after)

/-- The predicates say what the operations do. -/
structure StatusMatches (ring : Ring) : Prop where
  full : piscesEarlyRingbufIsFull ring = true ↔ WritesFail ring
  empty : piscesEarlyRingbufIsEmpty ring = true ↔ ReadsFail ring

theorem writesFail_iff (wellFormed : ring.WellFormed) : WritesFail ring ↔ ring.curLen.toNat = 8192 := by
  have current := wellFormed.curLen
  constructor
  · intro fails
    by_contra room
    obtain ⟨after, refused⟩ := fails (fun _ => 0) 1 (by decide)
    obtain ⟨written, accepted, -⟩ := @write_accepted ring 1 (fun _ => 0) wellFormed
      (by rw [UInt64.toNat_one]; omega)
    rw [accepted] at refused
    cases refused
  · intro full data len positive
    have some_ : 0 < len.toNat := UInt64.lt_iff_toNat_lt.mp positive
    exact ⟨ring, write_refused wellFormed (by omega)⟩

theorem readsFail_iff (wellFormed : ring.WellFormed) : ReadsFail ring ↔ ring.curLen.toNat = 0 := by
  constructor
  · intro fails
    by_contra some_
    obtain ⟨bytes, after, refused⟩ := fails 1 (by decide)
    obtain ⟨left, accepted, -⟩ := @read_accepted ring 1 wellFormed (by rw [UInt64.toNat_one]; omega)
    rw [accepted] at refused
    cases refused
  · intro empty len positive
    have some_ : 0 < len.toNat := UInt64.lt_iff_toNat_lt.mp positive
    exact ⟨[], ring, read_refused (by omega)⟩

theorem isEmpty_iff (ring : Ring) : piscesEarlyRingbufIsEmpty ring = true ↔ ring.curLen.toNat = 0 := by
  rw [piscesEarlyRingbufIsEmpty, beq_iff_eq, ← UInt64.toNat_inj, UInt64.toNat_zero]

theorem isFull_iff (ring : Ring) : piscesEarlyRingbufIsFull ring = true ↔ ring.curLen.toNat ≠ 0 := by
  rw [piscesEarlyRingbufIsFull, bne_iff_ne, Ne, ← UInt64.toNat_inj, UInt64.toNat_zero]

/-- In every ring that calls lead to, the predicates match the operations exactly
if nothing or everything of the buffer is in use: a partly filled ring is taken to
be full. -/
theorem ringbuf_status {session : Session} (reached : system.Reachable anyCall session) :
    StatusMatches session.ring ↔ session.ring.curLen.toNat = 0 ∨ session.ring.curLen.toNat = 8192 := by
  obtain ⟨start, rfl, path⟩ := reached
  have wellFormed := (path_simulates init_wellFormed path).1
  have writes := writesFail_iff wellFormed
  have full := isFull_iff session.ring
  constructor
  · intro matched
    have same := matched.full
    rw [full, writes] at same
    omega
  · intro extreme
    refine ⟨?_, (isEmpty_iff _).trans (readsFail_iff wellFormed).symm⟩
    rw [full, writes]
    omega

theorem init_reachable : system.Reachable anyCall ⟨piscesEarlyRingbufInit, []⟩ :=
  ⟨_, rfl, .refl⟩

theorem ringbuf_status_init :
    system.Reachable anyCall ⟨piscesEarlyRingbufInit, []⟩ ∧
      (StatusMatches piscesEarlyRingbufInit ↔
        piscesEarlyRingbufInit.curLen.toNat = 0 ∨ piscesEarlyRingbufInit.curLen.toNat = 8192) :=
  ⟨init_reachable, ringbuf_status init_reachable⟩

/-- A ring with three bytes counts as full and takes a fourth. -/
theorem ringbuf_status_partly_filled :
    ∃ session, system.Reachable anyCall session ∧ piscesEarlyRingbufIsFull session.ring = true ∧
      ¬ WritesFail session.ring ∧ ¬ StatusMatches session.ring := by
  obtain ⟨session, executed, length⟩ := Option.map_eq_some_iff.mp
    (show (system.run (fun _ _ => true) ⟨piscesEarlyRingbufInit, []⟩ [.write (fun _ => 1) 3]).map (·.ring.curLen) =
        some 3 by decide +kernel)
  have path : system.Path anyCall _ session := System.run_path (fun _ => trivial) executed
  have wellFormed := (path_simulates init_wellFormed path).1
  have three : session.ring.curLen.toNat = 3 := by rw [length]; rfl
  have full : piscesEarlyRingbufIsFull session.ring = true := (isFull_iff _).mpr (by omega)
  have takes : ¬ WritesFail session.ring := by
    rw [writesFail_iff wellFormed]
    omega
  exact ⟨session, ⟨_, rfl, path⟩, full, takes, fun matched => takes (matched.full.mp full)⟩

end Pisces.Ringbuf
