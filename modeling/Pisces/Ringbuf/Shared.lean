import Pisces.Lock
import Pisces.Ringbuf

/-! # The early ring buffer shared by several CPUs

The statements of `pisces_early_ringbuf_write` and `pisces_early_ringbuf_read`
between taking and giving back the lock, the copies a byte at a time.
-/

namespace Pisces.Ringbuf

open Atomic Fifo Lock Transition

/-- The statement that comes next, with the local variables that are still needed. -/
inductive Point where
  | writeTest (data : Nat → UInt8) (writeLen : UInt64)
  | writeLoop (data : Nat → UInt8) (writeLen : UInt64)
  | writeFirst (data : Nat → UInt8) (writeLen sectionLen start : UInt64) (done : Nat)
  | writeZero (data : Nat → UInt8) (writeLen sectionLen : UInt64)
  | writeSecond (data : Nat → UInt8) (writeLen sectionLen start : UInt64) (done : Nat)
  | writeStraight (data : Nat → UInt8) (writeLen start : UInt64) (done : Nat)
  | writeMove (amount writeLen : UInt64)
  | writeCount (writeLen : UInt64)
  | readTest (readLen : UInt64)
  | readLoop (readLen : UInt64)
  | readFirst (readLen sectionLen start : UInt64) (done : Nat) (bytes : List UInt8)
  | readZero (readLen sectionLen : UInt64) (bytes : List UInt8)
  | readSecond (readLen sectionLen start : UInt64) (done : Nat) (bytes : List UInt8)
  | readStraight (readLen start : UInt64) (done : Nat) (bytes : List UInt8)
  | readMove (amount readLen : UInt64) (bytes : List UInt8)
  | readCount (readLen : UInt64) (bytes : List UInt8)

/-- What a call returns; a read has also filled the caller's buffer. -/
inductive Result where
  | wrote (ret : Int)
  | read (ret : Int) (data : List UInt8)
  deriving DecidableEq

def storeByte (ring : Ring) (position : Nat) (byte : UInt8) : Option Ring :=
  if position < 8192 then some { ring with buf := Function.update ring.buf position byte } else none

def loadByte (ring : Ring) (position : Nat) : Option UInt8 :=
  if position < 8192 then some (ring.buf position) else none

/-- One byte of a `memcpy` into the buffer, and where to go on -/
def copyByteIn (ring : Ring) (start : UInt64) (done : Nat) (data : Nat → UInt8) (next : Point) :
    Option (Ring × (Point ⊕ Result)) :=
  (storeByte ring (start.toNat + done) (data done)).map fun ring => (ring, .inl next)

/-- One byte of a `memcpy` out of the buffer, and where to go on -/
def copyByteOut (ring : Ring) (start : UInt64) (done : Nat) (next : UInt8 → Point) :
    Option (Ring × (Point ⊕ Result)) :=
  (loadByte ring (start.toNat + done)).map fun byte => (ring, .inl (next byte))

def Point.step (ring : Ring) : Point → Option (Ring × (Point ⊕ Result))
  | .writeTest data writeLen =>
      let availSpace := toInt (ring.size - ring.curLen)
      if writeLen > UInt64.ofInt availSpace then some (ring, .inr (.wrote (-1)))
      else some (ring, .inl (.writeLoop data writeLen))
  | .writeLoop data writeLen =>
      if isWriteLoop ring writeLen.toUInt32 then
        let sectionLen := UInt64.ofInt (toInt (ring.size - ring.writeIdx))
        some (ring, .inl (.writeFirst data writeLen sectionLen ring.writeIdx 0))
      else some (ring, .inl (.writeStraight data writeLen ring.writeIdx 0))
  | .writeFirst data writeLen sectionLen start done =>
      if done < sectionLen.toNat then
        copyByteIn ring start done data (.writeFirst data writeLen sectionLen start (done + 1))
      else some (ring, .inl (.writeZero data writeLen sectionLen))
  | .writeZero data writeLen sectionLen =>
      some ({ ring with writeIdx := 0 }, .inl (.writeSecond data writeLen sectionLen 0 0))
  | .writeSecond data writeLen sectionLen start done =>
      if done < (writeLen - sectionLen).toNat then
        copyByteIn ring start done (fun index => data (sectionLen.toNat + index))
          (.writeSecond data writeLen sectionLen start (done + 1))
      else some (ring, .inl (.writeMove (writeLen - sectionLen) writeLen))
  | .writeStraight data writeLen start done =>
      if done < writeLen.toNat then copyByteIn ring start done data (.writeStraight data writeLen start (done + 1))
      else some (ring, .inl (.writeMove writeLen writeLen))
  | .writeMove amount writeLen =>
      some ({ ring with writeIdx := ring.writeIdx + amount }, .inl (.writeCount writeLen))
  | .writeCount writeLen => some ({ ring with curLen := ring.curLen + writeLen }, .inr (.wrote 0))
  | .readTest readLen =>
      if readLen > ring.curLen then some (ring, .inr (.read (-1) [])) else some (ring, .inl (.readLoop readLen))
  | .readLoop readLen =>
      if isReadLoop ring readLen.toUInt32 then
        let sectionLen := UInt64.ofInt (toInt (ring.size - ring.readIdx))
        some (ring, .inl (.readFirst readLen sectionLen ring.readIdx 0 []))
      else some (ring, .inl (.readStraight readLen ring.readIdx 0 []))
  | .readFirst readLen sectionLen start done bytes =>
      if done < sectionLen.toNat then
        copyByteOut ring start done fun byte => .readFirst readLen sectionLen start (done + 1) (bytes ++ [byte])
      else some (ring, .inl (.readZero readLen sectionLen bytes))
  | .readZero readLen sectionLen bytes =>
      some ({ ring with readIdx := 0 }, .inl (.readSecond readLen sectionLen 0 0 bytes))
  | .readSecond readLen sectionLen start done bytes =>
      if done < (readLen - sectionLen).toNat then
        copyByteOut ring start done fun byte => .readSecond readLen sectionLen start (done + 1) (bytes ++ [byte])
      else some (ring, .inl (.readMove (readLen - sectionLen) readLen bytes))
  | .readStraight readLen start done bytes =>
      if done < readLen.toNat then
        copyByteOut ring start done fun byte => .readStraight readLen start (done + 1) (bytes ++ [byte])
      else some (ring, .inl (.readMove readLen readLen bytes))
  | .readMove amount readLen bytes =>
      some ({ ring with readIdx := ring.readIdx + amount }, .inl (.readCount readLen bytes))
  | .readCount readLen bytes => some ({ ring with curLen := ring.curLen - readLen }, .inr (.read 0 bytes))

/-- What runs under the lock -/
def routine : Routine Ring Request Point Result where
  enter
    | .write data writeLen => .writeTest data writeLen
    | .read readLen => .readTest readLen
  step := Point.step

/-- A call as a whole -/
def serveRing (ring : Ring) : Request → Option (Ring × Result)
  | .write data writeLen => (piscesEarlyRingbufWrite ring data writeLen).map fun (ret, ring) => (ring, .wrote ret)
  | .read readLen => (piscesEarlyRingbufRead ring readLen).map fun (ret, data, ring) => (ring, .read ret data)

/-! ## Copies -/

/-- A ring of which some bytes have been copied. -/
def filled (ring : Ring) (start : Nat) (data : Nat → UInt8) (done : Nat) : Ring :=
  { ring with
    buf := fun position =>
      if start ≤ position ∧ position < start + done then data (position - start) else ring.buf position }

variable {ring after : Ring} {data : Nat → UInt8} {start : UInt64} {count done : Nat} {result : Result}

theorem filled_zero (ring : Ring) (start : Nat) (data : Nat → UInt8) : filled ring start data 0 = ring := by
  have same : (filled ring start data 0).buf = ring.buf := by
    funext position
    exact if_neg (by omega)
  exact congrArg (fun buf => { ring with buf := buf }) same

theorem storeByte_filled {start : Nat} (inside : start + done < 8192) (data : Nat → UInt8) :
    storeByte (filled ring start data done) (start + done) (data done) = some (filled ring start data (done + 1)) := by
  have same : Function.update (filled ring start data done).buf (start + done) (data done) =
      (filled ring start data (done + 1)).buf := by
    funext position
    simp only [filled, Function.update_apply]
    by_cases here : position = start + done
    · rw [if_pos here, if_pos (by omega)]
      congr 1
      omega
    · rw [if_neg here]
      by_cases before : start ≤ position ∧ position < start + done
      · rw [if_pos before, if_pos (by omega)]
      · rw [if_neg before, if_neg (by omega)]
  rw [storeByte, if_pos inside, same]
  rfl

/-- A copy into the buffer is made byte by byte. -/
theorem copy_in_finishes {data : Nat → UInt8} {at_ : Nat → Point} (inside : start.toNat + count ≤ 8192)
    (step : ∀ ring, ∀ done < count, Point.step ring (at_ done) = copyByteIn ring start done data (at_ (done + 1)))
    (rest : routine.Finishes (filled ring start.toNat data count) (at_ count) after result) (left : Nat)
    (within : left ≤ count) :
    routine.Finishes (filled ring start.toNat data (count - left)) (at_ (count - left)) after result := by
  induction left with
  | zero => exact rest
  | succ left ih =>
      have next : count - left = count - (left + 1) + 1 := by omega
      have stored := @storeByte_filled ring (count - (left + 1)) start.toNat (by omega) data
      refine .next ?_ (ih (by omega))
      rw [next]
      exact (step _ _ (by omega)).trans (by rw [copyByteIn, stored]; rfl)

/-- A copy out of the buffer is made byte by byte. -/
theorem copy_out_finishes {at_ : Nat → List UInt8 → Point} (inside : start.toNat + count ≤ 8192)
    (step : ∀ done < count, ∀ bytes, Point.step ring (at_ done bytes) =
      copyByteOut ring start done fun byte => at_ (done + 1) (bytes ++ [byte]))
    (before : List UInt8)
    (rest : routine.Finishes ring (at_ count (before ++ slice ring.buf start.toNat count)) after result) (left : Nat)
    (within : left ≤ count) :
    routine.Finishes ring (at_ (count - left) (before ++ slice ring.buf start.toNat (count - left))) after result := by
  induction left with
  | zero => exact rest
  | succ left ih =>
      have next : count - left = count - (left + 1) + 1 := by omega
      refine .next ?_ (ih (by omega))
      rw [next, slice_succ, ← List.append_assoc]
      refine (step _ (by omega) _).trans ?_
      rw [copyByteOut, loadByte, if_pos (by omega)]
      rfl

theorem copyIn_eq {count : UInt64} (copied : copyIn ring start count data = some after) :
    start.toNat + count.toNat ≤ 8192 ∧ after = filled ring start.toNat data count.toNat := by
  rw [copyIn] at copied
  split at copied
  · rename_i inside
    cases copied
    exact ⟨inside, rfl⟩
  · cases copied

theorem copyOut_eq {count : UInt64} {bytes : List UInt8} (copied : copyOut ring start count = some bytes) :
    start.toNat + count.toNat ≤ 8192 ∧ bytes = slice ring.buf start.toNat count.toNat := by
  rw [copyOut] at copied
  split at copied
  · rename_i inside
    cases copied
    exact ⟨inside, rfl⟩
  · cases copied

/-- The whole of a copy into the buffer -/
theorem copy_in_whole {count : UInt64} {middle : Ring} {at_ : Nat → Point} {following : Point}
    (copied : copyIn ring start count data = some middle)
    (step : ∀ ring, ∀ done < count.toNat, Point.step ring (at_ done) = copyByteIn ring start done data (at_ (done + 1)))
    (stop : ∀ ring, Point.step ring (at_ count.toNat) = some (ring, .inl following))
    (rest : routine.Finishes middle following after result) : routine.Finishes ring (at_ 0) after result := by
  obtain ⟨inside, rfl⟩ := copyIn_eq copied
  have whole := copy_in_finishes inside step (.next (stop _) rest) count.toNat (Nat.le_refl _)
  rw [Nat.sub_self, filled_zero] at whole
  exact whole

/-- The whole of a copy out of the buffer -/
theorem copy_out_whole {count : UInt64} {bytes : List UInt8} {at_ : Nat → List UInt8 → Point}
    {following : List UInt8 → Point} (copied : copyOut ring start count = some bytes)
    (step : ∀ done < count.toNat, ∀ bytes, Point.step ring (at_ done bytes) =
      copyByteOut ring start done fun byte => at_ (done + 1) (bytes ++ [byte]))
    (stop : ∀ bytes, Point.step ring (at_ count.toNat bytes) = some (ring, .inl (following bytes)))
    (before : List UInt8) (rest : routine.Finishes ring (following (before ++ bytes)) after result) :
    routine.Finishes ring (at_ 0 before) after result := by
  obtain ⟨inside, rfl⟩ := copyOut_eq copied
  have whole := copy_out_finishes inside step before (.next (stop _) rest) count.toNat (Nat.le_refl _)
  rw [Nat.sub_self, slice, List.range_zero, List.map_nil, List.append_nil] at whole
  exact whole

/-- The index may be moved first. -/
theorem copyIn_moved {count : UInt64} (writeIdx : UInt64) (copied : copyIn ring start count data = some after) :
    copyIn { ring with writeIdx := writeIdx } start count data = some { after with writeIdx := writeIdx } := by
  rw [copyIn] at copied ⊢
  split at copied
  · rename_i inside
    cases copied
    rw [if_pos inside]
  · cases copied

/-! ## Calls -/

theorem write_end (ring : Ring) (amount writeLen : UInt64) :
    routine.Finishes ring (.writeMove amount writeLen)
      { ring with writeIdx := ring.writeIdx + amount, curLen := ring.curLen + writeLen } (.wrote 0) :=
  .next rfl (.last rfl)

theorem read_end (ring : Ring) (amount readLen : UInt64) (bytes : List UInt8) :
    routine.Finishes ring (.readMove amount readLen bytes)
      { ring with readIdx := ring.readIdx + amount, curLen := ring.curLen - readLen } (.read 0 bytes) :=
  .next rfl (.last rfl)

theorem write_finishes {writeLen : UInt64} {ret : Int}
    (served : piscesEarlyRingbufWrite ring data writeLen = some (ret, after)) :
    routine.Finishes ring (.writeTest data writeLen) after (.wrote ret) := by
  simp only [piscesEarlyRingbufWrite] at served
  split at served
  · rename_i long
    cases served
    exact .last (if_pos long)
  · rename_i fits
    refine .next (if_neg fits) ?_
    split at served
    · rename_i loops
      simp only [Option.bind_eq_bind, Option.bind_eq_some_iff] at served
      obtain ⟨middle, first, last, second, result⟩ := served
      cases result
      obtain ⟨sectionLen, same⟩ : ∃ sectionLen, sectionLen = UInt64.ofInt (toInt (ring.size - ring.writeIdx)) := ⟨_, rfl⟩
      rw [← same] at first second ⊢
      have looped : Point.step ring (.writeLoop data writeLen) =
          some (ring, .inl (.writeFirst data writeLen sectionLen ring.writeIdx 0)) := by
        rw [same]
        exact if_pos loops
      have ended := write_end { last with writeIdx := 0 } (writeLen - sectionLen) writeLen
      have zeroed : Point.step middle (.writeZero data writeLen sectionLen) =
          some ({ middle with writeIdx := 0 }, .inl (.writeSecond data writeLen sectionLen 0 0)) := rfl
      refine .next looped (@copy_in_whole _ _ _ _ _ _ _ (.writeFirst data writeLen sectionLen ring.writeIdx)
        (.writeZero data writeLen sectionLen) first ?_ ?_
          (.next zeroed (copy_in_whole (copyIn_moved 0 second) ?_ ?_ ended)))
      all_goals intro ring
      · intro done below
        rw [Point.step, if_pos below]
      · rw [Point.step, if_neg (Nat.lt_irrefl _)]
      · intro done below
        rw [Point.step, if_pos below]
      · rw [Point.step, if_neg (Nat.lt_irrefl _)]
    · rename_i straight
      simp only [Option.bind_eq_bind, Option.bind_eq_some_iff] at served
      obtain ⟨middle, copied, result⟩ := served
      cases result
      have ended := write_end middle writeLen writeLen
      refine .next (if_neg straight) (copy_in_whole copied ?_ ?_ ended)
      all_goals intro ring
      · intro done below
        rw [Point.step, if_pos below]
      · rw [Point.step, if_neg (Nat.lt_irrefl _)]

theorem read_finishes {readLen : UInt64} {ret : Int} {bytes : List UInt8}
    (served : piscesEarlyRingbufRead ring readLen = some (ret, bytes, after)) :
    routine.Finishes ring (.readTest readLen) after (.read ret bytes) := by
  simp only [piscesEarlyRingbufRead] at served
  split at served
  · rename_i long
    cases served
    exact .last (if_pos long)
  · rename_i fits
    refine .next (if_neg fits) ?_
    split at served
    · rename_i loops
      simp only [Option.bind_eq_bind, Option.bind_eq_some_iff] at served
      obtain ⟨front, first, back, second, result⟩ := served
      cases result
      obtain ⟨sectionLen, same⟩ : ∃ sectionLen, sectionLen = UInt64.ofInt (toInt (ring.size - ring.readIdx)) := ⟨_, rfl⟩
      rw [← same] at first second ⊢
      have looped : Point.step ring (.readLoop readLen) =
          some (ring, .inl (.readFirst readLen sectionLen ring.readIdx 0 [])) := by
        rw [same]
        exact if_pos loops
      have ended := read_end { ring with readIdx := 0 } (readLen - sectionLen) readLen (front ++ back)
      have zeroed : Point.step ring (.readZero readLen sectionLen front) =
          some ({ ring with readIdx := 0 }, .inl (.readSecond readLen sectionLen 0 0 front)) := rfl
      refine .next looped (@copy_out_whole _ _ _ _ _ _ (.readFirst readLen sectionLen ring.readIdx)
        (.readZero readLen sectionLen) first ?_ ?_ [] (.next zeroed
        (@copy_out_whole { ring with readIdx := 0 } _ _ _ _ _ _ _ second ?_ ?_ front ended)))
      · intro done below bytes
        rw [Point.step, if_pos below]
      · intro bytes
        rw [Point.step, if_neg (Nat.lt_irrefl _)]
      · intro done below bytes
        rw [Point.step, if_pos below]
      · intro bytes
        rw [Point.step, if_neg (Nat.lt_irrefl _)]
    · rename_i straight
      simp only [Option.bind_eq_bind, Option.bind_eq_some_iff] at served
      obtain ⟨bytes, copied, result⟩ := served
      cases result
      refine .next (if_neg straight) (copy_out_whole copied ?_ ?_ [] (read_end ring readLen readLen bytes))
      · intro done below bytes
        rw [Point.step, if_pos below]
      · intro bytes
        rw [Point.step, if_neg (Nat.lt_irrefl _)]

/-- The statements compute what the calls compute. -/
theorem serve_finishes {request : Request} (served : serveRing ring request = some (after, result)) :
    routine.Finishes ring (routine.enter request) after result := by
  cases request with
  | write data writeLen =>
      obtain ⟨⟨ret, ring⟩, written, same⟩ := Option.map_eq_some_iff.mp served
      cases same
      exact write_finishes written
  | read readLen =>
      obtain ⟨⟨ret, bytes, ring⟩, delivered, same⟩ := Option.map_eq_some_iff.mp served
      cases same
      exact read_finishes delivered

/-- What a queue's caller makes of a result -/
def Result.answer : Result → Fifo.Answer UInt8
  | .wrote ret => if ret = 0 then .written else .refused
  | .read ret data => if ret = 0 then .delivered data else .refused

/-- The queue of 8192 bytes -/
def serveFifo (queue : List UInt8) (call : Fifo.Call UInt8) : Option (List UInt8 × Fifo.Answer UInt8) :=
  some ((serve 8192 queue call).2, (serve 8192 queue call).1)

theorem step_of_serve {request : Request} (served : serveRing ring request = some (after, result))
    (answers : List (Fifo.Answer UInt8)) :
    Session.step ⟨ring, answers⟩ request = some ⟨after, result.answer :: answers⟩ := by
  cases request with
  | write data writeLen =>
      obtain ⟨⟨ret, ring⟩, written, same⟩ := Option.map_eq_some_iff.mp served
      cases same
      simp only [Session.step, written, Option.map_some, Result.answer]
  | read readLen =>
      obtain ⟨⟨ret, bytes, ring⟩, delivered, same⟩ := Option.map_eq_some_iff.mp served
      cases same
      simp only [Session.step, delivered, Option.map_some, Result.answer]

theorem serve_exists {request : Request} (stepped : ∃ next, Session.step ⟨ring, []⟩ request = some next) :
    ∃ after result, serveRing ring request = some (after, result) := by
  obtain ⟨next, stepped⟩ := stepped
  cases request with
  | write data writeLen =>
      obtain ⟨⟨ret, ring⟩, written, _⟩ := Option.map_eq_some_iff.mp stepped
      exact ⟨ring, .wrote ret, by simp only [serveRing, written, Option.map_some]⟩
  | read readLen =>
      obtain ⟨⟨ret, bytes, ring⟩, delivered, _⟩ := Option.map_eq_some_iff.mp stepped
      exact ⟨ring, .read ret bytes, by simp only [serveRing, delivered, Option.map_some]⟩

theorem serve_as_fifo (ring : Ring) (request : Request) (after : Ring) (result : Result)
    (wellFormed : ring.WellFormed) (served : serveRing ring request = some (after, result)) :
    after.WellFormed ∧ serveFifo ring.queue request.call = some (after.queue, result.answer) := by
  obtain ⟨next, stepped, kept, matched, _⟩ := @step_simulates ⟨ring, []⟩ wellFormed request
  rw [step_of_serve served] at stepped
  cases stepped
  refine ⟨kept, ?_⟩
  simp only [Fifo.system, Session.fifo, Option.some.injEq, Fifo.Session.mk.injEq, List.cons.injEq, and_true] at matched
  rw [serveFifo, matched.1, matched.2]

theorem routine_implements : routine.Implements Ring.WellFormed serveRing := by
  intro ring request wellFormed
  obtain ⟨next, stepped, _⟩ := @step_simulates ⟨ring, []⟩ wellFormed request
  obtain ⟨after, result, served⟩ := serve_exists ⟨next, stepped⟩
  exact ⟨after, result, served, (serve_as_fifo _ _ _ _ wellFormed served).1, serve_finishes served⟩

variable {Id : Type*} [DecidableEq Id]

/-- However the statements of the CPUs' calls interleave, the calls and their
answers are those of one queue of 8192 bytes that serves each call in one step
between its beginning and its end; and no CPU ever leaves the buffer. -/
theorem shared_ring_atomic {machine : Machine Ring Request Point Result Id}
    (reached : (Lock.system routine piscesEarlyRingbufInit).Reachable anyLabel machine) :
    (∃ object : Object (List UInt8) Id (Fifo.Call UInt8) (Fifo.Answer UInt8),
      (Atomic.system serveFifo []).Reachable anyAction object ∧
        object.history = machine.history.map (Event.map Request.call Result.answer)) ∧
      ∀ cpu, machine.phase cpu ≠ .idle → ∃ next, machine.step routine (.move cpu) = some next := by
  have simulated := simulated_of_reachable routine_implements init_wellFormed reached
  refine ⟨?_, fun cpu busy => move_of_busy simulated busy⟩
  obtain ⟨holder, object, follows, same⟩ := simulated
  have queue : (Atomic.system serveFifo []).Reachable anyAction _ := reachable_map serve_as_fifo init_wellFormed rfl same
  refine ⟨_, queue, ?_⟩
  rw [Object.map, follows.history]

def idleCpus : Machine Ring Request Point Result Bool where
  lock := piscesLockInit
  data := piscesEarlyRingbufInit
  phase _ := .idle
  history := []

/-- What the calls returned, newest first -/
def results (history : List (Event Bool Request Result)) : List (Bool × Result) :=
  history.filterMap fun
    | .returned cpu result => some (cpu, result)
    | .invoked _ _ => none

/-- A read that comes in while two bytes are written waits for them. -/
theorem shared_ring_atomic_waits :
    ∃ machine : Machine Ring Request Point Result Bool,
      (Lock.system routine piscesEarlyRingbufInit).Reachable anyLabel machine ∧
      results machine.history = [(false, .read 0 [7, 7]), (true, .wrote 0)] ∧
      ∃ object : Object (List UInt8) Bool (Fifo.Call UInt8) (Fifo.Answer UInt8),
        (Atomic.system serveFifo []).Reachable anyAction object ∧
          object.history = machine.history.map (Event.map Request.call Result.answer) := by
  obtain ⟨machine, executed, observed⟩ := Option.map_eq_some_iff.mp
    (show ((Lock.system routine piscesEarlyRingbufInit).run (fun _ _ => true) idleCpus
      ([.call true (.write (fun _ => 7) 2), .move true, .call false (.read 2), .move true, .move false, .move true,
        .move true, .move true, .move true, .move true, .move true, .move true, .move true] ++
          List.replicate 11 (.move false))).map
        (fun machine => results machine.history) = some [(false, .read 0 [7, 7]), (true, .wrote 0)] by decide +kernel)
  have reached : (Lock.system routine piscesEarlyRingbufInit).Reachable anyLabel machine :=
    ⟨idleCpus, ⟨rfl, rfl, fun _ => rfl, rfl⟩, System.run_path (fun _ => trivial) executed⟩
  exact ⟨machine, reached, observed, (shared_ring_atomic reached).1⟩

end Pisces.Ringbuf
