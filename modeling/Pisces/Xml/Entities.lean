import Mathlib.Data.List.TakeWhile
import Pisces.Text

/-! # Entities and character references

`ezxml_decode` and `ezxml_ampencode` of `ezxml.c`.  A string is the list of its
bytes up to the terminator.
-/

namespace Pisces.Xml

open Text

abbrev Str := List UInt8

def ampersand : UInt8 := 38
def semicolon : UInt8 := 59

/-- What is decoded: text, an attribute or CDATA -/
inductive Mode where
  | text
  | attr
  | cdata
  deriving DecidableEq

/-- Where the code leaves the string that it works on -/
inductive Fault where
  /-- The loop over line endings steps over the terminator. -/
  | overrun
  /-- A number of 42 bits or more is shifted by a negative amount. -/
  | shift
  /-- A copy up to the first terminator leaves out what is still to be decoded. -/
  | truncated
  | fuel
  deriving DecidableEq

/-- The loop that normalizes line endings.  After a carriage return at the end of the
string it goes on behind the terminator; that is a terminator as well once a line
feed was taken out. -/
def normalize (shortened : Bool) : Str → Except Fault Str
  | 13 :: 10 :: rest => (normalize true rest).map (10 :: ·)
  | [13] => if shortened then .ok [10] else .error .overrun
  | 13 :: rest => (normalize shortened rest).map (10 :: ·)
  | byte :: rest => (normalize shortened rest).map (byte :: ·)
  | [] => .ok []

/-- The payload bytes of `count` more sextets -/
def payload (number : Nat) : Nat → Str
  | 0 => []
  | count + 1 => UInt8.ofNat (128 ||| ((number >>> (6 * count)) &&& 63)) :: payload number count

/-- The bytes that a character reference stands for -/
def character (number : Int) : Str :=
  if number < 128 then [UInt8.ofInt number]
  else
    let bits := Nat.log2 number.toNat + 1
    let count := (bits - 2) / 5
    UInt8.ofNat ((255 <<< (7 - count)) ||| (number.toNat >>> (6 * count))) :: payload number.toNat count

/-- The number after `&#`, and where it ends -/
def numberOf (text : Str) : Int × Str :=
  match text with
  | 120 :: digits => strtol 16 digits
  | _ => strtol 10 text

/-- The number after `&#`, if it is one and a semicolon follows, and what is behind -/
def reference (text : Str) : Option (Int × Str) :=
  match (numberOf text).2 with
  | 59 :: behind => if (numberOf text).1 = 0 then none else some ((numberOf text).1, behind)
  | _ => none

/-- A list of entities: names with their semicolon, and values -/
abbrev Entities := List (Str × Str)

/-- The first entity whose name stands at the front of the text -/
def findEntity (entities : Entities) (text : Str) : Option (Str × Str) :=
  entities.find? fun entity => entity.1.isPrefixOf text

/-- Whether an entity reference starts with this byte -/
def opensEntity (mode : Mode) (byte : UInt8) : Bool :=
  match mode with
  | .text | .attr => byte == ampersand
  | .cdata => false

/-- Where the string that is being decoded is: in place, in place behind a terminator
that a reference wrote, or in memory of its own -/
inductive Buffer where
  | given
  | cutShort
  | own
  deriving DecidableEq

/-- What a reference writes -/
def Buffer.write (buffer : Buffer) (bytes : Str) : Buffer :=
  if buffer = .given ∧ 0 ∈ bytes then .cutShort else buffer

/-- Room for a replacement; `strcpy` moves the string, and `realloc` from then on. -/
def Buffer.expand (buffer : Buffer) (replacement rest : Str) : Except Fault Buffer :=
  if (rest.takeWhile (· != semicolon)).length + 2 < replacement.length then
    if buffer = .cutShort then .error .truncated else .ok .own
  else .ok buffer

/-- The loop of `ezxml_decode`.  A replacement text is looked at again, so that
the loop need not come to an end. -/
def decodeLoop (entities : Entities) (mode : Mode) : Nat → Buffer → Str → Except Fault Str
  | _, _, [] => .ok []
  | 0, _, _ :: _ => .error .fuel
  | fuel + 1, buffer, byte :: rest =>
      match (if mode ≠ .cdata ∧ byte = ampersand ∧ rest.head? = some 35 then some (reference (rest.drop 1))
        else none) with
      | some (some (number, behind)) =>
          if number < 0x20000000000 then
            (decodeLoop entities mode fuel (buffer.write (character number)) behind).map (character number ++ ·)
          else .error .shift
      | some none => (decodeLoop entities mode fuel buffer rest).map (byte :: ·)
      | none =>
          if opensEntity mode byte then
            match findEntity entities rest with
            | some (_, replacement) =>
                match buffer.expand replacement rest with
                | .ok buffer =>
                    decodeLoop entities mode fuel buffer (replacement ++ (rest.dropWhile (· != semicolon)).drop 1)
                | .error fault => .error fault
            | none => (decodeLoop entities mode fuel buffer rest).map (byte :: ·)
          else if mode = .attr ∧ isSpace byte then (decodeLoop entities mode fuel buffer rest).map (32 :: ·)
          else (decodeLoop entities mode fuel buffer rest).map (byte :: ·)

/-- A reference may write a terminator. -/
def cut (text : Str) : Str :=
  text.takeWhile (· != 0)

/-- The entities of `ezxml_new`: `lt`, `gt`, `quot`, `apos` and `amp` -/
def defaultEntities : Entities :=
  [([108, 116, 59], [38, 35, 54, 48, 59]), ([103, 116, 59], [38, 35, 54, 50, 59]),
    ([113, 117, 111, 116, 59], [38, 35, 51, 52, 59]), ([97, 112, 111, 115, 59], [38, 35, 51, 57, 59]),
    ([97, 109, 112, 59], [38, 35, 51, 56, 59])]

/-- `ezxml_decode` with the default entities -/
def ezxmlDecode (mode : Mode) (text : Str) : Except Fault Str := do
  let text ← normalize false text
  let decoded ← decodeLoop defaultEntities mode (2 * text.length) .given text
  return cut decoded

/-- What `ezxml_ampencode` writes for a byte -/
def encodeByte (a : Bool) (byte : UInt8) : Str :=
  if byte = 38 then [38, 97, 109, 112, 59]
  else if byte = 60 then [38, 108, 116, 59]
  else if byte = 62 then [38, 103, 116, 59]
  else if byte = 34 then if a then [38, 113, 117, 111, 116, 59] else [34]
  else if byte = 10 then if a then [38, 35, 120, 65, 59] else [10]
  else if byte = 9 then if a then [38, 35, 120, 57, 59] else [9]
  else if byte = 13 then [38, 35, 120, 68, 59]
  else [byte]

/-- `ezxml_ampencode` of a string, or of its first bytes -/
def ezxmlAmpencode (a : Bool) (text : Str) : Str :=
  text.flatMap (encodeByte a)

/-! ## What the loop decodes -/

variable {mode : Mode} {text rest out : Str} {byte : UInt8} {fuel : Nat} {buffer : Buffer}

theorem loop_reference {number : Int} {behind : Str} (entities : Entities) (references : mode ≠ .cdata)
    (read : reference text = some (number, behind)) (fuel : Nat) (buffer : Buffer) :
    decodeLoop entities mode (fuel + 1) buffer (38 :: 35 :: text) =
      if number < 0x20000000000 then
        (decodeLoop entities mode fuel (buffer.write (character number)) behind).map (character number ++ ·)
      else .error .shift := by
  have here : mode ≠ .cdata ∧ (38 : UInt8) = ampersand ∧ (35 :: text).head? = some 35 := ⟨references, rfl, rfl⟩
  rw [decodeLoop, if_pos here, List.drop_one, List.tail_cons, read]

theorem loop_entity {name replacement : Str} (entities : Entities) (opens : opensEntity mode ampersand = true)
    (plain : rest.head? ≠ some 35) (found : findEntity entities rest = some (name, replacement)) (fuel : Nat)
    (buffer : Buffer) :
    decodeLoop entities mode (fuel + 1) buffer (38 :: rest) =
      match buffer.expand replacement rest with
      | .ok buffer => decodeLoop entities mode fuel buffer (replacement ++ (rest.dropWhile (· != semicolon)).drop 1)
      | .error fault => .error fault := by
  have none : ¬ (mode ≠ .cdata ∧ (38 : UInt8) = ampersand ∧ rest.head? = some 35) := fun both => plain both.2.2
  rw [decodeLoop, if_neg none]
  simp only [show opensEntity mode 38 = true from opens, if_true, found]

/-- What a byte that starts nothing becomes. -/
def shown (mode : Mode) (byte : UInt8) : UInt8 :=
  if mode = .attr ∧ isSpace byte then 32 else byte

theorem loop_plain (entities : Entities) (closed : opensEntity mode byte = false) (fuel : Nat) (buffer : Buffer) :
    decodeLoop entities mode (fuel + 1) buffer (byte :: rest) =
      (decodeLoop entities mode fuel buffer rest).map (shown mode byte :: ·) := by
  have none : ¬ (mode ≠ .cdata ∧ byte = ampersand ∧ rest.head? = some 35) := by
    rintro ⟨references, rfl, _⟩
    cases mode with
    | cdata => exact references rfl
    | text | attr => cases closed
  rw [decodeLoop, if_neg none]
  simp only [closed, Bool.false_eq_true, if_false, shown]
  split <;> rfl

theorem loop_unread (entities : Entities) (references : mode ≠ .cdata) (unread : reference text = none) (fuel : Nat)
    (buffer : Buffer) :
    decodeLoop entities mode (fuel + 1) buffer (38 :: 35 :: text) =
      (decodeLoop entities mode fuel buffer (35 :: text)).map (38 :: ·) := by
  have here : mode ≠ .cdata ∧ (38 : UInt8) = ampersand ∧ (35 :: text).head? = some 35 := ⟨references, rfl, rfl⟩
  rw [decodeLoop, if_pos here, List.drop_one, List.tail_cons, unread]

theorem loop_unknown (entities : Entities) (plain : rest.head? ≠ some 35) (missing : findEntity entities rest = none)
    (fuel : Nat) (buffer : Buffer) :
    decodeLoop entities mode (fuel + 1) buffer (38 :: rest) =
      (decodeLoop entities mode fuel buffer rest).map (38 :: ·) := by
  have none : ¬ (mode ≠ .cdata ∧ (38 : UInt8) = ampersand ∧ rest.head? = some 35) := fun both => plain both.2.2
  have notSpace : ¬ (mode = .attr ∧ isSpace 38 = true) := fun both => absurd both.2 (by decide)
  rw [decodeLoop, if_neg none]
  simp only [missing, if_neg notSpace, ite_self]

/-- No reference in the text has written a terminator. -/
def Buffer.Whole (buffer : Buffer) : Prop :=
  buffer ≠ .cutShort

/-- There is no room behind a terminator only. -/
theorem Buffer.expand_spec (buffer : Buffer) (replacement rest : Str) :
    (∃ after : Buffer, buffer.expand replacement rest = .ok after ∧ (buffer.Whole → after.Whole)) ∨
      buffer.expand replacement rest = .error .truncated ∧ ¬ buffer.Whole := by
  unfold Buffer.expand
  split
  · split
    · rename_i cut
      exact .inr ⟨rfl, fun whole => whole cut⟩
    · exact .inl ⟨.own, rfl, fun _ => Buffer.noConfusion⟩
  · exact .inl ⟨buffer, rfl, id⟩

theorem Buffer.expand_whole (whole : buffer.Whole) (replacement rest : Str) :
    ∃ after : Buffer, buffer.expand replacement rest = .ok after ∧ after.Whole := by
  rcases buffer.expand_spec replacement rest with ⟨after, expands, wholeAfter⟩ | ⟨_, cut⟩
  · exact ⟨after, expands, wholeAfter whole⟩
  · exact absurd whole cut

/-- What a reference writes that is not a terminator -/
theorem Buffer.write_whole {bytes : Str} (whole : buffer.Whole) (terminated : 0 ∉ bytes) :
    (buffer.write bytes).Whole := by
  rw [Buffer.write, if_neg fun both => terminated both.2]
  exact whole

/-- The loop comes to an end with the steps that `ezxmlDecode` gives it. -/
def Decodes (mode : Mode) (text out : Str) : Prop :=
  ∀ fuel (buffer : Buffer), 2 * text.length ≤ fuel → buffer.Whole →
    decodeLoop defaultEntities mode fuel buffer text = .ok out

theorem Decodes.nil (mode : Mode) : Decodes mode [] [] := by
  intro fuel buffer _ _
  cases fuel <;> rfl

theorem Decodes.reference {number : Int} {behind : Str} (references : mode ≠ .cdata)
    (read : reference text = some (number, behind)) (small : number < 0x20000000000) (terminated : 0 ∉ character number)
    (shorter : behind.length ≤ text.length) (decodes : Decodes mode behind out) :
    Decodes mode (38 :: 35 :: text) (character number ++ out) := by
  intro fuel buffer enough whole
  obtain ⟨fuel, rfl⟩ : ∃ more, fuel = more + 1 := ⟨fuel - 1, by simp only [List.length_cons] at enough; omega⟩
  simp only [List.length_cons] at enough
  rw [loop_reference defaultEntities references read, if_pos small,
    decodes fuel _ (by omega) (Buffer.write_whole whole terminated)]
  rfl

theorem Decodes.entity {name digits : Str} {number : Int} (opens : opensEntity mode ampersand = true)
    (plain : rest.head? ≠ some 35) (found : findEntity defaultEntities rest = some (name, 38 :: 35 :: digits))
    (read : ∀ behind, Xml.reference (digits ++ behind) = some (number, behind))
    (small : number < 0x20000000000) (terminated : 0 ∉ character number)
    (shorter : ((rest.dropWhile (· != semicolon)).drop 1).length ≤ rest.length)
    (decodes : Decodes mode ((rest.dropWhile (· != semicolon)).drop 1) out) :
    Decodes mode (38 :: rest) (character number ++ out) := by
  intro fuel buffer enough whole
  have references : mode ≠ .cdata := by
    rintro rfl
    cases opens
  obtain ⟨fuel, rfl⟩ : ∃ more, fuel = more + 2 := ⟨fuel - 2, by simp only [List.length_cons] at enough; omega⟩
  simp only [List.length_cons] at enough
  obtain ⟨after, expands, wholeAfter⟩ := Buffer.expand_whole whole (38 :: 35 :: digits) rest
  rw [loop_entity defaultEntities opens plain found, expands]
  simp only [List.cons_append]
  rw [loop_reference defaultEntities references (read _), if_pos small,
    decodes fuel _ (by omega) (Buffer.write_whole wholeAfter terminated)]
  rfl

theorem Decodes.plain (closed : opensEntity mode byte = false) (decodes : Decodes mode rest out) :
    Decodes mode (byte :: rest) (shown mode byte :: out) := by
  intro fuel buffer enough whole
  obtain ⟨fuel, rfl⟩ : ∃ more, fuel = more + 1 := ⟨fuel - 1, by simp only [List.length_cons] at enough; omega⟩
  simp only [List.length_cons] at enough
  rw [loop_plain defaultEntities closed, decodes fuel buffer (by omega) whole]
  rfl

/-! ## Decoding what was encoded -/

/-- Text is decoded as text, and attributes as attributes. -/
def modeOf (a : Bool) : Mode :=
  if a then .attr else .text

/-- The spaces that `ezxml_ampencode` does not encode come back as blanks in an attribute. -/
def kept (a : Bool) (byte : UInt8) : UInt8 :=
  if a ∧ (byte = 11 ∨ byte = 12) then 32 else byte

theorem modeOf_opens (a : Bool) : opensEntity (modeOf a) ampersand = true := by
  cases a <;> rfl

theorem modeOf_references (a : Bool) : modeOf a ≠ .cdata := by
  cases a <;> decide

theorem closed_of_ne (a : Bool) (other : byte ≠ ampersand) : opensEntity (modeOf a) byte = false := by
  cases a <;> exact beq_false_of_ne other

/-- The entities that `ezxml_ampencode` writes -/
inductive Written : UInt8 → Str → Prop where
  | amp : Written 38 [97, 109, 112, 59]
  | lt : Written 60 [108, 116, 59]
  | gt : Written 62 [103, 116, 59]
  | quot : Written 34 [113, 117, 111, 116, 59]

theorem decodes_entity (a : Bool) {name : Str} (written : Written byte name) (decodes : Decodes (modeOf a) rest out) :
    Decodes (modeOf a) (38 :: name ++ rest) (byte :: out) := by
  have opens := modeOf_opens a
  cases written with
  | amp =>
      refine @Decodes.entity _ (97 :: 109 :: 112 :: 59 :: rest) out _ [51, 56, 59] 38 opens (by simp) rfl
        (fun _ => rfl) (by decide)
        (by decide) ?_ decodes
      exact Nat.le_add_right rest.length 4
  | lt =>
      refine @Decodes.entity _ (108 :: 116 :: 59 :: rest) out _ [54, 48, 59] 60 opens (by simp) rfl
        (fun _ => rfl) (by decide)
        (by decide) ?_ decodes
      exact Nat.le_add_right rest.length 3
  | gt =>
      refine @Decodes.entity _ (103 :: 116 :: 59 :: rest) out _ [54, 50, 59] 62 opens (by simp) rfl
        (fun _ => rfl) (by decide)
        (by decide) ?_ decodes
      exact Nat.le_add_right rest.length 3
  | quot =>
      refine @Decodes.entity _ (113 :: 117 :: 111 :: 116 :: 59 :: rest) out _ [51, 52, 59] 34 opens (by simp) rfl
        (fun _ => rfl) (by decide) (by decide) ?_ decodes
      exact Nat.le_add_right rest.length 5

theorem decodes_byte (a : Bool) (other : byte ≠ ampersand) (same : shown (modeOf a) byte = kept a byte)
    (decodes : Decodes (modeOf a) rest out) : Decodes (modeOf a) (byte :: rest) (kept a byte :: out) := by
  rw [← same]
  exact decodes.plain (closed_of_ne a other)

theorem decodes_number (a : Bool) {digits : Str} {number : Int}
    (read : ∀ behind, Xml.reference (digits ++ behind) = some (number, behind)) (written : character number = [byte])
    (small : number < 0x20000000000) (other : byte ≠ 0) (decodes : Decodes (modeOf a) rest out) :
    Decodes (modeOf a) (38 :: 35 :: digits ++ rest) (byte :: out) := by
  have terminated : 0 ∉ character number := by
    rw [written, List.mem_singleton]
    exact other.symm
  have decoded := decodes.reference (modeOf_references a) (read rest) small terminated
    (by rw [List.length_append]; omega)
  rw [written] at decoded
  exact decoded

theorem kept_of_ne (a : Bool) (notTab : byte ≠ 11) (notFeed : byte ≠ 12) : kept a byte = byte := by
  refine if_neg fun both => ?_
  exact both.2.elim notTab notFeed

/-- Only the vertical tab and the form feed are lost. -/
theorem shown_eq (a : Bool) (coded : a = true → byte ≠ 9 ∧ byte ≠ 10 ∧ byte ≠ 13) :
    shown (modeOf a) byte = kept a byte := by
  cases a with
  | false =>
      simp only [shown, kept, modeOf, Bool.false_eq_true, if_false, false_and]
      exact if_neg fun both => nomatch both.1
  | true =>
      obtain ⟨notTab, notLine, notReturn⟩ := coded rfl
      simp only [shown, kept, modeOf, if_true, true_and, isSpace, Bool.or_eq_true, beq_iff_eq, Bool.and_eq_true,
        decide_eq_true_eq]
      by_cases blank : byte = 32
      · subst blank
        rfl
      · have range : 9 ≤ byte.toNat ∧ byte.toNat ≤ 13 ↔ byte = 11 ∨ byte = 12 := by
          rw [Ne, ← UInt8.toNat_inj] at notTab notLine notReturn
          rw [← UInt8.toNat_inj, ← UInt8.toNat_inj]
          have numbers : (9 : UInt8).toNat = 9 ∧ (10 : UInt8).toNat = 10 ∧ (11 : UInt8).toNat = 11 ∧
            (12 : UInt8).toNat = 12 ∧ (13 : UInt8).toNat = 13 := by decide
          omega
        simp only [blank, false_or, range]

theorem decodes_encodeByte (a : Bool) (byte : UInt8) (decodes : Decodes (modeOf a) rest out) :
    Decodes (modeOf a) (encodeByte a byte ++ rest) (kept a byte :: out) := by
  have written {name : Str} (written : Written byte name) (same : kept a byte = byte) :
      Decodes (modeOf a) (38 :: name ++ rest) (kept a byte :: out) := by
    rw [same]
    exact decodes_entity a written decodes
  unfold encodeByte
  split
  · rename_i same
    subst same
    exact written .amp (kept_of_ne a (by decide) (by decide))
  split
  · rename_i same
    subst same
    exact written .lt (kept_of_ne a (by decide) (by decide))
  split
  · rename_i same
    subst same
    exact written .gt (kept_of_ne a (by decide) (by decide))
  rename_i notAmp _ _
  split
  · rename_i same
    subst same
    cases a with
    | true => exact written .quot (kept_of_ne true (by decide) (by decide))
    | false => exact decodes_byte false (by decide) (by decide) decodes
  split
  · rename_i same
    subst same
    cases a with
    | true => exact @decodes_number rest out 10 true [120, 65, 59] 10 (fun _ => rfl) rfl (by decide) (by decide) decodes
    | false => exact decodes_byte false (by decide) (by decide) decodes
  split
  · rename_i same
    subst same
    cases a with
    | true => exact @decodes_number rest out 9 true [120, 57, 59] 9 (fun _ => rfl) rfl (by decide) (by decide) decodes
    | false => exact decodes_byte false (by decide) (by decide) decodes
  split
  · rename_i same
    subst same
    rw [kept_of_ne a (by decide) (by decide)]
    exact @decodes_number rest out 13 a [120, 68, 59] 13 (fun _ => rfl) rfl (by decide) (by decide) decodes
  rename_i notLine notTab notReturn
  exact decodes_byte a notAmp (shown_eq a fun _ => ⟨notTab, notLine, notReturn⟩) decodes

theorem decodes_ampencode (a : Bool) (text : Str) :
    Decodes (modeOf a) (ezxmlAmpencode a text) (text.map (kept a)) := by
  induction text with
  | nil => exact .nil _
  | cons byte rest ih => exact decodes_encodeByte a byte ih

theorem normalize_eq (shortened : Bool) (text : Str) (plain : 13 ∉ text) : normalize shortened text = .ok text := by
  induction text with
  | nil => rfl
  | cons byte rest ih =>
      rw [List.mem_cons, not_or] at plain
      rw [normalize, ih plain.2]
      · rfl
      · rintro _ rfl
        exact absurd rfl plain.1
      · rintro rfl
        exact absurd rfl plain.1
      · rintro rfl
        exact absurd rfl plain.1

def Safe (byte : UInt8) : Prop :=
  byte ≠ 0 ∧ byte ≠ 13 ∧ byte ≠ 34 ∧ byte ≠ 60

/-- A byte is left alone or becomes a reference. -/
theorem encodeByte_cases (a : Bool) (byte : UInt8) :
    (encodeByte a byte = [byte] ∧ byte ≠ 13 ∧ byte ≠ 60 ∧ (a = true → byte ≠ 34)) ∨
      ∀ written ∈ encodeByte a byte, Safe written := by
  unfold encodeByte
  split
  · exact .inr (by simp [Safe])
  split
  · exact .inr (by simp [Safe])
  rename_i notLess
  split
  · exact .inr (by simp [Safe])
  split
  · rename_i same
    cases a with
    | true => exact .inr (by simp [Safe])
    | false => exact .inl ⟨by rw [same]; rfl, by rw [same]; decide, notLess, nofun⟩
  rename_i notQuote
  split
  · rename_i same
    subst same
    cases a <;> exact .inr (by simp [Safe])
  split
  · rename_i same
    subst same
    cases a <;> exact .inr (by simp [Safe])
  split
  · exact .inr (by simp [Safe])
  rename_i notReturn
  exact .inl ⟨rfl, notReturn, notLess, fun _ => notQuote⟩

/-- What `ezxml_ampencode` writes has no markup, and an attribute has no quotes. -/
theorem ampencode_free {a : Bool} {text : Str} {byte : UInt8} (member : byte ∈ ezxmlAmpencode a text) :
    byte ≠ 13 ∧ byte ≠ 60 ∧ (a = true → byte ≠ 34) ∧ (byte = 0 → 0 ∈ text) := by
  obtain ⟨source, inside, written⟩ := List.mem_flatMap.mp member
  rcases encodeByte_cases a source with ⟨alone, notReturn, notLess, notQuote⟩ | safe
  · rw [alone, List.mem_singleton] at written
    subst written
    exact ⟨notReturn, notLess, notQuote, fun zero => zero ▸ inside⟩
  · obtain ⟨notZero, notReturn, notQuote, notLess⟩ := safe byte written
    exact ⟨notReturn, notLess, fun _ => notQuote, fun zero => absurd zero notZero⟩

theorem cut_eq (text : Str) (terminated : 0 ∉ text) : cut text = text := by
  refine List.takeWhile_eq_self_iff.mpr fun byte member => ?_
  rw [bne_iff_ne]
  rintro rfl
  exact terminated member

theorem cut_terminated (text : Str) : 0 ∉ cut text := by
  intro member
  have passed := List.mem_takeWhile_imp member
  exact absurd passed (by decide)

theorem kept_ne_zero {a : Bool} {byte : UInt8} (other : byte ≠ 0) : kept a byte ≠ 0 := by
  unfold kept
  split
  · decide
  · exact other

theorem decode_of_decodes {mode : Mode} {text out : Str} (plain : 13 ∉ text) (decodes : Decodes mode text out) :
    ezxmlDecode mode text = .ok (cut out) := by
  rw [ezxmlDecode, normalize_eq false text plain]
  simp only [bind, Except.bind, decodes _ .given (Nat.le_refl _) Buffer.noConfusion]
  rfl

theorem decode_encoded (a : Bool) (text : Str) (terminated : 0 ∉ text) :
    ezxmlDecode (modeOf a) (ezxmlAmpencode a text) = .ok (text.map (kept a)) := by
  have plain : 13 ∉ ezxmlAmpencode a text := fun member => (ampencode_free member).1 rfl
  rw [decode_of_decodes plain (decodes_ampencode a text), cut_eq]
  intro member
  obtain ⟨byte, inside, zero⟩ := List.mem_map.mp member
  exact kept_ne_zero (fun same => terminated (same ▸ inside)) zero

theorem map_kept_iff (a : Bool) (text : Str) :
    text.map (kept a) = text ↔ a = false ∨ 11 ∉ text ∧ 12 ∉ text := by
  have unchanged : text.map (kept a) = text ↔ ∀ byte ∈ text, kept a byte = byte := by
    rw [← List.map_inj_left, List.map_id']
  have lost (byte : UInt8) : kept a byte = byte ↔ a = false ∨ byte ≠ 11 ∧ byte ≠ 12 := by
    constructor
    · intro same
      cases a with
      | false => exact .inl rfl
      | true =>
          refine .inr ⟨?_, ?_⟩
          · rintro rfl
            exact absurd same (by decide)
          · rintro rfl
            exact absurd same (by decide)
    · rintro (rfl | ⟨notTab, notFeed⟩)
      · exact if_neg fun both => nomatch both.1
      · exact kept_of_ne a notTab notFeed
  rw [unchanged]
  simp only [lost]
  cases a with
  | false => exact iff_of_true (fun _ _ => .inl rfl) (.inl rfl)
  | true =>
      constructor
      · intro all
        exact .inr ⟨fun tab => ((all 11 tab).resolve_left (by decide)).1 rfl,
          fun feed => ((all 12 feed).resolve_left (by decide)).2 rfl⟩
      · rintro (impossible | ⟨noTab, noFeed⟩) byte member
        · cases impossible
        · exact .inr ⟨fun same => noTab (same ▸ member), fun same => noFeed (same ▸ member)⟩

/-! ## Every string is decoded, or the code leaves it -/

/-- The last byte is a carriage return, and none has a line feed behind it. -/
def Overruns (text : Str) : Prop :=
  text.getLast? = some 13 ∧ ¬ [13, 10] <:+: text

theorem overruns_cons_iff (closed : ∀ more, byte = 13 → rest = 10 :: more → False)
    (last : byte = 13 → rest = [] → False) : Overruns (byte :: rest) ↔ Overruns rest := by
  have start : ¬ [13, 10] <+: byte :: rest := by
    rintro ⟨more, same⟩
    obtain ⟨rfl, rfl⟩ := List.cons.inj same
    exact closed more rfl rfl
  cases rest with
  | nil => simp [Overruns, show byte ≠ 13 from fun same => last same rfl]
  | cons next rest => rw [Overruns, Overruns, List.getLast?_cons_cons, List.infix_cons_iff, or_iff_right start]

/-- The loop over line endings fails on such a text alone, and only as long as no
line feed was taken out. -/
def Normalizes (shortened : Bool) (text : Str) : Prop :=
  (normalize shortened text = .error .overrun ∧ shortened = false ∧ Overruns text) ∨
    ∃ lines, normalize shortened text = .ok lines ∧ (shortened = true ∨ ¬ Overruns text)

theorem Normalizes.cons {shortened : Bool} {line : UInt8} (normal : Normalizes shortened rest)
    (step : normalize shortened (byte :: rest) = (normalize shortened rest).map (line :: ·))
    (same : Overruns (byte :: rest) ↔ Overruns rest) : Normalizes shortened (byte :: rest) := by
  rw [Normalizes, step, same]
  rcases normal with ⟨fails, first, overruns⟩ | ⟨lines, ok, harmless⟩
  · exact .inl ⟨by rw [fails]; rfl, first, overruns⟩
  · exact .inr ⟨line :: lines, by rw [ok]; rfl, harmless⟩

theorem normalize_spec (shortened : Bool) (text : Str) : Normalizes shortened text := by
  induction shortened, text using normalize.induct with
  | case1 shortened rest ih =>
      rcases ih with ⟨_, impossible, _⟩ | ⟨lines, ok, _⟩
      · cases impossible
      · refine .inr ⟨10 :: lines, ?_, .inr ?_⟩
        · rw [normalize, ok]
          rfl
        · exact fun overruns => overruns.2 (List.prefix_append [13, 10] rest).isInfix
  | case2 => exact .inr ⟨[10], rfl, .inl rfl⟩
  | case3 shortened first =>
      refine .inl ⟨?_, Bool.eq_false_iff.mpr first, rfl, by decide⟩
      rw [normalize, if_neg first]
  | case4 shortened rest noFeed nonempty ih =>
      refine ih.cons (normalize.eq_3 shortened rest noFeed nonempty) (overruns_cons_iff ?_ ?_)
      · exact fun more _ same => noFeed more same
      · exact fun _ empty => nonempty empty
  | case5 shortened byte rest noPair notLast notReturn ih =>
      exact ih.cons (normalize.eq_4 shortened byte rest noPair notLast notReturn) (overruns_cons_iff noPair notLast)
  | case6 shortened => exact .inr ⟨[], rfl, .inr fun overruns => by cases overruns.1⟩

/-! ### Numbers -/

/-- The bytes of a reference have a terminator among them. -/
def Terminates (number : Int) : Prop :=
  number < 0 ∧ 256 ∣ number

theorem ofNat_ne_zero {number : Nat} (bit : number.testBit 7 = true) : UInt8.ofNat number ≠ 0 := by
  intro zero
  have low : number % 256 = 0 := by simpa using congrArg UInt8.toNat zero
  have tested := Nat.testBit_mod_two_pow number 8 7
  rw [show 2 ^ 8 = 256 from rfl, low, bit] at tested
  cases tested

theorem payload_terminated (number count : Nat) : 0 ∉ payload number count := by
  induction count with
  | zero => exact List.not_mem_nil
  | succ count ih =>
      rw [payload, List.mem_cons, not_or]
      refine ⟨(ofNat_ne_zero ?_).symm, ih⟩
      rw [Nat.testBit_or]
      rfl

/-- Only a byte that is cut out of a negative number can be a terminator. -/
theorem terminates_of_character {number : Int} (nonzero : number ≠ 0) (terminator : 0 ∈ character number) :
    Terminates number := by
  unfold character at terminator
  split at terminator
  · rename_i small
    have zero := congrArg UInt8.toNat (List.mem_singleton.mp terminator)
    have low : (number % 2 ^ 8).toNat < 256 := by omega
    rw [UInt8.ofInt, UInt8.toNat_ofNat_of_lt' low, UInt8.toNat_zero] at zero
    have divides : (256 : Int) ∣ number := by omega
    exact ⟨by omega, divides⟩
  · rw [List.mem_cons] at terminator
    rcases terminator with head | inside
    · refine absurd head.symm (ofNat_ne_zero ?_)
      have bits : ∀ bit < 8, Nat.testBit 255 bit = true := by decide
      rw [Nat.testBit_or, Nat.testBit_shiftLeft, bits _ (by omega), Bool.and_true, decide_eq_true (by omega)]
      rfl
    · exact absurd inside (payload_terminated _ _)

/-- A number in the text that `ezxml_decode` takes for a character -/
def Refers (text : Str) (kind : Int → Prop) : Prop :=
  ∃ rest number behind, 38 :: 35 :: rest <:+ text ∧ reference rest = some (number, behind) ∧ kind number

theorem Refers.behind {kind : Int → Prop} (refers : Refers rest kind) (behind : rest <:+ text) : Refers text kind := by
  obtain ⟨digits, number, last, inside, read, holds⟩ := refers
  exact ⟨digits, number, last, inside.trans behind, read, holds⟩

theorem numberOf_suffix (text : Str) : (numberOf text).2 <:+ text := by
  unfold numberOf
  split
  · exact (strtol_suffix 16 _).trans (List.suffix_cons _ _)
  · exact strtol_suffix 10 text

theorem reference_suffix {number : Int} {behind : Str} (read : reference text = some (number, behind)) :
    59 :: behind <:+ text ∧ number ≠ 0 := by
  have suffix := numberOf_suffix text
  unfold reference at read
  split at read
  · rename_i ends
    split at read
    · cases read
    · rename_i nonzero
      cases read
      exact ⟨ends ▸ suffix, nonzero⟩
  · cases read

/-- How the loop ends on a text -/
inductive Outcome (text : Str) (buffer : Buffer) : Except Fault Str → Prop where
  | decoded (out : Str) : Outcome text buffer (.ok out)
  | shift (cause : Refers text (0x20000000000 ≤ ·)) : Outcome text buffer (.error .shift)
  | truncated (cause : buffer.Whole → Refers text Terminates) : Outcome text buffer (.error .truncated)

theorem Outcome.behind {before : Buffer} {result : Except Fault Str} (outcome : Outcome rest buffer result)
    (suffix : rest <:+ text) (written : before.Whole → ¬ buffer.Whole → Refers text Terminates) (f : Str → Str) :
    Outcome text before (result.map f) := by
  cases outcome with
  | decoded out => exact .decoded (f out)
  | shift cause => exact .shift (cause.behind suffix)
  | truncated cause =>
      refine .truncated fun whole => ?_
      by_cases still : buffer.Whole
      · exact (cause still).behind suffix
      · exact written whole still

/-- What is behind a byte that is passed over -/
theorem Outcome.cons {result : Except Fault Str} (outcome : Outcome rest buffer result) (byte : UInt8) (f : Str → Str) :
    Outcome (byte :: rest) buffer (result.map f) :=
  outcome.behind (List.suffix_cons _ _) (fun whole cut => absurd whole cut) f

theorem defaultEntities_reference {name replacement : Str}
    (found : findEntity defaultEntities rest = some (name, replacement)) :
    ∃ digits number, replacement = 38 :: 35 :: digits ∧ number < 128 ∧ 0 ∉ character number ∧
      ∀ behind, reference (digits ++ behind) = some (number, behind) := by
  have member := List.mem_of_find?_eq_some found
  simp only [defaultEntities, List.mem_cons, List.not_mem_nil, or_false, Prod.mk.injEq] at member
  rcases member with ⟨_, rfl⟩ | ⟨_, rfl⟩ | ⟨_, rfl⟩ | ⟨_, rfl⟩ | ⟨_, rfl⟩
  · exact ⟨[54, 48, 59], 60, rfl, by decide, by decide, fun _ => rfl⟩
  · exact ⟨[54, 50, 59], 62, rfl, by decide, by decide, fun _ => rfl⟩
  · exact ⟨[51, 52, 59], 34, rfl, by decide, by decide, fun _ => rfl⟩
  · exact ⟨[51, 57, 59], 39, rfl, by decide, by decide, fun _ => rfl⟩
  · exact ⟨[51, 56, 59], 38, rfl, by decide, by decide, fun _ => rfl⟩

/-- The steps that are enough for what is behind the first byte -/
def Ends (mode : Mode) (text : Str) : Prop :=
  ∀ fuel buffer, 2 * text.length ≤ fuel → Outcome text buffer (decodeLoop defaultEntities mode fuel buffer text)

theorem ends_reference {number : Int} {behind : Str} (references : mode ≠ .cdata)
    (read : reference text = some (number, behind)) (ends : Ends mode behind) : Ends mode (38 :: 35 :: text) := by
  intro fuel buffer enough
  obtain ⟨last, nonzero⟩ := reference_suffix read
  have suffix : behind <:+ 38 :: 35 :: text :=
    ((List.suffix_cons _ _).trans last).trans ((List.suffix_cons _ _).trans (List.suffix_cons _ _))
  have shorter := last.length_le
  obtain ⟨fuel, rfl⟩ : ∃ more, fuel = more + 1 := ⟨fuel - 1, by simp only [List.length_cons] at enough; omega⟩
  simp only [List.length_cons] at enough shorter
  have here {kind : Int → Prop} (holds : kind number) : Refers (38 :: 35 :: text) kind :=
    ⟨text, number, behind, List.suffix_refl _, read, holds⟩
  rw [loop_reference defaultEntities references read]
  split
  · refine (ends fuel _ (by omega)).behind suffix ?_ _
    intro whole cut
    refine here (terminates_of_character nonzero ?_)
    by_contra terminated
    exact cut (Buffer.write_whole whole terminated)
  · exact .shift (here (by omega))

/-- A replacement is a reference, which the next step reads. -/
theorem ends_entity {name replacement : Str} (opens : opensEntity mode ampersand = true) (plain : rest.head? ≠ some 35)
    (found : findEntity defaultEntities rest = some (name, replacement))
    (ends : Ends mode ((rest.dropWhile (· != semicolon)).drop 1)) : Ends mode (38 :: rest) := by
  intro fuel buffer enough
  obtain ⟨digits, number, rfl, small, terminated, read⟩ := defaultEntities_reference found
  have references : mode ≠ .cdata := by
    rintro rfl
    cases opens
  have suffix : (rest.dropWhile (· != semicolon)).drop 1 <:+ rest :=
    (List.drop_suffix _ _).trans (List.dropWhile_suffix _)
  have shorter := suffix.length_le
  obtain ⟨fuel, rfl⟩ : ∃ more, fuel = more + 2 := ⟨fuel - 2, by simp only [List.length_cons] at enough; omega⟩
  simp only [List.length_cons] at enough
  rw [loop_entity defaultEntities opens plain found]
  rcases buffer.expand_spec (38 :: 35 :: digits) rest with ⟨after, expands, wholeAfter⟩ | ⟨expands, cut⟩
  · rw [expands]
    simp only [List.cons_append]
    rw [loop_reference defaultEntities references (read _), if_pos (by omega)]
    refine (ends fuel _ (by omega)).behind (suffix.trans (List.suffix_cons _ _)) ?_ _
    exact fun whole cut => absurd (Buffer.write_whole (wholeAfter whole) terminated) cut
  · rw [expands]
    exact .truncated fun whole => absurd whole cut

/-- Text of which a shorter part is decoded, whichever way it starts -/
theorem ends_step (mode : Mode) (byte : UInt8) (rest : Str)
    (shorter : ∀ text : Str, text.length ≤ rest.length → Ends mode text) : Ends mode (byte :: rest) := by
  have passed (f : Str → Str) (same : ∀ fuel buffer, decodeLoop defaultEntities mode (fuel + 1) buffer (byte :: rest) =
      (decodeLoop defaultEntities mode fuel buffer rest).map f) : Ends mode (byte :: rest) := by
    intro fuel buffer enough
    obtain ⟨fuel, rfl⟩ : ∃ more, fuel = more + 1 := ⟨fuel - 1, by simp only [List.length_cons] at enough; omega⟩
    simp only [List.length_cons] at enough
    rw [same]
    exact (shorter rest (Nat.le_refl _) fuel buffer (by omega)).cons byte f
  by_cases opens : opensEntity mode byte = true
  · have references : mode ≠ .cdata := by
      rintro rfl
      cases opens
    have same : byte = ampersand := by cases mode <;> simp_all [opensEntity]
    subst same
    by_cases number : rest.head? = some 35
    · obtain ⟨text, rfl⟩ : ∃ text, rest = 35 :: text := by
        cases rest with
        | nil => cases number
        | cons first text => exact ⟨text, by rw [Option.some.inj number]⟩
      cases read : reference text with
      | none => exact passed _ (loop_unread defaultEntities references read)
      | some result =>
          have length := (reference_suffix read).1.length_le
          refine ends_reference references read (shorter result.2 ?_)
          simp only [List.length_cons] at length ⊢
          omega
    · cases found : findEntity defaultEntities rest with
      | none => exact passed _ (loop_unknown defaultEntities number found)
      | some entity =>
          have suffix : (rest.dropWhile (· != semicolon)).drop 1 <:+ rest :=
            (List.drop_suffix _ _).trans (List.dropWhile_suffix _)
          exact ends_entity opens number found (shorter _ suffix.length_le)
  · exact passed _ (loop_plain defaultEntities (Bool.eq_false_iff.mpr opens))

theorem loop_ends (mode : Mode) (text : Str) : Ends mode text := by
  induction hl : text.length using Nat.strong_induction_on generalizing text with
  | _ length ih =>
      cases text with
      | nil =>
          intro fuel buffer _
          cases fuel <;> exact .decoded []
      | cons byte rest =>
          apply ends_step
          intro text shorter
          exact ih text.length (by rw [← hl, List.length_cons]; omega) text rfl

/-- How the decoding of a string ends, with the reason for which it goes wrong -/
inductive Ending (mode : Mode) (source : Str) : Except Fault Str → Prop where
  | decoded (out : Str) (terminated : 0 ∉ out) : Ending mode source (.ok out)
  | overrun (cause : Overruns source) : Ending mode source (.error .overrun)
  | shift (lines : Str) (normal : normalize false source = .ok lines) (cause : Refers lines (0x20000000000 ≤ ·)) :
      Ending mode source (.error .shift)
  | truncated (lines : Str) (normal : normalize false source = .ok lines) (cause : Refers lines Terminates) :
      Ending mode source (.error .truncated)

theorem ezxmlDecode_ends (mode : Mode) (source : Str) : Ending mode source (ezxmlDecode mode source) := by
  rcases normalize_spec false source with ⟨fails, _, overruns⟩ | ⟨lines, normal, _⟩
  · rw [ezxmlDecode, fails]
    exact .overrun overruns
  · have outcome := loop_ends mode lines (2 * lines.length) .given (Nat.le_refl _)
    rw [ezxmlDecode, normal]
    simp only [bind, Except.bind]
    generalize decodeLoop defaultEntities mode (2 * lines.length) .given lines = result at outcome
    cases outcome with
    | decoded out => exact .decoded _ (cut_terminated out)
    | shift cause => exact .shift lines normal cause
    | truncated cause => exact .truncated lines normal (cause Buffer.noConfusion)

theorem ezxmlDecode_overruns (mode : Mode) (source : Str) :
    ezxmlDecode mode source = .error .overrun ↔ Overruns source := by
  constructor
  · intro fails
    have ending := ezxmlDecode_ends mode source
    rw [fails] at ending
    cases ending with
    | overrun cause => exact cause
  · intro overruns
    rcases normalize_spec false source with ⟨fails, _, _⟩ | ⟨_, _, impossible | harmless⟩
    · rw [ezxmlDecode, fails]
      rfl
    · cases impossible
    · exact absurd overruns harmless

/-- Decoding undoes encoding, of text always and of an attribute exactly if it has
no vertical tab and no form feed; what is encoded has no markup in it; and every
string is decoded unless the code leaves it for one of three reasons. -/
theorem entities_round_trip (a : Bool) (text : Str) (terminated : 0 ∉ text) :
    (ezxmlDecode (modeOf a) (ezxmlAmpencode a text) = .ok text ↔ a = false ∨ 11 ∉ text ∧ 12 ∉ text) ∧
      (60 ∉ ezxmlAmpencode a text ∧ (a = true → 34 ∉ ezxmlAmpencode a text)) ∧
      ∀ mode source, Ending mode source (ezxmlDecode mode source) ∧
        (ezxmlDecode mode source = .error .overrun ↔ Overruns source) := by
  refine ⟨?_, ⟨?_, ?_⟩, ?_⟩
  · rw [decode_encoded a text terminated, Except.ok.injEq]
    exact map_kept_iff a text
  · exact fun member => (ampencode_free member).2.1 rfl
  · exact fun quoted member => (ampencode_free member).2.2.1 quoted rfl
  · exact fun mode source => ⟨ezxmlDecode_ends mode source, ezxmlDecode_overruns mode source⟩

/-- `a<b&"c"` as an attribute -/
theorem entities_round_trip_attribute :
    0 ∉ ([97, 60, 98, 38, 34, 99, 34] : Str) ∧
      ezxmlDecode .attr (ezxmlAmpencode true [97, 60, 98, 38, 34, 99, 34]) = .ok [97, 60, 98, 38, 34, 99, 34] :=
  ⟨by decide, (entities_round_trip true [97, 60, 98, 38, 34, 99, 34] (by decide)).1.mpr (.inr (by decide))⟩

end Pisces.Xml
