import Mathlib.Data.Nat.Digits.Lemmas

/-! # Numbers and lines as C text

Printing and reading of numbers the way `printf`, `atoi` and `strtol` do it, and
reading a file by lines.
-/

namespace Text

def newline : UInt8 := 10

/-- The digits of `%d` and `%x` -/
def digitByte (digit : Nat) : UInt8 :=
  if digit < 10 then .ofNat (48 + digit) else .ofNat (87 + digit)

def digitValue (byte : UInt8) : Option Nat :=
  if 48 ≤ byte.toNat ∧ byte.toNat ≤ 57 then some (byte.toNat - 48)
  else if 97 ≤ byte.toNat ∧ byte.toNat ≤ 102 then some (byte.toNat - 87)
  else if 65 ≤ byte.toNat ∧ byte.toNat ≤ 70 then some (byte.toNat - 55)
  else none

def isDigit (base : Nat) (byte : UInt8) : Bool := (digitValue byte).any (· < base)

/-- What a string of digits stands for -/
def value (base : Nat) (text : List UInt8) : Nat :=
  text.foldl (fun number byte => number * base + (digitValue byte).getD 0) 0

def decimal (number : Nat) : List UInt8 :=
  if number = 0 then [digitByte 0] else ((Nat.digits 10 number).reverse).map digitByte

/-- `%d` -/
def printInt (number : Int) : List UInt8 :=
  if number < 0 then 45 :: decimal number.natAbs else decimal number.natAbs

/-- Hexadecimal digits in a field of fixed width -/
def fixedHex : Nat → Nat → List UInt8
  | 0, _ => []
  | width + 1, number => fixedHex width (number / 16) ++ [digitByte (number % 16)]

def isSpace (byte : UInt8) : Bool := byte == 32 || (9 ≤ byte.toNat && byte.toNat ≤ 13)

/-- `strtol` takes `0x` before hexadecimal digits. -/
def skipPrefix (base : Nat) : List UInt8 → List UInt8
  | 48 :: x :: digit :: rest =>
      if base = 16 ∧ (x = 120 ∨ x = 88) ∧ isDigit 16 digit then digit :: rest else 48 :: x :: digit :: rest
  | body => body

/-- A number stops at the bounds of a `long`. -/
def strtolDigits (base : Nat) (text : List UInt8) (sign : Int) (body : List UInt8) : Int × List UInt8 :=
  if body.takeWhile (isDigit base) = [] then (0, text)
  else (max (-9223372036854775808) (min 9223372036854775807 (sign * value base (body.takeWhile (isDigit base)))),
    body.dropWhile (isDigit base))

/-- `strtol` with a base of ten or sixteen: the number and where it ends -/
def strtol (base : Nat) (text : List UInt8) : Int × List UInt8 :=
  match text.dropWhile isSpace with
  | 45 :: body => strtolDigits base text (-1) (skipPrefix base body)
  | 43 :: body => strtolDigits base text 1 (skipPrefix base body)
  | body => strtolDigits base text 1 (skipPrefix base body)

/-- `atoi` casts what `strtol` returns to `int`. -/
def atoi (text : List UInt8) : Int :=
  (strtol 10 text).1.bmod 0x100000000

def slash : UInt8 := 47

/-- The part of a path behind its last slash -/
def afterSlash (path : List UInt8) : List UInt8 := (path.reverse.takeWhile (· != slash)).reverse

/-- `fgets`: at most so many bytes, to the end of the line -/
def fgets : Nat → List UInt8 → List UInt8 × List UInt8
  | 0, file => ([], file)
  | _ + 1, [] => ([], [])
  | count + 1, byte :: file =>
      if byte = newline then ([byte], file)
      else (byte :: (fgets count file).1, (fgets count file).2)

section Digits

theorem digitValue_digitByte {digit : Nat} (small : digit < 16) : digitValue (digitByte digit) = some digit := by
  have all : ∀ digit < 16, digitValue (digitByte digit) = some digit := by decide
  exact all digit small

theorem isDigit_digitByte {digit base : Nat} (small : digit < base) (hex : base ≤ 16) :
    isDigit base (digitByte digit) = true := by
  simp [isDigit, digitValue_digitByte (Nat.lt_of_lt_of_le small hex), small]

theorem value_append_digit (base : Nat) (text : List UInt8) {digit : Nat} (small : digit < 16) :
    value base (text ++ [digitByte digit]) = value base text * base + digit := by
  simp [value, digitValue_digitByte small]

theorem value_digits {base : Nat} (hex : base ≤ 16) {digits : List Nat} (small : ∀ digit ∈ digits, digit < base) :
    value base (digits.reverse.map digitByte) = Nat.ofDigits base digits := by
  induction digits with
  | nil => rfl
  | cons digit rest ih =>
      have first : digit < 16 := Nat.lt_of_lt_of_le (small digit (List.mem_cons_self ..)) hex
      have others := ih fun other member => small other (List.mem_cons_of_mem _ member)
      rw [List.reverse_cons, List.map_append, List.map_singleton, value_append_digit base _ first, others,
        Nat.ofDigits_cons, Nat.add_comm, Nat.mul_comm]

theorem value_decimal (number : Nat) : value 10 (decimal number) = number := by
  rw [decimal]
  split
  · rename_i zero
    rw [zero]
    decide
  · rw [value_digits (by decide) fun digit member => Nat.digits_lt_base (by decide) member, Nat.ofDigits_digits]

theorem isDigit_decimal {number : Nat} : ∀ byte ∈ decimal number, isDigit 10 byte = true := by
  intro byte member
  rw [decimal] at member
  split at member
  · rw [List.mem_singleton.mp member]
    decide
  · obtain ⟨digit, listed, rfl⟩ := List.mem_map.mp member
    exact isDigit_digitByte (Nat.digits_lt_base (by decide) (List.mem_reverse.mp listed)) (by decide)

theorem decimal_ne_nil (number : Nat) : decimal number ≠ [] := by
  rw [decimal]
  split
  · simp
  · rename_i positive
    simpa [Nat.digits_eq_nil_iff_eq_zero] using positive

theorem decimal_length {number width : Nat} (small : number < 10 ^ (width + 1)) :
    (decimal number).length ≤ width + 1 := by
  rw [decimal]
  split
  · simp
  · simpa using (Nat.digits_length_le_iff (by decide) number).mpr small

theorem value_fixedHex {width number : Nat} (small : number < 16 ^ width) :
    value 16 (fixedHex width number) = number := by
  induction width generalizing number with
  | zero =>
      rw [Nat.pow_zero, Nat.lt_one_iff] at small
      rw [small]
      rfl
  | succ width ih =>
      have upper : number / 16 < 16 ^ width := by
        rw [Nat.pow_succ] at small
        exact Nat.div_lt_of_lt_mul (by rwa [Nat.mul_comm] at small)
      rw [fixedHex, value_append_digit 16 _ (Nat.mod_lt _ (by decide)), ih upper]
      omega

theorem isDigit_fixedHex {width number : Nat} : ∀ byte ∈ fixedHex width number, isDigit 16 byte = true := by
  induction width generalizing number with
  | zero => exact fun _ member => absurd member List.not_mem_nil
  | succ width ih =>
      intro byte member
      rw [fixedHex, List.mem_append, List.mem_singleton] at member
      rcases member with upper | rfl
      · exact ih byte upper
      · exact isDigit_digitByte (Nat.mod_lt _ (by decide)) (by decide)

@[simp] theorem fixedHex_length (width number : Nat) : (fixedHex width number).length = width := by
  induction width generalizing number with
  | zero => rfl
  | succ width ih => rw [fixedHex, List.length_append, ih, List.length_singleton]

end Digits

section Paths

@[simp] theorem afterSlash_nil : afterSlash [] = [] :=
  rfl

@[simp] theorem afterSlash_slash (path : List UInt8) : afterSlash (path ++ [slash]) = [] := by
  simp [afterSlash]

theorem afterSlash_append (path : List UInt8) {byte : UInt8} (other : byte ≠ slash) :
    afterSlash (path ++ [byte]) = afterSlash path ++ [byte] := by
  simp [afterSlash, other]

end Paths

section Spans

variable {passes : UInt8 → Bool} {front rest : List UInt8}

theorem takeWhile_stop (all : ∀ byte ∈ front, passes byte = true)
    (stops : ∀ byte, rest.head? = some byte → passes byte = false) : (front ++ rest).takeWhile passes = front := by
  rw [List.takeWhile_append_of_pos all]
  cases rest with
  | nil => simp
  | cons byte rest => simp [stops byte rfl]

theorem dropWhile_stop (all : ∀ byte ∈ front, passes byte = true)
    (stops : ∀ byte, rest.head? = some byte → passes byte = false) : (front ++ rest).dropWhile passes = rest := by
  rw [List.dropWhile_append_of_pos all]
  cases rest with
  | nil => rfl
  | cons byte rest => simp [stops byte rfl]

end Spans

section Reading

theorem takeWhile_digits {base : Nat} {digits rest : List UInt8} (all : ∀ byte ∈ digits, isDigit base byte = true)
    (stops : ∀ byte, rest.head? = some byte → isDigit base byte = false) :
    (digits ++ rest).takeWhile (isDigit base) = digits :=
  takeWhile_stop all stops

theorem dropWhile_digits {base : Nat} {digits rest : List UInt8} (all : ∀ byte ∈ digits, isDigit base byte = true)
    (stops : ∀ byte, rest.head? = some byte → isDigit base byte = false) :
    (digits ++ rest).dropWhile (isDigit base) = rest :=
  dropWhile_stop all stops

theorem isDigit_range {base : Nat} {byte : UInt8} (digit : isDigit base byte = true) :
    48 ≤ byte.toNat ∧ byte.toNat ≤ 57 ∨ 97 ≤ byte.toNat ∧ byte.toNat ≤ 102 ∨ 65 ≤ byte.toNat ∧ byte.toNat ≤ 70 := by
  simp only [isDigit, digitValue] at digit
  split at digit
  · exact .inl (by assumption)
  · split at digit
    · exact .inr (.inl (by assumption))
    · split at digit
      · exact .inr (.inr (by assumption))
      · cases digit

theorem digit_ne {base : Nat} {byte other : UInt8} (digit : isDigit base byte = true)
    (outside : other.toNat < 48 ∨ 102 < other.toNat ∨ 70 < other.toNat ∧ other.toNat < 97) : byte ≠ other := by
  have range := isDigit_range digit
  rintro rfl
  omega

theorem not_space_of_digit {base : Nat} {byte : UInt8} (digit : isDigit base byte = true) : isSpace byte = false := by
  have range := isDigit_range digit
  simp only [isSpace, Bool.or_eq_false_iff, beq_eq_false_iff_ne, Bool.and_eq_false_iff, decide_eq_false_iff_not]
  exact ⟨digit_ne digit (by decide), .inr (by omega)⟩

theorem skipPrefix_ten (body : List UInt8) : skipPrefix 10 body = body := by
  unfold skipPrefix
  split
  · exact if_neg fun both => absurd both.1 (by decide)
  · rfl

theorem skipPrefix_suffix (base : Nat) (body : List UInt8) : skipPrefix base body <:+ body := by
  unfold skipPrefix
  split
  · split
    · exact (List.suffix_cons _ _).trans (List.suffix_cons _ _)
    · exact List.suffix_refl _
  · exact List.suffix_refl _

theorem strtolDigits_suffix {base : Nat} {text : List UInt8} {sign : Int} {body : List UInt8} (behind : body <:+ text) :
    (strtolDigits base text sign body).2 <:+ text := by
  unfold strtolDigits
  split
  · exact List.suffix_refl _
  · exact (List.dropWhile_suffix _).trans behind

/-- The number is a part of the text that comes first. -/
theorem strtol_suffix (base : Nat) (text : List UInt8) : (strtol base text).2 <:+ text := by
  have spaces := List.dropWhile_suffix (l := text) isSpace
  unfold strtol
  split
  · rename_i body starts
    rw [starts] at spaces
    exact strtolDigits_suffix ((skipPrefix_suffix base body).trans ((List.suffix_cons _ _).trans spaces))
  · rename_i body starts
    rw [starts] at spaces
    exact strtolDigits_suffix ((skipPrefix_suffix base body).trans ((List.suffix_cons _ _).trans spaces))
  · exact strtolDigits_suffix ((skipPrefix_suffix base _).trans spaces)

/-- Without a sign `strtol` reads the digits that the text starts with. -/
theorem strtol_digits {base : Nat} {first : UInt8} {rest : List UInt8}
    (digit : isDigit base first = true) (noPrefix : skipPrefix base (first :: rest) = first :: rest) :
    (strtol base (first :: rest)).1 =
      min 9223372036854775807 (value base ((first :: rest).takeWhile (isDigit base)) : Nat) := by
  have some : (first :: rest).takeWhile (isDigit base) ≠ [] := by
    rw [List.takeWhile_cons_of_pos digit]
    exact List.cons_ne_nil _ _
  have read : strtol base (first :: rest) = strtolDigits base (first :: rest) 1 (skipPrefix base (first :: rest)) := by
    rw [strtol, List.dropWhile_cons_of_neg (by simp [not_space_of_digit digit])]
    split
    · rename_i same
      exact absurd (List.cons.inj same).1 (digit_ne digit (by decide))
    · rename_i same
      exact absurd (List.cons.inj same).1 (digit_ne digit (by decide))
    · rfl
  rw [read, noPrefix, strtolDigits, if_neg some]
  omega

theorem atoi_printInt {number : Int} (lower : -2147483648 ≤ number) (upper : number < 2147483648) {rest : List UInt8}
    (stops : ∀ byte, rest.head? = some byte → isDigit 10 byte = false) :
    atoi (printInt number ++ rest) = number := by
  have digits := takeWhile_digits (@isDigit_decimal number.natAbs) stops
  by_cases negative : number < 0
  · have minus : isSpace 45 = false := by decide
    have some : (decimal number.natAbs ++ rest).takeWhile (isDigit 10) ≠ [] := by
      rw [digits]
      exact decimal_ne_nil _
    rw [printInt, if_pos negative, atoi, List.cons_append, strtol, List.dropWhile_cons_of_neg (by simp [minus])]
    simp only [skipPrefix_ten, strtolDigits, if_neg some]
    rw [digits, value_decimal, Int.bmod_eq_of_le (by omega) (by omega)]
    omega
  · obtain ⟨first, others, split⟩ := List.exists_cons_of_ne_nil (decimal_ne_nil number.natAbs)
    have member : first ∈ decimal number.natAbs := split ▸ List.mem_cons_self ..
    have digit := isDigit_decimal first member
    rw [split, List.cons_append] at digits
    rw [printInt, if_neg negative, split, atoi, List.cons_append,
      strtol_digits digit (skipPrefix_ten _), digits, ← split, value_decimal,
      Int.bmod_eq_of_le (by omega) (by omega)]
    omega

theorem skipPrefix_hex {digits : List UInt8} (all : ∀ byte ∈ digits, isDigit 16 byte = true) :
    skipPrefix 16 digits = digits := by
  unfold skipPrefix
  split
  · rename_i x digit rest
    have known := all x (by simp)
    exact if_neg fun both => both.2.1.elim (digit_ne known (by decide)) (digit_ne known (by decide))
  · rfl

theorem strtol_fixedHex {width number : Nat} (small : number < 16 ^ width) :
    (strtol 16 (fixedHex width number)).1 = min number 0x7fffffffffffffff := by
  have digits : (fixedHex width number ++ []).takeWhile (isDigit 16) = fixedHex width number :=
    takeWhile_digits isDigit_fixedHex (fun _ first => by cases first)
  rw [List.append_nil] at digits
  cases written : fixedHex width number with
  | nil =>
      have value := value_fixedHex small
      rw [written] at value
      rw [← value]
      rfl
  | cons first rest =>
      have all : ∀ byte ∈ first :: rest, isDigit 16 byte = true := written ▸ isDigit_fixedHex
      have digit := all first (List.mem_cons_self ..)
      rw [strtol_digits digit (skipPrefix_hex all), ← written, digits,
        value_fixedHex small]
      omega

theorem fgets_line {line rest : List UInt8} {count : Nat} (inside : newline ∉ line) (short : line.length < count) :
    fgets count (line ++ newline :: rest) = (line ++ [newline], rest) := by
  induction line generalizing count with
  | nil =>
      obtain ⟨more, rfl⟩ : ∃ more, count = more + 1 := ⟨count - 1, by simp at short; omega⟩
      simp [fgets]
  | cons byte line ih =>
      obtain ⟨more, rfl⟩ : ∃ more, count = more + 1 := ⟨count - 1, by simp at short; omega⟩
      have different : byte ≠ newline := fun same => inside (same ▸ List.mem_cons_self ..)
      have later := ih (fun member => inside (List.mem_cons_of_mem _ member))
        (Nat.lt_of_succ_lt_succ short)
      simp only [List.cons_append, fgets, if_neg different, later]

theorem newline_not_digit (base : Nat) : isDigit base newline = false := by
  have none : digitValue newline = none := by decide
  simp [isDigit, none]

end Reading

end Text
