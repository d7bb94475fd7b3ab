import Mathlib.Data.Finset.Basic
import Pisces.Job

/-! # Typing into a VM

What `v3_cons_sc` sends for the keys that are typed: scan codes, one written at a
time to the console file, and from there one command each to the enclave.
-/

namespace Pisces.User.Keys

structure KeyCode where
  scanCode : UInt8
  capital : Bool
  deriving DecidableEq

def noKey : KeyCode := ⟨0, false⟩

/-- The ASCII value serves as index. -/
def asciiToKeyCode : List KeyCode :=
  [
    noKey, noKey, noKey, noKey,
    noKey, noKey, noKey, ⟨0x0E, false⟩,
    ⟨0x0E, false⟩, ⟨0x0F, false⟩, ⟨0x1C, false⟩, noKey,
    noKey, ⟨0x1C, false⟩, noKey, noKey,
    noKey, noKey, noKey, noKey,
    noKey, noKey, noKey, noKey,
    noKey, noKey, noKey, ⟨0x01, false⟩,
    noKey, noKey, noKey, noKey,
    ⟨0x39, false⟩, ⟨0x02, true⟩, ⟨0x28, true⟩, ⟨0x04, true⟩,
    ⟨0x05, true⟩, ⟨0x06, true⟩, ⟨0x08, true⟩, ⟨0x28, false⟩,
    ⟨0x0A, true⟩, ⟨0x0B, true⟩, ⟨0x09, true⟩, ⟨0x0D, true⟩,
    ⟨0x33, false⟩, ⟨0x0C, false⟩, ⟨0x34, false⟩, ⟨0x35, false⟩,
    ⟨0x0B, false⟩, ⟨0x02, false⟩, ⟨0x03, false⟩, ⟨0x04, false⟩,
    ⟨0x05, false⟩, ⟨0x06, false⟩, ⟨0x07, false⟩, ⟨0x08, false⟩,
    ⟨0x09, false⟩, ⟨0x0A, false⟩, ⟨0x27, true⟩, ⟨0x27, false⟩,
    ⟨0x33, true⟩, ⟨0x0D, false⟩, ⟨0x34, true⟩, ⟨0x35, true⟩,
    ⟨0x03, true⟩, ⟨0x1E, true⟩, ⟨0x30, true⟩, ⟨0x2E, true⟩,
    ⟨0x20, true⟩, ⟨0x12, true⟩, ⟨0x21, true⟩, ⟨0x22, true⟩,
    ⟨0x23, true⟩, ⟨0x17, true⟩, ⟨0x24, true⟩, ⟨0x25, true⟩,
    ⟨0x26, true⟩, ⟨0x32, true⟩, ⟨0x31, true⟩, ⟨0x18, true⟩,
    ⟨0x19, true⟩, ⟨0x10, true⟩, ⟨0x13, true⟩, ⟨0x1F, true⟩,
    ⟨0x14, true⟩, ⟨0x16, true⟩, ⟨0x2F, true⟩, ⟨0x11, true⟩,
    ⟨0x2D, true⟩, ⟨0x15, true⟩, ⟨0x2C, true⟩, ⟨0x1A, false⟩,
    ⟨0x2B, false⟩, ⟨0x1B, false⟩, ⟨0x07, true⟩, ⟨0x0C, true⟩,
    ⟨0x29, false⟩, ⟨0x1E, false⟩, ⟨0x30, false⟩, ⟨0x2E, false⟩,
    ⟨0x20, false⟩, ⟨0x12, false⟩, ⟨0x21, false⟩, ⟨0x22, false⟩,
    ⟨0x23, false⟩, ⟨0x17, false⟩, ⟨0x24, false⟩, ⟨0x25, false⟩,
    ⟨0x26, false⟩, ⟨0x32, false⟩, ⟨0x31, false⟩, ⟨0x18, false⟩,
    ⟨0x19, false⟩, ⟨0x10, false⟩, ⟨0x13, false⟩, ⟨0x1F, false⟩,
    ⟨0x14, false⟩, ⟨0x16, false⟩, ⟨0x2F, false⟩, ⟨0x11, false⟩,
    ⟨0x2D, false⟩, ⟨0x15, false⟩, ⟨0x2C, false⟩, ⟨0x1A, true⟩,
    ⟨0x2B, true⟩, ⟨0x1B, true⟩, ⟨0x29, true⟩, ⟨0x0E, false⟩]

/-- `struct cmd_vm_cons_keycode` -/
structure KeycodeCmd where
  cmd : UInt64
  dataLen : UInt32
  vmId : UInt32
  scanCode : UInt8
  deriving DecidableEq

/-- The command that `console_write` sends for a byte. -/
def keycodeCmd (vmId : UInt32) (scanCode : UInt8) : KeycodeCmd :=
  ⟨152, 17 - 12, vmId, scanCode⟩

/-- `main` returns -1. -/
inductive Stop where
  | writeFailed
  deriving DecidableEq

/-- How `main` stands when the keys are used up. -/
inductive Ending where
  | waiting
  | terminated
  deriving DecidableEq

/-- What becomes of a command that `console_write` sends: a failing `pisces_xbuf_send`
is not reported. -/
inductive Fate where
  | taken
  | lost
  deriving DecidableEq

/-- An event is a command that the enclave gets; the state is what becomes of the
writes that `copy_from_user` still lets pass. -/
abbrev ConsoleJob := Job KeycodeCmd (List Fate) Stop

section Code

variable (vmId : UInt32)

def writeit (scanCode : UInt8) : ConsoleJob Unit
  | [] => ⟨[], [], .error .writeFailed⟩
  | .taken :: left => ⟨[keycodeCmd vmId scanCode], left, .ok ()⟩
  | .lost :: left => ⟨[], left, .ok ()⟩

def sendCharToPalaciosAsScancodes (c : UInt8) : ConsoleJob Unit :=
  if c < 0x80 then
    let k := asciiToKeyCode.getD c.toNat noKey
    if k.scanCode = 0 ∧ k.capital = false then pure ()
    else if k.capital then do
      writeit vmId 0x2a
      writeit vmId k.scanCode
      writeit vmId (k.scanCode ||| 0x80)
      writeit vmId (0x2a ||| 0x80)
    else do
      writeit vmId k.scanCode
      writeit vmId (k.scanCode ||| 0x80)
  else pure ()

/-- A key of the keypad -/
def sendArrow (sc : UInt8) : ConsoleJob Unit := do
  writeit vmId sc
  writeit vmId (sc ||| 0x80)

/-- The argument of `send_char_to_palacios_as_scancodes` is an `unsigned char`. -/
def unsignedChar (key : Int) : UInt8 := .ofNat (key % 256).toNat

/-- A key that is not `ESC` -/
def handleKey (key : Int) : ConsoleJob Unit :=
  if key = 260 then sendArrow vmId 0x4B
  else if key = 261 then sendArrow vmId 0x4D
  else if key = 259 then sendArrow vmId 0x48
  else if key = 258 then sendArrow vmId 0x50
  else sendCharToPalaciosAsScancodes vmId (unsignedChar key)

/-- The loop of `main`, for what `getch` returns; behind `ESC` it is called once more. -/
def mainLoop : List Int → ConsoleJob Ending
  | [] => pure .waiting
  | [key] =>
      if key = 27 then pure .waiting
      else do
        handleKey vmId key
        pure .waiting
  | key :: key2 :: rest =>
      if key ≠ 27 then do
        handleKey vmId key
        mainLoop (key2 :: rest)
      else if key2 = 96 then pure .terminated
      else if key2 = 27 then do
        writeit vmId 0x01
        writeit vmId (0x01 ||| 0x80)
        mainLoop rest
      else do
        writeit vmId 0x1d
        sendCharToPalaciosAsScancodes vmId (unsignedChar key2)
        writeit vmId (0x1d ||| 0x80)
        mainLoop rest

end Code

/-! ## The keyboard of the VM -/

/-- A key that goes down, and the modifiers that are held -/
structure Stroke where
  code : UInt8
  shift : Bool
  ctrl : Bool
  deriving DecidableEq

/-- A keyboard in scan code set 1 as seen by what reads it -/
structure Keyboard where
  held : Finset UInt8
  strokes : List Stroke

namespace Keyboard

def receive (keyboard : Keyboard) (byte : UInt8) : Keyboard :=
  let code := byte &&& 0x7f
  if byte &&& 0x80 = 0 then
    { held := insert code keyboard.held
      strokes :=
        if code = 0x2a ∨ code = 0x1d then keyboard.strokes
        else keyboard.strokes ++ [⟨code, 0x2a ∈ keyboard.held, 0x1d ∈ keyboard.held⟩] }
  else { keyboard with held := keyboard.held.erase code }

def receiveAll (keyboard : Keyboard) (bytes : List UInt8) : Keyboard :=
  bytes.foldl receive keyboard

end Keyboard

/-! ## What the keys stand for -/

/-- A row of keys: the scan code of the first one, and what they type with and without shift -/
structure Row where
  first : UInt8
  plain : List UInt8
  shifted : List UInt8

/-- The keys of a US keyboard that type characters: the digits, the letters in three
rows and the space bar -/
def rows : List Row :=
  [⟨0x02, [49, 50, 51, 52, 53, 54, 55, 56, 57, 48, 45, 61], [33, 64, 35, 36, 37, 94, 38, 42, 40, 41, 95, 43]⟩,
    ⟨0x10, [113, 119, 101, 114, 116, 121, 117, 105, 111, 112, 91, 93],
      [81, 87, 69, 82, 84, 89, 85, 73, 79, 80, 123, 125]⟩,
    ⟨0x1E, [97, 115, 100, 102, 103, 104, 106, 107, 108, 59, 39, 96],
      [65, 83, 68, 70, 71, 72, 74, 75, 76, 58, 34, 126]⟩,
    ⟨0x2B, [92, 122, 120, 99, 118, 98, 110, 109, 44, 46, 47], [124, 90, 88, 67, 86, 66, 78, 77, 60, 62, 63]⟩,
    ⟨0x39, [32], []⟩]

/-- The characters of a row with their scan codes -/
def Row.caps (row : Row) : List (UInt8 × KeyCode) :=
  (row.plain.mapIdx fun index c => (c, ⟨row.first + .ofNat index, false⟩)) ++
    row.shifted.mapIdx fun index c => (c, ⟨row.first + .ofNat index, true⟩)

def keyboardCaps : List (UInt8 × KeyCode) :=
  rows.flatMap Row.caps

/-- Backspace (as `KEY_BACKSPACE` too), tab and enter, with what `getch` returns for them -/
def editing : List (Int × UInt8) :=
  [(8, 0x0E), (127, 0x0E), (263, 0x0E), (9, 0x0F), (10, 0x1C), (13, 0x1C)]

/-- The arrow keys: left, right, up and down -/
def arrows : List (Int × UInt8) :=
  [(260, 0x4B), (261, 0x4D), (259, 0x48), (258, 0x50)]

/-- The key for a character or one of the editing keys -/
inductive Cap : Int → KeyCode → Prop where
  | character (c : UInt8) (k : KeyCode) (found : (c, k) ∈ keyboardCaps) : Cap c.toNat k
  | edit (key : Int) (code : UInt8) (found : (key, code) ∈ editing) : Cap key ⟨code, false⟩

/-- The strokes that are meant by what `getch` returns, up to `ESC`, backtick.  `ESC` twice is
the key itself, and a key behind `ESC` is typed with control held. -/
inductive Means : List Int → List Stroke → Ending → Prop where
  | nil : Means [] [] .waiting
  | escape : Means [27] [] .waiting
  | quit (rest : List Int) : Means (27 :: 96 :: rest) [] .terminated
  | cap {key : Int} {k : KeyCode} {rest : List Int} {typed : List Stroke} {ending : Ending} (cap : Cap key k)
      (means : Means rest typed ending) : Means (key :: rest) (⟨k.scanCode, k.capital, false⟩ :: typed) ending
  | arrow {key : Int} {code : UInt8} {rest : List Int} {typed : List Stroke} {ending : Ending}
      (arrow : (key, code) ∈ arrows) (means : Means rest typed ending) :
      Means (key :: rest) (⟨code, false, false⟩ :: typed) ending
  | escaped {rest : List Int} {typed : List Stroke} {ending : Ending} (means : Means rest typed ending) :
      Means (27 :: 27 :: rest) (⟨0x01, false, false⟩ :: typed) ending
  | control {key : Int} {k : KeyCode} {rest : List Int} {typed : List Stroke} {ending : Ending} (cap : Cap key k)
      (other : key ≠ 96) (means : Means rest typed ending) :
      Means (27 :: key :: rest) (⟨k.scanCode, k.capital, true⟩ :: typed) ending

/-- The character that a stroke types without control -/
def Stroke.ascii (stroke : Stroke) : Option UInt8 :=
  if stroke.ctrl then none
  else (keyboardCaps.find? fun cap => cap.2 == ⟨stroke.code, stroke.shift⟩).map (·.1)

/-! ## What is written -/

section Writes

variable {vmId : UInt32} {First Second : Type} {bytes more : List UInt8}

/-- The bytes whose commands the enclave gets -/
def arriving : List UInt8 → List Fate → List UInt8
  | byte :: bytes, .taken :: fates => byte :: arriving bytes fates
  | _ :: bytes, .lost :: fates => arriving bytes fates
  | [], _ | _, [] => []

@[simp] theorem arriving_nil (bytes : List UInt8) : arriving bytes [] = [] := by
  cases bytes <;> rfl

theorem arriving_sublist (bytes : List UInt8) (fates : List Fate) : (arriving bytes fates).Sublist bytes := by
  fun_induction arriving bytes fates with
  | case1 byte bytes fates ih => exact ih.cons_cons byte
  | case2 byte bytes fates ih => exact ih.cons byte
  | case3 => exact List.nil_sublist _
  | case4 => exact List.nil_sublist _

/-- When no command is lost, what arrives comes first. -/
theorem arriving_taken {fates : List Fate} (taken : ∀ fate ∈ fates, fate = .taken) :
    arriving bytes fates = bytes.take fates.length := by
  fun_induction arriving bytes fates with
  | case1 byte bytes fates ih =>
      rw [List.length_cons, List.take_succ_cons, ih fun fate member => taken fate (List.mem_cons_of_mem _ member)]
  | case2 byte bytes fates ih => cases taken .lost (List.mem_cons_self ..)
  | case3 => simp
  | case4 => simp

theorem arriving_append (bytes more : List UInt8) (fates : List Fate) :
    arriving (bytes ++ more) fates = arriving bytes fates ++ arriving more (fates.drop bytes.length) := by
  fun_induction arriving bytes fates with
  | case1 byte bytes fates ih => simp [arriving, ih]
  | case2 byte bytes fates ih => simp [arriving, ih]
  | case3 => simp
  | case4 => simp

/-- The job writes these bytes and answers, unless a write fails before. -/
def Writes (vmId : UInt32) (job : ConsoleJob First) (bytes : List UInt8) (answer : First) : Prop :=
  ∀ fates, job fates = ⟨(arriving bytes fates).map (keycodeCmd vmId), fates.drop bytes.length,
    if bytes.length ≤ fates.length then .ok answer else .error .writeFailed⟩

theorem writes_pure (answer : First) : Writes vmId (pure answer) [] answer :=
  fun _ => rfl

theorem writes_writeit (byte : UInt8) : Writes vmId (writeit vmId byte) [byte] () := by
  intro fates
  match fates with
  | [] => rfl
  | .taken :: left => rw [if_pos (by simp)]; rfl
  | .lost :: left => rw [if_pos (by simp)]; rfl

theorem Writes.bind {job : ConsoleJob First} {next : First → ConsoleJob Second} {answer : First} {result : Second}
    (first : Writes vmId job bytes answer) (second : Writes vmId (next answer) more result) :
    Writes vmId (job >>= next) (bytes ++ more) result := by
  intro fates
  have runs := first fates
  by_cases reached : bytes.length ≤ fates.length
  · rw [if_pos reached] at runs
    have rests := second (fates.drop bytes.length)
    have same : more.length ≤ fates.length - bytes.length ↔ bytes.length + more.length ≤ fates.length := by omega
    simp only [Bind.bind, Job.bind, runs, rests, List.length_append, List.length_drop, List.drop_drop, arriving_append,
      List.map_append, same]
  · rw [if_neg reached] at runs
    have used : fates.drop bytes.length = [] := List.drop_eq_nil_of_le (by omega)
    have all : fates.drop (bytes.length + more.length) = [] := List.drop_eq_nil_of_le (by omega)
    simp only [Bind.bind, Job.bind, runs, List.length_append, arriving_append, used, arriving_nil,
      List.append_nil, all]
    rw [if_neg (by omega)]

end Writes

/-! ## What is typed -/

section Types

variable {held : Finset UInt8} {bytes more : List UInt8} {typed later : List Stroke}

/-- With these keys held, the bytes type these strokes, and the same keys are held after them. -/
def Types (held : Finset UInt8) (bytes : List UInt8) (typed : List Stroke) : Prop :=
  ∀ old, Keyboard.receiveAll ⟨held, old⟩ bytes = ⟨held, old ++ typed⟩

theorem types_nil : Types held [] [] := by
  intro old
  rw [List.append_nil]
  rfl

theorem Types.append (first : Types held bytes typed) (second : Types held more later) :
    Types held (bytes ++ more) (typed ++ later) := by
  intro old
  have before := first old
  have after := second (old ++ typed)
  rw [Keyboard.receiveAll] at before after ⊢
  rw [List.foldl_append, before, after, List.append_assoc]

/-- A scan code with its two forms, up and down, kept apart by the upper bit -/
def Coded (code : UInt8) : Prop :=
  code &&& 0x80 = 0 ∧ code &&& 0x7f = code ∧ (code ||| 0x80) &&& 0x80 ≠ 0 ∧ (code ||| 0x80) &&& 0x7f = code

def Ordinary (code : UInt8) : Prop :=
  Coded code ∧ code ≠ 0x2a ∧ code ≠ 0x1d

instance : DecidablePred Coded := fun _ => inferInstanceAs (Decidable (_ ∧ _))

instance : DecidablePred Ordinary := fun _ => inferInstanceAs (Decidable (_ ∧ _))

theorem types_tap {code : UInt8} (ordinary : Ordinary code) (free : code ∉ held) :
    Types held [code, code ||| 0x80] [⟨code, 0x2a ∈ held, 0x1d ∈ held⟩] := by
  obtain ⟨⟨down, downCode, up, upCode⟩, notShift, notCtrl⟩ := ordinary
  intro old
  simp only [Keyboard.receiveAll, List.foldl_cons, List.foldl_nil, Keyboard.receive, down, downCode, up, upCode, if_true,
    if_false, notShift, notCtrl, or_self, Finset.erase_insert free]

/-- Holding a modifier -/
theorem Types.wrap {code : UInt8} (coded : Coded code) (isModifier : code = 0x2a ∨ code = 0x1d) (free : code ∉ held)
    (inside : Types (insert code held) bytes typed) : Types held (code :: (bytes ++ [code ||| 0x80])) typed := by
  obtain ⟨down, downCode, up, upCode⟩ := coded
  intro old
  have pressed : Keyboard.receive ⟨held, old⟩ code = ⟨insert code held, old⟩ := by
    simp only [Keyboard.receive, down, downCode, if_true, isModifier]
  have released : Keyboard.receive ⟨insert code held, old ++ typed⟩ (code ||| 0x80) = ⟨held, old ++ typed⟩ := by
    simp only [Keyboard.receive, up, upCode, if_false, Finset.erase_insert free]
  have typedInside := inside old
  rw [Keyboard.receiveAll] at typedInside ⊢
  rw [List.foldl_cons, pressed, List.foldl_append, typedInside, List.foldl_cons, List.foldl_nil, released]

/-- What has been typed stays. -/
theorem receiveAll_strokes (keyboard : Keyboard) (bytes : List UInt8) :
    keyboard.strokes <+: (keyboard.receiveAll bytes).strokes := by
  induction bytes generalizing keyboard with
  | nil => exact List.prefix_rfl
  | cons byte rest ih =>
      have one : keyboard.strokes <+: (keyboard.receive byte).strokes := by
        rw [Keyboard.receive]
        split
        · split
          · exact List.prefix_rfl
          · exact List.prefix_append ..
        · exact List.prefix_rfl
      exact one.trans (ih (keyboard.receive byte))

end Types

/-! ## The table -/

/-- The entry of a character is the key that types it. -/
def Listed (c : UInt8) (k : KeyCode) : Prop :=
  c < 0x80 ∧ asciiToKeyCode.getD c.toNat noKey = k ∧ k ≠ noKey ∧ Ordinary k.scanCode

instance (c : UInt8) (k : KeyCode) : Decidable (Listed c k) :=
  inferInstanceAs (Decidable (_ ∧ _))

theorem keyboardCaps_listed : keyboardCaps.all (fun cap => decide (Listed cap.1 cap.2 ∧ cap.1 ≠ 27)) = true := by
  decide

theorem editing_listed : editing.all (fun key => decide (Listed (unsignedChar key.1) ⟨key.2, false⟩ ∧
    key.1 ≠ 27 ∧ arrows.all (·.1 != key.1))) = true := by
  decide

theorem unsignedChar_toNat (c : UInt8) : unsignedChar c.toNat = c := by
  have small : ((c.toNat : Int) % 256).toNat = c.toNat := by
    have below := c.toNat_lt
    omega
  rw [unsignedChar, small, UInt8.ofNat_toNat]

/-- The keys that are not arrows go by the table. -/
structure Plain (key : Int) (k : KeyCode) : Prop where
  listed : Listed (unsignedChar key) k
  other : key ≠ 27
  noArrow : key ≠ 260 ∧ key ≠ 261 ∧ key ≠ 259 ∧ key ≠ 258

theorem Cap.plain {key : Int} {k : KeyCode} (cap : Cap key k) : Plain key k := by
  cases cap with
  | character c k found =>
      have checked := List.all_eq_true.mp keyboardCaps_listed _ found
      obtain ⟨listed, notEscape⟩ := of_decide_eq_true checked
      have below := c.toNat_lt
      refine ⟨by rwa [unsignedChar_toNat], ?_, by omega⟩
      intro same
      exact notEscape (UInt8.toNat_inj.mp (by exact_mod_cast same))
  | edit key code found =>
      have checked := List.all_eq_true.mp editing_listed _ found
      obtain ⟨listed, notEscape, noArrow⟩ := of_decide_eq_true checked
      simp only [arrows, List.all_cons, List.all_nil, Bool.and_true, Bool.and_eq_true, bne_iff_ne] at noArrow
      exact ⟨listed, notEscape, noArrow.1.symm, noArrow.2.1.symm, noArrow.2.2.1.symm, noArrow.2.2.2.symm⟩

/-! ## Every key -/

section Every

variable {vmId : UInt32}

def heldBy (ctrl : Bool) : Finset UInt8 :=
  if ctrl then {0x1d} else ∅

theorem sendChar_types (ctrl : Bool) {c : UInt8} {k : KeyCode} (listed : Listed c k) :
    ∃ bytes, Writes vmId (sendCharToPalaciosAsScancodes vmId c) bytes () ∧
      Types (heldBy ctrl) bytes [⟨k.scanCode, k.capital, ctrl⟩] := by
  obtain ⟨ascii, entry, known, ordinary⟩ := listed
  have some : ¬ (k.scanCode = 0 ∧ k.capital = false) := by
    rintro ⟨zero, small⟩
    exact known (by cases k; simp_all [noKey])
  have outside : k.scanCode ∉ heldBy ctrl := by
    cases ctrl <;> simp [heldBy, ordinary.2.2]
  have shift : (0x2a : UInt8) ∉ heldBy ctrl := by cases ctrl <;> simp [heldBy]
  have ctrlHeld : decide ((0x1d : UInt8) ∈ heldBy ctrl) = ctrl := by cases ctrl <;> simp [heldBy]
  rw [sendCharToPalaciosAsScancodes, if_pos ascii, entry]
  simp only [if_neg some]
  cases capital : k.capital with
  | false =>
      have tap := types_tap ordinary outside
      refine ⟨[k.scanCode] ++ [k.scanCode ||| 0x80], (writes_writeit _).bind (writes_writeit _), ?_⟩
      simpa [shift, ctrlHeld] using tap
  | true =>
      have below : k.scanCode ∉ insert 0x2a (heldBy ctrl) := by simp [ordinary.2.1, outside]
      have tap := (types_tap ordinary below).wrap (by decide) (.inl rfl) shift
      refine ⟨[0x2a] ++ ([k.scanCode] ++ ([k.scanCode ||| 0x80] ++ [0x2a ||| 0x80])), ?_, ?_⟩
      · exact (writes_writeit _).bind ((writes_writeit _).bind ((writes_writeit _).bind (writes_writeit _)))
      · simpa [ctrlHeld] using tap

theorem sendArrow_types {sc : UInt8} (ordinary : Ordinary sc) :
    Writes vmId (sendArrow vmId sc) [sc, sc ||| 0x80] () ∧ Types ∅ [sc, sc ||| 0x80] [⟨sc, false, false⟩] := by
  refine ⟨(writes_writeit sc).bind (writes_writeit _), ?_⟩
  simpa using types_tap ordinary (Finset.notMem_empty sc)

theorem handleKey_cap {key : Int} {k : KeyCode} (plain : Plain key k) :
    ∃ bytes, Writes vmId (handleKey vmId key) bytes () ∧ Types ∅ bytes [⟨k.scanCode, k.capital, false⟩] := by
  obtain ⟨left, right, up, down⟩ := plain.noArrow
  rw [handleKey, if_neg left, if_neg right, if_neg up, if_neg down]
  exact sendChar_types false plain.listed

theorem handleKey_arrow {key : Int} {code : UInt8} (arrow : (key, code) ∈ arrows) :
    key ≠ 27 ∧ ∃ bytes, Writes vmId (handleKey vmId key) bytes () ∧ Types ∅ bytes [⟨code, false, false⟩] := by
  simp only [arrows, List.mem_cons, List.not_mem_nil, or_false, Prod.mk.injEq] at arrow
  rcases arrow with ⟨rfl, rfl⟩ | ⟨rfl, rfl⟩ | ⟨rfl, rfl⟩ | ⟨rfl, rfl⟩
  · exact ⟨by decide, _, @sendArrow_types vmId 0x4B (by decide)⟩
  · exact ⟨by decide, _, @sendArrow_types vmId 0x4D (by decide)⟩
  · exact ⟨by decide, _, @sendArrow_types vmId 0x48 (by decide)⟩
  · exact ⟨by decide, _, @sendArrow_types vmId 0x50 (by decide)⟩

theorem mainLoop_key {key : Int} (notEscape : key ≠ 27) (rest : List Int) :
    mainLoop vmId (key :: rest) = (do handleKey vmId key; mainLoop vmId rest) := by
  cases rest with
  | nil => simp only [mainLoop, if_neg notEscape]
  | cons key2 rest => rw [mainLoop, if_pos notEscape]

theorem mainLoop_types {keys : List Int} {typed : List Stroke} {ending : Ending} (means : Means keys typed ending) :
    ∃ bytes, Writes vmId (mainLoop vmId keys) bytes ending ∧ Types ∅ bytes typed := by
  induction means with
  | nil => exact ⟨[], writes_pure _, types_nil⟩
  | escape => exact ⟨[], writes_pure _, types_nil⟩
  | quit rest => exact ⟨[], writes_pure _, types_nil⟩
  | cap cap means ih =>
      obtain ⟨later, laterWrites, laterTypes⟩ := ih
      obtain ⟨bytes, writes, types⟩ := @handleKey_cap vmId _ _ cap.plain
      rw [mainLoop_key cap.plain.other]
      exact ⟨bytes ++ later, writes.bind laterWrites, types.append laterTypes⟩
  | arrow arrow means ih =>
      obtain ⟨later, laterWrites, laterTypes⟩ := ih
      obtain ⟨notEscape, bytes, writes, types⟩ := @handleKey_arrow vmId _ _ arrow
      rw [mainLoop_key notEscape]
      exact ⟨bytes ++ later, writes.bind laterWrites, types.append laterTypes⟩
  | escaped means ih =>
      obtain ⟨later, writes, types⟩ := ih
      have tap := types_tap (by decide : Ordinary 0x01) (Finset.notMem_empty _)
      refine ⟨[0x01] ++ ([0x01 ||| 0x80] ++ later), ?_, tap.append types⟩
      exact (writes_writeit _).bind ((writes_writeit _).bind writes)
  | @control key k rest typed ending cap other means ih =>
      obtain ⟨later, laterWrites, laterTypes⟩ := ih
      obtain ⟨bytes, writes, types⟩ := @sendChar_types vmId true _ _ cap.plain.listed
      have control := Types.wrap (by decide : Coded 0x1d) (.inr rfl) (Finset.notMem_empty _) types
      have all : 0x1d :: (bytes ++ [0x1d ||| 0x80]) ++ later = [0x1d] ++ (bytes ++ ([0x1d ||| 0x80] ++ later)) := by simp
      refine ⟨0x1d :: (bytes ++ [0x1d ||| 0x80]) ++ later, ?_, control.append laterTypes⟩
      rw [mainLoop, if_neg (by decide), if_neg other, if_neg cap.plain.other, all]
      exact (writes_writeit _).bind (writes.bind ((writes_writeit _).bind laterWrites))

end Every

/-! ## Text -/

def Printable (c : UInt8) : Prop := 32 ≤ c.toNat ∧ c.toNat < 127

theorem keyboardCaps_ascii : ((List.range' 32 95).all fun number => keyboardCaps.any fun cap =>
    cap.1 == .ofNat number && (⟨cap.2.scanCode, cap.2.capital, false⟩ : Stroke).ascii == some cap.1) = true := by
  decide +kernel

/-- Every printable character is on the keyboard, and its stroke is that of no other one. -/
theorem printable_cap {c : UInt8} (printable : Printable c) :
    ∃ k, (c, k) ∈ keyboardCaps ∧ (⟨k.scanCode, k.capital, false⟩ : Stroke).ascii = some c := by
  obtain ⟨above, below⟩ := printable
  have checked := List.all_eq_true.mp keyboardCaps_ascii c.toNat (List.mem_range'_1.mpr ⟨above, by omega⟩)
  obtain ⟨⟨other, k⟩, found, same⟩ := List.any_eq_true.mp checked
  simp only [UInt8.ofNat_toNat, Bool.and_eq_true, beq_iff_eq] at same
  obtain ⟨rfl, types⟩ := same
  exact ⟨k, found, types⟩

/-- The keys that type a text -/
def textKeys (text : List UInt8) : List Int :=
  text.map fun c => (c.toNat : Int)

/-- A text is typed with strokes that stand for its characters. -/
theorem textKeys_means {text : List UInt8} (printable : ∀ c ∈ text, Printable c) :
    ∃ typed, Means (textKeys text) typed .waiting ∧ typed.filterMap Stroke.ascii = text := by
  induction text with
  | nil => exact ⟨[], .nil, rfl⟩
  | cons c rest ih =>
      obtain ⟨typed, means, reads⟩ := ih fun other member => printable other (List.mem_cons_of_mem _ member)
      obtain ⟨k, found, types⟩ := printable_cap (printable c (List.mem_cons_self ..))
      exact ⟨_ :: typed, .cap (.character c k found) means, by rw [List.filterMap_cons, types, reads]⟩

/-! ## A whole session -/

/-- The scan codes in the commands -/
def scanCodes (commands : List KeycodeCmd) : List UInt8 :=
  commands.map (·.scanCode)

theorem scanCodes_keycodeCmd (vmId : UInt32) (bytes : List UInt8) : scanCodes (bytes.map (keycodeCmd vmId)) = bytes := by
  simp [scanCodes, Function.comp_def, keycodeCmd]

/-- The enclave gets a part of the scan codes that type what the keys mean. When no command
is lost, what the VM has been typed is at any time a part of what the keys mean that comes
first; and when no write has failed either, it is all of that and no key is left down. -/
theorem keys_arrive (vmId : UInt32) (keys : List Int) (typed : List Stroke) (ending : Ending)
    (means : Means keys typed ending) (fates : List Fate) :
    (∃ codes, Keyboard.receiveAll ⟨∅, []⟩ codes = ⟨∅, typed⟩ ∧
        (scanCodes (mainLoop vmId keys fates).events).Sublist codes ∧
        ∀ command ∈ (mainLoop vmId keys fates).events, command = keycodeCmd vmId command.scanCode) ∧
      ((∀ fate ∈ fates, fate = .taken) →
        (Keyboard.receiveAll ⟨∅, []⟩ (scanCodes (mainLoop vmId keys fates).events)).strokes <+: typed ∧
          ∀ last, (mainLoop vmId keys fates).answer = .ok last → last = ending ∧
            Keyboard.receiveAll ⟨∅, []⟩ (scanCodes (mainLoop vmId keys fates).events) = ⟨∅, typed⟩) ∧
      ∀ text, (∀ c ∈ text, Printable c) →
        ∃ typed, Means (textKeys text) typed .waiting ∧ typed.filterMap Stroke.ascii = text := by
  obtain ⟨bytes, writes, types⟩ := @mainLoop_types vmId _ _ _ means
  have all : Keyboard.receiveAll ⟨∅, []⟩ bytes = ⟨∅, typed⟩ := types []
  rw [writes fates, scanCodes_keycodeCmd]
  refine ⟨⟨bytes, all, arriving_sublist bytes fates, ?_⟩, ?_, fun text printable => textKeys_means printable⟩
  · intro command member
    obtain ⟨byte, -, rfl⟩ := List.mem_map.mp member
    rfl
  · intro taken
    rw [arriving_taken taken]
    refine ⟨?_, ?_⟩
    · have rest := receiveAll_strokes (Keyboard.receiveAll ⟨∅, []⟩ (bytes.take fates.length)) (bytes.drop fates.length)
      rw [Keyboard.receiveAll, Keyboard.receiveAll, ← List.foldl_append, List.take_append_drop] at rest
      rw [Keyboard.receiveAll] at all ⊢
      rw [all] at rest
      exact rest
    · intro last answers
      by_cases enough : bytes.length ≤ fates.length
      · rw [if_pos enough] at answers
        rw [List.take_of_length_le enough]
        exact ⟨(Except.ok.inj answers).symm, all⟩
      · rw [if_neg enough] at answers
        cases answers

/-- `aB`, and nothing is lost -/
theorem keys_arrive_aB :
    Keyboard.receiveAll ⟨∅, []⟩ (scanCodes (mainLoop 3 (textKeys [97, 66]) (List.replicate 6 .taken)).events) =
      ⟨∅, [⟨0x1E, false, false⟩, ⟨0x30, true, false⟩]⟩ := by
  have means : Means (textKeys [97, 66]) [⟨0x1E, false, false⟩, ⟨0x30, true, false⟩] .waiting :=
    .cap (.character 97 ⟨0x1E, false⟩ (by decide)) (.cap (.character 66 ⟨0x30, true⟩ (by decide)) .nil)
  have taken : ∀ fate ∈ List.replicate 6 Fate.taken, fate = .taken := fun _ member => (List.mem_replicate.mp member).2
  have arrives := (keys_arrive 3 (textKeys [97, 66]) _ .waiting means (List.replicate 6 .taken)).2.1 taken
  exact (arrives.2 .waiting rfl).2

end Pisces.User.Keys
