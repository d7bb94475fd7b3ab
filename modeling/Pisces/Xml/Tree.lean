import Pisces.Xml.Entities

/-! # Trees of tags

`struct ezxml` and what is done with a tree: looking for tags and attributes,
setting an attribute and `ezxml_toxml`.  The tree of a text with processing
instructions or default attributes, which `ezxml_toxml` prints too, is not here.
-/

namespace Pisces.Xml

open Text

/-- `struct ezxml`; the children are those that `child` and then `ordered` lead to. -/
inductive Tag where
  | mk (name : Str) (attr : List (Str × Str)) (txt : Str) (off : Nat) (children : List Tag)

namespace Tag

def name : Tag → Str
  | mk name _ _ _ _ => name

def attr : Tag → List (Str × Str)
  | mk _ attr _ _ _ => attr

def txt : Tag → Str
  | mk _ _ txt _ _ => txt

def off : Tag → Nat
  | mk _ _ _ off _ => off

def children : Tag → List Tag
  | mk _ _ _ _ children => children

end Tag

/-- `ezxml_child` -/
def ezxmlChild (tag : Option Tag) (name : Str) : Option Tag :=
  tag.bind fun tag => tag.children.find? (·.name == name)

/-- What `ezxml_child` and then `ezxml_next` lead to -/
def named (tag : Option Tag) (name : Str) : List Tag :=
  match tag with
  | some tag => tag.children.filter (·.name == name)
  | none => []

/-- `ezxml_attr` -/
def ezxmlAttr (tag : Tag) (name : Str) : Option Str :=
  (tag.attr.find? (·.1 == name)).map (·.2)

/-- The list of attributes after `ezxml_set_attr` -/
def setAttribute (name value : Str) : List (Str × Str) → List (Str × Str)
  | [] => [(name, value)]
  | (other, old) :: rest =>
      if other = name then (other, value) :: rest else (other, old) :: setAttribute name value rest

/-- `ezxml_set_attr_d` -/
def ezxmlSetAttr (tag : Tag) (name value : Str) : Tag :=
  .mk tag.name (setAttribute name value tag.attr) tag.txt tag.off tag.children

/-! ## Printing -/

/-- The attributes of a tag; of two with one name `ezxml_attr` finds the first. -/
def attributesXml (seen : List Str) : List (Str × Str) → Str
  | [] => []
  | (name, value) :: rest =>
      (if name ∈ seen then [] else 32 :: name ++ [61, 34] ++ ezxmlAmpencode true value ++ [34]) ++
        attributesXml (name :: seen) rest

/-- Text up to a tag; a length below zero is a large one. -/
def textUpTo (txt : Str) (start off : Nat) : Str :=
  if start ≤ off then (txt.drop start).take (off - start) else txt.drop start

mutual

/-- A tag with everything in it -/
def Tag.toxml : Tag → Str
  | .mk name attr txt _ children =>
      60 :: name ++ attributesXml [] attr ++ [62] ++ contentXml txt 0 children ++ ([60, 47] ++ name ++ [62])

/-- The text from `start` on and the tags in it -/
def contentXml (txt : Str) (start : Nat) : List Tag → Str
  | [] => ezxmlAmpencode false (txt.drop start)
  | child :: rest =>
      ezxmlAmpencode false (textUpTo txt start child.off) ++ child.toxml ++
        contentXml txt (min txt.length child.off) rest

end

/-- `ezxml_toxml` -/
def ezxmlToxml : Option Tag → Str
  | none => []
  | some tag => tag.toxml

/-! ## Trees that a text can stand for -/

/-- `EZXML_WS` -/
def isWs (byte : UInt8) : Bool :=
  byte == 9 || byte == 13 || byte == 10 || byte == 32

/-- A letter, `_`, `:` or a byte that is negative as a `char` -/
def isNameStart (byte : UInt8) : Bool :=
  (65 ≤ byte && byte ≤ 90) || (97 ≤ byte && byte ≤ 122) || byte == 95 || byte == 58 || 128 ≤ byte

/-- Where the name of a tag ends -/
def endsName (byte : UInt8) : Bool :=
  isWs byte || byte == 47 || byte == 62

/-- Where the name of an attribute ends -/
def endsAttribute (byte : UInt8) : Bool :=
  endsName byte || byte == 61

structure GoodName (name : Str) : Prop where
  start : ∃ first rest, name = first :: rest ∧ isNameStart first = true
  inside : ∀ byte ∈ name, endsName byte = false ∧ byte ≠ 0

structure GoodAttribute (pair : Str × Str) : Prop where
  start : ∀ first, pair.1.head? = some first → isSpace first = false
  name : ∀ byte ∈ pair.1, endsAttribute byte = false ∧ byte ≠ 0
  value : 0 ∉ pair.2

mutual

/-- What the parser makes of a text: names without what ends them, strings
without terminators, children in the order of their offsets and inside the text. -/
def Tag.Sound : Tag → Prop
  | .mk name attr txt _ children =>
      GoodName name ∧ (∀ pair ∈ attr, GoodAttribute pair) ∧ 0 ∉ txt ∧ SoundFrom txt.length 0 children

def SoundFrom (length start : Nat) : List Tag → Prop
  | [] => start ≤ length
  | child :: rest => start ≤ child.off ∧ child.Sound ∧ SoundFrom length child.off rest

end

mutual

/-- Every attribute has a name of its own and no vertical tab or form feed in it. -/
def Tag.Plain : Tag → Prop
  | .mk _ attr _ _ children =>
      (attr.map (·.1)).Nodup ∧ (∀ pair ∈ attr, 11 ∉ pair.2 ∧ 12 ∉ pair.2) ∧ AllPlain children

def AllPlain : List Tag → Prop
  | [] => True
  | child :: rest => child.Plain ∧ AllPlain rest

end

/-! ## Setting an attribute -/

section Attribute

variable {name value : Str} {attr : List (Str × Str)}

theorem setAttribute_self (name value : Str) (attr : List (Str × Str)) :
    (setAttribute name value attr).find? (·.1 == name) = some (name, value) := by
  induction attr with
  | nil => simp [setAttribute]
  | cons pair rest ih =>
      obtain ⟨other, old⟩ := pair
      by_cases same : other = name
      · simp [setAttribute, same]
      · simp [setAttribute, same, ih]

theorem setAttribute_other {other : Str} (differs : other ≠ name) (value : Str) (attr : List (Str × Str)) :
    (setAttribute name value attr).find? (·.1 == other) = attr.find? (·.1 == other) := by
  induction attr with
  | nil => simp [setAttribute, differs.symm]
  | cons pair rest ih =>
      obtain ⟨first, old⟩ := pair
      by_cases same : first = name
      · subst same
        simp [setAttribute, differs.symm]
      · simp only [setAttribute, if_neg same, List.find?_cons, ih]

theorem setAttribute_forall {good : Str × Str → Prop} (all : ∀ pair ∈ attr, good pair) (new : good (name, value)) :
    ∀ pair ∈ setAttribute name value attr, good pair := by
  induction attr with
  | nil => simpa [setAttribute] using new
  | cons first rest ih =>
      obtain ⟨other, old⟩ := first
      have later := ih fun pair member => all pair (List.mem_cons_of_mem _ member)
      by_cases same : other = name
      · subst same
        simp only [setAttribute, if_true]
        exact List.forall_mem_cons.mpr ⟨new, fun pair member => all pair (List.mem_cons_of_mem _ member)⟩
      · simp only [setAttribute, if_neg same]
        exact List.forall_mem_cons.mpr ⟨all _ (List.mem_cons_self ..), later⟩

/-- A name that is there stays where it is, and a new one comes last. -/
theorem setAttribute_names : (setAttribute name value attr).map (·.1) =
    if name ∈ attr.map (·.1) then attr.map (·.1) else attr.map (·.1) ++ [name] := by
  induction attr with
  | nil => simp [setAttribute]
  | cons first rest ih =>
      obtain ⟨other, old⟩ := first
      by_cases same : other = name
      · simp [setAttribute, same]
      · rw [setAttribute, if_neg same, List.map_cons, ih]
        by_cases member : name ∈ rest.map (·.1)
        · simp [member]
        · simp [member, Ne.symm same]

theorem setAttribute_nodup (distinct : (attr.map (·.1)).Nodup) :
    ((setAttribute name value attr).map (·.1)).Nodup := by
  rw [setAttribute_names]
  split
  · exact distinct
  · next new => exact List.nodup_append.mpr ⟨distinct, List.nodup_singleton _, by
      intro first member last single same
      exact new (List.mem_singleton.mp single ▸ same ▸ member)⟩

end Attribute

/-! What the tag keeps -/

section Set

variable {tag : Tag} {name value : Str}

@[simp] theorem ezxmlSetAttr_name (tag : Tag) (name value : Str) : (ezxmlSetAttr tag name value).name = tag.name := rfl

@[simp] theorem ezxmlSetAttr_off (tag : Tag) (name value : Str) : (ezxmlSetAttr tag name value).off = tag.off := rfl

theorem ezxmlAttr_self (tag : Tag) (name value : Str) : ezxmlAttr (ezxmlSetAttr tag name value) name = some value := by
  simp [ezxmlAttr, ezxmlSetAttr, Tag.attr, setAttribute_self]

theorem ezxmlAttr_other {other : Str} (differs : other ≠ name) :
    ezxmlAttr (ezxmlSetAttr tag name value) other = ezxmlAttr tag other := by
  cases tag
  simp [ezxmlAttr, ezxmlSetAttr, Tag.attr, setAttribute_other differs]

theorem ezxmlChild_setAttr (child : Str) :
    ezxmlChild (some (ezxmlSetAttr tag name value)) child = ezxmlChild (some tag) child := rfl

theorem ezxmlSetAttr_sound (sound : tag.Sound) (good : GoodAttribute (name, value)) :
    (ezxmlSetAttr tag name value).Sound := by
  cases tag
  rw [Tag.Sound] at sound
  rw [ezxmlSetAttr, Tag.Sound]
  exact ⟨sound.1, setAttribute_forall sound.2.1 good, sound.2.2⟩

theorem ezxmlSetAttr_plain (plain : tag.Plain) (noTab : 11 ∉ value) (noFeed : 12 ∉ value) :
    (ezxmlSetAttr tag name value).Plain := by
  cases tag
  rw [Tag.Plain] at plain
  rw [ezxmlSetAttr, Tag.Plain]
  exact ⟨setAttribute_nodup plain.1, setAttribute_forall plain.2.1 ⟨noTab, noFeed⟩, plain.2.2⟩

end Set

end Pisces.Xml
