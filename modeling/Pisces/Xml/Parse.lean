import Pisces.Xml.Tree

/-! # Parsing

`ezxml_parse_str` on the bytes before the first terminator, of which the last one
is kept aside.  Neither UTF-16 nor a document type with declarations of its own nor
a processing instruction that the tree keeps is followed further, and a string
that `ezxml_decode` leaves is not either.
-/

namespace Pisces.Xml

open Text

inductive Error where
  | rootTagMissing
  | markupOutside
  | missing (quote : UInt8)
  | unclosedComment
  | unclosedCdata
  | unclosedDoctype
  | unclosedInstruction
  | unexpectedLess
  | unexpectedClosing (name : Str)
  | unclosedTag (name : Str)
  /-- beyond the model -/
  | unfollowed
  | fault (fault : Fault)
  | fuel
  deriving DecidableEq

/-- Whether `ezxml_error` has a message -/
def Error.reported : Error → Bool
  | .unfollowed | .fault _ | .fuel => false
  | _ => true

/-- An open tag and its children so far -/
structure Frame where
  name : Str
  attr : List (Str × Str)
  txt : Str
  off : Nat
  children : List Tag

def Frame.tag (frame : Frame) : Tag :=
  .mk frame.name frame.attr frame.txt frame.off frame.children

/-- `root->cur`, with the tags around it -/
inductive Cur where
  | fresh
  | inside (frame : Frame) (outer : List Frame)
  | closed (root : Tag)

/-- What is decoded, for which there is always memory -/
def decoded (mode : Mode) (text : Str) : Except Error Str :=
  (ezxmlDecode mode text).mapError .fault

/-- `ezxml_open_tag` -/
def ezxmlOpenTag (cur : Cur) (name : Str) (attr : List (Str × Str)) : Cur :=
  match cur with
  | .inside frame outer => .inside ⟨name, attr, [], frame.txt.length, []⟩ (frame :: outer)
  | .fresh | .closed _ => .inside ⟨name, attr, [], 0, []⟩ []

/-- `ezxml_char_content` -/
def ezxmlCharContent (cur : Cur) (mode : Mode) (text : Str) : Except Error Cur :=
  match cur with
  | .inside frame outer =>
      (decoded mode text).map fun text => .inside { frame with txt := frame.txt ++ text } outer
  | .fresh | .closed _ => .ok cur

/-- `ezxml_close_tag` -/
def ezxmlCloseTag (cur : Cur) (name : Str) : Except Error Cur :=
  match cur with
  | .inside frame outer =>
      if frame.name = name then
        match outer with
        | [] => .ok (.closed frame.tag)
        | parent :: outer => .ok (.inside { parent with children := parent.children ++ [frame.tag] } outer)
      else .error (.unexpectedClosing name)
  | .fresh | .closed _ => .error (.unexpectedClosing name)

/-- The loop over the attributes of a tag -/
def attributes : Nat → List (Str × Str) → Str → Except Error (List (Str × Str) × Str)
  | 0, _, _ => .error .fuel
  | fuel + 1, attr, s =>
      match s with
      | [] => .ok (attr, [])
      | first :: _ =>
          if first = 47 ∨ first = 62 then .ok (attr, s)
          else
            let name := s.takeWhile fun byte => !endsAttribute byte
            match s.dropWhile fun byte => !endsAttribute byte with
            | [] => attributes fuel (attr ++ [(name, [])]) []
            | ending :: rest =>
                if ending = 61 ∨ isSpace ending then
                  match rest.dropWhile fun byte => isWs byte || byte == 61 with
                  | [] => attributes fuel (attr ++ [(name, [])]) []
                  | quote :: body =>
                      if quote = 34 ∨ quote = 39 then
                        match body.dropWhile (· != quote) with
                        | [] => .error (.missing quote)
                        | _ :: rest =>
                            match decoded .attr (body.takeWhile (· != quote)) with
                            | .ok value => attributes fuel (attr ++ [(name, value)]) (rest.dropWhile isSpace)
                            | .error error => .error error
                      else attributes fuel (attr ++ [(name, [])]) ((quote :: body).dropWhile isSpace)
                else attributes fuel (attr ++ [(name, [])]) ((ending :: rest).dropWhile isSpace)

/-- `strstr`: the text before the needle, and the text from the needle on -/
def strstr (needle : Str) : Str → Option (Str × Str)
  | [] => none
  | byte :: rest =>
      if needle.isPrefixOf (byte :: rest) then some ([], byte :: rest)
      else (strstr needle rest).map fun (before, found) => (byte :: before, found)

/-- The loop over a document type: whether it has declarations, and where it
ends.  The bytes that `strcspn` passes over are bytes at which the loop goes on. -/
def doctype (l : Bool) : Str → Bool × Str
  | [] => (l, [])
  | byte :: rest =>
      if (!l && byte != 62) || (l && (byte != 93 || (rest.dropWhile isWs).head? != some 62)) then
        doctype (l || rest.head? == some 91) rest
      else (l, byte :: rest)

/-- The loop over a processing instruction -/
def instruction : Str → Option Str
  | [] => none
  | byte :: rest =>
      if byte = 63 then
        match rest with
        | [] => some []
        | next :: _ => if next = 62 then some rest else instruction rest
      else instruction rest

/-- Whether `ezxml_proc_inst` leaves nothing of an instruction in the tree -/
def isDeclaration (text : Str) : Bool :=
  text.takeWhile (fun byte => !isWs byte) == [120, 109, 108]

/-- What follows the attributes of a start tag; `e` is the last byte of the document. -/
def openedTag (e : UInt8) (cur : Cur) (name : Str) (attr : List (Str × Str)) : Str → Except Error (Cur × Str)
  | 47 :: s =>
      if s.head? = some 62 ∨ s = [] ∧ e = 62 then do
        let cur ← ezxmlCloseTag (ezxmlOpenTag cur name attr) name
        return (cur, s)
      else throw (.missing 62)
  | 62 :: s => return (ezxmlOpenTag cur name attr, 62 :: s)
  | [] => if e = 62 then return (ezxmlOpenTag cur name attr, []) else throw (.missing 62)
  | _ => throw (.missing 62)

/-- A start tag -/
def startTag (e : UInt8) (cur : Cur) (s : Str) : Except Error (Cur × Str) := do
  if let .closed _ := cur then throw .markupOutside
  let name := s.takeWhile fun byte => !endsName byte
  let found ← attributes (s.length + 1) [] ((s.dropWhile fun byte => !endsName byte).dropWhile isSpace)
  openedTag e cur name found.1 found.2

/-- An end tag, behind its slash -/
def endTag (e : UInt8) (cur : Cur) (s : Str) : Except Error (Cur × Str) := do
  let name := s.takeWhile fun byte => !(isWs byte || byte == 62)
  let s := s.dropWhile fun byte => !(isWs byte || byte == 62)
  if s = [] ∧ e ≠ 62 then throw (.missing 62)
  let cur ← ezxmlCloseTag cur name
  return (cur, s.dropWhile isWs)

/-- The part of the loop behind a `<`: the tree, and the text from the last byte
of the markup on -/
def markup (e : UInt8) (cur : Cur) (s : Str) : Except Error (Cur × Str) :=
  match s with
  | [] => .error .unexpectedLess
  | first :: rest =>
      if isNameStart first then startTag e cur s
      else if first = 47 then endTag e cur rest
      else if List.isPrefixOf [33, 45, 45] s then
        match strstr [45, 45] (s.drop 3) with
        | some (_, found) =>
            if (found.drop 2).head? = some 62 ∨ found.drop 2 = [] ∧ e = 62 then .ok (cur, found.drop 2)
            else .error .unclosedComment
        | none => .error .unclosedComment
      else if List.isPrefixOf [33, 91, 67, 68, 65, 84, 65, 91] s then
        match strstr [93, 93, 62] s with
        | some (before, found) =>
            (ezxmlCharContent cur .cdata (before.drop 8)).map fun cur => (cur, found.drop 2)
        | none => .error .unclosedCdata
      else if List.isPrefixOf [33, 68, 79, 67, 84, 89, 80, 69] s then
        let (l, s) := doctype false s
        if s = [] ∧ e ≠ 62 then .error .unclosedDoctype
        else if l then .error .unfollowed
        else .ok (cur, s)
      else if first = 63 then
        match instruction s with
        | some s =>
            if s = [] ∧ e ≠ 62 then .error .unclosedInstruction
            else if isDeclaration (rest.take (rest.length - s.length - 1)) then .ok (cur, s)
            else .error .unfollowed
        | none => .error .unclosedInstruction
      else .error .unexpectedLess

/-- What follows the last byte of a markup: text up to the next `<`, if there is one -/
def content (cur : Cur) (d : Str) : Except Error (Cur × Option Str) :=
  match d.dropWhile (· != 60) with
  | [] => .ok (cur, none)
  | _ :: s =>
      if d.takeWhile (· != 60) = [] then .ok (cur, some s)
      else (ezxmlCharContent cur .text (d.takeWhile (· != 60))).map fun cur => (cur, some s)

/-- The loop of `ezxml_parse_str` -/
def parseLoop (e : UInt8) : Nat → Cur → Str → Except Error Cur
  | 0, _, _ => .error .fuel
  | fuel + 1, cur, s => do
      let (cur, s) ← markup e cur s
      match s with
      | [] => return cur
      | _ :: d =>
          match ← content cur d with
          | (cur, none) => return cur
          | (cur, some s) => parseLoop e fuel cur s

def finish : Cur → Except Error Tag
  | .closed root => .ok root
  | .fresh => .error .rootTagMissing
  | .inside frame _ => .error (.unclosedTag frame.name)

/-- `ezxml_parse_str`: the tree, or the error that `ezxml_error` reports -/
def ezxmlParseStr (text : Str) : Except Error Tag :=
  match text.getLast? with
  | none => .error .rootTagMissing
  | some e =>
      if text.head? = some 254 ∨ text.head? = some 255 then .error .unfollowed
      else
        match (cut text.dropLast).dropWhile (· != 60) with
        | [] => .error .rootTagMissing
        | _ :: s => (parseLoop e (s.length + 1) .fresh s).bind finish

end Pisces.Xml
