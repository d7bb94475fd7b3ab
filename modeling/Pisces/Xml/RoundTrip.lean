import Pisces.Xml.Parse

/-! # Parsing what was printed

Each printed tag is read by one round of the parser's loop for its start, one
for each tag in it and one for its end.
-/

namespace Pisces.Xml

open Text

variable {e : UInt8} {name text rest d : Str} {attr before : List (Str × Str)} {cur : Cur} {frame : Frame}
  {outer : List Frame}

theorem decoded_eq {mode : Mode} {out : Str} (decodes : ezxmlDecode mode text = .ok out) :
    decoded mode text = .ok out := by
  rw [decoded, decodes]
  rfl

theorem decoded_text (terminated : 0 ∉ text) : decoded .text (ezxmlAmpencode false text) = .ok text :=
  decoded_eq ((decode_encoded false text terminated).trans
      (congrArg Except.ok ((map_kept_iff false text).mpr (.inl rfl))))

theorem decoded_attr (terminated : 0 ∉ text) (noTab : 11 ∉ text) (noFeed : 12 ∉ text) :
    decoded .attr (ezxmlAmpencode true text) = .ok text :=
  decoded_eq ((decode_encoded true text terminated).trans
    (congrArg Except.ok ((map_kept_iff true text).mpr (.inr ⟨noTab, noFeed⟩))))

/-! ## Attributes -/

theorem endsAttribute_cases {byte : UInt8} (inside : endsAttribute byte = false) :
    isWs byte = false ∧ byte ≠ 47 ∧ byte ≠ 62 ∧ byte ≠ 61 := by
  simp only [endsAttribute, endsName, Bool.or_eq_false_iff, beq_eq_false_iff_ne] at inside
  exact ⟨inside.1.1.1, inside.1.1.2, inside.1.2, inside.2⟩

/-- One printed attribute is one round of the loop. -/
theorem attributes_read {value : Str} (fuel : Nat) (good : GoodAttribute (name, value))
    (decodes : decoded .attr (ezxmlAmpencode true value) = .ok value) :
    attributes (fuel + 1) before (name ++ 61 :: 34 :: (ezxmlAmpencode true value ++ 34 :: rest)) =
      attributes fuel (before ++ [(name, value)]) (rest.dropWhile isSpace) := by
  have passes : ∀ byte ∈ name, (!endsAttribute byte) = true := by
    intro byte member
    rw [(good.name byte member).1]
    rfl
  have stops : ∀ byte, (61 :: 34 :: (ezxmlAmpencode true value ++ 34 :: rest)).head? = some byte →
      (!endsAttribute byte) = false := by
    intro byte first
    cases first
    rfl
  have taken := takeWhile_stop passes stops
  have dropped := dropWhile_stop passes stops
  have unquoted : ∀ byte ∈ ezxmlAmpencode true value, (byte != 34) = true := by
    intro byte member
    exact bne_iff_ne.mpr ((ampencode_free member).2.2.1 rfl)
  have closes : ∀ byte, (34 :: rest : Str).head? = some byte → (byte != 34) = false := by
    intro byte first
    cases first
    rfl
  obtain ⟨first, others, whole, goesOn⟩ : ∃ first others,
      name ++ 61 :: 34 :: (ezxmlAmpencode true value ++ 34 :: rest) = first :: others ∧ ¬ (first = 47 ∨ first = 62) := by
    cases name with
    | nil => exact ⟨61, _, rfl, by decide⟩
    | cons first others =>
        obtain ⟨_, notSlash, notEnd, _⟩ := endsAttribute_cases (good.name first (List.mem_cons_self ..)).1
        exact ⟨first, _, rfl, fun either => either.elim notSlash notEnd⟩
  rw [whole] at taken dropped ⊢
  rw [attributes]
  simp only [if_neg goesOn, taken, dropped]
  rw [if_pos (.inl trivial), List.dropWhile_cons_of_neg (by decide)]
  simp only [true_or, if_true]
  rw [dropWhile_stop unquoted closes, takeWhile_stop unquoted closes]
  simp only [decodes]

/-- What the parser and the printer agree on about an attribute -/
def Faithful (pair : Str × Str) : Prop :=
  GoodAttribute pair ∧ 11 ∉ pair.2 ∧ 12 ∉ pair.2

theorem attributes_printed {seen : List Str} {fuel : Nat} (faithful : ∀ pair ∈ attr, Faithful pair)
    (distinct : (attr.map (·.1)).Nodup) (fresh : ∀ name ∈ seen, name ∉ attr.map (·.1)) (enough : attr.length < fuel) :
    attributes fuel before ((attributesXml seen attr ++ 62 :: d).dropWhile isSpace) = .ok (before ++ attr, 62 :: d) := by
  obtain ⟨fuel, rfl⟩ : ∃ more, fuel = more + 1 := ⟨fuel - 1, by omega⟩
  induction attr generalizing before seen fuel with
  | nil =>
      rw [attributesXml, List.nil_append, List.dropWhile_cons_of_neg (by decide), List.append_nil]
      rfl
  | cons pair others ih =>
      obtain ⟨name, value⟩ := pair
      obtain ⟨good, noTab, noFeed⟩ := faithful _ (List.mem_cons_self ..)
      rw [List.map_cons, List.nodup_cons] at distinct
      have unseen : name ∉ seen := fun member => fresh name member (List.mem_cons_self ..)
      obtain ⟨fuel, rfl⟩ : ∃ more, fuel = more + 1 := ⟨fuel - 1, by simp only [List.length_cons] at enough; omega⟩
      have later := @ih (before ++ [(name, value)]) (name :: seen)
        (fun pair member => faithful pair (List.mem_cons_of_mem _ member)) distinct.2
        (by
          intro other member
          rcases List.mem_cons.mp member with rfl | member
          · exact distinct.1
          · exact fun inside => fresh other member (List.mem_cons_of_mem _ inside))
        fuel (by simp only [List.length_cons] at enough; omega)
      have printed : attributesXml seen ((name, value) :: others) ++ 62 :: d =
          32 :: (name ++ 61 :: 34 :: (ezxmlAmpencode true value ++
            34 :: (attributesXml (name :: seen) others ++ 62 :: d))) := by
        rw [attributesXml, if_neg unseen]
        simp only [List.append_assoc, List.cons_append, List.nil_append]
      have starts :
          (name ++ 61 :: 34 :: (ezxmlAmpencode true value ++
            34 :: (attributesXml (name :: seen) others ++ 62 :: d))).dropWhile isSpace =
          name ++ 61 :: 34 :: (ezxmlAmpencode true value ++ 34 :: (attributesXml (name :: seen) others ++ 62 :: d)) := by
        cases name with
        | nil => exact List.dropWhile_cons_of_neg (by decide)
        | cons first rest => exact List.dropWhile_cons_of_neg (by rw [good.start first rfl]; exact Bool.false_ne_true)
      rw [printed, List.dropWhile_cons_of_pos (by decide), starts,
        attributes_read (fuel + 1) good (decoded_attr good.value noTab noFeed), later, List.append_assoc]
      rfl

theorem attributesXml_length {seen : List Str} (distinct : (attr.map (·.1)).Nodup)
    (fresh : ∀ name ∈ seen, name ∉ attr.map (·.1)) : attr.length ≤ (attributesXml seen attr).length := by
  induction attr generalizing seen with
  | nil => exact Nat.zero_le _
  | cons pair others ih =>
      obtain ⟨name, value⟩ := pair
      rw [List.map_cons, List.nodup_cons] at distinct
      have unseen : name ∉ seen := fun member => fresh name member (List.mem_cons_self ..)
      have later := @ih (name :: seen) distinct.2 (by
        intro other member
        rcases List.mem_cons.mp member with rfl | member
        · exact distinct.1
        · exact fun inside => fresh other member (List.mem_cons_of_mem _ inside))
      rw [attributesXml, if_neg unseen]
      simp only [List.length_append, List.length_cons]
      omega

theorem attributesXml_head (attr : List (Str × Str)) (d : Str) :
    ∀ byte, (attributesXml [] attr ++ 62 :: d).head? = some byte → (!endsName byte) = false := by
  intro byte first
  cases attr with
  | nil =>
      cases first
      rfl
  | cons pair others =>
      rw [attributesXml, if_neg List.not_mem_nil] at first
      cases first
      rfl

/-! ## Tags -/

/-- There is a tag to go into, or there is none yet. -/
def Cur.Open : Cur → Prop
  | .fresh | .inside _ _ => True
  | .closed _ => False

theorem startTag_printed (opened : cur.Open) (good : GoodName name) (faithful : ∀ pair ∈ attr, Faithful pair)
    (distinct : (attr.map (·.1)).Nodup) :
    startTag e cur (name ++ (attributesXml [] attr ++ 62 :: d)) = .ok (ezxmlOpenTag cur name attr, 62 :: d) := by
  have passes : ∀ byte ∈ name, (!endsName byte) = true := by
    intro byte member
    rw [(good.inside byte member).1]
    rfl
  have read := @attributes_printed d attr [] [] ((name ++ (attributesXml [] attr ++ 62 :: d)).length + 1)
      faithful distinct
    (fun _ member => absurd member List.not_mem_nil) (by
      have length := attributesXml_length distinct (fun name (member : name ∈ []) => absurd member List.not_mem_nil)
      simp only [List.length_append]
      omega)
  have rest : startTag e cur (name ++ (attributesXml [] attr ++ 62 :: d)) = (do
      let found ← attributes ((name ++ (attributesXml [] attr ++ 62 :: d)).length + 1) []
        ((attributesXml [] attr ++ 62 :: d).dropWhile isSpace)
      openedTag e cur name found.1 found.2) := by
    cases cur with
    | closed root => exact opened.elim
    | fresh | inside frame outer =>
        simp only [startTag, takeWhile_stop passes (attributesXml_head attr d),
          dropWhile_stop passes (attributesXml_head attr d)]
  rw [rest, read]
  rfl

theorem markup_start (opened : cur.Open) (good : GoodName name) (faithful : ∀ pair ∈ attr, Faithful pair)
    (distinct : (attr.map (·.1)).Nodup) :
    markup e cur (name ++ (attributesXml [] attr ++ 62 :: d)) = .ok (ezxmlOpenTag cur name attr, 62 :: d) := by
  have read := @startTag_printed e name d attr cur opened good faithful distinct
  obtain ⟨first, others, rfl, starts⟩ := good.start
  rw [List.cons_append] at read ⊢
  rw [markup, if_pos starts]
  exact read

/-- The end of the innermost tag -/
def closeFrame (frame : Frame) : List Frame → Cur
  | [] => .closed frame.tag
  | parent :: outer => .inside { parent with children := parent.children ++ [frame.tag] } outer

theorem closeTag_eq (frame : Frame) (outer : List Frame) :
    ezxmlCloseTag (.inside frame outer) frame.name = .ok (closeFrame frame outer) := by
  cases outer <;> simp only [ezxmlCloseTag, if_true, closeFrame]

/-- `rest` is empty at the end of the document, or starts with the end of the markup. -/
theorem markup_end (good : GoodName frame.name) (ends : rest = [] ∧ e = 62 ∨ rest.head? = some 62) :
    markup e (.inside frame outer) (47 :: frame.name ++ rest) = .ok (closeFrame frame outer, rest) := by
  have passes : ∀ byte ∈ frame.name, (!(isWs byte || byte == 62)) = true := by
    intro byte member
    have inside := (good.inside byte member).1
    simp only [endsName, Bool.or_eq_false_iff] at inside
    rw [inside.1.1, inside.2]
    rfl
  have stops : ∀ byte, rest.head? = some byte → (!(isWs byte || byte == 62)) = false := by
    intro byte first
    rcases ends with ⟨rfl, _⟩ | greater
    · cases first
    · rw [greater] at first
      cases first
      rfl
  have noSpace : rest.dropWhile isWs = rest := by
    rcases ends with ⟨rfl, _⟩ | greater
    · rfl
    · obtain ⟨d, rfl⟩ : ∃ d, rest = 62 :: d := by
        cases rest with
        | nil => cases greater
        | cons first d => exact ⟨d, by rw [Option.some.inj greater]⟩
      exact List.dropWhile_cons_of_neg (by decide)
  have complete : ¬ (rest = [] ∧ e ≠ 62) := by
    rintro ⟨empty, other⟩
    rcases ends with ⟨_, same⟩ | greater
    · exact other same
    · rw [empty] at greater
      cases greater
  rw [List.cons_append, markup, if_neg (by decide), if_pos rfl]
  simp only [endTag, takeWhile_stop passes stops, dropWhile_stop passes stops, if_neg complete, closeTag_eq, noSpace]
  rfl

/-! ## Text between tags -/

theorem content_printed {piece : Str} (terminated : 0 ∉ piece) (frame : Frame) (outer : List Frame) (s : Str) :
    content (.inside frame outer) (ezxmlAmpencode false piece ++ 60 :: s) =
      .ok (.inside { frame with txt := frame.txt ++ piece } outer, some s) := by
  have passes : ∀ byte ∈ ezxmlAmpencode false piece, (byte != 60) = true := by
    intro byte member
    exact bne_iff_ne.mpr (ampencode_free member).2.1
  have stops : ∀ byte, (60 :: s : Str).head? = some byte → (byte != 60) = false := by
    intro byte first
    cases first
    rfl
  have same := decoded_text terminated
  simp only [content, takeWhile_stop passes stops, dropWhile_stop passes stops]
  split
  · rename_i empty
    have nothing : piece = [] := by
      rw [empty] at same
      exact (Except.ok.inj same).symm
    rw [nothing, List.append_nil]
  · simp only [ezxmlCharContent, same]
    rfl

theorem take_textUpTo {txt : Str} {start off : Nat} (ordered : start ≤ off) :
    txt.take start ++ textUpTo txt start off = txt.take off := by
  rw [textUpTo, if_pos ordered, ← List.take_add, Nat.add_sub_cancel' ordered]

theorem textUpTo_terminated {txt : Str} (terminated : 0 ∉ txt) (start off : Nat) : 0 ∉ textUpTo txt start off := by
  intro member
  unfold textUpTo at member
  split at member
  · exact terminated (List.mem_of_mem_drop (List.mem_of_mem_take member))
  · exact terminated (List.mem_of_mem_drop member)

/-! ## Rounds -/

/-- Some rounds of the loop, at most one for each byte that they read -/
def Reads (e : UInt8) (cur : Cur) (s : Str) (after : Cur) (rest : Str) : Prop :=
  ∃ rounds, rounds + rest.length ≤ s.length ∧
    ∀ fuel, parseLoop e (fuel + rounds) cur s = parseLoop e fuel after rest

variable {after middle : Cur} {s : Str}

theorem Reads.refl (e : UInt8) (cur : Cur) (s : Str) : Reads e cur s cur s :=
  ⟨0, by omega, fun _ => rfl⟩

theorem Reads.trans (first : Reads e cur s middle text) (second : Reads e middle text after rest) :
    Reads e cur s after rest := by
  obtain ⟨earlier, shorter, reads⟩ := first
  obtain ⟨later, shortest, goesOn⟩ := second
  refine ⟨later + earlier, by omega, ?_⟩
  intro fuel
  rw [← Nat.add_assoc, reads, goesOn]

theorem Reads.round {last : UInt8} (read : markup e cur s = .ok (middle, last :: d))
    (text : content middle d = .ok (after, some rest)) (shorter : rest.length < s.length) : Reads e cur s after rest := by
  refine ⟨1, by omega, ?_⟩
  intro fuel
  rw [parseLoop, read]
  simp only [bind, Except.bind, text]

/-- The tags around one that is opened -/
def Cur.stack : Cur → List Frame
  | .inside frame outer => frame :: outer
  | .fresh | .closed _ => []

/-- The offset of a tag that is opened -/
def Cur.offset : Cur → Nat
  | .inside frame _ => frame.txt.length
  | .fresh | .closed _ => 0

theorem openTag_eq (cur : Cur) (name : Str) (attr : List (Str × Str)) :
    ezxmlOpenTag cur name attr = .inside ⟨name, attr, [], cur.offset, []⟩ cur.stack := by
  cases cur <;> rfl

theorem toxml_eq (tag : Tag) :
    tag.toxml = 60 :: (tag.name ++ (attributesXml [] tag.attr ++ 62 :: (contentXml tag.txt 0 tag.children ++
      60 :: 47 :: (tag.name ++ [62])))) := by
  cases tag
  simp only [Tag.toxml, Tag.name, Tag.attr, Tag.txt, Tag.children, List.cons_append, List.append_assoc, List.nil_append]

theorem soundFrom_le {length start : Nat} {children : List Tag} (sound : SoundFrom length start children) :
    start ≤ length := by
  induction children generalizing start with
  | nil => exact sound
  | cons child rest ih => exact sound.1.trans (ih sound.2.2)

theorem goodName_of_sound {tag : Tag} (sound : tag.Sound) : GoodName tag.name := by
  cases tag
  exact sound.1

mutual

/-- A printed tag is read up to its end tag. -/
theorem Tag.read (e : UInt8) : ∀ (tag : Tag) (cur : Cur) (rest : Str), tag.Sound → tag.Plain → cur.Open →
    cur.offset = tag.off →
    Reads e cur (tag.name ++ (attributesXml [] tag.attr ++ 62 :: (contentXml tag.txt 0 tag.children ++
        60 :: 47 :: (tag.name ++ rest))))
      (.inside ⟨tag.name, tag.attr, tag.txt, tag.off, tag.children⟩ cur.stack) (47 :: (tag.name ++ rest))
  | .mk name attr txt off children, cur, rest, sound, plain, opened, offset => by
      obtain ⟨good, goodAttr, terminated, inside⟩ := sound
      obtain ⟨distinct, noSpaces, plainChildren⟩ := plain
      have faithful : ∀ pair ∈ attr, Faithful pair := fun pair member => ⟨goodAttr pair member, noSpaces pair member⟩
      have started := @markup_start e name
        (contentXml txt 0 children ++ 60 :: 47 :: (name ++ rest)) attr cur opened good faithful distinct
      rw [openTag_eq, show cur.offset = off from offset] at started
      obtain ⟨middle, next, text, shorter, reads⟩ := children_read e children ⟨name, attr, [], off, []⟩ cur.stack txt 0
        (47 :: (name ++ rest)) inside plainChildren terminated rfl
      refine (Reads.round started text ?_).trans reads
      simp only [List.length_append, List.length_cons] at shorter ⊢
      omega

/-- The printed content of a tag is read up to the tag's end. -/
theorem children_read (e : UInt8) : ∀ (children : List Tag) (frame : Frame) (outer : List Frame) (txt : Str) (start : Nat)
    (s : Str), SoundFrom txt.length start children → AllPlain children → 0 ∉ txt → frame.txt = txt.take start →
    ∃ middle next, content (.inside frame outer) (contentXml txt start children ++ 60 :: s) = .ok (middle, some next) ∧
      next.length ≤ (contentXml txt start children ++ s).length ∧
      Reads e middle next (.inside { frame with txt := txt, children := frame.children ++ children } outer) s
  | [], frame, outer, txt, start, s, inside, plain, terminated, read => by
      have dropped : 0 ∉ txt.drop start := fun member => terminated (List.mem_of_mem_drop member)
      refine ⟨_, _, content_printed dropped frame outer s, ?_, ?_⟩
      · rw [List.length_append]
        omega
      · rw [read, List.take_append_drop, List.append_nil]
        exact .refl e _ s
  | child :: rest, frame, outer, txt, start, s, inside, plain, terminated, read => by
      obtain ⟨ordered, sound, others⟩ := inside
      have fits := soundFrom_le others
      let before : Frame := { frame with txt := frame.txt ++ textUpTo txt start child.off }
      let behind := contentXml txt child.off rest ++ 60 :: s
      have taken : before.txt = txt.take child.off := by
        rw [← take_textUpTo ordered, ← read]
      have offset : (Cur.inside before outer).offset = child.off := by
        rw [Cur.offset, taken, List.length_take]
        omega
      have printed : contentXml txt start (child :: rest) ++ 60 :: s =
          ezxmlAmpencode false (textUpTo txt start child.off) ++ 60 :: (child.name ++ (attributesXml [] child.attr ++
            62 :: (contentXml child.txt 0 child.children ++ 60 :: 47 :: (child.name ++ 62 :: behind)))) := by
        rw [contentXml, toxml_eq, Nat.min_eq_right fits]
        simp only [List.append_assoc, List.cons_append, List.nil_append, behind]
      have within := Tag.read e child (.inside before outer) (62 :: behind) sound plain.1 trivial offset
      have ended := @markup_end e (62 :: behind) ⟨child.name, child.attr, child.txt, child.off, child.children⟩
        (before :: outer) (goodName_of_sound sound) (.inr rfl)
      obtain ⟨middle, next, text, shorter, reads⟩ := children_read e rest
        { before with children := before.children ++ [child] } outer txt child.off s others plain.2 terminated taken
      have closed : closeFrame ⟨child.name, child.attr, child.txt, child.off, child.children⟩ (before :: outer) =
          .inside { before with children := before.children ++ [child] } outer := by
        cases child
        rfl
      rw [closed] at ended
      have last : Reads e (.inside ⟨child.name, child.attr, child.txt, child.off, child.children⟩ (before :: outer))
          (47 :: (child.name ++ 62 :: behind)) middle next := by
        refine .round ended text ?_
        simp only [List.length_append, List.length_cons, behind] at shorter ⊢
        omega
      rw [printed]
      refine ⟨_, _, content_printed (textUpTo_terminated terminated start child.off) frame outer _, ?_, ?_⟩
      · have length := congrArg List.length printed
        simp only [List.length_append, List.length_cons] at length ⊢
        omega
      · rw [show frame.children ++ child :: rest = before.children ++ [child] ++ rest by
          rw [List.append_assoc]
          rfl]
        exact (within.trans last).trans reads

end

/-! ## Whole documents -/

theorem attributesXml_terminated {seen : List Str} (good : ∀ pair ∈ attr, GoodAttribute pair) :
    0 ∉ attributesXml seen attr := by
  induction attr generalizing seen with
  | nil => exact List.not_mem_nil
  | cons pair others ih =>
      have later := @ih (pair.1 :: seen) fun other member => good other (List.mem_cons_of_mem _ member)
      have here := good pair (List.mem_cons_self ..)
      have value : 0 ∉ ezxmlAmpencode true pair.2 := fun member => here.value ((ampencode_free member).2.2.2 rfl)
      have name : 0 ∉ pair.1 := fun member => (here.name 0 member).2 rfl
      rw [attributesXml]
      split
      · exact later
      · simp [later, value, name]

theorem ampencode_terminated (a : Bool) (terminated : 0 ∉ text) : 0 ∉ ezxmlAmpencode a text :=
  fun member => terminated ((ampencode_free member).2.2.2 rfl)

mutual

theorem Tag.toxml_terminated : ∀ tag : Tag, tag.Sound → 0 ∉ tag.toxml
  | .mk name attr txt off children, sound => by
      obtain ⟨good, goodAttr, terminated, inside⟩ := sound
      have named : 0 ∉ name := fun member => (good.inside 0 member).2 rfl
      have attributed : 0 ∉ attributesXml [] attr := attributesXml_terminated goodAttr
      have content := contentXml_terminated children txt.length 0 txt 0 terminated inside
      simp only [Tag.toxml, List.mem_append, List.mem_cons, List.not_mem_nil, named, attributed, content, or_false,
        not_or]
      decide

theorem contentXml_terminated : ∀ (children : List Tag) (length from_ : Nat) (txt : Str) (start : Nat), 0 ∉ txt →
    SoundFrom length from_ children → 0 ∉ contentXml txt start children
  | [], _, _, txt, start, terminated, _ => by
      rw [contentXml]
      exact ampencode_terminated false fun member => terminated (List.mem_of_mem_drop member)
  | child :: rest, length, from_, txt, start, terminated, sound => by
      have text := ampencode_terminated false (textUpTo_terminated terminated start child.off)
      have tag := Tag.toxml_terminated child sound.2.1
      have others := contentXml_terminated rest length child.off txt (min txt.length child.off) terminated sound.2.2
      simp only [contentXml, List.mem_append, text, tag, others, or_self, not_false_eq_true]

end

/-- The root is read to the end of the document, whose last byte is kept aside. -/
theorem parseLoop_root {tag : Tag} (sound : tag.Sound) (plain : tag.Plain) (first : tag.off = 0) {inner : Str}
    (printed : inner = tag.name ++ (attributesXml [] tag.attr ++ 62 :: (contentXml tag.txt 0 tag.children ++
      60 :: 47 :: (tag.name ++ [])))) : parseLoop 62 (inner.length + 1) .fresh inner = .ok (.closed tag) := by
  obtain ⟨rounds, shorter, reads⟩ := Tag.read 62 tag .fresh [] sound plain trivial first.symm
  rw [← printed] at shorter reads
  obtain ⟨fuel, more⟩ : ∃ fuel, inner.length + 1 = fuel + 1 + rounds :=
    ⟨inner.length - rounds, by simp only [List.length_cons] at shorter; omega⟩
  have ended := @markup_end 62 [] ⟨tag.name, tag.attr, tag.txt, tag.off, tag.children⟩ [] (goodName_of_sound sound)
    (.inl ⟨rfl, rfl⟩)
  rw [more, reads, parseLoop, show Cur.stack .fresh = [] from rfl]
  simp only [List.cons_append] at ended
  simp only [ended, bind, Except.bind, closeFrame]
  cases tag
  rfl

/-- What `ezxml_toxml` prints, `ezxml_parse_str` reads. -/
theorem parse_toxml {tag : Tag} (sound : tag.Sound) (plain : tag.Plain) (first : tag.off = 0) :
    ezxmlParseStr tag.toxml = .ok tag := by
  obtain ⟨inner, same⟩ : ∃ inner, inner = tag.name ++ (attributesXml [] tag.attr ++
    62 :: (contentXml tag.txt 0 tag.children ++ 60 :: 47 :: (tag.name ++ []))) := ⟨_, rfl⟩
  have whole : tag.toxml = 60 :: inner ++ [62] := by
    rw [toxml_eq, same]
    simp only [List.append_assoc, List.cons_append, List.append_nil]
  have terminated : 0 ∉ (60 :: inner : Str) := by
    have all := tag.toxml_terminated sound
    rw [whole, List.mem_append, not_or] at all
    exact all.1
  rw [whole, ezxmlParseStr, List.getLast?_concat]
  simp only [List.dropLast_concat, cut_eq _ terminated]
  rw [if_neg (by simp), List.dropWhile_cons_of_neg (by decide)]
  simp only [parseLoop_root sound plain first same, Except.bind, finish]

end Pisces.Xml
