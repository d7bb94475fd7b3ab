import Pisces.User.Image
import Pisces.Xml.Accepted

/-! # `v3_create` from the description to the image

`open_xml_file`, `parse_aux_files` and `build_image` together: the description is
parsed, every file in it gets an index, and the new description goes into the
image in front of the files.
-/

namespace Pisces.Config

open Text Image
open Xml (Str Tag Error cut SoundFrom AllPlain GoodAttribute setAttribute ezxmlParseStr ezxmlAttr ezxmlChild
    ezxmlSetAttr ezxmlToxml named)

/-- `open_xml_file`, for a file that cannot be opened and for what is in it -/
def openXmlFile : Option Str → Except Error (Option Tag)
  | none => .ok none
  | some text =>
      match ezxmlParseStr text with
      | .ok tag => .ok (some tag)
      | .error error => if error.reported then .ok none else .error error

/-- `ezxml_txt` -/
def ezxmlTxt : Option Tag → Str
  | some tag => tag.txt
  | none => []

/-- `get_val` -/
def getVal (cfg : Tag) (tag : Str) : Except Stop Str :=
  match ezxmlAttr cfg tag, ezxmlChild (some cfg) tag with
  | some _, some _ => .error .exited
  | some attrib, none => .ok attrib
  | none, txt => .ok (ezxmlTxt txt)

/-- `"files"`, `"file"`, `"filename"`, `"id"` and `"index"` -/
def filesName : Str := [102, 105, 108, 101, 115]

def fileName : Str := [102, 105, 108, 101]

def filenameName : Str := [102, 105, 108, 101, 110, 97, 109, 101]

def idName : Str := [105, 100]

def indexName : Str := [105, 110, 100, 101, 120]

/-- A round of the loop of `parse_aux_files`; a name that fills its field runs into
the id behind it. -/
def auxFile (disk : Str → Source) (files : List FileInfo) (tag : Tag) : Except Stop (List FileInfo × Tag) := do
  let filename ← getVal tag filenameName
  let _ ← getVal tag idName
  let after ← parseAuxFiles files [disk filename]
  if filename.length < 2048 then
    return (after, ezxmlSetAttr tag indexName (decimal files.length))
  else .error .outside

/-- The loop of `parse_aux_files` over the children of the tag `files` -/
def auxFiles (disk : Str → Source) (files : List FileInfo) : List Tag → Except Stop (List FileInfo × List Tag)
  | [] => .ok (files, [])
  | tag :: rest =>
      if tag.name == fileName then do
        let (files, tag) ← auxFile disk files tag
        let (files, rest) ← auxFiles disk files rest
        return (files, tag :: rest)
      else do
        let (files, rest) ← auxFiles disk files rest
        return (files, tag :: rest)

/-- A tag with other children in it -/
def withChildren (tag : Tag) (children : List Tag) : Tag :=
  .mk tag.name tag.attr tag.txt tag.off children

/-- `parse_aux_files` on the children of the root, the first tag `files` of which is looked at -/
def parseAuxFilesIn (disk : Str → Source) : List Tag → Except Stop (List FileInfo × List Tag)
  | [] => .ok ([], [])
  | child :: rest =>
      if child.name == filesName then do
        let (files, inner) ← auxFiles disk [] child.children
        return (files, withChildren child inner :: rest)
      else do
        let (files, rest) ← parseAuxFilesIn disk rest
        return (files, child :: rest)

/-- `parse_aux_files` -/
def parseAuxFilesOf (disk : Str → Source) : Option Tag → Except Stop (List FileInfo × Option Tag)
  | none => .ok ([], none)
  | some cfg => do
      let (files, children) ← parseAuxFilesIn disk cfg.children
      return (files, some (withChildren cfg children))

/-- The new description, as far as `strlen` looks -/
def newXmlStr (cfg : Option Tag) : CString :=
  ⟨cut (ezxmlToxml cfg), Xml.cut_terminated _⟩

/-- The data blob of `build_image` for a description -/
def buildImage (disk : Str → Source) (cfg : Option Tag) : Except Stop (List UInt8) := do
  let (files, cfg) ← parseAuxFilesOf disk cfg
  let xml := newXmlStr cfg
  if guestImgSize xml files < 0 then
    .error .noMemory
  else
    writeImage xml files (List.replicate (guestImgSize xml files).toNat 0)

/-! ## The new description -/

/-- The files from the one with number `index` on, among other tags -/
def numberFrom (index : Nat) : List Tag → List Tag
  | [] => []
  | tag :: rest =>
      if tag.name == fileName then ezxmlSetAttr tag indexName (decimal index) :: numberFrom (index + 1) rest
      else tag :: numberFrom index rest

def numberFiles : List Tag → List Tag
  | [] => []
  | child :: rest =>
      if child.name == filesName then withChildren child (numberFrom 0 child.children) :: rest
      else child :: numberFiles rest

/-- The description in which every file has its index -/
def numbered (cfg : Tag) : Tag :=
  withChildren cfg (numberFiles cfg.children)

/-- The tags that `parse_aux_files` goes through -/
def fileTags (cfg : Tag) : List Tag :=
  named (ezxmlChild (some cfg) filesName) fileName

/-- The tag names a file that has this content. -/
def Holds (disk : Str → Source) (tag : Tag) (content : Str) : Prop :=
  ∃ filename id, getVal tag filenameName = .ok filename ∧ getVal tag idName = .ok id ∧ filename.length < 2048 ∧
    (disk filename).Delivers content

/-- The files of a description are the contents of an image, each with its number. -/
structure Describes (disk : Str → Source) (cfg : Tag) (contents : List Str) : Prop where
  count : (fileTags cfg).length = contents.length
  index : ∀ number (bound : number < (fileTags cfg).length),
    ezxmlAttr (fileTags cfg)[number] indexName = some (decimal number)
  content : List.Forall₂ (Holds disk) (fileTags cfg) contents

/-! ## Numbering keeps the description in order -/

variable {disk : Str → Source} {tag cfg : Tag} {children others : List Tag} {contents : List Str} {content : Str}
  {files : List FileInfo} {length start : Nat}

theorem goodAttribute_index (number : Nat) : GoodAttribute (indexName, decimal number) where
  start := by
    intro first head
    cases head
    decide
  name := by simp [indexName, Xml.endsAttribute, Xml.endsName, Xml.isWs]
  value := fun member => absurd (isDigit_decimal 0 member) (by decide)

/-- A tag in place of another one -/
structure Kept (old new : Tag) : Prop where
  off : new.off = old.off
  sound : old.Sound → new.Sound
  plain : old.Plain → new.Plain

theorem Kept.refl (tag : Tag) : Kept tag tag :=
  ⟨rfl, id, id⟩

theorem indexed_kept (tag : Tag) (index : Nat) : Kept tag (ezxmlSetAttr tag indexName (decimal index)) where
  off := rfl
  sound sound := Xml.ezxmlSetAttr_sound sound (goodAttribute_index index)
  plain plain := Xml.ezxmlSetAttr_plain plain (fun member => absurd (isDigit_decimal 11 member) (by decide))
    (fun member => absurd (isDigit_decimal 12 member) (by decide))

theorem soundFrom_kept (kept : List.Forall₂ Kept children others) (sound : SoundFrom length start children) :
    SoundFrom length start others := by
  induction kept generalizing start with
  | nil => exact sound
  | cons first _ ih =>
      rw [SoundFrom] at sound ⊢
      rw [first.off]
      exact ⟨sound.1, first.sound sound.2.1, ih sound.2.2⟩

theorem allPlain_kept (kept : List.Forall₂ Kept children others) (plain : AllPlain children) : AllPlain others := by
  induction kept with
  | nil => exact plain
  | cons first _ ih =>
      rw [AllPlain] at plain ⊢
      exact ⟨first.plain plain.1, ih plain.2⟩

theorem withChildren_kept (kept : List.Forall₂ Kept tag.children others) : Kept tag (withChildren tag others) where
  off := rfl
  sound sound := by
    cases tag
    rw [withChildren, Tag.Sound]
    rw [Tag.Sound] at sound
    exact ⟨sound.1, sound.2.1, sound.2.2.1, soundFrom_kept kept sound.2.2.2⟩
  plain plain := by
    cases tag
    rw [withChildren, Tag.Plain]
    rw [Tag.Plain] at plain
    exact ⟨plain.1, plain.2.1, allPlain_kept kept plain.2.2⟩

theorem numberFrom_kept (index : Nat) (children : List Tag) :
    List.Forall₂ Kept children (numberFrom index children) := by
  induction children generalizing index with
  | nil => exact .nil
  | cons child rest ih =>
      rw [numberFrom]
      split
      · exact .cons (indexed_kept child index) (ih _)
      · exact .cons (.refl child) (ih _)

theorem numberFiles_kept (children : List Tag) : List.Forall₂ Kept children (numberFiles children) := by
  induction children with
  | nil => exact .nil
  | cons child rest ih =>
      rw [numberFiles]
      split
      · exact .cons (withChildren_kept (numberFrom_kept 0 child.children)) (List.forall₂_same.mpr fun tag _ => .refl tag)
      · exact .cons (.refl child) ih

theorem numbered_kept (cfg : Tag) : Kept cfg (numbered cfg) :=
  withChildren_kept (numberFiles_kept cfg.children)

/-- A parse of the new description gives the new description. -/
theorem numbered_parses (sound : cfg.Sound) (plain : cfg.Plain) (first : cfg.off = 0) :
    ezxmlParseStr (numbered cfg).toxml = .ok (numbered cfg) :=
  Xml.parse_toxml ((numbered_kept cfg).sound sound) ((numbered_kept cfg).plain plain) first

/-! ## What `parse_aux_files` makes of the files -/

theorem files_numbered (children : List Tag) :
    (numberFiles children).find? (·.name == filesName) =
      (children.find? (·.name == filesName)).map fun files => withChildren files (numberFrom 0 files.children) := by
  induction children with
  | nil => rfl
  | cons child rest ih =>
      rw [numberFiles]
      split
      · next found =>
          have same : (withChildren child (numberFrom 0 child.children)).name == filesName := found
          simp only [List.find?_cons, same, found, Option.map_some]
      · next other => simp only [List.find?_cons, other, ih]

theorem filter_numberFrom (index : Nat) (children : List Tag) :
    (numberFrom index children).filter (·.name == fileName) =
      (children.filter (·.name == fileName)).mapIdx fun number tag =>
        ezxmlSetAttr tag indexName (decimal (index + number)) := by
  induction children generalizing index with
  | nil => rfl
  | cons child rest ih =>
      rw [numberFrom]
      split
      · next file =>
          have same : (ezxmlSetAttr child indexName (decimal index)).name == fileName := file
          simp only [List.filter_cons, same, file, if_true, List.mapIdx_cons, ih, Nat.add_zero, Nat.add_assoc,
            Nat.add_comm 1]
      · next other => simp only [List.filter_cons, if_neg other, ih]

/-- The file with number `index` gets this index. -/
theorem fileTags_numbered (cfg : Tag) :
    fileTags (numbered cfg) = (fileTags cfg).mapIdx fun index tag => ezxmlSetAttr tag indexName (decimal index) := by
  have found : ezxmlChild (some (numbered cfg)) filesName =
      (ezxmlChild (some cfg) filesName).map fun files => withChildren files (numberFrom 0 files.children) :=
    files_numbered cfg.children
  rw [fileTags, fileTags, found]
  cases ezxmlChild (some cfg) filesName with
  | none => rfl
  | some files =>
      have filtered := filter_numberFrom 0 files.children
      simp only [Nat.zero_add] at filtered
      exact filtered

theorem getVal_numbered {name : Str} (differs : name ≠ indexName) (index : Nat) :
    getVal (ezxmlSetAttr tag indexName (decimal index)) name = getVal tag name := by
  rw [getVal, Xml.ezxmlAttr_other differs, Xml.ezxmlChild_setAttr]
  rfl

theorem holds_numbered (holds : Holds disk tag content) (index : Nat) :
    Holds disk (ezxmlSetAttr tag indexName (decimal index)) content := by
  obtain ⟨filename, id, named, identified, short, delivers⟩ := holds
  exact ⟨filename, id, (getVal_numbered (by decide) index).trans named,
    (getVal_numbered (by decide) index).trans identified, short, delivers⟩

theorem numbered_describes (delivered : List.Forall₂ (Holds disk) (fileTags cfg) contents) :
    Describes disk (numbered cfg) contents where
  count := by rw [fileTags_numbered, List.length_mapIdx, delivered.length_eq]
  index := by
    intro number bound
    simp only [fileTags_numbered, List.getElem_mapIdx]
    exact Xml.ezxmlAttr_self _ _ _
  content := by
    rw [fileTags_numbered, List.forall₂_iff_get]
    refine ⟨by rw [List.length_mapIdx, delivered.length_eq], ?_⟩
    intro number bound inside
    rw [List.length_mapIdx] at bound
    have holds := delivered.get bound inside
    simpa using holds_numbered holds number

/-! ## What is recorded -/

theorem auxFile_eq (holds : Holds disk tag content) (few : files.length < 256) :
    ∃ source : Source, source.Delivers content ∧
      auxFile disk files tag =
        .ok (files ++ [source.info], ezxmlSetAttr tag indexName (decimal files.length)) := by
  obtain ⟨filename, id, named, identified, short, delivers⟩ := holds
  have recorded : parseAuxFiles files [disk filename] = .ok (files ++ [(disk filename).info]) :=
    parseAuxFiles_eq (by simp [delivers.1]) (by simpa using few)
  refine ⟨disk filename, delivers, ?_⟩
  simp only [auxFile, named, identified, recorded, ok_bind, if_pos short]
  rfl

theorem auxFiles_eq (delivered : List.Forall₂ (Holds disk) (children.filter (·.name == fileName)) contents)
    (few : files.length + contents.length ≤ 256) :
    ∃ sources, List.Forall₂ Source.Delivers sources contents ∧
      auxFiles disk files children =
        .ok (files ++ sources.map Source.info, numberFrom files.length children) := by
  induction children generalizing files contents with
  | nil =>
      cases delivered
      exact ⟨[], .nil, by simp [auxFiles, numberFrom]⟩
  | cons child rest ih =>
      by_cases file : child.name == fileName
      · rw [List.filter_cons_of_pos (by exact file)] at delivered
        obtain _ | ⟨holds, later⟩ := delivered
        rw [List.length_cons] at few
        obtain ⟨source, delivers, recorded⟩ := @auxFile_eq _ _ _ files holds (by omega)
        obtain ⟨sources, others, goesOn⟩ := @ih _ (files ++ [source.info]) later (by
          rw [List.length_append, List.length_singleton]
          omega)
        refine ⟨source :: sources, .cons delivers others, ?_⟩
        simp only [auxFiles, file, if_true, recorded, ok_bind, goesOn, numberFrom]
        simp [pure, Except.pure]
      · rw [List.filter_cons_of_neg (by exact file)] at delivered
        obtain ⟨sources, others, goesOn⟩ := ih delivered few
        refine ⟨sources, others, ?_⟩
        simp only [auxFiles, if_neg file, goesOn, ok_bind, numberFrom]
        rfl

theorem parseAuxFilesIn_eq
    (delivered : List.Forall₂ (Holds disk) (named (children.find? (·.name == filesName)) fileName) contents)
    (few : contents.length ≤ 256) :
    ∃ sources, List.Forall₂ Source.Delivers sources contents ∧
      parseAuxFilesIn disk children = .ok (sources.map Source.info, numberFiles children) := by
  induction children with
  | nil =>
      cases delivered
      exact ⟨[], .nil, rfl⟩
  | cons child rest ih =>
      by_cases found : child.name == filesName
      · simp only [List.find?_cons, found] at delivered
        obtain ⟨sources, others, recorded⟩ := @auxFiles_eq _ _ _ [] delivered (by simpa using few)
        refine ⟨sources, others, ?_⟩
        simp only [parseAuxFilesIn, found, if_true, recorded, ok_bind, numberFiles]
        rfl
      · simp only [List.find?_cons, found] at delivered
        obtain ⟨sources, others, recorded⟩ := ih delivered
        refine ⟨sources, others, ?_⟩
        simp only [parseAuxFilesIn, if_neg found, recorded, ok_bind, numberFiles]
        rfl

theorem parseAuxFilesOf_eq (delivered : List.Forall₂ (Holds disk) (fileTags cfg) contents)
    (few : contents.length ≤ 256) :
    ∃ sources, List.Forall₂ Source.Delivers sources contents ∧
      parseAuxFilesOf disk (some cfg) = .ok (sources.map Source.info, some (numbered cfg)) := by
  obtain ⟨sources, others, recorded⟩ := @parseAuxFilesIn_eq _ cfg.children _ delivered few
  refine ⟨sources, others, ?_⟩
  simp only [parseAuxFilesOf, recorded, ok_bind]
  rfl

theorem newXmlStr_eq (sound : (numbered cfg).Sound) :
    (newXmlStr (some (numbered cfg))).bytes = (numbered cfg).toxml := by
  have terminated := Xml.Tag.toxml_terminated _ sound
  exact List.takeWhile_eq_self_iff.mpr fun byte member => by
    simpa using fun zero : byte = 0 => terminated (zero ▸ member)

/-- `build_image` does for a description what it does for its text and its files. -/
theorem buildImage_eq (sound : cfg.Sound) (delivered : List.Forall₂ (Holds disk) (fileTags cfg) contents)
    (few : contents.length ≤ 256) (small : (layout (numbered cfg).toxml contents).length < 2147483648) :
    buildImage disk (some cfg) = .ok (layout (numbered cfg).toxml contents) := by
  obtain ⟨sources, others, recorded⟩ := parseAuxFilesOf_eq delivered few
  have text := newXmlStr_eq ((numbered_kept cfg).sound sound)
  have count : sources.length = contents.length := others.length_eq
  obtain ⟨built, parsed, -⟩ := Image.buildImage_eq (newXmlStr (some (numbered cfg))) (by omega) others (by rwa [text])
  rw [text] at built
  rw [← built, Image.buildImage, parsed, buildImage, recorded]
  rfl

theorem openXmlFile_eq {text : Str} (opens : openXmlFile (some text) = .ok (some cfg)) :
    ezxmlParseStr text = .ok cfg := by
  rw [openXmlFile] at opens
  split at opens
  · next reads =>
      cases opens
      exact reads
  · split at opens
    · cases opens
    · cases opens

/-- A reader of the image finds the contents of all files and a description in
which the file with number `index` has this index. -/
theorem buildImage_describes (disk : Str → Source) (text : Str) (cfg : Tag) (contents : List Str)
    (opens : openXmlFile (some text) = .ok (some cfg)) (plain : cfg.Plain)
    (delivered : List.Forall₂ (Holds disk) (fileTags cfg) contents) (few : contents.length ≤ 256)
    (fits : 36 + (numbered cfg).toxml.length + 16 * contents.length + contents.flatten.length < 2147483648) :
    ∃ image, buildImage disk (some cfg) = .ok image ∧
      ∃ xml found, Image.decode image = some (xml, contents) ∧ openXmlFile (some xml) = .ok (some found) ∧
        fileTags found = (fileTags cfg).mapIdx (fun index tag => ezxmlSetAttr tag indexName (decimal index)) ∧
        Describes disk found contents := by
  have reads := openXmlFile_eq opens
  rcases Xml.ezxmlParseStr_ends text with ⟨error, fails⟩ | ⟨tag, parsed, sound, first⟩
  · rw [fails.parse] at reads
    cases reads
  · rw [parsed] at reads
    cases reads
    have small : (layout (numbered cfg).toxml contents).length < 2147483648 := by
      rw [layout_length, dataStart]
      exact fits
    refine ⟨_, buildImage_eq sound delivered few small, _, numbered cfg,
      (layout_represents _ contents small).decode, ?_, fileTags_numbered cfg, numbered_describes delivered⟩
    rw [openXmlFile, numbered_parses sound plain first]

/-- `<v><files><file filename="a" id="b"/></files></v>` -/
def oneFile : Str :=
  [60, 118, 62, 60, 102, 105, 108, 101, 115, 62, 60, 102, 105, 108, 101, 32, 102, 105, 108, 101, 110, 97, 109, 101, 61,
    34, 97, 34, 32, 105, 100, 61, 34, 98, 34, 47, 62, 60, 47, 102, 105, 108, 101, 115, 62, 60, 47, 118, 62]

def oneFileTag : Tag :=
  .mk [118] [] [] 0 [.mk filesName [] [] 0 [.mk fileName [(filenameName, [97]), (idName, [98])] [] 0 []]]

theorem buildImage_describes_one :
    ∃ image, buildImage (fun _ => ⟨some 2, some [[7, 8]]⟩) (some oneFileTag) = .ok image ∧
      ∃ xml found, Image.decode image = some (xml, [[7, 8]]) ∧ openXmlFile (some xml) = .ok (some found) := by
  have opens : openXmlFile (some oneFile) = .ok (some oneFileTag) := rfl
  have delivers : Source.Delivers ⟨some 2, some [[7, 8]]⟩ [7, 8] := ⟨rfl, [[7, 8]], rfl, by simp, rfl⟩
  obtain ⟨image, built, xml, found, decoded, reopened, -⟩ := buildImage_describes
    (fun _ => ⟨some 2, some [[7, 8]]⟩) oneFile oneFileTag [[7, 8]] opens
    (by simp [oneFileTag, Tag.Plain, AllPlain, filenameName, idName])
    (.cons ⟨[97], [98], rfl, rfl, by decide, delivers⟩ .nil) (by decide) (by decide)
  exact ⟨image, built, xml, found, decoded, reopened⟩

end Pisces.Config
