import Pisces.Xml.RoundTrip

/-! # What the parser accepts

The tree that is being built is sound after every round, each round goes on
behind the markup that it read, and so every document has an end.  A document
without certain strings has no error that is not reported.
-/

namespace Pisces.Xml

open Text

variable {e : UInt8} {whole s rest : Str} {cur after : Cur} {frame : Frame} {outer : List Frame}
  {attr before : List (Str × Str)} {fuel : Nat}

/-- Where the loop over attributes starts a round -/
def NoSpace (s : Str) : Prop :=
  ∀ first, s.head? = some first → isSpace first = false

theorem noSpace_dropWhile (s : Str) : NoSpace (s.dropWhile isSpace) := by
  intro first head
  have spaces := List.head?_dropWhile_not isSpace s
  rw [head] at spaces
  simpa using spaces

/-- A text without carriage returns, numbers of characters, document types and
processing instructions -/
structure Simple (text : Str) : Prop where
  lines : 13 ∉ text
  numbers : ¬ [38, 35] <:+: text
  types : ¬ [60, 33, 68, 79, 67, 84, 89, 80, 69] <:+: text
  instructions : ¬ [60, 63] <:+: text

/-- An error with which the parse of a document may end -/
structure Stops (whole : Str) (error : Error) : Prop where
  ends : error ≠ .fuel
  reported : Simple whole → error.reported = true

theorem Stops.of_reported {error : Error} (reported : error.reported = true) : Stops whole error where
  ends same := by
    rw [same] at reported
    cases reported
  reported _ := reported

/-- A string in the document is decoded, or it is not simple. -/
inductive DecodedIn (whole : Str) : Except Error Str → Prop where
  | out (text : Str) (terminated : 0 ∉ text) : DecodedIn whole (.ok text)
  | stopped (error : Error) (stops : Stops whole error) : DecodedIn whole (.error error)

theorem Stops.of_fault {fault : Fault} {kind : Int → Prop} {lines : Str} (inside : s <:+: whole)
    (normal : normalize false s = .ok lines) (refers : Refers lines kind) : Stops whole (.fault fault) where
  ends := Error.noConfusion
  reported simple := by
    have same := normalize_eq false s fun member => simple.lines (inside.subset member)
    rw [normal] at same
    cases same
    obtain ⟨digits, number, behind, suffix, _, _⟩ := refers
    have number : [38, 35] <:+: s := (List.prefix_append [38, 35] digits).isInfix.trans suffix.isInfix
    exact absurd (number.trans inside) simple.numbers

theorem decoded_in (mode : Mode) (inside : s <:+: whole) : DecodedIn whole (decoded mode s) := by
  have ending := ezxmlDecode_ends mode s
  unfold decoded
  generalize ezxmlDecode mode s = result at ending
  cases ending with
  | decoded out terminated => exact .out out terminated
  | overrun cause =>
      refine .stopped _ ⟨Error.noConfusion, fun simple => ?_⟩
      exact absurd (inside.subset (List.mem_of_getLast? cause.1)) simple.lines
  | shift lines normal cause => exact .stopped _ (.of_fault inside normal cause)
  | truncated lines normal cause => exact .stopped _ (.of_fault inside normal cause)

theorem ws_space {byte : UInt8} (ws : isWs byte = true) : isSpace byte = true := by
  simp only [isWs, Bool.or_eq_true, beq_iff_eq] at ws
  rcases ws with ((rfl | rfl) | rfl) | rfl <;> decide

/-- The name of an attribute that is read -/
theorem goodAttribute_read {value : Str} (noSpace : NoSpace s) (terminated : 0 ∉ s) (valued : 0 ∉ value) :
    GoodAttribute (s.takeWhile (fun byte => !endsAttribute byte), value) where
  start := by
    intro first head
    apply noSpace first
    cases s with
    | nil => cases head
    | cons byte rest =>
        rw [List.takeWhile_cons] at head
        split at head
        · exact head
        · cases head
  name := by
    intro byte member
    refine ⟨?_, ?_⟩
    · have passed := List.mem_takeWhile_imp member
      simpa using passed
    · rintro rfl
      exact terminated ((List.takeWhile_prefix _).subset member)
  value := valued

/-- What one round of the loop over attributes can do -/
inductive AttributeRound (whole : Str) (fuel : Nat) (before : List (Str × Str)) (s : Str) : Prop where
  | ended (same : attributes (fuel + 1) before s = .ok (before, s))
  | stopped (error : Error) (same : attributes (fuel + 1) before s = .error error) (stops : Stops whole error)
  | more (pair : Str × Str) (rest : Str) (same : attributes (fuel + 1) before s = attributes fuel (before ++ [pair]) rest)
      (good : GoodAttribute pair) (behind : rest <:+ s) (shorter : rest.length < s.length) (noSpace : NoSpace rest)

/-- What stands behind the name of an attribute -/
theorem attribute_ending {ending : UInt8} {tail : Str}
    (name : s.dropWhile (fun byte => !endsAttribute byte) = ending :: tail) :
    endsAttribute ending = true ∧ ending :: tail <:+ s := by
  refine ⟨?_, name ▸ List.dropWhile_suffix _⟩
  have stopped := List.head?_dropWhile_not (fun byte => !endsAttribute byte) s
  rw [name] at stopped
  simpa using stopped

theorem attributes_round (fuel : Nat) (before : List (Str × Str)) (inside : s <:+: whole) (noSpace : NoSpace s)
    (terminated : 0 ∉ s) : AttributeRound whole fuel before s := by
  cases s with
  | nil => exact .ended rfl
  | cons first others =>
      by_cases ends : first = 47 ∨ first = 62
      · exact .ended (by rw [attributes, if_pos ends])
      · have good {value : Str} (valued : 0 ∉ value) := goodAttribute_read noSpace terminated valued
        have empty : NoSpace ([] : Str) := noSpace_dropWhile []
        cases name : (first :: others).dropWhile fun byte => !endsAttribute byte with
        | nil =>
            exact .more (_, []) [] (by simp only [attributes, if_neg ends, name]) (good List.not_mem_nil)
              List.nil_suffix (Nat.succ_pos _) empty
        | cons ending tail =>
            obtain ⟨stops, behind⟩ := attribute_ending name
            have tailBehind : tail <:+ first :: others := (List.suffix_cons _ _).trans behind
            have tailShorter : tail.length < (first :: others).length :=
              Nat.lt_of_succ_le behind.length_le
            by_cases equals : ending = 61 ∨ isSpace ending
            · cases sign : tail.dropWhile fun byte => isWs byte || byte == 61 with
              | nil =>
                  exact .more (_, []) [] (by simp only [attributes, if_neg ends, name, if_pos equals, sign])
                    (good List.not_mem_nil) List.nil_suffix (Nat.succ_pos _) empty
              | cons quote body =>
                  have quoteBehind : quote :: body <:+ tail := sign ▸ List.dropWhile_suffix _
                  by_cases quoted : quote = 34 ∨ quote = 39
                  · cases value : body.dropWhile (· != quote) with
                    | nil =>
                        exact .stopped (.missing quote) (by
                          simp only [attributes, if_neg ends, name, if_pos equals, sign, if_pos quoted, value])
                          (.of_reported rfl)
                    | cons closing next =>
                        have nextBehind : next.dropWhile isSpace <:+ tail :=
                          (((List.dropWhile_suffix _).trans (List.suffix_cons _ _)).trans
                            (value ▸ List.dropWhile_suffix _)).trans ((List.suffix_cons _ _).trans quoteBehind)
                        have valueInside : body.takeWhile (· != quote) <:+: whole :=
                          (List.takeWhile_prefix _).isInfix.trans ((((List.suffix_cons _ _).trans quoteBehind).trans
                            tailBehind).isInfix.trans inside)
                        have decodes := decoded_in .attr valueInside
                        cases written : decoded .attr (body.takeWhile (· != quote)) with
                        | error error =>
                            rw [written] at decodes
                            cases decodes with
                            | stopped _ stops =>
                                exact .stopped error (by
                                  simp only [attributes, if_neg ends, name, if_pos equals, sign, if_pos quoted, value,
                                    written]) stops
                        | ok out =>
                            rw [written] at decodes
                            cases decodes with
                            | out _ valued =>
                                exact .more (_, out) (next.dropWhile isSpace) (by
                                    simp only [attributes, if_neg ends, name, if_pos equals, sign, if_pos quoted, value,
                                      written])
                                  (good valued) (nextBehind.trans tailBehind)
                                  (Nat.lt_of_le_of_lt nextBehind.length_le tailShorter) (noSpace_dropWhile _)
                  · have nextBehind : (quote :: body).dropWhile isSpace <:+ tail :=
                      (List.dropWhile_suffix _).trans quoteBehind
                    exact .more (_, []) ((quote :: body).dropWhile isSpace) (by
                        simp only [attributes, if_neg ends, name, if_pos equals, sign, if_neg quoted])
                      (good List.not_mem_nil) (nextBehind.trans tailBehind)
                      (Nat.lt_of_le_of_lt nextBehind.length_le tailShorter) (noSpace_dropWhile _)
            · have nextBehind : (ending :: tail).dropWhile isSpace <:+ ending :: tail := List.dropWhile_suffix _
              -- the name is not empty, for it does not start with what ends the tag
              have named : ending :: tail ≠ first :: others := by
                intro same
                obtain ⟨rfl, rfl⟩ := List.cons.inj same
                refine equals (Or.inr ?_)
                simp only [endsAttribute, endsName, Bool.or_eq_true, beq_iff_eq] at stops
                rcases stops with ((ws | slash) | greater) | sign
                · exact ws_space ws
                · exact absurd (Or.inl slash) ends
                · exact absurd (Or.inr greater) ends
                · exact absurd (Or.inl sign) equals
              have shorter : (ending :: tail).length < (first :: others).length :=
                Nat.lt_of_le_of_ne behind.length_le fun same => named (behind.eq_of_length same)
              exact .more (_, []) ((ending :: tail).dropWhile isSpace) (by
                  simp only [attributes, if_neg ends, name, if_neg equals])
                (good List.not_mem_nil) (nextBehind.trans behind)
                (Nat.lt_of_le_of_lt nextBehind.length_le shorter) (noSpace_dropWhile _)

/-- The attributes of a tag are good and they are inside the tag. -/
theorem attributes_spec (inside : s <:+: whole) (noSpace : NoSpace s) (terminated : 0 ∉ s) (enough : s.length < fuel) :
    (∃ error, attributes fuel before s = .error error ∧ Stops whole error) ∨
      ∃ added rest, attributes fuel before s = .ok (before ++ added, rest) ∧
        (∀ pair ∈ added, GoodAttribute pair) ∧ rest <:+ s := by
  induction fuel generalizing before s with
  | zero => exact absurd enough (Nat.not_lt_zero _)
  | succ fuel ih =>
      rcases attributes_round fuel before inside noSpace terminated with
        same | ⟨error, same, stops⟩ | ⟨pair, rest, same, good, behind, shorter, noSpaceRest⟩
      · exact Or.inr ⟨[], s, by rw [same, List.append_nil], by simp, List.suffix_refl s⟩
      · exact Or.inl ⟨error, same, stops⟩
      · have restTerminated : 0 ∉ rest := fun member => terminated (behind.subset member)
        rcases @ih rest (before ++ [pair]) (behind.isInfix.trans inside) noSpaceRest restTerminated (by omega) with
          ⟨error, fails, stops⟩ | ⟨added, last, reads, allGood, lastBehind⟩
        · exact Or.inl ⟨error, same.trans fails, stops⟩
        · refine Or.inr ⟨pair :: added, last, ?_, ?_, lastBehind.trans behind⟩
          · rw [same, reads, List.append_assoc, List.singleton_append]
          · exact List.forall_mem_cons.mpr ⟨good, allGood⟩

/-! ## The tree that is being built -/

structure GoodFrame (frame : Frame) : Prop where
  name : GoodName frame.name
  attr : ∀ pair ∈ frame.attr, GoodAttribute pair
  txt : 0 ∉ frame.txt
  children : SoundFrom frame.txt.length 0 frame.children

/-- Every open tag stands at the end of the text of the tag around it. -/
def Nested (frame : Frame) : List Frame → Prop
  | [] => GoodFrame frame ∧ frame.off = 0
  | parent :: outer => GoodFrame frame ∧ frame.off = parent.txt.length ∧ Nested parent outer

/-- The invariant of the loop -/
def Building : Cur → Prop
  | .fresh => True
  | .inside frame outer => Nested frame outer
  | .closed root => root.Sound ∧ root.off = 0

theorem Nested.good (nested : Nested frame outer) : GoodFrame frame := by
  cases outer with
  | nil => exact nested.1
  | cons parent outer => exact nested.1

/-- The frames around do not see what happens inside a tag. -/
theorem Nested.replace {other : Frame} (nested : Nested frame outer) (good : GoodFrame other)
    (off : other.off = frame.off) : Nested other outer := by
  cases outer with
  | nil => exact ⟨good, off.trans nested.2⟩
  | cons parent outer => exact ⟨good, off.trans nested.2.1, nested.2.2⟩

theorem GoodFrame.sound (good : GoodFrame frame) : frame.tag.Sound := by
  rw [Frame.tag, Tag.Sound]
  exact ⟨good.name, good.attr, good.txt, good.children⟩

theorem soundFrom_mono {length longer start : Nat} {children : List Tag} (le : length ≤ longer)
    (sound : SoundFrom length start children) : SoundFrom longer start children := by
  induction children generalizing start with
  | nil =>
      rw [SoundFrom] at sound ⊢
      exact sound.trans le
  | cons child rest ih =>
      rw [SoundFrom] at sound ⊢
      exact ⟨sound.1, sound.2.1, ih sound.2.2⟩

/-- A tag that ends goes behind the children that ended before it. -/
theorem soundFrom_snoc {length start : Nat} {children : List Tag} {child : Tag} (off : child.off = length)
    (last : child.Sound) (sound : SoundFrom length start children) :
    SoundFrom length start (children ++ [child]) := by
  induction children generalizing start with
  | nil =>
      rw [SoundFrom] at sound
      rw [List.nil_append, SoundFrom, SoundFrom]
      exact ⟨off ▸ sound, last, off.le⟩
  | cons other rest ih =>
      rw [SoundFrom] at sound
      rw [List.cons_append, SoundFrom]
      exact ⟨sound.1, sound.2.1, ih sound.2.2⟩

/-! ### Its three operations -/

theorem openTag_building {name : Str} (good : GoodName name) (attrs : ∀ pair ∈ attr, GoodAttribute pair)
    (building : Building cur) : Building (ezxmlOpenTag cur name attr) := by
  have opened (off : Nat) : GoodFrame ⟨name, attr, [], off, []⟩ :=
    ⟨good, attrs, List.not_mem_nil, by simp [SoundFrom]⟩
  cases cur with
  | fresh => exact ⟨opened 0, rfl⟩
  | closed root => exact ⟨opened 0, rfl⟩
  | inside frame outer => exact ⟨opened _, rfl, building⟩

/-- Text goes behind the text that is there. -/
inductive Filled (whole : Str) : Except Error Cur → Prop where
  | on (after : Cur) (building : Building after) : Filled whole (.ok after)
  | stopped (error : Error) (stops : Stops whole error) : Filled whole (.error error)

theorem charContent_filled (mode : Mode) (inside : s <:+: whole) (building : Building cur) :
    Filled whole (ezxmlCharContent cur mode s) := by
  cases cur with
  | fresh => exact .on _ building
  | closed root => exact .on _ building
  | inside frame outer =>
      have good := Nested.good building
      have decodes := decoded_in mode inside
      unfold ezxmlCharContent
      generalize decoded mode s = result at decodes
      cases decodes with
      | stopped error stops => exact .stopped error stops
      | out text terminated =>
          refine .on _ (Nested.replace building ⟨good.name, good.attr, ?_, ?_⟩ rfl)
          · simp [good.txt, terminated]
          · exact soundFrom_mono (by simp) good.children

/-- An end tag without its start tag is an error; otherwise the tag is done. -/
theorem closeTag_building (name : Str) (building : Building cur) :
    ezxmlCloseTag cur name = .error (.unexpectedClosing name) ∨
      ∃ after, ezxmlCloseTag cur name = .ok after ∧ Building after := by
  cases cur with
  | fresh => exact Or.inl rfl
  | closed root => exact Or.inl rfl
  | inside frame outer =>
      have sound := (Nested.good building).sound
      by_cases same : frame.name = name
      · cases outer with
        | nil => exact Or.inr ⟨.closed frame.tag, by simp [ezxmlCloseTag, same], sound, building.2⟩
        | cons parent outer =>
            obtain ⟨-, off, nested⟩ := building
            have good := nested.good
            let around : Frame := { parent with children := parent.children ++ [frame.tag] }
            have goodAround : GoodFrame around :=
              ⟨good.name, good.attr, good.txt, soundFrom_snoc off sound good.children⟩
            exact Or.inr ⟨.inside around outer, by simp [ezxmlCloseTag, same, around], nested.replace goodAround rfl⟩
      · exact Or.inl (by simp [ezxmlCloseTag, same])

/-! ## A round of the loop -/

/-- What a markup leads to: a tree and the text from its last byte on, or an error. -/
inductive Passed (whole s : Str) : Except Error (Cur × Str) → Prop where
  | on (after : Cur) (rest : Str) (building : Building after) (behind : rest <:+ s) : Passed whole s (.ok (after, rest))
  | stopped (error : Error) (stops : Stops whole error) : Passed whole s (.error error)

theorem isNameStart_stays {byte : UInt8} (start : isNameStart byte = true) : endsName byte = false := by
  by_contra ends
  simp only [Bool.not_eq_false, endsName, isWs, Bool.or_eq_true, beq_iff_eq] at ends
  rcases ends with ((((rfl | rfl) | rfl) | rfl) | rfl) | rfl <;> revert start <;> decide

theorem goodName_read {first : UInt8} {others : Str} (start : isNameStart first = true)
    (terminated : 0 ∉ first :: others) :
    GoodName ((first :: others).takeWhile fun byte => !endsName byte) where
  start := by
    refine ⟨first, others.takeWhile (fun byte => !endsName byte), ?_, start⟩
    rw [List.takeWhile_cons_of_pos (by simp [isNameStart_stays start])]
  inside := by
    intro byte member
    refine ⟨by simpa using List.mem_takeWhile_imp member, ?_⟩
    rintro rfl
    exact terminated ((List.takeWhile_prefix _).subset member)

theorem openedTag_passed {name : Str} (good : GoodName name) (attrs : ∀ pair ∈ attr, GoodAttribute pair)
    (building : Building cur) (s : Str) : Passed whole s (openedTag e cur name attr s) := by
  have opened := openTag_building good attrs building
  unfold openedTag
  split
  · next s =>
      split
      · rcases closeTag_building name opened with fails | ⟨after, closes, built⟩
        · rw [fails]
          exact .stopped _ (.of_reported rfl)
        · rw [closes]
          exact .on after s built (List.suffix_cons _ _)
      · exact .stopped _ (.of_reported rfl)
  · exact .on _ _ opened (List.suffix_refl _)
  · split
    · exact .on _ _ opened (List.suffix_refl _)
    · exact .stopped _ (.of_reported rfl)
  · exact .stopped _ (.of_reported rfl)

theorem Passed.behind {last : Str} {result : Except Error (Cur × Str)} (passed : Passed whole rest result)
    (suffix : rest <:+ last) : Passed whole last result := by
  cases passed with
  | on after final building behind => exact .on after final building (behind.trans suffix)
  | stopped error stops => exact .stopped error stops

theorem startTag_passed {first : UInt8} {others : Str} (inside : first :: others <:+: whole)
    (start : isNameStart first = true) (terminated : 0 ∉ first :: others) (building : Building cur) :
    Passed whole (first :: others) (startTag e cur (first :: others)) := by
  have good := goodName_read start terminated
  have behind : ((first :: others).dropWhile (fun byte => !endsName byte)).dropWhile isSpace <:+ first :: others :=
    (List.dropWhile_suffix _).trans (List.dropWhile_suffix _)
  cases cur with
  | closed root => exact .stopped _ (.of_reported rfl)
  | fresh | inside frame outer =>
      rcases @attributes_spec whole _ [] ((first :: others).length + 1) (behind.isInfix.trans inside)
        (noSpace_dropWhile _)
        (fun member => terminated (behind.subset member)) (Nat.lt_succ_of_le behind.length_le) with
        ⟨error, fails, stops⟩ | ⟨added, rest, reads, attrs, restBehind⟩
      · simp only [startTag, fails]
        exact .stopped error stops
      · simp only [startTag, reads]
        exact (openedTag_passed good attrs building rest).behind (restBehind.trans behind)

theorem endTag_passed (building : Building cur) (s : Str) : Passed whole s (endTag e cur s) := by
  unfold endTag
  dsimp only
  split
  · exact .stopped _ (.of_reported rfl)
  · rcases closeTag_building (s.takeWhile fun byte => !(isWs byte || byte == 62)) building with
      fails | ⟨after, closes, built⟩
    · rw [fails]
      exact .stopped _ (.of_reported rfl)
    · rw [closes]
      exact .on after _ built ((List.dropWhile_suffix _).trans (List.dropWhile_suffix _))

/-! ### What is searched for is behind where the search starts -/

theorem strstr_behind {needle before found : Str} (finds : strstr needle s = some (before, found)) : found <:+ s := by
  induction s generalizing before with
  | nil => cases finds
  | cons byte tail ih =>
      rw [strstr] at finds
      split at finds
      · cases finds
        exact List.suffix_refl _
      · obtain ⟨⟨inner, last⟩, later, same⟩ := Option.map_eq_some_iff.mp finds
        cases same
        exact (ih later).trans (List.suffix_cons _ _)

theorem strstr_before {needle before found : Str} (finds : strstr needle s = some (before, found)) : before <:+: s := by
  suffices same : before ++ found = s from same ▸ (List.prefix_append before found).isInfix
  induction s generalizing before with
  | nil => cases finds
  | cons byte tail ih =>
      rw [strstr] at finds
      split at finds
      · cases finds
        rfl
      · obtain ⟨⟨inner, last⟩, later, same⟩ := Option.map_eq_some_iff.mp finds
        cases same
        rw [List.cons_append, ih later]

theorem doctype_behind (l : Bool) (s : Str) : (doctype l s).2 <:+ s := by
  induction s generalizing l with
  | nil => exact List.suffix_refl _
  | cons byte tail ih =>
      rw [doctype]
      split
      · exact (ih _).trans (List.suffix_cons _ _)
      · exact List.suffix_refl _

theorem instruction_behind (ends : instruction s = some rest) : rest <:+ s := by
  induction s with
  | nil => cases ends
  | cons byte tail ih =>
      have further (ends : instruction tail = some rest) : rest <:+ byte :: tail :=
        (ih ends).trans (List.suffix_cons _ _)
      unfold instruction at ends
      split at ends
      · split at ends
        · cases ends
          exact List.nil_suffix
        · split at ends
          · cases ends
            exact List.suffix_cons _ _
          · exact further ends
      · exact further ends

/-- The document goes on with the `<` before the markup. -/
theorem markup_passed (inside : 60 :: s <:+: whole) (terminated : 0 ∉ s) (building : Building cur) :
    Passed whole s (markup e cur s) := by
  have within : s <:+: whole := (List.suffix_cons _ _).isInfix.trans inside
  cases s with
  | nil => exact .stopped _ (.of_reported rfl)
  | cons first others =>
      unfold markup
      dsimp only
      split_ifs with start slash comment cdata type unclosed declares processing
      · exact startTag_passed within start terminated building
      · exact (endTag_passed building others).behind (List.suffix_cons _ _)
      · split
        · next finds =>
            have behind := (strstr_behind finds).trans (List.drop_suffix _ _)
            split
            · exact .on cur _ building ((List.drop_suffix _ _).trans behind)
            · exact .stopped _ (.of_reported rfl)
        · exact .stopped _ (.of_reported rfl)
      · split
        · next before found finds =>
            have text : before.drop 8 <:+: whole :=
              (List.drop_suffix _ _).isInfix.trans ((strstr_before finds).trans within)
            have filled := charContent_filled .cdata text building
            generalize ezxmlCharContent cur .cdata (before.drop 8) = result at filled
            cases filled with
            | on after built => exact .on after _ built ((List.drop_suffix _ _).trans (strstr_behind finds))
            | stopped error stops => exact .stopped error stops
        · exact .stopped _ (.of_reported rfl)
      · exact .stopped _ (.of_reported rfl)
      · have opening : [60, 33, 68, 79, 67, 84, 89, 80, 69] <:+: whole :=
          (List.cons_prefix_cons.mpr ⟨rfl, List.isPrefixOf_iff_prefix.mp type⟩).isInfix.trans inside
        exact .stopped _ ⟨Error.noConfusion, fun simple => absurd opening simple.types⟩
      · exact .on cur _ building (doctype_behind _ _)
      · split
        · next ends =>
            split_ifs
            · exact .stopped _ (.of_reported rfl)
            · exact .on cur _ building (instruction_behind ends)
            · have opening : [60, 63] <:+: whole :=
                (List.cons_prefix_cons.mpr ⟨rfl,
                  List.cons_prefix_cons.mpr ⟨processing.symm, List.nil_prefix⟩⟩).isInfix.trans
                  inside
              exact .stopped _ ⟨Error.noConfusion, fun simple => absurd opening simple.instructions⟩
        · exact .stopped _ (.of_reported rfl)
      · exact .stopped _ (.of_reported rfl)

/-- What the text behind a markup leads to: a tree, and the text behind the next `<`. -/
inductive Continued (whole d : Str) : Except Error (Cur × Option Str) → Prop where
  | last (after : Cur) (building : Building after) : Continued whole d (.ok (after, none))
  | next (after : Cur) (s : Str) (building : Building after) (behind : 60 :: s <:+ d) :
      Continued whole d (.ok (after, some s))
  | stopped (error : Error) (stops : Stops whole error) : Continued whole d (.error error)

theorem content_continued {d : Str} (inside : d <:+: whole) (building : Building cur) :
    Continued whole d (content cur d) := by
  unfold content
  split
  · exact .last cur building
  · next byte s rest =>
      have behind : byte :: s <:+ d := rest ▸ List.dropWhile_suffix _
      have less : byte = 60 := by
        have stopped := List.head?_dropWhile_not (· != 60) d
        rw [rest] at stopped
        simpa using stopped
      subst less
      split
      · exact .next cur s building behind
      · have filled := charContent_filled .text ((List.takeWhile_prefix (· != 60)).isInfix.trans inside) building
        generalize ezxmlCharContent cur .text (d.takeWhile (· != 60)) = result at filled
        cases filled with
        | on after built => exact .next after s built behind
        | stopped error stops => exact .stopped error stops

theorem parseLoop_ends (inside : 60 :: s <:+: whole) (terminated : 0 ∉ s) (building : Building cur)
    (enough : s.length < fuel) :
    (∃ error, parseLoop e fuel cur s = .error error ∧ Stops whole error) ∨
      ∃ after, parseLoop e fuel cur s = .ok after ∧ Building after := by
  induction fuel generalizing cur s with
  | zero => exact absurd enough (Nat.not_lt_zero _)
  | succ fuel ih =>
      have passed := markup_passed (e := e) inside terminated building
      rw [parseLoop]
      generalize markup e cur s = result at passed
      cases passed with
      | stopped error stops => exact Or.inl ⟨error, rfl, stops⟩
      | on after rest built behind =>
          cases rest with
          | nil => exact Or.inr ⟨after, rfl, built⟩
          | cons last d =>
              have dBehind : d <:+ s := (List.suffix_cons _ _).trans behind
              have continued := content_continued
                ((dBehind.trans (List.suffix_cons _ _)).isInfix.trans inside) built
              simp only [bind, Except.bind]
              generalize content after d = result at continued
              cases continued with
              | stopped error stops => exact Or.inl ⟨error, rfl, stops⟩
              | last final filled => exact Or.inr ⟨final, rfl, filled⟩
              | next final next filled nextBehind =>
                  have goesOn : 60 :: next <:+ s := nextBehind.trans dBehind
                  have shorter : next.length < s.length := Nat.lt_of_succ_le goesOn.length_le
                  exact ih ((goesOn.trans (List.suffix_cons _ _)).isInfix.trans inside)
                    (fun member => terminated (goesOn.subset (List.mem_cons_of_mem _ member))) filled (by omega)

/-! ## Whole documents -/

/-- A simple text that is not UTF-16 -/
structure Followed (text : Str) : Prop extends Simple text where
  unmarked : text.head? ≠ some 254 ∧ text.head? ≠ some 255

/-- How a parse ends without a tree -/
structure Fails (text : Str) (error : Error) : Prop where
  parse : ezxmlParseStr text = .error error
  ends : error ≠ .fuel
  reported : Followed text → error.reported = true

theorem Fails.of_stops {text : Str} {error : Error} (parse : ezxmlParseStr text = .error error)
    (stops : Stops text error) : Fails text error :=
  ⟨parse, stops.ends, fun followed => stops.reported followed.toSimple⟩

/-- A parse ends with a sound tree or with an error. -/
theorem ezxmlParseStr_ends (text : Str) :
    (∃ error, Fails text error) ∨ ∃ tag, ezxmlParseStr text = .ok tag ∧ tag.Sound ∧ tag.off = 0 := by
  have missing (parse : ezxmlParseStr text = .error .rootTagMissing) : ∃ error, Fails text error :=
    ⟨_, .of_stops parse (.of_reported rfl)⟩
  cases last : text.getLast? with
  | none => exact Or.inl (missing (by simp only [ezxmlParseStr, last]))
  | some e =>
      by_cases marked : text.head? = some 254 ∨ text.head? = some 255
      · refine Or.inl ⟨.unfollowed, by simp only [ezxmlParseStr, last, if_pos marked], Error.noConfusion, ?_⟩
        exact fun followed => absurd marked (not_or.mpr followed.unmarked)
      · cases first : (cut text.dropLast).dropWhile (· != 60) with
        | nil => exact Or.inl (missing (by simp only [ezxmlParseStr, last, if_neg marked, first]))
        | cons byte s =>
            have behind : byte :: s <:+ cut text.dropLast := first ▸ List.dropWhile_suffix _
            have less : byte = 60 := by
              have stopped := List.head?_dropWhile_not (· != 60) (cut text.dropLast)
              rw [first] at stopped
              simpa using stopped
            subst less
            have inside : 60 :: s <:+: text :=
              behind.isInfix.trans ((List.takeWhile_prefix _).trans (List.dropLast_prefix text)).isInfix
            have terminated : 0 ∉ s := fun member =>
              cut_terminated _ (behind.subset (List.mem_cons_of_mem _ member))
            have parse : ezxmlParseStr text = (parseLoop e (s.length + 1) .fresh s).bind finish := by
              simp only [ezxmlParseStr, last, if_neg marked, first]
            rcases @parseLoop_ends e text s .fresh (s.length + 1) inside terminated trivial (Nat.lt_succ_self _) with
              ⟨error, fails, stops⟩ | ⟨after, ends, building⟩
            · exact Or.inl ⟨error, .of_stops (by rw [parse, fails]; rfl) stops⟩
            · rw [ends] at parse
              cases after with
              | fresh => exact Or.inl (missing parse)
              | inside frame outer => exact Or.inl ⟨_, .of_stops parse (.of_reported rfl)⟩
              | closed root => exact Or.inr ⟨root, parse, building⟩

/-- A parse ends with an error or with a tree, and what is printed of the tree is
accepted with the same tree, unless an attribute is there twice or has a vertical
tab or a form feed in it.  The error of a text that can be followed is reported. -/
theorem parsed_round_trip (text : Str) :
    (∃ error, ezxmlParseStr text = .error error ∧ error ≠ .fuel ∧ (Followed text → error.reported = true)) ∨
      ∃ tag, ezxmlParseStr text = .ok tag ∧ tag.Sound ∧ tag.off = 0 ∧
        (tag.Plain → ezxmlParseStr tag.toxml = .ok tag) := by
  rcases ezxmlParseStr_ends text with ⟨error, fails⟩ | ⟨tag, reads, sound, off⟩
  · exact Or.inl ⟨error, fails.parse, fails.ends, fails.reported⟩
  · exact Or.inr ⟨tag, reads, sound, off, fun plain => parse_toxml sound plain off⟩

end Pisces.Xml
