import Gameplay.Settings.Ini

/-!
# Written sections are read back

A section is read line by line, and each line that is written says just what it was written for: names and values
without blanks and marks stand in a line as they are.

## Main results

`readLines_section`: the lines of a section give its entries, and then those of the lines that follow.
`read_sections`: a text of sections is read as their entries.
`get?_entries`: keys that differ have the values that were written for them.
-/

namespace Gameplay.Ini

/-- Nothing of a text is cut off where it stands in a line. -/
def Solid (text : String) : Prop := ∀ c ∈ text.toList, isBlank c = false ∧ isComment c = false

/-- The characters of a text are those of a name: they are small, and none of them has a meaning of its own. -/
def Plain (text : String) : Prop :=
  ∀ c ∈ text.toList, asciiSmall c = c ∧ isDelimiter c = false ∧ c ≠ '[' ∧ c ≠ ']'

/-- A name that is read as it is written. -/
structure IsName (text : String) : Prop where
  solid : Solid text
  plain : Plain text
  proper : text ≠ ""

-- the characters of the text are tested one after the other, and not all characters there are
instance (text : String) : Decidable (Solid text) :=
  List.decidableBAll (fun c => isBlank c = false ∧ isComment c = false) text.toList

instance (text : String) : Decidable (Plain text) :=
  List.decidableBAll (fun c => asciiSmall c = c ∧ isDelimiter c = false ∧ c ≠ '[' ∧ c ≠ ']') text.toList

instance (text : String) : Decidable (IsName text) :=
  decidable_of_iff (Solid text ∧ Plain text ∧ text ≠ "")
    ⟨fun all => ⟨all.1, all.2.1, all.2.2⟩, fun named => ⟨named.solid, named.plain, named.proper⟩⟩

/-- Keys and values that are read as they are written. -/
def Writable (values : List (String × String)) : Prop := ∀ kv ∈ values, IsName kv.1 ∧ Solid kv.2

def entries (title : String) (values : List (String × String)) : List IniEntry :=
  values.map fun (key, value) => ⟨title, key, some value⟩

variable {title key value : String} {values : List (String × String)} {rest : List Char}

/-! ### lines -/

theorem Solid.unbroken (solid : Solid value) : '\n' ∉ value.toList := by
  intro broken
  have blank := (solid '\n' broken).1
  simp [isBlank, blankRanges] at blank

/-- A line without a line break is the first line of the text that it begins. -/
theorem lines_append {line : List Char} (unbroken : '\n' ∉ line) (rest : List Char) :
    lines (line ++ '\n' :: rest) = line :: lines rest := by
  induction line with
  | nil => simp [lines]
  | cons c line ih =>
    simp only [List.mem_cons, not_or] at unbroken
    have other : c ≠ '\n' := fun same => unbroken.1 same.symm
    simp [lines, other, ih unbroken.2]

/-- The lines of keys with their values. -/
def keyLines (values : List (String × String)) : List (List Char) :=
  values.map fun (key, value) => key.toList ++ '=' :: value.toList

/-- What is written of keys is their lines. -/
theorem lines_values (good : Writable values) :
    lines ((values.map fun (key, value) => key ++ "=" ++ value ++ "\n").flatMap String.toList ++ rest) =
      keyLines values ++ lines rest := by
  induction values with
  | nil => simp [keyLines]
  | cons kv values ih =>
    obtain ⟨⟨first, fits⟩, others⟩ := List.forall_mem_cons.mp good
    have unbroken : '\n' ∉ kv.1.toList ++ '=' :: kv.2.toList := by
      simp [first.solid.unbroken, fits.unbroken]
    have line := lines_append unbroken
      ((values.map fun (key, value) => key ++ "=" ++ value ++ "\n").flatMap String.toList ++ rest)
    rw [ih others] at line
    simpa [keyLines] using line

/-- What is written of a section is its lines. -/
theorem lines_writeSection (named : IsName title) (good : Writable values) :
    lines ((writeSection title values).toList ++ rest) =
      ('[' :: title.toList ++ [']']) :: keyLines values ++ lines rest := by
  have unbroken : '\n' ∉ '[' :: title.toList ++ [']'] := by simp [named.solid.unbroken]
  have head := lines_append unbroken
    ((values.map fun (key, value) => key ++ "=" ++ value ++ "\n").flatMap String.toList ++ rest)
  rw [lines_values good] at head
  simpa [writeSection, String.toList_join] using head

/-! ### what a line says -/

theorem dropWhile_blank {cs : List Char} (solid : ∀ c ∈ cs, isBlank c = false) : cs.dropWhile isBlank = cs := by
  cases cs with
  | nil => rfl
  | cons c cs => simp [solid c List.mem_cons_self]

theorem trimChars_solid {cs : List Char} (solid : ∀ c ∈ cs, isBlank c = false) : trimChars cs = cs := by
  have reversed : ∀ c ∈ cs.reverse, isBlank c = false := fun c member => solid c (List.mem_reverse.mp member)
  rw [trimChars, dropWhile_blank solid, dropWhile_blank reversed, List.reverse_reverse]

/-- Nothing is cut off a line without blanks and comment signs. -/
theorem content_solid {line : List Char} (solid : ∀ c ∈ line, isBlank c = false ∧ isComment c = false) :
    content line = line := by
  have uncut : line.takeWhile (fun c => !isComment c) = line := by
    have whole : ∀ c ∈ line, (!isComment c) = true := fun c member => by simp [(solid c member).2]
    have all : (line ++ []).takeWhile _ = line ++ [].takeWhile _ := List.takeWhile_append_of_pos whole
    simpa using all
  rw [content, trimChars_solid fun c member => (solid c member).1, uncut,
    trimChars_solid fun c member => (solid c member).1]

theorem IsName.name_eq (named : IsName key) : name key.toList = key := by
  have small : key.toList.map asciiSmall = key.toList := by
    rw [List.map_congr_left fun c member => (named.plain c member).1, List.map_id']
  rw [name, trimChars_solid fun c member => (named.solid c member).1, small, String.ofList_toList]

theorem sectionName?_title (named : IsName title) : sectionName? (title.toList ++ [']']) = some title := by
  simp [sectionName?, named.name_eq]

/-- A line that is written for a key and its value is read as these. -/
theorem keyValue?_line (named : IsName key) (solid : Solid value) :
    keyValue? (key.toList ++ '=' :: value.toList) = some (key, some value) := by
  have whole : ∀ c ∈ key.toList, (!isDelimiter c) = true := fun c member => by simp [(named.plain c member).2.1]
  have stop : (!isDelimiter '=') = false := by decide
  have before : (key.toList ++ '=' :: value.toList).takeWhile (fun c => !isDelimiter c) = key.toList := by
    simp [List.takeWhile_append_of_pos whole, stop]
  have after : (key.toList ++ '=' :: value.toList).dropWhile (fun c => !isDelimiter c) = '=' :: value.toList := by
    simp [List.dropWhile_append_of_pos whole, stop]
  have trimmed := trimChars_solid fun c member => (solid c member).1
  simp only [keyValue?, before, after, named.name_eq, named.proper, if_false, trimmed, String.ofList_toList]

/-! ### sections -/

/-- Such a line adds its entry to the section. -/
theorem readLines_key (named : IsName key) (solid : Solid value) (n : Nat) (after : List (List Char)) :
    readLines title n ((key.toList ++ '=' :: value.toList) :: after) =
      (readLines title (n + 1) after).map (⟨title, key, some value⟩ :: ·) := by
  have said : content (key.toList ++ '=' :: value.toList) = key.toList ++ '=' :: value.toList := by
    apply content_solid
    intro c member
    rcases List.mem_append.mp member with inKey | inValue
    · exact named.solid c inKey
    · rcases List.mem_cons.mp inValue with rfl | inValue
      · decide
      · exact solid c inValue
  have read := keyValue?_line named solid
  -- the first character decides what kind of line it is
  cases chars : key.toList with
  | nil => exact absurd (String.toList_eq_nil_iff.mp chars) named.proper
  | cons c cs =>
    have letter : c ≠ '[' := (named.plain c (by simp [chars])).2.2.1
    rw [chars, List.cons_append] at said read
    rw [List.cons_append]
    simp only [readLines, said, read]
    cases readLines title (n + 1) after <;> rfl

/-- The lines of keys in a section give their entries. -/
theorem readLines_values (good : Writable values) (n : Nat) (after : List (List Char)) :
    readLines title n (keyLines values ++ after) =
      (readLines title (n + values.length) after).map (entries title values ++ ·) := by
  induction values generalizing n with
  | nil => cases read : readLines title n after <;> simp [keyLines, entries, read, Except.map]
  | cons kv values ih =>
    obtain ⟨⟨first, fits⟩, others⟩ := List.forall_mem_cons.mp good
    have later : n + 1 + values.length = n + (values.length + 1) := by omega
    have rest := ih others (n + 1)
    rw [later] at rest
    change readLines title n ((kv.1.toList ++ '=' :: kv.2.toList) :: (keyLines values ++ after)) = _
    rw [readLines_key first fits, rest, List.length_cons]
    cases readLines title (n + (values.length + 1)) after <;> rfl

/-- The line of a title begins its section. -/
theorem readLines_title (named : IsName title) (current : String) (n : Nat) (after : List (List Char)) :
    readLines current n (('[' :: title.toList ++ [']']) :: after) = readLines title (n + 1) after := by
  have said : content ('[' :: title.toList ++ [']']) = '[' :: title.toList ++ [']'] := by
    apply content_solid
    intro c member
    simp only [List.cons_append, List.mem_cons, List.mem_append, List.not_mem_nil, or_false] at member
    rcases member with rfl | inTitle | rfl
    · decide
    · exact named.solid c inTitle
    · decide
  rw [List.cons_append] at said ⊢
  simp only [readLines, said, sectionName?_title named]

/-- A section that is written is read as its entries, before those of the text that follows. -/
theorem readLines_section (named : IsName title) (good : Writable values) (current : String)
    (n : Nat) (rest : List Char) :
    readLines current n (lines ((writeSection title values).toList ++ rest)) =
      (readLines title (n + 1 + values.length) (lines rest)).map (entries title values ++ ·) := by
  rw [lines_writeSection named good, List.cons_append, readLines_title named, readLines_values good]

/-- A text of sections is read as their entries. -/
theorem read_sections {sections : List (String × List (String × String))}
    (good : ∀ s ∈ sections, IsName s.1 ∧ Writable s.2) :
    read (String.join (sections.map fun (title, values) => writeSection title values)) =
      .ok (sections.flatMap fun (title, values) => entries title values) := by
  rw [read]
  generalize "default" = current, 1 = n
  induction sections generalizing current n with
  | nil => simp [lines, readLines, content, trimChars]
  | cons s sections ih =>
    obtain ⟨title, values⟩ := s
    obtain ⟨⟨named, fits⟩, others⟩ := List.forall_mem_cons.mp good
    have later := ih others title (n + 1 + values.length)
    rw [String.toList_join] at later ⊢
    rw [List.map_cons, List.flatMap_cons, readLines_section named fits, later]
    rfl

/-! ### values of keys -/

/-- Keys that differ have the values that were written for them. -/
theorem get?_entries (once : (values.map (·.1)).Nodup) (title key : String) :
    get? (entries title values) title key = values.lookup key := by
  induction values with
  | nil => rfl
  | cons kv values ih =>
    obtain ⟨written, value⟩ := kv
    obtain ⟨first, others⟩ := List.nodup_cons.mp once
    by_cases same : key = written
    · -- no later entry takes the place of this one
      subst same
      have none : (entries title values).reverse.find? (fun e => e.title == title && e.key == key) = none := by
        rw [List.find?_eq_none]
        intro e member
        obtain ⟨kv, listed, rfl⟩ := List.mem_map.mp (List.mem_reverse.mp member)
        have differ : kv.1 ≠ key := fun same => first (List.mem_map.mpr ⟨kv, listed, same⟩)
        simp [differ]
      simp only [get?, entries] at none ⊢
      simp [none]
    · have other : (written == key) = false := beq_false_of_ne fun equal => same equal.symm
      have later := ih others
      simp only [get?, entries] at later ⊢
      simp [List.lookup_cons, beq_false_of_ne same, other, later]

theorem find?_elsewhere {other : String} (differ : other ≠ title) (key : String)
    (values : List (String × String)) :
    (entries other values).reverse.find? (fun e => e.title == title && e.key == key) = none := by
  rw [List.find?_eq_none]
  intro e member
  obtain ⟨kv, _, rfl⟩ := List.mem_map.mp (List.mem_reverse.mp member)
  simp [differ]

variable {other : String} {es : List IniEntry}

/-- Only the section of a key counts. -/
theorem get?_append_left (differ : other ≠ title) (key : String) (values : List (String × String)) :
    get? (es ++ entries other values) title key = get? es title key := by
  simp [get?, find?_elsewhere differ]

/-- The entries of another section do not count. -/
theorem get?_append_right (differ : other ≠ title) (key : String) (values : List (String × String)) :
    get? (entries other values ++ es) title key = get? es title key := by
  simp [get?, find?_elsewhere differ]

end Gameplay.Ini
