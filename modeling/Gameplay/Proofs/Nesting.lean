import Gameplay.Proofs.Records
import Mathlib.Data.Nat.Init

/-!
# How deep a script is written

Only so many containers may lie within one another. A script that has been read is never written deeper than it
was read, so there is room for what is written of it wherever there was for what it was read from.

## Main result

`readItems?_again`: what is written of the items of a script fits where they were read from, and is read as the
same script.
-/

namespace Gameplay

def Script.operands : Script → List Operand
  | .done => []
  | .act action rest => action.operands ++ rest.operands
  | .branch condition thens elses rest =>
    condition.left :: condition.right :: (thens.operands ++ elses.operands ++ rest.operands)

namespace Document

/-! ### what fits -/

@[simp] theorem fits_text (levels : Nat) (s : String) : fits levels (.text s) = true := by
  cases levels <;> rfl

@[simp] theorem fits_bool (levels : Nat) (b : Bool) : fits levels (.bool b) = true := by
  cases levels <;> rfl

@[simp] theorem fits_null (levels : Nat) : fits levels .null = true := by
  cases levels <;> rfl

@[simp] theorem fits_wordJson {α : Type} [DecidableEq α] (levels : Nat) (words : Words α) (a : α) :
    fits levels (wordJson words a) = true := fits_text levels _

@[simp] theorem fits_number (levels : Nat) (n : Numeral) : fits levels (.number n) = n.toFloat?.isSome := by
  cases levels <;> rfl

@[simp] theorem fits_array (levels : Nat) (items : List Json) :
    fits (levels + 1) (.array items) = items.all (fits levels) := rfl

@[simp] theorem fits_record (levels : Nat) (members : List (String × Json)) :
    fits (levels + 1) (.record members) = members.all fun m => fits levels m.2 := by
  simp [fits, Json.record, List.all_map, Function.comp_def]

private theorem fits_items {levels : Nat} {items : List Json} (fit : fits levels (.array items) = true) :
    ∃ inner, levels = inner + 1 ∧ ∀ item ∈ items, fits inner item = true := by
  cases levels with
  | zero => cases fit
  | succ inner => exact ⟨inner, rfl, List.all_eq_true.mp fit⟩

private theorem fits_members {levels : Nat} {members : List (Option String × Json)}
    (fit : fits levels (.object members) = true) :
    ∃ inner, levels = inner + 1 ∧ ∀ m ∈ members, fits inner m.2 = true := by
  cases levels with
  | zero => cases fit
  | succ inner =>
    exact ⟨inner, rfl, fun m listed => (Bool.and_eq_true_iff.mp (List.all_eq_true.mp fit m listed)).2⟩

/-- There is room for what a record gives. -/
def Room (levels : Nat) (fields : Fields) : Prop := ∀ m ∈ fields, fits levels m.2 = true

/-- The fields of a record lie one level within it. -/
theorem fields?_room {levels : Nat} {names : List String} {j : Json} {fields : Fields} (fit : fits levels j = true)
    (given : fields? names j = some fields) : ∃ inner, levels = inner + 1 ∧ Room inner fields := by
  cases j with
  | array items =>
    obtain ⟨inner, rfl, each⟩ := fits_items fit
    refine ⟨inner, rfl, fun m listed => ?_⟩
    simp only [fields?, Option.ite_none_right_eq_some, Option.some.injEq] at given
    obtain ⟨_, rfl⟩ := given
    -- the fields of an array are its items, under the names that it does without
    exact each m.2 (List.of_mem_zip listed).2
  | object members =>
    obtain ⟨inner, rfl, each⟩ := fits_members fit
    refine ⟨inner, rfl, fun m listed => ?_⟩
    simp only [fields?, Option.ite_none_right_eq_some, Option.some.injEq] at given
    obtain ⟨_, rfl⟩ := given
    obtain ⟨member, there, known⟩ := List.mem_filterMap.mp listed
    obtain ⟨name, _, same⟩ := Option.bind_eq_some_iff.mp known
    split at same
    · cases same
      exact each member there
    · cases same
  | null | bool _ | number _ | string _ => cases given

/-- Where a record is known to be a container, its fields lie one level within. -/
theorem Room.of_fields? {inner : Nat} {names : List String} {j : Json} {fields : Fields}
    (fit : fits (inner + 1) j = true) (given : fields? names j = some fields) : Room inner fields := by
  obtain ⟨_, same, room⟩ := fields?_room fit given
  cases same
  exact room

/-- Without its tag a value lies no deeper. -/
theorem tagged?_fits {levels : Nat} {tag : String} {names : List String} {numbered : Bool} {j content : Json}
    {word : String} (fit : fits levels j = true) (tagged : tagged? tag names numbered j = some (word, content)) :
    fits levels content = true := by
  cases j with
  | array items =>
    -- the tag stands first
    cases items with
    | nil => cases tagged
    | cons first rest =>
      obtain ⟨_, _, same⟩ := Option.map_eq_some_iff.mp tagged
      cases same
      obtain ⟨inner, rfl, each⟩ := fits_items fit
      exact List.all_eq_true.mpr fun item listed => each item (List.mem_cons_of_mem _ listed)
  | object members =>
    simp only [tagged?] at tagged
    split at tagged
    · obtain ⟨_, _, same⟩ := Option.map_eq_some_iff.mp tagged
      cases same
      cases levels with
      | zero => cases fit
      | succ inner =>
        refine List.all_eq_true.mpr fun member listed => ?_
        exact List.all_eq_true.mp fit member (List.mem_filter.mp listed).1
    · cases tagged
  | null | bool _ | number _ | string _ => cases tagged

namespace Room

variable {α : Type} {levels : Nat} {fields : Fields} {name : String} {read : Json → Option α} {a : α}

private theorem found (room : Room levels fields) {value : Json} (found : fields.lookup name = some value) :
    fits levels value = true := by
  obtain ⟨before, after, rfl, _⟩ := List.lookup_eq_some_iff.mp found
  exact room (name, value) (by simp)

/-- A field that was read had room. -/
theorem required (room : Room levels fields) (given : fields.required name read = some a) :
    ∃ value, fits levels value = true ∧ read value = some a := by
  obtain ⟨value, listed, same⟩ := Option.bind_eq_some_iff.mp given
  exact ⟨value, room.found listed, same⟩

theorem optional (room : Room levels fields) {default : α} (given : fields.optional name default read = some a) :
    a = default ∨ ∃ value, fits levels value = true ∧ read value = some a := by
  unfold Fields.optional at given
  split at given
  · exact .inl (Option.some.inj given).symm
  next value listed => exact .inr ⟨value, room.found listed, given⟩

theorem nullable (room : Room levels fields) {a : Option α} (given : fields.nullable name read = some a) :
    ∀ x ∈ a, ∃ value, fits levels value = true ∧ read value = some x := by
  intro x there
  unfold Fields.nullable at given
  split at given
  · cases given
    cases there
  · cases given
    cases there
  next value _ listed =>
    obtain ⟨y, same, rfl⟩ := Option.map_eq_some_iff.mp given
    cases there
    exact ⟨value, room.found listed, same⟩

end Room

/-! ### operands and conditions -/

theorem readVariableRef?_fits {levels : Nat} {beside : Beside} {j : Json} {r : VariableRef}
    (fit : fits levels j = true) (read : readVariableRef? beside j = some r) : fits levels r.toJson = true := by
  obtain ⟨fields, given, _⟩ := Option.bind_eq_some_iff.mp read
  obtain ⟨inner, rfl, _⟩ := fields?_room fit given
  simp [VariableRef.toJson]

theorem value_fits (levels : Nat) {v : Value} (rereads : ∀ x ∈ v.number?, RereadsDouble x) :
    fits levels v.toJson = true := by
  cases v with
  | number x =>
    obtain ⟨n, written, read⟩ := readFloat_rereads (rereads x rfl)
    simp [Value.toJson, written, read]
  | bool b => exact fits_bool levels b
  | text s => exact fits_text levels s

/-- An operand has been read in one of the three ways. -/
private theorem readOperand?_cases {j : Json} {o : Operand} (read : readOperand? j = some o) :
    readLiteral? j = some o ∨ readVariableOperand? j = some o ∨ readKey? j = some o := by
  unfold readOperand? at read
  split at read
  next members =>
    -- the forms are tried one after the other, and the first that fits is taken
    cases literal : readLiteral? (.object members) with
    | some _ =>
      rw [literal] at read
      exact .inl read
    | none =>
      cases other : readVariableOperand? (.object members) with
      | some _ =>
        rw [literal, other] at read
        exact .inr (.inl read)
      | none =>
        rw [literal, other] at read
        exact .inr (.inr read)
  · cases read

/-- An operand that was read can be written within the same levels. -/
theorem readOperand?_fits {levels : Nat} {j : Json} {o : Operand} (fit : fits levels j = true)
    (read : readOperand? j = some o) (rereads : o.Rereads) : fits levels o.toJson = true := by
  rcases readOperand?_cases read with literal | other | key
  · -- a value takes no level, however it was spelled
    obtain ⟨fields, given, rest⟩ := Option.bind_eq_some_iff.mp literal
    obtain ⟨inner, rfl, _⟩ := fields?_room fit given
    obtain ⟨value, _, same⟩ := Option.bind_eq_some_iff.mp rest
    cases same
    simpa [Operand.toJson] using value_fits inner rereads
  · -- the reference was read from a field, so there is a level for it as well
    obtain ⟨fields, given, rest⟩ := Option.bind_eq_some_iff.mp other
    obtain ⟨inner, rfl, room⟩ := fields?_room fit given
    obtain ⟨reference, asked, same⟩ := Option.bind_eq_some_iff.mp rest
    cases same
    obtain ⟨value, fit', read'⟩ := room.required asked
    simpa [Operand.toJson] using readVariableRef?_fits fit' read'
  · obtain ⟨fields, given, rest⟩ := Option.bind_eq_some_iff.mp key
    obtain ⟨inner, rfl, _⟩ := fields?_room fit given
    obtain ⟨name, _, rest⟩ := Option.bind_eq_some_iff.mp rest
    obtain ⟨state, _, same⟩ := Option.bind_eq_some_iff.mp rest
    cases same
    simp [Operand.toJson]

/-- A condition and its sides are records, so there are two levels for it. -/
theorem readCondition?_fits {levels : Nat} {j : Json} {c : Condition} (fit : fits levels j = true)
    (read : readCondition? j = some c) (left : c.left.Rereads) (right : c.right.Rereads) :
    fits levels c.toJson = true ∧ 2 ≤ levels := by
  obtain ⟨fields, given, rest⟩ := Option.bind_eq_some_iff.mp read
  obtain ⟨inner, rfl, room⟩ := fields?_room fit given
  obtain ⟨l, askedLeft, rest⟩ := Option.bind_eq_some_iff.mp rest
  obtain ⟨op, _, rest⟩ := Option.bind_eq_some_iff.mp rest
  obtain ⟨r, askedRight, same⟩ := Option.bind_eq_some_iff.mp rest
  cases same
  obtain ⟨_, fitLeft, readLeft⟩ := room.required askedLeft
  obtain ⟨_, fitRight, readRight⟩ := room.required askedRight
  have fitLeft := readOperand?_fits fitLeft readLeft left
  have fitRight := readOperand?_fits fitRight readRight right
  -- no operand fits where there is no level left
  refine ⟨by simp [Condition.toJson, fitLeft, fitRight], ?_⟩
  cases inner with
  | zero => cases l <;> cases fitLeft
  | succ _ => omega

/-! ### actions -/

variable {levels : Nat} {fields : Fields} {name : String}

private theorem Room.operand {o : Operand} (room : Room levels fields)
    (given : fields.required name readOperand? = some o) (rereads : o.Rereads) :
    fits levels o.toJson = true := by
  obtain ⟨_, fit, read⟩ := room.required given
  exact readOperand?_fits fit read rereads

private theorem Room.reference {beside : Beside} {r : VariableRef} (room : Room levels fields)
    (given : fields.required name (readVariableRef? beside) = some r) :
    fits levels r.toJson = true := by
  obtain ⟨_, fit, read⟩ := room.required given
  exact readVariableRef?_fits fit read

private theorem Room.orNull {o : Option Operand} (room : Room levels fields)
    (given : fields.nullable name readOperand? = some o) (rereads : ∀ p ∈ o.toList, p.Rereads) :
    fits levels (.orNull Operand.toJson o) = true := by
  cases o with
  | none => exact fits_null levels
  | some p =>
    obtain ⟨_, fit, read⟩ := room.nullable given p rfl
    exact readOperand?_fits fit read (rereads p List.mem_cons_self)

private theorem bare?_some {α : Type} {a b : α} {content : Json} (read : bare? a content = some b) : b = a := by
  unfold bare? at read
  split at read <;> cases read <;> rfl

/-- Where there was room for the fields that an action was read from, there is room for those that it is written
with: words and texts take no room, and an operand or a reference was read from a field. -/
theorem readActionOf?_room {type : String} {content : Json} {a : Action}
    (fit : fits (levels + 1) content = true) (read : readActionOf? type content = some a)
    (rereads : ∀ o ∈ a.operands, o.Rereads) : Room levels a.fields := by
  unfold readActionOf? at read
  split at read
  all_goals first
    | -- an action without fields
      rw [bare?_some read]
      intro _ listed
      cases listed
    | cases read
    | simp only [Option.bind_eq_bind, Option.bind_eq_some_iff, Option.some.injEq] at read
      obtain ⟨fields, known, read⟩ := read
      have room := Room.of_fields? fit known
      grind [Action.fields, Action.operands, List.mem_cons_self, Room.operand, Room.reference, Room.orNull, fits_text,
        fits_bool, fits_wordJson, Room]

/-! ### items -/

/-- The numbers of operands are read as they are written. -/
def Reread (operands : List Operand) : Prop := ∀ o ∈ operands, o.Rereads

/-- What is written of the items of a script fits, and is read as the script. -/
structure Again (levels : Nat) (s : Script) : Prop where
  fits : fits levels (.array s.items) = true
  read : ∀ numbered, readItems? levels numbered (.array s.items) = some s

theorem again_done (some_level : 1 ≤ levels) : Again levels .done := by
  obtain ⟨inner, rfl⟩ := Nat.exists_eq_add_of_le' some_level
  refine ⟨rfl, fun _ => ?_⟩
  cases inner <;> rfl

/-- Every script that was read within so many levels is read again there. -/
private def ReadsAgain (levels : Nat) : Prop :=
  ∀ {numbered : Bool} {j : Json} {s : Script}, fits levels j = true → readItems? levels numbered j = some s →
    Reread s.operands → Again levels s

/-- What is written of an item fits where the item was read from, and is read as the same. -/
private theorem readItem?_again {numbered : Bool} {j : Json} {rest s : Script} (inner : ReadsAgain levels)
    (fit : fits (levels + 1) j = true)
    (read : readItem? (fun j => readItems? levels true j) numbered j rest = some s) (reread : Reread s.operands) :
    (∀ o ∈ rest.operands, o ∈ s.operands) ∧
      ∃ item, s.items = item :: rest.items ∧ fits (levels + 1) item = true ∧
        ∀ numbered, readItem? (fun j => readItems? levels true j) numbered item rest = some s := by
  obtain ⟨⟨kind, content⟩, tagged, read⟩ := Option.bind_eq_some_iff.mp read
  have fit := tagged?_fits fit tagged
  dsimp only at read
  split at read
  · -- an action: its type is a tag within that of the item
    obtain ⟨a, acts, same⟩ := Option.bind_eq_some_iff.mp read
    cases same
    obtain ⟨⟨type, content⟩, typed, acts⟩ := Option.bind_eq_some_iff.mp acts
    have numbers : Reread a.operands := fun o listed => reread o (List.mem_append_left _ listed)
    have room := readActionOf?_room (tagged?_fits fit typed) acts numbers
    refine ⟨fun o listed => List.mem_append_right _ listed, _, rfl, ?_,
      fun numbered => readItem?_act numbers numbered rest⟩
    simpa [Room] using room
  · -- an if-block: its two lists of items lie a level deeper than the item
    obtain ⟨fields, known, read⟩ := Option.bind_eq_some_iff.mp read
    have room := Room.of_fields? fit known
    obtain ⟨c, condition, read⟩ := Option.bind_eq_some_iff.mp read
    obtain ⟨thens, thensRead, read⟩ := Option.bind_eq_some_iff.mp read
    obtain ⟨elses, elsesRead, same⟩ := Option.bind_eq_some_iff.mp read
    cases same
    have left : c.left.Rereads := reread c.left (by simp [Script.operands])
    have right : c.right.Rereads := reread c.right (by simp [Script.operands])
    obtain ⟨_, fitCondition, readCondition⟩ := room.required condition
    obtain ⟨fitCondition, two⟩ := readCondition?_fits fitCondition readCondition left right
    -- a block that was left out is written as an empty list, for which the condition has made room
    have block {name : String} {s : Script} (reread : Reread s.operands)
        (given : fields.optional name .done (fun j => readItems? levels true j) = some s) : Again levels s := by
      rcases room.optional given with rfl | ⟨_, fitItems, readItems⟩
      · exact again_done (by omega)
      · exact inner fitItems readItems reread
    have thens := block (fun o listed => reread o (by simp [Script.operands, listed])) thensRead
    have elses := block (fun o listed => reread o (by simp [Script.operands, listed])) elsesRead
    refine ⟨fun o listed => by simp [Script.operands, listed], _, rfl, ?_, fun numbered => ?_⟩
    · simp [fitCondition, thens.fits, elses.fits]
    · exact readItem?_branch left right (thens.read true) (elses.read true) numbered rest

/-- The items of a script are written again one after the other. -/
private theorem readAll_again {numbered : Bool} {items : List Json} {s : Script} (inner : ReadsAgain levels)
    (fit : fits (levels + 2) (.array items) = true)
    (read : readItems? (levels + 2) numbered (.array items) = some s) (reread : Reread s.operands) :
    Again (levels + 2) s := by
  induction items generalizing s with
  | nil =>
    cases read
    exact again_done (by omega)
  | cons item items ih =>
    obtain ⟨fitItem, fitItems⟩ := Bool.and_eq_true_iff.mp fit
    obtain ⟨rest, readRest, readItem⟩ := Option.bind_eq_some_iff.mp read
    obtain ⟨operands, written, same, fitAgain, readAgain⟩ := readItem?_again inner fitItem readItem reread
    -- the operands of an item are among those of the whole script
    have again := ih fitItems readRest fun o listed => reread o (operands o listed)
    refine ⟨?_, fun numbered => ?_⟩
    · rw [same]
      exact Bool.and_eq_true_iff.mpr ⟨fitAgain, again.fits⟩
    · rw [same]
      exact Option.bind_eq_some_iff.mpr ⟨rest, again.read numbered, readAgain numbered⟩

/-- What is written of a script fits where the script was read from, and is read as the same. -/
theorem readItems?_again {numbered : Bool} {j : Json} {s : Script} (fit : fits levels j = true)
    (read : readItems? levels numbered j = some s) (reread : Reread s.operands) : Again levels s := by
  -- a block lies two levels within the script that holds it, in an item of its list
  induction levels using Nat.twoStepInduction generalizing numbered j s with
  | zero => simp [readItems?] at read
  | one =>
    -- an item is a container itself, so there is room for the empty list only
    cases j with
    | array items =>
      cases items with
      | nil =>
        cases read
        exact again_done (Nat.le_refl 1)
      | cons _ _ => cases read
    | null | bool _ | number _ | string _ | object _ => cases read
  | more levels ih _ =>
    cases j with
    | array items => exact readAll_again (fun fit read reread => ih fit read reread) fit read reread
    | null | bool _ | number _ | string _ | object _ => cases read

end Document

end Gameplay
