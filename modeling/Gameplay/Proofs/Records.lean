import Gameplay.Document.Reader
import Gameplay.Document.Writer
import Gameplay.Proofs.Numerals

/-!
# Records are read as they are written

What is written of plain values, of words and of the parts of a script is read as these, provided that their
numbers are.

## Main results

`readOperand?_toJson`, `readCondition?_toJson`, `readAction?_toJson`: what is written of an operand, of a
condition and of an action is read as the same. For an operand this says that none of its three forms is taken
for another.
-/

namespace Gameplay

/-! ### numbers of a document -/

/-- The double is written as a numeral that is read as this double. -/
def RereadsDouble (x : Float) : Prop := (Numeral.ofFloat? x).bind Numeral.toFloat? = some x

/-- The single is written as a numeral that is read as this single. -/
def RereadsSingle (x : Float32) : Prop := (Numeral.ofFloat32? x).bind Numeral.toFloat32? = some x

instance (x : Float) : Decidable (RereadsDouble x) := inferInstanceAs (Decidable (_ = _))

instance (x : Float32) : Decidable (RereadsSingle x) := inferInstanceAs (Decidable (_ = _))

def Value.number? : Value → Option Float
  | .number x => some x
  | _ => none

def Operand.number? : Operand → Option Float
  | .literal value => value.number?
  | _ => none

/-- The number of the operand, if it writes one, is read as it is written. -/
def Operand.Rereads (o : Operand) : Prop := ∀ x ∈ o.number?, RereadsDouble x

def Action.operands : Action → List Operand
  | .move a b | .setVelocity a b | .teleport a b | .spawnObject _ a b _ | .randomizeVariable _ a b _ => [a, b]
  | .rotate a | .changeScore a | .changeVariable _ _ a | .wait a => [a]
  | .moveToward a b c => [a, b, c]
  | .message _ duration => duration.toList
  | .clampToRoom | .destroySelf | .destroyOther | .endGame _ | .playSound _ | .copyVariable _ _ | .goToRoom _ _
  | .restartRoom _ | .emitCustomEvent _ => []

namespace Document

/-! ### records -/

theorem record_eq (members : List (String × Json)) :
    Json.record members = .object (members.map fun m => (some m.1, m.2)) := rfl

/-- A record gives the fields that are known, unless one stands twice. -/
theorem fields?_record (names : List String) (members : List (String × Json)) :
    fields? names (.record members) =
      if distinct ((members.filter fun m => names.contains m.1).map (·.1)) then
        some (members.filter fun m => names.contains m.1)
      else none := by
  have known : (members.map fun m => (some m.1, m.2)).filterMap (fun member =>
      member.1.bind fun name => if names.contains name then some (name, member.2) else none) =
      members.filter fun m => names.contains m.1 := by
    induction members with
    | nil => rfl
    | cons m members ih =>
      by_cases listed : names.contains m.1 <;> simp_all
  -- an object whose names are not all texts gives nothing, but those of a record are
  have named : ((members.map fun m => (some m.1, m.2)).all fun member => member.1.isSome) = true := by simp
  simp only [record_eq, fields?, known, named, Bool.true_and]

/-- No member of a record is picked by a name that none of them has. -/
theorem filter_absent {name : String} {members : List (String × Json)} (absent : ∀ m ∈ members, m.1 ≠ name) :
    (members.map fun m => (some m.1, m.2)).filter (fun m => m.1 == some name) = [] ∧
    (members.map fun m => (some m.1, m.2)).filter (fun m => m.1 != some name) =
      members.map fun m => (some m.1, m.2) := by
  rw [List.filter_eq_nil_iff, List.filter_eq_self]
  constructor
  all_goals
    intro _ listed
    obtain ⟨m, there, rfl⟩ := List.mem_map.mp listed
    simpa using absent m there

/-- A tagged record gives its tag and the other members. -/
theorem tagged?_record {tag word : String} {names : List String} (numbered : Bool) {others : List (String × Json)}
    (known : word ∈ names) (once : ∀ m ∈ others, m.1 ≠ tag) :
    tagged? tag names numbered (.record ((tag, .text word) :: others)) = some (word, .record others) := by
  obtain ⟨tags, rest⟩ := filter_absent once
  simp only [record_eq, tagged?, List.map_cons, List.filter_cons, tags, rest]
  simp [tagName?, Json.text, known]

/-! ### fields -/

section

variable {α : Type} {fields : Fields} {name other : String} {value : Json} {read : Json → Option α} {default : α}

@[simp] theorem required_nil : Fields.required [] name read = none := rfl

@[simp] theorem required_cons : Fields.required ((other, value) :: fields) name read =
    if name = other then read value else Fields.required fields name read := by
  by_cases same : name = other
  · rw [if_pos same, same, Fields.required, List.lookup_cons_self, Option.bind_some]
  · rw [if_neg same, Fields.required, List.lookup_cons, beq_false_of_ne same]
    rfl

@[simp] theorem optional_nil : Fields.optional [] name default read = some default := rfl

@[simp] theorem optional_cons : Fields.optional ((other, value) :: fields) name default read =
    if name = other then read value else Fields.optional fields name default read := by
  by_cases same : name = other
  · rw [if_pos same, same, Fields.optional, List.lookup_cons_self]
  · rw [if_neg same, Fields.optional, List.lookup_cons, beq_false_of_ne same]
    rfl

theorem nullable_skip (differ : name ≠ other) :
    Fields.nullable ((other, value) :: fields) name read = Fields.nullable fields name read := by
  unfold Fields.nullable
  rw [List.lookup_cons, beq_false_of_ne differ]

/-- What is written of an optional value is read as this, as no value that is there is written as `null`. -/
theorem nullable_orNull {write : α → Json} {a : Option α}
    (each : ∀ x ∈ a, read (write x) = some x ∧ write x ≠ .null) :
    Fields.nullable ((name, .orNull write a) :: fields) name read = some a := by
  unfold Fields.nullable
  rw [List.lookup_cons_self]
  cases a with
  | none => rfl
  | some x =>
    obtain ⟨same, there⟩ := each x rfl
    simp [Json.orNull, same]

end

/-! ### words -/

/-- Every member of the enumeration is found under its word. -/
def Words.Faithful {α : Type} [DecidableEq α] (words : Words α) : Prop :=
  ∀ a, words.lookup (words.word a) = some a

theorem valueTypes_faithful : Words.Faithful valueTypes := by
  intro a
  cases a <;> decide

theorem scopes_faithful : Words.Faithful scopes := by
  intro a
  cases a <;> decide

theorem keyStates_faithful : Words.Faithful keyStates := by
  intro a
  cases a <;> decide

theorem comparisons_faithful : Words.Faithful comparisons := by
  intro a
  cases a <;> decide

theorem transitions_faithful : Words.Faithful transitions := by
  intro a
  cases a <;> decide

theorem changeOps_faithful : Words.Faithful changeOps := by
  intro a
  cases a <;> decide

/-- A word of a faithful table reads back as what it stands for. -/
theorem readWord?_wordJson {α : Type} [DecidableEq α] {words : Words α} (faithful : words.Faithful)
    (beside : Beside) (a : α) : readWord? words beside (wordJson words a) = some a := faithful a

/-! ### plain values -/

@[simp] theorem readString?_text (s : String) : readString? (.text s) = some s := rfl

@[simp] theorem readBool?_bool (b : Bool) : readBool? (.bool b) = some b := rfl

theorem readFloat_rereads {x : Float} (rereads : RereadsDouble x) :
    ∃ n, Json.float x = .number n ∧ n.toFloat? = some x := by
  obtain ⟨n, written, read⟩ := Option.bind_eq_some_iff.mp rereads
  exact ⟨n, by simp [Json.float, written], read⟩

theorem readFloat32?_rereads {x : Float32} (rereads : RereadsSingle x) :
    ∃ n, Json.float32 x = .number n ∧ n.toFloat32? = some x := by
  obtain ⟨n, written, read⟩ := Option.bind_eq_some_iff.mp rereads
  exact ⟨n, by simp [Json.float32, written], read⟩

private theorem readUInt32?_int {i : Int} (fits : 0 ≤ i ∧ i < (twoTo 32 : Nat)) :
    readUInt32? (.int i) = some (.ofNat i.toNat) := by
  have whole : (Numeral.ofInt i).toInt? = some i := Numeral.toInt?_ofInt (by simp at *; omega) (by simp at *; omega)
  simp only [readUInt32?, Json.int, whole, Option.bind_some]
  rw [if_pos fits]

theorem readUInt32?_nat (n : UInt32) : readUInt32? (.nat n.toNat) = some n := by
  have bound : (n.toNat : Int) < (twoTo 32 : Nat) := Int.ofNat_lt.mpr n.toNat_lt
  have read := readUInt32?_int ⟨Int.natCast_nonneg n.toNat, bound⟩
  rwa [Int.toNat_natCast, UInt32.ofNat_toNat] at read

theorem readInt32?_int (n : Int32) : readInt32? (.int n.toInt) = some n := by
  have least := n.le_toInt
  have most := n.toInt_lt
  have whole : (Numeral.ofInt n.toInt).toInt? = some n.toInt :=
    Numeral.toInt?_ofInt (by simp; omega) (by simp; omega)
  simpa [readInt32?, Json.int, whole] using ⟨least, most⟩

/-- A list reads back when each of its elements does. -/
theorem readList?_listJson {α : Type} {read : Json → Option α} {write : α → Json} {as : List α}
    (each : ∀ a ∈ as, read (write a) = some a) : readList? read (listJson write as) = some as := by
  simp only [readList?, listJson]
  induction as with
  | nil => rfl
  | cons a as ih =>
    have first := each a List.mem_cons_self
    have others := ih fun b listed => each b (List.mem_cons_of_mem _ listed)
    simp [first, others]

/-! ### operands and conditions -/

theorem readValue?_toJson {v : Value} (rereads : ∀ x ∈ v.number?, RereadsDouble x) :
    readValue? v.toJson = some v := by
  cases v with
  | number x =>
    obtain ⟨n, written, read⟩ := readFloat_rereads (rereads x rfl)
    simp [Value.toJson, written, readValue?, read]
  | bool _ => rfl
  | text _ => rfl

theorem readVariableRef?_toJson (r : VariableRef) (beside : Beside) :
    readVariableRef? beside r.toJson = some r := by
  simp [readVariableRef?, VariableRef.toJson, fields?_record, distinct, readWord?_wordJson scopes_faithful]

/-- An operand reads back when its number does. -/
theorem readOperand?_toJson {o : Operand} (rereads : o.Rereads) :
    readOperand? o.toJson = some o := by
  have forms (members : List (String × Json)) : readOperand? (.record members) =
      (readLiteral? (.record members) <|> readVariableOperand? (.record members) <|>
        readKey? (.record members)) := rfl
  -- the forms are tried in turn, and each asks for a field that the other two are not written with
  match o with
  | .literal value =>
    have value := readValue?_toJson (v := value) rereads
    simp [Operand.toJson, forms, readLiteral?, fields?_record, distinct, value]
  | .variable reference =>
    simp [Operand.toJson, forms, readLiteral?, readVariableOperand?, fields?_record, distinct,
      readVariableRef?_toJson]
  | .key key state =>
    simp [Operand.toJson, forms, readLiteral?, readVariableOperand?, readKey?, fields?_record, distinct,
      readWord?_wordJson keyStates_faithful]

theorem readCondition?_toJson {c : Condition} (left : c.left.Rereads) (right : c.right.Rereads) :
    readCondition? c.toJson = some c := by
  simp [readCondition?, Condition.toJson, fields?_record, distinct,
    readOperand?_toJson left, readOperand?_toJson right, readWord?_wordJson comparisons_faithful]

/-! ### actions -/

/-- The name of a field of an action is neither that of its type nor that of its kind. -/
theorem fields_names (a : Action) : ∀ m ∈ a.fields, m.1 ≠ "type" ∧ m.1 ≠ "kind" := by
  cases a <;> simp [Action.fields]

theorem mem_actionTypes (a : Action) : a.type ∈ actionTypes := by
  cases a <;> simp [Action.type, actionTypes]

theorem readActionOf?_fields {a : Action} (rereads : ∀ o ∈ a.operands, o.Rereads) :
    readActionOf? a.type (.record a.fields) = some a := by
  have operand : ∀ o ∈ a.operands, readOperand? o.toJson = some o := fun o listed =>
    readOperand?_toJson (rereads o listed)
  cases a with
  | clampToRoom | destroySelf | destroyOther => rfl
  | message text duration =>
    -- a message without a duration is written with `null` for it
    have shown : ∀ o ∈ duration, readOperand? o.toJson = some o ∧ o.toJson ≠ .null := fun o given =>
      ⟨operand o (by simpa [Action.operands] using given), by cases o <;> nofun⟩
    simp [Action.type, Action.fields, readActionOf?, fields?_record, distinct, nullable_skip,
      nullable_orNull shown]
  | _ =>
    simp_all [Action.type, Action.fields, Action.operands, readActionOf?, fields?_record, distinct,
      readVariableRef?_toJson, readWord?_wordJson changeOps_faithful, readWord?_wordJson transitions_faithful]

/-- An action reads back when its operands do. -/
theorem readAction?_toJson {a : Action} (rereads : ∀ o ∈ a.operands, o.Rereads) :
    readAction? a.toJson = some a := by
  have tagged := tagged?_record true (mem_actionTypes a) fun m listed => (fields_names a m listed).1
  rw [readAction?, Action.toJson, tagged]
  exact readActionOf?_fields rereads

/-! ### items -/

variable {branch : Json → Option Script}

theorem readItem?_act {a : Action} (rereads : ∀ o ∈ a.operands, o.Rereads)
    (numbered : Bool) (rest : Script) :
    readItem? branch numbered (.record (("kind", .text "action") :: ("type", .text a.type) :: a.fields)) rest =
      some (.act a rest) := by
  -- the tag of the item stands before that of the action within it
  have names : ∀ m ∈ ("type", Json.text a.type) :: a.fields, m.1 ≠ "kind" := by
    intro m listed
    rcases List.mem_cons.mp listed with rfl | field
    · simp
    · exact (fields_names a m field).2
  have action := readAction?_toJson rereads
  rw [Action.toJson] at action
  rw [readItem?, tagged?_record numbered (by simp [itemKinds]) names]
  simp [action]

/-- A branch reads back when its condition and both of its lists do. -/
theorem readItem?_branch {c : Condition} {thens elses : Script} (left : c.left.Rereads)
    (right : c.right.Rereads) (thensRead : branch (.array thens.items) = some thens)
    (elsesRead : branch (.array elses.items) = some elses) (numbered : Bool) (rest : Script) :
    readItem? branch numbered (.record [("kind", .text "if"), ("condition", c.toJson),
      ("thenActions", .array thens.items), ("elseActions", .array elses.items)]) rest =
      some (.branch c thens elses rest) := by
  rw [readItem?, tagged?_record numbered (by simp [itemKinds]) (by simp)]
  simp [fields?_record, distinct, readCondition?_toJson left right, thensRead, elsesRead]

end Document

end Gameplay
