import Gameplay.Proofs.JsonText
import Gameplay.Proofs.Nesting

/-!
# Saved projects

A project that was read from a text is written as a text that is read as the same project.

## Main result

`write_reads_back`: this holds for every text that is read at all, if its numbers are finite and are read as they
are written.

## Proof strategy

The text of a JSON value is read as the value (`Json.read?_render`), so it is left to be shown that the reader of
projects takes what is written of each part for this part. Only the items of events need to know more of the first
text: that they lay deep enough within it.
-/

namespace Gameplay

open Document

/-! ### numbers of a project -/

def ObjectDefinition.doubles (o : ObjectDefinition) : List Float :=
  o.declarations.filterMap (·.initial.number?) ++
    o.events.flatMap fun e => e.items.operands.filterMap Operand.number?

def Project.doubles (p : Project) : List Float :=
  p.declarations.filterMap (·.initial.number?) ++ p.objects.flatMap ObjectDefinition.doubles

def ObjectDefinition.singles (o : ObjectDefinition) : List Float32 := o.width.toList ++ o.height.toList

def RoomDefinition.singles (r : RoomDefinition) : List Float32 :=
  r.width :: r.height :: r.instances.flatMap fun p => [p.x, p.y]

def Project.singles (p : Project) : List Float32 :=
  p.objects.flatMap ObjectDefinition.singles ++ p.rooms.flatMap RoomDefinition.singles ++
    p.sprites.flatMap fun s => [s.width, s.height]

namespace Document

/-! ### events -/

/-- The items of an event that was read can be read again. -/
theorem readEvent?_items {levels : Nat} {j : Json} {e : Event} (two : 2 ≤ levels)
    (read : readEvent? levels j = some e) (reread : Reread e.items.operands) : Again (levels - 1) e.items := by
  cases j with
  | object members =>
    obtain ⟨_, _, read⟩ := Option.bind_eq_some_iff.mp read
    obtain ⟨script, items, read⟩ := Option.bind_eq_some_iff.mp read
    obtain ⟨_, _, read⟩ := Option.bind_eq_some_iff.mp read
    obtain ⟨trigger, _, same⟩ := Option.bind_eq_some_iff.mp read
    cases same
    unfold readEventItems? at items
    split at items
    · -- an event without items has none
      cases items
      exact again_done (by omega)
    · split at items
      next fit => exact readItems?_again fit items reread
      · cases items
    · cases items
  | null | bool _ | number _ | string _ | array _ => cases read

private theorem trigger_names (t : Trigger) : ∀ m ∈ t.fields, m.1 ≠ "items" := by
  cases t <;> simp [Trigger.fields]

private theorem fits_trigger (levels : Nat) (t : Trigger) : fits (levels + 1) t.toJson = true := by
  have orNull (source : Option String) : fits levels (.orNull .text source) = true := by
    cases source <;> simp [Json.orNull]
  cases t <;> simp [Trigger.toJson, Trigger.fields, orNull]

theorem readTrigger?_toJson (t : Trigger) :
    ((tagged? "type" eventTypes true t.toJson).bind fun tagged => readTriggerOf? tagged.1 tagged.2) = some t := by
  have source (source : Option String) : ∀ s ∈ source, readString? (.text s) = some s ∧ Json.text s ≠ .null :=
    fun _ _ => ⟨rfl, Json.noConfusion⟩
  cases t with
  | create | step =>
    rw [Trigger.toJson, Trigger.fields, tagged?_record true (by decide) (by simp)]
    rfl
  | collision target =>
    rw [Trigger.toJson, Trigger.fields, tagged?_record true (by decide) (by simp)]
    simp [readTriggerOf?, fields?_record, distinct]
  | custom name sender =>
    rw [Trigger.toJson, Trigger.fields, tagged?_record true (by decide) (by simp)]
    simp [readTriggerOf?, fields?_record, distinct, nullable_skip, nullable_orNull (source sender)]

theorem readEvent?_toJson {levels : Nat} {e : Event} (some_level : 1 ≤ levels)
    (again : Again (levels - 1) e.items) : readEvent? levels e.toJson = some e := by
  obtain ⟨inner, rfl⟩ := Nat.exists_eq_add_of_le' some_level
  have items : readEventItems? inner [(some "items", .array e.items.items)] = some e.items := by
    have fit : fits inner (.array e.items.items) = true := again.fits
    simpa [readEventItems?, fit] using again.read false
  have trigger := readTrigger?_toJson e.trigger
  have fit := fits_trigger inner e.trigger
  rw [Trigger.toJson, record_eq] at trigger fit
  -- the items are the only member that is not of the trigger
  obtain ⟨none, others⟩ := filter_absent (trigger_names e.trigger)
  obtain ⟨⟨type, content⟩, tagged, read⟩ := Option.bind_eq_some_iff.mp trigger
  rw [Event.toJson, record_eq, List.map_append]
  simp [readEvent?, List.filter_append, others, none, fit, items, tagged, read]

/-! ### definitions -/

theorem readVariable?_toJson {v : Variable} (reread : ∀ x ∈ v.initial.number?, RereadsDouble x) :
    readVariable? v.toJson = some v := by
  simp [readVariable?, Variable.toJson, fields?_record, distinct, readWord?_wordJson valueTypes_faithful,
    readValue?_toJson reread]

theorem readFloat32?_float32 {x : Float32} (reread : RereadsSingle x) : readFloat32? (.float32 x) = some x := by
  obtain ⟨n, written, read⟩ := readFloat32?_rereads reread
  rw [written]
  exact read

theorem readPlacement?_toJson {p : Placement} (x : RereadsSingle p.x) (y : RereadsSingle p.y) :
    readPlacement? p.toJson = some p := by
  have layer : ∀ l ∈ p.layer, readInt32? (.int l.toInt) = some l ∧ Json.int l.toInt ≠ .null := fun l _ =>
    ⟨readInt32?_int l, Json.noConfusion⟩
  simp [readPlacement?, Placement.toJson, fields?_record, distinct, nullable_skip, nullable_orNull layer,
    readFloat32?_float32 x, readFloat32?_float32 y]

/-- A room reads back when its numbers do. -/
theorem readRoom?_toJson {r : RoomDefinition} (reread : ∀ x ∈ r.singles, RereadsSingle x) :
    readRoom? r.toJson = some r := by
  have instances : readList? readPlacement? (listJson Placement.toJson r.instances) = some r.instances := by
    refine readList?_listJson fun p listed => readPlacement?_toJson (reread _ ?_) (reread _ ?_)
    all_goals
      refine List.mem_cons_of_mem _ (List.mem_cons_of_mem _ (List.mem_flatMap.mpr ⟨p, listed, ?_⟩))
      simp
  have width := readFloat32?_float32 (reread r.width (by simp [RoomDefinition.singles]))
  have height := readFloat32?_float32 (reread r.height (by simp [RoomDefinition.singles]))
  simp [readRoom?, RoomDefinition.toJson, fields?_record, distinct, instances, width, height]

theorem readSprite?_toJson {s : Sprite} (width : RereadsSingle s.width) (height : RereadsSingle s.height) :
    readSprite? s.toJson = some s := by
  simp [readSprite?, Sprite.toJson, fields?_record, distinct, readFloat32?_float32 width,
    readFloat32?_float32 height]

theorem readSound?_toJson (s : Sound) : readSound? s.toJson = some s := by
  simp [readSound?, Sound.toJson, fields?_record, distinct]

theorem readObject?_toJson {o : ObjectDefinition} (doubles : ∀ x ∈ o.doubles, RereadsDouble x)
    (singles : ∀ x ∈ o.singles, RereadsSingle x)
    (events : ∀ e ∈ o.events, readEvent? (nesting - 4) e.toJson = some e) : readObject? o.toJson = some o := by
  have declarations : readList? readVariable? (listJson Variable.toJson o.declarations) = some o.declarations := by
    refine readList?_listJson fun v listed => readVariable?_toJson fun x number => doubles x ?_
    exact List.mem_append_left _ (List.mem_filterMap.mpr ⟨v, listed, number⟩)
  have events := readList?_listJson events
  have sprite : ∀ id ∈ o.spriteId, readString? (.text id) = some id ∧ Json.text id ≠ .null :=
    fun _ _ => ⟨rfl, Json.noConfusion⟩
  have size {side : Option Float32} (reread : ∀ x ∈ side, RereadsSingle x) :
      ∀ x ∈ side, readFloat32? (.float32 x) = some x ∧ Json.float32 x ≠ .null := by
    intro x given
    obtain ⟨n, written, read⟩ := readFloat32?_rereads (reread x given)
    rw [written]
    exact ⟨read, Json.noConfusion⟩
  have width := size fun x (given : x ∈ o.width) =>
    singles x (by simp [ObjectDefinition.singles, Option.mem_def.mp given])
  have height := size fun x (given : x ∈ o.height) =>
    singles x (by simp [ObjectDefinition.singles, Option.mem_def.mp given])
  -- what remains is to look up each member under its own name
  simp [readObject?, ObjectDefinition.toJson, fields?_record, distinct, nullable_skip, nullable_orNull sprite,
    nullable_orNull width, nullable_orNull height, declarations, events]

/-! ### projects -/

/-- Every entry of a list was read from a value. -/
private theorem readList?_mem {α : Type} {read : Json → Option α} {j : Json} {as : List α}
    (given : readList? read j = some as) : ∀ a ∈ as, ∃ j, read j = some a := by
  cases j with
  | array items =>
    simp only [readList?] at given
    induction items generalizing as with
    | nil =>
      cases given
      intro _ listed
      cases listed
    | cons item items ih =>
      simp only [List.mapM_cons, Option.bind_eq_bind, Option.bind_eq_some_iff] at given
      obtain ⟨a, first, others, rest, same⟩ := given
      cases same
      intro b listed
      rcases List.mem_cons.mp listed with rfl | later
      · exact ⟨item, first⟩
      · exact ih rest b later
  | null | bool _ | number _ | string _ | object _ => cases given

private theorem optional_mem {α : Type} {fields : Fields} {name : String} {read : Json → Option α} {as : List α}
    (given : fields.optional name [] (readList? read) = some as) : ∀ a ∈ as, ∃ j, read j = some a := by
  unfold Fields.optional at given
  split at given
  · cases given
    intro _ listed
    cases listed
  · exact readList?_mem given

/-- The events of an object that was read were read each from its own document. -/
theorem readObject?_events {j : Json} {o : ObjectDefinition} (read : readObject? j = some o) :
    ∀ e ∈ o.events, ∃ j, readEvent? (nesting - 4) j = some e := by
  simp only [readObject?, Option.bind_eq_bind, Option.bind_eq_some_iff] at read
  obtain ⟨_, _, _, _, _, _, _, _, _, _, _, _, _, _, _, _, _, events, same⟩ := read
  cases same
  exact optional_mem events

theorem readProject?_objects {j : Json} {p : Project} (read : readProject? j = some p) :
    ∀ o ∈ p.objects, ∃ j, readObject? j = some o := by
  simp only [readProject?, Option.bind_eq_bind, Option.bind_eq_some_iff] at read
  obtain ⟨_, _, _, _, _, _, _, objects, rest⟩ := read
  obtain ⟨_, _, _, _, _, _, same⟩ := rest
  cases same
  exact optional_mem objects

theorem readProject?_toJson {j : Json} {p : Project} (read : readProject? j = some p)
    (doubles : ∀ x ∈ p.doubles, RereadsDouble x) (singles : ∀ x ∈ p.singles, RereadsSingle x) :
    readProject? p.toJson = some p := by
  have declarations : readList? readVariable? (listJson Variable.toJson p.declarations) = some p.declarations := by
    refine readList?_listJson fun v listed => readVariable?_toJson fun x number => doubles x ?_
    exact List.mem_append_left _ (List.mem_filterMap.mpr ⟨v, listed, number⟩)
  -- the events of an object carry their own account of the levels they need
  have objects : readList? readObject? (listJson ObjectDefinition.toJson p.objects) = some p.objects := by
    refine readList?_listJson fun o listed => ?_
    have doubles : ∀ x ∈ o.doubles, RereadsDouble x := fun x number =>
      doubles x (List.mem_append_right _ (List.mem_flatMap.mpr ⟨o, listed, number⟩))
    have singles : ∀ x ∈ o.singles, RereadsSingle x := fun x number =>
      singles x (by simp [Project.singles, List.mem_flatMap.mpr ⟨o, listed, number⟩])
    refine readObject?_toJson doubles singles fun e event => ?_
    obtain ⟨_, readObject⟩ := readProject?_objects read o listed
    obtain ⟨_, readEvent⟩ := readObject?_events readObject e event
    refine readEvent?_toJson (by decide) (readEvent?_items (by decide) readEvent fun operand used x number => ?_)
    refine doubles x (List.mem_append_right _ (List.mem_flatMap.mpr ⟨e, event, ?_⟩))
    exact List.mem_filterMap.mpr ⟨operand, used, number⟩
  have rooms : readList? readRoom? (listJson RoomDefinition.toJson p.rooms) = some p.rooms := by
    refine readList?_listJson fun r listed => readRoom?_toJson fun x number => singles x ?_
    exact List.mem_append_left _ (List.mem_append_right _ (List.mem_flatMap.mpr ⟨r, listed, number⟩))
  have sprites : readList? readSprite? (listJson Sprite.toJson p.sprites) = some p.sprites := by
    refine readList?_listJson fun s listed => readSprite?_toJson (singles _ ?_) (singles _ ?_)
    all_goals exact List.mem_append_right _ (List.mem_flatMap.mpr ⟨s, listed, by simp⟩)
  have sounds : readList? readSound? (listJson Sound.toJson p.sounds) = some p.sounds :=
    readList?_listJson fun s _ => readSound?_toJson s
  simp [readProject?, Project.toJson, fields?_record, distinct, readUInt32?_nat, declarations, objects, rooms,
    sprites, sounds]

end Document

/-! ### what is written -/

open Json

@[simp] private theorem strict_wordJson {α : Type} [DecidableEq α] (words : Words α) (a : α) :
    (wordJson words a).Strict := strict_text _

private theorem strict_listJson {α : Type} {write : α → Json} (each : ∀ a, (write a).Strict) (as : List α) :
    (listJson write as).Strict := by
  rw [listJson, strict_array]
  intro item listed
  obtain ⟨a, _, rfl⟩ := List.mem_map.mp listed
  exact each a

@[simp] private theorem strict_value (v : Value) : v.toJson.Strict := by
  cases v <;> simp [Value.toJson]

@[simp] private theorem strict_reference (r : VariableRef) : r.toJson.Strict := by
  simp [VariableRef.toJson]

@[simp] private theorem strict_operand (o : Operand) : o.toJson.Strict := by
  cases o <;> simp [Operand.toJson]

@[simp] private theorem strict_fields (a : Action) : ∀ m ∈ a.fields, m.2.Strict := by
  cases a <;> simp [Action.fields, strict_orNull]

@[simp] private theorem strict_items (s : Script) : ∀ item ∈ s.items, item.Strict := by
  induction s with
  | done => simp [Script.items]
  | act action rest ih => simpa [Script.items] using ⟨fun name value => strict_fields action (name, value), ih⟩
  | branch condition thens elses rest ihThens ihElses ih =>
    simpa [Script.items, Condition.toJson] using ⟨⟨ihThens, ihElses⟩, ih⟩

@[simp] private theorem strict_event (e : Event) : e.toJson.Strict := by
  obtain ⟨trigger, script⟩ := e
  cases trigger <;> simpa [Event.toJson, Trigger.fields, strict_orNull] using strict_items script

@[simp] private theorem strict_variable (v : Variable) : v.toJson.Strict := by
  simp [Variable.toJson]

theorem Project.strict_toJson (p : Project) : p.toJson.Strict := by
  have objects : ∀ o : ObjectDefinition, o.toJson.Strict := fun o => by
    simp [ObjectDefinition.toJson, strict_orNull, strict_listJson]
  have placements : ∀ i : Placement, i.toJson.Strict := fun i => by
    simp [Placement.toJson, strict_orNull]
  have rooms : ∀ r : RoomDefinition, r.toJson.Strict := fun r => by
    simp [RoomDefinition.toJson, strict_listJson placements]
  have sprites : ∀ s : Sprite, s.toJson.Strict := fun s => by simp [Sprite.toJson]
  have sounds : ∀ s : Sound, s.toJson.Strict := fun s => by simp [Sound.toJson]
  simp [Project.toJson, Json.nat, strict_listJson, objects, rooms, sprites, sounds]

namespace Project

/-- A project that was read from a text is read again from what is written of it. That a finite number is read
as it is written is assumed of the numbers of this project, as the reader of numerals does not round every numeral
to the nearest number. -/
theorem write_reads_back (text : String) (p : Project) :
    Project.read? text = some p →
    (∀ x ∈ p.doubles, x.isFinite = true) → (∀ x ∈ p.singles, x.isFinite = true) →
    (∀ x ∈ p.doubles, x.isFinite = true → RereadsDouble x) →
    (∀ x ∈ p.singles, x.isFinite = true → RereadsSingle x) → Project.read? p.write = some p := by
  intro read finite finite' doubles singles
  obtain ⟨j, _, read⟩ := Option.bind_eq_some_iff.mp read
  -- that the numbers are finite is what they are assumed to need to be read again
  have again := readProject?_toJson read (fun x listed => doubles x listed (finite x listed))
    (fun x listed => singles x listed (finite' x listed))
  rw [Project.read?, Project.write, read?_render p.strict_toJson]
  exact again

/-- A project in spellings that are never written: records as arrays and words as records, types by their number,
the type of an event after its items, a member that is not known, numerals with an exponent and a negative zero, and
whatever has a default left out. -/
def spelled : Json :=
  let literal (j : Json) : Json := .record [("literal", j)]
  let movement : Json := .array [.text "action", .text "move", literal (.number ⟨true, 0, 0, 1, none⟩),
    .record [("variable", .array [.text "object", .text "x"])]]
  let restart : Json := .record [("kind", .int 0), ("type", .int 17), ("unknown", .int 7)]
  let choice : Json := .record [("kind", .text "if"),
    ("condition", .array [.record [("key", .text "Space")], .record [("==", .record [])], literal (.bool true)]),
    ("elseActions", .array [restart])]
  let events : List Json := [.record [("type", .int 0)],
    .record [("items", .array [movement, choice]), ("type", .text "custom"), ("name", .text "bell")]]
  .record [
    ("variables", .array [.array [.text "lives", .text "Lives", .record [("number", .null)]]]),
    ("objects", .array [.record [("id", .text "cat"), ("width", .number ⟨false, 1, 25, 2, some 1⟩),
      ("events", .array events)]])]

def meant : Project where
  version := 0
  declarations := [⟨"lives", "Lives", .number, .number 0⟩]
  objects := [⟨"cat", "", none, some 12.5, none, false, [], [
    ⟨.create, .done⟩,
    ⟨.custom "bell" none, .act (.move (.literal (.number (-0))) (.variable ⟨.object, "x"⟩))
      (.branch ⟨.key "Space" .held, .eq, .literal (.bool true)⟩ .done (.act (.restartRoom .none) .done) .done)⟩]⟩]
  rooms := []
  sprites := []
  sounds := []

theorem write_reads_back_spelled :
    Project.read? spelled.render = some meant ∧ Project.read? meant.write = some meant := by
  have read : Project.read? spelled.render = some meant := by
    -- the text itself need not be laid out in bytes
    rw [Project.read?, Json.read?, render, String.toList_ofList]
    decide +kernel
  exact ⟨read, write_reads_back _ _ read (by decide +kernel) (by decide +kernel) (by decide +kernel)
    (by decide +kernel)⟩

-- What is assumed of the numbers is not true of all: 1.4000000000000002 is read as a double that is written as
-- 1.4000000000000001, and this is read as 1.4.
example : (⟨false, 1, 4000000000000002, 16, none⟩ : Numeral).toFloat? = some 1.4000000000000001 ∧
    ¬ RereadsDouble 1.4000000000000001 := by decide +kernel

end Project

end Gameplay
