import Gameplay.Program

/-!
# Names that resolve

A document names variables, objects, sprites and rooms, and a name resolves if the document declares it. What
looks names up one after the other stops at the first that does not resolve, and this one is its error.

## Main results

`Resolved.ok_iff`, `Resolved.error_iff`: a look-up that answers for names succeeds iff all of them resolve, and
its error is the first that does not.
`Resolved.bind`: look-ups that follow one another answer for the names of both.
-/

namespace Gameplay

/-! ### the first that lacks a property -/

/-- The first element of a list that lacks a property. -/
inductive FirstWithout {α : Type} (P : α → Prop) : List α → α → Prop
  | here {a : α} {as : List α} : ¬ P a → FirstWithout P (a :: as) a
  | later {a b : α} {as : List α} : P a → FirstWithout P as b → FirstWithout P (a :: as) b

namespace FirstWithout

variable {α : Type} {P : α → Prop} {as bs : List α} {a b : α}

theorem mem (first : FirstWithout P as a) : a ∈ as := by
  induction first with
  | here _ => exact List.mem_cons_self
  | later _ _ ih => exact List.mem_cons_of_mem _ ih

theorem lacks (first : FirstWithout P as a) : ¬ P a := by
  induction first with
  | here without => exact without
  | later _ _ ih => exact ih

/-- There is one first element that lacks the property. -/
theorem unique (left : FirstWithout P as a) (right : FirstWithout P as b) : a = b := by
  induction left with
  | here without =>
    cases right with
    | here _ => rfl
    | later has _ => exact absurd has without
  | later has _ ih =>
    cases right with
    | here without => exact absurd has without
    | later _ rest => exact ih rest

theorem append_left (first : FirstWithout P as a) : FirstWithout P (as ++ bs) a := by
  induction first with
  | here without => exact .here without
  | later has _ ih => exact .later has ih

theorem append_right (all : ∀ a ∈ as, P a) (first : FirstWithout P bs b) : FirstWithout P (as ++ bs) b := by
  induction as with
  | nil => exact first
  | cons a as ih =>
    obtain ⟨has, rest⟩ := List.forall_mem_cons.mp all
    exact .later has (ih rest)

end FirstWithout

/-! ### look-ups -/

/-- A look-up answers for names: it succeeds if all of them resolve, and fails with the first that does not. -/
def Resolved {α : Type} (P : Dangling → Prop) (names : List Dangling) : Except Dangling α → Prop
  | .ok _ => ∀ name ∈ names, P name
  | .error cause => FirstWithout P names cause

namespace Resolved

variable {α β : Type} {P : Dangling → Prop} {names more : List Dangling} {looked : Except Dangling α}

/-- A lookup succeeds exactly when every name that it resolves is known. -/
theorem ok_iff (resolved : Resolved P names looked) : (∃ a, looked = .ok a) ↔ ∀ name ∈ names, P name := by
  cases looked with
  | ok a => exact ⟨fun _ => resolved, fun _ => ⟨a, rfl⟩⟩
  | error cause =>
    constructor
    · rintro ⟨a, same⟩
      cases same
    · intro all
      exact absurd (all cause resolved.mem) resolved.lacks

/-- A lookup fails with its first unknown name. -/
theorem error_iff (resolved : Resolved P names looked) {cause : Dangling} :
    looked = .error cause ↔ FirstWithout P names cause := by
  cases looked with
  | ok a =>
    constructor
    · intro same
      cases same
    · intro first
      exact absurd (resolved cause first.mem) first.lacks
  | error other =>
    constructor
    · intro same
      cases same
      exact resolved
    · intro first
      rw [FirstWithout.unique resolved first]

/-- Some look-up fails iff some name does not resolve. -/
theorem fails_iff (resolved : Resolved P names looked) :
    (∃ cause, looked = .error cause) ↔ ∃ name ∈ names, ¬ P name := by
  cases looked with
  | ok a =>
    constructor
    · rintro ⟨cause, same⟩
      cases same
    · rintro ⟨name, listed, without⟩
      exact absurd (resolved name listed) without
  | error cause => exact ⟨fun _ => ⟨cause, resolved.mem, resolved.lacks⟩, fun _ => ⟨cause, rfl⟩⟩

theorem pure (a : α) : Resolved P [] (.ok a : Except Dangling α) := nofun

/-- A single name is looked up. -/
theorem single {name : Dangling} (found : P name → ∃ a, looked = .ok a)
    (missing : ¬ P name → looked = .error name) : Resolved P [name] looked := by
  by_cases has : P name
  · obtain ⟨a, rfl⟩ := found has
    intro other listed
    rw [List.mem_singleton.mp listed]
    exact has
  · rw [missing has]
    exact .here has

theorem map (resolved : Resolved P names looked) (f : α → β) : Resolved P names (looked.map f) := by
  cases looked with
  | ok a => exact resolved
  | error cause => exact resolved

/-- A name that resolves may be looked up before. -/
theorem cons {name : Dangling} (has : P name) (resolved : Resolved P names looked) :
    Resolved P (name :: names) looked := by
  cases looked with
  | ok a => exact List.forall_mem_cons.mpr ⟨has, resolved⟩
  | error cause => exact .later has resolved

/-- Lookups in sequence resolve the names of the first, then those of the second. -/
theorem bind {next : α → Except Dangling β} (resolved : Resolved P names looked)
    (goes : ∀ a, looked = .ok a → Resolved P more (next a)) : Resolved P (names ++ more) (looked >>= next) := by
  cases looked with
  | error cause => exact resolved.append_left
  | ok a =>
    have rest := goes a rfl
    simp only [Bind.bind, Except.bind]
    cases answer : next a with
    | ok b =>
      rw [answer] at rest
      intro name listed
      exact (List.mem_append.mp listed).elim (resolved name) (rest name)
    | error cause =>
      rw [answer] at rest
      exact rest.append_right resolved

end Resolved

/-! ### the names of a document -/

/-- A name resolves in a project that declares it. The variables of an object are not those of the project. -/
def Project.Resolves (p : Project) : Dangling → Prop
  | .variable .global id => ∃ d ∈ p.declarations, d.id = id
  | .variable .object _ => False
  | .object id => ∃ o ∈ p.objects, o.id = id
  | .sprite id => ∃ s ∈ p.sprites, s.id = id
  | .room id => ∃ r ∈ p.rooms, r.id = id

theorem Project.resolves_object {p : Project} {id : String} :
    p.Resolves (.object id) ↔ p.declaresObject id = true := by
  simp [Resolves, declaresObject]

end Gameplay
