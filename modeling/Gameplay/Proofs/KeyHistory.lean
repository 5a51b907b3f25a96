import Mathlib.Data.List.Induction
import Gameplay.Proofs.Keys

/-!
# The history of keys

A keyboard remembers only which keys are held and which edges they have shown. That is as much as can be told from
all that was done with it: a key is held if a press was the last that decided about it, and it has an edge if it
went down or up since the edges were last forgotten.

## Main result

`edges_are_transitions`: what a keyboard answers after any calls, and what follows for calls in another order.

## Proof strategy

One call decides about a key or leaves it as it was (`held_call`), and edges are added to those there were
(`pressed_call`, `released_call`). The history grows by its last call in the same way (`heldAfter_snoc`,
`since_snoc`), so both are the same by induction along the calls.
-/

namespace Gameplay

inductive KeyCall
  | press (key : String)
  | release (key : String)
  | releaseAll
  | forgetEdges
  | reset
deriving DecidableEq

namespace KeyCall

def key? : KeyCall → Option String
  | press key | release key => some key
  | releaseAll | forgetEdges | reset => none

/-- Whether it depends on a call if a key is held. -/
def decides (key : String) : KeyCall → Bool
  | press name | release name => name == key
  | releaseAll | reset => true
  | forgetEdges => false

def forgets : KeyCall → Bool
  | forgetEdges | reset => true
  | press _ | release _ | releaseAll => false

end KeyCall

namespace Keyboard

def call (k : Keyboard) : KeyCall → Keyboard
  | .press key => k.press key
  | .release key => k.release key
  | .releaseAll => k.releaseAll
  | .forgetEdges => k.forgetEdges
  | .reset => .empty

def after (calls : List KeyCall) : Keyboard := calls.foldl call .empty

/-! ### histories -/

/-- Of the calls that decide about a key, the last one is its press. -/
def HeldAfter (calls : List KeyCall) (key : String) : Prop :=
  (calls.filter (·.decides key)).getLast? = some (.press key)

/-- Since the edges were last forgotten there was a call of this kind, given the calls before it. -/
def Since (kind : List KeyCall → KeyCall → Prop) (calls : List KeyCall) : Prop :=
  ∃ before c later, calls = before ++ c :: later ∧ kind before c ∧ ∀ d ∈ later, d.forgets = false

/-- A key is pressed that is not held. -/
def GoesDown (key : String) (before : List KeyCall) (c : KeyCall) : Prop :=
  c = .press key ∧ ¬ HeldAfter before key

/-- A key is released that is held, alone or with all others. -/
def GoesUp (key : String) (before : List KeyCall) (c : KeyCall) : Prop :=
  (c = .release key ∨ c = .releaseAll) ∧ HeldAfter before key

variable {key : String} {calls : List KeyCall} {c : KeyCall}

theorem after_snoc (calls : List KeyCall) (c : KeyCall) : after (calls ++ [c]) = (after calls).call c := by
  simp [after]

theorem heldAfter_snoc : HeldAfter (calls ++ [c]) key ↔
    if c.decides key then c = .press key else HeldAfter calls key := by
  unfold HeldAfter
  rw [List.filter_append]
  cases decided : c.decides key <;> simp [decided]

theorem since_snoc {kind : List KeyCall → KeyCall → Prop} :
    Since kind (calls ++ [c]) ↔ kind calls c ∨ c.forgets = false ∧ Since kind calls := by
  constructor
  · rintro ⟨before, d, later, split, holds, kept⟩
    -- the call that is looked for is the last one, or one of those before it
    rcases List.eq_nil_or_concat later with rfl | ⟨others, last, rfl⟩
    · obtain ⟨rfl, same⟩ := List.append_inj' split rfl
      cases same
      exact .inl holds
    · rw [List.concat_eq_append, ← List.cons_append, ← List.append_assoc] at split
      obtain ⟨rfl, same⟩ := List.append_inj' split rfl
      cases same
      simp only [List.concat_eq_append, List.forall_mem_append, List.forall_mem_singleton] at kept
      exact .inr ⟨kept.2, before, d, others, rfl, holds, kept.1⟩
  · rintro (holds | ⟨keeps, before, d, later, rfl, holds, kept⟩)
    · exact ⟨calls, c, [], rfl, holds, nofun⟩
    · refine ⟨before, d, later ++ [c], by simp, holds, ?_⟩
      simpa [or_imp, forall_and, keeps] using kept

/-! ### one call -/

section

variable (k : Keyboard) (key : String) (c : KeyCall)

/-- A call decides about a key that it is about, and keeps the others as they were. -/
theorem held_call : (k.call c).query key .held = true ↔
    if c.decides key then c = .press key else k.query key .held = true := by
  cases c with
  | press name | release name =>
    rcases eq_or_ne name key with rfl | other
    · simp [call, query_press, query_release, KeyCall.decides]
    · simp [call, query_press, query_release, KeyCall.decides, other, other.symm]
  | releaseAll => simp [call, query_releaseAll, KeyCall.decides]
  | forgetEdges => simp [call, query_forgetEdges, KeyCall.decides]
  | reset => simp [call, empty, query, KeyCall.decides]

/-- A press is an edge only if the key was not held before. -/
theorem pressed_call : (k.call c).query key .pressed = true ↔
    (c = .press key ∧ k.query key .held = false) ∨ c.forgets = false ∧ k.query key .pressed = true := by
  cases c with
  | press name =>
    rcases eq_or_ne name key with rfl | other
    · simp [call, query_press, KeyCall.forgets, or_comm]
    · simp [call, query_press, KeyCall.forgets, other, other.symm]
  | release name => simp [call, query_release, KeyCall.forgets]
  | releaseAll => simp [call, query_releaseAll, KeyCall.forgets]
  | forgetEdges => simp [call, query_forgetEdges, KeyCall.forgets]
  | reset => simp [call, empty, query, KeyCall.forgets]

theorem released_call : (k.call c).query key .released = true ↔
    ((c = .release key ∨ c = .releaseAll) ∧ k.query key .held = true) ∨
      c.forgets = false ∧ k.query key .released = true := by
  cases c with
  | press name => simp [call, query_press, KeyCall.forgets]
  | release name =>
    rcases eq_or_ne name key with rfl | other
    · simp [call, query_release, KeyCall.forgets, or_comm]
    · simp [call, query_release, KeyCall.forgets, other, other.symm]
  | releaseAll => simp [call, query_releaseAll, KeyCall.forgets, or_comm]
  | forgetEdges => simp [call, query_forgetEdges, KeyCall.forgets]
  | reset => simp [call, empty, query, KeyCall.forgets]

end

/-! ### all calls -/

/-- A key is held if its press came last. -/
theorem held_iff (calls : List KeyCall) (key : String) :
    (after calls).query key .held = true ↔ HeldAfter calls key := by
  induction calls using List.reverseRecOn with
  | nil => simp [after, empty, query, HeldAfter]
  | append_singleton calls c ih => rw [after_snoc, held_call, heldAfter_snoc, ih]

theorem pressed_iff (calls : List KeyCall) (key : String) :
    (after calls).query key .pressed = true ↔ Since (GoesDown key) calls := by
  induction calls using List.reverseRecOn with
  | nil => simp [after, empty, query, Since]
  | append_singleton calls c ih =>
    rw [after_snoc, pressed_call, since_snoc, ih, GoesDown, ← held_iff, Bool.not_eq_true]

theorem released_iff (calls : List KeyCall) (key : String) :
    (after calls).query key .released = true ↔ Since (GoesUp key) calls := by
  induction calls using List.reverseRecOn with
  | nil => simp [after, empty, query, Since]
  | append_singleton calls c ih => rw [after_snoc, released_call, since_snoc, ih, GoesUp, ← held_iff]

/-! ### calls in another order -/

/-- Only a press and a release are about one key. -/
theorem call_of_key {a : String} (about : c.key? = some a) : c = .press a ∨ c = .release a := by
  cases c <;> simp_all [KeyCall.key?]

/-- A call about one key changes no answer about another. -/
theorem query_other (k : Keyboard) {a name : String} (about : c.key? = some a) (other : name ≠ a)
    (state : KeyState) : (k.call c).query name state = k.query name state := by
  have unequal : (name == a) = false := beq_false_of_ne other
  rcases call_of_key about with rfl | rfl <;> cases state <;> simp [call, query_press, query_release, bne, unequal]

/-- What a call about a key does to this key depends on nothing but what was answered about it. -/
theorem query_own {k k' : Keyboard} {a : String} (about : c.key? = some a)
    (same : ∀ state, k'.query a state = k.query a state) (state : KeyState) :
    (k'.call c).query a state = (k.call c).query a state := by
  rcases call_of_key about with rfl | rfl <;> cases state <;> simp [call, query_press, query_release, same]

/-- Keys do not get into each other's way. -/
theorem call_comm (k : Keyboard) {c d : KeyCall} {a b : String} (first : c.key? = some a) (second : d.key? = some b)
    (differ : a ≠ b) : ((k.call c).call d).Same ((k.call d).call c) := by
  intro name state
  rcases eq_or_ne name a with rfl | other
  · rw [query_other (k.call c) second differ]
    exact query_own first (query_other k second differ) state
  · rw [query_other (k.call d) first other]
    rcases eq_or_ne name b with rfl | neither
    · exact (query_own second (query_other k first other) state).symm
    · rw [query_other k second neither, query_other (k.call c) second neither, query_other k first other]

/-- Some keys are released one after the other. -/
theorem query_releaseEach (k : Keyboard) (keys : List String) (name : String) (state : KeyState) :
    (keys.foldl release k).query name state = match state with
      | .held => k.query name .held && !keys.contains name
      | .pressed => k.query name .pressed
      | .released => k.query name .released || (k.query name .held && keys.contains name) := by
  induction keys generalizing k with
  | nil => cases state <;> simp
  | cons key keys ih =>
    rw [List.foldl_cons, ih]
    by_cases same : name = key
    · subst same
      cases state <;> simp [query_release]
    · have unequal : (name == key) = false := beq_false_of_ne same
      cases state <;> simp [query_release, same, bne, unequal]

theorem releaseEach_same {k : Keyboard} {keys : List String}
    (held : ∀ key, key ∈ keys ↔ k.query key .held = true) : (keys.foldl release k).Same k.releaseAll := by
  intro name state
  have listed : keys.contains name = k.query name .held := by
    rw [Bool.eq_iff_iff, List.contains_iff_mem, held]
  rw [query_releaseAll, query_releaseEach, listed]
  cases state <;> simp

/-- While no edges are forgotten, a key that is held where it was not, or the other way round, shows it. -/
theorem change_shows (calls later : List KeyCall) (kept : ∀ c ∈ later, c.forgets = false) (key : String) :
    let was := (after calls).query key .held
    let k := after (calls ++ later)
    (was = false → k.query key .held = true → k.query key .pressed = true) ∧
      (was = true → k.query key .held = false → k.query key .released = true) := by
  intro was k
  induction later using List.reverseRecOn with
  | nil => simp_all [k, was]
  | append_singleton later c ih =>
    simp only [List.forall_mem_append, List.forall_mem_singleton] at kept
    obtain ⟨down, up⟩ := ih kept.1
    have last : k = (after (calls ++ later)).call c := by simp only [k, ← List.append_assoc, after_snoc]
    have held := held_call (after (calls ++ later)) key c
    rw [last, pressed_call, released_call]
    -- the edge has been there before, or the last call makes it
    cases before : (after (calls ++ later)).query key .held with
    | true =>
      refine ⟨fun up _ => .inr ⟨kept.2, down up before⟩, fun _ now => ?_⟩
      rw [before, now] at held
      cases c <;> simp_all [KeyCall.decides, KeyCall.forgets]
    | false =>
      refine ⟨fun _ now => ?_, fun down _ => .inr ⟨kept.2, up down before⟩⟩
      rw [before, now] at held
      cases c <;> simp_all [KeyCall.decides, KeyCall.forgets]

/-- What a keyboard answers after any calls can be told from these calls. A key is held iff its press was the last
call that decided about it. It is pressed iff it has gone down since the edges were last forgotten, and released
iff it has gone up since then. So calls about different keys may change places, releasing all keys is the same as
releasing each key that is held, in any order, and as long as no edges are forgotten a key that has changed shows
the edge. -/
theorem edges_are_transitions (calls : List KeyCall) :
    let k := after calls
    (∀ key, (k.query key .held = true ↔ HeldAfter calls key) ∧
      (k.query key .pressed = true ↔ Since (GoesDown key) calls) ∧
      (k.query key .released = true ↔ Since (GoesUp key) calls)) ∧
    (∀ c d a b, c.key? = some a → d.key? = some b → a ≠ b → ((k.call c).call d).Same ((k.call d).call c)) ∧
    (∀ keys : List String, (∀ key, key ∈ keys ↔ k.query key .held = true) → (keys.foldl release k).Same k.releaseAll) ∧
    ∀ earlier later, calls = earlier ++ later → (∀ c ∈ later, c.forgets = false) → ∀ key,
      ((after earlier).query key .held = false → k.query key .held = true → k.query key .pressed = true) ∧
      ((after earlier).query key .held = true → k.query key .held = false → k.query key .released = true) := by
  intro k
  refine ⟨fun key => ⟨held_iff calls key, pressed_iff calls key, released_iff calls key⟩, ?_, ?_, ?_⟩
  · exact fun c d a b first second differ => call_comm k first second differ
  · exact fun keys held => releaseEach_same held
  · rintro earlier later rfl kept key
    exact change_shows earlier later kept key

/-- Two keys are held when the edges are forgotten. Then all keys are released, and one of them is pressed again. -/
theorem edges_are_transitions_regrasped :
    let earlier : List KeyCall := [.press "A", .press "B", .forgetEdges]
    let later : List KeyCall := [.releaseAll, .press "B"]
    let k := after (earlier ++ later)
    HeldAfter (earlier ++ later) "B" ∧ Since (GoesDown "B") (earlier ++ later) ∧
      Since (GoesUp "A") (earlier ++ later) ∧ ¬ Since (GoesDown "A") (earlier ++ later) ∧
      ((k.call (.press "A")).call (.release "B")).Same ((k.call (.release "B")).call (.press "A")) ∧
      (["B"].foldl release k).Same k.releaseAll ∧
      ((after earlier).query "A" .held = true → k.query "A" .held = false → k.query "A" .released = true) := by
  intro earlier later k
  obtain ⟨told, comm, each, changes⟩ := edges_are_transitions (earlier ++ later)
  have held : ∀ key, key ∈ ["B"] ↔ k.query key .held = true := by simp [k, earlier, later, after, call, press,
    forgetEdges, releaseAll, insertKey, empty, query]
  exact ⟨(told "B").1.mp (by decide), (told "B").2.1.mp (by decide), (told "A").2.2.mp (by decide),
    fun down => absurd ((told "A").2.1.mpr down) (by decide), comm _ _ "A" "B" rfl rfl (by decide), each _ held,
    (changes earlier later rfl (by decide) "A").2⟩

end Keyboard

end Gameplay
