import Gameplay.Keyboard

/-!
# Keys

A keyboard is asked about one key at a time, so the order in which it keeps its keys cannot be told from its
answers.

## Main results

`query_press`, `query_release`, `query_releaseAll`, `query_forgetEdges`: the answers after each key event.
`Same`: keyboards with the same answers, which every key event keeps the same.
-/

namespace Gameplay.Keyboard

variable {k k' : Keyboard}

/-- A key is in the list afterwards, and the others are as they were. -/
theorem contains_insertKey (keys : List String) (key name : String) :
    (insertKey keys key).contains name = (keys.contains name || name == key) := by
  unfold insertKey
  split
  next present =>
    by_cases same : name = key
    · subst same
      rw [present, Bool.true_or]
    · simp [same]
  next => rw [List.contains_append, List.contains_cons, List.contains_nil, Bool.or_false]

theorem contains_insertAll (base keys : List String) (name : String) :
    (keys.foldl insertKey base).contains name = (base.contains name || keys.contains name) := by
  induction keys generalizing base with
  | nil => simp
  | cons key keys ih => rw [List.foldl_cons, ih, contains_insertKey, List.contains_cons, Bool.or_assoc]

/-! ### answers -/

/-- A key that goes down is held, and it is pressed unless it was held. -/
theorem query_press (k : Keyboard) (key name : String) (state : KeyState) :
    (k.press key).query name state = match state with
      | .held => k.query name .held || name == key
      | .pressed => k.query name .pressed || (name == key && !k.query key .held)
      | .released => k.query name .released := by
  unfold press
  split
  -- a key that is held already gives no edge
  next held =>
    cases state with
    | held =>
      by_cases same : name = key
      · subst same
        simp only [query, held, Bool.true_or]
      · simp [query, same]
    | pressed => simp only [query, held, Bool.not_true, Bool.and_false, Bool.or_false]
    | released => rfl
  next up =>
    have up' : k.held.contains key = false := by simpa using up
    cases state with
    | held => exact contains_insertKey _ _ _
    | pressed =>
      simp only [query, up', Bool.not_false, Bool.and_true]
      exact contains_insertKey _ _ _
    | released => rfl

/-- A key that goes up is not held, and it is released if it was held. -/
theorem query_release (k : Keyboard) (key name : String) (state : KeyState) :
    (k.release key).query name state = match state with
      | .held => k.query name .held && name != key
      | .pressed => k.query name .pressed
      | .released => k.query name .released || (name == key && k.query key .held) := by
  unfold release
  split
  next held =>
    cases state with
    | held =>
      by_cases same : name = key
      · subst same
        simp [query]
      · simp [query, same]
    | pressed => rfl
    | released =>
      simp only [query, held, Bool.and_true]
      exact contains_insertKey _ _ _
  -- a key that is not held gives no edge
  next up =>
    have up' : k.held.contains key = false := by simpa using up
    cases state with
    | held =>
      by_cases same : name = key
      · subst same
        simp only [query, up', Bool.false_and]
      · simp [query, same]
    | pressed => rfl
    | released => simp only [query, up', Bool.and_false, Bool.or_false]

theorem query_releaseAll (k : Keyboard) (name : String) (state : KeyState) :
    k.releaseAll.query name state = match state with
      | .held => false
      | .pressed => k.query name .pressed
      | .released => k.query name .released || k.query name .held := by
  cases state with
  | held | pressed => rfl
  | released => exact contains_insertAll _ _ _

theorem query_forgetEdges (k : Keyboard) (name : String) (state : KeyState) :
    k.forgetEdges.query name state = match state with
      | .held => k.query name .held
      | .pressed => false
      | .released => false := by
  cases state <;> rfl

/-! ### keyboards with the same answers -/

/-- Keyboards that answer the same about every key. -/
def Same (k k' : Keyboard) : Prop := ∀ name state, k'.query name state = k.query name state

theorem Same.refl (k : Keyboard) : k.Same k := fun _ _ => rfl

theorem Same.symm (same : k.Same k') : k'.Same k := fun name state => (same name state).symm

theorem Same.trans {k'' : Keyboard} (same : k.Same k') (further : k'.Same k'') : k.Same k'' :=
  fun name state => (further name state).trans (same name state)

/-- Keyboards that answer the same do so after a press of the same key. -/
theorem Same.press (same : k.Same k') (key : String) : (k.press key).Same (k'.press key) := by
  intro name state
  rw [query_press, query_press]
  cases state <;> simp only [same _ _]

theorem Same.release (same : k.Same k') (key : String) : (k.release key).Same (k'.release key) := by
  intro name state
  rw [query_release, query_release]
  cases state <;> simp only [same _ _]

theorem Same.releaseAll (same : k.Same k') : k.releaseAll.Same k'.releaseAll := by
  intro name state
  rw [query_releaseAll, query_releaseAll]
  cases state <;> simp only [same _ _]

theorem Same.forgetEdges (same : k.Same k') : k.forgetEdges.Same k'.forgetEdges := by
  intro name state
  rw [query_forgetEdges, query_forgetEdges]
  cases state <;> simp only [same _ _]

end Gameplay.Keyboard
