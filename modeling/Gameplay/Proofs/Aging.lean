import Gameplay.Proofs.Ordering

/-!
# What a tick does to waits

A tick lets the waits of an instance age, and takes out those that end. The waits may be any list, with several
waits of one slot among them.

## Main result

`advance_loses_nothing`: each wait ages once unless it was issued in this tick. Of the aged waits those that were
issued before and have reached their duration are taken out, sorted by their slots, and the others go on in their
order. Taking them out one by one while the list is scanned comes to the same.

## Proof strategy

A stable sort keeps the elements of each key in their order (`filter_sortOn`). A scan that removes elements in
place leaves what lies before its position alone, so by induction on what lies after it, it takes out what
satisfies the predicate and leaves the rest (`takeOut_eq`).
-/

namespace Gameplay

/-! ### the order of equal keys -/

/-- Sorting keeps the elements of one key in their order. -/
theorem filter_sortOn {α : Type} (key : α → Nat) (k : Nat) (as : List α) :
    (sortOn key as).filter (key · == k) = as.filter (key · == k) := by
  have equal : (as.filter (key · == k)).Pairwise (key · ≤ key ·) := by
    refine List.pairwise_of_forall_mem_list fun a listed b listed' => Nat.le_of_eq ?_
    rw [beq_iff_eq.mp (List.mem_filter.mp listed).2, beq_iff_eq.mp (List.mem_filter.mp listed').2]
  -- elements of one key are in order, so they are still found in their order, and there are no others
  have kept : (as.filter (key · == k)).Sublist (sortOn key as) := by
    rw [sortOn, sortBy_eq]
    exact List.sublist_insertionSort equal List.filter_sublist
  have within := kept.filter (key · == k)
  rw [List.filter_filter, funext fun a => Bool.and_self (key a == k)] at within
  exact (within.eq_of_length ((sortOn_perm key as).filter (key · == k)).length_eq.symm).symm

/-! ### taking out in place -/

/-- Scans a list from a position on and takes out what satisfies a predicate. Where an element is taken out the
next one moves up, so the position moves on only past what stays. Gives what was taken out, and what is left. -/
def takeOut {α : Type} (p : α → Bool) (position : Nat) (as taken : List α) : List α × List α :=
  if bound : position < as.length then
    if p as[position] then takeOut p position (as.eraseIdx position) (taken ++ [as[position]])
    else takeOut p (position + 1) as taken
  else (taken, as)
termination_by as.length - position
decreasing_by
  · rw [List.length_eraseIdx_of_lt bound]
    omega
  · omega

/-- The scan takes out all that satisfies the predicate and leaves the rest, both in their order. -/
theorem takeOut_eq {α : Type} (p : α → Bool) (before after taken : List α) :
    takeOut p before.length (before ++ after) taken =
      (taken ++ after.filter p, before ++ after.filter fun a => !p a) := by
  induction after generalizing before taken with
  | nil =>
    rw [takeOut]
    simp
  | cons a after ih =>
    rw [takeOut]
    by_cases holds : p a = true
    · -- without the element, what came after it stands at the position
      have removed : (before ++ a :: after).eraseIdx before.length = before ++ after := by
        rw [List.eraseIdx_append_of_length_le (Nat.le_refl _), Nat.sub_self, List.eraseIdx_cons_zero]
      simp [holds, removed, ih]
    -- what stays lies before the position from then on
    · have passed := ih (before ++ [a]) taken
      simp only [List.length_append, List.length_singleton, List.append_assoc, List.singleton_append] at passed
      simp [holds, passed]

/-! ### waits -/

/-- What a tick makes of a wait. Nothing but the time that has passed changes: it grows by the length of the
tick, unless the wait was issued in this tick. -/
structure Wait.Ages {τ : Type} [Scalar τ] (delta : τ) (tick : Nat) (old new : Wait τ) : Prop where
  same : new = { old with elapsed := new.elapsed }
  counted : old.issued ≠ tick → new.elapsed = old.elapsed + delta
  uncounted : old.issued = tick → new.elapsed = old.elapsed

/-- Aged waits are parted into those that are due and those that go on. Nothing is lost or invented, and nothing
due goes on. Those that go on keep their order; those that are due come by their slots, and for one slot in the
order that they had. -/
structure Waits.Parts {τ : Type} [Scalar τ] (tick : Nat) (aged due kept : List (Wait τ)) : Prop where
  all : (due ++ kept).Perm aged
  reached : ∀ wait ∈ due, wait.issued ≠ tick ∧ wait.duration ≤ wait.elapsed
  unreached : ∀ wait ∈ kept, wait.issued ≠ tick → ¬ wait.duration ≤ wait.elapsed
  order : kept.Sublist aged
  slots : due.Pairwise (·.slot ≤ ·.slot)
  stable : ∀ slot, (due.filter (·.slot == slot)).Sublist aged

namespace Waits

variable {τ : Type} [Scalar τ]

theorem age_ages (delta : τ) (tick : Nat) (wait : Wait τ) : wait.Ages delta tick (wait.age delta tick) := by
  refine ⟨age_same delta tick wait, fun earlier => ?_, fun now => ?_⟩
  · simp [Wait.age, earlier]
  · simp [Wait.age, now]

theorem advance_parts (waits : List (Wait τ)) (delta : τ) (tick : Nat) :
    Parts tick (waits.map (Wait.age delta tick)) (advance waits delta tick).1 (advance waits delta tick).2 where
  all := advance_perm waits delta tick
  reached wait listed := by
    obtain ⟨_, reached, earlier⟩ := mem_due.mp listed
    exact ⟨earlier, reached⟩
  unreached wait listed earlier reached := by
    obtain ⟨_, issued⟩ := mem_kept.mp listed
    exact earlier (issued reached)
  order := List.filter_sublist
  slots := sortOn_sorted _ _
  stable slot := by
    have same := filter_sortOn Wait.slot slot ((waits.map (Wait.age delta tick)).filter (Wait.endsIn tick))
    simp only [advance, same]
    exact List.filter_sublist.trans List.filter_sublist

/-- Waits that were issued in this tick go on untouched. -/
theorem advance_issued (waits : List (Wait τ)) (delta : τ) (tick : Nat) :
    (advance waits delta tick).2.filter (·.issued == tick) = waits.filter (·.issued == tick) := by
  induction waits with
  | nil => rfl
  | cons wait waits ih =>
    simp only [advance, List.map_cons] at ih ⊢
    by_cases now : wait.issued = tick
    · have untouched : wait.age delta tick = wait := by simp [Wait.age, now]
      have goesOn : Wait.endsIn tick wait = false := by simp [Wait.endsIn, now]
      simp [untouched, goesOn, now, ih]
    · -- a wait from before stays from before, whether it ends or not
      have before : (wait.age delta tick).issued ≠ tick := by rw [age_same]; exact now
      rw [List.filter_cons, List.filter_cons]
      split <;> simp [now, before, ih]

/-- Taking the waits that end out of the list while it is scanned comes to the same. -/
theorem advance_takeOut (waits : List (Wait τ)) (delta : τ) (tick : Nat) :
    advance waits delta tick =
      let scanned := takeOut (Wait.endsIn tick) 0 (waits.map (Wait.age delta tick)) []
      (sortOn (·.slot) scanned.1, scanned.2) := by
  have scan := takeOut_eq (Wait.endsIn tick) [] (waits.map (Wait.age delta tick)) []
  simp only [List.length_nil, List.nil_append] at scan
  rw [scan]
  rfl

/-- A tick loses no wait and invents none. Each wait ages once, unless it was issued in this tick. The aged waits
are parted into those that are due, sorted by their slots, and those that go on, among them all that were issued
in this tick, untouched. A scan that takes the due ones out in place gives the same two lists. -/
theorem advance_loses_nothing (waits : List (Wait τ)) (delta : τ) (tick : Nat) :
    let due := (advance waits delta tick).1
    let kept := (advance waits delta tick).2
    ∃ aged, List.Forall₂ (Wait.Ages delta tick) waits aged ∧ Parts tick aged due kept ∧
      kept.filter (·.issued == tick) = waits.filter (·.issued == tick) ∧
      ∃ taken, takeOut (Wait.endsIn tick) 0 aged [] = (taken, kept) ∧ due = sortOn (·.slot) taken := by
  intro due kept
  refine ⟨waits.map (Wait.age delta tick), ?_, advance_parts waits delta tick,
    advance_issued waits delta tick, ?_⟩
  · exact List.forall₂_map_right_iff.mpr (List.forall₂_same.mpr fun wait _ => age_ages delta tick wait)
  · have scanned := advance_takeOut waits delta tick
    exact ⟨_, Prod.ext rfl (congrArg Prod.snd scanned).symm, congrArg Prod.fst scanned⟩

/-- Two of three waits are due, and come by their slots. -/
example :
    let waits : List (Wait Float) :=
      [⟨3, [⟨0, 1⟩], 10, 0, 0, none⟩, ⟨2, [⟨0, 1⟩], 1000, 0, 0, none⟩, ⟨1, [⟨0, 1⟩], 10, 0, 0, none⟩]
    (advance waits 20 1).1.map (·.slot) = [1, 3] ∧ (advance waits 20 1).2.map (·.slot) = [2] := by
  decide +kernel

end Waits

end Gameplay
