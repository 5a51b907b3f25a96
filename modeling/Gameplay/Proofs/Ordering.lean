import Gameplay.Proofs.Turns

/-!
# The order of events

The instances that live, the slots of an object and the waits that end are listed in ascending order. Two
invocations are compared by their instance first, then by the instance that is met, then by their slot.

## Main results

`live_ascending`, `slots_ascending`, `due_ascending`: the lists that the phases go through are strictly
ascending.
`invocations_ascending`: so are the invocations that an instance has for one trigger.
-/

namespace Gameplay

/-! ### sorting -/

/-- Sorting by a key puts the keys in order. -/
theorem sortOn_sorted {α : Type} (key : α → Nat) (as : List α) :
    (sortOn key as).Pairwise (key · ≤ key ·) := by
  have total : Std.Total fun a b : α => key a ≤ key b := ⟨fun a b => Nat.le_total (key a) (key b)⟩
  have transitive : IsTrans α fun a b => key a ≤ key b := ⟨fun _ _ _ => Nat.le_trans⟩
  rw [sortOn, sortBy_eq]
  exact List.pairwise_insertionSort _ as

/-- Where no key occurs twice, the order is strict. -/
theorem sortOn_ascending {α : Type} (key : α → Nat) {as : List α} (distinct : (as.map key).Nodup) :
    (sortOn key as).Pairwise (key · < key ·) := by
  have keys : (sortOn key as).Pairwise (key · ≠ key ·) :=
    List.pairwise_map.mp (((sortOn_perm key as).map key).nodup_iff.mpr distinct)
  exact ((sortOn_sorted key as).and keys).imp fun ⟨upTo, other⟩ => Nat.lt_of_le_of_ne upTo other

theorem nodup_of_ascending {α : Type} {place : α → List Nat} {as : List α}
    (ascending : as.Pairwise (place · < place ·)) : (as.map place).Nodup := by
  refine List.pairwise_map.mpr (ascending.imp fun smaller same => ?_)
  rw [same] at smaller
  exact List.lt_irrefl _ smaller

/-! ### slots -/

theorem CompiledObject.slots_ascending (o : CompiledObject) (wanted : Trigger → Bool) :
    (o.slots wanted).Pairwise (· < ·) := by
  refine List.pairwise_map.mpr (List.Pairwise.filter _ (List.pairwise_map.mp ?_))
  rw [List.zipIdx_map_snd]
  exact List.pairwise_lt_range' 1

def Program.trigger? (p : Program) (object slot : Nat) : Option Trigger :=
  ((p.object? object).bind (·.events[slot]?)).map (·.trigger)

/-- Where an invocation stands among others: its instance, the instance that it meets, and its slot. -/
def Invocation.place (v : Invocation) : List Nat := v.actor :: (v.partner.toList ++ [v.slot])

namespace World

variable {τ : Type} {w : World τ}

theorem slots_ascending (w : World τ) (object : Nat) (wanted : Trigger → Bool) :
    (w.slots object wanted).Pairwise (· < ·) := by
  unfold slots
  cases w.program.object? object with
  | none => exact .nil
  | some o => exact o.slots_ascending wanted

/-- A slot is one of those wanted if its trigger is. -/
theorem mem_slots {object slot : Nat} {wanted : Trigger → Bool} :
    slot ∈ w.slots object wanted ↔
      ∃ trigger, w.program.trigger? object slot = some trigger ∧ wanted trigger = true := by
  unfold slots Program.trigger?
  cases w.program.object? object with
  | none => simp
  | some o =>
    simp only [Option.map_some, Option.getD_some, CompiledObject.slots, List.mem_map, List.mem_filter,
      Prod.exists, Option.bind_some, Option.map_eq_some_iff]
    constructor
    · rintro ⟨e, _, ⟨listed, holds⟩, rfl⟩
      exact ⟨e.trigger, ⟨e, List.mem_zipIdx_iff_getElem?.mp listed, rfl⟩, holds⟩
    · rintro ⟨_, ⟨e, found, rfl⟩, holds⟩
      exact ⟨e, slot, ⟨List.mem_zipIdx_iff_getElem?.mpr found, holds⟩, rfl⟩

/-! ### instances and their invocations -/

theorem live_ascending (unique : (w.instances.map (·.id)).Nodup) : w.live.Pairwise fun i j => i.id < j.id :=
  sortOn_ascending Instance.id (unique.sublist (List.filter_sublist.map _))

/-- What is arranged for an instance is an invocation for each slot with a wanted trigger. -/
theorem mem_invocations {i : Instance τ} {partner : Option Nat} {wanted : Trigger → Bool} {v : Invocation} :
    v ∈ w.invocations i partner wanted ↔
      ∃ slot trigger, v = ⟨i.id, i.object, slot, partner⟩ ∧
        w.program.trigger? i.object slot = some trigger ∧ wanted trigger = true := by
  simp only [invocations, List.mem_map, mem_slots]
  constructor
  · rintro ⟨slot, ⟨trigger, found, holds⟩, rfl⟩
    exact ⟨slot, trigger, rfl, found, holds⟩
  · rintro ⟨slot, trigger, rfl, found, holds⟩
    exact ⟨slot, ⟨trigger, found, holds⟩, rfl⟩

theorem invocations_ascending (w : World τ) (i : Instance τ) (partner : Option Nat)
    (wanted : Trigger → Bool) : (w.invocations i partner wanted).Pairwise (·.place < ·.place) := by
  refine List.pairwise_map.mpr ((w.slots_ascending i.object wanted).imp fun smaller => ?_)
  -- only the slots differ
  cases partner <;> simp [Invocation.place, List.cons_lt_cons_iff, smaller]

/-- The waits that end come by their slots, no two of which are the same. -/
theorem due_ascending [Scalar τ] {w' : World τ} {id : Nat} {due : List (Wait τ)} (coherent : w.Coherent)
    (taken : w.takeDue id = (w', due)) : due.Pairwise fun x y => x.slot < y.slot := by
  rcases takeDue_cases taken with ⟨_, _, rfl⟩ | ⟨i, found, rfl, _⟩
  · exact .nil
  · -- aging keeps the slots, and no two waits of an instance have the same
    have fits := coherent.instances i (instance?_some found).1
    refine sortOn_ascending Wait.slot ?_
    refine List.Nodup.sublist (List.filter_sublist.map _) ?_
    have same : (i.waits.map (Wait.age w.clock.delta w.clock.tick)).map (·.slot) = i.waits.map (·.slot) := by
      rw [List.map_map]
      exact List.map_congr_left fun wait _ => by rw [Function.comp_apply, Waits.age_same]
    rw [same]
    exact fits.slots

end World

end Gameplay
