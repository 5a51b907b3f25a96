import Gameplay.Proofs.Rounding
import Gameplay.Player

/-!
# Reports of toasts

The player compares the toast that is shown with the one at the previous draw: a toast is new if its text
differs or its time has grown. What it means to report is that another entry of the queue is shown. The two
agree except for an entry that follows one of the same text and is left with no more time than that had.

## Main result

`reports_toasts`: when a toast is reported, and that no entry is reported twice.

## Proof strategy

Entries are numbered as they are added (`Entries`). The numbers do not change what the queue does
(`enqueue_toasts`, `advance_toasts`), and they ascend. Between two draws time passes only once, so the entry
of the last draw is still the first one before it (`Follows`), and either it is the one that loses time, which
no rounding makes longer, or one with a greater number is shown.
-/

namespace Gameplay

/-! ### numbered entries -/

/-- An entry of the queue of toasts, with the number that it got when it was added. -/
structure Entry (τ : Type) where
  number : Nat
  toast : Toast τ
deriving DecidableEq

/-- The entries of the queue, the one that is shown first, and the number of the next one. -/
structure Entries (τ : Type) where
  list : List (Entry τ)
  next : Nat

namespace Entries

variable {τ : Type}

def empty : Entries τ := ⟨[], 0⟩

def active (es : Entries τ) : Option (Entry τ) := es.list.head?

def toasts (es : Entries τ) : Toasts τ := ⟨es.active.map (·.toast), es.list.tail.map (·.toast)⟩

variable [Scalar τ]

def enqueue (es : Entries τ) (text : String) (duration : τ) : Entries τ :=
  ⟨es.list ++ [⟨es.next, ⟨text, Toasts.shownFor duration⟩⟩], es.next + 1⟩

/-- Spends time on the entries in their order. -/
def spend (budget : τ) : List (Entry τ) → List (Entry τ)
  | [] => []
  | e :: rest =>
    if budget < e.toast.remaining then
      { e with toast := { e.toast with remaining := e.toast.remaining - budget } } :: rest
    else spend (budget - e.toast.remaining) rest

/-- Lets time pass. A negative time counts as none. -/
def advance (es : Entries τ) (elapsed : τ) : Entries τ :=
  { es with list := spend (Scalar.greater elapsed 0) es.list }

variable (es : Entries τ)

theorem enqueue_toasts (text : String) (duration : τ) :
    (es.enqueue text duration).toasts = es.toasts.enqueue text duration := by
  obtain ⟨list, next⟩ := es
  cases list with
  | nil => rfl
  | cons first rest => simp [enqueue, toasts, active, Toasts.enqueue]

/-- Spending time on numbered entries spends it on their toasts. -/
theorem spend_toasts (budget : τ) (first : Entry τ) (rest : List (Entry τ)) (next : Nat) :
    (Entries.mk (spend budget (first :: rest)) next).toasts =
      Toasts.spend budget first.toast (rest.map (·.toast)) := by
  induction rest generalizing first budget with
  | nil =>
    simp only [spend, List.map_nil, Toasts.spend]
    split <;> rfl
  | cons second rest ih =>
    rw [spend, List.map_cons, Toasts.spend]
    split
    · rfl
    · exact ih _ second

theorem advance_toasts (elapsed : τ) : (es.advance elapsed).toasts = es.toasts.advance elapsed := by
  obtain ⟨list, next⟩ := es
  cases list with
  | nil => rfl
  | cons first rest => exact spend_toasts _ first rest next

/-- Entries leave from the front. -/
theorem spend_numbers (budget : τ) (list : List (Entry τ)) :
    (spend budget list).map (·.number) <:+ list.map (·.number) := by
  induction list generalizing budget with
  | nil => exact List.suffix_refl _
  | cons first rest ih =>
    rw [spend]
    split
    · exact List.suffix_refl _
    · exact (ih _).trans (List.suffix_cons _ _)

/-- Time only takes entries from the front. -/
theorem advance_numbers (elapsed : τ) :
    (es.advance elapsed).list.map (·.number) <:+ es.list.map (·.number) := spend_numbers _ es.list

/-- Numbers ascend, and all of them have been given out. -/
structure Ascending (es : Entries τ) : Prop where
  order : (es.list.map (·.number)).Pairwise (· < ·)
  given : ∀ n ∈ es.list.map (·.number), n < es.next

variable {es : Entries τ}

omit [Scalar τ] in
theorem Ascending.empty : (Entries.empty : Entries τ).Ascending := ⟨List.Pairwise.nil, nofun⟩

theorem Ascending.enqueue (ascending : es.Ascending) (text : String) (duration : τ) :
    (es.enqueue text duration).Ascending := by
  have numbers : (es.enqueue text duration).list.map (·.number) = es.list.map (·.number) ++ [es.next] :=
    List.map_append
  constructor
  · rw [numbers]
    exact List.pairwise_append.mpr ⟨ascending.order, List.pairwise_singleton _ _,
      fun n listed _ last => List.mem_singleton.mp last ▸ ascending.given n listed⟩
  · intro n listed
    rw [numbers] at listed
    rcases List.mem_append.mp listed with old | new
    · exact (ascending.given n old).trans (Nat.lt_succ_self _)
    · exact List.mem_singleton.mp new ▸ Nat.lt_succ_self _

theorem Ascending.advance (ascending : es.Ascending) (elapsed : τ) : (es.advance elapsed).Ascending := by
  have leave := es.advance_numbers elapsed
  exact ⟨ascending.order.sublist leave.sublist, fun n listed => ascending.given n (leave.subset listed)⟩

end Entries

/-! ### draws -/

/-- What happens to the queue between draws. Each time that time has passed a draw follows. -/
inductive ToastCall
  | enqueue (text : String) (duration : Float)
  | advance (elapsed : Float)

/-- Time does not run backwards. -/
def ToastCall.forward : ToastCall → Bool
  | .enqueue _ _ => true
  | .advance elapsed => decide (0 ≤ elapsed)

/-- A draw: the entry that was shown at the draw before, the entries now, the queue of the program, and what
the player reports. -/
structure Drawing where
  before : Option (Entry Float)
  entries : Entries Float
  toasts : Toasts Float
  report : Option String

def Drawing.reported (d : Drawing) : Option Nat :=
  if d.report.isSome then d.entries.active.map (·.number) else none

/-- The draws of a queue of toasts, of which `shown` was shown last, and of the numbered entries beside it, of
which `before` was. -/
def drawings (es : Entries Float) (before : Option (Entry Float)) (q : Toasts Float)
    (shown : Option (Toast Float)) : List ToastCall → List Drawing
  | [] => []
  | .enqueue text duration :: rest =>
    drawings (es.enqueue text duration) before (q.enqueue text duration) shown rest
  | .advance elapsed :: rest =>
    let es := es.advance elapsed
    let q := q.advance elapsed
    ⟨before, es, q, Player.appeared shown q.active⟩ :: drawings es es.active q q.active rest

/-- The entry that was shown last, if any, is still the first one. -/
def Follows (es : Entries Float) (before : Option (Entry Float)) : Prop :=
  ∀ old, before = some old → es.active = some old

theorem Follows.enqueue {es : Entries Float} {before : Option (Entry Float)} (follows : Follows es before)
    (text : String) (duration : Float) : Follows (es.enqueue text duration) before := by
  intro old same
  have first : es.list.head? = some old := follows old same
  rw [Entries.active, Entries.enqueue, List.head?_append, first]
  rfl

/-- What is spent is never negative. -/
theorem greater_zero_forward (elapsed : Float) : 0 ≤ Scalar.greater elapsed 0 := by
  unfold Scalar.greater
  split
  next number =>
    split
    · decide +kernel
    next forward => exact Double.zero_le (of_decide_eq_true number) forward
  · decide +kernel

/-- An entry is reported that was not shown at the draw before, unless the one that was had the same text and no
less time. -/
def Reportable (before : Option (Entry Float)) (e : Entry Float) : Prop :=
  ∀ old, before = some old →
    old.number ≠ e.number ∧ (old.toast.text = e.toast.text → old.toast.remaining < e.toast.remaining)

/-- A toast shows as new when its text differs, or when it has more time left than the one before. -/
theorem appeared_iff {before now : Toast Float} {text : String} :
    Player.appeared (some before) (some now) = some text ↔
      now.text = text ∧ (before.text = now.text → before.remaining < now.remaining) := by
  have new : (now.text != before.text || decide (before.remaining < now.remaining)) = true ↔
      (before.text = now.text → before.remaining < now.remaining) := by
    rw [Bool.or_eq_true, bne_iff_ne, decide_eq_true_iff]
    constructor
    · rintro (differ | grown) same
      · exact absurd same.symm differ
      · exact grown
    · intro grown
      by_cases same : before.text = now.text
      · exact .inr (grown same)
      · exact .inl (Ne.symm same)
  rw [Player.appeared]
  split
  next yes => exact ⟨fun same => ⟨Option.some.inj same, new.mp yes⟩, fun same => congrArg some same.1⟩
  next no => exact ⟨nofun, fun same => absurd (new.mpr same.2) no⟩

/-- Time passes once, and then a toast is reported iff the entry that is shown is to be. -/
theorem report_iff {es : Entries Float} {before : Option (Entry Float)} (ascending : es.Ascending)
    (follows : Follows es before) (elapsed : Float) (text : String) :
    Player.appeared (before.map (·.toast)) (es.advance elapsed).toasts.active = some text ↔
      ∃ e, (es.advance elapsed).active = some e ∧ e.toast.text = text ∧ Reportable before e := by
  cases before with
  | none =>
    have shown : (es.advance elapsed).toasts.active = (es.advance elapsed).active.map (·.toast) := rfl
    rw [shown]
    cases (es.advance elapsed).active with
    | none => simp [Player.appeared]
    | some e => simp [Player.appeared, Reportable]
  | some old =>
    obtain ⟨list, next⟩ := es
    have first : list.head? = some old := follows old rfl
    obtain ⟨rest, rfl⟩ : ∃ rest, list = old :: rest := List.head?_eq_some_iff.mp first
    generalize budget : Scalar.greater elapsed 0 = b
    have forward : 0 ≤ b := budget ▸ greater_zero_forward elapsed
    by_cases lasts : b < old.toast.remaining
    · -- it is still shown, with the time that is left
      have spent : (Entries.mk (old :: rest) next).advance elapsed =
          ⟨⟨old.number, old.toast.text, old.toast.remaining - b⟩ :: rest, next⟩ := by
        rw [Entries.advance, budget, Entries.spend, if_pos lasts]
      have shorter : ¬ old.toast.remaining < old.toast.remaining - b := Double.not_lt_sub forward lasts
      rw [spent]
      refine appeared_iff.trans ⟨?_, ?_⟩
      · rintro ⟨_, grown⟩
        exact absurd (grown rfl) shorter
      · rintro ⟨e, shown, _, reportable⟩
        cases shown
        exact absurd rfl (reportable old rfl).1
    · -- an entry that was added later is shown, if any
      have spent : (Entries.mk (old :: rest) next).advance elapsed =
          ⟨Entries.spend (b - old.toast.remaining) rest, next⟩ := by
        rw [Entries.advance, budget, Entries.spend, if_neg lasts]
      have leave := Entries.spend_numbers (b - old.toast.remaining) rest
      rw [spent]
      generalize Entries.spend (b - old.toast.remaining) rest = later at leave
      cases later with
      | nil => exact ⟨nofun, nofun⟩
      | cons e later =>
        have greater : old.number < e.number :=
          (List.pairwise_cons.mp ascending.order).1 _ (leave.subset List.mem_cons_self)
        refine appeared_iff.trans ⟨?_, ?_⟩
        · rintro ⟨same, grown⟩
          refine ⟨e, rfl, same, fun old' still => ?_⟩
          cases still
          exact ⟨Nat.ne_of_lt greater, grown⟩
        · rintro ⟨_, shown, same, reportable⟩
          cases shown
          exact ⟨same, (reportable old rfl).2⟩

section

variable {es : Entries Float} {before : Option (Entry Float)}

/-- At each draw the program shows the entry that is shown, and reports it iff it is to be. -/
theorem drawings_report (ascending : es.Ascending) (follows : Follows es before) (calls : List ToastCall) :
    ∀ d ∈ drawings es before es.toasts (before.map (·.toast)) calls, d.toasts = d.entries.toasts ∧
      ∀ text, d.report = some text ↔
        ∃ e, d.entries.active = some e ∧ e.toast.text = text ∧ Reportable d.before e := by
  induction calls generalizing es before with
  | nil => exact nofun
  | cons c calls ih =>
    cases c with
    | enqueue text duration =>
      rw [drawings, ← Entries.enqueue_toasts]
      exact ih (ascending.enqueue text duration) (follows.enqueue text duration)
    | advance elapsed =>
      rw [drawings, ← Entries.advance_toasts]
      refine List.forall_mem_cons.mpr ⟨⟨rfl, report_iff ascending follows elapsed⟩, ?_⟩
      exact ih (ascending.advance elapsed) fun _ same => same

theorem Drawing.reported_eq {d : Drawing} {k : Nat} (reported : d.reported = some k) :
    ∃ text e, d.report = some text ∧ d.entries.active = some e ∧ e.number = k := by
  unfold Drawing.reported at reported
  split at reported
  next told =>
    obtain ⟨text, same⟩ := Option.isSome_iff_exists.mp told
    obtain ⟨e, shown, number⟩ := Option.map_eq_some_iff.mp reported
    exact ⟨text, e, same, shown, number⟩
  · cases reported

/-- The entry that was shown last is shown again, unless it has left. -/
theorem still_active (ascending : es.Ascending) (follows : Follows es before) {elapsed : Float} {m : Nat}
    (last : before.map (·.number) = some m) (listed : m ∈ (es.advance elapsed).list.map (·.number)) :
    (es.advance elapsed).active.map (·.number) = some m := by
  obtain ⟨old, was, rfl⟩ := Option.map_eq_some_iff.mp last
  obtain ⟨rest, first⟩ := List.head?_eq_some_iff.mp (follows old was)
  have numbers : es.list.map (·.number) = old.number :: rest.map (·.number) := by rw [first, List.map_cons]
  have order := ascending.order
  have leave := es.advance_numbers elapsed
  rw [numbers] at order leave
  rcases List.suffix_cons_iff.mp leave with whole | later
  · exact List.head?_map.symm.trans (congrArg List.head? whole)
  · exact absurd ((List.pairwise_cons.mp order).1 _ (later.subset listed)) (Nat.lt_irrefl _)

/-- What is reported from now on has at least a number that all entries have but the one that was shown last. -/
theorem reported_least (ascending : es.Ascending) (follows : Follows es before) {n : Nat} (next : n ≤ es.next)
    (low : ∀ m ∈ es.list.map (·.number), n ≤ m ∨ before.map (·.number) = some m) (calls : List ToastCall) :
    ∀ d ∈ drawings es before es.toasts (before.map (·.toast)) calls, ∀ k, d.reported = some k → n ≤ k := by
  -- `low` is kept by each call: a new entry has a greater number, and the one that is shown stays the first
  induction calls generalizing es before with
  | nil => exact nofun
  | cons c calls ih =>
    cases c with
    | enqueue text duration =>
      rw [drawings, ← Entries.enqueue_toasts]
      apply ih (ascending.enqueue text duration) (follows.enqueue text duration) (Nat.le_succ_of_le next)
      intro m listed
      rw [Entries.enqueue, List.map_append] at listed
      rcases List.mem_append.mp listed with old | new
      · exact low m old
      · exact .inl (List.mem_singleton.mp new ▸ next)
    | advance elapsed =>
      have leave := es.advance_numbers elapsed
      rw [drawings, ← Entries.advance_toasts]
      refine List.forall_mem_cons.mpr ⟨fun k reported => ?_, ?_⟩
      · obtain ⟨text, e, told, shown, rfl⟩ := Drawing.reported_eq reported
        obtain ⟨_, shown', _, reportable⟩ := (report_iff ascending follows elapsed text).mp told
        cases shown.symm.trans shown'
        have listed : e.number ∈ (es.advance elapsed).list.map (·.number) :=
          List.mem_map_of_mem (List.mem_of_head? shown)
        rcases low _ (leave.subset listed) with least | last
        · exact least
        · obtain ⟨old, was, number⟩ := Option.map_eq_some_iff.mp last
          exact absurd number (reportable old was).1
      · apply ih (ascending.advance elapsed) (fun _ same => same) next
        intro m listed
        rcases low m (leave.subset listed) with least | last
        · exact .inl least
        · exact .inr (still_active ascending follows last listed)

/-- The numbers of the entries that are reported ascend. -/
theorem reported_ascend (ascending : es.Ascending) (follows : Follows es before) (calls : List ToastCall) :
    ((drawings es before es.toasts (before.map (·.toast)) calls).filterMap Drawing.reported).Pairwise (· < ·) := by
  induction calls generalizing es before with
  | nil => exact List.Pairwise.nil
  | cons c calls ih =>
    cases c with
    | enqueue text duration =>
      rw [drawings, ← Entries.enqueue_toasts]
      exact ih (ascending.enqueue text duration) (follows.enqueue text duration)
    | advance elapsed =>
      have later := ascending.advance elapsed
      have follows' : Follows (es.advance elapsed) (es.advance elapsed).active := fun _ same => same
      have rest := ih later follows'
      rw [drawings, ← Entries.advance_toasts, List.filterMap_cons]
      split
      · exact rest
      next k reported =>
        -- all later reports have greater numbers than the one that has just been made
        refine List.pairwise_cons.mpr ⟨fun j listed => ?_, rest⟩
        obtain ⟨d, drawn, told⟩ := List.mem_filterMap.mp listed
        obtain ⟨_, e, _, shown, rfl⟩ := Drawing.reported_eq reported
        obtain ⟨tail, first⟩ := List.head?_eq_some_iff.mp shown
        have given : e.number + 1 ≤ (es.advance elapsed).next :=
          later.given _ (List.mem_map_of_mem (List.mem_of_head? shown))
        refine reported_least later follows' given (fun m number => ?_) calls d drawn j told
        have order := later.order
        rw [first, List.map_cons] at number order
        rcases List.mem_cons.mp number with rfl | behind
        · exact .inr (congrArg _ shown)
        · exact .inl ((List.pairwise_cons.mp order).1 m behind)

end

namespace Player

/-- The log has a line for each report. -/
theorem logOutputs_drawings (es : Entries Float) (before : Option (Entry Float)) (q : Toasts Float)
    (shown : Option (Toast Float)) (calls : List ToastCall) (s : Snapshot Float) :
    (logOutputs shown ((drawings es before q shown calls).map fun d => .draw { s with toasts := d.toasts })).1 =
      (drawings es before q shown calls).filterMap fun d => d.report.map ("Toast: " ++ ·) := by
  induction calls generalizing es before q shown with
  | nil => rfl
  | cons c calls ih =>
    cases c with
    | enqueue text duration => exact ih ..
    | advance elapsed =>
      rw [drawings, List.map_cons, logOutputs, List.filterMap_cons]
      dsimp only
      rw [ih]
      cases appeared shown (q.advance elapsed).active <;> rfl

/-- Whatever toasts are added and however time passes, with a draw each time: the player shows the first entry
of the queue, and reports it iff it was not shown at the draw before and the one that was shown then, if any,
had another text or less time left. No entry is reported twice, and each report is a line of the log. -/
theorem reports_toasts (calls : List ToastCall) (s : Snapshot Float) :
    let draws := drawings .empty none .empty none calls
    (∀ d ∈ draws, d.toasts = d.entries.toasts ∧ ∀ text, d.report = some text ↔
      ∃ e, d.entries.active = some e ∧ e.toast.text = text ∧ Reportable d.before e) ∧
    (draws.filterMap Drawing.reported).Pairwise (· < ·) ∧
    (logOutputs none (draws.map fun d => .draw { s with toasts := d.toasts })).1 =
      draws.filterMap fun d => d.report.map ("Toast: " ++ ·) := by
  have follows : Follows .empty none := nofun
  exact ⟨drawings_report .empty follows calls, reported_ascend .empty follows calls,
    logOutputs_drawings _ _ _ _ calls s⟩

/-- It is not so that every entry is reported that was not shown at the draw before: one that has the text of
the entry before it and is left with less time is not. -/
theorem reports_toasts_refuted :
    ¬ ∀ calls : List ToastCall, (∀ c ∈ calls, c.forward = true) →
      ∀ d ∈ drawings .empty none .empty none calls, ∀ text, d.report = some text ↔
        ∃ e, d.entries.active = some e ∧ e.toast.text = text ∧
          ∀ old, d.before = some old → old.number ≠ e.number := by
  intro reports
  let calls : List ToastCall :=
    [.enqueue "Hello" 10, .enqueue "Hello" 1, .advance 9, .advance 1.5]
  have forward : ∀ c ∈ calls, c.forward = true := by decide +kernel
  have drawn : ∃ d ∈ drawings .empty none .empty none calls, d.report = none ∧
      d.entries.active = some ⟨1, "Hello", 0.5⟩ ∧ d.before = some ⟨0, "Hello", 1⟩ := by decide +kernel
  obtain ⟨d, listed, silent, shown, before⟩ := drawn
  have told := (reports calls forward d listed "Hello").mpr ⟨_, shown, rfl, fun old was => ?_⟩
  · rw [silent] at told
    cases told
  · rw [before] at was
    cases was
    decide

end Player

end Gameplay
