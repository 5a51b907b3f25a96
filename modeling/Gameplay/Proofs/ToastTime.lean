import Mathlib
import Gameplay.Proofs.ExactTime
import Gameplay.Proofs.Overlaps
import Gameplay.Proofs.Reports

/-!
# The time of toasts

Time is spent on toasts in the order in which they were added: what the active one does not need goes to those
behind it. On exact times nothing is lost, so it makes no difference in how many parts a time passes.

## Main result

`toasts_spend_exactly`: what holds of every queue of toasts, and what a time does to it.

## Proof strategy

The entries of the queue are numbered (`Entries`), and a history is kept of those that are shown and of those
that expire. Every call goes on with it in the order of the numbers (`Entries.Recounts.call`). What a time does is an
induction along the entries: each is paid for in full, or it is the first one that is not.
-/

namespace Gameplay

/-! ### calls and what happens -/

/-- What is done with the queue of toasts. -/
inductive Toasts.Call
  | enqueue (text : String) (duration : ℚ)
  | advance (elapsed : ℚ)
  | clear

/-- A toast becomes active, or its time is over. -/
inductive ToastEvent
  | shown (number : Nat)
  | expired (number : Nat)
deriving DecidableEq

namespace ToastEvent

def number : ToastEvent → Nat
  | shown n | expired n => n

def expired? : ToastEvent → Option Nat
  | shown _ => none
  | expired n => some n

/-- Toasts come in the order in which they were added, and each is shown before it expires. -/
def Precedes (e f : ToastEvent) : Prop := e.number < f.number ∨ ∃ n, e = .shown n ∧ f = .expired n

end ToastEvent

namespace Toasts

def call (q : Toasts ℚ) : Call → Toasts ℚ
  | .enqueue text duration => q.enqueue text duration
  | .advance elapsed => q.advance elapsed
  | .clear => .empty

def after (calls : List Call) : Toasts ℚ := calls.foldl call .empty

/-- For how long the toasts of a line are shown one after the other. -/
def total (line : List (Toast ℚ)) : ℚ := (line.map (·.remaining)).sum

/-- Takes a time off the first toast of a line. -/
def shorten (time : ℚ) : List (Toast ℚ) → List (Toast ℚ)
  | [] => []
  | first :: rest => { first with remaining := first.remaining - time } :: rest

/-- A time is spent on a line of toasts. It pays for the first `gone` of them, and for no more. What is left of it
is taken off the next one, and the others stay as they are. -/
structure Spends (time : ℚ) (line left : List (Toast ℚ)) (gone : Nat) : Prop where
  inside : gone ≤ line.length
  paid : total (line.take gone) ≤ time
  longest : ∀ n ≤ line.length, total (line.take n) ≤ time → n ≤ gone
  left_eq : left = shorten (time - total (line.take gone)) (line.drop gone)

end Toasts

namespace Entries

def call (es : Entries ℚ) : Toasts.Call → Entries ℚ
  | .enqueue text duration => es.enqueue text duration
  | .advance elapsed => es.advance elapsed
  | .clear => { es with list := [] }

def after (calls : List Toasts.Call) : Entries ℚ := calls.foldl call .empty

/-- The first of some numbers is shown, if there is one. -/
def shows (numbers : List Nat) : List ToastEvent := (numbers.head?.map .shown).toList

/-- What happens while a time is spent on entries, the first of which is active. -/
def spending (budget : ℚ) : List (Entry ℚ) → List ToastEvent
  | [] => []
  | e :: rest =>
    if budget < e.toast.remaining then []
    else .expired e.number :: (shows (rest.map (·.number)) ++ spending (budget - e.toast.remaining) rest)

/-- What happens at a call. A toast that is cleared does not expire. -/
def happens (es : Entries ℚ) : Toasts.Call → List ToastEvent
  | .enqueue _ _ => if es.list.isEmpty then [.shown es.next] else []
  | .advance elapsed => spending (Scalar.greater elapsed 0) es.list
  | .clear => []

def history (es : Entries ℚ) : List Toasts.Call → List ToastEvent
  | [] => []
  | c :: calls => es.happens c ++ (es.call c).history calls

/-! ### the queue without its numbers -/

variable {es : Entries ℚ}

theorem toList_toasts (es : Entries ℚ) : es.toasts.toList = es.list.map (·.toast) := by
  obtain ⟨list, next⟩ := es
  cases list <;> simp [toasts, active, Toasts.toList]

theorem call_toasts (es : Entries ℚ) (c : Toasts.Call) : (es.call c).toasts = es.toasts.call c := by
  cases c with
  | enqueue text duration => exact es.enqueue_toasts text duration
  | advance elapsed => exact es.advance_toasts elapsed
  | clear => simp [call, toasts, active, Toasts.call, Toasts.empty]

theorem after_toasts (calls : List Toasts.Call) : (after calls).toasts = Toasts.after calls := by
  have run (es : Entries ℚ) : (calls.foldl call es).toasts = calls.foldl Toasts.call es.toasts := by
    induction calls generalizing es with
    | nil => rfl
    | cons c calls ih => rw [List.foldl_cons, List.foldl_cons, ih, call_toasts]
  exact run .empty

/-! ### spending time -/

section

variable {budget : ℚ} {e : Entry ℚ} {rest list : List (Entry ℚ)}

/-- Less time than the first toast has left is spent on it alone. -/
theorem spend_short (short : budget < e.toast.remaining) : spend budget (e :: rest) =
    { e with toast := { e.toast with remaining := e.toast.remaining - budget } } :: rest := if_pos short

/-- Time enough for the first toast is spent on it first, and the rest of the time on the others. -/
theorem spend_paid (paid : e.toast.remaining ≤ budget) :
    spend budget (e :: rest) = spend (budget - e.toast.remaining) rest := if_neg (not_lt.mpr paid)

theorem spending_short (short : budget < e.toast.remaining) : spending budget (e :: rest) = [] := if_pos short

theorem spending_paid (paid : e.toast.remaining ≤ budget) : spending budget (e :: rest) =
    .expired e.number :: (shows (rest.map (·.number)) ++ spending (budget - e.toast.remaining) rest) :=
  if_neg (not_lt.mpr paid)

/-- A time may be spent in two parts. -/
theorem spend_spend {a b : ℚ} (forward : 0 ≤ b) (list : List (Entry ℚ)) :
    spend b (spend a list) = spend (a + b) list := by
  induction list generalizing a with
  | nil => rfl
  | cons e rest ih =>
    rcases lt_or_ge a e.toast.remaining with short | paid
    · rw [spend_short short]
      -- the second part begins with what the first one has left of this entry
      rcases lt_or_ge (a + b) e.toast.remaining with still | enough
      · rw [spend_short still, spend_short (lt_sub_iff_add_lt'.mpr still)]
        simp only [sub_sub]
      · rw [spend_paid enough, spend_paid (sub_le_iff_le_add'.mpr enough)]
        congr 1
        ring
    · rw [spend_paid paid, spend_paid (paid.trans (le_add_of_nonneg_right forward)), ih]
      congr 1
      ring

/-- An entry is shown for some time. -/
def Positive (list : List (Entry ℚ)) : Prop := ∀ e ∈ list, 0 < e.toast.remaining

theorem total_nonneg (positive : Positive list) (n : Nat) :
    0 ≤ Toasts.total ((list.map (·.toast)).take n) := by
  apply List.sum_nonneg
  intro time listed
  obtain ⟨toast, taken, rfl⟩ := List.mem_map.mp listed
  obtain ⟨e, member, rfl⟩ := List.mem_map.mp (List.mem_of_mem_take taken)
  exact (positive e member).le

/-- Toasts that are left have time left. -/
theorem spend_positive (positive : Positive list) (budget : ℚ) : Positive (spend budget list) := by
  induction list generalizing budget with
  | nil => exact positive
  | cons e rest ih =>
    obtain ⟨_, others⟩ := List.forall_mem_cons.mp positive
    rcases lt_or_ge budget e.toast.remaining with short | paid
    · rw [spend_short short]
      exact List.forall_mem_cons.mpr ⟨sub_pos.mpr short, others⟩
    · rw [spend_paid paid]
      exact ih others _

/-- What a time does to entries, and which of them expire. -/
theorem spend_spends (positive : Positive list) (forward : 0 ≤ budget) :
    ∃ gone, Toasts.Spends budget (list.map (·.toast)) ((spend budget list).map (·.toast)) gone ∧
      (spending budget list).filterMap ToastEvent.expired? = (list.take gone).map (·.number) := by
  induction list generalizing budget with
  | nil =>
    refine ⟨0, ⟨le_refl 0, forward, fun n inside _ => inside, rfl⟩, rfl⟩
  | cons e rest ih =>
    obtain ⟨first, others⟩ := List.forall_mem_cons.mp positive
    have step (n : Nat) : Toasts.total (((e :: rest).map (·.toast)).take (n + 1)) =
        e.toast.remaining + Toasts.total ((rest.map (·.toast)).take n) := by
      simp [Toasts.total]
    rcases lt_or_ge budget e.toast.remaining with short | paid
    · -- not even the first one is paid for
      refine ⟨0, ⟨Nat.zero_le _, forward, fun n _ fits => ?_, ?_⟩, ?_⟩
      · cases n with
        | zero => exact le_refl 0
        | succ n =>
          rw [step] at fits
          have more := total_nonneg others n
          linarith
      · simp [spend_short short, Toasts.total, Toasts.shorten]
      · simp [spending_short short]
    · obtain ⟨gone, ⟨inside, within, longest, left⟩, expired⟩ := ih others (sub_nonneg.mpr paid)
      refine ⟨gone + 1, ⟨by simpa using inside, ?_, fun n size fits => ?_, ?_⟩, ?_⟩
      · rw [step]
        linarith
      · cases n with
        | zero => exact Nat.zero_le _
        | succ n =>
          rw [step] at fits
          exact Nat.succ_le_succ (longest n (by simpa using size) (by linarith))
      · rw [spend_paid paid, left, step, sub_sub]
        simp
      · rw [spending_paid paid]
        have silent : (shows (rest.map (·.number))).filterMap ToastEvent.expired? = [] := by
          cases rest <;> simp [shows, ToastEvent.expired?]
        simp [List.filterMap_append, silent, expired, ToastEvent.expired?]

/-- The loop goes on for each entry at most once. -/
theorem spending_length (budget : ℚ) (list : List (Entry ℚ)) :
    (spending budget list).length ≤ 2 * list.length := by
  induction list generalizing budget with
  | nil => exact le_refl 0
  | cons e rest ih =>
    rcases lt_or_ge budget e.toast.remaining with short | paid
    · simp [spending_short short]
    · have later := ih (budget - e.toast.remaining)
      have one : (shows (rest.map (·.number))).length ≤ 1 := by cases rest <;> simp [shows]
      simp only [spending_paid paid, List.length_cons, List.length_append]
      omega

end

end Entries

/-! ### the order of what happens -/

/-- What has happened, beside the numbers of the entries that are left and the number of the next one. It has
happened in order, and to earlier entries than those that are left, but that the first of them may be shown. -/
structure Told (numbers : List Nat) (next : Nat) (past : List ToastEvent) : Prop where
  ascending : numbers.Pairwise (· < ·)
  listed : ∀ n ∈ numbers, n < next
  order : past.Pairwise ToastEvent.Precedes
  given : ∀ f ∈ past, f.number < next
  shown : ∀ n, .expired n ∈ past → .shown n ∈ past
  before : ∀ f ∈ past, ∀ n ∈ numbers, f.number < n ∨ f = .shown n

/-- The first of some entries has been shown. -/
def Showing (numbers : List Nat) (past : List ToastEvent) : Prop := ∀ n ∈ numbers.head?, .shown n ∈ past

namespace Told

variable {numbers rest left : List Nat} {n next : Nat} {past : List ToastEvent} {f : ToastEvent}

theorem empty : Told [] 0 [] := by constructor <;> simp

/-- Entries leave without anything happening. -/
theorem leave (told : Told numbers next past) (stay : left.Sublist numbers) : Told left next past where
  ascending := told.ascending.sublist stay
  listed n member := told.listed n (stay.subset member)
  order := told.order
  given := told.given
  shown := told.shown
  before f happened n member := told.before f happened n (stay.subset member)

/-- An entry joins the others, with the next number. -/
theorem join (told : Told numbers next past) : Told (numbers ++ [next]) (next + 1) past where
  ascending := List.pairwise_append.mpr ⟨told.ascending, List.pairwise_singleton _ _, by simpa using told.listed⟩
  listed n member := by
    rcases List.mem_append.mp member with old | new
    · exact Nat.lt_succ_of_lt (told.listed n old)
    · simp [List.mem_singleton.mp new]
  order := told.order
  given f happened := Nat.lt_succ_of_lt (told.given f happened)
  shown := told.shown
  before f happened n member := by
    rcases List.mem_append.mp member with old | new
    · exact told.before f happened n old
    · exact .inl (List.mem_singleton.mp new ▸ told.given f happened)

/-- Something else happens, after all the rest. -/
theorem note (told : Told numbers next past) (last : ∀ g ∈ past, g.Precedes f) (given : f.number < next)
    (shown : ∀ n, f = .expired n → .shown n ∈ past) (before : ∀ n ∈ numbers, f.number < n ∨ f = .shown n) :
    Told numbers next (past ++ [f]) where
  ascending := told.ascending
  listed := told.listed
  order := List.pairwise_append.mpr ⟨told.order, List.pairwise_singleton _ _, by simpa using last⟩
  given := by simpa [or_imp, forall_and, given] using told.given
  shown n happened := by
    rcases List.mem_append.mp happened with old | new
    · exact List.mem_append_left _ (told.shown n old)
    · exact List.mem_append_left _ (shown n (List.mem_singleton.mp new).symm)
  before g happened := by
    rcases List.mem_append.mp happened with old | new
    · exact told.before g old
    · rw [List.mem_singleton.mp new]
      exact before

/-- The first entry is shown. -/
theorem appear (told : Told (n :: rest) next past) (later : ∀ g ∈ past, g.number < n) :
    Told (n :: rest) next (past ++ [.shown n]) := by
  apply told.note
  · exact fun g happened => .inl (later g happened)
  · exact told.listed n List.mem_cons_self
  · nofun
  · intro m member
    rcases List.mem_cons.mp member with rfl | behind
    · exact .inr rfl
    · exact .inl ((List.pairwise_cons.mp told.ascending).1 m behind)

/-- The first entry expires, and the next one is shown. -/
theorem expire (told : Told (n :: rest) next past) (active : Showing (n :: rest) past) :
    Told rest next (past ++ .expired n :: Entries.shows rest) ∧
      Showing rest (past ++ .expired n :: Entries.shows rest) := by
  have ascends := (List.pairwise_cons.mp told.ascending).1
  have first (f : ToastEvent) (happened : f ∈ past) : f.Precedes (.expired n) := by
    rcases told.before f happened n List.mem_cons_self with less | rfl
    · exact .inl less
    · exact .inr ⟨n, rfl, rfl⟩
  have gone : Told rest next (past ++ [.expired n]) := by
    apply (told.leave (List.sublist_cons_self n rest)).note first
    · exact told.listed n List.mem_cons_self
    · rintro _ ⟨⟩
      exact active n rfl
    · exact fun m behind => .inl (ascends m behind)
  cases rest with
  | nil => exact ⟨gone, nofun⟩
  | cons m rest =>
    have shown := gone.appear fun g happened => ?_
    · simp only [List.append_assoc, List.singleton_append] at shown
      exact ⟨shown, by simp [Showing, Entries.shows]⟩
    · -- nothing has happened yet to the one that comes next
      have less := ascends m List.mem_cons_self
      rcases List.mem_append.mp happened with old | new
      · rcases told.before g old n List.mem_cons_self with earlier | rfl
        · exact earlier.trans less
        · exact less
      · rw [List.mem_singleton.mp new]
        exact less

end Told

namespace Entries

variable {es : Entries ℚ} {next : Nat} {past : List ToastEvent}

/-- What has happened to entries is told, and the first of them is shown. -/
def Recounts (es : Entries ℚ) (past : List ToastEvent) : Prop :=
  Told (es.list.map (·.number)) es.next past ∧ Showing (es.list.map (·.number)) past

/-- What is told of spending time follows on what was told before. -/
theorem Recounts.spend {list : List (Entry ℚ)} (recounts : Recounts ⟨list, next⟩ past) (budget : ℚ) :
    Recounts ⟨spend budget list, next⟩ (past ++ spending budget list) := by
  induction list generalizing budget past with
  | nil => simpa [Entries.spend, spending] using recounts
  | cons e rest ih =>
    rcases lt_or_ge budget e.toast.remaining with short | paid
    · simpa [Recounts, spend_short short, spending_short short] using recounts
    · have later := ih (recounts.1.expire recounts.2) (budget - e.toast.remaining)
      simpa [spend_paid paid, spending_paid paid] using later

/-- What is told of a call follows on what was told before. -/
theorem Recounts.call (recounts : es.Recounts past) (c : Toasts.Call) :
    (es.call c).Recounts (past ++ es.happens c) := by
  obtain ⟨list, next⟩ := es
  cases c with
  | enqueue text duration =>
    have joined := recounts.1.join
    cases list with
    | nil => exact ⟨joined.appear recounts.1.given, by simp [Showing, happens, Entries.call, enqueue]⟩
    | cons e rest =>
      refine ⟨?_, ?_⟩
      · simpa [Entries.call, enqueue, happens] using joined
      · simpa [Entries.call, enqueue, happens, Showing] using recounts.2
  | advance elapsed => exact Recounts.spend recounts _
  | clear =>
    constructor
    · simpa [Entries.call, happens] using recounts.1.leave (List.nil_sublist _)
    · simp [Showing, Entries.call]

/-- What happens at some calls goes on with what has happened before. -/
theorem Recounts.calls (recounts : es.Recounts past) (calls : List Toasts.Call) :
    (calls.foldl Entries.call es).Recounts (past ++ es.history calls) := by
  induction calls generalizing es past with
  | nil => simpa [history] using recounts
  | cons c calls ih =>
    have later := ih (recounts.call c)
    rwa [List.append_assoc] at later

theorem call_positive (positive : Positive es.list) (c : Toasts.Call) : Positive (es.call c).list := by
  cases c with
  | enqueue text duration =>
    -- no toast is shown for less than a millisecond
    have floor : 0 < Toasts.shownFor duration := by
      have longest : Toasts.shownFor duration = max duration 1 := greater_eq_max duration 1
      rw [longest]
      exact lt_max_of_lt_right one_pos
    intro e listed
    rcases List.mem_append.mp listed with old | new
    · exact positive e old
    · rw [List.mem_singleton.mp new]
      exact floor
  | advance elapsed => exact spend_positive positive _
  | clear => nofun

theorem after_positive (calls : List Toasts.Call) : Positive (after calls).list := by
  have run (es : Entries ℚ) (positive : Positive es.list) : Positive (calls.foldl call es).list := by
    induction calls generalizing es with
    | nil => exact positive
    | cons c calls ih => exact ih _ (call_positive positive c)
  exact run .empty nofun

theorem after_recounts (calls : List Toasts.Call) : (after calls).Recounts (history .empty calls) := by
  have recounts : Recounts .empty [] := ⟨Told.empty, nofun⟩
  exact recounts.calls calls

theorem advance_toList (es : Entries ℚ) {time : ℚ} (forward : 0 ≤ time) :
    (es.toasts.advance time).toList = (spend time es.list).map (·.toast) := by
  rw [← advance_toasts, toList_toasts, advance, greater_zero forward]

theorem advance_advance (es : Entries ℚ) {a b : ℚ} (first : 0 ≤ a) (second : 0 ≤ b) :
    (es.toasts.advance a).advance b = es.toasts.advance (a + b) := by
  simp only [← advance_toasts, advance, greater_zero first, greater_zero second,
    greater_zero (add_nonneg first second), spend_spend second]

end Entries

namespace Toasts

/-- What holds of the queue of toasts after any calls, on exact times. Its toasts become active and expire in the
order in which they were added, and each expires after it was active. Nothing is queued while none is active, and
each toast is to be shown for some time. A time that passes removes the longest part of the line, from the active
toast on, for which it lasts; what it leaves is taken off the next toast, and the others stay as they are. It makes
no difference whether a time passes in one part or in two. The loop that spends it ends, for it goes on only for as
many toasts as there are. -/
theorem toasts_spend_exactly (calls : List Call) :
    let q := after calls
    let es := Entries.after calls
    let past := Entries.history .empty calls
    (es.toasts = q ∧ past.Pairwise ToastEvent.Precedes ∧ (∀ n, .expired n ∈ past → .shown n ∈ past) ∧
      ∀ e, es.active = some e → .shown e.number ∈ past) ∧
    (q.active = none → q.queued = []) ∧ (∀ toast ∈ q.toList, 0 < toast.remaining) ∧
    (∀ time, 0 ≤ time → ∃ gone, Spends time q.toList (q.advance time).toList gone ∧
      (es.happens (.advance time)).filterMap ToastEvent.expired? = (es.list.take gone).map (·.number)) ∧
    (∀ a b, 0 ≤ a → 0 ≤ b → (q.advance a).advance b = q.advance (a + b)) ∧
    ∀ time, (es.happens (.advance time)).length ≤ 2 * q.toList.length := by
  intro q es past
  have same : es.toasts = q := Entries.after_toasts calls
  -- the queue of toasts and the numbered entries are the same line
  have line : q.toList = es.list.map (·.toast) := same ▸ es.toList_toasts
  have positive := Entries.after_positive calls
  obtain ⟨told, showing⟩ := Entries.after_recounts calls
  refine ⟨⟨same, told.order, told.shown, fun e active => ?_⟩, ?_, ?_, fun time forward => ?_, ?_, fun time => ?_⟩
  · apply showing
    have first : es.list.head? = some e := active
    simp [es, first]
  · rw [← same]
    intro none
    have empty : es.list = [] := by simpa [Entries.toasts, Entries.active] using none
    simp [Entries.toasts, empty]
  · rw [line]
    exact List.forall_mem_map.mpr positive
  · obtain ⟨gone, spends, expired⟩ := Entries.spend_spends positive forward
    refine ⟨gone, ?_, ?_⟩
    · rw [line, ← same, es.advance_toList forward]
      exact spends
    · rw [Entries.happens, greater_zero forward]
      exact expired
  · rw [← same]
    exact fun a b => es.advance_advance
  · rw [line, List.length_map]
    exact Entries.spending_length _ es.list

/-- Three toasts are to be shown for 100, 50 and 80 milliseconds. Of 150 milliseconds the first two leave nothing,
and in two parts they do the same. -/
theorem toasts_spend_exactly_cascade :
    let calls : List Call := [.enqueue "a" 100, .enqueue "b" 50, .enqueue "c" 80]
    let q := after calls
    (∃ gone, Spends 150 q.toList (q.advance 150).toList gone ∧
      ((Entries.after calls).happens (.advance 150)).filterMap ToastEvent.expired? =
        ((Entries.after calls).list.take gone).map (·.number)) ∧
    (q.advance 150).toList = [⟨"c", 80⟩] ∧ (q.advance 120).advance 30 = q.advance (120 + 30) ∧
    Entries.history .empty (calls ++ [.advance 150]) =
      [.shown 0, .expired 0, .shown 1, .expired 1, .shown 2] := by
  intro calls q
  obtain ⟨_, _, _, spends, splits, _⟩ := toasts_spend_exactly calls
  exact ⟨spends 150 (by decide), by decide +kernel, splits 120 30 (by decide) (by decide), by decide +kernel⟩

end Toasts

end Gameplay
