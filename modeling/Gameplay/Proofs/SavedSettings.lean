import Gameplay.Proofs.AskedTicks
import Gameplay.Proofs.IniText
import Gameplay.Proofs.JsonText
import Gameplay.Settings

/-!
# Saved settings

Settings are written key by key and read key by key. A time that is not positive and a count of no ticks are not
taken as they are read, but no settings that have been read have such values, so all of these settings are read as
they were written. Infinite numbers and what is no number have words of their own.

## Main results

`load_saved`: what was saved is read over any settings, of which only the seed may stay.
`saved_settings_reread`: settings that have been read come back when they are saved and read again.
-/

namespace Gameplay

open Float.Model (UnpackedFloat)

/-! ### numbers in running text -/

/-- The double is read as it is written in running text. -/
def RereadsPlain (x : Float) : Prop := readFloat? (plainText x) = some x

/-- What is written of the single in running text is read as a double that rounds to it. -/
def RereadsPlain32 (x : Float32) : Prop := (readFloat? (plainText32 x)).map narrow = some x

instance (x : Float) : Decidable (RereadsPlain x) := inferInstanceAs (Decidable (_ = _))

instance (x : Float32) : Decidable (RereadsPlain32 x) := inferInstanceAs (Decidable (_ = _))

/-- There are only three doubles that are not finite. -/
theorem eq_of_infinite {x : Float} (infinite : x.isFinite = false) : x = 0 / 0 ∨ x = 1 / 0 ∨ x = -1 / 0 := by
  have infinite : x.toModel.unpack.isFinite = false := infinite
  rw [← Double.pack_toModel x]
  cases unpacked : x.toModel.unpack with
  | zero _ | finite _ _ _ _ =>
    rw [unpacked] at infinite
    cases infinite
  | notANumber => decide +kernel
  | infinity sign => cases sign <;> decide +kernel

theorem rereadsPlain_infinite {x : Float} (infinite : x.isFinite = false) : RereadsPlain x := by
  rcases eq_of_infinite infinite with rfl | rfl | rfl <;> decide +kernel

/-- A single that is unpacked and packed again is the same. -/
theorem pack_toModel32 (x : Float32) : Float32.ofModel (.pack x.toModel.unpack) = x := by
  obtain ⟨⟨bits, valid⟩⟩ := x
  have same : UInt32.ofBitVec (UnpackedFloat.pack .binary32 (UnpackedFloat.unpack .binary32 bits.toBitVec)) =
      bits := congrArg UInt32.ofBitVec (UnpackedFloat.pack_unpack_of_valid valid)
  simp only [Float32.Model.pack, Float32.Model.unpack, same]

/-- There are only three singles that are not finite. -/
theorem eq_of_infinite32 {x : Float32} (infinite : x.isFinite = false) : x = 0 / 0 ∨ x = 1 / 0 ∨ x = -1 / 0 := by
  have infinite : x.toModel.unpack.isFinite = false := infinite
  rw [← pack_toModel32 x]
  cases unpacked : x.toModel.unpack with
  | zero _ | finite _ _ _ _ =>
    rw [unpacked] at infinite
    cases infinite
  | notANumber => decide +kernel
  | infinity sign => cases sign <;> decide +kernel

theorem rereadsPlain32_infinite {x : Float32} (infinite : x.isFinite = false) : RereadsPlain32 x := by
  rcases eq_of_infinite32 infinite with rfl | rfl | rfl <;> decide +kernel

/-! ### words -/

/-- A word of 64 bits is read as it is written. -/
theorem readWord?_text {n : Nat} (word : n < twoTo 64) : readWord? (Numeral.ofInt n).text = some n := by
  have chars : (Numeral.ofInt n).text.toList = Nat.toDigits 10 n := by
    rw [Numeral.text, String.toList_ofList, Numeral.chars_eq]
    have unsigned : decide ((n : Int) < 0) = false := decide_eq_false (by omega)
    simp [Numeral.ofInt, Numeral.fractionChars, Numeral.exponentChars, unsigned]
  have all := spanDigits_all (isDigit_toDigits n)
  have value := digitsValue_toDigits n
  cases digits : Nat.toDigits 10 n with
  | nil => exact absurd digits Nat.toDigits_ne_nil
  | cons d ds =>
    -- a sign would not be taken for a digit
    have plus : d ≠ '+' := by
      rintro rfl
      have digit := isDigit_toDigits n '+' (digits ▸ List.mem_cons_self)
      cases digit
    rw [digits] at chars all value
    simp [readWord?, chars, plus, all, value, word]

/-! ### what is written stands in a line as it is -/

theorem solid_numeric {c : Char} (numeric : Json.isNumeric c = true) :
    isBlank c = false ∧ Ini.isComment c = false := by
  simp only [Json.isNumeric, Bool.or_eq_true, beq_iff_eq] at numeric
  rcases numeric with ((((digit | rfl) | rfl) | rfl) | rfl) | rfl
  · -- the digits lie between the blanks
    have digit : 48 ≤ c.toNat ∧ c.toNat ≤ 57 := Char.isDigit_iff_toNat.mp digit
    have other (d : Char) (apart : d.toNat < 48 ∨ 57 < d.toNat) : c ≠ d := by
      rintro rfl
      omega
    simp [isBlank, blankRanges, Ini.isComment, other ';' (by decide), other '#' (by decide)]
    omega
  all_goals decide

theorem solid_numeral (n : Numeral) : Ini.Solid n.text := by
  intro c member
  rw [Numeral.text, String.toList_ofList] at member
  exact solid_numeric (Json.isNumeric_chars n c member)

theorem solid_plainText (x : Float) : Ini.Solid (plainText x) := by
  unfold plainText
  split
  · exact solid_numeral _
  · split
    · decide
    · split <;> decide

theorem solid_plainText32 (x : Float32) : Ini.Solid (plainText32 x) := by
  unfold plainText32
  split
  · exact solid_numeral _
  · split
    · decide
    · split <;> decide

namespace Settings

/-! ### keys and values -/

/-- The keys that are written of the loop, in their order. -/
def loopValues (s : Settings) : List (String × String) :=
  [("max_frame_ms", plainText s.maxFrameMs),
    ("max_ticks_per_frame", (Numeral.ofInt s.maxTicksPerFrame.toNat).text),
    ("tick_ms", plainText s.tickMs)]

/-- The other keys that are written, in their order. -/
def runtimeValues (s : Settings) : List (String × String) :=
  [("default_sprite_height", plainText32 s.spriteHeight),
    ("default_sprite_width", plainText32 s.spriteWidth),
    ("default_toast_ms", plainText s.toastMs),
    ("max_custom_event_rounds", (Numeral.ofInt s.maxRounds.toNat).text)]
    ++ (s.seed.map fun seed => ("seed", (Numeral.ofInt seed.toNat).text)).toList

def saved (s : Settings) : List IniEntry :=
  Ini.entries "loop" s.loopValues ++ Ini.entries "runtime" s.runtimeValues

variable {s t : Settings}

theorem loopValues_writable (s : Settings) : Ini.Writable s.loopValues := by
  simp only [Ini.Writable, loopValues, List.forall_mem_cons, List.not_mem_nil, false_implies, implies_true, and_true,
    solid_plainText, solid_numeral]
  decide

theorem runtimeValues_writable (s : Settings) : Ini.Writable s.runtimeValues := by
  simp only [Ini.Writable, runtimeValues, List.forall_mem_append, List.forall_mem_cons, List.not_mem_nil, false_implies,
    implies_true, and_true, solid_plainText, solid_plainText32, solid_numeral]
  refine ⟨by decide, ?_⟩
  -- the seed is written if there is one
  intro kv member
  obtain ⟨seed, _, rfl⟩ : ∃ seed, s.seed = some seed ∧ ("seed", (Numeral.ofInt seed.toNat).text) = kv := by
    simpa using member
  have named : Ini.IsName "seed" := by decide
  exact ⟨named, solid_numeral _⟩

/-- What is saved is read as its entries. -/
theorem read_save (s : Settings) : Ini.read s.save = .ok s.saved := by
  have good : ∀ written ∈ [("loop", s.loopValues), ("runtime", s.runtimeValues)],
      Ini.IsName written.1 ∧ Ini.Writable written.2 := by
    have named : Ini.IsName "loop" ∧ Ini.IsName "runtime" := by decide
    simp [named, s.loopValues_writable, s.runtimeValues_writable]
  have read := Ini.read_sections good
  simpa [String.join, save, saved, loopValues, runtimeValues] using read

/-! ### reading the entries -/

/-- The saved file gives the value of a key of the loop. -/
theorem get?_loop (key : String) : Ini.get? s.saved "loop" key = s.loopValues.lookup key := by
  have once : (s.loopValues.map (·.1)).Nodup := by simp [loopValues]
  rw [saved, Ini.get?_append_left (by decide), Ini.get?_entries once]

theorem get?_runtime (key : String) : Ini.get? s.saved "runtime" key = s.runtimeValues.lookup key := by
  have once : (s.runtimeValues.map (·.1)).Nodup := by cases seeded : s.seed <;> simp [runtimeValues, seeded]
  rw [saved, Ini.get?_append_right (by decide), Ini.get?_entries once]

def doubles (s : Settings) : List Float := [s.tickMs, s.maxFrameMs, s.toastMs]

def singles (s : Settings) : List Float32 := [s.spriteWidth, s.spriteHeight]

/-- Every number among the settings is read as it is written. -/
structure Rereads (s : Settings) : Prop where
  doubles : ∀ x ∈ s.doubles, RereadsPlain x
  singles : ∀ x ∈ s.singles, RereadsPlain32 x

theorem rereads_of_finite (doubles : ∀ x ∈ s.doubles, x.isFinite = true → RereadsPlain x)
    (singles : ∀ x ∈ s.singles, x.isFinite = true → RereadsPlain32 x) : s.Rereads := by
  constructor
  · intro x member
    cases finite : x.isFinite with
    | true => exact doubles x member finite
    | false => exact rereadsPlain_infinite finite
  · intro x member
    cases finite : x.isFinite with
    | true => exact singles x member finite
    | false => exact rereadsPlain32_infinite finite

variable {ini : List IniEntry} {inSection key : String}

/-- A number that was written and reads back is what the file gives. -/
theorem number?_written {x : Float} (wrote : Ini.get? ini inSection key = some (plainText x))
    (rereads : RereadsPlain x) : number? ini inSection key = some x := by
  rw [number?, wrote, Option.bind_some]
  exact rereads

theorem positive?_written {x : Float} (wrote : Ini.get? ini inSection key = some (plainText x))
    (rereads : RereadsPlain x) (positive : 0 < x) : positive? ini inSection key = some x := by
  simp [positive?, number?_written wrote rereads, positive]

theorem narrow_written {x : Float32} (wrote : Ini.get? ini inSection key = some (plainText32 x))
    (rereads : RereadsPlain32 x) : (number? ini inSection key).map narrow = some x := by
  rw [number?, wrote, Option.bind_some]
  exact rereads

theorem word?_written {n : Nat} (wrote : Ini.get? ini inSection key = some (Numeral.ofInt n).text)
    (word : n < twoTo 64) : word? ini inSection key = some n := by
  rw [word?, wrote, Option.bind_some]
  exact readWord?_text word

theorem word?_seed (s : Settings) : (word? s.saved "runtime" "seed").map UInt64.ofNat = s.seed := by
  cases seeded : s.seed with
  | none =>
    have nothing : Ini.get? s.saved "runtime" "seed" = none := by simp [get?_runtime, runtimeValues, seeded]
    simp [word?, nothing]
  | some seed =>
    have wrote : Ini.get? s.saved "runtime" "seed" = some (Numeral.ofInt seed.toNat).text := by
      rw [get?_runtime, runtimeValues, seeded]
      rfl
    simp [word?_written wrote seed.toNat_lt]

/-- What was saved of usable settings is read over any others, of which only the seed may stay. -/
theorem apply_saved (usable : s.Usable) (rereads : s.Rereads) (t : Settings) :
    t.apply s.saved = { s with seed := s.seed.or t.seed } := by
  have tick : positive? s.saved "loop" "tick_ms" = some s.tickMs :=
    positive?_written (get?_loop _) (rereads.doubles _ (by simp [doubles])) usable.tick
  have maxFrame : positive? s.saved "loop" "max_frame_ms" = some s.maxFrameMs :=
    positive?_written (get?_loop _) (rereads.doubles _ (by simp [doubles])) usable.maxFrame
  have ticks : word? s.saved "loop" "max_ticks_per_frame" = some s.maxTicksPerFrame.toNat :=
    word?_written (get?_loop _) (Nat.lt_trans s.maxTicksPerFrame.toNat_lt (by decide))
  have width : (number? s.saved "runtime" "default_sprite_width").map narrow = some s.spriteWidth :=
    narrow_written (get?_runtime _) (rereads.singles _ (by simp [singles]))
  have height : (number? s.saved "runtime" "default_sprite_height").map narrow = some s.spriteHeight :=
    narrow_written (get?_runtime _) (rereads.singles _ (by simp [singles]))
  have toast : number? s.saved "runtime" "default_toast_ms" = some s.toastMs :=
    number?_written (get?_runtime _) (rereads.doubles _ (by simp [doubles]))
  have rounds : word? s.saved "runtime" "max_custom_event_rounds" = some s.maxRounds.toNat :=
    word?_written (get?_runtime _) (Nat.lt_trans s.maxRounds.toNat_lt (by decide))
  -- a count of none would be read as one
  have positive : ¬ s.maxTicksPerFrame = 0 := by
    intro none
    have positive := usable.maxTicks
    rw [none] at positive
    cases positive
  simp [apply, tick, maxFrame, ticks, positive, width, height, toast, rounds, word?_seed]

/-- What was saved is read over any settings, of which only the seed may stay. -/
theorem load_saved (usable : s.Usable) (rereads : s.Rereads) (t : Settings) :
    t.load s.save = .ok { s with seed := s.seed.or t.seed } := by
  rw [load, read_save, ← apply_saved usable rereads t]
  rfl

/-! ### settings that have been read -/

/-- Settings that come from the default ones by texts that are read and by a seed that is given. A text that
cannot be read leaves the settings as they are. -/
inductive Reached : Settings → Prop
  | default : Reached default
  | load {s t : Settings} {text : String} : Reached s → s.load text = .ok t → Reached t
  | seed {s : Settings} (seed : UInt64) : Reached s → Reached { s with seed := some seed }

/-- Settings that can be reached keep the bounds that loading checks. -/
theorem Reached.usable (reached : s.Reached) : s.Usable := by
  induction reached with
  | default => exact default_usable
  | load _ loaded usable => exact usable.load loaded
  | seed _ _ usable => exact ⟨usable.tick, usable.maxFrame, usable.maxTicks⟩

/-- Settings that have been read come back when they are saved and read again, over the default settings as well
as over themselves, provided that their finite numbers are read as they are written. -/
theorem saved_settings_reread (reached : s.Reached)
    (doubles : ∀ x ∈ s.doubles, x.isFinite = true → RereadsPlain x)
    (singles : ∀ x ∈ s.singles, x.isFinite = true → RereadsPlain32 x) :
    default.load s.save = .ok s ∧ s.load s.save = .ok s := by
  have rereads := rereads_of_finite doubles singles
  have unseeded : s.seed.or none = s.seed := Option.or_none
  have seeded : s.seed.or s.seed = s.seed := Option.or_self
  constructor
  · rw [load_saved reached.usable rereads]
    exact congrArg (fun seed => Except.ok { s with seed := seed }) unseeded
  · rw [load_saved reached.usable rereads, seeded]

/-- Endless frames of the most ticks and a sprite too wide for a single, toasts of no known length, no rounds of
events, and the greatest seed. -/
theorem saved_settings_reread_extreme :
    let paced : Settings :=
      { default with tickMs := 0.1, maxFrameMs := 1 / 0, maxTicksPerFrame := 4294967295 }
    let s : Settings :=
      { paced with spriteWidth := 1 / 0, toastMs := 0 / 0, maxRounds := 0, seed := some 18446744073709551615 }
    default.load "[loop]\ntick_ms = 1e-1\nmax_frame_ms = inf\nmax_ticks_per_frame = 4294967295" = .ok paced ∧
      paced.load ("[runtime]\ndefault_sprite_width = 1e300\ndefault_toast_ms = nan\n" ++
        "max_custom_event_rounds = 0\nseed = 18446744073709551615") = .ok s ∧
      default.load s.save = .ok s ∧ s.load s.save = .ok s := by
  intro paced s
  have first : default.load "[loop]\ntick_ms = 1e-1\nmax_frame_ms = inf\nmax_ticks_per_frame = 4294967295" =
      .ok paced := by decide +kernel
  have second : paced.load ("[runtime]\ndefault_sprite_width = 1e300\ndefault_toast_ms = nan\n" ++
      "max_custom_event_rounds = 0\nseed = 18446744073709551615") = .ok s := by decide +kernel
  have reached : s.Reached := .load (.load .default first) second
  exact ⟨first, second, saved_settings_reread reached (by decide +kernel) (by decide +kernel)⟩

end Settings

end Gameplay
