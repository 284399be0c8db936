import Mathlib.Data.List.Infix
import RecordFs.Shell.Permissions

/-! How permissions may be spelled. Octal digits are read to their value, bare or after the mark for them.
The mark may also be repeated and a plus sign may stand before the digits, and nothing else is read. -/
namespace RecordFs
open Nat (ofDigitChars)

namespace Text
variable {bound m n : Nat} {c : Char} {cs digits : List Char}

def Octal (c : Char) : Prop := '0' ≤ c ∧ c ≤ '7'

theorem Octal.ne_plus (h : Octal c) : c ≠ '+' := by
  rintro rfl
  exact absurd h.1 (by decide)

theorem Octal.ne_mark (h : Octal c) : c ≠ 'o' := by
  rintro rfl
  exact absurd h.2 (by decide)

theorem digit?_of_octal (h : Octal c) : digit? 8 c = some (c.toNat - '0'.toNat) := by
  have seven : c.toNat ≤ 55 := h.2
  have nine : '0' ≤ c ∧ c ≤ '9' := ⟨h.1, Nat.le_trans seven (by decide : 55 ≤ 57)⟩
  have small : c.toNat - 48 < 8 := by omega
  simp only [digit?, if_pos nine]
  exact if_pos small

theorem digit?_of_not_octal (h : ¬ Octal c) : digit? 8 c = none := by
  have apart : '0' ≤ c → 55 < c.toNat := fun zero => Nat.lt_of_not_le fun seven => h ⟨zero, seven⟩
  rw [digit?]
  refine if_neg (Nat.not_lt.mpr ?_)
  split
  · rename_i digit
    have := apart digit.1
    change 8 ≤ c.toNat - 48
    omega
  · split <;> [skip; split] <;> omega

theorem le_ofDigitChars (cs : List Char) (n : Nat) : n ≤ ofDigitChars 8 cs n := by
  induction cs generalizing n with
  | nil => rw [Nat.ofDigitChars_nil]
  | cons c cs ih =>
    rw [Nat.ofDigitChars_cons]
    exact (by omega : n ≤ 8 * n + (c.toNat - '0'.toNat)).trans (ih _)

/-- One digit more, and all digits before it have stayed below the bound. -/
theorem readDigits_cons (h : Octal c) : readDigits 8 bound (c :: cs) n =
    if ofDigitChars 8 [c] n < bound then readDigits 8 bound cs (ofDigitChars 8 [c] n) else .error .tooLarge := by
  rw [readDigits, digit?_of_octal h, Nat.ofDigitChars_cons, Nat.ofDigitChars_nil, Nat.mul_comm 8 n]

theorem readDigits_cons_of_not_octal (h : ¬ Octal c) : readDigits 8 bound (c :: cs) n = .error .badDigit := by
  rw [readDigits, digit?_of_not_octal h]

theorem readDigits_eq_ok (small : n < bound) : readDigits 8 bound cs n = .ok m ↔
    (∀ c ∈ cs, Octal c) ∧ ofDigitChars 8 cs n = m ∧ m < bound := by
  induction cs generalizing n with
  | nil =>
    rw [readDigits, Except.ok.injEq, Nat.ofDigitChars_nil]
    exact ⟨fun same => ⟨nofun, same, same ▸ small⟩, fun ⟨_, same, _⟩ => same⟩
  | cons c cs ih =>
    by_cases octal : Octal c
    · rw [readDigits_cons octal, List.forall_mem_cons, ← List.singleton_append, Nat.ofDigitChars_append]
      split
      · rename_i fits
        rw [ih fits]
        exact ⟨fun ⟨all, value⟩ => ⟨⟨octal, all⟩, value⟩, fun ⟨⟨_, all⟩, value⟩ => ⟨all, value⟩⟩
      · rename_i large
        refine iff_of_false nofun fun ⟨_, same, below⟩ => large ?_
        exact (le_ofDigitChars cs _).trans_lt (same ▸ below)
    · rw [readDigits_cons_of_not_octal octal, List.forall_mem_cons]
      exact iff_of_false nofun fun ⟨⟨here, _⟩, _⟩ => octal here

/-- The first digits already come to the bound, whatever follows them. -/
def Exceeds (bound : Nat) (cs : List Char) (n : Nat) : Prop :=
  ∃ digits rest, cs = digits ++ rest ∧ (∀ c ∈ digits, Octal c) ∧ bound ≤ ofDigitChars 8 digits n

theorem not_exceeds_nil (small : n < bound) : ¬ Exceeds bound [] n := by
  rintro ⟨digits, rest, none, _, large⟩
  rw [(List.append_eq_nil_iff.mp none.symm).1, Nat.ofDigitChars_nil] at large
  exact Nat.not_lt.mpr large small

theorem exceeds_cons (small : n < bound) :
    Exceeds bound (c :: cs) n ↔ Octal c ∧ Exceeds bound cs (ofDigitChars 8 [c] n) := by
  constructor
  · rintro ⟨_ | ⟨d, digits⟩, rest, cut, all, large⟩
    · exact absurd small (Nat.not_lt.mpr large)
    · obtain ⟨rfl, rfl⟩ := List.cons_eq_cons.mp cut
      rw [List.forall_mem_cons] at all
      exact ⟨all.1, digits, rest, rfl, all.2, large⟩
  · rintro ⟨octal, digits, rest, rfl, all, large⟩
    exact ⟨c :: digits, rest, rfl, List.forall_mem_cons.mpr ⟨octal, all⟩, large⟩

theorem readDigits_eq_tooLarge (small : n < bound) :
    readDigits 8 bound cs n = .error .tooLarge ↔ Exceeds bound cs n := by
  induction cs generalizing n with
  | nil => exact iff_of_false nofun (not_exceeds_nil small)
  | cons c cs ih =>
    rw [exceeds_cons small]
    by_cases octal : Octal c
    · rw [readDigits_cons octal, and_iff_right octal]
      split
      · rename_i fits
        exact ih fits
      · rename_i large
        exact iff_of_true rfl ⟨[], cs, rfl, nofun, Nat.not_lt.mp large⟩
    · rw [readDigits_cons_of_not_octal octal]
      exact iff_of_false nofun fun ⟨here, _⟩ => octal here

theorem readDigits_ne_empty : readDigits 8 bound cs n ≠ .error .empty := by
  induction cs generalizing n with
  | nil => exact nofun
  | cons c cs ih =>
    by_cases octal : Octal c
    · rw [readDigits_cons octal]
      split
      · exact ih
      · exact nofun
    · rw [readDigits_cons_of_not_octal octal]
      exact nofun

/-- What is left after at most one plus sign. -/
def afterPlus : List Char → List Char
  | '+' :: cs => cs
  | cs => cs

theorem afterPlus_of_not (h : ¬ ['+'] <+: cs) : afterPlus cs = cs := by
  rw [afterPlus]
  rintro rest rfl
  exact h ⟨rest, rfl⟩

theorem eq_afterPlus (cs : List Char) : cs = afterPlus cs ∨ cs = '+' :: afterPlus cs := by
  fun_cases afterPlus cs with
  | case1 cs => exact .inr rfl
  | case2 => exact .inl rfl

theorem readNumber_ofList (base bound : Nat) (cs : List Char) : readNumber base bound (String.ofList cs) =
    if cs = [] then .error .empty else if afterPlus cs = [] then .error .badDigit
    else readDigits base bound (afterPlus cs) 0 := by
  rw [readNumber, String.toList_ofList]
  split <;> simp_all [afterPlus]

theorem readNumber_eq_ok (pos : 0 < bound) : readNumber 8 bound (String.ofList cs) = .ok n ↔
    afterPlus cs ≠ [] ∧ (∀ c ∈ afterPlus cs, Octal c) ∧ ofDigitChars 8 (afterPlus cs) 0 = n ∧ n < bound := by
  rw [readNumber_ofList]
  split
  · rename_i none
    refine iff_of_false nofun fun ⟨nonempty, _⟩ => nonempty ?_
    rw [none]
    rfl
  · split
    · rename_i none
      exact iff_of_false nofun fun ⟨nonempty, _⟩ => nonempty none
    · rename_i nonempty
      rw [readDigits_eq_ok pos, and_iff_right nonempty]

theorem readNumber_eq_tooLarge (pos : 0 < bound) :
    readNumber 8 bound (String.ofList cs) = .error .tooLarge ↔ Exceeds bound (afterPlus cs) 0 := by
  rw [readNumber_ofList]
  split
  · rename_i none
    rw [none]
    exact iff_of_false nofun (not_exceeds_nil pos)
  · split
    · rename_i none
      rw [none]
      exact iff_of_false nofun (not_exceeds_nil pos)
    · exact readDigits_eq_tooLarge pos

theorem readNumber_eq_empty : readNumber 8 bound (String.ofList cs) = .error .empty ↔ cs = [] := by
  rw [readNumber_ofList]
  split
  · rename_i none
    exact iff_of_true rfl none
  · rename_i nonempty
    split
    · exact iff_of_false nofun nonempty
    · exact iff_of_false readDigits_ne_empty nonempty

end Text

namespace Shell.Permissions
open Text (Octal afterPlus readDigits)
variable {cs digits start text : List Char} {k n : Nat} {mode : UInt32}

/-- The mark for octal digits, so many times. -/
def marks (k : Nat) : List Char := (List.replicate k ['0', 'o']).flatten

/-- What the digits are documented to stand after. -/
def Marked (start : List Char) : Prop := start = [] ∨ start = ['0', 'o']

/-- What the digits may stand after. -/
def Led (start : List Char) : Prop := ∃ k, start = marks k ∨ start = marks k ++ ['+']

/-- One octal digit or more with this value stand after such a start. -/
def Spelled (Start : List Char → Prop) (text : String) (n : Nat) : Prop :=
  ∃ start digits, Start start ∧ text.toList = start ++ digits ∧ digits ≠ [] ∧ (∀ c ∈ digits, Octal c) ∧
    ofDigitChars 8 digits 0 = n

theorem Marked.led (h : Marked start) : Led start := by
  rcases h with rfl | rfl
  · exact ⟨0, .inl rfl⟩
  · exact ⟨1, .inl rfl⟩

theorem Spelled.led {text : String} (h : Spelled Marked text n) : Spelled Led text n := by
  obtain ⟨start, digits, marked, same, spelled⟩ := h
  exact ⟨start, digits, marked.led, same, spelled⟩

theorem afterMarks_of_not (h : ¬ ['0', 'o'] <+: cs) : afterMarks cs = cs := by
  rw [afterMarks]
  rintro rest rfl
  exact h ⟨rest, rfl⟩

theorem afterMarks_marks (k : Nat) (h : ¬ ['0', 'o'] <+: cs) : afterMarks (marks k ++ cs) = cs := by
  induction k with
  | zero => exact afterMarks_of_not h
  | succ k ih => exact ih

theorem exists_marks (cs : List Char) : ∃ k, cs = marks k ++ afterMarks cs := by
  fun_induction afterMarks cs with
  | case1 cs ih =>
    obtain ⟨k, same⟩ := ih
    exact ⟨k + 1, congrArg (['0', 'o'] ++ ·) same⟩
  | case2 cs => exact ⟨0, rfl⟩

/-- A start is taken off what does not begin like one. -/
theorem led_iff (unmarked : ¬ ['0', 'o'] <+: cs) (unsigned : ¬ ['+'] <+: cs) :
    (∃ start, Led start ∧ text = start ++ cs) ↔ afterPlus (afterMarks text) = cs := by
  constructor
  · rintro ⟨_, ⟨k, rfl | rfl⟩, rfl⟩
    · rw [afterMarks_marks k unmarked, Text.afterPlus_of_not unsigned]
    · rw [List.append_assoc, afterMarks_marks k (by simp)]
      rfl
  · rintro rfl
    obtain ⟨k, same⟩ := exists_marks text
    rcases Text.eq_afterPlus (afterMarks text) with bare | signed
    · exact ⟨marks k, ⟨k, .inl rfl⟩, bare ▸ same⟩
    · refine ⟨marks k ++ ['+'], ⟨k, .inr rfl⟩, ?_⟩
      rw [List.append_assoc, List.singleton_append, ← signed]
      exact same

theorem not_marked_of_octal (octal : ∀ c ∈ digits, Octal c) : ¬ ['0', 'o'] <+: digits := fun marked =>
  (octal 'o' (marked.subset (by simp))).ne_mark rfl

theorem not_signed_of_octal (octal : ∀ c ∈ digits, Octal c) : ¬ ['+'] <+: digits := fun signed =>
  (octal '+' (signed.subset (by simp))).ne_plus rfl

/-- It takes more digits than a start has letters, so what comes to so much does not begin like a start. -/
theorem begins_of_exceeds (large : Text.Exceeds UInt32.size cs 0) : ¬ ['0', 'o'] <+: cs ∧ ¬ ['+'] <+: cs := by
  obtain ⟨digits, rest, rfl, octal, large⟩ := large
  have long : 2 ≤ digits.length := by
    rcases digits with _ | ⟨c, _ | ⟨d, digits⟩⟩
    · exact absurd large (by decide)
    · have seven : c.toNat ≤ 55 := (octal c List.mem_cons_self).2
      have value : ofDigitChars 8 [c] 0 = c.toNat - 48 := Nat.zero_add _
      have size : UInt32.size = 4294967296 := rfl
      omega
    · exact Nat.le_add_left 2 _
  have there := List.prefix_append digits rest
  exact ⟨fun marked => not_marked_of_octal octal (List.prefix_of_prefix_length_le marked there long),
    fun signed => not_signed_of_octal octal (List.prefix_of_prefix_length_le signed there (Nat.le_of_succ_le long))⟩

/-- The number that is then looked at. -/
def number (text : String) : Except Text.NumberFailure Nat :=
  Text.readNumber 8 UInt32.size (String.ofList (afterMarks text.toList))

theorem number_eq_ok {text : String} : number text = .ok n ↔ Spelled Led text n ∧ n < UInt32.size := by
  rw [number, Text.readNumber_eq_ok (by decide)]
  constructor
  · rintro ⟨nonempty, octal, value, fits⟩
    obtain ⟨start, led, same⟩ := (led_iff (not_marked_of_octal octal) (not_signed_of_octal octal)).mpr rfl
    exact ⟨⟨start, _, led, same, nonempty, octal, value⟩, fits⟩
  · rintro ⟨⟨start, digits, led, same, nonempty, octal, value⟩, fits⟩
    rw [(led_iff (not_marked_of_octal octal) (not_signed_of_octal octal)).mp ⟨start, led, same⟩]
    exact ⟨nonempty, octal, value, fits⟩

theorem number_eq_tooLarge {text : String} : number text = .error .tooLarge ↔
    ∃ start cs, Led start ∧ text.toList = start ++ cs ∧ Text.Exceeds UInt32.size cs 0 := by
  rw [number, Text.readNumber_eq_tooLarge (by decide)]
  constructor
  · intro large
    obtain ⟨unmarked, unsigned⟩ := begins_of_exceeds large
    obtain ⟨start, led, same⟩ := (led_iff unmarked unsigned).mpr rfl
    exact ⟨start, _, led, same, large⟩
  · rintro ⟨start, cs, led, same, large⟩
    obtain ⟨unmarked, unsigned⟩ := begins_of_exceeds large
    rwa [(led_iff unmarked unsigned).mp ⟨start, led, same⟩]

theorem number_eq_empty {text : String} : number text = .error .empty ↔ ∃ k, text.toList = marks k := by
  rw [number, Text.readNumber_eq_empty]
  constructor
  · intro none
    obtain ⟨k, same⟩ := exists_marks text.toList
    exact ⟨k, by rw [same, none, List.append_nil]⟩
  · rintro ⟨k, same⟩
    rw [same, ← List.append_nil (marks k)]
    exact afterMarks_marks k (by simp)

theorem read_eq (text : String) : read text = match number text with
    | .error why => .error (.notANumber text why)
    | .ok n => if n ≤ 0o7777 then .ok (UInt32.ofNat n) else .error (.outOfRange text) := rfl

theorem read_eq_ok {text : String} : read text = .ok mode ↔ number text = .ok mode.toNat ∧ mode.toNat ≤ 0o7777 := by
  rw [read_eq]
  cases number text with
  | error why => exact iff_of_false nofun nofun
  | ok n =>
    change (if _ then _ else _) = _ ↔ _
    rw [Except.ok.injEq]
    split
    · rename_i small
      have fits : n < UInt32.size := Nat.lt_of_le_of_lt small (by decide)
      rw [Except.ok.injEq]
      constructor
      · rintro rfl
        rw [UInt32.toNat_ofNat_of_lt' fits]
        exact ⟨rfl, small⟩
      · rintro ⟨rfl, _⟩
        exact UInt32.ofNat_toNat
    · rename_i large
      exact iff_of_false nofun fun ⟨same, small⟩ => large (same ▸ small)

theorem read_eq_error {text : String} {why : Text.NumberFailure} :
    read text = .error (.notANumber text why) ↔ number text = .error why := by
  rw [read_eq]
  cases number text with
  | error other => simp
  | ok n =>
    change (if _ then _ else _) = _ ↔ _
    split <;> simp

theorem read_eq_outOfRange {text : String} :
    read text = .error (.outOfRange text) ↔ ∃ n, number text = .ok n ∧ 0o7777 < n := by
  rw [read_eq]
  cases number text with
  | error other => simp
  | ok n =>
    change (if _ then _ else _) = _ ↔ _
    split <;> simp <;> omega

theorem toNat_ofNat {n : Nat} (small : n ≤ 0o7777) : (UInt32.ofNat n).toNat = n :=
  UInt32.toNat_ofNat_of_lt' (Nat.lt_of_le_of_lt small (by decide))

theorem read_iff_spelled {text : String} :
    read text = .ok mode ↔ Spelled Led text mode.toNat ∧ mode.toNat ≤ 0o7777 := by
  rw [read_eq_ok, number_eq_ok, and_iff_left mode.toNat_lt]

theorem failure_of_read {text : String} {f : Failure} (failed : read text = .error f) :
    f = .outOfRange text ∨ ∃ why, f = .notANumber text why := by
  rw [read_eq] at failed
  split at failed
  · cases failed
    exact .inr ⟨_, rfl⟩
  · split at failed
    · cases failed
    · cases failed
      exact .inl rfl

/-- What is documented nowhere, and read if digits follow: a second mark, or a sign. -/
def Slips (text : String) : Prop := ∃ slip ∈ ["0o0o", "0o+", "+"], slip.toList <+: text.toList

theorem spelled_marked_of_led {text : String} (strict : ¬ Slips text) (spelled : Spelled Led text n) :
    Spelled Marked text n := by
  obtain ⟨start, digits, ⟨k, led⟩, same, spelled⟩ := spelled
  have apart (slip : String) (member : slip ∈ ["0o0o", "0o+", "+"]) : ¬ slip.toList <+: start := fun begins =>
    strict ⟨slip, member, same ▸ begins.trans (List.prefix_append start digits)⟩
  refine ⟨start, digits, ?_, same, spelled⟩
  rcases k with _ | _ | k
  · rcases led with rfl | rfl
    · exact .inl rfl
    · exact absurd ⟨[], rfl⟩ (apart "+" (by decide))
  · rcases led with rfl | rfl
    · exact .inr rfl
    · exact absurd ⟨[], rfl⟩ (apart "0o+" (by decide))
  · rcases led with rfl | rfl
    · exact absurd ⟨marks k, rfl⟩ (apart "0o0o" (by decide))
    · exact absurd ⟨marks k ++ ['+'], rfl⟩ (apart "0o0o" (by decide))

theorem Slips.not_spelled {text : String} (slips : Slips text) : ¬ Spelled Marked text n := by
  rintro ⟨start, digits, marked, same, _, octal, _⟩
  obtain ⟨slip, member, begins⟩ := slips
  have kinds : slip = "0o0o" ∨ slip = "0o+" ∨ slip = "+" := by simpa using member
  rw [same] at begins
  rcases marked with rfl | rfl
  · rcases kinds with rfl | rfl | rfl
    · exact (octal 'o' (begins.subset (by decide))).ne_mark rfl
    · exact (octal 'o' (begins.subset (by decide))).ne_mark rfl
    · exact not_signed_of_octal octal begins
  · rcases kinds with rfl | rfl | rfl
    · exact not_marked_of_octal octal ((List.prefix_append_right_inj ['0', 'o']).mp begins)
    · exact not_signed_of_octal octal ((List.prefix_append_right_inj ['0', 'o']).mp begins)
    · exact absurd (List.cons_prefix_cons.mp begins).1 (by decide)

/-- What is documented is all that is read, unless the text begins with a slip and digits follow. -/
theorem meets_iff (text : String) :
    (∀ mode, read text = .ok mode ↔ Spelled Marked text mode.toNat ∧ mode.toNat ≤ 0o7777) ↔
      ¬ (Slips text ∧ ∃ n ≤ 0o7777, Spelled Led text n) := by
  constructor
  · rintro meets ⟨slips, n, small, spelled⟩
    have accepted : read text = .ok (UInt32.ofNat n) := by
      rw [read_iff_spelled, toNat_ofNat small]
      exact ⟨spelled, small⟩
    exact slips.not_spelled ((meets _).mp accepted).1
  · intro strict mode
    rw [read_iff_spelled]
    constructor
    · rintro ⟨spelled, small⟩
      exact ⟨spelled_marked_of_led (fun slips => strict ⟨slips, _, small, spelled⟩) spelled, small⟩
    · rintro ⟨spelled, small⟩
      exact ⟨spelled.led, small⟩

/-- What is read of a text, and what is told of one that is not read. -/
structure OctalLaws (text : String) : Prop where
  ok (mode : UInt32) : read text = .ok mode ↔ Spelled Led text mode.toNat ∧ mode.toNat ≤ 0o7777
  /-- What is documented is read to its value. -/
  documented (n : Nat) : Spelled Marked text n → n ≤ 0o7777 → read text = .ok (UInt32.ofNat n)
  /-- Nothing else is read, but for the slips. -/
  meets : (∀ mode, read text = .ok mode ↔ Spelled Marked text mode.toNat ∧ mode.toNat ≤ 0o7777) ↔
    ¬ (Slips text ∧ ∃ n ≤ 0o7777, Spelled Led text n)
  outOfRange : read text = .error (.outOfRange text) ↔ ∃ n, Spelled Led text n ∧ 0o7777 < n ∧ n < UInt32.size
  /-- A value of more than 32 bits is found too large before the digits end. -/
  tooLarge : read text = .error (.notANumber text .tooLarge) ↔
    ∃ start cs, Led start ∧ text.toList = start ++ cs ∧ Text.Exceeds UInt32.size cs 0
  empty : read text = .error (.notANumber text .empty) ↔ ∃ k, text.toList = marks k
  /-- Every failure names the text. -/
  named (f : Failure) : read text = .error f → f = .outOfRange text ∨ ∃ why, f = .notANumber text why

theorem octalLaws (text : String) : OctalLaws text where
  ok _ := read_iff_spelled
  documented n spelled small := by
    rw [read_iff_spelled, toNat_ofNat small]
    exact ⟨spelled.led, small⟩
  meets := meets_iff text
  outOfRange := by
    rw [read_eq_outOfRange]
    simp only [number_eq_ok, and_assoc, and_comm]
  tooLarge := by rw [read_eq_error, number_eq_tooLarge]
  empty := by rw [read_eq_error, number_eq_empty]
  named _ := failure_of_read

example : read "0o0o+17" = .ok 0o17 := by decide

end Shell.Permissions
end RecordFs
