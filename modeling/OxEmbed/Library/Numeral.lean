import Mathlib.Data.Nat.Digits.Defs
import Mathlib.Tactic.IntervalCases
import OxEmbed.Library.Text

/-!
# Decimal numerals

A text of decimal digits stands for a number. A parser of unsigned numbers reads the digits from
the left and stops when the value is too large; it accepts the numerals, with a sign in front or
without, of the numbers up to its bound.

## Main definitions

* `IsNumeral`, `numeral` : the texts of digits, and what they stand for.
* `DenotesNumber` : the texts that a parser reads as a number.

## Main results

* `parseDigits_eq_ok_iff`, `parseUnsigned_eq_ok_iff` : what the parsers accept.
* `parseUnsigned_toString` : reading a printed number gives it back.
-/

namespace OxEmbed.Text

/-- The value of a character, as a digit. -/
def digitValue (c : Char) : ℕ := (digit c).getD 0

/-- A decimal digit. -/
def isDigit (c : Char) : Bool := (digit c).isSome

/-- At least one digit, and nothing but digits. -/
def IsNumeral (digits : List Char) : Prop := digits ≠ [] ∧ ∀ c ∈ digits, isDigit c

/-- The number that the digits stand for, the last digit being the units. -/
def numeral (digits : List Char) : ℕ := Nat.ofDigits 10 (digits.reverse.map digitValue)

variable {bound n : ℕ} {done digits : List Char} {s : String}

@[simp] theorem numeral_nil : numeral [] = 0 := rfl

theorem numeral_concat (done : List Char) (c : Char) :
    numeral (done ++ [c]) = numeral done * 10 + digitValue c := by
  rw [numeral, List.reverse_concat, List.map_cons, Nat.ofDigits_cons, numeral]
  omega

theorem numeral_le_append (done rest : List Char) : numeral done ≤ numeral (done ++ rest) := by
  induction rest generalizing done with
  | nil => rw [List.append_nil]
  | cons c rest ih =>
    have hstep : numeral done ≤ numeral (done ++ [c]) := by
      rw [numeral_concat]
      omega
    rw [List.append_cons]
    exact hstep.trans (ih (done ++ [c]))

/-- **Reading on from the value of the digits that are done.** -/
theorem parseDigits_eq_ok_iff (hdone : numeral done ≤ bound) :
    parseDigits bound (numeral done) digits = .ok n ↔
      (∀ c ∈ digits, isDigit c) ∧ numeral (done ++ digits) = n ∧ n ≤ bound := by
  induction digits generalizing done with
  | nil =>
    rw [parseDigits, List.append_nil, Except.ok.injEq]
    constructor
    · rintro rfl
      exact ⟨by simp, rfl, hdone⟩
    · rintro ⟨-, rfl, -⟩
      rfl
  | cons c digits ih =>
    rw [parseDigits]
    cases hc : digit c with
    | none =>
      refine ⟨fun h => (nomatch h), fun ⟨hall, _⟩ => ?_⟩
      have hdigit := hall c List.mem_cons_self
      rw [isDigit, hc] at hdigit
      exact absurd hdigit (by decide)
    | some d =>
      have hvalue : numeral done * 10 + d = numeral (done ++ [c]) := by
        rw [numeral_concat, digitValue, hc, Option.getD_some]
      have hdigit : isDigit c = true := by rw [isDigit, hc, Option.isSome_some]
      rw [List.append_cons]
      dsimp only
      rw [hvalue]
      split
      next hover =>
        refine ⟨fun h => (nomatch h), fun ⟨_, hn, hle⟩ => ?_⟩
        have hprefix := numeral_le_append (done ++ [c]) digits
        omega
      next hfits =>
        rw [ih (not_lt.1 hfits), List.forall_mem_cons]
        exact ⟨fun ⟨hall, h⟩ => ⟨⟨hdigit, hall⟩, h⟩, fun ⟨⟨_, hall⟩, h⟩ => ⟨hall, h⟩⟩

/-- **A parser of unsigned numbers accepts the numerals of the numbers of its type**, with a plus
sign in front or without. -/
theorem parseUnsigned_eq_ok_iff :
    parseUnsigned bound s = .ok n ↔
      ∃ digits, (s.toList = digits ∨ s.toList = '+' :: digits) ∧ IsNumeral digits ∧
        numeral digits = n ∧ n ≤ bound := by
  have hread (digits : List Char) :
      parseDigits bound 0 digits = .ok n ↔
        (∀ c ∈ digits, isDigit c) ∧ numeral digits = n ∧ n ≤ bound := by
    have h : parseDigits bound (numeral []) digits = .ok n ↔ _ :=
      parseDigits_eq_ok_iff (Nat.zero_le bound)
    rwa [numeral_nil, List.nil_append] at h
  have hsign {digits : List Char} : ¬ IsNumeral ('+' :: digits) := fun h =>
    absurd (h.2 '+' List.mem_cons_self) (by decide)
  rw [parseUnsigned]
  split
  next hs =>
    refine ⟨fun h => (nomatch h), ?_⟩
    rintro ⟨digits, heq | heq, hnum, -⟩
    · exact absurd (heq.symm.trans hs) hnum.1
    · rw [hs] at heq
      exact (nomatch heq)
  next hs =>
    refine ⟨fun h => (nomatch h), ?_⟩
    rintro ⟨digits, heq | heq, hnum, -⟩
    · rw [hs] at heq
      subst heq
      exact absurd hnum hsign
    · rw [hs] at heq
      exact absurd (List.cons.inj heq).2.symm hnum.1
  next digits hne hs =>
    rw [hread]
    constructor
    · rintro ⟨hall, hn⟩
      exact ⟨digits, .inr hs, ⟨hne, hall⟩, hn⟩
    · rintro ⟨digits', heq | heq, hnum, hn⟩
      · rw [hs] at heq
        subst heq
        exact absurd hnum hsign
      · rw [hs] at heq
        obtain rfl := (List.cons.inj heq).2
        exact ⟨hnum.2, hn⟩
  next digits hne hone hplus =>
    rw [hread]
    constructor
    · rintro ⟨hall, hn⟩
      exact ⟨s.toList, .inl rfl, ⟨hne, hall⟩, hn⟩
    · rintro ⟨digits', heq | heq, hnum, hn⟩
      · rw [heq]
        exact ⟨hnum.2, hn⟩
      · exact absurd heq (hplus _)

/-- The text is a numeral of the number, which is within the bound. -/
def DenotesNumber (bound : ℕ) (s : String) (n : ℕ) : Prop :=
  ∃ digits, (s.toList = digits ∨ s.toList = '+' :: digits) ∧ IsNumeral digits ∧
    numeral digits = n ∧ n ≤ bound

theorem parseUnsigned_eq_ok_iff_denotesNumber :
    parseUnsigned bound s = .ok n ↔ DenotesNumber bound s n :=
  parseUnsigned_eq_ok_iff

theorem DenotesNumber.le (h : DenotesNumber bound s n) : n ≤ bound := by
  obtain ⟨_, _, _, _, hle⟩ := h
  exact hle

/-! ### Printing -/

theorem digit_digitChar {d : ℕ} (hd : d < 10) : digit d.digitChar = some d := by
  interval_cases d <;> rfl

/-- The decimal digits of a number stand for it. -/
theorem isNumeral_toDigits (n : ℕ) :
    IsNumeral (Nat.toDigits 10 n) ∧ numeral (Nat.toDigits 10 n) = n := by
  induction n using Nat.strongRecOn with
  | ind n ih =>
    have hlast (done : List Char) (hdone : ∀ c ∈ done, isDigit c) :
        (∀ c ∈ done ++ [(n % 10).digitChar], isDigit c) ∧
          numeral (done ++ [(n % 10).digitChar]) = numeral done * 10 + n % 10 := by
      have hdigit := digit_digitChar (Nat.mod_lt n (by omega))
      refine ⟨fun c hc => ?_, by rw [numeral_concat, digitValue, hdigit, Option.getD_some]⟩
      rcases List.mem_append.1 hc with hc | hc
      · exact hdone c hc
      · rw [List.mem_singleton.1 hc, isDigit, hdigit, Option.isSome_some]
    by_cases hn : n < 10
    · obtain ⟨hall, hvalue⟩ := hlast [] (by simp)
      rw [Nat.mod_eq_of_lt hn] at hall hvalue
      rw [Nat.toDigits_of_lt_base hn]
      exact ⟨⟨List.cons_ne_nil _ _, hall⟩, by simpa using hvalue⟩
    · obtain ⟨⟨-, hdigits⟩, hdone⟩ := ih (n / 10) (by omega)
      obtain ⟨hall, hvalue⟩ := hlast _ hdigits
      rw [Nat.toDigits_of_base_le (by omega) (by omega)]
      refine ⟨⟨List.append_ne_nil_of_right_ne_nil _ (List.cons_ne_nil _ _), hall⟩, ?_⟩
      rw [hvalue, hdone]
      omega

/-- **Reading a printed number gives it back.** -/
theorem parseUnsigned_toString (h : n ≤ bound) : parseUnsigned bound (toString n) = .ok n := by
  obtain ⟨hnumeral, hvalue⟩ := isNumeral_toDigits n
  refine parseUnsigned_eq_ok_iff.2 ⟨Nat.toDigits 10 n, .inl ?_, hnumeral, hvalue, h⟩
  rw [Nat.toString_eq_ofList_toDigits, String.toList_ofList]

/-- The characters of a printed number are digits. -/
theorem isDigit_of_mem_toString {c : Char} (h : c ∈ (toString n).toList) : isDigit c := by
  obtain ⟨⟨-, hdigits⟩, -⟩ := isNumeral_toDigits n
  rw [Nat.toString_eq_ofList_toDigits, String.toList_ofList] at h
  exact hdigits c h

theorem denotesNumber_toString (h : n ≤ bound) : DenotesNumber bound (toString n) n :=
  parseUnsigned_eq_ok_iff_denotesNumber.1 (parseUnsigned_toString h)

theorem not_isWhiteSpace_of_isDigit {c : Char} (h : isDigit c) : isWhiteSpace c = false := by
  have hrange : 0x30 ≤ c.toNat ∧ c.toNat ≤ 0x39 := by
    by_contra hc
    rw [isDigit, digit, if_neg hc] at h
    exact Bool.false_ne_true h
  simp only [isWhiteSpace, Bool.or_eq_false_iff, Bool.and_eq_false_iff, decide_eq_false_iff_not,
    beq_eq_false_iff_ne]
  omega

theorem trimmedEnd_toString : TrimmedEnd (toString n) := fun _ hc =>
  not_isWhiteSpace_of_isDigit (isDigit_of_mem_toString (List.mem_of_getLast? hc))

theorem toString_ne_empty : toString n ≠ "" := by
  intro h
  obtain ⟨⟨hne, -⟩, -⟩ := isNumeral_toDigits n
  rw [Nat.toString_eq_ofList_toDigits, ← String.toList_inj, String.toList_ofList] at h
  exact hne h

/-- A printed number has no white space around it. -/
theorem trim_toString : trim (toString n) = toString n :=
  trim_eq_self (fun _ hc => not_isWhiteSpace_of_isDigit
    (isDigit_of_mem_toString (List.mem_of_head? hc))) trimmedEnd_toString

end OxEmbed.Text
