import TableIntake.Lexical

namespace TableIntake.Lexical

open TableIntake.Grammar
open TableIntake.Text

/-! The forms of literals as a grammar gives them, and the scanners that decide them. -/

inductive Sign : List Char → Prop where
  | none : Sign []
  | plus : Sign ['+']
  | minus : Sign ['-']

def Digits (cs : List Char) : Prop :=
  cs ≠ [] ∧ ∀ c ∈ cs, c.isDigit = true

inductive Mantissa : List Char → Prop where
  | whole {digits : List Char} : Digits digits → Mantissa digits
  | point {digits places : List Char} : Digits digits → (∀ c ∈ places, c.isDigit = true) →
      Mantissa (digits ++ '.' :: places)
  | places {digits : List Char} : Digits digits → Mantissa ('.' :: digits)

inductive Exponent : List Char → Prop where
  | none : Exponent []
  | power {mark : Char} {sign digits : List Char} : mark = 'e' ∨ mark = 'E' → Sign sign →
      Digits digits → Exponent (mark :: (sign ++ digits))

def IntegerForm (cs : List Char) : Prop :=
  ∃ sign digits, Sign sign ∧ Digits digits ∧ cs = sign ++ digits

def NumberForm (cs : List Char) : Prop :=
  ∃ sign mantissa exponent, Sign sign ∧ Mantissa mantissa ∧ Exponent exponent ∧
    cs = sign ++ (mantissa ++ exponent)

/-- What the cells of a column of a type look like. -/
def HasForm : DataType → List Char → Prop
  | .string, _ => True
  | .number, cs => NumberForm cs
  | .integer, cs => IntegerForm cs

/-- A number needs neither a point nor an exponent. -/
theorem IntegerForm.numberForm {cs : List Char} (h : IntegerForm cs) : NumberForm cs := by
  obtain ⟨sign, digits, hsign, hdigits, heq⟩ := h
  exact ⟨sign, digits, [], hsign, .whole hdigits, .none, by rw [heq, List.append_nil]⟩

theorem isDigits_iff {cs : List Char} : isDigits cs = true ↔ Digits cs := by
  simp [isDigits, Digits]

/-- The sign that is dropped is one, and there is none behind it that could be dropped instead. -/
theorem sign_append_dropSign (cs : List Char) : ∃ sign, Sign sign ∧ cs = sign ++ dropSign cs := by
  unfold dropSign
  split
  case h_1 rest => exact ⟨['+'], .plus, rfl⟩
  case h_2 rest => exact ⟨['-'], .minus, rfl⟩
  case h_3 => exact ⟨[], .none, rfl⟩

theorem dropSign_append {sign rest : List Char} (hsign : Sign sign)
    (hplus : rest.head? ≠ some '+') (hminus : rest.head? ≠ some '-') :
    dropSign (sign ++ rest) = rest := by
  cases hsign with
  | plus => rfl
  | minus => rfl
  | none =>
      cases rest with
      | nil => rfl
      | cons c rest =>
          rw [List.nil_append, dropSign]
          · rintro _ heq
            cases heq
            exact hplus rfl
          · rintro _ heq
            cases heq
            exact hminus rfl

namespace Digits

variable {cs rest : List Char}

theorem head (h : Digits cs) : ∃ c tail, cs = c :: tail ∧ c.isDigit = true := by
  obtain ⟨hne, hall⟩ := h
  cases cs with
  | nil => exact absurd rfl hne
  | cons c tail => exact ⟨c, tail, rfl, hall c List.mem_cons_self⟩

/-- Digits begin with no sign. -/
theorem dropSign_append (h : Digits cs) {sign : List Char} (hsign : Sign sign) :
    dropSign (sign ++ (cs ++ rest)) = cs ++ rest := by
  obtain ⟨c, tail, rfl, hc⟩ := h.head
  refine Lexical.dropSign_append hsign ?_ ?_
  · rintro ⟨⟩
    cases hc
  · rintro ⟨⟩
    cases hc

theorem dropSign_sign (h : Digits cs) {sign : List Char} (hsign : Sign sign) :
    dropSign (sign ++ cs) = cs := by
  have hdrop : dropSign (sign ++ (cs ++ [])) = cs ++ [] := h.dropSign_append hsign
  rwa [List.append_nil] at hdrop

end Digits

theorem takeWhile_digits {digits rest : List Char} (h : ∀ c ∈ digits, c.isDigit = true)
    (hrest : ∀ c tail, rest = c :: tail → c.isDigit = false) :
    (digits ++ rest).takeWhile Char.isDigit = digits ∧
      (digits ++ rest).dropWhile Char.isDigit = rest := by
  rw [List.takeWhile_append_of_pos h, List.dropWhile_append_of_pos h]
  cases rest with
  | nil => simp
  | cons c tail => simp [hrest c tail rfl]

theorem isInteger_iff (cell : String) :
    isInteger cell = true ↔ IntegerForm (trim cell.toList) := by
  unfold isInteger
  rw [isDigits_iff]
  constructor
  · intro h
    obtain ⟨sign, hsign, heq⟩ := sign_append_dropSign (trim cell.toList)
    exact ⟨sign, _, hsign, h, heq⟩
  · rintro ⟨sign, digits, hsign, hdigits, heq⟩
    rwa [heq, hdigits.dropSign_sign hsign]

theorem isExponent_iff {cs : List Char} : isExponent cs = true ↔ Exponent cs := by
  constructor
  · intro h
    cases cs with
    | nil => exact .none
    | cons mark rest =>
        simp only [isExponent, Bool.and_eq_true, Bool.or_eq_true, beq_iff_eq, isDigits_iff] at h
        obtain ⟨hmark, hdigits⟩ := h
        obtain ⟨sign, hsign, heq⟩ := sign_append_dropSign rest
        rw [heq]
        exact .power hmark hsign hdigits
  · intro h
    cases h with
    | none => rfl
    | power hmark hsign hdigits =>
        simp only [isExponent, Bool.and_eq_true, Bool.or_eq_true, beq_iff_eq, isDigits_iff]
        rw [hdigits.dropSign_sign hsign]
        exact ⟨hmark, hdigits⟩

/-- An exponent begins with no digit. -/
theorem Exponent.not_isDigit {cs : List Char} (h : Exponent cs) {c : Char} {tail : List Char}
    (heq : cs = c :: tail) : c.isDigit = false := by
  cases h with
  | none => cases heq
  | power hmark hsign hdigits =>
      cases heq
      rcases hmark with rfl | rfl <;> rfl

theorem Exponent.ne_point {cs tail : List Char} (h : Exponent cs) : cs ≠ '.' :: tail := by
  rintro rfl
  cases h with
  | power hmark hsign hdigits => rcases hmark with h | h <;> cases h

theorem isUnsigned_of_point {digits places exponent : List Char}
    (hdigits : ∀ c ∈ digits, c.isDigit = true) (hplaces : ∀ c ∈ places, c.isDigit = true)
    (hsome : digits ≠ [] ∨ places ≠ []) (hexponent : Exponent exponent) :
    isUnsigned (digits ++ '.' :: (places ++ exponent)) = true := by
  have hpoint : ∀ c tail, '.' :: (places ++ exponent) = c :: tail → c.isDigit = false := by
    rintro c tail ⟨⟩
    rfl
  have hwhole := takeWhile_digits hdigits hpoint
  have hrest := takeWhile_digits hplaces (fun c tail => hexponent.not_isDigit)
  simp only [isUnsigned, hwhole, hrest, isExponent_iff.mpr hexponent]
  simpa [Decidable.imp_iff_not_or] using hsome

theorem isUnsigned_iff {cs : List Char} :
    isUnsigned cs = true ↔
      ∃ mantissa exponent, Mantissa mantissa ∧ Exponent exponent ∧ cs = mantissa ++ exponent := by
  constructor
  · intro h
    have hsplit := List.takeWhile_append_dropWhile (p := Char.isDigit) (l := cs)
    have hwhole := List.all_eq_true.mp (List.all_takeWhile (p := Char.isDigit) (l := cs))
    simp only [isUnsigned] at h
    split at h
    case h_1 rest hrest =>
        have hbehind := List.takeWhile_append_dropWhile (p := Char.isDigit) (l := rest)
        have hplaces := List.all_eq_true.mp
          (List.all_takeWhile (p := Char.isDigit) (l := rest))
        simp only [Bool.and_eq_true, Bool.not_eq_true', Bool.and_eq_false_iff,
          List.isEmpty_eq_false_iff] at h
        obtain ⟨hsome, hexponent⟩ := h
        rw [← hsplit, hrest, ← hbehind]
        cases hdigits : cs.takeWhile Char.isDigit with
        | nil =>
            have hne := hsome.resolve_left fun hne => hne hdigits
            exact ⟨_, _, .places ⟨hne, hplaces⟩, isExponent_iff.mp hexponent, rfl⟩
        | cons c digits =>
            rw [hdigits] at hwhole
            refine ⟨_, _, .point ⟨List.cons_ne_nil c digits, hwhole⟩ hplaces,
              isExponent_iff.mp hexponent, ?_⟩
            simp
    case h_2 =>
        simp only [Bool.and_eq_true, Bool.not_eq_true', List.isEmpty_eq_false_iff] at h
        exact ⟨_, _, .whole ⟨h.1, hwhole⟩, isExponent_iff.mp h.2, hsplit.symm⟩
  · rintro ⟨mantissa, exponent, hmantissa, hexponent, rfl⟩
    cases hmantissa with
    | whole hdigits =>
        have hwhole := takeWhile_digits hdigits.2 (fun c tail => hexponent.not_isDigit)
        simp only [isUnsigned, hwhole]
        split
        case h_1 => exact absurd rfl hexponent.ne_point
        case h_2 => simp [isExponent_iff.mpr hexponent, hdigits.1]
    | point hdigits hplaces =>
        rw [List.append_assoc, List.cons_append]
        exact isUnsigned_of_point hdigits.2 hplaces (Or.inl hdigits.1) hexponent
    | places hdigits =>
        exact isUnsigned_of_point (fun _ hc => absurd hc List.not_mem_nil) hdigits.2
          (Or.inr hdigits.1) hexponent

theorem isNumber_iff (cell : String) :
    isNumber cell = true ↔ NumberForm (trim cell.toList) := by
  unfold isNumber
  rw [isUnsigned_iff]
  constructor
  · rintro ⟨mantissa, exponent, hmantissa, hexponent, hdrop⟩
    obtain ⟨sign, hsign, heq⟩ := sign_append_dropSign (trim cell.toList)
    exact ⟨sign, mantissa, exponent, hsign, hmantissa, hexponent, by rw [heq, hdrop]⟩
  · rintro ⟨sign, mantissa, exponent, hsign, hmantissa, hexponent, heq⟩
    refine ⟨mantissa, exponent, hmantissa, hexponent, ?_⟩
    rw [heq]
    cases hmantissa with
    | whole hdigits => exact hdigits.dropSign_append hsign
    | point hdigits hplaces =>
        rw [List.append_assoc]
        exact hdigits.dropSign_append hsign
    | places hdigits => exact dropSign_append hsign nofun nofun

/-- Cells are checked by exactly the form of the type of their column. -/
theorem conforms_iff (cell : String) (dataType : DataType) :
    conforms cell dataType = true ↔ HasForm dataType (trim cell.toList) := by
  cases dataType with
  | string => exact ⟨fun _ => trivial, fun _ => rfl⟩
  | number => exact isNumber_iff cell
  | integer => exact isInteger_iff cell

end TableIntake.Lexical
