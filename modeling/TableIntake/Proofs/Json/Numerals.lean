import TableIntake.Json.Outline
import TableIntake.Json.Printer
import TableIntake.Proofs.Json.Data
import TableIntake.Proofs.Lexical.Forms

namespace TableIntake.Json

/-! Whole numbers as they are written are read as what they are. -/

/-- What may follow a value in a text: its end, or what separates or closes. -/
def Closed (rest : List Char) : Prop :=
  ∀ c tail, rest = c :: tail → c = ',' ∨ c = ']' ∨ c = '\x7d'

theorem Closed.nil : Closed [] := nofun

theorem Closed.cons {c : Char} (h : c = ',' ∨ c = ']' ∨ c = '\x7d') (tail : List Char) :
    Closed (c :: tail) := by
  rintro _ _ ⟨⟩
  exact h

theorem Closed.not_isDigit {rest : List Char} (h : Closed rest) :
    ∀ c tail, rest = c :: tail → c.isDigit = false := by
  intro c tail heq
  obtain rfl | rfl | rfl := h c tail heq <;> rfl

namespace Numeral

theorem le_ofDigitChars (n : Nat) (ds : List Char) : n ≤ Nat.ofDigitChars 10 ds n := by
  induction ds generalizing n with
  | nil => exact Nat.le_refl n
  | cons d ds ih =>
      rw [Nat.ofDigitChars_cons]
      have := ih (10 * n + (d.toNat - '0'.toNat))
      omega

theorem fill_of_lt {n : Nat} {ds : List Char} (h : Nat.ofDigitChars 10 ds n < UInt64.size) :
    fill n ds = (Nat.ofDigitChars 10 ds n, []) := by
  induction ds generalizing n with
  | nil => rfl
  | cons d ds ih =>
      rw [Nat.ofDigitChars_cons] at h ⊢
      have hnext : n * 10 + (d.toNat - 48) = 10 * n + (d.toNat - '0'.toNat) := by
        rw [Nat.mul_comm]
        rfl
      have hle := le_ofDigitChars (10 * n + (d.toNat - '0'.toNat)) ds
      rw [fill, hnext, if_pos (Nat.lt_of_le_of_lt hle h), ih h]

theorem fill_toDigits {n : Nat} (h : n < UInt64.size) : fill 0 (Nat.toDigits 10 n) = (n, []) := by
  have hvalue : Nat.ofDigitChars 10 (Nat.toDigits 10 n) 0 = n :=
    Nat.ofDigitChars_toDigits (by decide) (by decide)
  rw [fill_of_lt (by rwa [hvalue]), hvalue]

/-- No digits of a number begin with a zero, but for those of zero. -/
theorem head_toDigits {n : Nat} (h : 0 < n) : (Nat.toDigits 10 n).head? ≠ some '0' := by
  induction n using Nat.strongRecOn with
  | ind n ih =>
      by_cases hsmall : n < 10
      · rw [Nat.toDigits_of_lt_base hsmall]
        intro hzero
        have hdigit := Nat.digitChar_eq_zero.mp (Option.some.inj hzero)
        omega
      · have hle : 10 ≤ n := Nat.le_of_not_lt hsmall
        have hhead := ih (n / 10) (by omega) (by omega)
        rw [Nat.toDigits_of_base_le (by decide) hle]
        cases hdigits : Nat.toDigits 10 (n / 10) with
        | nil => exact absurd hdigits Nat.toDigits_ne_nil
        | cons d ds => rwa [hdigits] at hhead

theorem not_leading_zero (n : Nat) :
    ¬ (1 < (Nat.toDigits 10 n).length ∧ (Nat.toDigits 10 n).head? = some '0') := by
  rintro ⟨hlength, hhead⟩
  rcases Nat.eq_zero_or_pos n with rfl | hpos
  · exact absurd hlength (by decide)
  · exact head_toDigits hpos hhead

theorem isDigit_of_mem_toDigits {n : Nat} : ∀ c ∈ Nat.toDigits 10 n, c.isDigit = true :=
  fun _ hc => Nat.isDigit_of_mem_toDigits (by decide) (by decide) hc

theorem digits?_toDigits (n : Nat) {rest : List Char} (hrest : Closed rest) :
    digits? (Nat.toDigits 10 n ++ rest) = some (Nat.toDigits 10 n, rest) := by
  obtain ⟨htake, hdrop⟩ :=
    Lexical.takeWhile_digits (isDigit_of_mem_toDigits (n := n)) hrest.not_isDigit
  unfold digits?
  rw [htake, hdrop]
  cases hdigits : Nat.toDigits 10 n with
  | nil => exact absurd hdigits Nat.toDigits_ne_nil
  | cons d ds => rfl

theorem fraction?_of_closed {rest : List Char} (h : Closed rest) :
    fraction? rest = some (none, rest) := by
  cases rest with
  | nil => rfl
  | cons c tail => obtain rfl | rfl | rfl := h c tail rfl <;> rfl

theorem power?_of_closed {rest : List Char} (h : Closed rest) :
    power? rest = some (none, rest) := by
  cases rest with
  | nil => rfl
  | cons c tail => obtain rfl | rfl | rfl := h c tail rfl <;> rfl

/-- What `lex?` reads behind the sign. -/
def unsigned? (negative : Bool) (cs : List Char) : Option (Numeral × List Char) := do
  let (whole, cs) ← digits? cs
  if 1 < whole.length ∧ whole.head? = some '0' then none
  let (fraction, cs) ← fraction? cs
  let (power, cs) ← power? cs
  return (⟨negative, whole, fraction, power⟩, cs)

theorem lex?_minus (cs : List Char) : lex? ('-' :: cs) = unsigned? true cs := rfl

theorem lex?_of_ne {c : Char} (h : c ≠ '-') (cs : List Char) :
    lex? (c :: cs) = unsigned? false (c :: cs) := by
  unfold lex?
  split
  case h_1 negative after hsign =>
      split at hsign
      case h_1 heq => exact absurd (List.cons.inj heq).1 h
      case h_2 =>
          cases hsign
          rfl

theorem unsigned?_toDigits (negative : Bool) (n : Nat) {rest : List Char} (hrest : Closed rest) :
    unsigned? negative (Nat.toDigits 10 n ++ rest) =
      some (⟨negative, Nat.toDigits 10 n, none, none⟩, rest) := by
  simp [unsigned?, digits?_toDigits n hrest, not_leading_zero n, fraction?_of_closed hrest,
    power?_of_closed hrest]

theorem lex?_toDigits (n : Nat) {rest : List Char} (hrest : Closed rest) :
    lex? (Nat.toDigits 10 n ++ rest) =
      some (⟨false, Nat.toDigits 10 n, none, none⟩, rest) := by
  rw [← unsigned?_toDigits false n hrest]
  cases hdigits : Nat.toDigits 10 n with
  | nil => exact absurd hdigits Nat.toDigits_ne_nil
  | cons d ds =>
      refine lex?_of_ne ?_ (ds ++ rest)
      rintro rfl
      have hdigit := isDigit_of_mem_toDigits (n := n) '-' (hdigits ▸ List.mem_cons_self)
      cases hdigit

theorem value?_toDigits {n : Nat} (h : n < UInt64.size) :
    value? ⟨false, Nat.toDigits 10 n, none, none⟩ = some (.integer n) := by
  simp [value?, fill_toDigits h]

theorem value?_minus {n : Nat} (hpos : 0 < n) (h : n ≤ 1 <<< 63) :
    value? ⟨true, Nat.toDigits 10 n, none, none⟩ = some (.integer (-n)) := by
  have hsize : n < UInt64.size := Nat.lt_of_le_of_lt h (by decide)
  have hrange : 0 < n ∧ n ≤ 1 <<< 63 := ⟨hpos, h⟩
  simp only [value?, fill_toDigits hsize, if_pos hrange]
  rfl

end Numeral

theorem Number.chars_natural (n : Nat) : (integer n).chars = Nat.toDigits 10 n :=
  Nat.toList_repr

theorem Number.chars_negative (n : Nat) :
    (integer (Int.negSucc n)).chars = '-' :: Nat.toDigits 10 (n + 1) := by
  change ("-" ++ (n + 1).repr).toList = _
  rw [String.toList_append, Nat.toList_repr]
  rfl

theorem number?_integer {i : Int} (h : FitsWord i) {rest : List Char} (hrest : Closed rest) :
    number? ((Number.integer i).chars ++ rest) =
      some (.number (some (.integer i)), rest) := by
  unfold number?
  cases i with
  | ofNat n =>
      have hsize : n < UInt64.size := Int.ofNat_lt.mp h.2
      rw [Int.ofNat_eq_natCast, Number.chars_natural, Numeral.lex?_toDigits n hrest]
      exact congrArg (fun value => some (Scalar.number value, rest))
        (Numeral.value?_toDigits hsize)
  | negSucc n =>
      have hle : n + 1 ≤ 9223372036854775808 := by
        have hword := (fitsWord_iff.mp h).1
        omega
      rw [Number.chars_negative, List.cons_append, Numeral.lex?_minus,
        Numeral.unsigned?_toDigits _ _ hrest]
      exact congrArg (fun value => some (Scalar.number value, rest))
        (Numeral.value?_minus (Nat.succ_pos n) hle)

end TableIntake.Json
