import Mathlib.Data.List.Lex
import TableIntake.Text.Utf8

namespace TableIntake.Text

/-! Texts are in the order of their UTF-8 bytes. -/

theorem utf8_eq_flatMap (s : String) : utf8 s = s.toList.flatMap String.utf8EncodeChar := by
  rw [utf8, String.toUTF8_eq_toByteArray, ← String.utf8Encode_toList, List.utf8Encode,
    List.toList_data_toByteArray]

/-- The bytes differ at some place, and at the first such place the left ones are smaller. What
comes behind them does not matter. -/
inductive Below : List UInt8 → List UInt8 → Prop where
  | differ {low high : UInt8} (lows highs : List UInt8) :
      low < high → Below (low :: lows) (high :: highs)
  | agree (b : UInt8) {lows highs : List UInt8} :
      Below lows highs → Below (b :: lows) (b :: highs)

theorem Below.append_lt {lows highs : List UInt8} (h : Below lows highs)
    (more others : List UInt8) : lows ++ more < highs ++ others := by
  induction h with
  | differ lows highs hlt => exact List.Lex.rel hlt
  | agree b _ ih => exact List.Lex.cons ih

/-- A greater digit decides, an equal one leaves it to the next. -/
theorem below_digits {m n : Nat} {lows highs : List UInt8} (hle : m ≤ n) (hn : n < 256)
    (h : m = n → Below lows highs) :
    Below (UInt8.ofNat m :: lows) (UInt8.ofNat n :: highs) := by
  rcases Nat.lt_or_eq_of_le hle with hlt | heq
  · apply Below.differ
    rw [UInt8.lt_iff_toNat_lt, UInt8.toNat_ofNat', UInt8.toNat_ofNat', Nat.mod_eq_of_lt hn,
      Nat.mod_eq_of_lt (hlt.trans hn)]
    exact hlt
  · rw [heq]
    exact .agree _ (h heq)

theorem below_last {m n : Nat} (hlt : m < n) (hn : n < 256) :
    Below [UInt8.ofNat m] [UInt8.ofNat n] :=
  below_digits (Nat.le_of_lt hlt) hn fun heq => absurd heq (Nat.ne_of_lt hlt)

/-! A sequence: its first byte tells how long it is, and the digits behind it have base 64. -/

def leadByte (code : Nat) : Nat :=
  if code ≤ 127 then code
  else if code ≤ 2047 then code / 64 % 32 + 192
  else if code ≤ 65535 then code / 4096 % 16 + 224
  else code / 262144 % 8 + 240

def digit (code place : Nat) : UInt8 :=
  UInt8.ofNat (code / place % 64 + 128)

def laterBytes (code : Nat) : List UInt8 :=
  if code ≤ 127 then []
  else if code ≤ 2047 then [digit code 1]
  else if code ≤ 65535 then [digit code 64, digit code 1]
  else [digit code 4096, digit code 64, digit code 1]

theorem utf8EncodeChar_eq_cons (c : Char) :
    String.utf8EncodeChar c = UInt8.ofNat (leadByte c.toNat) :: laterBytes c.toNat := by
  change String.utf8EncodeChar c = UInt8.ofNat (leadByte c.val.toNat) :: laterBytes c.val.toNat
  simp only [String.utf8EncodeChar, leadByte, laterBytes, digit, Nat.div_one]
  split_ifs <;> rfl

section Codes

variable {m n : Nat}

theorem leadByte_lt (h : n < 0x110000) : leadByte n < 256 := by
  unfold leadByte
  split_ifs <;> omega

theorem leadByte_le_leadByte (hlt : m < n) (hn : n < 0x110000) : leadByte m ≤ leadByte n := by
  unfold leadByte
  split_ifs <;> omega

/-- Sequences that begin alike are equally long. -/
theorem le_iff_of_leadByte_eq (hlt : m < n) (hn : n < 0x110000) (h : leadByte m = leadByte n) :
    (m ≤ 127 ↔ n ≤ 127) ∧ (m ≤ 2047 ↔ n ≤ 2047) ∧ (m ≤ 65535 ↔ n ≤ 65535) := by
  unfold leadByte at h
  split_ifs at h <;> omega

theorem below_laterBytes (hlt : m < n) (hn : n < 0x110000) (h : leadByte m = leadByte n) :
    Below (laterBytes m) (laterBytes n) := by
  obtain ⟨hone, htwo, hthree⟩ := le_iff_of_leadByte_eq hlt hn h
  simp only [leadByte, hone, htwo, hthree] at h
  simp only [laterBytes, digit, hone, htwo, hthree]
  split_ifs at h ⊢
  case pos => omega
  case pos => exact below_last (by omega) (by omega)
  case pos => exact below_digits (by omega) (by omega) fun _ => below_last (by omega) (by omega)
  case neg =>
      refine below_digits (by omega) (by omega) fun _ => ?_
      exact below_digits (by omega) (by omega) fun _ => below_last (by omega) (by omega)

end Codes

theorem below_utf8EncodeChar {c d : Char} (h : c < d) :
    Below (String.utf8EncodeChar c) (String.utf8EncodeChar d) := by
  have hlt : c.toNat < d.toNat := UInt32.lt_iff_toNat_lt.mp h
  have hd : d.toNat < 0x110000 := by
    rcases d.valid with hvalid | ⟨-, hvalid⟩
    · exact Nat.lt_trans hvalid (by decide)
    · exact hvalid
  rw [utf8EncodeChar_eq_cons, utf8EncodeChar_eq_cons]
  exact below_digits (leadByte_le_leadByte hlt hd) (leadByte_lt hd) (below_laterBytes hlt hd)

theorem flatMap_utf8EncodeChar_lt {cs ds : List Char} (h : cs < ds) :
    cs.flatMap String.utf8EncodeChar < ds.flatMap String.utf8EncodeChar := by
  induction h with
  | nil =>
      rw [List.flatMap_cons, utf8EncodeChar_eq_cons]
      exact List.Lex.nil
  | cons _ ih => exact List.Lex.append_left _ ih _
  | rel hlt => exact (below_utf8EncodeChar hlt).append_lt _ _

theorem utf8_lt_utf8 {s t : String} (h : s < t) : utf8 s < utf8 t := by
  rw [utf8_eq_flatMap, utf8_eq_flatMap]
  exact flatMap_utf8EncodeChar_lt h

/-- The order of texts is that of their bytes. -/
theorem utf8_le_utf8_iff (s t : String) : utf8 s ≤ utf8 t ↔ s ≤ t := by
  constructor
  · intro hle
    refine String.not_lt.mp fun hlt => ?_
    exact hle (utf8_lt_utf8 hlt)
  · intro hle
    by_cases hlt : s < t
    · exact List.le_of_lt (utf8_lt_utf8 hlt)
    · rw [String.le_antisymm hle (String.not_lt.mp hlt)]
      exact List.le_refl _

end TableIntake.Text
