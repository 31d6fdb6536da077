import TableIntake.Proofs.Grammar.Joining
import TableIntake.Variant

namespace TableIntake

open TableIntake.Grammar
open TableIntake.Text

/-! Texts that differ only in how their lines end and in the blanks around them. -/

namespace Text

structure Blanks where
  text : String
  blank : ∀ c ∈ text.toList, isBlank c = true

/-- A change of a text that leaves all its lines as they are, but for blanks. -/
inductive Restyling where
  | returns
  | before (blanks : Blanks)
  | behind (blanks : Blanks)

/-- Every newline comes to stand behind a carriage return. -/
def withReturns (cs : List Char) : List Char :=
  cs.flatMap fun c => if c = '\n' then ['\r', '\n'] else [c]

namespace Restyling

def apply : Restyling → String → String
  | returns, text => String.ofList (withReturns text.toList)
  | before blanks, text => blanks.text ++ text
  | behind blanks, text => text ++ blanks.text

/-- One change after the other. -/
def applyAll (changes : List Restyling) (text : String) : String :=
  changes.foldl (fun text change => change.apply text) text

end Restyling

@[simp] theorem withReturns_newline (cs : List Char) :
    withReturns ('\n' :: cs) = '\r' :: '\n' :: withReturns cs := rfl

theorem withReturns_cons {c : Char} (h : c ≠ '\n') (cs : List Char) :
    withReturns (c :: cs) = c :: withReturns cs := by
  simp [withReturns, h]

theorem trimStart_cons (c : Char) (cs : List Char) :
    trimStart (c :: cs) = if isBlank c then trimStart cs else c :: cs :=
  List.dropWhile_cons

/-- Returns before newlines are blank where newlines are. -/
theorem trimStart_withReturns (cs : List Char) :
    trimStart (withReturns cs) = withReturns (trimStart cs) := by
  induction cs with
  | nil => rfl
  | cons c cs ih =>
      by_cases hc : c = '\n'
      · have hreturn : isBlank '\r' = true := by decide
        have hnewline : isBlank '\n' = true := by decide
        rw [hc, withReturns_newline, trimStart_cons, if_pos hreturn, trimStart_cons,
          if_pos hnewline, trimStart_cons, if_pos hnewline, ih]
      · rw [withReturns_cons hc, trimStart_cons, trimStart_cons, ih]
        split
        · rfl
        · rw [withReturns_cons hc]

/-- All segments but the last one end in a return. -/
theorem split_withReturns (cs : List Char) :
    ∃ pieces last, split '\n' cs = pieces ++ [last] ∧
      split '\n' (withReturns cs) = pieces.map (· ++ ['\r']) ++ [last] := by
  induction cs with
  | nil => exact ⟨[], [], rfl, rfl⟩
  | cons c cs ih =>
      obtain ⟨pieces, last, hcs, hreturns⟩ := ih
      by_cases hc : c = '\n'
      · refine ⟨[] :: pieces, last, ?_, ?_⟩
        · simp [split, hc, hcs]
        · simp [split, hc, hreturns]
      · rw [withReturns_cons hc]
        simp only [split, if_neg hc, hcs, hreturns]
        cases pieces with
        | nil => exact ⟨[], c :: last, rfl, rfl⟩
        | cons piece pieces => exact ⟨(c :: piece) :: pieces, last, rfl, rfl⟩

end Text

namespace Grammar.Line

variable (cell : List Char → List Char)

theorem numbered_map {change : List Char → List Char} (h : ∀ raw, trim (change raw) = trim raw)
    (start : Nat) (segments : List (List Char)) :
    numbered cell start (segments.map change) = numbered cell start segments := by
  induction segments generalizing start with
  | nil => rfl
  | cons raw segments ih =>
      rw [List.map_cons, numbered_cons, numbered_cons, ih, ofChars?_congr cell (h raw)]

theorem ofText_returns (text : String) :
    ofText cell (String.ofList (withReturns text.toList)) = ofText cell text := by
  obtain ⟨pieces, last, hsplit, hreturns⟩ := split_withReturns (trimStart text.toList)
  have hreturn : ∀ c ∈ ['\r'], isBlank c = true := by
    intro c hc
    rw [List.mem_singleton.mp hc]
    decide
  rw [ofText_eq_numbered, ofText_eq_numbered, String.toList_ofList, trimStart_withReturns,
    hreturns, hsplit, numbered_append, numbered_append, List.length_map,
    numbered_map cell (trim_append_blank hreturn)]

theorem ofText_apply (change : Restyling) (text : String) :
    ofText cell (change.apply text) = ofText cell text := by
  cases change with
  | returns => exact ofText_returns cell text
  | before blanks =>
      simp only [Restyling.apply, ofText, String.toList_append, trim_blank_append blanks.blank]
  | behind blanks =>
      simp only [Restyling.apply, ofText, String.toList_append, trim_append_blank blanks.blank]

theorem ofText_applyAll (changes : List Restyling) (text : String) :
    ofText cell (Restyling.applyAll changes text) = ofText cell text := by
  induction changes generalizing text with
  | nil => rfl
  | cons change changes ih => exact (ih (change.apply text)).trans (ofText_apply cell change text)

end Grammar.Line

namespace Check

theorem grammarFindings_applyAll (variant : Variant) (changes : List Restyling)
    (grammar : String) :
    variant.grammarFindings (Restyling.applyAll changes grammar) =
      variant.grammarFindings grammar := by
  simp only [Variant.grammarFindings, Document.parse, Line.ofText_applyAll]

theorem rowFindings_applyAll (variant : Variant) (changes others : List Restyling)
    (grammar data : String) :
    variant.rowFindings (Restyling.applyAll changes grammar) (Restyling.applyAll others data) =
      variant.rowFindings grammar data := by
  simp only [Variant.rowFindings, Document.parse, dataRows, Line.ofText_applyAll]

/-- Both checks find the same, and log the same, however the lines of the texts end and whatever
blanks stand around the texts. -/
theorem checks_restyled (variant : Variant) (changes others : List Restyling)
    (grammar data : String) :
    variant.checkGrammar (Restyling.applyAll changes grammar) = variant.checkGrammar grammar ∧
      variant.checkData (Restyling.applyAll changes grammar) (Restyling.applyAll others data) =
        variant.checkData grammar data := by
  constructor
  · simp only [Variant.checkGrammar, grammarFindings_applyAll]
  · simp only [Variant.checkData, Variant.dataFindings, grammarFindings_applyAll,
      rowFindings_applyAll]

end Check

end TableIntake
