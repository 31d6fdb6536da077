import TableIntake.Proofs.Batch.Bodies
import TableIntake.Proofs.Batch.Turns

namespace TableIntake.Batch

open TableIntake.Archive (Entry)
open TableIntake.Files
open TableIntake.Text (ofUtf8?)

/-! Verdicts: what a pair comes to, by what its own entries come to and by what is read back. -/

/-- The file is there, and its bytes are decoded to this. -/
def Decodes (tree : FileTree) (file : Extracted) (text : Option String) : Prop :=
  ∃ bytes, tree.readFile file.path = .ok bytes ∧ ofUtf8? bytes = text

section Decodes

variable {tree : FileTree} {file : Extracted}

theorem Decodes.read_eq_ok {text : String} (h : Decodes tree file (some text)) :
    file.read tree = .ok text := by
  obtain ⟨bytes, hread, hutf8⟩ := h
  simp [Extracted.read, FileTree.readText, hread, hutf8, bind, Except.bind, pure, Except.pure]

theorem Decodes.read_eq_error (h : Decodes tree file none) :
    file.read tree = .error (.unreadable file.entry Error.notText.message) := by
  obtain ⟨bytes, hread, hutf8⟩ := h
  simp [Extracted.read, FileTree.readText, hread, hutf8, bind, Except.bind]

theorem exists_decodes {convention : Convention} {scratch : Scratch} {entries : List Entry}
    {pair : String} {half : Half}
    (h : (unpack convention scratch entries tree).table.get? pair half = some file) :
    ∃ text, Decodes (unpack convention scratch entries tree).tree file text := by
  -- Later entries can fill the file anew, but they cannot take it away.
  obtain ⟨before, name, bytes, after, pieces, -, -, -, -, -, hpath, hlast⟩ := exists_storing h
  have hread := hlast.readFile
  rw [← hpath] at hread
  exact ⟨_, _, hread, rfl⟩

end Decodes

/-! The outcome. -/

/-- Nothing is wrong with any entry, and the variant is one of the two. -/
structure Sound (variant : Option String) (notes : List Note) (known : Variant) : Prop where
  flawless : notes.findSome? Note.flaw? = none
  variant_eq : variant.map Variant.ofText = some (.ok known)

/-- What a pair comes to, in the order in which it can fail. -/
inductive Verdict (tree : FileTree) (pair : String) (variant : Option String)
    (notes : List Note) : Outcome → Prop where
  | flawed {failure : PairFailure} :
      notes.findSome? Note.flaw? = some failure →
      Verdict tree pair variant notes (.failed failure)
  | unknownVariant {unknown : UnknownVariant} :
      notes.findSome? Note.flaw? = none →
      variant.map Variant.ofText = some (.error unknown) →
      Verdict tree pair variant notes (.failed (.unknownVariant unknown))
  | missingGrammar {known : Variant} :
      Sound variant notes known →
      (∀ file, .stored .grammar file ∉ notes) →
      Verdict tree pair variant notes (.failed (.missingGrammar pair))
  | missingData {known : Variant} {grammar : Extracted} :
      Sound variant notes known →
      .stored .grammar grammar ∈ notes →
      (∀ file, .stored .data file ∉ notes) →
      Verdict tree pair variant notes (.failed (.missingData pair))
  | grammarNotText {known : Variant} {grammar data : Extracted} :
      Sound variant notes known →
      .stored .grammar grammar ∈ notes → .stored .data data ∈ notes →
      Decodes tree grammar none →
      Verdict tree pair variant notes
        (.failed (.unreadable grammar.entry Error.notText.message))
  | dataNotText {known : Variant} {grammar data : Extracted} {text : String} :
      Sound variant notes known →
      .stored .grammar grammar ∈ notes → .stored .data data ∈ notes →
      Decodes tree grammar (some text) → Decodes tree data none →
      Verdict tree pair variant notes (.failed (.unreadable data.entry Error.notText.message))
  | validated {known : Variant} {grammar data : Extracted} {first second : String} :
      Sound variant notes known →
      .stored .grammar grammar ∈ notes → .stored .data data ∈ notes →
      Decodes tree grammar (some first) → Decodes tree data (some second) →
      Verdict tree pair variant notes (.validated (known.dataFindings first second))

theorem JudgedAll.exists_variant {convention : Convention} {scratch : Scratch} {first : Turn}
    {rest : List Turn} {notes : List Note}
    (h : JudgedAll convention scratch (first :: rest) notes)
    (hflaw : notes.findSome? Note.flaw? = none) :
    ∃ text, first.variant? convention = some text := by
  obtain ⟨earlier, note, hmem, hjudged⟩ := h.exists_note List.mem_cons_self
  exact hjudged.variant?_of_stored (List.findSome?_eq_none_iff.mp hflaw note hmem)

theorem outcome_of_known {pending : Pending} {known : Variant} (tree : FileTree)
    (hfailure : pending.failure = none) (hknown : pending.known = .ok (some known)) :
    pending.outcome tree =
      match pending.get? .grammar, pending.get? .data with
      | none, _ => .failed (.missingGrammar pending.pair)
      | some _, none => .failed (.missingData pending.pair)
      | some grammar, some data =>
          match grammar.read tree, data.read tree with
          | .error failure, _ => .failed failure
          | .ok _, .error failure => .failed failure
          | .ok first, .ok second => .validated (known.dataFindings first second) := by
  unfold Pending.outcome Pending.load
  rw [hfailure, hknown]
  simp only [Pending.get?]
  cases pending.grammar with
  | none => rfl
  | some grammar =>
      cases pending.data with
      | none => rfl
      | some data =>
          cases hgrammar : grammar.read tree with
          | error failure => simp [hgrammar, bind, Except.bind]
          | ok first =>
              cases hdata : data.read tree with
              | error failure => simp [hgrammar, hdata, bind, Except.bind]
              | ok second =>
                  simp [hgrammar, hdata, bind, Except.bind, pure, Except.pure]

/-- The row says what the notes say. -/
structure Reflects (pending : Pending) (notes : List Note) : Prop where
  failure_eq : pending.failure = notes.findSome? Note.flaw?
  get?_eq_some_iff : ∀ half file, pending.get? half = some file ↔ .stored half file ∈ notes

namespace Reflects

variable {pending : Pending} {notes : List Note} {tree : FileTree}

theorem not_mem (h : Reflects pending notes) {half : Half} (hnone : pending.get? half = none)
    (file : Extracted) : .stored half file ∉ notes := by
  intro hmem
  exact nomatch hnone.symm.trans ((h.get?_eq_some_iff half file).mpr hmem)

theorem get?_eq_none (h : Reflects pending notes) {half : Half}
    (hnone : ∀ file, .stored half file ∉ notes) : pending.get? half = none := by
  apply Option.eq_none_iff_forall_ne_some.mpr
  intro file hsome
  exact hnone file ((h.get?_eq_some_iff half file).mp hsome)

theorem outcome_of_sound (h : Reflects pending notes) {known : Variant}
    (hsound : Sound pending.variant notes known) (tree : FileTree) :
    pending.outcome tree =
      match pending.get? .grammar, pending.get? .data with
      | none, _ => .failed (.missingGrammar pending.pair)
      | some _, none => .failed (.missingData pending.pair)
      | some grammar, some data =>
          match grammar.read tree, data.read tree with
          | .error failure, _ => .failed failure
          | .ok _, .error failure => .failed failure
          | .ok first, .ok second => .validated (known.dataFindings first second) := by
  obtain ⟨text, htext, hparse⟩ := Option.map_eq_some_iff.mp hsound.variant_eq
  apply outcome_of_known tree (h.failure_eq.trans hsound.flawless)
  simp [Pending.known, htext, hparse, Except.map]

theorem outcome_of_flaw (h : Reflects pending notes) {failure : PairFailure}
    (hflaw : notes.findSome? Note.flaw? = some failure) (tree : FileTree) :
    pending.outcome tree = .failed failure := by
  simp [Pending.outcome, Pending.load, h.failure_eq, hflaw]

theorem outcome_of_unknown (h : Reflects pending notes) {unknown : UnknownVariant}
    (hflaw : notes.findSome? Note.flaw? = none)
    (hvariant : pending.variant.map Variant.ofText = some (.error unknown)) (tree : FileTree) :
    pending.outcome tree = .failed (.unknownVariant unknown) := by
  obtain ⟨text, htext, hparse⟩ := Option.map_eq_some_iff.mp hvariant
  simp [Pending.outcome, Pending.load, Pending.known, h.failure_eq, hflaw, htext, hparse,
    Except.map]

theorem verdict_of_sound (h : Reflects pending notes) {known : Variant}
    (hsound : Sound pending.variant notes known)
    (hthere : ∀ half file, .stored half file ∈ notes → ∃ text, Decodes tree file text) :
    Verdict tree pending.pair pending.variant notes (pending.outcome tree) := by
  rw [h.outcome_of_sound hsound]
  cases hgrammar : pending.get? .grammar with
  | none => exact .missingGrammar hsound (h.not_mem hgrammar)
  | some grammar =>
      have hfirst := (h.get?_eq_some_iff .grammar grammar).mp hgrammar
      cases hdata : pending.get? .data with
      | none => exact .missingData hsound hfirst (h.not_mem hdata)
      | some data =>
          have hsecond := (h.get?_eq_some_iff .data data).mp hdata
          obtain ⟨first, hreadfirst⟩ := hthere .grammar grammar hfirst
          obtain ⟨second, hreadsecond⟩ := hthere .data data hsecond
          cases first with
          | none =>
              simp only [hreadfirst.read_eq_error]
              exact .grammarNotText hsound hfirst hsecond hreadfirst
          | some first =>
              simp only [hreadfirst.read_eq_ok]
              cases second with
              | none =>
                  simp only [hreadsecond.read_eq_error]
                  exact .dataNotText hsound hfirst hsecond hreadfirst hreadsecond
              | some second =>
                  simp only [hreadsecond.read_eq_ok]
                  exact .validated hsound hfirst hsecond hreadfirst hreadsecond

theorem verdict (h : Reflects pending notes)
    (hvariant : notes.findSome? Note.flaw? = none → ∃ text, pending.variant = some text)
    (hthere : ∀ half file, .stored half file ∈ notes → ∃ text, Decodes tree file text) :
    Verdict tree pending.pair pending.variant notes (pending.outcome tree) := by
  cases hflaw : notes.findSome? Note.flaw? with
  | some failure =>
      rw [h.outcome_of_flaw hflaw]
      exact .flawed hflaw
  | none =>
      obtain ⟨text, htext⟩ := hvariant hflaw
      cases hparse : Variant.ofText text with
      | error unknown =>
          have hunknown : pending.variant.map Variant.ofText = some (.error unknown) := by
            rw [htext, Option.map_some, hparse]
          rw [h.outcome_of_unknown hflaw hunknown]
          exact .unknownVariant hflaw hunknown
      | ok known =>
          have hknown : pending.variant.map Variant.ofText = some (.ok known) := by
            rw [htext, Option.map_some, hparse]
          exact h.verdict_of_sound ⟨hflaw, hknown⟩ hthere

theorem outcome_of_verdict (h : Reflects pending notes) {outcome : Outcome}
    (hverdict : Verdict tree pending.pair pending.variant notes outcome) :
    pending.outcome tree = outcome := by
  have hget := fun half file => (h.get?_eq_some_iff half file).mpr
  cases hverdict with
  | flawed hflaw => exact h.outcome_of_flaw hflaw tree
  | unknownVariant hflaw hvariant => exact h.outcome_of_unknown hflaw hvariant tree
  | missingGrammar hsound hnone => rw [h.outcome_of_sound hsound, h.get?_eq_none hnone]
  | missingData hsound hfirst hnone =>
      rw [h.outcome_of_sound hsound, hget _ _ hfirst, h.get?_eq_none hnone]
  | grammarNotText hsound hfirst hsecond hread =>
      rw [h.outcome_of_sound hsound, hget _ _ hfirst, hget _ _ hsecond]
      simp only [hread.read_eq_error]
  | dataNotText hsound hfirst hsecond hread hreaddata =>
      rw [h.outcome_of_sound hsound, hget _ _ hfirst, hget _ _ hsecond]
      simp only [hread.read_eq_ok, hreaddata.read_eq_error]
  | validated hsound hfirst hsecond hread hreaddata =>
      rw [h.outcome_of_sound hsound, hget _ _ hfirst, hget _ _ hsecond]
      simp only [hread.read_eq_ok, hreaddata.read_eq_ok]

end Reflects

theorem toOption_known (pending : Pending) :
    pending.known.toOption.bind id =
      pending.variant.bind fun text => (Variant.ofText text).toOption := by
  unfold Pending.known
  cases pending.variant with
  | none => rfl
  | some text =>
      simp only [Option.bind_some]
      cases Variant.ofText text <;> rfl

theorem reflects_enterAll {convention : Convention} {scratch : Scratch} {turns : List Turn}
    {notes : List Note} (h : JudgedAll convention scratch turns notes) (pair : String)
    (variant : Option String) : Reflects (Note.enterAll notes { pair, variant }) notes where
  failure_eq := (Note.failure_enterAll ..).trans Option.none_or
  get?_eq_some_iff := fun _ _ => get?_enterAll_eq_some_iff h variant

namespace Plan

/-- Every name under which there are entries has one report. These entries alone, judged in their
order, decide what it says, whatever else is in the archive. -/
theorem report_verdict (plan : Plan) (run : Run) (archive : Path) (scratch : Scratch)
    {entries : List Entry} {pair : String} (hkey : pair ∈ keys plan.convention entries)
    (tree : FileTree) (journal : Log.Journal) :
    ∃ reports first rest notes report,
      ((plan.processIn run archive scratch ⟨entries, none⟩ tree).run journal).1.1 =
        .ok reports ∧
      turnsOf plan.convention scratch tree entries pair = first :: rest ∧
      (∀ others, JudgedAll plan.convention scratch (first :: rest) others ↔ others = notes) ∧
      reports.filter (·.pair = pair) = [report] ∧
      report.variant =
        (first.variant? plan.convention).bind (fun text => (Variant.ofText text).toOption) ∧
      ∀ outcome, report.outcome = outcome ↔
        Verdict (unpack plan.convention scratch entries tree).tree pair
          (first.variant? plan.convention) notes outcome := by
  obtain ⟨notes, hnotes, hrow⟩ := exists_notes plan.convention scratch tree entries pair
  obtain ⟨turn, hturn⟩ := exists_mem_turnsOf hkey scratch tree
  obtain ⟨first, rest, hturns⟩ := List.exists_cons_of_ne_nil (List.ne_nil_of_mem hturn)
  rw [hturns] at hnotes hrow
  let unpacked := unpack plan.convention scratch entries tree
  let row := Note.enterAll notes { pair, variant := first.variant? plan.convention }
  have hfind : unpacked.table.find? pair = some row := hrow
  have hpair : row.pair = pair := Note.pair_enterAll ..
  have hvariant : row.variant = first.variant? plan.convention := Note.variant_enterAll ..
  have hreflects : Reflects row notes := reflects_enterAll hnotes pair _
  have hthere : ∀ half file, .stored half file ∈ notes →
      ∃ text, Decodes unpacked.tree file text := by
    intro half file hmem
    have hget : unpacked.table.get? pair half = some file := by
      rw [Table.get?, hfind]
      exact (hreflects.get?_eq_some_iff half file).mpr hmem
    exact exists_decodes hget
  have honly : ∀ others, JudgedAll plan.convention scratch (first :: rest) others ↔
      others = notes := by
    intro others
    constructor
    · intro hothers
      exact hothers.unique hnotes
    · intro heq
      rw [heq]
      exact hnotes
  refine ⟨unpacked.table.reports unpacked.tree, first, rest, notes, row.reported unpacked.tree,
    plan.fst_run_processIn run archive scratch entries tree journal, hturns, honly, ?_, ?_, ?_⟩
  · rw [(distinct_unpack plan.convention scratch entries tree).filter_reports, hfind]
    rfl
  · exact (toOption_known row).trans (by rw [hvariant])
  · intro outcome
    rw [← hpair, ← hvariant]
    constructor
    · intro heq
      rw [← heq]
      exact hreflects.verdict (fun hflaw => hvariant ▸ hnotes.exists_variant hflaw) hthere
    · intro hverdict
      exact hreflects.outcome_of_verdict hverdict

/-- The first grammar is a link, the second one is taken, and the file without a suffix is
reported under the name of the pair. -/
def linkedEntries : List Entry :=
  [.member "event/a.grammar.csv" false ⟨[], none⟩,
    .member "dimension/b.data.csv" true ⟨"1".toUTF8.toList, none⟩,
    .member "event/a.grammar.csv" true ⟨"FK\ninteger\nid".toUTF8.toList, none⟩,
    .member "event/a" true ⟨[], none⟩,
    .member "event/a.data.csv" true ⟨"1".toUTF8.toList, none⟩]

theorem report_verdict_linkedEntries :
    "event/a" ∈ keys ({} : SuffixConvention).classify linkedEntries ∧
      ∃ reports first rest notes report,
        ((({ scratchRoot := ⟨false, ["s"]⟩ } : Plan).processIn ⟨"tag", 0⟩ ⟨false, ["a"]⟩
          ⟨⟨false, ["s"]⟩, []⟩ ⟨linkedEntries, none⟩ ⟨[(["s"], .directory)], []⟩).run {}).1.1 =
            .ok reports ∧
        (∀ others, JudgedAll ({} : SuffixConvention).classify ⟨⟨false, ["s"]⟩, []⟩
          (first :: rest) others ↔ others = notes) ∧
        reports.filter (·.pair = "event/a") = [report] ∧
        report.outcome =
          .failed (.unreadable "event/a.grammar.csv" "not a regular file") ∧
        Verdict (unpack ({} : SuffixConvention).classify ⟨⟨false, ["s"]⟩, []⟩ linkedEntries
          ⟨[(["s"], .directory)], []⟩).tree "event/a"
            (first.variant? ({} : SuffixConvention).classify) notes report.outcome := by
  have hkey : "event/a" ∈ keys ({} : SuffixConvention).classify linkedEntries := by
    decide +kernel
  let unpacked := unpack ({} : SuffixConvention).classify ⟨⟨false, ["s"]⟩, []⟩ linkedEntries
    ⟨[(["s"], .directory)], []⟩
  obtain ⟨reports, first, rest, notes, report, hrun, -, honly, hown, -, hverdict⟩ :=
    report_verdict { scratchRoot := ⟨false, ["s"]⟩ } ⟨"tag", 0⟩ ⟨false, ["a"]⟩
      ⟨⟨false, ["s"]⟩, []⟩ hkey ⟨[(["s"], .directory)], []⟩ {}
  have hreports : reports = unpacked.table.reports unpacked.tree :=
    Except.ok.inj (hrun.symm.trans (fst_run_processIn ..))
  have hfailures : ((unpacked.table.reports unpacked.tree).filter (·.pair = "event/a")).map
      Report.failure? = [some (.unreadable "event/a.grammar.csv" "not a regular file")] := by
    decide +kernel
  rw [← hreports, hown] at hfailures
  have hfailure : report.failure? =
      some (.unreadable "event/a.grammar.csv" "not a regular file") :=
    (List.cons.inj hfailures).1
  exact ⟨hkey, reports, first, rest, notes, report, hrun, honly, hown,
    Report.outcome_of_failure? hfailure, (hverdict report.outcome).mp rfl⟩

end Plan

end TableIntake.Batch
