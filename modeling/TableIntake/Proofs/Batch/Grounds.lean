import TableIntake.Proofs.Batch.Verdicts

namespace TableIntake.Batch

open TableIntake.Archive (Entry)
open TableIntake.Files

/-! Grounds: every pair that is collected holds a file or a failure, and what is reported of it has
its reason there. -/

/-- The failures that can be noted while pairs are collected. -/
inductive Notable (convention : Convention) : PairFailure → Prop where
  | unreadable (entry reason : String) : Notable convention (.unreadable entry reason)
  | duplicate (entry : String) : Notable convention (.duplicate entry)
  | misnamed {entry expected : String} :
      convention entry = .misnamed expected → Notable convention (.misnamed entry expected)

/-- What a posting brings. Only a failure can come without a variant. -/
structure Posting.Grounded (convention : Convention) (posting : Posting) : Prop where
  notable : ∀ failure, posting.note.flaw? = some failure → Notable convention failure
  flaw_of_nameless : posting.variant = none → posting.note.flaw?.isSome

structure Pending.Grounded (convention : Convention) (pending : Pending) : Prop where
  filled : (pending.get? .grammar).isSome ∨ (pending.get? .data).isSome ∨ pending.failure.isSome
  failed_of_nameless : pending.variant = none → pending.failure.isSome
  notable : ∀ failure, pending.failure = some failure → Notable convention failure

namespace Unpacked

variable {state : Unpacked Table} {convention : Convention} {scratch : Scratch}

theorem notable_memberNote (pair : String) (half : Half) (name : String) (regular : Bool)
    (content : Content) (failure : PairFailure)
    (h : (state.memberNote scratch pair half name regular content).flaw? = some failure) :
    Notable convention failure := by
  unfold memberNote at h
  by_cases hheld : state.table.holds pair half = true
  · rw [if_pos hheld] at h
    cases h
    exact .duplicate name
  · rw [if_neg hheld] at h
    cases regular with
    | false =>
        cases h
        exact .unreadable name _
    | true =>
        simp only [Bool.not_true, Bool.false_eq_true, if_false] at h
        cases hwrite : (scratch.write name content state.tree).1 with
        | error e =>
            rw [hwrite] at h
            cases h
            exact .unreadable name _
        | ok path =>
            rw [hwrite] at h
            cases h

theorem Posts.grounded {position : Nat} {entry : Entry} {posting : Posting}
    (h : state.Posts convention scratch position entry posting) :
    posting.Grounded convention := by
  cases h with
  | «sealed» reason =>
      refine ⟨?_, fun _ => rfl⟩
      intro failure hflaw
      cases hflaw
      exact .unreadable _ reason
  | misnamed content hplace =>
      refine ⟨?_, fun _ => rfl⟩
      intro failure hflaw
      cases hflaw
      exact .misnamed hplace
  | @member name pair variant half regular content hplace =>
      refine ⟨?_, fun hvariant => nomatch hvariant⟩
      intro failure hflaw
      dsimp only at hflaw
      exact notable_memberNote pair half (normalize name) regular content failure hflaw

end Unpacked

namespace Note

/-- Every note leaves something behind. -/
theorem filled_enter (note : Note) (pending : Pending) :
    ((note.enter pending).get? .grammar).isSome ∨ ((note.enter pending).get? .data).isSome ∨
      (note.enter pending).failure.isSome := by
  cases note with
  | flaw failure =>
      refine Or.inr (Or.inr ?_)
      rw [failure_enter, Option.isSome_or]
      exact Bool.or_true _
  | stored half extracted =>
      cases half with
      | grammar => exact Or.inl rfl
      | data => exact Or.inr (Or.inl rfl)

end Note

namespace Posting

variable {posting : Posting} {convention : Convention}

/-- An old pair keeps its failure, and a new one without a variant gets the one that is noted. -/
theorem Grounded.enter (h : posting.Grounded convention) (pending : Option Pending)
    (hpending : ∀ old, pending = some old → old.Grounded convention) :
    (posting.enter pending).Grounded convention where
  filled := posting.note.filled_enter _
  failed_of_nameless := by
    intro hvariant
    rw [Posting.enter, Note.variant_enter] at hvariant
    rw [Posting.enter, Note.failure_enter, Option.isSome_or]
    cases pending with
    | none => simp [h.flaw_of_nameless hvariant]
    | some old =>
        have hold := (hpending old rfl).failed_of_nameless hvariant
        simp [hold]
  notable := by
    intro failure hfailure
    rw [Posting.enter, Note.failure_enter] at hfailure
    rcases Option.or_eq_some_iff.mp hfailure with hold | ⟨-, hflaw⟩
    · cases pending with
      | none => cases hold
      | some old => exact (hpending old rfl).notable failure hold
    · exact h.notable failure hflaw

end Posting

namespace Table

def Grounded (convention : Convention) (table : Table) : Prop :=
  ∀ pending ∈ table, pending.Grounded convention

theorem Grounded.post {table : Table} {convention : Convention} (h : table.Grounded convention)
    (hdistinct : table.Distinct) {posting : Posting} (hposting : posting.Grounded convention) :
    (table.post posting).Grounded convention := by
  intro pending hmem
  have hfind := (hdistinct.post posting).find?_of_mem hmem
  rw [find?_post] at hfind
  split at hfind
  case isTrue =>
      rw [← Option.some.inj hfind]
      refine hposting.enter _ fun old hold => ?_
      exact h old (List.mem_of_find?_eq_some hold)
  case isFalse => exact h pending (List.mem_of_find?_eq_some hfind)

end Table

theorem grounded_unpack (convention : Convention) (scratch : Scratch) (entries : List Entry)
    (tree : FileTree) : (unpack convention scratch entries tree).table.Grounded convention := by
  induction entries using List.reverseRecOn with
  | nil => exact List.forall_mem_nil _
  | append_singleton entries entry ih =>
      rw [unpack_concat]
      rcases Unpacked.table_take_cases (unpack convention scratch entries tree) convention scratch
        (1 + entries.length) entry with hsame | ⟨posting, hposts, hposted⟩
      · rw [hsame]
        exact ih
      · rw [hposted]
        exact ih.post (distinct_unpack convention scratch entries tree) hposts.grounded

/-! What is reported. -/

namespace Pending

/-- Where a failure that is reported comes from. -/
inductive Reason (convention : Convention) (pending : Pending) : PairFailure → Prop where
  | noted {failure : PairFailure} :
      pending.failure = some failure → Notable convention failure →
      Reason convention pending failure
  | unknownVariant (unknown : UnknownVariant) :
      Reason convention pending (.unknownVariant unknown)
  | missingGrammar :
      pending.get? .grammar = none → (pending.get? .data).isSome →
      Reason convention pending (.missingGrammar pending.pair)
  | missingData :
      (pending.get? .grammar).isSome → pending.get? .data = none →
      Reason convention pending (.missingData pending.pair)
  | unreadable (entry reason : String) : Reason convention pending (.unreadable entry reason)

variable {pending : Pending} {convention : Convention}

theorem Grounded.data_isSome (h : pending.Grounded convention) (hfailure : pending.failure = none)
    (hgrammar : pending.get? .grammar = none) : (pending.get? .data).isSome := by
  rcases h.filled with hfilled | hfilled | hfilled
  · rw [hgrammar] at hfilled
    cases hfilled
  · exact hfilled
  · rw [hfailure] at hfilled
    cases hfilled

theorem read_eq_error {file : Extracted} {tree : FileTree} {failure : PairFailure}
    (h : file.read tree = .error failure) : ∃ entry reason, failure = .unreadable entry reason := by
  unfold Extracted.read at h
  cases hread : tree.readText file.path with
  | ok text => simp [hread] at h
  | error e =>
      simp only [hread, Except.error.injEq] at h
      exact ⟨_, _, h.symm⟩

theorem Grounded.reason_of_known (h : pending.Grounded convention) {variant : Variant}
    {tree : FileTree} {failure : PairFailure} (hfailure : pending.failure = none)
    (hknown : pending.known = .ok (some variant))
    (hfailed : pending.outcome tree = .failed failure) : pending.Reason convention failure := by
  rw [outcome_of_known tree hfailure hknown] at hfailed
  cases hgrammar : pending.get? .grammar with
  | none =>
      rw [hgrammar] at hfailed
      cases hfailed
      exact .missingGrammar hgrammar (h.data_isSome hfailure hgrammar)
  | some grammar =>
      cases hdata : pending.get? .data with
      | none =>
          rw [hgrammar, hdata] at hfailed
          cases hfailed
          exact .missingData (hgrammar ▸ rfl) hdata
      | some data =>
          simp only [hgrammar, hdata] at hfailed
          cases hfirst : grammar.read tree with
          | error e =>
              simp only [hfirst, Outcome.failed.injEq] at hfailed
              obtain ⟨entry, reason, rfl⟩ := read_eq_error hfirst
              rw [← hfailed]
              exact .unreadable entry reason
          | ok first =>
              cases hsecond : data.read tree with
              | error e =>
                  simp only [hfirst, hsecond, Outcome.failed.injEq] at hfailed
                  obtain ⟨entry, reason, rfl⟩ := read_eq_error hsecond
                  rw [← hfailed]
                  exact .unreadable entry reason
              | ok second => simp [hfirst, hsecond] at hfailed

/-- A pair without a variant has failed before, so that its variant is never reported to be
missing. -/
theorem Grounded.reason (h : pending.Grounded convention) {tree : FileTree}
    {failure : PairFailure} (hfailed : pending.outcome tree = .failed failure) :
    pending.Reason convention failure := by
  cases hfailure : pending.failure with
  | some noted =>
      simp only [outcome, load, hfailure, Outcome.failed.injEq] at hfailed
      subst hfailed
      exact .noted hfailure (h.notable noted hfailure)
  | none =>
      cases hvariant : pending.variant with
      | none =>
          have hsome := h.failed_of_nameless hvariant
          rw [hfailure] at hsome
          cases hsome
      | some text =>
          cases hparse : Variant.ofText text with
          | error unknown =>
              simp only [outcome, load, known, hfailure, hvariant, hparse, Except.map,
                Outcome.failed.injEq] at hfailed
              subst hfailed
              exact .unknownVariant unknown
          | ok variant =>
              have hknown : pending.known = .ok (some variant) := by
                simp [known, hvariant, hparse, Except.map]
              exact h.reason_of_known hfailure hknown hfailed

variable {failure : PairFailure} {pair entry expected : String}

theorem Reason.of_missingGrammar
    (h : pending.Reason convention (.missingGrammar pair)) :
    pair = pending.pair ∧ pending.grammar = none ∧ pending.data.isSome := by
  cases h with
  | noted _ hnotable => cases hnotable
  | missingGrammar hgrammar hdata => exact ⟨rfl, hgrammar, hdata⟩

theorem Reason.of_missingData (h : pending.Reason convention (.missingData pair)) :
    pair = pending.pair ∧ pending.grammar.isSome ∧ pending.data = none := by
  cases h with
  | noted _ hnotable => cases hnotable
  | missingData hgrammar hdata => exact ⟨rfl, hgrammar, hdata⟩

theorem Reason.of_misnamed (h : pending.Reason convention (.misnamed entry expected)) :
    pending.failure = some (.misnamed entry expected) ∧
      convention entry = .misnamed expected := by
  cases h with
  | noted hfailure hnotable =>
      cases hnotable with
      | misnamed hplace => exact ⟨hfailure, hplace⟩

end Pending

namespace Plan

/-- The index tells exactly where each pair stands, no pair stands twice, each holds a file or a
failure, and one without a variant a failure. So a report says that a file is missing only where
the other one is there, and that an entry is misnamed only where the convention has said so: the
name of the pair itself is never found to lack a variant. -/
theorem processIn_grounded (plan : Plan) (run : Run) (archive : Path) (scratch : Scratch)
    (entries : List Entry) (tree : FileTree) (journal : Log.Journal) :
    let slots := (collect plan.convention scratch entries tree).table
    (∀ pair place, slots.place? pair = some place ↔
        (slots.pairs[place]?).map Pending.pair = some pair) ∧
      (slots.pairs.map Pending.pair).Nodup ∧
      (∀ pending ∈ slots.pairs,
        (pending.grammar.isSome ∨ pending.data.isSome ∨ pending.failure.isSome) ∧
          (pending.variant = none → pending.failure.isSome)) ∧
      ∃ reports,
        ((plan.processIn run archive scratch ⟨entries, none⟩ tree).run journal).1.1 =
          .ok reports ∧
        ∀ report ∈ reports, ∃ pending ∈ slots.pairs, report.pair = pending.pair ∧
          (∀ pair, report.outcome = .failed (.missingGrammar pair) →
            pair = pending.pair ∧ pending.grammar = none ∧ pending.data.isSome) ∧
          (∀ pair, report.outcome = .failed (.missingData pair) →
            pair = pending.pair ∧ pending.grammar.isSome ∧ pending.data = none) ∧
          ∀ entry expected, report.outcome = .failed (.misnamed entry expected) →
            pending.failure = some (.misnamed entry expected) ∧
              plan.convention entry = .misnamed expected := by
  intro slots
  have hsound : slots.Sound := (agrees_collect plan.convention scratch entries tree).sound
  have hgrounded : Table.Grounded plan.convention slots.pairs := by
    rw [show slots.pairs = _ from pairs_collect plan.convention scratch entries tree]
    exact grounded_unpack plan.convention scratch entries tree
  refine ⟨hsound.place?_eq_some_iff, hsound.distinct, ?_, _,
    plan.fst_run_processIn run archive scratch entries tree journal, ?_⟩
  · intro pending hmem
    exact ⟨(hgrounded pending hmem).filled, (hgrounded pending hmem).failed_of_nameless⟩
  · intro report hreport
    rw [← pairs_collect] at hreport
    obtain ⟨pending, hmem, rfl⟩ := List.mem_map.mp hreport
    refine ⟨pending, hmem, rfl, ?_, ?_, ?_⟩
    · intro pair hfailed
      exact ((hgrounded pending hmem).reason hfailed).of_missingGrammar
    · intro pair hfailed
      exact ((hgrounded pending hmem).reason hfailed).of_missingData
    · intro entry expected hfailed
      exact ((hgrounded pending hmem).reason hfailed).of_misnamed

end Plan

end TableIntake.Batch
