import TableIntake.Proofs.Batch.Reports
import TableIntake.Proofs.Batch.Suffixes

namespace TableIntake.Batch

open TableIntake.Archive (Entry)
open TableIntake.Files

/-! Misnamed files: what an entry that follows no convention changes for the pairs. -/

theorem slash_not_mem_sealedLabel (position : Nat) :
    '/' ∉ (Unpacked.sealedLabel position).toList := by
  intro h
  have hlabel : (Unpacked.sealedLabel position).toList =
      "entry #".toList ++ Nat.toDigits 10 position := by
    rw [← Nat.toList_repr, ← String.toList_append]
    rfl
  rw [hlabel, List.mem_append] at h
  rcases h with h | h
  · exact absurd h (by decide)
  · have hdigit := Nat.isDigit_of_mem_toDigits (by decide) (by decide) h
    exact absurd hdigit (by decide)

namespace SuffixConvention

theorem slash_mem_of_classify {suffixes : SuffixConvention} {path pair variant : String}
    {half : Half} (h : suffixes.classify path = .member pair variant half) :
    '/' ∈ pair.toList := by
  obtain ⟨-, stem, first, -, hfirst, rfl, -⟩ := classify_eq_member.mp h
  obtain ⟨-, -, name, -, rfl⟩ := variant?_eq_some.mp hfirst
  rw [String.toList_ofList]
  exact List.mem_append_right first List.mem_cons_self

/-- A pair is never called like an entry that cannot be opened. -/
theorem ne_sealedLabel_of_isMember {suffixes : SuffixConvention} {pair : String} {entry : Entry}
    (h : IsMember suffixes.classify pair entry) (position : Nat) :
    pair ≠ Unpacked.sealedLabel position := by
  obtain ⟨half, variant, h⟩ := h
  cases entry with
  | skipped => cases h
  | «sealed» reason => cases h
  | member name regular content =>
      rintro rfl
      exact slash_not_mem_sealedLabel position (slash_mem_of_classify h)

end SuffixConvention

namespace Unpacked

/-! Two runs side by side, one of which has noted a failure under a name that the other has
not. Positions may differ as well, so that entries without a name are labelled differently. -/

structure Beside (name : String) (plain noted : Unpacked Table) : Prop where
  tree : noted.tree = plain.tree
  holds : ∀ pair half, noted.table.holds pair half = plain.table.holds pair half
  find? : ∀ pair, pair ≠ name → (∀ position, pair ≠ sealedLabel position) →
    noted.table.find? pair = plain.table.find? pair

theorem holds_flaw (table : Table) (label : String) (variant : Option String)
    (failure : PairFailure) (pair : String) (half : Half) :
    (table.post ⟨label, variant, .flaw failure⟩).holds pair half = table.holds pair half := by
  rw [Table.holds_post]
  simp [Note.fills]

theorem Beside.of_fail (state : Unpacked Table) (name : String) (variant : Option String)
    (failure : PairFailure) : Beside name state (state.fail name variant failure) where
  tree := rfl
  holds := holds_flaw state.table name variant failure
  find? := fun _ hpair _ => state.table.find?_post_of_ne ⟨name, variant, .flaw failure⟩ hpair

namespace Beside

variable {name : String} {plain noted : Unpacked Table}

/-- The same posting on both sides. -/
theorem post (h : Beside name plain noted) (posting : Posting) (tree : FileTree) :
    Beside name ⟨plain.table.post posting, tree⟩ ⟨noted.table.post posting, tree⟩ where
  tree := rfl
  holds := by
    intro pair half
    simp only [Table.holds_post, h.holds]
  find? := by
    intro pair hname hlabel
    simp only [Table.find?_post, h.find? pair hname hlabel]

theorem takeSealed (h : Beside name plain noted) (convention : Convention) (scratch : Scratch)
    (first second : Nat) (reason : String) :
    Beside name (plain.take convention scratch first (.sealed reason))
      (noted.take convention scratch second (.sealed reason)) where
  tree := h.tree
  holds := by
    intro pair half
    exact (holds_flaw ..).trans ((h.holds pair half).trans (holds_flaw ..).symm)
  find? := by
    intro pair hname hlabel
    have hnoted := noted.table.find?_post_of_ne
      ⟨sealedLabel second, none, .flaw (.unreadable (sealedLabel second) reason)⟩ (hlabel second)
    have hplain := plain.table.find?_post_of_ne
      ⟨sealedLabel first, none, .flaw (.unreadable (sealedLabel first) reason)⟩ (hlabel first)
    exact hnoted.trans ((h.find? pair hname hlabel).trans hplain.symm)

theorem takeMember (h : Beside name plain noted) (scratch : Scratch) (pair variant : String)
    (half : Half) (entry : String) (regular : Bool) (content : Content) :
    Beside name (plain.takeMember scratch pair variant half entry regular content)
      (noted.takeMember scratch pair variant half entry regular content) := by
  have hnote : noted.memberNote scratch pair half entry regular content =
      plain.memberNote scratch pair half entry regular content := by
    simp only [memberNote, h.holds, h.tree]
  have htree : noted.memberTree scratch pair half entry regular content =
      plain.memberTree scratch pair half entry regular content := by
    simp only [memberTree, h.holds, h.tree]
  rw [takeMember_eq, takeMember_eq, hnote, htree]
  exact h.post _ _

theorem take (h : Beside name plain noted) (convention : Convention) (scratch : Scratch)
    (first second : Nat) (entry : Entry) :
    Beside name (plain.take convention scratch first entry)
      (noted.take convention scratch second entry) := by
  cases entry with
  | skipped => exact h
  | «sealed» reason => exact h.takeSealed convention scratch first second reason
  | member entry regular content =>
      simp only [Unpacked.take]
      cases convention (normalize entry) with
      | ignored => exact h
      | misnamed expected =>
          cases regular with
          | false => exact h
          | true =>
              have hposted := h.post
                ⟨normalize entry, none, .flaw (.misnamed (normalize entry) expected)⟩ noted.tree
              obtain ⟨table, tree⟩ := plain
              cases h.tree
              exact hposted
      | member pair variant half =>
          exact h.takeMember scratch pair variant half (normalize entry) regular content

theorem takeAll (h : Beside name plain noted) (convention : Convention) (scratch : Scratch)
    (first second : Nat) (entries : List Entry) :
    Beside name (takeAll convention scratch first plain entries)
      (takeAll convention scratch second noted entries) := by
  induction entries generalizing first second plain noted with
  | nil => exact h
  | cons entry entries ih =>
      exact ih (h.take convention scratch first second entry) (first + 1) (second + 1)

end Beside

end Unpacked

/-! Pairs that have failed. -/

namespace Table

/-- The pair as the next posting about it finds it. -/
def slot (table : Table) (pair : String) : Pending :=
  (table.find? pair).getD { pair, variant := none }

theorem settled_fail (table : Table) (pair : String) (failure : PairFailure) :
    (table.fail pair none failure).Settled pair (table.slot pair).variant
      ((table.slot pair).failure.getD failure) := by
  refine ⟨(table.slot pair).fail failure, ?_, rfl, ?_⟩
  · exact table.find?_post_self ⟨pair, none, .flaw failure⟩
  · unfold Pending.fail
    cases (table.slot pair).failure <;> rfl

theorem Settled.filter_reports {table : Table} {pair : String} {variant : Option String}
    {failure : PairFailure} (h : table.Settled pair variant failure) (hd : table.Distinct)
    (tree : FileTree) :
    (table.reports tree).filter (·.pair = pair) =
      [⟨pair, (Pending.mk pair variant none none none).known.toOption.bind id,
        .failed failure⟩] := by
  obtain ⟨pending, hfind, rfl, hfailure⟩ := h
  rw [hd.filter_reports, hfind]
  simp [Pending.reported, Pending.outcome, Pending.load, Pending.known, hfailure,
    pair_of_find? hfind]

/-- Only misnamed files are noted under the name. -/
def Unclaimed (table : Table) (name expected : String) : Prop :=
  ∀ pending, table.find? name = some pending →
    pending.variant = none ∧ pending.failure = some (.misnamed name expected)

theorem Unclaimed.post {table : Table} {name expected : String}
    (h : table.Unclaimed name expected) {posting : Posting}
    (hposting : posting.pair = name →
      posting = ⟨name, none, .flaw (.misnamed name expected)⟩) :
    (table.post posting).Unclaimed name expected := by
  intro pending hfind
  rw [find?_post] at hfind
  split at hfind
  case isFalse => exact h pending hfind
  case isTrue heq =>
      have hsame := hposting heq.symm
      subst hsame
      cases Option.some.inj hfind
      cases hold : table.find? name with
      | none => exact ⟨rfl, rfl⟩
      | some old =>
          obtain ⟨hvariant, hfailure⟩ := h old hold
          refine ⟨(Note.variant_enter _ old).trans hvariant, ?_⟩
          exact Note.failure_enter_of_some _ hfailure

theorem Unclaimed.slot {table : Table} {name expected : String}
    (h : table.Unclaimed name expected) :
    (table.slot name).variant = none ∧
      (table.slot name).failure.getD (.misnamed name expected) = .misnamed name expected := by
  unfold Table.slot
  cases hfind : table.find? name with
  | none => exact ⟨rfl, rfl⟩
  | some pending =>
      obtain ⟨hvariant, hfailure⟩ := h pending hfind
      exact ⟨hvariant, by rw [Option.getD_some, hfailure, Option.getD_some]⟩

end Table

namespace Unpacked

variable {state : Unpacked Table} {convention : Convention}

theorem unclaimed_take {name expected : String} (h : state.table.Unclaimed name expected)
    (hname : convention name = .misnamed expected) (scratch : Scratch) (position : Nat)
    {entry : Entry} (hmember : ¬ IsMember convention name entry)
    (hlabel : ∀ reason, entry = .sealed reason → sealedLabel position ≠ name) :
    (state.take convention scratch position entry).table.Unclaimed name expected := by
  rcases state.table_take_cases convention scratch position entry with
    hsame | ⟨posting, hposts, hposted⟩
  · rw [hsame]
    exact h
  · rw [hposted]
    refine h.post fun heq => ?_
    cases hposts with
    | «sealed» reason => exact absurd heq (hlabel reason rfl)
    | @misnamed other expected content hplace =>
        have hother : normalize other = name := heq
        rw [hother] at hplace ⊢
        cases hplace.symm.trans hname
        rfl
    | @member _ pair variant half regular content hplace =>
        have hpair : pair = name := heq
        exact absurd ⟨half, variant, hpair ▸ hplace⟩ hmember

theorem unclaimed_unpack {name expected : String} (hname : convention name = .misnamed expected)
    (scratch : Scratch) (tree : FileTree) {entries : List Entry}
    (hmember : ∀ entry ∈ entries, ¬ IsMember convention name entry)
    (hlabel : ∀ position reason, entries[position]? = some (.sealed reason) →
      sealedLabel (position + 1) ≠ name) :
    (unpack convention scratch entries tree).table.Unclaimed name expected := by
  refine takeAll_induction (motive := fun state => state.table.Unclaimed name expected)
    entries 1 (fun offset entry hentry state h => ?_) nofun
  refine unclaimed_take h hname scratch (1 + offset)
    (hmember entry (List.mem_of_getElem? hentry)) ?_
  rintro reason rfl
  rw [Nat.add_comm]
  exact hlabel offset reason hentry

end Unpacked

namespace Plan

/-- A misnamed file leaves every pair as it is, except one that is called like the file: that
pair fails with it. If nothing else is called like it, the file gets a report of its own. -/
theorem reports_with_misnamed (plan : Plan) {suffixes : SuffixConvention}
    (hplan : plan.convention = suffixes.classify) (run : Run) (archive : Path)
    (scratch : Scratch) (tree : FileTree) (before after : List Entry)
    {name expected : String} (hname : suffixes.classify (normalize name) = .misnamed expected)
    (content : Content) (first second : Log.Journal) :
    ∃ plain widened,
      (((plan.processIn run archive scratch ⟨before ++ after, none⟩ tree).run first).1.1 =
        .ok plain) ∧
      (((plan.processIn run archive scratch
          ⟨before ++ .member name true content :: after, none⟩ tree).run second).1.1 =
        .ok widened) ∧
      (∀ pair, (∃ entry ∈ before ++ after, IsMember plan.convention pair entry) →
        pair ≠ normalize name →
          widened.filter (·.pair = pair) = plain.filter (·.pair = pair)) ∧
      (∀ slot, (unpack plan.convention scratch before tree).table.slot (normalize name) = slot →
        widened.filter (·.pair = normalize name) =
          [⟨normalize name, slot.known.toOption.bind id,
            .failed (slot.failure.getD (.misnamed (normalize name) expected))⟩]) ∧
      ((∀ entry ∈ before, ¬ IsMember plan.convention (normalize name) entry) →
        (∀ position reason, before[position]? = some (.sealed reason) →
          Unpacked.sealedLabel (position + 1) ≠ normalize name) →
        widened.filter (·.pair = normalize name) =
          [⟨normalize name, none, .failed (.misnamed (normalize name) expected)⟩]) := by
  rw [hplan]
  -- The state before the file, and the two runs that go on from it.
  let start := unpack suffixes.classify scratch before tree
  let plain := Unpacked.takeAll suffixes.classify scratch (1 + before.length) start after
  let noted := Unpacked.takeAll suffixes.classify scratch (1 + before.length + 1)
    (start.fail (normalize name) none (.misnamed (normalize name) expected)) after
  have hplain : unpack suffixes.classify scratch (before ++ after) tree = plain :=
    Unpacked.takeAll_append ..
  have hnoted : unpack suffixes.classify scratch
      (before ++ .member name true content :: after) tree = noted := by
    refine (Unpacked.takeAll_append ..).trans ?_
    simp only [Unpacked.takeAll, Unpacked.take, hname, if_true]
    rfl
  have hbeside : Unpacked.Beside (normalize name) plain noted :=
    (Unpacked.Beside.of_fail start _ none _).takeAll ..
  have hplaindistinct : plain.table.Distinct := hplain ▸ distinct_unpack ..
  have hnoteddistinct : noted.table.Distinct := hnoted ▸ distinct_unpack ..
  have hsettled : noted.table.Settled (normalize name) (start.table.slot (normalize name)).variant
      ((start.table.slot (normalize name)).failure.getD
        (.misnamed (normalize name) expected)) :=
    Unpacked.takeAll_induction (motive := fun state => state.table.Settled ..) after _
      (fun _ entry _ _ h => Unpacked.settled_take h suffixes.classify scratch _ entry)
      (start.table.settled_fail (normalize name) _)
  have hslot := hsettled.filter_reports hnoteddistinct noted.tree
  refine ⟨plain.table.reports plain.tree, noted.table.reports noted.tree, ?_, ?_, ?_, ?_, ?_⟩
  · rw [plan.fst_run_processIn run archive scratch _ tree first, hplan, hplain]
  · rw [plan.fst_run_processIn run archive scratch _ tree second, hplan, hnoted]
  · rintro pair ⟨entry, -, hmember⟩ hpair
    rw [hnoteddistinct.filter_reports, hplaindistinct.filter_reports, hbeside.tree,
      hbeside.find? pair hpair (SuffixConvention.ne_sealedLabel_of_isMember hmember)]
  · rintro slot rfl
    exact hslot
  · intro hmember hlabel
    obtain ⟨hvariant, hfailure⟩ :=
      (Unpacked.unclaimed_unpack hname scratch tree hmember hlabel).slot
    rw [hslot, hvariant, hfailure]
    rfl

theorem reports_with_notes :
    ∃ widened,
      ((({ scratchRoot := ⟨true, ["tmp"]⟩ } : Plan).processIn ⟨"tag", 0⟩ ⟨true, ["a.tar"]⟩
          ⟨⟨true, ["tmp", "tag"]⟩, []⟩
          ⟨[.member "event/a.data.csv" true ⟨[49], none⟩,
            .member "notes.txt" true ⟨[], none⟩], none⟩
          ⟨[(["tag", "tmp"], .directory), (["tmp"], .directory)], []⟩).run {}).1.1 =
        .ok widened ∧
      widened.filter (·.pair = "notes.txt") =
        [⟨"notes.txt", none,
          .failed (.misnamed "notes.txt" ({} : SuffixConvention).expected)⟩] := by
  have hnormal : normalize "notes.txt" = "notes.txt" := by decide +kernel
  have hname : ({} : SuffixConvention).classify (normalize "notes.txt") =
      .misnamed ({} : SuffixConvention).expected := by decide +kernel
  obtain ⟨_, widened, _, hwidened, _, _, hown⟩ := reports_with_misnamed
    { scratchRoot := ⟨true, ["tmp"]⟩ } rfl ⟨"tag", 0⟩ ⟨true, ["a.tar"]⟩
    ⟨⟨true, ["tmp", "tag"]⟩, []⟩ ⟨[(["tag", "tmp"], .directory), (["tmp"], .directory)], []⟩
    [.member "event/a.data.csv" true ⟨[49], none⟩] [] hname ⟨[], none⟩ {} {}
  rw [hnormal] at hown
  rw [List.singleton_append] at hwidened
  refine ⟨widened, hwidened, hown ?_ ?_⟩
  · intro entry hentry hmember
    obtain ⟨half, variant, hplace⟩ := hmember
    rw [List.mem_singleton.mp hentry] at hplace
    have hpair : placement ({} : SuffixConvention).classify
        (.member "event/a.data.csv" true ⟨[49], none⟩) =
          .member "event/a" "event" .data := by decide +kernel
    have hne : "event/a" ≠ "notes.txt" := by decide
    exact hne (Placement.member.inj (hpair.symm.trans hplace)).1
  · intro position reason hposition
    cases List.mem_singleton.mp (List.mem_of_getElem? hposition)

/-- The pair that a misnamed file is called like is lost to it. -/
theorem reports_with_namesake :
    let plan : Plan := { scratchRoot := ⟨true, ["tmp"]⟩ }
    let scratch : Scratch := ⟨⟨true, ["tmp", "tag"]⟩, []⟩
    let tree : FileTree := ⟨[(["tag", "tmp"], .directory), (["tmp"], .directory)], []⟩
    let grammar := Entry.member "dimension/a.grammar.csv" true
      ⟨"PK\ninteger\nid".toUTF8.toList, none⟩
    let data := Entry.member "dimension/a.data.csv" true ⟨"1".toUTF8.toList, none⟩
    let namesake := Entry.member "dimension/a" true ⟨[], none⟩
    let expected := ({} : SuffixConvention).expected
    plan.convention (normalize "dimension/a") = .misnamed expected ∧
      ∃ plain widened,
        ((plan.processIn ⟨"tag", 0⟩ ⟨true, ["a.tar"]⟩ scratch ⟨[grammar, data], none⟩
          tree).run {}).1.1 = .ok plain ∧
        ((plan.processIn ⟨"tag", 0⟩ ⟨true, ["a.tar"]⟩ scratch ⟨[grammar, data, namesake], none⟩
          tree).run {}).1.1 = .ok widened ∧
        plain.map (fun report => (report.pair, report.failure?)) = [("dimension/a", none)] ∧
        widened.map (fun report => (report.pair, report.failure?)) =
          [("dimension/a", some (.misnamed "dimension/a" expected))] := by
  intro plan scratch tree grammar data namesake expected
  have hreports := fun entries =>
    plan.fst_run_processIn ⟨"tag", 0⟩ ⟨true, ["a.tar"]⟩ scratch entries tree {}
  refine ⟨?_, _, _, hreports [grammar, data], hreports [grammar, data, namesake], ?_, ?_⟩
  · decide +kernel
  · decide +kernel
  · decide +kernel

end Plan

end TableIntake.Batch
