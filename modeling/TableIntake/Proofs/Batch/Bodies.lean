import Mathlib.Control.Monad.Basic
import TableIntake.Proofs.Batch.Reports
import TableIntake.Proofs.Scratch.Writes

namespace TableIntake.Batch

open TableIntake.Archive (Entry)
open TableIntake.Files
open TableIntake.Files.FileTree (KeepsBut)
open TableIntake.Text (ofUtf8?)

/-! Bodies: which bytes of an archive a pair is checked against. -/

namespace Table

/-- What is stored as a half of a pair. -/
def get? (table : Table) (pair : String) (half : Half) : Option Extracted :=
  (table.find? pair).bind (·.get? half)

theorem holds_eq (table : Table) (pair : String) (half : Half) :
    table.holds pair half = (table.get? pair half).isSome := rfl

theorem get?_post {table : Table} {posting : Posting} {pair : String} {half : Half}
    (h : pair = posting.pair → posting.note.fills half = false) :
    (table.post posting).get? pair half = table.get? pair half := by
  unfold get?
  rw [find?_post]
  by_cases heq : pair = posting.pair
  · rw [if_pos heq, Option.bind_some, Posting.enter, Note.get?_enter _ _ (h heq)]
    cases table.find? pair with
    | none => rw [Option.getD_none, Pending.get?_new, Option.bind_none]
    | some pending => rfl
  · rw [if_neg heq]

theorem get?_post_stored (table : Table) (pair : String) (variant : Option String)
    (half : Half) (extracted : Extracted) :
    (table.post ⟨pair, variant, .stored half extracted⟩).get? pair half = some extracted := by
  unfold get?
  rw [find?_post, if_pos rfl, Option.bind_some]
  cases half <;> rfl

end Table

namespace Unpacked

variable {state : Unpacked Table} {convention : Convention} {scratch : Scratch} {pair : String}
  {half : Half}

theorem memberNote_eq_stored {name : String} {regular : Bool} {content : Content}
    {other : Half} {extracted : Extracted}
    (h : state.memberNote scratch pair half name regular content = .stored other extracted) :
    state.table.holds pair half = false ∧ regular = true ∧ half = other ∧
      extracted.entry = name ∧
      (scratch.write name content state.tree).1 = .ok extracted.path := by
  unfold memberNote at h
  split at h
  case isTrue => cases h
  case isFalse hholds =>
      split at h
      case isTrue => cases h
      case isFalse hregular =>
          split at h
          case h_1 => cases h
          case h_2 path hwrite =>
              cases h
              refine ⟨eq_false_of_ne_true hholds, ?_, rfl, rfl, hwrite⟩
              simpa using hregular

theorem fills_memberNote_of_holds (h : state.table.holds pair half = true) (name : String)
    (regular : Bool) (content : Content) (other : Half) :
    (state.memberNote scratch pair half name regular content).fills other = false := by
  unfold memberNote
  rw [if_pos h]
  rfl

theorem fills_memberNote_of_ne {other : Half} (h : other ≠ half) (name : String)
    (regular : Bool) (content : Content) :
    (state.memberNote scratch pair half name regular content).fills other = false := by
  unfold memberNote
  split
  · rfl
  · split
    · rfl
    · split
      · rfl
      · simpa [Note.fills] using Ne.symm h

theorem get?_take {extracted : Extracted} (h : state.table.get? pair half = some extracted)
    (convention : Convention) (scratch : Scratch) (position : Nat) (entry : Entry) :
    (state.take convention scratch position entry).table.get? pair half = some extracted := by
  have hholds : state.table.holds pair half = true := by
    rw [Table.holds_eq, h]
    rfl
  rcases state.table_take_cases convention scratch position entry with
    hsame | ⟨posting, hposts, hposted⟩
  · rw [hsame, h]
  · rw [hposted]
    refine (Table.get?_post fun hpair => ?_).trans h
    cases hposts with
    | «sealed» reason => rfl
    | misnamed content hplace => rfl
    | @member name other variant taken regular content hplace =>
        have hpair : pair = other := hpair
        subst hpair
        change (state.memberNote scratch pair taken (normalize name) regular content).fills half =
          false
        by_cases htaken : half = taken
        · subst htaken
          exact fills_memberNote_of_holds hholds ..
        · exact fills_memberNote_of_ne htaken ..

theorem holds_take (h : state.table.holds pair half = true) (convention : Convention)
    (scratch : Scratch) (position : Nat) (entry : Entry) :
    (state.take convention scratch position entry).table.holds pair half = true := by
  obtain ⟨extracted, hextracted⟩ := Option.isSome_iff_exists.mp h
  rw [Table.holds_eq, get?_take hextracted convention scratch position entry]
  rfl

/-- A half is stored when it is new, or its pair fails. -/
theorem take_half (state : Unpacked Table) {entry : Entry} (h : IsHalf convention pair half entry)
    (scratch : Scratch) (position : Nat) :
    (state.table.holds pair half = false ∧
        (state.take convention scratch position entry).table.holds pair half = true) ∨
      ∃ variant failure,
        (state.take convention scratch position entry).table.Settled pair variant failure := by
  obtain ⟨variant, hplace⟩ := h
  cases entry with
  | skipped => cases hplace
  | «sealed» reason => cases hplace
  | member name regular content =>
      have hplace : convention (normalize name) = .member pair variant half := hplace
      simp only [table_take, posting?, hplace, Option.map_some, Option.getD_some]
      cases hnote : state.memberNote scratch pair half (normalize name) regular content with
      | flaw failure =>
          right
          exact state.table.settled_post_flaw pair (some variant) failure
      | stored other extracted =>
          left
          obtain ⟨hholds, -, rfl, -, -⟩ := memberNote_eq_stored hnote
          refine ⟨hholds, ?_⟩
          rw [Table.holds_eq, Table.get?_post_stored]
          rfl

/-! Files that are filled more than once. -/

/-- The bytes that an entry fills the file of the pieces with, if it does. -/
def filling? (state : Unpacked Table) (convention : Convention) (scratch : Scratch)
    (pieces : List String) : Entry → Option (List UInt8)
  | .skipped => none
  | .sealed _ => none
  | .member name regular content =>
      match convention (normalize name) with
      | .ignored => none
      | .misnamed _ => none
      | .member pair _ half =>
          if state.table.holds pair half then none
          else if !regular then none
          else if scratch.filled? (normalize name) content state.tree = some pieces then
            some content.bytes
          else none

/-- The bytes that the last of the entries that fill it leave in the file of the pieces. -/
def overwriting? (convention : Convention) (scratch : Scratch) (pieces : List String) :
    Nat → Unpacked Table → List Entry → Option (List UInt8)
  | _, _, [] => none
  | position, state, entry :: entries =>
      overwriting? convention scratch pieces (position + 1)
          (state.take convention scratch position entry) entries <|>
        state.filling? convention scratch pieces entry

theorem contains_take {pieces : List String} {bytes : List UInt8}
    (h : scratch.Contains state.tree pieces bytes)
    (hnames : ∀ piece ∈ pieces, FileTree.isName piece = true) (convention : Convention)
    (position : Nat) (entry : Entry) :
    scratch.Contains (state.take convention scratch position entry).tree pieces
      ((state.filling? convention scratch pieces entry).getD bytes) := by
  cases entry with
  | skipped => exact h
  | «sealed» reason => exact h
  | member name regular content =>
      simp only [take, filling?]
      cases convention (normalize name) with
      | ignored => exact h
      | misnamed expected => cases regular <;> exact h
      | member pair variant half =>
          simp only [takeMember_eq, memberTree]
          split
          case isTrue => exact h
          case isFalse =>
              split
              case isTrue => exact h
              case isFalse =>
                  rw [apply_ite (Option.getD · bytes)]
                  exact h.write hnames (normalize name) content

theorem contains_takeAll {pieces : List String}
    (hnames : ∀ piece ∈ pieces, FileTree.isName piece = true) (convention : Convention)
    (position : Nat) (entries : List Entry) {state : Unpacked Table} {bytes : List UInt8}
    (h : scratch.Contains state.tree pieces bytes) :
    scratch.Contains (takeAll convention scratch position state entries).tree pieces
      ((overwriting? convention scratch pieces position state entries).getD bytes) := by
  induction entries generalizing position state bytes with
  | nil => exact h
  | cons entry entries ih =>
      have hrest := ih (position + 1) (contains_take h hnames convention position entry)
      simp only [takeAll, overwriting?]
      cases hlast : overwriting? convention scratch pieces (position + 1)
          (state.take convention scratch position entry) entries with
      | none =>
          rw [hlast] at hrest
          exact hrest
      | some last =>
          rw [hlast] at hrest
          exact hrest

theorem overwriting?_eq_none {pieces : List String} (position : Nat) {entries : List Entry}
    {state : Unpacked Table}
    (h : ∀ name regular content, .member name regular content ∈ entries →
      Scratch.entryPieces (normalize name) ≠ .ok pieces) :
    overwriting? convention scratch pieces position state entries = none := by
  induction entries generalizing position state with
  | nil => rfl
  | cons entry entries ih =>
      have hrest := fun name regular content hmem =>
        h name regular content (List.mem_cons_of_mem entry hmem)
      rw [overwriting?, ih (position + 1) hrest]
      change state.filling? convention scratch pieces entry = none
      cases entry with
      | skipped => rfl
      | «sealed» reason => rfl
      | member name regular content =>
          have hname := h name regular content List.mem_cons_self
          have hfilled : scratch.filled? (normalize name) content state.tree ≠ some pieces :=
            fun hsome => hname (Scratch.entryPieces_of_filled? hsome)
          simp only [filling?]
          cases convention (normalize name) with
          | ignored => rfl
          | misnamed expected => rfl
          | member pair variant half => simp [hfilled]

/-- What comes to hold in a run is brought about by one of its entries. -/
theorem exists_take {motive : Unpacked Table → Prop} (convention : Convention) (scratch : Scratch)
    (position : Nat) (state : Unpacked Table) (entries : List Entry) (hbefore : ¬ motive state)
    (hafter : motive (takeAll convention scratch position state entries)) :
    ∃ before entry after, entries = before ++ entry :: after ∧
      ¬ motive (takeAll convention scratch position state before) ∧
      motive ((takeAll convention scratch position state before).take convention scratch
        (position + before.length) entry) := by
  induction entries generalizing position state with
  | nil => exact absurd hafter hbefore
  | cons first entries ih =>
      by_cases hfirst : motive (state.take convention scratch position first)
      · exact ⟨[], first, entries, rfl, hbefore, hfirst⟩
      · obtain ⟨before, entry, after, rfl, hnot, hheld⟩ := ih (position + 1) _ hfirst hafter
        refine ⟨first :: before, entry, after, rfl, hnot, ?_⟩
        rw [List.length_cons, Nat.add_comm before.length, ← Nat.add_assoc]
        exact hheld

/-- An entry with which a half comes to be held is that half, and its own bytes are stored. -/
theorem take_stores {position : Nat} {entry : Entry}
    (hbefore : ¬ state.table.holds pair half = true)
    (hafter : (state.take convention scratch position entry).table.holds pair half = true) :
    ∃ name content pieces, entry = .member name true content ∧
      IsHalf convention pair half entry ∧ content.fault = none ∧
      Scratch.entryPieces (normalize name) = .ok pieces ∧
      (state.take convention scratch position entry).table.get? pair half =
        some ⟨normalize name, scratch.entryPath pieces⟩ ∧
      scratch.Contains (state.take convention scratch position entry).tree pieces
        content.bytes := by
  rcases state.table_take_cases convention scratch position entry with
    hsame | ⟨posting, hposts, hposted⟩
  · rw [hsame] at hafter
    exact absurd hafter hbefore
  · rw [hposted, Table.holds_post, eq_false_of_ne_true hbefore, Bool.or_false, Bool.and_eq_true,
      decide_eq_true_eq] at hafter
    obtain ⟨hpair, hfills⟩ := hafter
    cases hposts with
    | «sealed» reason => cases hfills
    | misnamed content hplace => cases hfills
    | @member name other variant taken regular content hplace =>
        have hpair : pair = other := hpair
        subst hpair
        cases hnote : state.memberNote scratch pair taken (normalize name) regular content with
        | flaw failure =>
            rw [hnote] at hfills
            cases hfills
        | stored filled extracted =>
            obtain ⟨hholds, rfl, rfl, hentry, hwrite⟩ := memberNote_eq_stored hnote
            rw [hnote] at hfills
            have hhalf : taken = half := of_decide_eq_true hfills
            subst hhalf
            obtain ⟨pieces, hfilled, hfault, hpath⟩ := Scratch.write_eq_ok hwrite
            have hpieces := Scratch.entryPieces_of_filled? hfilled
            refine ⟨name, content, pieces, rfl, ⟨variant, hplace⟩, hfault, hpieces, ?_, ?_⟩
            · rw [hposted, hnote, Table.get?_post_stored, ← hpath, ← hentry]
            · simp only [take, hplace, takeMember_eq, memberTree, hholds]
              exact Scratch.contains_of_filled? hfilled

/-! Runs. -/

theorem settled_takeAll {variant : Option String} {failure : PairFailure}
    (h : state.table.Settled pair variant failure) (convention : Convention)
    (scratch : Scratch) (position : Nat) (entries : List Entry) :
    (takeAll convention scratch position state entries).table.Settled pair variant failure :=
  takeAll_induction (motive := fun state => state.table.Settled pair variant failure) entries
    position (fun _ entry _ _ h => settled_take h convention scratch _ entry) h

theorem get?_takeAll {extracted : Extracted}
    (h : state.table.get? pair half = some extracted) (convention : Convention)
    (scratch : Scratch) (position : Nat) (entries : List Entry) :
    (takeAll convention scratch position state entries).table.get? pair half =
      some extracted :=
  takeAll_induction (motive := fun state => state.table.get? pair half = some extracted) entries
    position (fun _ entry _ _ h => get?_take h convention scratch _ entry) h

theorem holds_takeAll (h : state.table.holds pair half = true) (convention : Convention)
    (scratch : Scratch) (position : Nat) (entries : List Entry) :
    (takeAll convention scratch position state entries).table.holds pair half = true :=
  takeAll_induction (motive := fun state => state.table.holds pair half = true) entries
    position (fun _ entry _ _ h => holds_take h convention scratch _ entry) h

/-- A half among the entries comes to be held, or its pair fails. A second one makes it fail. -/
theorem takeAll_half (state : Unpacked Table) {entries : List Entry} {entry : Entry}
    (hentry : entry ∈ entries) (hhalf : IsHalf convention pair half entry) (scratch : Scratch)
    (position : Nat) :
    (state.table.holds pair half = false ∧
        (takeAll convention scratch position state entries).table.holds pair half = true) ∨
      ∃ variant failure,
        (takeAll convention scratch position state entries).table.Settled pair variant
          failure := by
  obtain ⟨before, after, rfl⟩ := List.append_of_mem hentry
  rw [takeAll_append]
  let middle := takeAll convention scratch position state before
  rcases take_half middle hhalf scratch (position + before.length) with
    ⟨hbefore, hafter⟩ | ⟨variant, failure, hsettled⟩
  · left
    refine ⟨?_, holds_takeAll hafter convention scratch _ after⟩
    cases hheld : state.table.holds pair half with
    | false => rfl
    | true =>
        have hmiddle := holds_takeAll hheld convention scratch position before
        exact absurd (hbefore.symm.trans hmiddle) Bool.false_ne_true
  · right
    exact ⟨variant, failure, settled_takeAll hsettled convention scratch _ after⟩

end Unpacked

/-- The only entry that is this half of the pair. It is a regular file that can be read to its
end. -/
structure Sole (convention : Convention) (pair : String) (half : Half)
    (entries before : List Entry) (name : String) (bytes : List UInt8)
    (after : List Entry) : Prop where
  entries_eq : entries = before ++ .member name true ⟨bytes, none⟩ :: after
  isHalf : IsHalf convention pair half (.member name true ⟨bytes, none⟩)
  only : ∀ other ∈ before ++ after, ¬ IsHalf convention pair half other

/-- The text that a half is checked with. It is in the only entry of the half, unless a later
entry is written to the file that this one was written to. -/
def HasText (convention : Convention) (scratch : Scratch) (tree : FileTree)
    (entries : List Entry) (pair : String) (half : Half) (text : String) : Prop :=
  ∃ before name bytes after pieces,
    Sole convention pair half entries before name bytes after ∧
    Scratch.entryPieces (normalize name) = .ok pieces ∧
    ofUtf8? ((Unpacked.overwriting? convention scratch pieces (before.length + 2)
      (unpack convention scratch (before ++ [.member name true ⟨bytes, none⟩]) tree)
      after).getD bytes) = some text ∧
    ((∀ other regular content, .member other regular content ∈ after →
        Scratch.entryPieces (normalize other) ≠ .ok pieces) →
      ofUtf8? bytes = some text)

theorem read_eq_ok {extracted : Extracted} {tree : FileTree} {text : String}
    (h : extracted.read tree = .ok text) :
    ∃ location bytes, tree.lookup extracted.path = .ok (location, .file bytes) ∧
      ofUtf8? bytes = some text := by
  unfold Extracted.read FileTree.readText FileTree.readFile at h
  cases hlookup : tree.lookup extracted.path with
  | error e => simp [hlookup, bind, Except.bind] at h
  | ok found =>
      obtain ⟨location, node⟩ := found
      cases node with
      | directory => simp [hlookup, bind, Except.bind] at h
      | file bytes =>
          cases hutf8 : ofUtf8? bytes with
          | none => simp [hlookup, hutf8, bind, Except.bind, pure, Except.pure] at h
          | some decoded =>
              simp [hlookup, hutf8, bind, Except.bind, pure, Except.pure] at h
              exact ⟨location, bytes, rfl, by rw [hutf8, h]⟩

/-! The run up to an entry, and the run from there on. -/

section Middle

variable {convention : Convention} {scratch : Scratch} {before after : List Entry} {entry : Entry}
  {tree : FileTree} {pair : String} {half : Half}

theorem unpack_append_cons (convention : Convention) (scratch : Scratch) (before after : List Entry)
    (entry : Entry) (tree : FileTree) :
    unpack convention scratch (before ++ entry :: after) tree =
      Unpacked.takeAll convention scratch (before.length + 2)
        (unpack convention scratch (before ++ [entry]) tree) after := by
  have hposition : before.length + 2 = 1 + before.length + 1 := by omega
  rw [unpack_concat, hposition]
  exact Unpacked.takeAll_append ..

/-- A pair that has not failed has no other entry for a half than the one that is stored. -/
theorem not_isHalf_of_stored
    (hsound : ¬ ∃ variant failure, (unpack convention scratch (before ++ entry :: after)
      tree).table.Settled pair variant failure)
    (hbefore : ¬ (unpack convention scratch before tree).table.holds pair half = true)
    (hafter : (unpack convention scratch (before ++ [entry]) tree).table.holds pair half = true) :
    ∀ other ∈ before ++ after, ¬ IsHalf convention pair half other := by
  intro other hother hsame
  refine hsound ?_
  rcases List.mem_append.mp hother with hmem | hmem
  · rcases Unpacked.takeAll_half ⟨[], tree⟩ hmem hsame scratch 1 with
      ⟨-, hheld⟩ | ⟨variant, failure, hsettled⟩
    · exact absurd hheld hbefore
    · refine ⟨variant, failure, ?_⟩
      have hall := Unpacked.settled_takeAll hsettled convention scratch (1 + before.length)
        (entry :: after)
      rwa [← Unpacked.takeAll_append] at hall
  · rw [unpack_append_cons]
    rcases Unpacked.takeAll_half (unpack convention scratch (before ++ [entry]) tree) hmem hsame
        scratch (before.length + 2) with ⟨hfresh, -⟩ | hsettled
    · exact absurd (hfresh.symm.trans hafter) Bool.false_ne_true
    · exact hsettled

end Middle

/-- Whatever is stored at the end came from one entry. Its file is still there, as it was filled
last. -/
theorem exists_storing {convention : Convention} {scratch : Scratch} {tree : FileTree}
    {entries : List Entry} {pair : String} {half : Half} {file : Extracted}
    (hget : (unpack convention scratch entries tree).table.get? pair half = some file) :
    ∃ before name bytes after pieces,
      entries = before ++ .member name true ⟨bytes, none⟩ :: after ∧
      IsHalf convention pair half (.member name true ⟨bytes, none⟩) ∧
      ¬ (unpack convention scratch before tree).table.holds pair half = true ∧
      (unpack convention scratch (before ++ [.member name true ⟨bytes, none⟩])
        tree).table.holds pair half = true ∧
      Scratch.entryPieces (normalize name) = .ok pieces ∧
      file.path = scratch.entryPath pieces ∧
      scratch.Contains (unpack convention scratch entries tree).tree pieces
        ((Unpacked.overwriting? convention scratch pieces (before.length + 2)
          (unpack convention scratch (before ++ [.member name true ⟨bytes, none⟩]) tree)
          after).getD bytes) := by
  have hheld : (unpack convention scratch entries tree).table.holds pair half = true := by
    rw [Table.holds_eq, hget]
    rfl
  obtain ⟨before, entry, after, hentries, hbefore, hafter⟩ :=
    Unpacked.exists_take (motive := fun state => state.table.holds pair half = true)
      convention scratch 1 ⟨[], tree⟩ entries Bool.false_ne_true hheld
  obtain ⟨name, content, pieces, hentry, hhalf, hwhole, hpieces, hstored, hcontains⟩ :=
    Unpacked.take_stores hbefore hafter
  obtain ⟨bytes, fault⟩ := content
  have hwhole : fault = none := hwhole
  subst hwhole hentry hentries
  have hstate := unpack_concat convention scratch before (.member name true ⟨bytes, none⟩) tree
  change _ = (Unpacked.takeAll convention scratch 1 ⟨[], tree⟩ before).take _ _ _ _ at hstate
  rw [← hstate] at hafter hstored hcontains
  have hlast := Unpacked.contains_takeAll (Scratch.isName_of_entryPieces hpieces) convention
    (before.length + 2) after hcontains
  have hextracted := Unpacked.get?_takeAll hstored convention scratch (before.length + 2) after
  rw [← unpack_append_cons] at hlast hextracted
  cases hget.symm.trans hextracted
  exact ⟨before, name, bytes, after, pieces, rfl, hhalf, hbefore, hafter, hpieces, rfl, hlast⟩

theorem hasText_of_read {convention : Convention} {scratch : Scratch} {tree : FileTree}
    {entries : List Entry} {pair : String} {half : Half} {text : String} {pending : Pending}
    {extracted : Extracted}
    (hfind : (unpack convention scratch entries tree).table.find? pair = some pending)
    (hfailure : pending.failure = none) (hget : pending.get? half = some extracted)
    (hread : extracted.read (unpack convention scratch entries tree).tree = .ok text) :
    HasText convention scratch tree entries pair half text := by
  have hfinal : (unpack convention scratch entries tree).table.get? pair half =
      some extracted := by
    rw [Table.get?, hfind]
    exact hget
  have hsound : ¬ ∃ variant failure,
      (unpack convention scratch entries tree).table.Settled pair variant failure := by
    rintro ⟨variant, failure, other, hother, -, hfailed⟩
    cases hfind.symm.trans hother
    cases hfailure.symm.trans hfailed
  obtain ⟨before, name, bytes, after, pieces, hentries, hhalf, hbefore, hafter, hpieces, hpath,
    hlast⟩ := exists_storing hfinal
  subst hentries
  have honly := not_isHalf_of_stored hsound hbefore hafter
  obtain ⟨location, last, hlookup, hutf8⟩ := read_eq_ok hread
  rw [hpath] at hlookup
  cases hlookup.symm.trans hlast
  refine ⟨before, name, bytes, after, pieces, ⟨rfl, hhalf, honly⟩, hpieces, hutf8, ?_⟩
  intro hdistinct
  rw [Unpacked.overwriting?_eq_none (before.length + 2) hdistinct] at hutf8
  exact hutf8

theorem hasText_of_validated {convention : Convention} {scratch : Scratch} {tree : FileTree}
    {entries : List Entry} {report : Report} {findings : List Finding}
    (hreport : report ∈ (unpack convention scratch entries tree).table.reports
      (unpack convention scratch entries tree).tree)
    (hvalid : report.outcome = .validated findings) :
    ∃ variant grammar data, report.variant = some variant ∧
      findings = variant.dataFindings grammar data ∧
      HasText convention scratch tree entries report.pair .grammar grammar ∧
      HasText convention scratch tree entries report.pair .data data := by
  obtain ⟨pending, hmem, rfl⟩ := List.mem_map.mp hreport
  have hfind := (distinct_unpack convention scratch entries tree).find?_of_mem hmem
  have houtcome : pending.outcome (unpack convention scratch entries tree).tree =
    .validated findings := hvalid
  unfold Pending.outcome at houtcome
  split at houtcome
  case h_2 => cases houtcome
  case h_1 variant grammar data hload =>
      obtain ⟨hfailure, hknown, first, second, hfirst, hsecond, hgrammar, hdata⟩ :=
        Pending.load_eq_ok hload
      have hfindings := Outcome.validated.inj houtcome
      refine ⟨variant, grammar, data, ?_, hfindings.symm, ?_, ?_⟩
      · simp [Pending.reported, hknown, Except.toOption]
      · exact hasText_of_read hfind hfailure hfirst hgrammar
      · exact hasText_of_read hfind hfailure hsecond hdata

namespace Plan

theorem process_validated {plan : Plan} {run : Run} {archive : Path} {tree : FileTree}
    {journal : Log.Journal} {reports : List Report} {report : Report}
    {findings : List Finding}
    (hrun : ((plan.process run archive tree).run journal).1.1 = .ok reports)
    (hreport : report ∈ reports) (hvalid : report.outcome = .validated findings) :
    ∃ location node scratch made variant grammar data,
      tree.lookup archive = .ok (location, node) ∧
      (contentsOf node).fault = none ∧
      Scratch.create plan.scratchRoot run.tag tree = (.ok scratch, made) ∧
      report.variant = some variant ∧
      findings = variant.dataFindings grammar data ∧
      HasText plan.convention scratch made (contentsOf node).entries report.pair .grammar
        grammar ∧
      HasText plan.convention scratch made (contentsOf node).entries report.pair .data data := by
  cases hopen : tree.lookup archive with
  | error e =>
      rw [plan.gives_process_of_missing run hopen journal] at hrun
      cases hrun
  | ok found =>
      obtain ⟨location, node⟩ := found
      rcases hcreate : Scratch.create plan.scratchRoot run.tag tree with ⟨result, made⟩
      cases result with
      | error e =>
          rw [plan.gives_process_of_noScratch run hopen hcreate journal] at hrun
          cases hrun
      | ok scratch =>
          rw [plan.gives_process_of_create run hopen hcreate journal] at hrun
          cases hfault : (contentsOf node).fault with
          | some fault =>
              rw [hfault] at hrun
              cases hrun
          | none =>
              rw [hfault] at hrun
              rw [← Except.ok.inj hrun] at hreport
              obtain ⟨variant, grammar, data, hvariant, hfindings, hgrammar, hdata⟩ :=
                hasText_of_validated hreport hvalid
              exact ⟨location, node, scratch, made, variant, grammar, data, rfl, hfault, rfl,
                hvariant, hfindings, hgrammar, hdata⟩

def pairZip : List UInt8 :=
  [80, 75, 3, 4, 20, 0, 0, 0, 0, 0, 0, 0, 33, 0, 155, 149, 231, 143, 13, 0, 0, 0, 13, 0, 0, 0,
      19, 0, 0, 0] ++
    "event/a.grammar.csvFK\ninteger\nid".toUTF8.toList ++
    [80, 75, 3, 4, 20, 0, 0, 0, 0, 0, 0, 0, 33, 0, 183, 239, 220, 131, 1, 0, 0, 0, 1, 0, 0, 0,
      16, 0, 0, 0] ++
    "event/a.data.csv1".toUTF8.toList ++
    [80, 75, 1, 2, 20, 3, 20, 0, 0, 0, 0, 0, 0, 0, 33, 0, 155, 149, 231, 143, 13, 0, 0, 0,
      13, 0, 0, 0, 19, 0, 0, 0, 0, 0, 0, 0, 0, 0, 0, 0, 128, 1, 0, 0, 0, 0] ++
    "event/a.grammar.csv".toUTF8.toList ++
    [80, 75, 1, 2, 20, 3, 20, 0, 0, 0, 0, 0, 0, 0, 33, 0, 183, 239, 220, 131, 1, 0, 0, 0,
      1, 0, 0, 0, 16, 0, 0, 0, 0, 0, 0, 0, 0, 0, 0, 0, 128, 1, 62, 0, 0, 0] ++
    "event/a.data.csv".toUTF8.toList ++
    [80, 75, 5, 6, 0, 0, 0, 0, 2, 0, 2, 0, 127, 0, 0, 0, 109, 0, 0, 0, 0, 0]

theorem process_validated_pairZip :
    ∃ reports report findings grammar data,
      ((({ scratchRoot := ⟨false, ["scratch"]⟩ } : Plan).process ⟨"tag", 0⟩
          ⟨false, ["batch.bin"]⟩ ⟨[(["batch.bin"], .file pairZip)], []⟩).run {}).1.1 =
        .ok reports ∧
      report ∈ reports ∧ report.outcome = .validated findings ∧
      report.variant = some .event ∧ findings = Variant.event.dataFindings grammar data := by
  have hopen : FileTree.lookup ⟨[(["batch.bin"], .file pairZip)], []⟩ ⟨false, ["batch.bin"]⟩ =
      .ok (["batch.bin"], .file pairZip) := by decide +kernel
  have hcreate : Scratch.create ⟨false, ["scratch"]⟩ "tag"
      ⟨[(["batch.bin"], .file pairZip)], []⟩ =
        (.ok ⟨⟨false, ["scratch", "ingestguard-tag"]⟩, [⟨false, ["scratch"]⟩]⟩,
          ⟨[(["ingestguard-tag", "scratch"], .directory), (["scratch"], .directory),
            (["batch.bin"], .file pairZip)], []⟩) := by decide +kernel
  have hcontents : contentsOf (.file pairZip) =
      ⟨[.member "event/a.grammar.csv" true ⟨"FK\ninteger\nid".toUTF8.toList, none⟩,
        .member "event/a.data.csv" true ⟨"1".toUTF8.toList, none⟩], none⟩ := by decide +kernel
  have hrun := gives_process_of_create { scratchRoot := ⟨false, ["scratch"]⟩ } ⟨"tag", 0⟩
    hopen hcreate {}
  rw [hcontents] at hrun
  let unpacked := unpack ({} : SuffixConvention).classify
    ⟨⟨false, ["scratch", "ingestguard-tag"]⟩, [⟨false, ["scratch"]⟩]⟩
    [.member "event/a.grammar.csv" true ⟨"FK\ninteger\nid".toUTF8.toList, none⟩,
      .member "event/a.data.csv" true ⟨"1".toUTF8.toList, none⟩]
    ⟨[(["ingestguard-tag", "scratch"], .directory), (["scratch"], .directory),
      (["batch.bin"], .file pairZip)], []⟩
  have hreports : (unpacked.table.reports unpacked.tree).map
      (fun report => (report.variant, report.findings?.map List.length)) =
        [(some .event, some 0)] := by decide +kernel
  obtain ⟨report, hsingle, hreport⟩ := List.map_eq_singleton_iff.mp hreports
  obtain ⟨hvariant, hlength⟩ := Prod.mk.inj hreport
  obtain ⟨findings, hfindings, -⟩ := Option.map_eq_some_iff.mp hlength
  have hvalid := Report.outcome_of_findings? hfindings
  have hmem : report ∈ unpacked.table.reports unpacked.tree := by
    rw [hsingle]
    exact List.mem_singleton_self report
  have hok := congrArg Prod.fst hrun
  obtain ⟨_, _, _, _, variant, grammar, data, _, _, _, hknown, heq, _⟩ :=
    process_validated hok hmem hvalid
  rw [Option.some.inj (hknown.symm.trans hvariant)] at heq
  exact ⟨_, report, findings, grammar, data, hok, hmem, hvalid, hvariant, heq⟩

/-- A second pair that is written to the file of the first one decides what that is checked
against. -/
theorem process_validated_twin :
    let plan : Plan := { scratchRoot := ⟨true, ["tmp"]⟩ }
    let scratch : Scratch := ⟨⟨true, ["tmp", "tag"]⟩, []⟩
    let tree : FileTree := ⟨[(["tag", "tmp"], .directory), (["tmp"], .directory)], []⟩
    let grammar := Entry.member "event/a.grammar.csv" true
      ⟨"FK\ninteger\nid".toUTF8.toList, none⟩
    let data := Entry.member "event/a.data.csv" true ⟨"1".toUTF8.toList, none⟩
    let twin := Entry.member "event//a.data.csv" true ⟨"x".toUTF8.toList, none⟩
    (Variant.event.dataFindings "FK\ninteger\nid" "1").length = 0 ∧
      ¬ IsHalf plan.convention "event/a" .data twin ∧
      ∃ reports,
        ((plan.processIn ⟨"tag", 0⟩ ⟨true, ["a.tar"]⟩ scratch ⟨[grammar, data, twin], none⟩
          tree).run {}).1.1 = .ok reports ∧
        reports.map (fun report => (report.pair, report.findings?.map List.length)) =
          [("event/a", some 1), ("event//a", none)] := by
  intro plan scratch tree grammar data twin
  have hplace : placement plan.convention twin = .member "event//a" "event" .data := by
    decide +kernel
  refine ⟨?_, ?_, _, plan.fst_run_processIn ⟨"tag", 0⟩ ⟨true, ["a.tar"]⟩ scratch
    [grammar, data, twin] tree {}, ?_⟩
  · decide +kernel
  · rintro ⟨variant, hhalf⟩
    have hne : "event//a" ≠ "event/a" := by decide
    exact hne (Placement.member.inj (hplace.symm.trans hhalf)).1
  · decide +kernel

end Plan

end TableIntake.Batch
