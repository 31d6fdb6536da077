import TableIntake.Proofs.Batch.Suffixes
import TableIntake.Proofs.Batch.Verdicts
import TableIntake.Proofs.Grammar.Joining

namespace TableIntake.Batch

open TableIntake.Archive (Entry)
open TableIntake.Files
open TableIntake.Text (ofUtf8? split split_append not_mem_of_mem_split)

/-! The halves of a pair by their names, under the suffixes that hold by default, and what comes of
an archive that holds nothing else. -/

namespace Half

def suffix : Half → String
  | grammar => ".grammar.csv"
  | data => ".data.csv"

/-- The half of the pair of this name, in the directory of the variant. -/
def entryName (half : Half) (variant : Variant) (name : String) : String :=
  variant.name ++ "/" ++ name ++ half.suffix

end Half

theorem SuffixConvention.suffixOf_default (half : Half) :
    ({} : SuffixConvention).suffixOf half = half.suffix := by
  cases half <;> rfl

namespace Half

variable {half taken : Half} {v : Variant} {name pair variant : String}

/-- A path ends in one of the suffixes at most. -/
theorem eq_of_suffix {path : List Char} (hhalf : half.suffix.toList <:+ path)
    (htaken : taken.suffix.toList <:+ path) : taken = half := by
  rcases List.suffix_or_suffix_of_suffix hhalf htaken with hshort | hshort
  · revert hshort
    cases half <;> cases taken <;> decide
  · revert hshort
    cases half <;> cases taken <;> decide

/-- The name of a variant stands first, whatever is done to separators. -/
theorem toList_normalize_entryName (half : Half) (v : Variant) (name : String) :
    ∃ rest, (normalize (half.entryName v name)).toList =
      v.name.toList ++ '/' :: rest ++ half.suffix.toList := by
  refine ⟨name.toList.map fun c => if c = '\\' then '/' else c, ?_⟩
  have hsuffix : half.suffix.toList.map (fun c => if c = '\\' then '/' else c) =
      half.suffix.toList := by cases half <;> decide
  have hname : v.name.toList.map (fun c => if c = '\\' then '/' else c) = v.name.toList := by
    cases v <;> decide
  have hlead (cs : List Char) : withoutLead (v.name.toList ++ cs) = v.name.toList ++ cs := by
    cases v <;> simp [Variant.name, withoutLead]
  simp only [normalize, entryName, String.toList_append, List.map_append, hname, hsuffix,
    List.append_assoc, hlead, String.toList_ofList]
  simp

/-- What is taken for a member of a pair under the name of a half is this half, of the variant
that its directory is named for. -/
theorem member_entryName
    (h : ({} : SuffixConvention).classify (normalize (half.entryName v name)) =
      .member pair variant taken) :
    taken = half ∧ variant = v.name ∧
      normalize (half.entryName v name) = pair ++ half.suffix := by
  have hne : ({} : SuffixConvention).grammarSuffix ≠ ({} : SuffixConvention).dataSuffix := by decide
  obtain ⟨-, hleaves, hnamed, -⟩ := (SuffixConvention.classify_eq_member_iff_belongs hne).mp h
  have hpair := hleaves.path_eq
  rw [SuffixConvention.suffixOf_default] at hpair
  obtain ⟨rest, hpath⟩ := half.toList_normalize_entryName v name
  have hends : (normalize (half.entryName v name)).toList =
      pair.toList ++ taken.suffix.toList := by rw [hpair, String.toList_append]
  obtain rfl : taken = half := eq_of_suffix ⟨_, hpath.symm⟩ ⟨_, hends.symm⟩
  refine ⟨rfl, ?_, hpair⟩
  obtain ⟨behind, rfl, hslash, -, -⟩ := hnamed
  have hname : '/' ∉ v.name.toList := by cases v <;> decide
  have hstems : variant.toList ++ '/' :: behind.toList = v.name.toList ++ '/' :: rest := by
    simpa using List.append_cancel_right (hends.symm.trans hpath)
  have htake := (SuffixConvention.takeWhile_slash hslash behind.toList).1
  rw [hstems, (SuffixConvention.takeWhile_slash hname rest).1] at htake
  exact (String.toList_inj.mp htake).symm

/-- The pieces of the names of both halves differ in the last one. -/
theorem entryPieces_suffix (pair : String) :
    ∃ before last, ∀ half : Half, ∀ pieces,
      Scratch.entryPieces (pair ++ half.suffix) = .ok pieces →
        pieces = before ++ [last ++ half.suffix] := by
  obtain ⟨front, last, -, happend⟩ := split_append '/' pair.toList
  refine ⟨(front.map String.ofList).filter fun piece => !Path.isIdle piece, String.ofList last, ?_⟩
  intro half pieces h
  have hsuffix : split '/' half.suffix.toList = [half.suffix.toList] := by
    cases half <;> decide
  have hlength : 1 < (String.ofList last ++ half.suffix).length := by
    rw [String.length_append]
    cases half <;> exact Nat.lt_of_lt_of_le (by decide) (Nat.le_add_left _ _)
  have hbusy : Path.isIdle (String.ofList last ++ half.suffix) = false := by
    simp only [Path.isIdle, Bool.or_eq_false_iff, decide_eq_false_iff_not]
    constructor
    · intro heq
      rw [heq] at hlength
      exact absurd hlength (by decide)
    · intro heq
      rw [heq] at hlength
      exact absurd hlength (by decide)
  simp only [Scratch.entryPieces] at h
  split at h
  · cases h
  · split at h
    · cases h
    · rw [← Except.ok.inj h, String.toList_append, happend, hsuffix]
      simp [hbusy]

theorem entryPieces_ne (half : Half) {pair : String} {first second : List String}
    (hfirst : Scratch.entryPieces (pair ++ half.suffix) = .ok first)
    (hsecond : Scratch.entryPieces (pair ++ half.other.suffix) = .ok second) :
    second ≠ first := by
  obtain ⟨before, last, hpieces⟩ := entryPieces_suffix pair
  rw [hpieces half first hfirst, hpieces half.other second hsecond]
  intro heq
  have hlast := (List.cons.inj (List.append_cancel_left heq)).1
  have hsuffix := (String.append_right_inj last).mp hlast
  revert hsuffix
  cases half <;> decide

/-- The half as an archive holds it, with what stands in it. -/
def entry (half : Half) (v : Variant) (name : String) (body : Half → List UInt8) : Entry :=
  .member (half.entryName v name) true ⟨body half, none⟩

theorem placement_entry (convention : Convention) (half : Half) (v : Variant) (name : String)
    (body : Half → List UInt8) :
    placement convention (half.entry v name body) =
      convention (normalize (half.entryName v name)) := rfl

theorem member_entry {body : Half → List UInt8}
    (h : IsMember ({} : SuffixConvention).classify pair (half.entry v name body)) :
    ({} : SuffixConvention).classify (normalize (half.entryName v name)) =
        .member pair v.name half ∧
      normalize (half.entryName v name) = pair ++ half.suffix := by
  obtain ⟨taken, variant, hplace⟩ := h
  rw [placement_entry] at hplace
  obtain ⟨htaken, hvariant, hname⟩ := member_entryName hplace
  rw [htaken, hvariant] at hplace
  exact ⟨hplace, hname⟩

/-- The half as it is stored once it is written. -/
def stored (half : Half) (v : Variant) (name : String) (path : Half → Path) : Extracted :=
  ⟨normalize (half.entryName v name), path half⟩

end Half

/-- The row of a pair once both halves are stored. -/
def completeRow (v : Variant) (name pair : String) (path : Half → Path) : Pending where
  pair := pair
  variant := some v.name
  grammar := some (Half.grammar.stored v name path)
  data := some (Half.data.stored v name path)

/-- Both halves can be written to the scratch directory, this one before the other. -/
def WritesBoth (scratch : Scratch) (v : Variant) (name : String) (body : Half → List UInt8)
    (first : Half) (made : FileTree) (path : Half → Path) (full : FileTree) : Prop :=
  ∃ middle,
    scratch.write (normalize (first.entryName v name)) ⟨body first, none⟩ made =
      (.ok (path first), middle) ∧
    scratch.write (normalize (first.other.entryName v name)) ⟨body first.other, none⟩ middle =
      (.ok (path first.other), full)

section Both

variable {v : Variant} {name pair : String} {body : Half → List UInt8} {first : Half}
  {scratch : Scratch} {made full : FileTree} {path : Half → Path}

theorem Unpacked.take_of_new (state : Unpacked Table) {convention : Convention} {variant : String}
    {half : Half} {content : Content} {path : Path} {tree : FileTree}
    (hplace : convention (normalize name) = .member pair variant half)
    (hnew : state.table.holds pair half = false)
    (hwrite : scratch.write (normalize name) content state.tree = (.ok path, tree))
    (position : Nat) :
    state.take convention scratch position (.member name true content) =
      ⟨state.table.store pair variant half ⟨normalize name, path⟩, tree⟩ := by
  simp only [take, hplace, takeMember, PairStore.holds_table, PairStore.store_table, hnew, hwrite,
    Bool.not_true, Bool.false_eq_true, if_false]

theorem unpack_both {convention : Convention}
    (hplace : ∀ half : Half,
      convention (normalize (half.entryName v name)) = .member pair v.name half)
    (hwrites : WritesBoth scratch v name body first made path full) :
    unpack convention scratch [first.entry v name body, first.other.entry v name body] made =
      ⟨[completeRow v name pair path], full⟩ := by
  obtain ⟨middle, hfirst, hsecond⟩ := hwrites
  let second : Unpacked Table :=
    ⟨Table.store [] pair v.name first (first.stored v name path), middle⟩
  have hnew : second.table.holds pair first.other = false := by
    cases first <;> simp [second, Table.store, Table.update, Table.holds, Table.find?,
      Pending.store, Half.other, Pending.get?]
  have hone := (⟨[], made⟩ : Unpacked Table).take_of_new (hplace first) rfl hfirst 1
  have htwo := second.take_of_new (hplace first.other) hnew hsecond 2
  unfold unpack Unpacked.takeAll Unpacked.takeAll Unpacked.takeAll Half.entry
  rw [hone]
  refine htwo.trans ?_
  cases first <;>
    simp [second, completeRow, Half.stored, Half.other, Table.store, Table.update, Pending.store]

/-- Each half is read back as it was written. -/
theorem decodes_both
    (hname : ∀ half : Half, normalize (half.entryName v name) = pair ++ half.suffix)
    (hwrites : WritesBoth scratch v name body first made path full) (half : Half) :
    Decodes full (half.stored v name path) (ofUtf8? (body half)) := by
  obtain ⟨middle, hfirst, hsecond⟩ := hwrites
  obtain ⟨pieces, hfilled, -, hpath⟩ := Scratch.write_eq_ok (congrArg Prod.fst hfirst)
  obtain ⟨others, hrefilled, -, hother⟩ := Scratch.write_eq_ok (congrArg Prod.fst hsecond)
  have hpieces := Scratch.entryPieces_of_filled? hfilled
  have hothers := Scratch.entryPieces_of_filled? hrefilled
  have hnames := Scratch.isName_of_entryPieces hpieces
  have hcontains := Scratch.contains_of_filled? hfilled
  have hlast := Scratch.contains_of_filled? hrefilled
  rw [hname] at hpieces hothers
  have hne : others ≠ pieces := first.entryPieces_ne hpieces hothers
  rw [hfirst] at hcontains
  have hkept := hcontains.write hnames (normalize (first.other.entryName v name))
    ⟨body first.other, none⟩
  rw [hrefilled, if_neg fun hsome => hne (Option.some.inj hsome), hsecond] at hkept
  rw [hsecond] at hlast
  have hcases : half = first ∨ half = first.other := by
    cases half <;> cases first <;> simp [Half.other]
  rcases hcases with rfl | rfl
  · exact ⟨body half, (congrArg full.readFile hpath).trans hkept.readFile, rfl⟩
  · exact ⟨body first.other, (congrArg full.readFile hother).trans hlast.readFile, rfl⟩

theorem Pending.outcome_reported (pending : Pending) (tree : FileTree) :
    (pending.reported tree).outcome = pending.outcome tree := rfl

/-- What becomes of a pair that has nothing against it but what stands in its halves. -/
def outcomeOfTexts (v : Variant) (name : String) : Option String → Option String → Outcome
  | some grammar, some data => .validated (v.dataFindings grammar data)
  | some _, none =>
      .failed (.unreadable (normalize (Half.data.entryName v name)) Error.notText.message)
  | none, _ =>
      .failed (.unreadable (normalize (Half.grammar.entryName v name)) Error.notText.message)

theorem outcome_completeRow
    (hname : ∀ half : Half, normalize (half.entryName v name) = pair ++ half.suffix)
    (hwrites : WritesBoth scratch v name body first made path full) :
    (completeRow v name pair path).outcome full =
      outcomeOfTexts v name (ofUtf8? (body .grammar)) (ofUtf8? (body .data)) := by
  have hknown : (completeRow v name pair path).known = .ok (some v) := by
    change (Variant.ofText v.name).map some = .ok (some v)
    cases v <;> decide
  have hgrammar := decodes_both hname hwrites .grammar
  have hdata := decodes_both hname hwrites .data
  rw [outcome_of_known full rfl hknown]
  simp only [completeRow, Pending.get?]
  cases hfirst : ofUtf8? (body .grammar) with
  | none =>
      rw [hfirst] at hgrammar
      simp only [hgrammar.read_eq_error]
      rfl
  | some grammar =>
      rw [hfirst] at hgrammar
      simp only [hgrammar.read_eq_ok]
      cases hsecond : ofUtf8? (body .data) with
      | none =>
          rw [hsecond] at hdata
          simp only [hdata.read_eq_error]
          rfl
      | some data =>
          rw [hsecond] at hdata
          simp only [hdata.read_eq_ok]
          rfl

end Both

end TableIntake.Batch
