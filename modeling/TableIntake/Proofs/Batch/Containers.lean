import TableIntake.Archive.Container
import TableIntake.Proofs.Archive.TarItems
import TableIntake.Proofs.Archive.ZipItems
import TableIntake.Proofs.Batch.Reports

namespace TableIntake.Archive

open TableIntake.Text

/-! Which container a packed list of items is taken for. -/

/-- The octets do not begin as a zip archive does. -/
def Unmarked (octets : Octets) : Prop :=
  ¬Zip.localSignature <+: octets ∧ ¬Zip.endSignature <+: octets

instance (octets : Octets) : Decidable (Unmarked octets) :=
  inferInstanceAs (Decidable (_ ∧ _))

/-- What octets do not begin with they do not begin with when they are filled up, unless it has
zeros in it. -/
theorem prefix_of_prefix_filled {octets front rest : Octets} {size : Nat}
    (h : front <+: filled size octets ++ rest) (hzero : 0 ∉ front) (hlength : front.length ≤ size) :
    front <+: octets := by
  rw [filled, List.append_assoc] at h
  rcases List.prefix_or_prefix_of_prefix h (List.prefix_append octets _) with hfront | ⟨more, rfl⟩
  · exact hfront
  · rw [List.prefix_append_right_inj] at h
    cases more with
    | nil => exact ⟨[], by simp⟩
    | cons octet more =>
        -- The first octet behind is one of those that fill up.
        rw [List.length_append, List.length_cons] at hlength
        obtain ⟨count, hcount⟩ : ∃ count, size - octets.length = count + 1 :=
          Nat.exists_eq_add_one.mpr (by omega)
        rw [hcount, List.replicate_succ, List.cons_append, List.cons_prefix_cons] at h
        exact absurd (by simp [h.1]) hzero

theorem unmarked_filled {octets : Octets} (h : Unmarked octets) (rest : Octets) :
    Unmarked (filled 100 octets ++ rest) :=
  ⟨fun hfront => h.1 (prefix_of_prefix_filled hfront (by decide) (by decide)),
    fun hfront => h.2 (prefix_of_prefix_filled hfront (by decide) (by decide))⟩

theorem detect_of_unmarked {octets : Octets} (h : Unmarked octets) :
    Container.detect octets = .tar := by
  simp only [Unmarked, ← List.isPrefixOf_iff_prefix] at h
  rw [Container.detect, if_neg (by simp [h.1, h.2])]

theorem detect_of_marked {octets : Octets} (h : ¬Unmarked octets) :
    Container.detect octets = .zip := by
  rw [Unmarked, Classical.not_and_iff_not_or_not, not_not, not_not] at h
  simp only [← List.isPrefixOf_iff_prefix, ← Bool.or_eq_true_iff] at h
  exact if_pos h

namespace Tar

/-- A tar archive of the items: they are what the reader yields, in their order, with their names,
flags and bodies, and it begins as the name of the first item does, or not like a zip archive. -/
structure Packs (octets : Octets) (items : List Item) : Prop where
  yields : read octets = ⟨items.map fun item => (record item).entry, none⟩
  start : (∀ item ∈ items.head?, Unmarked item.name) → Unmarked octets

theorem unmarked_block {name : Octets} (h : Unmarked name) (flag : UInt8) (size : Nat)
    (rest : Octets) : Unmarked (block name flag size ++ rest) := by
  simp only [block, parts, front, List.cons_append, List.flatten_cons, List.append_assoc]
  exact unmarked_filled h _

theorem unmarked_pack {items : List Item} (h : ∀ item ∈ items.head?, Unmarked item.name) :
    Unmarked (pack items) := by
  cases items with
  | nil => decide +kernel
  | cons item items =>
      have hitem : Unmarked item.name := h item rfl
      simp only [pack, List.flatMap_cons, packItem, List.append_assoc]
      by_cases hname : item.name.length ≤ 100
      · rw [describe, if_pos hname, List.nil_append, List.take_of_length_le hname]
        exact unmarked_block hitem _ _ _
      · rw [describe, if_neg hname, List.append_assoc]
        exact unmarked_block (by decide +kernel) _ _ _

theorem packs_pack {items : List Item} (hsound : ∀ item ∈ items, item.Sound)
    (hfits : ∀ item ∈ items, Fits item) : Packs (pack items) items :=
  ⟨read_pack hsound hfits, unmarked_pack⟩

end Tar

namespace Zip

/-- A zip archive of the items: they are what the reader yields, in their order, with their names,
modes and bodies, and it begins with a signature. -/
structure Packs (octets : Octets) (items : List Item) : Prop where
  yields : read octets = ⟨items.map entryOf, none⟩
  start : ¬Unmarked octets

theorem not_unmarked_pack (items : List Item) : ¬Unmarked (pack items) := by
  intro h
  cases items with
  | nil =>
      have hend := isPrefixOf_endFields 0 0 0 []
      rw [List.append_nil, List.isPrefixOf_iff_prefix] at hend
      refine h.2 ?_
      simpa only [pack, packLocals, packCentrals, packEnd, List.flatMap_nil, List.length_nil,
        List.nil_append] using hend
  | cons item items =>
      have hlocal := isPrefixOf_packLocal item
        (packLocals items ++ (packCentrals 0 (item :: items) ++ packEnd (item :: items)))
      rw [List.isPrefixOf_iff_prefix, ← List.append_assoc, ← packLocals_cons] at hlocal
      exact h.1 hlocal

theorem packs_pack {items : List Item} (hfits : Fits items) : Packs (pack items) items :=
  ⟨read_pack hfits, not_unmarked_pack items⟩

end Zip

end TableIntake.Archive

namespace TableIntake.Batch

open TableIntake.Archive
open TableIntake.Files

/-! Names that end in a separator. -/

theorem withoutLead_suffix (cs : List Char) : withoutLead cs <:+ cs := by
  fun_induction withoutLead cs with
  | case1 cs ih => exact ih.trans ((List.suffix_cons '/' cs).trans (List.suffix_cons '.' _))
  | case2 cs ih => exact ih.trans (List.suffix_cons '/' cs)
  | case3 cs => exact List.suffix_rfl

theorem SuffixConvention.fileName_of_suffix {path cs : List Char} (hsuffix : path <:+ cs)
    (h : cs.getLast? = some '/') : fileName path = [] := by
  obtain ⟨before, rfl⟩ := hsuffix
  rcases List.eq_nil_or_concat path with rfl | ⟨front, last, rfl⟩
  · rfl
  · rw [List.concat_eq_append, ← List.append_assoc, List.getLast?_concat] at h
    rw [Option.some.inj h, fileName, List.concat_eq_append, List.reverse_concat]
    rfl

/-- What ends in a separator is ignored: it names no file. -/
theorem SuffixConvention.classify_of_separator (suffixes : SuffixConvention) {name : String}
    {c : Char} (h : name.toList.getLast? = some c) (hc : c = '/' ∨ c = '\\') :
    suffixes.classify (Batch.normalize name) = .ignored := by
  have hlast : (name.toList.map fun c => if c = '\\' then '/' else c).getLast? = some '/' := by
    rw [List.getLast?_map, h]
    rcases hc with rfl | rfl <;> rfl
  have hhidden : isHidden (Batch.normalize name).toList = true := by
    rw [isHidden, Batch.normalize, String.toList_ofList,
      fileName_of_suffix (withoutLead_suffix _) hlast]
  rw [classify, if_pos hhidden]

/-! Entries that are unpacked alike. -/

namespace Unpacked

theorem take_of_ignored {convention : Convention} {name : String}
    (h : convention (Batch.normalize name) = .ignored) (state : Unpacked Table) (scratch : Scratch)
    (position : Nat) (regular : Bool) (content : Content) :
    state.take convention scratch position (.member name regular content) = state := by
  simp only [take, h]

/-- An item of a tar archive is unpacked as the same item of a zip archive is: what only one of the
two takes for a directory is ignored in the other one. -/
theorem take_item (state : Unpacked Table) (suffixes : SuffixConvention) (scratch : Scratch)
    (position : Nat) {item : Item} (hsound : item.Sound) :
    state.take suffixes.classify scratch position (Tar.record item).entry =
      state.take suffixes.classify scratch position (Zip.entryOf item) := by
  rw [Tar.entry_record, Zip.entryOf]
  by_cases hdirectory : (Zip.memberOf 0 item).isDirectory = true
  · obtain ⟨c, hlast, hc⟩ := (Zip.isDirectory_iff item).mp hdirectory
    have hignored := suffixes.classify_of_separator hlast hc
    rw [if_pos hdirectory]
    split
    case isTrue => rfl
    case isFalse => exact take_of_ignored hignored ..
  · have hkind : item.kind ≠ .directory := fun hkind =>
      hdirectory ((Zip.isDirectory_iff item).mpr
        ⟨'/', getLast?_text (hsound.slash hkind), Or.inl rfl⟩)
    have hregular : (Zip.memberOf 0 item).isRegular = decide (item.kind = .file) :=
      Bool.eq_iff_iff.mpr ((Zip.isRegular_iff 0 item).trans decide_eq_true_iff.symm)
    rw [if_neg hdirectory, if_neg hkind, hregular]

theorem takeAll_items (suffixes : SuffixConvention) (scratch : Scratch) {items : List Item}
    (hsound : ∀ item ∈ items, item.Sound) (position : Nat) (state : Unpacked Table) :
    takeAll suffixes.classify scratch position state
        (items.map fun item => (Tar.record item).entry) =
      takeAll suffixes.classify scratch position state (items.map Zip.entryOf) := by
  induction items generalizing position state with
  | nil => rfl
  | cons item items ih =>
      obtain ⟨hfirst, hothers⟩ := List.forall_mem_cons.mp hsound
      rw [List.map_cons, List.map_cons, takeAll, takeAll, take_item state suffixes scratch position
        hfirst, ih hothers]

end Unpacked

namespace Plan

variable {items : List Item}

theorem contentsOf_tar {octets : Octets} (hfirst : ∀ item ∈ items.head?, Unmarked item.name)
    (h : Tar.Packs octets items) :
    contentsOf (.file octets) = ⟨items.map fun item => (Tar.record item).entry, none⟩ := by
  rw [contentsOf, Archive.read, detect_of_unmarked (h.start hfirst)]
  exact h.yields

theorem contentsOf_zip {octets : Octets} (h : Zip.Packs octets items) :
    contentsOf (.file octets) = ⟨items.map Zip.entryOf, none⟩ := by
  rw [contentsOf, Archive.read, detect_of_marked h.start]
  exact h.yields

/-- A batch comes to the same for a tar archive and for a zip archive of the same items, and to
reports unless there is no scratch directory. -/
theorem process_packs {plan : Plan} {suffixes : SuffixConvention}
    (hplan : plan.convention = suffixes.classify) (run : Run)
    (hsound : ∀ item ∈ items, item.Sound) (hfirst : ∀ item ∈ items.head?, Unmarked item.name)
    {tarOctets zipOctets : Octets} (htar : Tar.Packs tarOctets items)
    (hzip : Zip.Packs zipOctets items) {tree : FileTree} {tar zip : Path} {place other : Location}
    (htarFile : tree.lookup tar = .ok (place, .file tarOctets))
    (hzipFile : tree.lookup zip = .ok (other, .file zipOctets)) (journal later : Log.Journal) :
    ((plan.process run tar tree).run journal).1.1 =
        ((plan.process run zip tree).run later).1.1 ∧
      ∀ scratch, (Scratch.create plan.scratchRoot run.tag tree).1 = .ok scratch →
        ∃ reports, ((plan.process run tar tree).run journal).1.1 = .ok reports := by
  rcases hcreate : Scratch.create plan.scratchRoot run.tag tree with ⟨result, made⟩
  cases result with
  | error e =>
      have htarRun := plan.gives_process_of_noScratch run htarFile hcreate journal
      have hzipRun := plan.gives_process_of_noScratch run hzipFile hcreate later
      refine ⟨?_, fun scratch hscratch => by cases hscratch⟩
      rw [htarRun, hzipRun]
  | ok scratch =>
      have htarRun := plan.gives_process_of_create run htarFile hcreate journal
      have hzipRun := plan.gives_process_of_create run hzipFile hcreate later
      have hunpack := Unpacked.takeAll_items suffixes scratch hsound 1 ⟨[], made⟩
      rw [contentsOf_tar hfirst htar, hplan, unpack, hunpack] at htarRun
      rw [contentsOf_zip hzip, hplan, unpack] at hzipRun
      refine ⟨?_, fun _ _ => ⟨_, congrArg Prod.fst htarRun⟩⟩
      rw [htarRun, hzipRun]
      rfl

/-- The halves of a pair in a directory of their own, a link in the place of one half of another
pair, a file that only a reader of zip archives takes for a directory, and a name that is no
text. -/
def fewItems : List Item :=
  [⟨.directory, "event/".toUTF8.toList, []⟩,
    ⟨.file, "event/a.grammar.csv".toUTF8.toList, "FK\ninteger\nid".toUTF8.toList⟩,
    ⟨.file, "event/a.data.csv".toUTF8.toList, "1".toUTF8.toList⟩,
    ⟨.symlink, "event/b.data.csv".toUTF8.toList, "a.data.csv".toUTF8.toList⟩,
    ⟨.file, "event/c.data.csv\\".toUTF8.toList, "1".toUTF8.toList⟩, ⟨.file, [0x61, 0xff], []⟩]

def fewTree : FileTree where
  nodes :=
    [(["batch.tar"], .file (Tar.pack fewItems)), (["batch.zip"], .file (Zip.pack fewItems))]

def fewPlan : Plan := { scratchRoot := ⟨false, ["scratch"]⟩ }

theorem process_packs_fewItems :
    ∃ reports,
      ((fewPlan.process ⟨"tag", 0⟩ ⟨false, ["batch.tar"]⟩ fewTree).run {}).1.1 = .ok reports ∧
      ((fewPlan.process ⟨"tag", 0⟩ ⟨false, ["batch.zip"]⟩ fewTree).run {}).1.1 = .ok reports := by
  have hsound : ∀ item ∈ fewItems, item.Sound := by decide +kernel
  have hfirst : ∀ item ∈ fewItems.head?, Unmarked item.name := by decide +kernel
  have htar := Tar.packs_pack hsound (by decide +kernel)
  have hzip : Zip.Packs (Zip.pack fewItems) fewItems :=
    Zip.packs_pack ⟨by decide +kernel, by decide +kernel, by decide +kernel, by decide +kernel,
      by decide +kernel⟩
  have htarFile : fewTree.lookup ⟨false, ["batch.tar"]⟩ =
      .ok (["batch.tar"], .file (Tar.pack fewItems)) :=
    FileTree.lookup_eq_ok.mpr ⟨by decide +kernel, ⟨rfl, by decide +kernel, trivial⟩, rfl, rfl⟩
  have hzipFile : fewTree.lookup ⟨false, ["batch.zip"]⟩ =
      .ok (["batch.zip"], .file (Zip.pack fewItems)) :=
    FileTree.lookup_eq_ok.mpr ⟨by decide +kernel, ⟨rfl, by decide +kernel, trivial⟩, rfl, rfl⟩
  have hcreate : (Scratch.create fewPlan.scratchRoot "tag" fewTree).1 =
      .ok ⟨⟨false, ["scratch", "ingestguard-tag"]⟩, [⟨false, ["scratch"]⟩]⟩ := by
    decide +kernel
  obtain ⟨hsame, hreports⟩ :=
    process_packs (show fewPlan.convention = SuffixConvention.classify {} from rfl) ⟨"tag", 0⟩
      hsound hfirst htar hzip htarFile hzipFile {} {}
  obtain ⟨reports, hrun⟩ := hreports _ hcreate
  exact ⟨reports, hrun, hsame.symm.trans hrun⟩

end Plan

end TableIntake.Batch
