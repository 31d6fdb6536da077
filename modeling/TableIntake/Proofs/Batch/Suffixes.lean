import Mathlib.Data.List.TakeWhile
import TableIntake.Batch.Convention

namespace TableIntake.Batch

/-! What a convention of two suffixes makes of a path. -/

namespace Half

def other : Half → Half
  | grammar => data
  | data => grammar

end Half

namespace SuffixConvention

def suffixOf (convention : SuffixConvention) : Half → String
  | .grammar => convention.grammarSuffix
  | .data => convention.dataSuffix

/-! The last component of a path, and the first one of a stem. -/

def LastComponent (path name : List Char) : Prop :=
  '/' ∉ name ∧ (path = name ∨ ∃ directory, path = directory ++ '/' :: name)

/-- No file is named by the path, or one that is not to be seen. -/
def Hidden (path : String) : Prop :=
  ∃ name, LastComponent path.toList name ∧ (name = [] ∨ name.head? = some '.')

theorem takeWhile_slash {cs : List Char} (h : '/' ∉ cs) (rest : List Char) :
    (cs ++ '/' :: rest).takeWhile (· ≠ '/') = cs ∧
      (cs ++ '/' :: rest).dropWhile (· ≠ '/') = '/' :: rest := by
  have hall : ∀ c ∈ cs, decide (c ≠ '/') = true := by
    intro c hc
    exact decide_eq_true fun heq => h (heq ▸ hc)
  rw [List.takeWhile_append_of_pos hall, List.dropWhile_append_of_pos hall]
  simp

theorem dropWhile_slash (cs : List Char) :
    cs.dropWhile (· ≠ '/') = [] ∨ ∃ rest, cs.dropWhile (· ≠ '/') = '/' :: rest := by
  cases hdrop : cs.dropWhile (· ≠ '/') with
  | nil => exact Or.inl rfl
  | cons c rest =>
      have hc := List.head?_dropWhile_not (· ≠ '/') cs
      rw [hdrop] at hc
      obtain rfl : c = '/' := by simpa using hc
      exact Or.inr ⟨rest, rfl⟩

theorem slash_not_mem_takeWhile (cs : List Char) : '/' ∉ cs.takeWhile (· ≠ '/') := by
  intro hmem
  simpa using List.mem_takeWhile_imp hmem

theorem lastComponent_iff {path name : List Char} :
    LastComponent path name ↔ fileName path = name := by
  constructor
  · intro h
    obtain ⟨hslash, hpath⟩ := h
    have hreverse : '/' ∉ name.reverse := fun hmem => hslash (List.mem_reverse.mp hmem)
    cases hpath with
    | inl heq =>
        rw [heq, fileName, List.takeWhile_eq_self_iff.mpr, List.reverse_reverse]
        intro c hc
        exact decide_eq_true fun heq => hreverse (heq ▸ hc)
    | inr hpath =>
        obtain ⟨directory, heq⟩ := hpath
        rw [heq, fileName, List.reverse_append, List.reverse_cons, List.append_assoc,
          List.singleton_append, (takeWhile_slash hreverse _).1, List.reverse_reverse]
  · intro h
    subst h
    refine ⟨fun hmem => slash_not_mem_takeWhile _ (List.mem_reverse.mp hmem), ?_⟩
    have hsplit : path = (path.reverse.dropWhile (· ≠ '/')).reverse ++ fileName path := by
      rw [fileName, ← List.reverse_append, List.takeWhile_append_dropWhile, List.reverse_reverse]
    cases dropWhile_slash path.reverse with
    | inl hnil =>
        rw [hnil] at hsplit
        exact Or.inl hsplit
    | inr hrest =>
        obtain ⟨rest, hrest⟩ := hrest
        rw [hrest, List.reverse_cons, List.append_assoc] at hsplit
        exact Or.inr ⟨rest.reverse, hsplit⟩

theorem isHidden_iff {path : String} : isHidden path.toList = true ↔ Hidden path := by
  have hiff : isHidden path.toList = true ↔
      fileName path.toList = [] ∨ (fileName path.toList).head? = some '.' := by
    unfold isHidden
    cases fileName path.toList with
    | nil => simp
    | cons c rest => simp
  rw [hiff]
  constructor
  · intro h
    exact ⟨_, lastComponent_iff.mpr rfl, h⟩
  · intro h
    obtain ⟨name, hname, hdot⟩ := h
    rwa [lastComponent_iff.mp hname]

theorem variant?_eq_some {stem variant : List Char} :
    variant? stem = some variant ↔
      '/' ∉ variant ∧ variant ≠ [] ∧ ∃ name, name ≠ [] ∧ stem = variant ++ '/' :: name := by
  constructor
  · intro h
    unfold variant? at h
    split at h
    case h_2 => cases h
    case h_1 c cs first rest hvariant hrest =>
        rw [← Option.some.inj h]
        refine ⟨hvariant ▸ slash_not_mem_takeWhile stem, List.cons_ne_nil c cs, first :: rest,
          List.cons_ne_nil first rest, ?_⟩
        rw [← hvariant, ← hrest, List.takeWhile_append_dropWhile]
  · intro h
    obtain ⟨hslash, hvariant, name, hname, rfl⟩ := h
    obtain ⟨htake, hdrop⟩ := takeWhile_slash hslash name
    cases variant with
    | nil => exact absurd rfl hvariant
    | cons c cs =>
        cases name with
        | nil => exact absurd rfl hname
        | cons first rest =>
            rw [variant?, htake, hdrop]
            rfl

/-! What is before a suffix. -/

/-- The suffix leaves something of the path that names no directory. -/
structure Leaves (suffix stem path : String) : Prop where
  path_eq : path = stem ++ suffix
  ne_empty : stem ≠ ""
  names_file : stem.toList.getLast? ≠ some '/'

theorem stem?_eq_some {suffix path stem : List Char} :
    stem? suffix path = some stem ↔
      path = stem ++ suffix ∧ stem ≠ [] ∧ stem.getLast? ≠ some '/' := by
  constructor
  · intro h
    unfold stem? at h
    split at h
    case isFalse => cases h
    case isTrue hsuffix =>
        obtain ⟨before, rfl⟩ := List.isSuffixOf_iff_suffix.mp hsuffix
        rw [List.length_append, Nat.add_sub_cancel, List.take_left] at h
        split at h
        case h_1 => cases h
        case h_2 hne =>
            split at h
            case isTrue => cases h
            case isFalse hlast =>
                rw [← Option.some.inj h]
                exact ⟨rfl, hne, hlast⟩
  · intro h
    obtain ⟨rfl, hne, hlast⟩ := h
    have hsuffix : suffix.isSuffixOf (stem ++ suffix) = true :=
      List.isSuffixOf_iff_suffix.mpr (List.suffix_append stem suffix)
    rw [stem?, if_pos hsuffix, List.length_append, Nat.add_sub_cancel, List.take_left]
    cases stem with
    | nil => exact absurd rfl hne
    | cons c cs => exact if_neg hlast

theorem stem?_eq_some_iff_leaves {suffix path : String} {stem : List Char} :
    stem? suffix.toList path.toList = some stem ↔ Leaves suffix (String.ofList stem) path := by
  rw [stem?_eq_some]
  constructor
  · intro h
    obtain ⟨hpath, hne, hlast⟩ := h
    refine ⟨?_, ?_, by rwa [String.toList_ofList]⟩
    · rw [← String.toList_inj, hpath, String.toList_append, String.toList_ofList]
    · rwa [ne_eq, ← String.toList_eq_nil_iff, String.toList_ofList]
  · intro h
    obtain ⟨hpath, hne, hlast⟩ := h
    refine ⟨?_, ?_, by rwa [String.toList_ofList] at hlast⟩
    · rw [hpath, String.toList_append, String.toList_ofList]
    · rwa [ne_eq, ← String.toList_eq_nil_iff, String.toList_ofList] at hne

theorem stem?_eq_none_iff {suffix path : String} :
    stem? suffix.toList path.toList = none ↔ ∀ stem, ¬ Leaves suffix stem path := by
  constructor
  · intro h stem hleaves
    rw [← @String.ofList_toList stem, ← stem?_eq_some_iff_leaves, h] at hleaves
    cases hleaves
  · intro h
    cases hstem : stem? suffix.toList path.toList with
    | none => rfl
    | some stem => exact absurd (stem?_eq_some_iff_leaves.mp hstem) (h _)

/-- Of two suffixes of one length, only one can end a path. -/
theorem Leaves.suffix_eq {first second path stem other : String} (hfirst : Leaves first stem path)
    (hsecond : Leaves second other path) (hsize : first.utf8ByteSize = second.utf8ByteSize) :
    first = second := by
  have heq : stem ++ first = other ++ second := hfirst.path_eq.symm.trans hsecond.path_eq
  have hlists : stem.toList ++ first.toList = other.toList ++ second.toList := by
    rw [← String.toList_append, heq, String.toList_append]
  have hlonger {short long : String} (hsuffix : short.toList <:+ long.toList)
      (hsame : short.utf8ByteSize = long.utf8ByteSize) : short = long := by
    obtain ⟨before, hbefore⟩ := hsuffix
    have hlong : String.ofList before ++ short = long := by
      rw [← String.toList_inj, String.toList_append, String.toList_ofList, hbefore]
    have hempty : (String.ofList before).utf8ByteSize = 0 := by
      rw [← hlong, String.utf8ByteSize_append] at hsame
      omega
    rw [← hlong, String.utf8ByteSize_eq_zero_iff.mp hempty, String.empty_append]
  have hends : second.toList <:+ stem.toList ++ first.toList :=
    hlists ▸ List.suffix_append other.toList second.toList
  rcases List.suffix_or_suffix_of_suffix (List.suffix_append _ _) hends with hsuffix | hsuffix
  · exact hlonger hsuffix hsize
  · exact (hlonger hsuffix hsize.symm).symm

/-! What is taken for a member of a pair. -/

theorem map_orElse_eq_some {first second : Option (List Char)} {tried spare half : Half}
    {stem : List Char} :
    (first.map (·, tried) <|> second.map (·, spare)) = some (stem, half) ↔
      (half = tried ∧ first = some stem) ∨ (half = spare ∧ first = none ∧ second = some stem) := by
  rw [Option.orElse_eq_orElse, Option.orElse_eq_or, Option.or_eq_some_iff]
  simp only [Option.map_eq_some_iff, Option.map_eq_none_iff, Prod.mk.injEq]
  constructor
  · intro h
    rcases h with ⟨found, hfound, rfl, rfl⟩ | ⟨hnone, found, hfound, rfl, rfl⟩
    · exact Or.inl ⟨rfl, hfound⟩
    · exact Or.inr ⟨rfl, hnone, hfound⟩
  · intro h
    rcases h with ⟨rfl, hfound⟩ | ⟨rfl, hnone, hfound⟩
    · exact Or.inl ⟨stem, hfound, rfl, rfl⟩
    · exact Or.inr ⟨hnone, stem, hfound, rfl, rfl⟩

section Classify

variable {convention : SuffixConvention} {path pair variant : String} {stem : List Char}
  {half : Half}

/-- The half whose suffix is tried first. -/
def preferred (convention : SuffixConvention) : Half :=
  if convention.grammarSuffix.utf8ByteSize < convention.dataSuffix.utf8ByteSize then .data
  else .grammar

theorem split?_eq_some_iff_preferred :
    convention.split? path.toList = some (stem, half) ↔
      Leaves (convention.suffixOf half) (String.ofList stem) path ∧
        (half ≠ convention.preferred →
          ∀ other, ¬ Leaves (convention.suffixOf half.other) other path) := by
  unfold split? preferred
  split
  case isTrue =>
      rw [map_orElse_eq_some]
      cases half <;>
        simp [suffixOf, Half.other, stem?_eq_none_iff, stem?_eq_some_iff_leaves, and_comm]
  case isFalse =>
      rw [map_orElse_eq_some]
      cases half <;>
        simp [suffixOf, Half.other, stem?_eq_none_iff, stem?_eq_some_iff_leaves, and_comm]

theorem size_suffixOf_le (h : half ≠ convention.preferred) :
    (convention.suffixOf half).utf8ByteSize ≤ (convention.suffixOf half.other).utf8ByteSize := by
  unfold preferred at h
  split at h
  case isTrue hlt =>
      cases half with
      | grammar => exact Nat.le_of_lt hlt
      | data => exact absurd rfl h
  case isFalse hle =>
      cases half with
      | grammar => exact absurd rfl h
      | data => exact Nat.le_of_not_lt hle

theorem ne_preferred (h : (convention.suffixOf half).utf8ByteSize <
    (convention.suffixOf half.other).utf8ByteSize) : half ≠ convention.preferred := by
  unfold preferred
  split
  case isTrue hlt =>
      rintro rfl
      exact Nat.lt_asymm hlt h
  case isFalse hle =>
      rintro rfl
      exact hle h

theorem suffixOf_other_ne (hne : convention.grammarSuffix ≠ convention.dataSuffix) (half : Half) :
    convention.suffixOf half.other ≠ convention.suffixOf half := by
  cases half with
  | grammar => exact hne.symm
  | data => exact hne

theorem split?_eq_some (hne : convention.grammarSuffix ≠ convention.dataSuffix) :
    convention.split? path.toList = some (stem, half) ↔
      Leaves (convention.suffixOf half) (String.ofList stem) path ∧
        ((convention.suffixOf half).utf8ByteSize <
            (convention.suffixOf half.other).utf8ByteSize →
          ∀ other, ¬ Leaves (convention.suffixOf half.other) other path) := by
  rw [split?_eq_some_iff_preferred]
  apply and_congr_right
  intro hleaves
  constructor
  · intro h hlonger
    exact h (ne_preferred hlonger)
  · intro h hpreferred other hother
    rcases Nat.lt_or_eq_of_le (size_suffixOf_le hpreferred) with hlonger | hsame
    · exact h hlonger other hother
    · exact suffixOf_other_ne hne half (hother.suffix_eq hleaves hsame.symm)

theorem classify_eq_member :
    convention.classify path = .member pair variant half ↔
      isHidden path.toList = false ∧ ∃ stem first,
        convention.split? path.toList = some (stem, half) ∧ variant? stem = some first ∧
          pair = String.ofList stem ∧ variant = String.ofList first := by
  constructor
  · intro h
    unfold classify at h
    split at h
    case isTrue => cases h
    case isFalse hhidden =>
        split at h
        case h_1 => cases h
        case h_2 stem taken hsplit =>
            split at h
            case h_1 => cases h
            case h_2 first hfirst =>
                cases h
                exact ⟨(Bool.not_eq_true _).mp hhidden, stem, first, hsplit, hfirst, rfl, rfl⟩
  · intro h
    obtain ⟨hhidden, stem, first, hsplit, hfirst, rfl, rfl⟩ := h
    simp [classify, hhidden, hsplit, hfirst]

theorem classify_eq_ignored : convention.classify path = .ignored ↔ Hidden path := by
  rw [← isHidden_iff]
  constructor
  · intro h
    unfold classify at h
    split at h
    case isTrue hhidden => exact hhidden
    case isFalse =>
        split at h
        case h_1 => cases h
        case h_2 => split at h <;> cases h
  · intro h
    rw [classify, if_pos h]

theorem classify_cases (convention : SuffixConvention) (path : String) :
    convention.classify path = .ignored ∨
      convention.classify path = .misnamed convention.expected ∨
      ∃ pair variant half, convention.classify path = .member pair variant half := by
  unfold classify
  split
  case isTrue => exact Or.inl rfl
  case isFalse =>
      split
      case h_1 => exact Or.inr (Or.inl rfl)
      case h_2 stem half _ =>
          split
          case h_1 => exact Or.inr (Or.inl rfl)
          case h_2 first _ => exact Or.inr (Or.inr ⟨_, _, half, rfl⟩)

/-- The path is that of the half of a pair, in the directory of the variant. -/
structure Belongs (convention : SuffixConvention) (path pair variant : String) (half : Half) :
    Prop where
  visible : ¬ Hidden path
  leaves : Leaves (convention.suffixOf half) pair path
  named : ∃ name, pair = variant ++ "/" ++ name ∧ '/' ∉ variant.toList ∧ variant ≠ "" ∧ name ≠ ""
  /-- The other suffix takes precedence where it is the longer one. -/
  longest :
    (convention.suffixOf half).utf8ByteSize < (convention.suffixOf half.other).utf8ByteSize →
      ∀ stem, ¬ Leaves (convention.suffixOf half.other) stem path

theorem variant?_toList {variant : String} :
    variant? pair.toList = some variant.toList ↔
      ∃ name, pair = variant ++ "/" ++ name ∧ '/' ∉ variant.toList ∧ variant ≠ "" ∧ name ≠ "" := by
  rw [variant?_eq_some]
  constructor
  · intro h
    obtain ⟨hslash, hvariant, name, hname, hpair⟩ := h
    refine ⟨String.ofList name, ?_, hslash, ?_, ?_⟩
    · rw [← String.toList_inj, hpair]
      simp
    · rwa [ne_eq, ← String.toList_eq_nil_iff]
    · rwa [ne_eq, ← String.toList_eq_nil_iff, String.toList_ofList]
  · intro h
    obtain ⟨name, rfl, hslash, hvariant, hname⟩ := h
    refine ⟨hslash, ?_, name.toList, ?_, by simp⟩
    · rwa [ne_eq, String.toList_eq_nil_iff]
    · rwa [ne_eq, String.toList_eq_nil_iff]

theorem classify_eq_member_iff_belongs (hne : convention.grammarSuffix ≠ convention.dataSuffix) :
    convention.classify path = .member pair variant half ↔
      convention.Belongs path pair variant half := by
  rw [classify_eq_member]
  constructor
  · intro h
    obtain ⟨hhidden, stem, first, hsplit, hfirst, rfl, rfl⟩ := h
    obtain ⟨hleaves, hlongest⟩ := (split?_eq_some hne).mp hsplit
    refine ⟨?_, hleaves, ?_, hlongest⟩
    · rw [← isHidden_iff, hhidden]
      exact Bool.false_ne_true
    · apply variant?_toList.mp
      rwa [String.toList_ofList, String.toList_ofList]
  · intro h
    refine ⟨?_, pair.toList, variant.toList, ?_, variant?_toList.mpr h.named, ?_, ?_⟩
    · exact (Bool.not_eq_true _).mp fun hhidden => h.visible (isHidden_iff.mp hhidden)
    · apply (split?_eq_some hne).mpr
      rw [String.ofList_toList]
      exact ⟨h.leaves, h.longest⟩
    · exact String.ofList_toList.symm
    · exact String.ofList_toList.symm

end Classify

/-- A convention of two suffixes that differ takes for members of pairs exactly the paths of their
halves, and ignores exactly those of hidden files; the others are misnamed. No two paths are the
same half of one pair. -/
theorem classify_iff (convention : SuffixConvention)
    (hne : convention.grammarSuffix ≠ convention.dataSuffix) :
    (∀ path pair variant half, convention.classify path = .member pair variant half ↔
      convention.Belongs path pair variant half) ∧
    (∀ path, convention.classify path = .ignored ↔ Hidden path) ∧
    (∀ path, convention.classify path = .misnamed convention.expected ↔
      ¬ Hidden path ∧ ∀ pair variant half, ¬ convention.Belongs path pair variant half) ∧
    ∀ first second pair variant other half,
      convention.classify first = .member pair variant half →
        convention.classify second = .member pair other half → first = second := by
  have hmember {path pair variant : String} {half : Half} :
      convention.classify path = .member pair variant half ↔
        convention.Belongs path pair variant half := classify_eq_member_iff_belongs hne
  refine ⟨fun _ _ _ _ => hmember, fun _ => classify_eq_ignored, ?_, ?_⟩
  · intro path
    constructor
    · intro h
      refine ⟨?_, ?_⟩
      · intro hhidden
        cases h.symm.trans (classify_eq_ignored.mpr hhidden)
      · intro pair variant half hbelongs
        cases h.symm.trans (hmember.mpr hbelongs)
    · intro h
      obtain ⟨hvisible, hnone⟩ := h
      rcases convention.classify_cases path with hignored | hmisnamed | ⟨pair, variant, half, hsome⟩
      · exact absurd (classify_eq_ignored.mp hignored) hvisible
      · exact hmisnamed
      · exact absurd (hmember.mp hsome) (hnone pair variant half)
  · intro first second pair variant other half hfirst hsecond
    rw [(hmember.mp hfirst).leaves.path_eq, (hmember.mp hsecond).leaves.path_eq]

/-- Where the longer suffix leaves only a directory, the shorter one holds. -/
theorem classify_iff_overlapping :
    let convention : SuffixConvention := ⟨".csv", "a.csv"⟩
    convention.grammarSuffix ≠ convention.dataSuffix ∧
      convention.Belongs "event/a.csv" "event/a" "event" .grammar ∧
      convention.Belongs "event/ba.csv" "event/b" "event" .data ∧
      Hidden "event/.a.csv" ∧ ¬ Hidden "a.csv" := by
  intro convention
  have hne : convention.grammarSuffix ≠ convention.dataSuffix := by decide
  obtain ⟨hmember, hignored, hmisnamed, -⟩ := classify_iff convention hne
  refine ⟨hne, ?_, ?_, ?_, ?_⟩
  · exact (hmember "event/a.csv" "event/a" "event" .grammar).mp (by decide)
  · exact (hmember "event/ba.csv" "event/b" "event" .data).mp (by decide)
  · exact (hignored "event/.a.csv").mp (by decide)
  · exact ((hmisnamed "a.csv").mp (by decide)).1

end SuffixConvention

end TableIntake.Batch
