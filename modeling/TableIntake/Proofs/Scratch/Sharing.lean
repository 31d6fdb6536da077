import TableIntake.Proofs.Scratch.Sites

namespace TableIntake.Scratch

open TableIntake.Files
open TableIntake.Files.FileTree (Keeps)

/-! Scratch directories that share a tree: what is done with one leaves the others as they are. -/

theorem Pool.mem_of_guard? {pool : Pool} {tag : String} {scratch : Scratch}
    (h : pool.guard? tag = some scratch) : (tag, scratch) ∈ pool.guards := by
  obtain ⟨before, after, heq, -⟩ := List.lookup_eq_some_iff.mp h
  rw [heq]
  simp

/-- What was last written to the files of scratch directories, newest first. -/
abbrev Ledger := List ((String × List String) × List UInt8)

def Ledger.note (ledger : Ledger) (tag : String) (filled : Option (List String))
    (bytes : List UInt8) : Ledger :=
  match filled with
  | none => ledger
  | some pieces => ((tag, pieces), bytes) :: ledger

theorem Ledger.lookup_note (ledger : Ledger) (tag other : String) (filled : Option (List String))
    (pieces : List String) (bytes : List UInt8) :
    (ledger.note tag filled bytes).lookup (other, pieces) =
      if other = tag ∧ filled = some pieces then some bytes
      else ledger.lookup (other, pieces) := by
  cases filled with
  | none => simp [note]
  | some found =>
      by_cases h : other = tag ∧ found = pieces
      · obtain ⟨rfl, rfl⟩ := h
        simp [note]
      · have hne : ((other, pieces) == (tag, found)) = false := by
          rw [beq_eq_false_iff_ne, ne_eq, Prod.mk.injEq]
          exact fun heq => h ⟨heq.1, heq.2.symm⟩
        rw [note, List.lookup_cons, hne, if_neg (by simpa using h)]

theorem Ledger.mem_note {ledger : Ledger} {tag : String} {filled : Option (List String)}
    {bytes : List UInt8} {entry : (String × List String) × List UInt8}
    (h : entry ∈ ledger.note tag filled bytes) : entry ∈ ledger ∨ entry.1.1 = tag := by
  cases filled with
  | none => exact Or.inl h
  | some pieces =>
      rcases List.mem_cons.mp h with rfl | h
      · exact Or.inr rfl
      · exact Or.inl h

theorem not_suffix_spot {scratch : Scratch} {tree : FileTree} {place : Location}
    (hout : ¬ place <:+ tree.goal scratch.path) (hin : ¬ tree.goal scratch.path <:+ place)
    (pieces : List String) : ¬ place <:+ scratch.spot tree pieces := by
  intro hplace
  rcases List.suffix_or_suffix_of_suffix hplace (List.suffix_append pieces.reverse _) with
    habove | hbeneath
  · exact hout habove
  · exact hin hbeneath

/-- The guard was made at the site. -/
structure Guarded (tree : FileTree) (site : Site) (guard : String × Scratch) : Prop where
  tag : guard.1 = site.tag
  path : guard.2.path = site.path
  made : ∀ dir ∈ guard.2.made,
    tree.find? (tree.goal dir) = none ∧ tree.goal dir <:+ tree.goal site.root

/-- The directory of a guard is there, and its files are those that were written. -/
structure Intact (tree now : FileTree) (ledger : Ledger) (guard : String × Scratch) : Prop where
  found : now.lookup guard.2.path = .ok (now.goal guard.2.path, .directory)
  files : ∀ pieces bytes, now.find? (guard.2.spot tree pieces) = some (.file bytes) ↔
    ledger.lookup (guard.1, pieces) = some bytes

namespace Intact

variable {tree now later : FileTree} {ledger : Ledger} {guard : String × Scratch}

/-- Directories that are added do not matter. -/
theorem grow (h : Intact tree now ledger guard) (hkeeps : Keeps now later)
    (hfiles : ∀ l bytes, later.find? l = some (.file bytes) → now.find? l = some (.file bytes)) :
    Intact tree later ledger guard where
  found := hkeeps.lookup h.found
  files := fun pieces bytes =>
    ⟨fun hfind => (h.files pieces bytes).mp (hfiles _ _ hfind),
      fun hlookup => hkeeps.found _ _ ((h.files pieces bytes).mpr hlookup)⟩

/-- What is neither above nor beneath the directory can be removed. -/
theorem prune (h : Intact tree now ledger guard) (hhere : now.here = tree.here)
    (hdown : ".." ∉ guard.2.path.pieces) {place : Location}
    (hout : ¬ place <:+ tree.goal guard.2.path) (hin : ¬ tree.goal guard.2.path <:+ place) :
    Intact tree (now.prune place) ledger guard where
  found := by
    have hgoal := FileTree.goal_of_here hhere guard.2.path
    have hkept : ∀ l, l <:+ now.goal guard.2.path → now.find? l = some .directory →
        (now.prune place).find? l = some .directory := by
      intro l hl hdir
      rw [now.find?_prune_of_not_suffix fun hplace => hout (hgoal ▸ hplace.trans hl), hdir]
    exact FileTree.lookup_of_passes h.found (FileTree.passes_of_down hdown _) rfl hkept
      (hkept _ List.suffix_rfl (FileTree.find?_of_lookup h.found))
  files := by
    intro pieces bytes
    rw [now.find?_prune_of_not_suffix (not_suffix_spot hout hin pieces)]
    exact h.files pieces bytes

theorem write_other (h : Intact tree now ledger guard) {scratch : Scratch} {tag : String}
    (hconfined : Confined (tree.goal scratch.path) now later) (htag : guard.1 ≠ tag)
    (hout : ¬ tree.goal scratch.path <:+ tree.goal guard.2.path)
    (hin : ¬ tree.goal guard.2.path <:+ tree.goal scratch.path)
    (filled : Option (List String)) (bytes : List UInt8) :
    Intact tree later (ledger.note tag filled bytes) guard where
  found := hconfined.lookup h.found
  files := by
    intro pieces others
    rw [hconfined.find? (not_suffix_spot hout hin pieces), Ledger.lookup_note,
      if_neg fun hboth => htag hboth.1]
    exact h.files pieces others

theorem write (h : Intact tree now ledger guard) (hhere : now.here = tree.here)
    {scratch : Scratch} (hpath : guard.2.path = scratch.path) {name : String} {content : Content}
    (hconfined : Confined (tree.goal scratch.path) now (scratch.write name content now).2) :
    Intact tree (scratch.write name content now).2
      (ledger.note guard.1 (scratch.filled? name content now) content.bytes) guard where
  found := hconfined.lookup h.found
  files := by
    intro pieces bytes
    have hspot : guard.2.spot tree pieces = scratch.spot now pieces := by
      unfold spot
      rw [hpath, FileTree.goal_of_here hhere]
    rw [hspot, file_write, Ledger.lookup_note]
    by_cases hfilled : scratch.filled? name content now = some pieces
    · simp [hfilled]
    · rw [if_neg hfilled, if_neg fun hboth => hfilled hboth.2, ← hspot]
      exact h.files pieces bytes

end Intact

/-- Several guards in one tree, and what was last written through them. -/
structure Held where
  pool : Pool
  ledger : Ledger := []

/-- Whatever was done, the tree is the one at first with what the guards made. -/
structure Sound (tree : FileTree) (sites : List Site) (held : Held) : Prop where
  keeps : Keeps tree held.pool.tree
  rooted : held.pool.tree.Rooted
  guarded : ∀ guard ∈ held.pool.guards, ∃ site ∈ sites, Guarded tree site guard
  intact : ∀ guard ∈ held.pool.guards, Intact tree held.pool.tree held.ledger guard
  noted : ∀ entry ∈ held.ledger, ∃ site ∈ sites, entry.1.1 = site.tag
  origin : ∀ l node, held.pool.tree.find? l = some node →
    tree.find? l = some node ∨
      (node = .directory ∧ ∃ site ∈ sites, l <:+ tree.goal site.root) ∨
        ∃ guard ∈ held.pool.guards, tree.goal guard.2.path <:+ l

theorem Guarded.down {tree : FileTree} {site : Site} {guard : String × Scratch}
    (h : Guarded tree site guard) (hdown : ".." ∉ site.root.pieces) :
    ".." ∉ guard.2.path.pieces := by
  rw [h.path]
  exact location_down hdown site.tag

namespace Sound

variable {tree : FileTree} {sites : List Site} {held : Held}

theorem here (h : Sound tree sites held) : held.pool.tree.here = tree.here :=
  h.keeps.here

/-- A place that was free at first can be removed, if no other guard is above or beneath it. -/
theorem prune (h : Sound tree sites held) (hrooted : tree.Rooted) (hsites : Apart tree sites)
    {place : Location} (hnone : tree.find? place = none) {guards : List (String × Scratch)}
    (hsubset : guards ⊆ held.pool.guards)
    (hapart : ∀ guard ∈ guards, ¬ place <:+ tree.goal guard.2.path ∧
      ¬ tree.goal guard.2.path <:+ place)
    (hgone : ∀ guard ∈ held.pool.guards, guard ∈ guards ∨ tree.goal guard.2.path = place) :
    Sound tree sites ⟨⟨held.pool.tree.prune place, guards⟩, held.ledger⟩ where
  keeps := hrooted.keeps_prune h.keeps hnone
  rooted := h.rooted.prune place
  guarded := fun guard hguard => h.guarded guard (hsubset hguard)
  intact := by
    intro guard hguard
    obtain ⟨site, hsite, hguarded⟩ := h.guarded guard (hsubset hguard)
    exact (h.intact guard (hsubset hguard)).prune h.here
      (hguarded.down (hsites.down site hsite)) (hapart guard hguard).1 (hapart guard hguard).2
  noted := h.noted
  origin := by
    intro l node hfind
    obtain ⟨hold, hout⟩ :=
      FileTree.find?_of_prune (FileTree.ne_nil_of_find?_eq_none hnone) hfind
    rcases h.origin l node hold with hfirst | hroot | ⟨guard, hguard, hbeneath⟩
    · exact Or.inl hfirst
    · exact Or.inr (Or.inl hroot)
    · rcases hgone guard hguard with hstays | hplace
      · exact Or.inr (Or.inr ⟨guard, hstays, hbeneath⟩)
      -- What a guard had that is gone was beneath the place.
      · exact absurd (hplace ▸ hbeneath) hout

/-- The directories that a guard believes it has made can be removed as far as they are empty. -/
theorem retreat (h : Sound tree sites held) (hrooted : tree.Rooted) (hsites : Apart tree sites)
    {site : Site} (hsite : site ∈ sites) {dirs : List Path}
    (hdirs : ∀ dir ∈ dirs,
      tree.find? (tree.goal dir) = none ∧ tree.goal dir <:+ tree.goal site.root) :
    Sound tree sites
      ⟨⟨Scratch.retreat held.pool.tree dirs, held.pool.guards⟩, held.ledger⟩ := by
  induction dirs generalizing held with
  | nil => exact h
  | cons dir dirs ih =>
      obtain ⟨⟨hnone, habove⟩, hrest⟩ := List.forall_mem_cons.mp hdirs
      rw [Scratch.retreat]
      cases hremove : held.pool.tree.removeDirectory dir with
      | error e => exact h
      | ok later =>
          obtain ⟨hempty, rfl⟩ := FileTree.removeDirectory_eq_ok hremove
          rw [h.keeps.goal] at hempty ⊢
          have hbeneath : ∀ guard ∈ held.pool.guards,
              ¬ tree.goal guard.2.path <:+ tree.goal dir := by
            intro guard hguard hsuffix
            obtain ⟨other, hother, hguarded⟩ := h.guarded guard hguard
            rw [hguarded.path] at hsuffix
            exact hsites.outside other hother site hsite (hsuffix.trans habove)
          have hout : ∀ guard ∈ held.pool.guards,
              ¬ tree.goal dir <:+ tree.goal guard.2.path := by
            intro guard hguard hsuffix
            have hne : tree.goal dir ≠ tree.goal guard.2.path := fun heq =>
              hbeneath guard hguard (heq ▸ List.suffix_rfl)
            -- The directory of the guard keeps the one above it from being empty.
            obtain ⟨name, hchild⟩ := FileTree.exists_cons_suffix hsuffix hne
            have hfound := FileTree.find?_of_lookup (h.intact guard hguard).found
            rw [h.keeps.goal] at hfound
            cases (hempty name).symm.trans (h.rooted.above hfound hchild)
          exact ih (h.prune hrooted hsites hnone (List.Subset.refl _)
            (fun guard hguard => ⟨hout guard hguard, hbeneath guard hguard⟩)
            fun guard hguard => Or.inl hguard) hrest

section Guard

variable {guard other : String × Scratch}

theorem not_suffix (h : Sound tree sites held) (hsites : Apart tree sites)
    (hguard : guard ∈ held.pool.guards) (hother : other ∈ held.pool.guards)
    (htag : guard.1 ≠ other.1) : ¬ tree.goal guard.2.path <:+ tree.goal other.2.path := by
  obtain ⟨site, hsite, hguarded⟩ := h.guarded guard hguard
  obtain ⟨second, hsecond, hguardedother⟩ := h.guarded other hother
  rw [hguarded.tag, hguardedother.tag] at htag
  rw [hguarded.path, hguardedother.path]
  exact hsites.not_suffix hsite hsecond htag

theorem path_eq (h : Sound tree sites held) (hsites : Apart tree sites)
    (hguard : guard ∈ held.pool.guards) (hother : other ∈ held.pool.guards)
    (htag : guard.1 = other.1) : guard.2.path = other.2.path := by
  obtain ⟨site, hsite, hguarded⟩ := h.guarded guard hguard
  obtain ⟨second, hsecond, hguardedother⟩ := h.guarded other hother
  rw [hguarded.tag, hguardedother.tag] at htag
  rw [hguarded.path, hguardedother.path, hsites.eq_of_tag hsite hsecond htag]

theorem free (h : Sound tree sites held) (hsites : Apart tree sites)
    (hguard : guard ∈ held.pool.guards) : tree.find? (tree.goal guard.2.path) = none := by
  obtain ⟨site, hsite, hguarded⟩ := h.guarded guard hguard
  rw [hguarded.path]
  exact hsites.fresh site hsite

theorem settled (h : Sound tree sites held) (hguard : guard ∈ held.pool.guards) :
    Settled guard.2 held.pool.tree := by
  obtain ⟨site, -, hguarded⟩ := h.guarded guard hguard
  have hpath : guard.2.path = location site.root site.tag := hguarded.path
  obtain ⟨before, hpieces⟩ := pieces_location site.root site.tag
  rw [← hpath] at hpieces
  exact settled_of_lookup (isName_namePrefix_append site.tag) hpieces (h.intact guard hguard).found

end Guard

theorem drop (h : Sound tree sites held) (hrooted : tree.Rooted) (hsites : Apart tree sites)
    {tag : String} {scratch : Scratch} (hguard : held.pool.guard? tag = some scratch) :
    Sound tree sites ⟨⟨scratch.removed held.pool.tree,
      held.pool.guards.filter (·.1 ≠ tag)⟩, held.ledger⟩ := by
  have hmem := Pool.mem_of_guard? hguard
  obtain ⟨site, hsite, hguarded⟩ := h.guarded _ hmem
  rw [removed_of_lookup (h.intact _ hmem).found, h.keeps.goal]
  refine (h.prune hrooted hsites (h.free hsites hmem) List.filter_sublist.subset ?_ ?_).retreat
    hrooted hsites hsite hguarded.made
  · intro guard hkept
    obtain ⟨hother, htag⟩ := List.mem_filter.mp hkept
    have hne : guard.1 ≠ tag := of_decide_eq_true htag
    exact ⟨h.not_suffix hsites hmem hother hne.symm, h.not_suffix hsites hother hmem hne⟩
  · intro guard hother
    by_cases htag : guard.1 = tag
    · exact Or.inr (congrArg tree.goal (h.path_eq hsites hother hmem htag))
    · exact Or.inl (List.mem_filter.mpr ⟨hother, decide_eq_true htag⟩)

theorem write (h : Sound tree sites held) (hrooted : tree.Rooted) (hsites : Apart tree sites)
    {tag : String} {scratch : Scratch} (hguard : held.pool.guard? tag = some scratch)
    (name : String) (content : Content) :
    Sound tree sites
      ⟨⟨(scratch.write name content held.pool.tree).2, held.pool.guards⟩,
        held.ledger.note tag (scratch.filled? name content held.pool.tree) content.bytes⟩ := by
  have hmem := Pool.mem_of_guard? hguard
  have hnone : tree.find? (tree.goal scratch.path) = none := h.free hsites hmem
  have hconfined := (Confined.refl (held.pool.tree.goal scratch.path) held.pool.tree).write
    (h.settled hmem) name content
  rw [h.keeps.goal] at hconfined
  refine ⟨⟨hconfined.here.trans h.here, ?_⟩, rooted_write h.rooted scratch name content,
    h.guarded, ?_, ?_, ?_⟩
  -- What was there at first is not in the directory of the guard.
  · intro l node hfind
    have hpruned := (hrooted.keeps_prune h.keeps hnone).found l node hfind
    rw [← hconfined.outside] at hpruned
    exact (FileTree.find?_of_prune (FileTree.ne_nil_of_find?_eq_none hnone) hpruned).1
  · intro guard hother
    by_cases htag : guard.1 = tag
    · rw [← htag]
      exact (h.intact guard hother).write h.here (h.path_eq hsites hother hmem htag) hconfined
    · exact (h.intact guard hother).write_other hconfined htag
        (h.not_suffix hsites hmem hother (Ne.symm htag)) (h.not_suffix hsites hother hmem htag) _ _
  · intro entry hentry
    rcases Ledger.mem_note hentry with hold | htag
    · exact h.noted entry hold
    · obtain ⟨site, hsite, hguarded⟩ := h.guarded _ hmem
      exact ⟨site, hsite, htag.trans hguarded.tag⟩
  · intro l node hfind
    by_cases hbeneath : tree.goal scratch.path <:+ l
    · exact Or.inr (Or.inr ⟨_, hmem, hbeneath⟩)
    · rw [hconfined.find? hbeneath] at hfind
      exact h.origin l node hfind

theorem find?_site {site : Site} (h : Sound tree sites held)
    (hsites : Apart tree (sites ++ [site])) :
    held.pool.tree.find? (tree.goal site.path) = none := by
  have hsite : site ∈ sites ++ [site] := List.mem_append_right sites (List.mem_singleton_self site)
  have hold : ∀ other ∈ sites, other ∈ sites ++ [site] := fun other hother =>
    List.mem_append_left [site] hother
  cases hfind : held.pool.tree.find? (tree.goal site.path) with
  | none => rfl
  | some node =>
      rcases h.origin _ node hfind with
        hfirst | ⟨-, other, hother, hroot⟩ | ⟨guard, hguard, hbeneath⟩
      · cases (hsites.fresh site hsite).symm.trans hfirst
      · exact absurd hroot (hsites.outside site hsite other (hold other hother))
      · obtain ⟨other, hother, hguarded⟩ := h.guarded guard hguard
        rw [hguarded.path] at hbeneath
        exact absurd hbeneath
          (hsites.not_suffix (hold other hother) hsite (hsites.tag_ne hother))

/-- Making directories for a new site, and a guard or none. -/
theorem grow (h : Sound tree sites held) {site : Site} {later : FileTree}
    (guards : List (String × Scratch)) (hkeeps : Keeps held.pool.tree later)
    (hrooted : later.Rooted)
    (hadded : ∀ l node, later.find? l = some node → held.pool.tree.find? l = some node ∨
      node = .directory ∧
        (l <:+ tree.goal site.root ∨ ∃ guard ∈ guards, tree.goal guard.2.path <:+ l))
    (hguards : ∀ guard ∈ guards,
      Guarded tree site guard ∧ Intact tree later held.ledger guard) :
    Sound tree (sites ++ [site]) ⟨⟨later, guards ++ held.pool.guards⟩, held.ledger⟩ := by
  have hsite : site ∈ sites ++ [site] := List.mem_append_right sites (List.mem_singleton_self site)
  have hfiles : ∀ l bytes, later.find? l = some (.file bytes) →
      held.pool.tree.find? l = some (.file bytes) := by
    intro l bytes hfind
    rcases hadded l _ hfind with hold | ⟨hnode, -⟩
    · exact hold
    · cases hnode
  refine ⟨h.keeps.trans hkeeps, hrooted, ?_, ?_, ?_, ?_⟩
  · intro guard hguard
    rcases List.mem_append.mp hguard with hnew | hold
    · exact ⟨site, hsite, (hguards guard hnew).1⟩
    · obtain ⟨other, hother, hguarded⟩ := h.guarded guard hold
      exact ⟨other, List.mem_append_left [site] hother, hguarded⟩
  · intro guard hguard
    rcases List.mem_append.mp hguard with hnew | hold
    · exact (hguards guard hnew).2
    · exact (h.intact guard hold).grow hkeeps hfiles
  · intro entry hentry
    obtain ⟨other, hother, htag⟩ := h.noted entry hentry
    exact ⟨other, List.mem_append_left [site] hother, htag⟩
  · intro l node hfind
    rcases hadded l node hfind with hold | ⟨hnode, hroot | ⟨guard, hguard, hbeneath⟩⟩
    · rcases h.origin l node hold with
        hfirst | ⟨hnode, other, hother, hroot⟩ | ⟨guard, hguard, hbeneath⟩
      · exact Or.inl hfirst
      · exact Or.inr (Or.inl ⟨hnode, other, List.mem_append_left [site] hother, hroot⟩)
      · exact Or.inr (Or.inr ⟨guard, List.mem_append_right guards hguard, hbeneath⟩)
    · exact Or.inr (Or.inl ⟨hnode, site, hsite, hroot⟩)
    · exact Or.inr (Or.inr ⟨guard, List.mem_append_left _ hguard, hbeneath⟩)

theorem create_error (h : Sound tree sites held) {site : Site}
    (hsites : Apart tree (sites ++ [site])) {e : Error} {left : FileTree}
    (hcreate : create site.root site.tag held.pool.tree = (.error e, left)) :
    Sound tree (sites ++ [site]) ⟨⟨left, held.pool.guards⟩, held.ledger⟩ := by
  have hdown := hsites.down site (List.mem_append_right sites (List.mem_singleton_self site))
  refine h.grow [] (keeps_of_create hcreate) (rooted_of_create h.rooted hcreate)
    (fun l node hfind => ?_) fun guard hguard => absurd hguard List.not_mem_nil
  rcases find?_of_create_error hdown hcreate hfind with hold | ⟨hnode, hroot⟩
  · exact Or.inl hold
  · rw [h.keeps.goal] at hroot
    exact Or.inr ⟨hnode, Or.inl hroot⟩

theorem create_ok (h : Sound tree sites held) {site : Site}
    (hsites : Apart tree (sites ++ [site])) {scratch : Scratch} {made : FileTree}
    (hcreate : create site.root site.tag held.pool.tree = (.ok scratch, made)) :
    Sound tree (sites ++ [site])
      ⟨⟨made, (site.tag, scratch) :: held.pool.guards⟩, held.ledger⟩ := by
  have hdown := hsites.down site (List.mem_append_right sites (List.mem_singleton_self site))
  have hkeeps := keeps_of_create hcreate
  have hpath : scratch.path = site.path := by
    rw [(create_eq_ok hcreate).2]
    rfl
  have hguarded : Guarded tree site (site.tag, scratch) := by
    refine ⟨rfl, hpath, fun dir hdir => ?_⟩
    obtain ⟨hnone, habove⟩ := find?_of_made h.rooted hdown hcreate hdir
    rw [h.keeps.goal] at hnone
    rw [h.keeps.goal, h.keeps.goal] at habove
    exact ⟨h.keeps.find?_eq_none hnone, habove⟩
  have hfound : made.lookup scratch.path = .ok (made.goal scratch.path, .directory) := by
    rw [hpath]
    exact FileTree.lookup_of_makeDirectories (location_isEmpty site.root site.tag)
      (create_eq_ok hcreate).1
  have hfiles : ∀ pieces bytes, made.find? (scratch.spot tree pieces) = some (.file bytes) ↔
      held.ledger.lookup (site.tag, pieces) = some bytes := by
    intro pieces bytes
    -- Neither is there a file beneath the new directory, nor a note under the new tag.
    constructor
    · intro hfind
      have hbeneath : tree.goal site.path <:+ scratch.spot tree pieces := by
        rw [← hpath]
        exact List.suffix_append _ _
      have hfree := h.rooted.find?_of_suffix (h.find?_site hsites) hbeneath
      rcases find?_of_create hdown hcreate hfind with hold | ⟨hnode, -⟩
      · cases hfree.symm.trans hold
      · cases hnode
    · intro hlookup
      obtain ⟨before, after, heq, -⟩ := List.lookup_eq_some_iff.mp hlookup
      obtain ⟨other, hother, htag⟩ := h.noted ((site.tag, pieces), bytes) (by simp [heq])
      exact absurd htag.symm (hsites.tag_ne hother)
  refine h.grow [(site.tag, scratch)] hkeeps (rooted_of_create h.rooted hcreate)
    (fun l node hfind => ?_) fun guard hguard => ?_
  · rcases find?_of_create hdown hcreate hfind with hold | ⟨hnode, hl⟩
    · exact Or.inl hold
    · rw [h.keeps.goal] at hl
      refine Or.inr ⟨hnode, ?_⟩
      have hlocation := goal_location tree site.root site.tag
      rcases List.suffix_cons_iff.mp (hlocation ▸ hl) with heq | hroot
      · refine Or.inr ⟨_, List.mem_singleton_self _, ?_⟩
        rw [heq, ← hlocation]
        exact hpath ▸ List.suffix_rfl
      · exact Or.inl hroot
  · cases List.mem_singleton.mp hguard
    exact ⟨hguarded, hfound, hfiles⟩

end Sound

end TableIntake.Scratch
