import Mathlib.Data.List.Induction
import TableIntake.Proofs.Scratch.Sharing

namespace TableIntake.Scratch

open TableIntake.Files
open TableIntake.Log (Logging)

/-! Requests to a pool, one after the other, in whatever order they come. -/

inductive Request where
  | create (site : Site)
  | write (tag name : String) (content : Content)
  | drop (tag : String)

namespace Request

def site? : Request → Option Site
  | .create site => some site
  | .write .. | .drop _ => none

/-- Every scratch directory has its tag as its identifier, and so none takes the place of
another. -/
def serve : Request → Held → Logging Held
  | .create site, held => do
      let (_, pool) ← held.pool.create site.tag site.root site.tag
      return { held with pool }
  | .write tag name content, held => do
      let (_, pool) := held.pool.write tag name content
      match held.pool.guard? tag with
      | none => return { held with pool }
      | some scratch =>
          let filled := scratch.filled? name content held.pool.tree
          return ⟨pool, held.ledger.note tag filled content.bytes⟩
  | .drop tag, held => do
      let pool ← held.pool.remove tag
      return { held with pool }

def serveAll (requests : List Request) (held : Held) : Logging Held :=
  requests.foldlM (fun held request => request.serve held) held

def sites (requests : List Request) : List Site :=
  requests.filterMap site?

theorem sites_append (earlier later : List Request) :
    sites (earlier ++ later) = sites earlier ++ sites later :=
  List.filterMap_append

theorem sites_singleton (request : Request) : sites [request] = request.site?.toList := by
  unfold sites
  cases hsite : request.site? <;> simp [hsite]

theorem fst_run_create (site : Site) (held : Held) (journal : Log.Journal) :
    (((create site).serve held).run journal).1 =
      { held with
        pool := ((held.pool.create site.tag site.root site.tag).run journal).1.2 } :=
  rfl

theorem fst_run_drop (tag : String) (held : Held) (journal : Log.Journal) :
    (((drop tag).serve held).run journal).1 =
      { held with pool := ((held.pool.remove tag).run journal).1 } :=
  rfl

theorem fst_run_write (tag name : String) (content : Content) (held : Held)
    (journal : Log.Journal) :
    (((write tag name content).serve held).run journal).1 =
      match held.pool.guard? tag with
      | none => held
      | some scratch =>
          ⟨⟨(scratch.write name content held.pool.tree).2, held.pool.guards⟩,
            held.ledger.note tag (scratch.filled? name content held.pool.tree) content.bytes⟩ := by
  simp only [serve, Pool.write]
  cases held.pool.guard? tag <;> rfl

theorem fst_run_serveAll_cons (request : Request) (requests : List Request) (held : Held)
    (journal : Log.Journal) :
    ((serveAll (request :: requests) held).run journal).1 =
      ((serveAll requests ((request.serve held).run journal).1).run
        ((request.serve held).run journal).2).1 :=
  rfl

end Request

theorem Pool.fst_run_remove (pool : Pool) (id : String) (journal : Log.Journal) :
    ((pool.remove id).run journal).1 =
      match pool.guard? id with
      | none => pool
      | some scratch => ⟨scratch.removed pool.tree, pool.guards.filter (·.1 ≠ id)⟩ := by
  unfold Pool.remove
  cases pool.guard? id with
  | none => rfl
  | some scratch =>
      simp only [StateT.run_bind]
      rw [← scratch.fst_run_remove pool.tree journal]
      rfl

theorem Pool.fst_run_create_error {pool : Pool} {id tag : String} {root : Path} {e : Error}
    {left : FileTree} (h : Scratch.create root tag pool.tree = (.error e, left))
    (journal : Log.Journal) :
    ((pool.create id root tag).run journal).1 = (.error e, { pool with tree := left }) := by
  rw [Pool.create, h]
  rfl

theorem Pool.fst_run_create_ok {pool : Pool} {id tag : String} {root : Path} {scratch : Scratch}
    {made : FileTree} (h : Scratch.create root tag pool.tree = (.ok scratch, made))
    (hnone : pool.guard? id = none) (journal : Log.Journal) :
    ((pool.create id root tag).run journal).1 =
      (.ok scratch, ⟨made, (id, scratch) :: pool.guards⟩) := by
  have hremove : Pool.remove { pool with tree := made } id = pure { pool with tree := made } := by
    rw [Pool.remove, show Pool.guard? { pool with tree := made } id = none from hnone]
  rw [Pool.create, h]
  simp only [hremove]
  rfl

namespace Sound

variable {tree : FileTree} {sites : List Site} {held : Held}

theorem guard?_eq_none (h : Sound tree sites held) {site : Site}
    (hsites : Apart tree (sites ++ [site])) : held.pool.guard? site.tag = none := by
  cases hguard : held.pool.guard? site.tag with
  | none => rfl
  | some scratch =>
      obtain ⟨other, hother, hguarded⟩ := h.guarded _ (Pool.mem_of_guard? hguard)
      exact absurd hguarded.tag.symm (hsites.tag_ne hother)

theorem serve (h : Sound tree sites held) (hrooted : tree.Rooted) {request : Request}
    (hsites : Apart tree (sites ++ request.site?.toList)) (journal : Log.Journal) :
    Sound tree (sites ++ request.site?.toList) ((request.serve held).run journal).1 := by
  cases request with
  | create site =>
      rw [Request.fst_run_create]
      rcases hcreate : create site.root site.tag held.pool.tree with ⟨result, later⟩
      cases result with
      | error e =>
          rw [Pool.fst_run_create_error hcreate]
          exact h.create_error hsites hcreate
      | ok scratch =>
          rw [Pool.fst_run_create_ok hcreate (h.guard?_eq_none hsites)]
          exact h.create_ok hsites hcreate
  | write tag name content =>
      simp only [Request.site?, Option.toList_none, List.append_nil] at hsites ⊢
      rw [Request.fst_run_write]
      cases hguard : held.pool.guard? tag with
      | none => exact h
      | some scratch => exact h.write hrooted hsites hguard name content
  | drop tag =>
      simp only [Request.site?, Option.toList_none, List.append_nil] at hsites ⊢
      rw [Request.fst_run_drop, Pool.fst_run_remove]
      cases hguard : held.pool.guard? tag with
      | none => exact h
      | some scratch => exact h.drop hrooted hsites hguard

theorem serveAll (h : Sound tree sites held) (hrooted : tree.Rooted) {requests : List Request}
    (hsites : Apart tree (sites ++ Request.sites requests)) (journal : Log.Journal) :
    Sound tree (sites ++ Request.sites requests)
      ((Request.serveAll requests held).run journal).1 := by
  induction requests generalizing sites held journal with
  | nil =>
      rw [Request.sites, List.filterMap_nil, List.append_nil]
      exact h
  | cons request requests ih =>
      rw [Request.fst_run_serveAll_cons]
      rw [← List.singleton_append, Request.sites_append, Request.sites_singleton,
        ← List.append_assoc] at hsites ⊢
      have hfirst := hsites.of_sublist (List.sublist_append_left _ (Request.sites requests))
      exact ih (h.serve hrooted hfirst journal) hsites _

theorem initial (hrooted : tree.Rooted) : Sound tree [] ⟨⟨tree, []⟩, []⟩ where
  keeps := FileTree.Keeps.refl tree
  rooted := hrooted
  guarded := fun _ hguard => absurd hguard List.not_mem_nil
  intact := fun _ hguard => absurd hguard List.not_mem_nil
  noted := fun _ hentry => absurd hentry List.not_mem_nil
  origin := fun _ _ hfind => Or.inl hfind

end Sound

/-- What requests have come to. -/
def outcome (tree : FileTree) (requests : List Request) (journal : Log.Journal) : Held :=
  ((Request.serveAll requests ⟨⟨tree, []⟩, []⟩).run journal).1

theorem sound_outcome {tree : FileTree} (hrooted : tree.Rooted) {requests : List Request}
    (hsites : Apart tree (Request.sites requests)) (journal : Log.Journal) :
    Sound tree (Request.sites requests) (outcome tree requests journal) :=
  (Sound.initial hrooted).serveAll hrooted hsites journal

/-! Which guards are there. -/

theorem outcome_concat (tree : FileTree) (requests : List Request) (last : Request)
    (journal : Log.Journal) :
    ∃ between, outcome tree (requests ++ [last]) journal =
      ((last.serve (outcome tree requests journal)).run between).1 := by
  refine ⟨((Request.serveAll requests ⟨⟨tree, []⟩, []⟩).run journal).2, ?_⟩
  unfold outcome Request.serveAll
  rw [List.foldlM_append]
  rfl

/-- A guard was made for the site, and was not dropped since. -/
def Live (tree : FileTree) (requests : List Request) (journal : Log.Journal) (site : Site)
    (scratch : Scratch) : Prop :=
  ∃ earlier later made, requests = earlier ++ .create site :: later ∧
    create site.root site.tag (outcome tree earlier journal).pool.tree = (.ok scratch, made) ∧
      Request.drop site.tag ∉ later

theorem live_concat {tree : FileTree} {requests : List Request} {last : Request}
    {journal : Log.Journal} {site : Site} {scratch : Scratch} :
    Live tree (requests ++ [last]) journal site scratch ↔
      (Live tree requests journal site scratch ∧ last ≠ .drop site.tag) ∨
        last = .create site ∧ ∃ made, create site.root site.tag
          (outcome tree requests journal).pool.tree = (.ok scratch, made) := by
  constructor
  · rintro ⟨earlier, later, made, hrequests, hcreate, hlater⟩
    rcases List.eq_nil_or_concat later with hnil | ⟨before, final, heq⟩
    · rw [hnil] at hrequests
      obtain ⟨hearlier, hlast⟩ := List.append_inj' hrequests rfl
      rw [← hearlier] at hcreate
      exact Or.inr ⟨List.singleton_inj.mp hlast, made, hcreate⟩
    · rw [heq, List.concat_eq_append, ← List.cons_append, ← List.append_assoc] at hrequests
      rw [heq, List.concat_eq_append, List.mem_append, not_or] at hlater
      obtain ⟨hbefore, hlast⟩ := List.append_inj' hrequests rfl
      obtain rfl := List.singleton_inj.mp hlast
      refine Or.inl ⟨⟨earlier, before, made, hbefore, hcreate, hlater.1⟩, fun hdrop => ?_⟩
      exact hlater.2 (List.mem_singleton.mpr hdrop.symm)
  · rintro (⟨⟨earlier, later, made, rfl, hcreate, hlater⟩, hlast⟩ | ⟨rfl, made, hcreate⟩)
    · refine ⟨earlier, later ++ [last], made, by simp, hcreate, ?_⟩
      rw [List.mem_append, List.mem_singleton, not_or]
      exact ⟨hlater, hlast.symm⟩
    · exact ⟨requests, [], made, rfl, hcreate, List.not_mem_nil⟩

theorem Sound.mem_guards_serve {tree : FileTree} {sites : List Site} {held : Held}
    (h : Sound tree sites held) {request : Request}
    (hsites : Apart tree (sites ++ request.site?.toList)) (journal : Log.Journal)
    (guard : String × Scratch) :
    guard ∈ ((request.serve held).run journal).1.pool.guards ↔
      (guard ∈ held.pool.guards ∧ request ≠ .drop guard.1) ∨
        ∃ site made, request = .create site ∧ guard.1 = site.tag ∧
          create site.root site.tag held.pool.tree = (.ok guard.2, made) := by
  cases request with
  | create site =>
      rw [Request.fst_run_create]
      rcases hcreate : create site.root site.tag held.pool.tree with ⟨result, later⟩
      cases result with
      | error e =>
          rw [Pool.fst_run_create_error hcreate]
          simp [hcreate]
      | ok scratch =>
          rw [Pool.fst_run_create_ok hcreate (h.guard?_eq_none hsites), List.mem_cons]
          constructor
          · rintro (rfl | hold)
            · exact Or.inr ⟨site, later, rfl, rfl, hcreate⟩
            · exact Or.inl ⟨hold, nofun⟩
          · rintro (⟨hold, -⟩ | ⟨other, made, hother, htag, hmade⟩)
            · exact Or.inr hold
            · cases hother
              obtain ⟨hscratch, -⟩ := Prod.mk.inj (hcreate.symm.trans hmade)
              cases hscratch
              exact Or.inl (Prod.ext htag rfl)
  | write tag name content =>
      rw [Request.fst_run_write]
      cases held.pool.guard? tag <;> simp
  | drop tag =>
      rw [Request.fst_run_drop, Pool.fst_run_remove]
      have hdrop : ∀ other, Request.drop tag ≠ .drop other ↔ other ≠ tag := by
        simp [eq_comm]
      simp only [hdrop, reduceCtorEq, false_and, exists_false, or_false]
      cases hguard : held.pool.guard? tag with
      | some scratch => simp [List.mem_filter]
      | none =>
          refine ⟨fun hmem => ⟨hmem, ?_⟩, And.left⟩
          rintro rfl
          have hother := List.lookup_eq_none_iff.mp hguard guard hmem
          simp at hother

/-- The guards of a pool are those that were made and not dropped. -/
theorem mem_guards_outcome {tree : FileTree} (hrooted : tree.Rooted) {requests : List Request}
    (hsites : Apart tree (Request.sites requests)) (journal : Log.Journal)
    (guard : String × Scratch) :
    guard ∈ (outcome tree requests journal).pool.guards ↔
      ∃ site, guard.1 = site.tag ∧ Live tree requests journal site guard.2 := by
  induction requests using List.reverseRecOn with
  | nil =>
      constructor
      · exact fun hguard => absurd hguard List.not_mem_nil
      · rintro ⟨site, -, earlier, later, made, hnil, -⟩
        exact absurd hnil.symm (by simp)
  | append_singleton requests last ih =>
      rw [Request.sites_append, Request.sites_singleton] at hsites
      have hbefore := hsites.of_sublist (List.sublist_append_left _ last.site?.toList)
      obtain ⟨between, hconcat⟩ := outcome_concat tree requests last journal
      rw [hconcat, (sound_outcome hrooted hbefore journal).mem_guards_serve hsites, ih hbefore]
      simp only [live_concat]
      constructor
      · rintro (⟨⟨site, htag, hlive⟩, hlast⟩ | ⟨site, made, hlast, htag, hcreate⟩)
        · exact ⟨site, htag, Or.inl ⟨hlive, htag ▸ hlast⟩⟩
        · exact ⟨site, htag, Or.inr ⟨hlast, made, hcreate⟩⟩
      · rintro ⟨site, htag, ⟨hlive, hlast⟩ | ⟨hlast, made, hcreate⟩⟩
        · exact Or.inl ⟨⟨site, htag, hlive⟩, htag ▸ hlast⟩
        · exact Or.inr ⟨site, made, hlast, htag, hcreate⟩

/-- Whatever is asked of several scratch directories, one after the other in any order: those that
were made and not dropped are there, with what was last written to each of their files, nothing
that was there at first is gone or changed, and once all are dropped nothing else is left than
directories that are a root or above one. -/
theorem outcome_unharmed (tree : FileTree) (requests : List Request) (journal : Log.Journal)
    (hrooted : tree.Rooted) (hsites : Apart tree (Request.sites requests)) :
    (∀ site scratch, Live tree requests journal site scratch →
      (outcome tree requests journal).pool.tree.isDirectory scratch.path = true ∧
        ∀ pieces bytes,
          (outcome tree requests journal).pool.tree.find?
              (scratch.spot (outcome tree requests journal).pool.tree pieces) =
                some (.file bytes) ↔
            (outcome tree requests journal).ledger.lookup (site.tag, pieces) = some bytes) ∧
      (∀ l node, tree.find? l = some node →
        (outcome tree requests journal).pool.tree.find? l = some node) ∧
      ((∀ site scratch, ¬ Live tree requests journal site scratch) → ∀ l node,
        (outcome tree requests journal).pool.tree.find? l = some node →
          tree.find? l = some node ∨
            node = .directory ∧ ∃ site ∈ Request.sites requests, l <:+ tree.goal site.root) := by
  have h := sound_outcome hrooted hsites journal
  have hguards := mem_guards_outcome hrooted hsites journal
  refine ⟨fun site scratch hlive => ?_, h.keeps.found, fun hnone l node hfind => ?_⟩
  · have hintact := h.intact (site.tag, scratch) ((hguards _).mpr ⟨site, rfl, hlive⟩)
    refine ⟨FileTree.isDirectory_eq_true.mpr hintact.found, fun pieces bytes => ?_⟩
    rw [← hintact.files pieces bytes, spot, spot, h.keeps.goal]
  · rcases h.origin l node hfind with hfirst | hroot | ⟨guard, hguard, -⟩
    · exact Or.inl hfirst
    · exact Or.inr hroot
    · obtain ⟨site, -, hlive⟩ := (hguards guard).mp hguard
      exact absurd hlive (hnone site guard.2)

/-- Two scratch directories, one under a directory that the other is taken to have made. -/
def nestedRequests : List Request :=
  [.create ⟨"one", ⟨false, ["new"]⟩⟩, .create ⟨"two", ⟨false, ["new", "deep"]⟩⟩,
    .write "one" "x/y" ⟨[1], none⟩, .write "two" "y" ⟨[2], none⟩, .write "two" "y" ⟨[3], none⟩,
    .drop "one"]

theorem outcome_unharmed_nestedRequests :
    (∃ site scratch, Live pairTree nestedRequests {} site scratch ∧
      (outcome pairTree nestedRequests {}).pool.tree.isDirectory scratch.path = true ∧
      (outcome pairTree nestedRequests {}).pool.tree.find?
        (scratch.spot (outcome pairTree nestedRequests {}).pool.tree ["y"]) =
          some (.file [3])) ∧
      (outcome pairTree nestedRequests {}).pool.tree.find? ["f"] = some (.file []) ∧
      (∀ site scratch, ¬ Live pairTree (nestedRequests ++ [.drop "two"]) {} site scratch) ∧
      ∀ l node, (outcome pairTree (nestedRequests ++ [.drop "two"]) {}).pool.tree.find? l =
          some node → pairTree.find? l = some node ∨ node = .directory ∧
            ∃ site ∈ Request.sites nestedRequests, l <:+ pairTree.goal site.root := by
  have hsites : Apart pairTree (Request.sites nestedRequests) :=
    ⟨by decide +kernel, by decide +kernel, by decide +kernel, by decide +kernel⟩
  obtain ⟨hguards, hkept, -⟩ := outcome_unharmed pairTree nestedRequests {} rooted_pairTree hsites
  have hmem : ("two", ⟨⟨false, ["new", "deep", "ingestguard-two"]⟩, [⟨false, ["new", "deep"]⟩]⟩) ∈
      (outcome pairTree nestedRequests {}).pool.guards := by decide +kernel
  obtain ⟨site, htag, hlive⟩ := (mem_guards_outcome rooted_pairTree hsites {} _).mp hmem
  obtain ⟨hdirectory, hfiles⟩ := hguards site _ hlive
  have hempty : (outcome pairTree (nestedRequests ++ [.drop "two"]) {}).pool.guards = [] := by
    decide +kernel
  have hall : Apart pairTree (Request.sites (nestedRequests ++ [.drop "two"])) := hsites
  have hdropped : ∀ site scratch,
      ¬ Live pairTree (nestedRequests ++ [.drop "two"]) {} site scratch := by
    intro site scratch hlive
    have hguard := (mem_guards_outcome rooted_pairTree hall {} (site.tag, scratch)).mpr
      ⟨site, rfl, hlive⟩
    rw [hempty] at hguard
    exact List.not_mem_nil hguard
  obtain ⟨-, -, hleft⟩ :=
    outcome_unharmed pairTree (nestedRequests ++ [.drop "two"]) {} rooted_pairTree hall
  refine ⟨⟨site, _, hlive, hdirectory, (hfiles ["y"] [3]).mpr ?_⟩, hkept _ _ (by decide +kernel),
    hdropped, hleft hdropped⟩
  rw [← htag]
  decide +kernel

end TableIntake.Scratch
