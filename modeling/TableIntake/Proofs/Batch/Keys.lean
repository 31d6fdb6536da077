import Mathlib.Data.List.Induction
import TableIntake.Proofs.Batch.Reports

namespace TableIntake.Batch

open TableIntake.Archive (Entry)
open TableIntake.Files

/-! Keys: what the entries of an archive are reported under. -/

/-- Links and devices are reported only as members of a pair. -/
def key? (convention : Convention) (position : Nat) : Entry → Option String
  | .skipped => none
  | .sealed _ => some (Unpacked.sealedLabel position)
  | .member name regular _ =>
      match convention (normalize name) with
      | .ignored => none
      | .misnamed _ => if regular then some (normalize name) else none
      | .member pair _ _ => some pair

/-- The keys of all entries, which are counted from 1. -/
def keys (convention : Convention) (entries : List Entry) : List String :=
  (entries.zipIdx 1).filterMap fun (entry, position) => key? convention position entry

theorem keys_concat (convention : Convention) (entries : List Entry) (entry : Entry) :
    keys convention (entries ++ [entry]) =
      keys convention entries ++ (key? convention (1 + entries.length) entry).toList := by
  simp only [keys, List.zipIdx_append, List.filterMap_append, List.zipIdx_singleton]
  cases h : key? convention (1 + entries.length) entry with
  | none => simp [h]
  | some key => simp [h]

namespace Unpacked

theorem map_pair_posting? (state : Unpacked Table) (convention : Convention) (scratch : Scratch)
    (position : Nat) (entry : Entry) :
    (state.posting? convention scratch position entry).map Posting.pair =
      key? convention position entry := by
  cases entry with
  | skipped => rfl
  | «sealed» reason => rfl
  | member name regular content =>
      simp only [posting?, key?]
      cases convention (normalize name) with
      | ignored => rfl
      | misnamed expected => cases regular <;> rfl
      | member pair variant half => rfl

end Unpacked

theorem eraseDups_concat (keys : List String) (key : String) :
    (keys ++ [key]).eraseDups =
      if key ∈ keys.eraseDups then keys.eraseDups else keys.eraseDups ++ [key] := by
  rw [List.eraseDups_append]
  simp only [List.mem_eraseDups, List.removeAll]
  split
  case isTrue hmem => simp [hmem]
  case isFalse hnew =>
      have hself : [key].eraseDups = [key] := by simp [List.eraseDups_cons]
      simp [hnew, hself]

/-- The table has one row for each key, in the order in which the keys appear first. -/
theorem map_pair_unpack (convention : Convention) (scratch : Scratch) (entries : List Entry)
    (tree : FileTree) :
    (unpack convention scratch entries tree).table.map Pending.pair =
      (keys convention entries).eraseDups := by
  induction entries using List.reverseRecOn with
  | nil => rfl
  | append_singleton entries entry ih =>
      rw [unpack_concat, Unpacked.table_take, keys_concat]
      have hkey := (unpack convention scratch entries tree).map_pair_posting? convention scratch
        (1 + entries.length) entry
      cases hposting : (unpack convention scratch entries tree).posting? convention scratch
          (1 + entries.length) entry with
      | none =>
          rw [hposting, Option.map_none] at hkey
          rw [← hkey, Option.toList_none, List.append_nil]
          exact ih
      | some posting =>
          rw [hposting, Option.map_some] at hkey
          rw [← hkey, Option.toList_some, eraseDups_concat, ← ih]
          exact Table.map_pair_update posting.note.pair_enter _ _ _

namespace Plan

/-- A batch over an archive that can be read reports every key once, in the order in which they
appear first. -/
theorem pairs_process (plan : Plan) (run : Run) {archive : Path} {tree made : FileTree}
    {location : Location} {node : Node} {scratch : Scratch}
    (hopen : tree.lookup archive = .ok (location, node))
    (hreadable : (contentsOf node).fault = none)
    (hcreate : Scratch.create plan.scratchRoot run.tag tree = (.ok scratch, made))
    (journal : Log.Journal) :
    ∃ reports, ((plan.process run archive tree).run journal).1.1 = .ok reports ∧
      reports.map Report.pair = (keys plan.convention (contentsOf node).entries).eraseDups := by
  have hrun := plan.gives_process_of_create run hopen hcreate journal
  rw [hreadable] at hrun
  refine ⟨_, congrArg Prod.fst hrun, ?_⟩
  rw [Table.map_pair_reports]
  exact map_pair_unpack plan.convention scratch (contentsOf node).entries made

/-- An empty member of a Zip archive, without a date. -/
def emptyMember (method : UInt8) (name : String) : List UInt8 :=
  [80, 75, 3, 4, 20, 0, 0, 0, method] ++ List.replicate 17 0 ++
    [name.utf8ByteSize.toUInt8, 0, 0, 0] ++ name.toUTF8.toList

/-- What the directory of the archive says of it. -/
def emptyListed (method offset : UInt8) (name : String) : List UInt8 :=
  [80, 75, 1, 2, 20, 3, 20, 0, 0, 0, method] ++ List.replicate 17 0 ++
    [name.utf8ByteSize.toUInt8] ++ List.replicate 13 0 ++ [offset, 0, 0, 0] ++
    name.toUTF8.toList

/-- Its first member is compressed in a way that is not known. -/
def keyZip : List UInt8 :=
  emptyMember 12 "b" ++ emptyMember 0 ".keep" ++ emptyMember 0 "notes.txt" ++
    emptyMember 0 "event/a.data.csv" ++ emptyMember 0 "./notes.txt" ++
    emptyListed 12 0 "b" ++ emptyListed 0 31 ".keep" ++ emptyListed 0 66 "notes.txt" ++
    emptyListed 0 105 "event/a.data.csv" ++ emptyListed 0 151 "./notes.txt" ++
    [80, 75, 5, 6, 0, 0, 0, 0, 5, 0, 5, 0, 16, 1, 0, 0, 192, 0, 0, 0, 0, 0]

theorem pairs_process_keyZip :
    ∃ reports,
      ((({ scratchRoot := ⟨false, ["scratch"]⟩ } : Plan).process ⟨"tag", 0⟩
          ⟨false, ["batch.zip"]⟩ ⟨[(["batch.zip"], .file keyZip)], []⟩).run {}).1.1 =
        .ok reports ∧
      reports.map Report.pair = ["entry #1", "notes.txt", "event/a"] := by
  have hopen : FileTree.lookup ⟨[(["batch.zip"], .file keyZip)], []⟩ ⟨false, ["batch.zip"]⟩ =
      .ok (["batch.zip"], .file keyZip) := by decide +kernel
  have hcreate : Scratch.create ⟨false, ["scratch"]⟩ "tag"
      ⟨[(["batch.zip"], .file keyZip)], []⟩ =
        (.ok ⟨⟨false, ["scratch", "ingestguard-tag"]⟩, [⟨false, ["scratch"]⟩]⟩,
          ⟨[(["ingestguard-tag", "scratch"], .directory), (["scratch"], .directory),
            (["batch.zip"], .file keyZip)], []⟩) := by decide +kernel
  have hreadable : (contentsOf (.file keyZip)).fault = none := by decide +kernel
  have hkeys : (keys ({} : SuffixConvention).classify
      (contentsOf (.file keyZip)).entries).eraseDups = ["entry #1", "notes.txt", "event/a"] := by
    decide +kernel
  obtain ⟨reports, hrun, hpairs⟩ :=
    pairs_process { scratchRoot := ⟨false, ["scratch"]⟩ } ⟨"tag", 0⟩ hopen hreadable hcreate {}
  exact ⟨reports, hrun, hpairs.trans hkeys⟩

end Plan

end TableIntake.Batch
