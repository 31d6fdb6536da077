import TableIntake.Proofs.Batch.Keys

namespace TableIntake.Batch

open TableIntake.Archive (Entry)
open TableIntake.Files

/-! Turns: the entries that are reported under one name, and what each of them comes to by those
before it, whatever else lies between them. -/

/-- An entry at its position, and the file tree that it meets. -/
structure Turn where
  position : Nat
  entry : Entry
  tree : FileTree
  deriving DecidableEq, Repr

namespace Turn

def key? (convention : Convention) (turn : Turn) : Option String :=
  Batch.key? convention turn.position turn.entry

/-- The variant of a pair that begins with the entry. -/
def variant? (convention : Convention) (turn : Turn) : Option String :=
  match placement convention turn.entry with
  | .member _ variant _ => some variant
  | .ignored => none
  | .misnamed _ => none

end Turn

def turns (convention : Convention) (scratch : Scratch) (tree : FileTree)
    (entries : List Entry) : List Turn :=
  (entries.zipIdx 1).map fun (entry, position) =>
    ⟨position, entry, (unpack convention scratch (entries.take (position - 1)) tree).tree⟩

/-- The entries that are reported under a name. -/
def turnsOf (convention : Convention) (scratch : Scratch) (tree : FileTree)
    (entries : List Entry) (pair : String) : List Turn :=
  (turns convention scratch tree entries).filter (·.key? convention = some pair)

section Turns

variable {convention : Convention} {scratch : Scratch} {tree : FileTree}

theorem turns_concat (entries : List Entry) (entry : Entry) :
    turns convention scratch tree (entries ++ [entry]) =
      turns convention scratch tree entries ++
        [⟨1 + entries.length, entry, (unpack convention scratch entries tree).tree⟩] := by
  have hbefore : ∀ found ∈ entries.zipIdx 1,
      (entries ++ [entry]).take (found.2 - 1) = entries.take (found.2 - 1) := by
    intro found hfound
    apply List.take_append_of_le_length
    have hlt := List.snd_lt_add_of_mem_zipIdx hfound
    omega
  simp only [turns, List.zipIdx_append, List.zipIdx_singleton, List.map_append, List.map_singleton]
  congr 1
  · apply List.map_congr_left
    intro found hfound
    rw [hbefore found hfound]
  · simp

theorem exists_mem_turnsOf {entries : List Entry} {pair : String}
    (h : pair ∈ keys convention entries) (scratch : Scratch) (tree : FileTree) :
    ∃ turn, turn ∈ turnsOf convention scratch tree entries pair := by
  obtain ⟨⟨entry, position⟩, hmem, hkey⟩ := List.mem_filterMap.mp h
  refine ⟨_, List.mem_filter.mpr ⟨List.mem_map.mpr ⟨(entry, position), hmem, rfl⟩, ?_⟩⟩
  exact decide_eq_true hkey

end Turns

/-! What becomes of the entries, in terms of the earlier ones under the same name. -/

namespace Note

def filled (notes : List Note) (half : Half) : Bool :=
  notes.any (fills half)

end Note

/-- One case for each thing that can be wrong with an entry. A half that is stored already is
found before anything else that is wrong with a member. -/
inductive Judged (convention : Convention) (scratch : Scratch) (earlier : List Note) :
    Turn → Note → Prop where
  | «sealed» (position : Nat) (reason : String) (tree : FileTree) :
      Judged convention scratch earlier ⟨position, .sealed reason, tree⟩
        (.flaw (.unreadable (Unpacked.sealedLabel position) reason))
  | misnamed {name expected : String} (position : Nat) (content : Content) (tree : FileTree) :
      convention (normalize name) = .misnamed expected →
      Judged convention scratch earlier ⟨position, .member name true content, tree⟩
        (.flaw (.misnamed (normalize name) expected))
  | duplicate {name pair variant : String} {half : Half} (position : Nat) (regular : Bool)
      (content : Content) (tree : FileTree) :
      convention (normalize name) = .member pair variant half →
      Note.filled earlier half = true →
      Judged convention scratch earlier ⟨position, .member name regular content, tree⟩
        (.flaw (.duplicate (normalize name)))
  | special {name pair variant : String} {half : Half} (position : Nat) (content : Content)
      (tree : FileTree) :
      convention (normalize name) = .member pair variant half →
      Note.filled earlier half = false →
      Judged convention scratch earlier ⟨position, .member name false content, tree⟩
        (.flaw (.unreadable (normalize name) "not a regular file"))
  | unwritten {name pair variant : String} {half : Half} {e : Error} (position : Nat)
      (content : Content) (tree : FileTree) :
      convention (normalize name) = .member pair variant half →
      Note.filled earlier half = false →
      (scratch.write (normalize name) content tree).1 = .error e →
      Judged convention scratch earlier ⟨position, .member name true content, tree⟩
        (.flaw (.unreadable (normalize name) e.message))
  | stored {name pair variant : String} {half : Half} {path : Path} (position : Nat)
      (content : Content) (tree : FileTree) :
      convention (normalize name) = .member pair variant half →
      Note.filled earlier half = false →
      (scratch.write (normalize name) content tree).1 = .ok path →
      Judged convention scratch earlier ⟨position, .member name true content, tree⟩
        (.stored half ⟨normalize name, path⟩)

/-- Each entry is judged after those before it. -/
inductive JudgedAll (convention : Convention) (scratch : Scratch) :
    List Turn → List Note → Prop where
  | nil : JudgedAll convention scratch [] []
  | concat {turns : List Turn} {notes : List Note} {turn : Turn} {note : Note} :
      JudgedAll convention scratch turns notes →
      Judged convention scratch notes turn note →
      JudgedAll convention scratch (turns ++ [turn]) (notes ++ [note])

section Judged

variable {convention : Convention} {scratch : Scratch} {earlier notes : List Note}
  {turn : Turn} {note : Note} {half : Half} {file : Extracted}

theorem Judged.variant?_of_stored (h : Judged convention scratch earlier turn note)
    (hflaw : note.flaw? = none) : ∃ text, turn.variant? convention = some text := by
  cases h with
  | @stored name pair variant half path position content tree hplace hfilled hwrite =>
      exact ⟨variant, by simp [Turn.variant?, placement, hplace]⟩
  | «sealed» => cases hflaw
  | misnamed => cases hflaw
  | duplicate => cases hflaw
  | special => cases hflaw
  | unwritten => cases hflaw

theorem Judged.filled_of_stored
    (h : Judged convention scratch earlier turn (.stored half file)) :
    Note.filled earlier half = false := by
  cases h with
  | stored position content tree hplace hfilled hwrite => exact hfilled

theorem Judged.unique {other : Note} (h : Judged convention scratch earlier turn note)
    (hother : Judged convention scratch earlier turn other) : note = other := by
  cases h <;> cases hother <;> simp_all

theorem JudgedAll.length_eq {turns : List Turn} (h : JudgedAll convention scratch turns notes) :
    notes.length = turns.length := by
  induction h with
  | nil => rfl
  | concat hnotes hnote ih =>
      rw [List.length_append, List.length_append, ih]
      rfl

theorem JudgedAll.exists_note {turns : List Turn} (h : JudgedAll convention scratch turns notes)
    (hmem : turn ∈ turns) :
    ∃ earlier note, note ∈ notes ∧ Judged convention scratch earlier turn note := by
  induction h with
  | nil => cases hmem
  | concat hnotes hnote ih =>
      rcases List.mem_append.mp hmem with hmem | hmem
      · obtain ⟨earlier, note, hmem, hjudged⟩ := ih hmem
        exact ⟨earlier, note, List.mem_append_left _ hmem, hjudged⟩
      · cases List.mem_singleton.mp hmem
        exact ⟨_, _, List.mem_append_right _ (List.mem_singleton_self _), hnote⟩

theorem JudgedAll.unique {turns : List Turn} {others : List Note}
    (h : JudgedAll convention scratch turns notes)
    (hothers : JudgedAll convention scratch turns others) : notes = others := by
  induction h generalizing others with
  | nil => exact (List.length_eq_zero_iff.mp hothers.length_eq).symm
  | @concat turns notes turn note hnotes hnote ih =>
      -- The list of turns is named, so that the other derivation can be taken apart as well.
      generalize hall : turns ++ [turn] = all at hothers
      cases hothers with
      | nil => simp at hall
      | concat hfirst hlast =>
          obtain ⟨rfl, hturn⟩ := List.append_inj' hall rfl
          cases ih hfirst
          cases hturn
          rw [hnote.unique hlast]

end Judged

/-! The row of the table for a pair, as its notes fill it. -/

namespace Note

def enterAll (notes : List Note) (pending : Pending) : Pending :=
  notes.foldl (fun pending note => note.enter pending) pending

@[simp] theorem enterAll_concat (notes : List Note) (note : Note) (pending : Pending) :
    enterAll (notes ++ [note]) pending = note.enter (enterAll notes pending) := by
  simp [enterAll]

@[simp] theorem pair_enterAll (notes : List Note) (pending : Pending) :
    (enterAll notes pending).pair = pending.pair := by
  induction notes using List.reverseRecOn with
  | nil => rfl
  | append_singleton notes note ih => rw [enterAll_concat, pair_enter, ih]

@[simp] theorem variant_enterAll (notes : List Note) (pending : Pending) :
    (enterAll notes pending).variant = pending.variant := by
  induction notes using List.reverseRecOn with
  | nil => rfl
  | append_singleton notes note ih => rw [enterAll_concat, variant_enter, ih]

theorem failure_enterAll (notes : List Note) (pending : Pending) :
    (enterAll notes pending).failure = pending.failure.or (notes.findSome? flaw?) := by
  induction notes using List.reverseRecOn with
  | nil => simp [enterAll]
  | append_singleton notes note ih =>
      rw [enterAll_concat, failure_enter, ih, List.findSome?_append, List.findSome?_singleton,
        Option.or_assoc]

theorem isSome_get?_enterAll (notes : List Note) (pending : Pending) (half : Half) :
    ((enterAll notes pending).get? half).isSome =
      (filled notes half || (pending.get? half).isSome) := by
  induction notes using List.reverseRecOn with
  | nil => rfl
  | append_singleton notes note ih =>
      rw [enterAll_concat, isSome_get?_enter, ih, filled, filled, List.any_append, List.any_cons,
        List.any_nil, Bool.or_false, ← Bool.or_assoc, Bool.or_comm (note.fills half)]

end Note

def row? (convention : Convention) (pair : String) (turns : List Turn) (notes : List Note) :
    Option Pending :=
  turns.head?.map fun first =>
    Note.enterAll notes { pair, variant := first.variant? convention }

section Rows

variable {convention : Convention} {scratch : Scratch} {pair : String} {turns : List Turn}
  {notes : List Note}

theorem row?_concat (h : JudgedAll convention scratch turns notes) (turn : Turn) (note : Note) :
    row? convention pair (turns ++ [turn]) (notes ++ [note]) =
      some (note.enter ((row? convention pair turns notes).getD
        { pair, variant := turn.variant? convention })) := by
  cases turns with
  | nil =>
      cases List.length_eq_zero_iff.mp h.length_eq
      rfl
  | cons first rest => simp [row?]

theorem isSome_get?_row? (h : JudgedAll convention scratch turns notes) (half : Half) :
    ((row? convention pair turns notes).bind (·.get? half)).isSome = Note.filled notes half := by
  cases turns with
  | nil =>
      cases List.length_eq_zero_iff.mp h.length_eq
      rfl
  | cons first rest => simp [row?, Note.isSome_get?_enterAll]

theorem get?_enterAll_eq_some_iff (h : JudgedAll convention scratch turns notes)
    (variant : Option String) {half : Half} {file : Extracted} :
    (Note.enterAll notes { pair, variant }).get? half = some file ↔
      .stored half file ∈ notes := by
  induction h with
  | nil => simp [Note.enterAll]
  | @concat turns notes turn note hnotes hnote ih =>
      rw [Note.enterAll_concat, List.mem_append, List.mem_singleton]
      cases note with
      | flaw failure => simp [Note.enter, ih]
      | stored other stored =>
          by_cases hother : other = half
          · subst hother
            -- With an earlier note about this half the entry would have been a duplicate.
            have hnew := hnote.filled_of_stored
            have hearlier : Note.stored other file ∉ notes := by
              intro hmem
              have hfills := List.any_eq_false.mp hnew _ hmem
              simp [Note.fills] at hfills
            cases other <;> simp [Note.enter, Pending.store, Pending.get?, hearlier, eq_comm]
          · rw [Note.get?_enter _ _ (by simp [Note.fills, hother]), ih]
            simp [Ne.symm hother]

end Rows

namespace Unpacked

variable {state : Unpacked Table} {convention : Convention} {scratch : Scratch}
  {earlier : List Note}

theorem judged_memberNote {name pair variant : String} {half : Half}
    (hplace : convention (normalize name) = .member pair variant half)
    (hheld : state.table.holds pair half = Note.filled earlier half) (position : Nat)
    (regular : Bool) (content : Content) :
    Judged convention scratch earlier ⟨position, .member name regular content, state.tree⟩
      (state.memberNote scratch pair half (normalize name) regular content) := by
  unfold memberNote
  rw [hheld]
  cases hfilled : Note.filled earlier half with
  | true => exact .duplicate position regular content state.tree hplace hfilled
  | false =>
      cases regular with
      | false => exact .special position content state.tree hplace hfilled
      | true =>
          simp only [Bool.false_eq_true, if_false, Bool.not_true]
          cases hwrite : (scratch.write (normalize name) content state.tree).1 with
          | error e => exact .unwritten position content state.tree hplace hfilled hwrite
          | ok path => exact .stored position content state.tree hplace hfilled hwrite

theorem Posts.judged {position : Nat} {entry : Entry} {posting : Posting}
    (h : state.Posts convention scratch position entry posting)
    (hheld : ∀ half, state.table.holds posting.pair half = Note.filled earlier half) :
    Judged convention scratch earlier ⟨position, entry, state.tree⟩ posting.note := by
  cases h with
  | «sealed» reason => exact .sealed position reason state.tree
  | misnamed content hplace => exact .misnamed position content state.tree hplace
  | @member name pair variant half regular content hplace =>
      exact judged_memberNote hplace (hheld half) position regular content

theorem Posts.variant_eq {position : Nat} {entry : Entry} {posting : Posting}
    (h : state.Posts convention scratch position entry posting) :
    posting.variant = Turn.variant? convention ⟨position, entry, state.tree⟩ := by
  cases h with
  | «sealed» reason => rfl
  | misnamed content hplace => simp [Turn.variant?, placement, hplace]
  | member regular content hplace => simp [Turn.variant?, placement, hplace]

end Unpacked

theorem turnsOf_concat (convention : Convention) (scratch : Scratch) (tree : FileTree)
    (entries : List Entry) (entry : Entry) (pair : String) :
    turnsOf convention scratch tree (entries ++ [entry]) pair =
      turnsOf convention scratch tree entries pair ++
        if key? convention (1 + entries.length) entry = some pair then
          [⟨1 + entries.length, entry, (unpack convention scratch entries tree).tree⟩]
        else [] := by
  rw [turnsOf, turns_concat, List.filter_append]
  split
  case isTrue hkey => simp [turnsOf, Turn.key?, hkey]
  case isFalse hkey => simp [turnsOf, Turn.key?, hkey]

/-- The row of a pair is made by its own entries. The induction is on the run: an entry of another
name changes neither the row nor the turns. -/
theorem exists_notes (convention : Convention) (scratch : Scratch) (tree : FileTree)
    (entries : List Entry) (pair : String) :
    ∃ notes, JudgedAll convention scratch (turnsOf convention scratch tree entries pair) notes ∧
      (unpack convention scratch entries tree).table.find? pair =
        row? convention pair (turnsOf convention scratch tree entries pair) notes := by
  induction entries using List.reverseRecOn with
  | nil => exact ⟨[], .nil, rfl⟩
  | append_singleton entries entry ih =>
      obtain ⟨notes, hnotes, hrow⟩ := ih
      let state := unpack convention scratch entries tree
      rw [turnsOf_concat, unpack_concat, Unpacked.table_take]
      have hkey := state.map_pair_posting? convention scratch (1 + entries.length) entry
      cases hposting : state.posting? convention scratch (1 + entries.length) entry with
      | none =>
          rw [hposting] at hkey
          rw [if_neg (by simp [← hkey]), List.append_nil]
          exact ⟨notes, hnotes, hrow⟩
      | some posting =>
          rw [hposting, Option.map_some] at hkey
          by_cases hpair : posting.pair = pair
          case neg =>
              rw [if_neg (by simp [← hkey, hpair]), List.append_nil]
              refine ⟨notes, hnotes, ?_⟩
              exact (state.table.find?_post_of_ne posting (Ne.symm hpair)).trans hrow
          case pos =>
              subst hpair
              have hposts := Unpacked.posts_of_posting? hposting
              -- A half is held just when an earlier note fills it, so the entry is judged the way
              -- it was taken.
              have hheld : ∀ half, state.table.holds posting.pair half =
                  Note.filled notes half := by
                intro half
                rw [Table.holds, hrow, isSome_get?_row? hnotes]
              rw [if_pos hkey.symm]
              refine ⟨notes ++ [posting.note], .concat hnotes (hposts.judged hheld), ?_⟩
              rw [row?_concat hnotes, ← hposts.variant_eq, ← hrow]
              exact state.table.find?_post_self posting

end TableIntake.Batch
