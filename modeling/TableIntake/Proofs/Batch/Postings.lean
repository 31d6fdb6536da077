import TableIntake.Proofs.Batch.Tables

namespace TableIntake.Batch

open TableIntake.Archive (Entry)
open TableIntake.Files

/-! Unpacking as a list of postings: what each entry adds to the table, and to which pair. -/

inductive Note where
  | flaw (failure : PairFailure)
  | stored (half : Half) (extracted : Extracted)
  deriving DecidableEq, Repr

def Note.enter : Note → Pending → Pending
  | flaw failure, pending => pending.fail failure
  | stored half extracted, pending => pending.store half extracted

@[simp] theorem Pending.get?_fail (pending : Pending) (failure : PairFailure) (half : Half) :
    (pending.fail failure).get? half = pending.get? half := by
  cases half <;> rfl

@[simp] theorem Pending.get?_new (pair : String) (variant : Option String) (half : Half) :
    ({ pair, variant } : Pending).get? half = none := by
  cases half <;> rfl

@[simp] theorem Note.pair_enter (note : Note) (pending : Pending) :
    (note.enter pending).pair = pending.pair := by
  cases note with
  | flaw failure => rfl
  | stored half extracted => cases half <;> rfl

@[simp] theorem Note.variant_enter (note : Note) (pending : Pending) :
    (note.enter pending).variant = pending.variant := by
  cases note with
  | flaw failure => rfl
  | stored half extracted => cases half <;> rfl

def Note.flaw? : Note → Option PairFailure
  | flaw failure => some failure
  | stored _ _ => none

/-- The first failure stays. -/
theorem Note.failure_enter (note : Note) (pending : Pending) :
    (note.enter pending).failure = pending.failure.or note.flaw? := by
  cases note with
  | flaw failure => exact Option.orElse_eq_or ..
  | stored half extracted => cases half <;> exact (Option.or_none ..).symm

theorem Note.failure_enter_of_some (note : Note) {pending : Pending} {first : PairFailure}
    (h : pending.failure = some first) : (note.enter pending).failure = some first := by
  rw [failure_enter, h, Option.some_or]

structure Posting where
  pair : String
  variant : Option String
  note : Note
  deriving DecidableEq, Repr

/-- A half is filled only by what is stored as that half. -/
def Note.fills (half : Half) : Note → Bool
  | flaw _ => false
  | stored other _ => other = half

@[simp] theorem Note.isSome_get?_enter (note : Note) (pending : Pending) (half : Half) :
    ((note.enter pending).get? half).isSome =
      (note.fills half || (pending.get? half).isSome) := by
  cases note with
  | flaw failure => simp [Note.enter, Note.fills]
  | stored other extracted =>
      cases other <;> cases half <;> simp [Note.enter, Note.fills, Pending.store, Pending.get?]

theorem Note.get?_enter (note : Note) (pending : Pending) {half : Half}
    (h : note.fills half = false) : (note.enter pending).get? half = pending.get? half := by
  cases note with
  | flaw failure => simp [Note.enter]
  | stored other extracted =>
      cases other <;> cases half <;>
        simp_all [Note.enter, Note.fills, Pending.store, Pending.get?]

/-- The pair after a posting that is about it. -/
def Posting.enter (posting : Posting) (pending : Option Pending) : Pending :=
  posting.note.enter (pending.getD { pair := posting.pair, variant := posting.variant })

namespace Table

def post (table : Table) (posting : Posting) : Table :=
  table.update posting.pair posting.variant posting.note.enter

theorem find?_post_self (table : Table) (posting : Posting) :
    (table.post posting).find? posting.pair =
      some (posting.enter (table.find? posting.pair)) :=
  find?_update_self posting.note.pair_enter table posting.pair posting.variant

theorem find?_post_of_ne (table : Table) (posting : Posting) {pair : String}
    (h : pair ≠ posting.pair) : (table.post posting).find? pair = table.find? pair :=
  find?_update_of_ne posting.note.pair_enter table posting.variant h

theorem find?_post (table : Table) (posting : Posting) (pair : String) :
    (table.post posting).find? pair =
      if pair = posting.pair then some (posting.enter (table.find? pair))
      else table.find? pair := by
  split
  case isTrue heq =>
      rw [heq]
      exact table.find?_post_self posting
  case isFalse hne => exact table.find?_post_of_ne posting hne

theorem holds_post (table : Table) (posting : Posting) (pair : String) (half : Half) :
    (table.post posting).holds pair half =
      ((decide (pair = posting.pair) && posting.note.fills half) || table.holds pair half) := by
  unfold holds
  rw [find?_post]
  by_cases heq : pair = posting.pair
  · cases hfind : table.find? pair with
    | none => simp [heq, Posting.enter]
    | some pending => simp [heq, Posting.enter]
  · simp [heq]

/-- No two rows of the table are about one pair. -/
def Distinct (table : Table) : Prop :=
  (table.map Pending.pair).Nodup

theorem Distinct.post {table : Table} (h : table.Distinct) (posting : Posting) :
    (table.post posting).Distinct := by
  unfold Distinct Table.post
  rw [map_pair_update posting.note.pair_enter]
  split
  case isTrue => exact h
  case isFalse hnew =>
      refine List.nodup_append.mpr ⟨h, List.pairwise_singleton _ _, ?_⟩
      intro left hleft right hright heq
      rw [List.mem_singleton.mp hright] at heq
      exact hnew (heq ▸ hleft)

theorem Distinct.filter_pair {table : Table} (h : table.Distinct) (pair : String) :
    table.filter (·.pair = pair) = (table.find? pair).toList := by
  induction table with
  | nil => rfl
  | cons pending table ih =>
      have hrest := ih (List.nodup_cons.mp h).2
      by_cases hpair : pending.pair = pair
      · have hnone : table.filter (·.pair = pair) = [] := by
          refine List.filter_eq_nil_iff.mpr fun other hother heq => ?_
          have hsame : other.pair = pending.pair := (of_decide_eq_true heq).trans hpair.symm
          exact (List.nodup_cons.mp h).1 (List.mem_map.mpr ⟨other, hother, hsame⟩)
        simp [find?, hpair, hnone]
      · simpa [find?, hpair] using hrest

theorem Distinct.find?_of_mem {table : Table} (h : table.Distinct) {pending : Pending}
    (hmem : pending ∈ table) : table.find? pending.pair = some pending := by
  have hfilter : pending ∈ table.filter (·.pair = pending.pair) :=
    List.mem_filter.mpr ⟨hmem, decide_eq_true rfl⟩
  rw [h.filter_pair] at hfilter
  exact Option.mem_toList.mp hfilter

/-- The pair has failed, and its variant is known as far as it ever will be. -/
def Settled (table : Table) (pair : String) (variant : Option String)
    (failure : PairFailure) : Prop :=
  ∃ pending, table.find? pair = some pending ∧ pending.variant = variant ∧
    pending.failure = some failure

theorem Settled.post {table : Table} {pair : String} {variant : Option String}
    {failure : PairFailure} (h : table.Settled pair variant failure) (posting : Posting) :
    (table.post posting).Settled pair variant failure := by
  obtain ⟨pending, hfind, hvariant, hfailure⟩ := h
  by_cases heq : pair = posting.pair
  · subst heq
    refine ⟨posting.note.enter pending, ?_, ?_, ?_⟩
    · rw [find?_post_self, hfind]
      rfl
    · rw [Note.variant_enter, hvariant]
    · exact Note.failure_enter_of_some posting.note hfailure
  · exact ⟨pending, (table.find?_post_of_ne posting heq).trans hfind, hvariant, hfailure⟩

theorem settled_post_flaw (table : Table) (pair : String) (variant : Option String)
    (failure : PairFailure) :
    ∃ variant' failure', (table.post ⟨pair, variant, .flaw failure⟩).Settled pair variant'
      failure' := by
  have hfind := table.find?_post_self ⟨pair, variant, .flaw failure⟩
  cases hold : ((table.find? pair).getD { pair, variant }).failure with
  | none =>
      refine ⟨_, failure, _, hfind, rfl, ?_⟩
      simp [Posting.enter, Note.enter, Pending.fail, hold]
  | some first =>
      refine ⟨_, first, _, hfind, rfl, ?_⟩
      exact Note.failure_enter_of_some _ hold

theorem pair_of_find? {table : Table} {pair : String} {pending : Pending}
    (h : table.find? pair = some pending) : pending.pair = pair := by
  simpa using List.find?_some h

end Table

/-! Entries and the pairs that a convention gives them to. -/

/-- What an entry is by its name. An entry without a name is nothing. -/
def placement (convention : Convention) : Entry → Placement
  | .member name _ _ => convention (normalize name)
  | .skipped => .ignored
  | .sealed _ => .ignored

def IsHalf (convention : Convention) (pair : String) (half : Half) (entry : Entry) : Prop :=
  ∃ variant, placement convention entry = .member pair variant half

def IsMember (convention : Convention) (pair : String) (entry : Entry) : Prop :=
  ∃ half, IsHalf convention pair half entry

namespace Unpacked

/-- How an entry that cannot be opened is called. -/
def sealedLabel (position : Nat) : String :=
  s!"entry #{position}"

/-- What a member is noted as. -/
def memberNote (state : Unpacked Table) (scratch : Scratch) (pair : String) (half : Half)
    (name : String) (regular : Bool) (content : Content) : Note :=
  if state.table.holds pair half then .flaw (.duplicate name)
  else if !regular then .flaw (.unreadable name "not a regular file")
  else
    match (scratch.write name content state.tree).1 with
    | .error e => .flaw (.unreadable name e.message)
    | .ok path => .stored half ⟨name, path⟩

/-- What an entry adds to the table. -/
def posting? (state : Unpacked Table) (convention : Convention) (scratch : Scratch)
    (position : Nat) : Entry → Option Posting
  | .skipped => none
  | .sealed reason =>
      some ⟨sealedLabel position, none, .flaw (.unreadable (sealedLabel position) reason)⟩
  | .member name regular content =>
      match convention (normalize name) with
      | .ignored => none
      | .misnamed expected =>
          if regular then
            some ⟨normalize name, none, .flaw (.misnamed (normalize name) expected)⟩
          else none
      | .member pair variant half =>
          some ⟨pair, some variant,
            state.memberNote scratch pair half (normalize name) regular content⟩

/-- The file tree behind a member: only one that is taken for a new half is written to it. -/
def memberTree (state : Unpacked Table) (scratch : Scratch) (pair : String) (half : Half)
    (name : String) (regular : Bool) (content : Content) : FileTree :=
  if state.table.holds pair half then state.tree
  else if !regular then state.tree
  else (scratch.write name content state.tree).2

theorem takeMember_eq (state : Unpacked Table) (scratch : Scratch) (pair variant : String)
    (half : Half) (name : String) (regular : Bool) (content : Content) :
    state.takeMember scratch pair variant half name regular content =
      ⟨state.table.post ⟨pair, some variant,
          state.memberNote scratch pair half name regular content⟩,
        state.memberTree scratch pair half name regular content⟩ := by
  unfold takeMember memberNote memberTree
  rw [PairStore.holds_table]
  by_cases hholds : state.table.holds pair half = true
  · rw [if_pos hholds, if_pos hholds, if_pos hholds]
    rfl
  · rw [if_neg hholds, if_neg hholds, if_neg hholds]
    cases regular with
    | false => rfl
    | true =>
        simp only [Bool.not_true, Bool.false_eq_true, if_false]
        rcases hwrite : scratch.write name content state.tree with ⟨result, tree⟩
        cases result with
        | error e => rfl
        | ok path => rfl

theorem table_take (state : Unpacked Table) (convention : Convention) (scratch : Scratch)
    (position : Nat) (entry : Entry) :
    (state.take convention scratch position entry).table =
      ((state.posting? convention scratch position entry).map state.table.post).getD
        state.table := by
  cases entry with
  | skipped => rfl
  | «sealed» reason => rfl
  | member name regular content =>
      simp only [take, posting?]
      cases convention (normalize name) with
      | ignored => rfl
      | misnamed expected => cases regular <;> rfl
      | member pair variant half => simp [takeMember_eq]

/-- One case for each kind of note. -/
inductive Posts (state : Unpacked Table) (convention : Convention) (scratch : Scratch)
    (position : Nat) : Entry → Posting → Prop where
  | «sealed» (reason : String) :
      Posts state convention scratch position (.sealed reason)
        ⟨sealedLabel position, none, .flaw (.unreadable (sealedLabel position) reason)⟩
  | misnamed {name expected : String} (content : Content) :
      convention (normalize name) = .misnamed expected →
      Posts state convention scratch position (.member name true content)
        ⟨normalize name, none, .flaw (.misnamed (normalize name) expected)⟩
  | member {name pair variant : String} {half : Half} (regular : Bool) (content : Content) :
      convention (normalize name) = .member pair variant half →
      Posts state convention scratch position (.member name regular content)
        ⟨pair, some variant, state.memberNote scratch pair half (normalize name) regular content⟩

theorem posts_of_posting? {state : Unpacked Table} {convention : Convention} {scratch : Scratch}
    {position : Nat} {entry : Entry} {posting : Posting}
    (h : state.posting? convention scratch position entry = some posting) :
    state.Posts convention scratch position entry posting := by
  cases entry with
  | skipped => cases h
  | «sealed» reason =>
      cases h
      exact .sealed reason
  | member name regular content =>
      simp only [posting?] at h
      cases hplace : convention (normalize name) with
      | ignored => simp [hplace] at h
      | misnamed expected =>
          cases regular with
          | false => simp [hplace] at h
          | true =>
              simp only [hplace, if_true, Option.some.injEq] at h
              subst h
              exact .misnamed content hplace
      | member pair variant half =>
          simp only [hplace, Option.some.injEq] at h
          subst h
          exact .member regular content hplace

theorem table_take_cases (state : Unpacked Table) (convention : Convention) (scratch : Scratch)
    (position : Nat) (entry : Entry) :
    (state.take convention scratch position entry).table = state.table ∨
      ∃ posting, state.Posts convention scratch position entry posting ∧
        (state.take convention scratch position entry).table = state.table.post posting := by
  rw [table_take]
  cases hposting : state.posting? convention scratch position entry with
  | none => exact Or.inl rfl
  | some posting => exact Or.inr ⟨posting, posts_of_posting? hposting, rfl⟩

theorem takeAll_append {T : Type} [PairStore T] (convention : Convention) (scratch : Scratch)
    (position : Nat) (state : Unpacked T) (before after : List Entry) :
    takeAll convention scratch position state (before ++ after) =
      takeAll convention scratch (position + before.length)
        (takeAll convention scratch position state before) after := by
  induction before generalizing position state with
  | nil => rfl
  | cons entry before ih =>
      simp only [List.cons_append, takeAll, List.length_cons]
      rw [ih, Nat.add_assoc, Nat.add_comm 1]

/-- What every entry keeps at its position is kept by all of them. -/
theorem takeAll_induction {convention : Convention} {scratch : Scratch}
    {motive : Unpacked Table → Prop} (entries : List Entry) (position : Nat)
    (hstep : ∀ offset entry, entries[offset]? = some entry → ∀ state, motive state →
      motive (state.take convention scratch (position + offset) entry))
    {state : Unpacked Table} (h : motive state) :
    motive (takeAll convention scratch position state entries) := by
  induction entries generalizing position state with
  | nil => exact h
  | cons entry entries ih =>
      refine ih (position + 1) ?_ (hstep 0 entry rfl state h)
      intro offset other hother state hstate
      rw [Nat.add_assoc, Nat.add_comm 1]
      exact hstep (offset + 1) other hother state hstate

theorem distinct_take {state : Unpacked Table} (h : state.table.Distinct) (convention : Convention)
    (scratch : Scratch) (position : Nat) (entry : Entry) :
    (state.take convention scratch position entry).table.Distinct := by
  rw [table_take]
  cases state.posting? convention scratch position entry with
  | none => exact h
  | some posting => exact h.post posting

theorem settled_take {state : Unpacked Table} {pair : String} {variant : Option String}
    {failure : PairFailure} (h : state.table.Settled pair variant failure)
    (convention : Convention) (scratch : Scratch) (position : Nat) (entry : Entry) :
    (state.take convention scratch position entry).table.Settled pair variant failure := by
  rw [table_take]
  cases state.posting? convention scratch position entry with
  | none => exact h
  | some posting => exact h.post posting

end Unpacked

theorem unpack_concat (convention : Convention) (scratch : Scratch) (before : List Entry)
    (entry : Entry) (tree : FileTree) :
    unpack convention scratch (before ++ [entry]) tree =
      (unpack convention scratch before tree).take convention scratch (1 + before.length) entry :=
  Unpacked.takeAll_append ..

theorem distinct_unpack (convention : Convention) (scratch : Scratch) (entries : List Entry)
    (tree : FileTree) : (unpack convention scratch entries tree).table.Distinct :=
  Unpacked.takeAll_induction (motive := fun state => state.table.Distinct) entries 1
    (fun _ entry _ _ h => Unpacked.distinct_take h convention scratch _ entry) List.nodup_nil

end TableIntake.Batch
