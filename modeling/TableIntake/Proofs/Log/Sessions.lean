import TableIntake.Log.Session
import TableIntake.Proofs.Keyed
import TableIntake.Proofs.Log.Tellings

namespace TableIntake.Log

/-! Sessions: which scopes a request leaves open, and what it tells of those that it ends. -/

theorem Severity.keep_of_le {threshold : Severity} (hlow : threshold ≤ .info)
    {entries : List Entry} (h : ∀ entry ∈ entries, Severity.info ≤ entry.severity) :
    threshold.keep entries = entries :=
  List.filter_eq_self.mpr fun entry hentry =>
    decide_eq_true (Severity.le_trans hlow (h entry hentry))

/-- The identifier of the scope that the request is about. -/
def Request.id? : Request → Option String
  | .start id _ _ | .complete id _ _ | .fail id _ | .drop id => some id
  | .note _ | .limit _ => none

/-- What the request tells of the scope that it opens. -/
def Request.opening : Request → List Entry
  | .start _ name fields => [⟨.info, name ++ "_BEGIN", fields⟩]
  | _ => []

/-- What the journal may keep besides: the note that is made, if it is one. -/
def Request.Noted (request : Request) (notes : List Entry) : Prop :=
  notes = [] ∨ ∃ entry, request = .note entry ∧ notes = [entry]

/-- What is told of the scope when the request ends it, or when the session is over. -/
def Scope.ending (scope : Scope) : Option Request → Entry
  | some (.complete _ extra elapsed) =>
      ⟨.info, scope.name ++ "_COMPLETE",
        scope.fields ++ extra ++ [("elapsed_ms", toString elapsed)]⟩
  | some (.fail _ reason) =>
      ⟨.error, scope.name ++ "_FAILED", scope.fields ++ [("reason", reason)]⟩
  | _ => ⟨.warn, scope.name ++ "_INCOMPLETE", [("reason", "scope dropped without completion")]⟩

theorem Request.info_le_opening (request : Request) :
    ∀ entry ∈ request.opening, Severity.info ≤ entry.severity := by
  intro entry hentry
  cases request with
  | start id name fields =>
      rw [List.mem_singleton.mp hentry]
      exact Severity.le_refl _
  | _ => cases hentry

theorem Scope.info_le_ending (scope : Scope) (request : Option Request) :
    Severity.info ≤ (scope.ending request).severity := by
  unfold Scope.ending
  split <;> exact of_decide_eq_true rfl

theorem Tells.release {scope : Scope} (h : scope.completed = false) :
    Tells scope.release () [scope.ending none] := by
  rw [Scope.release, h]
  exact record _

namespace Session

/-- Each scope is open under an identifier of its own, and none of them has an outcome yet. -/
structure Sound (session : Session) : Prop where
  sorted : session.scopes.Pairwise (·.1 < ·.1)
  fresh : ∀ pair ∈ session.scopes, pair.2.completed = false

/-- The scopes that are open once the request is served. -/
def next (session : Session) : Request → Session
  | .start id name fields => ⟨insertKey id { name, fields } session.scopes⟩
  | .complete id _ _ | .fail id _ | .drop id => session.erase id
  | .note _ | .limit _ => session

/-- The scopes that the request ends. -/
def ended (session : Session) (request : Request) : List (String × Scope) :=
  session.scopes.filter fun pair => request.id? = some pair.1

theorem mem_erase {session : Session} {id : String} {pair : String × Scope} :
    pair ∈ (session.erase id).scopes ↔ id ≠ pair.1 ∧ pair ∈ session.scopes := by
  rw [erase, List.mem_filter, decide_eq_true_iff, and_comm, ne_comm]

theorem mem_next {session : Session} (h : session.Sound) {request : Request}
    {pair : String × Scope} :
    pair ∈ (session.next request).scopes ↔
      (∃ name fields, request = .start pair.1 name fields ∧ pair.2 = { name, fields }) ∨
        (request.id? ≠ some pair.1 ∧ pair ∈ session.scopes) := by
  obtain ⟨i, s⟩ := pair
  cases request with
  | start id name fields =>
      rw [next, mem_insertKey h.sorted]
      simp only [Prod.mk.injEq, Request.start.injEq, Request.id?, ne_eq, Option.some.injEq]
      grind
  | complete id | fail id | drop id => simpa [next, Request.id?] using mem_erase
  | note | limit => simp [next, Request.id?]

theorem Sound.next {session : Session} (h : session.Sound) (request : Request) :
    (session.next request).Sound where
  sorted := by
    cases request with
    | start id name fields => exact pairwise_insertKey id _ h.sorted
    | complete id | fail id | drop id => exact h.sorted.filter _
    | note | limit => exact h.sorted
  fresh := by
    intro pair hpair
    obtain ⟨name, fields, -, hscope⟩ | ⟨-, hpair⟩ := (mem_next h).mp hpair
    · rw [hscope]
    · exact h.fresh pair hpair

theorem ended_eq {session : Session} (h : session.Sound) {request : Request} {id : String}
    (hid : request.id? = some id) :
    session.ended request = (session.scope? id).toList.map (id, ·) := by
  obtain ⟨scopes⟩ := session
  have hsorted : scopes.Pairwise (·.1 < ·.1) := h.sorted
  simp only [ended, scope?, hid, Option.some.injEq]
  clear h
  induction scopes with
  | nil => rfl
  | cons first scopes ih =>
      obtain ⟨i, s⟩ := first
      obtain ⟨hfirst, hscopes⟩ := List.pairwise_cons.mp hsorted
      by_cases heq : id = i
      · subst heq
        have hnone : scopes.filter (fun pair => id = pair.1) = [] := by
          apply List.filter_eq_nil_iff.mpr
          intro pair hpair
          simpa using String.ne_of_lt (hfirst pair hpair)
        simp [hnone]
      · have hne : (id == i) = false := by simpa using heq
        simp [List.lookup_cons, heq, hne, ih hscopes]

theorem tells_finish {session : Session} {id : String} {outcome : Scope → Logging Unit}
    {told : Scope → Entry}
    (h : ∀ scope, session.scope? id = some scope → Tells (outcome scope) () [told scope]) :
    Tells (session.finish id outcome) (session.erase id)
      ((session.scope? id).toList.map told) := by
  unfold finish
  cases hscope : session.scope? id with
  | none => exact .pure _
  | some scope => exact (h scope hscope).bind (.pure _)

/-- A request about a scope opens one or ends one, and leaves the others alone. -/
theorem tells_serve {session : Session} (h : session.Sound) {request : Request} {id : String}
    (hid : request.id? = some id) :
    Tells (session.serve request) (session.next request)
      (request.opening ++ (session.ended request).map (·.2.ending (some request))) := by
  have hmem : ∀ scope, session.scope? id = some scope → scope.completed = false := by
    intro scope hscope
    have hended := ended_eq h hid
    rw [hscope] at hended
    have hpair : (id, scope) ∈ session.ended request := by
      rw [hended]
      exact List.mem_singleton_self _
    exact h.fresh _ (List.mem_filter.mp hpair).1
  rw [ended_eq h hid, List.map_map]
  cases request with
  | start _ name fields =>
      cases hid
      refine (Tells.start name fields).bind ?_
      cases hscope : session.scope? id with
      | none => exact .pure _
      | some scope => exact (Tells.release (hmem scope hscope)).bind (.pure _)
  | complete _ extra elapsed =>
      cases hid
      exact tells_finish fun scope _ => .complete scope extra elapsed
  | fail _ reason =>
      cases hid
      exact tells_finish fun scope _ => .fail scope reason
  | drop =>
      cases hid
      exact tells_finish fun scope hscope => .release (hmem scope hscope)
  | note | limit => cases hid

/-- What the scopes tell is severe enough for the journal. -/
theorem run_serve {session : Session} (h : session.Sound) {before : List Entry}
    {threshold : Severity} {request : Request} (hlow : threshold ≤ .info)
    (hlimit : ∀ threshold, request = .limit threshold → threshold ≤ .info) :
    ∃ later notes, later ≤ Severity.info ∧ request.Noted notes ∧
      (session.serve request).run ⟨threshold, before⟩ = (session.next request,
        ⟨later, before ++ (request.opening ++
          (session.ended request).map (·.2.ending (some request)) ++ notes)⟩) := by
  cases hid : request.id? with
  | some id =>
      refine ⟨threshold, [], hlow, .inl rfl, ?_⟩
      rw [tells_serve h hid, Journal.recordAll_eq, Severity.keep_of_le hlow, List.append_nil]
      intro entry hentry
      obtain hentry | hentry := List.mem_append.mp hentry
      · exact request.info_le_opening entry hentry
      · obtain ⟨pair, -, rfl⟩ := List.mem_map.mp hentry
        exact pair.2.info_le_ending _
  | none =>
      have hended : session.ended request = [] := by simp [ended, hid]
      rw [hended]
      cases request with
      | note entry =>
          refine ⟨threshold, threshold.keep [entry], hlow, ?_, ?_⟩
          · by_cases hkeep : threshold ≤ entry.severity
            · exact .inr ⟨entry, rfl, List.filter_cons_of_pos (decide_eq_true hkeep)⟩
            · exact .inl (List.filter_cons_of_neg (by simpa using hkeep))
          · have htells : Tells (session.serve (.note entry)) session ([entry] ++ []) :=
              (Tells.record entry).bind (.pure _)
            rw [htells, List.append_nil, Journal.recordAll_eq]
            rfl
      | limit other =>
          refine ⟨other, [], hlimit other rfl, .inl rfl, ?_⟩
          simp only [Request.opening, List.map_nil, List.append_nil]
          rfl
      | start | complete | fail | drop => cases hid

theorem tells_close {session : Session} (h : session.Sound) :
    Tells session.close () (session.scopes.map (·.2.ending none)) := by
  obtain ⟨scopes⟩ := session
  have hfresh : ∀ pair ∈ scopes, pair.2.completed = false := h.fresh
  clear h
  induction scopes with
  | nil => exact .pure ()
  | cons pair scopes ih =>
      obtain ⟨hpair, hscopes⟩ := List.forall_mem_cons.mp hfresh
      exact (Tells.release hpair).bind (ih hscopes)

theorem run_close {session : Session} (h : session.Sound) {threshold : Severity}
    (hlow : threshold ≤ .info) (before : List Entry) :
    session.close.run ⟨threshold, before⟩ =
      ((), ⟨threshold, before ++ session.scopes.map (·.2.ending none)⟩) := by
  rw [tells_close h, Journal.recordAll_eq, Severity.keep_of_le hlow]
  intro entry hentry
  obtain ⟨pair, -, rfl⟩ := List.mem_map.mp hentry
  exact pair.2.info_le_ending none

end Session

end TableIntake.Log
