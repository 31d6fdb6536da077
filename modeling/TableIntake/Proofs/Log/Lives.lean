import Mathlib.Data.List.Induction
import Mathlib.Data.List.Nodup
import Mathlib.Tactic.Choose
import TableIntake.Proofs.Log.Sessions

namespace TableIntake.Log

/-! Lives of scopes: each one has a line for its beginning and later a line for its end, and no
other. -/

/-- An entry in the journal, with the position of the request that had it written and that of the
request that opened its scope, if it has one. -/
structure Line where
  time : Nat
  opened : Option Nat
  entry : Entry

/-- How a scope ends: what is asked about its identifier, or that the requests are over, and what
is told then. -/
inductive Closing (id name : String) (fields : List (String × String)) :
    Option Request → Entry → Prop where
  | completed (extra : List (String × String)) (elapsed : Nat) :
      Closing id name fields (some (.complete id extra elapsed))
        ⟨.info, name ++ "_COMPLETE", fields ++ extra ++ [("elapsed_ms", toString elapsed)]⟩
  | failed (reason : String) :
      Closing id name fields (some (.fail id reason))
        ⟨.error, name ++ "_FAILED", fields ++ [("reason", reason)]⟩
  | dropped :
      Closing id name fields (some (.drop id))
        ⟨.warn, name ++ "_INCOMPLETE", [("reason", "scope dropped without completion")]⟩
  /-- Another scope takes the identifier. -/
  | replaced (other : String) (others : List (String × String)) :
      Closing id name fields (some (.start id other others))
        ⟨.warn, name ++ "_INCOMPLETE", [("reason", "scope dropped without completion")]⟩
  | left :
      Closing id name fields none
        ⟨.warn, name ++ "_INCOMPLETE", [("reason", "scope dropped without completion")]⟩

theorem closing_ending {request : Request} {id : String} (hid : request.id? = some id)
    (scope : Scope) :
    Closing id scope.name scope.fields (some request) (scope.ending (some request)) := by
  cases request with
  | start _ name fields =>
      cases hid
      exact .replaced name fields
  | complete _ extra elapsed =>
      cases hid
      exact .completed extra elapsed
  | fail _ reason =>
      cases hid
      exact .failed reason
  | drop =>
      cases hid
      exact .dropped
  | note | limit => cases hid

/-- Between the two positions no request is about the identifier. -/
def Untouched (requests : List Request) (id : String) (opened limit : Nat) : Prop :=
  ∀ position request, opened < position → position < limit →
    requests[position]? = some request → request.id? ≠ some id

theorem Untouched.append {requests : List Request} {id : String} {opened limit : Nat}
    (h : Untouched requests id opened limit) (hle : limit ≤ requests.length)
    (more : List Request) : Untouched (requests ++ more) id opened limit := by
  intro position request hafter hbefore hrequest
  rw [List.getElem?_append_left (Nat.lt_of_lt_of_le hbefore hle)] at hrequest
  exact h position request hafter hbefore hrequest

section Stages

variable (requests : List Request) (lines : List Line) (opened : Nat) (id name : String)
  (fields : List (String × String))

/-- The scope was opened at the position and has had no other line. -/
structure Open : Prop where
  start : requests[opened]? = some (.start id name fields)
  still : Untouched requests id opened requests.length
  lines : lines.filter (·.opened = some opened) =
    [⟨opened, some opened, ⟨.info, name ++ "_BEGIN", fields⟩⟩]

/-- The scope was opened at the one position and ended at the other. It has a line for each. -/
structure Ended (closed : Nat) (entry : Entry) : Prop where
  after : opened < closed
  within : closed ≤ requests.length
  still : Untouched requests id opened closed
  closing : Closing id name fields requests[closed]? entry
  lines : lines.filter (·.opened = some opened) =
    [⟨opened, some opened, ⟨.info, name ++ "_BEGIN", fields⟩⟩, ⟨closed, some opened, entry⟩]

end Stages

variable {requests : List Request} {lines news : List Line} {opened : Nat} {id name : String}
  {fields : List (String × String)}

theorem getElem?_append_of_eq_some {position : Nat} {request : Request}
    (h : requests[position]? = some request) (more : List Request) :
    (requests ++ more)[position]? = some request := by
  rw [List.getElem?_append_left (List.getElem?_eq_some_iff.mp h).1, h]

theorem Open.opened_lt (h : Open requests lines opened id name fields) :
    opened < requests.length :=
  (List.getElem?_eq_some_iff.mp h.start).1

/-- No two scopes are open under one identifier. -/
theorem Open.unique {opened' : Nat} {name' : String} {fields' : List (String × String)}
    (h : Open requests lines opened id name fields)
    (h' : Open requests lines opened' id name' fields') : opened = opened' := by
  obtain hlt | heq | hgt := Nat.lt_trichotomy opened opened'
  · exact absurd rfl (h.still _ _ hlt h'.opened_lt h'.start)
  · exact heq
  · exact absurd rfl (h'.still _ _ hgt h.opened_lt h.start)

theorem Open.not_ended {closed : Nat} {entry : Entry} {id' name' : String}
    {fields' : List (String × String)} (h : Open requests lines opened id name fields)
    (h' : Ended requests lines opened id' name' fields' closed entry) : False := by
  have hlength := congrArg List.length (h.lines.symm.trans h'.lines)
  simp at hlength

/-- A scope stays open through a request that is not about it. -/
theorem Open.stay (h : Open requests lines opened id name fields) {request : Request}
    (hid : request.id? ≠ some id) (hnews : news.filter (·.opened = some opened) = []) :
    Open (requests ++ [request]) (lines ++ news) opened id name fields where
  start := getElem?_append_of_eq_some h.start [request]
  still := by
    intro position other hafter hbefore hother
    rw [List.length_append, List.length_singleton, Nat.lt_succ_iff_lt_or_eq] at hbefore
    obtain hbefore | heq := hbefore
    · exact h.still.append (Nat.le_refl _) [request] position other hafter hbefore hother
    · rw [heq, List.getElem?_concat_length] at hother
      exact Option.some.inj hother ▸ hid
  lines := by rw [List.filter_append, h.lines, hnews, List.append_nil]

/-- A scope ends with the request that comes next, or with the session. -/
theorem Open.ended (h : Open requests lines opened id name fields) {request : Option Request}
    {entry : Entry} (hclosing : Closing id name fields request entry)
    (hnews : news.filter (·.opened = some opened) = [⟨requests.length, some opened, entry⟩]) :
    Ended (requests ++ request.toList) (lines ++ news) opened id name fields requests.length
      entry where
  after := h.opened_lt
  within := by simp
  still := h.still.append (Nat.le_refl _) _
  closing := by cases request <;> simpa using hclosing
  lines := by rw [List.filter_append, h.lines, hnews]; rfl

/-- What has ended stays as it is. -/
theorem Ended.stay {closed : Nat} {entry : Entry}
    (h : Ended requests lines opened id name fields closed entry) (more : List Request)
    (hbefore : closed < requests.length) (hnews : news.filter (·.opened = some opened) = []) :
    Ended (requests ++ more) (lines ++ news) opened id name fields closed entry where
  after := h.after
  within := Nat.le_trans h.within (by simp)
  still := h.still.append h.within more
  closing := by rw [List.getElem?_append_left hbefore]; exact h.closing
  lines := by rw [List.filter_append, h.lines, hnews, List.append_nil]

/-- Where a line comes from: a scope that was opened, or a note. -/
inductive Sourced (requests : List Request) : Line → Prop where
  | scope {time opened : Nat} {entry : Entry} {id name : String}
      {fields : List (String × String)} (h : requests[opened]? = some (.start id name fields)) :
      Sourced requests ⟨time, some opened, entry⟩
  | note {time : Nat} {entry : Entry} (h : requests[time]? = some (.note entry)) :
      Sourced requests ⟨time, none, entry⟩

theorem Sourced.append {line : Line} (h : Sourced requests line) (more : List Request) :
    Sourced (requests ++ more) line := by
  cases h with
  | scope h => exact .scope (getElem?_append_of_eq_some h more)
  | note h => exact .note (getElem?_append_of_eq_some h more)

/-! Lines for scopes that end together. -/

/-- Each of the scopes is open, and was opened where the function says. -/
def OpenAt (requests : List Request) (lines : List Line) (opener : String × Scope → Nat)
    (pairs : List (String × Scope)) : Prop :=
  ∀ pair ∈ pairs, Open requests lines (opener pair) pair.1 pair.2.name pair.2.fields

/-- The lines of scopes that end at one time. -/
def endings (time : Nat) (request : Option Request) (opener : String × Scope → Nat)
    (pairs : List (String × Scope)) : List Line :=
  pairs.map fun pair => ⟨time, some (opener pair), pair.2.ending request⟩

section Endings

variable {opener : String × Scope → Nat} {pairs : List (String × Scope)} {time : Nat}
  {request : Option Request}

theorem filter_endings_of_mem (hsorted : pairs.Pairwise (·.1 < ·.1))
    (hopener : OpenAt requests lines opener pairs) {pair : String × Scope} (hmem : pair ∈ pairs) :
    (endings time request opener pairs).filter (·.opened = some (opener pair)) =
      [⟨time, some (opener pair), pair.2.ending request⟩] := by
  have hkeys : (pairs.map Prod.fst).Nodup := List.pairwise_map.mpr (hsorted.imp String.ne_of_lt)
  have hnodup : pairs.Nodup := hkeys.of_map
  have hsame : ∀ other ∈ pairs, opener other = opener pair → other = pair := by
    intro other hother heq
    have hstart := (heq ▸ (hopener other hother).start).symm.trans (hopener pair hmem).start
    exact List.inj_on_of_nodup_map hkeys hother hmem (Request.start.inj (Option.some.inj hstart)).1
  have hfilter : pairs.filter (fun other => opener other = opener pair) = [pair] := by
    rw [List.filter_congr (q := (· = pair)), List.filter_eq, List.count_eq_one_of_mem hnodup hmem]
    · rfl
    · intro other hother
      exact decide_eq_decide.mpr ⟨hsame other hother, congrArg opener⟩
  rw [endings, List.filter_map]
  simp [Function.comp_def, hfilter]

theorem filter_endings_of_ne (hne : ∀ pair ∈ pairs, opener pair ≠ opened) :
    (endings time request opener pairs).filter (·.opened = some opened) = [] := by
  apply List.filter_eq_nil_iff.mpr
  intro line hline
  obtain ⟨pair, hpair, rfl⟩ := List.mem_map.mp hline
  simpa using hne pair hpair

end Endings

/-! Whole runs. -/

/-- The journal tells of all that was asked: which scopes are open in the session, and which have
ended. -/
structure Chronicle (requests : List Request) (session : Session) (lines : List Line) : Prop where
  sound : session.Sound
  holds : ∀ pair ∈ session.scopes, ∃ opened,
    Open requests lines opened pair.1 pair.2.name pair.2.fields
  begun : ∀ opened id name fields, requests[opened]? = some (.start id name fields) →
    ((id, { name, fields }) ∈ session.scopes ∧ Open requests lines opened id name fields) ∨
      ∃ closed entry, closed < requests.length ∧
        Ended requests lines opened id name fields closed entry
  sourced : ∀ line ∈ lines, Sourced requests line
  past : ∀ line ∈ lines, line.time < requests.length
  notes : (lines.filter (·.opened = none)).Pairwise (·.time < ·.time)

theorem Chronicle.nil : Chronicle [] {} [] where
  sound := ⟨.nil, nofun⟩
  holds := nofun
  begun := nofun
  sourced := nofun
  past := nofun
  notes := .nil

theorem Chronicle.exists_opener {session : Session} (h : Chronicle requests session lines) :
    ∃ opener, OpenAt requests lines opener session.scopes := by
  choose! opener hopener using h.holds
  exact ⟨opener, hopener⟩

/-- The lines that a request adds. -/
def added (session : Session) (time : Nat) (request : Request) (opener : String × Scope → Nat)
    (notes : List Entry) : List Line :=
  request.opening.map (fun entry => ⟨time, some time, entry⟩) ++
    endings time (some request) opener (session.ended request) ++
    notes.map (fun entry => ⟨time, none, entry⟩)

section Added

variable {session : Session} {time : Nat} {request : Request} {opener : String × Scope → Nat}
  {notes : List Entry}

theorem filter_added_of_ne (hne : opened ≠ time) :
    (added session time request opener notes).filter (·.opened = some opened) =
      (endings time (some request) opener (session.ended request)).filter
        (·.opened = some opened) := by
  simp [added, List.filter_map, Function.comp_def, hne.symm]

theorem filter_added_self (hne : ∀ pair ∈ session.ended request, opener pair ≠ time) :
    (added session time request opener notes).filter (·.opened = some time) =
      request.opening.map fun entry => ⟨time, some time, entry⟩ := by
  simp [added, filter_endings_of_ne hne, List.filter_map, Function.comp_def]

theorem filter_added_none :
    (added session time request opener notes).filter (·.opened = none) =
      notes.map fun entry => ⟨time, none, entry⟩ := by
  simp [added, endings, List.filter_map, Function.comp_def]

theorem time_of_mem_added {line : Line}
    (h : line ∈ added session time request opener notes) : line.time = time := by
  simp only [added, endings, List.mem_append, List.mem_map] at h
  obtain (⟨_, _, rfl⟩ | ⟨_, _, rfl⟩) | ⟨_, _, rfl⟩ := h <;> rfl

theorem map_entry_added :
    (added session time request opener notes).map Line.entry =
      request.opening ++ (session.ended request).map (·.2.ending (some request)) ++ notes := by
  simp [added, endings, Function.comp_def]

theorem sourced_added {line : Line}
    (hopener : OpenAt requests lines opener (session.ended request)) (hnotes : request.Noted notes)
    (hline : line ∈ added session requests.length request opener notes) :
    Sourced (requests ++ [request]) line := by
  have hlast : (requests ++ [request])[requests.length]? = some request :=
    List.getElem?_concat_length
  rw [added, List.append_assoc] at hline
  obtain hline | hline := List.mem_append.mp hline
  · obtain ⟨entry, hentry, rfl⟩ := List.mem_map.mp hline
    cases request with
    | start id name fields => exact .scope hlast
    | _ => cases hentry
  · obtain hline | hline := List.mem_append.mp hline
    · obtain ⟨pair, hpair, rfl⟩ := List.mem_map.mp hline
      exact .scope (getElem?_append_of_eq_some (hopener pair hpair).start [request])
    · obtain ⟨entry, hentry, rfl⟩ := List.mem_map.mp hline
      obtain rfl | ⟨other, rfl, rfl⟩ := hnotes
      · cases hentry
      · cases List.mem_singleton.mp hentry
        exact .note hlast

end Added

namespace Chronicle

section Serve

variable {session : Session} (h : Chronicle requests session lines) {request : Request}
  {opener : String × Scope → Nat} {notes : List Entry}
  (hopener : OpenAt requests lines opener session.scopes)

include hopener in
theorem openAt_ended : OpenAt requests lines opener (session.ended request) :=
  fun pair hpair => hopener pair (List.mem_filter.mp hpair).1

include h hopener in
/-- The scope that a request opens has one line. -/
theorem open_start (hstart : request = .start id name fields) :
    Open (requests ++ [request])
      (lines ++ added session requests.length request opener notes)
      requests.length id name fields where
  start := by rw [List.getElem?_concat_length, hstart]
  still := by
    intro position other hafter hbefore
    rw [List.length_append, List.length_singleton] at hbefore
    omega
  lines := by
    have hnone : lines.filter (·.opened = some requests.length) = [] := by
      apply List.filter_eq_nil_iff.mpr
      intro line hline
      cases h.sourced line hline with
      | scope hscope =>
          have hlt := (List.getElem?_eq_some_iff.mp hscope).1
          simpa using Nat.ne_of_lt hlt
      | note => simp
    have hne : ∀ pair ∈ session.ended request, opener pair ≠ requests.length :=
      fun pair hpair => Nat.ne_of_lt (openAt_ended hopener pair hpair).opened_lt
    rw [List.filter_append, hnone, filter_added_self hne, hstart]
    rfl

include hopener in
theorem open_stay (hopen : Open requests lines opened id name fields)
    (hne : request.id? ≠ some id) :
    Open (requests ++ [request])
      (lines ++ added session requests.length request opener notes) opened id name fields := by
  refine hopen.stay hne ?_
  rw [filter_added_of_ne (Nat.ne_of_lt hopen.opened_lt)]
  apply filter_endings_of_ne
  intro pair hpair heq
  obtain ⟨hpair, hid⟩ := List.mem_filter.mp hpair
  have hstart := (heq ▸ (hopener pair hpair).start).symm.trans hopen.start
  rw [← (Request.start.inj (Option.some.inj hstart)).1] at hne
  exact hne (of_decide_eq_true hid)

include h hopener in
theorem ended_of_open (hmem : (id, { name, fields }) ∈ session.scopes)
    (hopen : Open requests lines opened id name fields) (hid : request.id? = some id) :
    Ended (requests ++ [request])
      (lines ++ added session requests.length request opener notes) opened id name fields
      requests.length (Scope.ending { name, fields } (some request)) := by
  refine hopen.ended (closing_ending hid { name, fields }) ?_
  have hended : (id, { name, fields }) ∈ session.ended request :=
    List.mem_filter.mpr ⟨hmem, decide_eq_true hid⟩
  have hsorted : (session.ended request).Pairwise (·.1 < ·.1) := h.sound.sorted.filter _
  have hopened : opener (id, { name, fields }) = opened := (hopener _ hmem).unique hopen
  rw [filter_added_of_ne (Nat.ne_of_lt hopen.opened_lt), ← hopened]
  exact filter_endings_of_mem hsorted (openAt_ended hopener) hended

include hopener in
theorem ended_stay {closed : Nat} {entry : Entry} (hlt : closed < requests.length)
    (hended : Ended requests lines opened id name fields closed entry) :
    Ended (requests ++ [request])
      (lines ++ added session requests.length request opener notes) opened id name fields
      closed entry := by
  refine hended.stay [request] hlt ?_
  rw [filter_added_of_ne (Nat.ne_of_lt (Nat.lt_trans hended.after hlt))]
  apply filter_endings_of_ne
  intro pair hpair heq
  exact (openAt_ended hopener pair hpair).not_ended (heq ▸ hended)

end Serve

/-- One request: scopes are opened, end or stay, and none of them loses or gets a line that it
should not. -/
theorem serve {session : Session} (h : Chronicle requests session lines)
    {request : Request} {opener : String × Scope → Nat} {notes : List Entry}
    (hopener : OpenAt requests lines opener session.scopes) (hnotes : request.Noted notes) :
    Chronicle (requests ++ [request]) (session.next request)
      (lines ++ added session requests.length request opener notes) where
  sound := h.sound.next request
  holds := by
    intro pair hpair
    obtain ⟨name, fields, hstart, hscope⟩ | ⟨hne, hpair⟩ := (Session.mem_next h.sound).mp hpair
    · rw [hscope]
      exact ⟨requests.length, h.open_start hopener hstart⟩
    · exact ⟨opener pair, open_stay hopener (hopener pair hpair) hne⟩
  begun := by
    intro opened id name fields hstart
    have hlength : (requests ++ [request]).length = requests.length + 1 := by simp
    have hle : opened < requests.length + 1 :=
      hlength ▸ (List.getElem?_eq_some_iff.mp hstart).1
    rw [hlength]
    obtain hlt | rfl := Nat.lt_succ_iff_lt_or_eq.mp hle
    · rw [List.getElem?_append_left hlt] at hstart
      obtain ⟨hmem, hopen⟩ | ⟨closed, entry, hclosed, hended⟩ :=
        h.begun opened id name fields hstart
      · by_cases hid : request.id? = some id
        · exact .inr ⟨_, _, Nat.lt_succ_self _, h.ended_of_open hopener hmem hopen hid⟩
        · have hnext := (Session.mem_next h.sound).mpr (.inr ⟨hid, hmem⟩)
          exact .inl ⟨hnext, open_stay hopener hopen hid⟩
      · exact .inr ⟨closed, entry, Nat.lt_succ_of_lt hclosed, ended_stay hopener hclosed hended⟩
    · rw [List.getElem?_concat_length, Option.some.injEq] at hstart
      have hnext : (id, { name, fields }) ∈ (session.next request).scopes :=
        (Session.mem_next h.sound).mpr (.inl ⟨name, fields, hstart, rfl⟩)
      exact .inl ⟨hnext, h.open_start hopener hstart⟩
  sourced := by
    intro line hline
    obtain hline | hline := List.mem_append.mp hline
    · exact (h.sourced line hline).append [request]
    · exact sourced_added (openAt_ended hopener) hnotes hline
  past := by
    intro line hline
    rw [List.length_append, List.length_singleton]
    obtain hline | hline := List.mem_append.mp hline
    · exact Nat.lt_succ_of_lt (h.past line hline)
    · exact Nat.lt_succ_of_le (Nat.le_of_eq (time_of_mem_added hline))
  notes := by
    rw [List.filter_append, filter_added_none]
    refine List.pairwise_append.mpr ⟨h.notes, ?_, ?_⟩
    · obtain rfl | ⟨entry, -, rfl⟩ := hnotes
      · exact .nil
      · exact List.pairwise_singleton ..
    · intro line hline other hother
      obtain ⟨entry, -, rfl⟩ := List.mem_map.mp hother
      exact h.past line (List.mem_filter.mp hline).1

/-- What is open in the end ends with the session. -/
theorem close {session : Session} (h : Chronicle requests session lines)
    {opener : String × Scope → Nat} (hopener : OpenAt requests lines opener session.scopes)
    (hstart : requests[opened]? = some (.start id name fields)) :
    ∃ closed entry,
      Ended requests (lines ++ endings requests.length none opener session.scopes)
        opened id name fields closed entry := by
  obtain ⟨hmem, hopen⟩ | ⟨closed, entry, hlt, hended⟩ := h.begun opened id name fields hstart
  · have hopened : opener (id, { name, fields }) = opened := (hopener _ hmem).unique hopen
    have hnews : (endings requests.length none opener session.scopes).filter
        (·.opened = some opened) =
          [⟨requests.length, some opened, Scope.ending { name, fields } none⟩] := by
      rw [← hopened]
      exact filter_endings_of_mem h.sound.sorted hopener hmem
    have hended := hopen.ended .left hnews
    rw [Option.toList_none, List.append_nil] at hended
    exact ⟨_, _, hended⟩
  · have hnews : (endings requests.length none opener session.scopes).filter
        (·.opened = some opened) = [] := by
      apply filter_endings_of_ne
      intro pair hpair heq
      exact (hopener pair hpair).not_ended (heq ▸ hended)
    have hstay := hended.stay [] hlt hnews
    rw [List.append_nil] at hstay
    exact ⟨closed, entry, hstay⟩

end Chronicle

/-- The times of the lines are right: the journal has those that are earlier before each
request. -/
def Timed (requests : List Request) (journal : Journal) (lines : List Line) : Prop :=
  ∀ time ≤ requests.length, ((Session.serveAll (requests.take time)).run journal).2.entries =
    journal.entries ++ (lines.filter (·.time < time)).map Line.entry

theorem Timed.append {journal : Journal} (h : Timed requests journal lines)
    (hnews : ∀ line ∈ news, line.time = requests.length) :
    Timed requests journal (lines ++ news) := by
  intro time hle
  have hnone : news.filter (·.time < time) = [] := by
    apply List.filter_eq_nil_iff.mpr
    intro line hline
    simpa [hnews line hline] using hle
  rw [h time hle, List.filter_append, hnone, List.append_nil]

theorem serveAll_concat (requests : List Request) (request : Request) :
    Session.serveAll (requests ++ [request]) =
      Session.serveAll requests >>= fun session => session.serve request := by
  simp [Session.serveAll]

/-- What a session has written after any requests. -/
theorem exists_chronicle {journal : Journal} (hlow : journal.threshold ≤ .info)
    (requests : List Request)
    (hlimits : ∀ threshold, .limit threshold ∈ requests → threshold ≤ .info) :
    ∃ session threshold lines, threshold ≤ Severity.info ∧
      (Session.serveAll requests).run journal =
        (session, ⟨threshold, journal.entries ++ lines.map Line.entry⟩) ∧
      Timed requests journal lines ∧ Chronicle requests session lines := by
  induction requests using List.reverseRec with
  | nil =>
      refine ⟨{}, journal.threshold, [], hlow, ?_, ?_, .nil⟩
      · rw [List.map_nil, List.append_nil]
        rfl
      · intro time _
        rw [List.take_nil, List.filter_nil, List.map_nil, List.append_nil]
        rfl
  | append_singleton requests request ih =>
      have hbefore : ∀ threshold, .limit threshold ∈ requests → threshold ≤ .info :=
        fun threshold hmem => hlimits threshold (List.mem_append_left _ hmem)
      have hlimit : ∀ threshold, request = .limit threshold → threshold ≤ .info := by
        intro threshold heq
        exact hlimits threshold (heq ▸ List.mem_append_right _ (List.mem_singleton_self _))
      obtain ⟨session, threshold, lines, hthreshold, hrun, htimed, hchronicle⟩ := ih hbefore
      obtain ⟨opener, hopener⟩ := hchronicle.exists_opener
      obtain ⟨later, notes, hlater, hnotes, hserve⟩ :=
        Session.run_serve hchronicle.sound hthreshold hlimit
      have hnext := hchronicle.serve hopener hnotes
      have hall : (Session.serveAll (requests ++ [request])).run journal =
          (session.next request, ⟨later, journal.entries ++
            (lines ++ added session requests.length request opener notes).map Line.entry⟩) := by
        rw [serveAll_concat, StateT.run_bind, hrun, List.map_append, map_entry_added,
          ← List.append_assoc]
        exact hserve
      refine ⟨_, later, _, hlater, hall, ?_, hnext⟩
      intro time hle
      rw [List.length_append, List.length_singleton] at hle
      obtain hlt | rfl := Nat.lt_or_eq_of_le hle
      · have hle := Nat.le_of_lt_succ hlt
        rw [List.take_append_of_le_length hle]
        exact htimed.append (fun _ => time_of_mem_added) time hle
      · have htake : (requests ++ [request]).take (requests.length + 1) = requests ++ [request] :=
          List.take_of_length_le (by simp)
        have hpast : ∀ line ∈ lines ++ added session requests.length request opener notes,
            line.time < requests.length + 1 := by simpa using hnext.past
        rw [htake, hall, List.filter_eq_self.mpr fun line hline =>
          decide_eq_true (hpast line hline)]

/-- Every scope ends exactly once, however the requests for several scopes are mixed: it has a line
for its beginning and, at a later time, one for how it ended. All other lines are notes. -/
theorem scopes_end_once (requests : List Request) (journal : Journal)
    (hlow : journal.threshold ≤ .info)
    (hlimits : ∀ threshold, .limit threshold ∈ requests → threshold ≤ .info) :
    ∃ lines : List Line,
      ((Session.run requests).run journal).2.entries =
        journal.entries ++ lines.map Line.entry ∧
      Timed requests journal lines ∧
      (∀ opened id name fields, requests[opened]? = some (.start id name fields) →
        ∃ closed entry, Ended requests lines opened id name fields closed entry) ∧
      (∀ line ∈ lines, Sourced requests line) ∧
      (lines.filter (·.opened = none)).Pairwise (·.time < ·.time) := by
  obtain ⟨session, threshold, lines, hthreshold, hrun, htimed, hchronicle⟩ :=
    exists_chronicle hlow requests hlimits
  obtain ⟨opener, hopener⟩ := hchronicle.exists_opener
  refine ⟨lines ++ endings requests.length none opener session.scopes, ?_, ?_, ?_, ?_, ?_⟩
  · rw [Session.run, StateT.run_bind, hrun]
    change (session.close.run _).2.entries = _
    rw [Session.run_close hchronicle.sound hthreshold, List.map_append, ← List.append_assoc]
    simp [endings, Function.comp_def]
  · apply htimed.append
    intro line hline
    obtain ⟨pair, -, rfl⟩ := List.mem_map.mp hline
    rfl
  · intro opened id name fields hstart
    exact hchronicle.close hopener hstart
  · intro line hline
    obtain hline | hline := List.mem_append.mp hline
    · exact hchronicle.sourced line hline
    · obtain ⟨pair, hpair, rfl⟩ := List.mem_map.mp hline
      exact .scope (hopener pair hpair).start
  · have hnone : (endings requests.length none opener session.scopes).filter (·.opened = none) =
        [] := by simp [endings, List.filter_map, Function.comp_def]
    rw [List.filter_append, hnone, List.append_nil]
    exact hchronicle.notes

/-- Two scopes of one name are open together, and a third one takes the identifier of the
second. -/
def mixedRequests : List Request :=
  [.start "a" "LOAD" [("path", "x")], .start "b" "LOAD" [], .limit .trace,
    .complete "a" [("rows", "2")] 5, .start "b" "SAVE" [], .fail "b" "full", .drop "b"]

theorem scopes_end_once_mixedRequests :
    (∀ threshold, .limit threshold ∈ mixedRequests → threshold ≤ Severity.info) ∧
      ∃ lines closed entry,
        ((Session.run mixedRequests).run {}).2.entries = lines.map Line.entry ∧
          Ended mixedRequests lines 1 "b" "LOAD" [] closed entry := by
  have hlimits : ∀ threshold, .limit threshold ∈ mixedRequests → threshold ≤ Severity.info := by
    intro threshold hmem
    simp only [mixedRequests, List.mem_cons, List.not_mem_nil, reduceCtorEq, false_or, or_false,
      Request.limit.injEq] at hmem
    rw [hmem]
    decide
  obtain ⟨lines, hentries, -, hended, -, -⟩ :=
    scopes_end_once mixedRequests {} (by decide) hlimits
  obtain ⟨closed, entry, hend⟩ := hended 1 "b" "LOAD" [] rfl
  exact ⟨hlimits, lines, closed, entry, hentries, hend⟩

example : (((Session.run mixedRequests).run {}).2.entries.map Entry.event) =
    ["LOAD_BEGIN", "LOAD_BEGIN", "LOAD_COMPLETE", "SAVE_BEGIN", "LOAD_INCOMPLETE",
      "SAVE_FAILED"] := by
  cbv

end TableIntake.Log
