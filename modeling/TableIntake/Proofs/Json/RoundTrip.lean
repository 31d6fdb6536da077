import TableIntake.Json.Reader
import TableIntake.Proofs.Json.Numerals
import TableIntake.Proofs.Json.Strings
import TableIntake.Proofs.Keyed

namespace TableIntake.Json

/-! Data without floating point numbers is read from its text as what it is: its text has the
outline of the data, and the outline is read as the data. -/

namespace Value

mutual

/-- The outline of a value whose text stands before `rest`. -/
def outline : Value → List Char → Outline
  | .array items, rest => .array (itemOutlines items rest)
  | .object members, rest => .object (memberOutlines members rest)
  | .null, rest => .scalar .null rest.length
  | .bool b, rest => .scalar (.bool b) rest.length
  | .number n, rest => .scalar (.number (some n)) rest.length
  | .string s, rest => .scalar (.string (some s)) rest.length

def itemOutlines : List Value → List Char → List Outline
  | [], _ => []
  | item :: items, rest => item.outline (itemChars items ++ rest) :: itemOutlines items rest

def memberOutlines : List (String × Value) → List Char → List (Option String × Outline)
  | [], _ => []
  | (key, value) :: members, rest =>
      (some key, value.outline (memberChars members ++ rest)) :: memberOutlines members rest

end

end Value

theorem skipSpaces_of_not {c : Char} (h : isSpace c = false) (cs : List Char) :
    skipSpaces (c :: cs) = c :: cs := by
  rw [skipSpaces, List.dropWhile_cons_of_neg (by simp [h])]

theorem Closed.skipSpaces {rest : List Char} (h : Closed rest) : skipSpaces rest = rest := by
  cases rest with
  | nil => rfl
  | cons c tail =>
      obtain rfl | rfl | rfl := h c tail rfl <;> exact skipSpaces_of_not (by decide) tail

/-! How texts begin. -/

theorem Number.head_integer (i : Int) :
    ∃ c cs, (Number.integer i).chars = c :: cs ∧ (c = '-' ∨ c.isDigit = true) := by
  cases i with
  | ofNat n =>
      rw [Int.ofNat_eq_natCast, Number.chars_natural]
      cases hdigits : Nat.toDigits 10 n with
      | nil => exact absurd hdigits Nat.toDigits_ne_nil
      | cons d ds =>
          have hmem : d ∈ Nat.toDigits 10 n := hdigits ▸ List.mem_cons_self
          exact ⟨d, ds, rfl, Or.inr (Numeral.isDigit_of_mem_toDigits d hmem)⟩
  | negSucc n => exact ⟨'-', _, Number.chars_negative n, Or.inl rfl⟩

/-- The first character of a numeral begins nothing else. -/
theorem ne_of_numeral {c : Char} (h : c = '-' ∨ c.isDigit = true) :
    isSpace c = false ∧ c ≠ ']' ∧ c ≠ '[' ∧ c ≠ '\x7b' ∧ c ≠ '"' ∧ c ≠ 'n' ∧ c ≠ 't' ∧ c ≠ 'f' := by
  obtain rfl | h := h
  · decide
  · have hspace : isSpace c = false := by
      simp only [isSpace, Bool.or_eq_false_iff, decide_eq_false_iff_not]
      refine ⟨⟨⟨?_, ?_⟩, ?_⟩, ?_⟩ <;> (rintro rfl; cases h)
    refine ⟨hspace, ?_, ?_, ?_, ?_, ?_, ?_, ?_⟩ <;> (rintro rfl; cases h)

theorem Value.head_chars {v : Value} (h : v.Everywhere NoDecimal) :
    ∃ c cs, v.chars = c :: cs ∧ isSpace c = false ∧ c ≠ ']' := by
  cases v with
  | null => exact ⟨_, _, rfl, by decide⟩
  | bool b => cases b <;> exact ⟨_, _, rfl, by decide⟩
  | number n =>
      cases n with
      | integer i =>
          obtain ⟨c, cs, hchars, hc⟩ := Number.head_integer i
          obtain ⟨hspace, hbracket, -⟩ := ne_of_numeral hc
          exact ⟨c, cs, hchars, hspace, hbracket⟩
      | decimal bits => exact absurd (everywhere_number.mp h) id
  | string s => exact ⟨_, _, rfl, by decide⟩
  | array items => cases items <;> exact ⟨_, _, rfl, by decide⟩
  | object members => cases members <;> exact ⟨_, _, rfl, by decide⟩

/-! What a text is read as. -/

namespace Outline

theorem readValue_scalar (fuel : Nat) {c : Char} {cs rest : List Char} {value : Scalar}
    (hspace : isSpace c = false) (hbracket : c ≠ '[') (hbrace : c ≠ '\x7b')
    (h : scalar? (c :: cs) = some (value, rest)) :
    readValue (fuel + 1) (c :: cs) = (.scalar value rest.length, rest) := by
  rw [readValue, skipSpaces_of_not hspace]
  simp only [if_neg hbracket, if_neg hbrace, h]

theorem readValue_array (fuel : Nat) {c : Char} (hspace : isSpace c = false) (hbracket : c ≠ ']')
    (cs : List Char) :
    readValue (fuel + 1) ('[' :: c :: cs) =
      (.array (readItems fuel (c :: cs)).1, (readItems fuel (c :: cs)).2) := by
  rw [readValue, skipSpaces_of_not (by decide)]
  simp only [if_true, skipSpaces_of_not hspace]
  split
  case h_1 heq => exact absurd (List.cons.inj heq).1 hbracket
  case h_2 => rfl

theorem readValue_object (fuel : Nat) (cs : List Char) :
    readValue (fuel + 1) ('\x7b' :: '"' :: cs) =
      (.object (readMembers fuel ('"' :: cs)).1, (readMembers fuel ('"' :: cs)).2) := by
  rw [readValue, skipSpaces_of_not (by decide)]
  simp [skipSpaces_of_not (show isSpace '"' = false by decide)]

end Outline

/-- The text of the value is read as its outline wherever it stands. -/
def Reads (v : Value) : Prop :=
  ∀ fuel rest, Closed rest → 2 * v.chars.length ≤ fuel →
    Outline.readValue fuel (v.chars ++ rest) = (v.outline rest, rest)

theorem reads_of_scalar {v : Value} {c : Char} {cs : List Char} {value : Scalar}
    (hchars : v.chars = c :: cs) (hspace : isSpace c = false) (hbracket : c ≠ '[')
    (hbrace : c ≠ '\x7b') (houtline : ∀ rest, v.outline rest = .scalar value rest.length)
    (h : ∀ rest, Closed rest → scalar? (v.chars ++ rest) = some (value, rest)) : Reads v := by
  intro fuel rest hrest hfuel
  cases fuel with
  | zero => simp [hchars] at hfuel
  | succ fuel =>
      have hscalar := h rest hrest
      rw [hchars] at hscalar ⊢
      rw [houtline]
      exact Outline.readValue_scalar fuel hspace hbracket hbrace hscalar

theorem reads_null : Reads .null := by
  refine reads_of_scalar rfl (by decide) (by decide) (by decide) (fun _ => rfl) ?_
  intro rest _
  simp [Value.chars, scalar?, word?]

theorem reads_bool (b : Bool) : Reads (.bool b) := by
  cases b <;>
  · refine reads_of_scalar rfl (by decide) (by decide) (by decide) (fun _ => rfl) ?_
    intro rest _
    simp [Value.chars, scalar?, word?]

theorem reads_integer {i : Int} (h : FitsWord i) : Reads (.number (.integer i)) := by
  obtain ⟨c, cs, hchars, hc⟩ := Number.head_integer i
  obtain ⟨hspace, -, hbracket, hbrace, hquote, hn, ht, hf⟩ := ne_of_numeral hc
  refine reads_of_scalar hchars hspace hbracket hbrace (fun _ => rfl) ?_
  intro rest hrest
  rw [← number?_integer h hrest]
  change scalar? ((Number.integer i).chars ++ rest) = _
  rw [hchars, List.cons_append, scalar?, if_neg hquote, if_neg hn, if_neg ht, if_neg hf]

theorem reads_string (s : String) : Reads (.string s) := by
  refine reads_of_scalar rfl (by decide) (by decide) (by decide) (fun _ => rfl) ?_
  intro rest _
  simp [Value.chars, quote, scalar?, string?_quoted]

namespace Outline

theorem readItems_last {item : Value} (h : Reads item) {fuel : Nat} (rest : List Char)
    (hfuel : 2 * item.chars.length ≤ fuel) :
    readItems (fuel + 1) (item.chars ++ ']' :: rest) = ([item.outline (']' :: rest)], rest) := by
  have hclosed : Closed (']' :: rest) := Closed.cons (Or.inr (Or.inl rfl)) rest
  rw [readItems, h fuel (']' :: rest) hclosed hfuel]
  simp only [hclosed.skipSpaces]

theorem readItems_next {item : Value} (h : Reads item) {fuel : Nat} (rest : List Char)
    (hfuel : 2 * item.chars.length ≤ fuel) :
    readItems (fuel + 1) (item.chars ++ ',' :: rest) =
      (item.outline (',' :: rest) :: (readItems fuel rest).1, (readItems fuel rest).2) := by
  have hclosed : Closed (',' :: rest) := Closed.cons (Or.inl rfl) rest
  rw [readItems, h fuel (',' :: rest) hclosed hfuel]
  simp only [hclosed.skipSpaces]

theorem readItems_chars {item : Value} {items : List Value}
    (hreads : ∀ v ∈ item :: items, Reads v) (fuel : Nat) (rest : List Char)
    (hfuel : 2 * (item.chars ++ itemChars items).length ≤ fuel) :
    readItems fuel (item.chars ++ (itemChars items ++ rest)) =
      (Value.itemOutlines (item :: items) rest, rest) := by
  induction items generalizing item fuel with
  | nil =>
      simp only [itemChars, List.length_append, List.length_singleton] at hfuel
      obtain ⟨fuel, rfl⟩ : ∃ less, fuel = less + 1 := ⟨fuel - 1, by omega⟩
      exact readItems_last (hreads item List.mem_cons_self) rest (by omega)
  | cons next items ih =>
      simp only [itemChars, List.length_append, List.length_cons] at hfuel
      obtain ⟨fuel, rfl⟩ : ∃ less, fuel = less + 1 := ⟨fuel - 1, by omega⟩
      have hnext := ih (fun v hv => hreads v (List.mem_cons_of_mem item hv)) fuel
        (by rw [List.length_append]; omega)
      have hchars : itemChars (next :: items) ++ rest =
          ',' :: (next.chars ++ (itemChars items ++ rest)) := by simp [itemChars]
      rw [Value.itemOutlines, hchars, readItems_next (hreads item List.mem_cons_self) _ (by omega),
        hnext]

/-- A quoted key is read, then its value, and what follows that decides. -/
theorem readMembers_quote (key : String) (fuel : Nat) (cs : List Char) :
    readMembers (fuel + 1) (quote key ++ ':' :: cs) =
      match skipSpaces (readValue fuel cs).2 with
      | ',' :: rest =>
          ((some key, (readValue fuel cs).1) :: (readMembers fuel rest).1,
            (readMembers fuel rest).2)
      | '\x7d' :: rest => ([(some key, (readValue fuel cs).1)], rest)
      | _ => ([(some key, (readValue fuel cs).1), (none, .broken)], []) := by
  rw [readMembers, quote, List.cons_append, skipSpaces_of_not (by decide), List.append_assoc]
  -- The key is read; no space comes before the colon, so the rest is by computing.
  simp only [List.singleton_append, string?_quoted]
  rfl

theorem readMembers_last {key : String} {value : Value} (h : Reads value) {fuel : Nat}
    (rest : List Char) (hfuel : 2 * value.chars.length ≤ fuel) :
    readMembers (fuel + 1) (quote key ++ ':' :: (value.chars ++ '\x7d' :: rest)) =
      ([(some key, value.outline ('\x7d' :: rest))], rest) := by
  have hclosed : Closed ('\x7d' :: rest) := Closed.cons (Or.inr (Or.inr rfl)) rest
  rw [readMembers_quote, h fuel ('\x7d' :: rest) hclosed hfuel]
  simp only [hclosed.skipSpaces]

theorem readMembers_next {key : String} {value : Value} (h : Reads value) {fuel : Nat}
    (rest : List Char) (hfuel : 2 * value.chars.length ≤ fuel) :
    readMembers (fuel + 1) (quote key ++ ':' :: (value.chars ++ ',' :: rest)) =
      ((some key, value.outline (',' :: rest)) :: (readMembers fuel rest).1,
        (readMembers fuel rest).2) := by
  have hclosed : Closed (',' :: rest) := Closed.cons (Or.inl rfl) rest
  rw [readMembers_quote, h fuel (',' :: rest) hclosed hfuel]
  simp only [hclosed.skipSpaces]

theorem readMembers_chars {key : String} {value : Value} {members : List (String × Value)}
    (hreads : ∀ member ∈ (key, value) :: members, Reads member.2) (fuel : Nat) (rest : List Char)
    (hfuel : 2 * (value.chars ++ memberChars members).length ≤ fuel) :
    readMembers fuel (quote key ++ ':' :: (value.chars ++ (memberChars members ++ rest))) =
      (Value.memberOutlines ((key, value) :: members) rest, rest) := by
  have hvalue : Reads value := hreads (key, value) List.mem_cons_self
  induction members generalizing key value fuel with
  | nil =>
      simp only [memberChars, List.length_append, List.length_singleton] at hfuel
      obtain ⟨fuel, rfl⟩ : ∃ less, fuel = less + 1 := ⟨fuel - 1, by omega⟩
      exact readMembers_last hvalue rest (by omega)
  | cons next members ih =>
      obtain ⟨name, inner⟩ := next
      simp only [memberChars, List.length_append, List.length_cons] at hfuel
      obtain ⟨fuel, rfl⟩ : ∃ less, fuel = less + 1 := ⟨fuel - 1, by omega⟩
      have hrest : ∀ member ∈ (name, inner) :: members, Reads member.2 :=
        fun member hmember => hreads member (List.mem_cons_of_mem _ hmember)
      have hnext := ih hrest fuel (by rw [List.length_append]; omega)
        (hrest (name, inner) List.mem_cons_self)
      have hchars : memberChars ((name, inner) :: members) ++ rest =
          ',' :: (quote name ++ ':' :: (inner.chars ++ (memberChars members ++ rest))) := by
        simp [memberChars]
      rw [Value.memberOutlines, hchars, readMembers_next hvalue _ (by omega), hnext]

end Outline

theorem reads_array {items : List Value} (h : ∀ item ∈ items, Reads item)
    (hdecimal : ∀ item ∈ items, item.Everywhere Value.NoDecimal) : Reads (.array items) := by
  intro fuel rest hrest hfuel
  cases items with
  | nil =>
      simp only [Value.chars, List.length_cons] at hfuel
      obtain ⟨fuel, rfl⟩ : ∃ less, fuel = less + 1 := ⟨fuel - 1, by omega⟩
      simp [Value.chars, Outline.readValue, skipSpaces_of_not, isSpace, Value.outline,
        Value.itemOutlines]
  | cons item items =>
      simp only [Value.chars, List.length_append, List.length_cons] at hfuel
      obtain ⟨fuel, rfl⟩ : ∃ less, fuel = less + 1 := ⟨fuel - 1, by omega⟩
      obtain ⟨c, cs, hchars, hspace, hbracket⟩ :=
        Value.head_chars (hdecimal item List.mem_cons_self)
      have hitems := Outline.readItems_chars h fuel rest (by rw [List.length_append]; omega)
      rw [hchars] at hitems
      rw [Value.chars, hchars]
      simp only [List.cons_append, List.append_assoc] at hitems ⊢
      rw [Outline.readValue_array fuel hspace hbracket, hitems]
      rfl

theorem reads_object {members : List (String × Value)}
    (h : ∀ member ∈ members, Reads member.2) : Reads (.object members) := by
  intro fuel rest hrest hfuel
  cases members with
  | nil =>
      simp only [Value.chars, List.length_cons] at hfuel
      obtain ⟨fuel, rfl⟩ : ∃ less, fuel = less + 1 := ⟨fuel - 1, by omega⟩
      simp [Value.chars, Outline.readValue, skipSpaces_of_not, isSpace, Value.outline,
        Value.memberOutlines]
  | cons member members =>
      obtain ⟨key, value⟩ := member
      simp only [Value.chars, List.length_append, List.length_cons] at hfuel
      obtain ⟨fuel, rfl⟩ : ∃ less, fuel = less + 1 := ⟨fuel - 1, by omega⟩
      have hmembers := Outline.readMembers_chars h fuel rest (by rw [List.length_append]; omega)
      rw [Value.chars]
      simp only [quote, List.cons_append, List.append_assoc] at hmembers ⊢
      rw [Outline.readValue_object, hmembers]
      rfl

/-- The text of data without floating point numbers is read as the outline of the data. -/
theorem reads {v : Value} (hdecimal : v.Everywhere Value.NoDecimal)
    (hfits : v.Everywhere Value.Fits) : Reads v := by
  induction v using Value.nested_induction with
  | null => exact reads_null
  | bool b => exact reads_bool b
  | number n =>
      cases n with
      | integer i => exact reads_integer (Value.everywhere_number.mp hfits)
      | decimal bits => exact absurd (Value.everywhere_number.mp hdecimal) id
  | string s => exact reads_string s
  | array items ih =>
      obtain ⟨-, hdecimal⟩ := Value.everywhere_array.mp hdecimal
      obtain ⟨-, hfits⟩ := Value.everywhere_array.mp hfits
      exact reads_array (fun item h => ih item h (hdecimal item h) (hfits item h)) hdecimal
  | object members ih =>
      obtain ⟨-, hdecimal⟩ := Value.everywhere_object.mp hdecimal
      obtain ⟨-, hfits⟩ := Value.everywhere_object.mp hfits
      exact reads_object fun member h => ih member h (hdecimal member h) (hfits member h)

theorem ofChars_chars {v : Value} (hdecimal : v.Everywhere Value.NoDecimal)
    (hfits : v.Everywhere Value.Fits) : Outline.ofChars v.chars = (v.outline [], []) := by
  have h := reads hdecimal hfits (2 * v.chars.length + 2) [] Closed.nil (by omega)
  rwa [List.append_nil] at h

/-! What an outline is read as. -/

/-- The outline of the value is read as the value, if it is not nested too deep. -/
def Recovered (v : Value) : Prop :=
  ∀ room rest, v.depth ≤ room → Reader.value room (v.outline rest) = .ok v

namespace Reader

theorem values_outlines {items : List Value} (h : ∀ item ∈ items, Recovered item) {room : Nat}
    (rest : List Char) (hroom : Value.itemsDepth items ≤ room) :
    values room (Value.itemOutlines items rest) = .ok items := by
  induction items with
  | nil => rfl
  | cons item items ih =>
      obtain ⟨hitem, hitems⟩ := Nat.max_le.mp hroom
      obtain ⟨hfirst, hothers⟩ := List.forall_mem_cons.mp h
      rw [Value.itemOutlines, values, hfirst room _ hitem, ih hothers hitems]
      rfl

theorem members'_outlines {members : List (String × Value)}
    (h : ∀ member ∈ members, Recovered member.2) {room : Nat} (rest : List Char)
    (hroom : Value.membersDepth members ≤ room) {sorted : List (String × Value)}
    (hordered : (sorted ++ members).Pairwise (·.1 < ·.1)) :
    members' room (Value.memberOutlines members rest) sorted = .ok (sorted ++ members) := by
  induction members generalizing sorted with
  | nil => rw [Value.memberOutlines, members', List.append_nil]
  | cons member members ih =>
      obtain ⟨key, value⟩ := member
      obtain ⟨hvalue, hmembers⟩ := Nat.max_le.mp hroom
      obtain ⟨hfirst, hothers⟩ := List.forall_mem_cons.mp h
      have hlast : ∀ member ∈ sorted, member.1 < key := fun member hmember =>
        (List.pairwise_append.mp hordered).2.2 member hmember (key, value) List.mem_cons_self
      rw [List.append_cons] at hordered ⊢
      rw [Value.memberOutlines, members', hfirst room _ hvalue]
      simp only [insertKey_last value hlast]
      exact ih hothers hmembers hordered

end Reader

theorem recovered {v : Value} (hordered : v.Everywhere Value.Ordered) : Recovered v := by
  induction v using Value.nested_induction with
  | null => exact fun _ _ _ => rfl
  | bool b => exact fun _ _ _ => rfl
  | number n => exact fun _ _ _ => rfl
  | string s => exact fun _ _ _ => rfl
  | array items ih =>
      intro room rest hroom
      obtain ⟨-, hordered⟩ := Value.everywhere_array.mp hordered
      cases room with
      | zero => cases hroom
      | succ room =>
          rw [Value.outline, Reader.value, Reader.values_outlines
            (fun item h => ih item h (hordered item h)) rest (Nat.le_of_succ_le_succ hroom)]
          rfl
  | object members ih =>
      intro room rest hroom
      obtain ⟨hsorted, hordered⟩ := Value.everywhere_object.mp hordered
      cases room with
      | zero => cases hroom
      | succ room =>
          have hmembers : Reader.members' room (Value.memberOutlines members rest) [] =
              .ok ([] ++ members) :=
            Reader.members'_outlines (fun member h => ih member h (hordered member h)) rest
              (Nat.le_of_succ_le_succ hroom) hsorted
          rw [Value.outline, Reader.value, hmembers]
          rfl

/-- What is read from the outline of a value is read from its text. -/
theorem read_render {v : Value} (hdecimal : v.Everywhere Value.NoDecimal)
    (hfits : v.Everywhere Value.Fits) {reader : Reader α} {a : α}
    (h : reader (v.outline []) = .ok a) : read reader v.render = .ok a := by
  simp only [read, Value.render, String.toList_ofList, ofChars_chars hdecimal hfits, h]
  rfl

/-- A member that is a field is read as that field. -/
theorem Record.members_field {fields : List (Field σ)} {field : Field σ} {record next : σ}
    {seen : List String} {key : String} {outline : Outline}
    (hfind : fields.find? (·.name = key) = some field) (hseen : key ∉ seen)
    (hread : field.read record outline = .ok next) (members : List (Option String × Outline)) :
    Record.members fields record seen ((some key, outline) :: members) =
      Record.members fields next (key :: seen) members := by
  simp only [Record.members, hfind, if_neg hseen, hread]

end TableIntake.Json
