namespace TableIntake.Batch

/-! Which entries of an archive make up a pair. -/

inductive Half where
  | grammar
  | data
  deriving DecidableEq, Repr

inductive Placement where
  | member (pair variant : String) (half : Half)
  | ignored
  /-- It should have been part of a pair. -/
  | misnamed (expected : String)
  deriving DecidableEq, Repr

abbrev Convention := String → Placement

/-- Pairs share all of their names but the suffix; the first directory is the variant. -/
structure SuffixConvention where
  grammarSuffix : String := ".grammar.csv"
  dataSuffix : String := ".data.csv"
  deriving DecidableEq, Repr

namespace SuffixConvention

def expected (convention : SuffixConvention) : String :=
  let grammar := convention.grammarSuffix
  let data := convention.dataSuffix
  s!"expected <variant>/<name>{grammar} or <variant>/<name>{data}"

/-- What is before a suffix, unless that is no name. -/
def stem? (suffix path : List Char) : Option (List Char) :=
  if suffix.isSuffixOf path then
    match path.take (path.length - suffix.length) with
    | [] => none
    | stem => if stem.getLast? = some '/' then none else some stem
  else none

/-- The longer suffix is tried first. -/
def split? (convention : SuffixConvention) (path : List Char) : Option (List Char × Half) :=
  let grammar := (stem? convention.grammarSuffix.toList path).map (·, Half.grammar)
  let data := (stem? convention.dataSuffix.toList path).map (·, Half.data)
  if convention.grammarSuffix.utf8ByteSize < convention.dataSuffix.utf8ByteSize then
    data <|> grammar
  else grammar <|> data

def fileName (path : List Char) : List Char :=
  (path.reverse.takeWhile (· ≠ '/')).reverse

def isHidden (path : List Char) : Bool :=
  match fileName path with
  | [] => true
  | c :: _ => c = '.'

/-- The directory that comes first, if the rest is not empty either. -/
def variant? (stem : List Char) : Option (List Char) :=
  match stem.takeWhile (· ≠ '/'), stem.dropWhile (· ≠ '/') with
  | c :: variant, '/' :: _ :: _ => some (c :: variant)
  | _, _ => none

def classify (convention : SuffixConvention) : Convention := fun path =>
  if isHidden path.toList then .ignored
  else
    match convention.split? path.toList with
    | none => .misnamed convention.expected
    | some (stem, half) =>
        match variant? stem with
        | none => .misnamed convention.expected
        | some variant => .member (String.ofList stem) (String.ofList variant) half

end SuffixConvention

/-! Entry names as conventions see them. -/

/-- Without the slashes and the references to the current directory at the start. -/
def withoutLead : List Char → List Char
  | '.' :: '/' :: cs => withoutLead cs
  | '/' :: cs => withoutLead cs
  | cs => cs

theorem withoutLead_withoutLead (cs : List Char) :
    withoutLead (withoutLead cs) = withoutLead cs := by
  fun_induction withoutLead cs with
  | case1 cs ih => exact ih
  | case2 cs ih => exact ih
  | case3 cs hdot hslash =>
      rw [withoutLead]
      · exact hdot
      · exact hslash

/-- Every separator is a slash. -/
def normalize (name : String) : String :=
  String.ofList (withoutLead (name.toList.map fun c => if c = '\\' then '/' else c))

end TableIntake.Batch
