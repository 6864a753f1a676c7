-- Which editor components the markup of a widget uses: the types of its field tags, and
-- hints in class names.
import WidgetSchema.Markup.Attribute
import WidgetSchema.Markup.Entity
import WidgetSchema.Markup.Field
namespace WidgetSchema

open Text Markup

/-- The components of a widget in the order in which they are first seen. -/
structure Usages where
  /-- Types of field tags. -/
  required : List String := []
  /-- Hints, which may name no component. -/
  optional : List String := []
  deriving DecidableEq

namespace Usages

def addNew (c : String) (cs : List String) : List String := if cs.contains c then cs else cs ++ [c]

def require (u : Usages) (c : String) : Usages := { u with required := addNew c u.required }

def hint (u : Usages) (c : String) : Usages := { u with optional := addNew c u.optional }

/-- All components, the required ones first. -/
def all (u : Usages) : List String :=
  u.optional.foldl (fun cs c => addNew c cs) u.required

/-! ## Hints -/

def hintStart : List Char := "diet-".toList

def isHintChar (c : Char) : Bool :=
  let c := foldCase c
  isAsciiDigit c || ('a' ≤ c && c ≤ 'z') || c == '_' || c == '-'

/-- Whether a word ends or starts between two characters. -/
def isEdge (before : Char) (after : Option Char) : Bool := isWordChar before != after.any isWordChar

/-- The longest start of a run that ends at an edge of a word, with what follows it. -/
def longestToEdge (run rest : List Char) : Option (List Char × List Char) :=
  (List.range run.length).reverse.findSome? fun i =>
    let rest := run.drop (i + 1) ++ rest
    match run[i]? with
    | some c => if isEdge c rest.head? then some (run.take (i + 1), rest) else none
    | none => none

/-- The name of a hint at the start of a text, and what follows it. A hint starts a word. -/
def hintAt? (before : Option Char) (cs : List Char) : Option (List Char × List Char) :=
  if before.any isWordChar then none
  else
    match dropFolded foldCase hintStart cs with
    | none => none
    | some rest => longestToEdge (rest.takeWhile isHintChar) (rest.dropWhile isHintChar)

theorem length_longestToEdge {run rest name after : List Char}
    (h : longestToEdge run rest = some (name, after)) :
    after.length ≤ run.length + rest.length := by
  obtain ⟨i, _, hi⟩ := List.exists_of_findSome?_eq_some h
  dsimp only at hi
  split at hi
  · split at hi
    · simp only [Option.some.injEq, Prod.mk.injEq] at hi
      rw [← hi.2]
      simp only [List.length_append, List.length_drop]
      omega
    · cases hi
  · cases hi

theorem length_hintStart : hintStart.length = 5 := rfl

theorem length_hintAt? {before : Option Char} {cs name after : List Char}
    (h : hintAt? before cs = some (name, after)) : after.length < cs.length := by
  unfold hintAt? at h
  split at h
  · cases h
  · split at h
    · cases h
    · rename_i rest hr
      have h1 := length_dropFolded hr
      have h2 := length_longestToEdge h
      have h3 := Attributes.length_takeWhile_add isHintChar rest
      rw [length_hintStart] at h1
      omega

/-- The name of a component in a hint: up to a doubled dash or underscore. -/
def componentName : List Char → List Char
  | '-' :: '-' :: _ => []
  | '_' :: '_' :: _ => []
  | c :: cs => c :: componentName cs
  | [] => []

/-- The components that class names hint at, in a text behind the given character. -/
def hintsIn (before : Option Char) (cs : List Char) : List String :=
  match h : hintAt? before cs with
  | some (name, after) =>
    have := length_hintAt? h
    let component := componentName name
    let rest := hintsIn name.getLast? after
    if component.isEmpty then rest else String.ofList component :: rest
  | none =>
    match cs with
    | [] => []
    | c :: rest => hintsIn (some c) rest
termination_by cs.length

/-- Adds the components that class names hint at. -/
def addHints (u : Usages) (markup : List Char) : Usages := (hintsIn none markup).foldl hint u

/-! ## Types -/

/-- Adds the types of all field tags, also of those in bodies and in templates. -/
def addTypes (u : Usages) (markup : List Char) : Usages :=
  (fieldTags markup).attach.foldl (fun u ⟨t, ht⟩ =>
    let attrs := Attributes.ofChars t.attrs
    have hl := length_of_mem_fieldTags ht
    let u := match attrs.get? "type" with
      | some type => u.require type
      | none => u
    let u := match hm : attrs.get? "template" with
      | some template =>
        have : (Entity.decodeChars template.toList).length < markup.length := by
          have := Entity.length_decodeChars_le template.toList
          have := Attributes.length_get?_ofChars hm
          omega
        (addTypes u (Entity.decodeChars template.toList)).addHints
          (Entity.decodeChars template.toList)
      | none => u
    match hi : t.inner with
    | some body =>
      have := hl.2 body hi
      addTypes u body
    | none => u) u
termination_by markup.length

end Usages

end WidgetSchema
