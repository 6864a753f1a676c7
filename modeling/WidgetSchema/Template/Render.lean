-- Rendering templates against a context, and filling placeholders in the texts of a context.
import WidgetSchema.Node.Path
import WidgetSchema.Node.Text
import WidgetSchema.Template.Basic
namespace WidgetSchema.Template

open Text

/-! ## Values -/

/-- How many scopes a key climbs, and the rest of the key. -/
def climb (key : List Char) : Nat × List Char :=
  match key with
  | '.' :: '.' :: '/' :: rest =>
    let (up, rest) := climb rest
    (up + 1, rest)
  | _ => (0, key)

/-- The value under a key. The scopes are given innermost first. -/
def resolve? (scopes : List Node) (key : String) : Option Node :=
  let (up, rest) := climb key.toList
  let segments := ((splitChars '.' rest).map String.ofList).filter (· ≠ "")
  (scopes[up]?).bind fun scope => scope.getAt segments

/-- Whether a value counts as true. Texts are true, apart from the spellings of false. -/
def isTruthy : Option Node → Bool
  | none | some .null | some (.bool false) => false
  | some (.string s) => s ≠ "false" && s ≠ "0"
  | some _ => true

/-- The scope of an item: items that are no containers are found under `this`. -/
def itemScope (item : Node) : Node :=
  if item.isObject || item.isArray then item else .object [("this", item)]

/-! ## Rendering -/

mutual

def renderPart (scopes : List Node) : TemplatePart → String
  | .text s => s
  | .var key => ((resolve? scopes key).map Node.display).getD ""
  | .cond key yes no =>
    if isTruthy (resolve? scopes key) then renderParts scopes yes else renderParts scopes no
  | .unless key body =>
    if isTruthy (resolve? scopes key) then "" else renderParts scopes body
  | .each key body =>
    match resolve? scopes key with
    | some (.array items) =>
      String.join (items.map fun item => renderParts (itemScope item :: scopes) body)
    | _ => ""

def renderParts (scopes : List Node) : List TemplatePart → String
  | [] => ""
  | p :: ps => renderPart scopes p ++ renderParts scopes ps

end

/-- The text of a template in a context. -/
def render (t : Template) (context : Node) : String := renderParts [context] t

/-! ## Placeholders -/

def isKeyChar (c : Char) : Bool := isAsciiAlphanumeric c || c == '_'

/-- The key of a placeholder at the start of a text, and what follows it. -/
def placeholder? (cs : List Char) : Option (String × List Char) :=
  match cs with
  | '\x7b' :: '\x7b' :: rest =>
    let rest := rest.dropWhile isBlank
    let key := rest.takeWhile isKeyChar
    match (rest.dropWhile isKeyChar).dropWhile isBlank with
    | '\x7d' :: '\x7d' :: after => if key.isEmpty then none else some (String.ofList key, after)
    | _ => none
  | _ => none

theorem length_placeholder? {cs rest : List Char} {key : String}
    (h : placeholder? cs = some (key, rest)) : rest.length < cs.length := by
  unfold placeholder? at h
  split at h
  · rename_i tail
    dsimp only at h
    split at h
    · rename_i after ha
      split at h
      · cases h
      · have h1 := (List.dropWhile_sublist (l := tail) isBlank).length_le
        have h2 := (List.dropWhile_sublist (l := tail.dropWhile isBlank) isKeyChar).length_le
        have h3 := (List.dropWhile_sublist
          (l := (tail.dropWhile isBlank).dropWhile isKeyChar) isBlank).length_le
        rw [ha] at h3
        simp only [Option.some.injEq, Prod.mk.injEq] at h
        simp only [List.length_cons] at *
        rw [← h.2]
        omega
    · cases h
  · cases h

/-- A text with its placeholders filled with the texts of a context. -/
def fill (context : Node) (cs : List Char) : List Char :=
  match h : placeholder? cs with
  | some (key, rest) =>
    have := length_placeholder? h
    (((context.member? key).bind Node.string?).getD "").toList ++ fill context rest
  | none =>
    match cs with
    | [] => []
    | c :: rest => c :: fill context rest
termination_by cs.length

mutual

/-- Fills the placeholders in all texts below a value, members with a skipped name apart. -/
def fillNode (context : Node) (skip : List String) : Node → Node
  | .string s => .string (String.ofList (fill context s.toList))
  | .array items => .array (fillItems context skip items)
  | .object members => .object (fillMembers context skip members)
  | .null => .null
  | .bool b => .bool b
  | .number n => .number n

def fillItems (context : Node) (skip : List String) : List Node → List Node
  | [] => []
  | x :: xs => fillNode context skip x :: fillItems context skip xs

def fillMembers (context : Node) (skip : List String) :
    List (String × Node) → List (String × Node)
  | [] => []
  | (k, v) :: ms =>
    (k, if skip.contains k then v else fillNode context skip v) :: fillMembers context skip ms

end

/-- A context with the placeholders in its texts filled from its own members. -/
def fillContext (context : Node) (skip : List String) : Node := fillNode context skip context

end WidgetSchema.Template
