-- The fonts that widgets may use, with the weights and styles that each family has.
import WidgetSchema.Control.Basic
import WidgetSchema.Decimal.Reading
import WidgetSchema.Text.Blank
import WidgetSchema.Text.DecimalDigit
namespace WidgetSchema.Font

open Text

/-- The families with their axes. After `wght@` come the weights, for each style a number or
a range behind the last comma. -/
def catalogue : List (String × String) := [
  ("Cookie", "Cookie"),
  ("Cormorant Garamond", "Cormorant+Garamond:ital,wght@0,300..700;1,300..700"),
  ("Crimson Text", "Crimson+Text:ital,wght@0,400;0,600;0,700;1,400;1,600;1,700"),
  ("Gabriela", "Gabriela"),
  ("Homemade Apple", "Homemade+Apple"),
  ("Inter", "Inter:ital,opsz,wght@0,14..32,100..900;1,14..32,100..900"),
  ("Lato", "Lato:ital,wght@0,100;0,300;0,400;0,700;0,900;1,100;1,300;1,400;1,700;1,900"),
  ("Libre Baskerville", "Libre+Baskerville:ital,wght@0,400..700;1,400..700"),
  ("Lora", "Lora:ital,wght@0,400..700;1,400..700"),
  ("Manrope", "Manrope:wght@200..800"),
  ("Michroma", "Michroma"),
  ("Montserrat", "Montserrat:ital,wght@0,100..900;1,100..900"),
  ("Open Sans", "Open+Sans:ital,wght@0,300..800;1,300..800"),
  ("Permanent Marker", "Permanent+Marker"),
  ("Playfair Display", "Playfair+Display:ital,wght@0,400..900;1,400..900"),
  ("Raleway", "Raleway:ital,wght@0,100..900;1,100..900"),
  ("Roboto", "Roboto:ital,wght@0,100..900;1,100..900"),
  ("Shadows Into Light", "Shadows+Into+Light")]

def axes? (family : String) : Option String := catalogue.lookup family

def isKnown (family : String) : Bool := (axes? family).isSome

/-! ## Weights -/

/-- A number of at most 32 bits, written with digits of ASCII. -/
def word? (cs : List Char) : Option Nat :=
  if cs.isEmpty || !cs.all isAsciiDigit then none
  else
    let n := Decimal.ofDigits cs
    if n < Nat.pow 2 32 then some n else none

/-- As `word?`, with a plus sign allowed. -/
def signedWord? : List Char → Option Nat
  | '+' :: cs => word? cs
  | cs => word? cs

/-- The two ends of the first range in a text: two runs of decimal digits with two points
between them. -/
def range? (cs : List Char) : Option (List Char × List Char) :=
  match cs with
  | [] => none
  | c :: rest =>
    if isDecimalDigit c then
      match rest.dropWhile isDecimalDigit with
      | '.' :: '.' :: d :: after =>
        if isDecimalDigit d then
          some (c :: rest.takeWhile isDecimalDigit, d :: after.takeWhile isDecimalDigit)
        else range? rest
      | _ => range? rest
    else range? rest

/-- The hundred at or above a weight, in words of 32 bits. -/
def roundUp (n : Nat) : Nat := (n + 99) / 100 * 100 % Nat.pow 2 32

/-- The hundred at or below a weight. -/
def roundDown (n : Nat) : Nat := n / 100 * 100

/-- The hundreds between two weights. -/
def hundreds (a b : Nat) : List Nat :=
  let first := roundUp (min a b)
  let last := roundDown (max a b)
  if last < first then [] else List.range' first ((last - first) / 100 + 1) 100

/-- The weights that one entry of the axes adds. -/
def entryWeights (entry : String) : List Nat :=
  let last := ((splitChars ',' entry.toList).getLast?).getD []
  match range? last with
  | some (a, b) =>
    match word? a, word? b with
    | some a, some b => hundreds a b
    | _, _ => []
  | none => (signedWord? (trimChars last)).toList

/-- Adds a weight to an ascending list, unless it is there. -/
def insertWeight (w : Nat) : List Nat → List Nat
  | [] => [w]
  | v :: vs => if w < v then w :: v :: vs else if w = v then v :: vs else v :: insertWeight w vs

/-- The weights of a list in ascending order. They are put in from the last one on, so that the
hundreds of a range are each put in front. -/
def ascending (ws : List Nat) : List Nat := ws.foldr insertWeight []

/-- The weights that axes give, in ascending order. Without any the regular weight is left. -/
def weightValues (axes : String) : List Nat :=
  match cutAt "wght@".toList axes.toList with
  | none => [400]
  | some (_, list) =>
    let entries := ((splitChars ';' list).map fun e => String.ofList (trimChars e)).filter (· ≠ "")
    match ascending (entries.flatMap entryWeights) with
    | [] => [400]
    | w :: ws => w :: ws

def weights (axes : String) : List String := (weightValues axes).map toString

/-- The weights of a family; none where it is unknown. -/
def weightsOf (family : String) : List String := ((axes? family).map weights).getD []

/-! ## Styles -/

def stylesOf (family : String) : List String :=
  match axes? family with
  | none => []
  | some axes =>
    if contains axes "ital," || contains axes "ital@" then ["normal", "italic"] else ["normal"]

/-! ## Choices -/

def weightNames : List (String × String) :=
  [("100", "Thin"), ("200", "Extra light"), ("300", "Light"), ("400", "Regular"),
    ("500", "Medium"), ("600", "Semi-bold"), ("700", "Bold"), ("800", "Extra bold"),
    ("900", "Black")]

def weightChoice (w : String) : Choice :=
  match weightNames.lookup w with
  | some name => { label := name ++ " (" ++ w ++ ")", value := w }
  | none => { label := w, value := w }

def weightChoices (ws : List String) : List Choice := ws.map weightChoice

/-- A choice for every weight that a family of the catalogue has. -/
def allWeightChoices : List Choice :=
  weightChoices ((ascending (catalogue.flatMap fun (_, axes) => weightValues axes)).map toString)

end WidgetSchema.Font
