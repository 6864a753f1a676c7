-- The forms of style values that the editor writes: colours, lengths and backgrounds.
-- The checks look at the form of a value only, and refuse what is plainly something else.
import WidgetSchema.Text.Blank
import WidgetSchema.Text.DecimalDigit
import WidgetSchema.Text.Search
namespace WidgetSchema.Css

open Text

/-! ## Numbers and lengths -/

/-- What follows a number with an optional sign and fraction. -/
def afterNumber? (cs : List Char) : Option (List Char) :=
  let digits :=
    match cs with
    | '-' :: rest => rest
    | _ => cs
  if (digits.takeWhile isDecimalDigit).isEmpty then none
  else
    match digits.dropWhile isDecimalDigit with
    | '.' :: fraction =>
      if (fraction.takeWhile isDecimalDigit).isEmpty then some ('.' :: fraction)
      else some (fraction.dropWhile isDecimalDigit)
    | rest => some rest

/-- A number without an exponent and without a unit. -/
def isNumeric (s : String) : Bool := afterNumber? (trimChars s.toList) == some []

def units : List String :=
  ["px", "rem", "em", "%", "vh", "vw", "vmin", "vmax", "ch", "ex", "cm", "mm", "in", "pt", "pc"]

/-- What stands between the parentheses of a call of one of the named functions, when the
closing parenthesis is the last character. -/
def callBody? (fold : Char → Char) (names : List String) (cs : List Char) :
    Option (List Char) :=
  names.findSome? fun name =>
    match dropFolded fold name.toList cs with
    | some ('(' :: rest) => if rest.getLast? = some ')' then some rest.dropLast else none
    | _ => none

def lengthFunctions : List String := ["var", "calc", "clamp", "min", "max"]

/-- A zero, a number with a unit, or a call that computes a length. -/
def isLength (s : String) : Bool :=
  let cs := trimChars s.toList
  ["0", "0.0", "0.00"].contains (String.ofList cs) ||
    ((callBody? id lengthFunctions cs).any fun body => !body.isEmpty) ||
    (afterNumber? cs).any fun unit => units.contains (String.ofList unit)

/-! ## Colours -/

/-- How deep the parentheses of a text are nested after each character. A closing
parenthesis without an opening one ends the count. -/
def nesting? : Nat → List Char → Option Nat
  | depth, [] => some depth
  | depth, '(' :: cs => nesting? (depth + 1) cs
  | 0, ')' :: _ => none
  | depth + 1, ')' :: cs => nesting? depth cs
  | depth, _ :: cs => nesting? depth cs

/-- Every parenthesis has its partner. -/
def isBalanced (cs : List Char) : Bool := nesting? 0 cs == some 0

def isHexDigit (c : Char) : Bool :=
  isAsciiDigit c || ('a' ≤ c && c ≤ 'f') || ('A' ≤ c && c ≤ 'F')

/-- A number sign and three, four, six or eight hexadecimal digits. -/
def isHexColor : List Char → Bool
  | '#' :: digits => digits.all isHexDigit && [3, 4, 6, 8].contains digits.length
  | _ => false

def colorFunctions : List String :=
  ["rgb", "rgba", "hsl", "hsla", "hwb", "lab", "lch", "oklab", "oklch", "color", "color-mix",
    "light-dark"]

def isColorCall (cs : List Char) : Bool :=
  (callBody? foldCase colorFunctions cs).any fun body => !body.isEmpty && !body.contains '\n'

def isNameChar (c : Char) : Bool := isAsciiAlphanumeric c || c == '_' || c == '-'

/-- A reference to a custom property, with an optional fallback after a comma. -/
def isReference (cs : List Char) : Bool :=
  match dropWord "var(".toList cs with
  | none => false
  | some rest =>
    match rest.dropWhile isBlank with
    | '-' :: '-' :: name =>
      !(name.takeWhile isNameChar).isEmpty &&
        match (name.dropWhile isNameChar).dropWhile isBlank with
        | [')'] => true
        | ',' :: fallback => fallback.getLast? = some ')' && !fallback.dropLast.contains '\n'
        | _ => false
    | _ => false

def colorKeywords : List String :=
  ["transparent", "currentcolor", "inherit", "initial", "unset", "revert", "revert-layer"]

def namedColors : List String := [
  "aliceblue", "antiquewhite", "aqua", "aquamarine", "azure", "beige", "bisque", "black",
  "blanchedalmond", "blue", "blueviolet", "brown", "burlywood", "cadetblue", "chartreuse",
  "chocolate", "coral", "cornflowerblue", "cornsilk", "crimson", "cyan", "darkblue", "darkcyan",
  "darkgoldenrod", "darkgray", "darkgreen", "darkgrey", "darkkhaki", "darkmagenta",
  "darkolivegreen", "darkorange", "darkorchid", "darkred", "darksalmon", "darkseagreen",
  "darkslateblue", "darkslategray", "darkslategrey", "darkturquoise", "darkviolet", "deeppink",
  "deepskyblue", "dimgray", "dimgrey", "dodgerblue", "firebrick", "floralwhite", "forestgreen",
  "fuchsia", "gainsboro", "ghostwhite", "gold", "goldenrod", "gray", "green", "greenyellow",
  "grey", "honeydew", "hotpink", "indianred", "indigo", "ivory", "khaki", "lavender",
  "lavenderblush", "lawngreen", "lemonchiffon", "lightblue", "lightcoral", "lightcyan",
  "lightgoldenrodyellow", "lightgray", "lightgreen", "lightgrey", "lightpink", "lightsalmon",
  "lightseagreen", "lightskyblue", "lightslategray", "lightslategrey", "lightsteelblue",
  "lightyellow", "lime", "limegreen", "linen", "magenta", "maroon", "mediumaquamarine",
  "mediumblue", "mediumorchid", "mediumpurple", "mediumseagreen", "mediumslateblue",
  "mediumspringgreen", "mediumturquoise", "mediumvioletred", "midnightblue", "mintcream",
  "mistyrose", "moccasin", "navajowhite", "navy", "oldlace", "olive", "olivedrab", "orange",
  "orangered", "orchid", "palegoldenrod", "palegreen", "paleturquoise", "palevioletred",
  "papayawhip", "peachpuff", "peru", "pink", "plum", "powderblue", "purple", "rebeccapurple",
  "red", "rosybrown", "royalblue", "saddlebrown", "salmon", "sandybrown", "seagreen",
  "seashell", "sienna", "silver", "skyblue", "slateblue", "slategray", "slategrey", "snow",
  "springgreen", "steelblue", "tan", "teal", "thistle", "tomato", "turquoise", "violet",
  "wheat", "white", "whitesmoke", "yellow", "yellowgreen"]

def isColor (s : String) : Bool :=
  let cs := trimChars s.toList
  !cs.isEmpty && isBalanced cs &&
    (isHexColor cs || isColorCall cs || isReference cs ||
      let word := asciiLower (String.ofList cs)
      colorKeywords.contains word || namedColors.contains word)

/-! ## Backgrounds -/

/-- The parts of a background between blanks and commas. What stands in parentheses is not
cut. The part under way is kept in reverse. -/
def backgroundParts : (depth : Nat) → (part : List Char) → List Char → List (List Char)
  | _, [], [] => []
  | _, part, [] => [part.reverse]
  | depth, part, '(' :: cs => backgroundParts (depth + 1) ('(' :: part) cs
  | depth, part, ')' :: cs =>
    backgroundParts (depth - 1) (if part.isEmpty then part else ')' :: part) cs
  | depth, part, c :: cs =>
    if depth = 0 && (isBlank c || c = ',') then
      if part.isEmpty then backgroundParts depth [] cs
      else part.reverse :: backgroundParts depth [] cs
    else backgroundParts depth (c :: part) cs

/-- The parts of a background as texts. -/
def backgroundTokens (s : String) : List String :=
  (backgroundParts 0 [] s.toList).map String.ofList

def imageFunctions : List String :=
  ["linear-gradient", "radial-gradient", "conic-gradient", "repeating-linear-gradient",
    "repeating-radial-gradient", "repeating-conic-gradient", "url", "image-set",
    "-webkit-image-set", "image", "cross-fade", "element"]

def isImageCall (cs : List Char) : Bool :=
  (callBody? foldCase imageFunctions cs).any fun body => !body.contains '\n'

def backgroundKeywords : List String :=
  ["none", "repeat", "no-repeat", "repeat-x", "repeat-y", "space", "round", "center", "top",
    "bottom", "left", "right", "cover", "contain", "auto", "fixed", "scroll", "local",
    "border-box", "padding-box", "content-box", "text", "/"]

def isBackgroundToken (s : String) : Bool :=
  isColor s || isImageCall s.toList || backgroundKeywords.contains (asciiLower s) || isLength s

/-- A colour, or parts that are colours, images, keywords and lengths. -/
def isBackground (s : String) : Bool :=
  let cs := trimChars s.toList
  !cs.isEmpty && isBalanced cs &&
    (isColor (String.ofList cs) ||
      let tokens := backgroundTokens (String.ofList cs)
      !tokens.isEmpty && tokens.all isBackgroundToken)

end WidgetSchema.Css
