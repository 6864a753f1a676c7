-- Which control governs a place. A control's path is a pattern: its segments stand for
-- themselves, a wildcard segment stands for any run of decimal digits.
import WidgetSchema.Control.Basic
import WidgetSchema.Text.Blank
import WidgetSchema.Text.DecimalDigit
namespace WidgetSchema

/-! ## Patterns -/

namespace Pattern

/-- Whether one segment of a pattern accepts a segment of a place. -/
def acceptsSegment (pattern segment : String) : Bool :=
  if Path.isWildcard pattern then
    !segment.toList.isEmpty && segment.toList.all Text.isDecimalDigit
  else pattern == segment

def acceptsAll : List String → List String → Bool
  | [], [] => true
  | p :: ps, s :: ss => acceptsSegment p s && acceptsAll ps ss
  | _, _ => false

/-- Whether a pattern accepts a written place. Empty segments of the pattern do not count,
and a pattern without segments accepts the empty text only. -/
def accepts (pattern place : String) : Bool :=
  match Path.solidSegments pattern with
  | [] => place == ""
  | p :: ps => acceptsAll (p :: ps) (Text.split '.' place)

/-- How many segments of a pattern stand for themselves. -/
def literalCount (pattern : String) : Nat :=
  ((Path.solidSegments pattern).filter fun s => !Path.isWildcard s).length

end Pattern

/-! ## The governing control -/

namespace Control

/-- A control with a blank path governs nothing. -/
def isBound (c : Control) : Bool := !Text.isBlankText c.path

def governs (c : Control) (place : String) : Bool := c.isBound && Pattern.accepts c.path place

/-- A control outranks another by its score, and at equal scores by its literal segments. -/
def outranks (a b : Control) : Bool :=
  b.score < a.score ||
    (a.score == b.score && Pattern.literalCount b.path < Pattern.literalCount a.path)

/-- The better of two controls. The earlier one stays where neither outranks the other. -/
def pick : Option Control → Control → Option Control
  | none, c => some c
  | some best, c => if c.outranks best then some c else some best

/-- The control that governs a place: of all that match, the one none outranks. -/
def governing? (controls : List Control) (place : String) : Option Control :=
  (controls.filter (·.governs place)).foldl pick none

end Control

end WidgetSchema
