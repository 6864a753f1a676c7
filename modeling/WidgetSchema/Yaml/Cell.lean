-- The characters of a YAML text with their places. Line ends are made alike.
namespace WidgetSchema.Yaml

/-- A character with its place. -/
structure Cell where
  char : Char
  index : Nat
  line : Nat
  column : Nat
  /-- Whether only spaces stand before it on its line. -/
  leads : Bool
  deriving DecidableEq

namespace Cell

/-! ## Classes of characters -/

/-- The characters that a text may hold. -/
def isPrintable (c : Char) : Bool :=
  c = '\t' || c = '\n' || c = '\r' || (' ' ≤ c && c ≤ '~') || c = '\u0085' ||
    ('\u00a0' ≤ c && c ≤ '\ufffd') || '\ufffd' < c && c ≠ '\ufffe' && c ≠ '\uffff'

def isBreak (c : Char) : Bool := c = '\n' || c = '\u2028' || c = '\u2029'

def isSpace (c : Char) : Bool := c = ' ' || c = '\t'

/-- The line feed that stands for a line end, unless the line end has a meaning of its own. -/
def lineEnd (c : Char) : Char := if c = '\r' || c = '\u0085' then '\n' else c

/-- The cells of a text from a place on. -/
def place (index line column : Nat) (leads : Bool) : List Char → List Cell
  | [] => []
  | '\r' :: '\n' :: cs => ⟨'\n', index, line, column, leads⟩ :: place (index + 1) (line + 1) 0 true cs
  | c :: cs =>
    let c := lineEnd c
    ⟨c, index, line, column, leads⟩ ::
      if isBreak c then place (index + 1) (line + 1) 0 true cs
      else place (index + 1) line (column + 1) (leads && c = ' ') cs

/-- The cells of a text, unless it holds a character that none may hold. A mark for the byte
order at its start is left out. -/
def ofText? (s : String) : Option (List Cell) :=
  let cs := match s.toList with
    | '\ufeff' :: cs => cs
    | cs => cs
  if cs.all isPrintable then some (place 0 0 0 true cs) else none

/-! ## What comes next -/

/-- Whether a blank, a line end or the end of the text comes next. -/
def atBlank : List Cell → Bool
  | [] => true
  | c :: _ => isSpace c.char || isBreak c.char

/-- Whether the given mark of a document stands at the start of a line. -/
def atMark (mark : Char) : List Cell → Bool
  | a :: b :: c :: rest =>
    a.column = 0 && a.char = mark && b.char = mark && c.char = mark && atBlank rest
  | _ => false

/-- Whether a document starts or ends here. -/
def atDocument (cells : List Cell) : Bool := atMark '-' cells || atMark '.' cells

/-- What follows the blanks, the comments and the line ends. Tabs count as blanks where this is
said, and on later lines where they may stand at the start of a line. -/
def skip (tabsLead tabs comment : Bool) : List Cell → List Cell
  | [] => []
  | c :: rest =>
    if isBreak c.char then skip tabsLead tabsLead false rest
    else if comment then skip tabsLead tabs true rest
    else if c.char = ' ' || (c.char = '\t' && tabs) then skip tabsLead tabs false rest
    else if c.char = '#' then skip tabsLead tabs true rest
    else c :: rest

end Cell

end WidgetSchema.Yaml
