-- Scalars: plain ones, and ones in quotes. Over several lines a single line end counts as a
-- blank, and of several line ends the first does not count.
import WidgetSchema.Yaml.Cell
namespace WidgetSchema.Yaml

open Cell

/-- The blanks and line ends that have been passed over. They count once something follows. -/
inductive Gap where
  | none
  | blanks (cs : List Char)
  /-- A line end, if it was not escaped, and the line ends behind it. -/
  | breaks (first : Option Char) (later : List Char)
  deriving DecidableEq

namespace Gap

def isNone : Gap → Bool
  | none => true
  | _ => false

def addBlank : Gap → Char → Gap
  | none, c => blanks [c]
  | blanks cs, c => blanks (cs ++ [c])
  | breaks first later, _ => breaks first later

def addBreak : Gap → Char → Gap
  | breaks first later, c => breaks first (later ++ [c])
  | _, c => breaks (some c) []

/-- What a gap stands for. -/
def text : Gap → List Char
  | none => []
  | blanks cs => cs
  | breaks (some '\n') [] => [' ']
  | breaks (some '\n') later => later
  | breaks (some c) later => c :: later
  | breaks Option.none later => later

def startsLine : Gap → Bool
  | breaks _ _ => true
  | _ => false

end Gap

/-! ## Plain scalars -/

def isFlowMark (c : Char) : Bool :=
  c = ',' || c = '[' || c = ']' || c = '\x7b' || c = '\x7d'

/-- Characters that no plain scalar starts with. -/
def indicators : List Char :=
  [',', '[', ']', '\x7b', '\x7d', '#', '&', '*', '!', '|', '>', '\'', '"', '%', '@', '`']

/-- Whether a plain scalar can start here. -/
def startsPlain (flow : Bool) : List Cell → Bool
  | [] => false
  | c :: rest =>
    if c.char = '-' then !atBlank rest
    else if c.char = '?' || c.char = ':' then !flow && !atBlank rest
    else !atBlank (c :: rest) && !indicators.contains c.char

/-- Whether a colon in a flow stands before something that cannot follow it. -/
def strayColon (c : Cell) : List Cell → Bool
  | d :: _ => c.char = ':' && (isFlowMark d.char || d.char = '?')
  | [] => false

/-- Reads a plain scalar, and what follows it. Outside of flows its later lines start at the
given column or behind it. -/
def plain (flow : Bool) (least : Nat) (gap : Gap) (done : List Char) :
    List Cell → Option (List Char × List Cell)
  | [] => some (done, [])
  | c :: rest =>
    if isSpace c.char then
      if gap.startsLine && c.char = '\t' && c.column < least then none
      else plain flow least (gap.addBlank c.char) done rest
    else if isBreak c.char then plain flow least (gap.addBreak c.char) done rest
    else if !gap.isNone && (c.char = '#' || atDocument (c :: rest)) then some (done, c :: rest)
    else if gap.startsLine && !flow && c.column < least then some (done, c :: rest)
    else if flow && strayColon c rest then none
    else if (c.char = ':' && atBlank rest) || (flow && isFlowMark c.char) then
      some (done, c :: rest)
    else plain flow least .none (done ++ gap.text ++ [c.char]) rest

/-! ## Quoted scalars -/

/-- Reads a scalar behind its opening single quote. A doubled quote stands for one. -/
def single (gap : Gap) (done : List Char) : List Cell → Option (List Char × List Cell)
  | [] => none
  | [c] => if c.char = '\'' then some (done ++ gap.text, []) else none
  | c :: d :: rest =>
    if atDocument (c :: d :: rest) then none
    else if isSpace c.char then single (gap.addBlank c.char) done (d :: rest)
    else if isBreak c.char then single (gap.addBreak c.char) done (d :: rest)
    else if c.char = '\'' then
      if d.char = '\'' then single .none (done ++ gap.text ++ ['\'']) rest
      else some (done ++ gap.text, d :: rest)
    else single .none (done ++ gap.text ++ [c.char]) (d :: rest)

/-- The character that a letter behind a backslash stands for. -/
def escape? : Char → Option Char
  | '0' => some '\x00'
  | 'a' => some '\x07'
  | 'b' => some '\x08'
  | 't' | '\t' => some '\t'
  | 'n' => some '\n'
  | 'v' => some '\x0b'
  | 'f' => some '\x0c'
  | 'r' => some '\r'
  | 'e' => some '\x1b'
  | ' ' => some ' '
  | '"' => some '"'
  | '/' => some '/'
  | '\\' => some '\\'
  | 'N' => some '\u0085'
  | '_' => some '\u00a0'
  | 'L' => some '\u2028'
  | 'P' => some '\u2029'
  | _ => none

/-- How many digits follow a letter behind a backslash. -/
def escapeDigits? : Char → Option Nat
  | 'x' => some 2
  | 'u' => some 4
  | 'U' => some 8
  | _ => none

def hexValue? (c : Char) : Option Nat :=
  if '0' ≤ c && c ≤ '9' then some (c.toNat - '0'.toNat)
  else if 'a' ≤ c && c ≤ 'f' then some (c.toNat - 'a'.toNat + 10)
  else if 'A' ≤ c && c ≤ 'F' then some (c.toNat - 'A'.toNat + 10)
  else none

/-- The character with the number that the given digits write. -/
def charOfHex? (digits : List Cell) : Option Char := do
  let values ← digits.mapM fun d => hexValue? d.char
  let n := values.foldl (fun n v => 16 * n + v) 0
  if n.isValidChar then some (.ofNat n) else none

/-- Reads a scalar behind its opening double quote. -/
def double (gap : Gap) (done : List Char) (cells : List Cell) :
    Option (List Char × List Cell) :=
  match cells with
  | [] => none
  | c :: rest =>
    if atDocument (c :: rest) then none
    else if isSpace c.char then double (gap.addBlank c.char) done rest
    else if isBreak c.char then double (gap.addBreak c.char) done rest
    else if c.char = '"' then some (done ++ gap.text, rest)
    else if c.char = '\\' then
      match rest with
      | [] => none
      | e :: rest =>
        if isBreak e.char then double (.breaks none []) (done ++ gap.text) rest
        else
          match escape? e.char, escapeDigits? e.char with
          | some d, _ => double .none (done ++ gap.text ++ [d]) rest
          | none, some n =>
            if rest.length < n then none
            else
              match charOfHex? (rest.take n) with
              | some d => double .none (done ++ gap.text ++ [d]) (rest.drop n)
              | none => none
          | none, none => none
    else double .none (done ++ gap.text ++ [c.char]) rest
termination_by cells.length
decreasing_by
  all_goals
    simp only [List.length_cons, List.length_drop]
    omega

end WidgetSchema.Yaml
