-- Trees as JSON text: compact, or laid out over several lines.
import WidgetSchema.Node.Basic
namespace WidgetSchema.Node

/-! ## Strings -/

def hexDigit (n : Nat) : Char := (Nat.digitChar n).toLower

/-- A character as it stands in a string: quotes, backslashes and control characters are
escaped, everything else is written as it is. -/
def escapeChar (c : Char) : List Char :=
  if c = '"' then ['\\', '"']
  else if c = '\\' then ['\\', '\\']
  else if c = '\x08' then ['\\', 'b']
  else if c = '\x0c' then ['\\', 'f']
  else if c = '\n' then ['\\', 'n']
  else if c = '\r' then ['\\', 'r']
  else if c = '\t' then ['\\', 't']
  else if c.toNat < 0x20 then
    ['\\', 'u', '0', '0', hexDigit (c.toNat / 16), hexDigit (c.toNat % 16)]
  else [c]

def quoted (s : String) : String := String.ofList ('"' :: s.toList.flatMap escapeChar ++ ['"'])

/-! ## Compact text -/

mutual

/-- The compact text of a tree, with the members of objects in their order. -/
def text : Node → String
  | null => "null"
  | bool b => if b then "true" else "false"
  | number n => n.text
  | string s => quoted s
  | array items => "[" ++ itemsText items ++ "]"
  | object members => "\x7b" ++ membersText members ++ "\x7d"

def itemsText : List Node → String
  | [] => ""
  | [x] => text x
  | x :: y :: xs => text x ++ "," ++ itemsText (y :: xs)

def membersText : List (String × Node) → String
  | [] => ""
  | [(k, v)] => quoted k ++ ":" ++ text v
  | (k, v) :: m :: ms => quoted k ++ ":" ++ text v ++ "," ++ membersText (m :: ms)

end

/-- The text that a tree leaves in markup. -/
def display : Node → String
  | null => ""
  | bool b => if b then "true" else "false"
  | number n => n.text
  | string s => s
  | array items => text (array items)
  | object members => text (object members)

/-! ## Text over several lines -/

def indentation (depth : Nat) : String := String.ofList (List.replicate (2 * depth) ' ')

mutual

/-- The text of a tree with every item and member on a line of its own. -/
def prettyAt (depth : Nat) : Node → String
  | array [] => "[]"
  | array (x :: xs) => "[\n" ++ prettyItems (depth + 1) (x :: xs) ++ indentation depth ++ "]"
  | object [] => "\x7b\x7d"
  | object (m :: ms) =>
    "\x7b\n" ++ prettyMembers (depth + 1) (m :: ms) ++ indentation depth ++ "\x7d"
  | null => "null"
  | bool b => if b then "true" else "false"
  | number n => n.text
  | string s => quoted s

def prettyItems (depth : Nat) : List Node → String
  | [] => ""
  | x :: xs =>
    indentation depth ++ prettyAt depth x ++ (if xs.isEmpty then "\n" else ",\n") ++
      prettyItems depth xs

def prettyMembers (depth : Nat) : List (String × Node) → String
  | [] => ""
  | (k, v) :: ms =>
    indentation depth ++ quoted k ++ ": " ++ prettyAt depth v ++
      (if ms.isEmpty then "\n" else ",\n") ++ prettyMembers depth ms

end

def pretty (t : Node) : String := prettyAt 0 t

end WidgetSchema.Node
