-- YAML texts: mappings, sequences and scalars, laid out by indentation or in brackets. Anchors,
-- tags, block scalars and explicit keys are not read.
import WidgetSchema.Yaml.Scalar
namespace WidgetSchema

/-- A value of a YAML text. -/
inductive Yaml where
  /-- A text, and whether it is written without quotes. -/
  | scalar (text : String) (plain : Bool)
  | sequence (items : List Yaml)
  | mapping (members : List (Yaml × Yaml))

namespace Yaml

open Cell

/-- The value that is left out. -/
def empty : Yaml := scalar "" true

/-- The longest key, with the blanks behind it. -/
def maxKeyLength : Nat := 1024

/-- Whether a colon belongs to a key that starts at the given cell. -/
def belongs (key colon : Cell) : Bool :=
  colon.line = key.line && colon.index ≤ key.index + maxKeyLength

/-! ## Values in brackets

The fuel bounds the number of steps. Every second step at the latest reads a character. -/

/-- A value in quotes or without them. -/
def scalarAt? (flow : Bool) (least : Nat) : List Cell → Option (Yaml × List Cell)
  | [] => none
  | c :: rest =>
    let read : Option (List Char × List Cell) :=
      if c.char = '"' then double .none [] rest
      else if c.char = '\'' then single .none [] rest
      else if startsPlain flow (c :: rest) then plain flow least .none [] (c :: rest)
      else none
    let isPlain := c.char ≠ '"' && c.char ≠ '\''
    read.map fun (cs, rest) => (scalar (String.ofList cs) isPlain, rest)

mutual

/-- A value in a flow. -/
def flowNode (fuel least : Nat) (cells : List Cell) : Option (Yaml × List Cell) :=
  match fuel, cells with
  | 0, _ | _, [] => none
  | fuel + 1, c :: rest =>
    if atDocument cells then none
    else if c.char = '[' then flowItems fuel least [] (skip true true false rest)
    else if c.char = '\x7b' then flowMembers fuel least [] (skip true true false rest)
    else scalarAt? true least cells

/-- A value in a flow, with the value behind its colon if there is one. -/
def flowEntry (fuel least : Nat) (cells : List Cell) :
    Option (Yaml × Option Yaml × List Cell) :=
  match fuel, cells with
  | 0, _ | _, [] => none
  | fuel + 1, c :: _ => do
    let (key, after) ← flowNode fuel least cells
    match skip true true false after with
    | d :: rest =>
      if d.char = ':' then
        if belongs c d then
          let next := skip true true false rest
          match next with
          | [] => none
          | e :: _ =>
            if e.char = ',' || e.char = ']' || e.char = '\x7d' then some (key, some empty, next)
            else do
              let (value, after) ← flowNode fuel least next
              return (key, some value, skip true true false after)
        else none
      else some (key, none, d :: rest)
    | [] => none

/-- The items of a flow up to its closing bracket. A pair is a mapping of its own. -/
def flowItems (fuel least : Nat) (done : List Yaml) (cells : List Cell) :
    Option (Yaml × List Cell) :=
  match fuel, cells with
  | 0, _ | _, [] => none
  | fuel + 1, c :: rest =>
    if c.char = ']' then some (sequence done.reverse, rest)
    else do
      let (key, value, after) ← flowEntry fuel least cells
      let item := match value with
        | some v => mapping [(key, v)]
        | none => key
      match after with
      | d :: rest =>
        if d.char = ',' then flowItems fuel least (item :: done) (skip true true false rest)
        else if d.char = ']' then some (sequence (item :: done).reverse, rest)
        else none
      | [] => none

/-- The members of a flow up to its closing brace. -/
def flowMembers (fuel least : Nat) (done : List (Yaml × Yaml)) (cells : List Cell) :
    Option (Yaml × List Cell) :=
  match fuel, cells with
  | 0, _ | _, [] => none
  | fuel + 1, c :: rest =>
    if c.char = '\x7d' then some (mapping done.reverse, rest)
    else do
      let (key, value, after) ← flowEntry fuel least cells
      let member := (key, value.getD empty)
      match after with
      | d :: rest =>
        if d.char = ',' then flowMembers fuel least (member :: done) (skip true true false rest)
        else if d.char = '\x7d' then some (mapping (member :: done).reverse, rest)
        else none
      | [] => none

end

/-! ## Values by indentation -/

/-- A scalar, or a value in brackets. -/
def atom (fuel least : Nat) (cells : List Cell) : Option (Yaml × List Cell) :=
  match cells with
  | [] => none
  | c :: _ =>
    if c.char = '[' || c.char = '\x7b' then flowNode fuel least cells
    else scalarAt? false least cells

def startsItem : List Cell → Bool
  | c :: rest => c.char = '-' && atBlank rest
  | [] => false

mutual

/-- A value whose lines start at the given column or behind it, with the next cell that belongs
to something else. Only at the start of a line, or of an item, it may be a mapping or a
sequence. -/
def blockNode (fuel least : Nat) (collections : Bool) (cells : List Cell) :
    Option (Yaml × List Cell) :=
  match fuel, cells with
  | 0, _ | _, [] => none
  | fuel + 1, c :: _ =>
    if atDocument cells then none
    else if startsItem cells then
      if collections then blockItems fuel c.column false [] cells else none
    else do
      let (node, after) ← atom fuel least cells
      let next := skip false true false after
      match next with
      | [] => some (node, [])
      | d :: rest =>
        if d.char = ':' && atBlank rest then
          if collections && belongs c d then blockMembers fuel c.column [] node rest else none
        else if d.leads then some (node, next)
        else none

/-- The members of a mapping from the colon of one of them on. -/
def blockMembers (fuel column : Nat) (done : List (Yaml × Yaml)) (key : Yaml)
    (cells : List Cell) : Option (Yaml × List Cell) :=
  match fuel with
  | 0 => none
  | fuel + 1 => do
    let next := skip false true false cells
    let (value, after) ←
      match next with
      | [] => some (empty, [])
      | d :: _ =>
        if atDocument next then some (empty, next)
        else if !d.leads then blockNode fuel (column + 1) false next
        else if column < d.column then blockNode fuel (column + 1) true next
        else if d.column = column && startsItem next then blockItems fuel column true [] next
        else some (empty, next)
    let done := (key, value) :: done
    match after with
    | [] => some (mapping done.reverse, [])
    | d :: _ =>
      if atDocument after || d.column < column then some (mapping done.reverse, after)
      else if d.column = column then do
        let (key, afterKey) ← atom fuel (column + 1) after
        match skip false true false afterKey with
        | e :: rest =>
          if e.char = ':' && atBlank rest && belongs d e then
            blockMembers fuel column done key rest
          else none
        | [] => none
      else none

/-- The items of a sequence from the dash of one of them on. In a mapping the dashes may stand
below the keys. -/
def blockItems (fuel column : Nat) (belowKeys : Bool) (done : List Yaml) (cells : List Cell) :
    Option (Yaml × List Cell) :=
  match fuel, cells with
  | 0, _ | _, [] => none
  | fuel + 1, _ :: rest => do
    let next := skip false false false rest
    let (item, after) ←
      match next with
      | [] => some (empty, [])
      | d :: _ =>
        if atDocument next || (d.leads && d.column ≤ column) then some (empty, next)
        else blockNode fuel (column + 1) true next
    let done := item :: done
    match after with
    | [] => some (sequence done.reverse, [])
    | d :: _ =>
      if atDocument after || d.column < column then some (sequence done.reverse, after)
      else if d.column = column then
        if startsItem after then blockItems fuel column belowKeys done after
        else if belowKeys then some (sequence done.reverse, after)
        else none
      else none

end

/-! ## Documents -/

/-- The value of the one document in a text. -/
def ofText? (s : String) : Option Yaml := do
  let cells ← Cell.ofText? s
  let start := skip false false false cells
  let body := if atMark '-' start then skip false true false (start.drop 3) else start
  match body with
  | [] => some empty
  | c :: _ =>
    let (node, after) ← blockNode (4 * cells.length + 4) 0 c.leads body
    let rest := if atMark '.' after then skip false true false (after.drop 3) else after
    if rest.isEmpty then some node else none

end Yaml

end WidgetSchema
