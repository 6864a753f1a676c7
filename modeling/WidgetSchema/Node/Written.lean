-- Values as JSON text writes them: members in their order, also under names that come twice,
-- and numbers and strings that have no value. Data that is ignored is only read this far.
import WidgetSchema.Node.Token
namespace WidgetSchema

/-- A written value. -/
inductive Written where
  | null
  | bool (b : Bool)
  | number (n : Option Number)
  | string (s : Option String)
  | array (items : List Written)
  | object (members : List (Option String × Written))

namespace Written

instance : Inhabited Written := ⟨null⟩

/-! ## Reading text

The lexemes are fed one by one to a machine that keeps the containers still open. The text is
a value when the machine ends with one and with no container open. -/

/-- A container that is still open, with what it holds so far in reverse. An object waits for
the value of its last name. -/
inductive OpenContainer where
  | array (done : List Written)
  | object (done : List (Option String × Written)) (name : Option String)

/-- What may come next. -/
inductive ReadState where
  | value (outer : List OpenContainer)
  | firstItem (outer : List OpenContainer)
  | firstName (outer : List OpenContainer)
  | name (done : List (Option String × Written)) (outer : List OpenContainer)
  | colon (done : List (Option String × Written)) (name : Option String)
      (outer : List OpenContainer)
  | after (w : Written) (outer : List OpenContainer)

namespace ReadState

/-- A lexeme where a value has to start. -/
def startValue (outer : List OpenContainer) : Token → Option ReadState
  | .null => some (after .null outer)
  | .bool b => some (after (.bool b) outer)
  | .number n => some (after (.number n) outer)
  | .string s => some (after (.string s) outer)
  | .openArray => some (firstItem outer)
  | .openObject => some (firstName outer)
  | _ => none

def step : ReadState → Token → Option ReadState
  | value outer, t => startValue outer t
  | firstItem outer, .closeArray => some (after (.array []) outer)
  | firstItem outer, t => startValue (.array [] :: outer) t
  | firstName outer, .closeObject => some (after (.object []) outer)
  | firstName outer, .string k => some (colon [] k outer)
  | firstName _, _ => none
  | name done outer, .string k => some (colon done k outer)
  | name _ _, _ => none
  | colon done k outer, .colon => some (value (.object done k :: outer))
  | colon _ _ _, _ => none
  | after w (.array done :: outer), .comma => some (value (.array (w :: done) :: outer))
  | after w (.array done :: outer), .closeArray =>
    some (after (.array (w :: done).reverse) outer)
  | after w (.object done k :: outer), .comma => some (name ((k, w) :: done) outer)
  | after w (.object done k :: outer), .closeObject =>
    some (after (.object ((k, w) :: done).reverse) outer)
  | after _ _, _ => none

def result? : ReadState → Option Written
  | after w [] => some w
  | _ => none

end ReadState

/-- The value that a text writes. -/
def ofText? (s : String) : Option Written := do
  let tokens ← Token.all? s.toList
  let final ← tokens.foldlM ReadState.step (.value [])
  final.result?

/-! ## Values as trees -/

mutual

/-- The tree that a written value stands for, with at most `depth` containers inside each
other. Of two members with one name the later counts. -/
def toNode? (depth : Nat) : Written → Option Node
  | null => some .null
  | bool b => some (.bool b)
  | number n => n.map .number
  | string s => s.map .string
  | array items =>
    match depth with
    | 0 => none
    | depth + 1 => (itemsToNodes? depth items).map .array
  | object members =>
    match depth with
    | 0 => none
    | depth + 1 => (membersToNodes? depth members).map fun ms => .object (Members.ofList ms)

def itemsToNodes? (depth : Nat) : List Written → Option (List Node)
  | [] => some []
  | w :: ws =>
    match toNode? depth w, itemsToNodes? depth ws with
    | some x, some xs => some (x :: xs)
    | _, _ => none

def membersToNodes? (depth : Nat) :
    List (Option String × Written) → Option (List (String × Node))
  | [] => some []
  | (k, w) :: ws =>
    match k, toNode? depth w, membersToNodes? depth ws with
    | some k, some x, some xs => some ((k, x) :: xs)
    | _, _, _ => none

end

mutual

/-- A tree as it is written. -/
def ofNode : Node → Written
  | .null => null
  | .bool b => bool b
  | .number n => number (some n)
  | .string s => string (some s)
  | .array items => array (ofNodes items)
  | .object members => object (ofMembers members)

def ofNodes : List Node → List Written
  | [] => []
  | x :: xs => ofNode x :: ofNodes xs

def ofMembers : List (String × Node) → List (Option String × Written)
  | [] => []
  | (k, x) :: xs => (some k, ofNode x) :: ofMembers xs

end

/-- At most this many containers may stand inside each other. -/
def maxDepth : Nat := 127

end Written

/-- The tree that a text writes. -/
def Node.ofText? (s : String) : Option Node :=
  (Written.ofText? s).bind (Written.toNode? Written.maxDepth)

end WidgetSchema
