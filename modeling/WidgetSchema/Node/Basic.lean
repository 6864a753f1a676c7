-- Widget data as trees: the values that JSON text can write.
import WidgetSchema.Decimal.Notation
import WidgetSchema.Node.Members
import WidgetSchema.Text.Search
namespace WidgetSchema

/-! ## Numbers -/

/-- A stored number. Whole numbers of up to 64 bits, with or without a sign, stay exact; all
others are finite floating-point numbers, so `1` and `1.0` are different numbers. -/
inductive Number where
  | int (i : Int) (fits : -Nat.pow 2 63 ≤ i ∧ i < Nat.pow 2 64)
  | float (x : Float) (finite : x.isFinite = true)
  deriving DecidableEq

namespace Number

/-- The exact number, where it has at most 64 bits. -/
def ofInt? (i : Int) : Option Number :=
  if h : -Nat.pow 2 63 ≤ i ∧ i < Nat.pow 2 64 then some (.int i h) else none

def ofFloat? (x : Float) : Option Number :=
  if h : x.isFinite = true then some (.float x h) else none

def toFloat : Number → Float
  | int i _ => Float.ofInt i
  | float x _ => x

def text : Number → String
  | int i _ => toString i
  | float x _ => Decimal.stored.text x

end Number

/-- The whole number that a finite floating-point number is, if it is one. -/
def wholeValue? (x : Float) : Option Int :=
  if x.isFinite then
    let (m, q) := Decimal.magnitude x
    let signed (n : Nat) : Int := if Decimal.isNegative x then -n else n
    if 0 ≤ q then some (signed (m * Nat.pow 2 q.toNat))
    else if m % Nat.pow 2 q.natAbs = 0 then some (signed (m / Nat.pow 2 q.natAbs))
    else none
  else none

/-! ## Trees -/

/-- A tree of data. -/
inductive Node where
  | null
  | bool (b : Bool)
  | number (n : Number)
  | string (s : String)
  | array (items : List Node)
  | object (members : List (String × Node))

namespace Node

instance : Inhabited Node := ⟨null⟩

mutual

def decEq : (a b : Node) → Decidable (a = b)
  | .null, .null => isTrue rfl
  | .bool a, .bool b => if h : a = b then isTrue (h ▸ rfl) else isFalse (by simpa using h)
  | .number a, .number b => if h : a = b then isTrue (h ▸ rfl) else isFalse (by simpa using h)
  | .string a, .string b => if h : a = b then isTrue (h ▸ rfl) else isFalse (by simpa using h)
  | .array a, .array b =>
    match decEqItems a b with
    | isTrue h => isTrue (h ▸ rfl)
    | isFalse h => isFalse (by simpa using h)
  | .object a, .object b =>
    match decEqMembers a b with
    | isTrue h => isTrue (h ▸ rfl)
    | isFalse h => isFalse (by simpa using h)
  | .null, .bool _ | .null, .number _ | .null, .string _ | .null, .array _ | .null, .object _
  | .bool _, .null | .bool _, .number _ | .bool _, .string _ | .bool _, .array _
  | .bool _, .object _
  | .number _, .null | .number _, .bool _ | .number _, .string _ | .number _, .array _
  | .number _, .object _
  | .string _, .null | .string _, .bool _ | .string _, .number _ | .string _, .array _
  | .string _, .object _
  | .array _, .null | .array _, .bool _ | .array _, .number _ | .array _, .string _
  | .array _, .object _
  | .object _, .null | .object _, .bool _ | .object _, .number _ | .object _, .string _
  | .object _, .array _ => isFalse nofun

def decEqItems : (a b : List Node) → Decidable (a = b)
  | [], [] => isTrue rfl
  | [], _ :: _ => isFalse nofun
  | _ :: _, [] => isFalse nofun
  | x :: xs, y :: ys =>
    match decEq x y, decEqItems xs ys with
    | isTrue h, isTrue hs => isTrue (h ▸ hs ▸ rfl)
    | isFalse h, _ => isFalse fun e => h (List.cons.inj e).1
    | _, isFalse hs => isFalse fun e => hs (List.cons.inj e).2

def decEqMembers : (a b : List (String × Node)) → Decidable (a = b)
  | [], [] => isTrue rfl
  | [], _ :: _ => isFalse nofun
  | _ :: _, [] => isFalse nofun
  | (j, x) :: xs, (k, y) :: ys =>
    if hk : j = k then
      match decEq x y, decEqMembers xs ys with
      | isTrue h, isTrue hs => isTrue (hk ▸ h ▸ hs ▸ rfl)
      | isFalse h, _ => isFalse fun e => h (Prod.mk.inj (List.cons.inj e).1).2
      | _, isFalse hs => isFalse fun e => hs (List.cons.inj e).2
    else isFalse fun e => hk (Prod.mk.inj (List.cons.inj e).1).1

end

instance : DecidableEq Node := decEq

/-! ## Reading a tree -/

def bool? : Node → Option Bool
  | bool b => some b
  | _ => none

def float? : Node → Option Float
  | number n => some n.toFloat
  | _ => none

def string? : Node → Option String
  | string s => some s
  | _ => none

def array? : Node → Option (List Node)
  | array items => some items
  | _ => none

def object? : Node → Option (Members Node)
  | object members => some members
  | _ => none

def isObject : Node → Bool
  | object _ => true
  | _ => false

def isArray : Node → Bool
  | array _ => true
  | _ => false

def isNull : Node → Bool
  | null => true
  | _ => false

/-- The member with the given name. Only objects have members. -/
def member? (t : Node) (key : String) : Option Node :=
  t.object?.bind (Members.get? key)

/-- The name of the kind of value, as messages give it. -/
def typeName : Node → String
  | null => "null"
  | bool _ => "boolean"
  | number _ => "number"
  | string _ => "string"
  | array _ => "array"
  | object _ => "object"

/-! ## Building a tree -/

/-- An object with the given members. Of two members with one name the later counts. -/
def ofPairs (pairs : List (String × Node)) : Node := object (Members.ofList pairs)

/-- The number nearest in form to a floating-point result: whole numbers below `2^53` are
stored exactly, and what is not finite is stored as null. -/
def ofFloat (x : Float) : Node :=
  match wholeValue? x with
  | some i =>
    if i.natAbs < Nat.pow 2 53 then ((Number.ofInt? i).map number).getD null
    else ((Number.ofFloat? x).map number).getD null
  | none => ((Number.ofFloat? x).map number).getD null

mutual

/-- The tree with the members of every object in the order of their names. -/
def sorted : Node → Node
  | array items => array (sortedItems items)
  | object members => object (Members.ofList (sortedMembers members))
  | null => null
  | bool b => bool b
  | number n => number n
  | string s => string s

def sortedItems : List Node → List Node
  | [] => []
  | x :: xs => sorted x :: sortedItems xs

def sortedMembers : List (String × Node) → List (String × Node)
  | [] => []
  | (k, v) :: ms => (k, sorted v) :: sortedMembers ms

end

def ofInt (i : Int) : Node := ((Number.ofInt? i).map number).getD null

def ofNat (n : Nat) : Node := ofInt n

end Node

end WidgetSchema
