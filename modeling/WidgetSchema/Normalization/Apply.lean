-- Repairing the data of a widget by its rules.
import WidgetSchema.Normalization.Rules
import WidgetSchema.Text.Slug
namespace WidgetSchema.Normalization

/-! ## Places -/

/-- A place below another one, named by further written segments. -/
def below (p : Path) (segments : String) : Path :=
  if p.isEmpty then Path.ofText segments else p ++ Text.split '.' segments

/-- The places one segment further, with what they hold. -/
def follow (segment : String) (place : Path × Node) : List (Path × Node) :=
  let (key, isItems) := segmentKey segment
  match place.2.member? key with
  | none => []
  | some v =>
    let p := below place.1 key
    if isItems then
      ((v.array?).getD []).zipIdx.map fun (item, i) => (below p (toString i), item)
    else [(p, v)]

/-- All places that a list of segments reaches, with what they hold. -/
def reach (t : Node) (segments : List String) : List (Path × Node) :=
  segments.foldl (fun places s => places.flatMap (follow s)) [([], t)]

/-! ## Ids -/

/-- The id itself, or the id with the first number from two on that makes it new. -/
def uniqueId (base : String) (used : List String) : String :=
  let seed := if base = "" then "item" else base
  let numbered := (List.range' 2 (used.length + 1)).map fun n => seed ++ "-" ++ toString n
  ((seed :: numbered).find? fun id => !used.contains id).getD seed

/-- The start of the numbered ids of a rule. -/
def numbering (rule : IdRule) : String :=
  let s := Text.slug (rule.fallbackPrefix.getD rule.idKey)
  if s = "" then "item" else s

/-- What an id is made from: the trimmed id that is there, or else the slug of the seed
member, or else a number. -/
def idSeed (rule : IdRule) (start : String) (index : Nat) (item : Node) (id : String) :
    String :=
  if id ≠ "" then id
  else
    let seed := ((rule.seedKey.bind item.member?).bind Node.string?).map Text.slug
    match seed with
    | none | some "" => start ++ "-" ++ toString (index + 1)
    | some s => s

/-- The tree while ids are repaired, with the ids that are taken. -/
structure IdState where
  tree : Node
  used : List String

def repairId (rule : IdRule) (s : IdState) (place : Path × Nat) : IdState :=
  let (array, index) := place
  let itemPlace := below array (toString index)
  match (s.tree.getAt itemPlace).filter Node.isObject with
  | none => s
  | some item =>
    let id := (((item.member? rule.idKey).bind Node.string?).map Text.trim).getD ""
    let next := uniqueId (idSeed rule (numbering rule) index item id) s.used
    let tree :=
      if next = id then s.tree else s.tree.setAt (below itemPlace rule.idKey) (.string next)
    ⟨tree, next :: s.used⟩

/-- The arrays that a rule reaches, with their lengths. -/
def arrays (t : Node) (rule : IdRule) : List (Path × Nat) :=
  (reach t (Text.split '.' rule.arrayPath)).filterMap fun (p, v) =>
    v.array?.map fun items => (p, items.length)

def applyIdRule (t : Node) (rule : IdRule) : Node :=
  let items := (arrays t rule).flatMap fun (p, n) => (List.range n).map fun i => (p, i)
  (items.foldl (repairId rule) ⟨t, []⟩).tree

/-! ## Types -/

/-- The tree with the member of one object repaired. -/
def repairLeaf (rule : CoerceRule) (leaf : String) (t : Node) (parent : Path) : Node :=
  let place := below parent leaf
  match rule.default with
  | none => t
  | some v => if (t.getAt place).any rule.type.accepts then t else t.setAt place v

def applyCoerceRule (t : Node) (rule : CoerceRule) : Node :=
  let segments := Text.split '.' rule.path
  let parents := (reach t segments.dropLast).filter fun (_, v) => v.isObject
  (parents.map (·.1)).foldl (repairLeaf rule (segments.getLast?.getD "")) t

/-! ## All rules -/

/-- The data of a widget repaired by its rules, one after another. -/
def apply (n : Normalization) (t : Node) : Node :=
  n.coerceRules.foldl applyCoerceRule (n.idRules.foldl applyIdRule t)

/-- A widget without rules leaves its data as they are. -/
def applyAll (n : Option Normalization) (t : Node) : Node :=
  match n with
  | some n => n.apply t
  | none => t

end WidgetSchema.Normalization
