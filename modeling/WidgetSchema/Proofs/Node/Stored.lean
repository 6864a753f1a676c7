-- What is read from the text of a tree. The text is laid out lexeme by lexeme with blanks between
-- them, the lexemes are read into the values they were written for, and a tree that was read
-- before has its members in order already, so it comes back as it is.
import WidgetSchema.Node.Written
import WidgetSchema.Proofs.Node.Ascending
import WidgetSchema.Proofs.Node.Lexemes
namespace WidgetSchema

/-! ## The lexemes of a tree -/

namespace Node

mutual

def tokens : Node → List Token
  | null => [.null]
  | bool b => [.bool b]
  | number n => [.number (some n)]
  | string s => [.string (some s)]
  | array items => .openArray :: itemTokens items ++ [.closeArray]
  | object members => .openObject :: memberTokens members ++ [.closeObject]

def itemTokens : List Node → List Token
  | [] => []
  | x :: xs => tokens x ++ (if xs.isEmpty then [] else [.comma]) ++ itemTokens xs

def memberTokens : List (String × Node) → List Token
  | [] => []
  | (k, v) :: ms =>
    .string (some k) :: .colon :: tokens v ++ (if ms.isEmpty then [] else [.comma]) ++
      memberTokens ms

end

theorem tokens_array (items : List Node) (more : List Token) :
    (array items).tokens ++ more = .openArray :: (itemTokens items ++ .closeArray :: more) := by
  simp [tokens]

theorem tokens_object (members : List (String × Node)) (more : List Token) :
    (object members).tokens ++ more =
      .openObject :: (memberTokens members ++ .closeObject :: more) := by
  simp [tokens]

mutual

/-- The numbers in a tree. -/
def numbers : Node → List Number
  | number n => [n]
  | array items => itemNumbers items
  | object members => memberNumbers members
  | null | bool _ | string _ => []

def itemNumbers : List Node → List Number
  | [] => []
  | x :: xs => numbers x ++ itemNumbers xs

def memberNumbers : List (String × Node) → List Number
  | [] => []
  | (_, v) :: ms => numbers v ++ memberNumbers ms

end

end Node

/-! ## Reading the lexemes -/

namespace Token

theorem isSpace_of_next? {cs after : List Char} {t : Token} (h : next? cs = some (t, after)) :
    ∀ c ∈ cs.head?, isSpace c = false := by
  intro c hc
  cases cs with
  | nil => cases hc
  | cons d cs =>
    obtain rfl := Option.some.inj hc
    rcases hspace : isSpace d with _ | _
    · rfl
    · simp only [isSpace, Bool.or_eq_true, beq_iff_eq] at hspace
      rcases hspace with ((rfl | rfl) | rfl) | rfl <;> cases h

/-- The lexemes of a text are those of the text without the blanks in front. -/
theorem all?_eq (cs : List Char) :
    all? cs = if cs.dropWhile isSpace = [] then some []
      else (next? (cs.dropWhile isSpace)).bind fun (t, after) => (all? after).map (t :: ·) := by
  rw [all?.eq_def]
  split
  · rename_i hnil
    rw [if_pos hnil]
  · rename_i c rest hcons
    have hne : cs.dropWhile isSpace ≠ [] := by
      rw [hcons]
      exact List.cons_ne_nil c rest
    rw [if_neg hne]
    split
    · rename_i hnone
      have hnext := (congrArg next? hcons).trans hnone
      rw [hnext, Option.bind_none]
    · rename_i hsome
      have hnext := (congrArg next? hcons).trans hsome
      rw [hnext, Option.bind_some]

/-- The next lexeme comes first. -/
theorem all?_of_next? {cs after : List Char} {t : Token} (h : next? cs = some (t, after)) :
    all? cs = (all? after).map (t :: ·) := by
  have hspace := isSpace_of_next? h
  cases cs with
  | nil => cases h
  | cons c cs =>
    have hdrop : (c :: cs).dropWhile isSpace = c :: cs :=
      List.dropWhile_cons_of_neg (by simp [hspace c rfl])
    rw [all?_eq, hdrop, if_neg (List.cons_ne_nil c cs), h, Option.bind_some]

/-- Blanks before a lexeme are skipped. -/
theorem all?_spaces {spaces : List Char} (h : ∀ c ∈ spaces, isSpace c = true) (rest : List Char) :
    all? (spaces ++ rest) = all? rest := by
  rw [all?_eq, all?_eq rest, List.dropWhile_append_of_pos h]

theorem all?_space {c : Char} (h : isSpace c = true) (rest : List Char) :
    all? (c :: rest) = all? rest :=
  all?_spaces (List.forall_mem_singleton.2 h) rest

theorem all?_indentation (depth : Nat) (rest : List Char) :
    all? ((Node.indentation depth).toList ++ rest) = all? rest := by
  refine all?_spaces (fun c hc => ?_) rest
  rw [Node.indentation, String.toList_ofList] at hc
  rw [List.eq_of_mem_replicate hc]
  rfl

/-- The end of a line, with a comma unless the last value stands on it. -/
theorem all?_separator (isLast : Bool) (rest : List Char) :
    all? ((if isLast then "\n" else ",\n").toList ++ rest) =
      (all? rest).map ((if isLast then [] else [.comma]) ++ ·) := by
  cases isLast with
  | true =>
    have hspace : all? ('\n' :: rest) = all? rest := all?_space rfl rest
    simp [hspace]
  | false =>
    have hcomma : all? (',' :: '\n' :: rest) = (all? ('\n' :: rest)).map (.comma :: ·) :=
      all?_of_next? rfl
    have hspace : all? ('\n' :: rest) = all? rest := all?_space rfl rest
    simp [hcomma, hspace]

theorem ends_separator (isLast : Bool) (rest : List Char) :
    Ends ((if isLast then "\n" else ",\n").toList ++ rest) := by
  intro c hc
  cases isLast with
  | true =>
    obtain rfl : '\n' = c := Option.some.inj hc
    decide
  | false =>
    obtain rfl : ',' = c := Option.some.inj hc
    decide

theorem ends_nil : Ends [] := fun _ hc => nomatch hc

mutual

/-- From the text of a tree its lexemes are read, if its numbers are. -/
theorem all?_prettyAt (depth : Nat) {rest : List Char} (hrest : Ends rest) :
    (t : Node) → (∀ n ∈ t.numbers, ReadsBack n) →
      all? ((t.prettyAt depth).toList ++ rest) = (all? rest).map (t.tokens ++ ·)
  | .null, _ => by
    have hnull : next? ('n' :: 'u' :: 'l' :: 'l' :: rest) = some (null, rest) := rfl
    simp [Node.prettyAt, Node.tokens, all?_of_next? hnull]
  | .bool b, _ => by
    have htrue : next? ('t' :: 'r' :: 'u' :: 'e' :: rest) = some (bool true, rest) := rfl
    have hfalse : next? ('f' :: 'a' :: 'l' :: 's' :: 'e' :: rest) = some (bool false, rest) := rfl
    cases b with
    | true => simp [Node.prettyAt, Node.tokens, all?_of_next? htrue]
    | false => simp [Node.prettyAt, Node.tokens, all?_of_next? hfalse]
  | .number n, hn => all?_of_next? (next?_number (hn n (by simp [Node.numbers])) hrest)
  | .string s, _ => all?_of_next? (next?_quoted s rest)
  | .array [], _ => by
    have hopen : all? ('[' :: ']' :: rest) = (all? (']' :: rest)).map (.openArray :: ·) :=
      all?_of_next? rfl
    have hclose : all? (']' :: rest) = (all? rest).map (.closeArray :: ·) := all?_of_next? rfl
    simp [Node.prettyAt, Node.tokens, Node.itemTokens, hopen, hclose, Function.comp_def]
  | .array (x :: xs), hn => by
    have hitems := all?_prettyItems (depth + 1) (x :: xs) hn
    have hclose : all? (']' :: rest) = (all? rest).map (.closeArray :: ·) := all?_of_next? rfl
    have hopen : ∀ more, all? ('[' :: '\n' :: more) = (all? more).map (.openArray :: ·) := by
      intro more
      rw [all?_of_next? rfl, all?_space rfl]
    simp [Node.prettyAt, Node.tokens, hopen, hitems, all?_indentation, hclose, Function.comp_def]
  | .object [], _ => by
    have hopen : all? ('\x7b' :: '\x7d' :: rest) = (all? ('\x7d' :: rest)).map (.openObject :: ·) :=
      all?_of_next? rfl
    have hclose : all? ('\x7d' :: rest) = (all? rest).map (.closeObject :: ·) := all?_of_next? rfl
    simp [Node.prettyAt, Node.tokens, Node.memberTokens, hopen, hclose, Function.comp_def]
  | .object (m :: ms), hn => by
    have hmembers := all?_prettyMembers (depth + 1) (m :: ms) hn
    have hclose : all? ('\x7d' :: rest) = (all? rest).map (.closeObject :: ·) := all?_of_next? rfl
    have hopen : ∀ more, all? ('\x7b' :: '\n' :: more) = (all? more).map (.openObject :: ·) := by
      intro more
      rw [all?_of_next? rfl, all?_space rfl]
    simp [Node.prettyAt, Node.tokens, hopen, hmembers, all?_indentation, hclose, Function.comp_def]

theorem all?_prettyItems (depth : Nat) :
    (xs : List Node) → (∀ n ∈ Node.itemNumbers xs, ReadsBack n) → (rest : List Char) →
      all? ((Node.prettyItems depth xs).toList ++ rest) =
        (all? rest).map (Node.itemTokens xs ++ ·)
  | [], _, rest => by simp [Node.prettyItems, Node.itemTokens]
  | x :: xs, hn, rest => by
    have hx : ∀ n ∈ x.numbers, ReadsBack n := fun n h => hn n (by simp [Node.itemNumbers, h])
    have hxs : ∀ n ∈ Node.itemNumbers xs, ReadsBack n :=
      fun n h => hn n (by simp [Node.itemNumbers, h])
    have hrest := all?_prettyItems depth xs hxs rest
    have hends := ends_separator xs.isEmpty ((Node.prettyItems depth xs).toList ++ rest)
    have hfirst := all?_prettyAt depth hends x hx
    rw [Node.prettyItems]
    simp only [String.toList_append, List.append_assoc, all?_indentation, hfirst, all?_separator,
      hrest, Option.map_map, Node.itemTokens, Function.comp_def]

theorem all?_prettyMembers (depth : Nat) :
    (ms : List (String × Node)) → (∀ n ∈ Node.memberNumbers ms, ReadsBack n) →
      (rest : List Char) →
      all? ((Node.prettyMembers depth ms).toList ++ rest) =
        (all? rest).map (Node.memberTokens ms ++ ·)
  | [], _, rest => by simp [Node.prettyMembers, Node.memberTokens]
  | (k, v) :: ms, hn, rest => by
    have hv : ∀ n ∈ v.numbers, ReadsBack n := fun n h => hn n (by simp [Node.memberNumbers, h])
    have hms : ∀ n ∈ Node.memberNumbers ms, ReadsBack n :=
      fun n h => hn n (by simp [Node.memberNumbers, h])
    have hrest := all?_prettyMembers depth ms hms rest
    have hends := ends_separator ms.isEmpty ((Node.prettyMembers depth ms).toList ++ rest)
    have hvalue := all?_prettyAt depth hends v hv
    have hname : ∀ more, all? ((Node.quoted k).toList ++ (": ".toList ++ more)) =
        (all? more).map (.string (some k) :: .colon :: ·) := by
      intro more
      have hcolon : all? (':' :: ' ' :: more) = (all? (' ' :: more)).map (.colon :: ·) :=
        all?_of_next? rfl
      have hspace : all? (' ' :: more) = all? more := all?_space rfl more
      have hkey : all? ((Node.quoted k).toList ++ ':' :: ' ' :: more) =
          (all? (':' :: ' ' :: more)).map (.string (some k) :: ·) :=
        all?_of_next? (next?_quoted k _)
      rw [hcolon, hspace, Option.map_map] at hkey
      exact hkey
    rw [Node.prettyMembers]
    simp only [String.toList_append, List.append_assoc, all?_indentation, hname, hvalue,
      all?_separator, hrest, Option.map_map, Node.memberTokens, Function.comp_def,
      List.cons_append]

end

/-- The text of a tree consists of the lexemes of the tree. -/
theorem all?_pretty {t : Node} (h : ∀ n ∈ t.numbers, ReadsBack n) :
    all? t.pretty.toList = some t.tokens := by
  have hread := all?_prettyAt 0 ends_nil t h
  have hnil : all? [] = some [] := by
    rw [all?_eq]
    rfl
  rw [List.append_nil, hnil, Option.map_some, List.append_nil] at hread
  exact hread

end Token

/-! ## From lexemes to values -/

namespace Written

open ReadState

/-- An array goes on with its first item as it would with a later one. -/
theorem foldlM_firstItem (x : Node) (outer : List OpenContainer) (more : List Token) :
    (x.tokens ++ more).foldlM step (firstItem outer) =
      (x.tokens ++ more).foldlM step (value (.array [] :: outer)) := by
  cases x with
  | _ => rfl

mutual

/-- The lexemes of a tree are read as the value that the tree is written as. -/
theorem foldlM_tokens (outer : List OpenContainer) (more : List Token) :
    (t : Node) → (t.tokens ++ more).foldlM step (value outer) =
      more.foldlM step (after (ofNode t) outer)
  | .null | .bool _ | .number _ | .string _ => rfl
  | .array [] => rfl
  | .array (x :: xs) => by
    have hitems := foldlM_itemTokens outer more (x :: xs) (List.cons_ne_nil x xs) []
    have hopen : ∀ rest, (Token.openArray :: rest).foldlM step (value outer) =
        rest.foldlM step (firstItem outer) := fun _ => rfl
    rw [Node.itemTokens, List.append_assoc, List.append_assoc] at hitems
    rw [Node.tokens_array, hopen, Node.itemTokens, List.append_assoc, List.append_assoc,
      foldlM_firstItem, hitems]
    rfl
  | .object [] => rfl
  | .object ((k, v) :: ms) => by
    have hmembers := foldlM_memberTokens outer more ((k, v) :: ms) (List.cons_ne_nil _ ms) []
    rw [Node.tokens_object]
    exact hmembers

theorem foldlM_itemTokens (outer : List OpenContainer) (more : List Token) :
    (xs : List Node) → xs ≠ [] → (done : List Written) →
      (Node.itemTokens xs ++ .closeArray :: more).foldlM step (value (.array done :: outer)) =
        more.foldlM step (after (.array (done.reverse ++ ofNodes xs)) outer)
  | [], hne, _ => absurd rfl hne
  | [x], _, done => by
    have hx := foldlM_tokens (.array done :: outer) (.closeArray :: more) x
    have hclose : (Token.closeArray :: more).foldlM step (after (ofNode x) (.array done :: outer)) =
        more.foldlM step (after (.array (ofNode x :: done).reverse) outer) := rfl
    simp only [Node.itemTokens, List.isEmpty_nil, if_true, List.append_nil]
    rw [hx, hclose, List.reverse_cons]
    rfl
  | x :: y :: ys, _, done => by
    have hx := foldlM_tokens (.array done :: outer)
      (.comma :: (Node.itemTokens (y :: ys) ++ .closeArray :: more)) x
    have hcomma : ∀ rest, (Token.comma :: rest).foldlM step
        (after (ofNode x) (.array done :: outer)) =
        rest.foldlM step (value (.array (ofNode x :: done) :: outer)) := fun _ => rfl
    have hrest := foldlM_itemTokens outer more (y :: ys) (List.cons_ne_nil y ys) (ofNode x :: done)
    rw [hcomma, hrest, List.reverse_cons, List.append_assoc] at hx
    rw [Node.itemTokens, List.append_assoc, List.append_assoc]
    exact hx

theorem foldlM_memberTokens (outer : List OpenContainer) (more : List Token) :
    (ms : List (String × Node)) → ms ≠ [] → (done : List (Option String × Written)) →
      (Node.memberTokens ms ++ .closeObject :: more).foldlM step (name done outer) =
        more.foldlM step (after (.object (done.reverse ++ ofMembers ms)) outer)
  | [], hne, _ => absurd rfl hne
  | [(k, v)], _, done => by
    have hv := foldlM_tokens (.object done (some k) :: outer) (.closeObject :: more) v
    have hclose : (Token.closeObject :: more).foldlM step
        (after (ofNode v) (.object done (some k) :: outer)) =
        more.foldlM step (after (.object ((some k, ofNode v) :: done).reverse) outer) := rfl
    rw [hclose, List.reverse_cons] at hv
    simp only [Node.memberTokens, List.isEmpty_nil, if_true, List.append_nil]
    exact hv
  | (k, v) :: m :: ms, _, done => by
    have hv := foldlM_tokens (.object done (some k) :: outer)
      (.comma :: (Node.memberTokens (m :: ms) ++ .closeObject :: more)) v
    have hcomma : ∀ rest, (Token.comma :: rest).foldlM step
        (after (ofNode v) (.object done (some k) :: outer)) =
        rest.foldlM step (name ((some k, ofNode v) :: done) outer) := fun _ => rfl
    have hrest := foldlM_memberTokens outer more (m :: ms) (List.cons_ne_nil m ms)
      ((some k, ofNode v) :: done)
    rw [hcomma, hrest, List.reverse_cons, List.append_assoc] at hv
    rw [Node.memberTokens, List.append_assoc, List.append_assoc]
    exact hv

end

/-- The text of a tree writes the tree, if its numbers are read back. -/
theorem ofText?_pretty {t : Node} (h : ∀ n ∈ t.numbers, Token.ReadsBack n) :
    ofText? t.pretty = some (ofNode t) := by
  have hrun := foldlM_tokens [] [] t
  rw [List.append_nil] at hrun
  simp only [ofText?, Token.all?_pretty h, bind, Option.bind_some, hrun]
  rfl

end Written

/-! ## From values to trees -/

namespace Written

theorem membersToNodes?_ofMembers {depth : Nat} {ms : List (String × Node)}
    (h : ∀ m ∈ ms, toNode? depth (ofNode m.2) = some m.2) :
    membersToNodes? depth (ofMembers ms) = some ms := by
  induction ms with
  | nil => rfl
  | cons m ms ih =>
    obtain ⟨k, v⟩ := m
    have hv : toNode? depth (ofNode v) = some v := h (k, v) List.mem_cons_self
    have hms := ih fun m hm => h m (List.mem_cons_of_mem _ hm)
    simp only [ofMembers, membersToNodes?, hv, hms]

mutual

/-- A tree that was read is read again from what it is written as. -/
theorem toNode?_ofNode : (w : Written) → {depth : Nat} → {t : Node} →
    toNode? depth w = some t → toNode? depth (ofNode t) = some t
  | .null, _, _, h => by
    obtain rfl := Option.some.inj h
    rfl
  | .bool _, _, _, h => by
    obtain rfl := Option.some.inj h
    rfl
  | .number _, _, _, h => by
    obtain ⟨n, -, rfl⟩ := Option.map_eq_some_iff.1 h
    rfl
  | .string _, _, _, h => by
    obtain ⟨s, -, rfl⟩ := Option.map_eq_some_iff.1 h
    rfl
  | .array _, 0, _, h => nomatch h
  | .array ws, depth + 1, _, h => by
    obtain ⟨xs, hxs, rfl⟩ := Option.map_eq_some_iff.1 h
    have hitems := itemsToNodes?_ofNodes ws hxs
    rw [ofNode, toNode?, hitems, Option.map_some]
  | .object _, 0, _, h => nomatch h
  | .object ws, depth + 1, _, h => by
    obtain ⟨ms, hms, rfl⟩ := Option.map_eq_some_iff.1 h
    have hvalues := toNode?_of_mem ws hms
    have hmembers : membersToNodes? depth (ofMembers (Members.ofList ms)) =
        some (Members.ofList ms) :=
      membersToNodes?_ofMembers fun m hm => hvalues m (Members.mem_of_mem_ofList hm)
    rw [ofNode, toNode?, hmembers, Option.map_some, Members.ofList_ofList]

theorem itemsToNodes?_ofNodes : (ws : List Written) → {depth : Nat} → {xs : List Node} →
    itemsToNodes? depth ws = some xs → itemsToNodes? depth (ofNodes xs) = some xs
  | [], _, _, h => by
    obtain rfl := Option.some.inj h
    rfl
  | w :: ws, depth, _, h => by
    rw [itemsToNodes?] at h
    split at h
    · rename_i x xs hx hxs
      obtain rfl := Option.some.inj h
      rw [ofNodes, itemsToNodes?, toNode?_ofNode w hx, itemsToNodes?_ofNodes ws hxs]
    · cases h

theorem toNode?_of_mem : (ws : List (Option String × Written)) → {depth : Nat} →
    {ms : List (String × Node)} → membersToNodes? depth ws = some ms →
    ∀ m ∈ ms, toNode? depth (ofNode m.2) = some m.2
  | [], _, _, h => by
    obtain rfl := Option.some.inj h
    exact fun m hm => nomatch hm
  | (k, w) :: ws, depth, _, h => by
    unfold membersToNodes? at h
    split at h
    · rename_i k x xs hx hxs
      obtain rfl := Option.some.inj h
      intro m hm
      rcases List.mem_cons.1 hm with rfl | hm
      · exact toNode?_ofNode w hx
      · exact toNode?_of_mem ws hxs m hm
    · cases h

end

end Written

end WidgetSchema
