-- What is read from the compact text of a tree: its lexemes stand one behind the other, and
-- every number is followed by a mark that cannot belong to it.
import WidgetSchema.Proofs.Node.Stored
namespace WidgetSchema

namespace Token

theorem ends_of_mem {c : Char} (h : c ∈ [',', ']', '\x7d']) (rest : List Char) :
    Ends (c :: rest) := by
  intro d hd
  obtain rfl := Option.some.inj hd
  simp only [List.mem_cons, List.not_mem_nil, or_false] at h
  rcases h with rfl | rfl | rfl <;> decide

/-- The name of a member, with the colon behind it. -/
theorem all?_name (k : String) (more : List Char) :
    all? ((Node.quoted k).toList ++ ':' :: more) =
      (all? more).map (.string (some k) :: .colon :: ·) := by
  have hcolon : all? (':' :: more) = (all? more).map (.colon :: ·) := all?_of_next? rfl
  rw [all?_of_next? (next?_quoted k _), hcolon, Option.map_map]
  rfl

mutual

/-- From the compact text of a tree its lexemes are read, if its numbers are. -/
theorem all?_text {rest : List Char} (hrest : Ends rest) :
    (t : Node) → (∀ n ∈ t.numbers, ReadsBack n) →
      all? (t.text.toList ++ rest) = (all? rest).map (t.tokens ++ ·)
  | .null, _ => by
    have hnull : next? ('n' :: 'u' :: 'l' :: 'l' :: rest) = some (null, rest) := rfl
    simp [Node.text, Node.tokens, all?_of_next? hnull]
  | .bool b, _ => by
    have htrue : next? ('t' :: 'r' :: 'u' :: 'e' :: rest) = some (bool true, rest) := rfl
    have hfalse : next? ('f' :: 'a' :: 'l' :: 's' :: 'e' :: rest) = some (bool false, rest) := rfl
    cases b with
    | true => simp [Node.text, Node.tokens, all?_of_next? htrue]
    | false => simp [Node.text, Node.tokens, all?_of_next? hfalse]
  | .number n, hn => all?_of_next? (next?_number (hn n (by simp [Node.numbers])) hrest)
  | .string s, _ => all?_of_next? (next?_quoted s rest)
  | .array items, hn => by
    have hopen : ∀ more, all? ('[' :: more) = (all? more).map (.openArray :: ·) :=
      fun _ => all?_of_next? rfl
    have hclose : all? (']' :: rest) = (all? rest).map (.closeArray :: ·) := all?_of_next? rfl
    have hitems := all?_itemsText (ends_of_mem (by decide : ']' ∈ _) rest) items hn
    simp [Node.text, Node.tokens, hopen, hitems, hclose, Function.comp_def]
  | .object members, hn => by
    have hopen : ∀ more, all? ('\x7b' :: more) = (all? more).map (.openObject :: ·) :=
      fun _ => all?_of_next? rfl
    have hclose : all? ('\x7d' :: rest) = (all? rest).map (.closeObject :: ·) := all?_of_next? rfl
    have hmembers := all?_membersText (ends_of_mem (by decide : '\x7d' ∈ _) rest) members hn
    simp [Node.text, Node.tokens, hopen, hmembers, hclose, Function.comp_def]

theorem all?_itemsText {rest : List Char} (hrest : Ends rest) :
    (xs : List Node) → (∀ n ∈ Node.itemNumbers xs, ReadsBack n) →
      all? ((Node.itemsText xs).toList ++ rest) = (all? rest).map (Node.itemTokens xs ++ ·)
  | [], _ => by simp [Node.itemsText, Node.itemTokens]
  | [x], hn => by
    have hx := all?_text hrest x fun n h => hn n (by simp [Node.itemNumbers, h])
    simp [Node.itemsText, Node.itemTokens, hx]
  | x :: y :: xs, hn => by
    have hxs := all?_itemsText hrest (y :: xs) fun n h => hn n (by rw [Node.itemNumbers]; simp [h])
    have hcomma : ∀ more, all? (',' :: more) = (all? more).map (.comma :: ·) :=
      fun _ => all?_of_next? rfl
    have hx := all?_text (ends_of_mem (by decide : ',' ∈ _)
      ((Node.itemsText (y :: xs)).toList ++ rest)) x fun n h => hn n (by simp [Node.itemNumbers, h])
    rw [Node.itemsText, Node.itemTokens]
    simp [hx, hcomma, hxs, Function.comp_def]

theorem all?_membersText {rest : List Char} (hrest : Ends rest) :
    (ms : List (String × Node)) → (∀ n ∈ Node.memberNumbers ms, ReadsBack n) →
      all? ((Node.membersText ms).toList ++ rest) = (all? rest).map (Node.memberTokens ms ++ ·)
  | [], _ => by simp [Node.membersText, Node.memberTokens]
  | [(k, v)], hn => by
    have hv := all?_text hrest v fun n h => hn n (by simp [Node.memberNumbers, h])
    simp [Node.membersText, Node.memberTokens, all?_name, hv, Function.comp_def]
  | (k, v) :: m :: ms, hn => by
    have hms := all?_membersText hrest (m :: ms) fun n h =>
      hn n (by rw [Node.memberNumbers]; simp [h])
    have hcomma : ∀ more, all? (',' :: more) = (all? more).map (.comma :: ·) :=
      fun _ => all?_of_next? rfl
    have hv := all?_text (ends_of_mem (by decide : ',' ∈ _)
      ((Node.membersText (m :: ms)).toList ++ rest)) v fun n h =>
        hn n (by simp [Node.memberNumbers, h])
    rw [Node.membersText, Node.memberTokens]
    simp [all?_name, hv, hcomma, hms, Function.comp_def]

end

end Token

/-- The compact text of a tree writes the tree, if its numbers are read back. -/
theorem Written.ofText?_text {t : Node} (h : ∀ n ∈ t.numbers, Token.ReadsBack n) :
    ofText? t.text = some (ofNode t) := by
  have hread := Token.all?_text Token.ends_nil t h
  have hnil : Token.all? [] = some [] := by
    rw [Token.all?_eq]
    rfl
  have hrun := foldlM_tokens [] [] t
  rw [List.append_nil, hnil, Option.map_some, List.append_nil] at hread
  rw [List.append_nil] at hrun
  simp only [ofText?, hread, bind, Option.bind_some, hrun]
  rfl

end WidgetSchema
