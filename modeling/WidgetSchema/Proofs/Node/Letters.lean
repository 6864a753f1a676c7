-- The characters of a written tree. Beyond those that the format itself is written with, there
-- are only the characters of the strings in the tree.
import WidgetSchema.Node.Text
import WidgetSchema.Text.Search
namespace WidgetSchema.Node

/-- The characters that the format of a tree of strings is written with. -/
def marks : List Char := "\",:[]\x7b\x7d\\bfnrtu0123456789abcdef".toList

/-- A tree of strings that do not hold a character. -/
inductive Lacks (c : Char) : Node → Prop
  | string {s : String} : c ∉ s.toList → Lacks c (.string s)
  | array {items : List Node} : (∀ x ∈ items, Lacks c x) → Lacks c (.array items)
  | object {members : List (String × Node)} : (∀ m ∈ members, c ∉ m.1.toList) →
      (∀ m ∈ members, Lacks c m.2) → Lacks c (.object members)

variable {c : Char}

theorem hexDigit_mem_marks : ∀ n < 16, hexDigit n ∈ marks := by decide

theorem mem_escapeChar {d : Char} (h : c ∈ escapeChar d) : c = d ∨ c ∈ marks := by
  unfold escapeChar at h
  split at h
  · exact .inr ((show ['\\', '"'] ⊆ marks by decide) h)
  split at h
  · exact .inr ((show ['\\', '\\'] ⊆ marks by decide) h)
  split at h
  · exact .inr ((show ['\\', 'b'] ⊆ marks by decide) h)
  split at h
  · exact .inr ((show ['\\', 'f'] ⊆ marks by decide) h)
  split at h
  · exact .inr ((show ['\\', 'n'] ⊆ marks by decide) h)
  split at h
  · exact .inr ((show ['\\', 'r'] ⊆ marks by decide) h)
  split at h
  · exact .inr ((show ['\\', 't'] ⊆ marks by decide) h)
  split at h
  · rename_i hcontrol
    rw [show ['\\', 'u', '0', '0', hexDigit (d.toNat / 16), hexDigit (d.toNat % 16)] =
      ['\\', 'u', '0', '0'] ++ [hexDigit (d.toNat / 16), hexDigit (d.toNat % 16)] from rfl,
      List.mem_append] at h
    rcases h with h | h
    · exact .inr ((show ['\\', 'u', '0', '0'] ⊆ marks by decide) h)
    · simp only [List.mem_cons, List.not_mem_nil, or_false] at h
      rcases h with rfl | rfl
      · exact .inr (hexDigit_mem_marks _ (by omega))
      · exact .inr (hexDigit_mem_marks _ (by omega))
  · exact .inl (List.mem_singleton.1 h)

theorem notMem_quoted (hc : c ∉ marks) {s : String} (h : c ∉ s.toList) :
    c ∉ (quoted s).toList := by
  have hquote : c ≠ '"' := fun he => hc (he ▸ by decide)
  rw [quoted, String.toList_ofList]
  simp only [List.cons_append, List.mem_cons, List.mem_append, List.mem_flatMap,
    List.not_mem_nil, or_false, not_or, not_exists, not_and]
  refine ⟨hquote, fun d hd hmem => ?_, hquote⟩
  rcases mem_escapeChar hmem with rfl | hmark
  · exact h hd
  · exact hc hmark

theorem notMem_itemsText (hc : c ∉ marks) {items : List Node}
    (h : ∀ x ∈ items, c ∉ (text x).toList) : c ∉ (itemsText items).toList := by
  induction items with
  | nil => exact List.not_mem_nil
  | cons x xs ih =>
    have hx := h x List.mem_cons_self
    have hxs := ih fun y hy => h y (List.mem_cons_of_mem x hy)
    cases xs with
    | nil => exact hx
    | cons y ys =>
      have hcomma : c ∉ ",".toList := fun hmem => hc ((show ",".toList ⊆ marks by decide) hmem)
      simp only [itemsText, String.toList_append, List.mem_append, not_or] at hxs ⊢
      exact ⟨⟨hx, hcomma⟩, hxs⟩

theorem notMem_membersText (hc : c ∉ marks) {members : List (String × Node)}
    (hkeys : ∀ m ∈ members, c ∉ m.1.toList) (h : ∀ m ∈ members, c ∉ (text m.2).toList) :
    c ∉ (membersText members).toList := by
  have hcolon : c ∉ ":".toList := fun hmem => hc ((show ":".toList ⊆ marks by decide) hmem)
  induction members with
  | nil => exact List.not_mem_nil
  | cons m ms ih =>
    have hkey := notMem_quoted hc (hkeys m List.mem_cons_self)
    have hm := h m List.mem_cons_self
    have hms := ih (fun n hn => hkeys n (List.mem_cons_of_mem m hn))
      fun n hn => h n (List.mem_cons_of_mem m hn)
    cases ms with
    | nil =>
      simp only [membersText, String.toList_append, List.mem_append, not_or]
      exact ⟨⟨hkey, hcolon⟩, hm⟩
    | cons n ns =>
      have hcomma : c ∉ ",".toList := fun hmem => hc ((show ",".toList ⊆ marks by decide) hmem)
      simp only [membersText, String.toList_append, List.mem_append, not_or] at hms ⊢
      exact ⟨⟨⟨⟨hkey, hcolon⟩, hm⟩, hcomma⟩, hms⟩

theorem notMem_text (hc : c ∉ marks) {n : Node} (h : Lacks c n) : c ∉ n.text.toList := by
  induction h with
  | string hs => exact notMem_quoted hc hs
  | array _ ih =>
    have hopen : c ∉ "[".toList := fun hmem => hc ((show "[".toList ⊆ marks by decide) hmem)
    have hclose : c ∉ "]".toList := fun hmem => hc ((show "]".toList ⊆ marks by decide) hmem)
    simp only [text, String.toList_append, List.mem_append, not_or]
    exact ⟨⟨hopen, notMem_itemsText hc ih⟩, hclose⟩
  | object hkeys _ ih =>
    have hopen : c ∉ "\x7b".toList := fun hmem => hc ((show "\x7b".toList ⊆ marks by decide) hmem)
    have hclose : c ∉ "\x7d".toList := fun hmem => hc ((show "\x7d".toList ⊆ marks by decide) hmem)
    simp only [text, String.toList_append, List.mem_append, not_or]
    exact ⟨⟨hopen, notMem_membersText hc hkeys ih⟩, hclose⟩

end WidgetSchema.Node
