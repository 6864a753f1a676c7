-- Where a violation points. The check of a control carries a value and, beside it, the segments
-- that it has taken. Each of its steps takes the child under the very segment that it notes down,
-- so the noted place always leads to the value, and a fault is reported of what stands there.
import WidgetSchema.Proofs.Control.Expression
import WidgetSchema.Proofs.Node.Visit
namespace WidgetSchema

/-! ## Places that stand for patterns -/

namespace Pattern

/-- A segment stands for a wildcard if it is a written position, and else for itself only. -/
def Stands (σ s : String) : Prop :=
  if Path.isWildcard σ = true then ∃ i : Nat, s = toString i else s = σ

theorem stands_toString {σ : String} (hσ : Path.isWildcard σ = true) (i : Nat) :
    Stands σ (toString i) := by
  unfold Stands
  rw [if_pos hσ]
  exact ⟨i, rfl⟩

theorem stands_self {σ : String} (hσ : Path.isWildcard σ = false) : Stands σ σ := by
  unfold Stands
  rw [if_neg (by simp [hσ])]

theorem Stands.accepts {σ s : String} (h : Stands σ s) : acceptsSegment σ s = true := by
  unfold Stands at h
  split at h
  · rename_i hσ
    obtain ⟨i, rfl⟩ := h
    exact acceptsSegment_toString hσ i
  · rename_i hσ
    rw [h]
    exact acceptsSegment_self (Bool.eq_false_iff.2 hσ)

/-- What stands for a segment of a pattern is a segment of a written place. -/
theorem Stands.solid {σ s : String} (h : Stands σ s) (hσ : σ ≠ "") (hdot : '.' ∉ σ.toList) :
    s ≠ "" ∧ '.' ∉ s.toList := by
  unfold Stands at h
  split at h
  · obtain ⟨i, rfl⟩ := h
    exact ⟨Nat.repr_ne_empty, notMem_toString rfl i⟩
  · exact h ▸ ⟨hσ, hdot⟩

/-- A pattern accepts the places whose segments stand for its own. -/
theorem accepts_of_stands {pattern place : String}
    (h : List.Forall₂ Stands (Path.solidSegments pattern) (Path.ofText place)) :
    accepts pattern place = true := by
  unfold Path.ofText at h
  split at h
  · rename_i hroot
    rw [accepts, List.forall₂_nil_right_iff.1 h, hroot]
    rfl
  · have hsolid : Path.solidSegments pattern ≠ [] := by
      intro hnil
      rw [hnil, List.forall₂_nil_left_iff] at h
      exact Text.split_ne_nil '.' place h
    rw [accepts_eq hsolid, acceptsAll_iff_forall₂]
    exact h.imp fun _ _ hs => hs.accepts

/-- A place whose segments stand for those of a pattern is read as it is written. -/
theorem ofText_text_of_stands {way place : Path} (h : List.Forall₂ Stands way place)
    (hway : ∀ σ ∈ way, σ ≠ "" ∧ '.' ∉ σ.toList) : Path.ofText (Path.text place) = place := by
  refine Path.ofText_text_of_solid ?_
  induction h with
  | nil => exact fun s hs => absurd hs List.not_mem_nil
  | cons hs _ ih =>
    obtain ⟨⟨hσ, hdot⟩, hrest⟩ := List.forall_mem_cons.1 hway
    exact List.forall_mem_cons.2 ⟨hs.solid hσ hdot, ih hrest⟩

end Pattern

/-! ## The check as a walk -/

namespace Node

theorem eq_array_of_bind {v : Option Node} {xs : List Node} (h : v.bind array? = some xs) :
    v = some (array xs) := by
  obtain ⟨t, rfl, ht⟩ := Option.bind_eq_some_iff.1 h
  cases t with
  | array ys => rw [Option.some.inj ht]
  | _ => cases ht

theorem eq_object_of_bind {v : Option Node} {ms : Members Node} (h : v.bind object? = some ms) :
    v = some (object ms) := by
  obtain ⟨t, rfl, ht⟩ := Option.bind_eq_some_iff.1 h
  cases t with
  | object ns => rw [Option.some.inj ht]
  | _ => cases ht

end Node

namespace Control

/-- One step of the check: from a value by a segment of the pattern to the value at the segment
that is noted down. -/
inductive Leads : String → Option Node → String → Option Node → Prop
  | item {σ : String} (wildcard : Path.isWildcard σ = true) {xs : List Node} {i : Nat} {x : Node}
      (there : xs[i]? = some x) : Leads σ (some (.array xs)) (toString i) (some x)
  | member {σ : String} (literal : Path.isWildcard σ = false) (ms : Members Node) :
      Leads σ (some (.object ms)) σ (Members.get? σ ms)

/-- Why the check ends at a value, with some segments left, and what it reports. -/
inductive Stops (c : Control) : Path → Option Node → Fault → Prop
  | judged {v : Option Node} {fault : Fault} (faulty : c.placeFault? v = some fault) :
      Stops c [] v fault
  | noArray {σ : String} (wildcard : Path.isWildcard σ = true) {v : Option Node}
      (other : v.bind Node.array? = none) (rest : Path) : Stops c (σ :: rest) v .unresolvedArray
  | noObject {σ : String} (literal : Path.isWildcard σ = false) {v : Option Node}
      (other : v.bind Node.object? = none) (rest : Path) :
      Stops c (σ :: rest) v (.unresolvedObject σ)

variable {c : Control} {u : Violation}

theorem stops_of_mem_walk_nil {trail : Path} {v : Option Node} (h : u ∈ c.walk [] trail v) :
    u.path = Path.text trail ∧ c.Stops [] v u.fault := by
  unfold walk at h
  obtain ⟨fault, hfault, rfl⟩ := Option.map_eq_some_iff.1 (Option.mem_toList.1 h)
  exact ⟨rfl, .judged hfault⟩

/-- The check reports a fault of the value it is at, or takes one step and reports it further
on. -/
theorem stops_or_leads_of_mem_walk_cons {σ : String} {rest trail : Path} {v : Option Node}
    (h : u ∈ c.walk (σ :: rest) trail v) :
    (u.path = Path.text trail ∧ c.Stops (σ :: rest) v u.fault) ∨
      ∃ s w, Leads σ v s w ∧ u ∈ c.walk rest (trail ++ [s]) w := by
  unfold walk at h
  by_cases hσ : Path.isWildcard σ = true
  · rw [if_pos hσ] at h
    split at h
    · rename_i hother
      obtain rfl := List.mem_singleton.1 h
      exact Or.inl ⟨rfl, .noArray hσ hother rest⟩
    · rename_i xs harray
      obtain rfl := Node.eq_array_of_bind harray
      obtain ⟨_, hitem, hu⟩ := List.mem_flatten.1 h
      obtain ⟨⟨x, i⟩, hx, rfl⟩ := List.mem_map.1 hitem
      exact Or.inr ⟨_, _, .item hσ (List.mem_zipIdx_iff_getElem?.1 hx), hu⟩
  · rw [if_neg hσ] at h
    have hliteral := Bool.eq_false_iff.2 hσ
    split at h
    · rename_i hother
      obtain rfl := List.mem_singleton.1 h
      exact Or.inl ⟨rfl, .noObject hliteral hother rest⟩
    · rename_i ms hobject
      obtain rfl := Node.eq_object_of_bind hobject
      exact Or.inr ⟨_, _, .member hliteral ms, h⟩

/-- The steps of the check from a value, with the segments that are noted down on the way. -/
inductive Follows : Path → Option Node → Path → Option Node → Prop
  | here (v : Option Node) : Follows [] v [] v
  | step {σ s : String} {way place : Path} {v w x : Option Node} (first : Leads σ v s w)
      (onward : Follows way w place x) : Follows (σ :: way) v (s :: place) x

/-- The check reports a fault where it has come to and can go no further. -/
theorem exists_of_mem_walk {segments trail : Path} {v : Option Node}
    (h : u ∈ c.walk segments trail v) :
    ∃ way rest place w, segments = way ++ rest ∧ Follows way v place w ∧
      c.Stops rest w u.fault ∧ u.path = Path.text (trail ++ place) := by
  -- The trail is whatever was noted down before, so only what is added to it is followed.
  induction segments generalizing trail v with
  | nil =>
    obtain ⟨hpath, hstops⟩ := stops_of_mem_walk_nil h
    exact ⟨[], [], [], v, rfl, .here v, hstops, by rw [List.append_nil, hpath]⟩
  | cons σ rest ih =>
    rcases stops_or_leads_of_mem_walk_cons h with ⟨hpath, hstops⟩ | ⟨s, w, hleads, hw⟩
    · exact ⟨[], σ :: rest, [], v, rfl, .here v, hstops, by rw [List.append_nil, hpath]⟩
    · obtain ⟨way, rest', place, x, rfl, hfollows, hstops, hpath⟩ := ih hw
      refine ⟨σ :: way, rest', s :: place, x, rfl, .step hleads hfollows, hstops, ?_⟩
      rw [hpath, List.append_assoc, List.singleton_append]

/-! ## The noted place -/

theorem Leads.stands {σ s : String} {v w : Option Node} (h : Leads σ v s w) :
    Pattern.Stands σ s := by
  cases h with
  | item hσ _ => exact Pattern.stands_toString hσ _
  | member hσ _ => exact Pattern.stands_self hσ

theorem Leads.child? {σ s : String} {t : Node} {w : Option Node} (h : Leads σ (some t) s w)
    (ht : t.Addressable) : t.child? s = w := by
  cases h with
  | @item _ xs i x hx =>
    have hlt : i < xs.length := (List.getElem?_eq_some_iff.1 hx).1
    have hlength := (Node.addressable_array_iff.1 ht).1
    exact (Node.child?_toString (Nat.lt_of_lt_of_le hlt hlength) xs).trans hx
  | member => rfl

theorem Follows.stands {way place : Path} {v w : Option Node} (h : Follows way v place w) :
    List.Forall₂ Pattern.Stands way place := by
  induction h with
  | here => exact .nil
  | step first _ ih => exact .cons first.stands ih

/-- The noted place leads to the value. -/
theorem Follows.getAt {way place : Path} {v w : Option Node} (h : Follows way v place w)
    (hv : ∀ t, v = some t → t.Addressable) : v.bind (·.getAt place) = w := by
  induction h with
  | here v => cases v <;> rfl
  | @step σ s way place v w x first onward ih =>
    cases v with
    | none => cases first
    | some t =>
      have ht := hv t rfl
      have hchild := first.child? ht
      rw [Option.bind_some, Node.getAt_cons, hchild]
      exact ih fun y hy => ht.child? (hchild.trans hy)

/-- A violation of a control names a place where the segments stand for those of its path, all of
them or the first ones. It is about what the data holds there: a value that is judged at the end
of the path, or no array where a wildcard is next, or no object where a name is. -/
theorem every_violation_points_at_what_it_judges {data : Node} (hdata : data.Addressable)
    (hu : u ∈ c.violationsIn data) :
    ∃ way rest, Path.solidSegments c.path = way ++ rest ∧
      List.Forall₂ Pattern.Stands way (Path.ofText u.path) ∧
      c.Stops rest (data.getAt (Path.ofText u.path)) u.fault ∧
      (rest = [] → Pattern.accepts c.path u.path = true) := by
  obtain ⟨way, rest, place, w, hpath, hfollows, hstops, hplace⟩ := exists_of_mem_walk hu
  have hstands := hfollows.stands
  have hway : ∀ σ ∈ way, σ ≠ "" ∧ '.' ∉ σ.toList := by
    intro σ hσ
    have hmem : σ ∈ Path.solidSegments c.path := hpath ▸ List.mem_append_left rest hσ
    exact ⟨by simpa using (List.mem_filter.1 hmem).2,
      Expression.dot_notMem_of_mem_solidSegments hmem⟩
  have hread : Path.ofText u.path = place :=
    (congrArg Path.ofText hplace).trans (Pattern.ofText_text_of_stands hstands hway)
  have hvalue : data.getAt place = w := hfollows.getAt fun t ht => Option.some.inj ht ▸ hdata
  refine ⟨way, rest, hpath, hread ▸ hstands, by rw [hread, hvalue]; exact hstops, ?_⟩
  rintro rfl
  refine Pattern.accepts_of_stands ?_
  rw [hpath, List.append_nil, hread]
  exact hstands

/-! ## A number among questions -/

/-- A control of the texts of questions. -/
def questionText : Control :=
  { panelId := "content", type := "field", path := "faqs.__idx__.question", kind := .string }

/-- A question without a text, and a number in the place of another one. -/
def oddQuestions : Node :=
  .object [("faqs", .array [.object [("question", .bool true)], .number (.int 3 (by decide))])]

/-- The number is pointed at, and not the text that was looked for in it. -/
theorem the_number_among_the_questions_is_pointed_at :
    oddQuestions.Addressable ∧
      (⟨"faqs.1", .unresolvedObject "question"⟩ : Violation) ∈
        questionText.violationsIn oddQuestions ∧
      ∃ way rest, Path.solidSegments questionText.path = way ++ rest ∧
        List.Forall₂ Pattern.Stands way (Path.ofText "faqs.1") ∧
        questionText.Stops rest (oddQuestions.getAt (Path.ofText "faqs.1"))
          (.unresolvedObject "question") ∧
        (rest = [] → Pattern.accepts questionText.path "faqs.1" = true) := by
  have hdata : oddQuestions.Addressable := by
    simp [oddQuestions, Node.Addressable, Node.AddressableMembers, Node.AddressableItems]
  have hmem : (⟨"faqs.1", .unresolvedObject "question"⟩ : Violation) ∈
      questionText.violationsIn oddQuestions := by decide
  exact ⟨hdata, hmem, every_violation_points_at_what_it_judges hdata hmem⟩

end Control

end WidgetSchema
