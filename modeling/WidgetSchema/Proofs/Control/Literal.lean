-- A control at one place. Where no segment of its path is a wildcard, the check goes the same way
-- through the data as a reader of that place: from object to object both take the member of the
-- name. An array is where they part. A reader takes the item at the position that the segment
-- names, and the check asks for an object and goes no further.
import WidgetSchema.Control.Validation
import WidgetSchema.Proofs.Node.Place
import WidgetSchema.Proofs.Text.Split
namespace WidgetSchema

namespace Node

/-- The first array that lies on the way to a place: the segments that lead to it, and the one
that leads on. -/
def arrayOnWay? : Node → Path → Option (Path × String)
  | _, [] => none
  | array _, s :: _ => some ([], s)
  | t, s :: p => (t.child? s).bind fun x => (x.arrayOnWay? p).map fun (way, r) => (s :: way, r)

theorem arrayOnWay?_object (members : Members Node) (s : String) (p : Path) :
    (object members).arrayOnWay? (s :: p) =
      (Members.get? s members).bind fun x =>
        (x.arrayOnWay? p).map fun (way, r) => (s :: way, r) := rfl

/-- The array on the way to a place stands before the place. -/
theorem exists_of_arrayOnWay? {t : Node} {p way : Path} {s : String}
    (h : t.arrayOnWay? p = some (way, s)) : ∃ rest, p = way ++ s :: rest := by
  induction p generalizing t way with
  | nil => cases t <;> cases h
  | cons r p ih =>
    cases t with
    | array items =>
      obtain ⟨rfl, rfl⟩ := Prod.mk.inj (Option.some.inj h)
      exact ⟨p, rfl⟩
    | object members =>
      rw [arrayOnWay?_object] at h
      obtain ⟨x, _, h⟩ := Option.bind_eq_some_iff.1 h
      obtain ⟨found, hfound, h⟩ := Option.map_eq_some_iff.1 h
      obtain ⟨rfl, rfl⟩ := Prod.mk.inj h
      obtain ⟨rest, rfl⟩ := ih hfound
      exact ⟨rest, rfl⟩
    | _ => cases h

end Node

namespace Control

/-- What is reported of a value that stands at a place. -/
def judged (c : Control) (place : String) (v : Node) : List Violation :=
  ((c.placeFault? (some v)).map fun fault => ⟨place, fault⟩).toList

/-- The check of a control without wildcards, below a value that leads to its place. -/
theorem walk_of_getAt (c : Control) {segments : Path}
    (hliteral : ∀ s ∈ segments, Path.isWildcard s = false) {t v : Node}
    (h : t.getAt segments = some v) (trail : Path) :
    c.walk segments trail (some t) =
      match t.arrayOnWay? segments with
      | none => c.judged (Path.text (trail ++ segments)) v
      | some (way, s) => [⟨Path.text (trail ++ way), .unresolvedObject s⟩] := by
  induction segments generalizing t trail with
  | nil =>
    obtain rfl : t = v := Option.some.inj h
    have hnone : t.arrayOnWay? [] = none := by cases t <;> rfl
    rw [hnone, List.append_nil]
    rfl
  | cons s rest ih =>
    have hs := hliteral s List.mem_cons_self
    obtain ⟨x, hx, hv⟩ := Option.bind_eq_some_iff.1 h
    unfold walk
    rw [if_neg (by simp [hs])]
    cases t with
    | array items =>
      show [_] = [_]
      rw [List.append_nil]
    | object members =>
      have hget : Members.get? s members = some x := hx
      have hrest := ih (fun r hr => hliteral r (List.mem_cons_of_mem s hr)) hv (trail ++ [s])
      simp only [Option.bind_some, Node.object?, Node.arrayOnWay?_object, hget, hrest]
      rcases x.arrayOnWay? rest with _ | ⟨way, r⟩
      · simp
      · simp
    | _ => simp [Node.child?] at hx

end Control

/-! ## The whole tree -/

theorem Typography.violations_eq_nil {data : Node}
    (h : ∀ x, data.member? "typography" = some x → x.isObject = false) :
    Typography.violations data = [] := by
  have hnone : (data.member? "typography").filter Node.isObject = none :=
    Option.filter_eq_none_iff.2 fun x hx => Bool.eq_false_iff.1 (h x hx)
  rw [Typography.violations, hnone]

/-- A control without wildcards reports just what is wrong with the value at its place where the
way there leads through objects only. Where an array lies on the way, it reports that array and
does not come to the value. -/
theorem a_literal_place_is_judged_unless_an_array_is_on_the_way {data v : Node} {c : Control}
    (htypography : ∀ x, data.member? "typography" = some x → x.isObject = false)
    (hliteral : ∀ s ∈ Text.split '.' c.path, s ≠ "" ∧ Path.isWildcard s = false)
    (h : data.getAt (Path.ofText c.path) = some v) :
    (violations data [c] = c.judged c.path v ↔
      data.arrayOnWay? (Path.ofText c.path) = none) ∧
    ∀ way s, data.arrayOnWay? (Path.ofText c.path) = some (way, s) →
      violations data [c] = [⟨Path.text way, .unresolvedObject s⟩] := by
  have hne : c.path ≠ "" := by
    intro hempty
    have hmem : "" ∈ Text.split '.' c.path := by rw [hempty]; exact List.mem_singleton.2 rfl
    exact (hliteral "" hmem).1 rfl
  have hsegments : Path.ofText c.path = Text.split '.' c.path := if_neg hne
  have hsolid : Path.solidSegments c.path = Text.split '.' c.path :=
    List.filter_eq_self.2 fun s hs => decide_eq_true (hliteral s hs).1
  have htext : Path.text (Text.split '.' c.path) = c.path := Text.join_split '.' c.path
  rw [hsegments] at h ⊢
  have hwalk := c.walk_of_getAt (fun s hs => (hliteral s hs).2) h []
  have hviolations : violations data [c] = c.walk (Text.split '.' c.path) [] (some data) := by
    rw [violations, Typography.violations_eq_nil htypography, List.append_nil,
      List.flatMap_singleton, Control.violationsIn, hsolid]
  rw [hviolations, hwalk, List.nil_append, htext]
  rcases hway : data.arrayOnWay? (Text.split '.' c.path) with _ | ⟨way, s⟩
  · simp
  · refine ⟨iff_of_false ?_ (by simp), ?_⟩
    · -- The report names the place of the array, and that is another place.
      intro hreport
      have hplace : Path.text way = c.path := by
        unfold Control.judged at hreport
        rcases hfault : c.placeFault? (some v) with _ | fault
        · simp [hfault] at hreport
        · simp only [hfault, Option.map_some, Option.toList_some, List.cons.injEq,
            Violation.mk.injEq, List.nil_append] at hreport
          exact hreport.1.1
      obtain ⟨rest, hsplit⟩ := Node.exists_of_arrayOnWay? hway
      have hdots : ∀ r ∈ way, '.' ∉ r.toList := fun r hr =>
        Text.notMem_of_mem_split (hsplit ▸ List.mem_append_left _ hr)
      by_cases hroot : way = []
      · rw [hroot] at hplace
        exact hne hplace.symm
      · have hparts : Text.split '.' c.path = way := hplace ▸ Text.split_join hroot hdots
        have hlength := congrArg List.length (hparts.symm.trans hsplit)
        simp at hlength
    · rintro _ _ ⟨⟩
      rfl

/-! ## The first question -/

/-- A control at the question of one item. -/
def firstQuestion : Control :=
  { panelId := "content", type := "textfield", path := "faqs.0.question", kind := .string }

/-- A question that is no text, as a member of an object. -/
def keyedQuestion : Node :=
  .object [("faqs", .object [("0", .object [("question", .bool true)])])]

/-- A question as an item of an array. -/
def listedQuestion : Node :=
  .object [("faqs", .array [.object [("question", .string "Why?")]])]

/-- In an object the name of a member may be made of digits, and the value under it is judged. -/
theorem a_question_under_a_number_is_judged :
    (∀ x, keyedQuestion.member? "typography" = some x → x.isObject = false) ∧
      (∀ s ∈ Text.split '.' firstQuestion.path, s ≠ "" ∧ Path.isWildcard s = false) ∧
      keyedQuestion.getAt (Path.ofText firstQuestion.path) = some (.bool true) ∧
      violations keyedQuestion [firstQuestion] = [⟨"faqs.0.question", .notString⟩] := by
  have htypography : ∀ x, keyedQuestion.member? "typography" = some x → x.isObject = false :=
    fun x hx => by cases hx
  have hliteral : ∀ s ∈ Text.split '.' firstQuestion.path, s ≠ "" ∧ Path.isWildcard s = false := by
    decide
  have hvalue : keyedQuestion.getAt (Path.ofText firstQuestion.path) = some (.bool true) := rfl
  have hjudged := (a_literal_place_is_judged_unless_an_array_is_on_the_way htypography hliteral
    hvalue).1
  exact ⟨htypography, hliteral, hvalue, hjudged.2 rfl⟩

/-- A text at the place of a control for texts can be reported all the same, if it stands in an
array. -/
theorem a_literal_place_is_not_always_judged :
    ¬ ∀ (data v : Node) (c : Control),
      (∀ x, data.member? "typography" = some x → x.isObject = false) →
      (∀ s ∈ Text.split '.' c.path, s ≠ "" ∧ Path.isWildcard s = false) →
      data.getAt (Path.ofText c.path) = some v → violations data [c] = c.judged c.path v := by
  intro hall
  have hjudged := hall listedQuestion (.string "Why?") firstQuestion (fun x hx => by cases hx)
    (by decide) rfl
  have hreported : violations listedQuestion [firstQuestion] =
      [⟨"faqs", .unresolvedObject "0"⟩] := rfl
  rw [hreported] at hjudged
  exact absurd hjudged (List.cons_ne_nil _ _)

end WidgetSchema
