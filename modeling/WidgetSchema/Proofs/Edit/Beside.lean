-- What a batch leaves alone. Between two valid trees no edit can cost an array: the pattern of
-- its control asks both trees for an array at the same place, and no write makes an array of
-- something else. So every place that is not comparable with an edited one keeps its value.
import Mathlib.Logic.Relation
import WidgetSchema.Proofs.Control.Fits
import WidgetSchema.Proofs.Edit.Accepted
namespace WidgetSchema

open Relation (ReflTransGen)

/-! ## Runs of writes beside a place -/

/-- One write on the way from a first tree to a last one, beside the place `q`. It follows
segments that fit both of these trees. -/
inductive WriteBeside (first last : Node) (q : Path) (t : Node) : Node → Prop
  | write {c : Control} {segments p : Path} (v : Node) (fits_first : c.Fits segments (some first))
      (fits_last : c.Fits segments (some last)) (accepted : Pattern.acceptsAll segments p = true)
      (beside : ¬ Path.Comparable p q) (gapless : t.gapAt? p = none) :
      WriteBeside first last q t (t.setAt p v)

namespace WriteBeside

variable {first last t u : Node} {r : String} {q : Path}

theorem not_at_root : ¬ WriteBeside first last [] t u := by
  rintro ⟨_, _, _, _, beside, _⟩
  exact beside (Path.comparable_nil _)

/-- The first step of a write, taken apart from the rest of it. -/
theorem first_step (h : WriteBeside first last (r :: q) t u) :
    ∃ c σ rest s p v, Control.Fits c (σ :: rest) (some first) ∧ c.Fits (σ :: rest) (some last) ∧
      Pattern.acceptsSegment σ s = true ∧ Pattern.acceptsAll rest p = true ∧
      (Path.SameStep s r → ¬ Path.Comparable p q) ∧ t.gapAt? (s :: p) = none ∧
      u = t.setAt (s :: p) v := by
  obtain @⟨c, segments, p, v, hfirst, hlast, haccepted, hbeside, hgapless⟩ := h
  cases p with
  | nil => exact absurd trivial hbeside
  | cons s p =>
    cases segments with
    | nil => simp [Pattern.acceptsAll] at haccepted
    | cons σ rest =>
      obtain ⟨hσ, hrest⟩ := Bool.and_eq_true_iff.1 haccepted
      exact ⟨c, σ, rest, s, p, v, hfirst, hlast, hσ, hrest, fun hs hp => hbeside ⟨hs, hp⟩,
        hgapless, rfl⟩

theorem isArray_of_isArray (h : WriteBeside first last (r :: q) t u) (hu : u.isArray = true) :
    t.isArray = true := by
  obtain ⟨_, _, _, _, _, _, _, _, _, _, _, _, rfl⟩ := h.first_step
  exact (Node.isArray_of_isArray_setAt hu).1

end WriteBeside

namespace RunBeside

variable {first last t u : Node} {r : String} {q : Path}

theorem isArray_of_isArray (h : ReflTransGen (WriteBeside first last (r :: q)) t u)
    (hu : u.isArray = true) : t.isArray = true := by
  induction h using ReflTransGen.head_induction_on with
  | refl => exact hu
  | head hstep _ ih => exact hstep.isArray_of_isArray ih

/-- No run brings a value to a place beside its writes. -/
theorem getAt_eq_none (h : ReflTransGen (WriteBeside first last q) t u)
    (ht : t.getAt q = none) : u.getAt q = none := by
  induction h with
  | refl => exact ht
  | tail _ hstep ih =>
    obtain ⟨v, _, _, _, hbeside, hgapless⟩ := hstep
    exact Node.getAt_setAt_eq_none hbeside hgapless ih v

/-- The kind of container that the first and the last tree both are. For arrays it holds all
along a run because it holds at its end, for objects because it holds at its beginning. -/
def SameKind (first last t : Node) : Prop :=
  (first.isArray = true ∧ last.isArray = true) ∨
    (first.isObject = true ∧ last.isObject = true ∧ t.isObject = true)

/-- A run keeps what stands one step on the way to the place beside it, and takes it through a
run of its own. -/
theorem child (h : ReflTransGen (WriteBeside first last (r :: q)) t last)
    (hk : SameKind first last t) {x : Node} (hx : t.child? r = some x) :
    ∃ y, last.child? r = some y ∧
      ∀ a, first.child? r = some a → ReflTransGen (WriteBeside a y q) x y := by
  induction h using ReflTransGen.head_induction_on generalizing x with
  | refl => exact ⟨x, hx, fun _ _ => ReflTransGen.refl⟩
  | head hstep hrest ih =>
    rename_i t u
    obtain ⟨c, σ, rest, s, p, v, hfirst, hlast, hσ, haccepted, hbeside, hgapless, rfl⟩ :=
      hstep.first_step
    have hkeep : t.reshapedBy s = false := by
      rcases hk with ⟨_, hl⟩ | ⟨_, _, ho⟩
      · exact (Node.isArray_of_isArray_setAt (isArray_of_isArray hrest hl)).2
      · exact Node.reshapedBy_of_isObject ho s
    have hku : SameKind first last (t.setAt (s :: p) v) := by
      rcases hk with hk | ⟨hf, hl, ho⟩
      · exact Or.inl hk
      · exact Or.inr ⟨hf, hl, (Node.kind_setAt hkeep p v).2 ho⟩
    have hchild := Node.child?_setAt hgapless hkeep v r
    by_cases hs : t.sameSlot s r = true
    · have hxs : t.child? s = some x := (Node.child?_of_sameSlot hs).trans hx
      rw [if_pos hs, hxs, Option.getD_some] at hchild
      obtain ⟨y, hy, hrun⟩ := ih hku hchild
      have hname : Path.isWildcard σ = false → σ = r := by
        intro hw
        rcases hk with ⟨hf, _⟩ | ⟨_, _, ho⟩
        · have hn := Control.isWildcard_of_isArray hfirst hf
          rw [hw] at hn
          cases hn
        · exact (Pattern.eq_of_acceptsSegment hσ hw).trans (Node.eq_of_sameSlot_of_isObject ho hs)
      refine ⟨y, hy, fun a ha => ReflTransGen.head ?_ (hrun a ha)⟩
      exact .write v (Control.fits_child hfirst hname ha) (Control.fits_child hlast hname hy)
        haccepted (hbeside (Node.sameStep_of_sameSlot hs)) (Node.gapAt?_child hgapless hxs)
    · rw [if_neg hs] at hchild
      exact ih hku (hchild.trans hx)

/-- A run between two trees leaves a place beside its writes as it was. -/
theorem getAt_eq (h : ReflTransGen (WriteBeside first last q) first last) :
    last.getAt q = first.getAt q := by
  induction q generalizing first last with
  | nil =>
    rcases h.cases_head with rfl | ⟨_, hstep, _⟩
    · rfl
    · exact absurd hstep WriteBeside.not_at_root
  | cons r q ih =>
    rcases h.cases_head with rfl | ⟨_, hstep, _⟩
    · rfl
    · rcases hx : first.child? r with _ | x
      · have hnone : first.getAt (r :: q) = none := by
          rw [Node.getAt_cons, hx]
          rfl
        rw [hnone, getAt_eq_none h hnone]
      · obtain ⟨_, _, _, _, _, _, hfirst, hlast, _⟩ := hstep.first_step
        have hk : SameKind first last first :=
          (Control.same_kind_of_fits hfirst hlast).imp id fun ho => ⟨ho.1, ho.2, ho.1⟩
        obtain ⟨y, hy, hrun⟩ := child h hk hx
        rw [Node.getAt_cons, Node.getAt_cons, hx, hy]
        exact ih (hrun x hx)

end RunBeside

namespace Editor

/-! ## Batches -/

/-- An accepted batch that starts from a valid tree changes nothing at a place that is not
comparable with the place of one of its edits, also where the trees in between are not valid. -/
theorem a_batch_changes_nothing_beside_its_places {e : Editor} {data next : Node}
    {ops : List Node} (hvalid : IsValid data e.controls) (h : e.apply data ops = .ok next)
    {q : Path} (hq : ∀ op ∈ ops, ∀ path, opPath? op = some path →
      ¬ Path.Comparable (Path.ofText path) q) :
    next.getAt q = data.getAt q := by
  obtain ⟨hrun, hnext⟩ := run_of_apply h
  have hstep : ∀ op ∈ ops, ∀ t u, e.change t op = .ok u →
      ReflTransGen (WriteBeside data next q) data t →
      ReflTransGen (WriteBeside data next q) data u := by
    intro op hop t u hchange ht
    obtain ⟨name, path, c, _, _, hpath, _, hc, hperform⟩ := change_eq_ok_iff.1 hchange
    obtain ⟨v, hgap, rfl⟩ := setAt_of_perform hperform
    obtain ⟨hmem, hgoverns⟩ := Control.governs_of_governing? hc
    have haccepts := (Bool.and_eq_true_iff.1 hgoverns).2
    exact ht.tail (.write v (Control.fits_of_isValid hvalid hmem)
      (Control.fits_of_isValid hnext hmem) (Pattern.acceptsAll_of_accepts haccepts)
      (hq op hop path hpath) hgap)
  exact RunBeside.getAt_eq (run_preserves hstep hrun ReflTransGen.refl)

/-- The batch on the second answer leaves the first answer alone. -/
theorem the_first_answer_stays :
    IsValid (answered "No") answers.controls ∧
      answers.apply (answered "No") answerOps = .ok (answered "Maybe") ∧
      (answered "Maybe").getAt ["faqs", "0", "answer", "text"] =
        (answered "No").getAt ["faqs", "0", "answer", "text"] := by
  have hvalid : IsValid (answered "No") answers.controls := rfl
  refine ⟨hvalid, apply_answerOps, a_batch_changes_nothing_beside_its_places hvalid
    apply_answerOps ?_⟩
  intro op hop path hpath
  simp only [answerOps, List.mem_cons, List.not_mem_nil, or_false] at hop
  rcases hop with rfl | rfl
  · have hp : path = "faqs.01.answer" := (Option.some.inj hpath).symm
    subst hp
    decide
  · have hp : path = "faqs.1.answer.text" := (Option.some.inj hpath).symm
    subst hp
    decide

end Editor

end WidgetSchema
