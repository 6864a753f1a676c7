-- Which edit is blamed for a violation that is left at the end of a batch. The search goes over
-- the places of the edits once and keeps the best one so far. A later place that is as close takes
-- over, so what is kept is always the last of the closest places.
import Mathlib.Data.List.Forall2
import WidgetSchema.Proofs.Edit.Accepted
namespace WidgetSchema.Editor

/-! ## Common ways -/

/-- Two places begin with a way of as many segments as they share. -/
theorem exists_shared (p q : Path) : ∃ way, way <+: p ∧ way <+: q ∧ way.length = shared p q := by
  induction p generalizing q with
  | nil => exact ⟨[], List.nil_prefix, List.nil_prefix, rfl⟩
  | cons a p ih =>
    cases q with
    | nil => exact ⟨[], List.nil_prefix, List.nil_prefix, rfl⟩
    | cons b q =>
      unfold shared
      split
      · rename_i hab
        obtain ⟨way, hp, hq, hlength⟩ := ih q
        exact ⟨a :: way, List.cons_prefix_cons.2 ⟨rfl, hp⟩, List.cons_prefix_cons.2 ⟨hab, hq⟩,
          congrArg (· + 1) hlength⟩
      · exact ⟨[], List.nil_prefix, List.nil_prefix, rfl⟩

/-- No way that two places begin with is longer than what they share. -/
theorem length_le_shared {way p q : Path} (hp : way <+: p) (hq : way <+: q) :
    way.length ≤ shared p q := by
  induction way generalizing p q with
  | nil => exact Nat.zero_le _
  | cons a way ih =>
    obtain ⟨p, rfl⟩ := hp
    obtain ⟨q, rfl⟩ := hq
    rw [List.cons_append, List.cons_append, shared, if_pos rfl, List.length_cons]
    exact Nat.succ_le_succ (ih (List.prefix_append way p) (List.prefix_append way q))

/-! ## The search -/

/-- A place of a list that shares `score` segments with the target. No place shares more, and
no later one as many. -/
structure LastClosest (target : Path) (places : List (Option Path)) (index score : Nat) : Prop where
  here : ∃ p, places[index]? = some (some p) ∧ shared target p = score
  closest : ∀ (j : Nat) p, places[j]? = some (some p) →
    shared target p ≤ score ∧ (index < j → shared target p < score)

/-- What the search has kept after some places. -/
def Keeps (target : Path) (places : List (Option Path)) : Option (Nat × Nat) → Prop
  | none => ∀ (j : Nat) p, places[j]? ≠ some (some p)
  | some (index, score) => LastClosest target places index score

section Search

variable {target p : Path} {places : List (Option Path)} {best : Option (Nat × Nat)}
  {index score : Nat}

theorem getElem?_snoc_eq_some_iff {α : Type} {xs : List α} {x y : α} {j : Nat} :
    (xs ++ [x])[j]? = some y ↔ xs[j]? = some y ∨ j = xs.length ∧ x = y := by
  grind

/-- An edit without a place is passed over. -/
theorem Keeps.snoc_none (h : Keeps target places best) :
    Keeps target (places ++ [none]) best := by
  have hsame : ∀ (j : Nat) q, (places ++ [none])[j]? = some (some q) →
      places[j]? = some (some q) := by
    intro j q hj
    simpa using getElem?_snoc_eq_some_iff.1 hj
  rcases best with _ | ⟨index, score⟩
  · exact fun j q hj => h j q (hsame j q hj)
  · obtain ⟨⟨p, hp, hscore⟩, hclosest⟩ := h
    exact ⟨⟨p, getElem?_snoc_eq_some_iff.2 (Or.inl hp), hscore⟩,
      fun j q hj => hclosest j q (hsame j q hj)⟩

/-- A place that is as close as all before it takes over. -/
theorem lastClosest_snoc
    (h : ∀ (j : Nat) q, places[j]? = some (some q) → shared target q ≤ shared target p) :
    LastClosest target (places ++ [some p]) places.length (shared target p) where
  here := ⟨p, List.getElem?_concat_length, rfl⟩
  closest j q hj := by
    rcases getElem?_snoc_eq_some_iff.1 hj with hj | ⟨rfl, hq⟩
    · have hlt : j < places.length := (List.getElem?_eq_some_iff.1 hj).1
      exact ⟨h j q hj, fun hlater => by omega⟩
    · obtain rfl : p = q := Option.some.inj hq
      exact ⟨Nat.le_refl _, fun hlater => absurd hlater (Nat.lt_irrefl _)⟩

/-- A place that is less close than the best one changes nothing. -/
theorem LastClosest.snoc (h : LastClosest target places index score)
    (hp : shared target p < score) : LastClosest target (places ++ [some p]) index score where
  here := by
    obtain ⟨q, hq, hscore⟩ := h.here
    exact ⟨q, getElem?_snoc_eq_some_iff.2 (Or.inl hq), hscore⟩
  closest j q hj := by
    rcases getElem?_snoc_eq_some_iff.1 hj with hj | ⟨_, hq⟩
    · exact h.closest j q hj
    · obtain rfl : p = q := Option.some.inj hq
      exact ⟨Nat.le_of_lt hp, fun _ => hp⟩

/-- The search goes on with what it has kept. -/
theorem keeps_blamed (h : Keeps target places best) (rest : List (Option Path)) :
    Keeps target (places ++ rest) (blamed target places.length best rest) := by
  -- The places that were gone over grow by one at each step. Their number is the next index.
  induction rest generalizing places best with
  | nil =>
    rw [blamed, List.append_nil]
    exact h
  | cons place rest ih =>
    have hstep : ∀ {best}, Keeps target (places ++ [place]) best →
        Keeps target (places ++ place :: rest) (blamed target (places.length + 1) best rest) := by
      intro best hbest
      have hrest := ih hbest
      rwa [List.append_assoc, List.singleton_append, List.length_append, List.length_singleton]
        at hrest
    rcases place with _ | p
    · exact hstep h.snoc_none
    · rcases best with _ | ⟨index, score⟩
      · exact hstep (lastClosest_snoc fun j q hj => absurd hj (h j q))
      · unfold blamed
        dsimp only
        split
        · rename_i hle
          exact hstep (lastClosest_snoc fun j q hj => Nat.le_trans (h.closest j q hj).1 hle)
        · rename_i hlt
          exact hstep (h.snoc (Nat.lt_of_not_le hlt))

end Search

/-! ## The edits of a batch -/

/-- A way that a place begins with and the place of an edit of the batch too. -/
def CommonWay (ops : List Node) (place : String) (index : Nat) (way : Path) : Prop :=
  ∃ op path, ops[index]? = some op ∧ opPath? op = some path ∧
    way <+: chargeSegments place ∧ way <+: chargeSegments path

/-- The edit whose place has the longest way in common with a place. No later edit has one that
is as long. -/
def IsBlamed (ops : List Node) (place : String) (index : Nat) : Prop :=
  ∃ way, CommonWay ops place index way ∧ ∀ j other, CommonWay ops place j other →
    other.length ≤ way.length ∧ (index < j → other.length < way.length)

/-- How a violation is reported when a batch is refused. -/
structure ChargedTo (ops : List Node) (v : Violation) (r : Rejection) : Prop where
  path : r.path = some v.path
  message : r.message = v.message
  index_lt : r.opIndex < ops.length
  blamed : IsBlamed ops v.path r.opIndex

/-- Every edit of a batch that goes through names its place. -/
theorem opPath?_of_run {e : Editor} {ops : List Node} {index : Nat} {t final : Node}
    (h : e.run index t ops = .ok final) : ∀ op ∈ ops, ∃ path, opPath? op = some path := by
  induction ops generalizing index t with
  | nil => exact fun op hop => absurd hop List.not_mem_nil
  | cons op ops ih =>
    obtain ⟨next, hstep, hrest⟩ := run_cons_eq_ok_iff.1 h
    obtain ⟨_, path, _, _, _, hpath, _⟩ := change_eq_ok_iff.1 (step_eq_ok_iff.1 hstep).1
    exact List.forall_mem_cons.2 ⟨⟨path, hpath⟩, ih hrest⟩

/-- The place of an edit as violations are charged by it. -/
def chargePlace? (op : Node) : Option Path :=
  ((op.member? "path").bind Node.string?).map chargeSegments

theorem chargePlace?_of_opPath? {op : Node} {path : String} (h : opPath? op = some path) :
    chargePlace? op = some (chargeSegments path) :=
  congrArg (Option.map chargeSegments) (Option.filter_eq_some_iff.1 h).1

theorem getElem?_chargePlaces_iff {ops : List Node}
    (h : ∀ op ∈ ops, ∃ path, opPath? op = some path) {j : Nat} {p : Path} :
    (ops.map chargePlace?)[j]? = some (some p) ↔
      ∃ op path, ops[j]? = some op ∧ opPath? op = some path ∧ chargeSegments path = p := by
  rw [List.getElem?_map, Option.map_eq_some_iff]
  constructor
  · rintro ⟨op, hop, hp⟩
    obtain ⟨path, hpath⟩ := h op (List.mem_of_getElem? hop)
    rw [chargePlace?_of_opPath? hpath] at hp
    exact ⟨op, path, hop, hpath, Option.some.inj hp⟩
  · rintro ⟨op, path, hop, hpath, rfl⟩
    exact ⟨op, hop, chargePlace?_of_opPath? hpath⟩

/-- The last of the closest places is that of the edit to blame. -/
theorem LastClosest.isBlamed {ops : List Node} (h : ∀ op ∈ ops, ∃ path, opPath? op = some path)
    {place : String} {index score : Nat}
    (hlast : LastClosest (chargeSegments place) (ops.map chargePlace?) index score) :
    IsBlamed ops place index := by
  obtain ⟨⟨p, hp, rfl⟩, hclosest⟩ := hlast
  obtain ⟨op, path, hop, hpath, rfl⟩ := (getElem?_chargePlaces_iff h).1 hp
  obtain ⟨way, hplace, hway, hlength⟩ := exists_shared (chargeSegments place) (chargeSegments path)
  refine ⟨way, ⟨op, path, hop, hpath, hplace, hway⟩, ?_⟩
  rintro j other ⟨op', path', hop', hpath', hother, hother'⟩
  have hle := length_le_shared hother hother'
  obtain ⟨hmost, hlater⟩ := hclosest j _
    ((getElem?_chargePlaces_iff h).2 ⟨op', path', hop', hpath', rfl⟩)
  rw [hlength]
  exact ⟨Nat.le_trans hle hmost, fun hj => Nat.lt_of_le_of_lt hle (hlater hj)⟩

/-- The search finds an edit of every batch in which each edit names its place. -/
theorem exists_blamed {ops : List Node} (hne : ops ≠ [])
    (h : ∀ op ∈ ops, ∃ path, opPath? op = some path) (place : String) :
    ∃ index score, blamed (chargeSegments place) 0 none (ops.map chargePlace?) =
      some (index, score) ∧ IsBlamed ops place index := by
  have hstart : Keeps (chargeSegments place) [] none := fun j p hj => nomatch hj
  have hkept : Keeps (chargeSegments place) (ops.map chargePlace?)
      (blamed (chargeSegments place) 0 none (ops.map chargePlace?)) := keeps_blamed hstart _
  rcases hblamed : blamed (chargeSegments place) 0 none (ops.map chargePlace?) with _ | ⟨i, s⟩
  · obtain ⟨op, rest, rfl⟩ := List.exists_cons_of_ne_nil hne
    obtain ⟨path, hpath⟩ := h op List.mem_cons_self
    rw [hblamed] at hkept
    exact absurd (congrArg some (chargePlace?_of_opPath? hpath)) (hkept 0 _)
  · rw [hblamed] at hkept
    exact ⟨i, s, rfl, LastClosest.isBlamed h hkept⟩

theorem IsBlamed.index_lt {ops : List Node} {place : String} {index : Nat}
    (h : IsBlamed ops place index) : index < ops.length := by
  obtain ⟨_, ⟨_, _, hop, _⟩, _⟩ := h
  exact (List.getElem?_eq_some_iff.1 hop).1

/-- Every violation is charged to the edit to blame for it. -/
theorem charge_chargedTo {ops : List Node} (hne : ops ≠ [])
    (h : ∀ op ∈ ops, ∃ path, opPath? op = some path) (vs : List Violation) :
    List.Forall₂ (ChargedTo ops) vs (charge ops vs) := by
  refine List.forall₂_map_right_iff.2 (List.forall₂_same.2 fun v _ => ?_)
  obtain ⟨index, score, hfound, hblamed⟩ := exists_blamed hne h v.path
  have hindex : ((blamed (chargeSegments v.path) 0 none (ops.map chargePlace?)).map
      (·.1)).getD 0 = index := by rw [hfound]; rfl
  exact {
    path := rfl
    message := rfl
    index_lt := hindex ▸ hblamed.index_lt
    blamed := hindex ▸ hblamed }

/-- A batch that leaves violations at its end is refused with them, in their order. Each is
charged to the last of the edits whose places are closest to it. -/
theorem final_violations_are_charged_to_the_last_closest_edits {e : Editor} {data final : Node}
    {ops : List Node} (hpolicy : e.policy = .endOfBatch) (hne : ops ≠ [])
    (hrun : e.run 0 data ops = .ok final) (hinvalid : ¬ IsValid final e.controls) :
    ∃ rejections, e.apply data ops = .error rejections ∧
      List.Forall₂ (ChargedTo ops) (violations final e.controls) rejections := by
  refine ⟨charge ops (violations final e.controls), ?_,
    charge_chargedTo hne (opPath?_of_run hrun) _⟩
  have hempty : ops.isEmpty = false := List.isEmpty_eq_false_iff.2 hne
  unfold apply
  rw [hempty, hrun, hpolicy]
  rcases hvs : violations final e.controls with _ | ⟨v, vs⟩
  · exact absurd hvs hinvalid
  · simp only [Bool.false_eq_true, if_false, hvs]

/-- Both answers get a truth value. -/
def wrongAnswers : List Node := [
  .object [("op", .string "set"), ("path", .string "faqs.0.answer"), ("value", .bool true)],
  .object [("op", .string "set"), ("path", .string "faqs.1.answer"), ("value", .bool true)]]

/-- What both wrong answers leave behind. -/
def wronglyAnswered : Node :=
  .object [("faqs", .array [
    .object [("answer", .bool true), ("id", .string "a")],
    .object [("answer", .bool true), ("id", .string "b")]])]

theorem each_wrong_answer_is_charged_to_its_edit :
    answers.run 0 (answered "No") wrongAnswers = .ok wronglyAnswered ∧
      violations wronglyAnswered answers.controls =
        [⟨"faqs.0.answer", .unresolvedObject "text"⟩, ⟨"faqs.1.answer", .unresolvedObject "text"⟩] ∧
      ∃ rejections, answers.apply (answered "No") wrongAnswers = .error rejections ∧
        List.Forall₂ (ChargedTo wrongAnswers) (violations wronglyAnswered answers.controls)
          rejections :=
  ⟨rfl, by decide, final_violations_are_charged_to_the_last_closest_edits rfl (by decide) rfl
    (by decide)⟩

end WidgetSchema.Editor
