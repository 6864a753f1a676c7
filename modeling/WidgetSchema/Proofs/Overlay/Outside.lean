-- What an overlay leaves alone. The allowlist is asked about a place with its segments trimmed,
-- the tree is written at the place as it stands. So no write goes to a place that the list does
-- not speak of; but on its way it can still turn an array into an object, and what lies
-- outside the list goes with the items.
import WidgetSchema.Overlay.Op
import WidgetSchema.Proofs.Node.Position
namespace WidgetSchema

open WidgetSchema.Path (index? SameStep Comparable)

/-! ## Positions -/

namespace Path

/-- Positions are written without leading zeros. -/
def Canonical (p : Path) : Prop := ∀ s ∈ p, ∀ i ∈ index? s, s = toString i

instance : DecidablePred Canonical := fun p =>
  inferInstanceAs (Decidable (∀ s ∈ p, ∀ i ∈ index? s, s = toString i))

/-- One segment twice, or a position and its spelling without leading zeros. -/
def Respelled (s r : String) : Prop :=
  s = r ∨ ∃ i, index? s = some i ∧ index? r = some i ∧ r = toString i

theorem respelled_of_sameStep {p q : Path} (h : List.Forall₂ SameStep p q) (hq : Canonical q) :
    List.Forall₂ Respelled p q := by
  induction h with
  | nil => exact .nil
  | cons hs _ ih =>
    refine .cons ?_ (ih fun x hx => hq x (List.mem_cons_of_mem _ hx))
    rcases hs with rfl | ⟨i, hs, hr⟩
    · exact Or.inl rfl
    · exact Or.inr ⟨i, hs, hr, hq _ List.mem_cons_self i hr⟩

end Path

namespace Allowlist

/-! ## Allowed segments -/

/-- The segments as the allowlist compares them. -/
def compared (p : Path) : Path := (p.map Text.trim).filter (· ≠ "")

theorem compared_cons (s : String) (p : Path) :
    compared (s :: p) = if Text.trim s = "" then compared p else Text.trim s :: compared p := by
  by_cases hs : Text.trim s = "" <;> simp [compared, hs]

theorem compared_cons_of_index? {s : String} {i : Nat} (h : index? s = some i) (p : Path) :
    compared (s :: p) = s :: compared p := by
  rw [compared_cons, Path.trim_of_index? h, if_neg (Path.index?_eq_some_iff.1 h).1]

/-- What allows a place allows the place with positions written without leading zeros. -/
theorem allowsAll_of_respelled {pattern p q : Path} (hpattern : Path.Canonical pattern)
    (hpq : List.Forall₂ Path.Respelled p q) (h : allowsAll pattern (compared p) = true) :
    allowsAll pattern (compared q) = true := by
  induction hpq generalizing pattern with
  | nil => exact h
  | cons hs hrest ih =>
    rename_i s r p q
    -- Unless a segment is blank and falls away, the first segment of the pattern allows it.
    have hstep : ∀ a b, (∀ π, π ∈ pattern → allowsSegment π a = true → allowsSegment π b = true) →
        allowsAll pattern (a :: compared p) = true →
        allowsAll pattern (b :: compared q) = true := by
      intro a b hab hall
      cases pattern with
      | nil => simp [allowsAll] at hall
      | cons π pattern =>
        obtain ⟨hπ, hall⟩ := Bool.and_eq_true_iff.1 hall
        have hrec := ih (fun x hx => hpattern x (List.mem_cons_of_mem _ hx)) hall
        exact Bool.and_eq_true_iff.2 ⟨hab π List.mem_cons_self hπ, hrec⟩
    rcases hs with rfl | ⟨i, hs, hr, hri⟩
    · rw [compared_cons] at h ⊢
      by_cases hblank : Text.trim s = ""
      · rw [if_pos hblank] at h ⊢
        exact ih hpattern h
      · rw [if_neg hblank] at h ⊢
        exact hstep _ _ (fun _ _ hπ => hπ) h
    · rw [compared_cons_of_index? hs] at h
      rw [compared_cons_of_index? hr]
      refine hstep s r ?_ h
      intro π hmem hπ
      unfold allowsSegment at hπ ⊢
      by_cases hstar : π = "*"
      · rw [if_pos hstar, hr]
        rfl
      · rw [if_neg hstar] at hπ ⊢
        have hπs : π = s := by simpa using hπ
        have hπi := hpattern π hmem i (hπs ▸ hs)
        simp [hπi, hri]

theorem length_of_allowsAll {pattern p : Path} (h : allowsAll pattern p = true) :
    pattern.length = p.length := by
  induction pattern generalizing p with
  | nil =>
    cases p with
    | nil => rfl
    | cons s p => simp [allowsAll] at h
  | cons π pattern ih =>
    cases p with
    | nil => simp [allowsAll] at h
    | cons s p => rw [List.length_cons, List.length_cons, ih (Bool.and_eq_true_iff.1 h).2]

/-! ## Places outside the list -/

theorem allows_iff {allow : Allowlist} {place : String} :
    allow.allows place = true ↔ ∃ e ∈ allow, e.pattern ≠ "" ∧
      allowsAll (segments e.pattern) (compared (Text.split '.' place)) = true := by
  simp only [allows, List.any_eq_true, List.mem_filter, decide_eq_true_eq, ne_eq, and_assoc]
  rfl

theorem allows_of_respelled {allow : Allowlist} {a b : String}
    (hallow : ∀ e ∈ allow, Path.Canonical (segments e.pattern))
    (hab : List.Forall₂ Path.Respelled (Text.split '.' a) (Text.split '.' b))
    (h : allow.allows a = true) : allow.allows b = true := by
  obtain ⟨e, he, hne, hall⟩ := allows_iff.1 h
  exact allows_iff.2 ⟨e, he, hne, allowsAll_of_respelled (hallow e he) hab hall⟩

/-- A place that the list does not speak of: no entry allows it, a place on the way to it or a
place below it. -/
structure Outside (allow : Allowlist) (q : String) : Prop where
  itself : allow.allows q = false
  above : ∀ a b, q = a ++ "." ++ b → allow.allows a = false
  below : ∀ rest, allow.allows (q ++ "." ++ rest) = false

/-- An allowed place is not comparable with one outside the list. -/
theorem not_comparable_of_outside {allow : Allowlist} {p q : String}
    (hallow : ∀ e ∈ allow, Path.Canonical (segments e.pattern))
    (hq : Path.Canonical (Text.split '.' q)) (ho : allow.Outside q) (hp : allow.allows p = true) :
    ¬ Comparable (Text.split '.' p) (Text.split '.' q) := by
  intro hcomparable
  have hitself : ¬ List.Forall₂ Path.Respelled (Text.split '.' p) (Text.split '.' q) := by
    intro hspelled
    have hallowed := allows_of_respelled hallow hspelled hp
    rw [ho.itself] at hallowed
    cases hallowed
  rcases Path.exists_of_comparable hcomparable with ⟨way, rest, hsplit, h⟩ | ⟨way, rest, hsplit, h⟩
  -- The allowed place is the one outside the list, or lies on the way to it.
  · have hway : way ≠ [] := by
      rintro rfl
      exact Text.split_ne_nil '.' p (List.forall₂_nil_right_iff.1 h)
    have hspelled : List.Forall₂ Path.Respelled (Text.split '.' p) way :=
      Path.respelled_of_sameStep h fun s hs => hq s (hsplit ▸ List.mem_append_left _ hs)
    by_cases hrest : rest = []
    · rw [hrest, List.append_nil] at hsplit
      exact hitself (hsplit ▸ hspelled)
    · obtain ⟨a, b, hab, ha, _⟩ := Text.append_of_split hsplit hway hrest
      have habove := allows_of_respelled hallow (ha ▸ hspelled) hp
      rw [ho.above a b hab] at habove
      cases habove
  -- It lies below: its last segments behind the place give a place below that is allowed too.
  · have hspelled : List.Forall₂ Path.Respelled way (Text.split '.' q) :=
      Path.respelled_of_sameStep h hq
    have hway : way ≠ [] := by
      rintro rfl
      exact Text.split_ne_nil '.' q (List.forall₂_nil_left_iff.1 h)
    by_cases hrest : rest = []
    · rw [hrest, List.append_nil] at hsplit
      exact hitself (hsplit ▸ hspelled)
    · obtain ⟨_, b, _, _, hb⟩ := Text.append_of_split hsplit hway hrest
      have hsame : List.Forall₂ Path.Respelled rest (Text.split '.' b) := by
        rw [hb]
        exact List.forall₂_same.2 fun _ _ => Or.inl rfl
      have hlonger : Text.split '.' (q ++ "." ++ b) = Text.split '.' q ++ Text.split '.' b :=
        Text.split_append '.' q b
      have hbelow := allows_of_respelled (b := q ++ "." ++ b) hallow
        (hsplit ▸ hlonger ▸ List.rel_append hspelled hsame) hp
      rw [ho.below b] at hbelow
      cases hbelow

end Allowlist

namespace Overlay

/-! ## Single edits -/

/-- The place of an edit in normal form. It is empty where the edit names none. -/
def place (op : Node) : String :=
  (((op.member? "path").bind Node.string?).map normalPath).getD ""

theorem place_toNode (o : OverlayOp) : place o.toNode = normalPath o.path := rfl

theorem change_eq_ok_iff {allow : Allowlist} {t op next : Node} :
    change allow t op = .ok next ↔
      ∃ value, op.isObject = true ∧ (op.member? "op").bind Node.string? = some "set" ∧
        place op ≠ "" ∧ isProhibited (place op) = false ∧ allow.allows (place op) = true ∧
        (op.member? "value").bind Node.string? = some value ∧
        t.gapAt? (Path.ofText (place op)) = none ∧
        next = t.setAt (Path.ofText (place op)) (.string value) := by
  have hplace : (((op.member? "path").bind Node.string?).map normalPath).getD "" = place op := rfl
  unfold change
  simp only [hplace]
  by_cases ho : op.isObject = true
  · by_cases hs : (op.member? "op").bind Node.string? = some "set"
    · by_cases he : place op = ""
      · simp [ho, hs, he]
      · by_cases hx : isProhibited (place op) = true
        · simp [ho, hs, he, hx]
        · by_cases ha : allow.allows (place op) = true
          · rcases hv : (op.member? "value").bind Node.string? with _ | value
            · simp [ho, hs, he, hx, ha]
            · rcases hgap : t.gapAt? (Path.ofText (place op)) with _ | ⟨i, n⟩
              · simp [ho, hs, he, hx, ha, eq_comm]
              · simp [ho, hs, he, hx, ha]
          · simp [ho, hs, he, hx, ha]
    · simp [ho, hs]
  · simp [ho]

/-- The segments of a place in normal form. -/
def solidParts (raw : String) : Path :=
  (Text.split '.' (String.ofList (dotted raw.toList))).filter (· ≠ "")

theorem normalPath_eq (raw : String) : normalPath raw = Path.text (solidParts raw) := by
  rw [normalPath, solidParts, Text.split, String.toList_ofList]

theorem solid_of_mem_solidParts {raw s : String} (h : s ∈ solidParts raw) :
    s ≠ "" ∧ '.' ∉ s.toList := by
  obtain ⟨hs, hne⟩ := List.mem_filter.1 h
  exact ⟨of_decide_eq_true hne, Text.notMem_of_mem_split hs⟩

theorem ofText_normalPath (raw : String) : Path.ofText (normalPath raw) = solidParts raw := by
  rw [normalPath_eq]
  exact Path.ofText_text_of_solid fun _ => solid_of_mem_solidParts

theorem dotted_of_not_mem {cs : List Char} (h : '[' ∉ cs) : dotted cs = cs := by
  induction cs with
  | nil => rw [dotted]
  | cons c cs ih =>
    rw [List.mem_cons, not_or] at h
    rw [dotted, ih h.2]
    exact Ne.symm h.1

/-- A place without brackets only loses its empty segments. -/
theorem normalPath_of_not_mem {s : String} (h : '[' ∉ s.toList) :
    normalPath s = Path.text ((Text.split '.' s).filter (· ≠ "")) := by
  rw [normalPath_eq, solidParts, dotted_of_not_mem h, String.ofList_toList]

/-! ## Overlays -/

theorem applyFrom_cons_eq_ok_iff {allow : Allowlist} {index : Nat} {t next op : Node}
    {ops : List Node} :
    applyFrom allow index t (op :: ops) = .ok next ↔
      ∃ u, change allow t op = .ok u ∧ applyFrom allow (index + 1) u ops = .ok next := by
  rw [applyFrom]
  rcases hchange : change allow t op with err | u
  · simp
  · simp

/-- An overlay beside a place leaves the value there as it was, or, if one of its edits turns
an array on the way into an object, leaves nothing there. -/
theorem getAt_of_applyFrom {allow : Allowlist} {q : Path}
    (hq : ∀ p, allow.allows p = true → p ≠ "" → ¬ Comparable (Path.ofText p) q)
    {index : Nat} {base next : Node} {ops : List Node}
    (h : applyFrom allow index base ops = .ok next) :
    next.getAt q =
      if ops.any fun op => base.breaksWay (Path.ofText (place op)) q then none
      else base.getAt q := by
  induction ops generalizing index base with
  | nil =>
    have hbase : base = next := Except.ok.inj h
    rw [hbase]
    rfl
  | cons op ops ih =>
    obtain ⟨t, hc, h⟩ := applyFrom_cons_eq_ok_iff.1 h
    obtain ⟨value, _, _, hne, _, hallows, _, hgap, rfl⟩ := change_eq_ok_iff.1 hc
    have hbeside := hq _ hallows hne
    have hstep := Node.getAt_setAt_beside hbeside hgap (.string value)
    rw [ih h, hstep, List.any_cons]
    by_cases hbreak : base.breaksWay (Path.ofText (place op)) q = true
    · simp [hbreak]
    · have hkeep := Bool.eq_false_iff.2 hbreak
      rcases hv : base.getAt q with _ | v
      · simp
      · have hsame : ∀ o : Node, (base.setAt (Path.ofText (place op)) (.string value)).breaksWay
            (Path.ofText (place o)) q = base.breaksWay (Path.ofText (place o)) q := fun o =>
          Node.breaksWay_setAt hbeside hgap hkeep (by rw [hv]; rfl) _ _
        simp [hsame, hkeep]

/-- An overlay that is accepted changes the value at a place outside its allowlist just where
an edit, on its way, turns an array on the way to that place into an object. -/
theorem an_outside_place_stays_unless_an_array_gives_way {allow : Allowlist} {base next : Node}
    {ops : List Node} (h : apply allow base ops = .ok next)
    (hallow : ∀ e ∈ allow, Path.Canonical (Allowlist.segments e.pattern)) {q : String}
    (hne : q ≠ "") (hq : Path.Canonical (Path.ofText q)) (ho : allow.Outside q) :
    next.getAt (Path.ofText q) = base.getAt (Path.ofText q) ↔
      base.getAt (Path.ofText q) = none ∨
        ∀ op ∈ ops, base.breaksWay (Path.ofText (place op)) (Path.ofText q) = false := by
  have hbeside : ∀ p, allow.allows p = true → p ≠ "" →
      ¬ Comparable (Path.ofText p) (Path.ofText q) := by
    intro p hp hpne
    unfold Path.ofText at hq ⊢
    rw [if_neg hne] at hq ⊢
    rw [if_neg hpne]
    exact Allowlist.not_comparable_of_outside hallow hq ho hp
  rw [getAt_of_applyFrom hbeside h]
  by_cases hbreak : (ops.any fun op =>
      base.breaksWay (Path.ofText (place op)) (Path.ofText q)) = true
  · rw [if_pos hbreak]
    obtain ⟨op, hop, hb⟩ := List.any_eq_true.1 hbreak
    constructor
    · intro hnone
      exact Or.inl hnone.symm
    · rintro (hnone | hall)
      · exact hnone.symm
      · rw [hall op hop] at hb
        cases hb
  · rw [if_neg hbreak]
    refine iff_of_true rfl (Or.inr fun op hop => ?_)
    exact Bool.eq_false_iff.2 fun hb => hbreak (List.any_eq_true.2 ⟨op, hop, hb⟩)

/-! ## An overlay that costs an item -/

/-- Only the questions may be replaced. -/
def questions : Allowlist := [{ path := "faqs.*.question" }]

def asked : Node :=
  .object [("faqs", .array [.object [("id", .string "a"), ("question", .string "Why?")]])]

/-- An edit of the first question, with a blank before the position. -/
def blankOp : Node :=
  .object [("op", .string "set"), ("path", .string "faqs. 0.question"), ("value", .string "How?")]

def reshaped : Node :=
  .object [("faqs", .object [(" 0", .object [("question", .string "How?")])])]

theorem place_blankOp : place blankOp = "faqs. 0.question" := by
  have hpath : (blankOp.member? "path").bind Node.string? = some "faqs. 0.question" := rfl
  rw [place, hpath, Option.map_some, Option.getD_some, normalPath_of_not_mem (by decide)]
  rfl

theorem apply_blankOp : apply questions asked [blankOp] = .ok reshaped := by
  have hchange : change questions asked blankOp = .ok reshaped := by
    refine change_eq_ok_iff.2 ⟨"How?", rfl, rfl, ?_⟩
    rw [place_blankOp]
    exact ⟨by decide, rfl, rfl, rfl, rfl, rfl⟩
  rw [apply, applyFrom, hchange]
  rfl

theorem canonical_questions :
    ∀ e ∈ questions, Path.Canonical (Allowlist.segments e.pattern) := by
  decide

theorem compared_of_allows_questions {p : String} (h : questions.allows p = true) :
    Allowlist.allowsAll ["faqs", "*", "question"]
      (Allowlist.compared (Text.split '.' p)) = true := by
  obtain ⟨e, he, _, hall⟩ := Allowlist.allows_iff.1 h
  rw [questions, List.mem_singleton] at he
  subst he
  exact hall

theorem outside_questions : questions.Outside "faqs.0.id" where
  itself := by decide
  above a b hab := by
    -- The parts above are too few for the pattern.
    have hparts : Text.split '.' a ++ Text.split '.' b = ["faqs", "0", "id"] :=
      (Text.split_append '.' a b).symm.trans (congrArg _ hab.symm)
    have hsum := congrArg List.length hparts
    have hb := List.length_pos_iff.2 (Text.split_ne_nil '.' b)
    refine Bool.eq_false_iff.2 fun h => ?_
    have hlen := Allowlist.length_of_allowsAll (compared_of_allows_questions h)
    have hle := List.length_filter_le (· ≠ "") ((Text.split '.' a).map Text.trim)
    rw [List.length_append] at hsum
    rw [List.length_map] at hle
    simp only [Allowlist.compared, List.length_cons, List.length_nil] at hsum hlen
    omega
  below rest := by
    have hparts : Text.split '.' ("faqs.0.id" ++ "." ++ rest) =
        "faqs" :: "0" :: "id" :: Text.split '.' rest := Text.split_append '.' "faqs.0.id" rest
    refine Bool.eq_false_iff.2 fun h => ?_
    have hall := compared_of_allows_questions h
    rw [hparts] at hall
    have htrim : Text.trim "faqs" = "faqs" ∧ Text.trim "0" = "0" ∧ Text.trim "id" = "id" := by
      decide
    simp [Allowlist.compared_cons, htrim, Allowlist.allowsAll, Allowlist.allowsSegment] at hall

/-- Whether the first item keeps its name depends on the array around it. -/
theorem the_first_id_goes_with_its_array :
    apply questions asked [blankOp] = .ok reshaped ∧
      (∀ e ∈ questions, Path.Canonical (Allowlist.segments e.pattern)) ∧
      "faqs.0.id" ≠ "" ∧ Path.Canonical (Path.ofText "faqs.0.id") ∧
      questions.Outside "faqs.0.id" ∧
      (reshaped.getAt (Path.ofText "faqs.0.id") = asked.getAt (Path.ofText "faqs.0.id") ↔
        asked.getAt (Path.ofText "faqs.0.id") = none ∨ ∀ op ∈ [blankOp],
          asked.breaksWay (Path.ofText (place op)) (Path.ofText "faqs.0.id") = false) := by
  have hne : "faqs.0.id" ≠ "" := by decide
  have hq : Path.Canonical (Path.ofText "faqs.0.id") := by decide
  exact ⟨apply_blankOp, canonical_questions, hne, hq, outside_questions,
    an_outside_place_stays_unless_an_array_gives_way apply_blankOp canonical_questions hne hq
      outside_questions⟩

/-- The allowlist does not keep every place outside it as it was. -/
theorem an_outside_place_does_not_always_stay :
    ¬ ∀ (allow : Allowlist) (base next : Node) (ops : List Node) (q : String),
      apply allow base ops = .ok next →
      (∀ e ∈ allow, Path.Canonical (Allowlist.segments e.pattern)) → q ≠ "" →
      Path.Canonical (Path.ofText q) → allow.Outside q →
      next.getAt (Path.ofText q) = base.getAt (Path.ofText q) := by
  intro hall
  have hkept := hall _ _ _ _ "faqs.0.id" apply_blankOp canonical_questions (by decide) (by decide)
    outside_questions
  have hlost : reshaped.getAt (Path.ofText "faqs.0.id") = none := rfl
  have hthere : asked.getAt (Path.ofText "faqs.0.id") = some (.string "a") := rfl
  rw [hlost, hthere] at hkept
  cases hkept

end Overlay

end WidgetSchema
