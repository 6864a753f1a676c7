-- The texts that a pattern matches when it is read as one expression over characters: its
-- segments with dots between them, a wildcard as a run of decimal digits. Neither a segment nor a
-- digit is a dot, so an expression is matched segment by segment. But it takes the digits of all
-- scripts, in runs of any length, and a position of an array is written in ASCII digits and fits
-- in 64 bits. Where the digits of a place are of another kind, the pattern matches and the
-- place leads to no item.
import Mathlib.Data.List.Forall2
import WidgetSchema.Overlay.Allowlist
import WidgetSchema.Proofs.Control.Fits
import WidgetSchema.Proofs.Node.Position
namespace WidgetSchema

/-! ## Expressions -/

/-- A part of an expression: a character that stands for itself, or a run of decimal digits. -/
inductive Piece where
  | char (c : Char)
  | digits
  deriving DecidableEq

abbrev Expression := List Piece

namespace Expression

/-- The texts that an expression matches from their first character to their last. -/
inductive Matches : Expression → List Char → Prop
  | nil : Matches [] []
  | char {c : Char} {e : Expression} {cs : List Char} :
      Matches e cs → Matches (.char c :: e) (c :: cs)
  | digits {ds : List Char} {e : Expression} {cs : List Char} : ds ≠ [] →
      (∀ d ∈ ds, Text.isDecimalDigit d = true) → Matches e cs → Matches (.digits :: e) (ds ++ cs)

/-- Two expressions in a row match two texts in a row. -/
theorem matches_append_iff {e f : Expression} {cs : List Char} :
    Matches (e ++ f) cs ↔ ∃ a b, cs = a ++ b ∧ Matches e a ∧ Matches f b := by
  induction e generalizing cs with
  | nil =>
    constructor
    · exact fun h => ⟨[], cs, rfl, .nil, h⟩
    · rintro ⟨a, b, rfl, ha, hb⟩
      cases ha
      exact hb
  | cons piece e ih =>
    constructor
    · intro h
      cases h with
      | char h =>
        obtain ⟨a, b, rfl, ha, hb⟩ := ih.1 h
        exact ⟨_, b, rfl, .char ha, hb⟩
      | digits hne hds h =>
        obtain ⟨a, b, rfl, ha, hb⟩ := ih.1 h
        exact ⟨_, b, (List.append_assoc _ a b).symm, .digits hne hds ha, hb⟩
    · rintro ⟨a, b, rfl, ha, hb⟩
      cases ha with
      | char ha => exact .char (ih.2 ⟨_, b, rfl, ha, hb⟩)
      | digits hne hds ha =>
        rw [List.append_assoc]
        exact .digits hne hds (ih.2 ⟨_, b, rfl, ha, hb⟩)

theorem matches_chars_iff {l cs : List Char} : Matches (l.map .char) cs ↔ l = cs := by
  induction l generalizing cs with
  | nil =>
    constructor
    · intro h
      cases h
      rfl
    · rintro rfl
      exact .nil
  | cons c l ih =>
    constructor
    · intro h
      cases h with
      | char h => rw [ih.1 h]
    · rintro rfl
      exact .char (ih.2 rfl)

theorem matches_digits_iff {cs : List Char} :
    Matches [.digits] cs ↔ cs ≠ [] ∧ ∀ d ∈ cs, Text.isDecimalDigit d = true := by
  constructor
  · intro h
    cases h with
    | digits hne hds h =>
      cases h
      rw [List.append_nil]
      exact ⟨hne, hds⟩
  · rintro ⟨hne, hds⟩
    have h := Matches.digits hne hds .nil
    rwa [List.append_nil] at h

/-- The expression of a segment of a pattern. -/
def ofSegment (s : String) : Expression :=
  if Path.isWildcard s then [.digits] else s.toList.map .char

def ofSegments (p : Path) : Expression := [.char '.'].intercalate (p.map ofSegment)

/-- The expression of a pattern. It is made of the segments that are not empty. -/
def ofPattern (pattern : String) : Expression := ofSegments (Path.solidSegments pattern)

/-- The expression of a segment matches the segments that the pattern accepts there. -/
theorem matches_ofSegment_iff {s part : String} :
    Matches (ofSegment s) part.toList ↔ Pattern.acceptsSegment s part = true := by
  unfold ofSegment Pattern.acceptsSegment
  by_cases hs : Path.isWildcard s = true
  · rw [if_pos hs, if_pos hs, matches_digits_iff]
    simp
  · rw [if_neg hs, if_neg hs, matches_chars_iff, String.toList_inj, beq_iff_eq]

theorem dot_notMem_of_acceptsSegment {s part : String} (hs : '.' ∉ s.toList)
    (h : Pattern.acceptsSegment s part = true) : '.' ∉ part.toList := by
  unfold Pattern.acceptsSegment at h
  split at h
  · simp only [Bool.and_eq_true, List.all_eq_true] at h
    intro hdot
    exact absurd (h.2 '.' hdot) (by decide)
  · exact beq_iff_eq.1 h ▸ hs

/-- Segments without dots are matched segment by segment. -/
theorem matches_ofSegments_iff {segments : Path} (hne : segments ≠ [])
    (hdots : ∀ s ∈ segments, '.' ∉ s.toList) {place : String} :
    Matches (ofSegments segments) place.toList ↔
      Pattern.acceptsAll segments (Text.split '.' place) = true := by
  induction segments generalizing place with
  | nil => exact absurd rfl hne
  | cons s rest ih =>
    have hs := hdots s List.mem_cons_self
    cases rest with
    | nil =>
      have hone : ofSegments [s] = ofSegment s := by simp [ofSegments]
      rw [hone, matches_ofSegment_iff]
      constructor
      · intro h
        rw [Text.split_of_notMem (dot_notMem_of_acceptsSegment hs h)]
        exact Bool.and_eq_true_iff.2 ⟨h, rfl⟩
      · intro h
        rcases hparts : Text.split '.' place with _ | ⟨part, _ | ⟨next, parts⟩⟩
        · exact absurd hparts (Text.split_ne_nil '.' place)
        · rw [hparts] at h
          exact Text.eq_of_split hparts ▸ (Bool.and_eq_true_iff.1 h).1
        · simp [hparts, Pattern.acceptsAll] at h
    | cons r rest =>
      have hmore : ofSegments (s :: r :: rest) =
          ofSegment s ++ [.char '.'] ++ ofSegments (r :: rest) := by
        simp [ofSegments, List.intercalate_cons_cons]
      have hrest : ∀ next : String, Matches (ofSegments (r :: rest)) next.toList ↔
          Pattern.acceptsAll (r :: rest) (Text.split '.' next) = true := fun next =>
        ih (List.cons_ne_nil r rest) fun x hx => hdots x (List.mem_cons_of_mem s hx)
      rw [hmore, List.append_assoc, matches_append_iff]
      constructor
      · rintro ⟨a, b, hplace, ha, hb⟩
        cases hb with
        | char hb =>
          rename_i cs
          have hpart : Pattern.acceptsSegment s (String.ofList a) = true := by
            rw [← matches_ofSegment_iff, String.toList_ofList]
            exact ha
          have hfollow : Pattern.acceptsAll (r :: rest) (Text.split '.' (String.ofList cs)) = true := by
            rw [← hrest, String.toList_ofList]
            exact hb
          have htext : place = String.ofList a ++ String.singleton '.' ++ String.ofList cs := by
            apply String.toList_inj.1
            simp [hplace]
          rw [htext, Text.split_append,
            Text.split_of_notMem (dot_notMem_of_acceptsSegment hs hpart)]
          exact Bool.and_eq_true_iff.2 ⟨hpart, hfollow⟩
      · intro h
        rcases hparts : Text.split '.' place with _ | ⟨part, _ | ⟨next, parts⟩⟩
        · exact absurd hparts (Text.split_ne_nil '.' place)
        · simp [hparts, Pattern.acceptsAll] at h
        · rw [hparts] at h
          obtain ⟨hpart, hfollow⟩ := Bool.and_eq_true_iff.1 h
          have hcut : Text.split '.' place = [part] ++ (next :: parts) := hparts
          obtain ⟨a, b, htext, ha, hb⟩ :=
            Text.append_of_split hcut (List.cons_ne_nil _ _) (List.cons_ne_nil _ _)
          refine ⟨part.toList, '.' :: b.toList, ?_, matches_ofSegment_iff.2 hpart,
            .char ((hrest b).2 (hb ▸ hfollow))⟩
          rw [htext, Text.eq_of_split ha]
          simp

theorem dot_notMem_of_mem_solidSegments {pattern s : String}
    (h : s ∈ Path.solidSegments pattern) : '.' ∉ s.toList :=
  Text.notMem_of_mem_split (List.mem_filter.1 h).1

/-- A pattern accepts the places that its expression matches. -/
theorem matches_ofPattern_iff {pattern place : String} :
    Matches (ofPattern pattern) place.toList ↔ Pattern.accepts pattern place = true := by
  unfold ofPattern Pattern.accepts
  rcases hsegments : Path.solidSegments pattern with _ | ⟨s, rest⟩
  · have hnil : Matches (ofSegments []) place.toList ↔ [] = place.toList :=
      matches_chars_iff (l := [])
    rw [hnil, beq_iff_eq, eq_comm, ← String.toList_inj]
    rfl
  · refine matches_ofSegments_iff (List.cons_ne_nil s rest) fun x hx => ?_
    exact dot_notMem_of_mem_solidSegments (hsegments ▸ hx)

end Expression

/-! ## Positions -/

namespace Path

/-- ASCII digits, of a number that fits in 64 bits. -/
structure IsPlain (s : String) : Prop where
  ascii : ∀ c ∈ s.toList, Text.isAsciiDigit c = true
  fits : Nat.ofDigitChars 10 s.toList 0 < Nat.pow 2 64

/-- Plain digits name a position, and nothing else does. -/
theorem isSome_index?_iff {s : String} :
    (index? s).isSome = true ↔ s.toList ≠ [] ∧ IsPlain s := by
  rw [Option.isSome_iff_exists, ne_eq, String.toList_eq_nil_iff]
  constructor
  · rintro ⟨i, hi⟩
    obtain ⟨hne, hascii, hfits, -⟩ := index?_eq_some_iff.1 hi
    exact ⟨hne, hascii, hfits⟩
  · rintro ⟨hne, hascii, hfits⟩
    exact ⟨_, index?_eq_some_iff.2 ⟨hne, hascii, hfits, rfl⟩⟩

end Path

namespace Node

/-- How a segment leads to an item of an array: it is read there, a write below it keeps the
array, and the star of an allowlist stands for it. -/
structure LeadsToItem (s : String) (i : Nat) : Prop where
  read : ∀ items, (array items).child? s = items[i]?
  kept : ∀ items p v, ((array items).setAt (s :: p) v).isArray = true
  starred : Allowlist.allowsSegment "*" s = true

/-- Below a segment that names no position, an array gives way to an object. -/
theorem exists_leadsToItem_iff {s : String} :
    (∃ i, LeadsToItem s i) ↔ (Path.index? s).isSome = true := by
  constructor
  · rintro ⟨i, h⟩
    exact h.starred
  · intro h
    obtain ⟨i, hi⟩ := Option.isSome_iff_exists.1 h
    refine ⟨i, fun items => ?_, fun items p v => ?_, h⟩
    · rw [child?, hi, Option.bind_some]
    · simp [setAt, hi, isArray]

end Node

namespace Pattern

/-- What a pattern says of the segments of a place if its wildcards stand for positions. -/
def Addresses (segments place : Path) : Prop :=
  List.Forall₂ (fun σ s => if Path.isWildcard σ = true then (Path.index? s).isSome = true
    else σ = s) segments place

theorem acceptsAll_iff_forall₂ {segments place : Path} :
    acceptsAll segments place = true ↔
      List.Forall₂ (fun σ s => acceptsSegment σ s = true) segments place := by
  induction segments generalizing place with
  | nil => cases place <;> simp [acceptsAll]
  | cons σ segments ih =>
    cases place with
    | nil => simp [acceptsAll]
    | cons s place => rw [acceptsAll, Bool.and_eq_true, ih, List.forall₂_cons]

theorem acceptsSegment_of_index? {σ s : String} (hσ : Path.isWildcard σ = true)
    (hs : (Path.index? s).isSome = true) : acceptsSegment σ s = true := by
  obtain ⟨hne, hplain⟩ := Path.isSome_index?_iff.1 hs
  rw [acceptsSegment, if_pos hσ, Bool.and_eq_true]
  refine ⟨by simpa using hne, List.all_eq_true.2 fun c hc => ?_⟩
  exact isDecimalDigit_of_isAsciiDigit (hplain.ascii c hc)

theorem index?_of_acceptsSegment {σ s : String} (hσ : Path.isWildcard σ = true)
    (h : acceptsSegment σ s = true) : (Path.index? s).isSome = true ↔ Path.IsPlain s := by
  rw [acceptsSegment, if_pos hσ, Bool.and_eq_true] at h
  rw [Path.isSome_index?_iff]
  exact and_iff_right (by simpa using h.1)

theorem acceptsAll_of_addresses {segments place : Path} (h : Addresses segments place) :
    acceptsAll segments place = true := by
  refine acceptsAll_iff_forall₂.2 (List.Forall₂.imp (fun σ s hs => ?_) h)
  by_cases hσ : Path.isWildcard σ = true
  · rw [if_pos hσ] at hs
    exact acceptsSegment_of_index? hσ hs
  · rw [if_neg hσ] at hs
    rw [acceptsSegment, if_neg hσ, beq_iff_eq]
    exact hs

/-- Of the places that a pattern accepts it addresses those with plain digits at its
wildcards. -/
theorem addresses_iff_of_acceptsAll {segments place : Path}
    (h : acceptsAll segments place = true) :
    Addresses segments place ↔
      ∀ σ s, (σ, s) ∈ segments.zip place → Path.isWildcard σ = true → Path.IsPlain s := by
  obtain ⟨hlength, hsegments⟩ := List.forall₂_iff_zip.1 (acceptsAll_iff_forall₂.1 h)
  unfold Addresses
  rw [List.forall₂_iff_zip]
  constructor
  · rintro ⟨-, hall⟩ σ s hmem hσ
    have hs := hall hmem
    rw [if_pos hσ] at hs
    exact (index?_of_acceptsSegment hσ (hsegments hmem)).1 hs
  · intro hplain
    refine ⟨hlength, fun {σ s} hmem => ?_⟩
    by_cases hσ : Path.isWildcard σ = true
    · rw [if_pos hσ]
      exact (index?_of_acceptsSegment hσ (hsegments hmem)).2 (hplain σ s hmem hσ)
    · rw [if_neg hσ]
      exact eq_of_acceptsSegment (hsegments hmem) (Bool.eq_false_iff.2 hσ)

theorem accepts_eq {pattern : String} (h : Path.solidSegments pattern ≠ []) (place : String) :
    accepts pattern place = acceptsAll (Path.solidSegments pattern) (Text.split '.' place) := by
  unfold accepts
  split
  · contradiction
  · rename_i hsegments
    rw [hsegments]

/-- A pattern accepts the places that its expression matches. These are the places that it
addresses segment by segment, but for those with digits at a wildcard that are not plain, and
just those digits lead to no item. -/
theorem a_pattern_leads_to_items_where_digits_are_plain {pattern place : String}
    (hsolid : Path.solidSegments pattern ≠ []) :
    (accepts pattern place = true ↔ (Expression.ofPattern pattern).Matches place.toList) ∧
    ((accepts pattern place = true ↔
        Addresses (Path.solidSegments pattern) (Text.split '.' place)) ↔
      (accepts pattern place = true → ∀ σ s,
        (σ, s) ∈ (Path.solidSegments pattern).zip (Text.split '.' place) →
        Path.isWildcard σ = true → Path.IsPlain s)) ∧
    (accepts pattern place = true → ∀ σ s,
      (σ, s) ∈ (Path.solidSegments pattern).zip (Text.split '.' place) →
      Path.isWildcard σ = true → ((∃ i, Node.LeadsToItem s i) ↔ Path.IsPlain s)) := by
  refine ⟨Expression.matches_ofPattern_iff.symm, ?_, ?_⟩
  · rw [accepts_eq hsolid]
    constructor
    · intro hreading haccepts
      exact (addresses_iff_of_acceptsAll haccepts).1 (hreading.1 haccepts)
    · intro hplain
      constructor
      · exact fun haccepts => (addresses_iff_of_acceptsAll haccepts).2 (hplain haccepts)
      · exact acceptsAll_of_addresses
  · rw [accepts_eq hsolid]
    intro haccepts σ s hmem hσ
    obtain ⟨-, hsegments⟩ := List.forall₂_iff_zip.1 (acceptsAll_iff_forall₂.1 haccepts)
    rw [Node.exists_leadsToItem_iff]
    exact index?_of_acceptsSegment hσ (hsegments hmem)

/-! ## A title in a list of items -/

/-- The title of an item is found at its position. -/
theorem the_twelfth_title_is_addressed :
    Path.solidSegments "items.__idx__.title" ≠ [] ∧
      (Expression.ofPattern "items.__idx__.title").Matches "items.12.title".toList ∧
      Addresses (Path.solidSegments "items.__idx__.title") (Text.split '.' "items.12.title") ∧
      ∃ i, Node.LeadsToItem "12" i := by
  have hsolid : Path.solidSegments "items.__idx__.title" ≠ [] := by decide
  have haccepts : accepts "items.__idx__.title" "items.12.title" = true := by decide
  have hplain : ∀ σ s, (σ, s) ∈ [("items", "items"), ("__idx__", "12"), ("title", "title")] →
      Path.isWildcard σ = true → Path.IsPlain s := by
    intro σ s hmem hσ
    simp only [List.mem_cons, Prod.mk.injEq, List.not_mem_nil, or_false] at hmem
    rcases hmem with ⟨rfl, rfl⟩ | ⟨rfl, rfl⟩ | ⟨rfl, rfl⟩
    · exact absurd hσ (by decide)
    · exact (Path.isSome_index?_iff.1 rfl).2
    · exact absurd hσ (by decide)
  obtain ⟨hmatches, hreading, hitems⟩ :=
    @a_pattern_leads_to_items_where_digits_are_plain _ "items.12.title" hsolid
  refine ⟨hsolid, hmatches.1 haccepts, (hreading.2 fun _ => hplain).1 haccepts, ?_⟩
  have hmem : ("__idx__", "12") ∈ (Path.solidSegments "items.__idx__.title").zip
      (Text.split '.' "items.12.title") := by decide
  exact (hitems haccepts "__idx__" "12" hmem (by decide)).2
    (hplain "__idx__" "12" hmem (by decide))

/-- A pattern also accepts a place with the digit three of another script, which is no
position. -/
theorem a_pattern_does_not_always_address :
    ¬ ∀ pattern place, Path.solidSegments pattern ≠ [] →
      (accepts pattern place = true ↔
        Addresses (Path.solidSegments pattern) (Text.split '.' place)) := by
  intro hall
  have haccepts : accepts "items.__idx__.title" "items.\u0663.title" = true := by decide
  have haddresses := (hall "items.__idx__.title" "items.\u0663.title" (by decide)).1 haccepts
  have hmem : ("__idx__", "\u0663") ∈ (Path.solidSegments "items.__idx__.title").zip
      (Text.split '.' "items.\u0663.title") := by decide
  have hindex := (List.forall₂_iff_zip.1 haddresses).2 hmem
  revert hindex
  decide

end Pattern

end WidgetSchema
