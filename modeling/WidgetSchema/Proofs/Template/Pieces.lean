-- The pieces of a source. Pieces that are put one behind the other are found again, as long as
-- no text holds the braces that open a tag, no tag those that close it, and no text stands next
-- to a text.
import Mathlib.Data.List.Chain
import Mathlib.Data.List.Infix
import WidgetSchema.Template.Basic
namespace WidgetSchema.Template

open Text (cutAt dropWord)

/-! ## The first of two equal characters -/

theorem dropWord_double_eq_none {b c : Char} {cs : List Char} (h : ¬ [b, b] <+: c :: cs) :
    dropWord [b, b] (c :: cs) = none := by
  rcases hd : dropWord [b, b] (c :: cs) with _ | rest
  · rfl
  · exact absurd ⟨rest, (Text.dropWord_eq_some_iff.1 hd).symm⟩ h

theorem cutAt_double_eq_none {b : Char} {cs : List Char} (h : ¬ [b, b] <:+: cs) :
    cutAt [b, b] cs = none := by
  induction cs with
  | nil => rfl
  | cons c cs ih =>
    have hhere : ¬ [b, b] <+: c :: cs := fun hp => h hp.isInfix
    have hlater : ¬ [b, b] <:+: cs := fun hi => h (hi.trans (List.suffix_cons c cs).isInfix)
    simp only [cutAt, dropWord_double_eq_none hhere, ih hlater, Option.map_none]

/-- Two equal characters behind a text that does not hold them, nor ends in one of them, are
found right behind it. -/
theorem cutAt_double {b : Char} {cs : List Char} (h : ¬ [b, b] <:+: cs)
    (hlast : cs.getLast? ≠ some b) (rest : List Char) :
    cutAt [b, b] (cs ++ [b, b] ++ rest) = some (cs, rest) := by
  induction cs with
  | nil => simp [cutAt, dropWord]
  | cons c cs ih =>
    have hhere : ¬ [b, b] <+: c :: (cs ++ [b, b] ++ rest) := by
      intro hp
      obtain ⟨hc, hp⟩ := List.cons_prefix_cons.1 hp
      cases cs with
      | nil => exact hlast (by rw [← hc]; rfl)
      | cons d cs =>
        obtain ⟨hd, -⟩ := List.cons_prefix_cons.1 hp
        exact h ⟨[], cs, by rw [← hc, ← hd]; rfl⟩
    have hlater : ¬ [b, b] <:+: cs := fun hi => h (hi.trans (List.suffix_cons c cs).isInfix)
    have hend : cs.getLast? ≠ some b := by
      intro hb
      cases cs with
      | nil => cases hb
      | cons d cs => exact hlast (by rw [List.getLast?_cons_cons]; exact hb)
    simp only [List.cons_append, cutAt, dropWord_double_eq_none hhere, ih hlater hend,
      Option.map_some]

/-! ## Sources -/

namespace Piece

def source : Piece → List Char
  | text cs => cs
  | tag raw => openBraces ++ raw ++ closeBraces

def isText : Piece → Bool
  | text _ => true
  | tag _ => false

/-- A text or a tag that ends where it is seen to end. -/
def IsSound : Piece → Prop
  | text cs => cs ≠ [] ∧ ¬ openBraces <:+: cs ∧ cs.getLast? ≠ some '\x7b'
  | tag raw => ¬ closeBraces <:+: raw ∧ raw.getLast? ≠ some '\x7d'

end Piece

/-- Sound pieces, with no text next to a text. -/
structure AreSound (ps : List Piece) : Prop where
  sound : ∀ p ∈ ps, p.IsSound
  apart : ps.IsChain fun p q => p.isText = false ∨ q.isText = false

theorem areSound_nil : AreSound [] := ⟨fun _ hp => (List.not_mem_nil hp).elim, .nil⟩

theorem AreSound.tail {p : Piece} {ps : List Piece} (h : AreSound (p :: ps)) : AreSound ps :=
  ⟨fun q hq => h.sound q (List.mem_cons_of_mem _ hq), h.apart.tail⟩

theorem pieces_nil : pieces [] = [] := by
  simp [pieces, cutAt, openBraces]

theorem pieces_text {cs : List Char} (hne : cs ≠ []) (hcs : ¬ openBraces <:+: cs) :
    pieces cs = [.text cs] := by
  have hcut : cutAt openBraces cs = none := cutAt_double_eq_none hcs
  unfold pieces
  split
  · rw [if_neg (by simpa using hne)]
  · rename_i hsome
    rw [hcut] at hsome
    cases hsome

/-- A tag behind a text. -/
theorem pieces_before_tag {cs raw : List Char} (hcs : ¬ openBraces <:+: cs)
    (hlast : cs.getLast? ≠ some '\x7b') (hraw : (Piece.tag raw).IsSound) (rest : List Char) :
    pieces (cs ++ (Piece.tag raw).source ++ rest) =
      (if cs.isEmpty then [] else [.text cs]) ++ .tag raw :: pieces rest := by
  have hsource : cs ++ (Piece.tag raw).source ++ rest =
      cs ++ openBraces ++ (raw ++ closeBraces ++ rest) := by simp [Piece.source]
  have hopen : cutAt openBraces (cs ++ openBraces ++ (raw ++ closeBraces ++ rest)) =
      some (cs, raw ++ closeBraces ++ rest) := cutAt_double hcs hlast _
  have hclose : cutAt closeBraces (raw ++ closeBraces ++ rest) = some (raw, rest) :=
    cutAt_double hraw.1 hraw.2 rest
  rw [hsource, pieces]
  split
  · rename_i hnone
    rw [hopen] at hnone
    cases hnone
  · rename_i before after hsome
    rw [hopen] at hsome
    obtain ⟨rfl, rfl⟩ := Prod.mk.inj (Option.some.inj hsome)
    dsimp only
    split
    · rename_i hnone
      rw [hclose] at hnone
      cases hnone
    · rename_i raw' after hsome
      rw [hclose] at hsome
      obtain ⟨rfl, rfl⟩ := Prod.mk.inj (Option.some.inj hsome)
      rfl

/-- The pieces of the source of sound pieces are these pieces. -/
theorem pieces_source {ps : List Piece} (h : AreSound ps) :
    pieces (ps.flatMap Piece.source) = ps := by
  induction ps with
  | nil => exact pieces_nil
  | cons p ps ih =>
    have hp := h.sound p List.mem_cons_self
    cases p with
    | tag raw =>
      have htag := pieces_before_tag (show ¬ openBraces <:+: [] by decide) (by decide) hp
        (ps.flatMap Piece.source)
      rw [ih h.tail] at htag
      exact htag
    | text cs =>
      cases ps with
      | nil => simpa [Piece.source] using pieces_text hp.1 hp.2.1
      | cons q ps =>
        have hq := h.sound q (List.mem_cons_of_mem _ List.mem_cons_self)
        cases q with
        | text ds =>
          -- Two texts in a row are no sound pieces.
          rcases (List.isChain_cons_cons.1 h.apart).1 with hno | hno <;> cases hno
        | tag raw =>
          -- The tail starts with the tag, so it tells what the pieces behind the tag are.
          have htail := pieces_before_tag (show ¬ openBraces <:+: [] by decide) (by decide) hq
            (ps.flatMap Piece.source)
          have hrest : pieces (ps.flatMap Piece.source) = ps := by
            have := (ih h.tail).symm.trans htail
            simpa using this.symm
          have htag := pieces_before_tag hp.2.1 hp.2.2 hq (ps.flatMap Piece.source)
          rw [hrest, if_neg (by simpa using hp.1)] at htag
          simpa [Piece.source] using htag

end WidgetSchema.Template
