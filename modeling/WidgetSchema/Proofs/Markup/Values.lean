-- Where values stand. The attributes of a tag are a part of the text that it is read from, and
-- every value that is read stands there between two quotes that it does not hold itself.
import WidgetSchema.Markup.Attribute
import WidgetSchema.Proofs.Markup.Spans
namespace WidgetSchema

open Text

/-- A value stands in a text between quotes. -/
def StandsQuoted (value cs : List Char) : Prop :=
  ∃ quote before after, (quote = '"' ∨ quote = '\'') ∧ quote ∉ value ∧
    cs = before ++ quote :: (value ++ quote :: after)

theorem StandsQuoted.within {value cs more : List Char} (h : StandsQuoted value cs)
    (hin : cs <:+: more) : StandsQuoted value more := by
  obtain ⟨quote, before, after, hquote, hvalue, rfl⟩ := h
  obtain ⟨first, last, rfl⟩ := hin
  exact ⟨quote, first ++ before, after ++ last, hquote, hvalue, by simp⟩

namespace Attributes

theorem append_of_upTo? {quote : Char} {cs value rest : List Char}
    (h : upTo? quote cs = some (value, rest)) : quote ∉ value ∧ cs = value ++ quote :: rest := by
  unfold upTo? at h
  split at h
  · cases h
  · rename_i c after hdrop
    obtain ⟨rfl, rfl⟩ := Prod.mk.inj (Option.some.inj h)
    have hsplit := @List.takeWhile_append_dropWhile _ (fun c => decide (c ≠ quote)) cs
    have hc : c = quote := by
      have hnot := List.head?_dropWhile_not (fun c => decide (c ≠ quote)) cs
      rw [hdrop] at hnot
      simpa using hnot
    rw [hdrop, hc] at hsplit
    refine ⟨fun hmem => ?_, hsplit.symm⟩
    have hpass := List.mem_takeWhile_imp hmem
    simp at hpass

theorem standsQuoted_of_assigned? {cs value rest : List Char}
    (h : assigned? cs = some (value, rest)) : StandsQuoted value cs ∧ rest <:+ cs := by
  unfold assigned? at h
  split at h
  · rename_i tail htail
    have hequals : tail <:+ cs :=
      (List.suffix_cons '=' tail).trans (htail ▸ List.dropWhile_suffix isBlank)
    have hvalue : ∀ quote more, (quote = '"' ∨ quote = '\'') →
        tail.dropWhile isBlank = quote :: more → upTo? quote more = some (value, rest) →
        StandsQuoted value cs ∧ rest <:+ cs := by
      intro quote more hquote hmore hup
      obtain ⟨hfree, rfl⟩ := append_of_upTo? hup
      have hpart : quote :: (value ++ quote :: rest) <:+ cs :=
        (hmore ▸ List.dropWhile_suffix isBlank).trans hequals
      refine ⟨StandsQuoted.within ⟨quote, [], rest, hquote, hfree, rfl⟩ hpart.isInfix, ?_⟩
      refine List.IsSuffix.trans ⟨quote :: (value ++ [quote]), ?_⟩ hpart
      simp
    split at h
    · rename_i more hmore
      exact hvalue _ more (.inl rfl) hmore h
    · rename_i more hmore
      exact hvalue _ more (.inr rfl) hmore h
    · cases h
  · cases h

theorem standsQuoted_of_mem_pairsIn {cs : List Char} {p : String × String} (h : p ∈ pairsIn cs) :
    StandsQuoted p.2.toList cs := by
  fun_induction pairsIn cs with
  | case1 => cases h
  | case2 c rest hc name after hle value tail ha _ ih =>
    obtain ⟨hvalue, htail⟩ := standsQuoted_of_assigned? ha
    have hafter : after <:+ c :: rest :=
      (List.dropWhile_suffix isNameChar).trans (List.suffix_cons c rest)
    rcases List.mem_cons.1 h with rfl | h
    · rw [String.toList_ofList]
      exact hvalue.within hafter.isInfix
    · exact (ih h).within (htail.trans hafter).isInfix
  | case3 c rest hc after hle ha _ ih =>
    have hafter : after <:+ c :: rest :=
      (List.dropWhile_suffix isNameChar).trans (List.suffix_cons c rest)
    exact (ih h).within hafter.isInfix
  | case4 c rest hc ih => exact (ih h).within (List.suffix_cons c rest).isInfix

theorem standsQuoted_of_get? {cs : List Char} {name value : String}
    (h : (ofChars cs).get? name = some value) : StandsQuoted value.toList cs := by
  obtain ⟨hraw, -⟩ := Option.filter_eq_some_iff.1 h
  obtain ⟨p, hp, rfl⟩ := Option.map_eq_some_iff.1 hraw
  exact standsQuoted_of_mem_pairsIn (List.mem_reverse.1 (List.mem_of_find?_eq_some hp))

end Attributes

namespace Markup

theorem infix_of_mem_fieldTags {cs : List Char} {t : FieldTag} (h : t ∈ fieldTags cs) :
    t.attrs <:+: cs := by
  obtain ⟨hwritten, hsource⟩ := source_infix_of_mem_fieldTags h
  exact hwritten.attrs_in_source.trans hsource

end Markup

end WidgetSchema
