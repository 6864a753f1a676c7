-- Every value that a control speaks of is accepted after a batch. The check of the tree, the
-- patterns and the reading of a place know three different ways to follow segments; where a
-- pattern accepts a place and the place holds a value, the check has come by.
import WidgetSchema.Proofs.Control.Fits
import WidgetSchema.Proofs.Edit.Accepted
namespace WidgetSchema.Editor

/-- After an accepted batch, a control finds no fault with the value at any place that its
pattern accepts, whether or not the control governs that place. -/
theorem every_value_under_a_pattern_is_accepted {e : Editor} {data next : Node}
    {ops : List Node} (h : e.apply data ops = .ok next) {c : Control} (hc : c ∈ e.controls)
    {place : String} (hp : Pattern.accepts c.path place = true) {v : Node}
    (hv : next.getAt (Path.ofText place) = some v) : c.placeFault? (some v) = none := by
  have hfits := Control.fits_of_isValid (run_of_apply h).2 hc
  exact Control.placeFault?_of_fits hfits (Pattern.acceptsAll_of_accepts hp) hv

/-- A long spelling of a position leads to a value that is accepted. -/
theorem the_second_answer_is_accepted :
    answers.apply (answered "No") answerOps = .ok (answered "Maybe") ∧
      answerText ∈ answers.controls ∧
      Pattern.accepts answerText.path "faqs.001.answer.text" = true ∧
      (answered "Maybe").getAt (Path.ofText "faqs.001.answer.text") = some (.string "Maybe") ∧
      answerText.placeFault? (some (.string "Maybe")) = none := by
  have hc : answerText ∈ answers.controls := List.mem_cons_of_mem _
    (List.mem_cons_of_mem _ List.mem_cons_self)
  have hp : Pattern.accepts answerText.path "faqs.001.answer.text" = true := rfl
  have hv : (answered "Maybe").getAt (Path.ofText "faqs.001.answer.text") =
      some (.string "Maybe") := rfl
  exact ⟨apply_answerOps, hc, hp, hv,
    every_value_under_a_pattern_is_accepted apply_answerOps hc hp hv⟩

end WidgetSchema.Editor
