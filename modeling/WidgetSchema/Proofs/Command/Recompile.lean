-- Compiling again. What is compiled is stored as a text from which the same widget is read, and a
-- stored widget is no definition and stands in the place of no other widget, so a run that finds
-- everything as the run before it did has nothing to write.
import WidgetSchema.Proofs.Command.Sources
import WidgetSchema.Proofs.Widget.Stored
namespace WidgetSchema.Command

section

variable {c : Config} {options : CompileOptions} {lib : Library} {force : Bool} {name : String}
  {d e after : Disk}

/-! ## One widget -/

/-- A file holds a widget of the same content. -/
def Holds (d : Disk) (path : String) (w : Widget) : Prop :=
  ∃ old, (d.read? path).bind Widget.ofText? = some old ∧ old.contentHash = w.contentHash

variable {start : Disk} {names : List String}

end

/-! ## The whole command -/

/-- The fractions in all widgets that the sources compile to are read from the texts of them. -/
def Sources.NumbersReadBack (i : Invocation) (s : Sources) : Prop :=
  ∀ text, some text ∈ s.texts → ∀ w cache,
    Definition.compileText text (options i s.config) s.lib = .ok (w, cache) → w.NumbersReadBack

variable {i : Invocation} {widget : Option String} {force : Bool} {r : CommandResult} {s : Sources}
  {d between after again : Disk}

instance : DecidablePred Token.ReadsBack := fun n =>
  inferInstanceAs (Decidable (Token.number? n.text.toList = some (some n, [])))

instance (w : Widget) : Decidable w.NumbersReadBack :=
  decidable_of_iff (∀ n ∈ w.toNode.numbers, Token.ReadsBack n)
    ⟨fun h x finite hx => h (.float x finite) hx, Widget.NumbersReadBack.readsBack⟩

theorem Sources.numbersReadBack_iff (i : Invocation) (s : Sources) :
    s.NumbersReadBack i ↔ ∀ found ∈ s.texts, ∀ text ∈ found, ∀ compiled ∈
      (Definition.compileText text (options i s.config) s.lib).toOption,
      compiled.1.NumbersReadBack := by
  constructor
  · intro h found hfound text htext compiled hcompiled
    obtain rfl : found = some text := htext
    cases hrun : Definition.compileText text (options i s.config) s.lib with
    | error e =>
      rw [hrun] at hcompiled
      cases hcompiled
    | ok result =>
      rw [hrun] at hcompiled
      obtain rfl := Option.some.inj hcompiled
      exact h text hfound result.1 result.2 hrun
  · intro h text htext w cache hrun
    refine h (some text) htext text rfl (w, cache) ?_
    rw [hrun]
    rfl

instance (i : Invocation) (s : Sources) : Decidable (s.NumbersReadBack i) :=
  decidable_of_iff' _ (s.numbersReadBack_iff i)

end WidgetSchema.Command
