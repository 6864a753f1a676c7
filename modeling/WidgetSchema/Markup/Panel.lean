-- Panels: the parts of the markup of a widget that the editor shows one at a time.
import WidgetSchema.Text.Blank
import WidgetSchema.Text.Search
import WidgetSchema.Text.Uppercase
namespace WidgetSchema.Markup

open Text

/-- A panel as authored. -/
structure Panel where
  id : String
  markup : String
  deriving DecidableEq

def panelOpen : List Char := "<bob-panel".toList

def panelClose : List Char := "</bob-panel>".toList

/-- The id of an opening tag behind its name, and what follows it. The id is the first
attribute, in single quotes, and not empty. -/
def panelId? (cs : List Char) : Option (List Char × List Char) :=
  let rest := cs.dropWhile isBlank
  if rest.length = cs.length then none
  else
    match dropFolded Char.toLower "id='".toList rest with
    | none => none
    | some rest =>
      let id := rest.takeWhile (· ≠ '\'')
      match rest.dropWhile (· ≠ '\'') with
      | _ :: after => if id.isEmpty then none else some (id, after)
      | [] => none

/-- The panel at the start of a text, and what follows it. -/
def panelAt? (cs : List Char) : Option (Panel × List Char) := do
  let rest ← dropFolded Char.toLower panelOpen cs
  let (id, rest) ← panelId? rest
  let (_, body) ← cutAt ['>'] rest
  let (markup, _, after) ← cutFolded Char.toLower panelClose body
  return (⟨String.ofList id, String.ofList markup⟩, after)

theorem length_panelId? {cs id rest : List Char} (h : panelId? cs = some (id, rest)) :
    rest.length ≤ cs.length := by
  unfold panelId? at h
  dsimp only at h
  split at h
  · cases h
  · split at h
    · cases h
    · rename_i tail ht
      have h1 := length_dropFolded ht
      have h2 := (List.dropWhile_sublist (l := cs) isBlank).length_le
      have h3 := (List.dropWhile_sublist (l := tail) (· ≠ '\'')).length_le
      split at h
      · rename_i c after ha
        rw [ha, List.length_cons] at h3
        split at h
        · cases h
        · simp only [Option.some.injEq, Prod.mk.injEq] at h
          rw [← h.2]
          omega
      · cases h

theorem length_panelOpen : panelOpen.length = 10 := rfl

theorem length_panelAt? {cs rest : List Char} {p : Panel} (h : panelAt? cs = some (p, rest)) :
    rest.length < cs.length := by
  simp only [panelAt?, bind, Option.bind_eq_some_iff, pure, Option.some.injEq,
    Prod.mk.injEq] at h
  obtain ⟨c1, h1, ⟨id, c2⟩, h2, ⟨b, c3⟩, h3, ⟨m, w, c4⟩, h4, _, h5⟩ := h
  have := length_dropFolded h1
  have := length_panelId? h2
  have := length_cutAt h3
  have := length_cutFolded h4
  rw [length_panelOpen] at *
  simp only at *
  subst h5
  omega

/-- The panels of a text in order. A panel that is never closed is passed over. -/
def panelsIn (cs : List Char) : List Panel :=
  match h : panelAt? cs with
  | some (p, rest) =>
    have := length_panelAt? h
    p :: panelsIn rest
  | none =>
    match cs with
    | [] => []
    | _ :: rest => panelsIn rest
termination_by cs.length

/-- The panels of the markup of a widget. -/
def panels (html : String) : List Panel := panelsIn html.toList

/-- The label of a panel: its id with a capital letter. -/
def panelLabel (id : String) : String :=
  match id.toList with
  | [] => "Panel"
  | c :: cs => String.ofList (uppercase c ++ cs)

end WidgetSchema.Markup
