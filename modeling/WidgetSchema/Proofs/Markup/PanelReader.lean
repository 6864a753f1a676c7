-- Panels read step by step. A reader of markup knows the panel that is open and the text it has
-- read of it. It reads the panels of a text, since behind an opening tag that is never closed no
-- other one is closed either.
import WidgetSchema.Proofs.Markup.PanelOpening
namespace WidgetSchema.Markup

open Text

/-! ## The reader -/

/-- A panel that is not closed yet: its id, and the text read of it. -/
structure OpenPanel where
  id : List Char
  text : List Char
  deriving DecidableEq

/-- The panels that have been read, and the one that is open. -/
structure Reading where
  panels : List Panel
  opened : Option OpenPanel
  deriving DecidableEq

/-- The panels that a text closes, and the one that it leaves open. -/
def readPanels (o : Option OpenPanel) (cs : List Char) : Reading :=
  match o, cs with
  | o, [] => ⟨[], o⟩
  | none, c :: cs =>
    match h : openingAt? (c :: cs) with
    | some (id, body) =>
      have hbody : body.length < (c :: cs).length :=
        Nat.lt_succ_of_le (suffix_of_openingAt? h).length_le
      readPanels (some ⟨id, []⟩) body
    | none => readPanels none cs
  | some o, c :: cs =>
    match h : dropFolded Char.toLower panelClose (c :: cs) with
    | some rest =>
      have hrest : rest.length < (c :: cs).length := by
        have hdrop := length_dropFolded h
        have hlength : panelClose.length = 12 := rfl
        omega
      let next := readPanels none rest
      ⟨⟨String.ofList o.id, String.ofList o.text⟩ :: next.panels, next.opened⟩
    | none => readPanels (some ⟨o.id, o.text ++ [c]⟩) cs
termination_by cs.length
decreasing_by
  · exact hbody
  · exact Nat.lt_succ_self _
  · exact hrest
  · exact Nat.lt_succ_self _

theorem readPanels_nil (o : Option OpenPanel) : readPanels o [] = ⟨[], o⟩ := by
  rw [readPanels]

theorem readPanels_none_cons (c : Char) (cs : List Char) :
    readPanels none (c :: cs) =
      match openingAt? (c :: cs) with
      | some (id, body) => readPanels (some ⟨id, []⟩) body
      | none => readPanels none cs := by
  rw [readPanels]
  split
  · rename_i id body h
    simp only [h]
  · rename_i h
    simp only [h]

/-- An open panel is read up to its closing tag, whatever stands in front of the tag. -/
theorem readPanels_some (o : OpenPanel) (cs : List Char) :
    readPanels (some o) cs =
      match cutFolded Char.toLower panelClose cs with
      | some (markup, _, after) =>
        ⟨⟨String.ofList o.id, String.ofList (o.text ++ markup)⟩ :: (readPanels none after).panels,
          (readPanels none after).opened⟩
      | none => ⟨[], some ⟨o.id, o.text ++ cs⟩⟩ := by
  induction cs generalizing o with
  | nil => rw [readPanels_nil, List.append_nil]; rfl
  | cons c cs ih =>
    rw [readPanels, cutFolded]
    split
    · rename_i rest hclose
      simp only [hclose, List.append_nil]
    · rename_i hclose
      simp only [hclose, ih]
      rcases cutFolded Char.toLower panelClose cs with _ | ⟨markup, word, after⟩ <;> simp

/-! ## It reads the panels of a text -/

theorem cutFolded_eq_none_of_suffix {word cs more : List Char} (hword : word ≠ [])
    (h : cutFolded Char.toLower word cs = none) (hmore : more <:+ cs) :
    cutFolded Char.toLower word more = none := by
  rw [cutFolded_eq_none_iff hword] at h ⊢
  exact fun hin => h (hin.trans (hmore.map Char.toLower).isInfix)

/-- Behind the opening tag of a panel that is never closed no panel is found. -/
theorem panelsIn_of_unclosed {c : Char} {cs id body later : List Char}
    (h : openingAt? (c :: cs) = some (id, body))
    (hclose : cutFolded Char.toLower panelClose body = none) (hlater : later <:+ cs) :
    panelsIn later = [] := by
  induction later with
  | nil =>
    rw [panelsIn]
    rfl
  | cons d later ih =>
    have hnone : panelAt? (d :: later) = none := by
      rw [panelAt?_eq]
      rcases hopen : openingAt? (d :: later) with _ | ⟨id', body'⟩
      · rfl
      · have hbody := suffix_of_later h hlater hopen
        simp [cutFolded_eq_none_of_suffix (by decide) hclose hbody]
    rw [panelsIn]
    split
    · rename_i hsome
      cases hnone.symm.trans hsome
    · exact ih ((List.suffix_cons d later).trans hlater)

theorem panelsIn_eq (cs : List Char) : panelsIn cs = (readPanels none cs).panels := by
  induction hlength : cs.length using Nat.strongRecOn generalizing cs with
  | ind n ih =>
    subst hlength
    rcases cs with _ | ⟨c, cs⟩
    · rw [panelsIn, readPanels_nil]
      rfl
    rw [panelsIn, readPanels_none_cons]
    rcases hopen : openingAt? (c :: cs) with _ | ⟨id, body⟩
    · have hnone : panelAt? (c :: cs) = none := by rw [panelAt?_eq, hopen]; rfl
      split
      · rename_i hsome
        cases hnone.symm.trans hsome
      · exact ih _ (Nat.lt_succ_self _) cs rfl
    have hpanel := panelAt?_eq (c :: cs)
    rw [hopen, Option.bind_some] at hpanel
    dsimp only at hpanel ⊢
    rw [readPanels_some]
    rcases hclose : cutFolded Char.toLower panelClose body with _ | ⟨markup, word, after⟩
    · rw [hclose, Option.map_none] at hpanel
      split
      · rename_i hsome
        cases hpanel.symm.trans hsome
      · exact panelsIn_of_unclosed hopen hclose List.suffix_rfl
    · rw [hclose, Option.map_some] at hpanel
      split
      · rename_i p rest hsome
        obtain ⟨rfl, rfl⟩ := Prod.mk.inj (Option.some.inj (hpanel.symm.trans hsome))
        have hlt := length_panelAt? hpanel
        rw [ih _ hlt after rfl]
        rfl
      · rename_i hnone
        cases hnone.symm.trans hpanel

/-! ## Which panels are closed -/

/-- The ids of the panels that are closed depend on the id of the open one alone. -/
theorem readPanels_congr {o o' : Option OpenPanel} (h : o.map (·.id) = o'.map (·.id))
    (cs : List Char) :
    (readPanels o cs).panels.map (·.id) = (readPanels o' cs).panels.map (·.id) ∧
      (readPanels o cs).opened.map (·.id) = (readPanels o' cs).opened.map (·.id) := by
  rcases o with _ | o <;> rcases o' with _ | o'
  · exact ⟨rfl, rfl⟩
  · cases h
  · cases h
  · have hid : o.id = o'.id := Option.some.inj h
    simp only [readPanels_some]
    rcases cutFolded Char.toLower panelClose cs with _ | ⟨markup, word, after⟩ <;> simp [hid]

end WidgetSchema.Markup
