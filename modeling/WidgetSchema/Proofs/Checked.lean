-- Runs of checks. A run gives a result just when each check in it does, and when none of the
-- reasons to stop is there.
namespace WidgetSchema

theorem bind_eq_ok_iff {ε α β : Type} {x : Except ε α} {f : α → Except ε β} {b : β} :
    x >>= f = .ok b ↔ ∃ a, x = .ok a ∧ f a = .ok b := by
  cases x <;> simp [bind, Except.bind]

theorem bind_eq_error_iff {ε α β : Type} {x : Except ε α} {f : α → Except ε β} {err : ε} :
    x >>= f = .error err ↔ x = .error err ∨ ∃ a, x = .ok a ∧ f a = .error err := by
  cases x <;> simp [bind, Except.bind]

theorem unless_throw_eq_ok_iff {ε α β : Type} {refused : Prop} [Decidable refused] {err : ε}
    {f : α → Except ε β} {x : Except ε β} {b : β} :
    (if refused then throw err >>= f else x) = .ok b ↔ ¬ refused ∧ x = .ok b := by
  by_cases h : refused
  · rw [if_pos h]
    exact ⟨fun hb => (nomatch hb), fun hb => absurd h hb.1⟩
  · rw [if_neg h]
    exact ⟨fun hb => ⟨h, hb⟩, fun hb => hb.2⟩

theorem map_eq_ok_iff {ε α β : Type} {x : Except ε α} {f : α → β} {b : β} :
    x.map f = .ok b ↔ ∃ a, x = .ok a ∧ f a = b := by
  cases x <;> simp [Except.map]

section Attached

variable {m : Type → Type} [Monad m] [LawfulMonad m] {α β : Type} {f g : α → m β}

/-- A run over a list needs not know that its items are in the list. -/
theorem mapM_attach (f : α → m β) (xs : List α) :
    xs.attach.mapM (f ∘ Subtype.val) = xs.mapM f := by
  rw [← List.mapM_map, List.attach_map_subtype_val]

theorem mapM_congr_of_mem {xs : List α} (h : ∀ x ∈ xs, f x = g x) : xs.mapM f = xs.mapM g := by
  rw [← mapM_attach f, ← mapM_attach g]
  congr 1
  funext ⟨x, hx⟩
  exact h x hx

end Attached

/-- What a run over a list gives comes from the items of the list. -/
theorem exists_of_mapM_eq_ok {ε α β : Type} {f : α → Except ε β} {xs : List α} {ys : List β}
    (h : xs.mapM f = .ok ys) : ∀ y ∈ ys, ∃ x ∈ xs, f x = .ok y := by
  induction xs generalizing ys with
  | nil =>
    obtain rfl := Except.ok.inj h
    exact fun y hy => nomatch hy
  | cons x xs ih =>
    rw [List.mapM_cons] at h
    obtain ⟨b, hb, h⟩ := bind_eq_ok_iff.1 h
    obtain ⟨bs, hbs, h⟩ := bind_eq_ok_iff.1 h
    obtain rfl := Except.ok.inj h
    intro y hy
    rcases List.mem_cons.1 hy with rfl | hy
    · exact ⟨x, List.mem_cons_self, hb⟩
    · obtain ⟨z, hz, hrun⟩ := ih hbs y hy
      exact ⟨z, List.mem_cons_of_mem x hz, hrun⟩

/-- A relation between an item and what the run gives for it, read from both sides. -/
theorem relates_of_mapM_eq_ok {ε α β : Type} {f : α → Except ε β} {r : α → β → Prop}
    {xs : List α} {ys : List β} (h : xs.mapM f = .ok ys) (hf : ∀ x y, f x = .ok y → r x y) :
    (∀ x ∈ xs, ∃ y ∈ ys, r x y) ∧ ∀ y ∈ ys, ∃ x ∈ xs, r x y := by
  refine ⟨?_, fun y hy => ?_⟩
  · induction xs generalizing ys with
    | nil => exact fun x hx => nomatch hx
    | cons x xs ih =>
      rw [List.mapM_cons] at h
      obtain ⟨b, hb, h⟩ := bind_eq_ok_iff.1 h
      obtain ⟨bs, hbs, h⟩ := bind_eq_ok_iff.1 h
      obtain rfl := Except.ok.inj h
      intro z hz
      rcases List.mem_cons.1 hz with rfl | hz
      · exact ⟨b, List.mem_cons_self, hf z b hb⟩
      · obtain ⟨y, hy, hr⟩ := ih hbs z hz
        exact ⟨y, List.mem_cons_of_mem b hy, hr⟩
  · obtain ⟨x, hx, hrun⟩ := exists_of_mapM_eq_ok h y hy
    exact ⟨x, hx, hf x y hrun⟩

end WidgetSchema
