-- The length of what JSON text writes. A string is written in quotes, and no escape is shorter
-- than the character it stands for, so a text never writes itself as a string.
import WidgetSchema.Node.Written
namespace WidgetSchema

/-! ## Lexemes -/

namespace Token

theorem length_assemble? {parts : List StringPart} {cs : List Char}
    (h : assemble? parts = some cs) : cs.length ≤ parts.length := by
  fun_induction assemble? parts generalizing cs with
  | case1 =>
    cases h
    exact Nat.le_refl 0
  | case2 c ps ih =>
    obtain ⟨ds, hds, rfl⟩ := Option.map_eq_some_iff.1 h
    exact Nat.succ_le_succ (ih hds)
  | case3 u v ps _ _ ih =>
    obtain ⟨ds, hds, rfl⟩ := Option.map_eq_some_iff.1 h
    exact Nat.succ_le_succ (Nat.le_succ_of_le (ih hds))
  | case4 => cases h
  | case5 => cases h
  | case6 u v ps _ _ ih =>
    obtain ⟨ds, hds, rfl⟩ := Option.map_eq_some_iff.1 h
    exact Nat.succ_le_succ (ih hds)
  | case7 => cases h
  | case8 u ps _ _ ih =>
    obtain ⟨ds, hds, rfl⟩ := Option.map_eq_some_iff.1 h
    exact Nat.succ_le_succ (ih hds)

/-- Every part of a string takes a character, and so does the closing quote. -/
theorem length_parts {cs rest : List Char} {body : List StringPart}
    (h : stringBody? cs = some (body, rest)) : body.length + rest.length < cs.length := by
  fun_induction stringBody? cs generalizing body rest with
  | case1 rest' =>
    simp only [Option.some.injEq, Prod.mk.injEq] at h
    rw [← h.1, ← h.2, List.length_cons]
    simp
  | case2 => cases h
  | case3 cs _ p rest' hp _ ih =>
    obtain ⟨⟨b, r⟩, hb, he⟩ := Option.map_eq_some_iff.1 h
    simp only [Prod.mk.injEq] at he
    have hrest := ih hb
    have hpart := length_stringPart? hp
    rw [← he.1, ← he.2, List.length_cons]
    omega

/-- The text of a string lexeme is at least two characters shorter than what it is read from. -/
theorem length_string {cs rest : List Char} {s : String}
    (h : next? cs = some (string (some s), rest)) : s.length + 2 ≤ cs.length := by
  unfold next? at h
  split at h
  case h_10 =>
    obtain ⟨⟨body, r⟩, hbody, he⟩ := Option.map_eq_some_iff.1 h
    simp only [Prod.mk.injEq, string.injEq] at he
    obtain ⟨ds, hds, rfl⟩ := Option.map_eq_some_iff.1 he.1
    have hparts := length_parts hbody
    have hlen := length_assemble? hds
    rw [String.length_ofList, List.length_cons]
    omega
  case h_11 =>
    obtain ⟨⟨n, r⟩, _, he⟩ := Option.map_eq_some_iff.1 h
    simp at he
  all_goals simp at h

theorem length_of_mem_all? {cs : List Char} {tokens : List Token} {s : String}
    (h : all? cs = some tokens) (hs : string (some s) ∈ tokens) : s.length + 2 ≤ cs.length := by
  fun_induction all? cs generalizing tokens with
  | case1 =>
    cases h
    cases hs
  | case2 => cases h
  | case3 cs c rest hd t after hn _ ih =>
    obtain ⟨ts, hts, rfl⟩ := Option.map_eq_some_iff.1 h
    have hle : (c :: rest).length ≤ cs.length := hd ▸ length_dropWhile_le isSpace cs
    rcases List.mem_cons.1 hs with rfl | hs
    · exact Nat.le_trans (length_string hn) hle
    · have hafter := length_next? hn
      have hrest := ih hts hs
      omega

end Token

/-! ## Values -/

namespace Written

open ReadState

theorem eq_string_of_startValue {outer : List OpenContainer} {t : Token} {s : Option String}
    (h : startValue outer t = some (after (string s) [])) : t = .string s := by
  cases t with
  | string s' =>
    simp only [startValue, Option.some.injEq, after.injEq, string.injEq] at h
    rw [h.1]
  | _ => simp [startValue] at h

/-- A string that is read last was read as one lexeme. -/
theorem eq_string_of_step {st : ReadState} {t : Token} {s : Option String}
    (h : st.step t = some (after (string s) [])) : t = .string s := by
  unfold step at h
  split at h
  case h_1 => exact eq_string_of_startValue h
  case h_3 => exact eq_string_of_startValue h
  all_goals simp at h

theorem mem_of_foldlM_step {tokens : List Token} {st : ReadState} {s : Option String}
    (h : tokens.foldlM step st = some (after (string s) []))
    (hst : st ≠ after (string s) []) : Token.string s ∈ tokens := by
  induction tokens generalizing st with
  | nil =>
    cases h
    exact absurd rfl hst
  | cons t tokens ih =>
    obtain ⟨next, hnext, hrest⟩ := Option.bind_eq_some_iff.1 h
    by_cases hn : next = after (string s) []
    · subst hn
      rw [eq_string_of_step hnext]
      exact List.mem_cons_self
    · exact List.mem_cons_of_mem _ (ih hrest hn)

theorem eq_string_of_toNode? {depth : Nat} {w : Written} {s : String}
    (h : toNode? depth w = some (.string s)) : w = string (some s) := by
  cases w with
  | string s' =>
    obtain ⟨_, hs', he⟩ := Option.map_eq_some_iff.1 h
    rw [hs', Node.string.inj he]
  | number n => simp [toNode?] at h
  | array _ => cases depth <;> simp [toNode?] at h
  | object _ => cases depth <;> simp [toNode?] at h
  | _ => simp [toNode?] at h

theorem eq_after_of_result? {st : ReadState} {w : Written} (h : st.result? = some w) :
    st = after w [] := by
  unfold result? at h
  split at h
  · rw [Option.some.inj h]
  · cases h

end Written

/-- The string that a text writes is at least two characters shorter. -/
theorem Node.length_of_ofText? {text s : String} (h : Node.ofText? text = some (.string s)) :
    s.length + 2 ≤ text.length := by
  obtain ⟨w, hw, hnode⟩ := Option.bind_eq_some_iff.1 h
  obtain ⟨tokens, htokens, hw⟩ := Option.bind_eq_some_iff.1 hw
  obtain ⟨final, hfinal, hresult⟩ := Option.bind_eq_some_iff.1 hw
  have hstring := Written.eq_string_of_toNode? hnode
  have hafter := Written.eq_after_of_result? hresult
  rw [hafter, hstring] at hfinal
  have hmem : Token.string (some s) ∈ tokens := Written.mem_of_foldlM_step hfinal (by simp)
  rw [← String.length_toList]
  exact Token.length_of_mem_all? htokens hmem

end WidgetSchema
