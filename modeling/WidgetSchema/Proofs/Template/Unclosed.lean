-- Blocks that are never closed. Where no tag closes a block, every block that was opened is given
-- up at the end, so each piece leaves its parts behind those of the pieces before it, whatever is
-- open. A piece that is not left as it is written leaves less than its source in a context without
-- members, so a template stays as it is in every context just when all of its pieces do.
import WidgetSchema.Proofs.Template.RoundTrip
import WidgetSchema.Template.Render
namespace WidgetSchema.Template

open Text (trimChars)

/-! ## What is left of open blocks -/

section Left

variable (s : BlockState) (raw : List Char)

theorem closeAll_pushPart (p : TemplatePart) : closeAll (pushPart s p) = closeAll s ++ [p] := by
  obtain ⟨blocks, parts⟩ := s
  suffices hrun : ∀ parts, blocks.foldl (fun parts b => unclosed b parts) (p :: parts) =
      p :: blocks.foldl (fun parts b => unclosed b parts) parts by
    rw [pushPart, closeAll, closeAll, hrun, List.reverse_cons]
  induction blocks with
  | nil => exact fun _ => rfl
  | cons b blocks ih =>
    intro parts
    have hone : unclosed b (p :: parts) = p :: unclosed b parts := by
      unfold unclosed
      split <;> rfl
    rw [List.foldl_cons, List.foldl_cons, hone, ih]

/-- A block that is opened leaves its tag. -/
theorem closeAll_openBlock {kind : BlockKind} (hkind : ∀ yes, kind ≠ .condElse yes) (key : String) :
    closeAll (openBlock s kind raw key) = closeAll s ++ [.text (tagText raw)] := by
  rw [← closeAll_pushPart]
  cases kind with
  | condElse yes => exact absurd rfl (hkind yes)
  | _ => rfl

/-- Whether an `else` would turn the innermost block. -/
def BlockState.behindIf (s : BlockState) : Bool :=
  match s.blocks with
  | ⟨.cond, _, _, _⟩ :: _ => true
  | _ => false

/-- The second side of the innermost block. -/
def turn (s : BlockState) : BlockState :=
  match s.blocks with
  | b :: bs => ⟨{ b with kind := .condElse s.parts.reverse } :: bs, []⟩
  | [] => s

theorem closeAll_turn (h : s.behindIf = true) :
    closeAll (turn s) = closeAll s ++ [.text (tagText "else".toList)] := by
  obtain ⟨blocks, parts⟩ := s
  rw [← closeAll_pushPart]
  rcases blocks with _ | ⟨⟨kind, raw, key, outer⟩, bs⟩
  · cases h
  · cases kind with
    | cond => simp [turn, closeAll, pushPart, unclosed]
    | _ => cases h

theorem behindIf_turn : (turn s).behindIf = false := by
  obtain ⟨blocks, parts⟩ := s
  cases blocks <;> rfl

end Left

/-! ## What a piece leaves -/

/-- A tag that ends an open block of one kind or another. -/
def IsClosing (raw : List Char) : Prop :=
  trimChars raw ∈ ["/if".toList, "/unless".toList, "/each".toList]

def IsElse (raw : List Char) : Prop := trimChars raw = "else".toList

instance (raw : List Char) : Decidable (IsElse raw) := inferInstanceAs (Decidable (_ = _))

/-- The block that a tag opens. -/
def opened? (raw : List Char) : Option BlockKind :=
  if (keyAfter? "#if " (trimChars raw)).isSome then some .cond
  else if (keyAfter? "#unless " (trimChars raw)).isSome then some .unless
  else if (keyAfter? "#each " (trimChars raw)).isSome then some .each
  else none

/-- What a tag leaves that turns no block. -/
def plainParts (raw : List Char) : List TemplatePart :=
  match trimChars raw with
  | [] => []
  | '#' :: _ | '/' :: _ => [.text (tagText raw)]
  | token => [.var (String.ofList token)]

/-- What a piece leaves, behind an `#if` or not. -/
def piecePartsBehind (behindIf : Bool) : Piece → List TemplatePart
  | .text cs => [.text (String.ofList cs)]
  | .tag raw =>
    if behindIf = true ∧ IsElse raw then [.text (tagText "else".toList)] else plainParts raw

/-- Whether the place behind a piece is behind an `#if`. -/
def behindIfAfter (behindIf : Bool) : Piece → Bool
  | .text _ => behindIf
  | .tag raw =>
    if behindIf = true ∧ IsElse raw then false
    else
      match opened? raw with
      | some .cond => true
      | some _ => false
      | none => behindIf

def partsBehind (behindIf : Bool) : List Piece → List TemplatePart
  | [] => []
  | p :: ps => piecePartsBehind behindIf p ++ partsBehind (behindIfAfter behindIf p) ps

theorem plainParts_of_head? {raw : List Char} (h : (trimChars raw).head? = some '#') :
    plainParts raw = [.text (tagText raw)] := by
  obtain ⟨rest, hrest⟩ := List.head?_eq_some_iff.1 h
  unfold plainParts
  rw [hrest]
  rfl

/-- A tag that neither turns nor closes a block opens one, or adds what it leaves. -/
theorem plainTag_cases (s : BlockState) (raw : List Char) :
    (∃ kind key, opened? raw = some kind ∧ (∀ yes, kind ≠ .condElse yes) ∧
      plainParts raw = [.text (tagText raw)] ∧ plainTag s raw = openBlock s kind raw key) ∨
    (opened? raw = none ∧ plainTag s raw = (plainParts raw).foldl pushPart s) := by
  have hopens {word key : String} (hword : word.toList.head? = some '#')
      (hkey : keyAfter? word (trimChars raw) = some key) :
      plainParts raw = [.text (tagText raw)] := by
    refine plainParts_of_head? (by_contra fun hhead => ?_)
    rw [keyAfter?_eq_none word hword hhead] at hkey
    cases hkey
  unfold plainTag opened?
  rcases hif : keyAfter? "#if " (trimChars raw) with _ | key
  · rcases hunless : keyAfter? "#unless " (trimChars raw) with _ | key
    · rcases heach : keyAfter? "#each " (trimChars raw) with _ | key
      · refine .inr ⟨rfl, ?_⟩
        simp only [hif, hunless, heach]
        unfold plainParts
        split <;> simp only [*, List.foldl_nil, List.foldl_cons]
      · exact .inl ⟨.each, key, rfl, by simp, hopens rfl heach, by simp only [hif, hunless, heach]⟩
    · exact .inl ⟨.unless, key, rfl, by simp, hopens rfl hunless, by simp only [hif, hunless]⟩
  · exact .inl ⟨.cond, key, rfl, by simp, hopens rfl hif, by simp only [hif]⟩

theorem addPiece_of_not_isClosing {raw : List Char} (h : ¬ IsClosing raw) (s : BlockState) :
    addPiece s (.tag raw) =
      if s.behindIf = true ∧ IsElse raw then turn s else plainTag s raw := by
  obtain ⟨blocks, parts⟩ := s
  by_cases helse : IsElse raw
  · have hword : String.ofList (trimChars raw) = "else" := by rw [helse, String.ofList_toList]
    rcases blocks with _ | ⟨⟨kind, opening, key, outer⟩, bs⟩
    · rfl
    · cases kind <;> simp [addPiece, hword, BlockState.behindIf, turn, helse]
  · rw [if_neg fun hturn => helse hturn.2]
    refine addPiece_eq_plainTag (fun word hword hraw => ?_) _
    have htrim : trimChars raw = word.toList := by rw [← hraw, String.toList_ofList]
    simp only [List.mem_cons, List.not_mem_nil, or_false] at hword
    rcases hword with rfl | rfl | rfl | rfl
    · exact h (by simp [IsClosing, htrim])
    · exact helse htrim
    · exact h (by simp [IsClosing, htrim])
    · exact h (by simp [IsClosing, htrim])

/-! ## What the pieces leave -/

/-- No piece is a tag that closes a block. -/
def NoneCloses (ps : List Piece) : Prop := ∀ raw, Piece.tag raw ∈ ps → ¬ IsClosing raw

theorem noneCloses_nil : NoneCloses [] := fun _ hraw => (List.not_mem_nil hraw).elim

theorem NoneCloses.tail {p : Piece} {ps : List Piece} (h : NoneCloses (p :: ps)) : NoneCloses ps :=
  fun raw hraw => h raw (List.mem_cons_of_mem p hraw)

theorem closeAll_foldl_pushPart (ps : List TemplatePart) (s : BlockState) :
    closeAll (ps.foldl pushPart s) = closeAll s ++ ps := by
  induction ps generalizing s with
  | nil => rw [List.foldl_nil, List.append_nil]
  | cons p ps ih => rw [List.foldl_cons, ih, closeAll_pushPart, List.append_assoc]; rfl

theorem behindIf_foldl_pushPart (ps : List TemplatePart) (s : BlockState) :
    (ps.foldl pushPart s).behindIf = s.behindIf := by
  induction ps generalizing s with
  | nil => rfl
  | cons p ps ih => exact ih (pushPart s p)

/-- A piece leaves its parts behind what is left of the pieces before it. -/
theorem closeAll_addPiece {p : Piece} (h : NoneCloses [p]) (s : BlockState) :
    closeAll (addPiece s p) = closeAll s ++ piecePartsBehind s.behindIf p ∧
      (addPiece s p).behindIf = behindIfAfter s.behindIf p := by
  cases p with
  | text cs => exact ⟨closeAll_pushPart s _, rfl⟩
  | tag raw =>
    rw [addPiece_of_not_isClosing (h raw List.mem_cons_self)]
    by_cases hturn : s.behindIf = true ∧ IsElse raw
    · rw [if_pos hturn, piecePartsBehind, if_pos hturn, behindIfAfter, if_pos hturn]
      exact ⟨closeAll_turn s hturn.1, behindIf_turn s⟩
    · rw [if_neg hturn, piecePartsBehind, if_neg hturn, behindIfAfter, if_neg hturn]
      rcases plainTag_cases s raw with ⟨kind, key, hkind, helse, hparts, htag⟩ | ⟨hnone, htag⟩
      · rw [htag, hkind, hparts]
        refine ⟨closeAll_openBlock s raw helse key, ?_⟩
        cases kind with
        | condElse yes => exact absurd rfl (helse yes)
        | _ => rfl
      · rw [htag, hnone]
        exact ⟨closeAll_foldl_pushPart _ _, behindIf_foldl_pushPart _ _⟩

/-- Where no tag closes a block, every piece leaves its own parts. -/
theorem closeAll_foldl_addPiece {ps : List Piece} (h : NoneCloses ps) (s : BlockState) :
    closeAll (ps.foldl addPiece s) = closeAll s ++ partsBehind s.behindIf ps := by
  induction ps generalizing s with
  | nil => rw [List.foldl_nil, partsBehind, List.append_nil]
  | cons p ps ih =>
    have hp : NoneCloses [p] := fun raw hraw => h raw (by simp_all)
    obtain ⟨hparts, hbehind⟩ := closeAll_addPiece hp s
    rw [List.foldl_cons, ih h.tail, hparts, hbehind, partsBehind, List.append_assoc]

/-! ## Pieces that stay -/

/-- Every piece leaves itself. -/
def EachStays (behindIf : Bool) : List Piece → Prop
  | [] => True
  | p :: ps => piecePartsBehind behindIf p = [.text (String.ofList p.source)] ∧
      EachStays (behindIfAfter behindIf p) ps

theorem renderParts_append (scopes : List Node) (ps qs : List TemplatePart) :
    renderParts scopes (ps ++ qs) = renderParts scopes ps ++ renderParts scopes qs := by
  induction ps with
  | nil => rw [List.nil_append, renderParts, String.empty_append]
  | cons p ps ih => rw [List.cons_append, renderParts, renderParts, ih, String.append_assoc]

theorem renderParts_text (scopes : List Node) (s : String) :
    renderParts scopes [.text s] = s := by
  rw [renderParts, renderPart, renderParts, String.append_empty]

theorem renderParts_of_eachStays {behindIf : Bool} {ps : List Piece} (h : EachStays behindIf ps)
    (scopes : List Node) : renderParts scopes (partsBehind behindIf ps) =
      String.ofList (ps.flatMap Piece.source) := by
  induction ps generalizing behindIf with
  | nil => rfl
  | cons p ps ih =>
    rw [partsBehind, renderParts_append, h.1, renderParts_text, ih h.2, List.flatMap_cons,
      String.ofList_append]

/-- No key has a value in a context without members. -/
theorem renderParts_var_null (key : String) : renderParts [.null] [.var key] = "" := by
  suffices hdisplay : ((resolve? [.null] key).map Node.display).getD "" = "" by
    rw [renderParts, renderPart, hdisplay, renderParts, String.append_empty]
  unfold resolve?
  rcases climb key.toList with ⟨up, rest⟩
  dsimp only
  rcases up with _ | up
  · rw [List.getElem?_cons_zero, Option.bind_some]
    cases ((Text.splitChars '.' rest).map String.ofList).filter (· ≠ "") <;> rfl
  · rfl

theorem length_tagText (raw : List Char) : (tagText raw).length = raw.length + 4 := by
  rw [← String.length_toList, toList_tagText]
  simp [Piece.source, openBraces, closeBraces]

/-- In a context without members a piece never leaves more than its source, and leaves its source
only when it stays. -/
theorem renderParts_piece_null (behindIf : Bool) (p : Piece) :
    (renderParts [.null] (piecePartsBehind behindIf p)).length ≤ p.source.length ∧
      (renderParts [.null] (piecePartsBehind behindIf p) = String.ofList p.source →
        piecePartsBehind behindIf p = [.text (String.ofList p.source)]) := by
  rcases p with cs | raw
  · rw [piecePartsBehind, renderParts_text]
    exact ⟨by simp [Piece.source], fun _ => rfl⟩
  have hsource : String.ofList (Piece.tag raw).source = tagText raw := rfl
  have hempty : "" ≠ tagText raw := fun h => by
    have := length_tagText raw
    rw [← h] at this
    simp at this
  have hlength : (Piece.tag raw).source.length = raw.length + 4 := by
    rw [← toList_tagText, String.length_toList, length_tagText]
  rw [hsource, hlength, piecePartsBehind]
  split
  · rename_i hturn
    rw [renderParts_text]
    refine ⟨?_, fun h => by rw [h]⟩
    have := Text.length_trimChars_le raw
    rw [length_tagText, ← hturn.2]
    omega
  · unfold plainParts
    split
    · exact ⟨by simp [renderParts], fun h => absurd h hempty⟩
    · rw [renderParts_text, length_tagText]
      exact ⟨le_rfl, fun _ => rfl⟩
    · rw [renderParts_text, length_tagText]
      exact ⟨le_rfl, fun _ => rfl⟩
    · rw [renderParts_var_null]
      exact ⟨by simp, fun h => absurd h hempty⟩

theorem eachStays_of_renderParts {behindIf : Bool} {ps : List Piece}
    (h : renderParts [.null] (partsBehind behindIf ps) =
      String.ofList (ps.flatMap Piece.source)) : EachStays behindIf ps := by
  -- The lengths of what the pieces leave are at most those of their sources, so they are the same.
  have hle (behindIf : Bool) (ps : List Piece) :
      (renderParts [.null] (partsBehind behindIf ps)).length ≤
        (ps.flatMap Piece.source).length := by
    induction ps generalizing behindIf with
    | nil => simp [partsBehind, renderParts]
    | cons p ps ih =>
      rw [partsBehind, renderParts_append, String.length_append, List.flatMap_cons,
        List.length_append]
      exact Nat.add_le_add (renderParts_piece_null behindIf p).1 (ih _)
  induction ps generalizing behindIf with
  | nil => trivial
  | cons p ps ih =>
    rw [partsBehind, renderParts_append, List.flatMap_cons] at h
    have hlists := congrArg String.toList h
    rw [String.toList_append, String.toList_ofList] at hlists
    have hp := (renderParts_piece_null behindIf p).1
    have hps := hle (behindIfAfter behindIf p) ps
    have hsum := congrArg List.length hlists
    rw [List.length_append, List.length_append, String.length_toList, String.length_toList] at hsum
    obtain ⟨hhead, htail⟩ := List.append_inj hlists (by rw [String.length_toList]; omega)
    refine ⟨(renderParts_piece_null behindIf p).2 ?_, ih ?_⟩
    · rw [← hhead, String.ofList_toList]
    · rw [← htail, String.ofList_toList]

/-- The pieces of a text hold all of it. -/
theorem source_pieces (cs : List Char) : (pieces cs).flatMap Piece.source = cs := by
  have hlead (before : List Char) (ps : List Piece) :
      ((if before.isEmpty then [] else [Piece.text before]) ++ ps).flatMap Piece.source =
        before ++ ps.flatMap Piece.source := by
    cases before <;> rfl
  fun_induction pieces cs with
  | case1 cs _ hempty => rw [List.isEmpty_iff.1 hempty]; rfl
  | case2 cs => exact List.append_nil cs
  | case3 cs before rest hopen lead =>
    refine (hlead before _).trans ?_
    simp [Piece.source, ← Text.append_of_cutAt hopen]
  | case4 cs before rest hopen lead raw after hclose _ ih =>
    refine (hlead before _).trans ?_
    rw [List.flatMap_cons, ih, ← Text.append_of_cutAt hopen, ← Text.append_of_cutAt hclose]
    simp [Piece.source]

/-- A template in which no tag closes a block stays as it is just when each of its pieces does. -/
theorem render_parse_eq_self_iff {source : String} (h : NoneCloses (pieces source.toList)) :
    (∀ context, render (parse source) context = source) ↔
      EachStays false (pieces source.toList) := by
  have hparse : parse source = partsBehind false (pieces source.toList) :=
    closeAll_foldl_addPiece h ⟨[], []⟩
  have hsource : String.ofList ((pieces source.toList).flatMap Piece.source) = source := by
    rw [source_pieces, String.ofList_toList]
  constructor
  · intro hrender
    refine eachStays_of_renderParts ?_
    rw [hsource, ← hparse]
    exact hrender .null
  · intro hstays context
    rw [render, hparse, renderParts_of_eachStays hstays, hsource]

/-! ## Unclosed templates -/

/-- A tag that starts with a word for opening a block. -/
def IsOpening (raw : List Char) : Prop :=
  ∃ word ∈ ["#if", "#unless", "#each"], word.toList <+: trimChars raw

instance (raw : List Char) : Decidable (IsOpening raw) :=
  inferInstanceAs (Decidable (∃ word ∈ _, _))

/-- A text without the braces that open a tag, or a tag that opens a block or is an `else`. -/
def Piece.IsUnclosing : Piece → Prop
  | text cs => cs ≠ [] ∧ ¬ openBraces <:+: cs
  | tag raw => (¬ closeBraces <:+: raw ∧ raw.getLast? ≠ some '\x7d') ∧ (IsOpening raw ∨ IsElse raw)

instance : (p : Piece) → Decidable p.IsUnclosing
  | .text _ => inferInstanceAs (Decidable (_ ∧ _))
  | .tag _ => inferInstanceAs (Decidable (_ ∧ _))

/-- Pieces of which none closes a block, with no text next to a text. -/
structure IsUnclosed (ps : List Piece) : Prop where
  unclosing : ∀ p ∈ ps, p.IsUnclosing
  apart : ps.IsChain fun p q => p.isText = false ∨ q.isText = false

/-- Every `else` stands where it turns an `#if`, and is written without blanks. -/
def ElsesStay (behindIf : Bool) : List Piece → Prop
  | [] => True
  | .text _ :: ps => ElsesStay behindIf ps
  | .tag raw :: ps => (IsElse raw → behindIf = true ∧ raw = "else".toList) ∧
      ElsesStay (behindIfAfter behindIf (.tag raw)) ps

instance instDecidableElsesStay : (behindIf : Bool) → (ps : List Piece) →
    Decidable (ElsesStay behindIf ps)
  | _, [] => inferInstanceAs (Decidable True)
  | behindIf, .text _ :: ps => instDecidableElsesStay behindIf ps
  | behindIf, .tag raw :: ps =>
    have := instDecidableElsesStay (behindIfAfter behindIf (.tag raw)) ps
    inferInstanceAs (Decidable (_ ∧ _))

theorem IsUnclosed.tail {p : Piece} {ps : List Piece} (h : IsUnclosed (p :: ps)) : IsUnclosed ps :=
  ⟨fun q hq => h.unclosing q (List.mem_cons_of_mem p hq), h.apart.tail⟩

theorem IsOpening.head? {raw : List Char} (h : IsOpening raw) :
    (trimChars raw).head? = some '#' := by
  obtain ⟨word, hword, rest, hrest⟩ := h
  simp only [List.mem_cons, List.not_mem_nil, or_false] at hword
  rcases hword with rfl | rfl | rfl <;> rw [← hrest] <;> rfl

theorem IsOpening.not_isElse {raw : List Char} (h : IsOpening raw) : ¬ IsElse raw := by
  intro helse
  have hhead := h.head?
  rw [helse] at hhead
  cases hhead

theorem not_isClosing_of_head? {raw : List Char} (h : (trimChars raw).head? ≠ some '/') :
    ¬ IsClosing raw := by
  intro hclosing
  refine h ?_
  have hwords : ∀ word ∈ ["/if".toList, "/unless".toList, "/each".toList],
      word.head? = some '/' := by decide
  exact hwords _ hclosing

/-- A brace at the start of a tag stays there when the tag is trimmed. -/
theorem head?_trimChars_brace (raw : List Char) :
    (trimChars ('\x7b' :: raw)).head? = some '\x7b' := by
  rw [trimChars, Text.trimStart_eq_self (by simp [Text.isBlank]), Text.trimEnd, List.reverse_cons,
    List.dropWhile_append]
  split
  · rfl
  · rw [List.reverse_append]
    rfl

theorem plainParts_brace (raw : List Char) :
    plainParts ('\x7b' :: raw) = [.var (String.ofList (trimChars ('\x7b' :: raw)))] := by
  obtain ⟨more, hmore⟩ := List.head?_eq_some_iff.1 (head?_trimChars_brace raw)
  unfold plainParts
  rw [hmore]
  rfl

theorem tagText_inj {raw other : List Char} : tagText raw = tagText other ↔ raw = other := by
  rw [← String.toList_inj, toList_tagText, toList_tagText, Piece.source, Piece.source,
    List.append_left_inj, List.append_right_inj]

theorem tag_stays_iff {raw : List Char} (h : IsOpening raw ∨ IsElse raw) (behindIf : Bool) :
    piecePartsBehind behindIf (.tag raw) = [.text (String.ofList (Piece.tag raw).source)] ↔
      (IsElse raw → behindIf = true ∧ raw = "else".toList) := by
  have hsource : String.ofList (Piece.tag raw).source = tagText raw := rfl
  rw [hsource, piecePartsBehind]
  rcases h with hopening | helse
  · rw [if_neg fun hturn => hopening.not_isElse hturn.2, plainParts_of_head? hopening.head?]
    exact iff_of_true rfl fun helse => (hopening.not_isElse helse).elim
  · cases behindIf with
    | false =>
      have hparts : plainParts raw = [.var "else"] := by
        unfold plainParts
        rw [helse]
        rfl
      simp [hparts, helse]
    | true =>
      rw [if_pos ⟨rfl, helse⟩]
      simp only [List.cons.injEq, TemplatePart.text.injEq, tagText_inj, helse, true_imp_iff,
        true_and, and_true]
      exact eq_comm

theorem isSound_brace {raw : List Char} (h : (Piece.tag raw).IsSound) :
    (Piece.tag ('\x7b' :: raw)).IsSound := by
  refine ⟨fun hin => ?_, fun hlast => ?_⟩
  · rcases List.infix_cons_iff.1 hin with hhere | hlater
    · exact absurd (List.cons_prefix_cons.1 hhere).1 (by decide)
    · exact h.1 hlater
  · cases raw with
    | nil => exact absurd hlast (by decide)
    | cons c raw => exact h.2 (List.getLast?_cons_cons ▸ hlast)

/-! ## The pieces of an unclosed template -/

/-- Pieces as they are written, and as they are read: a brace right before a tag becomes part
of the tag. -/
inductive ReadAs : List Piece → List Piece → Prop
  | nil : ReadAs [] []
  | text (cs : List Char) : ReadAs [.text cs] [.text cs]
  | tag {raw : List Char} {ps qs : List Piece} (hraw : IsOpening raw ∨ IsElse raw) :
      ReadAs ps qs → ReadAs (.tag raw :: ps) (.tag raw :: qs)
  | behind {cs raw : List Char} {ps qs : List Piece} (hcs : cs.getLast? ≠ some '\x7b') :
      ReadAs (.tag raw :: ps) qs → ReadAs (.text cs :: .tag raw :: ps) (.text cs :: qs)
  | brace {cs raw : List Char} {ps qs : List Piece} :
      ReadAs ps qs → ReadAs (.text (cs ++ ['\x7b']) :: .tag raw :: ps)
        ((if cs.isEmpty then [] else [.text cs]) ++ .tag ('\x7b' :: raw) :: qs)

theorem IsUnclosed.readAs : (ps : List Piece) → IsUnclosed ps →
    ReadAs ps (pieces (ps.flatMap Piece.source))
  | [], _ => by rw [List.flatMap_nil, pieces_nil]; exact .nil
  | .tag raw :: ps, h => by
    obtain ⟨hraw, hkind⟩ := h.unclosing _ List.mem_cons_self
    have hpieces := pieces_before_tag (show ¬ openBraces <:+: [] by decide) (by decide) hraw
      (ps.flatMap Piece.source)
    rw [List.flatMap_cons, ← List.nil_append (Piece.source _), hpieces]
    exact .tag hkind (readAs ps h.tail)
  | [.text cs], h => by
    obtain ⟨hne, hcs⟩ := h.unclosing _ List.mem_cons_self
    rw [List.flatMap_singleton, Piece.source, pieces_text hne hcs]
    exact .text cs
  | .text cs :: .text ds :: ps, h => by
    rcases (List.isChain_cons_cons.1 h.apart).1 with hno | hno <;> cases hno
  | .text cs :: .tag raw :: ps, h => by
    obtain ⟨hne, hcs⟩ := h.unclosing _ List.mem_cons_self
    obtain ⟨hraw, hkind⟩ := h.tail.unclosing _ List.mem_cons_self
    by_cases hlast : cs.getLast? = some '\x7b'
    · obtain ⟨before, rfl⟩ := List.getLast?_eq_some_iff.1 hlast
      have hbefore : ¬ openBraces <:+: before :=
        fun hin => hcs (hin.trans (List.infix_append' [] _ _))
      have hend : before.getLast? ≠ some '\x7b' := by
        intro hb
        obtain ⟨start, rfl⟩ := List.getLast?_eq_some_iff.1 hb
        exact hcs ⟨start, [], by simp [openBraces]⟩
      have hpieces := pieces_before_tag hbefore hend (isSound_brace hraw)
        (ps.flatMap Piece.source)
      have hsame : (Piece.text (before ++ ['\x7b']) :: .tag raw :: ps).flatMap Piece.source =
          before ++ (Piece.tag ('\x7b' :: raw)).source ++ ps.flatMap Piece.source := by
        simp [Piece.source, openBraces]
      rw [hsame, hpieces]
      exact .brace (readAs ps h.tail.tail)
    · have hpieces := pieces_before_tag hcs hlast hraw (ps.flatMap Piece.source)
      have htag := pieces_before_tag (show ¬ openBraces <:+: [] by decide) (by decide) hraw
        (ps.flatMap Piece.source)
      have hread := readAs (.tag raw :: ps) h.tail
      rw [List.flatMap_cons, ← List.nil_append (Piece.source _), htag] at hread
      rw [List.flatMap_cons, List.flatMap_cons, ← List.append_assoc]
      rw [if_neg (by simpa using hne)] at hpieces
      exact hpieces ▸ .behind hlast hread

theorem noneCloses_cons {p : Piece} {ps : List Piece}
    (hp : ∀ raw, p = .tag raw → ¬ IsClosing raw) (h : NoneCloses ps) : NoneCloses (p :: ps) := by
  intro raw hraw
  rcases List.mem_cons.1 hraw with htag | hraw
  · exact hp raw htag.symm
  · exact h raw hraw

/-- Not even a brace right before a tag makes a tag close a block. -/
theorem ReadAs.noneCloses {ps qs : List Piece} (h : ReadAs ps qs) : NoneCloses qs := by
  induction h with
  | nil => exact noneCloses_nil
  | text cs => exact noneCloses_cons (fun _ h => nomatch h) noneCloses_nil
  | @tag raw ps qs hraw h ih =>
    refine noneCloses_cons (fun raw' htag => ?_) ih
    obtain rfl : raw = raw' := Piece.tag.inj htag
    refine not_isClosing_of_head? ?_
    rcases hraw with hopening | helse
    · rw [hopening.head?]
      decide
    · rw [helse]
      decide
  | behind hcs h ih => exact noneCloses_cons (fun _ h => nomatch h) ih
  | @brace cs raw ps qs h ih =>
    have htag : NoneCloses (.tag ('\x7b' :: raw) :: qs) := by
      refine noneCloses_cons (fun raw' htag => ?_) ih
      obtain rfl := Piece.tag.inj htag
      refine not_isClosing_of_head? ?_
      rw [head?_trimChars_brace]
      decide
    split
    · exact htag
    · exact noneCloses_cons (fun _ h => nomatch h) htag

theorem ReadAs.eachStays_iff {ps qs : List Piece} (h : ReadAs ps qs) (behindIf : Bool) :
    EachStays behindIf qs ↔
      (∀ cs, .text cs ∈ ps.dropLast → cs.getLast? ≠ some '\x7b') ∧ ElsesStay behindIf ps := by
  induction h generalizing behindIf with
  | nil => simp [EachStays, ElsesStay]
  | text cs => simp [EachStays, ElsesStay, piecePartsBehind, Piece.source]
  | @tag raw ps qs hraw h ih =>
    have htexts : (∀ cs, .text cs ∈ (Piece.tag raw :: ps).dropLast → cs.getLast? ≠ some '\x7b') ↔
        ∀ cs, .text cs ∈ ps.dropLast → cs.getLast? ≠ some '\x7b' := by
      cases ps <;> simp
    rw [EachStays, tag_stays_iff hraw, ih, htexts, ElsesStay]
    exact and_left_comm
  | @behind cs raw ps qs hcs h ih =>
    have htexts : (∀ ds, .text ds ∈ (Piece.text cs :: .tag raw :: ps).dropLast →
        ds.getLast? ≠ some '\x7b') ↔
        ∀ ds, .text ds ∈ (Piece.tag raw :: ps).dropLast → ds.getLast? ≠ some '\x7b' := by
      rw [List.dropLast_cons_cons]
      simp [hcs]
    have hstays : piecePartsBehind behindIf (.text cs) =
        [.text (String.ofList (Piece.text cs).source)] := rfl
    rw [EachStays, behindIfAfter, ih, htexts, ElsesStay]
    exact and_iff_right hstays
  | @brace cs raw ps qs h ih =>
    -- The tag with the brace in it is the key of a value, so neither side holds.
    refine iff_of_false ?_ fun hright => ?_
    · have htag (behindIf : Bool) : ¬ EachStays behindIf (.tag ('\x7b' :: raw) :: qs) := by
        rintro ⟨hparts, -⟩
        have helse : ¬ IsElse ('\x7b' :: raw) := fun helse => by
          have hhead := head?_trimChars_brace raw
          rw [helse] at hhead
          cases hhead
        rw [piecePartsBehind, if_neg fun hturn => helse hturn.2, plainParts_brace] at hparts
        cases hparts
      split
      · exact htag behindIf
      · exact fun hstays => htag _ hstays.2
    · refine hright.1 (cs ++ ['\x7b']) ?_ List.getLast?_concat
      rw [List.dropLast_cons_cons]
      exact List.mem_cons_self

/-! ## Main result -/

/-- The template that is written as these pieces. -/
def written (ps : List Piece) : String := String.ofList (ps.flatMap Piece.source)

/-- A template without closing tags comes out as it is written, whatever the context, exactly if
no text in it runs into the braces of a tag, and every `else` turns an `#if` and has no blanks in
its braces. -/
theorem an_unclosed_template_comes_out_as_written_iff (ps : List Piece) (h : IsUnclosed ps) :
    (∀ context, render (parse (written ps)) context = written ps) ↔
      (∀ cs, .text cs ∈ ps.dropLast → cs.getLast? ≠ some '\x7b') ∧ ElsesStay false ps := by
  have hread := IsUnclosed.readAs ps h
  have hpieces : pieces (written ps).toList = pieces (ps.flatMap Piece.source) := by
    rw [written, String.toList_ofList]
  have hcloses : NoneCloses (pieces (written ps).toList) := hpieces ▸ hread.noneCloses
  rw [render_parse_eq_self_iff hcloses, hpieces]
  exact hread.eachStays_iff false

/-- A list that is never ended, with a link that is not ended either. -/
def openList : List Piece :=
  [.text "<ul>".toList, .tag " #each  items ".toList, .tag "#if href\t".toList,
    .text "<a>".toList, .tag "else".toList, .tag "#unless plain".toList, .text "\x7b".toList]

theorem an_open_list_comes_out_as_written : IsUnclosed openList ∧
    (∀ cs, .text cs ∈ openList.dropLast → cs.getLast? ≠ some '\x7b') ∧ ElsesStay false openList ∧
      ∀ context, render (parse (written openList)) context = written openList := by
  have hunclosed : IsUnclosed openList := ⟨by decide, by decide⟩
  have htexts : ∀ cs, .text cs ∈ openList.dropLast → cs.getLast? ≠ some '\x7b' := by
    simp [openList]
  have helses : ElsesStay false openList := by decide
  exact ⟨hunclosed, htexts, helses,
    (an_unclosed_template_comes_out_as_written_iff openList hunclosed).2 ⟨htexts, helses⟩⟩

/-- An `else` with blanks in its braces, in a block that is never closed. -/
def spacedElse : List Piece :=
  [.tag "#if x".toList, .text "a".toList, .tag " else ".toList, .text "b".toList]

/-- The `else` comes out without its blanks. -/
theorem an_unclosed_template_does_not_always_come_out_as_written : IsUnclosed spacedElse ∧
    render (parse (written spacedElse)) (.object []) =
      tagText "#if x".toList ++ "a" ++ tagText "else".toList ++ "b" ∧
    render (parse (written spacedElse)) (.object []) ≠ written spacedElse := by
  have hrender : render (parse (written spacedElse)) (.object []) =
      tagText "#if x".toList ++ "a" ++ tagText "else".toList ++ "b" := by
    decide +kernel
  refine ⟨⟨by decide, by decide⟩, hrender, ?_⟩
  rw [hrender]
  decide

end WidgetSchema.Template
