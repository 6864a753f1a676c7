-- Printed templates. A well-formed template is read back from its source as it was: its source
-- falls into one run of pieces for every part, and the pieces of a part, whatever is open before
-- them, add this part and leave the same blocks open.
import WidgetSchema.Proofs.Template.Pieces
import WidgetSchema.Proofs.Text.Trim
import WidgetSchema.Proofs.Text.Within
namespace WidgetSchema

open Text (trim trimChars trimChars_eq_self_iff trim_eq_self_iff HasSolidEnds)

def TemplatePart.isText : TemplatePart → Bool
  | .text _ => true
  | _ => false

namespace Template

/-! ## Well-formed templates -/

/-- A text that no tag could start in, nor together with a tag behind it. -/
structure IsPlain (s : String) : Prop where
  nonempty : s ≠ ""
  closed : ¬ openBraces <:+: s.toList
  last : s.toList.getLast? ≠ some '\x7b'

structure IsKey (key : String) : Prop where
  nonempty : key ≠ ""
  trimmed : trim key = key
  closed : ¬ closeBraces <:+: key.toList
  last : key.toList.getLast? ≠ some '\x7d'

/-- A key that can be the whole of a tag. -/
structure IsVarKey (key : String) : Prop extends IsKey key where
  noOpening : key.toList.head? ≠ some '#'
  noClosing : key.toList.head? ≠ some '/'
  noElse : key ≠ "else"

mutual

def IsWellFormedPart : TemplatePart → Prop
  | .text s => IsPlain s
  | .var key => IsVarKey key
  | .cond key yes no => IsKey key ∧ IsWellFormed yes ∧ IsWellFormed no
  | .unless key body => IsKey key ∧ IsWellFormed body
  | .each key body => IsKey key ∧ IsWellFormed body

/-- Every text and every key can be told from what stands around it, and no text is next to a
text. -/
def IsWellFormed : List TemplatePart → Prop
  | [] => True
  | p :: ps =>
    IsWellFormedPart p ∧ (p.isText = true → ∀ q ∈ ps.head?, q.isText = false) ∧ IsWellFormed ps

end

/-! ## The pieces of a template -/

mutual

def partPieces : TemplatePart → List Piece
  | .text s => [.text s.toList]
  | .var key => [.tag key.toList]
  | .cond key yes [] =>
    .tag ("#if " ++ key).toList :: (piecesOf yes ++ [.tag "/if".toList])
  | .cond key yes (p :: no) =>
    .tag ("#if " ++ key).toList ::
      (piecesOf yes ++ .tag "else".toList :: (piecesOf (p :: no) ++ [.tag "/if".toList]))
  | .unless key body =>
    .tag ("#unless " ++ key).toList :: (piecesOf body ++ [.tag "/unless".toList])
  | .each key body => .tag ("#each " ++ key).toList :: (piecesOf body ++ [.tag "/each".toList])

def piecesOf : List TemplatePart → List Piece
  | [] => []
  | p :: ps => partPieces p ++ piecesOf ps

end

theorem toList_tagText (raw : List Char) : (tagText raw).toList = (Piece.tag raw).source := by
  rw [tagText, String.toList_ofList, Piece.source]

mutual

theorem toList_printPart : (p : TemplatePart) →
    (printPart p).toList = (partPieces p).flatMap Piece.source
  | .text s => by simp [printPart, partPieces, Piece.source]
  | .var key => by simp [printPart, partPieces, toList_tagText]
  | .cond key yes [] => by
    simp only [printPart, partPieces, String.toList_append, toList_tagText, toList_printParts yes,
      List.flatMap_cons, List.flatMap_append, List.flatMap_nil, List.append_nil, List.append_assoc]
  | .cond key yes (p :: no) => by
    simp only [printPart, partPieces, String.toList_append, toList_tagText, toList_printParts yes,
      toList_printParts (p :: no), List.flatMap_cons, List.flatMap_append, List.flatMap_nil,
      List.append_nil, List.append_assoc]
  | .unless key body => by
    simp only [printPart, partPieces, String.toList_append, toList_tagText, toList_printParts body,
      List.flatMap_cons, List.flatMap_append, List.flatMap_nil, List.append_nil, List.append_assoc]
  | .each key body => by
    simp only [printPart, partPieces, String.toList_append, toList_tagText, toList_printParts body,
      List.flatMap_cons, List.flatMap_append, List.flatMap_nil, List.append_nil, List.append_assoc]

theorem toList_printParts : (ps : List TemplatePart) →
    (printParts ps).toList = (piecesOf ps).flatMap Piece.source
  | [] => by simp [printParts, piecesOf]
  | p :: ps => by
    simp only [printParts, piecesOf, String.toList_append, toList_printPart p,
      toList_printParts ps, List.flatMap_append]

end

/-! ## They are sound -/

theorem AreSound.cons {p : Piece} {ps : List Piece} (hp : p.IsSound) (hps : AreSound ps)
    (happart : p.isText = true → ∀ q ∈ ps.head?, q.isText = false) : AreSound (p :: ps) where
  sound := List.forall_mem_cons.2 ⟨hp, hps.sound⟩
  apart := by
    refine List.isChain_cons.2 ⟨?_, hps.apart⟩
    intro q hq
    rcases h : p.isText with _ | _
    · exact .inl rfl
    · exact .inr (happart h q hq)

theorem AreSound.cons_tag {raw : List Char} {ps : List Piece} (hraw : (Piece.tag raw).IsSound)
    (hps : AreSound ps) : AreSound (.tag raw :: ps) :=
  hps.cons hraw fun h => nomatch h

theorem IsKey.toList_ne_nil {key : String} (h : IsKey key) : key.toList ≠ [] :=
  fun hnil => h.nonempty (String.toList_eq_nil_iff.1 hnil)

theorem IsKey.hasSolidEnds {key : String} (h : IsKey key) : HasSolidEnds key.toList :=
  trim_eq_self_iff.1 h.trimmed

theorem IsKey.isSound {key : String} (h : IsKey key) : (Piece.tag key.toList).IsSound :=
  ⟨h.closed, h.last⟩

/-- A tag is as sound with a word before the key as without. -/
theorem IsKey.isSound_after {key : String} (h : IsKey key) {word : String}
    (hword : '\x7d' ∉ word.toList) : (Piece.tag (word ++ key).toList).IsSound := by
  rw [String.toList_append]
  refine ⟨fun hi => h.closed (Text.infix_of_infix_append hword hi), ?_⟩
  rw [List.getLast?_append_of_ne_nil _ h.toList_ne_nil]
  exact h.last

theorem isSound_word (word : String) (hword : '\x7d' ∉ word.toList) :
    (Piece.tag word.toList).IsSound := by
  refine ⟨fun hi => hword (hi.subset List.mem_cons_self), ?_⟩
  exact fun hlast => hword (List.mem_of_getLast? hlast)

/-- The first piece is a text exactly where the first part is one. -/
theorem isText_head_piecesOf {ps : List TemplatePart} {qs : List Piece}
    (hps : ∀ q ∈ ps.head?, q.isText = false) (hqs : ∀ q ∈ qs.head?, q.isText = false) :
    ∀ q ∈ (piecesOf ps ++ qs).head?, q.isText = false := by
  cases ps with
  | nil => exact hqs
  | cons p ps =>
    have hp := hps p rfl
    rcases p with _ | _ | ⟨_, _, _ | _⟩ | _ | _
    · cases hp
    all_goals
      intro q hq
      obtain rfl := Option.some.inj hq
      rfl

/-- A run of pieces that can stand before every sound piece but a text. -/
def IsInner (ps : List Piece) : Prop :=
  ∀ qs, AreSound qs → (∀ q ∈ qs.head?, q.isText = false) → AreSound (ps ++ qs)

/-- The tags around the parts of a block, or of one side of it. -/
theorem IsInner.between {ps qs : List Piece} (hps : IsInner ps) {raw : List Char} {closing : String}
    (hraw : (Piece.tag raw).IsSound) (hclosing : '\x7d' ∉ closing.toList) (hqs : AreSound qs) :
    AreSound (.tag raw :: (ps ++ .tag closing.toList :: qs)) := by
  have hend : AreSound (.tag closing.toList :: qs) := hqs.cons_tag (isSound_word closing hclosing)
  exact (hps _ hend (by simp [Piece.isText])).cons_tag hraw

mutual

/-- The pieces of a part before sound pieces are sound. -/
theorem areSound_partPieces : (p : TemplatePart) → IsWellFormedPart p → (qs : List Piece) →
    AreSound qs → (p.isText = true → ∀ q ∈ qs.head?, q.isText = false) →
    AreSound (partPieces p ++ qs)
  | .text s, hp, qs, hqs, hhead => by
    have hs : IsPlain s := by simpa only [IsWellFormedPart] using hp
    have hne : s.toList ≠ [] := fun hnil => hs.nonempty (String.toList_eq_nil_iff.1 hnil)
    exact hqs.cons ⟨hne, hs.closed, hs.last⟩ fun _ => hhead rfl
  | .var key, hp, qs, hqs, _ => by
    have hkey : IsVarKey key := by simpa only [IsWellFormedPart] using hp
    exact hqs.cons_tag hkey.isSound
  | .cond key yes [], hp, qs, hqs, _ => by
    obtain ⟨hkey, hyes, -⟩ : IsKey key ∧ IsWellFormed yes ∧ IsWellFormed [] := by
      simpa only [IsWellFormedPart] using hp
    simp only [partPieces, List.cons_append, List.append_assoc, List.nil_append]
    exact (isInner_piecesOf yes hyes).between (hkey.isSound_after (by decide)) (by decide) hqs
  | .cond key yes (p :: no), hp, qs, hqs, _ => by
    obtain ⟨hkey, hyes, hno⟩ : IsKey key ∧ IsWellFormed yes ∧ IsWellFormed (p :: no) := by
      simpa only [IsWellFormedPart] using hp
    simp only [partPieces, List.cons_append, List.append_assoc, List.nil_append]
    have helse := (isInner_piecesOf (p :: no) hno).between (isSound_word "else" (by decide))
      (show '\x7d' ∉ "/if".toList by decide) hqs
    exact (isInner_piecesOf yes hyes _ helse (by simp [Piece.isText])).cons_tag
      (hkey.isSound_after (by decide))
  | .unless key body, hp, qs, hqs, _ => by
    obtain ⟨hkey, hbody⟩ : IsKey key ∧ IsWellFormed body := by
      simpa only [IsWellFormedPart] using hp
    simp only [partPieces, List.cons_append, List.append_assoc, List.nil_append]
    exact (isInner_piecesOf body hbody).between (hkey.isSound_after (by decide)) (by decide) hqs
  | .each key body, hp, qs, hqs, _ => by
    obtain ⟨hkey, hbody⟩ : IsKey key ∧ IsWellFormed body := by
      simpa only [IsWellFormedPart] using hp
    simp only [partPieces, List.cons_append, List.append_assoc, List.nil_append]
    exact (isInner_piecesOf body hbody).between (hkey.isSound_after (by decide)) (by decide) hqs

theorem isInner_piecesOf : (ps : List TemplatePart) → IsWellFormed ps → IsInner (piecesOf ps)
  | [], _ => fun qs hqs _ => by rwa [piecesOf, List.nil_append]
  | p :: ps, hps => by
    intro qs hqs hhead
    obtain ⟨hp, happart, hrest⟩ : IsWellFormedPart p ∧
        (p.isText = true → ∀ q ∈ ps.head?, q.isText = false) ∧ IsWellFormed ps := by
      simpa only [IsWellFormed] using hps
    rw [piecesOf, List.append_assoc]
    exact areSound_partPieces p hp _ (isInner_piecesOf ps hrest qs hqs hhead)
      fun hp => isText_head_piecesOf (happart hp) hhead

end

/-! ## Reading the pieces -/

/-- The state after more parts of the innermost block. -/
def pushParts (s : BlockState) (ps : List TemplatePart) : BlockState :=
  { s with parts := ps.reverse ++ s.parts }

theorem keyAfter?_eq_none (word : String) {cs : List Char} (hword : word.toList.head? = some '#')
    (h : cs.head? ≠ some '#') : keyAfter? word cs = none := by
  rcases hdrop : Text.dropWord word.toList cs with _ | rest
  · rw [keyAfter?, hdrop, Option.map_none]
  · rw [Text.dropWord_eq_some_iff] at hdrop
    refine absurd ?_ h
    rw [hdrop, List.head?_append, hword, Option.some_or]

/-- Only four words can close or turn a block. -/
theorem addPiece_eq_plainTag {raw : List Char}
    (h : ∀ word ∈ ["/if", "else", "/unless", "/each"], String.ofList (trimChars raw) ≠ word)
    (s : BlockState) : addPiece s (.tag raw) = plainTag s raw := by
  simp only [List.forall_mem_cons, List.not_mem_nil, false_imp_iff, implies_true, and_true] at h
  obtain ⟨hif, helse, hunless, heach⟩ := h
  simp only [addPiece]
  split
  · rfl
  · split <;> first | rfl | contradiction

theorem addPiece_var {key : String} (h : IsVarKey key) (s : BlockState) :
    addPiece s (.tag key.toList) = pushPart s (.var key) := by
  have htrim : trimChars key.toList = key.toList := trimChars_eq_self_iff.2 h.hasSolidEnds
  have hclosing : ∀ word : String, word.toList.head? = some '/' → key ≠ word := by
    rintro word hword rfl
    exact h.noClosing hword
  rw [addPiece_eq_plainTag]
  · simp only [plainTag, htrim, keyAfter?_eq_none "#if " rfl h.noOpening,
      keyAfter?_eq_none "#unless " rfl h.noOpening,
      keyAfter?_eq_none "#each " rfl h.noOpening]
    split
    · rename_i hnil
      exact absurd hnil h.toList_ne_nil
    · rename_i hhead
      exact absurd (by rw [hhead]; rfl) h.noOpening
    · rename_i hhead
      exact absurd (by rw [hhead]; rfl) h.noClosing
    · rw [String.ofList_toList]
  · rw [htrim, String.ofList_toList]
    simp only [List.forall_mem_cons, List.not_mem_nil, false_imp_iff, implies_true, and_true]
    exact ⟨hclosing _ rfl, h.noElse, hclosing _ rfl, hclosing _ rfl⟩

/-- A word that opens a block, with the block it opens. -/
inductive Opens : String → BlockKind → Prop
  | cond : Opens "#if " .cond
  | unless : Opens "#unless " .unless
  | each : Opens "#each " .each

theorem plainTag_opening {word key : String} {kind : BlockKind} (hword : Opens word kind)
    (hkey : trimChars key.toList = key.toList) (htag : trimChars (word ++ key).toList =
      (word ++ key).toList) (s : BlockState) :
    plainTag s (word ++ key).toList = openBlock s kind (word ++ key).toList key := by
  rw [plainTag, htag, String.toList_append]
  cases hword <;> simp [keyAfter?, Text.dropWord, hkey]

/-- A word that opens a block, and a key behind it. -/
theorem addPiece_opening {word key : String} {kind : BlockKind} (hword : Opens word kind)
    (h : IsKey key) (s : BlockState) :
    addPiece s (.tag (word ++ key).toList) = openBlock s kind (word ++ key).toList key := by
  have hhead : (word ++ key).toList.head? = some '#' := by
    cases hword <;> simp
  have htrim : trimChars (word ++ key).toList = (word ++ key).toList := by
    refine trimChars_eq_self_iff.2 ⟨?_, ?_⟩
    · intro c hc
      obtain rfl : '#' = c := Option.some.inj (hhead.symm.trans hc)
      decide
    · rw [String.toList_append, List.getLast?_append_of_ne_nil _ h.toList_ne_nil]
      exact h.hasSolidEnds.last
  rw [addPiece_eq_plainTag, plainTag_opening hword (trimChars_eq_self_iff.2 h.hasSolidEnds) htrim]
  rw [htrim, String.ofList_toList]
  rintro closing hclosing rfl
  have hfirst : ∀ word ∈ ["/if", "else", "/unless", "/each"], word.toList.head? ≠ some '#' := by
    decide
  exact hfirst _ hclosing hhead

/-- The parts that have been read behind an opening tag. -/
theorem parts_in_block (s : BlockState) (kind : BlockKind) (raw : List Char) (key : String)
    (ps : List TemplatePart) :
    pushParts (openBlock s kind raw key) ps =
      ⟨⟨kind, raw, key, s.parts⟩ :: s.blocks, ps.reverse⟩ := by
  rw [pushParts, openBlock, List.append_nil]

section Closing

variable (s : BlockState) (raw : List Char) (key : String) (yes ps : List TemplatePart)

theorem addPiece_close_cond :
    addPiece ⟨⟨.cond, raw, key, s.parts⟩ :: s.blocks, ps.reverse⟩ (.tag "/if".toList) =
      pushPart s (.cond key ps []) := by
  have hword : String.ofList (trimChars "/if".toList) = "/if" := by decide
  simp only [addPiece, hword, List.reverse_reverse, pushPart]

theorem addPiece_else :
    addPiece ⟨⟨.cond, raw, key, s.parts⟩ :: s.blocks, yes.reverse⟩ (.tag "else".toList) =
      openBlock s (.condElse yes) raw key := by
  have hword : String.ofList (trimChars "else".toList) = "else" := by decide
  simp only [addPiece, hword, List.reverse_reverse, openBlock]

theorem addPiece_close_condElse :
    addPiece ⟨⟨.condElse yes, raw, key, s.parts⟩ :: s.blocks, ps.reverse⟩ (.tag "/if".toList) =
      pushPart s (.cond key yes ps) := by
  have hword : String.ofList (trimChars "/if".toList) = "/if" := by decide
  simp only [addPiece, hword, List.reverse_reverse, pushPart]

theorem addPiece_close_unless :
    addPiece ⟨⟨.unless, raw, key, s.parts⟩ :: s.blocks, ps.reverse⟩ (.tag "/unless".toList) =
      pushPart s (.unless key ps) := by
  have hword : String.ofList (trimChars "/unless".toList) = "/unless" := by decide
  simp only [addPiece, hword, List.reverse_reverse, pushPart]

theorem addPiece_close_each :
    addPiece ⟨⟨.each, raw, key, s.parts⟩ :: s.blocks, ps.reverse⟩ (.tag "/each".toList) =
      pushPart s (.each key ps) := by
  have hword : String.ofList (trimChars "/each".toList) = "/each" := by decide
  simp only [addPiece, hword, List.reverse_reverse, pushPart]

end Closing

mutual

/-- The pieces of a part add this part, whatever stands before them. -/
theorem foldl_partPieces : (p : TemplatePart) → IsWellFormedPart p → (s : BlockState) →
    (partPieces p).foldl addPiece s = pushPart s p
  | .text t, _, s => by simp [partPieces, addPiece]
  | .var key, hp, s => by
    have hkey : IsVarKey key := by simpa only [IsWellFormedPart] using hp
    exact addPiece_var hkey s
  | .cond key yes [], hp, s => by
    obtain ⟨hkey, hyes, -⟩ : IsKey key ∧ IsWellFormed yes ∧ IsWellFormed [] := by
      simpa only [IsWellFormedPart] using hp
    simp only [partPieces, List.foldl_cons, List.foldl_append, List.foldl_nil,
      addPiece_opening .cond hkey, foldl_piecesOf yes hyes, parts_in_block, addPiece_close_cond]
  | .cond key yes (p :: no), hp, s => by
    obtain ⟨hkey, hyes, hno⟩ : IsKey key ∧ IsWellFormed yes ∧ IsWellFormed (p :: no) := by
      simpa only [IsWellFormedPart] using hp
    simp only [partPieces, List.foldl_cons, List.foldl_append, List.foldl_nil,
      addPiece_opening .cond hkey, foldl_piecesOf yes hyes, foldl_piecesOf (p :: no) hno,
      parts_in_block, addPiece_else, addPiece_close_condElse]
  | .unless key body, hp, s => by
    obtain ⟨hkey, hbody⟩ : IsKey key ∧ IsWellFormed body := by
      simpa only [IsWellFormedPart] using hp
    simp only [partPieces, List.foldl_cons, List.foldl_append, List.foldl_nil,
      addPiece_opening .unless hkey, foldl_piecesOf body hbody, parts_in_block,
      addPiece_close_unless]
  | .each key body, hp, s => by
    obtain ⟨hkey, hbody⟩ : IsKey key ∧ IsWellFormed body := by
      simpa only [IsWellFormedPart] using hp
    simp only [partPieces, List.foldl_cons, List.foldl_append, List.foldl_nil,
      addPiece_opening .each hkey, foldl_piecesOf body hbody, parts_in_block, addPiece_close_each]

theorem foldl_piecesOf : (ps : List TemplatePart) → IsWellFormed ps → (s : BlockState) →
    (piecesOf ps).foldl addPiece s = pushParts s ps
  | [], _, s => rfl
  | p :: ps, hps, s => by
    obtain ⟨hp, -, hrest⟩ : IsWellFormedPart p ∧
        (p.isText = true → ∀ q ∈ ps.head?, q.isText = false) ∧ IsWellFormed ps := by
      simpa only [IsWellFormed] using hps
    rw [piecesOf, List.foldl_append, foldl_partPieces p hp, foldl_piecesOf ps hrest]
    simp [pushParts, pushPart]

end

/-! ## The round trip -/

/-- A well-formed template is what is read from its source. -/
theorem a_printed_template_is_read_back (t : Template) (h : IsWellFormed t) :
    parse (print t) = t := by
  have hsource : (print t).toList = (piecesOf t).flatMap Piece.source := toList_printParts t
  have hsound : AreSound (piecesOf t) := by
    have := isInner_piecesOf t h [] areSound_nil (by simp)
    rwa [List.append_nil] at this
  have hread := foldl_piecesOf t h ⟨[], []⟩
  rw [parse, hsource, pieces_source hsound, hread]
  simp only [closeAll, pushParts, List.foldl_nil, List.append_nil, List.reverse_reverse]

/-- A list of people, with a place for those who have no name. -/
def peopleTemplate : Template :=
  [.text "<ul>",
    .each "people"
      [.cond "name" [.var "name", .cond "../marked" [.text "\x7b*"] []]
        [.unless "hidden" [.text "?"], .var "this"],
      .text ", "],
    .text "</ul>"]

theorem people_are_read_back :
    IsWellFormed peopleTemplate ∧ parse (print peopleTemplate) = peopleTemplate := by
  have hwell : IsWellFormed peopleTemplate := by
    have hkey : ∀ key ∈ ["people", "name", "../marked", "hidden", "this"], IsKey key := by
      simp only [List.forall_mem_cons, List.not_mem_nil, false_imp_iff, implies_true, and_true]
      refine ⟨?_, ?_, ?_, ?_, ?_⟩ <;> exact ⟨by decide, by decide, by decide, by decide⟩
    have hplain : ∀ s ∈ ["<ul>", "\x7b*", "?", ", ", "</ul>"], IsPlain s := by
      simp only [List.forall_mem_cons, List.not_mem_nil, false_imp_iff, implies_true, and_true]
      refine ⟨?_, ?_, ?_, ?_, ?_⟩ <;> exact ⟨by decide, by decide, by decide⟩
    have hvar : ∀ key ∈ ["name", "this"], IsVarKey key := by
      simp only [List.forall_mem_cons, List.not_mem_nil, false_imp_iff, implies_true, and_true]
      exact ⟨⟨hkey _ (by simp), by decide, by decide, by decide⟩,
        ⟨hkey _ (by simp), by decide, by decide, by decide⟩⟩
    simp [peopleTemplate, IsWellFormed, IsWellFormedPart, TemplatePart.isText, hkey, hplain, hvar]
  exact ⟨hwell, a_printed_template_is_read_back _ hwell⟩

end Template

end WidgetSchema
