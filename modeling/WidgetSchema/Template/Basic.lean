-- Templates: markup with tags in double braces. A tag stands for a value of the context, or
-- opens or closes a block. Reading never fails: what is no block stays as text.
import WidgetSchema.Text.Blank
import WidgetSchema.Text.Search
namespace WidgetSchema

open Text

/-- A part of a template. -/
inductive TemplatePart where
  | text (s : String)
  /-- The value under a key. -/
  | var (key : String)
  /-- The first parts where the value under a key counts as true, the others where not. -/
  | cond (key : String) (yes no : List TemplatePart)
  | unless (key : String) (body : List TemplatePart)
  /-- The body once for every item of the array under a key. -/
  | each (key : String) (body : List TemplatePart)
  deriving Inhabited

abbrev Template := List TemplatePart

namespace Template

/-! ## Tags -/

/-- A run of text, or what stands between two pairs of braces. -/
inductive Piece where
  | text (cs : List Char)
  | tag (raw : List Char)

def openBraces : List Char := ['\x7b', '\x7b']

def closeBraces : List Char := ['\x7d', '\x7d']

/-- The runs of text and the tags of a source. Text is never empty, and braces that are not
closed are text. -/
def pieces (cs : List Char) : List Piece :=
  match ho : cutAt openBraces cs with
  | none => if cs.isEmpty then [] else [.text cs]
  | some (before, rest) =>
    let lead := if before.isEmpty then [] else [Piece.text before]
    match hc : cutAt closeBraces rest with
    | none => lead ++ [.text (openBraces ++ rest)]
    | some (raw, after) =>
      have : after.length < cs.length := by
        have := length_cutAt ho
        have := length_cutAt hc
        simp only [openBraces, closeBraces, List.length_cons, List.length_nil] at *
        omega
      lead ++ .tag raw :: pieces after
termination_by cs.length

def tagText (raw : List Char) : String := String.ofList (openBraces ++ raw ++ closeBraces)

/-! ## Blocks -/

inductive BlockKind where
  | cond
  /-- A condition after its `else`, with the parts before it. -/
  | condElse (yes : List TemplatePart)
  | unless
  | each

/-- A block that is still open: its opening tag as written, its key, and the parts of the
surrounding block up to it, in reverse. -/
structure OpenBlock where
  kind : BlockKind
  raw : List Char
  key : String
  outer : List TemplatePart

/-- The open blocks, innermost first, and the parts of the innermost one in reverse. -/
structure BlockState where
  blocks : List OpenBlock
  parts : List TemplatePart

/-- The key that follows an opening word, if a tag starts with it. -/
def keyAfter? (word : String) (token : List Char) : Option String :=
  (dropWord word.toList token).map fun key => String.ofList (trimChars key)

def pushPart (s : BlockState) (p : TemplatePart) : BlockState := { s with parts := p :: s.parts }

def openBlock (s : BlockState) (kind : BlockKind) (raw : List Char) (key : String) : BlockState :=
  ⟨⟨kind, raw, key, s.parts⟩ :: s.blocks, []⟩

/-- A tag that closes no block: it opens one, is a value, or stays as text. -/
def plainTag (s : BlockState) (raw : List Char) : BlockState :=
  let token := trimChars raw
  match keyAfter? "#if " token, keyAfter? "#unless " token, keyAfter? "#each " token with
  | some key, _, _ => openBlock s .cond raw key
  | none, some key, _ => openBlock s .unless raw key
  | none, none, some key => openBlock s .each raw key
  | none, none, none =>
    match token with
    | [] => s
    | '#' :: _ | '/' :: _ => pushPart s (.text (tagText raw))
    | _ => pushPart s (.var (String.ofList token))

def addPiece (s : BlockState) : Piece → BlockState
  | .text cs => pushPart s (.text (String.ofList cs))
  | .tag raw =>
    match s.blocks with
    | [] => plainTag s raw
    | b :: bs =>
      match b.kind, String.ofList (trimChars raw) with
      | .cond, "/if" => ⟨bs, .cond b.key s.parts.reverse [] :: b.outer⟩
      | .cond, "else" => ⟨{ b with kind := .condElse s.parts.reverse } :: bs, []⟩
      | .condElse yes, "/if" => ⟨bs, .cond b.key yes s.parts.reverse :: b.outer⟩
      | .unless, "/unless" => ⟨bs, .unless b.key s.parts.reverse :: b.outer⟩
      | .each, "/each" => ⟨bs, .each b.key s.parts.reverse :: b.outer⟩
      | _, _ => plainTag s raw

/-- What a block that is never closed leaves, in reverse: its tags as text, and its parts. -/
def unclosed (b : OpenBlock) (parts : List TemplatePart) : List TemplatePart :=
  match b.kind with
  | .condElse yes =>
    parts ++ .text (tagText "else".toList) :: yes.reverse ++ .text (tagText b.raw) :: b.outer
  | _ => parts ++ .text (tagText b.raw) :: b.outer

def closeAll (s : BlockState) : List TemplatePart :=
  (s.blocks.foldl (fun parts b => unclosed b parts) s.parts).reverse

/-- Reads a template. -/
def parse (source : String) : Template :=
  closeAll ((pieces source.toList).foldl addPiece ⟨[], []⟩)

/-! ## Written form -/

mutual

def printPart : TemplatePart → String
  | .text s => s
  | .var key => tagText key.toList
  | .cond key yes [] =>
    tagText ("#if " ++ key).toList ++ printParts yes ++ tagText "/if".toList
  | .cond key yes (p :: no) =>
    tagText ("#if " ++ key).toList ++ printParts yes ++ tagText "else".toList ++
      printParts (p :: no) ++ tagText "/if".toList
  | .unless key body =>
    tagText ("#unless " ++ key).toList ++ printParts body ++ tagText "/unless".toList
  | .each key body =>
    tagText ("#each " ++ key).toList ++ printParts body ++ tagText "/each".toList

def printParts : List TemplatePart → String
  | [] => ""
  | p :: ps => printPart p ++ printParts ps

end

/-- The source of a template. -/
def print (t : Template) : String := printParts t

end Template

end WidgetSchema
