-- Small rewritings of markup: dividers, eyebrows, and the binding of inputs to places.
import WidgetSchema.Markup.Attribute
namespace WidgetSchema.Markup

open Text

/-! ## Dividers -/

/-- What follows a divider at the start of a text. -/
def afterDivider? (cs : List Char) : Option (List Char) :=
  match dropFolded Char.toLower "<tooldrawer-divider".toList cs with
  | none => none
  | some rest => dropWord ['/', '>'] (rest.dropWhile isBlank)

theorem length_afterDivider? {cs rest : List Char} (h : afterDivider? cs = some rest) :
    rest.length < cs.length := by
  unfold afterDivider? at h
  split at h
  · cases h
  · rename_i tail ht
    have h1 := length_dropFolded ht
    have h2 := Attributes.length_dropWhile_le isBlank tail
    have h3 := congrArg List.length (dropWord_eq_some_iff.1 h)
    simp only [List.length_append, List.length_cons, List.length_nil] at h3
    omega

def dividerMarkup : List Char := "<div aria-hidden=\"true\"></div>".toList

def expandDividers (cs : List Char) : List Char :=
  match h : afterDivider? cs with
  | some rest =>
    have := length_afterDivider? h
    dividerMarkup ++ expandDividers rest
  | none =>
    match cs with
    | [] => []
    | c :: rest => c :: expandDividers rest
termination_by cs.length

/-! ## Eyebrows -/

/-- The attributes of an eyebrow at the start of a text, and what follows it. -/
def eyebrow? (cs : List Char) : Option (List Char × List Char) :=
  match dropFolded Char.toLower "<tooldrawer-eyebrow".toList cs with
  | none => none
  | some rest =>
    match cutAt ['>'] rest with
    | none => none
    | some (attrs, after) =>
      if attrs.getLast? = some '/' then some (attrs.dropLast, after) else none

theorem length_eyebrow? {cs attrs rest : List Char} (h : eyebrow? cs = some (attrs, rest)) :
    rest.length < cs.length := by
  unfold eyebrow? at h
  split at h
  · cases h
  · rename_i tail ht
    have h1 := length_dropFolded ht
    split at h
    · cases h
    · rename_i a after ha
      have h2 := length_cutAt ha
      split at h
      · simp only [Option.some.injEq, Prod.mk.injEq] at h
        simp only [List.length_cons, List.length_nil] at h2
        rw [← h.2]
        omega
      · cases h

def eyebrowMarkup (attrs : Attributes) : List Char :=
  "<div class=\"overline\" style=\"padding-inline: var(--control-padding-inline);\">".toList ++
    ((attrs.get? "text").getD "").toList ++ "</div>".toList

def expandEyebrows (cs : List Char) : List Char :=
  match h : eyebrow? cs with
  | some (attrs, rest) =>
    have := length_eyebrow? h
    eyebrowMarkup (Attributes.ofChars attrs) ++ expandEyebrows rest
  | none =>
    match cs with
    | [] => []
    | c :: rest => c :: expandEyebrows rest
termination_by cs.length

/-- Markup with dividers and eyebrows written as plain blocks. -/
def expandSimple (cs : List Char) : List Char := expandEyebrows (expandDividers cs)

/-! ## Bindings -/

def slotMark : List Char := "data-path=\"".toList

def bindMark : List Char := "data-bob-path=\"".toList

/-- The text of an input up to its closing bracket, and the slash before the bracket. -/
def splitSlash (inside : List Char) : List Char × List Char :=
  if inside.getLast? = some '/' then (inside.dropLast, ['/']) else (inside, [])

/-- Marks the first input with the place it is bound to. -/
def bindInput (path cs : List Char) : List Char :=
  match cutAt "<input".toList cs with
  | none => cs
  | some (before, rest) =>
    match cutAt ['>'] rest with
    | none => cs
    | some (inside, after) =>
      let (attrs, slash) := splitSlash inside
      before ++ "<input".toList ++ attrs ++ ' ' :: bindMark ++ path ++ '"' :: slash ++
        '>' :: after

/-- Binds rendered markup to a place: where the markup marks slots for it, these are bound,
and otherwise its first input is. -/
def bindPath (rendered path : List Char) : List Char :=
  let slots := replaceChars slotMark bindMark rendered
  if occurs bindMark slots then slots else bindInput path slots

/-! ## Template slots -/

def openSlot : List Char := ['\x7b', '\x7b']

/-- What follows a slot for a template at the start of a text. -/
def afterSlot? (cs : List Char) : Option (List Char) :=
  match dropWord openSlot cs with
  | none => none
  | some rest =>
    match dropWord "template".toList (rest.dropWhile isBlank) with
    | none => none
    | some rest => dropWord ['\x7d', '\x7d'] (rest.dropWhile isBlank)

theorem length_afterSlot? {cs rest : List Char} (h : afterSlot? cs = some rest) :
    rest.length < cs.length := by
  unfold afterSlot? at h
  split at h
  · cases h
  · rename_i a ha
    split at h
    · cases h
    · rename_i b hb
      have h1 := congrArg List.length (dropWord_eq_some_iff.1 ha)
      have h2 := Attributes.length_dropWhile_le isBlank a
      have h3 := congrArg List.length (dropWord_eq_some_iff.1 hb)
      have h4 := Attributes.length_dropWhile_le isBlank b
      have h5 := congrArg List.length (dropWord_eq_some_iff.1 h)
      simp only [List.length_append, List.length_cons, List.length_nil] at h1 h3 h5
      omega

/-- The text with a template in all its slots. -/
def fillSlots (template cs : List Char) : List Char :=
  match h : afterSlot? cs with
  | some rest =>
    have := length_afterSlot? h
    template ++ fillSlots template rest
  | none =>
    match cs with
    | [] => []
    | c :: rest => c :: fillSlots template rest
termination_by cs.length

end WidgetSchema.Markup
