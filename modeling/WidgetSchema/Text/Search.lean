-- Cutting texts at characters and words. Everything works on lists of characters;
-- the forms for strings pass through them.
namespace WidgetSchema.Text

/-! ## Words at the start of a text -/

/-- What is left of a text after a word at its start. -/
def dropWord : List Char → List Char → Option (List Char)
  | [], cs => some cs
  | _ :: _, [] => none
  | w :: ws, c :: cs => if c = w then dropWord ws cs else none

theorem dropWord_eq_some_iff {word cs rest : List Char} :
    dropWord word cs = some rest ↔ cs = word ++ rest := by
  induction word generalizing cs with
  | nil => simp [dropWord]
  | cons w ws ih =>
    cases cs with
    | nil => simp [dropWord]
    | cons c cs => by_cases h : c = w <;> simp [dropWord, h, ih]

/-- The small letter that a pattern without regard to case reads a character as. The long s
and the Kelvin sign count as s and k. -/
def foldCase (c : Char) : Char :=
  if c = '\u017f' then 's' else if c = '\u212a' then 'k' else c.toLower

/-- What is left of a text after a word of small letters, when each character is first
made small by the given function. -/
def dropFolded (fold : Char → Char) : List Char → List Char → Option (List Char)
  | [], cs => some cs
  | _ :: _, [] => none
  | w :: ws, c :: cs => if fold c = w then dropFolded fold ws cs else none

theorem length_dropFolded {fold : Char → Char} {word cs rest : List Char}
    (h : dropFolded fold word cs = some rest) : word.length + rest.length = cs.length := by
  induction word generalizing cs with
  | nil => simp_all [dropFolded]
  | cons w ws ih =>
    cases cs with
    | nil => simp [dropFolded] at h
    | cons c cs =>
      simp only [dropFolded] at h
      split at h
      · have := ih h
        simp only [List.length_cons]
        omega
      · cases h

/-! ## Parts between separators -/

/-- The parts of a text between the occurrences of a character. There is one part more
than there are separators, so the empty text has one empty part. -/
def splitChars (sep : Char) : List Char → List (List Char)
  | [] => [[]]
  | c :: cs =>
    if c = sep then [] :: splitChars sep cs
    else
      match splitChars sep cs with
      | [] => [[c]]
      | part :: parts => (c :: part) :: parts

def split (sep : Char) (s : String) : List String :=
  (splitChars sep s.toList).map String.ofList

def join (sep : String) (parts : List String) : String := sep.intercalate parts

/-- The text up to the first occurrence of a word, and the text after it. -/
def cutAt (word : List Char) : List Char → Option (List Char × List Char)
  | [] => if word = [] then some ([], []) else none
  | c :: cs =>
    match dropWord word (c :: cs) with
    | some rest => some ([], rest)
    | none => (cutAt word cs).map fun (before, rest) => (c :: before, rest)

theorem append_of_cutAt {word cs before rest : List Char}
    (h : cutAt word cs = some (before, rest)) : before ++ word ++ rest = cs := by
  induction cs generalizing before with
  | nil =>
    simp only [cutAt] at h
    split at h <;> simp_all
  | cons c cs ih =>
    simp only [cutAt] at h
    split at h
    · rename_i found hp
      obtain ⟨hb, hr⟩ := Prod.mk.inj (Option.some.inj h)
      subst hb hr
      simp [dropWord_eq_some_iff.1 hp]
    · obtain ⟨⟨b, r⟩, hb, he⟩ := Option.map_eq_some_iff.1 h
      obtain ⟨h1, h2⟩ := Prod.mk.inj he
      subst h1 h2
      simp [← ih hb]

theorem length_cutAt {word cs before rest : List Char}
    (h : cutAt word cs = some (before, rest)) :
    before.length + word.length + rest.length = cs.length := by
  simp [← append_of_cutAt h, Nat.add_assoc]

/-- As `cutAt`, for a word of small letters in a text whose characters are first made small.
Also gives the word as it is written. -/
def cutFolded (fold : Char → Char) (word : List Char) :
    List Char → Option (List Char × List Char × List Char)
  | [] => if word = [] then some ([], [], []) else none
  | c :: cs =>
    match dropFolded fold word (c :: cs) with
    | some rest => some ([], (c :: cs).take word.length, rest)
    | none =>
      (cutFolded fold word cs).map fun (before, found, rest) => (c :: before, found, rest)

theorem length_cutFolded {fold : Char → Char} {word cs before found rest : List Char}
    (h : cutFolded fold word cs = some (before, found, rest)) :
    before.length + word.length + rest.length = cs.length := by
  induction cs generalizing before with
  | nil =>
    simp only [cutFolded] at h
    split at h <;> simp_all
  | cons c cs ih =>
    simp only [cutFolded] at h
    split at h
    · rename_i r hp
      simp only [Option.some.injEq, Prod.mk.injEq] at h
      obtain ⟨hb, _, hr⟩ := h
      subst hb hr
      simpa using length_dropFolded hp
    · obtain ⟨⟨b, f, r⟩, hb, he⟩ := Option.map_eq_some_iff.1 h
      simp only [Prod.mk.injEq] at he
      obtain ⟨h1, h2, h3⟩ := he
      subst h1 h2 h3
      have := ih hb
      simp only [List.length_cons]
      omega

/-- Whether a word occurs in a text. -/
def occurs (word cs : List Char) : Bool := (cutAt word cs).isSome

def contains (s word : String) : Bool := occurs word.toList s.toList

/-- The text with every occurrence of a word, read from the left, replaced. An empty word
occurs nowhere. -/
def replaceChars (word new cs : List Char) : List Char :=
  if hw : word = [] then cs
  else
    match hc : cutAt word cs with
    | some (before, rest) =>
      have : rest.length < cs.length := by
        have := length_cutAt hc
        have := List.length_pos_iff.2 hw
        omega
      before ++ new ++ replaceChars word new rest
    | none => cs
termination_by cs.length

def replace (s word new : String) : String :=
  String.ofList (replaceChars word.toList new.toList s.toList)

/-! ## Letters of ASCII -/

def isAsciiDigit (c : Char) : Bool := '0' ≤ c && c ≤ '9'

def isAsciiLetter (c : Char) : Bool := ('a' ≤ c && c ≤ 'z') || ('A' ≤ c && c ≤ 'Z')

def isAsciiAlphanumeric (c : Char) : Bool := isAsciiDigit c || isAsciiLetter c

/-- The text with the capital letters of ASCII made small. -/
def asciiLower (s : String) : String := s.map Char.toLower

/-! ## Lengths in bytes -/

/-- How many bytes a text takes in UTF-8. -/
def byteSize (cs : List Char) : Nat := cs.foldl (fun n c => n + c.utf8Size) 0

end WidgetSchema.Text
