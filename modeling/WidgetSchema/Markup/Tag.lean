-- Where a tag ends: at the first closing bracket that stands outside of quotes.
import WidgetSchema.Text.Search
namespace WidgetSchema.Markup

/-- The quotes that a reader of a tag is inside of. -/
inductive Quoting where
  | outside
  | double
  | single
  deriving DecidableEq

def Quoting.next : Quoting → Char → Quoting
  | outside, '"' => double
  | outside, '\'' => single
  | double, '"' => outside
  | single, '\'' => outside
  | q, _ => q

/-- The text of a tag up to its closing bracket, and what follows the bracket. -/
def cutTag (q : Quoting) : List Char → Option (List Char × List Char)
  | [] => none
  | c :: cs =>
    if q = .outside && c = '>' then some ([], cs)
    else (cutTag (q.next c) cs).map fun (inside, rest) => (c :: inside, rest)

theorem length_cutTag {q : Quoting} {cs inside rest : List Char}
    (h : cutTag q cs = some (inside, rest)) : inside.length + 1 + rest.length = cs.length := by
  induction cs generalizing q inside with
  | nil => cases h
  | cons c cs ih =>
    simp only [cutTag] at h
    split at h
    · simp only [Option.some.injEq, Prod.mk.injEq] at h
      obtain ⟨h1, h2⟩ := h
      subst h1 h2
      simp
      omega
    · obtain ⟨⟨i, r⟩, hi, he⟩ := Option.map_eq_some_iff.1 h
      simp only [Prod.mk.injEq] at he
      obtain ⟨h1, h2⟩ := he
      subst h1 h2
      have := ih hi
      simp only [List.length_cons]
      omega

/-- The characters of a text from a byte on. A character that the byte stands inside of is
left out. There are none behind the end of the text. -/
def fromByte : (byte : Nat) → List Char → Option (List Char)
  | 0, cs => some cs
  | _ + 1, [] => none
  | n + 1, c :: cs =>
    if c.utf8Size ≤ n + 1 then fromByte (n + 1 - c.utf8Size) cs else some cs

/-- The byte at which a tag ends that starts before the given byte. -/
def tagEnd? (source : String) (byte : Nat) : Option Nat := do
  let rest ← fromByte byte source.toList
  let (inside, _) ← cutTag .outside rest
  let start := Text.byteSize source.toList - Text.byteSize rest
  return start + Text.byteSize inside

/-- What may follow the name of a tag. -/
def endsName : List Char → Bool
  | c :: _ =>
    c == ' ' || c == '\t' || c == '\n' || c == '\x0c' || c == '\r' || c == '/' || c == '>'
  | [] => false

end WidgetSchema.Markup
