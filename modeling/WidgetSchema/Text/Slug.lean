-- Short texts made of small letters, digits and single dashes, for use as ids.
import WidgetSchema.Text.Blank
import WidgetSchema.Text.Search
namespace WidgetSchema.Text

/-- The small form of a character, as far as small letters of ASCII come of it. The Kelvin
sign gives a k, the dotted capital i an i with a mark. -/
def lowerForm (c : Char) : List Char :=
  if c = '\u212a' then ['k'] else if c = '\u0130' then ['i', '\u0307'] else [c.toLower]

def isSlugChar (c : Char) : Bool := isAsciiDigit c || ('a' ≤ c && c ≤ 'z')

/-- The longest runs of characters that have a property. -/
def runs (p : Char → Bool) : (run : List Char) → List Char → List (List Char)
  | [], [] => []
  | run, [] => [run.reverse]
  | run, c :: cs =>
    if p c then runs p (c :: run) cs
    else if run.isEmpty then runs p [] cs
    else run.reverse :: runs p [] cs

/-- No slug is longer than this. -/
def maxSlugLength : Nat := 48

/-- The slug of a text: its letters and digits in small form, with a dash in place of
everything between them. An ampersand is spelled out. -/
def slug (s : String) : String :=
  let lowered := (trimChars s.toList).flatMap lowerForm
  let spelled := lowered.flatMap fun c => if c = '&' then " and ".toList else [c]
  String.ofList ((['-'].intercalate (runs isSlugChar [] spelled)).take maxSlugLength)

end WidgetSchema.Text
