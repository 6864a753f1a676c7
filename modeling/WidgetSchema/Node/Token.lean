-- The lexemes of JSON text. Every lexeme takes at least one character, so reading them
-- one after another ends.
import WidgetSchema.Decimal.Reading
import WidgetSchema.Node.Basic
namespace WidgetSchema

open Text

/-- A lexeme of JSON text. A number or string may be well formed and still have no value: a
number that is too large, and a string with half a character. -/
inductive Token where
  | openArray
  | closeArray
  | openObject
  | closeObject
  | comma
  | colon
  | null
  | bool (b : Bool)
  | number (n : Option Number)
  | string (s : Option String)
  deriving DecidableEq

namespace Token

/-! ## Strings -/

def hexDigit? (c : Char) : Option Nat :=
  if '0' ≤ c && c ≤ '9' then some (c.toNat - '0'.toNat)
  else if 'a' ≤ c && c ≤ 'f' then some (c.toNat - 'a'.toNat + 10)
  else if 'A' ≤ c && c ≤ 'F' then some (c.toNat - 'A'.toNat + 10)
  else none

/-- The number that four hexadecimal digits write. -/
def unit? (a b c d : Char) : Option Nat := do
  let a ← hexDigit? a
  let b ← hexDigit? b
  let c ← hexDigit? c
  let d ← hexDigit? d
  return ((a * 16 + b) * 16 + c) * 16 + d

/-- The character of an escape with a single letter. -/
def escaped? (c : Char) : Option Char :=
  match c with
  | '"' => some '"'
  | '\\' => some '\\'
  | '/' => some '/'
  | 'b' => some '\x08'
  | 'f' => some '\x0c'
  | 'n' => some '\n'
  | 'r' => some '\r'
  | 't' => some '\t'
  | _ => none

/-- A character of a string as it is written: itself or a letter escape, or the number of an
escape with four digits. -/
inductive StringPart where
  | char (c : Char)
  | unit (u : Nat)

/-- The first part of a string, and what follows it. Bare control characters are refused. -/
def stringPart? : List Char → Option (StringPart × List Char)
  | [] => none
  | '\\' :: 'u' :: a :: b :: c :: d :: cs => (unit? a b c d).map fun u => (.unit u, cs)
  | '\\' :: c :: cs => (escaped? c).map fun e => (.char e, cs)
  | c :: cs => if c = '\\' || c = '"' || c.toNat < 0x20 then none else some (.char c, cs)

theorem length_stringPart? {cs rest : List Char} {p : StringPart}
    (h : stringPart? cs = some (p, rest)) : rest.length < cs.length := by
  unfold stringPart? at h
  split at h
  · cases h
  · obtain ⟨e, _, he⟩ := Option.map_eq_some_iff.1 h
    simp only [Prod.mk.injEq] at he
    simp only [← he.2, List.length_cons]
    omega
  · obtain ⟨e, _, he⟩ := Option.map_eq_some_iff.1 h
    simp only [Prod.mk.injEq] at he
    simp only [← he.2, List.length_cons]
    omega
  · split at h
    · cases h
    · simp only [Option.some.injEq, Prod.mk.injEq] at h
      simp [← h.2]

/-- The parts of a string up to its closing quote, and what follows the quote. -/
def stringBody? (cs : List Char) : Option (List StringPart × List Char) :=
  match cs with
  | '"' :: rest => some ([], rest)
  | cs =>
    match h : stringPart? cs with
    | none => none
    | some (p, rest) =>
      have := length_stringPart? h
      (stringBody? rest).map fun (body, rest) => (p :: body, rest)
termination_by cs.length

theorem length_stringBody? {cs rest : List Char} {body : List StringPart}
    (h : stringBody? cs = some (body, rest)) : rest.length < cs.length := by
  fun_induction stringBody? cs generalizing body rest with
  | case1 => simp_all
  | case2 => simp_all
  | case3 cs _ c rest' hc _ ih =>
    obtain ⟨⟨b, r⟩, hb, he⟩ := Option.map_eq_some_iff.1 h
    simp only [Prod.mk.injEq] at he
    have := ih hb
    have := length_stringPart? hc
    rw [← he.2]
    omega

def isHighHalf (u : Nat) : Bool := 0xD800 ≤ u && u ≤ 0xDBFF

def isLowHalf (u : Nat) : Bool := 0xDC00 ≤ u && u ≤ 0xDFFF

/-- The characters that the parts of a string write. A character above the basic plane is
written as a high and a low half; there is no value where a half stands alone. -/
def assemble? : List StringPart → Option (List Char)
  | [] => some []
  | .char c :: ps => (assemble? ps).map (c :: ·)
  | .unit u :: .unit v :: ps =>
    if isHighHalf u then
      if isLowHalf v then
        (assemble? ps).map (Char.ofNat (0x10000 + (u - 0xD800) * 0x400 + (v - 0xDC00)) :: ·)
      else none
    else if isLowHalf u then none
    else (assemble? (.unit v :: ps)).map (Char.ofNat u :: ·)
  | .unit u :: ps =>
    if isHighHalf u || isLowHalf u then none else (assemble? ps).map (Char.ofNat u :: ·)

def stringOf (parts : List StringPart) : Option String := (assemble? parts).map String.ofList

/-! ## Numbers -/

def signed (negative : Bool) (x : Float) : Float := if negative then -x else x

/-- The number with the given digits. Without a point and an exponent it is a whole number
where it fits, with the exception of minus zero. Numbers that are too large have no value. -/
def numberOf? (negative : Bool) (whole fraction : List Char) (exponent : Option Int) :
    Option Number :=
  let n := Decimal.ofDigits whole
  let exact : Option Number :=
    if fraction.isEmpty && exponent.isNone then
      if negative then if n = 0 then none else Number.ofInt? (-(n : Int)) else Number.ofInt? n
    else none
  exact.or do
    let x ← Decimal.storedFloat? whole fraction (exponent.getD 0)
    Number.ofFloat? (signed negative x)

/-- The part of a number that a given mark opens: at least one digit, and what follows. The
whole text follows where the mark is missing. -/
def fractionPart? : List Char → Option (List Char × List Char)
  | '.' :: cs =>
    let digits := cs.takeWhile isAsciiDigit
    if digits.isEmpty then none else some (digits, cs.dropWhile isAsciiDigit)
  | cs => some ([], cs)

def exponentDigits? (negative : Bool) (cs : List Char) : Option (Option Int × List Char) :=
  let digits := cs.takeWhile isAsciiDigit
  if digits.isEmpty then none
  else
    let n : Int := Decimal.ofDigits digits
    some (some (if negative then -n else n), cs.dropWhile isAsciiDigit)

def exponentPart? : List Char → Option (Option Int × List Char)
  | 'e' :: '+' :: cs | 'E' :: '+' :: cs => exponentDigits? false cs
  | 'e' :: '-' :: cs | 'E' :: '-' :: cs => exponentDigits? true cs
  | 'e' :: cs | 'E' :: cs => exponentDigits? false cs
  | cs => some (none, cs)

/-- The digits before the point: a single zero, or digits that do not start with zero. -/
def wholePart? : List Char → Option (List Char × List Char)
  | '0' :: cs => some (['0'], cs)
  | c :: cs =>
    if isAsciiDigit c then some (c :: cs.takeWhile isAsciiDigit, cs.dropWhile isAsciiDigit)
    else none
  | [] => none

def unsignedNumber? (negative : Bool) (cs : List Char) :
    Option (Option Number × List Char) := do
  let (whole, cs) ← wholePart? cs
  let (fraction, cs) ← fractionPart? cs
  let (exponent, cs) ← exponentPart? cs
  return (numberOf? negative whole fraction exponent, cs)

def number? : List Char → Option (Option Number × List Char)
  | '-' :: cs => unsignedNumber? true cs
  | cs => unsignedNumber? false cs

theorem length_dropWhile_le (p : Char → Bool) (cs : List Char) :
    (cs.dropWhile p).length ≤ cs.length := (List.dropWhile_sublist p).length_le

theorem length_wholePart? {cs digits rest : List Char}
    (h : wholePart? cs = some (digits, rest)) : rest.length < cs.length := by
  unfold wholePart? at h
  split at h
  · simp_all
  · rename_i c cs _
    split at h
    · simp only [Option.some.injEq, Prod.mk.injEq] at h
      have := length_dropWhile_le isAsciiDigit cs
      rw [← h.2, List.length_cons]
      omega
    · cases h
  · cases h

theorem length_fractionPart? {cs digits rest : List Char}
    (h : fractionPart? cs = some (digits, rest)) : rest.length ≤ cs.length := by
  unfold fractionPart? at h
  split at h
  · rename_i cs
    dsimp only at h
    split at h
    · cases h
    · simp only [Option.some.injEq, Prod.mk.injEq] at h
      have := length_dropWhile_le isAsciiDigit cs
      rw [← h.2, List.length_cons]
      omega
  · simp_all

theorem length_exponentDigits? {negative : Bool} {cs rest : List Char} {e : Option Int}
    (h : exponentDigits? negative cs = some (e, rest)) : rest.length ≤ cs.length := by
  unfold exponentDigits? at h
  dsimp only at h
  split at h
  · cases h
  · simp only [Option.some.injEq, Prod.mk.injEq] at h
    have := length_dropWhile_le isAsciiDigit cs
    rw [← h.2]
    omega

theorem length_exponentPart? {cs rest : List Char} {e : Option Int}
    (h : exponentPart? cs = some (e, rest)) : rest.length ≤ cs.length := by
  unfold exponentPart? at h
  split at h
  case h_7 => simp_all
  all_goals
    have hle := length_exponentDigits? h
    simp only [List.length_cons]
    omega

theorem length_unsignedNumber? {negative : Bool} {cs rest : List Char} {n : Option Number}
    (h : unsignedNumber? negative cs = some (n, rest)) : rest.length < cs.length := by
  simp only [unsignedNumber?, bind, Option.bind_eq_some_iff, pure, Option.some.injEq,
    Prod.mk.injEq] at h
  obtain ⟨⟨w, c1⟩, h1, ⟨f, c2⟩, h2, ⟨e, c3⟩, h3, _, h6⟩ := h
  have := length_wholePart? h1
  have := length_fractionPart? h2
  have := length_exponentPart? h3
  simp only at *
  subst h6
  omega

theorem length_number? {cs rest : List Char} {n : Option Number}
    (h : number? cs = some (n, rest)) : rest.length < cs.length := by
  unfold number? at h
  split at h
  · have := length_unsignedNumber? h
    simp only [List.length_cons]
    omega
  · exact length_unsignedNumber? h

/-! ## Lexemes -/

/-- The lexeme at the start of a text, and what follows it. -/
def next? : List Char → Option (Token × List Char)
  | '[' :: cs => some (openArray, cs)
  | ']' :: cs => some (closeArray, cs)
  | '{' :: cs => some (openObject, cs)
  | '}' :: cs => some (closeObject, cs)
  | ',' :: cs => some (comma, cs)
  | ':' :: cs => some (colon, cs)
  | 'n' :: 'u' :: 'l' :: 'l' :: cs => some (null, cs)
  | 't' :: 'r' :: 'u' :: 'e' :: cs => some (bool true, cs)
  | 'f' :: 'a' :: 'l' :: 's' :: 'e' :: cs => some (bool false, cs)
  | '"' :: cs => (stringBody? cs).map fun (body, rest) => (string (stringOf body), rest)
  | cs => (number? cs).map fun (n, rest) => (number n, rest)

theorem length_next? {cs rest : List Char} {t : Token} (h : next? cs = some (t, rest)) :
    rest.length < cs.length := by
  unfold next? at h
  split at h
  case h_10 =>
    obtain ⟨⟨b, r⟩, hb, he⟩ := Option.map_eq_some_iff.1 h
    simp only [Prod.mk.injEq] at he
    have := length_stringBody? hb
    simp only [← he.2, List.length_cons]
    omega
  case h_11 =>
    obtain ⟨⟨n, r⟩, hn, he⟩ := Option.map_eq_some_iff.1 h
    simp only [Prod.mk.injEq] at he
    rw [← he.2]
    exact length_number? hn
  all_goals
    simp only [Option.some.injEq, Prod.mk.injEq] at h
    simp only [← h.2, List.length_cons]
    omega

/-- The blank characters between lexemes. -/
def isSpace (c : Char) : Bool := c == ' ' || c == '\n' || c == '\t' || c == '\r'

/-- The lexemes of a text. -/
def all? (cs : List Char) : Option (List Token) :=
  match hd : cs.dropWhile isSpace with
  | [] => some []
  | c :: rest =>
    match hn : next? (c :: rest) with
    | none => none
    | some (t, after) =>
      have : after.length < cs.length := by
        have := length_next? hn
        have := length_dropWhile_le isSpace cs
        simp only [hd] at this
        omega
      (all? after).map (t :: ·)
termination_by cs.length

end Token

end WidgetSchema
