-- Blank characters, and texts without their blank ends.
namespace WidgetSchema.Text

/-- The twenty-five characters with the Unicode property White_Space. -/
def isBlank (c : Char) : Bool :=
  let n := c.toNat
  (9 ≤ n && n ≤ 13) || n == 0x20 || n == 0x85 || n == 0xA0 || n == 0x1680 ||
    (0x2000 ≤ n && n ≤ 0x200A) || n == 0x2028 || n == 0x2029 || n == 0x202F ||
    n == 0x205F || n == 0x3000

/-- The blank characters of ASCII, without the vertical tab. -/
def isAsciiBlank (c : Char) : Bool :=
  c == ' ' || c == '\t' || c == '\n' || c == '\x0c' || c == '\r'

def trimStart (cs : List Char) : List Char := cs.dropWhile isBlank

def trimEnd (cs : List Char) : List Char := (cs.reverse.dropWhile isBlank).reverse

def trimChars (cs : List Char) : List Char := trimEnd (trimStart cs)

/-- The text without the blank characters at both ends. -/
def trim (s : String) : String := String.ofList (trimChars s.toList)

/-- Nothing is left of a blank text once it is trimmed. -/
def isBlankText (s : String) : Bool := s.toList.all isBlank

/-! ## Laws -/

theorem dropWhile_isBlank_eq_nil {cs : List Char} :
    cs.dropWhile isBlank = [] ↔ cs.all isBlank = true := by
  induction cs with
  | nil => simp
  | cons c cs ih => by_cases h : isBlank c <;> simp_all

theorem trimChars_eq_nil {cs : List Char} : trimChars cs = [] ↔ cs.all isBlank = true := by
  unfold trimChars trimEnd trimStart
  rw [List.reverse_eq_nil_iff, dropWhile_isBlank_eq_nil, List.all_reverse]
  constructor
  · intro h
    refine dropWhile_isBlank_eq_nil.1 ?_
    cases hd : cs.dropWhile isBlank with
    | nil => rfl
    | cons c rest =>
      rw [hd] at h
      have hc : isBlank c = false := by
        have := List.head_dropWhile_not isBlank (l := cs) (by rw [hd]; simp)
        simpa [hd] using this
      simp [hc] at h
  · intro h
    rw [dropWhile_isBlank_eq_nil.2 h]
    rfl

theorem dropWhile_isBlank_eq_self {cs : List Char} (h : ∀ c ∈ cs, isBlank c = false) :
    cs.dropWhile isBlank = cs := by
  cases cs with
  | nil => rfl
  | cons c cs => rw [List.dropWhile_cons, if_neg (by simp [h c List.mem_cons_self])]

theorem trim_eq_self {s : String} (h : ∀ c ∈ s.toList, isBlank c = false) : trim s = s := by
  have hrev : ∀ c ∈ s.toList.reverse, isBlank c = false := fun c hc => h c (List.mem_reverse.1 hc)
  rw [trim, trimChars, trimEnd, trimStart, dropWhile_isBlank_eq_self h,
    dropWhile_isBlank_eq_self hrev, List.reverse_reverse, String.ofList_toList]

end WidgetSchema.Text
