-- Rules that are read again. Reading trims what it keeps and checks what is left, and what it keeps
-- has no blank ends, so the tree that accepted rules are stored as passes every check once more and
-- is read as the same rules.
import WidgetSchema.Proofs.Normalization.Reading
import WidgetSchema.Proofs.Text.Trim
import WidgetSchema.Proofs.Text.Within
import WidgetSchema.Proofs.Widget.Stored
namespace WidgetSchema

namespace Normalization

/-! ## Keys and segments -/

/-- A name of letters, digits, underscores and dashes, apart from the three that no path may
lead through. -/
structure IsPlainKey (key : String) : Prop where
  ne_empty : key ≠ ""
  chars : ∀ c ∈ key.toList, ('A' ≤ c ∧ c ≤ 'Z') ∨ ('a' ≤ c ∧ c ≤ 'z') ∨ ('0' ≤ c ∧ c ≤ '9') ∨
    c = '_' ∨ c = '-'
  allowed : key ≠ "__proto__" ∧ key ≠ "prototype" ∧ key ≠ "constructor"

/-- A key, with brackets behind it where it stands for items. -/
def IsPlainSegment (segment : String) : Prop :=
  ∃ key, IsPlainKey key ∧ (segment = key ∨ segment = key ++ "[]")

theorem isSafeKey_iff {key : String} : isSafeKey key = true ↔ IsPlainKey key := by
  have hchar (c : Char) : (Text.isAsciiAlphanumeric c || c == '_' || c == '-') = true ↔
      ('A' ≤ c ∧ c ≤ 'Z') ∨ ('a' ≤ c ∧ c ≤ 'z') ∨ ('0' ≤ c ∧ c ≤ '9') ∨ c = '_' ∨ c = '-' := by
    simp only [Text.isAsciiAlphanumeric, Text.isAsciiDigit, Text.isAsciiLetter, Bool.or_eq_true,
      Bool.and_eq_true, decide_eq_true_eq, beq_iff_eq]
    grind
  have hallowed : Path.isProhibited key = false ↔
      key ≠ "__proto__" ∧ key ≠ "prototype" ∧ key ≠ "constructor" := by
    simp [Path.isProhibited, Path.prohibitedNames]
  simp only [isSafeKey, Bool.and_eq_true, decide_eq_true_eq, List.all_eq_true, hchar,
    Bool.not_eq_true', hallowed]
  exact ⟨fun h => ⟨h.1.1, h.1.2, h.2⟩, fun h => ⟨⟨h.ne_empty, h.chars⟩, h.allowed⟩⟩

theorem isPlainSegment_of_isSafeKey {segment : String}
    (h : isSafeKey (segmentKey segment).1 = true) : IsPlainSegment segment := by
  refine ⟨(segmentKey segment).1, isSafeKey_iff.1 h, ?_⟩
  have htext := toList_segment segment
  rcases hitems : (segmentKey segment).2 with _ | _
  · exact .inl (segmentKey_of_not_items hitems).symm
  · refine .inr (String.toList_inj.1 ?_)
    rw [htext, hitems, if_pos rfl, String.toList_append]
    rfl

theorem isBlank_of_mem_key {key : String} (h : isSafeKey key = true) :
    ∀ c ∈ key.toList, Text.isBlank c = false := by
  intro c hc
  simp only [isSafeKey, Bool.and_eq_true, List.all_eq_true, Bool.or_eq_true, beq_iff_eq] at h
  rcases h.1.2 c hc with (hletter | rfl) | rfl
  · exact Text.isBlank_of_isAsciiAlphanumeric hletter
  · decide
  · decide

theorem trim_of_isSafeKey {key : String} (h : isSafeKey key = true) : Text.trim key = key :=
  Text.trim_eq_self (isBlank_of_mem_key h)

theorem isBlank_of_mem_segment {segment : String}
    (h : isSafeKey (segmentKey segment).1 = true) :
    ∀ c ∈ segment.toList, Text.isBlank c = false := by
  intro c hc
  rw [toList_segment, List.mem_append] at hc
  rcases hc with hc | hc
  · exact isBlank_of_mem_key h c hc
  · split at hc
    · simp only [List.mem_cons, List.not_mem_nil, or_false] at hc
      rcases hc with rfl | rfl <;> decide
    · exact (List.not_mem_nil hc).elim

/-! ## Paths -/

theorem checkSegments_of_isWay {path : String} {mayEndInItems : Bool} {segments : List String}
    (hsafe : ∀ s ∈ segments, isSafeKey (segmentKey s).1 = true)
    (hlast : mayEndInItems = false → ∀ s ∈ segments.getLast?, (segmentKey s).2 = false) :
    checkSegments path mayEndInItems segments = .ok segments := by
  induction segments with
  | nil => rfl
  | cons s rest ih =>
    have hs : checkSegment path mayEndInItems rest.isEmpty s = .ok s := by
      have hitems : ((segmentKey s).2 && rest.isEmpty && !mayEndInItems) = false := by
        cases rest with
        | nil => cases mayEndInItems <;> simp_all
        | cons r rest => simp
      simp [checkSegment, hsafe s List.mem_cons_self, hitems]
    have hrest := ih (fun x hx => hsafe x (List.mem_cons_of_mem s hx)) fun hmay x hx =>
      hlast hmay x (List.mem_getLast?_cons hx)
    rw [checkSegments, hs, hrest]
    rfl

section Way

variable {path : String} {mayEndInItems : Bool} (h : IsWay mayEndInItems (Text.split '.' path))
include h

theorem isBlank_of_mem_path : ∀ c ∈ path.toList, Text.isBlank c = false := by
  intro c hc
  rw [← Text.join_split '.' path, Text.join, String.toList_intercalate] at hc
  rcases Text.mem_of_mem_intercalate hc with hdot | ⟨part, hpart, hc⟩
  · obtain rfl : c = '.' := by simpa using hdot
    decide
  · obtain ⟨s, hs, rfl⟩ := List.mem_map.1 hpart
    exact isBlank_of_mem_segment (h.safe s hs) c hc

theorem path_ne_empty : path ≠ "" := by
  rintro rfl
  exact ne_empty_of_isSafeKey (h.safe "" (by decide)) (by decide)

/-- The path of a sound rule is read as it is. -/
theorem readPath_of_isWay : readPath path mayEndInItems = .ok path := by
  have htrim : Text.trim path = path := Text.trim_eq_self (isBlank_of_mem_path h)
  have hsegments : (Text.split '.' path).map Text.trim = Text.split '.' path := by
    conv_rhs => rw [← List.map_id (Text.split '.' path)]
    refine List.map_congr_left fun s hs => ?_
    exact Text.trim_eq_self (isBlank_of_mem_segment (h.safe s hs))
  have hsolid : "" ∉ Text.split '.' path := fun hmem =>
    ne_empty_of_isSafeKey (h.safe "" hmem) (by decide)
  unfold readPath
  simp only [htrim, hsegments, bind_eq_ok_iff, unless_throw_eq_ok_iff]
  refine ⟨path_ne_empty h, by simpa using hsolid, Text.split '.' path,
    checkSegments_of_isWay h.safe h.last, ?_⟩
  exact congrArg Except.ok (Text.join_split '.' path)

end Way

theorem suffix_of_getLast?_split {sep : Char} {s part : String}
    (h : (Text.split sep s).getLast? = some part) : part.toList <:+ s.toList := by
  obtain ⟨before, hsplit⟩ := List.getLast?_eq_some_iff.1 h
  rcases before.eq_nil_or_concat with rfl | ⟨_, _, hconcat⟩
  · rw [Text.eq_of_split hsplit]
  · obtain ⟨a, b, rfl, -, hb⟩ := Text.append_of_split hsplit (by simp [hconcat]) (by simp)
    rw [Text.eq_of_split hb, String.toList_append]
    exact List.suffix_append _ _

/-- A path whose last segment is a key does not end in brackets. -/
theorem not_brackets_suffix {path : String} (h : IsWay false (Text.split '.' path)) :
    ¬ "[]".toList <:+ path.toList := by
  intro hbrackets
  obtain ⟨last, hlast⟩ := Option.isSome_iff_exists.1 (List.getLast?_isSome.2 h.ne_nil)
  have hkey := segmentKey_of_not_items (h.last rfl last hlast)
  have hsafe := h.safe last (List.mem_of_getLast? hlast)
  rw [hkey] at hsafe
  have hne : last.toList ≠ [] := by simpa using ne_empty_of_isSafeKey hsafe
  obtain ⟨front, hfront⟩ := suffix_of_getLast?_split hlast
  obtain ⟨start, hstart⟩ := hbrackets
  have hend : last.toList.getLast? = some ']' := by
    rw [← List.getLast?_append_of_ne_nil front hne, hfront, ← hstart]
    exact List.getLast?_append_of_ne_nil start (by decide)
  exact absurd ((isSafeKey_iff.1 hsafe).chars ']' (List.mem_of_getLast? hend)) (by decide)

/-! ## Members -/

theorem solidMember?_of_member? {rule : Node} {key : String} {o : Option String}
    (hmember : rule.member? key = o.map .string) (h : ∀ s ∈ o, Text.trim s = s ∧ s ≠ "") :
    solidMember? rule key = o := by
  cases o with
  | none => rw [solidMember?, hmember]; rfl
  | some s => simp [solidMember?, hmember, Node.string?, h s rfl]

theorem solid_of_solidMember? {rule : Node} {key s : String} (h : solidMember? rule key = some s) :
    Text.trim s = s ∧ s ≠ "" := by
  obtain ⟨hsome, hne⟩ := Option.filter_eq_some_iff.1 h
  obtain ⟨t, -, rfl⟩ := Option.map_eq_some_iff.1 hsome
  exact ⟨Text.trim_trim t, by simpa using hne⟩

/-- The members of a record are its columns. -/
theorem member?_columns (cs : List (String × Option Node)) (h : (cs.map Prod.fst).Nodup) :
    ∀ c ∈ cs, (Node.object (Record.columns cs)).member? c.1 = c.2 := fun _ hc =>
  Record.get?_columns h hc

/-! ## Rules -/

/-- A rule for ids with all that reading leaves of it. -/
structure IsSettledIdRule (r : IdRule) : Prop extends r.IsSound where
  seedKey : ∀ key ∈ r.seedKey, isSafeKey key = true
  fallbackPrefix : ∀ s ∈ r.fallbackPrefix, Text.trim s = s ∧ s ≠ ""

theorem isSettledIdRule_of_readIdRule {index : Nat} {rule : Node} {r : IdRule}
    (h : readIdRule index rule = .ok r) : IsSettledIdRule r := by
  have hsound := isSound_of_readIdRule h
  unfold readIdRule at h
  simp only [bind_eq_ok_iff, unless_throw_eq_ok_iff] at h
  obtain ⟨-, path, -, arrayPath, -, idKey, -, hseed, h⟩ := h
  obtain rfl := Except.ok.inj h
  refine ⟨hsound, fun key hkey => ?_, fun s hs => solid_of_solidMember? hs⟩
  have hkey : solidMember? rule "seedKey" = some key := hkey
  simpa [hkey] using hseed

theorem readIdRule_idRuleNode {r : IdRule} (h : IsSettledIdRule r) (index : Nat) :
    readIdRule index (idRuleNode r) = .ok r := by
  have hmembers := member?_columns (idRuleColumns r) (by simp [idRuleColumns])
  rw [← idRuleNode_eq] at hmembers
  simp only [idRuleColumns, List.forall_mem_cons] at hmembers
  obtain ⟨hpath, hkey, hseed, hfallback, -⟩ := hmembers
  have hpath : solidMember? (idRuleNode r) "arrayPath" = some r.arrayPath := by
    refine solidMember?_of_member? hpath fun s hs => ?_
    obtain rfl := Option.some.inj hs
    exact ⟨Text.trim_eq_self (isBlank_of_mem_path h.path), path_ne_empty h.path⟩
  have hseed : solidMember? (idRuleNode r) "seedKey" = r.seedKey :=
    solidMember?_of_member? hseed fun key hkey =>
      ⟨trim_of_isSafeKey (h.seedKey key hkey), ne_empty_of_isSafeKey (h.seedKey key hkey)⟩
  have hfallback : solidMember? (idRuleNode r) "fallbackPrefix" = r.fallbackPrefix :=
    solidMember?_of_member? hfallback h.fallbackPrefix
  unfold readIdRule
  simp only [bind_eq_ok_iff, unless_throw_eq_ok_iff, hpath, hkey, hseed, hfallback]
  refine ⟨by simp [idRuleNode, Node.isObject], r.arrayPath, rfl, r.arrayPath,
    readPath_of_isWay h.path, r.idKey, ?_, ?_, rfl⟩
  · rw [Option.bind_some, Node.string?, Option.map_some, trim_of_isSafeKey h.key,
      Option.filter_some, if_pos h.key]
    rfl
  · cases hkey : r.seedKey with
    | none => simp
    | some key => simp [h.seedKey key hkey]

theorem readCoerceRule_coerceRuleNode {r : CoerceRule} (h : r.IsSound) (index : Nat) :
    readCoerceRule index (coerceRuleNode r) = .ok r := by
  have hmembers := member?_columns (coerceRuleColumns r) (by simp [coerceRuleColumns])
  rw [← coerceRuleNode_eq] at hmembers
  simp only [coerceRuleColumns, List.forall_mem_cons, Option.map_id] at hmembers
  obtain ⟨hpath, htype, hdefault, -⟩ := hmembers
  have hpath : solidMember? (coerceRuleNode r) "path" = some r.path := by
    refine solidMember?_of_member? hpath fun s hs => ?_
    obtain rfl := Option.some.inj hs
    exact ⟨Text.trim_eq_self (isBlank_of_mem_path h.path), path_ne_empty h.path⟩
  unfold readCoerceRule
  simp only [bind_eq_ok_iff, unless_throw_eq_ok_iff, hpath, htype, hdefault]
  refine ⟨by simp [coerceRuleNode, Node.isObject], r.path, rfl, r.path,
    readPath_of_isWay h.path, r.type, ?_, ?_, rfl⟩
  · rw [Option.bind_some, Node.string?, Option.bind_some, ScalarType.ofName?_name]
    rfl
  · cases hvalue : r.default with
    | none => simp
    | some v => simp [h.default v hvalue]

theorem readAll_map {α : Type} {read : Nat → Node → Except NormalizationError α}
    {write : α → Node} {as : List α} (h : ∀ a ∈ as, ∀ i, read i (write a) = .ok a) (index : Nat) :
    readAll read index (as.map write) = .ok as := by
  induction as generalizing index with
  | nil => rfl
  | cons a as ih =>
    have has := ih (fun b hb => h b (List.mem_cons_of_mem a hb)) (index + 1)
    rw [List.map_cons, readAll, h a List.mem_cons_self, has]
    rfl

/-- The list of a member that is left out where the list is empty. -/
theorem ruleList_of_member? {raw : Node} {key : String} {items : List Node}
    (h : raw.member? key = if items.isEmpty then none else some (.array items)) :
    ruleList raw key = .ok items := by
  cases items with
  | nil => rw [ruleList, h]; rfl
  | cons x xs => rw [ruleList, h]; rfl

/-! ## Main result -/

/-- A value of the type that a rule asks for. -/
inductive HasType : ScalarType → Node → Prop
  | string (s : String) : HasType .string (.string s)
  | number (x : Number) (finite : x.toFloat.isFinite = true) : HasType .number (.number x)
  | boolean (b : Bool) : HasType .boolean (.bool b)

theorem hasType_of_accepts {type : ScalarType} {v : Node} (h : type.accepts v = true) :
    HasType type v := by
  unfold ScalarType.accepts at h
  split at h
  · exact .string _
  · exact .number _ h
  · exact .boolean _
  · cases h

/-- What reading leaves of the rules of a widget. -/
structure IsSettled (n : Normalization) : Prop where
  idRules : ∀ r ∈ n.idRules, IsSettledIdRule r
  coerceRules : ∀ r ∈ n.coerceRules, r.IsSound
  some_rule : n.idRules ≠ [] ∨ n.coerceRules ≠ []

theorem isSettled_of_read {raw : Node} {n : Normalization} (h : read raw = .ok (some n)) :
    IsSettled n := by
  have hsound := isSound_of_read h
  unfold read at h
  by_cases hnull : raw.isNull = true
  · rw [if_pos hnull] at h
    cases h
  · rw [if_neg hnull] at h
    simp only [bind_eq_ok_iff, unless_throw_eq_ok_iff] at h
    obtain ⟨-, _, -, idRules, hid, _, -, coerceRules, -, h⟩ := h
    split at h
    · cases h
    · rename_i hsome
      obtain rfl := Option.some.inj (Except.ok.inj h)
      refine ⟨fun r hr => ?_, hsound.coerceRules, ?_⟩
      · obtain ⟨i, x, hx⟩ := exists_read_of_readAll hid r hr
        exact isSettledIdRule_of_readIdRule hx
      · simpa [Classical.or_iff_not_imp_left] using hsome

/-- Settled rules are read from the tree that they are stored as. -/
theorem read_toNode {n : Normalization} (h : IsSettled n) : read n.toNode = .ok (some n) := by
  have hmembers := member?_columns n.columns (by simp [columns])
  rw [← toNode_eq] at hmembers
  simp only [columns, List.forall_mem_cons] at hmembers
  obtain ⟨hid, hcoerce, -⟩ := hmembers
  have hid : ruleList n.toNode "idRules" = .ok (n.idRules.map idRuleNode) :=
    ruleList_of_member? (by rw [hid, List.isEmpty_map])
  have hcoerce : ruleList n.toNode "coerceRules" = .ok (n.coerceRules.map coerceRuleNode) :=
    ruleList_of_member? (by rw [hcoerce, List.isEmpty_map])
  have hids := readAll_map (fun r hr => readIdRule_idRuleNode (h.idRules r hr)) 0
  have hcoerces := readAll_map (fun r hr => readCoerceRule_coerceRuleNode (h.coerceRules r hr)) 0
  have hempty : ¬ (n.idRules.isEmpty && n.coerceRules.isEmpty) = true := by
    simpa [Classical.or_iff_not_imp_left] using h.some_rule
  unfold read
  rw [if_neg (by simp [toNode, Node.isNull])]
  simp only [bind_eq_ok_iff, unless_throw_eq_ok_iff, hid, hcoerce]
  refine ⟨by simp [toNode, Node.isObject], _, rfl, _, hids, _, rfl, _, hcoerces, ?_⟩
  rw [if_neg hempty]
  rfl

/-- The paths, keys and defaults of rules that are accepted are safe and of the right form, and
the tree that the rules are stored as is accepted again and gives the same rules. -/
theorem accepted_rules_are_safe_and_read_again (raw : Node) (n : Normalization)
    (h : read raw = .ok (some n)) :
    (∀ r ∈ n.idRules, (∀ s ∈ Text.split '.' r.arrayPath, IsPlainSegment s) ∧
      IsPlainKey r.idKey ∧ ∀ key ∈ r.seedKey, IsPlainKey key) ∧
    (∀ r ∈ n.coerceRules, (∀ s ∈ Text.split '.' r.path, IsPlainSegment s) ∧
      ¬ "[]".toList <:+ r.path.toList ∧ ∀ v ∈ r.default, HasType r.type v) ∧
    read n.toNode = .ok (some n) := by
  have hsettled := isSettled_of_read h
  refine ⟨fun r hr => ?_, fun r hr => ?_, read_toNode hsettled⟩
  · have hr := hsettled.idRules r hr
    exact ⟨fun s hs => isPlainSegment_of_isSafeKey (hr.path.safe s hs), isSafeKey_iff.1 hr.key,
      fun key hkey => isSafeKey_iff.1 (hr.seedKey key hkey)⟩
  · have hr := hsettled.coerceRules r hr
    exact ⟨fun s hs => isPlainSegment_of_isSafeKey (hr.path.safe s hs),
      not_brackets_suffix hr.path, fun v hv => hasType_of_accepts (hr.default v hv)⟩

/-- Rules as they may be written by hand, with blanks around names and segments. -/
def handWritten : Node :=
  .object
    [("idRules", .array
      [.object
        [("arrayPath", .string " groups[] . faqs "), ("idKey", .string " id"),
          ("seedKey", .string "question "), ("fallbackPrefix", .string " faq ")]]),
      ("coerceRules", .array
        [.object
          [("path", .string "groups[].faqs[]. open "), ("type", .string "boolean"),
            ("default", .bool false)]])]

def handRead : Normalization where
  idRules := [⟨"groups[].faqs", "id", some "question", some "faq"⟩]
  coerceRules := [⟨"groups[].faqs[].open", .boolean, some (.bool false)⟩]

theorem rules_written_by_hand_are_read_again :
    read handWritten = .ok (some handRead) ∧ read handRead.toNode = .ok (some handRead) := by
  have hread : read handWritten = .ok (some handRead) := by decide +kernel
  exact ⟨hread, (accepted_rules_are_safe_and_read_again handWritten handRead hread).2.2⟩

end Normalization

end WidgetSchema
