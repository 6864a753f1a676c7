-- Corrections: repairs that put a default in place of what is not of a type. Each type takes its
-- own scalars and no others, so corrections of one site either all ask for one type, and keep
-- what has it, or they end in one and the same value whatever was there. Either way a second
-- round finds nothing to correct.
import WidgetSchema.Proofs.Normalization.Ways
namespace WidgetSchema

/-! ## Types -/

namespace ScalarType

theorem isScalar_of_accepts {τ : ScalarType} {x : Node} (h : τ.accepts x = true) :
    x.isScalar = true := by
  cases x with
  | array _ => cases τ <;> cases h
  | object _ => cases τ <;> cases h
  | _ => rfl

/-- No value is of two types. -/
theorem eq_of_accepts {σ τ : ScalarType} {x : Node} (hσ : σ.accepts x = true)
    (hτ : τ.accepts x = true) : σ = τ := by
  cases x <;> cases σ <;> cases τ <;> simp_all [accepts]

end ScalarType

/-! ## One correction -/

/-- A default for what is not of a type. -/
structure Correction where
  site : Site
  type : ScalarType
  value : Node
  accepted : type.accepts value = true

namespace Correction

open Node (isScalar repair membersAt ChangedAt IsRepair)

def corrected (c : Correction) (m : Option Node) : Node := (m.filter c.type.accepts).getD c.value

def correct (c : Correction) (t : Node) : Node := repair c.site c.corrected t

theorem accepts_corrected (c : Correction) (m : Option Node) :
    c.type.accepts (c.corrected m) = true := by
  unfold corrected
  rcases h : m.filter c.type.accepts with _ | x
  · exact c.accepted
  · exact (Option.filter_eq_some_iff.1 h).2

theorem corrected_of_accepts {c : Correction} {x : Node} (h : c.type.accepts x = true) :
    c.corrected (some x) = x := by
  rw [corrected, Option.filter_some_pos h, Option.getD_some]

theorem corrected_of_not_accepts {c : Correction} {x : Node} (h : ¬ c.type.accepts x = true) :
    c.corrected (some x) = c.value := by
  rw [corrected, Option.filter_some_neg (Bool.not_eq_true _ ▸ h), Option.getD_none]

theorem isRepair_corrected (c : Correction) : IsRepair c.corrected where
  scalar m := ScalarType.isScalar_of_accepts (c.accepts_corrected m)
  blind := by
    have hvalue (x : Node) (hx : x.isScalar = false) : c.corrected (some x) = c.value := by
      refine corrected_of_not_accepts fun haccepts => ?_
      rw [ScalarType.isScalar_of_accepts haccepts] at hx
      cases hx
    intro x y hx hy
    rw [hvalue x hx, hvalue y hy]

theorem changedAt_correct (c : Correction) (t : Node) :
    ChangedAt c.site.key c.site.steps t (c.correct t) :=
  Node.changedAt_mapAt_setMember c.isRepair_corrected _ _

/-! ## Corrections of one site -/

/-- What corrections of one site, one after another, make of a member. -/
def settled (cs : List Correction) (m : Option Node) : Option Node :=
  cs.foldl (fun m c => some (c.corrected m)) m

theorem settled_cons (c : Correction) (cs : List Correction) (m : Option Node) :
    settled (c :: cs) m = settled cs (some (c.corrected m)) := rfl

theorem settled_of_accepts {cs : List Correction} {τ : ScalarType} {x : Node}
    (hcs : ∀ c ∈ cs, c.type = τ) (hx : τ.accepts x = true) : settled cs (some x) = some x := by
  induction cs with
  | nil => rfl
  | cons c cs ih =>
    have hc : c.type.accepts x = true := hcs c List.mem_cons_self ▸ hx
    rw [settled_cons, corrected_of_accepts hc]
    exact ih fun d hd => hcs d (List.mem_cons_of_mem _ hd)

/-- Corrections that ask for different types have one answer to everything. -/
theorem settled_cases (c : Correction) (cs : List Correction) :
    (∀ d ∈ cs, d.type = c.type) ∨ ∃ v, ∀ m, settled (c :: cs) m = some v := by
  induction cs generalizing c with
  | nil => exact Or.inl fun d hd => (List.not_mem_nil hd).elim
  | cons d cs ih =>
    rcases ih d with hsame | ⟨v, hv⟩
    · by_cases htype : d.type = c.type
      · refine Or.inl fun e he => ?_
        rcases List.mem_cons.1 he with rfl | he
        · exact htype
        · exact (hsame e he).trans htype
      · -- What the first correction leaves is not of the type that all others ask for.
        refine Or.inr ⟨d.value, fun m => ?_⟩
        have hother : ¬ d.type.accepts (c.corrected m) = true := fun haccepts =>
          htype (ScalarType.eq_of_accepts haccepts (c.accepts_corrected m))
        rw [settled_cons, settled_cons, corrected_of_not_accepts hother]
        exact settled_of_accepts hsame d.accepted
    · exact Or.inr ⟨v, fun m => hv _⟩

theorem settled_settled (cs : List Correction) (m : Option Node) :
    settled cs (settled cs m) = settled cs m := by
  cases cs with
  | nil => rfl
  | cons c cs =>
    rcases settled_cases c cs with hsame | ⟨v, hv⟩
    · have haccepts := c.accepts_corrected m
      have hfirst : settled (c :: cs) m = some (c.corrected m) := settled_of_accepts hsame haccepts
      rw [hfirst]
      refine settled_of_accepts (fun d hd => ?_) haccepts
      rcases List.mem_cons.1 hd with rfl | hd
      · rfl
      · exact hsame d hd
    · rw [hv, hv]

/-- The value that corrections of one site, if there are any, put in place of a member. -/
def answer (cs : List Correction) (m : Option Node) : Node := (settled cs m).getD .null

theorem settled_eq_answer {cs : List Correction} (h : cs ≠ []) (m : Option Node) :
    settled cs m = some (answer cs m) ∧ (answer cs m).isScalar = true := by
  induction cs generalizing m with
  | nil => exact absurd rfl h
  | cons c cs ih =>
    cases cs with
    | nil => exact ⟨rfl, c.isRepair_corrected.scalar m⟩
    | cons d cs => exact ih (List.cons_ne_nil d cs) (some (c.corrected m))

/-- Either all texts stay, or all of them give way to one value. -/
theorem settled_string (cs : List Correction) :
    (∀ text, settled cs (some (.string text)) = some (.string text)) ∨
      cs ≠ [] ∧ ∃ v : Node, ∀ text, settled cs (some (.string text)) = some v := by
  cases cs with
  | nil => exact Or.inl fun _ => rfl
  | cons c cs =>
    rcases settled_cases c cs with hsame | ⟨v, hv⟩
    · by_cases htype : c.type = .string
      · refine Or.inl fun text => settled_of_accepts (τ := .string) (fun d hd => ?_) rfl
        rcases List.mem_cons.1 hd with rfl | hd
        · exact htype
        · exact (hsame d hd).trans htype
      · refine Or.inr ⟨List.cons_ne_nil _ _, c.value, fun text => ?_⟩
        have hother : ¬ c.type.accepts (.string text) = true := fun haccepts =>
          htype (ScalarType.eq_of_accepts haccepts rfl)
        rw [settled_cons, corrected_of_not_accepts hother]
        exact settled_of_accepts hsame c.accepted
    · exact Or.inr ⟨List.cons_ne_nil _ _, v, fun text => hv _⟩

/-! ## Many corrections -/

def correctAll (cs : List Correction) (t : Node) : Node := cs.foldl (fun t c => c.correct t) t

theorem correctAll_cons (c : Correction) (cs : List Correction) (t : Node) :
    correctAll (c :: cs) t = correctAll cs (c.correct t) := rfl

/-- Corrections of one site are one repair. -/
theorem correctAll_eq_repair {cs : List Correction} {s : Site} (hne : cs ≠ [])
    (hcs : ∀ c ∈ cs, c.site = s) (t : Node) :
    correctAll cs t = repair s (answer cs) t := by
  induction cs generalizing t with
  | nil => exact absurd rfl hne
  | cons c cs ih =>
    obtain rfl := hcs c List.mem_cons_self
    cases cs with
    | nil => rfl
    | cons d cs =>
      rw [correctAll_cons, ih (List.cons_ne_nil _ _) fun e he => hcs e (List.mem_cons_of_mem _ he)]
      exact Node.repair_repair _ _ _ _

theorem correctAll_correct {cs : List Correction} {c : Correction}
    (hcs : ∀ d ∈ cs, d.site ≠ c.site) (t : Node) :
    correctAll cs (c.correct t) = c.correct (correctAll cs t) := by
  induction cs generalizing t with
  | nil => rfl
  | cons d cs ih =>
    have hcomm : d.correct (c.correct t) = c.correct (d.correct t) :=
      Node.repair_comm (hcs d List.mem_cons_self).symm c.isRepair_corrected d.isRepair_corrected t
    rw [correctAll_cons, correctAll_cons, hcomm]
    exact ih (fun e he => hcs e (List.mem_cons_of_mem _ he)) _

def atSite (s : Site) (cs : List Correction) : List Correction := cs.filter fun c => c.site = s

def elsewhere (s : Site) (cs : List Correction) : List Correction := cs.filter fun c => c.site ≠ s

theorem site_of_mem_atSite {s : Site} {cs : List Correction} {c : Correction}
    (h : c ∈ atSite s cs) : c.site = s :=
  of_decide_eq_true (List.mem_filter.1 h).2

theorem site_of_mem_elsewhere {s : Site} {cs : List Correction} {c : Correction}
    (h : c ∈ elsewhere s cs) : c.site ≠ s :=
  of_decide_eq_true (List.mem_filter.1 h).2

/-- The corrections of a site may be made before all others. -/
theorem correctAll_eq_elsewhere (s : Site) (cs : List Correction) (t : Node) :
    correctAll cs t = correctAll (elsewhere s cs) (correctAll (atSite s cs) t) := by
  induction cs generalizing t with
  | nil => rfl
  | cons c cs ih =>
    by_cases hc : c.site = s
    · have hat : atSite s (c :: cs) = c :: atSite s cs := List.filter_cons_of_pos (by simpa using hc)
      have helse : elsewhere s (c :: cs) = elsewhere s cs :=
        List.filter_cons_of_neg (by simpa using hc)
      rw [hat, helse, correctAll_cons, correctAll_cons, ih]
    · have hat : atSite s (c :: cs) = atSite s cs := List.filter_cons_of_neg (by simpa using hc)
      have helse : elsewhere s (c :: cs) = c :: elsewhere s cs :=
        List.filter_cons_of_pos (by simpa using hc)
      rw [hat, helse, correctAll_cons, correctAll_cons, ih, correctAll_correct]
      exact fun d hd heq => hc (heq ▸ site_of_mem_atSite hd)

/-- Corrections elsewhere bring nothing to a site. -/
theorem membersAt_correctAll_sublist {s : Site} {cs : List Correction}
    (hcs : ∀ c ∈ cs, c.site ≠ s) {t : Node}
    (ht : ∀ m ∈ membersAt s.key s.steps t, ∃ v : Node, m = some v ∧ v.isScalar = true) :
    (membersAt s.key s.steps (correctAll cs t)).Sublist (membersAt s.key s.steps t) := by
  induction cs generalizing t with
  | nil => exact List.Sublist.refl _
  | cons c cs ih =>
    have hne : s ≠ c.site := (hcs c List.mem_cons_self).symm
    have hfirst := (c.changedAt_correct t).membersAt_sublist (Site.key_ne_of_ne hne) ht
    have hrest := ih (fun d hd => hcs d (List.mem_cons_of_mem _ hd)) fun m hm =>
      ht m (hfirst.subset hm)
    exact hrest.trans hfirst

/-! ## Twice -/

/-- After all corrections each site holds what its own corrections leave as it is. -/
theorem settled_of_mem_correctAll {s : Site} {cs : List Correction} {t : Node} {m : Option Node}
    (hm : m ∈ membersAt s.key s.steps (correctAll cs t)) : settled (atSite s cs) m = m := by
  by_cases hnil : atSite s cs = []
  · rw [hnil]
    rfl
  · -- The site is settled by its own corrections, and those elsewhere bring nothing to it.
    have hmembers : membersAt s.key s.steps (repair s (answer (atSite s cs)) t) = _ :=
      Node.membersAt_mapAt_setMember _ _ _ _
    have hanswer : ∀ m ∈ membersAt s.key s.steps (repair s (answer (atSite s cs)) t),
        ∃ m₀, m = settled (atSite s cs) m₀ := by
      intro m hm
      rw [hmembers] at hm
      obtain ⟨m₀, -, rfl⟩ := List.mem_map.1 hm
      exact ⟨m₀, (settled_eq_answer hnil m₀).1.symm⟩
    rw [correctAll_eq_elsewhere s, correctAll_eq_repair hnil fun c => site_of_mem_atSite] at hm
    have hother : ∀ c ∈ elsewhere s cs, c.site ≠ s := fun c => site_of_mem_elsewhere
    have hsublist := membersAt_correctAll_sublist hother fun m hm =>
      have ⟨m₀, hm₀⟩ := hanswer m hm
      have ⟨hv, hscalar⟩ := settled_eq_answer hnil m₀
      ⟨_, hm₀.trans hv, hscalar⟩
    obtain ⟨m₀, rfl⟩ := hanswer m (hsublist.subset hm)
    exact settled_settled _ m₀

theorem correctAll_atSite_eq_self {s : Site} {cs : List Correction} {t : Node}
    (h : ∀ m ∈ membersAt s.key s.steps t, settled (atSite s cs) m = m) :
    correctAll (atSite s cs) t = t := by
  by_cases hnil : atSite s cs = []
  · rw [hnil]
    rfl
  · rw [correctAll_eq_repair hnil fun c hc => site_of_mem_atSite hc]
    refine Node.mapAt_setMember_eq_self fun m hm => ?_
    exact (h m hm).symm.trans (settled_eq_answer hnil m).1

/-- Where each site holds what its corrections leave as it is, nothing is corrected. -/
theorem correctAll_eq_self {cs : List Correction} {t : Node}
    (h : ∀ s, ∀ m ∈ membersAt s.key s.steps t, settled (atSite s cs) m = m) :
    correctAll cs t = t := by
  -- The corrections of the first site change nothing, and those elsewhere are fewer.
  induction hn : cs.length using Nat.strongRecOn generalizing cs with
  | ind n ih =>
    cases cs with
    | nil => rfl
    | cons c cs =>
      have hlt : (elsewhere c.site (c :: cs)).length < n := by
        rw [← hn, elsewhere, List.filter_cons_of_neg (by simp)]
        exact Nat.lt_succ_of_le (List.length_filter_le _ _)
      rw [correctAll_eq_elsewhere c.site, correctAll_atSite_eq_self (h c.site)]
      refine ih _ hlt (fun s m hm => ?_) rfl
      by_cases hs : s = c.site
      · have hnil : atSite s (elsewhere c.site (c :: cs)) = [] := by
          refine List.filter_eq_nil_iff.2 fun d hd => ?_
          simpa [hs] using site_of_mem_elsewhere hd
        rw [hnil]
        rfl
      · have hsame : atSite s (elsewhere c.site (c :: cs)) = atSite s (c :: cs) := by
          unfold atSite elsewhere
          rw [List.filter_filter]
          refine List.filter_congr fun d _ => ?_
          by_cases hd : d.site = s <;> simp [hd, hs]
        rw [hsame]
        exact h s m hm

theorem correctAll_correctAll (cs : List Correction) (t : Node) :
    correctAll cs (correctAll cs t) = correctAll cs t :=
  correctAll_eq_self fun _ _ hm => settled_of_mem_correctAll hm

end Correction

/-! ## Rules -/

namespace CoerceRule

open Normalization
open Node (setMember mapAt)

/-- The site of a rule: the member that the last segment names, of all objects that the
segments before it reach. -/
def site (r : CoerceRule) : Site :=
  ⟨(Text.split '.' r.path).dropLast.flatMap stepsOf, (Text.split '.' r.path).getLast?.getD ""⟩

/-- What a rule corrects. A rule without a default corrects nothing. -/
def correction? (r : CoerceRule) : Option Correction :=
  match r.default with
  | none => none
  | some v => if h : r.type.accepts v = true then some ⟨r.site, r.type, v, h⟩ else none

/-- The name that a sound rule ends in. -/
theorem IsSound.isSafeKey_site {r : CoerceRule} (h : r.IsSound) :
    isSafeKey r.site.key = true := by
  have hleaf := List.getLast?_eq_some_getLast h.path.ne_nil
  have hkey := h.path.last rfl _ hleaf
  have hsafe := h.path.safe _ (List.getLast_mem h.path.ne_nil)
  rw [segmentKey_of_not_items hkey] at hsafe
  rwa [site, hleaf, Option.getD_some]

theorem reach_parents {r : CoerceRule} (h : r.IsSound) (t : Node) :
    reach t (Text.split '.' r.path).dropLast = Node.places r.site.steps t :=
  reach_eq_places (fun s hs => h.path.safe s (List.dropLast_subset _ hs)) t

/-- A repair below a place is a repair of what the place holds. -/
theorem repairLeaf_append {r : CoerceRule} {leaf : String} (hleaf : isSafeKey leaf = true)
    {t x : Node} {p : Path} (hx : t.getAt p = some x) (q : Path) :
    repairLeaf r leaf t (p ++ q) = t.setAt p (repairLeaf r leaf x q) := by
  unfold repairLeaf
  rcases r.default with _ | v
  · exact (Node.setAt_of_getAt hx).symm
  · simp only [below_key hleaf, List.append_assoc]
    rw [Node.getAt_append, hx, Option.bind_some, Node.setAt_append hx]
    by_cases haccepts : (x.getAt (q ++ [leaf])).any r.type.accepts = true
    · rw [if_pos haccepts, if_pos haccepts, Node.setAt_of_getAt hx]
    · rw [if_neg haccepts, if_neg haccepts]

/-- In an object, a default takes the place of a member that is not of the type. -/
theorem repairLeaf_nil {r : CoerceRule} {v : Node} (hv : r.default = some v)
    (haccepts : r.type.accepts v = true) (hleaf : isSafeKey r.site.key = true)
    (members : Members Node) :
    repairLeaf r r.site.key (.object members) [] =
      setMember r.site.key (Correction.corrected ⟨r.site, r.type, v, haccepts⟩)
        (.object members) := by
  have hget : (Node.object members).getAt [r.site.key] = Members.get? r.site.key members := by
    simp [Node.getAt, Node.child?]
  simp only [repairLeaf, hv, below_key hleaf, List.nil_append, hget, setMember]
  rcases hm : Members.get? r.site.key members with _ | x
  · rw [Node.setAt_object_cons, Node.setAt_nil]
    rfl
  · by_cases hx : r.type.accepts x = true
    · rw [Correction.corrected_of_accepts hx, Members.set_of_get? hm]
      exact if_pos hx
    · rw [Correction.corrected_of_not_accepts hx, Node.setAt_object hm, Node.setAt_nil]
      exact if_neg hx

/-- A rule at a place, of which only objects are repaired. -/
def repairPlace (r : CoerceRule) (t : Node) (place : Path × Node) : Node :=
  if place.2.isObject then repairLeaf r r.site.key t place.1 else t

theorem IsSound.repairPlace_append {r : CoerceRule} (h : r.IsSound) (t x v : Node) (p q : Path)
    (hx : t.getAt p = some x) :
    r.repairPlace t (p ++ q, v) = t.setAt p (r.repairPlace x (q, v)) := by
  unfold repairPlace
  by_cases hv : v.isObject = true
  · rw [if_pos hv, if_pos hv, repairLeaf_append h.isSafeKey_site hx]
  · rw [if_neg hv, if_neg hv, Node.setAt_of_getAt hx]

theorem applyCoerceRule_eq_mapAt {r : CoerceRule} (h : r.IsSound) {t : Node}
    (ht : t.Addressable) :
    applyCoerceRule t r = mapAt (fun x => r.repairPlace x ([], x)) r.site.steps t := by
  rw [← Node.foldl_places h.repairPlace_append _ ht, ← reach_parents h, applyCoerceRule,
    List.foldl_map, List.foldl_filter]
  rfl

theorem applyCoerceRule_of_default {r : CoerceRule} (h : r.default = none) (t : Node) :
    applyCoerceRule t r = t := by
  have hleaf (leaf : String) : repairLeaf r leaf = fun t _ => t := by
    funext t p
    simp [repairLeaf, h]
  simp only [applyCoerceRule, hleaf]
  exact List.foldl_fixed _

/-- A rule makes its correction at its site. -/
theorem applyCoerceRule_eq_correctAll {r : CoerceRule} (h : r.IsSound) {t : Node}
    (ht : t.Addressable) :
    applyCoerceRule t r = Correction.correctAll r.correction?.toList t := by
  rcases hdefault : r.default with _ | v
  · have hnone : r.correction? = none := by simp [correction?, hdefault]
    rw [hnone]
    exact applyCoerceRule_of_default hdefault t
  · have haccepts := h.default v hdefault
    have hsome : r.correction? = some ⟨r.site, r.type, v, haccepts⟩ := by
      simp [correction?, hdefault, haccepts]
    rw [hsome, applyCoerceRule_eq_mapAt h ht]
    refine congrArg (mapAt · r.site.steps t) (funext fun x => ?_)
    cases x with
    | object members => exact repairLeaf_nil hdefault haccepts h.isSafeKey_site members
    | _ => rfl

end CoerceRule

namespace Correction

theorem addressable_correctAll (cs : List Correction) {t : Node} (h : t.Addressable) :
    (correctAll cs t).Addressable := by
  induction cs generalizing t with
  | nil => exact h
  | cons c cs ih => exact ih (h.of_changedAt (c.changedAt_correct t))

end Correction

/-- Rules one after another make their corrections one after another. -/
theorem Normalization.foldl_applyCoerceRule {rules : List CoerceRule} (h : ∀ r ∈ rules, r.IsSound)
    {t : Node} (ht : t.Addressable) :
    rules.foldl applyCoerceRule t =
      Correction.correctAll (rules.filterMap CoerceRule.correction?) t := by
  induction rules generalizing t with
  | nil => rfl
  | cons r rules ih =>
    have hfirst := r.applyCoerceRule_eq_correctAll (h r List.mem_cons_self) ht
    have hrest := ih (fun q hq => h q (List.mem_cons_of_mem _ hq))
      (Correction.addressable_correctAll r.correction?.toList ht)
    rw [List.foldl_cons, hfirst, hrest]
    rcases hr : r.correction? with _ | c
    · rw [List.filterMap_cons_none hr]
      rfl
    · rw [List.filterMap_cons_some hr]
      rfl

end WidgetSchema
