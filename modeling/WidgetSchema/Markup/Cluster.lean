-- Clusters: groups of fields that the editor shows in one block. A cluster may hold further
-- clusters, and one that is never closed stays as it is written.
import WidgetSchema.Markup.Attribute
import WidgetSchema.Markup.Tag
namespace WidgetSchema.Markup

open Text

def clusterOpen : List Char := "<tooldrawer-cluster".toList

def clusterClose : List Char := "</tooldrawer-cluster>".toList

theorem length_clusterOpen : clusterOpen.length = 19 := rfl

theorem length_clusterClose : clusterClose.length = 21 := rfl

/-- Attributes that a cluster may not have, since its spacing is fixed. -/
def fixedSpacing : List String := ["gap", "space-after", "spaceAfter"]

theorem lt_of_clusterClose {cs after : List Char}
    (h : dropFolded Char.toLower clusterClose cs = some after) : after.length < cs.length := by
  have := length_dropFolded h
  rw [length_clusterClose] at this
  omega

theorem lt_of_clusterOpen {cs name inside after : List Char}
    (ho : dropFolded Char.toLower clusterOpen cs = some name)
    (ht : cutTag .outside name = some (inside, after)) : after.length < cs.length := by
  have := length_dropFolded ho
  have := length_cutTag ht
  omega

/-- The body of a cluster up to its closing tag, and what follows it. `depth` clusters are open
inside the body. -/
def clusterBody? (depth : Nat) (cs : List Char) : Option (List Char × List Char) :=
  match cs with
  | [] => none
  | c :: rest =>
    match hc : dropFolded Char.toLower clusterClose (c :: rest) with
    | some after =>
      match depth with
      | 0 => some ([], after)
      | depth + 1 =>
        have : after.length < (c :: rest).length := lt_of_clusterClose hc
        (clusterBody? depth after).map fun (body, tail) =>
          ((c :: rest).take clusterClose.length ++ body, tail)
    | none =>
      match ho : dropFolded Char.toLower clusterOpen (c :: rest) with
      | some name =>
        match ht : cutTag .outside name with
        | none => none
        | some (inside, after) =>
          have : after.length < (c :: rest).length := lt_of_clusterOpen ho ht
          (clusterBody? (depth + 1) after).map fun (body, tail) =>
            ((c :: rest).take clusterOpen.length ++ inside ++ '>' :: body, tail)
      | none => (clusterBody? depth rest).map fun (body, tail) => (c :: body, tail)
termination_by cs.length
decreasing_by
  · exact this
  · exact this
  · exact Nat.lt_succ_self _

theorem length_clusterBody? {depth : Nat} {cs body rest : List Char}
    (h : clusterBody? depth cs = some (body, rest)) : body.length + rest.length ≤ cs.length := by
  fun_induction clusterBody? depth cs generalizing body rest with
  | case1 => cases h
  | case2 c tail after hc =>
    simp only [Option.some.injEq, Prod.mk.injEq] at h
    have := length_dropFolded hc
    rw [← h.1, ← h.2]
    simp only [List.length_nil]
    omega
  | case3 c tail after hc depth hlt ih =>
    obtain ⟨⟨b, r⟩, hb, he⟩ := Option.map_eq_some_iff.1 h
    simp only [Prod.mk.injEq] at he
    have h1 := ih hb
    have h2 := length_dropFolded hc
    rw [← he.1, ← he.2]
    simp only [List.length_append, List.length_take]
    omega
  | case4 => cases h
  | case5 depth c tail hc name ho inside after ht hlt ih =>
    obtain ⟨⟨b, r⟩, hb, he⟩ := Option.map_eq_some_iff.1 h
    simp only [Prod.mk.injEq] at he
    have h1 := ih hb
    have h2 := length_dropFolded ho
    have h3 := length_cutTag ht
    rw [← he.1, ← he.2]
    simp only [List.length_append, List.length_take, List.length_cons] at *
    omega
  | case6 depth c tail hc ho ih =>
    obtain ⟨⟨b, r⟩, hb, he⟩ := Option.map_eq_some_iff.1 h
    simp only [Prod.mk.injEq] at he
    have h1 := ih hb
    rw [← he.1, ← he.2]
    simp only [List.length_cons]
    omega

/-- A cluster whose name has just been read: its attributes, its body, and what follows it. -/
structure ClusterTag where
  attrs : List Char
  body : List Char
  rest : List Char

/-- What follows the name of a cluster: the whole cluster, or an opening tag that is left as
text, with the text behind it. -/
inductive ClusterStart where
  | cluster (c : ClusterTag)
  | loose (kept rest : List Char)

def clusterStart (name : List Char) : ClusterStart :=
  if endsName name then
    match cutTag .outside name with
    | none => .loose [] name
    | some (attrs, after) =>
      match clusterBody? 0 after with
      | none => .loose (attrs ++ ['>']) after
      | some (body, rest) => .cluster ⟨attrs, body, rest⟩
  else .loose [] name

theorem length_clusterStart_cluster {name : List Char} {c : ClusterTag}
    (h : clusterStart name = .cluster c) :
    c.attrs.length + c.body.length + c.rest.length < name.length := by
  unfold clusterStart at h
  split at h
  · split at h
    · cases h
    · rename_i attrs after ht
      split at h
      · cases h
      · rename_i body rest hb
        have h1 := length_cutTag ht
        have h2 := length_clusterBody? hb
        cases h
        dsimp only
        omega
  · cases h

theorem length_clusterStart_loose {name kept rest : List Char}
    (h : clusterStart name = .loose kept rest) : rest.length ≤ name.length := by
  unfold clusterStart at h
  split at h
  · split at h
    · cases h
      exact Nat.le_refl _
    · rename_i attrs after ht
      split at h
      · have h1 := length_cutTag ht
        cases h
        omega
      · cases h
  · cases h
    exact Nat.le_refl _

/-- The opening tag that stands for a cluster, with its condition. -/
def clusterDiv (attrs : Attributes) : List Char :=
  "<div class=\"tdmenucontent__cluster\"".toList ++
    (match attrs.get? "show-if" with
      | some s => " data-bob-showif=\"".toList ++ s.toList ++ ['"']
      | none => []) ++ ['>']

/-- The first attribute of a cluster that it may not have. -/
def spacing? (attrs : Attributes) : Option String :=
  fixedSpacing.find? fun name => (attrs.get? name).isSome

theorem lt_of_clusterStart_cluster {name : List Char} {c : ClusterTag}
    (h : clusterStart name = .cluster c) :
    c.body.length < name.length ∧ c.rest.length < name.length := by
  have := length_clusterStart_cluster h
  omega

theorem lt_of_cutFolded {cs before word name : List Char}
    (h : cutFolded Char.toLower clusterOpen cs = some (before, word, name)) :
    name.length < cs.length := by
  have := length_cutFolded h
  rw [length_clusterOpen] at this
  omega

/-- Markup with its clusters written as plain blocks. Fails with the first attribute that a
cluster may not have. -/
def expandClusters (cs : List Char) : Except String (List Char) :=
  match h : cutFolded Char.toLower clusterOpen cs with
  | none => .ok cs
  | some (before, word, name) =>
    have hn : name.length < cs.length := lt_of_cutFolded h
    match hs : clusterStart name with
    | .loose kept rest =>
      have : rest.length < cs.length := Nat.lt_of_le_of_lt (length_clusterStart_loose hs) hn
      (expandClusters rest).map fun tail => before ++ word ++ kept ++ tail
    | .cluster c =>
      have : c.body.length < cs.length ∧ c.rest.length < cs.length :=
        (lt_of_clusterStart_cluster hs).imp (Nat.lt_trans · hn) (Nat.lt_trans · hn)
      let attrs := Attributes.ofChars c.attrs
      match spacing? attrs with
      | some name => .error name
      | none =>
        match expandClusters c.body with
        | .error e => .error e
        | .ok body =>
          (expandClusters c.rest).map fun tail =>
            before ++ clusterDiv attrs ++ body ++ "</div>".toList ++ tail
termination_by cs.length
decreasing_by
  · exact this
  · exact this.1
  · exact this.2

end WidgetSchema.Markup
