-- The places that a rule reaches. The segments of a rule stand for steps into a tree, and the
-- places that are listed for them are those that the steps lead to.
import WidgetSchema.Normalization.Apply
import WidgetSchema.Proofs.Node.Visit
import WidgetSchema.Proofs.Normalization.Reading
namespace WidgetSchema.Normalization

open Node (places)

/-- The steps that a segment stands for: one to a member, and perhaps one to its items. -/
def stepsOf (segment : String) : List Step :=
  .member (segmentKey segment).1 :: if (segmentKey segment).2 then [.items] else []

/-! ## One segment further -/

/-- A text without dots, if it is not empty, is one segment. -/
theorem below_eq_append {key : String} (hne : key ≠ "") (hsplit : Text.split '.' key = [key])
    (p : Path) : below p key = p ++ [key] := by
  cases p with
  | nil => simp [below, Path.ofText, hne, hsplit]
  | cons s p => simp [below, hsplit]

theorem below_key {key : String} (h : isSafeKey key = true) (p : Path) :
    below p key = p ++ [key] :=
  below_eq_append (ne_empty_of_isSafeKey h) (Text.split_of_notMem (dot_notMem_of_isSafeKey h)) p

theorem below_toString (p : Path) (i : Nat) : below p (toString i) = p ++ [toString i] :=
  below_eq_append Nat.repr_ne_empty (split_toString i) p

/-! ## All segments -/

/-- From a place on, one segment and further steps list what the steps of both list. -/
theorem flatMap_follow {segment : String} (h : isSafeKey (segmentKey segment).1 = true)
    (rest : List Step) (p : Path) (x : Node) :
    ((follow segment (p, x)).flatMap fun place =>
        (places rest place.2).map (Prod.map (place.1 ++ ·) id)) =
      (places (stepsOf segment ++ rest) x).map (Prod.map (p ++ ·) id) := by
  unfold follow stepsOf
  simp only [List.cons_append, places]
  rcases hmember : x.member? (segmentKey segment).1 with _ | y
  · rfl
  · simp only [Option.toList_some, List.flatMap_singleton, below_key h]
    cases hitems : (segmentKey segment).2 with
    | false => simp [Function.comp_def]
    | true =>
      simp only [if_true, List.cons_append, List.nil_append, places, List.map_flatMap,
        List.flatMap_map, List.map_map, below_toString]
      refine List.flatMap_congr fun item _ => List.map_congr_left fun place _ => ?_
      obtain ⟨q, v⟩ := place
      simp

theorem foldl_follow {segments : List String}
    (h : ∀ s ∈ segments, isSafeKey (segmentKey s).1 = true) (ps : List (Path × Node)) :
    segments.foldl (fun places s => places.flatMap (follow s)) ps =
      ps.flatMap fun place =>
        (places (segments.flatMap stepsOf) place.2).map (Prod.map (place.1 ++ ·) id) := by
  induction segments generalizing ps with
  | nil => simp [places]
  | cons s segments ih =>
    rw [List.foldl_cons, ih fun r hr => h r (List.mem_cons_of_mem _ hr), List.flatMap_assoc,
      List.flatMap_cons]
    exact List.flatMap_congr fun place _ =>
      flatMap_follow (h s List.mem_cons_self) _ place.1 place.2

/-- The places that segments reach are those that their steps lead to. -/
theorem reach_eq_places {segments : List String}
    (h : ∀ s ∈ segments, isSafeKey (segmentKey s).1 = true) (t : Node) :
    reach t segments = places (segments.flatMap stepsOf) t := by
  rw [reach, foldl_follow h]
  exact (List.flatMap_singleton _ _).trans (List.map_id _)

end WidgetSchema.Normalization
