-- What writing files changes on a disk. A file is never written over a directory, so all paths go
-- on leading where they led, and only the paths that lead to the new file read anything else.
import Mathlib.Data.List.Basic
import WidgetSchema.Project.FileSystem
import WidgetSchema.Proofs.Text.Split
namespace WidgetSchema.Disk

/-! ## Single entries -/

/-- Nothing on a disk is written over a directory, and no directory goes away. -/
structure Keeps (d e : Disk) : Prop where
  current : e.current = d.current
  directory : ∀ place, d.kindAt? place = some .directory → e.kindAt? place = some .directory

theorem Keeps.refl (d : Disk) : d.Keeps d := ⟨rfl, fun _ h => h⟩

theorem Keeps.trans {a b c : Disk} (hab : a.Keeps b) (hbc : b.Keeps c) : a.Keeps c :=
  ⟨hbc.current.trans hab.current, fun place h => hbc.directory place (hab.directory place h)⟩

variable {d e : Disk} {path text : String}

theorem Keeps.step? (h : d.Keeps e) {place next : List String} {part : String}
    (hstep : d.step? place part = some next) : e.step? place part = some next := by
  unfold Disk.step? at hstep ⊢
  by_cases hkind : d.kindAt? place = some .directory
  · rw [if_pos hkind] at hstep
    rw [if_pos (h.directory place hkind)]
    exact hstep
  · rw [if_neg hkind] at hstep
    cases hstep

/-- A name that a path can end in. -/
structure IsFileName (name : String) : Prop where
  slash : '/' ∉ name.toList
  idle : isIdle name = false
  up : name ≠ ".."

theorem IsFileName.ne_empty {name : String} (h : IsFileName name) : name ≠ "" := by
  rintro rfl
  exact absurd h.idle (by decide)

theorem IsFileName.isAbsolute {name : String} (h : IsFileName name) :
    Place.isAbsolute name = false := by
  refine decide_eq_false fun hhead => h.slash ?_
  exact List.mem_of_mem_head? hhead

theorem foldlM_step?_concat (d : Disk) (start parts : List String) (name : String) :
    (parts ++ [name]).foldlM d.step? start =
      (parts.foldlM d.step? start).bind (d.step? · name) := by
  rw [List.foldlM_append]
  refine congrArg _ (funext fun base => ?_)
  rw [List.foldlM_cons]
  cases d.step? base name <;> rfl

/-- Between a directory and a file stands one slash, which the directory may end in already. -/
theorem exists_join_eq {directory : String} (h : directory ≠ "") :
    ∃ base, ∀ name, IsFileName name →
      Place.join directory name = base ++ String.singleton '/' ++ name := by
  by_cases hlast : directory.toList.getLast? = some '/'
  · refine ⟨String.ofList directory.toList.dropLast, fun name hname => ?_⟩
    have hdirectory : String.ofList directory.toList.dropLast ++ String.singleton '/' =
        directory := by
      apply String.toList_inj.1
      rw [String.toList_append, String.toList_ofList, String.toList_singleton]
      exact List.dropLast_append_getLast? '/' hlast
    rw [Place.join, if_neg (by simp [hname.isAbsolute]), if_pos (by simp [hlast]), hdirectory]
  · refine ⟨directory, fun name hname => ?_⟩
    rw [Place.join, if_neg (by simp [hname.isAbsolute]), if_neg (by simp [h, hlast])]
    rfl

/-- The files of a directory stand next to each other in one place, if the path of the directory
leads anywhere. -/
theorem exists_place_of_directory (d : Disk) (directory : String) :
    ∃ above : Option (List String), ∀ name, IsFileName name →
      d.resolve? (Place.join directory name) = above.bind (d.step? · name) := by
  by_cases hempty : directory = ""
  · refine ⟨some d.current, fun name hname => ?_⟩
    have hjoin : Place.join directory name = name := by
      rw [Place.join, if_neg (by simp [hname.isAbsolute]), hempty]
      simp
    have hstart : d.start name = d.current := by
      rw [start, if_neg (by simp [hname.isAbsolute])]
    rw [hjoin, resolve?, if_neg hname.ne_empty, hstart, Place.parts,
      Text.split_of_notMem hname.slash]
    exact foldlM_step?_concat d d.current [] name
  · obtain ⟨base, hbase⟩ := exists_join_eq hempty
    refine ⟨(Place.parts base).foldlM d.step? (d.start (base ++ String.singleton '/')),
      fun name hname => ?_⟩
    have hstart : d.start (base ++ String.singleton '/' ++ name) =
        d.start (base ++ String.singleton '/') := by
      unfold start Place.isAbsolute
      rw [String.toList_append, List.head?_append_of_ne_nil _ (by simp)]
    have hne : base ++ String.singleton '/' ++ name ≠ "" := by
      intro heq
      have htext := congrArg String.toList heq
      simp at htext
    rw [hbase name hname, resolve?, if_neg hne, hstart, Place.parts, Text.split_append,
      Text.split_of_notMem hname.slash]
    exact foldlM_step?_concat d _ _ name

/-- Files with different names are in different places. -/
theorem resolve?_ne_of_ne {directory a b : String} (ha : IsFileName a) (hb : IsFileName b)
    (hne : a ≠ b) {place : List String} (h : d.resolve? (Place.join directory a) = some place) :
    d.resolve? (Place.join directory b) ≠ some place := by
  obtain ⟨above, habove⟩ := exists_place_of_directory d directory
  have hstep : ∀ {name : String} {base : List String}, IsFileName name →
      d.step? base name = some place → place = base ++ [name] := by
    intro name base hname hstep
    have hidle : ¬ isIdle name = true := fun h => Bool.false_ne_true (hname.idle.symm.trans h)
    unfold step? at hstep
    split at hstep
    · rw [if_neg hname.up] at hstep
      exact (Option.some.inj hstep).symm
    · cases hstep
  rw [habove a ha] at h
  rw [habove b hb]
  cases above with
  | none => cases h
  | some base =>
    intro hplace
    have hequal := (hstep ha h).symm.trans (hstep hb hplace)
    exact hne (List.singleton_inj.1 (List.append_cancel_left hequal))

/-- No name on the way to a file has a slash in it. -/
def HasPlainNames (d : Disk) : Prop := ∀ entry ∈ d.entries, ∀ name ∈ entry.1, '/' ∉ name.toList

theorem slash_notMem_of_names? (hd : d.HasPlainNames) {names : List String}
    (h : d.names? path = some names) : ∀ name ∈ names, '/' ∉ name.toList := by
  unfold names? at h
  obtain ⟨place, -, h⟩ := Option.bind_eq_some_iff.1 h
  split at h
  · obtain rfl := Option.some.inj h
    intro name hname
    obtain ⟨entry, hentry, hlast⟩ := List.mem_filterMap.1 hname
    dsimp only at hlast
    split at hlast
    · exact hd entry hentry name (List.mem_of_getLast? hlast)
    · cases hlast
  · cases h

end WidgetSchema.Disk
