-- Typed edits against their stored form. The two trees of an edit differ in its positions
-- only: from 2^63 on the editor gets a negative number in the place of the position. So a batch
-- comes out differently just where such a position is asked for. The edit is then refused
-- with a message that the stored form never gives.
import Mathlib.Algebra.Group.Nat.Defs
import WidgetSchema.Proofs.Edit.Accepted
namespace WidgetSchema

/-! ## Positions -/

namespace Op

/-- The positions of an edit, each under the name of its member. -/
def positions : Op → List (String × UInt64)
  | set _ _ => []
  | insert _ index _ | remove _ index => [("index", index)]
  | move _ source target => [("from", source), ("to", target)]

/-- All positions of the edit are signed words too. -/
def Fits (o : Op) : Prop := ∀ p ∈ o.positions, p.2.toNat < 2 ^ 63

instance : DecidablePred Fits := fun o =>
  inferInstanceAs (Decidable (∀ p ∈ o.positions, p.2.toNat < 2 ^ 63))

/-- The kind of an edit as it is written. -/
def name : Op → String
  | set _ _ => "set"
  | insert _ _ _ => "insert"
  | remove _ _ => "remove"
  | move _ _ _ => "move"

theorem toInt_of_lt {i : UInt64} (h : i.toNat < 2 ^ 63) : i.toInt64.toInt = i.toNat := by
  rw [Int64.toInt, UInt64.toBitVec_toInt64, BitVec.toInt_eq_toNat_of_lt]
  · rfl
  · rw [UInt64.toNat_toBitVec]
    omega

theorem toInt_lt_of_le {i : UInt64} (h : 2 ^ 63 ≤ i.toNat) :
    -Nat.pow 2 63 ≤ i.toInt64.toInt ∧ i.toInt64.toInt < 0 := by
  have hlt := i.toNat_lt
  have hpow : Nat.pow 2 63 = 2 ^ 63 := rfl
  rw [Int64.toInt, UInt64.toBitVec_toInt64, BitVec.toInt_eq_toNat_cond, UInt64.toNat_toBitVec,
    if_neg (by omega)]
  constructor <;> omega

theorem positionNode_of_lt {i : UInt64} (h : i.toNat < 2 ^ 63) :
    positionNode i = .ofNat i.toNat := by
  rw [positionNode, toInt_of_lt h]
  rfl

/-- An edit whose positions are signed words has one tree in both forms. -/
theorem toNode_of_fits {o : Op} (h : o.Fits) : o.toNode = o.storedNode := by
  cases o with
  | set path value => rfl
  | insert path index value =>
    rw [toNode, positionNode_of_lt (h ("index", index) List.mem_cons_self)]
    rfl
  | remove path index =>
    rw [toNode, positionNode_of_lt (h ("index", index) List.mem_cons_self)]
    rfl
  | move path source target =>
    rw [toNode, positionNode_of_lt (h ("from", source) List.mem_cons_self),
      positionNode_of_lt (h ("to", target) (List.mem_cons_of_mem _ List.mem_cons_self))]
    rfl

end Op

namespace Editor

variable {e : Editor} {t u op : Node} {o : Op} {member : String} {i : UInt64} {err : EditError}

/-- The editor takes a stored position as it is. -/
theorem position_of_ofNat (h : op.member? member = some (.ofNat i.toNat)) :
    position op member = .ok i.toNat := by
  have hlt := i.toNat_lt
  have hpow : Nat.pow 2 64 = 2 ^ 64 := rfl
  have hfits : -Nat.pow 2 63 ≤ (i.toNat : Int) ∧ (i.toNat : Int) < Nat.pow 2 64 := by omega
  have hnode : Node.ofNat i.toNat = .number (.int i.toNat hfits) := by
    rw [Node.ofNat, Node.ofInt, Number.ofInt?, dif_pos hfits]
    rfl
  have hmin : min i.toNat (Nat.pow 2 64 - 1) = i.toNat := by omega
  simp [position, h, hnode, hmin]

/-- A position that is no signed word reaches the editor as a negative number. -/
theorem position_of_le (h : op.member? member = some (Op.positionNode i))
    (hi : 2 ^ 63 ≤ i.toNat) : position op member = .error (.badPosition member) := by
  obtain ⟨hmin, hneg⟩ := Op.toInt_lt_of_le hi
  have hfits : -Nat.pow 2 63 ≤ i.toInt64.toInt ∧ i.toInt64.toInt < Nat.pow 2 64 :=
    ⟨hmin, Int.lt_trans hneg (by decide)⟩
  have hnode : Op.positionNode i = .number (.int i.toInt64.toInt hfits) := by
    rw [Op.positionNode, Node.ofInt, Number.ofInt?, dif_pos hfits]
    rfl
  simp only [position, h, hnode]
  rw [if_neg (Int.not_le.2 hneg)]

/-! ## Single edits -/

/-- A tree of the edit: it gives the kind and the place as they are. -/
structure Writes (o : Op) (n : Node) : Prop where
  isObject : n.isObject = true
  name : n.member? "op" = some (.string o.name)
  path : n.member? "path" = some (.string o.path)

theorem writes_toNode (o : Op) : Writes o o.toNode := by
  cases o <;> exact ⟨rfl, rfl, rfl⟩

theorem writes_storedNode (o : Op) : Writes o o.storedNode := by
  cases o <;> exact ⟨rfl, rfl, rfl⟩

/-- The positions of the edit are looked at: a control for arrays governs its place. -/
def Asks (e : Editor) (o : Op) : Prop :=
  Text.isBlankText o.path = false ∧ Path.hasProhibited (Text.split '.' o.path) = false ∧
    ∃ c, Control.governing? e.controls o.path = some c ∧ c.kind = .array

theorem change_of_writes {n : Node} (h : Writes o n) (e : Editor) (t : Node) :
    e.change t n =
      if Text.isBlankText o.path then .error (none, .missingPath)
      else if Path.hasProhibited (Text.split '.' o.path) then .error (some o.path, .prohibited)
      else
        match Control.governing? e.controls o.path with
        | none => .error (some o.path, .notEditable)
        | some c =>
          match e.perform t o.name o.path c n with
          | .ok next => .ok next
          | .error err => .error (some o.path, err) := by
  have hname : (n.member? "op").bind Node.string? = some o.name := by rw [h.name]; rfl
  have hpath : opPath? n = if Text.isBlankText o.path then none else some o.path := by
    rw [opPath?, h.path]
    by_cases hblank : Text.isBlankText o.path = true <;> simp [Node.string?, hblank]
  unfold change
  rw [hname, hpath, h.isObject, if_neg (by decide)]
  by_cases hblank : Text.isBlankText o.path = true
  · rw [if_pos hblank]
    exact (if_pos hblank).symm
  · rw [if_neg hblank]
    exact (if_neg hblank).symm

theorem perform_of_kind_ne {n : Node} {path : String} {c : Control} (hfits : ¬ o.Fits)
    (hk : c.kind ≠ .array) : e.perform t o.name path c n = .error .notArrayControl := by
  have hrequire : requireArray c = .error .notArrayControl := if_neg hk
  cases o with
  | set path value => exact absurd (fun p hp => nomatch hp) hfits
  | insert path index value => exact bind_eq_error_iff.2 (Or.inl hrequire)
  | remove path index => exact bind_eq_error_iff.2 (Or.inl hrequire)
  | move path source target => exact bind_eq_error_iff.2 (Or.inl hrequire)

/-- The names of positions. -/
def positionMembers : List String := ["index", "from", "to"]

theorem perform_of_kind_eq {c : Control} (hfits : ¬ o.Fits) (hk : c.kind = .array) (e : Editor)
    (t : Node) (path : String) :
    ∃ member ∈ positionMembers,
      e.perform t o.name path c o.toNode = .error (.badPosition member) := by
  have hrequire : requireArray c = .ok () := if_pos hk
  cases o with
  | set path value => exact absurd (fun p hp => nomatch hp) hfits
  | insert path index value =>
    have hindex : 2 ^ 63 ≤ index.toNat := by simpa [Op.Fits, Op.positions] using hfits
    have hposition : position (Op.insert path index value).toNode "index" =
        .error (.badPosition "index") := position_of_le rfl hindex
    exact ⟨"index", by decide, bind_eq_error_iff.2 (Or.inr ⟨(), hrequire,
      bind_eq_error_iff.2 (Or.inl hposition)⟩)⟩
  | remove path index =>
    have hindex : 2 ^ 63 ≤ index.toNat := by simpa [Op.Fits, Op.positions] using hfits
    have hposition : position (Op.remove path index).toNode "index" =
        .error (.badPosition "index") := position_of_le rfl hindex
    exact ⟨"index", by decide, bind_eq_error_iff.2 (Or.inr ⟨(), hrequire,
      bind_eq_error_iff.2 (Or.inl hposition)⟩)⟩
  | move path source target =>
    by_cases hsource : source.toNat < 2 ^ 63
    · have htarget : 2 ^ 63 ≤ target.toNat := by
        refine Nat.not_lt.1 fun htarget => hfits ?_
        exact List.forall_mem_cons.2 ⟨hsource, List.forall_mem_singleton.2 htarget⟩
      have hfrom : position (Op.move path source target).toNode "from" = .ok source.toNat :=
        position_of_ofNat (congrArg some (Op.positionNode_of_lt hsource))
      have hto : position (Op.move path source target).toNode "to" =
          .error (.badPosition "to") := position_of_le rfl htarget
      exact ⟨"to", by decide, bind_eq_error_iff.2 (Or.inr ⟨(), hrequire,
        bind_eq_error_iff.2 (Or.inr ⟨_, hfrom, bind_eq_error_iff.2 (Or.inl hto)⟩)⟩)⟩
    · have hfrom : position (Op.move path source target).toNode "from" =
          .error (.badPosition "from") := position_of_le rfl (Nat.le_of_not_lt hsource)
      exact ⟨"from", by decide, bind_eq_error_iff.2 (Or.inr ⟨(), hrequire,
        bind_eq_error_iff.2 (Or.inl hfrom)⟩)⟩

/-- An edit that is not asked for an unsigned position is the same in both forms. -/
theorem change_toNode (h : e.Asks o → o.Fits) (t : Node) :
    e.change t o.toNode = e.change t o.storedNode := by
  by_cases hfits : o.Fits
  · rw [Op.toNode_of_fits hfits]
  · rw [change_of_writes (writes_toNode o), change_of_writes (writes_storedNode o)]
    by_cases hblank : Text.isBlankText o.path = true
    · rw [if_pos hblank, if_pos hblank]
    · by_cases hclean : Path.hasProhibited (Text.split '.' o.path) = true
      · rw [if_pos hclean, if_pos hclean]
      · rcases hc : Control.governing? e.controls o.path with _ | c
        · rfl
        · have hk : c.kind ≠ .array := fun hk =>
            hfits (h ⟨Bool.eq_false_iff.2 hblank, Bool.eq_false_iff.2 hclean, c, hc, hk⟩)
          simp only [perform_of_kind_ne hfits hk]

/-- An edit that is asked for an unsigned position is refused because of it. -/
theorem change_toNode_of_asks (h : e.Asks o) (hfits : ¬ o.Fits) (t : Node) :
    ∃ member ∈ positionMembers,
      e.change t o.toNode = .error (some o.path, .badPosition member) := by
  obtain ⟨hblank, hclean, c, hc, hk⟩ := h
  obtain ⟨member, hmember, hperform⟩ := perform_of_kind_eq hfits hk e t o.path
  refine ⟨member, hmember, ?_⟩
  rw [change_of_writes (writes_toNode o)]
  simp [hblank, hclean, hc, hperform]

/-! ## The stored form -/

/-- What a run of checks gives is no complaint about a position. -/
def SparesPositions {α : Type} (x : Except EditError α) : Prop :=
  ∀ member, x ≠ .error (.badPosition member)

theorem sparesPositions_bind {α β : Type} {x : Except EditError α} {f : α → Except EditError β}
    (hx : SparesPositions x) (hf : ∀ a, SparesPositions (f a)) : SparesPositions (x >>= f) := by
  intro member h
  rcases bind_eq_error_iff.1 h with h | ⟨a, _, h⟩
  · exact hx member h
  · exact hf a member h

theorem sparesPositions_unless {α β : Type} {refused : Prop} [Decidable refused]
    {f : α → Except EditError β} {x : Except EditError β} (herr : ∀ m, err ≠ .badPosition m)
    (hx : SparesPositions x) : SparesPositions (if refused then throw err >>= f else x) := by
  by_cases h : refused
  · rw [if_pos h]
    exact fun m hm => herr m (Except.error.inj hm)
  · rw [if_neg h]
    exact hx

theorem sparesPositions_position {index : Nat} (h : position op member = .ok index) :
    SparesPositions (position op member) := by
  rw [h]
  exact fun _ h => nomatch h

theorem sparesPositions_requireArray (c : Control) : SparesPositions (requireArray c) := by
  intro member h
  unfold requireArray at h
  split at h <;> cases h

theorem sparesPositions_items (t : Node) (path : String) : SparesPositions (items t path) := by
  intro member h
  unfold items at h
  split at h <;> cases h

theorem sparesPositions_newItem (e : Editor) (path : String) (index : Nat) (raw : Node) :
    SparesPositions (e.newItem path index raw) := by
  intro member h
  unfold newItem at h
  split at h
  · split at h <;> cases h
  · cases h

theorem sparesPositions_setValue (e : Editor) (t : Node) (path : String) (c : Control)
    (value : Option Node) : SparesPositions (e.setValue t path c value) := by
  intro member h
  unfold setValue at h
  split at h
  · cases h
  · split at h
    · cases h
    · split at h
      · cases h
      · split at h
        · cases h
        · dsimp only at h
          split at h <;> cases h

theorem ne_of_newItemError? {c : Control} {item : Node} (h : newItemError? c item = some err) :
    err ≠ .badPosition member := by
  rintro rfl
  unfold newItemError? at h
  split at h
  · cases h
  · split at h
    · split at h <;> cases h
    · cases h

theorem sparesPositions_insertItem {path : String} {c : Control} {index : Nat}
    (h : position op "index" = .ok index) : SparesPositions (e.insertItem t path c op) := by
  unfold insertItem
  refine sparesPositions_bind (sparesPositions_requireArray c) fun _ => ?_
  refine sparesPositions_bind (sparesPositions_position h) fun index => ?_
  refine sparesPositions_bind (sparesPositions_items t path) fun xs => ?_
  refine sparesPositions_unless (fun _ h => nomatch h) ?_
  split
  · refine sparesPositions_bind (sparesPositions_newItem e path index _) fun item => ?_
    split
    · rename_i hitem
      exact fun m hm => ne_of_newItemError? hitem (Except.error.inj hm)
    · exact fun _ h => nomatch h
  · exact fun _ h => nomatch h

theorem sparesPositions_removeItem {path : String} {c : Control} {index : Nat}
    (h : position op "index" = .ok index) : SparesPositions (removeItem t path c op) := by
  unfold removeItem
  refine sparesPositions_bind (sparesPositions_requireArray c) fun _ => ?_
  refine sparesPositions_bind (sparesPositions_position h) fun index => ?_
  refine sparesPositions_bind (sparesPositions_items t path) fun xs => ?_
  exact sparesPositions_unless (fun _ h => nomatch h) fun _ h => nomatch h

theorem sparesPositions_moveItem {path : String} {c : Control} {source target : Nat}
    (hfrom : position op "from" = .ok source) (hto : position op "to" = .ok target) :
    SparesPositions (moveItem t path c op) := by
  unfold moveItem
  refine sparesPositions_bind (sparesPositions_requireArray c) fun _ => ?_
  refine sparesPositions_bind (sparesPositions_position hfrom) fun source => ?_
  refine sparesPositions_bind (sparesPositions_position hto) fun target => ?_
  refine sparesPositions_bind (sparesPositions_items t path) fun xs => ?_
  refine sparesPositions_unless (fun _ h => nomatch h) ?_
  exact sparesPositions_unless (fun _ h => nomatch h) fun _ h => nomatch h

theorem sparesPositions_perform (e : Editor) (t : Node) (path : String) (c : Control) (o : Op) :
    SparesPositions (e.perform t o.name path c o.storedNode) := by
  cases o with
  | set own value =>
    exact sparesPositions_setValue e t path c ((Op.set own value).storedNode.member? "value")
  | insert _ index value => exact sparesPositions_insertItem (position_of_ofNat rfl)
  | remove _ index => exact sparesPositions_removeItem (position_of_ofNat rfl)
  | move _ source target =>
    exact sparesPositions_moveItem (position_of_ofNat rfl) (position_of_ofNat rfl)

/-- No edit in its stored form is refused because of a position. -/
theorem ne_of_change_storedNode {place : Option String}
    (h : e.change t o.storedNode = .error (place, err)) : err ≠ .badPosition member := by
  rintro rfl
  rw [change_of_writes (writes_storedNode o)] at h
  split at h
  · cases h
  · split at h
    · cases h
    · split at h
      · cases h
      · split at h
        · cases h
        · rename_i c _ _ err hperform
          obtain ⟨_, rfl⟩ := Prod.mk.inj (Except.error.inj h)
          exact sparesPositions_perform e t o.path c o member hperform

/-! ## Batches -/

theorem step_congr {index : Nat} {n m : Node} (h : e.change t n = e.change t m) :
    e.step index t n = e.step index t m := by
  rw [step, step, h]

/-- A run that never asks for an unsigned position goes the same way in both forms. -/
theorem run_toNode {ops : List Op} {index : Nat}
    (h : ∀ before o after u, ops = before ++ o :: after →
      e.run index t (before.map Op.toNode) = .ok u → e.Asks o → o.Fits) :
    e.run index t (ops.map Op.toNode) = e.run index t (ops.map Op.storedNode) := by
  induction ops generalizing index t with
  | nil => rw [List.map_nil, List.map_nil]
  | cons o ops ih =>
    have hstep : e.step index t o.toNode = e.step index t o.storedNode :=
      step_congr (change_toNode (h [] o ops t rfl rfl) t)
    rw [List.map_cons, List.map_cons, run, run, hstep]
    rcases hnext : e.step index t o.storedNode with rejections | next
    · rfl
    · refine ih fun before b after u hops hrun => ?_
      refine h (o :: before) b after u (by rw [hops]; rfl) ?_
      exact run_cons_eq_ok_iff.2 ⟨next, hstep.trans hnext, hrun⟩

/-- A run that asks for an unsigned position ends there. -/
theorem run_toNode_of_asks (hasks : e.Asks o) (hfits : ¬ o.Fits) {before : List Op}
    {index : Nat} (h : e.run index t (before.map Op.toNode) = .ok u) (after : List Op) :
    ∃ member ∈ positionMembers, e.run index t ((before ++ o :: after).map Op.toNode) =
      .error [⟨index + before.length, some o.path, .badPosition member⟩] := by
  induction before generalizing index t with
  | nil =>
    obtain ⟨member, hmember, hchange⟩ := change_toNode_of_asks hasks hfits t
    refine ⟨member, hmember, ?_⟩
    rw [List.nil_append, List.map_cons, run, step, hchange]
    rfl
  | cons b before ih =>
    obtain ⟨next, hstep, hrest⟩ := run_cons_eq_ok_iff.1 h
    obtain ⟨member, hmember, hrun⟩ := ih hrest
    refine ⟨member, hmember, ?_⟩
    rw [List.cons_append, List.map_cons, run, hstep]
    rw [List.length_cons, Nat.add_comm before.length, ← Nat.add_assoc]
    exact hrun

theorem ne_of_run_storedNode {ops : List Op} {index : Nat} {rejections : List Rejection}
    (h : e.run index t (ops.map Op.storedNode) = .error rejections) :
    ∀ r ∈ rejections, r.error ≠ .badPosition member := by
  induction ops generalizing index t with
  | nil => cases h
  | cons o ops ih =>
    rw [List.map_cons, run] at h
    rcases hstep : e.step index t o.storedNode with errors | next
    · rw [hstep] at h
      obtain rfl := Except.error.inj h
      unfold step at hstep
      split at hstep
      · rename_i err hchange
        obtain rfl := Except.error.inj hstep
        intro r hr
        obtain rfl := List.mem_singleton.1 hr
        exact ne_of_change_storedNode hchange
      · split at hstep
        · cases hstep
        · cases hstep
        · obtain rfl := Except.error.inj hstep
          intro r hr
          obtain ⟨v, _, rfl⟩ := List.mem_map.1 hr
          intro heq
          cases heq
    · rw [hstep] at h
      exact ih h

theorem ne_of_apply_storedNode {data : Node} {ops : List Op} {rejections : List Rejection}
    (h : e.apply data (ops.map Op.storedNode) = .error rejections) :
    ∀ r ∈ rejections, r.error ≠ .badPosition member := by
  unfold apply at h
  split at h
  · obtain rfl := Except.error.inj h
    intro r hr
    obtain rfl := List.mem_singleton.1 hr
    intro heq
    cases heq
  · split at h
    · rename_i hrun
      obtain rfl := Except.error.inj h
      exact ne_of_run_storedNode hrun
    · split at h
      · cases h
      · cases h
      · obtain rfl := Except.error.inj h
        intro r hr
        obtain ⟨v, _, rfl⟩ := List.mem_map.1 hr
        intro heq
        cases heq

theorem charge_toNode (ops : List Op) (vs : List Violation) :
    charge (ops.map Op.toNode) vs = charge (ops.map Op.storedNode) vs := by
  have hpaths : ((ops.map Op.toNode).map fun n =>
        ((n.member? "path").bind Node.string?).map chargeSegments) =
      (ops.map Op.storedNode).map fun n =>
        ((n.member? "path").bind Node.string?).map chargeSegments := by
    rw [List.map_map, List.map_map]
    refine List.map_congr_left fun o _ => ?_
    simp only [Function.comp_apply, (writes_toNode o).path, (writes_storedNode o).path]
  simp only [charge, hpaths]

end Editor

/-! ## Messages -/

/-- The text starts with a capital letter. -/
def IsCapitalized (s : String) : Prop := s.toList.head?.any Char.isUpper = true

instance : DecidablePred IsCapitalized := fun s =>
  inferInstanceAs (Decidable (s.toList.head?.any Char.isUpper = true))

theorem isCapitalized_append {a : String} (h : IsCapitalized a) (b : String) :
    IsCapitalized (a ++ b) := by
  unfold IsCapitalized at h ⊢
  rw [String.toList_append]
  cases ha : a.toList with
  | nil => simp [ha] at h
  | cons x xs => simpa [ha] using h

theorem Fault.isCapitalized_message (f : Fault) : IsCapitalized f.message := by
  cases f with
  | duplicateId _ _ =>
    exact isCapitalized_append (isCapitalized_append (isCapitalized_append
      (isCapitalized_append (by decide +kernel) _) _) _) _
  | itemNotObject _ => exact isCapitalized_append (isCapitalized_append (by decide +kernel) _) _
  | itemWithoutId _ => exact isCapitalized_append (isCapitalized_append (by decide +kernel) _) _
  | unresolvedObject _ =>
    exact isCapitalized_append (isCapitalized_append (by decide +kernel) _) _
  | unknownFamily _ => exact isCapitalized_append (isCapitalized_append (by decide +kernel) _) _
  | belowMin _ => exact isCapitalized_append (by decide +kernel) _
  | aboveMax _ => exact isCapitalized_append (by decide +kernel) _
  | notAllowed _ => exact isCapitalized_append (by decide +kernel) _
  | _ => decide +kernel

theorem CoercionError.isCapitalized_message (err : CoercionError) :
    IsCapitalized err.message := by
  cases err with
  | notAllowed _ => exact isCapitalized_append (by decide +kernel) _
  | emptyJson _ => exact isCapitalized_append (by decide +kernel) _
  | invalidJson _ => exact isCapitalized_append (by decide +kernel) _
  | otherJson _ => exact isCapitalized_append (by decide +kernel) _
  | _ => decide +kernel

namespace EditError

/-- Only messages about positions start with a small letter. -/
theorem isCapitalized_message {err : EditError} (hposition : ∀ m, err ≠ .badPosition m)
    (hrange : ∀ n, err ≠ .outOfRange n) : IsCapitalized err.message := by
  cases err with
  | badPosition m => exact absurd rfl (hposition m)
  | outOfRange n => exact absurd rfl (hrange n)
  | coercion err => exact err.isCapitalized_message
  | invalid fault => exact fault.isCapitalized_message
  | unknownOp _ => exact isCapitalized_append (isCapitalized_append (by decide +kernel) _) _
  | itemNotObject _ => exact isCapitalized_append (isCapitalized_append (by decide +kernel) _) _
  | itemWithoutId _ => exact isCapitalized_append (isCapitalized_append (by decide +kernel) _) _
  | moveOutOfRange _ => exact isCapitalized_append (isCapitalized_append (by decide +kernel) _) _
  | _ => decide +kernel

/-- The message about a position that is no number is given for no other reason. -/
theorem message_ne_badPosition {err : EditError} (h : ∀ m, err ≠ .badPosition m)
    {member : String} (hmember : member ∈ Editor.positionMembers) :
    err.message ≠ (badPosition member).message := by
  intro heq
  simp only [Editor.positionMembers, List.mem_cons, List.not_mem_nil, or_false] at hmember
  by_cases hrange : ∃ n, err = .outOfRange n
  · obtain ⟨n, rfl⟩ := hrange
    have hletter : ((outOfRange n).message.toList)[6]? = some 'o' := by
      have hmessage : (outOfRange n).message =
          "index out of range (0.." ++ toString n ++ ")" := rfl
      rw [hmessage, String.toList_append, String.toList_append]
      rfl
    rw [heq] at hletter
    rcases hmember with rfl | rfl | rfl <;> exact absurd hletter (by decide +kernel)
  · have hcapital := isCapitalized_message h fun n hn => hrange ⟨n, hn⟩
    rw [heq] at hcapital
    rcases hmember with rfl | rfl | rfl <;> exact absurd hcapital (by decide +kernel)

end EditError

theorem Rejection.message_of_toNode {r s : Rejection} (h : r.toNode = s.toNode) :
    r.message = s.message := by
  have hlast := congrArg (fun n => n.object?.bind List.getLast?) h
  simp only [toNode, Node.object?, Option.bind_some, List.getLast?_concat] at hlast
  simpa using hlast

/-- An outcome with another message at its only error is another outcome. -/
theorem Outcome.ne_of_message_ne {r : Rejection} {outcome : Outcome}
    (h : ∀ rejections, outcome = .error rejections → ∀ s ∈ rejections, s.message ≠ r.message) :
    outcome.toNode ≠ Outcome.toNode (.error [r]) := by
  intro heq
  rcases outcome with rejections | data
  · have hlist : rejections.map Rejection.toNode = [r.toNode] := by
      simpa [toNode] using heq
    obtain ⟨s, hs, hnode⟩ := List.mem_map.1 (hlist ▸ List.mem_singleton.2 rfl)
    exact h rejections rfl s hs (Rejection.message_of_toNode hnode)
  · simp [toNode] at heq

/-! ## The two forms of a batch -/

namespace Editor

/-- A batch of typed edits and the batch of their stored forms give the same answer exactly if
no edit that is reached is asked for a position of `2^63` or more. -/
theorem a_typed_batch_is_its_stored_form_unless_asked_for_an_unsigned_position (e : Editor)
    (data : Node) (ops : List Op) :
    (e.applyOps data ops).toNode = (e.apply data (ops.map Op.storedNode)).toNode ↔
      ∀ before o after t, ops = before ++ o :: after →
        e.run 0 data (before.map Op.toNode) = .ok t → e.Asks o → o.Fits := by
  constructor
  · intro heq before o after t hops hrun hasks
    by_contra hfits
    obtain ⟨member, hmember, hend⟩ := run_toNode_of_asks hasks hfits hrun after
    have htyped : e.applyOps data ops =
        .error [⟨0 + before.length, some o.path, .badPosition member⟩] := by
      have hne : ¬ (ops.map Op.toNode).isEmpty = true := by simp [hops]
      rw [applyOps, apply, if_neg hne, hops, hend]
    refine Outcome.ne_of_message_ne (fun rejections hstored r hr => ?_) (htyped ▸ heq.symm)
    exact EditError.message_ne_badPosition (fun m => ne_of_apply_storedNode hstored r hr) hmember
  · intro h
    have hempty : (ops.map Op.toNode).isEmpty = (ops.map Op.storedNode).isEmpty := by simp
    rw [applyOps, apply, apply, hempty, run_toNode h]
    simp only [charge_toNode]

/-- A list of questions. -/
def questionList : Editor :=
  { controls := [{ panelId := "content", type := "repeater", path := "faqs", kind := .array }] }

def noQuestions : Node := .object [("faqs", .array [])]

/-- The question at a position far behind the last one is to be taken out. -/
def farRemoval : Op := .remove "faqs" 9223372036854775808

theorem a_typed_batch_is_not_always_its_stored_form :
    (questionList.applyOps noQuestions [farRemoval]).toNode =
        Outcome.toNode (.error [⟨0, some "faqs", .badPosition "index"⟩]) ∧
      (questionList.apply noQuestions [farRemoval.storedNode]).toNode =
        Outcome.toNode (.error [⟨0, some "faqs", .outOfRange 0⟩]) ∧
      ¬ ∀ (e : Editor) (data : Node) (ops : List Op),
        (e.applyOps data ops).toNode = (e.apply data (ops.map Op.storedNode)).toNode := by
  have htyped : questionList.applyOps noQuestions [farRemoval] =
      .error [⟨0, some "faqs", .badPosition "index"⟩] := rfl
  have hstored : questionList.apply noQuestions [farRemoval.storedNode] =
      .error [⟨0, some "faqs", .outOfRange 0⟩] := rfl
  refine ⟨congrArg _ htyped, congrArg _ hstored, fun h => ?_⟩
  have heq := h questionList noQuestions [farRemoval]
  rw [List.map_singleton, htyped, hstored] at heq
  refine Outcome.ne_of_message_ne (fun rejections hrej r hr => ?_) heq.symm
  obtain rfl := Except.error.inj hrej
  obtain rfl := List.mem_singleton.1 hr
  exact EditError.message_ne_badPosition (by rintro _ ⟨⟩) (by decide)

end Editor

end WidgetSchema
