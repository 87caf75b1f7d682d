/-
# Well-formed substitutions and how they grow

Every binding that a session makes is of one kind: an unbound variable is bound
to a type that has no literal wrappers, does not hold the variable, and was
applied beforehand, so that all its variables are unbound.  `Admits` names these
conditions and `Grows` is any number of such bindings.

Everything else follows from growth alone.  A substitution that grew from a
well-formed one is well formed, keeps all older bindings, goes back to where it
started when the new bindings are undone, and applies in one round what would
otherwise take two.
-/

import TypeInference.Proofs.Subst.Acyclic

namespace TypeInference.Subst

open Relation

/-- The state of a substitution between two operations. -/
structure WellFormed (s : Subst) : Prop where
  /-- Following bindings through every depth of the bound types comes to an end. -/
  acyclic : s.Acyclic
  /-- No bound type holds a literal wrapper. -/
  constFree : ∀ v ty, s.lookup v = some ty → ty.hasConst = false
  /-- The trail lists no variable twice. -/
  nodup_trail : s.trail.Nodup
  /-- The trail lists exactly the bound variables. -/
  mem_trail : ∀ v, v ∈ s.trail ↔ s.isBound v = true

/-- A variable may be bound to a type. -/
structure Admits (s : Subst) (v : VarId) (ty : Ty) : Prop where
  unbound : s.lookup v = none
  constFree : ty.hasConst = false
  parts : ∀ w, ty.occurs w = true → w ≠ v ∧ s.lookup w = none

/-- The second substitution was made from the first by admitted bindings. -/
inductive Grows (s : Subst) : Subst → Prop
  | refl : Grows s s
  | extend {t : Subst} {v : VarId} {ty : Ty} (grown : Grows s t) (admitted : t.Admits v ty) :
      Grows s (t.extend v ty)

theorem wellFormed_empty : empty.WellFormed where
  acyclic v hcycle := by
    obtain ⟨w, ⟨ty, hlookup, _⟩, _⟩ := TransGen.head'_iff.mp hcycle
    rw [lookup_empty] at hlookup
    cases hlookup
  constFree v ty h := by
    rw [lookup_empty] at h
    cases h
  nodup_trail := List.nodup_nil
  mem_trail v := by simp [empty, isBound, lookup]

section Extend

variable {s : Subst} {v : VarId} {ty : Ty}

/-- An older binding is still there. -/
theorem Admits.lookup_extend (h : s.Admits v ty) {w : VarId} {bound : Ty}
    (hw : s.lookup w = some bound) : (s.extend v ty).lookup w = some bound := by
  have hne : w ≠ v := fun heq => by
    rw [heq, h.unbound] at hw
    cases hw
  rw [lookup_extend_of_ne s hne, hw]

/-- The parts of a newly bound type stay unbound. -/
theorem Admits.lookup_part (h : s.Admits v ty) {w : VarId} (hw : ty.occurs w = true) :
    (s.extend v ty).lookup w = none := by
  obtain ⟨hne, hunbound⟩ := h.parts w hw
  rw [lookup_extend_of_ne s hne, hunbound]

/-- A new reference leads from the new variable to an unbound one. -/
theorem refers_extend {u w : VarId} (h : (s.extend v ty).Refers u w) :
    s.Refers u w ∨ u = v ∧ ty.occurs w = true := by
  obtain ⟨bound, hlookup, hw⟩ := h
  by_cases hu : u = v
  · subst hu
    rw [lookup_extend_self] at hlookup
    cases hlookup
    exact .inr ⟨rfl, hw⟩
  · rw [lookup_extend_of_ne s hu] at hlookup
    exact .inl ⟨bound, hlookup, hw⟩

/-- A path of references after a binding is an old one, or it has come to an
unbound variable. -/
theorem Admits.transGen_extend (h : s.Admits v ty) {u w : VarId}
    (hpath : TransGen (s.extend v ty).Refers u w) :
    TransGen s.Refers u w ∨ (s.extend v ty).lookup w = none := by
  induction hpath with
  | single hstep =>
      rcases refers_extend hstep with hold | ⟨_, hw⟩
      · exact .inl (.single hold)
      · exact .inr (h.lookup_part hw)
  | tail _ hstep ih =>
      rcases refers_extend hstep with hold | ⟨_, hw⟩
      · rcases ih with ih | ih
        · exact .inl (ih.tail hold)
        · obtain ⟨bound, hlookup, _⟩ := hstep
          rw [ih] at hlookup
          cases hlookup
      · exact .inr (h.lookup_part hw)

theorem Admits.acyclic_extend (h : s.Admits v ty) (hs : s.Acyclic) :
    (s.extend v ty).Acyclic := by
  intro u hcycle
  rcases h.transGen_extend hcycle with hold | hnone
  · exact hs u hold
  · obtain ⟨w, ⟨bound, hlookup, _⟩, _⟩ := TransGen.head'_iff.mp hcycle
    rw [hnone] at hlookup
    cases hlookup

/-- The trail lists exactly the bound variables, and none of them twice. -/
def TrailExact (s : Subst) : Prop := s.trail.Nodup ∧ ∀ v, v ∈ s.trail ↔ s.isBound v = true

theorem TrailExact.extend (h : s.TrailExact) (hv : s.lookup v = none) (ty : Ty) :
    (s.extend v ty).TrailExact := by
  obtain ⟨hnodup, hmem⟩ := h
  constructor
  · refine List.nodup_cons.mpr ⟨fun hmember => ?_, hnodup⟩
    rw [hmem, isBound, hv] at hmember
    cases hmember
  · intro w
    rw [trail_extend, List.mem_cons, hmem]
    by_cases hw : w = v
    · subst hw
      simp [isBound]
    · simp [isBound, lookup_extend_of_ne s hw, hw]

/-- An admitted binding keeps a substitution well formed. -/
theorem Admits.wellFormed_extend (h : s.Admits v ty) (hs : s.WellFormed) :
    (s.extend v ty).WellFormed where
  acyclic := h.acyclic_extend hs.acyclic
  constFree w bound hlookup := by
    by_cases hw : w = v
    · subst hw
      rw [lookup_extend_self] at hlookup
      cases hlookup
      exact h.constFree
    · rw [lookup_extend_of_ne s hw] at hlookup
      exact hs.constFree w bound hlookup
  nodup_trail := (TrailExact.extend ⟨hs.nodup_trail, hs.mem_trail⟩ h.unbound ty).1
  mem_trail := (TrailExact.extend ⟨hs.nodup_trail, hs.mem_trail⟩ h.unbound ty).2

/-- A new binding replaces its variable in whatever stood for something before. -/
theorem Admits.instantiate_image_extend (h : s.Admits v ty) (hs : s.Acyclic) (source : Ty) :
    source.instantiate (s.extend v ty).image =
      (source.instantiate s.image).instantiate (Function.update .var v ty) := by
  have ht := h.acyclic_extend hs
  have hsatisfies : Satisfies (s.extend v ty).image s := fun w bound hw =>
    ht.image_of_lookup_eq_some (h.lookup_extend hw)
  rw [← hsatisfies.instantiate_image hs source]
  apply Ty.instantiate_congr
  intro w hw
  by_cases hwv : w = v
  · subst hwv
    -- The variables of `ty` are unbound, so `ty` stands for itself.
    have hself : ty.instantiate (s.extend w ty).image = ty.instantiate .var :=
      Ty.instantiate_congr fun u hu => image_of_lookup_eq_none (h.lookup_part hu)
    rw [ht.image_of_lookup_eq_some (lookup_extend_self s w ty), hself, Ty.instantiate_var_self,
      Function.update_self]
  · rw [Function.update_of_ne hwv, image_of_lookup_eq_none]
    rw [lookup_extend_of_ne s hwv]
    exact hs.lookup_eq_none_of_occurs hw

end Extend

theorem rollback_snapshot_self (s : Subst) : s.rollback s.snapshot = s := by
  obtain ⟨bindings, trail⟩ := s
  cases trail with
  | nil => rfl
  | cons v older => simp [rollback, undo, snapshot]

/-- The newest binding is undone before older ones. -/
theorem rollback_extend {s : Subst} {v : VarId} (h : s.lookup v = none) (ty : Ty)
    {point : Snapshot} (hpoint : point ≤ s.snapshot) :
    (s.extend v ty).rollback point = s.rollback point := by
  have hlonger : point < s.trail.length + 1 := Nat.lt_succ_of_le hpoint
  rw [rollback, trail_extend, undo, if_pos hlonger, extend,
    KeyMap.erase_insert_of_find?_eq_none h, rollback]

namespace Grows

variable {s t u : Subst}

theorem trans (h : s.Grows t) (h' : t.Grows u) : s.Grows u := by
  induction h' with
  | refl => exact h
  | extend _ admitted ih => exact .extend ih admitted

theorem single {v : VarId} {ty : Ty} (h : s.Admits v ty) : s.Grows (s.extend v ty) :=
  .extend .refl h

theorem acyclic (h : s.Grows t) (hs : s.Acyclic) : t.Acyclic := by
  induction h with
  | refl => exact hs
  | extend _ admitted ih => exact admitted.acyclic_extend ih

theorem wellFormed (h : s.Grows t) (hs : s.WellFormed) : t.WellFormed := by
  induction h with
  | refl => exact hs
  | extend _ admitted ih => exact admitted.wellFormed_extend ih

/-- Growth changes and removes no binding. -/
theorem lookup_eq_some (h : s.Grows t) {v : VarId} {ty : Ty} (hv : s.lookup v = some ty) :
    t.lookup v = some ty := by
  induction h with
  | refl => exact hv
  | extend _ admitted ih => exact admitted.lookup_extend ih

theorem snapshot_le (h : s.Grows t) : s.snapshot ≤ t.snapshot := by
  induction h with
  | refl => exact le_rfl
  | extend _ _ ih => exact Nat.le_succ_of_le ih

/-- Undoing what was added gives back the same bindings and the same trail. -/
theorem rollback_snapshot (h : s.Grows t) : t.rollback s.snapshot = s := by
  induction h with
  | refl => exact rollback_snapshot_self s
  | extend grown admitted ih =>
      rw [rollback_extend admitted.unbound _ grown.snapshot_le, ih]

theorem satisfies_image (h : s.Grows t) (hs : s.Acyclic) : Satisfies t.image s :=
  fun _ _ hv => (h.acyclic hs).image_of_lookup_eq_some (h.lookup_eq_some hv)

/-- Applying before and after growth is applying after growth. -/
theorem instantiate_image (h : s.Grows t) (hs : s.Acyclic) (ty : Ty) :
    (ty.instantiate s.image).instantiate t.image = ty.instantiate t.image :=
  (h.satisfies_image hs).instantiate_image hs ty

/-- What is closed is not reached by later bindings. -/
theorem instantiate_image_of_isClosed (h : s.Grows t) (hs : s.Acyclic) {ty : Ty}
    (hclosed : (ty.instantiate s.image).isClosed = true) :
    ty.instantiate t.image = ty.instantiate s.image :=
  (h.instantiate_image hs ty).symm.trans (Ty.instantiate_of_isClosed hclosed _)

/-- Types that stand for the same go on doing so. -/
theorem image_congr (h : s.Grows t) (hs : s.Acyclic) {first second : Ty}
    (heq : first.instantiate s.image = second.instantiate s.image) :
    first.instantiate t.image = second.instantiate t.image := by
  rw [← h.instantiate_image hs first, heq, h.instantiate_image hs]

end Grows

/-- A type applied, then erased. -/
def stored (s : Subst) (ty : Ty) : Ty := (ty.instantiate s.image).erase

section Stored

variable {s t : Subst}

@[simp] theorem stored_func (params : List Ty) (result : Ty) :
    s.stored (.func params result) = .func (params.map s.stored) (s.stored result) := by
  simp [stored, Function.comp_def]

@[simp] theorem stored_const (base : Ty) (value : Literal) :
    s.stored (.const base value) = s.stored base := by
  simp [stored]

/-- Growth puts types for variables that are left. -/
theorem Grows.stored_eq (h : s.Grows t) (hs : s.Acyclic) (ty : Ty) :
    t.stored ty = (s.stored ty).instantiate fun v => (t.image v).erase := by
  rw [stored, ← h.instantiate_image hs ty, Ty.erase_instantiate]
  rfl

/-- Binding a type in its stored form loses nothing of it. -/
theorem Grows.stored_stored (h : s.Grows t) (hs : s.Acyclic) (ty : Ty) :
    t.stored (s.stored ty) = t.stored ty := by
  rw [h.stored_eq hs ty, stored, Ty.erase_instantiate, stored, Ty.erase_erase]

/-- A variable is stored as what it was bound to. -/
theorem Grows.stored_var (h : s.Grows t) (hs : s.Acyclic) {v : VarId} {ty : Ty}
    (hv : t.lookup v = some (s.stored ty)) : t.stored (.var v) = t.stored ty := by
  have himage : t.image v = (s.stored ty).instantiate t.image :=
    (h.acyclic hs).image_of_lookup_eq_some hv
  calc t.stored (.var v) = (t.image v).erase := by rw [stored, Ty.instantiate_var]
    _ = t.stored (s.stored ty) := congrArg Ty.erase himage
    _ = t.stored ty := h.stored_stored hs ty

theorem IsHead.stored_eq {ty head : Ty} (h : s.IsHead ty head) :
    s.stored head = s.stored ty := by
  rw [stored, h.image_eq, stored]

end Stored

end TypeInference.Subst
