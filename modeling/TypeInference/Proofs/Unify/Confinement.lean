/-
# Where unification binds

The variables that are left in two types once they are applied are all that a
unification of the two can bind, and the types that it binds them to have no
others.  So growth by unification keeps to a set of variables that is known
beforehand, although later pairs are met under bindings made for earlier ones.

A type in which no variable of the set is left is not touched by such growth.
-/

import TypeInference.Proofs.Unify.Bound

namespace TypeInference

namespace Subst

/-- Growth in which every new binding is of a variable of a set, to a type whose
variables belong to the set. -/
structure GrowsWithin (vars : Set VarId) (s t : Subst) : Prop where
  grows : s.Grows t
  added : ∀ v ty, s.lookup v = none → t.lookup v = some ty →
    v ∈ vars ∧ ∀ w, ty.occurs w = true → w ∈ vars

/-- Growth that is not idle binds a variable that was unbound. -/
theorem Grows.eq_or_exists_bound {s t : Subst} (h : s.Grows t) :
    t = s ∨ ∃ v ty, s.lookup v = none ∧ t.lookup v = some ty := by
  cases h with
  | refl => exact .inl rfl
  | @extend t v ty grown admitted =>
      refine .inr ⟨v, ty, ?_, lookup_extend_self t v ty⟩
      cases hv : s.lookup v with
      | none => rfl
      | some bound => exact absurd (grown.lookup_eq_some hv) (by simp [admitted.unbound])

namespace GrowsWithin

variable {vars : Set VarId} {s t u : Subst}

theorem refl (vars : Set VarId) (s : Subst) : GrowsWithin vars s s where
  grows := .refl
  added v ty hnone hsome := by
    rw [hnone] at hsome
    cases hsome

theorem single {v : VarId} {ty : Ty} (admitted : s.Admits v ty) (hv : v ∈ vars)
    (hty : ∀ w, ty.occurs w = true → w ∈ vars) : GrowsWithin vars s (s.extend v ty) where
  grows := .single admitted
  added w bound hnone hsome := by
    by_cases hw : w = v
    · subst hw
      rw [lookup_extend_self] at hsome
      cases hsome
      exact ⟨hv, hty⟩
    · rw [lookup_extend_of_ne s hw, hnone] at hsome
      cases hsome

theorem trans (h : GrowsWithin vars s t) (h' : GrowsWithin vars t u) : GrowsWithin vars s u where
  grows := h.grows.trans h'.grows
  added v ty hnone hsome := by
    cases hmiddle : t.lookup v with
    | none => exact h'.added v ty hmiddle hsome
    | some bound =>
        cases (h'.grows.lookup_eq_some hmiddle).symm.trans hsome
        exact h.added v ty hnone hmiddle

/-- Variables outside the set stay unbound. -/
theorem lookup_eq_none (h : GrowsWithin vars s t) {v : VarId} (hv : s.lookup v = none)
    (hout : v ∉ vars) : t.lookup v = none := by
  cases hsome : t.lookup v with
  | none => rfl
  | some ty => exact absurd (h.added v ty hv hsome).1 hout

/-- A type in which no variable of the set is left stands for what it stood for. -/
theorem instantiate_image_eq (h : GrowsWithin vars s t) (hs : s.Acyclic) {ty : Ty}
    (hout : ∀ v, (ty.instantiate s.image).occurs v = true → v ∉ vars) :
    ty.instantiate t.image = ty.instantiate s.image := by
  have hself : (ty.instantiate s.image).instantiate t.image =
      (ty.instantiate s.image).instantiate .var := by
    apply Ty.instantiate_congr
    intro v hv
    exact image_of_lookup_eq_none
      (h.lookup_eq_none (hs.lookup_eq_none_of_occurs hv) (hout v hv))
  rw [← h.grows.instantiate_image hs ty, hself, Ty.instantiate_var_self]

end GrowsWithin

end Subst

namespace Unify

open Relation

variable {vars : Set VarId} {c d : Progress × List (Ty × Ty)}

/-- A move keeps to the variables of the pairs that wait. -/
theorem Move.growsWithin (hmove : Move c d) (hs : c.1.subst.Acyclic)
    (hvars : ∀ pair ∈ c.2, ∀ v, OccursIn c.1.subst v pair → v ∈ vars) :
    Subst.GrowsWithin vars c.1.subst d.1.subst := by
  obtain ⟨hstep, rest⟩ := hmove
  rename_i p p' a b work
  obtain ⟨x, y, hx, hy, hrule⟩ := hstep.exists_heads hs
  have hheads : ∀ v, OccursIn p.subst v (x, y) → v ∈ vars := fun v hv =>
    hvars (a, b) List.mem_cons_self v ((occursIn_heads hx hy v).mp hv)
  show Subst.GrowsWithin vars p.subst p'.subst
  rcases hrule.binding with hsame | ⟨v, ty, hextend, admitted, hv, _, hparts⟩
  · rw [hsame]
    exact .refl vars p.subst
  · rw [hextend]
    exact .single admitted (hheads v hv) fun w hw => hheads w (hparts w hw)

/-- So does a whole unification, since no other variables come into sight. -/
theorem Moves.growsWithin (hmoves : Moves c d) (hs : c.1.subst.Acyclic)
    (hvars : ∀ pair ∈ c.2, ∀ v, OccursIn c.1.subst v pair → v ∈ vars) :
    Subst.GrowsWithin vars c.1.subst d.1.subst := by
  induction hmoves with
  | refl => exact .refl vars c.1.subst
  | tail hmoves hmove ih =>
      refine ih.trans (hmove.growsWithin (ih.grows.acyclic hs) ?_)
      intro pair hpair v hv
      obtain ⟨source, hsource, hv⟩ := Moves.exists_occursIn hmoves hs hpair hv
      exact hvars source hsource v hv

end Unify

end TypeInference
