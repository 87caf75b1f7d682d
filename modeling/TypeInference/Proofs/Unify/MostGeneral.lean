/-
# Unification is most general

A solution puts a type for every variable, so that each binding and each pair
left to unify becomes an equation.  On types without wildcards no rule loses a
solution, and a clash has none; a unification that ends well has therefore
bound variables only as every solution does, and one that fails had nothing to
find.

Nothing is asked of the types that a solution puts for variables, except that
they have no literal wrappers: they may have wildcards.
-/

import Mathlib.Data.List.Forall2
import TypeInference.Proofs.Unify.Bound
import TypeInference.Proofs.Unify.Wildcard

namespace TypeInference

/-- A map of variables to types that agrees with every binding and makes every
pair equal up to literal wrappers. -/
structure Unify.Solves (solution : VarId → Ty) (s : Subst) (work : List (Ty × Ty)) : Prop where
  constFree : ∀ v, (solution v).hasConst = false
  satisfies : Subst.Satisfies solution s
  equal : ∀ pair ∈ work, (pair.1.instantiate solution).erase = (pair.2.instantiate solution).erase

namespace Ty

/-- What is put for a variable is lower than a larger type that holds the variable. -/
theorem eq_var_or_height_lt_of_occurs (solution : VarId → Ty) {v : VarId} {ty : Ty}
    (h : ty.occurs v = true) :
    ty = .var v ∨ (solution v).height < (ty.instantiate solution).height := by
  have hpart : ∀ part : Ty,
      part = .var v ∨ (solution v).height < (part.instantiate solution).height →
      (solution v).height ≤ (part.instantiate solution).height := by
    rintro part (rfl | hlt)
    · rw [instantiate_var]
    · exact hlt.le
  induction ty with
  | var w => exact .inl (congrArg var (occurs_var.mp h))
  | func params result ihParams ihResult =>
      rw [instantiate_func]
      rcases occurs_func.mp h with ⟨param, hparam, hv⟩ | hv
      · have hmem := List.mem_map_of_mem (f := Ty.instantiate solution) hparam
        exact .inr ((hpart param (ihParams param hparam hv)).trans_lt (height_param_lt hmem _))
      · exact .inr ((hpart result (ihResult hv)).trans_lt (height_result_lt _ _))
  | const base value ih =>
      rw [instantiate_const, height]
      exact .inr (Nat.lt_succ_of_le (hpart base (ih h)))
  | _ => cases h

/-- A proper type that is not a variable keeps its outermost constructor. -/
theorem tag_erase_instantiate {ty : Ty} (hproper : ty.isProper = true)
    (hvar : ty.isVar = false) (image : VarId → Ty) :
    (ty.instantiate image).erase.tag = ty.tag := by
  cases ty with
  | var v => cases hvar
  | func params result => rw [instantiate_func, erase_func, tag, tag]
  | any | error | const => cases hproper
  | _ => rfl

theorem tag_ne_var {ty : Ty} (hvar : ty.isVar = false) : ty.tag ≠ .var := by
  cases ty with
  | var v => cases hvar
  | _ => exact fun htag => by cases htag

end Ty

namespace Unify

variable {solution : VarId → Ty}

section Heads

variable {p p' : Progress} {x y : Ty} {work rest : List (Ty × Ty)}

/-- A solution does not notice that a type was applied and erased. -/
theorem Solves.instantiate_stored {s : Subst} (h : Solves solution s work) (hs : s.Acyclic)
    (ty : Ty) : (s.stored ty).instantiate solution = (ty.instantiate solution).erase := by
  have herased : (fun v => (solution v).erase) = solution := by
    funext v
    exact Ty.erase_eq_self (h.constFree v)
  calc (s.stored ty).instantiate solution
      = (s.stored ty).instantiate fun v => (solution v).erase := by rw [herased]
    _ = ((ty.instantiate s.image).instantiate solution).erase := by
        rw [Ty.erase_instantiate, Subst.stored]
    _ = (ty.instantiate solution).erase := by rw [h.satisfies.instantiate_image hs]

/-- A variable equal to a type in a solution may be bound to it. -/
theorem Solves.satisfies_extend {s : Subst} {v : VarId} {ty : Ty}
    (h : Solves solution s work) (hs : s.Acyclic)
    (heq : solution v = (ty.instantiate solution).erase) :
    Subst.Satisfies solution (s.extend v (s.stored ty)) := by
  intro w bound hw
  by_cases hwv : w = v
  · subst hwv
    rw [Subst.lookup_extend_self] at hw
    cases hw
    rw [heq, h.instantiate_stored hs]
  · rw [Subst.lookup_extend_of_ne s hwv] at hw
    exact h.satisfies w bound hw

/-- In a solution, no variable equals a larger type that holds it. -/
theorem Solves.not_occurs {s : Subst} {v : VarId} {ty : Ty} (h : Solves solution s work)
    (hs : s.Acyclic) (hproper : ty.isProper = true) (hvar : ty.isVar = false)
    (heq : solution v = (ty.instantiate solution).erase) :
    ¬ (s.stored ty).occurs v = true := by
  intro hocc
  rcases Ty.eq_var_or_height_lt_of_occurs solution hocc with hstored | hlt
  · apply Ty.tag_ne_var hvar
    rw [← Ty.tag_erase_instantiate hproper hvar s.image]
    exact congrArg Ty.tag hstored
  · rw [h.instantiate_stored hs, ← heq] at hlt
    exact absurd hlt (lt_irrefl _)

/-- Two heads that a solution makes equal leave pairs that it makes equal, and
bind only as it does. -/
theorem Solves.of_rule (h : Solves solution p.subst ((x, y) :: rest))
    (hrule : Rule p x y p' work) (hs : p.subst.Acyclic) (hx : x.isWildcard = false)
    (hy : y.isWildcard = false) : Solves solution p'.subst (work ++ rest) := by
  have hrest : ∀ pair ∈ rest, (pair.1.instantiate solution).erase =
      (pair.2.instantiate solution).erase :=
    fun pair hpair => h.equal pair (List.mem_cons_of_mem _ hpair)
  have hhead := h.equal _ List.mem_cons_self
  dsimp only at hhead
  cases hrule with
  | wildcard hwild =>
      rw [hx, hy] at hwild
      cases hwild
  | unwrapLeft _ =>
      rw [Ty.instantiate_const, Ty.erase_const] at hhead
      exact ⟨h.constFree, h.satisfies, List.forall_mem_cons.mpr ⟨hhead, hrest⟩⟩
  | unwrapRight _ =>
      rw [Ty.instantiate_const, Ty.erase_const] at hhead
      exact ⟨h.constFree, h.satisfies, List.forall_mem_cons.mpr ⟨hhead, hrest⟩⟩
  | sameVar v => exact ⟨h.constFree, h.satisfies, hrest⟩
  | @bindLeft v y _ _ =>
      rw [Ty.instantiate_var, Ty.erase_eq_self (h.constFree v)] at hhead
      exact ⟨h.constFree, h.satisfies_extend hs hhead, hrest⟩
  | @bindRight x v _ _ _ =>
      rw [Ty.instantiate_var, Ty.erase_eq_self (h.constFree v)] at hhead
      exact ⟨h.constFree, h.satisfies_extend hs hhead.symm, hrest⟩
  | @decompose params params' result result' hlength =>
      simp only [Ty.instantiate_func, Ty.erase_func, Ty.func.injEq, List.map_map] at hhead
      refine ⟨h.constFree, h.satisfies, List.forall_mem_append.mpr ⟨?_, hrest⟩⟩
      refine List.forall_mem_append.mpr ⟨?_, List.forall_mem_singleton.mpr hhead.2⟩
      rw [← List.forall₂_eq_eq_eq, List.forall₂_map_left_iff, List.forall₂_map_right_iff,
        List.forall₂_iff_zip] at hhead
      exact fun pair hpair => hhead.1.2 hpair
  | sameLeaf _ => exact ⟨h.constFree, h.satisfies, hrest⟩

/-- No solution makes clashing heads equal. -/
theorem Clash.not_solves {error : TypeError} (hclash : Clash p x y error p')
    (hs : p.subst.Acyclic) (h : Solves solution p.subst ((x, y) :: rest)) : False := by
  have hhead := h.equal _ List.mem_cons_self
  dsimp only at hhead
  cases hclash with
  | @occursLeft v y hproper hvar hocc =>
      rw [Ty.instantiate_var, Ty.erase_eq_self (h.constFree v)] at hhead
      exact h.not_occurs hs hproper hvar hhead hocc
  | @occursRight x v hproper hvar hocc =>
      rw [Ty.instantiate_var, Ty.erase_eq_self (h.constFree v)] at hhead
      exact h.not_occurs hs hproper hvar hhead.symm hocc
  | arity hlength =>
      simp only [Ty.instantiate_func, Ty.erase_func, Ty.func.injEq] at hhead
      apply hlength
      have hlengths := congrArg List.length hhead.1
      simpa only [List.length_map] using hlengths
  | mismatch hx hxvar hy hyvar htag =>
      apply htag
      rw [← Ty.tag_erase_instantiate hx hxvar solution, hhead, Ty.tag_erase_instantiate hy hyvar]

end Heads

/-- A solution does not notice that a pair was followed to its heads. -/
theorem Solves.of_isHead {s : Subst} {a b x y : Ty} {rest : List (Ty × Ty)}
    (h : Solves solution s ((a, b) :: rest)) (hs : s.Acyclic) (hx : s.IsHead a x)
    (hy : s.IsHead b y) : Solves solution s ((x, y) :: rest) := by
  obtain ⟨hpair, hrest⟩ := List.forall_mem_cons.mp h.equal
  have hfirst : x.instantiate solution = a.instantiate solution := by
    rw [← h.satisfies.instantiate_image hs x, hx.image_eq, h.satisfies.instantiate_image hs]
  have hsecond : y.instantiate solution = b.instantiate solution := by
    rw [← h.satisfies.instantiate_image hs y, hy.image_eq, h.satisfies.instantiate_image hs]
  refine ⟨h.constFree, h.satisfies, List.forall_mem_cons.mpr ⟨?_, hrest⟩⟩
  dsimp only at hpair ⊢
  rw [hfirst, hsecond, hpair]

theorem Move.solves {c d : Progress × List (Ty × Ty)} (hmove : Move c d)
    (hs : c.1.subst.Acyclic) (hplain : PlainWork c.1.subst c.2)
    (h : Solves solution c.1.subst c.2) : Solves solution d.1.subst d.2 := by
  obtain ⟨hstep, rest⟩ := hmove
  obtain ⟨x, y, hx, hy, hrule⟩ := hstep.exists_heads hs
  obtain ⟨ha, hb⟩ := hplain _ List.mem_cons_self
  exact (h.of_isHead hs hx hy).of_rule hrule hs (hx.isWildcard ha) (hy.isWildcard hb)

/-- Unification without wildcards loses no solution. -/
theorem Moves.solves {c d : Progress × List (Ty × Ty)} (hmoves : Moves c d)
    (hs : c.1.subst.Acyclic) (hplain : PlainWork c.1.subst c.2)
    (h : Solves solution c.1.subst c.2) : Solves solution d.1.subst d.2 := by
  induction hmoves with
  | refl => exact h
  | tail hmoves hmove ih =>
      have hacyclic := (Moves.grows hmoves).acyclic hs
      exact hmove.solves hacyclic (Moves.plainWork hmoves hs hplain) ih

/-- A pair at which unification is stuck has no solution. -/
theorem Stuck.not_solves {p p' : Progress} {a b : Ty} {error : TypeError}
    {rest : List (Ty × Ty)} (hstuck : Stuck p a b error p') (hs : p.subst.Acyclic) :
    ¬ Solves solution p.subst ((a, b) :: rest) := by
  intro h
  obtain ⟨x, y, hx, hy, hclash⟩ := hstuck.exists_heads hs
  exact hclash.not_solves hs (h.of_isHead hs hx hy)

end Unify

end TypeInference
