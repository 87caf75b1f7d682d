/-
# Agreement of unified types

Two types agree when they differ only where one of them has a wildcard.  This
is what unification achieves, and it keeps: whatever is bound afterwards, to
whatever type, agreeing types go on to agree.

Agreement is not transitive, so it cannot be passed along from one pair of
types to the next.  It is shown for each pair at the end of a unification, from
the agreement of the pairs that its rule left; an equation between variable and
binding holds literally, and needs no agreement.
-/

import Mathlib.Data.List.Forall2
import TypeInference.Proofs.Unify.Wildcard

namespace TypeInference

/-- Equality of types without literal wrappers, except that a wildcard agrees
with every type. -/
inductive Ty.Agree : Ty → Ty → Prop
  | anyLeft (y : Ty) : Agree .any y
  | anyRight (x : Ty) : Agree x .any
  | errorLeft (y : Ty) : Agree .error y
  | errorRight (x : Ty) : Agree x .error
  | var (v : VarId) : Agree (.var v) (.var v)
  | leaf {x : Ty} (hx : x.isLeaf = true) : Agree x x
  | func {params params' : List Ty} {result result' : Ty}
      (hlength : params.length = params'.length)
      (hparams : ∀ pair ∈ params.zip params', Agree pair.1 pair.2)
      (hresult : Agree result result') : Agree (.func params result) (.func params' result')

namespace Ty

theorem instantiate_of_isLeaf {ty : Ty} (h : ty.isLeaf = true) (image : VarId → Ty) :
    ty.instantiate image = ty := by
  cases ty <;> cases h <;> rfl

namespace Agree

theorem of_isWildcard {x y : Ty} (h : (x.isWildcard || y.isWildcard) = true) : Agree x y := by
  rcases (Bool.or_eq_true _ _).mp h with h | h
  · cases x with
    | any => exact .anyLeft y
    | error => exact .errorLeft y
    | _ => cases h
  · cases y with
    | any => exact .anyRight x
    | error => exact .errorRight x
    | _ => cases h

theorem func_of_forall₂ {params params' : List Ty} {result result' : Ty}
    (hparams : List.Forall₂ Agree params params') (hresult : Agree result result') :
    Agree (.func params result) (.func params' result') := by
  obtain ⟨hlength, hpairs⟩ := List.forall₂_iff_zip.mp hparams
  exact .func hlength (fun _ hpair => hpairs hpair) hresult

/-- Without literal wrappers, a type agrees with itself. -/
theorem refl {ty : Ty} (h : ty.hasConst = false) : Agree ty ty := by
  induction ty with
  | var v => exact .var v
  | func params result ihParams ihResult =>
      rw [hasConst_func] at h
      apply func_of_forall₂
      · exact List.forall₂_same.mpr fun param hparam => ihParams param hparam (h.1 param hparam)
      · exact ihResult h.2
  | any => exact .anyLeft _
  | error => exact .errorLeft _
  | const base value ih =>
      rw [hasConst_const] at h
      cases h
  | _ => exact .leaf rfl

/-- Agreement survives whatever is put for the variables. -/
theorem instantiate {x y : Ty} (h : Agree x y) {image : VarId → Ty}
    (himage : ∀ v, (image v).hasConst = false) :
    Agree (x.instantiate image) (y.instantiate image) := by
  induction h with
  | anyLeft y => exact .anyLeft _
  | anyRight x => exact .anyRight _
  | errorLeft y => exact .errorLeft _
  | errorRight x => exact .errorRight _
  | var v =>
      rw [instantiate_var]
      exact refl (himage v)
  | leaf hx =>
      rw [instantiate_of_isLeaf hx]
      exact .leaf hx
  | func hlength _ _ ihParams ihResult =>
      rw [instantiate_func, instantiate_func]
      refine func_of_forall₂ ?_ ihResult
      rw [List.forall₂_map_left_iff, List.forall₂_map_right_iff, List.forall₂_iff_zip]
      exact ⟨hlength, fun hpair => ihParams _ hpair⟩

/-- Without wildcards, agreement is equality. -/
theorem eq {x y : Ty} (h : Agree x y) (hx : x.WildcardFree) (hy : y.WildcardFree) : x = y := by
  induction h with
  | anyLeft y => cases hx.1
  | anyRight x => cases hy.1
  | errorLeft y => cases hx.2
  | errorRight x => cases hy.2
  | var v => rfl
  | leaf _ => rfl
  | @func params params' result result' hlength _ _ ihParams ihResult =>
      rw [wildcardFree_func] at hx hy
      have hparams : params = params' := by
        rw [← List.forall₂_eq_eq_eq, List.forall₂_iff_zip]
        refine ⟨hlength, ?_⟩
        intro left right hpair
        obtain ⟨hleft, hright⟩ := List.of_mem_zip hpair
        exact ihParams _ hpair (hx.1 left hleft) (hy.1 right hright)
      rw [hparams, ihResult hx.2 hy.2]

end Agree

end Ty

namespace Subst

/-- Two types agree once the bindings are applied. -/
def Agreed (s : Subst) (x y : Ty) : Prop := (s.stored x).Agree (s.stored y)

variable {s t : Subst}

theorem Agreed.of_stored_eq {x y : Ty} (h : s.stored x = s.stored y) : s.Agreed x y := by
  rw [Agreed, h]
  exact .refl (Ty.hasConst_erase _)

/-- Types that agree go on to agree. -/
theorem Agreed.grows {x y : Ty} (h : s.Agreed x y) (hs : s.Acyclic) (hgrows : s.Grows t) :
    t.Agreed x y := by
  rw [Agreed, hgrows.stored_eq hs, hgrows.stored_eq hs]
  exact h.instantiate fun v => Ty.hasConst_erase _

end Subst

namespace Unify

open Relation

/-- Two heads agree in the end if the pairs left by their rule do. -/
theorem Rule.agreed {p p' : Progress} {x y : Ty} {work : List (Ty × Ty)} {t : Subst}
    (h : Rule p x y p' work) (hs : p.subst.Acyclic) (hgrows : p'.subst.Grows t)
    (hwork : ∀ pair ∈ work, t.Agreed pair.1 pair.2) : t.Agreed x y := by
  have hfrom : p.subst.Grows t := h.grows.trans hgrows
  cases h with
  | wildcard hwild =>
      apply Ty.Agree.of_isWildcard
      rw [Bool.or_eq_true] at hwild ⊢
      exact hwild.imp Subst.isWildcard_stored Subst.isWildcard_stored
  | unwrapLeft _ =>
      have hbase := hwork _ List.mem_cons_self
      rwa [Subst.Agreed, Subst.stored_const]
  | unwrapRight _ =>
      have hbase := hwork _ List.mem_cons_self
      rwa [Subst.Agreed, Subst.stored_const]
  | sameVar v => exact .of_stored_eq rfl
  | bindLeft _ _ =>
      apply Subst.Agreed.of_stored_eq
      exact hfrom.stored_var hs (hgrows.lookup_eq_some (Subst.lookup_extend_self _ _ _))
  | bindRight _ _ _ =>
      apply Subst.Agreed.of_stored_eq
      symm
      exact hfrom.stored_var hs (hgrows.lookup_eq_some (Subst.lookup_extend_self _ _ _))
  | decompose hlength =>
      rw [Subst.Agreed, Subst.stored_func, Subst.stored_func]
      apply Ty.Agree.func_of_forall₂
      · rw [List.forall₂_map_left_iff, List.forall₂_map_right_iff, List.forall₂_iff_zip]
        exact ⟨hlength, fun hpair => hwork _ (List.mem_append_left _ hpair)⟩
      · exact hwork _ (List.mem_append_right _ List.mem_cons_self)
  | sameLeaf hx => exact .of_stored_eq rfl

/-- The first pair agrees in the end if the pairs left in its place do. -/
theorem Step.agreed {p p' : Progress} {a b : Ty} {work : List (Ty × Ty)} {t : Subst}
    (h : Step p a b p' work) (hs : p.subst.Acyclic) (hgrows : p'.subst.Grows t)
    (hwork : ∀ pair ∈ work, t.Agreed pair.1 pair.2) : t.Agreed a b := by
  obtain ⟨x, y, hx, hy, hrule⟩ := h.exists_heads hs
  have hfrom : p.subst.Grows t := hrule.grows.trans hgrows
  have hagreed := hrule.agreed hs hgrows hwork
  rwa [Subst.Agreed, Subst.stored, Subst.stored, hfrom.image_congr hs hx.image_eq,
    hfrom.image_congr hs hy.image_eq] at hagreed

/-- When no pair is left, every pair there was agrees. -/
theorem Moves.agreed {c d : Progress × List (Ty × Ty)} (h : Moves c d) (hend : d.2 = [])
    (hs : c.1.subst.Acyclic) : ∀ pair ∈ c.2, d.1.subst.Agreed pair.1 pair.2 := by
  -- From the end backwards: at the end there is nothing to show.
  induction h using ReflTransGen.head_induction_on with
  | refl =>
      intro pair hpair
      rw [hend] at hpair
      exact absurd hpair List.not_mem_nil
  | head hmove hmoves ih =>
      have hpairs := ih (hmove.grows.acyclic hs)
      have hgrows := Moves.grows hmoves
      obtain ⟨hstep, rest⟩ := hmove
      intro pair hpair
      rcases List.mem_cons.mp hpair with rfl | hpair
      · apply hstep.agreed hs hgrows
        intro other hother
        exact hpairs other (List.mem_append_left _ hother)
      · exact hpairs pair (List.mem_append_right _ hpair)

end Unify

end TypeInference
