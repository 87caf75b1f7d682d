/-
# Unification of stored forms

What unification does with two types depends only on their stored forms, which
are applied and erased.  This module states unification on such types alone.
`examine` looks at two of them once: they leave parts, they make a binding, or
they conflict.  A reduction goes on with the parts, or with the binding put into
all pairs that wait.

Every move of the unifier is a reduction of the stored pairs or leaves them as
they are, and the unifier is stuck where the stored pair conflicts.  Reduction is
a function of its pairs, so that two unifications with the same stored pairs end
alike, whatever literal wrappers they had to look through.
-/

import TypeInference.Proofs.Unify.MostGeneral

namespace TypeInference

/-- A type error with the literal wrappers taken out of its types. -/
def TypeError.erase : TypeError → TypeError
  | .mismatch expected actual => .mismatch expected.erase actual.erase
  | .arity expected actual expectedTy actualTy =>
      .arity expected actual expectedTy.erase actualTy.erase
  | .infinite v ty => .infinite v ty.erase
  | .unresolved subject ty => .unresolved subject ty.erase
  | .unsatisfied ty traitName => .unsatisfied ty.erase traitName
  | error => error

@[simp] theorem TypeError.category_erase (error : TypeError) :
    error.erase.category = error.category := by
  cases error <;> rfl

namespace Unify

open Relation

/-- What is found in two stored types. -/
inductive Finding where
  /-- Nothing is to be bound here; these pairs are left. -/
  | parts (pairs : List (Ty × Ty))
  | binding (v : VarId) (ty : Ty)
  | conflict (error : TypeError)

/-- Look at two types that are applied and erased. -/
def examine (x y : Ty) : Finding :=
  if x.isWildcard || y.isWildcard then .parts []
  else
    match x, y with
    | .var v, _ =>
        if y = .var v then .parts []
        else if y.occurs v then .conflict (.infinite v y)
        else .binding v y
    | _, .var w => if x.occurs w then .conflict (.infinite w x) else .binding w x
    | .func params result, .func params' result' =>
        if params.length = params'.length then
          .parts (params.zip params' ++ [(result, result')])
        else
          .conflict (.arity params.length params'.length x y)
    | _, _ => if x.tag = y.tag then .parts [] else .conflict (.mismatch x y)

/-- Put a type for a variable in both types of a pair. -/
def replaceIn (v : VarId) (ty : Ty) (pair : Ty × Ty) : Ty × Ty :=
  (pair.1.instantiate (Function.update .var v ty), pair.2.instantiate (Function.update .var v ty))

/-- Go on from the first of the stored pairs. -/
inductive Reduce : Subst × List (Ty × Ty) → Subst × List (Ty × Ty) → Prop
  | parts {s : Subst} {x y : Ty} {pairs rest : List (Ty × Ty)}
      (h : examine x y = .parts pairs) : Reduce (s, (x, y) :: rest) (s, pairs ++ rest)
  | binding {s : Subst} {x y ty : Ty} {v : VarId} {rest : List (Ty × Ty)}
      (h : examine x y = .binding v ty) :
      Reduce (s, (x, y) :: rest) (s.extend v ty, rest.map (replaceIn v ty))

abbrev Reduces := ReflTransGen Reduce

/-- How a reduction ends: with bindings and nothing left, or in a conflict. -/
inductive Settles (c : Subst × List (Ty × Ty)) : Except TypeError Subst → Prop
  | solved {t : Subst} (h : Reduces c (t, [])) : Settles c (.ok t)
  | refused {t : Subst} {x y : Ty} {rest : List (Ty × Ty)} {error : TypeError}
      (h : Reduces c (t, (x, y) :: rest)) (hconflict : examine x y = .conflict error) :
      Settles c (.error error)

theorem Reduce.rightUnique : Relator.RightUnique Reduce := by
  intro c d d' h h'
  cases h with
  | parts h =>
      cases h' with
      | parts h' =>
          rw [h] at h'
          cases h'
          rfl
      | binding h' =>
          rw [h] at h'
          cases h'
  | binding h =>
      cases h' with
      | parts h' =>
          rw [h] at h'
          cases h'
      | binding h' =>
          rw [h] at h'
          cases h'
          rfl

theorem not_reduce_nil {s : Subst} {d : Subst × List (Ty × Ty)} : ¬ Reduce (s, []) d := by
  intro h
  cases h

theorem not_reduce_of_conflict {s : Subst} {x y : Ty} {rest : List (Ty × Ty)} {error : TypeError}
    (hconflict : examine x y = .conflict error) {d : Subst × List (Ty × Ty)} :
    ¬ Reduce (s, (x, y) :: rest) d := by
  intro h
  cases h with
  | parts h =>
      rw [hconflict] at h
      cases h
  | binding h =>
      rw [hconflict] at h
      cases h

/-- Two reductions of the same pairs that cannot go on have come to the same end. -/
theorem Reduces.unique {c d d' : Subst × List (Ty × Ty)} (h : Reduces c d) (h' : Reduces c d')
    (hend : ∀ e, ¬ Reduce d e) (hend' : ∀ e, ¬ Reduce d' e) : d = d' := by
  have hlast {e e' : Subst × List (Ty × Ty)} (hend : ∀ f, ¬ Reduce e f) (h : Reduces e e') :
      e = e' := by
    cases h.cases_head with
    | inl heq => exact heq
    | inr hstep =>
        obtain ⟨f, hstep, _⟩ := hstep
        exact absurd hstep (hend f)
  rcases ReflTransGen.total_of_right_unique Reduce.rightUnique h h' with h | h
  · exact hlast hend h
  · exact (hlast hend' h).symm

/-- Stored pairs have one outcome. -/
theorem Settles.unique {c : Subst × List (Ty × Ty)} {outcome outcome' : Except TypeError Subst}
    (h : Settles c outcome) (h' : Settles c outcome') : outcome = outcome' := by
  cases h with
  | solved h =>
      cases h' with
      | solved h' =>
          cases h.unique h' (fun _ => not_reduce_nil) (fun _ => not_reduce_nil)
          rfl
      | refused h' hconflict' =>
          cases h.unique h' (fun _ => not_reduce_nil) (fun _ => not_reduce_of_conflict hconflict')
  | refused h hconflict =>
      cases h' with
      | solved h' =>
          cases h.unique h' (fun _ => not_reduce_of_conflict hconflict) (fun _ => not_reduce_nil)
      | refused h' hconflict' =>
          cases h.unique h' (fun _ => not_reduce_of_conflict hconflict)
            (fun _ => not_reduce_of_conflict hconflict')
          rw [hconflict] at hconflict'
          cases hconflict'
          rfl

section Examine

variable {x y : Ty} {v w : VarId}

theorem examine_of_isWildcard (h : (x.isWildcard || y.isWildcard) = true) :
    examine x y = .parts [] := by
  unfold examine
  rw [if_pos h]

theorem examine_var_self (v : VarId) : examine (.var v) (.var v) = .parts [] := by
  simp [examine, Ty.isWildcard]

theorem examine_var_left (hy : y.isWildcard = false) (hne : y ≠ .var v) :
    examine (.var v) y = if y.occurs v then .conflict (.infinite v y) else .binding v y := by
  have hwild : ((Ty.var v).isWildcard || y.isWildcard) = false := by
    rw [hy]
    rfl
  unfold examine
  simp only [hwild, Bool.false_eq_true, if_false, if_neg hne]

theorem examine_var_right (hx : x.isWildcard = false) (hvar : x.isVar = false) :
    examine x (.var w) = if x.occurs w then .conflict (.infinite w x) else .binding w x := by
  cases x with
  | any | error => cases hx
  | var v => cases hvar
  | _ => rfl

theorem examine_func (params params' : List Ty) (result result' : Ty) :
    examine (.func params result) (.func params' result') =
      if params.length = params'.length then .parts (params.zip params' ++ [(result, result')])
      else .conflict (.arity params.length params'.length (.func params result)
        (.func params' result')) :=
  rfl

/-- Two heads that are neither wildcards nor variables nor both functions are
compared by their tags. -/
theorem examine_of_tags (hx : x.isWildcard = false) (hxvar : x.isVar = false)
    (hy : y.isWildcard = false) (hyvar : y.isVar = false) (hfunc : x.tag = y.tag → x.tag ≠ .func) :
    examine x y = if x.tag = y.tag then .parts [] else .conflict (.mismatch x y) := by
  have hwild : (x.isWildcard || y.isWildcard) = false := by rw [hx, hy, Bool.or_self]
  unfold examine
  simp only [hwild, Bool.false_eq_true, if_false]
  split
  · cases hxvar
  · cases hyvar
  · exact absurd rfl (hfunc rfl)
  · rfl

end Examine

end Unify

/-! ## Moves are reductions -/

namespace Subst

variable {s : Subst}

/-- Both types of a pair in the form in which they are bound. -/
def storedPair (s : Subst) (pair : Ty × Ty) : Ty × Ty := (s.stored pair.1, s.stored pair.2)

/-- Erasing beforehand changes nothing. -/
@[simp] theorem stored_erase (ty : Ty) : s.stored ty.erase = s.stored ty := by
  rw [stored, Ty.erase_instantiate, Ty.erase_erase, ← Ty.erase_instantiate, stored]

theorem stored_var_of_unbound {v : VarId} (h : s.lookup v = none) : s.stored (.var v) = .var v := by
  rw [stored, Ty.instantiate_var, image_of_lookup_eq_none h]
  rfl

theorem stored_of_isLeaf {ty : Ty} (h : ty.isLeaf = true) : s.stored ty = ty := by
  cases ty with
  | int | num | bool | str | none => rfl
  | _ => cases h

theorem isWildcard_stored_of_isProper {ty : Ty} (h : ty.isProper = true)
    (hvar : ∀ v, ty = .var v → s.lookup v = none) : (s.stored ty).isWildcard = false := by
  cases ty with
  | var v => rw [stored_var_of_unbound (hvar v rfl), Ty.isWildcard.eq_def]
  | func params result => rw [stored_func, Ty.isWildcard.eq_def]
  | any | error | const => cases h
  | _ => rfl

theorem isVar_stored {ty : Ty} (h : ty.isProper = true) (hvar : ty.isVar = false) :
    (s.stored ty).isVar = false := by
  cases ty with
  | var v => cases hvar
  | func params result => rw [stored_func, Ty.isVar.eq_def]
  | any | error | const => cases h
  | _ => rfl

/-- A binding is put into whatever was stored before it. -/
theorem Admits.stored_extend {v : VarId} {ty : Ty} (h : s.Admits v ty) (hs : s.Acyclic)
    (source : Ty) :
    (s.extend v ty).stored source =
      (s.stored source).instantiate (Function.update .var v ty) := by
  have herased : (fun w => (Function.update Ty.var v ty w).erase) = Function.update .var v ty := by
    funext w
    by_cases hw : w = v
    · rw [hw, Function.update_self, Ty.erase_eq_self h.constFree]
    · rw [Function.update_of_ne hw]
      rfl
  rw [stored, h.instantiate_image_extend hs, Ty.erase_instantiate, herased, stored]

end Subst

namespace Unify

/-- What a rule does to the stored pairs: nothing, or what is found in its heads. -/
theorem Rule.examine {p p' : Progress} {x y : Ty} {work : List (Ty × Ty)}
    (h : Rule p x y p' work) (hx : ∀ v, x = .var v → p.subst.lookup v = none)
    (hy : ∀ v, y = .var v → p.subst.lookup v = none) :
    (p'.subst = p.subst ∧ work.map p.subst.storedPair = [p.subst.storedPair (x, y)]) ∨
    (p'.subst = p.subst ∧ Unify.examine (p.subst.stored x) (p.subst.stored y) =
      .parts (work.map p.subst.storedPair)) ∨
    (∃ v ty, work = [] ∧ p'.subst = p.subst.extend v ty ∧ p.subst.Admits v ty ∧
      Unify.examine (p.subst.stored x) (p.subst.stored y) = .binding v ty) := by
  cases h with
  | wildcard hwild =>
      refine .inr (.inl ⟨rfl, examine_of_isWildcard ?_⟩)
      rw [Bool.or_eq_true] at hwild ⊢
      exact hwild.imp Subst.isWildcard_stored Subst.isWildcard_stored
  | unwrapLeft _ => exact .inl ⟨rfl, by simp [Subst.storedPair]⟩
  | unwrapRight _ => exact .inl ⟨rfl, by simp [Subst.storedPair]⟩
  | sameVar v =>
      refine .inr (.inl ⟨rfl, ?_⟩)
      rw [Subst.stored_var_of_unbound (hx v rfl)]
      exact examine_var_self v
  | @bindLeft v y hproper admitted =>
      refine .inr (.inr ⟨v, p.subst.stored y, rfl, rfl, admitted, ?_⟩)
      have hocc : ¬ (p.subst.stored y).occurs v = true := fun hocc => (admitted.parts v hocc).1 rfl
      have hne : p.subst.stored y ≠ .var v := fun heq => hocc (by rw [heq, Ty.occurs_var])
      rw [Subst.stored_var_of_unbound admitted.unbound,
        examine_var_left (Subst.isWildcard_stored_of_isProper hproper hy) hne, if_neg hocc]
  | @bindRight x v hproper hvar admitted =>
      refine .inr (.inr ⟨v, p.subst.stored x, rfl, rfl, admitted, ?_⟩)
      have hocc : ¬ (p.subst.stored x).occurs v = true := fun hocc => (admitted.parts v hocc).1 rfl
      rw [Subst.stored_var_of_unbound admitted.unbound,
        examine_var_right (Subst.isWildcard_stored_of_isProper hproper hx)
          (Subst.isVar_stored hproper hvar), if_neg hocc]
  | decompose hlength =>
      refine .inr (.inl ⟨rfl, ?_⟩)
      rw [Subst.stored_func, Subst.stored_func, examine_func, List.length_map, List.length_map,
        if_pos hlength, List.zip_map, List.map_append]
      rfl
  | sameLeaf hleaf =>
      refine .inr (.inl ⟨rfl, ?_⟩)
      rw [Subst.stored_of_isLeaf hleaf]
      cases x with
      | int | num | bool | str | none => rfl
      | _ => cases hleaf

/-- Heads that clash conflict in their stored forms. -/
theorem Clash.examine {p p' : Progress} {x y : Ty} {error : TypeError}
    (h : Clash p x y error p') (hx : ∀ v, x = .var v → p.subst.lookup v = none)
    (hy : ∀ v, y = .var v → p.subst.lookup v = none) :
    Unify.examine (p.subst.stored x) (p.subst.stored y) = .conflict error.erase := by
  have hself (ty : Ty) : (p.subst.stored ty).erase = p.subst.stored ty := Ty.erase_erase _
  cases h with
  | @occursLeft v y hproper hvar hocc =>
      have hne : p.subst.stored y ≠ .var v := by
        intro heq
        have hnot := Subst.isVar_stored (s := p.subst) hproper hvar
        rw [heq] at hnot
        cases hnot
      rw [Subst.stored_var_of_unbound (hx v rfl),
        examine_var_left (Subst.isWildcard_stored_of_isProper hproper hy) hne, if_pos hocc,
        TypeError.erase, hself]
  | @occursRight x v hproper hvar hocc =>
      rw [Subst.stored_var_of_unbound (hy v rfl),
        examine_var_right (Subst.isWildcard_stored_of_isProper hproper hx)
          (Subst.isVar_stored hproper hvar), if_pos hocc, TypeError.erase, hself]
  | @arity params params' result result' hlength =>
      have hlengths : (params.map p.subst.stored).length ≠ (params'.map p.subst.stored).length := by
        rwa [List.length_map, List.length_map]
      rw [TypeError.erase, ← Subst.stored, ← Subst.stored, Subst.stored_func, Subst.stored_func,
        examine_func, if_neg hlengths, List.length_map, List.length_map]
  | mismatch hxproper hxvar hyproper hyvar htag =>
      have htags : (p.subst.stored x).tag ≠ (p.subst.stored y).tag := by
        rw [Subst.stored, Subst.stored, Ty.tag_erase_instantiate hxproper hxvar,
          Ty.tag_erase_instantiate hyproper hyvar]
        exact htag
      rw [examine_of_tags (Subst.isWildcard_stored_of_isProper hxproper hx)
        (Subst.isVar_stored hxproper hxvar) (Subst.isWildcard_stored_of_isProper hyproper hy)
        (Subst.isVar_stored hyproper hyvar) (fun heq => absurd heq htags), if_neg htags]
      rfl

/-- The stored pairs of a unification. -/
def reduced (c : Progress × List (Ty × Ty)) : Subst × List (Ty × Ty) :=
  (c.1.subst, c.2.map c.1.subst.storedPair)

/-- A move reduces the stored pairs, or has only looked through a wrapper. -/
theorem Move.reduces {c d : Progress × List (Ty × Ty)} (h : Move c d)
    (hs : c.1.subst.Acyclic) : Reduces (reduced c) (reduced d) := by
  obtain ⟨hstep, rest⟩ := h
  rename_i p p' a b work
  obtain ⟨x, y, hx, hy, hrule⟩ := hstep.exists_heads hs
  have hpair : p.subst.storedPair (a, b) = p.subst.storedPair (x, y) := by
    rw [Subst.storedPair, Subst.storedPair, hx.stored_eq, hy.stored_eq]
  simp only [reduced, List.map_cons, List.map_append, hpair]
  rcases hrule.examine hx.unbound hy.unbound with
    ⟨hsame, hwork⟩ | ⟨hsame, hfound⟩ | ⟨v, ty, rfl, hextend, hadmits, hfound⟩
  · rw [hsame, hwork]
    exact .refl
  · rw [hsame]
    exact .single (.parts hfound)
  · have hrest : rest.map p'.subst.storedPair =
        (rest.map p.subst.storedPair).map (replaceIn v ty) := by
      rw [hextend, List.map_map]
      apply List.map_congr_left
      intro pair _
      simp only [Subst.storedPair, hadmits.stored_extend hs, Function.comp_apply, replaceIn]
    rw [hrest, hextend]
    exact .single (.binding hfound)

theorem Moves.reduces {c d : Progress × List (Ty × Ty)} (h : Moves c d)
    (hs : c.1.subst.Acyclic) : Reduces (reduced c) (reduced d) := by
  induction h with
  | refl => exact .refl
  | tail hmoves hmove ih =>
      exact ih.trans (hmove.reduces ((Moves.grows hmoves).acyclic hs))

/-- A unification that disposed of all its pairs has solved the stored ones. -/
theorem Moves.settles {c : Progress × List (Ty × Ty)} {p : Progress} (h : Moves c (p, []))
    (hs : c.1.subst.Acyclic) : Settles (reduced c) (.ok p.subst) :=
  .solved (h.reduces hs)

/-- A unification that is stuck at a pair has come to a conflict. -/
theorem Stuck.settles {c : Progress × List (Ty × Ty)} {p p' : Progress} {a b : Ty}
    {error : TypeError} {rest : List (Ty × Ty)} (h : Stuck p a b error p')
    (hmoves : Moves c (p, (a, b) :: rest)) (hs : c.1.subst.Acyclic) :
    Settles (reduced c) (.error error.erase) := by
  have hp : p.subst.Acyclic := hmoves.grows.acyclic hs
  obtain ⟨x, y, hx, hy, hclash⟩ := h.exists_heads hp
  refine .refused (hmoves.reduces hs) ?_
  rw [← hx.stored_eq, ← hy.stored_eq]
  exact hclash.examine hx.unbound hy.unbound

end Unify

end TypeInference
