/-
# Unification without wildcards

A wildcard goes with everything, so that what unification says about two types
is weaker where one of them stands.  This module shows that unification does
not bring wildcards in: two types that have none once the bindings are applied
are taken apart into types that have none, and bind variables to such types.

Whether a substitution has wildcards is asked only of the bindings that the two
types lead to.
-/

import TypeInference.Proofs.Unify.Rule

namespace TypeInference

namespace Ty

/-- Neither wildcard stands at any depth. -/
def WildcardFree (ty : Ty) : Prop := ty.mentions .any = false ∧ ty.mentions .error = false

instance (ty : Ty) : Decidable ty.WildcardFree :=
  inferInstanceAs (Decidable (_ ∧ _))

theorem wildcardFree_var (v : VarId) : (var v).WildcardFree := ⟨rfl, rfl⟩

theorem WildcardFree.isWildcard {ty : Ty} (h : ty.WildcardFree) : ty.isWildcard = false := by
  cases ty with
  | any => cases h.1
  | error => cases h.2
  | _ => rfl

@[simp] theorem wildcardFree_func {params : List Ty} {result : Ty} :
    (func params result).WildcardFree ↔
      (∀ param ∈ params, param.WildcardFree) ∧ result.WildcardFree := by
  simp only [WildcardFree, ← Bool.not_eq_true, mentions_func, not_or, not_exists, not_and]
  constructor
  · intro h
    exact ⟨fun param hparam => ⟨h.1.1 param hparam, h.2.1 param hparam⟩, h.1.2, h.2.2⟩
  · intro h
    exact ⟨⟨fun param hparam => (h.1 param hparam).1, h.2.1⟩,
      fun param hparam => (h.1 param hparam).2, h.2.2⟩

@[simp] theorem wildcardFree_erase {ty : Ty} : ty.erase.WildcardFree ↔ ty.WildcardFree := by
  rw [WildcardFree, WildcardFree, mentions_erase, mentions_erase]

/-- Wildcards after replacement were there, or come with the image of a variable. -/
theorem wildcardFree_instantiate {image : VarId → Ty} {ty : Ty} :
    (ty.instantiate image).WildcardFree ↔
      ty.WildcardFree ∧ ∀ v, ty.occurs v = true → (image v).WildcardFree := by
  have hany : Tag.any ≠ Tag.var := by decide
  have herror : Tag.error ≠ Tag.var := by decide
  simp only [WildcardFree, ← Bool.not_eq_true, mentions_instantiate hany,
    mentions_instantiate herror, not_or, not_exists, not_and]
  constructor
  · intro h
    exact ⟨⟨h.1.1, h.2.1⟩, fun v hv => ⟨h.1.2 v hv, h.2.2 v hv⟩⟩
  · intro h
    exact ⟨⟨h.1.1, fun v hv => (h.2 v hv).1⟩, h.1.2, fun v hv => (h.2 v hv).2⟩

end Ty

namespace Subst

open Relation

/-- A type leads to a variable, directly or through bindings. -/
def Involves (s : Subst) (ty : Ty) (v : VarId) : Prop :=
  ∃ u, ty.occurs u = true ∧ ReflTransGen s.Refers u v

/-- Neither a type nor any binding it leads to has a wildcard. -/
structure Plain (s : Subst) (ty : Ty) : Prop where
  wildcardFree : ty.WildcardFree
  bindings : ∀ v bound, s.Involves ty v → s.lookup v = some bound → bound.WildcardFree

/-- It is enough that no binding at all has a wildcard. -/
theorem Plain.of_bindings {s : Subst} {ty : Ty} (hty : ty.WildcardFree)
    (h : ∀ v bound, s.lookup v = some bound → bound.WildcardFree) : s.Plain ty :=
  ⟨hty, fun v bound _ => h v bound⟩

theorem Acyclic.wildcardFree_image {s : Subst} (hs : s.Acyclic) {v : VarId}
    (h : ∀ w bound, ReflTransGen s.Refers v w → s.lookup w = some bound → bound.WildcardFree) :
    (s.image v).WildcardFree := by
  induction v using hs.induction with | step v ih
  cases hlookup : s.lookup v with
  | none =>
      rw [image_of_lookup_eq_none hlookup]
      exact Ty.wildcardFree_var v
  | some bound =>
      rw [hs.image_of_lookup_eq_some hlookup, Ty.wildcardFree_instantiate]
      refine ⟨h v bound .refl hlookup, fun w hw => ih bound w hlookup hw ?_⟩
      intro u other hpath hu
      exact h u other (.head ⟨bound, hlookup, hw⟩ hpath) hu

theorem Plain.stored {s : Subst} {ty : Ty} (h : s.Plain ty) (hs : s.Acyclic) :
    (s.stored ty).WildcardFree := by
  rw [Subst.stored, Ty.wildcardFree_erase, Ty.wildcardFree_instantiate]
  refine ⟨h.wildcardFree, fun v hv => hs.wildcardFree_image ?_⟩
  intro w bound hpath hw
  exact h.bindings w bound ⟨v, hv, hpath⟩ hw

/-- All bindings are listed. -/
theorem wildcardFree_of_mem_values {s : Subst} (h : ∀ ty ∈ s.bindings.values, ty.WildcardFree)
    (v : VarId) (bound : Ty) (hv : s.lookup v = some bound) : bound.WildcardFree :=
  h bound (List.mem_map_of_mem (f := Prod.snd) (KeyMap.find?_eq_some_iff.mp hv))

theorem isWildcard_stored {s : Subst} {ty : Ty} (h : ty.isWildcard = true) :
    (s.stored ty).isWildcard = true := by
  cases ty <;> cases h <;> rfl

/-- A type without wildcards leads to no wildcard. -/
theorem IsHead.isWildcard {s : Subst} {ty head : Ty} (hhead : s.IsHead ty head)
    (h : (s.stored ty).WildcardFree) : head.isWildcard = false := by
  by_contra hwild
  rw [Bool.not_eq_false] at hwild
  have hstored := isWildcard_stored (s := s) hwild
  rw [hhead.stored_eq, h.isWildcard] at hstored
  cases hstored

/-- A binding without wildcards brings none into an applied type. -/
theorem Admits.wildcardFree_stored {s : Subst} {v : VarId} {ty source : Ty}
    (h : s.Admits v ty) (hs : s.Acyclic) (hty : ty.WildcardFree)
    (hsource : (s.stored source).WildcardFree) :
    ((s.extend v ty).stored source).WildcardFree := by
  rw [Subst.stored, Ty.wildcardFree_erase] at hsource ⊢
  rw [h.instantiate_image_extend hs, Ty.wildcardFree_instantiate]
  refine ⟨hsource, ?_⟩
  intro w _
  by_cases hw : w = v
  · rw [hw, Function.update_self]
    exact hty
  · rw [Function.update_of_ne hw]
    exact Ty.wildcardFree_var w

end Subst

namespace Unify

/-- No pair has a wildcard once the bindings are applied. -/
def PlainWork (s : Subst) (work : List (Ty × Ty)) : Prop :=
  ∀ pair ∈ work, (s.stored pair.1).WildcardFree ∧ (s.stored pair.2).WildcardFree

section Heads

variable {p p' : Progress} {x y : Ty} {work : List (Ty × Ty)}

/-- The pairs that a rule leaves have no wildcards. -/
theorem Rule.plainWork (h : Rule p x y p' work) (hx : (p.subst.stored x).WildcardFree)
    (hy : (p.subst.stored y).WildcardFree) : PlainWork p'.subst work := by
  cases h with
  | unwrapLeft _ =>
      intro pair hpair
      rw [List.mem_singleton.mp hpair]
      exact ⟨by rwa [Subst.stored_const] at hx, hy⟩
  | unwrapRight _ =>
      intro pair hpair
      rw [List.mem_singleton.mp hpair]
      exact ⟨hx, by rwa [Subst.stored_const] at hy⟩
  | decompose _ =>
      rw [Subst.stored_func, Ty.wildcardFree_func, List.forall_mem_map] at hx hy
      intro pair hpair
      rcases List.mem_append.mp hpair with hpair | hpair
      · obtain ⟨hleft, hright⟩ := List.of_mem_zip hpair
        exact ⟨hx.1 _ hleft, hy.1 _ hright⟩
      · rw [List.mem_singleton.mp hpair]
        exact ⟨hx.2, hy.2⟩
  | _ => exact fun _ hpair => absurd hpair List.not_mem_nil

/-- A rule brings no wildcard into the pairs that wait. -/
theorem Rule.wildcardFree_stored (h : Rule p x y p' work) (hs : p.subst.Acyclic)
    (hx : (p.subst.stored x).WildcardFree) (hy : (p.subst.stored y).WildcardFree) {source : Ty}
    (hsource : (p.subst.stored source).WildcardFree) :
    (p'.subst.stored source).WildcardFree := by
  cases h with
  | bindLeft _ admitted => exact admitted.wildcardFree_stored hs hy hsource
  | bindRight _ _ admitted => exact admitted.wildcardFree_stored hs hx hsource
  | _ => exact hsource

end Heads

/-- The heads of the first pair have no wildcards. -/
theorem Step.exists_plain_heads {p p' : Progress} {a b : Ty} {work rest : List (Ty × Ty)}
    (h : Step p a b p' work) (hs : p.subst.Acyclic) (hplain : PlainWork p.subst ((a, b) :: rest)) :
    ∃ x y, (p.subst.stored x).WildcardFree ∧ (p.subst.stored y).WildcardFree ∧
      Rule p x y p' work := by
  obtain ⟨x, y, hx, hy, hrule⟩ := h.exists_heads hs
  obtain ⟨ha, hb⟩ := hplain _ List.mem_cons_self
  rw [← hx.stored_eq] at ha
  rw [← hy.stored_eq] at hb
  exact ⟨x, y, ha, hb, hrule⟩

section Moves

variable {c d : Progress × List (Ty × Ty)}

theorem Move.wildcardFree_stored (hmove : Move c d) (hs : c.1.subst.Acyclic)
    (h : PlainWork c.1.subst c.2) {source : Ty}
    (hsource : (c.1.subst.stored source).WildcardFree) :
    (d.1.subst.stored source).WildcardFree := by
  obtain ⟨hstep, rest⟩ := hmove
  obtain ⟨x, y, hx, hy, hrule⟩ := hstep.exists_plain_heads hs h
  exact hrule.wildcardFree_stored hs hx hy hsource

theorem Move.plainWork (hmove : Move c d) (hs : c.1.subst.Acyclic)
    (h : PlainWork c.1.subst c.2) : PlainWork d.1.subst d.2 := by
  obtain ⟨hstep, rest⟩ := hmove
  obtain ⟨x, y, hx, hy, hrule⟩ := hstep.exists_plain_heads hs h
  intro pair hpair
  rcases List.mem_append.mp hpair with hpair | hpair
  · exact hrule.plainWork hx hy pair hpair
  · obtain ⟨hleft, hright⟩ := h pair (List.mem_cons_of_mem _ hpair)
    exact ⟨hrule.wildcardFree_stored hs hx hy hleft, hrule.wildcardFree_stored hs hx hy hright⟩

theorem Moves.plainWork (hmoves : Moves c d) (hs : c.1.subst.Acyclic)
    (h : PlainWork c.1.subst c.2) : PlainWork d.1.subst d.2 := by
  induction hmoves with
  | refl => exact h
  | tail hmoves hmove ih => exact hmove.plainWork ((Moves.grows hmoves).acyclic hs) ih

/-- Unification without wildcards leaves types without wildcards as they were. -/
theorem Moves.wildcardFree_stored (hmoves : Moves c d) (hs : c.1.subst.Acyclic)
    (h : PlainWork c.1.subst c.2) {source : Ty}
    (hsource : (c.1.subst.stored source).WildcardFree) :
    (d.1.subst.stored source).WildcardFree := by
  induction hmoves with
  | refl => exact hsource
  | tail hmoves hmove ih =>
      have hacyclic := (Moves.grows hmoves).acyclic hs
      exact hmove.wildcardFree_stored hacyclic (Moves.plainWork hmoves hs h) ih

end Moves

end Unify

end TypeInference
