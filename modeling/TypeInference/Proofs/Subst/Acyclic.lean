/-
# Substitutions without cycles

`resolve` and `apply` count steps and watch for variables met inside their own
bindings.  On a substitution without cycles neither precaution is ever needed:
both operations return, and what `apply` returns is the instantiation of the
type with one fixed image for every variable.

The count is enough because a variable reaches fewer bindings than any variable
that refers to it.  The argument is made once, for an arbitrary cost of a
binding, since the bound on unification needs it again with sizes of types in
place of a plain count.
-/

import Mathlib.Algebra.BigOperators.Group.List.Basic
import Mathlib.Algebra.GroupWithZero.Nat
import Mathlib.Algebra.Order.BigOperators.Group.Finset
import Mathlib.Logic.Relation
import TypeInference.Proofs.Ty.Instantiation

namespace TypeInference.Subst

open Relation

/-- A bound variable refers to every variable at any depth of its type. -/
def Refers (s : Subst) (v w : VarId) : Prop :=
  ∃ ty, s.lookup v = some ty ∧ ty.occurs w = true

/-- No variable refers to itself, directly or through others. -/
def Acyclic (s : Subst) : Prop := ∀ v, ¬ TransGen s.Refers v v

theorem mem_keys_iff {s : Subst} {v : VarId} :
    v ∈ s.bindings.keys ↔ ∃ ty, s.lookup v = some ty :=
  KeyMap.mem_keys_iff

section Cost

variable (s : Subst) (cost : Ty → Nat)

/-- The cost of the binding of a variable. -/
def costOf (v : VarId) : Nat := ((s.lookup v).map cost).getD 0

open Classical in
/-- The summed cost of the bindings that a variable reaches, its own included. -/
noncomputable def reachedCost (v : VarId) : Nat :=
  ∑ w ∈ s.bindings.keys.toFinset.filter (ReflTransGen s.Refers v), s.costOf cost w

variable {s}

theorem reachedCost_le (v : VarId) :
    s.reachedCost cost v ≤ (s.bindings.values.map cost).sum := by
  classical
  have hcost : s.bindings.keys.map (s.costOf cost) = s.bindings.values.map cost := by
    rw [KeyMap.keys, KeyMap.values, List.map_map, List.map_map]
    apply List.map_congr_left
    intro entry hentry
    have hlookup : s.lookup entry.1 = some entry.2 := KeyMap.find?_eq_some_iff.mpr hentry
    simp [costOf, hlookup]
  calc s.reachedCost cost v
      ≤ ∑ w ∈ s.bindings.keys.toFinset, s.costOf cost w :=
        Finset.sum_le_sum_of_subset (Finset.filter_subset _ _)
    _ = (s.bindings.values.map cost).sum := by
        rw [List.sum_toFinset _ s.bindings.nodup_keys, hcost]

/-- A bound variable costs at least its own binding. -/
theorem cost_le_reachedCost {v : VarId} {ty : Ty} (h : s.lookup v = some ty) :
    cost ty ≤ s.reachedCost cost v := by
  classical
  have hmem : v ∈ s.bindings.keys.toFinset.filter (ReflTransGen s.Refers v) :=
    Finset.mem_filter.mpr ⟨List.mem_toFinset.mpr (mem_keys_iff.mpr ⟨ty, h⟩), .refl⟩
  have hown : s.costOf cost v = cost ty := by simp [costOf, h]
  have hle : s.costOf cost v ≤ s.reachedCost cost v :=
    Finset.single_le_sum (f := s.costOf cost) (fun _ _ => Nat.zero_le _) hmem
  exact hown ▸ hle

/-- What a variable refers to reaches everything but the variable itself. -/
theorem Acyclic.reachedCost_add_le (hs : s.Acyclic) {v w : VarId} {ty : Ty}
    (h : s.lookup v = some ty) (hw : ty.occurs w = true) :
    s.reachedCost cost w + cost ty ≤ s.reachedCost cost v := by
  classical
  have hrefers : s.Refers v w := ⟨ty, h, hw⟩
  have hnew : v ∉ s.bindings.keys.toFinset.filter (ReflTransGen s.Refers w) := fun hmem =>
    hs v (.head' hrefers (Finset.mem_filter.mp hmem).2)
  have hsubset : insert v (s.bindings.keys.toFinset.filter (ReflTransGen s.Refers w)) ⊆
      s.bindings.keys.toFinset.filter (ReflTransGen s.Refers v) := by
    intro u hu
    rcases Finset.mem_insert.mp hu with rfl | hu
    · exact Finset.mem_filter.mpr ⟨List.mem_toFinset.mpr (mem_keys_iff.mpr ⟨ty, h⟩), .refl⟩
    · obtain ⟨hkey, hreach⟩ := Finset.mem_filter.mp hu
      exact Finset.mem_filter.mpr ⟨hkey, .head hrefers hreach⟩
  calc s.reachedCost cost w + cost ty
      = ∑ u ∈ insert v (s.bindings.keys.toFinset.filter (ReflTransGen s.Refers w)),
          s.costOf cost u := by
        have hown : s.costOf cost v = cost ty := by simp [costOf, h]
        rw [Finset.sum_insert hnew, hown, reachedCost, Nat.add_comm]
    _ ≤ s.reachedCost cost v := Finset.sum_le_sum_of_subset hsubset

end Cost

/-- How many bindings a variable reaches. -/
noncomputable def depth (s : Subst) (v : VarId) : Nat := s.reachedCost (fun _ => 1) v

theorem depth_le_size (s : Subst) (v : VarId) : s.depth v ≤ s.size := by
  calc s.depth v ≤ (s.bindings.values.map fun _ => 1).sum := reachedCost_le (fun _ => 1) v
    _ = s.size := by
        rw [List.map_const', List.sum_replicate_nat, Nat.mul_one, KeyMap.values,
          List.length_map, size, KeyMap.size]

theorem depth_pos {s : Subst} {v : VarId} {ty : Ty} (h : s.lookup v = some ty) :
    0 < s.depth v :=
  cost_le_reachedCost (fun _ => 1) h

theorem Acyclic.depth_lt {s : Subst} (hs : s.Acyclic) {v w : VarId} {ty : Ty}
    (h : s.lookup v = some ty) (hw : ty.occurs w = true) : s.depth w < s.depth v :=
  hs.reachedCost_add_le (fun _ => 1) h hw

/-- Induction along references: a variable after all it refers to. -/
theorem Acyclic.induction {s : Subst} (hs : s.Acyclic) {motive : VarId → Prop}
    (step : ∀ v, (∀ ty w, s.lookup v = some ty → ty.occurs w = true → motive w) → motive v)
    (v : VarId) : motive v :=
  step v fun _ty w _h _hw => hs.induction step w
termination_by s.depth v
decreasing_by exact hs.depth_lt ‹_› ‹_›

/-- What a variable stands for; the variable itself where `expand` faults. -/
def image (s : Subst) (v : VarId) : Ty :=
  match s.expand s.size [] v with
  | .ok ty => ty
  | .error _ => .var v

variable {s : Subst}

-- The answer does not depend on how much depth is left, nor on which variables
-- are active, as long as the active ones lie above `v`.
theorem Acyclic.exists_expand_eq_ok (hs : s.Acyclic) (v : VarId) :
    ∃ ty, ∀ depth active, s.depth v ≤ depth → (∀ u ∈ active, s.depth v < s.depth u) →
      s.expand depth active v = .ok ty := by
  induction v using hs.induction with | step v ih
  cases hlookup : s.lookup v with
  | none =>
      refine ⟨.var v, ?_⟩
      intro depth active _ _
      rw [expand, hlookup]
  | some bound =>
      have hparts : ∀ w, ∃ ty, bound.occurs w = true → ∀ depth active, s.depth w ≤ depth →
          (∀ u ∈ active, s.depth w < s.depth u) → s.expand depth active w = .ok ty := by
        intro w
        by_cases hw : bound.occurs w = true
        · obtain ⟨ty, hty⟩ := ih bound w hlookup hw
          exact ⟨ty, fun _ => hty⟩
        · exact ⟨.var w, fun hocc => absurd hocc hw⟩
      choose part hpart using hparts
      refine ⟨bound.instantiate part, ?_⟩
      intro depth active hdepth hactive
      have hfresh : active.contains v = false := by
        rw [List.contains_eq_mem, decide_eq_false_iff_not]
        exact fun hmem => absurd (hactive v hmem) (lt_irrefl _)
      obtain ⟨depth, rfl⟩ : ∃ k, depth = k + 1 :=
        Nat.exists_eq_succ_of_ne_zero (Nat.ne_of_gt (Nat.lt_of_lt_of_le (depth_pos hlookup) hdepth))
      rw [expand, hlookup]
      simp only [hfresh, Bool.false_eq_true, if_false]
      refine Ty.replaceVars_eq_ok fun w hw => hpart w hw depth (v :: active) ?_ ?_
      · exact Nat.le_of_lt_succ (Nat.lt_of_lt_of_le (hs.depth_lt hlookup hw) hdepth)
      · intro u hu
        rcases List.mem_cons.mp hu with rfl | hu
        · exact hs.depth_lt hlookup hw
        · exact (hs.depth_lt hlookup hw).trans (hactive u hu)

theorem Acyclic.expand_eq_ok (hs : s.Acyclic) {v : VarId} {depth : Nat} {active : List VarId}
    (hdepth : s.depth v ≤ depth) (hactive : ∀ u ∈ active, s.depth v < s.depth u) :
    s.expand depth active v = .ok (s.image v) := by
  obtain ⟨ty, hty⟩ := hs.exists_expand_eq_ok v
  have himage : s.image v = ty := by
    rw [image, hty s.size [] (s.depth_le_size v) (fun _ hu => absurd hu List.not_mem_nil)]
  rw [hty depth active hdepth hactive, himage]

/-- An unbound variable stands for itself. -/
theorem image_of_lookup_eq_none {v : VarId} (h : s.lookup v = none) : s.image v = .var v := by
  rw [image, expand, h]

/-- A bound variable stands for what its type stands for. -/
theorem Acyclic.image_of_lookup_eq_some (hs : s.Acyclic) {v : VarId} {ty : Ty}
    (h : s.lookup v = some ty) : s.image v = ty.instantiate s.image := by
  have hpos := depth_pos h
  have hexpand : s.expand (s.depth v) [] v = .ok (s.image v) :=
    hs.expand_eq_ok le_rfl fun _ hu => absurd hu List.not_mem_nil
  obtain ⟨depth, hdepth⟩ : ∃ k, s.depth v = k + 1 :=
    Nat.exists_eq_succ_of_ne_zero (Nat.ne_of_gt hpos)
  have hbody : ty.replaceVars (s.expand depth [v]) = .ok (ty.instantiate s.image) := by
    refine Ty.replaceVars_eq_ok fun w hw => hs.expand_eq_ok ?_ ?_
    · have hlt := hs.depth_lt h hw
      omega
    · intro u hu
      rw [List.mem_singleton.mp hu]
      exact hs.depth_lt h hw
  rw [hdepth, expand, h] at hexpand
  simp only [List.contains_nil, Bool.false_eq_true, if_false] at hexpand
  rw [hbody] at hexpand
  exact (Except.ok.inj hexpand).symm

/-- Applying a substitution without cycles returns the instantiated type. -/
theorem Acyclic.apply_eq_ok (hs : s.Acyclic) (ty : Ty) :
    s.apply ty = .ok (ty.instantiate s.image) :=
  Ty.replaceVars_eq_ok fun v _ =>
    hs.expand_eq_ok (s.depth_le_size v) fun _ hu => absurd hu List.not_mem_nil

/-- Only unbound variables are left in what a variable stands for. -/
theorem Acyclic.lookup_eq_none_of_occurs_image (hs : s.Acyclic) (v : VarId) :
    ∀ w, (s.image v).occurs w = true → s.lookup w = none := by
  induction v using hs.induction with | step v ih
  intro w hw
  cases hlookup : s.lookup v with
  | none =>
      rw [image_of_lookup_eq_none hlookup, Ty.occurs_var] at hw
      exact hw ▸ hlookup
  | some ty =>
      rw [hs.image_of_lookup_eq_some hlookup, Ty.occurs_instantiate] at hw
      obtain ⟨u, hu, hw⟩ := hw
      exact ih ty u hlookup hu w hw

/-- Only unbound variables are left in an applied type. -/
theorem Acyclic.lookup_eq_none_of_occurs (hs : s.Acyclic) {ty : Ty} {w : VarId}
    (hw : (ty.instantiate s.image).occurs w = true) : s.lookup w = none := by
  obtain ⟨v, _, hw⟩ := Ty.occurs_instantiate.mp hw
  exact hs.lookup_eq_none_of_occurs_image v w hw

/-- A map of variables to types that agrees with every binding. -/
def Satisfies (solution : VarId → Ty) (s : Subst) : Prop :=
  ∀ v ty, s.lookup v = some ty → solution v = ty.instantiate solution

/-- A map that agrees with the bindings does not notice that they were applied. -/
theorem Satisfies.instantiate_image {solution : VarId → Ty} (h : Satisfies solution s)
    (hs : s.Acyclic) (ty : Ty) :
    (ty.instantiate s.image).instantiate solution = ty.instantiate solution := by
  have himage : ∀ v, (s.image v).instantiate solution = solution v := by
    intro v
    induction v using hs.induction with | step v ih
    cases hlookup : s.lookup v with
    | none => rw [image_of_lookup_eq_none hlookup, Ty.instantiate_var]
    | some bound =>
        rw [hs.image_of_lookup_eq_some hlookup, Ty.instantiate_instantiate, h v bound hlookup]
        exact Ty.instantiate_congr fun w hw => ih bound w hlookup hw
  rw [Ty.instantiate_instantiate]
  exact Ty.instantiate_congr fun v _ => himage v

/-- The end of a chain of variables: it stands for the same type and is not a
bound variable. -/
structure IsHead (s : Subst) (ty head : Ty) : Prop where
  image_eq : head.instantiate s.image = ty.instantiate s.image
  unbound : ∀ v, head = .var v → s.lookup v = none

theorem follow_of_isVar_eq_false {ty : Ty} (h : ty.isVar = false) (hops : Nat) :
    s.follow hops ty = .ok ty := by
  rw [follow.eq_def]
  cases ty with
  | var v => cases h
  | _ => rfl

theorem Acyclic.exists_follow_eq_ok (hs : s.Acyclic) (hops : Nat) (ty : Ty)
    (h : ∀ v, ty = .var v → s.depth v ≤ hops) :
    ∃ head, s.follow hops ty = .ok head ∧ s.IsHead ty head := by
  induction hops generalizing ty with
  | zero =>
      rw [follow.eq_def]
      split
      · rename_i v
        cases hlookup : s.lookup v with
        | none => exact ⟨.var v, rfl, rfl, fun w hw => by cases hw; exact hlookup⟩
        | some next => exact absurd (h v rfl) (Nat.not_le_of_gt (depth_pos hlookup))
      · rename_i hvar
        exact ⟨ty, rfl, rfl, fun v hv => absurd hv (hvar v)⟩
  | succ hops ih =>
      rw [follow.eq_def]
      split
      · rename_i v
        cases hlookup : s.lookup v with
        | none => exact ⟨.var v, rfl, rfl, fun w hw => by cases hw; exact hlookup⟩
        | some next =>
            obtain ⟨head, hfollow, himage, hunbound⟩ := ih next fun w hw => by
              subst hw
              have hlt := hs.depth_lt hlookup (Ty.occurs_var.mpr (rfl : w = w))
              exact Nat.le_of_lt_succ (Nat.lt_of_lt_of_le hlt (h v rfl))
            refine ⟨head, hfollow, ?_, hunbound⟩
            rw [himage, Ty.instantiate_var, hs.image_of_lookup_eq_some hlookup]
      · rename_i hvar
        exact ⟨ty, rfl, rfl, fun v hv => absurd hv (hvar v)⟩

/-- Resolving under a substitution without cycles returns the head of the type. -/
theorem Acyclic.exists_resolve_eq_ok (hs : s.Acyclic) (ty : Ty) :
    ∃ head, s.resolve ty = .ok head ∧ s.IsHead ty head :=
  hs.exists_follow_eq_ok s.size ty fun v _ => s.depth_le_size v

theorem Acyclic.isHead_of_resolve (hs : s.Acyclic) {ty head : Ty} (h : s.resolve ty = .ok head) :
    s.IsHead ty head := by
  obtain ⟨other, hother, hhead⟩ := hs.exists_resolve_eq_ok ty
  rw [h] at hother
  cases hother
  exact hhead

end TypeInference.Subst
