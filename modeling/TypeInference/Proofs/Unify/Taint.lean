/-
# Unification does not bring in `error`

A type is tainted when `error` stands anywhere in it.  Unification binds
variables to parts of the types that it is given, and when it fails it names
such parts.  So neither its bindings nor its errors are tainted unless its types
or earlier bindings are.
-/

import TypeInference.Proofs.Unify.Symmetry

namespace TypeInference

namespace Ty

/-- No `error` stands at any depth. -/
def Untainted (ty : Ty) : Prop := ty.mentions .error = false

instance (ty : Ty) : Decidable ty.Untainted := inferInstanceAs (Decidable (_ = _))

theorem untainted_var (v : VarId) : (var v).Untainted := rfl

@[simp] theorem untainted_func {params : List Ty} {result : Ty} :
    (func params result).Untainted ↔ (∀ param ∈ params, param.Untainted) ∧ result.Untainted := by
  simp only [Untainted, ← Bool.not_eq_true, mentions_func, not_or, not_exists, not_and]

@[simp] theorem untainted_const {base : Ty} {value : Literal} :
    (const base value).Untainted ↔ base.Untainted := by
  rw [Untainted, Untainted, mentions_const]

@[simp] theorem untainted_erase {ty : Ty} : ty.erase.Untainted ↔ ty.Untainted := by
  rw [Untainted, Untainted, mentions_erase]

/-- Taint after replacement was there, or comes with the image of a variable. -/
theorem untainted_instantiate {image : VarId → Ty} {ty : Ty} :
    (ty.instantiate image).Untainted ↔
      ty.Untainted ∧ ∀ v, ty.occurs v = true → (image v).Untainted := by
  have herror : Tag.error ≠ Tag.var := by decide
  simp only [Untainted, ← Bool.not_eq_true, mentions_instantiate herror, not_or, not_exists,
    not_and]

theorem untainted_unwrap {ty : Ty} (h : ty.Untainted) : ty.unwrap.Untainted := by
  induction ty with
  | const base value ih =>
      rw [unwrap]
      exact ih (untainted_const.mp h)
  | _ => exact h

end Ty

namespace Subst

/-- No binding is tainted. -/
def Untainted (s : Subst) : Prop := ∀ v bound, s.lookup v = some bound → bound.Untainted

variable {s : Subst}

theorem Untainted.image (h : s.Untainted) (hs : s.Acyclic) (v : VarId) : (s.image v).Untainted := by
  induction v using hs.induction with | step v ih
  cases hlookup : s.lookup v with
  | none =>
      rw [image_of_lookup_eq_none hlookup]
      exact Ty.untainted_var v
  | some bound =>
      rw [hs.image_of_lookup_eq_some hlookup, Ty.untainted_instantiate]
      exact ⟨h v bound hlookup, fun w hw => ih bound w hlookup hw⟩

theorem Untainted.instantiate (h : s.Untainted) (hs : s.Acyclic) {ty : Ty} (hty : ty.Untainted) :
    (ty.instantiate s.image).Untainted :=
  Ty.untainted_instantiate.mpr ⟨hty, fun v _ => h.image hs v⟩

theorem Untainted.extend (h : s.Untainted) {ty : Ty} (hty : ty.Untainted) (v : VarId) :
    (s.extend v ty).Untainted := by
  intro w bound hw
  by_cases heq : w = v
  · rw [heq, lookup_extend_self] at hw
    cases hw
    exact hty
  · rw [lookup_extend_of_ne s heq] at hw
    exact h w bound hw

end Subst

namespace Unify

/-- Neither bindings nor pairs that wait are tainted. -/
structure Untainted (c : Subst × List (Ty × Ty)) : Prop where
  bindings : c.1.Untainted
  pairs : ∀ pair ∈ c.2, pair.1.Untainted ∧ pair.2.Untainted

variable {c d : Subst × List (Ty × Ty)}

theorem Reduce.untainted (h : Reduce c d) (hc : Untainted c) : Untainted d := by
  cases h with
  | @parts s x y pairs rest hfound =>
      obtain ⟨⟨hx, hy⟩, hrest⟩ := List.forall_mem_cons.mp hc.pairs
      refine ⟨hc.bindings, List.forall_mem_append.mpr ⟨?_, hrest⟩⟩
      rcases eq_of_examine_eq_parts hfound with
        rfl | ⟨params, result, params', result', rfl, rfl, rfl⟩
      · exact fun _ hpair => absurd hpair List.not_mem_nil
      obtain ⟨hparams, hresult⟩ := Ty.untainted_func.mp hx
      obtain ⟨hparams', hresult'⟩ := Ty.untainted_func.mp hy
      intro pair hpair
      rcases List.mem_append.mp hpair with hpair | hpair
      · obtain ⟨hleft, hright⟩ := List.of_mem_zip hpair
        exact ⟨hparams _ hleft, hparams' _ hright⟩
      · rw [List.mem_singleton.mp hpair]
        exact ⟨hresult, hresult'⟩
  | @binding s x y ty v rest hfound =>
      obtain ⟨⟨hx, hy⟩, hrest⟩ := List.forall_mem_cons.mp hc.pairs
      have hty : ty.Untainted := by
        obtain ⟨_, ⟨_, rfl⟩ | ⟨_, rfl⟩⟩ := eq_of_examine_eq_binding hfound
        · exact hy
        · exact hx
      have hreplaced {z : Ty} (hz : z.Untainted) :
          (z.instantiate (Function.update .var v ty)).Untainted := by
        refine Ty.untainted_instantiate.mpr ⟨hz, fun w _ => ?_⟩
        by_cases hw : w = v
        · rw [hw, Function.update_self]
          exact hty
        · rw [Function.update_of_ne hw]
          exact Ty.untainted_var w
      refine ⟨hc.bindings.extend hty v, fun pair hpair => ?_⟩
      obtain ⟨source, hsource, rfl⟩ := List.mem_map.mp hpair
      exact ⟨hreplaced (hrest source hsource).1, hreplaced (hrest source hsource).2⟩

theorem Reduces.untainted (h : Reduces c d) (hc : Untainted c) : Untainted d := by
  induction h with
  | refl => exact hc
  | tail _ hstep ih => exact hstep.untainted ih

/-- A conflict is about the two types in which it is found. -/
theorem untainted_of_examine_eq_conflict {x y : Ty} {error : TypeError}
    (h : examine x y = .conflict error) (hx : x.Untainted) (hy : y.Untainted) :
    ∀ ty ∈ error.types, ty.Untainted := by
  have hpair {a b : Ty} (ha : a.Untainted) (hb : b.Untainted) : ∀ ty ∈ [a, b], ty.Untainted :=
    List.forall_mem_cons.mpr ⟨ha, List.forall_mem_singleton.mpr hb⟩
  unfold examine at h
  split at h
  · cases h
  split at h
  · split at h
    · cases h
    · split at h
      · cases h
        exact hpair (Ty.untainted_var _) hy
      · cases h
  · split at h
    · cases h
      exact hpair (Ty.untainted_var _) hx
    · cases h
  · split at h
    · cases h
    · cases h
      exact hpair hx hy
  · split at h
    · cases h
    · cases h
      exact hpair hx hy

theorem Settles.untainted_ok {t : Subst} (h : Settles c (.ok t)) (hc : Untainted c) :
    t.Untainted := by
  cases h with
  | solved h => exact (Reduces.untainted h hc).bindings

theorem Settles.untainted_error {error : TypeError} (h : Settles c (.error error))
    (hc : Untainted c) : ∀ ty ∈ error.types, ty.Untainted := by
  cases h with
  | refused h hconflict =>
      obtain ⟨hx, hy⟩ := (Reduces.untainted h hc).pairs _ List.mem_cons_self
      exact untainted_of_examine_eq_conflict hconflict hx hy

end Unify

end TypeInference
