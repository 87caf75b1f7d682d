/-
# Unification with a closed type

If one of two types has no variables, unification puts closed types for variables of
the other and nothing else.  So a variable that is left afterwards stands where it
stood before, and it stands there because nothing was compared: the closed type has a
wildcard at that place or above it.
-/

import TypeInference.Proofs.Session.Refusal
import TypeInference.Proofs.Unify.Agreement

namespace TypeInference

namespace Ty

variable {ty part : Ty} {place : List Slot}

theorem exists_part?_of_mem {params : List Ty} {param : Ty} (h : param ∈ params) (result : Ty)
    (hpart : param.part? place = some part) :
    ∃ place, (func params result).part? place = some part := by
  obtain ⟨index, hindex⟩ := List.mem_iff_getElem?.mp h
  refine ⟨.param index :: place, ?_⟩
  rw [part?, hindex]
  exact hpart

/-- A variable that occurs stands somewhere. -/
theorem exists_part?_of_occurs {v : VarId} (hconst : ty.hasConst = false)
    (h : ty.occurs v = true) : ∃ place, ty.part? place = some (.var v) := by
  induction ty with
  | var w =>
      cases occurs_var.mp h
      exact ⟨[], rfl⟩
  | func params result ihParams ihResult =>
      rw [hasConst_func] at hconst
      rcases occurs_func.mp h with ⟨param, hparam, hocc⟩ | hocc
      · obtain ⟨place, hplace⟩ := ihParams param hparam (hconst.1 param hparam) hocc
        exact exists_part?_of_mem hparam result hplace
      · obtain ⟨place, hplace⟩ := ihResult hconst.2 hocc
        exact ⟨.result :: place, hplace⟩
  | const base value => cases hconst
  | _ => cases h

/-- What functions have from their parameters and results, types have from their parts. -/
theorem of_part? {P : Ty → Prop} (hparam : ∀ params result, ∀ param ∈ params, P param →
      P (.func params result)) (hresult : ∀ params result, P result → P (.func params result))
    (h : ty.part? place = some part) (hpart : P part) : P ty := by
  induction place generalizing ty with
  | nil =>
      cases h
      exact hpart
  | cons slot rest ih =>
      cases ty with
      | func params result =>
          cases slot with
          | param index =>
              obtain ⟨param, hindex, h⟩ := Option.bind_eq_some_iff.mp h
              exact hparam _ _ param (List.mem_of_getElem? hindex) (ih h)
          | result => exact hresult _ _ (ih h)
      | _ => cases slot <;> cases h

theorem occurs_of_part? {v : VarId} (h : ty.part? place = some part)
    (hocc : part.occurs v = true) : ty.occurs v = true :=
  of_part? (P := fun ty => ty.occurs v = true)
    (fun _ _ param hparam hocc => occurs_func.mpr (.inl ⟨param, hparam, hocc⟩))
    (fun _ _ hocc => occurs_func.mpr (.inr hocc)) h hocc

theorem mentions_of_part? (leaf : Tag) (h : ty.part? place = some part)
    (hleaf : part.mentions leaf = true) : ty.mentions leaf = true :=
  of_part? (P := fun ty => ty.mentions leaf = true)
    (fun _ _ param hparam hleaf => mentions_func.mpr (.inl ⟨param, hparam, hleaf⟩))
    (fun _ _ hleaf => mentions_func.mpr (.inr hleaf)) h hleaf

theorem isClosed_of_part? (hclosed : ty.isClosed = true) (h : ty.part? place = some part) :
    part.isClosed = true := by
  refine isClosed_iff.mpr fun v => Bool.eq_false_iff.mpr fun hocc => ?_
  exact Bool.eq_false_iff.mp (isClosed_iff.mp hclosed v) (occurs_of_part? h hocc)

/-- If closed types are put for some variables, the variables that are left stand where
they stood. -/
theorem part?_of_instantiate {image : VarId → Ty} {v : VarId}
    (himage : ∀ w, image w = .var w ∨ (image w).isClosed = true)
    (h : (ty.instantiate image).part? place = some (.var v)) : ty.part? place = some (.var v) := by
  induction place generalizing ty with
  | nil =>
      have h : ty.instantiate image = .var v := Option.some.inj h
      cases ty with
      | var w =>
          rw [instantiate_var] at h
          rcases himage w with hw | hw
          · rw [hw] at h
            cases h
            rfl
          · rw [h] at hw
            cases hw
      | _ => cases h
  | cons slot rest ih =>
      cases ty with
      | var w =>
          rw [instantiate_var] at h
          rcases himage w with hw | hw
          · rw [hw] at h
            cases slot <;> cases h
          · cases isClosed_of_part? hw h
      | func params result =>
          rw [instantiate_func] at h
          cases slot with
          | param index =>
              rw [part?, List.getElem?_map, Option.bind_map] at h
              obtain ⟨param, hindex, h⟩ := Option.bind_eq_some_iff.mp h
              rw [part?, hindex]
              exact ih h
          | result => exact ih h
      | _ => cases slot <;> cases h

/-- What agrees with a type without variables has them only at or below wildcards. -/
theorem Agree.exists_wildcard_above {x y : Ty} (h : Agree x y) (hclosed : x.isClosed = true)
    {v : VarId} (hv : y.part? place = some (.var v)) :
    ∃ above below wild, place = above ++ below ∧ x.part? above = some wild ∧
      wild.isWildcard = true := by
  induction place generalizing x y with
  | nil =>
      cases Option.some.inj hv
      cases h with
      | anyLeft | errorLeft => exact ⟨[], [], _, rfl, rfl, rfl⟩
      | var => cases hclosed
      | leaf hx => cases hx
  | cons slot rest ih =>
      cases h with
      | anyLeft | errorLeft => exact ⟨[], slot :: rest, _, rfl, rfl, rfl⟩
      | anyRight | errorRight | var => cases slot <;> cases hv
      | leaf hx =>
          cases x with
          | func => cases hx
          | _ => cases slot <;> cases hv
      | @func params params' result result' hlength hparams hresult =>
          cases slot with
          | param index =>
              obtain ⟨param', hindex', hv⟩ := Option.bind_eq_some_iff.mp hv
              obtain ⟨hlt, rfl⟩ := List.getElem?_eq_some_iff.mp hindex'
              have hindex : params[index]? = some params[index] :=
                List.getElem?_eq_getElem (hlength.symm ▸ hlt)
              have hpart : (Ty.func params result).part? [.param index] = some params[index] := by
                rw [part?, hindex]
                rfl
              have hpair : (params[index], params'[index]) ∈ params.zip params' :=
                List.mem_iff_getElem?.mpr ⟨index, List.getElem?_zip_eq_some.mpr ⟨hindex, hindex'⟩⟩
              obtain ⟨above, below, wild, rfl, habove, hwild⟩ :=
                ih (hparams _ hpair) (isClosed_of_part? hclosed hpart) hv
              refine ⟨.param index :: above, below, wild, rfl, ?_, hwild⟩
              rw [part?, hindex]
              exact habove
          | result =>
              have hpart : (Ty.func params result).part? [.result] = some result := rfl
              obtain ⟨above, below, wild, rfl, habove, hwild⟩ :=
                ih hresult (isClosed_of_part? hclosed hpart) hv
              exact ⟨.result :: above, below, wild, rfl, habove, hwild⟩

end Ty

namespace Subst

variable {s t u : Subst}

/-- From the first substitution to the second only closed types were put for variables:
a variable that is left stands where it stood. -/
def Pins (s t : Subst) : Prop :=
  ∀ ty place v, (t.stored ty).part? place = some (.var v) →
    (s.stored ty).part? place = some (.var v)

theorem Pins.refl : s.Pins s := fun _ _ _ h => h

theorem Pins.trans (h : s.Pins t) (h' : t.Pins u) : s.Pins u :=
  fun ty place v hv => h ty place v (h' ty place v hv)

theorem Admits.pins {v : VarId} {ty : Ty} (h : s.Admits v ty) (hs : s.Acyclic)
    (hclosed : ty.isClosed = true) : s.Pins (s.extend v ty) := by
  intro source place w hw
  rw [h.stored_extend hs] at hw
  refine Ty.part?_of_instantiate (fun u => ?_) hw
  by_cases hu : u = v
  · rw [hu, Function.update_self]
    exact .inr hclosed
  · rw [Function.update_of_ne hu]
    exact .inl rfl

end Subst

namespace Unify

open Relation

theorem Move.pins {c d : Progress × List (Ty × Ty)} (h : Move c d) (hs : c.1.subst.Acyclic)
    (hclosed : ∀ pair ∈ c.2, (c.1.subst.stored pair.1).isClosed = true) :
    c.1.subst.Pins d.1.subst := by
  obtain ⟨hstep, rest⟩ := h
  obtain ⟨x, y, hx, _, hrule⟩ := hstep.exists_heads hs
  have hleft := hclosed _ List.mem_cons_self
  rw [← hx.stored_eq] at hleft
  cases hrule with
  | @bindLeft v _ _ admitted =>
      rw [Subst.stored_var_of_unbound admitted.unbound] at hleft
      cases hleft
  | bindRight _ _ admitted => exact admitted.pins hs hleft
  | _ => exact .refl

/-- Whatever is compared on the left is a part of the type that unification started
with, and so is as closed as that. -/
theorem Moves.pins {p : Progress} {a b : Ty} {d : Progress × List (Ty × Ty)}
    (h : Moves (p, [(a, b)]) d) (hs : p.subst.Acyclic)
    (hclosed : (p.subst.stored a).isClosed = true) : p.subst.Pins d.1.subst := by
  induction h with
  | refl => exact .refl
  | @tail c _ hmoves hmove ih =>
      have hgrows : p.subst.Grows c.1.subst := Moves.grows hmoves
      have hstart : ∀ pair ∈ [(a, b)], Stands p.subst a b pair :=
        List.forall_mem_singleton.mpr ⟨[], rfl, rfl⟩
      have hsame : (c.1.subst.stored a).isClosed = true := by
        rw [Subst.stored, Ty.isClosed_erase] at hclosed ⊢
        rwa [hgrows.instantiate_image_of_isClosed hs hclosed]
      refine ih.trans (hmove.pins (hgrows.acyclic hs) fun pair hpair => ?_)
      obtain ⟨place, hplace, _⟩ := Moves.stands hmoves hs hstart pair hpair
      exact Ty.isClosed_of_part? hsame hplace

end Unify

end TypeInference
