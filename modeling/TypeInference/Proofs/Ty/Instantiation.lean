/-
# Replacing the variables of a type

`Ty.replaceVars` may stop at a fault.  This module supplies the total
operation beside it, `Ty.instantiate`, and shows that the two agree wherever
every variable has an image.  It also says how erasure, occurrence, mention and
literal wrappers behave under replacement.

A type holds lists of types.  Its functions come in pairs, one for a type and
one for a list; the second is expressed here through the first, and
`Ty.induction` gives one hypothesis for each member of a list, so that later
proofs never speak of the second function.
-/

import Mathlib.Logic.Basic
import Mathlib.Data.List.Basic
import TypeInference.Subst

namespace TypeInference.Ty

/-- Induction on types, with a hypothesis for every parameter of a function. -/
@[induction_eliminator]
theorem induction {motive : Ty → Prop} (int : motive .int) (num : motive .num)
    (bool : motive .bool) (str : motive .str) (var : ∀ v, motive (.var v))
    (func : ∀ params result, (∀ param ∈ params, motive param) → motive result →
      motive (.func params result))
    (any : motive .any) (error : motive .error) (none : motive .none)
    (const : ∀ base value, motive base → motive (.const base value)) (ty : Ty) :
    motive ty :=
  @Ty.rec motive (fun list => ∀ param ∈ list, motive param)
    int num bool str var (fun params result => func params result) any error none
    (fun base value => const base value) (fun _ hmem => absurd hmem List.not_mem_nil)
    (fun _ _ hfirst hrest _ hmem => by
      rcases List.mem_cons.mp hmem with rfl | hmem
      · exact hfirst
      · exact hrest _ hmem)
    ty

theorem eraseAll_eq_map (list : List Ty) : eraseAll list = list.map erase := by
  induction list with
  | nil => rfl
  | cons first rest ih => rw [eraseAll, ih, List.map_cons]

theorem occursAny_iff_exists {v : VarId} {list : List Ty} :
    occursAny v list = true ↔ ∃ ty ∈ list, ty.occurs v = true := by
  induction list with
  | nil => simp [occursAny]
  | cons first rest ih => simp [occursAny, ih]

theorem anyMentions_iff_exists {leaf : Tag} {list : List Ty} :
    anyMentions leaf list = true ↔ ∃ ty ∈ list, ty.mentions leaf = true := by
  induction list with
  | nil => simp [anyMentions]
  | cons first rest ih => simp [anyMentions, ih]

@[simp] theorem erase_func (params : List Ty) (result : Ty) :
    (func params result).erase = .func (params.map erase) result.erase := by
  rw [erase, eraseAll_eq_map]

@[simp] theorem erase_const (base : Ty) (value : Literal) :
    (const base value).erase = base.erase := by
  rw [erase]

@[simp] theorem occurs_var {v w : VarId} : (var w).occurs v = true ↔ w = v := by
  rw [occurs, beq_iff_eq]

@[simp] theorem occurs_func {v : VarId} {params : List Ty} {result : Ty} :
    (func params result).occurs v = true ↔
      (∃ param ∈ params, param.occurs v = true) ∨ result.occurs v = true := by
  rw [occurs, Bool.or_eq_true, occursAny_iff_exists]

@[simp] theorem occurs_const {v : VarId} {base : Ty} {value : Literal} :
    (const base value).occurs v = base.occurs v := by
  rw [occurs]

@[simp] theorem mentions_func {leaf : Tag} {params : List Ty} {result : Ty} :
    (func params result).mentions leaf = true ↔
      (∃ param ∈ params, param.mentions leaf = true) ∨ result.mentions leaf = true := by
  rw [mentions, Bool.or_eq_true, anyMentions_iff_exists]

@[simp] theorem mentions_const {leaf : Tag} {base : Ty} {value : Literal} :
    (const base value).mentions leaf = base.mentions leaf := by
  rw [mentions]

mutual

/-- Whether a literal wrapper stands anywhere in a type. -/
def hasConst : Ty → Bool
  | .const _ _ => true
  | .func params result => anyHasConst params || result.hasConst
  | _ => false

/-- Whether a literal wrapper stands anywhere in a list of types. -/
def anyHasConst : List Ty → Bool
  | [] => false
  | first :: rest => first.hasConst || anyHasConst rest

end

theorem anyHasConst_eq_false_iff {list : List Ty} :
    anyHasConst list = false ↔ ∀ ty ∈ list, ty.hasConst = false := by
  induction list with
  | nil => simp [anyHasConst]
  | cons first rest ih => simp [anyHasConst, ih]

@[simp] theorem hasConst_func {params : List Ty} {result : Ty} :
    (func params result).hasConst = false ↔
      (∀ param ∈ params, param.hasConst = false) ∧ result.hasConst = false := by
  rw [hasConst, Bool.or_eq_false_iff, anyHasConst_eq_false_iff]

@[simp] theorem hasConst_const {base : Ty} {value : Literal} :
    (const base value).hasConst = true := by
  rw [hasConst]

/-- Erasure leaves no wrapper. -/
@[simp] theorem hasConst_erase (ty : Ty) : ty.erase.hasConst = false := by
  induction ty with
  | func params result ihParams ihResult =>
      rw [erase_func, hasConst_func]
      refine ⟨fun param hparam => ?_, ihResult⟩
      obtain ⟨source, hsource, rfl⟩ := List.mem_map.mp hparam
      exact ihParams source hsource
  | const base value ih => rwa [erase_const]
  | _ => rfl

/-- A type without wrappers is its own erasure. -/
theorem erase_eq_self {ty : Ty} (h : ty.hasConst = false) : ty.erase = ty := by
  induction ty with
  | func params result ihParams ihResult =>
      rw [hasConst_func] at h
      have hparams : params.map erase = params :=
        (List.map_congr_left fun param hparam => ihParams param hparam (h.1 param hparam)).trans
          (List.map_id params)
      rw [erase_func, hparams, ihResult h.2]
  | const base value ih => simp at h
  | _ => rfl

/-- Wrappers hide no variables. -/
@[simp] theorem occurs_erase (v : VarId) (ty : Ty) : ty.erase.occurs v = ty.occurs v := by
  rw [Bool.eq_iff_iff]
  induction ty with
  | func params result ihParams ihResult =>
      simp only [erase_func, occurs_func, List.mem_map, exists_exists_and_eq_and, ihResult]
      exact or_congr_left (exists_congr fun param => and_congr_right (ihParams param))
  | const base value ih => simpa only [erase_const, occurs_const] using ih
  | _ => rfl

@[simp] theorem isClosed_erase (ty : Ty) : ty.erase.isClosed = ty.isClosed := by
  rw [Bool.eq_iff_iff, isClosed_iff, isClosed_iff]
  simp only [occurs_erase]

/-- Wrappers hide no leaves. -/
@[simp] theorem mentions_erase (leaf : Tag) (ty : Ty) :
    ty.erase.mentions leaf = ty.mentions leaf := by
  rw [Bool.eq_iff_iff]
  induction ty with
  | func params result ihParams ihResult =>
      simp only [erase_func, mentions_func, List.mem_map, exists_exists_and_eq_and, ihResult]
      exact or_congr_left (exists_congr fun param => and_congr_right (ihParams param))
  | const base value ih => simpa only [erase_const, mentions_const] using ih
  | _ => rfl

mutual

/-- Put a type for every variable. -/
def instantiate (image : VarId → Ty) : Ty → Ty
  | .var v => image v
  | .func params result => .func (instantiateAll image params) (result.instantiate image)
  | .const base value => .const (base.instantiate image) value
  | ty => ty

/-- `instantiate` on each type of a list. -/
def instantiateAll (image : VarId → Ty) : List Ty → List Ty
  | [] => []
  | first :: rest => first.instantiate image :: instantiateAll image rest

end

theorem instantiateAll_eq_map (image : VarId → Ty) (list : List Ty) :
    instantiateAll image list = list.map (instantiate image) := by
  induction list with
  | nil => rfl
  | cons first rest ih => rw [instantiateAll, ih, List.map_cons]

@[simp] theorem instantiate_var (image : VarId → Ty) (v : VarId) :
    (var v).instantiate image = image v := by
  rw [instantiate]

@[simp] theorem instantiate_func (image : VarId → Ty) (params : List Ty) (result : Ty) :
    (func params result).instantiate image =
      .func (params.map (instantiate image)) (result.instantiate image) := by
  rw [instantiate, instantiateAll_eq_map]

@[simp] theorem instantiate_const (image : VarId → Ty) (base : Ty) (value : Literal) :
    (const base value).instantiate image = .const (base.instantiate image) value := by
  rw [instantiate]

/-- Only the images of the variables that occur matter. -/
theorem instantiate_congr {first second : VarId → Ty} {ty : Ty}
    (h : ∀ v, ty.occurs v = true → first v = second v) :
    ty.instantiate first = ty.instantiate second := by
  induction ty with
  | var v => simpa using h v (occurs_var.mpr rfl)
  | func params result ihParams ihResult =>
      have hparams : params.map (instantiate first) = params.map (instantiate second) :=
        List.map_congr_left fun param hparam =>
          ihParams param hparam fun v hv => h v (occurs_func.mpr (.inl ⟨param, hparam, hv⟩))
      rw [instantiate_func, instantiate_func, hparams,
        ihResult fun v hv => h v (occurs_func.mpr (.inr hv))]
  | const base value ih =>
      rw [instantiate_const, instantiate_const, ih fun v hv => h v (occurs_const.trans hv)]
  | _ => rfl

/-- Putting every variable for itself changes nothing. -/
@[simp] theorem instantiate_var_self (ty : Ty) : ty.instantiate var = ty := by
  induction ty with
  | func params result ihParams ihResult =>
      have hparams : params.map (instantiate var) = params :=
        (List.map_congr_left ihParams).trans (List.map_id params)
      rw [instantiate_func, hparams, ihResult]
  | const base value ih => rw [instantiate_const, ih]
  | _ => rfl

theorem instantiate_of_isClosed {ty : Ty} (h : ty.isClosed = true) (image : VarId → Ty) :
    ty.instantiate image = ty :=
  (instantiate_congr fun v hv => absurd hv (Bool.eq_false_iff.mp (isClosed_iff.mp h v))).trans
    (instantiate_var_self ty)

/-- Variables may be replaced in two rounds or in one. -/
theorem instantiate_instantiate (first second : VarId → Ty) (ty : Ty) :
    (ty.instantiate first).instantiate second =
      ty.instantiate fun v => (first v).instantiate second := by
  induction ty with
  | func params result ihParams ihResult =>
      have hparams : (params.map (instantiate first)).map (instantiate second) =
          params.map (instantiate fun v => (first v).instantiate second) := by
        rw [List.map_map]
        exact List.map_congr_left ihParams
      rw [instantiate_func, instantiate_func, instantiate_func, hparams, ihResult]
  | const base value ih =>
      rw [instantiate_const, instantiate_const, instantiate_const, ih]
  | _ => rfl

/-- The variables after replacement are those of the images of the variables before. -/
theorem occurs_instantiate {image : VarId → Ty} {w : VarId} {ty : Ty} :
    (ty.instantiate image).occurs w = true ↔
      ∃ v, ty.occurs v = true ∧ (image v).occurs w = true := by
  induction ty with
  | var v => simp
  | func params result ihParams ihResult =>
      simp only [instantiate_func, occurs_func, List.mem_map, exists_exists_and_eq_and, ihResult]
      constructor
      · rintro (⟨param, hparam, hocc⟩ | ⟨v, hv, hocc⟩)
        · obtain ⟨v, hv, hocc⟩ := (ihParams param hparam).mp hocc
          exact ⟨v, .inl ⟨param, hparam, hv⟩, hocc⟩
        · exact ⟨v, .inr hv, hocc⟩
      · rintro ⟨v, ⟨param, hparam, hv⟩ | hv, hocc⟩
        · exact .inl ⟨param, hparam, (ihParams param hparam).mpr ⟨v, hv, hocc⟩⟩
        · exact .inr ⟨v, hv, hocc⟩
  | const base value ih => simpa only [instantiate_const, occurs_const] using ih
  | _ => simp [instantiate, occurs]

/-- A leaf other than a variable comes from the type or from the image of a variable. -/
theorem mentions_instantiate {image : VarId → Ty} {leaf : Tag} (hleaf : leaf ≠ .var) {ty : Ty} :
    (ty.instantiate image).mentions leaf = true ↔
      ty.mentions leaf = true ∨ ∃ v, ty.occurs v = true ∧ (image v).mentions leaf = true := by
  induction ty with
  | var v => simp [mentions, tag, hleaf.symm]
  | func params result ihParams ihResult =>
      simp only [instantiate_func, mentions_func, occurs_func, List.mem_map,
        exists_exists_and_eq_and, ihResult]
      constructor
      · rintro (⟨param, hparam, hleaf⟩ | hleaf | ⟨v, hv, hleaf⟩)
        · rcases (ihParams param hparam).mp hleaf with hleaf | ⟨v, hv, hleaf⟩
          · exact .inl (.inl ⟨param, hparam, hleaf⟩)
          · exact .inr ⟨v, .inl ⟨param, hparam, hv⟩, hleaf⟩
        · exact .inl (.inr hleaf)
        · exact .inr ⟨v, .inr hv, hleaf⟩
      · rintro ((⟨param, hparam, hleaf⟩ | hleaf) | ⟨v, ⟨param, hparam, hv⟩ | hv, hleaf⟩)
        · exact .inl ⟨param, hparam, (ihParams param hparam).mpr (.inl hleaf)⟩
        · exact .inr (.inl hleaf)
        · exact .inl ⟨param, hparam, (ihParams param hparam).mpr (.inr ⟨v, hv, hleaf⟩)⟩
        · exact .inr (.inr ⟨v, hv, hleaf⟩)
  | const base value ih => simpa only [instantiate_const, mentions_const, occurs_const] using ih
  | _ => simp [instantiate, occurs]

/-- Erasing after replacement is replacing after erasing, with erased images. -/
theorem erase_instantiate (image : VarId → Ty) (ty : Ty) :
    (ty.instantiate image).erase = ty.erase.instantiate fun v => (image v).erase := by
  induction ty with
  | func params result ihParams ihResult =>
      have hparams : (params.map (instantiate image)).map erase =
          (params.map erase).map (instantiate fun v => (image v).erase) := by
        rw [List.map_map, List.map_map]
        exact List.map_congr_left ihParams
      rw [instantiate_func, erase_func, erase_func, instantiate_func, hparams, ihResult]
  | const base value ih => rw [instantiate_const, erase_const, erase_const, ih]
  | _ => rfl

/-- Replacement that may fault succeeds when every image is there. -/
theorem replaceVars_eq_ok {lookup : VarId → Except Fault Ty} {image : VarId → Ty} {ty : Ty}
    (h : ∀ v, ty.occurs v = true → lookup v = .ok (image v)) :
    ty.replaceVars lookup = .ok (ty.instantiate image) := by
  induction ty with
  | var v =>
      rw [replaceVars, instantiate_var]
      exact h v (occurs_var.mpr rfl)
  | func params result ihParams ihResult =>
      have hresult := ihResult fun v hv => h v (occurs_func.mpr (.inr hv))
      have hparams : replaceVarsAll lookup params = .ok (params.map (instantiate image)) := by
        have himage : ∀ param ∈ params, param.replaceVars lookup = .ok (param.instantiate image) :=
          fun param hparam => ihParams param hparam fun v hv =>
            h v (occurs_func.mpr (.inl ⟨param, hparam, hv⟩))
        clear h ihParams ihResult hresult
        induction params with
        | nil => rfl
        | cons first rest ih =>
            have hrest := ih fun param hparam => himage param (List.mem_cons_of_mem _ hparam)
            rw [replaceVarsAll, himage first List.mem_cons_self, hrest]
            rfl
      rw [replaceVars, hparams, hresult, instantiate_func]
      rfl
  | const base value ih =>
      rw [replaceVars, ih fun v hv => h v (occurs_const.trans hv), instantiate_const]
      rfl
  | _ => rfl

end TypeInference.Ty
