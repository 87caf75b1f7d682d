/-
# Unification from the other side

A unification and the one with its sides exchanged bind different variables: of
two open variables, the one on the expected side is bound.  The two runs are
nevertheless the same up to a permutation of the variables.

`Mirrors` relates two states of reduction whose pairs are exchanged and renamed,
and whose bindings stand for the same types up to the renaming.  Each reduction
of the one is followed by a reduction of the other.  The permutation changes only
where one variable is bound to another; there it takes in the transposition of
the two.  Nothing is asked about wildcards: they are found in the same places on
both sides.
-/

import Mathlib.Logic.Equiv.Basic
import TypeInference.Proofs.Unify.Reduction

namespace TypeInference

namespace Ty

/-- Give other numbers to the variables of a type. -/
def rename (r : VarId → VarId) (ty : Ty) : Ty := ty.instantiate fun v => .var (r v)

variable {r : VarId → VarId}

@[simp] theorem rename_var (v : VarId) : (var v).rename r = .var (r v) := instantiate_var _ v

@[simp] theorem rename_func (params : List Ty) (result : Ty) :
    (func params result).rename r = .func (params.map (rename r)) (result.rename r) :=
  instantiate_func _ params result

@[simp] theorem rename_id (ty : Ty) : ty.rename id = ty := instantiate_var_self ty

@[simp] theorem tag_rename (ty : Ty) : (ty.rename r).tag = ty.tag := by
  cases ty with
  | func params result => rw [rename_func, tag, tag]
  | const base value => rw [rename, instantiate_const, tag, tag]
  | _ => rfl

@[simp] theorem isWildcard_rename (ty : Ty) : (ty.rename r).isWildcard = ty.isWildcard := by
  cases ty with
  | func params result => rw [rename_func, isWildcard.eq_def, isWildcard.eq_def]
  | const base value => rw [rename, instantiate_const, isWildcard.eq_def, isWildcard.eq_def]
  | _ => rfl

theorem exists_of_tag_eq_func {ty : Ty} (h : ty.tag = .func) :
    ∃ params result, ty = .func params result := by
  cases ty with
  | func params result => exact ⟨params, result, rfl⟩
  | _ => cases h

theorem isVar_rename (ty : Ty) : (ty.rename r).isVar = ty.isVar := by
  cases ty with
  | func params result => rw [rename_func, isVar.eq_def, isVar.eq_def]
  | const base value => rw [rename, instantiate_const, isVar.eq_def, isVar.eq_def]
  | _ => rfl

theorem occurs_rename {v : VarId} {ty : Ty} (hr : Function.Injective r) :
    (ty.rename r).occurs (r v) = ty.occurs v := by
  rw [Bool.eq_iff_iff, rename, occurs_instantiate]
  simp only [occurs_var, hr.eq_iff, exists_eq_right]

/-- Renaming after a variable was replaced is replacing the renamed variable. -/
theorem rename_instantiate_update (hr : Function.Injective r) (v : VarId) (ty source : Ty) :
    (source.instantiate (Function.update .var v ty)).rename r =
      (source.rename r).instantiate (Function.update .var (r v) (ty.rename r)) := by
  simp only [rename, instantiate_instantiate]
  apply instantiate_congr
  intro w _
  by_cases hw : w = v
  · rw [hw, Function.update_self, instantiate_var, Function.update_self]
  · rw [Function.update_of_ne hw, instantiate_var, instantiate_var,
      Function.update_of_ne (hr.ne hw)]

/-- Binding one variable to another or the other to the one is the same up to
exchanging the two. -/
theorem rename_instantiate_update_swap (r : Equiv.Perm VarId) {v w : VarId} (hne : v ≠ w)
    (source : Ty) :
    (source.instantiate (Function.update .var v (.var w))).rename ((Equiv.swap v w).trans r) =
      (source.rename r).instantiate (Function.update .var (r w) (.var (r v))) := by
  simp only [rename, instantiate_instantiate]
  apply instantiate_congr
  intro u _
  by_cases huv : u = v
  · rw [huv, Function.update_self, instantiate_var, instantiate_var,
      Function.update_of_ne (r.injective.ne hne), Equiv.trans_apply, Equiv.swap_apply_right]
  · rw [Function.update_of_ne huv, instantiate_var, instantiate_var]
    by_cases huw : u = w
    · rw [huw, Function.update_self, Equiv.trans_apply, Equiv.swap_apply_right]
    · rw [Function.update_of_ne (r.injective.ne huw), Equiv.trans_apply,
        Equiv.swap_apply_of_ne_of_ne huv huw]

end Ty

/-- A new binding is put into what every variable stood for. -/
theorem Subst.Admits.image_extend {s : Subst} {v : VarId} {ty : Ty} (h : s.Admits v ty)
    (hs : s.Acyclic) (u : VarId) :
    (s.extend v ty).image u = (s.image u).instantiate (Function.update .var v ty) := by
  have hvar := h.instantiate_image_extend hs (.var u)
  rwa [Ty.instantiate_var, Ty.instantiate_var] at hvar

namespace Unify

section Examine

variable {x y ty : Ty} {v : VarId} {pairs : List (Ty × Ty)}

theorem eq_of_examine_eq_parts (h : examine x y = .parts pairs) :
    pairs = [] ∨ ∃ params result params' result', x = .func params result ∧
      y = .func params' result' ∧ pairs = params.zip params' ++ [(result, result')] := by
  unfold examine at h
  split at h
  · cases h
    exact .inl rfl
  split at h
  · split at h
    · cases h
      exact .inl rfl
    · split at h <;> cases h
  · split at h <;> cases h
  · split at h
    · cases h
      exact .inr ⟨_, _, _, _, rfl, rfl, rfl⟩
    · cases h
  · split at h
    · cases h
      exact .inl rfl
    · cases h

theorem eq_of_examine_eq_binding (h : examine x y = .binding v ty) :
    ty.occurs v = false ∧ (x = .var v ∧ y = ty ∨ y = .var v ∧ x = ty) := by
  unfold examine at h
  split at h
  · cases h
  split at h
  · split at h
    · cases h
    · split at h
      · cases h
      · rename_i hocc
        cases h
        exact ⟨Bool.eq_false_iff.mpr hocc, .inl ⟨rfl, rfl⟩⟩
  · split at h
    · cases h
    · rename_i hocc
      cases h
      exact ⟨Bool.eq_false_iff.mpr hocc, .inr ⟨rfl, rfl⟩⟩
  · split at h <;> cases h
  · split at h <;> cases h

end Examine

/-- All pairs that wait are in their stored form. -/
structure Normal (c : Subst × List (Ty × Ty)) : Prop where
  acyclic : c.1.Acyclic
  stored : ∀ pair ∈ c.2, c.1.storedPair pair = pair

theorem normal_reduced {c : Progress × List (Ty × Ty)} (hs : c.1.subst.Acyclic) :
    Normal (reduced c) := by
  refine ⟨hs, ?_⟩
  intro pair hpair
  obtain ⟨source, _, rfl⟩ := List.mem_map.mp hpair
  have hstored := Subst.Grows.refl.stored_stored hs
  exact Prod.ext (hstored source.1) (hstored source.2)

/-- What is bound in a normal state may be bound. -/
theorem Normal.admits {s : Subst} {x y ty : Ty} {v : VarId} {rest : List (Ty × Ty)}
    (h : Normal (s, (x, y) :: rest)) (hfound : examine x y = .binding v ty) : s.Admits v ty := by
  have hpair := h.stored _ List.mem_cons_self
  have hx : s.stored x = x := congrArg Prod.fst hpair
  have hy : s.stored y = y := congrArg Prod.snd hpair
  have hopen {z : Ty} (hz : s.stored z = z) {w : VarId} (hw : z.occurs w = true) :
      s.lookup w = none := by
    rw [← hz, Subst.stored, Ty.occurs_erase] at hw
    exact h.acyclic.lookup_eq_none_of_occurs hw
  have hadmits (hv : s.stored (.var v) = .var v) (hty : s.stored ty = ty)
      (hocc : ty.occurs v = false) : s.Admits v ty := by
    refine ⟨hopen hv (Ty.occurs_var.mpr rfl), hty ▸ Ty.hasConst_erase _,
      fun w hw => ⟨?_, hopen hty hw⟩⟩
    rintro rfl
    rw [hocc] at hw
    cases hw
  obtain ⟨hocc, ⟨rfl, rfl⟩ | ⟨rfl, rfl⟩⟩ := eq_of_examine_eq_binding hfound
  · exact hadmits hx hy hocc
  · exact hadmits hy hx hocc

/-- A new binding is stored as soon as it is put into a stored type. -/
theorem stored_extend_instantiate {s : Subst} {v : VarId} {ty z : Ty} (hadmits : s.Admits v ty)
    (hs : s.Acyclic) (hz : s.stored z = z) :
    (s.extend v ty).stored (z.instantiate (Function.update .var v ty)) =
      z.instantiate (Function.update .var v ty) := by
  have hacyclic := hadmits.acyclic_extend hs
  have himage : z.instantiate (fun w => (Function.update Ty.var v ty w).instantiate
      (s.extend v ty).image) = z.instantiate (s.extend v ty).image := by
    apply Ty.instantiate_congr
    intro w _
    by_cases hw : w = v
    · rw [hw, Function.update_self,
        hacyclic.image_of_lookup_eq_some (Subst.lookup_extend_self s v ty)]
    · rw [Function.update_of_ne hw, Ty.instantiate_var]
  calc (s.extend v ty).stored (z.instantiate (Function.update .var v ty))
      = (s.extend v ty).stored z := by
        rw [Subst.stored, Ty.instantiate_instantiate, himage, Subst.stored]
    _ = z.instantiate (Function.update .var v ty) := by rw [hadmits.stored_extend hs, hz]

theorem Reduce.normal {c d : Subst × List (Ty × Ty)} (h : Reduce c d) (hc : Normal c) :
    Normal d := by
  cases h with
  | @parts s x y pairs rest hfound =>
      refine ⟨hc.acyclic, List.forall_mem_append.mpr ⟨?_, fun pair hpair =>
        hc.stored pair (List.mem_cons_of_mem _ hpair)⟩⟩
      have hheads := hc.stored _ List.mem_cons_self
      rcases eq_of_examine_eq_parts hfound with
        rfl | ⟨params, result, params', result', rfl, rfl, rfl⟩
      · exact fun _ hpair => absurd hpair List.not_mem_nil
      simp only [Subst.storedPair, Subst.stored_func, Prod.mk.injEq, Ty.func.injEq] at hheads
      obtain ⟨⟨hparams, hresult⟩, hparams', hresult'⟩ := hheads
      have hparam := List.map_inj_left.mp (hparams.trans (List.map_id params).symm)
      have hparam' := List.map_inj_left.mp (hparams'.trans (List.map_id params').symm)
      intro pair hpair
      rcases List.mem_append.mp hpair with hpair | hpair
      · obtain ⟨hleft, hright⟩ := List.of_mem_zip hpair
        exact Prod.ext (hparam _ hleft) (hparam' _ hright)
      · rw [List.mem_singleton.mp hpair]
        exact Prod.ext hresult hresult'
  | @binding s x y ty v rest hfound =>
      have hadmits := hc.admits hfound
      refine ⟨hadmits.acyclic_extend hc.acyclic, ?_⟩
      intro pair hpair
      obtain ⟨source, hsource, rfl⟩ := List.mem_map.mp hpair
      have hstored := hc.stored source (List.mem_cons_of_mem _ hsource)
      exact Prod.ext
        (stored_extend_instantiate hadmits hc.acyclic (congrArg Prod.fst hstored))
        (stored_extend_instantiate hadmits hc.acyclic (congrArg Prod.snd hstored))

/-! ## The mirrored run -/

/-- Exchange the sides of a pair and rename its variables. -/
def mirrorPair (r : VarId → VarId) (pair : Ty × Ty) : Ty × Ty :=
  (pair.2.rename r, pair.1.rename r)

/-- What is found from the other side after renaming. -/
inductive Finding.Mirrors (r : Equiv.Perm VarId) : Finding → Finding → Prop
  | parts (pairs : List (Ty × Ty)) : Mirrors r (.parts pairs) (.parts (pairs.map (mirrorPair r)))
  | binding (v : VarId) (ty : Ty) : Mirrors r (.binding v ty) (.binding (r v) (ty.rename r))
  | exchanged {v w : VarId} (hne : v ≠ w) :
      Mirrors r (.binding v (.var w)) (.binding (r w) (.var (r v)))
  | conflict {error error' : TypeError} (h : error'.category = error.category) :
      Mirrors r (.conflict error) (.conflict error')

theorem examine_func_mirrors (r : Equiv.Perm VarId) (params params' : List Ty)
    (result result' : Ty) :
    (examine (.func params result) (.func params' result')).Mirrors r
      (examine ((Ty.func params' result').rename r) ((Ty.func params result).rename r)) := by
  rw [Ty.rename_func, Ty.rename_func, examine_func, examine_func, List.length_map, List.length_map]
  by_cases hlength : params.length = params'.length
  · have hzip : (params'.map (Ty.rename r)).zip (params.map (Ty.rename r)) =
        (params.zip params').map (mirrorPair r) := by
      rw [List.zip_map, ← List.zip_swap, List.map_map]
      rfl
    rw [if_pos hlength, if_pos hlength.symm, hzip]
    have hparts := Finding.Mirrors.parts (r := r) (params.zip params' ++ [(result, result')])
    rwa [List.map_append] at hparts
  · rw [if_neg hlength, if_neg (Ne.symm hlength)]
    exact .conflict rfl

/-- Two types conflict, make a binding or leave parts alike from both sides. -/
theorem examine_mirrors (r : Equiv.Perm VarId) (x y : Ty) :
    (examine x y).Mirrors r (examine (y.rename r) (x.rename r)) := by
  by_cases hwild : (x.isWildcard || y.isWildcard) = true
  · have hwild' : ((y.rename r).isWildcard || (x.rename r).isWildcard) = true := by
      rwa [Ty.isWildcard_rename, Ty.isWildcard_rename, Bool.or_comm]
    rw [examine_of_isWildcard hwild, examine_of_isWildcard hwild']
    exact .parts []
  rw [Bool.or_eq_true, not_or, Bool.not_eq_true, Bool.not_eq_true] at hwild
  obtain ⟨hx, hy⟩ := hwild
  have hxr : (x.rename r).isWildcard = false := (Ty.isWildcard_rename x).trans hx
  have hyr : (y.rename r).isWildcard = false := (Ty.isWildcard_rename y).trans hy
  by_cases hxvar : x.isVar = true
  · obtain ⟨v, rfl⟩ := Ty.exists_of_isVar hxvar
    by_cases hself : y = .var v
    · rw [hself, Ty.rename_var, examine_var_self, examine_var_self]
      exact .parts []
    rw [examine_var_left hy hself]
    by_cases hyvar : y.isVar = true
    · obtain ⟨w, rfl⟩ := Ty.exists_of_isVar hyvar
      have hne : v ≠ w := fun heq => hself (congrArg Ty.var heq.symm)
      have hocc : ¬ (Ty.var w).occurs v = true := fun h => hne (Ty.occurs_var.mp h).symm
      have hocc' : ¬ (Ty.var (r v)).occurs (r w) = true :=
        fun h => hne (r.injective (Ty.occurs_var.mp h))
      -- Here alone the two sides bind different variables.
      have hself' : Ty.var (r v) ≠ .var (r w) := fun h => hne (r.injective (Ty.var.inj h))
      rw [Ty.rename_var, Ty.rename_var, examine_var_left rfl hself', if_neg hocc, if_neg hocc']
      exact .exchanged hne
    · rw [Bool.not_eq_true] at hyvar
      have hyvar' : (y.rename r).isVar = false := (Ty.isVar_rename y).trans hyvar
      rw [Ty.rename_var, examine_var_right hyr hyvar', Ty.occurs_rename r.injective]
      split
      · exact .conflict rfl
      · exact .binding v y
  rw [Bool.not_eq_true] at hxvar
  have hxvar' : (x.rename r).isVar = false := (Ty.isVar_rename x).trans hxvar
  by_cases hyvar : y.isVar = true
  · obtain ⟨w, rfl⟩ := Ty.exists_of_isVar hyvar
    have hne : x.rename r ≠ .var (r w) := fun heq => by
      rw [heq] at hxvar'
      cases hxvar'
    rw [Ty.rename_var, examine_var_right hx hxvar, examine_var_left hxr hne,
      Ty.occurs_rename r.injective]
    split
    · exact .conflict rfl
    · exact .binding w x
  rw [Bool.not_eq_true] at hyvar
  have hyvar' : (y.rename r).isVar = false := (Ty.isVar_rename y).trans hyvar
  by_cases hfunc : x.tag = .func ∧ y.tag = .func
  · obtain ⟨params, result, rfl⟩ := Ty.exists_of_tag_eq_func hfunc.1
    obtain ⟨params', result', rfl⟩ := Ty.exists_of_tag_eq_func hfunc.2
    exact examine_func_mirrors r params params' result result'
  · have hnot : x.tag = y.tag → x.tag ≠ .func := fun htag h => hfunc ⟨h, htag ▸ h⟩
    have hnot' : (y.rename r).tag = (x.rename r).tag → (y.rename r).tag ≠ .func := by
      rw [Ty.tag_rename, Ty.tag_rename]
      exact fun htag h => hfunc ⟨htag ▸ h, h⟩
    rw [examine_of_tags hx hxvar hy hyvar hnot, examine_of_tags hyr hyvar' hxr hxvar' hnot',
      Ty.tag_rename, Ty.tag_rename]
    by_cases htag : x.tag = y.tag
    · rw [if_pos htag, if_pos htag.symm]
      exact .parts []
    · rw [if_neg htag, if_neg (Ne.symm htag)]
      exact .conflict rfl

/-- The second state is the first with its pairs mirrored, and its bindings stand
for the same types up to the renaming. -/
structure Mirrors (r : Equiv.Perm VarId) (c d : Subst × List (Ty × Ty)) : Prop where
  image : ∀ v, d.1.image v = (c.1.image v).rename r
  work : d.2 = c.2.map (mirrorPair r)

/-- Every reduction is followed by one of the mirrored state. -/
theorem Mirrors.reduce {r : Equiv.Perm VarId} {c c' d : Subst × List (Ty × Ty)}
    (h : Mirrors r c d) (hc : Normal c) (hd : Normal d) (hreduce : Reduce c c') :
    ∃ r' d', Reduce d d' ∧ Mirrors r' c' d' := by
  obtain ⟨t, work⟩ := d
  obtain ⟨himage, rfl⟩ : _ ∧ work = _ := ⟨h.image, h.work⟩
  cases hreduce with
  | @parts s x y pairs rest hfound =>
      have hmirrors := examine_mirrors r x y
      rw [hfound] at hmirrors
      generalize hfound' : examine (y.rename r) (x.rename r) = finding at hmirrors
      cases hmirrors with
      | parts => exact ⟨r, _, .parts hfound', himage, List.map_append.symm⟩
  | @binding s x y ty v rest hfound =>
      have hmirrors := examine_mirrors r x y
      rw [hfound] at hmirrors
      generalize hfound' : examine (y.rename r) (x.rename r) = finding at hmirrors
      have hextend := (hc.admits hfound).image_extend hc.acyclic
      cases hmirrors with
      | binding =>
          refine ⟨r, _, .binding hfound', fun u => ?_, ?_⟩
          · rw [(hd.admits hfound').image_extend hd.acyclic, hextend, himage,
              Ty.rename_instantiate_update r.injective]
          · simp [Function.comp_def, mirrorPair, replaceIn,
              Ty.rename_instantiate_update r.injective]
      | @exchanged v w hne =>
          refine ⟨(Equiv.swap v w).trans r, _, .binding hfound', fun u => ?_, ?_⟩
          · rw [(hd.admits hfound').image_extend hd.acyclic, hextend, himage,
              Ty.rename_instantiate_update_swap r hne]
          · simp only [List.map_map, Function.comp_def, mirrorPair, replaceIn,
              Ty.rename_instantiate_update_swap r hne]

theorem Mirrors.reduces {r : Equiv.Perm VarId} {c c' d : Subst × List (Ty × Ty)}
    (h : Mirrors r c d) (hc : Normal c) (hd : Normal d) (hreduces : Reduces c c') :
    ∃ r' d', Reduces d d' ∧ Mirrors r' c' d' := by
  have hrun : ∃ r' d', Reduces d d' ∧ Mirrors r' c' d' ∧ Normal c' ∧ Normal d' := by
    induction hreduces with
    | refl => exact ⟨r, d, .refl, h, hc, hd⟩
    | tail _ hreduce ih =>
        obtain ⟨r', d', hreduces', hmirrors, hc', hd'⟩ := ih
        obtain ⟨r'', d'', hreduce', hmirrors'⟩ := hmirrors.reduce hc' hd' hreduce
        exact ⟨r'', d'', hreduces'.tail hreduce', hmirrors', hreduce.normal hc',
          hreduce'.normal hd'⟩
  obtain ⟨r', d', hreduces', hmirrors, _⟩ := hrun
  exact ⟨r', d', hreduces', hmirrors⟩

/-- From the other side the same is solved, up to a permutation of the variables. -/
theorem Settles.mirror_ok {c d : Subst × List (Ty × Ty)} {r : Equiv.Perm VarId} {t : Subst}
    (hsettles : Settles c (.ok t)) (h : Mirrors r c d) (hc : Normal c) (hd : Normal d) :
    ∃ (r' : Equiv.Perm VarId) (t' : Subst), Settles d (.ok t') ∧
      ∀ v, t'.image v = (t.image v).rename r' := by
  cases hsettles with
  | solved hreduces =>
      obtain ⟨r', ⟨t', work⟩, hreduces', himage, hwork⟩ := h.reduces hc hd hreduces
      have hwork : work = [] := hwork
      rw [hwork] at hreduces'
      exact ⟨r', t', .solved hreduces', himage⟩

/-- From the other side there is a conflict of the same kind. -/
theorem Settles.mirror_error {c d : Subst × List (Ty × Ty)} {r : Equiv.Perm VarId}
    {error : TypeError} (hsettles : Settles c (.error error)) (h : Mirrors r c d) (hc : Normal c)
    (hd : Normal d) : ∃ error', Settles d (.error error') ∧ error'.category = error.category := by
  cases hsettles with
  | @refused t x y rest _ hreduces hconflict =>
      obtain ⟨r', ⟨t', work⟩, hreduces', himage, hwork⟩ := h.reduces hc hd hreduces
      have hwork : work = mirrorPair r' (x, y) :: rest.map (mirrorPair r') := hwork
      rw [hwork] at hreduces'
      have hmirrors := examine_mirrors r' x y
      rw [hconflict] at hmirrors
      generalize hfound : examine (y.rename r') (x.rename r') = finding at hmirrors
      cases hmirrors with
      | conflict hcategory => exact ⟨_, .refused hreduces' hfound, hcategory⟩

end Unify

end TypeInference
