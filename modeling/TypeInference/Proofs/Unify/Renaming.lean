/-
# Unification with other numbers

Unification compares variables, follows and binds them, and looks at nothing
else about their numbers.  Under a renaming that keeps the order it goes through
the same steps: the bindings, the events and the error are renamed.

The texts of an error do not even show the renaming.  They name variables by
letters, and letters are given out in the order of the numbers.
-/

import TypeInference.Proofs.Subst.Renaming

namespace TypeInference

variable {r : VarId ↪o VarId}

/-- A type error with other numbers for its variables. -/
def TypeError.rename (r : VarId ↪o VarId) : TypeError → TypeError
  | .mismatch expected actual => .mismatch (expected.rename r) (actual.rename r)
  | .arity expected actual expectedTy actualTy =>
      .arity expected actual (expectedTy.rename r) (actualTy.rename r)
  | .infinite v ty => .infinite (r v) (ty.rename r)
  | .unresolved subject ty => .unresolved subject (ty.rename r)
  | .unsatisfied ty traitName => .unsatisfied (ty.rename r) traitName
  | error => error

theorem letterNameIn_map (r : VarId ↪o VarId) {vars : List VarId} {v : VarId} (h : v ∈ vars) :
    letterNameIn (vars.map r) (r v) = letterNameIn vars v := by
  have hindex : (vars.map r).findIdx? (· == r v) = vars.findIdx? (· == v) := by
    rw [List.findIdx?_map]
    refine congrArg (vars.findIdx? ·) (funext fun w => ?_)
    simp [Function.comp, r.injective.eq_iff]
  rw [letterNameIn, letterNameIn, hindex]
  cases hfound : vars.findIdx? (· == v) with
  | some index => rfl
  | none =>
      rw [List.findIdx?_eq_none_iff] at hfound
      simpa using hfound v h

namespace Ty

/-- Names for the variables of a type are all that its text depends on. -/
theorem textWith_congr {name name' : VarId → String} {ty : Ty}
    (h : ∀ v ∈ ty.varOccurrences, name v = name' v) : ty.textWith name = ty.textWith name' := by
  induction ty with
  | func params result ihParams ihResult =>
      rw [varOccurrences_func] at h
      obtain ⟨hparams, hresult⟩ := List.forall_mem_append.mp h
      have htexts : params.map (textWith name) = params.map (textWith name') :=
        List.map_congr_left fun param hparam => ihParams param hparam fun v hv =>
          hparams v (List.mem_flatMap_of_mem hparam hv)
      rw [textWith, textWith, textsWith_eq_map, textsWith_eq_map, htexts, ihResult hresult]
  | const base value ih =>
      rw [varOccurrences] at h
      rw [textWith, textWith, ih h]
  | var v =>
      rw [textWith, textWith]
      exact h v (by simp [varOccurrences])
  | _ => rfl

/-- Letters are given out by the order of the variables, which a renaming keeps. -/
theorem lettered_rename (r : VarId ↪o VarId) (left right : Ty) :
    lettered (left.rename r) (right.rename r) = lettered left right := by
  have hvars : sharedVars (left.rename r) (right.rename r) = (sharedVars left right).map r := by
    rw [sharedVars, varOccurrences_rename, varOccurrences_rename, ← List.map_append,
      ascendingDistinct_map, sharedVars]
  rw [lettered_eq_textWith, lettered_eq_textWith, hvars, textWith_rename, textWith_rename]
  refine Prod.ext (textWith_congr fun v hv => ?_) (textWith_congr fun v hv => ?_)
  · exact letterNameIn_map r (mem_ascendingDistinct.mpr (List.mem_append_left _ hv))
  · exact letterNameIn_map r (mem_ascendingDistinct.mpr (List.mem_append_right _ hv))

theorem letteredText_rename (r : VarId ↪o VarId) (ty : Ty) :
    (ty.rename r).letteredText = ty.letteredText :=
  congrArg Prod.fst (lettered_rename r ty .none)

end Ty

namespace TypeError

@[simp] theorem category_rename (error : TypeError) :
    (error.rename r).category = error.category := by
  cases error <;> rfl

@[simp] theorem help?_rename (error : TypeError) : (error.rename r).help? = error.help? := by
  cases error <;> rfl

/-- A message does not show the numbers of variables. -/
@[simp] theorem message_rename (error : TypeError) : (error.rename r).message = error.message := by
  unfold rename message
  cases error with
  | mismatch expected actual | arity _ _ expected actual =>
      dsimp only
      rw [Ty.lettered_rename]
  | infinite v ty =>
      dsimp only
      rw [← Ty.rename_var, Ty.lettered_rename]
  | unresolved subject ty | unsatisfied ty traitName =>
      dsimp only
      rw [Ty.letteredText_rename]
  | unknownIdentifier name | unknownTypeName name => rfl

end TypeError

/-- An event with other numbers for its variables. -/
def Event.rename (r : VarId ↪o VarId) : Event → Event
  | .wildcard expected actual => .wildcard (expected.rename r) (actual.rename r)
  | .sameVar v => .sameVar (r v)
  | .sameLeaf expected actual => .sameLeaf (expected.rename r) (actual.rename r)
  | .unwrapped expected actual => .unwrapped (expected.rename r) (actual.rename r)
  | .bound v ty => .bound (r v) (ty.rename r)
  | .decomposed expected actual => .decomposed (expected.rename r) (actual.rename r)
  | .occursIn v ty => .occursIn (r v) (ty.rename r)
  | .mismatched expected actual => .mismatched (expected.rename r) (actual.rename r)
  | .arityDiffers expected actual => .arityDiffers (expected.rename r) (actual.rename r)
  | .rolledBack expected actual count => .rolledBack (expected.rename r) (actual.rename r) count

theorem Ty.isProper_rename (ty : Ty) : (ty.rename r).isProper = ty.isProper := by
  cases ty with
  | func params result => rw [rename_func, isProper.eq_def, isProper.eq_def]
  | const base value => rw [rename_const, isProper.eq_def, isProper.eq_def]
  | _ => rfl

namespace Unify

/-- A state of unification with other numbers for its variables. -/
def Progress.rename (r : VarId ↪o VarId) (p : Progress) : Progress :=
  ⟨p.subst.rename r, p.log.map (Event.rename r)⟩

/-- An end of unification with other numbers for its variables. -/
def Attempt.rename (r : VarId ↪o VarId) : Attempt → Attempt
  | .solved p => .solved (p.rename r)
  | .failed error p => .failed (error.rename r) (p.rename r)
  | .broken fault => .broken (fault.rename r)

variable (r)

theorem Attempt.andThen_rename (attempt : Attempt) {next next' : Progress → Attempt}
    (hnext : ∀ p, next' (p.rename r) = (next p).rename r) :
    (attempt.rename r).andThen next' = (attempt.andThen next).rename r := by
  cases attempt with
  | solved p => exact hnext p
  | failed error p => rfl
  | broken fault => rfl

theorem Attempt.given_rename {α : Type} {x x' : Except Fault α} {f : α → α}
    {next next' : α → Attempt} (h : x' = renamed r f x)
    (hnext : ∀ a, next' (f a) = (next a).rename r) :
    Attempt.given x' next' = (Attempt.given x next).rename r := by
  rw [h]
  cases x with
  | error fault => rfl
  | ok a => exact hnext a

variable (p : Progress) (x y : Ty)

theorem bindErased_rename (v : VarId) (ty : Ty) :
    bindErased (p.rename r) (r v) (ty.rename r) = (bindErased p v ty).rename r := by
  rw [bindErased, bindErased, Ty.occurs_rename r.injective]
  split
  · rfl
  · exact Attempt.given_rename r (Subst.bind_rename r p.subst v ty) fun _ => rfl

theorem bindVar_rename (v : VarId) (ty : Ty) :
    bindVar (p.rename r) (r v) (ty.rename r) = (bindVar p v ty).rename r := by
  refine Attempt.given_rename r (Subst.apply_rename r p.subst ty) fun applied => ?_
  rw [Ty.erase_rename]
  exact bindErased_rename r p v applied.erase

theorem mismatch_rename :
    mismatch (p.rename r) (x.rename r) (y.rename r) = (mismatch p x y).rename r :=
  Attempt.given_rename r (Subst.apply_rename r p.subst x) fun _ =>
    Attempt.given_rename r (Subst.apply_rename r p.subst y) fun _ => rfl

theorem arityMismatch_rename (params params' : List Ty) :
    arityMismatch (p.rename r) (params.map (Ty.rename r)) (params'.map (Ty.rename r))
      (x.rename r) (y.rename r) = (arityMismatch p params params' x y).rename r := by
  rw [arityMismatch, List.length_map, List.length_map]
  exact Attempt.given_rename r (Subst.apply_rename r p.subst x) fun _ =>
    Attempt.given_rename r (Subst.apply_rename r p.subst y) fun _ => rfl

section Heads

variable {p x y} {solve : Progress → Ty → Ty → Attempt} {v w : VarId}

theorem solveHeads_of_isWildcard (h : (x.isWildcard || y.isWildcard) = true) :
    solveHeads solve p x y = .solved (p.note (.wildcard x y)) := by
  unfold solveHeads
  rw [if_pos h]

theorem solveHeads_const_left {base : Ty} {value : Literal} (hy : y.isWildcard = false) :
    solveHeads solve p (.const base value) y =
      solve (p.note (.unwrapped (.const base value) y)) base y := by
  have hwild : ¬ ((Ty.const base value).isWildcard || y.isWildcard) = true := by
    rw [hy]
    exact Bool.false_ne_true
  unfold solveHeads
  rw [if_neg hwild]

theorem solveHeads_const_right {base : Ty} {value : Literal} (hx : x.isProper = true) :
    solveHeads solve p x (.const base value) =
      solve (p.note (.unwrapped x (.const base value))) x base := by
  cases x with
  | any | error | const => cases hx
  | _ => rfl

theorem solveHeads_var_var :
    solveHeads solve p (.var v) (.var w) =
      if v = w then .solved (p.note (.sameVar v)) else bindVar p v (.var w) :=
  rfl

theorem solveHeads_var_left (hy : y.isProper = true) (hvar : y.isVar = false) :
    solveHeads solve p (.var v) y = bindVar p v y := by
  cases y with
  | any | error | const => cases hy
  | var w => cases hvar
  | _ => rfl

theorem solveHeads_var_right (hx : x.isProper = true) (hvar : x.isVar = false) :
    solveHeads solve p x (.var w) = bindVar p w x := by
  cases x with
  | any | error | const => cases hx
  | var v => cases hvar
  | _ => rfl

theorem solveHeads_func {params params' : List Ty} {result result' : Ty} :
    solveHeads solve p (.func params result) (.func params' result') =
      if params.length = params'.length then
        solveAll solve (p.note (.decomposed (.func params result) (.func params' result')))
          (params.zip params' ++ [(result, result')])
      else arityMismatch p params params' (.func params result) (.func params' result') :=
  rfl

/-- Two heads that are neither variables nor both functions are compared by their tags. -/
theorem solveHeads_of_tags (hx : x.isProper = true) (hxvar : x.isVar = false)
    (hy : y.isProper = true) (hyvar : y.isVar = false) (hfunc : x.tag = y.tag → x.tag ≠ .func) :
    solveHeads solve p x y =
      if x.tag = y.tag then .solved (p.note (.sameLeaf x y)) else mismatch p x y := by
  cases x with
  | any | error | const => cases hx
  | var v => cases hxvar
  | func params result =>
      cases y with
      | any | error | const => cases hy
      | var w => cases hyvar
      | func params' result' => exact absurd rfl (hfunc rfl)
      | _ => rfl
  | _ =>
      cases y with
      | any | error | const => cases hy
      | var w => cases hyvar
      | _ => rfl

end Heads

/-- Both types of a pair with other numbers. -/
def renamePair (r : VarId ↪o VarId) (pair : Ty × Ty) : Ty × Ty :=
  (pair.1.rename r, pair.2.rename r)

section Parts

variable {solve : Progress → Ty → Ty → Attempt}
  (hsolve : ∀ p x y, solve (p.rename r) (x.rename r) (y.rename r) = (solve p x y).rename r)

include hsolve

theorem solveAll_rename (work : List (Ty × Ty)) :
    solveAll solve (p.rename r) (work.map (renamePair r)) = (solveAll solve p work).rename r := by
  induction work generalizing p with
  | nil => rfl
  | cons pair rest ih =>
      rw [List.map_cons, renamePair, solveAll, solveAll, hsolve]
      exact Attempt.andThen_rename r _ ih

/-- Heads that are neither variables, wildcards nor wrappers. -/
theorem solveHeads_rename_of_isProper (hx : x.isProper = true) (hxvar : x.isVar = false)
    (hy : y.isProper = true) (hyvar : y.isVar = false) :
    solveHeads solve (p.rename r) (x.rename r) (y.rename r) =
      (solveHeads solve p x y).rename r := by
  by_cases hfunc : x.tag = y.tag → x.tag ≠ .func
  · rw [solveHeads_of_tags hx hxvar hy hyvar hfunc, solveHeads_of_tags
      ((Ty.isProper_rename x).trans hx) ((Ty.isVar_rename x).trans hxvar)
      ((Ty.isProper_rename y).trans hy) ((Ty.isVar_rename y).trans hyvar) (by simpa using hfunc),
      Ty.tag_rename, Ty.tag_rename]
    split
    · rfl
    · exact mismatch_rename r p x y
  push Not at hfunc
  obtain ⟨htag, hxtag⟩ := hfunc
  obtain ⟨params, result, rfl⟩ := Ty.exists_of_tag_eq_func hxtag
  obtain ⟨params', result', rfl⟩ := Ty.exists_of_tag_eq_func (htag ▸ hxtag)
  have hwork : (params.map (Ty.rename r)).zip (params'.map (Ty.rename r)) ++
      [(result.rename r, result'.rename r)] =
      (params.zip params' ++ [(result, result')]).map (renamePair r) := by
    rw [List.map_append, List.zip_map]
    rfl
  have hsame := arityMismatch_rename r p (.func params result) (.func params' result')
  simp only [Ty.rename_func] at hsame ⊢
  rw [solveHeads_func, solveHeads_func, List.length_map, List.length_map, hwork]
  split
  · rw [← solveAll_rename r _ hsolve]
    simp only [Progress.note, Progress.rename, List.map_cons, Event.rename, Ty.rename_func]
  · exact hsame params params'

theorem solveHeads_rename :
    solveHeads solve (p.rename r) (x.rename r) (y.rename r) =
      (solveHeads solve p x y).rename r := by
  by_cases hwild : (x.isWildcard || y.isWildcard) = true
  · rw [solveHeads_of_isWildcard hwild, solveHeads_of_isWildcard (by simpa using hwild)]
    rfl
  rw [Bool.or_eq_true, not_or, Bool.not_eq_true, Bool.not_eq_true] at hwild
  obtain ⟨hxwild, hywild⟩ := hwild
  by_cases hx : ∃ base value, x = .const base value
  · obtain ⟨base, value, rfl⟩ := hx
    rw [Ty.rename_const, solveHeads_const_left hywild,
      solveHeads_const_left ((Ty.isWildcard_rename y).trans hywild), ← hsolve]
    rfl
  have hxproper := Ty.isProper_of_ne hxwild fun base value heq => hx ⟨base, value, heq⟩
  by_cases hy : ∃ base value, y = .const base value
  · obtain ⟨base, value, rfl⟩ := hy
    rw [Ty.rename_const, solveHeads_const_right hxproper,
      solveHeads_const_right ((Ty.isProper_rename x).trans hxproper), ← hsolve]
    rfl
  have hyproper := Ty.isProper_of_ne hywild fun base value heq => hy ⟨base, value, heq⟩
  cases hxvar : x.isVar with
  | true =>
      obtain ⟨v, rfl⟩ := Ty.exists_of_isVar hxvar
      rw [Ty.rename_var]
      cases hyvar : y.isVar with
      | true =>
          obtain ⟨w, rfl⟩ := Ty.exists_of_isVar hyvar
          rw [Ty.rename_var, solveHeads_var_var, solveHeads_var_var]
          by_cases heq : v = w
          · rw [if_pos heq, if_pos (congrArg r heq)]
            rfl
          · rw [if_neg heq, if_neg (r.injective.ne heq)]
            exact bindVar_rename r p v (.var w)
      | false =>
          rw [solveHeads_var_left hyproper hyvar, solveHeads_var_left
            ((Ty.isProper_rename y).trans hyproper) ((Ty.isVar_rename y).trans hyvar)]
          exact bindVar_rename r p v y
  | false =>
      cases hyvar : y.isVar with
      | true =>
          obtain ⟨w, rfl⟩ := Ty.exists_of_isVar hyvar
          rw [Ty.rename_var, solveHeads_var_right hxproper hxvar, solveHeads_var_right
            ((Ty.isProper_rename x).trans hxproper) ((Ty.isVar_rename x).trans hxvar)]
          exact bindVar_rename r p w x
      | false => exact solveHeads_rename_of_isProper r p x y hsolve hxproper hxvar hyproper hyvar

end Parts

theorem solve_rename (steps : Nat) :
    solve steps (p.rename r) (x.rename r) (y.rename r) = (solve steps p x y).rename r := by
  induction steps generalizing p x y with
  | zero => rfl
  | succ steps ih =>
      rw [solve, solve]
      refine Attempt.given_rename r (Subst.resolve_rename r p.subst x) fun x' => ?_
      refine Attempt.given_rename r (Subst.resolve_rename r p.subst y) fun y' => ?_
      exact solveHeads_rename r p x' y' ih

/-- A unification with other numbers goes the same way. -/
theorem run_rename (s : Subst) :
    run (s.rename r) (x.rename r) (y.rename r) = (run s x y).rename r := by
  rw [run, run, stepBound, Ty.size_rename, Ty.size_rename, Subst.boundSize_rename]
  exact solve_rename r ⟨s, []⟩ x y _

end Unify

end TypeInference
