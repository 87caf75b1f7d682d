/-
# The rules of unification

`Rule` says what unification does with two heads when it goes on, and `Clash`
when it stops.  `solveHeads_cases` reads the unifier once and shows that these
are all the possibilities; no later proof opens its definition.

A unification is then a sequence of moves on a list of pairs still to be
unified: the first pair is replaced by the pairs that its rule leaves.  The
nested recursion of `solve` makes exactly such moves, whatever number of steps
it is given.  Whether the number is enough is not the concern of this module.
-/

import TypeInference.Proofs.Subst.Growth
import TypeInference.Unify.Engine

namespace TypeInference

/-- Neither a wildcard nor a literal wrapper. -/
def Ty.isProper : Ty → Bool
  | .any | .error | .const _ _ => false
  | _ => true

/-- A proper type without parts. -/
def Ty.isLeaf : Ty → Bool
  | .int | .num | .bool | .str | .none => true
  | _ => false

namespace Ty

theorem isProper_of_ne {ty : Ty} (hwild : ty.isWildcard = false)
    (hconst : ∀ base value, ty ≠ .const base value) : ty.isProper = true := by
  cases ty with
  | any | error => cases hwild
  | const base value => exact absurd rfl (hconst base value)
  | _ => rfl

theorem isVar_eq_false_of_ne {ty : Ty} (h : ∀ v, ty ≠ .var v) : ty.isVar = false := by
  cases ty with
  | var v => exact absurd rfl (h v)
  | _ => rfl

theorem exists_of_isVar {ty : Ty} (h : ty.isVar = true) : ∃ v, ty = .var v := by
  cases ty with
  | var v => exact ⟨v, rfl⟩
  | _ => cases h

/-- A leaf is known by its tag. -/
theorem eq_of_tag_eq {x y : Ty} (hx : x.isLeaf = true) (htag : x.tag = y.tag) : x = y := by
  cases x <;> cases hx <;> cases y <;> cases htag <;> rfl

/-- Proper types with one tag, other than variables and functions, are leaves. -/
theorem isLeaf_of_tag_eq {x y : Ty} (hx : x.isProper = true) (hvar : x.isVar = false)
    (hfunc : ∀ params result params' result',
      x = .func params result → y = .func params' result' → False)
    (htag : x.tag = y.tag) : x.isLeaf = true := by
  cases x with
  | any | error | const => cases hx
  | var => cases hvar
  | func params result =>
      cases y with
      | func params' result' => exact (hfunc _ _ _ _ rfl rfl).elim
      | _ => cases htag
  | _ => rfl

end Ty

namespace Unify

open Relation

/-- The progress after a binding. -/
def Progress.bound (p : Progress) (v : VarId) (ty : Ty) : Progress :=
  ⟨p.subst.extend v ty, .bound v ty :: p.log⟩

/-- What one rule makes of two heads: the progress, and the pairs left to unify. -/
inductive Rule (p : Progress) : Ty → Ty → Progress → List (Ty × Ty) → Prop
  | wildcard {x y : Ty} (hwild : (x.isWildcard || y.isWildcard) = true) :
      Rule p x y (p.note (.wildcard x y)) []
  | unwrapLeft {base y : Ty} {value : Literal} (hy : y.isWildcard = false) :
      Rule p (.const base value) y (p.note (.unwrapped (.const base value) y)) [(base, y)]
  | unwrapRight {x base : Ty} {value : Literal} (hx : x.isProper = true) :
      Rule p x (.const base value) (p.note (.unwrapped x (.const base value))) [(x, base)]
  | sameVar (v : VarId) : Rule p (.var v) (.var v) (p.note (.sameVar v)) []
  | bindLeft {v : VarId} {y : Ty} (hy : y.isProper = true)
      (admitted : p.subst.Admits v (p.subst.stored y)) :
      Rule p (.var v) y (p.bound v (p.subst.stored y)) []
  | bindRight {x : Ty} {v : VarId} (hx : x.isProper = true) (hvar : x.isVar = false)
      (admitted : p.subst.Admits v (p.subst.stored x)) :
      Rule p x (.var v) (p.bound v (p.subst.stored x)) []
  | decompose {params params' : List Ty} {result result' : Ty}
      (hlength : params.length = params'.length) :
      Rule p (.func params result) (.func params' result')
        (p.note (.decomposed (.func params result) (.func params' result')))
        (params.zip params' ++ [(result, result')])
  | sameLeaf {x : Ty} (hx : x.isLeaf = true) : Rule p x x (p.note (.sameLeaf x x)) []

/-- Why unification stops at two heads. -/
inductive Clash (p : Progress) : Ty → Ty → TypeError → Progress → Prop
  | occursLeft {v : VarId} {y : Ty} (hy : y.isProper = true) (hvar : y.isVar = false)
      (hocc : (p.subst.stored y).occurs v = true) :
      Clash p (.var v) y (.infinite v (p.subst.stored y))
        (p.note (.occursIn v (p.subst.stored y)))
  | occursRight {x : Ty} {v : VarId} (hx : x.isProper = true) (hvar : x.isVar = false)
      (hocc : (p.subst.stored x).occurs v = true) :
      Clash p x (.var v) (.infinite v (p.subst.stored x))
        (p.note (.occursIn v (p.subst.stored x)))
  | arity {params params' : List Ty} {result result' : Ty}
      (hlength : params.length ≠ params'.length) :
      Clash p (.func params result) (.func params' result')
        (.arity params.length params'.length
          ((Ty.func params result).instantiate p.subst.image)
          ((Ty.func params' result').instantiate p.subst.image))
        (p.note (.arityDiffers (.func params result) (.func params' result')))
  | mismatch {x y : Ty} (hx : x.isProper = true) (hxvar : x.isVar = false)
      (hy : y.isProper = true) (hyvar : y.isVar = false) (htag : x.tag ≠ y.tag) :
      Clash p x y (.mismatch (x.instantiate p.subst.image) (y.instantiate p.subst.image))
        (p.note (.mismatched x y))

section Heads

variable {p : Progress} {x y : Ty} {v : VarId}

theorem bindVar_cases (hs : p.subst.Acyclic) (hv : p.subst.lookup v = none) :
    (p.subst.Admits v (p.subst.stored y) ∧
      bindVar p v y = .solved (p.bound v (p.subst.stored y))) ∨
    ((p.subst.stored y).occurs v = true ∧
      bindVar p v y = .failed (.infinite v (p.subst.stored y))
        (p.note (.occursIn v (p.subst.stored y)))) := by
  have hbind : bindVar p v y = bindErased p v (p.subst.stored y) := by
    rw [bindVar, hs.apply_eq_ok]
    rfl
  by_cases hocc : (p.subst.stored y).occurs v = true
  · refine .inr ⟨hocc, ?_⟩
    rw [hbind, bindErased, if_pos hocc]
  · refine .inl ⟨⟨hv, Ty.hasConst_erase _, fun w hw => ⟨?_, ?_⟩⟩, ?_⟩
    · rintro rfl
      exact hocc hw
    · rw [Subst.stored, Ty.occurs_erase] at hw
      exact hs.lookup_eq_none_of_occurs hw
    · rw [hbind, bindErased, if_neg hocc, Subst.bind_of_lookup_eq_none hv]
      rfl

theorem solveAll_singleton (solve : Progress → Ty → Ty → Attempt) :
    solveAll solve p [(x, y)] = solve p x y := by
  rw [solveAll]
  cases solve p x y <;> rfl

theorem mismatch_eq (hs : p.subst.Acyclic) :
    mismatch p x y = .failed
      (.mismatch (x.instantiate p.subst.image) (y.instantiate p.subst.image))
      (p.note (.mismatched x y)) := by
  rw [mismatch, hs.apply_eq_ok, hs.apply_eq_ok]
  rfl

theorem arityMismatch_eq (hs : p.subst.Acyclic) (params params' : List Ty) :
    arityMismatch p params params' x y = .failed
      (.arity params.length params'.length (x.instantiate p.subst.image)
        (y.instantiate p.subst.image))
      (p.note (.arityDiffers x y)) := by
  rw [arityMismatch, hs.apply_eq_ok, hs.apply_eq_ok]
  rfl

/-- Two heads clash, or a rule says how to go on. -/
theorem solveHeads_cases (hs : p.subst.Acyclic)
    (hx : ∀ v, x = .var v → p.subst.lookup v = none)
    (hy : ∀ v, y = .var v → p.subst.lookup v = none)
    (solve : Progress → Ty → Ty → Attempt) :
    (∃ p' work, Rule p x y p' work ∧ solveHeads solve p x y = solveAll solve p' work) ∨
    (∃ error p', Clash p x y error p' ∧ solveHeads solve p x y = .failed error p') := by
  unfold solveHeads
  by_cases hwild : (x.isWildcard || y.isWildcard) = true
  · rw [if_pos hwild]
    exact .inl ⟨_, [], .wildcard hwild, rfl⟩
  rw [if_neg hwild]
  rw [Bool.or_eq_true, not_or, Bool.not_eq_true, Bool.not_eq_true] at hwild
  obtain ⟨hxwild, hywild⟩ := hwild
  split
  · exact .inl ⟨_, _, .unwrapLeft hywild, (solveAll_singleton solve).symm⟩
  · rename_i hxconst
    exact .inl ⟨_, _, .unwrapRight (Ty.isProper_of_ne hxwild hxconst),
      (solveAll_singleton solve).symm⟩
  · rename_i v w
    by_cases hvw : v = w
    · subst hvw
      rw [if_pos rfl]
      exact .inl ⟨_, [], .sameVar v, rfl⟩
    · rw [if_neg hvw]
      rcases bindVar_cases (y := .var w) hs (hx v rfl) with ⟨hadmits, heq⟩ | ⟨hocc, _⟩
      · exact .inl ⟨_, [], .bindLeft rfl hadmits, heq⟩
      · rw [Subst.stored, Ty.instantiate_var, Subst.image_of_lookup_eq_none (hy w rfl)] at hocc
        exact absurd (Ty.occurs_var.mp hocc).symm hvw
  · rename_i v hyconst hyvar
    have hproper := Ty.isProper_of_ne hywild hyconst
    rcases bindVar_cases (y := y) hs (hx v rfl) with ⟨hadmits, heq⟩ | ⟨hocc, heq⟩
    · exact .inl ⟨_, [], .bindLeft hproper hadmits, heq⟩
    · exact .inr ⟨_, _, .occursLeft hproper (Ty.isVar_eq_false_of_ne hyvar) hocc, heq⟩
  · rename_i v hxconst hxvar
    have hproper := Ty.isProper_of_ne hxwild hxconst
    have hvar := Ty.isVar_eq_false_of_ne hxvar
    rcases bindVar_cases (y := x) hs (hy v rfl) with ⟨hadmits, heq⟩ | ⟨hocc, heq⟩
    · exact .inl ⟨_, [], .bindRight hproper hvar hadmits, heq⟩
    · exact .inr ⟨_, _, .occursRight hproper hvar hocc, heq⟩
  · rename_i params result params' result'
    by_cases hlength : params.length = params'.length
    · rw [if_pos hlength]
      exact .inl ⟨_, _, .decompose hlength, rfl⟩
    · rw [if_neg hlength]
      exact .inr ⟨_, _, .arity hlength, arityMismatch_eq hs params params'⟩
  · rename_i hxconst hxvar hyconst hyvar _ hfunc
    have hxproper := Ty.isProper_of_ne hxwild hxconst
    have hxvar := Ty.isVar_eq_false_of_ne hxvar
    by_cases htag : x.tag = y.tag
    · have hleaf := Ty.isLeaf_of_tag_eq hxproper hxvar hfunc htag
      obtain rfl := Ty.eq_of_tag_eq hleaf htag
      rw [if_pos rfl]
      exact .inl ⟨_, [], .sameLeaf hleaf, rfl⟩
    · rw [if_neg htag]
      exact .inr ⟨_, _, .mismatch hxproper hxvar (Ty.isProper_of_ne hywild hyconst)
        (Ty.isVar_eq_false_of_ne hyvar) htag, mismatch_eq hs⟩

end Heads

/-- A rule changes the substitution by at most one admitted binding. -/
theorem Rule.grows {p p' : Progress} {x y : Ty} {work : List (Ty × Ty)}
    (h : Rule p x y p' work) : p.subst.Grows p'.subst := by
  cases h with
  | bindLeft _ admitted => exact .single admitted
  | bindRight _ _ admitted => exact .single admitted
  | _ => exact .refl

/-! ## Moves on a list of pairs -/

/-- One rule, after both types of a pair were followed to their heads. -/
def Step (p : Progress) (a b : Ty) (p' : Progress) (work : List (Ty × Ty)) : Prop :=
  ∃ x y, p.subst.resolve a = .ok x ∧ p.subst.resolve b = .ok y ∧ Rule p x y p' work

/-- A clash, after both types of a pair were followed to their heads. -/
def Stuck (p : Progress) (a b : Ty) (error : TypeError) (p' : Progress) : Prop :=
  ∃ x y, p.subst.resolve a = .ok x ∧ p.subst.resolve b = .ok y ∧ Clash p x y error p'

theorem Step.exists_heads {p p' : Progress} {a b : Ty} {work : List (Ty × Ty)}
    (h : Step p a b p' work) (hs : p.subst.Acyclic) :
    ∃ x y, p.subst.IsHead a x ∧ p.subst.IsHead b y ∧ Rule p x y p' work := by
  obtain ⟨x, y, hx, hy, hrule⟩ := h
  exact ⟨x, y, hs.isHead_of_resolve hx, hs.isHead_of_resolve hy, hrule⟩

theorem Stuck.exists_heads {p p' : Progress} {a b : Ty} {error : TypeError}
    (h : Stuck p a b error p') (hs : p.subst.Acyclic) :
    ∃ x y, p.subst.IsHead a x ∧ p.subst.IsHead b y ∧ Clash p x y error p' := by
  obtain ⟨x, y, hx, hy, hclash⟩ := h
  exact ⟨x, y, hs.isHead_of_resolve hx, hs.isHead_of_resolve hy, hclash⟩

theorem Stuck.subst_eq {p p' : Progress} {a b : Ty} {error : TypeError}
    (h : Stuck p a b error p') : p'.subst = p.subst := by
  obtain ⟨x, y, _, _, hclash⟩ := h
  cases hclash <;> rfl

theorem Stuck.category {p p' : Progress} {a b : Ty} {error : TypeError}
    (h : Stuck p a b error p') :
    error.category ∈ [.typeMismatch, .arityMismatch, .infiniteType] := by
  obtain ⟨x, y, _, _, hclash⟩ := h
  cases hclash <;> simp [TypeError.category]

/-- Replace the first pair by what its rule leaves. -/
inductive Move : Progress × List (Ty × Ty) → Progress × List (Ty × Ty) → Prop
  | step {p p' : Progress} {a b : Ty} {work : List (Ty × Ty)} (h : Step p a b p' work)
      (rest : List (Ty × Ty)) : Move (p, (a, b) :: rest) (p', work ++ rest)

abbrev Moves := ReflTransGen Move

theorem Move.grows {c d : Progress × List (Ty × Ty)} (h : Move c d) :
    c.1.subst.Grows d.1.subst := by
  obtain ⟨⟨x, y, _, _, hrule⟩, rest⟩ := h
  exact hrule.grows

theorem Moves.grows {c d : Progress × List (Ty × Ty)} (h : Moves c d) :
    c.1.subst.Grows d.1.subst := by
  induction h with
  | refl => exact .refl
  | tail _ hmove ih => exact ih.trans hmove.grows

/-- What an attempt on a list of pairs did, with any other pairs waiting behind:
it disposed of all of them, or it came to a pair at which it is stuck. -/
def Attempt.Follows (p : Progress) (work : List (Ty × Ty)) : Attempt → Prop
  | .solved p' => ∀ rest, Moves (p, work ++ rest) (p', rest)
  | .failed error p' => ∀ rest, ∃ q a b more,
      Moves (p, work ++ rest) (q, (a, b) :: more) ∧ Stuck q a b error p'
  | .broken fault => fault = .unboundedUnification

theorem Attempt.Follows.of_step {p p' : Progress} {a b : Ty} {work : List (Ty × Ty)}
    {attempt : Attempt} (hstep : Step p a b p' work) (h : attempt.Follows p' work) :
    attempt.Follows p [(a, b)] := by
  cases attempt with
  | solved q => exact fun rest => .head (.step hstep rest) (h rest)
  | failed error q =>
      intro rest
      obtain ⟨r, x, y, more, hmoves, hstuck⟩ := h rest
      exact ⟨r, x, y, more, .head (.step hstep rest) hmoves, hstuck⟩
  | broken fault => exact h

theorem solveAll_follows {solve : Progress → Ty → Ty → Attempt}
    (hsolve : ∀ p a b, p.subst.Acyclic → (solve p a b).Follows p [(a, b)])
    {p : Progress} (hs : p.subst.Acyclic) (work : List (Ty × Ty)) :
    (solveAll solve p work).Follows p work := by
  induction work generalizing p with
  | nil => exact fun rest => .refl
  | cons pair others ih =>
      obtain ⟨a, b⟩ := pair
      have hfirst := hsolve p a b hs
      rw [solveAll]
      cases hattempt : solve p a b with
      | solved q =>
          rw [hattempt] at hfirst
          have hothers := ih ((hfirst []).grows.acyclic hs)
          show (solveAll solve q others).Follows p ((a, b) :: others)
          cases hlater : solveAll solve q others with
          | solved r =>
              rw [hlater] at hothers
              exact fun rest => (hfirst (others ++ rest)).trans (hothers rest)
          | failed error r =>
              rw [hlater] at hothers
              intro rest
              obtain ⟨t, x, y, more, hmoves, hstuck⟩ := hothers rest
              exact ⟨t, x, y, more, (hfirst (others ++ rest)).trans hmoves, hstuck⟩
          | broken fault =>
              rw [hlater] at hothers
              exact hothers
      | failed error q =>
          rw [hattempt] at hfirst
          exact fun rest => hfirst (others ++ rest)
      | broken fault =>
          rw [hattempt] at hfirst
          exact hfirst

/-- With any number of steps, unification makes moves. -/
theorem solve_follows (steps : Nat) {p : Progress} (hs : p.subst.Acyclic) (a b : Ty) :
    (solve steps p a b).Follows p [(a, b)] := by
  induction steps generalizing p a b with
  | zero => rfl
  | succ steps ih =>
      obtain ⟨x, hx, hxhead⟩ := hs.exists_resolve_eq_ok a
      obtain ⟨y, hy, hyhead⟩ := hs.exists_resolve_eq_ok b
      rw [solve, hx, hy]
      show (solveHeads (solve steps) p x y).Follows p [(a, b)]
      rcases solveHeads_cases hs hxhead.unbound hyhead.unbound (solve steps) with
        ⟨p', work, hrule, heq⟩ | ⟨error, p', hclash, heq⟩
      · rw [heq]
        have hwork := solveAll_follows (fun q a b hq => ih hq a b)
          (hrule.grows.acyclic hs) work
        exact .of_step ⟨x, y, hx, hy, hrule⟩ hwork
      · rw [heq]
        exact fun rest => ⟨p, a, b, rest, .refl, x, y, hx, hy, hclash⟩

end Unify

end TypeInference
