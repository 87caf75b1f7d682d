/-
# Every unification ends

The unifier counts nested steps, and `Unify.stepBound` of them are enough.  This
module says what the count stands for: a recursion that comes to an end of its
own.  `Unify.round` is one call with the calls that it makes left open, and
`Unify.Calls` lists those.  Unification satisfies the equation of the recursion
without any count, and nothing else satisfies it.

No size of the two types as they are written goes down along the calls: a
variable may be followed to a type larger than the one it was found in, and the
bindings change from one pair to the next.  What goes down is the number of
variables left in the two applied types, or, when no variable was bound, their
heights.  Both make sense only on a substitution without cycles.
-/

import Mathlib.Data.Prod.Lex
import TypeInference.Proofs.Session.Reachable
import TypeInference.Proofs.Unify.Confinement
import TypeInference.Proofs.Unify.Renaming

namespace TypeInference

namespace Unify

open Relation

/-- One call of the unifier, with `recur` for the calls that it makes. -/
def round (recur : Progress → Ty → Ty → Attempt) (p : Progress) (a b : Ty) : Attempt :=
  .given (p.subst.resolve a) fun x =>
    .given (p.subst.resolve b) fun y => solveHeads recur p x y

/-- The calls that one call makes: on each pair that its rule leaves, with the
bindings made for the pairs before it. -/
def Calls (recur : Progress → Ty → Ty → Attempt) (p : Progress) (a b : Ty)
    (q : Progress) (x y : Ty) : Prop :=
  ∃ p' before after, Step p a b p' (before ++ (x, y) :: after) ∧
    solveAll recur p' before = .solved q

/-- Unification from any point of a run, with the steps that are enough there; `run`
is the case in which nothing has happened yet. -/
def outcome (p : Progress) (a b : Ty) : Attempt :=
  solve (stepBound p.subst a b) p a b

theorem solve_succ (steps : Nat) : solve (steps + 1) = round (solve steps) := rfl

section Round

variable {recur other : Progress → Ty → Ty → Attempt} {p q : Progress} {a b x y : Ty}

theorem solveAll_congr {work : List (Ty × Ty)}
    (h : ∀ before x y after q, work = before ++ (x, y) :: after →
      solveAll recur p before = .solved q → other q x y = recur q x y) :
    solveAll other p work = solveAll recur p work := by
  induction work generalizing p with
  | nil => rfl
  | cons pair rest ih =>
      obtain ⟨a, b⟩ := pair
      have hfirst : other p a b = recur p a b := h [] a b rest p rfl rfl
      rw [solveAll, solveAll, hfirst]
      cases hattempt : recur p a b with
      | solved q =>
          refine ih fun before x y after r hrest hbefore => ?_
          refine h ((a, b) :: before) x y after r (congrArg _ hrest) ?_
          rw [solveAll, hattempt]
          exact hbefore
      | failed error q => rfl
      | broken fault => rfl

theorem solveHeads_congr
    (h : ∀ p' work, Rule p x y p' work → solveAll other p' work = solveAll recur p' work) :
    solveHeads other p x y = solveHeads recur p x y := by
  unfold solveHeads
  by_cases hwild : (x.isWildcard || y.isWildcard) = true
  · rw [if_pos hwild, if_pos hwild]
  rw [if_neg hwild, if_neg hwild]
  rw [Bool.or_eq_true, not_or, Bool.not_eq_true, Bool.not_eq_true] at hwild
  obtain ⟨hxwild, hywild⟩ := hwild
  split
  · simpa only [solveAll_singleton] using h _ _ (.unwrapLeft hywild)
  · rename_i hxconst
    have hproper := Ty.isProper_of_ne hxwild hxconst
    simpa only [solveAll_singleton] using h _ _ (.unwrapRight hproper)
  · rfl
  · rfl
  · rfl
  · split
    · exact h _ _ (.decompose ‹_›)
    · rfl
  · rfl

/-- A call depends on `recur` only through the calls that it makes. -/
theorem round_congr (h : ∀ q x y, Calls recur p a b q x y → other q x y = recur q x y) :
    round other p a b = round recur p a b := by
  unfold round
  cases hx : p.subst.resolve a with
  | error fault => rfl
  | ok x =>
      cases hy : p.subst.resolve b with
      | error fault => rfl
      | ok y =>
          refine solveHeads_congr fun p' work hrule => solveAll_congr ?_
          rintro before u w after q rfl hbefore
          exact h q u w ⟨p', before, after, ⟨x, y, hx, hy, hrule⟩, hbefore⟩

/-- A rule that leaves pairs goes on with them. -/
theorem Rule.solveHeads_eq {p' : Progress} {work : List (Ty × Ty)} (h : Rule p x y p' work)
    (hwork : work ≠ []) : solveHeads recur p x y = solveAll recur p' work := by
  cases h with
  | unwrapLeft hy => rw [solveHeads_const_left hy, solveAll_singleton]
  | unwrapRight hx => rw [solveHeads_const_right hx, solveAll_singleton]
  | decompose hlength => rw [solveHeads_func, if_pos hlength]
  | _ => exact absurd rfl hwork

theorem solveAll_append (before after : List (Ty × Ty)) :
    solveAll recur p (before ++ after) =
      (solveAll recur p before).andThen fun q => solveAll recur q after := by
  induction before generalizing p with
  | nil => rfl
  | cons pair rest ih =>
      obtain ⟨a, b⟩ := pair
      rw [List.cons_append, solveAll, solveAll]
      cases recur p a b with
      | solved q => exact ih
      | failed error q => rfl
      | broken fault => rfl

/-- A call is broken when one that it makes is. -/
theorem Calls.round_eq_broken (h : Calls recur p a b q x y) {fault : Fault}
    (hbroken : recur q x y = .broken fault) : round recur p a b = .broken fault := by
  obtain ⟨p', before, after, ⟨u, w, hu, hw, hrule⟩, hbefore⟩ := h
  rw [round, hu, hw]
  show solveHeads recur p u w = _
  rw [hrule.solveHeads_eq (List.append_ne_nil_of_right_ne_nil _ (List.cons_ne_nil _ _)),
    solveAll_append, hbefore]
  show solveAll recur q ((x, y) :: after) = _
  rw [solveAll, hbroken]
  rfl

end Round

section Steps

variable {p : Progress} {a b : Ty}

theorem solve_eq_of_le {steps more : Nat} (hle : steps ≤ more)
    (h : ∀ fault, solve steps p a b ≠ .broken fault) : solve more p a b = solve steps p a b := by
  induction steps generalizing more p a b with
  | zero => exact absurd rfl (h .unboundedUnification)
  | succ steps ih =>
      obtain ⟨more, rfl⟩ : ∃ k, more = k + 1 := Nat.exists_eq_succ_of_ne_zero (by omega)
      rw [solve_succ] at h ⊢
      rw [solve_succ]
      refine round_congr fun q x y hcall => ih (Nat.le_of_succ_le_succ hle) ?_
      intro fault hbroken
      exact h fault (hcall.round_eq_broken hbroken)

/-- Two numbers of steps that are both enough give the same. -/
theorem solve_eq_solve {steps steps' : Nat} (h : ∀ fault, solve steps p a b ≠ .broken fault)
    (h' : ∀ fault, solve steps' p a b ≠ .broken fault) :
    solve steps p a b = solve steps' p a b := by
  rcases Nat.le_total steps steps' with hle | hle
  · exact (solve_eq_of_le hle h).symm
  · exact solve_eq_of_le hle h'

theorem outcome_ne_broken (hs : p.subst.Acyclic) (a b : Ty) (fault : Fault) :
    outcome p a b ≠ .broken fault := by
  obtain ⟨vars, hfits⟩ := exists_fits_stepBound hs a b
  exact solve_ne_broken (stepBound p.subst a b) hs hfits fault

theorem outcome_follows (hs : p.subst.Acyclic) (a b : Ty) :
    (outcome p a b).Follows p [(a, b)] :=
  solve_follows (stepBound p.subst a b) hs a b

end Steps

/-- The variables that are left in a pair of types once they are applied. -/
def pairVars (s : Subst) (pair : Ty × Ty) : Finset VarId :=
  ((pair.1.instantiate s.image).varOccurrences ++
    (pair.2.instantiate s.image).varOccurrences).toFinset

theorem mem_pairVars {s : Subst} {pair : Ty × Ty} {v : VarId} :
    v ∈ pairVars s pair ↔ OccursIn s v pair := by
  rw [pairVars, List.mem_toFinset, List.mem_append, ← Ty.occurs_iff, ← Ty.occurs_iff, OccursIn]

/-- What a call on a pair has before it: the variables that are left, then the heights. -/
def effort (s : Subst) (pair : Ty × Ty) : ℕ ×ₗ ℕ :=
  toLex ((pairVars s pair).card, pairHeight s pair)

section Effort

variable {recur : Progress → Ty → Ty → Attempt} {p q : Progress} {a b x y : Ty}

/-- A call leads through moves to its pair, past pairs with no other variables. -/
theorem Calls.exists_moves (h : Calls recur p a b q x y) (hs : p.subst.Acyclic)
    (hfollows : ∀ p a b, p.subst.Acyclic → (recur p a b).Follows p [(a, b)]) :
    ∃ p' work after, p'.subst = p.subst ∧ Moves (p', work) (q, (x, y) :: after) ∧
      pairHeight p.subst (x, y) < pairHeight p.subst (a, b) ∧
      ∀ pair ∈ work, ∀ v, OccursIn p.subst v pair → OccursIn p.subst v (a, b) := by
  obtain ⟨p', before, after, hstep, hbefore⟩ := h
  obtain ⟨u, w, hu, hw, hrule⟩ := hstep.exists_heads hs
  have hparts := hrule.parts
  obtain ⟨hsame, hlower, _⟩ := hparts (x, y) (by simp)
  have hmoves := solveAll_follows hfollows (hrule.grows.acyclic hs) before
  rw [hbefore] at hmoves
  refine ⟨p', _, after, hsame, hmoves ((x, y) :: after), ?_, ?_⟩
  · rwa [pairHeight.eq_def _ (u, w), hu.image_eq, hw.image_eq] at hlower
  · intro pair hpair v hv
    exact (occursIn_heads hu hw v).mp ((hparts pair hpair).2.2 v hv)

/-- Every call has less before it than the call that makes it. -/
theorem Calls.effort_lt (h : Calls recur p a b q x y) (hs : p.subst.Acyclic)
    (hfollows : ∀ p a b, p.subst.Acyclic → (recur p a b).Follows p [(a, b)]) :
    q.subst.Acyclic ∧ effort q.subst (x, y) < effort p.subst (a, b) := by
  obtain ⟨p', work, after, hsame, hmoves, hlower, hvars⟩ := h.exists_moves hs hfollows
  have hs' : p'.subst.Acyclic := hsame ▸ hs
  have hq := hmoves.grows.acyclic hs'
  have hsubset : pairVars q.subst (x, y) ⊆ pairVars p.subst (a, b) := by
    intro v hv
    obtain ⟨source, hsource, hv⟩ :=
      Moves.exists_occursIn hmoves hs' List.mem_cons_self (mem_pairVars.mp hv)
    exact mem_pairVars.mpr (hvars source hsource v (hsame ▸ hv))
  refine ⟨hq, Prod.Lex.toLex_lt_toLex.mpr ?_⟩
  rcases hmoves.grows.eq_or_exists_bound with hidle | ⟨v, ty, hunbound, hbound⟩
  · -- Nothing was bound since the call was made, so the heights have gone down.
    change q.subst = p'.subst at hidle
    rw [hidle, hsame] at hsubset ⊢
    rcases (Finset.card_le_card hsubset).lt_or_eq with hlt | heq
    · exact .inl hlt
    · exact .inr ⟨heq, hlower⟩
  · -- A variable that was left before the call is bound now.
    have hwithin : Subst.GrowsWithin { v | OccursIn p.subst v (a, b) } p'.subst q.subst :=
      Moves.growsWithin hmoves hs' fun pair hpair v hv => hvars pair hpair v (hsame ▸ hv)
    have hmem := mem_pairVars.mpr (hwithin.added v ty hunbound hbound).1
    have hgone : v ∉ pairVars q.subst (x, y) := by
      intro hv
      have hnone : q.subst.lookup v = none := by
        rcases mem_pairVars.mp hv with hv | hv <;> exact hq.lookup_eq_none_of_occurs hv
      rw [hnone] at hbound
      cases hbound
    exact .inl (Finset.card_lt_card (hsubset.ssubset_of_mem_notMem hmem hgone))

end Effort

/-! ## The equation of the recursion -/

theorem outcome_eq_round {p : Progress} (hs : p.subst.Acyclic) (a b : Ty) :
    outcome p a b = round outcome p a b := by
  have henough := outcome_ne_broken hs a b
  unfold outcome at henough
  rw [outcome]
  cases hsteps : stepBound p.subst a b with
  | zero =>
      rw [hsteps] at henough
      exact absurd rfl (henough .unboundedUnification)
  | succ steps =>
      rw [hsteps, solve_succ] at henough
      rw [solve_succ]
      refine (round_congr fun q x y hcall => ?_).symm
      obtain ⟨hq, _⟩ := hcall.effort_lt hs fun p a b hs => solve_follows steps hs a b
      refine solve_eq_solve (outcome_ne_broken hq x y) fun fault hbroken => ?_
      exact henough fault (hcall.round_eq_broken hbroken)

/-- Whatever satisfies the equation of the recursion is unification. -/
theorem eq_outcome {recur : Progress → Ty → Ty → Attempt}
    (hrecur : ∀ p a b, p.subst.Acyclic → recur p a b = round recur p a b)
    {p : Progress} (hs : p.subst.Acyclic) (a b : Ty) : recur p a b = outcome p a b := by
  generalize hmeasure : effort p.subst (a, b) = measure
  induction measure using WellFoundedLT.induction generalizing p a b with | ind measure ih
  subst hmeasure
  rw [hrecur p a b hs, outcome_eq_round hs a b]
  refine round_congr fun q x y hcall => ?_
  obtain ⟨hq, hless⟩ := hcall.effort_lt hs fun p a b hs => outcome_follows hs a b
  exact ih _ hless hq x y rfl

/-- On every substitution without cycles, such as all that sessions come to,
unification succeeds or fails, and more steps would not change how.  It satisfies
the equation of its recursion, in which every call has less before it than the call
that makes it, and it is the only solution. -/
theorem unification_terminates :
    (∀ s : Session, s.Reachable → s.subst.Acyclic ∧
      ∀ v ty, s.subst.lookup v = some ty → ty.hasConst = false) ∧
    ∀ p : Progress, p.subst.Acyclic → ∀ a b,
      ((∃ q, outcome p a b = .solved q) ∨ ∃ error q, outcome p a b = .failed error q) ∧
      (∀ steps, stepBound p.subst a b ≤ steps → solve steps p a b = outcome p a b) ∧
      outcome p a b = round outcome p a b ∧
      (∀ q x y, Calls outcome p a b q x y →
        q.subst.Acyclic ∧ effort q.subst (x, y) < effort p.subst (a, b)) ∧
      ∀ recur, (∀ p a b, p.subst.Acyclic → recur p a b = round recur p a b) →
        recur p a b = outcome p a b := by
  refine ⟨fun s hreach => ⟨hreach.wellFormed.acyclic, hreach.wellFormed.constFree⟩, ?_⟩
  intro p hs a b
  refine ⟨?_, ?_, outcome_eq_round hs a b, ?_, fun recur hrecur => eq_outcome hrecur hs a b⟩
  · cases hattempt : outcome p a b with
    | solved q => exact .inl ⟨q, rfl⟩
    | failed error q => exact .inr ⟨error, q, rfl⟩
    | broken fault => exact absurd hattempt (outcome_ne_broken hs a b fault)
  · exact fun steps hle => solve_eq_of_le hle (outcome_ne_broken hs a b)
  · exact fun q x y hcall => hcall.effort_lt hs fun p a b hs => outcome_follows hs a b

/-- A variable is met in a parameter and followed to a type larger than the whole
function it was met in. -/
theorem unification_terminates_larger_head : ∃ s : Session, s.Reachable ∧ ∃ q head,
    Calls outcome s.start (.func [.var 0] .str) (.func [.var 2] .str) q (.var 0) (.var 2) ∧
    q.subst.resolve (.var 0) = .ok head ∧ (Ty.func [.var 0] .str).size < head.size ∧
    effort q.subst (.var 0, .var 2) <
      effort s.subst (.func [.var 0] .str, .func [.var 2] .str) := by
  have hrun : ∃ s : Session, s.Reachable ∧ ∃ q head,
      Calls outcome s.start (.func [.var 0] .str) (.func [.var 2] .str) q (.var 0) (.var 2) ∧
      q.subst.resolve (.var 0) = .ok head ∧ (Ty.func [.var 0] .str).size < head.size :=
    ⟨_, Session.reachable_of_run Registry.builtin { varOffset := some 0 } ⟨0⟩
      [.freshVars 3, .unify (.var 0) (.func [.func [.var 1] .num] .num)] rfl rfl,
      _, _, ⟨_, [], [(.str, .str)], ⟨_, _, rfl, rfl, .decompose rfl⟩, rfl⟩, rfl, by decide⟩
  obtain ⟨s, hreach, q, head, hcall, hhead, hlarger⟩ := hrun
  obtain ⟨_, _, _, hcalls, _⟩ :=
    unification_terminates.2 s.start (unification_terminates.1 s hreach).1
      (.func [.var 0] .str) (.func [.var 2] .str)
  exact ⟨s, hreach, q, head, hcall, hhead, hlarger, (hcalls q _ _ hcall).2⟩

end Unify

end TypeInference
