/-
# The order of constraints

Pairs of types are unified one after the other.  Without wildcards, what such a
sequence comes to can be said of all its pairs together: if they have a common
solution then every pair is unified, and the bindings are those that all
solutions share; if they have none then some pair is refused.

A solution knows neither the order of the pairs nor their sides.  In another
order the same pairs are therefore unified, and each of the two substitutions
is an instance of the other, because each is a solution that the other allows.
-/

import TypeInference.Proofs.Session.Trait
import TypeInference.Proofs.Session.Unification

namespace TypeInference

namespace Unify

/-- The second substitution was made from the first, solves all pairs, and binds
only as every solution does. -/
structure MostGeneral (s : Subst) (pairs : List (Ty × Ty)) (t : Subst) : Prop where
  grows : s.Grows t
  solves : Solves t.image s pairs
  satisfies : ∀ solution, Solves solution s pairs → Subst.Satisfies solution t

section Sequence

variable {solution : VarId → Ty} {s t u : Subst} {a b : Ty} {rest : List (Ty × Ty)}

theorem Solves.head (h : Solves solution s ((a, b) :: rest)) : Solves solution s [(a, b)] :=
  ⟨h.constFree, h.satisfies, List.forall_mem_singleton.mpr (List.forall_mem_cons.mp h.equal).1⟩

/-- What solves all pairs solves the later ones after the first was unified. -/
theorem MostGeneral.solves_rest (hfirst : MostGeneral s [(a, b)] t)
    (h : Solves solution s ((a, b) :: rest)) : Solves solution t rest :=
  ⟨h.constFree, hfirst.satisfies solution h.head, (List.forall_mem_cons.mp h.equal).2⟩

theorem mostGeneral_nil (hs : s.WellFormed) : MostGeneral s [] s where
  grows := .refl
  solves := ⟨hs.hasConst_image, Subst.Grows.refl.satisfies_image hs.acyclic,
    fun _ hpair => absurd hpair List.not_mem_nil⟩
  satisfies _ h := h.satisfies

/-- One pair after the other is as good as all at once. -/
theorem MostGeneral.cons (hfirst : MostGeneral s [(a, b)] t) (hrest : MostGeneral t rest u)
    (hs : s.Acyclic) : MostGeneral s ((a, b) :: rest) u where
  grows := hfirst.grows.trans hrest.grows
  solves := by
    have ht := hfirst.grows.acyclic hs
    have hpair : t.stored a = t.stored b := hfirst.solves.equal _ List.mem_cons_self
    refine ⟨hrest.solves.constFree, (hfirst.grows.trans hrest.grows).satisfies_image hs,
      List.forall_mem_cons.mpr ⟨?_, hrest.solves.equal⟩⟩
    show u.stored a = u.stored b
    rw [hrest.grows.stored_eq ht, hrest.grows.stored_eq ht, hpair]
  satisfies solution h := hrest.satisfies solution (hfirst.solves_rest h)

/-- A solution is an instance of what is most general. -/
theorem MostGeneral.instantiate_image (h : MostGeneral s rest t) (hs : s.Acyclic)
    (hsolution : Solves solution s rest) (ty : Ty) :
    (ty.instantiate t.image).instantiate solution = ty.instantiate solution :=
  (h.satisfies solution hsolution).instantiate_image (h.grows.acyclic hs) ty

end Sequence

/-- The same pairs in another order, each with its sides as they were or exchanged. -/
def Reordered (pairs pairs' : List (Ty × Ty)) : Prop :=
  ∃ flipped, List.Forall₂ (fun pair pair' => pair' = pair ∨ pair' = pair.swap) pairs flipped ∧
    flipped.Perm pairs'

/-- What does not depend on the sides of a pair does not notice a new order. -/
theorem Reordered.forall_iff {pairs pairs' : List (Ty × Ty)} (h : Reordered pairs pairs')
    {p : Ty × Ty → Prop} (hswap : ∀ pair, p pair.swap ↔ p pair) :
    (∀ pair ∈ pairs, p pair) ↔ ∀ pair ∈ pairs', p pair := by
  obtain ⟨flipped, hflipped, hperm⟩ := h
  have hflip : (∀ pair ∈ pairs, p pair) ↔ ∀ pair ∈ flipped, p pair := by
    clear hperm
    induction hflipped with
    | nil => exact Iff.rfl
    | cons hpair _ ih =>
        rw [List.forall_mem_cons, List.forall_mem_cons, ih]
        rcases hpair with rfl | rfl
        · exact Iff.rfl
        · rw [hswap]
  rw [hflip]
  exact forall_congr' fun pair => by rw [hperm.mem_iff]

theorem Reordered.solves_iff {pairs pairs' : List (Ty × Ty)} (h : Reordered pairs pairs')
    {solution : VarId → Ty} {s : Subst} :
    Solves solution s pairs ↔ Solves solution s pairs' := by
  have hequal := h.forall_iff (p := fun pair => (pair.1.instantiate solution).erase =
    (pair.2.instantiate solution).erase) fun pair => eq_comm
  constructor
  · intro hsolves
    exact ⟨hsolves.constFree, hsolves.satisfies, hequal.mp hsolves.equal⟩
  · intro hsolves
    exact ⟨hsolves.constFree, hsolves.satisfies, hequal.mpr hsolves.equal⟩

/-- No type of any pair has a wildcard. -/
def WildcardFreePairs (pairs : List (Ty × Ty)) : Prop :=
  ∀ pair ∈ pairs, pair.1.WildcardFree ∧ pair.2.WildcardFree

theorem Reordered.wildcardFree {pairs pairs' : List (Ty × Ty)} (h : Reordered pairs pairs')
    (hpairs : WildcardFreePairs pairs) : WildcardFreePairs pairs' :=
  (h.forall_iff fun _ => and_comm).mp hpairs

end Unify

/-- No binding has a wildcard. -/
def Subst.WildcardFree (s : Subst) : Prop :=
  ∀ v bound, s.lookup v = some bound → bound.WildcardFree

/-- Unification without wildcards leaves bindings without wildcards. -/
theorem Unify.Moves.wildcardFree {c d : Progress × List (Ty × Ty)} (hmoves : Moves c d)
    (hs : c.1.subst.Acyclic) (hwork : PlainWork c.1.subst c.2)
    (h : c.1.subst.WildcardFree) : d.1.subst.WildcardFree := by
  intro v bound hv
  have hbefore : (c.1.subst.stored (.var v)).WildcardFree :=
    (Subst.Plain.of_bindings (Ty.wildcardFree_var v) h).stored hs
  have hafter := hmoves.wildcardFree_stored hs hwork hbefore
  have himage := (hmoves.grows.acyclic hs).image_of_lookup_eq_some hv
  rw [Subst.stored, Ty.wildcardFree_erase, Ty.instantiate_var, himage,
    Ty.wildcardFree_instantiate] at hafter
  exact hafter.1

namespace Session

open Unify

variable {s : Session}

/-- Unify pairs one after the other, whatever becomes of each of them. -/
def unifyAll (s : Session) :
    List (Ty × Ty) → Except Fault (List (Except TypeError Unit) × Session)
  | [] => .ok ([], s)
  | (a, b) :: rest => do
      let (outcome, s) ← s.unify a b
      let (outcomes, s) ← s.unifyAll rest
      .ok (outcome :: outcomes, s)

/-- Unifying the pairs in order succeeds for all of them. -/
def UnifiesAll (s : Session) (pairs : List (Ty × Ty)) (s' : Session) : Prop :=
  ∃ outcomes, s.unifyAll pairs = .ok (outcomes, s') ∧ ∀ outcome ∈ outcomes, outcome = .ok ()

theorem unifyAll_cons {a b : Ty} {rest : List (Ty × Ty)} {outcome : Except TypeError Unit}
    {outcomes : List (Except TypeError Unit)} {t u : Session}
    (hfirst : s.unify a b = .ok (outcome, t)) (hrest : t.unifyAll rest = .ok (outcomes, u)) :
    s.unifyAll ((a, b) :: rest) = .ok (outcome :: outcomes, u) := by
  rw [unifyAll, hfirst]
  show (t.unifyAll rest >>= _) = _
  rw [hrest]
  rfl

/-- Without wildcards, one pair is unified in the most general way or has no solution. -/
theorem unify_mostGeneral (hs : s.subst.WellFormed) (hbindings : s.subst.WildcardFree) {a b : Ty}
    (ha : a.WildcardFree) (hb : b.WildcardFree) :
    (∃ t, s.unify a b = .ok (.ok (), t) ∧ MostGeneral s.subst [(a, b)] t.subst ∧
      t.subst.WildcardFree) ∨
    (∃ error t, s.unify a b = .ok (.error error, t) ∧ t.subst = s.subst ∧
      ∀ solution, ¬ Solves solution s.subst [(a, b)]) := by
  have hacyclic := hs.acyclic
  have hplainA := (Subst.Plain.of_bindings ha hbindings).stored hacyclic
  have hplainB := (Subst.Plain.of_bindings hb hbindings).stored hacyclic
  have hwork : PlainWork s.subst [(a, b)] := List.forall_mem_singleton.mpr ⟨hplainA, hplainB⟩
  rcases unify_cases hacyclic a b with
    ⟨p, hmoves, heq⟩ | ⟨error, q, x, y, more, p, hmoves, hstuck, heq⟩
  · have hagreed : p.subst.Agreed a b := hmoves.agreed rfl hacyclic _ List.mem_cons_self
    have hequal : p.subst.stored a = p.subst.stored b :=
      hagreed.eq (hmoves.wildcardFree_stored hacyclic hwork hplainA)
        (hmoves.wildcardFree_stored hacyclic hwork hplainB)
    refine .inl ⟨_, heq, ⟨hmoves.grows, ?_, ?_⟩, hmoves.wildcardFree hacyclic hwork hbindings⟩
    · exact ⟨(hmoves.grows.wellFormed hs).hasConst_image, hmoves.grows.satisfies_image hacyclic,
        List.forall_mem_singleton.mpr hequal⟩
    · exact fun solution hsolution => (hmoves.solves hacyclic hwork hsolution).satisfies
  · refine .inr ⟨error, _, heq, rfl, fun solution hsolution => ?_⟩
    exact hstuck.not_solves (hmoves.grows.acyclic hacyclic)
      (hmoves.solves hacyclic hwork hsolution)

/-- Without wildcards, all pairs are unified in the most general way, or some pair
is refused and they have no common solution. -/
theorem unifyAll_mostGeneral (hs : s.subst.WellFormed) (hbindings : s.subst.WildcardFree)
    {pairs : List (Ty × Ty)} (hpairs : WildcardFreePairs pairs) :
    ∃ outcomes t, s.unifyAll pairs = .ok (outcomes, t) ∧
      ((∀ outcome ∈ outcomes, outcome = .ok ()) ∧ MostGeneral s.subst pairs t.subst ∨
        (¬ ∀ outcome ∈ outcomes, outcome = .ok ()) ∧
          ∀ solution, ¬ Solves solution s.subst pairs) := by
  induction pairs generalizing s with
  | nil =>
      exact ⟨[], s, rfl, .inl ⟨fun _ ho => absurd ho List.not_mem_nil, mostGeneral_nil hs⟩⟩
  | cons pair rest ih =>
      obtain ⟨a, b⟩ := pair
      obtain ⟨⟨ha, hb⟩, hrest⟩ := List.forall_mem_cons.mp hpairs
      rcases unify_mostGeneral hs hbindings ha hb with
        ⟨t, hunify, hfirst, hbindings'⟩ | ⟨error, t, hunify, hsame, hnone⟩
      · obtain ⟨outcomes, u, hothers, hcases⟩ :=
          ih (hfirst.grows.wellFormed hs) hbindings' hrest
        refine ⟨_, u, unifyAll_cons hunify hothers, ?_⟩
        rw [List.forall_mem_cons]
        rcases hcases with ⟨hall, hgeneral⟩ | ⟨hfailed, hnone⟩
        · exact .inl ⟨⟨rfl, hall⟩, hfirst.cons hgeneral hs.acyclic⟩
        · exact .inr ⟨fun hall => hfailed hall.2,
            fun solution hsolution => hnone solution (hfirst.solves_rest hsolution)⟩
      -- A refused pair leaves the bindings alone, and the others are still unified.
      · obtain ⟨outcomes, u, hothers, _⟩ :=
          ih (s := t) (hsame.symm ▸ hs) (hsame.symm ▸ hbindings) hrest
        refine ⟨_, u, unifyAll_cons hunify hothers, .inr ⟨fun hall => ?_, ?_⟩⟩
        · cases hall _ List.mem_cons_self
        · exact fun solution hsolution => hnone solution hsolution.head

/-- A sequence that succeeds for all pairs has found what is most general. -/
theorem UnifiesAll.mostGeneral {pairs : List (Ty × Ty)} {t : Session} (h : s.UnifiesAll pairs t)
    (hs : s.subst.WellFormed) (hbindings : s.subst.WildcardFree)
    (hpairs : WildcardFreePairs pairs) : MostGeneral s.subst pairs t.subst := by
  obtain ⟨outcomes, heq, hall⟩ := h
  obtain ⟨_, _, heq', hcases⟩ := unifyAll_mostGeneral hs hbindings hpairs
  cases heq.symm.trans heq'
  rcases hcases with ⟨_, hgeneral⟩ | ⟨hfailed, _⟩
  · exact hgeneral
  · exact absurd hall hfailed

/-- A sequence of pairs with a common solution succeeds for all of them. -/
theorem exists_unifiesAll {pairs : List (Ty × Ty)} {solution : VarId → Ty}
    (hsolution : Solves solution s.subst pairs) (hs : s.subst.WellFormed)
    (hbindings : s.subst.WildcardFree) (hpairs : WildcardFreePairs pairs) :
    ∃ t, s.UnifiesAll pairs t := by
  obtain ⟨outcomes, t, heq, hcases⟩ := unifyAll_mostGeneral hs hbindings hpairs
  rcases hcases with ⟨hall, _⟩ | ⟨_, hnone⟩
  · exact ⟨t, outcomes, heq, hall⟩
  · exact absurd hsolution (hnone solution)

/-- Without wildcards the order of constraints does not matter.  Unifying the same
pairs in another order, with any of them turned around, returns as well and
succeeds for all of them if the first order does; each of the two substitutions
then applies as an instance of the other. -/
theorem unifyAll_order_irrelevant (hreach : s.Reachable)
    (hbindings : ∀ v bound, s.subst.lookup v = some bound → bound.WildcardFree)
    {pairs pairs' : List (Ty × Ty)}
    (hpairs : ∀ pair ∈ pairs, pair.1.WildcardFree ∧ pair.2.WildcardFree)
    (hreordered : Reordered pairs pairs') :
    (∃ answer answer', s.unifyAll pairs = .ok answer ∧ s.unifyAll pairs' = .ok answer') ∧
    ((∃ s₁, s.UnifiesAll pairs s₁) ↔ ∃ s₂, s.UnifiesAll pairs' s₂) ∧
    ∀ s₁ s₂, s.UnifiesAll pairs s₁ → s.UnifiesAll pairs' s₂ →
      ∃ p q : VarId → Ty, ∀ ty, ∃ x y, s₁.apply ty = .ok x ∧ s₂.apply ty = .ok y ∧
        x.instantiate p = y ∧ y.instantiate q = x := by
  have hs := hreach.wellFormed
  have hpairs' := hreordered.wildcardFree hpairs
  refine ⟨?_, ⟨?_, ?_⟩, ?_⟩
  · obtain ⟨_, _, heq, _⟩ := unifyAll_mostGeneral hs hbindings hpairs
    obtain ⟨_, _, heq', _⟩ := unifyAll_mostGeneral hs hbindings hpairs'
    exact ⟨_, _, heq, heq'⟩
  · rintro ⟨s₁, h₁⟩
    have hgeneral := h₁.mostGeneral hs hbindings hpairs
    exact exists_unifiesAll (hreordered.solves_iff.mp hgeneral.solves) hs hbindings hpairs'
  · rintro ⟨s₂, h₂⟩
    have hgeneral := h₂.mostGeneral hs hbindings hpairs'
    exact exists_unifiesAll (hreordered.solves_iff.mpr hgeneral.solves) hs hbindings hpairs
  · intro s₁ s₂ h₁ h₂
    have hgeneral₁ := h₁.mostGeneral hs hbindings hpairs
    have hgeneral₂ := h₂.mostGeneral hs hbindings hpairs'
    have hsolves₂ := hreordered.solves_iff.mpr hgeneral₂.solves
    have hsolves₁ := hreordered.solves_iff.mp hgeneral₁.solves
    refine ⟨s₂.subst.image, s₁.subst.image, fun ty => ⟨_, _,
      (hgeneral₁.grows.acyclic hs.acyclic).apply_eq_ok ty,
      (hgeneral₂.grows.acyclic hs.acyclic).apply_eq_ok ty, ?_, ?_⟩⟩
    · exact hgeneral₁.instantiate_image hs.acyclic hsolves₂ ty
    · exact hgeneral₂.instantiate_image hs.acyclic hsolves₁ ty

/-- Two open variables are made equal and one of them is the parameter of a
function; in the other order the function comes first, and other variables stay. -/
theorem unifyAll_order_irrelevant_two_variables : ∃ s s₁ s₂ : Session, s.Reachable ∧
    s.UnifiesAll [(.var 0, .var 1), (.var 2, .func [.var 0] (.const .num .none))] s₁ ∧
    s.UnifiesAll [(.func [.var 0] (.const .num .none), .var 2), (.var 1, .var 0)] s₂ ∧
    s₁.subst.trail = [2, 0] ∧ s₂.subst.trail = [1, 2] ∧
    ∃ p q : VarId → Ty, ∀ ty, ∃ x y, s₁.apply ty = .ok x ∧ s₂.apply ty = .ok y ∧
      x.instantiate p = y ∧ y.instantiate q = x := by
  have hrun : ∃ s s₁ s₂ : Session, s.Reachable ∧ s.subst.bindings.values = [] ∧
      s.unifyAll [(.var 0, .var 1), (.var 2, .func [.var 0] (.const .num .none))] =
        .ok ([.ok (), .ok ()], s₁) ∧
      s.unifyAll [(.func [.var 0] (.const .num .none), .var 2), (.var 1, .var 0)] =
        .ok ([.ok (), .ok ()], s₂) ∧
      s₁.subst.trail = [2, 0] ∧ s₂.subst.trail = [1, 2] :=
    ⟨_, _, _, reachable_of_run Registry.builtin { varOffset := some 0 } ⟨0⟩ [.freshVars 3] rfl rfl,
      rfl, rfl, rfl, rfl, rfl⟩
  obtain ⟨s, s₁, s₂, hreach, hempty, heq₁, heq₂, htrail₁, htrail₂⟩ := hrun
  have h₁ : s.UnifiesAll _ s₁ := ⟨_, heq₁, by simp⟩
  have h₂ : s.UnifiesAll _ s₂ := ⟨_, heq₂, by simp⟩
  have hreordered : Reordered
      [(.var 0, .var 1), (.var 2, .func [.var 0] (.const .num .none))]
      [(.func [.var 0] (.const .num .none), .var 2), (.var 1, .var 0)] :=
    ⟨[(.var 1, .var 0), (.func [.var 0] (.const .num .none), .var 2)],
      .cons (.inr rfl) (.cons (.inr rfl) .nil), .swap _ _ _⟩
  obtain ⟨_, _, hinstances⟩ := unifyAll_order_irrelevant hreach
    (Subst.wildcardFree_of_mem_values (by simp [hempty])) (by decide) hreordered
  exact ⟨s, s₁, s₂, hreach, h₁, h₂, htrail₁, htrail₂, hinstances s₁ s₂ h₁ h₂⟩

end Session

end TypeInference
