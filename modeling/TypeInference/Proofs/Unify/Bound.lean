/-
# Enough steps for unification

Unification of a pair needs at most as many nested steps as the heights of its
two applied types together, times three for every variable that may still be
bound.  Every rule but a binding lowers the heights.  A binding may raise the
heights of all pairs that wait, but at most threefold, and it uses up one
variable.  So one limit holds for all pairs throughout a run, and
`Unify.stepBound` is such a limit at its start.
-/

import Mathlib.Algebra.BigOperators.Group.Finset.Basic
import Mathlib.Algebra.Order.Ring.Nat
import Mathlib.Tactic.Linarith
import Mathlib.Tactic.Ring
import TypeInference.Proofs.Unify.Rule

namespace TypeInference

namespace Ty

mutual

/-- The number of constructors on the longest path into a type. -/
def height : Ty → Nat
  | .const base _ => base.height + 1
  | .func params result => max (heightAll params) result.height + 1
  | _ => 1

/-- The largest height in a list of types. -/
def heightAll : List Ty → Nat
  | [] => 0
  | first :: rest => max first.height (heightAll rest)

end

theorem heightAll_le_iff {list : List Ty} {bound : Nat} :
    heightAll list ≤ bound ↔ ∀ ty ∈ list, ty.height ≤ bound := by
  induction list with
  | nil => simp [heightAll]
  | cons first rest ih => simp [heightAll, ih]

theorem height_func_le_iff {params : List Ty} {result : Ty} {bound : Nat} :
    (func params result).height ≤ bound + 1 ↔
      (∀ param ∈ params, param.height ≤ bound) ∧ result.height ≤ bound := by
  rw [height, Nat.add_le_add_iff_right, max_le_iff, heightAll_le_iff]

theorem height_pos (ty : Ty) : 0 < ty.height := by
  cases ty <;> simp [height]

theorem height_result_lt (params : List Ty) (result : Ty) :
    result.height < (func params result).height := by
  rw [height]
  exact Nat.lt_succ_of_le (le_max_right _ _)

theorem height_param_lt {params : List Ty} {param : Ty} (h : param ∈ params) (result : Ty) :
    param.height < (func params result).height := by
  rw [height]
  exact Nat.lt_succ_of_le ((heightAll_le_iff.mp le_rfl param h).trans (le_max_left _ _))

theorem height_erase_le (ty : Ty) : ty.erase.height ≤ ty.height := by
  induction ty with
  | func params result ihParams ihResult =>
      rw [erase_func, height.eq_def (func params result), height_func_le_iff]
      constructor
      · intro param hparam
        obtain ⟨source, hsource, rfl⟩ := List.mem_map.mp hparam
        have hle : source.height ≤ heightAll params := heightAll_le_iff.mp le_rfl source hsource
        exact (ihParams source hsource).trans (hle.trans (le_max_left _ _))
      · exact ihResult.trans (le_max_right _ _)
  | const base value ih =>
      rw [erase_const, height]
      exact ih.trans (Nat.le_succ _)
  | _ => exact le_rfl

/-- Replacing variables raises a type by the height of the images. -/
theorem height_instantiate_le {image : VarId → Ty} {bound : Nat} {ty : Ty}
    (h : ∀ v, ty.occurs v = true → (image v).height ≤ bound + 1) :
    (ty.instantiate image).height ≤ ty.height + bound := by
  induction ty with
  | var v =>
      have hv := h v (occurs_var.mpr rfl)
      have hvar : (var v).height = 1 := rfl
      rw [instantiate_var, hvar]
      omega
  | func params result ihParams ihResult =>
      have hparams : ∀ param ∈ params, param.height ≤ max (heightAll params) result.height :=
        fun param hparam => (heightAll_le_iff.mp le_rfl param hparam).trans (le_max_left _ _)
      rw [instantiate_func, height.eq_def (func params result), Nat.add_right_comm,
        height_func_le_iff]
      constructor
      · intro param hparam
        obtain ⟨source, hsource, rfl⟩ := List.mem_map.mp hparam
        have hsourceLe := ihParams source hsource fun v hv =>
          h v (occurs_func.mpr (.inl ⟨source, hsource, hv⟩))
        exact hsourceLe.trans (Nat.add_le_add_right (hparams source hsource) bound)
      · have hresult := ihResult fun v hv => h v (occurs_func.mpr (.inr hv))
        exact hresult.trans (Nat.add_le_add_right (le_max_right _ _) bound)
  | const base value ih =>
      have hbase := ih fun v hv => h v (occurs_const.trans hv)
      rw [instantiate_const, height, height]
      omega
  | _ => exact Nat.le_add_right _ _

theorem sizeAll_eq_sum (list : List Ty) : sizeAll list = (list.map size).sum := by
  induction list with
  | nil => rfl
  | cons first rest ih => rw [sizeAll, ih, List.map_cons, List.sum_cons]

theorem size_le_sizeAll {list : List Ty} {ty : Ty} (h : ty ∈ list) : ty.size ≤ sizeAll list := by
  rw [sizeAll_eq_sum]
  exact List.single_le_sum (fun _ _ => Nat.zero_le _) _ (List.mem_map_of_mem h)

theorem height_le_size (ty : Ty) : ty.height ≤ ty.size := by
  induction ty with
  | func params result ihParams ihResult =>
      rw [size, height_func_le_iff]
      constructor
      · intro param hparam
        have hparamLe := size_le_sizeAll hparam
        have hheight := ihParams param hparam
        omega
      · omega
  | const base value ih =>
      rw [height, size]
      omega
  | _ => exact le_rfl

theorem varOccurrencesAll_eq_flatMap (list : List Ty) :
    varOccurrencesAll list = list.flatMap varOccurrences := by
  induction list with
  | nil => rfl
  | cons first rest ih => rw [varOccurrencesAll, ih, List.flatMap_cons]

theorem varOccurrences_func (params : List Ty) (result : Ty) :
    (func params result).varOccurrences =
      params.flatMap varOccurrences ++ result.varOccurrences := by
  rw [varOccurrences, varOccurrencesAll_eq_flatMap]

theorem length_varOccurrences_le (ty : Ty) : ty.varOccurrences.length ≤ ty.size := by
  induction ty with
  | func params result ihParams ihResult =>
      have hparams : (varOccurrencesAll params).length ≤ sizeAll params := by
        rw [varOccurrencesAll_eq_flatMap, List.length_flatMap, sizeAll_eq_sum]
        exact List.sum_le_sum ihParams
      rw [varOccurrences, List.length_append, size]
      omega
  | const base value ih =>
      rw [varOccurrences, size]
      omega
  | _ => simp [varOccurrences, size]

end Ty

namespace Unify

/-- The heights of a pair of types once they are applied. -/
def pairHeight (s : Subst) (pair : Ty × Ty) : Nat :=
  (pair.1.instantiate s.image).height + (pair.2.instantiate s.image).height

/-- A variable occurs in a pair of types once they are applied. -/
def OccursIn (s : Subst) (v : VarId) (pair : Ty × Ty) : Prop :=
  (pair.1.instantiate s.image).occurs v = true ∨ (pair.2.instantiate s.image).occurs v = true

/-- How many variables of a set may still be bound. -/
def openCount (vars : Finset VarId) (s : Subst) : Nat :=
  (vars.filter fun v => s.lookup v = none).card

/-- All pairs that wait stay within a limit of nested steps. -/
structure Fits (vars : Finset VarId) (limit : Nat) (s : Subst) (work : List (Ty × Ty)) :
    Prop where
  occurs : ∀ pair ∈ work, ∀ v, OccursIn s v pair → v ∈ vars
  cost : ∀ pair ∈ work, pairHeight s pair * 3 ^ openCount vars s ≤ limit

theorem pairHeight_pos (s : Subst) (pair : Ty × Ty) : 0 < pairHeight s pair :=
  Nat.add_pos_left (Ty.height_pos _) _

/-- The pairs that a rule leaves are lower than the heads they come from, and
nothing was bound. -/
theorem Rule.parts {p p' : Progress} {x y : Ty} {work : List (Ty × Ty)}
    (h : Rule p x y p' work) : ∀ pair ∈ work, p'.subst = p.subst ∧
      pairHeight p.subst pair < pairHeight p.subst (x, y) ∧
      ∀ v, OccursIn p.subst v pair → OccursIn p.subst v (x, y) := by
  intro pair hpair
  cases h with
  | unwrapLeft _ =>
      rw [List.mem_singleton] at hpair
      subst hpair
      refine ⟨rfl, ?_, ?_⟩
      · simp only [pairHeight, Ty.instantiate_const, Ty.height]
        omega
      · intro v
        simp only [OccursIn, Ty.instantiate_const, Ty.occurs_const]
        exact id
  | unwrapRight _ =>
      rw [List.mem_singleton] at hpair
      subst hpair
      refine ⟨rfl, ?_, ?_⟩
      · simp only [pairHeight, Ty.instantiate_const, Ty.height]
        omega
      · intro v
        simp only [OccursIn, Ty.instantiate_const, Ty.occurs_const]
        exact id
  | @decompose params params' result result' hlength =>
      rw [List.mem_append, List.mem_singleton] at hpair
      refine ⟨rfl, ?_⟩
      simp only [pairHeight, OccursIn, Ty.instantiate_func, Ty.occurs_func]
      rcases hpair with hpair | rfl
      · obtain ⟨hleft, hright⟩ := List.of_mem_zip hpair
        have hleft := List.mem_map_of_mem (f := Ty.instantiate p.subst.image) hleft
        have hright := List.mem_map_of_mem (f := Ty.instantiate p.subst.image) hright
        refine ⟨Nat.add_lt_add (Ty.height_param_lt hleft _) (Ty.height_param_lt hright _), ?_⟩
        rintro v (hv | hv)
        · exact .inl (.inl ⟨_, hleft, hv⟩)
        · exact .inr (.inl ⟨_, hright, hv⟩)
      · refine ⟨Nat.add_lt_add (Ty.height_result_lt _ _) (Ty.height_result_lt _ _), ?_⟩
        rintro v (hv | hv)
        · exact .inl (.inr hv)
        · exact .inr (.inr hv)
  | _ => exact absurd hpair List.not_mem_nil

/-- A rule binds nothing, or a variable of its heads to a type made of them. -/
theorem Rule.binding {p p' : Progress} {x y : Ty} {work : List (Ty × Ty)}
    (h : Rule p x y p' work) : p'.subst = p.subst ∨ ∃ v ty,
      p'.subst = p.subst.extend v ty ∧ p.subst.Admits v ty ∧ OccursIn p.subst v (x, y) ∧
      ty.height ≤ pairHeight p.subst (x, y) ∧
      ∀ w, ty.occurs w = true → OccursIn p.subst w (x, y) := by
  cases h with
  | @bindLeft v y _ admitted =>
      refine .inr ⟨v, p.subst.stored y, rfl, admitted, .inl ?_, ?_, fun w hw => .inr ?_⟩
      · rw [Ty.instantiate_var, Subst.image_of_lookup_eq_none admitted.unbound, Ty.occurs_var]
      · exact (Ty.height_erase_le _).trans (Nat.le_add_left _ _)
      · rwa [Subst.stored, Ty.occurs_erase] at hw
  | @bindRight x v _ _ admitted =>
      refine .inr ⟨v, p.subst.stored x, rfl, admitted, .inr ?_, ?_, fun w hw => .inl ?_⟩
      · rw [Ty.instantiate_var, Subst.image_of_lookup_eq_none admitted.unbound, Ty.occurs_var]
      · exact (Ty.height_erase_le _).trans (Nat.le_add_right _ _)
      · rwa [Subst.stored, Ty.occurs_erase] at hw
  | _ => exact .inl rfl

section Extend

variable {s : Subst} {v : VarId} {ty : Ty}

theorem pairHeight_extend_le (hs : s.Acyclic) (admitted : s.Admits v ty) (pair : Ty × Ty) :
    pairHeight (s.extend v ty) pair ≤ pairHeight s pair + 2 * ty.height := by
  have himage : ∀ w, (Function.update Ty.var v ty w).height ≤ ty.height + 1 := by
    intro w
    by_cases hw : w = v
    · rw [hw, Function.update_self]
      exact Nat.le_succ _
    · rw [Function.update_of_ne hw]
      exact Nat.le_add_left 1 _
  have hraise (source : Ty) : (source.instantiate (s.extend v ty).image).height ≤
      (source.instantiate s.image).height + ty.height := by
    rw [admitted.instantiate_image_extend hs]
    exact Ty.height_instantiate_le fun w _ => himage w
  have hfirst := hraise pair.1
  have hsecond := hraise pair.2
  rw [pairHeight, pairHeight]
  omega

theorem occurs_instantiate_update {w : VarId} {source : Ty}
    (h : (source.instantiate (Function.update .var v ty)).occurs w = true) :
    source.occurs w = true ∨ ty.occurs w = true := by
  obtain ⟨u, hu, hw⟩ := Ty.occurs_instantiate.mp h
  by_cases huv : u = v
  · rw [huv, Function.update_self] at hw
    exact .inr hw
  · rw [Function.update_of_ne huv, Ty.occurs_var] at hw
    exact .inl (hw ▸ hu)

theorem occursIn_extend (hs : s.Acyclic) (admitted : s.Admits v ty) {w : VarId}
    {pair : Ty × Ty} (h : OccursIn (s.extend v ty) w pair) :
    OccursIn s w pair ∨ ty.occurs w = true := by
  rw [OccursIn, admitted.instantiate_image_extend hs, admitted.instantiate_image_extend hs] at h
  rcases h with h | h
  · exact (occurs_instantiate_update h).imp_left .inl
  · exact (occurs_instantiate_update h).imp_left .inr

theorem openCount_extend {vars : Finset VarId} (hv : v ∈ vars) (hunbound : s.lookup v = none) :
    openCount vars (s.extend v ty) + 1 = openCount vars s := by
  have herase : (vars.filter fun w => (s.extend v ty).lookup w = none) =
      (vars.filter fun w => s.lookup w = none).erase v := by
    ext w
    by_cases hw : w = v
    · subst hw
      simp
    · simp [hw, Subst.lookup_extend_of_ne s hw]
  rw [openCount, herase]
  exact Finset.card_erase_add_one (Finset.mem_filter.mpr ⟨hv, hunbound⟩)

end Extend

/-- A pair and its heads have the same variables. -/
theorem occursIn_heads {s : Subst} {a b x y : Ty} (hx : s.IsHead a x) (hy : s.IsHead b y)
    (v : VarId) : OccursIn s v (x, y) ↔ OccursIn s v (a, b) := by
  rw [OccursIn, OccursIn, hx.image_eq, hy.image_eq]

/-- A pair that waits after a move has no variable that no pair had before. -/
theorem Move.exists_occursIn {c d : Progress × List (Ty × Ty)} (hmove : Move c d)
    (hs : c.1.subst.Acyclic) {pair : Ty × Ty} (hmem : pair ∈ d.2) {v : VarId}
    (hv : OccursIn d.1.subst v pair) : ∃ source ∈ c.2, OccursIn c.1.subst v source := by
  obtain ⟨hstep, rest⟩ := hmove
  rename_i p p' a b work
  obtain ⟨x, y, hx, hy, hrule⟩ := hstep.exists_heads hs
  have hfirst : OccursIn p.subst v (x, y) → ∃ source ∈ (a, b) :: rest, OccursIn p.subst v source :=
    fun hv => ⟨(a, b), List.mem_cons_self, (occursIn_heads hx hy v).mp hv⟩
  rcases List.mem_append.mp hmem with hmem | hmem
  · obtain ⟨hsame, _, hoccurs⟩ := hrule.parts pair hmem
    exact hfirst (hoccurs v (hsame ▸ hv))
  · rcases hrule.binding with hsame | ⟨u, ty, hextend, admitted, _, _, hparts⟩
    · exact ⟨pair, List.mem_cons_of_mem _ hmem, hsame ▸ hv⟩
    · rw [hextend] at hv
      rcases occursIn_extend hs admitted hv with hv | hv
      · exact ⟨pair, List.mem_cons_of_mem _ hmem, hv⟩
      · exact hfirst (hparts v hv)

theorem Moves.exists_occursIn {c d : Progress × List (Ty × Ty)} (hmoves : Moves c d)
    (hs : c.1.subst.Acyclic) {pair : Ty × Ty} (hmem : pair ∈ d.2) {v : VarId}
    (hv : OccursIn d.1.subst v pair) : ∃ source ∈ c.2, OccursIn c.1.subst v source := by
  induction hmoves generalizing pair with
  | refl => exact ⟨pair, hmem, hv⟩
  | tail hmoves hmove ih =>
      obtain ⟨middle, hmiddle, hv⟩ :=
        hmove.exists_occursIn (Moves.grows hmoves |>.acyclic hs) hmem hv
      exact ih hmiddle hv

/-- A limit that no pair exceeds is not exceeded after a move. -/
theorem Move.fits {vars : Finset VarId} {limit : Nat} {c d : Progress × List (Ty × Ty)}
    (hmove : Move c d) (hs : c.1.subst.Acyclic) (h : Fits vars limit c.1.subst c.2) :
    Fits vars limit d.1.subst d.2 := by
  refine ⟨fun pair hmem v hv => ?_, ?_⟩
  · obtain ⟨source, hsource, hv⟩ := hmove.exists_occursIn hs hmem hv
    exact h.occurs source hsource v hv
  obtain ⟨hstep, rest⟩ := hmove
  rename_i p p' a b work
  dsimp only at hs h ⊢
  obtain ⟨x, y, hx, hy, hrule⟩ := hstep.exists_heads hs
  have hcost : pairHeight p.subst (x, y) * 3 ^ openCount vars p.subst ≤ limit := by
    have hcost := h.cost (a, b) List.mem_cons_self
    rwa [pairHeight, ← hx.image_eq, ← hy.image_eq] at hcost
  have hrestCost := fun pair (hmem : pair ∈ rest) => h.cost pair (List.mem_cons_of_mem _ hmem)
  intro pair hmem
  rcases List.mem_append.mp hmem with hmem | hmem
  · obtain ⟨hsame, hlower, _⟩ := hrule.parts pair hmem
    rw [hsame]
    exact (Nat.mul_le_mul_right _ hlower.le).trans hcost
  · rcases hrule.binding with hsame | ⟨u, ty, hextend, admitted, hu, hheight, _⟩
    · rw [hsame]
      exact hrestCost pair hmem
    · -- The heights may have tripled, but one variable fewer is open.
      have hvars : u ∈ vars :=
        h.occurs (a, b) List.mem_cons_self u ((occursIn_heads hx hy u).mp hu)
      have hopen : openCount vars (p.subst.extend u ty) + 1 = openCount vars p.subst :=
        openCount_extend hvars admitted.unbound
      have hraise := pairHeight_extend_le hs admitted pair
      have hwait := hrestCost pair hmem
      rw [← hopen, pow_succ] at hcost hwait
      rw [hextend]
      set scale := 3 ^ openCount vars (p.subst.extend u ty)
      calc pairHeight (p.subst.extend u ty) pair * scale
          ≤ (pairHeight p.subst pair + 2 * pairHeight p.subst (x, y)) * scale :=
            Nat.mul_le_mul_right _ (by omega)
        _ ≤ limit := by nlinarith

theorem Moves.fits {vars : Finset VarId} {limit : Nat} {c d : Progress × List (Ty × Ty)}
    (hmoves : Moves c d) (hs : c.1.subst.Acyclic) (h : Fits vars limit c.1.subst c.2) :
    Fits vars limit d.1.subst d.2 := by
  induction hmoves with
  | refl => exact h
  | tail hmoves hmove ih => exact hmove.fits (Moves.grows hmoves |>.acyclic hs) ih

/-- The pairs that a rule leaves need a step less than their pair. -/
theorem Step.fits {vars : Finset VarId} {limit : Nat} {p p' : Progress} {a b : Ty}
    {work : List (Ty × Ty)} (hstep : Step p a b p' work) (hs : p.subst.Acyclic)
    (h : Fits vars (limit + 1) p.subst [(a, b)]) : Fits vars limit p'.subst work := by
  have hafter := (Move.step hstep []).fits hs h
  rw [List.append_nil] at hafter
  refine ⟨hafter.occurs, ?_⟩
  intro pair hmem
  obtain ⟨x, y, hx, hy, hrule⟩ := hstep.exists_heads hs
  obtain ⟨hsame, hlower, _⟩ := hrule.parts pair hmem
  have hcost := h.cost (a, b) List.mem_cons_self
  rw [pairHeight, ← hx.image_eq, ← hy.image_eq] at hcost
  have hscale : 0 < 3 ^ openCount vars p.subst := Nat.pow_pos (by decide)
  rw [hsame]
  change pairHeight p.subst (x, y) * _ ≤ _ at hcost
  nlinarith

theorem solveAll_ne_broken {vars : Finset VarId} {limit : Nat}
    {solve : Progress → Ty → Ty → Attempt}
    (hfollows : ∀ p a b, p.subst.Acyclic → (solve p a b).Follows p [(a, b)])
    (hsolve : ∀ p a b, p.subst.Acyclic → Fits vars limit p.subst [(a, b)] →
      ∀ fault, solve p a b ≠ .broken fault)
    {p : Progress} (hs : p.subst.Acyclic) {work : List (Ty × Ty)}
    (h : Fits vars limit p.subst work) (fault : Fault) :
    solveAll solve p work ≠ .broken fault := by
  induction work generalizing p with
  | nil => exact Attempt.noConfusion
  | cons pair others ih =>
      obtain ⟨a, b⟩ := pair
      have hfirst : Fits vars limit p.subst [(a, b)] :=
        ⟨fun pair hmem => h.occurs pair (List.mem_singleton.mp hmem ▸ List.mem_cons_self),
          fun pair hmem => h.cost pair (List.mem_singleton.mp hmem ▸ List.mem_cons_self)⟩
      have hmoves := hfollows p a b hs
      rw [solveAll]
      cases hattempt : solve p a b with
      | solved q =>
          rw [hattempt] at hmoves
          have hmoves : Moves (p, (a, b) :: others) (q, others) := hmoves others
          exact ih (hmoves.grows.acyclic hs) (hmoves.fits hs h)
      | failed error q => exact Attempt.noConfusion
      | broken fault => exact absurd hattempt (hsolve p a b hs hfirst fault)

/-- Within the limit, unification succeeds or fails. -/
theorem solve_ne_broken {vars : Finset VarId} (steps : Nat) {p : Progress}
    (hs : p.subst.Acyclic) {a b : Ty} (h : Fits vars steps p.subst [(a, b)]) (fault : Fault) :
    solve steps p a b ≠ .broken fault := by
  induction steps generalizing p a b fault with
  | zero =>
      have hcost := h.cost (a, b) List.mem_cons_self
      have hpos : 0 < pairHeight p.subst (a, b) * 3 ^ openCount vars p.subst :=
        Nat.mul_pos (pairHeight_pos _ _) (Nat.pow_pos (by decide))
      omega
  | succ steps ih =>
      obtain ⟨x, hx, hxhead⟩ := hs.exists_resolve_eq_ok a
      obtain ⟨y, hy, hyhead⟩ := hs.exists_resolve_eq_ok b
      rw [solve, hx, hy]
      show solveHeads (solve steps) p x y ≠ .broken fault
      rcases solveHeads_cases hs hxhead.unbound hyhead.unbound (solve steps) with
        ⟨p', work, hrule, heq⟩ | ⟨error, p', _, heq⟩
      · rw [heq]
        have hstep : Step p a b p' work := ⟨x, y, hx, hy, hrule⟩
        exact solveAll_ne_broken (fun q a b hq => solve_follows steps hq a b)
          (fun q a b hq hfits => ih hq hfits) (hrule.grows.acyclic hs) (hstep.fits hs h) fault
      · rw [heq]
        exact Attempt.noConfusion

/-! ## The limit at the start of a run -/

section Start

variable {s : Subst}

/-- What a variable stands for is no higher than all bound types on top of each other. -/
theorem height_image_le (hs : s.Acyclic) (v : VarId) :
    (s.image v).height ≤ s.reachedCost Ty.size v + 1 := by
  induction v using hs.induction with | step v ih
  cases hlookup : s.lookup v with
  | none =>
      rw [Subst.image_of_lookup_eq_none hlookup]
      exact Nat.le_add_left 1 _
  | some ty =>
      have hown := Subst.cost_le_reachedCost Ty.size hlookup
      have hparts : ∀ w, ty.occurs w = true →
          (s.image w).height ≤ (s.reachedCost Ty.size v - ty.size) + 1 := by
        intro w hw
        have hw' := ih ty w hlookup hw
        have hless := hs.reachedCost_add_le Ty.size hlookup hw
        omega
      have hheight := Ty.height_instantiate_le hparts
      have hsize := ty.height_le_size
      rw [hs.image_of_lookup_eq_some hlookup]
      omega

theorem height_instantiate_image_le (hs : s.Acyclic) (ty : Ty) :
    (ty.instantiate s.image).height ≤ ty.size + boundSize s := by
  have himage : ∀ v, ty.occurs v = true → (s.image v).height ≤ boundSize s + 1 := by
    intro v _
    have hreached := Subst.reachedCost_le (s := s) Ty.size v
    rw [← Ty.sizeAll_eq_sum] at hreached
    exact (height_image_le hs v).trans (Nat.succ_le_succ hreached)
  exact (Ty.height_instantiate_le himage).trans (Nat.add_le_add_right ty.height_le_size _)

theorem occurs_image (hs : s.Acyclic) {v w : VarId} (h : (s.image v).occurs w = true) :
    w = v ∨ ∃ bound ∈ s.bindings.values, bound.occurs w = true := by
  induction v using hs.induction with | step v ih
  cases hlookup : s.lookup v with
  | none =>
      rw [Subst.image_of_lookup_eq_none hlookup, Ty.occurs_var] at h
      exact .inl h.symm
  | some ty =>
      rw [hs.image_of_lookup_eq_some hlookup] at h
      obtain ⟨u, hu, hw⟩ := Ty.occurs_instantiate.mp h
      rcases ih ty u hlookup hu hw with rfl | hbound
      · have hmem : ty ∈ s.bindings.values :=
          List.mem_map.mpr ⟨(v, ty), KeyMap.find?_eq_some_iff.mp hlookup, rfl⟩
        exact .inr ⟨ty, hmem, hu⟩
      · exact .inr hbound

/-- The variables in sight are no more than there are constructors in sight. -/
theorem exists_vars (hs : s.Acyclic) (a b : Ty) : ∃ vars : Finset VarId,
    (∀ v, OccursIn s v (a, b) → v ∈ vars) ∧ vars.card ≤ a.size + b.size + boundSize s := by
  let listed := a.varOccurrences ++ b.varOccurrences ++ Ty.varOccurrencesAll s.bindings.values
  have hbound : ∀ {w} {ty : Ty}, ty.occurs w = true → (∀ v ∈ ty.varOccurrences, v ∈ listed) →
      w ∈ listed := fun hw hsub => hsub _ ((Ty.occurs_iff _ _).mp hw)
  have happlied : ∀ {w} {ty : Ty}, (ty.instantiate s.image).occurs w = true →
      (∀ v ∈ ty.varOccurrences, v ∈ listed) → w ∈ listed := by
    intro w ty hw hsub
    obtain ⟨v, hv, hw⟩ := Ty.occurs_instantiate.mp hw
    rcases occurs_image hs hw with rfl | ⟨bound, hmem, hw⟩
    · exact hbound hv hsub
    · refine List.mem_append_right _ ?_
      rw [Ty.varOccurrencesAll_eq_flatMap, List.mem_flatMap]
      exact ⟨bound, hmem, (Ty.occurs_iff _ _).mp hw⟩
  refine ⟨listed.toFinset, ?_, ?_⟩
  · rintro v (hv | hv)
    · exact List.mem_toFinset.mpr (happlied hv fun _ h => by simp [listed, h])
    · exact List.mem_toFinset.mpr (happlied hv fun _ h => by simp [listed, h])
  · have ha := a.length_varOccurrences_le
    have hb := b.length_varOccurrences_le
    have hbindings : (Ty.varOccurrencesAll s.bindings.values).length ≤ boundSize s := by
      rw [Ty.varOccurrencesAll_eq_flatMap, List.length_flatMap, boundSize, Ty.sizeAll_eq_sum]
      exact List.sum_le_sum fun ty _ => ty.length_varOccurrences_le
    calc listed.toFinset.card ≤ listed.length := List.toFinset_card_le listed
      _ ≤ a.size + b.size + boundSize s := by
        rw [List.length_append, List.length_append]
        omega

/-- The steps a run is given are within the limit of its pair. -/
theorem exists_fits_stepBound (hs : s.Acyclic) (a b : Ty) :
    ∃ vars, Fits vars (stepBound s a b) s [(a, b)] := by
  obtain ⟨vars, hvars, hcard⟩ := exists_vars hs a b
  refine ⟨vars, fun pair hmem => List.mem_singleton.mp hmem ▸ hvars, ?_⟩
  intro pair hmem
  rw [List.mem_singleton.mp hmem]
  have ha := height_instantiate_image_le hs a
  have hb := height_instantiate_image_le hs b
  have hopen : openCount vars s ≤ vars.card := Finset.card_filter_le _ _
  refine Nat.mul_le_mul ?_ (Nat.pow_le_pow_right (by decide) ?_)
  · show (a.instantiate s.image).height + (b.instantiate s.image).height ≤ _
    omega
  · omega

end Start

/-- On a substitution without cycles, unification succeeds or fails. -/
theorem run_ne_broken {s : Subst} (hs : s.Acyclic) (a b : Ty) (fault : Fault) :
    run s a b ≠ .broken fault := by
  obtain ⟨vars, hfits⟩ := exists_fits_stepBound hs a b
  exact solve_ne_broken (stepBound s a b) hs hfits fault

end Unify

end TypeInference
