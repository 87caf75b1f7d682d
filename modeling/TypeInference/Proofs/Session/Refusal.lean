/-
# What a failed unification tells

The error of a failed unification is about two types that cannot be made equal:
their constructors or their numbers of parameters differ, or one of them is a
variable that occurs in the other.  The two are not made up for the occasion.
Unification only ever compares what stands at one place of its two types, so that
the types of the error, up to literal wrappers, are found at one place of the
two types as they were applied when unification stopped.

The bindings of the failed attempt are part of that statement: they were undone
afterwards, and without them the place may not exist.
-/

import TypeInference.Proofs.Session.Reachable
import TypeInference.Proofs.Session.Trait
import TypeInference.Proofs.Unify.Reduction

namespace TypeInference

/-- Where a part of a function type stands. -/
inductive Slot where
  | param (index : Nat)
  | result
  deriving DecidableEq, Repr

namespace Ty

/-- The part of a type at a place, which is given by the slots on the way from the outside. -/
def part? : List Slot → Ty → Option Ty
  | [], ty => some ty
  | .param index :: rest, .func params _ => params[index]?.bind (part? rest)
  | .result :: rest, .func _ result => part? rest result
  | _ :: _, _ => .none

theorem part?_append (place more : List Slot) (ty : Ty) :
    ty.part? (place ++ more) = (ty.part? place).bind (part? more) := by
  induction place generalizing ty with
  | nil => rfl
  | cons slot rest ih =>
      cases slot with
      | param index =>
          cases ty with
          | func params result =>
              rw [List.cons_append, part?, part?, Option.bind_assoc]
              exact congrArg _ (funext ih)
          | _ => rfl
      | result =>
          cases ty with
          | func params result => exact ih result
          | _ => rfl

/-- Replacing variables moves no part. -/
theorem part?_instantiate (image : VarId → Ty) {place : List Slot} {ty part : Ty}
    (h : ty.part? place = some part) :
    (ty.instantiate image).part? place = some (part.instantiate image) := by
  induction place generalizing ty with
  | nil =>
      cases h
      rfl
  | cons slot rest ih =>
      cases ty with
      | func params result =>
          rw [instantiate_func]
          cases slot with
          | param index =>
              obtain ⟨param, hparam, hpart⟩ := Option.bind_eq_some_iff.mp h
              rw [part?, List.getElem?_map, hparam]
              exact ih hpart
          | result => exact ih h
      | _ => cases slot <;> cases h

end Ty

namespace Unify

open Relation

/-- A pair stands at one place of two types, as they are applied and erased. -/
def Stands (s : Subst) (a b : Ty) (pair : Ty × Ty) : Prop :=
  ∃ place, (s.stored a).part? place = some (s.stored pair.1) ∧
    (s.stored b).part? place = some (s.stored pair.2)

section Stands

variable {s t : Subst} {a b x y : Ty} {pair : Ty × Ty}

theorem Stands.trans (h : Stands s a b (x, y)) (h' : Stands s x y pair) : Stands s a b pair := by
  obtain ⟨place, hx, hy⟩ := h
  obtain ⟨more, hfirst, hsecond⟩ := h'
  refine ⟨place ++ more, ?_, ?_⟩
  · rw [Ty.part?_append, hx]
    exact hfirst
  · rw [Ty.part?_append, hy]
    exact hsecond

theorem Stands.grows (h : Stands s a b pair) (hs : s.Acyclic) (hgrows : s.Grows t) :
    Stands t a b pair := by
  obtain ⟨place, hfirst, hsecond⟩ := h
  simp only [Stands, hgrows.stored_eq hs]
  exact ⟨place, Ty.part?_instantiate _ hfirst, Ty.part?_instantiate _ hsecond⟩

/-- Two types stand at the place of their heads. -/
theorem stands_heads (hx : s.IsHead a x) (hy : s.IsHead b y) : Stands s a b (x, y) :=
  ⟨[], by rw [hx.stored_eq]; rfl, by rw [hy.stored_eq]; rfl⟩

/-- The pairs that a rule leaves stand at places of its heads. -/
theorem Rule.stands {p p' : Progress} {work : List (Ty × Ty)} (h : Rule p x y p' work)
    (hpair : pair ∈ work) : Stands p.subst x y pair := by
  cases h with
  | unwrapLeft _ | unwrapRight _ =>
      cases List.mem_singleton.mp hpair
      exact ⟨[], by simp [Ty.part?], by simp [Ty.part?]⟩
  | decompose hlength =>
      simp only [Stands, Subst.stored_func]
      rcases List.mem_append.mp hpair with hpair | hpair
      · obtain ⟨index, hindex⟩ := List.mem_iff_getElem?.mp hpair
        obtain ⟨hfirst, hsecond⟩ := List.getElem?_zip_eq_some.mp hindex
        refine ⟨[.param index], ?_, ?_⟩
        · rw [Ty.part?, List.getElem?_map, hfirst]
          rfl
        · rw [Ty.part?, List.getElem?_map, hsecond]
          rfl
      · cases List.mem_singleton.mp hpair
        exact ⟨[.result], rfl, rfl⟩
  | _ => exact absurd hpair List.not_mem_nil

end Stands

section Moves

variable {c d : Progress × List (Ty × Ty)} {a b : Ty}

theorem Move.stands (hmove : Move c d) (hs : c.1.subst.Acyclic)
    (h : ∀ pair ∈ c.2, Stands c.1.subst a b pair) : ∀ pair ∈ d.2, Stands d.1.subst a b pair := by
  have hgrows := hmove.grows
  obtain ⟨hstep, rest⟩ := hmove
  rename_i p p' first second work
  obtain ⟨x, y, hx, hy, hrule⟩ := hstep.exists_heads hs
  intro pair hpair
  -- A binding fills in variables on both sides alike, so places before it are places after it.
  refine Stands.grows (s := p.subst) ?_ hs hgrows
  rcases List.mem_append.mp hpair with hpair | hpair
  · have hheads := (h (first, second) List.mem_cons_self).trans (stands_heads hx hy)
    exact hheads.trans (hrule.stands hpair)
  · exact h pair (List.mem_cons_of_mem _ hpair)

/-- All that unification comes to compare stands at one place of the two types it
started with. -/
theorem Moves.stands (hmoves : Moves c d) (hs : c.1.subst.Acyclic)
    (h : ∀ pair ∈ c.2, Stands c.1.subst a b pair) : ∀ pair ∈ d.2, Stands d.1.subst a b pair := by
  induction hmoves with
  | refl => exact h
  | tail hmoves hmove ih => exact hmove.stands (Moves.grows hmoves |>.acyclic hs) ih

end Moves

end Unify

namespace TypeError

/-- An error that shows why two types cannot be made equal, for a session with the
given bindings. -/
inductive Genuine (s : Subst) : TypeError → Prop
  | mismatch {expected actual : Ty} (hexpected : expected.tag ∉ [.var, .any, .error, .const])
      (hactual : actual.tag ∉ [.var, .any, .error, .const]) (htags : expected.tag ≠ actual.tag) :
      Genuine s (.mismatch expected actual)
  | arity {params params' : List Ty} {result result' : Ty}
      (hlength : params.length ≠ params'.length) :
      Genuine s (.arity params.length params'.length (.func params result) (.func params' result'))
  | infinite {v : VarId} {params : List Ty} {result : Ty} (hunbound : s.lookup v = none)
      (hconst : (Ty.func params result).hasConst = false)
      (hocc : (Ty.func params result).occurs v = true) :
      Genuine s (.infinite v (.func params result))

/-- The two types that an error sets against each other. -/
inductive Opposes : TypeError → Ty → Ty → Prop
  | mismatch (expected actual : Ty) : Opposes (.mismatch expected actual) expected actual
  | arity (count count' : Nat) (expected actual : Ty) :
      Opposes (.arity count count' expected actual) expected actual
  | infiniteLeft (v : VarId) (ty : Ty) : Opposes (.infinite v ty) (.var v) ty
  | infiniteRight (v : VarId) (ty : Ty) : Opposes (.infinite v ty) ty (.var v)

end TypeError

namespace Unify

section Clash

variable {p p' : Progress} {x y : Ty} {error : TypeError}

theorem tag_notMem_of_isProper {ty : Ty} (h : ty.isProper = true) (hvar : ty.isVar = false)
    (image : VarId → Ty) : (ty.instantiate image).tag ∉ [.var, .any, .error, .const] := by
  rw [Ty.tag_instantiate hvar]
  cases ty with
  | any | error | const => cases h
  | var => cases hvar
  | _ => simp [Ty.tag]

/-- A variable occurs in no proper type but a function, other than itself. -/
theorem exists_stored_eq_func {s : Subst} {ty : Ty} {v : VarId} (h : ty.isProper = true)
    (hvar : ty.isVar = false) (hocc : (s.stored ty).occurs v = true) :
    ∃ params result, s.stored ty = .func params result := by
  cases ty with
  | any | error | const => cases h
  | var => cases hvar
  | func params result => exact ⟨_, _, Subst.stored_func params result⟩
  | _ => cases hocc

theorem genuine_infinite {s : Subst} {ty : Ty} {v : VarId} (hv : s.lookup v = none)
    (h : ty.isProper = true) (hvar : ty.isVar = false) (hocc : (s.stored ty).occurs v = true) :
    (TypeError.infinite v (s.stored ty)).Genuine s := by
  have hconst : (s.stored ty).hasConst = false := Ty.hasConst_erase _
  obtain ⟨params, result, heq⟩ := exists_stored_eq_func h hvar hocc
  rw [heq] at hconst hocc ⊢
  exact .infinite hv hconst hocc

theorem Clash.genuine (h : Clash p x y error p')
    (hx : ∀ v, x = .var v → p.subst.lookup v = none)
    (hy : ∀ v, y = .var v → p.subst.lookup v = none) : error.Genuine p.subst := by
  cases h with
  | occursLeft hproper hvar hocc => exact genuine_infinite (hx _ rfl) hproper hvar hocc
  | occursRight hproper hvar hocc => exact genuine_infinite (hy _ rfl) hproper hvar hocc
  | @arity params params' result result' hlength =>
      have hcount (list : List Ty) :
          list.length = (list.map (Ty.instantiate p.subst.image)).length :=
        (List.length_map _).symm
      rw [hcount params, hcount params'] at hlength ⊢
      rw [Ty.instantiate_func, Ty.instantiate_func]
      exact .arity hlength
  | mismatch hx hxvar hy hyvar htag =>
      refine .mismatch (tag_notMem_of_isProper hx hxvar _) (tag_notMem_of_isProper hy hyvar _) ?_
      rwa [Ty.tag_instantiate hxvar, Ty.tag_instantiate hyvar]

/-- A clash sets its two heads against each other. -/
theorem Clash.opposes (h : Clash p x y error p')
    (hx : ∀ v, x = .var v → p.subst.lookup v = none)
    (hy : ∀ v, y = .var v → p.subst.lookup v = none) :
    error.erase.Opposes (p.subst.stored x) (p.subst.stored y) := by
  have herase : ∀ ty, (p.subst.stored ty).erase = p.subst.stored ty := fun ty => Ty.erase_erase _
  cases h with
  | @occursLeft v y _ _ _ =>
      rw [Subst.stored_var_of_unbound (hx v rfl), TypeError.erase, herase]
      exact .infiniteLeft v _
  | @occursRight x v _ _ _ =>
      rw [Subst.stored_var_of_unbound (hy v rfl), TypeError.erase, herase]
      exact .infiniteRight v _
  | arity _ => exact .arity _ _ _ _
  | mismatch _ _ _ _ _ => exact .mismatch _ _

/-- Bindings that an attempt made leave fewer variables unbound. -/
theorem genuine_of_grows {s t : Subst} (h : error.Genuine t) (hgrows : s.Grows t) :
    error.Genuine s := by
  cases h with
  | mismatch hexpected hactual htags => exact .mismatch hexpected hactual htags
  | arity hlength => exact .arity hlength
  | @infinite v params result hunbound hconst hocc =>
      refine .infinite ?_ hconst hocc
      cases hv : s.lookup v with
      | none => rfl
      | some bound => exact absurd (hgrows.lookup_eq_some hv) (by simp [hunbound])

end Clash

end Unify

namespace Session

open Unify

variable {s s' : Session} {a b : Ty} {error : TypeError}

/-- A failed unification is an attempt that got stuck at some pair. -/
theorem exists_stuck_of_unify_error (hs : s.subst.Acyclic)
    (h : s.unify a b = .ok (.error error, s')) :
    ∃ q x y more p, Unify.run s.subst a b = .failed error p ∧
      Moves (s.start, [(a, b)]) (q, (x, y) :: more) ∧ Stuck q x y error p := by
  have hfollows : (Unify.run s.subst a b).Follows s.start [(a, b)] :=
    solve_follows (stepBound s.subst a b) hs a b
  rw [unify] at h
  cases hattempt : Unify.run s.subst a b with
  | solved p =>
      rw [hattempt] at h
      cases h
  | failed error' p =>
      rw [hattempt] at h hfollows
      cases h
      obtain ⟨q, x, y, more, hmoves, hstuck⟩ := hfollows []
      exact ⟨q, x, y, more, p, rfl, hmoves, hstuck⟩
  | broken fault => exact absurd hattempt (Unify.run_ne_broken hs a b fault)

/-- The error of a failed unification is of one of three kinds and shows a real
conflict.  Its two types, up to literal wrappers, stand at one place of the types
that were to be unified, applied under the bindings that the attempt had made when
it stopped. -/
theorem unify_error_genuine (hreach : s.Reachable) (h : s.unify a b = .ok (.error error, s')) :
    error.Genuine s.subst ∧
    ∃ p x y place u w, Unify.run s.subst a b = .failed error p ∧ s.subst.Grows p.subst ∧
      p.subst.apply a = .ok x ∧ p.subst.apply b = .ok y ∧
      x.erase.part? place = some u ∧ y.erase.part? place = some w ∧
      error.erase.Opposes u w := by
  have hs := hreach.wellFormed.acyclic
  obtain ⟨q, first, second, more, p, hrun, hmoves, hstuck⟩ := exists_stuck_of_unify_error hs h
  have hgrows : s.subst.Grows q.subst := hmoves.grows
  have hq := hgrows.acyclic hs
  obtain ⟨u, w, hu, hw, hclash⟩ := hstuck.exists_heads hq
  have hstart : ∀ pair ∈ [(a, b)], Stands s.subst a b pair := by
    intro pair hpair
    cases List.mem_singleton.mp hpair
    exact ⟨[], rfl, rfl⟩
  have hstuckAt : Stands q.subst a b (first, second) :=
    Moves.stands hmoves hs hstart _ List.mem_cons_self
  obtain ⟨place, hfirst, hsecond⟩ := hstuckAt.trans (stands_heads hu hw)
  refine ⟨genuine_of_grows (hclash.genuine hu.unbound hw.unbound) hgrows, ?_⟩
  refine ⟨p, _, _, place, _, _, hrun, hstuck.subst_eq ▸ hgrows, ?_, ?_, hfirst, hsecond,
    hclash.opposes hu.unbound hw.unbound⟩
  · rw [hstuck.subst_eq]
    exact hq.apply_eq_ok a
  · rw [hstuck.subst_eq]
    exact hq.apply_eq_ok b

/-- A variable is bound to `num` by one parameter, and the mismatch is in another,
where the variable stands against a literal of the wrong type. -/
theorem unify_error_genuine_after_binding : ∃ s s' : Session, ∃ error, ∃ p : Progress,
    ∃ x y : Ty, ∃ place u w, s.Reachable ∧
    s.unify (.func [.var 0, .func [.var 0] .bool] .str)
      (.func [.num, .func [.const .str (.str "one")] .bool] .str) = .ok (.error error, s') ∧
    error = .mismatch .num .str ∧ error.Genuine s.subst ∧ p.subst.lookup 0 = some .num ∧
    p.subst.apply (.func [.var 0, .func [.var 0] .bool] .str) = .ok x ∧
    p.subst.apply (.func [.num, .func [.const .str (.str "one")] .bool] .str) = .ok y ∧
    x.erase.part? place = some u ∧ y.erase.part? place = some w ∧ error.erase.Opposes u w := by
  have hrun : ∃ s s' : Session, ∃ error, ∃ p : Progress, s.Reachable ∧
      s.unify (.func [.var 0, .func [.var 0] .bool] .str)
        (.func [.num, .func [.const .str (.str "one")] .bool] .str) = .ok (.error error, s') ∧
      error = .mismatch .num .str ∧
      Unify.run s.subst (.func [.var 0, .func [.var 0] .bool] .str)
        (.func [.num, .func [.const .str (.str "one")] .bool] .str) = .failed error p ∧
      p.subst.lookup 0 = some .num :=
    ⟨_, _, _, _,
      reachable_of_run Registry.builtin { varOffset := some 0 } ⟨0⟩ [.freshVars 1] rfl rfl,
      rfl, rfl, rfl, rfl⟩
  obtain ⟨s, s', error, p, hreach, hunify, herror, hfailed, hbound⟩ := hrun
  obtain ⟨hgenuine, p', x, y, place, u, w, hfailed', _, hrest⟩ := unify_error_genuine hreach hunify
  rw [hfailed] at hfailed'
  cases hfailed'
  exact ⟨s, s', error, p, x, y, place, u, w, hreach, hunify, herror, hgenuine, hbound, hrest⟩

end Session

end TypeInference
