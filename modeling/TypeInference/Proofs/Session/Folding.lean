/-
# Folding constants does not change type checking

An operator on two known operands answers a literal, whose type remembers the
value, where it would otherwise answer a plain type.  The two ways of typing an
expression are compared by evaluating it once with literals and once with their
plain types.  Unification looks through the wrapper of a literal before it does
anything else, so that both evaluations bind, report and defer the same.  They
differ in the trace alone.

The type of a literal is a leaf.  What unification makes of a leaf is said in one
equation, by the subject of the other type, and both evaluations have the same
subjects.
-/

import TypeInference.Proofs.Session.Comparison
import TypeInference.Proofs.Session.Frame
import TypeInference.Proofs.Session.Unification

namespace TypeInference

theorem Literal.isLeaf_ty (value : Literal) : value.ty.isLeaf = true := by
  cases value <;> rfl

namespace Ty

variable {ty : Ty}

theorem isWildcard_of_unwrap_isLeaf (h : ty.unwrap.isLeaf = true) : ty.isWildcard = false := by
  cases ty with
  | any | error => cases h
  | _ => rfl

theorem isVar_of_unwrap_isLeaf (h : ty.unwrap.isLeaf = true) : ty.isVar = false := by
  cases ty with
  | var v => cases h
  | _ => rfl

theorem unwrap_of_isProper (h : ty.isProper = true) : ty.unwrap = ty := by
  cases ty with
  | const base value => cases h
  | _ => rfl

theorem isProper_instantiate (h : ty.isProper = true) (hvar : ty.isVar = false)
    (image : VarId → Ty) : (ty.instantiate image).isProper = true := by
  cases ty with
  | var v => cases hvar
  | any | error | const => cases h
  | func params result =>
      rw [instantiate_func]
      rfl
  | _ => rfl

theorem isProper_of_isLeaf (h : ty.isLeaf = true) : ty.isProper = true := by
  cases ty with
  | int | num | bool | str | none => rfl
  | _ => cases h

theorem occurs_of_isLeaf (h : ty.isLeaf = true) (v : VarId) : ty.occurs v = false := by
  cases ty with
  | int | num | bool | str | none => rfl
  | _ => cases h

end Ty

namespace Subst

variable {s : Subst} {ty : Ty}

theorem resolve_of_isVar_eq_false (h : ty.isVar = false) : s.resolve ty = .ok ty :=
  follow_of_isVar_eq_false h s.size

theorem subject_of_isLeaf (h : ty.isLeaf = true) : s.subject ty = ty := by
  cases ty with
  | int | num | bool | str | none => rfl
  | _ => cases h

theorem subject_const (base : Ty) (value : Literal) :
    s.subject (.const base value) = s.subject base := by
  rw [subject, Ty.instantiate_const, Ty.unwrap, subject]

theorem IsHead.subject_eq {head : Ty} (h : s.IsHead ty head) : s.subject head = s.subject ty := by
  rw [subject, h.image_eq, subject]

theorem subject_of_isWildcard (h : ty.isWildcard = true) : s.subject ty = ty := by
  cases ty with
  | any | error => rfl
  | _ => cases h

theorem subject_of_isProper (h : ty.isProper = true) (hvar : ty.isVar = false) :
    s.subject ty = ty.instantiate s.image :=
  Ty.unwrap_of_isProper (Ty.isProper_instantiate h hvar s.image)

end Subst

namespace Unify

/-- How an attempt ends, unless it broke off. -/
def Attempt.Ends (answer : Except TypeError Subst) : Attempt → Prop
  | .solved progress => answer = .ok progress.subst
  | .failed error _ => answer = .error error
  | .broken _ => True

/-- What unification makes of a leaf and the subject of the other type, where
`clash` is the error if they differ. -/
def meetLeaf (s : Subst) (leaf subject : Ty) (clash : TypeError) : Except TypeError Subst :=
  match subject with
  | .any | .error => .ok s
  | .var v => .ok (s.extend v leaf)
  | _ => if subject.tag = leaf.tag then .ok s else .error clash

section MeetLeaf

variable {s : Subst} {leaf subject : Ty} {clash : TypeError}

theorem meetLeaf_of_isWildcard (h : subject.isWildcard = true) :
    meetLeaf s leaf subject clash = .ok s := by
  cases subject with
  | any | error => rfl
  | _ => cases h

theorem meetLeaf_of_unbound {v : VarId} (h : s.lookup v = none) :
    meetLeaf s leaf (s.subject (.var v)) clash = .ok (s.extend v leaf) := by
  rw [Subst.subject, Ty.instantiate_var, Subst.image_of_lookup_eq_none h]
  rfl

theorem meetLeaf_self (h : leaf.isLeaf = true) : meetLeaf s leaf leaf clash = .ok s := by
  cases leaf with
  | int | num | bool | str | none => rfl
  | _ => cases h

theorem meetLeaf_of_tag_ne {ty : Ty} (h : ty.isProper = true) (hvar : ty.isVar = false)
    (htag : ty.tag ≠ leaf.tag) : meetLeaf s leaf (s.subject ty) clash = .error clash := by
  rw [Subst.subject_of_isProper h hvar]
  cases ty with
  | any | error | const => cases h
  | var v => cases hvar
  | func params result =>
      rw [Ty.instantiate_func]
      exact if_neg htag
  | _ => exact if_neg htag

end MeetLeaf

variable {leaf : Ty}

/-- With any number of steps, a wrapped leaf on the left meets the subject of the
other type. -/
theorem solve_leaf_left (hleaf : leaf.isLeaf = true) (steps : Nat) {p : Progress}
    (hs : p.subst.Acyclic) {a : Ty} (ha : a.unwrap = leaf) (b : Ty) :
    (solve steps p a b).Ends (meetLeaf p.subst leaf (p.subst.subject b)
      (.mismatch leaf (p.subst.subject b))) := by
  induction steps generalizing p a b with
  | zero => trivial
  | succ steps ih =>
      have hunwrap : a.unwrap.isLeaf = true := ha ▸ hleaf
      have hvar := Ty.isVar_of_unwrap_isLeaf hunwrap
      have hproper (h : a.isProper = true) : a = leaf := (Ty.unwrap_of_isProper h).symm.trans ha
      have hahead : ∀ v, a = .var v → p.subst.lookup v = none := by
        rintro v rfl
        cases hvar
      obtain ⟨y, hy, hyhead⟩ := hs.exists_resolve_eq_ok b
      rw [solve, Subst.resolve_of_isVar_eq_false hvar, hy, ← hyhead.subject_eq]
      show (solveHeads (solve steps) p a y).Ends _
      rcases solveHeads_cases hs hahead hyhead.unbound (solve steps) with
        ⟨p', work, hrule, heq⟩ | ⟨error, p', hclash, heq⟩
      · rw [heq]
        cases hrule with
        | wildcard hwild =>
            rw [Ty.isWildcard_of_unwrap_isLeaf hunwrap, Bool.false_or] at hwild
            rw [Subst.subject_of_isWildcard hwild]
            exact meetLeaf_of_isWildcard hwild
        | @unwrapLeft base _ value =>
            rw [solveAll_singleton]
            exact ih (p := p.note _) (a := base) hs ha y
        | @unwrapRight _ base value =>
            rw [solveAll_singleton, Subst.subject_const]
            exact ih (p := p.note _) hs ha base
        | sameVar | bindLeft => cases hvar
        | bindRight hx _ admitted =>
            rw [hproper hx, Subst.stored_of_isLeaf hleaf]
            exact meetLeaf_of_unbound admitted.unbound
        | decompose => cases ha; cases hleaf
        | sameLeaf hx =>
            rw [hproper (Ty.isProper_of_isLeaf hx), Subst.subject_of_isLeaf hleaf]
            exact meetLeaf_self hleaf
      · rw [heq]
        cases hclash with
        | occursLeft => cases hvar
        | occursRight hx _ hocc =>
            rw [hproper hx, Subst.stored_of_isLeaf hleaf, Ty.occurs_of_isLeaf hleaf] at hocc
            cases hocc
        | arity => cases ha; cases hleaf
        | mismatch hx _ hy hyvar htag =>
            rw [hproper hx] at htag ⊢
            rw [meetLeaf_of_tag_ne hy hyvar htag.symm]
            show Except.error _ = Except.error _
            rw [Subst.subject_of_isProper hy hyvar, Ty.instantiate_of_isLeaf hleaf]

/-- The same for a wrapped leaf on the right. -/
theorem solve_leaf_right (hleaf : leaf.isLeaf = true) (steps : Nat) {p : Progress}
    (hs : p.subst.Acyclic) (a : Ty) {b : Ty} (hb : b.unwrap = leaf) :
    (solve steps p a b).Ends (meetLeaf p.subst leaf (p.subst.subject a)
      (.mismatch (p.subst.subject a) leaf)) := by
  induction steps generalizing p a b with
  | zero => trivial
  | succ steps ih =>
      have hunwrap : b.unwrap.isLeaf = true := hb ▸ hleaf
      have hvar := Ty.isVar_of_unwrap_isLeaf hunwrap
      have hproper (h : b.isProper = true) : b = leaf := (Ty.unwrap_of_isProper h).symm.trans hb
      have hbhead : ∀ v, b = .var v → p.subst.lookup v = none := by
        rintro v rfl
        cases hvar
      obtain ⟨x, hx, hxhead⟩ := hs.exists_resolve_eq_ok a
      rw [solve, Subst.resolve_of_isVar_eq_false hvar, hx, ← hxhead.subject_eq]
      show (solveHeads (solve steps) p x b).Ends _
      rcases solveHeads_cases hs hxhead.unbound hbhead (solve steps) with
        ⟨p', work, hrule, heq⟩ | ⟨error, p', hclash, heq⟩
      · rw [heq]
        cases hrule with
        | wildcard hwild =>
            rw [Ty.isWildcard_of_unwrap_isLeaf hunwrap, Bool.or_false] at hwild
            rw [Subst.subject_of_isWildcard hwild]
            exact meetLeaf_of_isWildcard hwild
        | @unwrapLeft base _ value =>
            rw [solveAll_singleton, Subst.subject_const]
            exact ih (p := p.note _) hs base hb
        | @unwrapRight _ base value =>
            rw [solveAll_singleton]
            exact ih (p := p.note _) (b := base) hs x hb
        | sameVar | bindRight => cases hvar
        | bindLeft hy admitted =>
            rw [hproper hy, Subst.stored_of_isLeaf hleaf]
            exact meetLeaf_of_unbound admitted.unbound
        | decompose => cases hb; cases hleaf
        | sameLeaf hy =>
            rw [hproper (Ty.isProper_of_isLeaf hy), Subst.subject_of_isLeaf hleaf]
            exact meetLeaf_self hleaf
      · rw [heq]
        cases hclash with
        | occursRight => cases hvar
        | occursLeft hy _ hocc =>
            rw [hproper hy, Subst.stored_of_isLeaf hleaf, Ty.occurs_of_isLeaf hleaf] at hocc
            cases hocc
        | arity => cases hb; cases hleaf
        | mismatch hx hxvar hy _ htag =>
            rw [hproper hy] at htag ⊢
            rw [meetLeaf_of_tag_ne hx hxvar htag]
            show Except.error _ = Except.error _
            rw [Subst.subject_of_isProper hx hxvar, Ty.instantiate_of_isLeaf hleaf]

end Unify

/-- The type that an operator answers, given that of its left operand. -/
def Operator.answerTy (operator : Operator) (operand : Ty) : Ty :=
  match operator with
  | .add | .sub | .mul | .div => operand
  | _ => .bool

/-- The value of an operator has the type that the operator answers. -/
theorem Literal.ty_fold {operator : Operator} {left right value : Literal}
    (h : fold operator left right = some value) : value.ty = operator.answerTy left.ty := by
  unfold fold at h
  split at h
  case h_5 =>
    split at h
    · cases h
    · cases h
      rfl
  case h_14 | h_15 =>
    obtain ⟨same, _, rfl⟩ := Option.map_eq_some_iff.mp h
    rfl
  case h_18 => cases h
  all_goals
    cases h
    rfl

/-- The second type is the first, or the plain type of a literal. -/
inductive Ty.Alike : Ty → Ty → Prop
  | refl (ty : Ty) : Alike ty ty
  | literal (value : Literal) : Alike (.ofLiteral value) value.ty

/-- What is known of an expression with folding, and without. -/
inductive Inferred.Alike : Inferred → Inferred → Prop
  | typed (ty : Ty) : Alike (.ofTy ty) (.ofTy ty)
  | literal (value : Literal) : Alike (.ofLiteral value) (.ofTy value.ty)

/-- The value of an operator, given what is known of its operands. -/
def Inferred.fold? (operator : Operator) (lhs rhs : Inferred) : Option Literal := do
  let left ← lhs.value
  let right ← rhs.value
  Literal.fold operator left right

/-- A literal if there is a value, and otherwise a type. -/
def Inferred.folded (ty : Ty) : Option Literal → Inferred
  | some value => .ofLiteral value
  | none => .ofTy ty

theorem Inferred.Alike.ty {inferred inferred' : Inferred} (h : inferred.Alike inferred') :
    inferred.ty.Alike inferred'.ty := by
  cases h with
  | typed ty => exact .refl ty
  | literal value => exact .literal value

namespace Session

open Unify

variable {s s' t : Session} {a a' b b' : Ty} {origin : NodeId}

theorem traitSubject_alike (h : a.Alike a') : s.traitSubject a' = s.traitSubject a := by
  cases h with
  | refl => rfl
  | literal value =>
      have hvar : value.ty.isVar = false := by cases value <;> rfl
      have hwrapper : (Ty.ofLiteral value).isVar = false := rfl
      rw [traitSubject, traitSubject, Subst.resolve_of_isVar_eq_false hvar,
        Subst.resolve_of_isVar_eq_false hwrapper]
      rfl

theorem stored_alike (h : a.Alike a') : s.subst.stored a' = s.subst.stored a := by
  cases h with
  | refl => rfl
  | literal value => exact (Subst.stored_const _ _).symm

theorem subject_alike (h : a.Alike a') : s.subst.subject a' = s.subst.subject a := by
  cases h with
  | refl => rfl
  | literal value => exact (Subst.subject_const _ _).symm

/-- The second session differs from the first in the trace alone. -/
def UpToTrace (s s' : Session) : Prop := ∃ trace, s' = { s with trace }

theorem UpToTrace.subst_eq (h : UpToTrace s s') : s'.subst = s.subst := by
  obtain ⟨trace, rfl⟩ := h
  rfl

theorem UpToTrace.report (h : UpToTrace s s') (report : Report) :
    UpToTrace (s.report report) (s'.report report) := by
  obtain ⟨trace, rfl⟩ := h
  exact ⟨trace, rfl⟩

/-- The session after a unification, but for the trace. -/
def withAnswer (s : Session) : Except TypeError Subst → Session
  | .ok subst => { s with subst }
  | .error _ => s

theorem exists_unify_of_ends (hs : s.subst.Acyclic) {answer : Except TypeError Subst}
    (h : (Unify.run s.subst a b).Ends answer) :
    ∃ trace, s.unify a b = .ok (answer.map fun _ => (), { s.withAnswer answer with trace }) := by
  cases hrun : Unify.run s.subst a b with
  | solved p =>
      rw [hrun] at h
      cases h
      rw [unify, hrun]
      exact ⟨_, rfl⟩
  | failed error p =>
      rw [hrun] at h
      cases h
      have hunify : ∃ t, s.unify a b = .ok (.error error, t) := by
        rw [unify, hrun]
        exact ⟨_, rfl⟩
      obtain ⟨t, ht⟩ := hunify
      rw [ht, eq_of_unify_error hs ht]
      exact ⟨_, rfl⟩
  | broken fault => exact absurd hrun (run_ne_broken hs a b fault)

/-- A literal and its plain type are unified in the same way. -/
theorem exists_ends_alike (hs : s.subst.Acyclic) (ha : a.Alike a') (hb : b.Alike b') :
    ∃ answer, (Unify.run s.subst a b).Ends answer ∧ (Unify.run s.subst a' b').Ends answer := by
  cases ha with
  | literal value =>
      have hleaf := value.isLeaf_ty
      have hplain := Ty.unwrap_of_isProper (Ty.isProper_of_isLeaf hleaf)
      refine ⟨_, solve_leaf_left (p := s.start) hleaf _ hs (a := .ofLiteral value) hplain b, ?_⟩
      show Attempt.Ends (meetLeaf s.subst _ (s.subst.subject b) (.mismatch _ (s.subst.subject b))) _
      rw [← subject_alike hb]
      exact solve_leaf_left (p := s.start) hleaf _ hs hplain b'
  | refl =>
      cases hb with
      | literal value =>
          have hleaf := value.isLeaf_ty
          have hplain := Ty.unwrap_of_isProper (Ty.isProper_of_isLeaf hleaf)
          exact ⟨_, solve_leaf_right (p := s.start) hleaf _ hs a (b := .ofLiteral value) hplain,
            solve_leaf_right (p := s.start) hleaf _ hs a hplain⟩
      | refl =>
          cases hrun : Unify.run s.subst a b with
          | solved p => exact ⟨_, rfl, rfl⟩
          | failed error p => exact ⟨_, rfl, rfl⟩
          | broken fault => exact absurd hrun (run_ne_broken hs a b fault)

/-- Two computations answer the same and leave sessions that differ in the trace alone. -/
def Agree {α : Type} (first second : Except Fault (α × Session)) : Prop :=
  ∃ answer t t', first = .ok (answer, t) ∧ second = .ok (answer, t') ∧ UpToTrace t t'

theorem Agree.bind {α β : Type} {first second : Except Fault (α × Session)}
    {next next' : α × Session → Except Fault (β × Session)} (h : Agree first second)
    (hnext : ∀ answer t t', first = .ok (answer, t) → UpToTrace t t' →
      Agree (next (answer, t)) (next' (answer, t'))) :
    Agree (first >>= next) (second >>= next') := by
  obtain ⟨answer, t, t', hfirst, hsecond, hsame⟩ := h
  rw [hfirst, hsecond]
  exact hnext answer t t' hfirst hsame

theorem agree_unify (hs : s.subst.Acyclic) (hsame : UpToTrace s s') (ha : a.Alike a')
    (hb : b.Alike b') : Agree (s.unify a b) (s'.unify a' b') := by
  obtain ⟨answer, hends, hends'⟩ := exists_ends_alike hs ha hb
  obtain ⟨old, rfl⟩ := hsame
  obtain ⟨trace, hunify⟩ := exists_unify_of_ends hs hends
  obtain ⟨trace', hunify'⟩ := exists_unify_of_ends (s := { s with trace := old }) hs hends'
  refine ⟨_, _, _, hunify, hunify', trace', ?_⟩
  cases answer with
  | ok => rfl
  | error => rfl

theorem agree_expect (hs : s.subst.Acyclic) (hsame : UpToTrace s s') (hb : b.Alike b') :
    Agree (s.expect a b origin) (s'.expect a b' origin) := by
  refine (agree_unify hs hsame (.refl a) hb).bind fun outcome t t' hunify hsame => ?_
  have ht : t.subst.Acyclic := ((delivers_unify hs a b).of_eq_ok hunify).acyclic hs
  cases outcome with
  | error error => exact ⟨_, _, _, rfl, rfl, hsame.report _⟩
  | ok =>
      dsimp only
      rw [apply, apply, hsame.subst_eq, ht.apply_eq_ok]
      exact ⟨_, _, _, rfl, rfl, hsame⟩

theorem agree_logicalType (hs : s.subst.Acyclic) (hsame : UpToTrace s s') (ha : a.Alike a')
    (hb : b.Alike b') : Agree (s.logicalType a b origin) (s'.logicalType a' b' origin) := by
  refine (agree_expect hs hsame ha).bind fun left t t' hleft hsame => ?_
  have ht : t.subst.Acyclic := ((delivers_expect hs .bool a origin).of_eq_ok hleft).acyclic hs
  refine (agree_expect ht hsame hb).bind fun right u u' _ hsame => ?_
  exact ⟨_, _, _, rfl, rfl, hsame⟩

theorem agree_requireTrait (hs : s.subst.WellFormed) (hsame : UpToTrace s s') (ha : a.Alike a')
    {traitName : String} (hregistered : s.registry.contains traitName = true) :
    Agree (s.requireTrait a traitName origin) (s'.requireTrait a' traitName origin) := by
  obtain ⟨trace, rfl⟩ := hsame
  have hretrace : { s with trace }.requireTrait a' traitName origin =
      (s.requireTrait a traitName origin).map (Prod.map id fun t => { t with trace }) := by
    rw [requireTrait, requireTrait, traitSubject_alike ha, if_pos hregistered, if_pos hregistered]
    refine bind_eq_map_of_eq (x := s.traitSubject a) fun subject => ?_
    split
    · rfl
    · rfl
    · rfl
    · refine bind_eq_map_of_eq (x := s.registry.satisfies _ traitName) fun answer => ?_
      split
      · rfl
      · exact bind_eq_map_of_eq (x := s.apply _) fun _ => rfl
  have hreturns : ∃ outcome t, s.requireTrait a traitName origin = .ok (outcome, t) := by
    rcases requireTrait_cases hs hregistered a origin with ⟨_, heq⟩ | ⟨_, _, heq⟩ | ⟨_, heq⟩
    · exact ⟨_, _, heq⟩
    · exact ⟨_, _, heq⟩
    · exact ⟨_, _, heq⟩
  obtain ⟨outcome, t, ht⟩ := hreturns
  rw [hretrace, ht]
  exact ⟨outcome, t, _, rfl, rfl, trace, rfl⟩

theorem agree_traitType (hs : s.subst.WellFormed) (hsame : UpToTrace s s') (ha : a.Alike a')
    (hb : b.Alike b') (operator : Operator) {traitName : String}
    (hregistered : s.registry.contains traitName = true) :
    Agree (s.traitType operator traitName a b origin)
      (s'.traitType operator traitName a' b' origin) := by
  refine (agree_unify hs.acyclic hsame ha hb).bind fun agreed t t' hunify hsame => ?_
  have ht : t.subst.WellFormed :=
    ((delivers_unify hs.acyclic a b).of_eq_ok hunify).wellFormed hs
  have hregistry : t.registry = s.registry := by
    obtain ⟨_, _, rfl⟩ := frame_unify hunify
    rfl
  cases agreed with
  | error error => exact ⟨_, _, _, rfl, rfl, hsame.report _⟩
  | ok =>
      refine (agree_requireTrait ht hsame ha (hregistry ▸ hregistered)).bind
        fun satisfied u u' hrequire hsame => ?_
      have hu : u.subst.Acyclic :=
        (delivers_requireTrait ht.acyclic a traitName origin).of_eq_ok hrequire ▸ ht.acyclic
      cases satisfied with
      | error error => exact ⟨_, _, _, rfl, rfl, hsame.report _⟩
      | ok =>
          dsimp only
          split
          · exact ⟨_, _, _, rfl, rfl, hsame⟩
          · have hstored := stored_alike (s := u) ha
            rw [apply, apply, hsame.subst_eq, hu.apply_eq_ok, hu.apply_eq_ok]
            rw [Subst.stored, Subst.stored] at hstored
            exact ⟨_, _, _, rfl, congrArg (fun ty => Except.ok (some ty, u')) hstored, hsame⟩

theorem agree_operatorType (hs : s.subst.WellFormed) (hsame : UpToTrace s s') (ha : a.Alike a')
    (hb : b.Alike b') {operator : Operator}
    (hregistered : ∀ traitName, operator.trait? = some traitName →
      s.registry.contains traitName = true) :
    Agree (s.operatorType operator a b origin) (s'.operatorType operator a' b' origin) := by
  rw [operatorType, operatorType]
  split
  · exact agree_logicalType hs.acyclic hsame ha hb
  · rename_i traitName htrait
    exact agree_traitType hs hsame ha hb operator (hregistered traitName htrait)

/-- An operator on a literal answers the type that it has for the literal's plain type. -/
theorem operatorType_ofLiteral {operator : Operator} {value : Literal} {ty : Ty}
    (h : s.operatorType operator (.ofLiteral value) b origin = .ok (some ty, t)) :
    ty = operator.answerTy value.ty := by
  rw [operatorType] at h
  split at h
  · rename_i htrait
    obtain ⟨⟨left, u⟩, _, h⟩ := exists_of_bind_eq_ok h
    obtain ⟨⟨right, w⟩, _, h⟩ := exists_of_bind_eq_ok h
    dsimp only at h
    split at h
    · cases h
    · cases h
      cases operator with
      | and | or => rfl
      | _ => cases htrait
  · rename_i traitName htrait
    obtain ⟨⟨agreed, u⟩, hunify, h⟩ := exists_of_bind_eq_ok h
    cases agreed with
    | error error => cases h
    | ok =>
        obtain ⟨⟨satisfied, w⟩, hrequire, h⟩ := exists_of_bind_eq_ok h
        cases satisfied with
        | error error => cases h
        | ok =>
            dsimp only at h
            split at h
            · rename_i hcomparison
              cases h
              cases operator with
              | lt | gt | le | ge | eq | ne => rfl
              | _ => cases hcomparison
            · rename_i hcomparison
              obtain ⟨applied, happly, h⟩ := exists_of_bind_eq_ok h
              have hfixed : w.apply (.ofLiteral value) = .ok (.ofLiteral value) := by
                cases value <;> rfl
              have herased : (Ty.ofLiteral value).erase = value.ty := by cases value <;> rfl
              cases hfixed.symm.trans happly
              cases h
              rw [herased]
              cases operator with
              | add | sub | mul | div => rfl
              | and | or => cases htrait
              | _ => exact absurd rfl hcomparison

/-- What an operator answers once its type is known. -/
theorem binary_of_operatorType {operator : Operator} {lhs rhs : Inferred} {ty : Ty}
    (h : s.operatorType operator lhs.ty rhs.ty origin = .ok (some ty, t)) :
    s.binary operator lhs rhs origin =
      .ok (.folded ty (Inferred.fold? operator lhs rhs), t) := by
  rw [binary, h]
  show (match Inferred.fold? operator lhs rhs with
    | some value => Except.ok (Inferred.ofLiteral value, t)
    | none => Except.ok (Inferred.ofTy ty, t)) = _
  cases Inferred.fold? operator lhs rhs with
  | none => rfl
  | some value => rfl

/-- An operator with folding and without: both return, what they answer is alike,
and they leave sessions that differ in the trace alone. -/
theorem exists_binary_alike (hs : s.subst.WellFormed) (hsame : UpToTrace s s')
    {operator : Operator}
    (hregistered : ∀ traitName, operator.trait? = some traitName →
      s.registry.contains traitName = true)
    {lhs lhs' rhs rhs' : Inferred} (hlhs : lhs.Alike lhs') (hrhs : rhs.Alike rhs')
    (origin : NodeId) :
    ∃ answer answer' t t', s.binary operator lhs rhs origin = .ok (answer, t) ∧
      s'.binary operator lhs' rhs' origin = .ok (answer', t') ∧ UpToTrace t t' ∧
      answer.Alike answer' := by
  have hagree : Agree (s.operatorType operator lhs.ty rhs.ty origin)
      (s'.operatorType operator lhs'.ty rhs'.ty origin) :=
    agree_operatorType hs hsame hlhs.ty hrhs.ty hregistered
  obtain ⟨ty, t, t', htype, htype', hsame⟩ := hagree
  cases ty with
  | none =>
      rw [binary, binary, htype, htype']
      exact ⟨_, _, t, t', rfl, rfl, hsame, .typed .error⟩
  | some ty =>
      refine ⟨_, _, t, t', binary_of_operatorType htype, binary_of_operatorType htype', hsame, ?_⟩
      -- Without folding no operand has a value, so that the second answer is the plain type.
      cases hlhs with
      | typed => exact .typed ty
      | literal left =>
          cases hrhs with
          | typed => exact .typed ty
          | literal right =>
              show (Inferred.folded ty (Literal.fold operator left right)).Alike (.ofTy ty)
              cases hfold : Literal.fold operator left right with
              | none => exact .typed ty
              | some value =>
                  rw [operatorType_ofLiteral htype, ← Literal.ty_fold hfold]
                  exact .literal value

end Session

/-! ## Expressions -/

/-- An expression of binary operators over literals and over types without a value. -/
inductive Expression where
  | literal (value : Literal)
  | typed (ty : Ty)
  | binary (operator : Operator) (origin : NodeId) (lhs rhs : Expression)

namespace Expression

/-- Evaluate an expression from its leaves up, operands from left to right. -/
def evaluate (s : Session) : Expression → Except Fault (Inferred × Session)
  | .literal value => .ok (.ofLiteral value, s)
  | .typed ty => .ok (.ofTy ty, s)
  | .binary operator origin lhs rhs => do
      let (left, s) ← lhs.evaluate s
      let (right, s) ← rhs.evaluate s
      s.binary operator left right origin

/-- The expression with every literal replaced by its plain type. -/
def plain : Expression → Expression
  | .literal value => .typed value.ty
  | .typed ty => .typed ty
  | .binary operator origin lhs rhs => .binary operator origin lhs.plain rhs.plain

end Expression

namespace Session

variable {s s' : Session}

/-- The registry has the traits of all operators. -/
def HasOperatorTraits (s : Session) : Prop :=
  ∀ (operator : Operator) (traitName : String), operator.trait? = some traitName →
    s.registry.contains traitName = true

theorem exists_evaluate_alike (hs : s.subst.WellFormed) (htraits : s.HasOperatorTraits)
    (hsame : UpToTrace s s') (e : Expression) :
    ∃ answer answer' t t',
      e.evaluate s = .ok (answer, t) ∧ e.plain.evaluate s' = .ok (answer', t') ∧
      UpToTrace t t' ∧ answer.Alike answer' ∧ t.subst.WellFormed ∧ t.HasOperatorTraits := by
  induction e generalizing s s' with
  | literal value => exact ⟨_, _, s, s', rfl, rfl, hsame, .literal value, hs, htraits⟩
  | typed ty => exact ⟨_, _, s, s', rfl, rfl, hsame, .typed ty, hs, htraits⟩
  | binary operator origin lhs rhs ihLeft ihRight =>
      obtain ⟨left, left', t, t', hleft, hleft', hsame, hleftAlike, ht, httraits⟩ :=
        ihLeft hs htraits hsame
      obtain ⟨right, right', u, u', hright, hright', hsame, hrightAlike, hu, hutraits⟩ :=
        ihRight ht httraits hsame
      obtain ⟨answer, answer', w, w', hbinary, hbinary', hsame, halike⟩ :=
        exists_binary_alike hu hsame (hutraits operator) hleftAlike hrightAlike origin
      have hacts : Acts (fun _ => True) u w :=
        (acts_binary inherited_true trivial trivial hbinary).1
      refine ⟨answer, answer', w, w', ?_, ?_, hsame, halike, ?_, ?_⟩
      · rw [Expression.evaluate, hleft]
        show (rhs.evaluate t >>= _) = _
        rw [hright]
        exact hbinary
      · rw [Expression.plain, Expression.evaluate, hleft']
        show (rhs.plain.evaluate t' >>= _) = _
        rw [hright']
        exact hbinary'
      · exact (hacts.grows hu.acyclic).wellFormed hu
      · rw [HasOperatorTraits, hacts.advances.registry]
        exact hutraits

/-- Folding constants never changes type checking.

In any reachable session whose registry has the traits of the operators, evaluate an
expression once as it is, and once with every literal replaced by its plain type.
Both evaluations return.  They leave the same session but for the trace: the same
reports in the same order, the same substitution and the same obligations.  The
types they answer are the same without literal wrappers, and where the first answer
has a value its type is the literal type of that value. -/
theorem folding_preserves_typing (hreach : s.Reachable) (htraits : s.HasOperatorTraits)
    (e : Expression) :
    ∃ folded plain t trace, e.evaluate s = .ok (folded, t) ∧
      e.plain.evaluate s = .ok (plain, { t with trace }) ∧
      folded.ty.erase = plain.ty.erase ∧
      ∀ value, folded.value = some value → folded.ty = .const value.ty value := by
  obtain ⟨folded, plain, t, t', hfolded, hplain, hsame, halike, _⟩ :=
    exists_evaluate_alike hreach.wellFormed htraits ⟨s.trace, rfl⟩ e
  obtain ⟨trace, rfl⟩ := hsame
  refine ⟨folded, plain, t, trace, hfolded, hplain, ?_, ?_⟩
  · cases halike with
    | typed => rfl
    | literal value => cases value <;> rfl
  · intro value hvalue
    cases halike with
    | typed => cases hvalue
    | literal other =>
        cases hvalue
        rfl

/-- Two literals are folded into one, whose type is its literal type; the result is then
compared with a sum that binds a variable. -/
theorem folding_preserves_typing_partly_constant :
    ∃ (s t u : Session) (sum folded plain : Inferred) (trace : Option Trace)
      (constant e : Expression), s.Reachable ∧ s.HasOperatorTraits ∧
      constant = .binary .add (.expr 1) (.literal (.str "a")) (.literal (.str "b")) ∧
      e = .binary .eq (.expr 3) constant
        (.binary .add (.expr 2) (.typed (.var 0)) (.literal (.str "c"))) ∧
      constant.evaluate s = .ok (sum, u) ∧ sum.value = some (.str "ab") ∧
      sum.ty = .const .str (.str "ab") ∧
      e.evaluate s = .ok (folded, t) ∧ s.subst.lookup 0 = none ∧ t.subst.lookup 0 = some .str ∧
      e.plain.evaluate s = .ok (plain, { t with trace }) ∧
      folded.ty.erase = plain.ty.erase := by
  have hrun : ∃ (s t u : Session) (sum folded : Inferred), s.Reachable ∧
      s.registry = Registry.builtin ∧ s.subst.lookup 0 = none ∧
      Expression.evaluate s
        (.binary .add (.expr 1) (.literal (.str "a")) (.literal (.str "b"))) = .ok (sum, u) ∧
      sum.value = some (.str "ab") ∧
      Expression.evaluate s (.binary .eq (.expr 3)
        (.binary .add (.expr 1) (.literal (.str "a")) (.literal (.str "b")))
        (.binary .add (.expr 2) (.typed (.var 0)) (.literal (.str "c")))) = .ok (folded, t) ∧
      t.subst.lookup 0 = some .str :=
    ⟨_, _, _, _, _,
      reachable_of_run Registry.builtin { varOffset := some 0 } ⟨0⟩ [.freshVars 1] rfl rfl,
      rfl, rfl, rfl, rfl, rfl, rfl⟩
  obtain ⟨s, t, u, sum, folded, hreach, hregistry, hopen, hsum, hvalue, heval, hbound⟩ := hrun
  have htraits : s.HasOperatorTraits := by
    intro operator traitName htrait
    rw [hregistry]
    cases operator <;> cases htrait <;> rfl
  obtain ⟨_, _, _, _, hsame, _, _, hliteral⟩ := folding_preserves_typing hreach htraits
    (.binary .add (.expr 1) (.literal (.str "a")) (.literal (.str "b")))
  cases hsum.symm.trans hsame
  obtain ⟨_, plain, _, trace, hsame', hplain, herase, _⟩ :=
    folding_preserves_typing hreach htraits _
  cases heval.symm.trans hsame'
  exact ⟨s, t, u, sum, folded, plain, trace, _, _, hreach, htraits, rfl, rfl, hsum, hvalue,
    hliteral _ hvalue, heval, hopen, hbound, hplain, herase⟩

end Session

end TypeInference
