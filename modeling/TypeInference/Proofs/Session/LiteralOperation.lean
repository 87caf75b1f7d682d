/-
# Operators on literals

Which operators apply to which values is written down three times: in the traits of
the operators, in the instances of these traits, and in the cases of the evaluator.
`Operator.operandTags` lists, once more, the kinds of values that an operator takes,
and each side is compared with that list alone.

The two sides differ in one point.  The type rules accept a division whatever the
divisor is, and the evaluator has no value for a division by zero.
-/

import TypeInference.Proofs.Session.Folding

namespace TypeInference

/-- The kinds of values that an operator takes; both operands are of one kind. -/
def Operator.operandTags : Operator → List Tag
  | .add | .lt | .gt | .le | .ge => [.num, .str]
  | .sub | .mul | .div => [.num]
  | .eq | .ne => [.int, .num, .bool, .str, .none]
  | .and | .or => [.bool]

/-- The instances of the operators' traits are the kinds that the operators take. -/
theorem Registry.satisfies_builtin {operator : Operator} {traitName : String}
    (h : operator.trait? = some traitName) (ty : Ty) :
    builtin.satisfies ty traitName = .ok (operator.operandTags.contains ty.unwrap.tag) := by
  cases operator <;> cases h <;> rfl

theorem Registry.contains_builtin {operator : Operator} {traitName : String}
    (h : operator.trait? = some traitName) : builtin.contains traitName = true := by
  cases operator <;> cases h <;> rfl

theorem Operator.operandTags_of_trait?_eq_none {operator : Operator}
    (h : operator.trait? = none) : operator.operandTags = [.bool] := by
  cases operator <;> cases h <;> rfl

/-- The two zeros differ in the sign. -/
theorem Binary64.isZero_iff {x : Binary64} :
    x.isZero = true ↔ x.bits = 0 ∨ x.bits = 0x8000000000000000 := by
  have hmask : (0x7FFFFFFFFFFFFFFF : UInt64).toNat = 2 ^ 63 - 1 := rfl
  have hzero : (0 : UInt64).toNat = 0 := rfl
  have hsign : (0x8000000000000000 : UInt64).toNat = 2 ^ 63 := rfl
  have hlt : x.bits.toNat < 2 ^ 64 := x.bits.toNat_lt
  rw [isZero, beq_iff_eq, ← UInt64.toNat_inj, ← UInt64.toNat_inj, ← UInt64.toNat_inj,
    UInt64.toNat_and, hmask, Nat.and_two_pow_sub_one_eq_mod, hzero, hsign]
  omega

theorem Operator.answerTy_eq (operator : Operator) (operand : Ty) :
    operator.answerTy operand =
      if operator.isComparison ∨ operator = .and ∨ operator = .or then .bool else operand := by
  cases operator <;> simp [answerTy, isComparison]

namespace Literal

/-- A number divided by zero. -/
def IsZeroDivision (operator : Operator) (x y : Literal) : Prop :=
  operator = .div ∧ ∃ a b, x = .num a ∧ y = .num b ∧ (b.bits = 0 ∨ b.bits = 0x8000000000000000)

theorem ty_eq_of_equal? {x y : Literal} {same : Bool} (h : equal? x y = some same) :
    x.ty = y.ty ∧ x.ty.tag ∈ Operator.eq.operandTags := by
  cases x <;> cases y
  case int.int | num.num | bool.bool | str.str | none.none =>
    exact ⟨rfl, by simp [ty, Ty.tag, Operator.operandTags]⟩
  all_goals cases h

/-- What the evaluator has a value for is of one kind, and the operator takes it. -/
theorem ty_eq_of_fold {operator : Operator} {x y value : Literal}
    (h : fold operator x y = some value) : x.ty = y.ty ∧ x.ty.tag ∈ operator.operandTags := by
  unfold fold at h
  split at h
  case h_14 | h_15 =>
    obtain ⟨same, hsame, _⟩ := Option.map_eq_some_iff.mp h
    exact ty_eq_of_equal? hsame
  case h_18 => cases h
  all_goals exact ⟨rfl, by simp [ty, Ty.tag, Operator.operandTags]⟩

/-- The evaluator has a value for two operands of one kind that the operator takes,
unless it is a division by zero. -/
theorem isSome_fold_of_ty_eq {operator : Operator} {x y : Literal} (hty : x.ty = y.ty)
    (htag : x.ty.tag ∈ operator.operandTags) :
    (fold operator x y).isSome = true ∨ IsZeroDivision operator x y := by
  cases x with
  | int a =>
      cases y with
      | int b =>
          cases operator with
          | eq | ne => exact .inl rfl
          | _ => simp [ty, Ty.tag, Operator.operandTags] at htag
      | _ => cases hty
  | num a =>
      cases y with
      | num b =>
          cases operator with
          | div =>
              by_cases hzero : b.isZero = true
              · exact .inr ⟨rfl, a, b, rfl, rfl, Binary64.isZero_iff.mp hzero⟩
              · refine .inl ?_
                rw [fold, if_neg hzero]
                rfl
          | and | or => simp [ty, Ty.tag, Operator.operandTags] at htag
          | _ => exact .inl rfl
      | _ => cases hty
  | bool a =>
      cases y with
      | bool b =>
          cases operator with
          | eq | ne | and | or => exact .inl rfl
          | _ => simp [ty, Ty.tag, Operator.operandTags] at htag
      | _ => cases hty
  | str a =>
      cases y with
      | str b =>
          cases operator with
          | sub | mul | div | and | or => simp [ty, Ty.tag, Operator.operandTags] at htag
          | _ => exact .inl rfl
      | _ => cases hty
  | none =>
      cases y with
      | none =>
          cases operator with
          | eq | ne => exact .inl rfl
          | _ => simp [ty, Ty.tag, Operator.operandTags] at htag
      | _ => cases hty

theorem isSome_fold_iff {operator : Operator} {x y : Literal} :
    (fold operator x y).isSome = true ∨ IsZeroDivision operator x y ↔
      x.ty = y.ty ∧ x.ty.tag ∈ operator.operandTags := by
  constructor
  · rintro (hsome | ⟨rfl, a, b, rfl, rfl, _⟩)
    · obtain ⟨value, hvalue⟩ := Option.isSome_iff_exists.mp hsome
      exact ty_eq_of_fold hvalue
    · exact ⟨rfl, List.mem_singleton_self _⟩
  · rintro ⟨hty, htag⟩
    exact isSome_fold_of_ty_eq hty htag

end Literal

namespace Session

open Unify

variable {s t : Session} {origin : NodeId}

/-- A literal is unified with a type of data exactly if it is of that type. -/
theorem exists_unify_literal (hs : s.subst.Acyclic) {leaf : Ty} (hleaf : leaf.isLeaf = true)
    {a : Ty} (ha : a.unwrap = leaf) (y : Literal) :
    ∃ trace, s.unify a (.ofLiteral y) =
      .ok (if leaf = y.ty then .ok () else .error (.mismatch leaf y.ty), { s with trace }) := by
  have hsubject : s.subst.subject (.ofLiteral y) = y.ty :=
    (Subst.subject_const _ _).trans (Subst.subject_of_isLeaf y.isLeaf_ty)
  have hends : Attempt.Ends (meetLeaf s.subst leaf (s.subst.subject (.ofLiteral y))
      (.mismatch leaf (s.subst.subject (.ofLiteral y)))) (Unify.run s.subst a (.ofLiteral y)) :=
    solve_leaf_left (p := s.start) hleaf _ hs ha _
  rw [hsubject] at hends
  by_cases heq : leaf = y.ty
  · rw [← heq, meetLeaf_self hleaf] at hends
    rw [if_pos heq]
    exact exists_unify_of_ends hs hends
  · have hvar : y.ty.isVar = false := by cases y <;> rfl
    have htag : y.ty.tag ≠ leaf.tag := fun htag => heq (Ty.eq_of_tag_eq hleaf htag.symm)
    have hclash : meetLeaf s.subst leaf (s.subst.subject y.ty) (.mismatch leaf y.ty) =
        .error (.mismatch leaf y.ty) :=
      meetLeaf_of_tag_ne (Ty.isProper_of_isLeaf y.isLeaf_ty) hvar htag
    rw [Subst.subject_of_isLeaf y.isLeaf_ty] at hclash
    rw [hclash] at hends
    rw [if_neg heq]
    exact exists_unify_of_ends hs hends

/-- The answer of a type rule to two operands: it accepts them, and then only the trace
is changed, or it reports something. -/
inductive Answered (s : Session) (accepts : Prop) (ty : Ty) :
    Except Fault (Option Ty × Session) → Prop
  | accepted (h : accepts) (trace : Option Trace) :
      Answered s accepts ty (.ok (some ty, { s with trace }))
  | reported (h : ¬ accepts) {t : Session} (hreports : s.reports.length < t.reports.length) :
      Answered s accepts ty (.ok (none, t))

theorem exists_expect_literal (hs : s.subst.Acyclic) (y : Literal) (origin : NodeId) :
    ∃ answer t, s.expect .bool (.ofLiteral y) origin = .ok (answer, t) ∧ t.subst = s.subst ∧
      ((.bool = y.ty ∧ answer = .bool ∧ UpToTrace s t) ∨
        (.bool ≠ y.ty ∧ answer = .error ∧
          t.reports = s.reports ++ [.ofError (.mismatch .bool y.ty) origin])) := by
  have hplain : Ty.bool.unwrap = .bool := rfl
  obtain ⟨trace, hunify⟩ := exists_unify_literal hs rfl hplain y
  by_cases heq : Ty.bool = y.ty
  · rw [if_pos heq] at hunify
    refine ⟨.bool, { s with trace }, ?_, rfl, .inl ⟨heq, rfl, trace, rfl⟩⟩
    rw [expect, hunify]
    rfl
  · rw [if_neg heq] at hunify
    refine ⟨.error, { s with trace }.reportError (.mismatch .bool y.ty) origin, ?_, rfl,
      .inr ⟨heq, rfl, rfl⟩⟩
    rw [expect, hunify]
    rfl

theorem answered_logicalType (hs : s.subst.Acyclic) (x y : Literal) (origin : NodeId) :
    Answered s (x.ty = y.ty ∧ x.ty.tag ∈ [Tag.bool]) .bool
      (s.logicalType (.ofLiteral x) (.ofLiteral y) origin) := by
  obtain ⟨left, t, hleft, hsubst, hx⟩ := exists_expect_literal hs x origin
  obtain ⟨right, u, hright, _, hy⟩ := exists_expect_literal (hsubst.symm ▸ hs) y origin
  have hlogical : s.logicalType (.ofLiteral x) (.ofLiteral y) origin =
      .ok (if left.isError || right.isError then none else some .bool, u) := by
    rw [logicalType, hleft]
    show expect _ _ _ _ >>= _ = _
    rw [hright]
    rfl
  rw [hlogical]
  rcases hx with ⟨hx, rfl, trace, rfl⟩ | ⟨hx, rfl, hreports⟩
  · rcases hy with ⟨hy, rfl, trace', rfl⟩ | ⟨hy, rfl, hreports⟩
    · exact .accepted ⟨hx.symm.trans hy, by rw [← hx]; exact List.mem_singleton_self _⟩ trace'
    · exact .reported (fun haccepts => hy (hx.trans haccepts.1)) (by simp [hreports])
  · have hboth : ¬ (x.ty = y.ty ∧ x.ty.tag ∈ [Tag.bool]) := fun haccepts =>
      hx (Ty.eq_of_tag_eq rfl (List.mem_singleton.mp haccepts.2).symm)
    refine .reported hboth ?_
    rcases hy with ⟨_, rfl, trace', rfl⟩ | ⟨_, rfl, hreports'⟩
    · simp [hreports]
    · simp [hreports, hreports']

/-- A literal has the trait of an operator exactly if the operator takes its kind. -/
theorem requireTrait_literal (hs : s.subst.WellFormed) (hregistry : s.registry = .builtin)
    {operator : Operator} {traitName : String} (htrait : operator.trait? = some traitName)
    (x : Literal) (origin : NodeId) :
    s.requireTrait (.ofLiteral x) traitName origin =
      .ok (if x.ty.tag ∈ operator.operandTags then .ok ()
        else .error (.unsatisfied x.ty traitName), s) := by
  have hsubject : s.subst.subject (.ofLiteral x) = x.ty :=
    (Subst.subject_const _ _).trans (Subst.subject_of_isLeaf x.isLeaf_ty)
  have hplain : x.ty.unwrap = x.ty := Ty.unwrap_of_isProper (Ty.isProper_of_isLeaf x.isLeaf_ty)
  have hsatisfies := Registry.satisfies_builtin htrait x.ty
  rw [hplain] at hsatisfies
  rcases requireTrait_cases hs (hregistry ▸ Registry.contains_builtin htrait) (.ofLiteral x)
    origin with ⟨hmeets, heq⟩ | ⟨v, hv, _⟩ | ⟨hrefuses, heq⟩
  · rw [hsubject, hregistry] at hmeets
    obtain ⟨_, hwild | hyes⟩ := hmeets
    · cases x <;> cases hwild
    · rw [hsatisfies] at hyes
      rw [heq, if_pos (by simpa using hyes)]
  · rw [hsubject] at hv
    cases x <;> cases hv
  · rw [hsubject, hregistry] at hrefuses
    have hno := hrefuses.2.2
    rw [hsatisfies] at hno
    rw [heq, hsubject, if_neg (by simpa using hno)]

theorem answered_traitType (hs : s.subst.WellFormed) (hregistry : s.registry = .builtin)
    {operator : Operator} {traitName : String} (htrait : operator.trait? = some traitName)
    (x y : Literal) (origin : NodeId) :
    Answered s (x.ty = y.ty ∧ x.ty.tag ∈ operator.operandTags) (operator.answerTy x.ty)
      (s.traitType operator traitName (.ofLiteral x) (.ofLiteral y) origin) := by
  have hplain : (Ty.ofLiteral x).unwrap = x.ty :=
    Ty.unwrap_of_isProper (Ty.isProper_of_isLeaf x.isLeaf_ty)
  obtain ⟨trace, hunify⟩ := exists_unify_literal hs.acyclic x.isLeaf_ty hplain y
  have hrequire := requireTrait_literal (s := { s with trace }) hs hregistry htrait x origin
  have htype : s.operatorType operator (.ofLiteral x) (.ofLiteral y) origin =
      s.traitType operator traitName (.ofLiteral x) (.ofLiteral y) origin := by
    rw [operatorType, htrait]
  by_cases hty : x.ty = y.ty
  · rw [if_pos hty] at hunify
    by_cases htag : x.ty.tag ∈ operator.operandTags
    · rw [if_pos htag] at hrequire
      have haccepted : ∃ ty, s.traitType operator traitName (.ofLiteral x) (.ofLiteral y) origin =
          .ok (some ty, { s with trace }) := by
        rw [traitType, hunify]
        show ∃ ty, requireTrait _ _ _ _ >>= _ = _
        rw [hrequire]
        cases hcomparison : operator.isComparison with
        | true => exact ⟨.bool, rfl⟩
        | false =>
            show ∃ ty, apply _ _ >>= _ = _
            rw [apply, hs.acyclic.apply_eq_ok]
            exact ⟨_, rfl⟩
      obtain ⟨ty, haccepted⟩ := haccepted
      obtain rfl := operatorType_ofLiteral (htype.trans haccepted)
      rw [haccepted]
      exact .accepted ⟨hty, htag⟩ trace
    · rw [if_neg htag] at hrequire
      rw [traitType, hunify]
      show Answered _ _ _ (requireTrait _ _ _ _ >>= _)
      rw [hrequire]
      exact .reported (fun haccepts => htag haccepts.2) (by simp [reportError, report])
  · rw [if_neg hty] at hunify
    rw [traitType, hunify]
    exact .reported (fun haccepts => hty haccepts.1) (by simp [reportError, report])

theorem answered_operatorType (hs : s.subst.WellFormed) (hregistry : s.registry = .builtin)
    (operator : Operator) (x y : Literal) (origin : NodeId) :
    Answered s (x.ty = y.ty ∧ x.ty.tag ∈ operator.operandTags) (operator.answerTy x.ty)
      (s.operatorType operator (.ofLiteral x) (.ofLiteral y) origin) := by
  cases htrait : operator.trait? with
  | none =>
      have hanswer : operator.answerTy x.ty = .bool := by
        cases operator <;> cases htrait <;> rfl
      rw [operatorType, htrait, Operator.operandTags_of_trait?_eq_none htrait, hanswer]
      exact answered_logicalType hs.acyclic x y origin
  | some traitName =>
      rw [operatorType, htrait]
      exact answered_traitType hs hregistry htrait x y origin

/-! ## The type rules and the evaluator -/

theorem value_folded (ty : Ty) (value : Option Literal) :
    (Inferred.folded ty value).value = value := by
  cases value <;> rfl

/-- The answer has the type of the operator, whether it is a literal or not. -/
theorem erase_folded (operator : Operator) (x y : Literal) :
    (Inferred.folded (operator.answerTy x.ty) (Literal.fold operator x y)).ty.erase =
      operator.answerTy x.ty := by
  have hplain (value : Literal) : value.ty.erase = value.ty := by cases value <;> rfl
  cases hfold : Literal.fold operator x y with
  | some value =>
      show (Ty.ofLiteral value).erase = _
      rw [Ty.ofLiteral, Ty.erase_const, hplain, Literal.ty_fold hfold]
  | none =>
      show (operator.answerTy x.ty).erase = _
      cases operator with
      | add | sub | mul | div => exact hplain x
      | _ => rfl

/-- The type rules and the evaluator accept the same operations on literals.

In any reachable session with the built-in registry, an operator on two literals returns.
Nothing is reported exactly if the evaluator has a value, or if a number is divided by
zero.  Then only the trace has changed, the operands are of one type, and the answer has
the value that the evaluator gives and, without wrappers, the type of the operator:
`bool` for comparisons and logical operators, and that of the operands otherwise. -/
theorem literal_operations_agree (hreach : s.Reachable) (hregistry : s.registry = .builtin)
    (operator : Operator) (x y : Literal) (origin : NodeId) :
    ∃ answer t, s.binary operator (.ofLiteral x) (.ofLiteral y) origin = .ok (answer, t) ∧
      (t.reports = s.reports ↔ (Literal.fold operator x y).isSome = true ∨
        operator = .div ∧ ∃ a b, x = .num a ∧ y = .num b ∧
          (b.bits = 0 ∨ b.bits = 0x8000000000000000)) ∧
      (t.reports = s.reports → t.subst = s.subst ∧ t = { s with trace := t.trace } ∧
        answer.value = Literal.fold operator x y ∧ x.ty = y.ty ∧
        answer.ty.erase =
          if operator.isComparison ∨ operator = .and ∨ operator = .or then .bool else x.ty) := by
  have hanswered := answered_operatorType hreach.wellFormed hregistry operator x y origin
  cases htype : s.operatorType operator (.ofLiteral x) (.ofLiteral y) origin with
  | error fault =>
      rw [htype] at hanswered
      cases hanswered
  | ok result =>
      rw [htype] at hanswered
      cases hanswered with
      | accepted haccepts trace =>
          refine ⟨_, _, binary_of_operatorType htype, ?_, fun _ => ⟨rfl, rfl, ?_, haccepts.1, ?_⟩⟩
          · exact iff_of_true rfl (Literal.isSome_fold_iff.mpr haccepts)
          · exact value_folded _ _
          · rw [← Operator.answerTy_eq]
            exact erase_folded operator x y
      | @reported haccepts t hreports =>
          have hmore : t.reports ≠ s.reports := fun hsame => by simp [hsame] at hreports
          refine ⟨.error, t, ?_, ?_, fun hsame => absurd hsame hmore⟩
          · rw [binary]
            show s.operatorType operator (.ofLiteral x) (.ofLiteral y) origin >>= _ = _
            rw [htype]
            rfl
          · exact iff_of_false hmore fun hfold => haccepts (Literal.isSome_fold_iff.mp hfold)

/-- One divided by the negative zero is a `num` without a value, and the order of a text
and a number is reported. -/
theorem literal_operations_agree_negative_zero : ∃ s : Session, s.Reachable ∧
    s.registry = .builtin ∧
    (∃ answer t,
      s.binary .div (.ofLiteral (.num ⟨0x3FF0000000000000⟩))
        (.ofLiteral (.num ⟨0x8000000000000000⟩)) (.expr 0) = .ok (answer, t) ∧
      t.reports = s.reports ∧ answer.value = none ∧ answer.ty.erase = .num) ∧
    ∃ answer t,
      s.binary .lt (.ofLiteral (.str "a")) (.ofLiteral (.num ⟨0x8000000000000000⟩)) (.expr 1) =
        .ok (answer, t) ∧ t.reports ≠ s.reports := by
  have hrun : ∃ s : Session, s.Reachable ∧ s.registry = .builtin :=
    ⟨_, reachable_of_run Registry.builtin { varOffset := some 0 } ⟨0⟩ [.freshVars 1] rfl rfl, rfl⟩
  obtain ⟨s, hreach, hregistry⟩ := hrun
  obtain ⟨answer, t, hdiv, hiff, hquiet⟩ := literal_operations_agree hreach hregistry .div
    (.num ⟨0x3FF0000000000000⟩) (.num ⟨0x8000000000000000⟩) (.expr 0)
  obtain ⟨answer', t', hlt, hiff', _⟩ := literal_operations_agree hreach hregistry .lt
    (.str "a") (.num ⟨0x8000000000000000⟩) (.expr 1)
  have hreports : t.reports = s.reports := hiff.mpr (.inr ⟨rfl, _, _, rfl, rfl, .inr rfl⟩)
  obtain ⟨_, _, hvalue, _, hty⟩ := hquiet hreports
  refine ⟨s, hreach, hregistry, ⟨answer, t, hdiv, hreports, hvalue, hty⟩, answer', t', hlt, ?_⟩
  intro hsame
  rcases hiff'.mp hsame with hfold | ⟨hop, _⟩
  · cases hfold
  · cases hop

end Session

end TypeInference
