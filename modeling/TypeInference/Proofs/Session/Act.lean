/-
# The acts of a session

Every operation of a session is made of a few acts: it draws variables, unifies,
requires traits or takes up those that were put off, reports, poisons what it
has reported, and files the final forms of symbols.  What all acts keep is kept
by every operation, and no proof of such a fact has to open the operations.

Acts are stated relative to a property of the types that the caller hands in, so
that a proof may keep track of where a type comes from.  Recording the type of
an expression is an operation of its own and no act.
-/

import TypeInference.Proofs.Session.Trait

namespace TypeInference

namespace Session

open Relation

/-- The final form of a symbol with which nothing was wrong. -/
def Settled (given : Ty → Prop) (s : Session) (resolved : ResolvedSymbol) : Prop :=
  ∃ (symbol : Symbol) (decl : DeclId) (ty : Ty), given symbol.ty ∧ s.apply symbol.ty = .ok ty ∧
    ty.isClosed = true ∧ resolved = symbol.resolved decl ty.erase

/-- One part of an operation, where `given` holds of the types that are handed in. -/
inductive Act (given : Ty → Prop) : Session → Session → Prop
  | draw (s : Session) (supply : VarSupply) : Act given s { s with supply }
  | retrace (s : Session) (trace : Option Trace) : Act given s { s with trace }
  | unify {s s' : Session} {a b : Ty} {outcome : Except TypeError Unit} (ha : given a)
      (hb : given b) (h : s.unify a b = .ok (outcome, s')) : Act given s s'
  | report (s : Session) (report : Report) : Act given s (s.report report)
  | requireTrait {s s' : Session} {ty : Ty} {traitName : String} {origin : NodeId}
      {outcome : Except TypeError Unit}
      (h : s.requireTrait ty traitName origin = .ok (outcome, s')) : Act given s s'
  | dischargeTraits {s s' : Session} (h : s.dischargeTraits = .ok s') : Act given s s'
  /-- Variables are poisoned only after a report. -/
  | poison {s s' : Session} {ty : Ty} (hreported : s.reports ≠ []) (h : s.poison ty = .ok s') :
      Act given s s'
  | file (s : Session) (symbols : List ResolvedSymbol)
      (h : s.reports = [] → ∀ symbol ∈ symbols, s.Settled given symbol) :
      Act given s { s with resolved := s.resolved ++ symbols }

/-- Any number of acts, one after the other. -/
abbrev Acts (given : Ty → Prop) : Session → Session → Prop := ReflTransGen (Act given)

/-- A type that an operation answers while there is nothing to report, where the
operation leads from one session to another. -/
inductive Made (given : Ty → Prop) (s s' : Session) : Ty → Prop
  | given {ty : Ty} (h : given ty) : Made given s s' ty
  | applied {source ty : Ty} (h : given source) (happly : s'.apply source = .ok ty) :
      Made given s s' ty
  | erased {ty : Ty} (h : Made given s s' ty) : Made given s s' ty.erase
  /-- The reason why two types do not agree. -/
  | clashing {a b ty : Ty} {error : TypeError} (ha : given a) (hb : given b)
      (h : s.unify a b = .ok (.error error, s')) (hty : ty ∈ error.types) : Made given s s' ty
  /-- The reason why a type does not have a trait. -/
  | lacking {a ty : Ty} {traitName : String} {origin : NodeId} {error : TypeError} (ha : given a)
      (h : s.requireTrait a traitName origin = .ok (.error error, s')) (hty : ty ∈ error.types) :
      Made given s s' ty

/-- The second session still has everything that the first one has collected. -/
structure Advances (s s' : Session) : Prop where
  registry : s'.registry = s.registry
  exprs : s'.exprs = s.exprs
  reports : s.reports <+: s'.reports

namespace Advances

theorem of_eq {s s' : Session} (hregistry : s'.registry = s.registry) (hexprs : s'.exprs = s.exprs)
    (hreports : s'.reports = s.reports) : s.Advances s' :=
  ⟨hregistry, hexprs, hreports ▸ List.prefix_rfl⟩

theorem trans {s t u : Session} (h : s.Advances t) (h' : t.Advances u) : s.Advances u :=
  ⟨h'.registry.trans h.registry, h'.exprs.trans h.exprs, h.reports.trans h'.reports⟩

/-- What is not reported later was not reported before. -/
theorem reports_eq_nil {s t : Session} (h : s.Advances t) (hnone : t.reports = []) :
    s.reports = [] :=
  List.prefix_nil.mp (hnone ▸ h.reports)

end Advances

section Frame

variable {given : Ty → Prop} {s s' : Session} {ty : Ty} {outcome : Except TypeError Unit}

@[simp] theorem reports_report_ne_nil (s : Session) (report : Report) :
    (s.report report).reports ≠ [] := by
  simp [Session.report]

theorem frame_unify {a b : Ty} (h : s.unify a b = .ok (outcome, s')) :
    ∃ subst trace, s' = { s with subst, trace } := by
  rw [unify] at h
  split at h
  · cases h
  · cases h
    exact ⟨_, _, rfl⟩
  · cases h
    exact ⟨_, _, rfl⟩

theorem frame_requireTrait {traitName : String} {origin : NodeId}
    (h : s.requireTrait ty traitName origin = .ok (outcome, s')) :
    ∃ obligations, s' = { s with obligations } := by
  rw [requireTrait] at h
  split at h
  · obtain ⟨subject, _, h⟩ := exists_of_bind_eq_ok h
    split at h
    · cases h
      exact ⟨_, rfl⟩
    · cases h
      exact ⟨_, rfl⟩
    · cases h
      exact ⟨_, rfl⟩
    · obtain ⟨answer, _, h⟩ := exists_of_bind_eq_ok h
      split at h
      · cases h
        exact ⟨_, rfl⟩
      · obtain ⟨applied, _, h⟩ := exists_of_bind_eq_ok h
        cases h
        exact ⟨_, rfl⟩
  · cases h

theorem frame_discharge {obligation : Obligation} (h : s.discharge obligation = .ok s') :
    ∃ obligations reports, s' = { s with obligations, reports := s.reports ++ reports } := by
  obtain ⟨⟨outcome, t⟩, hrequire, h⟩ := exists_of_bind_eq_ok h
  obtain ⟨obligations, rfl⟩ := frame_requireTrait hrequire
  cases outcome with
  | ok =>
      cases h
      exact ⟨obligations, [], by rw [List.append_nil]⟩
  | error error =>
      cases h
      exact ⟨obligations, [_], rfl⟩

theorem frame_foldlM_discharge {list : List Obligation} (h : list.foldlM discharge s = .ok s') :
    ∃ obligations reports, s' = { s with obligations, reports := s.reports ++ reports } := by
  induction list generalizing s with
  | nil =>
      cases h
      exact ⟨_, [], by rw [List.append_nil]⟩
  | cons first rest ih =>
      rw [List.foldlM_cons] at h
      obtain ⟨t, hfirst, h⟩ := exists_of_bind_eq_ok h
      obtain ⟨_, early, rfl⟩ := frame_discharge hfirst
      obtain ⟨obligations, late, rfl⟩ := ih h
      exact ⟨obligations, early ++ late, by rw [List.append_assoc]⟩

theorem frame_dischargeTraits (h : s.dischargeTraits = .ok s') :
    ∃ obligations reports, s' = { s with obligations, reports := s.reports ++ reports } :=
  frame_foldlM_discharge (s := { s with obligations := [] }) h

theorem frame_poison (h : s.poison ty = .ok s') : ∃ subst, s' = { s with subst } := by
  obtain ⟨applied, _, h⟩ := exists_of_bind_eq_ok h
  obtain ⟨subst, _, h⟩ := exists_of_bind_eq_ok h
  cases h
  exact ⟨subst, rfl⟩

section Checks

variable {origin : NodeId}

theorem frame_expect {expected actual answer : Ty}
    (h : s.expect expected actual origin = .ok (answer, s')) :
    ∃ subst trace reports, s' = { s with subst, trace, reports } := by
  obtain ⟨⟨outcome, t⟩, hunify, h⟩ := exists_of_bind_eq_ok h
  obtain ⟨_, _, rfl⟩ := frame_unify hunify
  cases outcome with
  | ok =>
      obtain ⟨applied, _, h⟩ := exists_of_bind_eq_ok h
      cases h
      exact ⟨_, _, _, rfl⟩
  | error error =>
      cases h
      exact ⟨_, _, _, rfl⟩

theorem frame_traitType {operator : Operator} {traitName : String} {lhs rhs : Ty}
    {answer : Option Ty} (h : s.traitType operator traitName lhs rhs origin = .ok (answer, s')) :
    ∃ subst trace reports obligations, s' = { s with subst, trace, reports, obligations } := by
  obtain ⟨⟨agreed, t⟩, hunify, h⟩ := exists_of_bind_eq_ok h
  obtain ⟨_, _, rfl⟩ := frame_unify hunify
  cases agreed with
  | error error =>
      cases h
      exact ⟨_, _, _, _, rfl⟩
  | ok =>
      obtain ⟨⟨satisfied, u⟩, hrequire, h⟩ := exists_of_bind_eq_ok h
      obtain ⟨_, rfl⟩ := frame_requireTrait hrequire
      cases satisfied with
      | error error =>
          cases h
          exact ⟨_, _, _, _, rfl⟩
      | ok =>
          dsimp only at h
          split at h
          · cases h
            exact ⟨_, _, _, _, rfl⟩
          · obtain ⟨applied, _, h⟩ := exists_of_bind_eq_ok h
            cases h
            exact ⟨_, _, _, _, rfl⟩

theorem frame_operatorType {operator : Operator} {lhs rhs : Ty} {answer : Option Ty}
    (h : s.operatorType operator lhs rhs origin = .ok (answer, s')) :
    ∃ subst trace reports obligations, s' = { s with subst, trace, reports, obligations } := by
  rw [operatorType] at h
  split at h
  · obtain ⟨⟨left, t⟩, hleft, h⟩ := exists_of_bind_eq_ok h
    obtain ⟨⟨right, u⟩, hright, h⟩ := exists_of_bind_eq_ok h
    cases h
    obtain ⟨_, _, _, rfl⟩ := frame_expect hleft
    obtain ⟨_, _, _, rfl⟩ := frame_expect hright
    exact ⟨_, _, _, _, rfl⟩
  · exact frame_traitType h

theorem frame_binary {operator : Operator} {lhs rhs answer : Inferred}
    (h : s.binary operator lhs rhs origin = .ok (answer, s')) :
    ∃ subst trace reports obligations, s' = { s with subst, trace, reports, obligations } := by
  obtain ⟨⟨ty, t⟩, htype, h⟩ := exists_of_bind_eq_ok h
  obtain ⟨_, _, _, _, rfl⟩ := frame_operatorType htype
  cases ty with
  | none =>
      cases h
      exact ⟨_, _, _, _, rfl⟩
  | some ty =>
      dsimp only at h
      split at h
      · cases h
        exact ⟨_, _, _, _, rfl⟩
      · cases h
        exact ⟨_, _, _, _, rfl⟩

theorem frame_call {pool pool' : VarPool} {callee answer : Ty} {args : List Ty}
    (h : s.call pool callee args origin = .ok (answer, s', pool')) :
    ∃ supply subst trace reports, s' = { s with supply, subst, trace, reports } := by
  obtain ⟨⟨v, t, drawn⟩, hdraw, h⟩ := exists_of_bind_eq_ok h
  obtain ⟨_, _, hdraw⟩ := exists_of_bind_eq_ok hdraw
  cases hdraw
  obtain ⟨⟨outcome, u⟩, hunify, h⟩ := exists_of_bind_eq_ok h
  obtain ⟨_, _, rfl⟩ := frame_unify hunify
  cases outcome with
  | ok =>
      obtain ⟨applied, _, h⟩ := exists_of_bind_eq_ok h
      cases h
      exact ⟨_, _, _, _, rfl⟩
  | error error =>
      cases h
      exact ⟨_, _, _, _, rfl⟩

theorem frame_lookupOrUnknown (s : Session) (table : SymbolTable) (name : String)
    (origin : NodeId) (span : Option Span) :
    ∃ reports, (s.lookupOrUnknown table name origin span).2 = { s with reports } := by
  rw [lookupOrUnknown]
  split
  · exact ⟨_, rfl⟩
  · exact ⟨_, rfl⟩

end Checks

theorem Act.advances (h : Act given s s') : s.Advances s' := by
  cases h with
  | draw | retrace | file => exact .of_eq rfl rfl rfl
  | unify _ _ h =>
      obtain ⟨_, _, rfl⟩ := frame_unify h
      exact .of_eq rfl rfl rfl
  | report report => exact ⟨rfl, rfl, List.prefix_append _ _⟩
  | requireTrait h =>
      obtain ⟨_, rfl⟩ := frame_requireTrait h
      exact .of_eq rfl rfl rfl
  | dischargeTraits h =>
      obtain ⟨_, _, rfl⟩ := frame_dischargeTraits h
      exact ⟨rfl, rfl, List.prefix_append _ _⟩
  | poison _ h =>
      obtain ⟨_, rfl⟩ := frame_poison h
      exact .of_eq rfl rfl rfl

theorem Acts.advances (h : Acts given s s') : s.Advances s' := by
  induction h with
  | refl => exact .of_eq rfl rfl rfl
  | tail _ hact ih => exact ih.trans hact.advances

theorem Act.grows (h : Act given s s') (hs : s.subst.Acyclic) : s.subst.Grows s'.subst := by
  cases h with
  | draw | retrace | report | file => exact .refl
  | unify _ _ h => exact (delivers_unify hs _ _).of_eq_ok h
  | requireTrait h => exact (delivers_requireTrait hs _ _ _).of_eq_ok h ▸ .refl
  | dischargeTraits h => exact (delivers_dischargeTraits hs).of_eq_ok h ▸ .refl
  | poison _ h => exact (delivers_poison hs _).of_eq_ok h

theorem Acts.grows (h : Acts given s s') (hs : s.subst.Acyclic) : s.subst.Grows s'.subst := by
  induction h with
  | refl => exact .refl
  | tail _ hact ih => exact ih.trans (hact.grows (ih.acyclic hs))

/-- Obligations go on waiting for variables, and for traits that exist. -/
theorem Act.waits (h : Act given s s') (hs : s.subst.WellFormed) (hw : s.Waits) : s'.Waits := by
  cases h with
  | draw | retrace | report | file => exact hw
  | unify _ _ h =>
      obtain ⟨_, _, rfl⟩ := frame_unify h
      exact hw
  | requireTrait h =>
      have hregistered := contains_of_requireTrait h
      rcases requireTrait_cases hs hregistered _ _ with ⟨_, heq⟩ | ⟨v, _, heq⟩ | ⟨_, heq⟩
      · cases heq.symm.trans h
        exact hw
      · cases heq.symm.trans h
        intro o ho
        rcases List.mem_append.mp ho with ho | ho
        · exact hw o ho
        · cases List.mem_singleton.mp ho
          exact ⟨rfl, hregistered⟩
      · cases heq.symm.trans h
        exact hw
  | dischargeTraits h =>
      obtain ⟨kept, refusals, htaken, heq⟩ := dischargeTraits_eq hs hw
      cases heq.symm.trans h
      intro o ho
      obtain ⟨source, hsource, v, _, rfl⟩ := htaken.exists_of_mem_kept ho
      exact ⟨rfl, (hw source hsource).2⟩
  | poison _ h =>
      obtain ⟨_, rfl⟩ := frame_poison h
      exact hw

theorem Acts.waits (h : Acts given s s') (hs : s.subst.WellFormed) (hw : s.Waits) : s'.Waits := by
  induction h with
  | refl => exact hw
  | tail hacts hact ih =>
      exact hact.waits ((Acts.grows hacts hs.acyclic).wellFormed hs) ih

end Frame

end Session

end TypeInference
