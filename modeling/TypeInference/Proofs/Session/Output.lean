/-
# What a session hands on

A caller may pass a session any type that does not mention `error`, and any type
that the session has returned to it.  As long as nothing is reported, such a run
keeps `error` out of everything: out of the bindings, the recorded expressions,
the filed symbols and the types that are returned.  A unit is handed on only if
nothing is reported to the very end, and so it is closed and free of `error`.
-/

import TypeInference.Proofs.Session.Comparison
import TypeInference.Proofs.Session.Settlement
import TypeInference.Proofs.Unify.Taint

namespace TypeInference

theorem untainted_primitiveNamed? {name : String} {ty : Ty}
    (h : Ty.primitiveNamed? name = some ty) : ty.Untainted := by
  unfold Ty.primitiveNamed? at h
  split at h
  · cases h
    rfl
  · cases h
    rfl
  · cases h
    rfl
  · cases h

/-- Operations build nothing tainted by themselves. -/
theorem inherited_untainted : Inherited Ty.Untainted where
  named {name ty} h := by
    unfold Ty.named at h
    split at h
    · cases h
      rfl
    · cases h
      rfl
    · cases h
      rfl
    · split at h
      · rename_i hprimitive
        cases h
        exact untainted_primitiveNamed? hprimitive
      · cases h
  literal value := by cases value <;> rfl
  var := Ty.untainted_var
  func hparams hresult := Ty.untainted_func.mpr ⟨hparams, hresult⟩
  erase := Ty.untainted_erase.mpr

theorem TypeError.types_erase (error : TypeError) :
    error.erase.types = error.types.map Ty.erase := by
  cases error <;> rfl

namespace Session

variable {s s' : Session}

/-- Nothing that a session holds mentions `error`. -/
structure Clean (s : Session) : Prop where
  bindings : s.subst.Untainted
  exprs : ∀ entry ∈ s.exprs.entries, entry.2.ty.Untainted
  resolved : ∀ symbol ∈ s.resolved,
    symbol.ty.isClosed = true ∧ symbol.ty.Untainted ∧ symbol.verdict ≠ .poisoned

theorem untainted_apply (hs : s.subst.Acyclic) (hbindings : s.subst.Untainted) {source ty : Ty}
    (hsource : source.Untainted) (happly : s.apply source = .ok ty) : ty.Untainted := by
  rw [apply, hs.apply_eq_ok] at happly
  cases happly
  exact hbindings.instantiate hs hsource

theorem untainted_stored (hs : s.subst.Acyclic) (hbindings : s.subst.Untainted) {a b : Ty}
    (ha : a.Untainted) (hb : b.Untainted) :
    Unify.Untainted (s.subst, [(s.subst.stored a, s.subst.stored b)]) := by
  refine ⟨hbindings, List.forall_mem_singleton.mpr ⟨?_, ?_⟩⟩
  · exact Ty.untainted_erase.mpr (hbindings.instantiate hs ha)
  · exact Ty.untainted_erase.mpr (hbindings.instantiate hs hb)

/-- The final form of a symbol is closed and untainted if nothing was wrong with it. -/
theorem Settled.clean {resolved : ResolvedSymbol} (h : s.Settled Ty.Untainted resolved)
    (hs : s.subst.Acyclic) (hbindings : s.subst.Untainted) :
    resolved.ty.isClosed = true ∧ resolved.ty.Untainted ∧ resolved.verdict ≠ .poisoned := by
  obtain ⟨symbol, decl, ty, hsymbol, happly, hclosed, rfl⟩ := h
  have hty : ty.erase.Untainted :=
    Ty.untainted_erase.mpr (untainted_apply hs hbindings hsymbol happly)
  refine ⟨?_, hty, ?_⟩
  · show ty.erase.isClosed = true
    rwa [Ty.isClosed_erase]
  · show ty.erase.verdict ≠ .poisoned
    rw [Ty.verdict, hty]
    split
    · rename_i h
      cases h
    · split <;> exact Verdict.noConfusion

/-- A unification of untainted types leaves untainted bindings, and is refused for
an untainted reason. -/
theorem untainted_unify (hs : s.subst.Acyclic) (hbindings : s.subst.Untainted) {a b : Ty}
    (ha : a.Untainted) (hb : b.Untainted) {outcome : Except TypeError Unit}
    (h : s.unify a b = .ok (outcome, s')) :
    s'.subst.Untainted ∧ ∀ error, outcome = .error error → ∀ ty ∈ error.types, ty.Untainted := by
  have hpair := untainted_stored hs hbindings ha hb
  rcases unify_settles hs a b with ⟨t, heq, hsettles⟩ | ⟨error, t, heq, hsubst, hsettles⟩
  · cases heq.symm.trans h
    exact ⟨hsettles.untainted_ok hpair, fun _ herror => by cases herror⟩
  · cases heq.symm.trans h
    refine ⟨hsubst ▸ hbindings, ?_⟩
    rintro _ ⟨⟩ ty hty
    have herased := hsettles.untainted_error hpair ty.erase
    rw [TypeError.types_erase] at herased
    exact Ty.untainted_erase.mp (herased (List.mem_map_of_mem hty))

/-- As long as nothing is reported, no act brings in `error`. -/
theorem Act.clean (h : Act Ty.Untainted s s') (hs : s.subst.WellFormed) (hclean : s.Clean)
    (hnone : s'.reports = []) : s'.Clean := by
  cases h with
  | draw | retrace => exact ⟨hclean.bindings, hclean.exprs, hclean.resolved⟩
  | unify ha hb h =>
      have hbindings := (untainted_unify hs.acyclic hclean.bindings ha hb h).1
      obtain ⟨_, _, rfl⟩ := frame_unify h
      exact ⟨hbindings, hclean.exprs, hclean.resolved⟩
  | report report => exact absurd hnone (reports_report_ne_nil s report)
  | requireTrait h =>
      obtain ⟨_, rfl⟩ := frame_requireTrait h
      exact ⟨hclean.bindings, hclean.exprs, hclean.resolved⟩
  | dischargeTraits h =>
      obtain ⟨_, _, rfl⟩ := frame_dischargeTraits h
      exact ⟨hclean.bindings, hclean.exprs, hclean.resolved⟩
  | poison hreported h =>
      obtain ⟨_, rfl⟩ := frame_poison h
      exact absurd hnone hreported
  | file symbols hsettled =>
      refine ⟨hclean.bindings, hclean.exprs, List.forall_mem_append.mpr ⟨hclean.resolved, ?_⟩⟩
      exact fun symbol hsymbol => (hsettled hnone symbol hsymbol).clean hs.acyclic hclean.bindings

theorem Acts.clean (h : Acts Ty.Untainted s s') (hs : s.subst.WellFormed) (hclean : s.Clean)
    (hnone : s'.reports = []) : s'.Clean := by
  induction h with
  | refl => exact hclean
  | tail hacts hact ih =>
      have hbefore := hact.advances.reports_eq_nil hnone
      exact hact.clean ((Acts.grows hacts hs.acyclic).wellFormed hs) (ih hbefore) hnone

/-- What is made of untainted types between clean sessions is untainted. -/
theorem Made.untainted {ty : Ty} (h : Made Ty.Untainted s s' ty) (hs : s.subst.WellFormed)
    (hs' : s'.subst.WellFormed) (hclean : s.Clean) (hclean' : s'.Clean) : ty.Untainted := by
  induction h with
  | given h => exact h
  | applied h happly => exact untainted_apply hs'.acyclic hclean'.bindings h happly
  | erased _ ih => exact Ty.untainted_erase.mpr ih
  | clashing ha hb h hty =>
      exact (untainted_unify hs.acyclic hclean.bindings ha hb h).2 _ rfl _ hty
  | @lacking a _ traitName origin error ha h hty =>
      have hsubject : (s.subst.subject a).Untainted :=
        Ty.untainted_unwrap (hclean.bindings.instantiate hs.acyclic ha)
      rcases requireTrait_cases hs (contains_of_requireTrait h) a origin with
        ⟨_, heq⟩ | ⟨_, _, heq⟩ | ⟨_, heq⟩
      · cases heq.symm.trans h
      · cases heq.symm.trans h
      · cases heq.symm.trans h
        rw [List.mem_singleton.mp hty]
        exact hsubject

end Session

/-- A question to a session that leaves it as it is. -/
inductive Query where
  | apply (ty : Ty)
  | head (ty : Ty)
  | binding (v : VarId)
  | exprType (expr : ExprId)
  | resolve (symbol : Symbol)
  | reports

/-- The types that are handed in with a question. -/
def Query.types : Query → List Ty
  | .apply ty | .head ty => [ty]
  | .resolve symbol => [symbol.ty]
  | .binding _ | .exprType _ | .reports => []

/-- The types in the answer to a question. -/
def Session.ask (s : Session) : Query → Except Fault (List Ty)
  | .apply ty => do .ok [← s.apply ty]
  | .head ty => do .ok [← s.subst.resolve ty]
  | .binding v => .ok (s.subst.lookup v).toList
  | .exprType expr => do
      let inferred ← s.exprType? expr
      .ok (inferred.map Inferred.ty).toList
  | .resolve symbol => do
      let answer ← s.resolveSymbol symbol
      .ok (typesOf (answer.map fun ty => [ty]))
  | .reports => .ok (s.reports.flatMap fun report => report.error.types)

/-- The expressions whose types a command records. -/
def Command.recorded : Command → List ExprId
  | .recordExpr expr _ => [expr]
  | _ => []

/-- A run of a session so far: the session as it is, what it was before, the types
that were returned, and the expressions that were recorded. -/
structure Journal where
  session : Session
  past : List Session
  returned : List Ty
  recorded : List ExprId

/-- A type that a caller may pass: it does not mention `error` or was returned before. -/
def Journal.Allows (j : Journal) (ty : Ty) : Prop := ty.Untainted ∨ ty ∈ j.returned

/-- A run in which every type was allowed when it was passed. -/
inductive Journal.Honest : Journal → Prop
  | start {registry : Registry} {options : SessionOptions} {pool pool' : VarPool} {s : Session}
      (h : Session.new registry options pool = .ok (s, pool')) : Honest ⟨s, [], [], []⟩
  | call {j : Journal} {call : Call} {reply : Reply} {s : Session} (before : Honest j)
      (hallowed : ∀ ty ∈ call.types, j.Allows ty) (h : j.session.exec call = .ok (reply, s)) :
      Honest ⟨s, j.session :: j.past, reply.types ++ j.returned,
        call.command.recorded ++ j.recorded⟩
  | ask {j : Journal} {query : Query} {answer : List Ty} (before : Honest j)
      (hallowed : ∀ ty ∈ query.types, j.Allows ty) (h : j.session.ask query = .ok answer) :
      Honest { j with returned := answer ++ j.returned }

namespace Session

variable {s s' : Session}

theorem mem_keys_recordedBy {command : Command} {expr : ExprId} :
    expr ∈ (s.recordedBy command).exprs.keys ↔
      expr ∈ command.recorded ∨ expr ∈ s.exprs.keys := by
  cases command with
  | recordExpr recorded inferred =>
      rw [recordedBy, recordExpr, KeyMap.mem_keys_insert, Command.recorded, List.mem_singleton]
  | _ => simp [recordedBy, Command.recorded]

theorem Clean.recordedBy (h : s.Clean) {command : Command}
    (htypes : ∀ ty ∈ command.types, ty.Untainted) : (s.recordedBy command).Clean := by
  cases command with
  | recordExpr expr inferred =>
      refine ⟨h.bindings, fun entry hentry => ?_, h.resolved⟩
      rcases KeyMap.mem_insertIn hentry with rfl | hentry
      · exact htypes _ List.mem_cons_self
      · exact h.exprs entry hentry
  | _ => exact h

/-- An answer to a question is untainted if the question and the session are. -/
theorem untainted_ask {query : Query} {answer : List Ty} (hs : s.subst.WellFormed)
    (hclean : s.Clean) (hnone : s.reports = []) (hquery : ∀ ty ∈ query.types, ty.Untainted)
    (h : s.ask query = .ok answer) : ∀ ty ∈ answer, ty.Untainted := by
  cases query with
  | apply ty =>
      obtain ⟨applied, happly, h⟩ := exists_of_bind_eq_ok h
      cases h
      have hty := hquery ty List.mem_cons_self
      exact List.forall_mem_singleton.mpr (untainted_apply hs.acyclic hclean.bindings hty happly)
  | head ty =>
      obtain ⟨head, hhead, h⟩ := exists_of_bind_eq_ok h
      cases h
      have himage := (hs.acyclic.isHead_of_resolve hhead).image_eq
      have huntainted := hclean.bindings.instantiate hs.acyclic (hquery ty List.mem_cons_self)
      rw [← himage] at huntainted
      exact List.forall_mem_singleton.mpr (Ty.untainted_instantiate.mp huntainted).1
  | binding v =>
      cases h
      exact fun ty hty => hclean.bindings v ty (Option.mem_toList.mp hty)
  | exprType expr =>
      obtain ⟨inferred, hinferred, h⟩ := exists_of_bind_eq_ok h
      cases h
      rw [exprType?] at hinferred
      split at hinferred
      · cases hinferred
        exact fun _ hty => absurd hty List.not_mem_nil
      · rename_i recorded hfind
        obtain ⟨applied, happly, hinferred⟩ := exists_of_bind_eq_ok hinferred
        cases hinferred
        have hrecorded := hclean.exprs _ (KeyMap.find?_eq_some_iff.mp hfind)
        exact List.forall_mem_singleton.mpr
          (untainted_apply hs.acyclic hclean.bindings hrecorded happly)
  | resolve symbol =>
      obtain ⟨result, hresult, h⟩ := exists_of_bind_eq_ok h
      cases h
      obtain ⟨applied, happly, hresult⟩ := exists_of_bind_eq_ok hresult
      have huntainted :=
        untainted_apply hs.acyclic hclean.bindings (hquery symbol.ty List.mem_cons_self) happly
      split at hresult
      · cases hresult
        exact List.forall_mem_singleton.mpr huntainted
      · cases hresult
        exact List.forall_mem_singleton.mpr huntainted
  | reports =>
      cases h
      rw [hnone]
      exact fun _ hty => absurd hty List.not_mem_nil

end Session

namespace Journal

variable {j : Journal}

/-- What holds after every step of an honest run. -/
structure Sound (j : Journal) : Prop where
  reachable : j.session.Reachable
  past : ∀ s ∈ j.past, s.reports <+: j.session.reports
  recorded : ∀ expr, expr ∈ j.session.exprs.keys ↔ expr ∈ j.recorded
  clean : j.session.reports = [] → j.session.Clean
  returned : j.session.reports = [] → ∀ ty ∈ j.returned, ty.Untainted

/-- Until something is reported, all that a caller may pass is untainted. -/
theorem Sound.untainted (h : j.Sound) (hnone : j.session.reports = []) {types : List Ty}
    (hallowed : ∀ ty ∈ types, j.Allows ty) : ∀ ty ∈ types, ty.Untainted := by
  intro ty hty
  rcases hallowed ty hty with huntainted | hreturned
  · exact huntainted
  · exact h.returned hnone ty hreturned

theorem sound_start {registry : Registry} {options : SessionOptions} {pool pool' : VarPool}
    {s : Session} (h : Session.new registry options pool = .ok (s, pool')) :
    Sound ⟨s, [], [], []⟩ := by
  have hreach : s.Reachable := ⟨registry, options, pool, s, pool', h, .refl⟩
  obtain ⟨supply, _, h⟩ := exists_of_bind_eq_ok h
  cases h
  have hnothing {α : Type} {p : α → Prop} : ∀ x ∈ ([] : List α), p x :=
    fun _ hx => absurd hx List.not_mem_nil
  refine ⟨hreach, hnothing, fun _ => Iff.rfl, fun _ => ⟨?_, hnothing, hnothing⟩, fun _ => hnothing⟩
  intro v bound hv
  rw [Subst.lookup_empty] at hv
  cases hv

theorem Sound.call (hj : j.Sound) {call : Call} {reply : Reply} {s : Session}
    (hallowed : ∀ ty ∈ call.types, j.Allows ty) (h : j.session.exec call = .ok (reply, s)) :
    Sound ⟨s, j.session :: j.past, reply.types ++ j.returned,
      call.command.recorded ++ j.recorded⟩ := by
  have hs := hj.reachable.wellFormed
  have hreach : s.Reachable := hj.reachable.later (.single (Session.step_of_exec h))
  have hreports := Session.reports_exec h
  have hquiet : s.reports = [] → j.session.reports = [] := fun hnone =>
    List.prefix_nil.mp (hnone ▸ hreports)
  have hclean : s.reports = [] → s.Clean ∧ ∀ ty ∈ reply.types, ty.Untainted := by
    intro hnone
    have hbefore := hj.clean (hquiet hnone)
    have htypes := hj.untainted (hquiet hnone) hallowed
    obtain ⟨hacts, hmade⟩ := Session.acts_exec inherited_untainted htypes h
    -- A recorded type is stored before any act, and is itself one that was passed.
    have hafter : s.Clean := by
      refine hacts.clean ?_ (hbefore.recordedBy (List.forall_mem_append.mp htypes).1) hnone
      rwa [Session.subst_recordedBy]
    refine ⟨hafter, fun ty hty => ?_⟩
    exact (hmade hnone ty hty).untainted hs hreach.wellFormed hbefore hafter
  refine ⟨hreach, ?_, fun expr => ?_, fun hnone => (hclean hnone).1, fun hnone => ?_⟩
  · exact List.forall_mem_cons.mpr ⟨hreports, fun t ht => (hj.past t ht).trans hreports⟩
  · rw [(Session.acts_of_call h).advances.exprs, Session.mem_keys_recordedBy, List.mem_append,
      hj.recorded]
  · exact List.forall_mem_append.mpr ⟨(hclean hnone).2, hj.returned (hquiet hnone)⟩

theorem Sound.ask (hj : j.Sound) {query : Query} {answer : List Ty}
    (hallowed : ∀ ty ∈ query.types, j.Allows ty) (h : j.session.ask query = .ok answer) :
    Sound { j with returned := answer ++ j.returned } := by
  refine ⟨hj.reachable, hj.past, hj.recorded, hj.clean, fun hnone => ?_⟩
  have hanswer := Session.untainted_ask hj.reachable.wellFormed (hj.clean hnone) hnone
    (hj.untainted hnone hallowed) h
  exact List.forall_mem_append.mpr ⟨hanswer, hj.returned hnone⟩

theorem Honest.sound (h : j.Honest) : j.Sound := by
  induction h with
  | start h => exact sound_start h
  | call _ hallowed h ih => exact ih.call hallowed h
  | ask _ hallowed h ih => exact ih.ask hallowed h

/-- The final types of expressions are those that were recorded, with all bindings used. -/
theorem Sound.untainted_settled (hj : j.Sound) (hnone : j.session.reports = [])
    {settled : List (ExprId × Inferred)} {last : Session}
    (hends : j.session.SettlesQuietly settled last) :
    ∀ entry ∈ settled, entry.2.ty.Untainted := by
  intro entry hentry
  have hclean := hj.clean hnone
  obtain ⟨source, hsource, happly⟩ := hends.applied entry hentry
  exact Session.untainted_apply hj.reachable.wellFormed.acyclic hclean.bindings
    (hclean.exprs source hsource) happly

/-- What an honest run hands on is closed and free of `error`.  A unit is returned
if there is no report after the last checks, and then there never was one;
otherwise one diagnostic is returned for each report, in order. -/
theorem finish_closed_untainted (h : j.Honest) :
    ∃ settled last, j.session.settle = .ok (settled, last) ∧
      (∀ unit, j.session.finish = .ok (.ok unit) →
        (∀ s ∈ last :: j.session :: j.past, s.reports = []) ∧
        (unit.exprs.map Prod.fst).Nodup ∧
        (∀ expr, expr ∈ unit.exprs.map Prod.fst ↔ expr ∈ j.recorded) ∧
        (∀ entry ∈ unit.exprs, entry.2.ty.isClosed = true ∧ entry.2.ty.mentions .error = false) ∧
        (∀ symbol ∈ unit.symbols, symbol.ty.isClosed = true ∧
          symbol.ty.mentions .error = false ∧ symbol.verdict ≠ .poisoned)) ∧
      (last.reports = [] → ∃ unit, j.session.finish = .ok (.ok unit)) ∧
      (∀ diagnostics, j.session.finish = .ok (.error diagnostics) ↔
        last.reports ≠ [] ∧ diagnostics = last.reports.map Report.toDiagnostic) ∧
      ∀ diagnostics, j.session.finish = .ok (.error diagnostics) → diagnostics ≠ [] := by
  have hj := h.sound
  obtain ⟨settled, last, hsettle, hquiet⟩ :=
    Session.exists_settle hj.reachable.wellFormed hj.reachable.waits
  refine ⟨settled, last, hsettle, fun unit hunit => ?_,
    fun hnone => ⟨_, (Session.finish_eq_unit_iff hsettle).mpr ⟨hnone, rfl⟩⟩,
    fun _ => Session.finish_eq_diagnostics_iff hsettle, fun diagnostics hdiagnostics => ?_⟩
  · obtain ⟨hnone, rfl⟩ := (Session.finish_eq_unit_iff hsettle).mp hunit
    have hends := hquiet hnone
    have hbefore : j.session.reports = [] := by rwa [hends.unchanged] at hnone
    refine ⟨List.forall_mem_cons.mpr ⟨hnone, List.forall_mem_cons.mpr ⟨hbefore, ?_⟩⟩, ?_,
      fun expr => ?_, fun entry hentry => ⟨hends.closed entry hentry, ?_⟩, ?_⟩
    · exact fun s hs => List.prefix_nil.mp (hbefore ▸ hj.past s hs)
    · rw [hends.keys]
      exact KeyMap.nodup_keys _
    · rw [hends.keys]
      exact hj.recorded expr
    · exact hj.untainted_settled hbefore hends entry hentry
    · rw [hends.unchanged]
      exact (hj.clean hbefore).resolved
  · obtain ⟨hreports, rfl⟩ := (Session.finish_eq_diagnostics_iff hsettle).mp hdiagnostics
    exact fun hempty => hreports (List.map_eq_nil_iff.mp hempty)

/-- A variable is required to have a trait and recorded inside a function type; the
written type of a symbol then says what it is. -/
theorem finish_closed_untainted_written_type : ∃ j : Journal, j.Honest ∧
    ∃ unit, j.session.finish = .ok (.ok unit) ∧ unit.symbols.length = 1 ∧ unit.exprs.length = 1 ∧
      ∀ entry ∈ unit.exprs, entry.2.ty.isClosed = true ∧ entry.2.ty.mentions .error = false := by
  have hrun : ∃ j : Journal, j.Honest ∧ ∃ unit, j.session.finish = .ok (.ok unit) ∧
      unit.symbols.length = 1 ∧ unit.exprs.length = 1 := by
    refine ⟨_, @Honest.call _ ⟨.empty, ⟨[Scope.empty.publish 0 ⟨some 0, "x", .synthetic,
        .ofTy (.var 0), some ⟨.named "num", .synthetic⟩⟩]⟩, ⟨0⟩, .closeScope⟩ _ _
      (@Honest.call _ ⟨.empty, .new, ⟨0⟩, .recordExpr 7 ⟨.func [.var 0] .bool, none⟩⟩ _ _
        (@Honest.call _ ⟨.empty, .new, ⟨0⟩, .requireTrait (.var 0) "Addable" (.expr 6)⟩ _ _
          (@Honest.call _ ⟨.empty, .new, ⟨0⟩, .freshType⟩ _ _
            (@Honest.start .builtin { varOffset := some 0 } ⟨0⟩ _ _ rfl) ?_ rfl) ?_ rfl) ?_ rfl)
        ?_ rfl,
      _, rfl, rfl, rfl⟩
    all_goals exact fun ty hty => .inl (by revert ty; decide)
  obtain ⟨j, hj, unit, hunit, hsymbols, hexprs⟩ := hrun
  obtain ⟨settled, last, _, hout, _⟩ := finish_closed_untainted hj
  exact ⟨j, hj, unit, hunit, hsymbols, hexprs, (hout unit hunit).2.2.2.1⟩

end Journal

end TypeInference
