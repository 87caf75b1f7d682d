/-
# Drawing variables with numbers moved up

A session that starts at a chosen number hands out one number after the other.
Beside it another session starts `k` numbers higher, and as long as neither turns
to the pool each of its variables is numbered `k` higher.  So what draws variables
is renamed as well, but only on the condition that there was room in both
supplies.

`Parallel` puts this condition on the result: when the first computation returns,
the pool is as before, and the next number plus `k` is within the supply, then the
second computation returns the same with the numbers moved up.  For parts in
sequence the condition on the last result gives it for the earlier ones, because
the pool and the next number only go up.  The only fault of such a computation is
that the numbers are exhausted.
-/

import TypeInference.Proofs.Session.Renaming
import TypeInference.Proofs.Session.Settlement

namespace TypeInference

/-- Numbers moved up by `k`. -/
def shift (k : Nat) : VarId ↪o VarId :=
  OrderEmbedding.ofStrictMono (· + k) fun _ _ hlt => Nat.add_lt_add_right hlt k

@[simp] theorem shift_apply (k : Nat) (v : VarId) : shift k v = v + k := rfl

/-- A supply and the pool, before and after numbers were drawn.  While the pool is the
same, they were drawn from the supply. -/
structure Drawn (before after : VarSupply × VarPool) : Prop where
  pool : before.2.next ≤ after.2.next
  supply : after.2 = before.2 → after.1.stop = before.1.stop ∧ before.1.next ≤ after.1.next

namespace Drawn

variable {first second third : VarSupply × VarPool}

theorem refl (state : VarSupply × VarPool) : Drawn state state :=
  ⟨le_rfl, fun _ => ⟨rfl, le_rfl⟩⟩

/-- If the pool is the same in the end, it was the same in between. -/
theorem pool_eq (h : Drawn first second) (h' : Drawn second third) (heq : third.2 = first.2) :
    second.2 = first.2 := by
  have hpool := heq ▸ h'.pool
  have hnext : second.2.next = first.2.next := le_antisymm hpool h.pool
  cases hsecond : second.2
  cases hfirst : first.2
  rw [hsecond, hfirst] at hnext
  exact congrArg VarPool.mk hnext

theorem trans (h : Drawn first second) (h' : Drawn second third) : Drawn first third := by
  refine ⟨h.pool.trans h'.pool, fun heq => ?_⟩
  have hmiddle := pool_eq h h' heq
  obtain ⟨hstop, hnext⟩ := h.supply hmiddle
  obtain ⟨hstop', hnext'⟩ := h'.supply (heq.trans hmiddle.symm)
  exact ⟨hstop'.trans hstop, hnext.trans hnext'⟩

end Drawn

variable {k : Nat} {α α' β β' γ γ' τ υ : Type}

/-- A computation that draws variables beside one with the numbers moved up by `k`, where
`f` and `g` move up the numbers of a result and of a state. -/
structure Parallel (k : Nat) (numbers : τ → VarSupply × VarPool) (f : α → α') (g : τ → τ)
    (before : VarSupply × VarPool) (x : Except Fault (α × τ)) (x' : Except Fault (α' × τ)) :
    Prop where
  exhausted : ∀ {fault}, x = .error fault → fault = .idsExhausted
  drawn : ∀ {a t}, x = .ok (a, t) → Drawn before (numbers t)
  moved : ∀ {a t}, x = .ok (a, t) → (numbers t).2 = before.2 →
    (numbers t).1.next + k ≤ before.1.stop → x' = .ok (f a, g t)

namespace Parallel

variable {numbers : τ → VarSupply × VarPool} {numbers' : υ → VarSupply × VarPool}
  {f : α → α'} {f' : β → β'} {g : τ → τ} {g' : υ → υ} {before : VarSupply × VarPool}
  {x : Except Fault (α × τ)} {x' : Except Fault (α' × τ)}

theorem of_eq_ok {a : α} {t : τ} (hx : x = .ok (a, t)) (hx' : x' = .ok (f a, g t))
    (hnumbers : numbers t = before) : Parallel k numbers f g before x x' where
  exhausted h := by cases hx.symm.trans h
  drawn h := by
    cases hx.symm.trans h
    exact hnumbers ▸ .refl _
  moved h _ _ := by
    cases hx.symm.trans h
    exact hx'

/-- A computation of two parts is moved up part by part. -/
theorem bind {next : α × τ → Except Fault (β × υ)} {next' : α' × τ → Except Fault (β' × υ)}
    (h : Parallel k numbers f g before x x')
    (hnext : ∀ a t, x = .ok (a, t) →
      Parallel k numbers' f' g' (numbers t) (next (a, t)) (next' (f a, g t))) :
    Parallel k numbers' f' g' before (x >>= next) (x' >>= next') where
  exhausted {fault} hfault := by
    cases x with
    | error other =>
        cases hfault
        exact h.exhausted rfl
    | ok result => exact (hnext result.1 result.2 rfl).exhausted hfault
  drawn hok := by
    obtain ⟨⟨a, t⟩, hx, hok⟩ := exists_of_bind_eq_ok hok
    exact (h.drawn hx).trans ((hnext a t hx).drawn hok)
  moved hok hpool hroom := by
    obtain ⟨⟨a, t⟩, hx, hok⟩ := exists_of_bind_eq_ok hok
    have hlast := hnext a t hx
    have hmiddle := (h.drawn hx).pool_eq (hlast.drawn hok) hpool
    have hpool' := hpool.trans hmiddle.symm
    obtain ⟨hstop, _⟩ := (h.drawn hx).supply hmiddle
    obtain ⟨_, hlater⟩ := (hlast.drawn hok).supply hpool'
    rw [h.moved hx hmiddle ((Nat.add_le_add_right hlater k).trans hroom)]
    exact hlast.moved hok hpool' (hstop.symm ▸ hroom)

/-- A first part that draws nothing and returns. -/
theorem after {y : Except Fault γ} {y' : Except Fault γ'} {e : γ → γ'} {c : γ}
    {next : γ → Except Fault (α × τ)} {next' : γ' → Except Fault (α' × τ)}
    (hy : y = .ok c) (hy' : y' = renamed (shift k) e y)
    (hnext : Parallel k numbers f g before (next c) (next' (e c))) :
    Parallel k numbers f g before (y >>= next) (y' >>= next') := by
  subst hy hy'
  exact hnext

end Parallel

variable (k) (pool' : VarPool)

/-- A supply with its numbers moved up, beside another pool. -/
def moveSupply (state : VarSupply × VarPool) : VarSupply × VarPool :=
  (state.1.rename (shift k), pool')

theorem VarSupply.parallel_draw (supply : VarSupply) (pool : VarPool) :
    Parallel k id (shift k) (moveSupply k pool') (supply, pool) (supply.draw pool)
      ((supply.rename (shift k)).draw pool') := by
  by_cases hempty : supply.next = supply.stop
  · -- The numbers come from the pool, which is then another one.
    rw [draw, if_pos hempty, VarPool.claim]
    split
    · refine ⟨fun h => (by cases h), fun h => ?_, fun h hpool => ?_⟩
      · cases h
        exact ⟨Nat.le_add_right _ _, fun hpool => absurd (congrArg VarPool.next hpool)
          (Nat.ne_of_gt (Nat.lt_add_of_pos_right (by decide)))⟩
      · cases h
        exact absurd (congrArg VarPool.next hpool)
          (Nat.ne_of_gt (Nat.lt_add_of_pos_right (by decide)))
    · refine ⟨fun h => ?_, fun h => (by cases h), fun h => by cases h⟩
      cases h
      rfl
  · have hdraw : supply.draw pool =
        .ok (supply.next, { supply with next := supply.next + 1 }, pool) := by
      rw [draw, if_neg hempty]
      rfl
    rw [hdraw]
    refine ⟨fun h => (by cases h), fun h => ?_, fun h _ hroom => ?_⟩
    · cases h
      exact ⟨le_rfl, fun _ => ⟨rfl, Nat.le_succ _⟩⟩
    · cases h
      have hroom : supply.next + 1 + k ≤ supply.stop := hroom
      have hmore : ¬ supply.next + k = supply.stop := by omega
      rw [draw, VarSupply.rename, shift_apply, if_neg hmore]
      simp [moveSupply, VarSupply.rename, Nat.add_right_comm]
      rfl

theorem VarSupply.parallel_drawMany (supply : VarSupply) (pool : VarPool) (count : Nat) :
    Parallel k id (List.map (shift k)) (moveSupply k pool') (supply, pool)
      (supply.drawMany pool count) ((supply.rename (shift k)).drawMany pool' count) := by
  induction count generalizing supply pool with
  | zero => exact .of_eq_ok rfl rfl rfl
  | succ count ih =>
      refine (parallel_draw k pool' supply pool).bind fun v t _ => ?_
      exact (ih t.1 t.2).bind fun rest u _ => .of_eq_ok rfl rfl rfl

theorem Ty.named_rename (r : VarId ↪o VarId) (name : String) :
    renameOutcome r (Ty.rename r) (Ty.named name) = Ty.named name := by
  unfold Ty.named Ty.primitiveNamed?
  split
  · rfl
  · rfl
  · rfl
  · split
    · rename_i hprimitive
      split at hprimitive
      · cases hprimitive
        rfl
      · cases hprimitive
        rfl
      · cases hprimitive
        rfl
      · cases hprimitive
    · rfl

namespace Ascription

mutual

theorem parallel_toTy : (written : Ascription) → (supply : VarSupply) → (pool : VarPool) →
    Parallel k id (renameOutcome (shift k) (Ty.rename (shift k))) (moveSupply k pool')
      (supply, pool) (written.toTy supply pool) (written.toTy (supply.rename (shift k)) pool')
  | .named name, supply, pool => by
      rw [toTy, toTy]
      refine .of_eq_ok rfl ?_ rfl
      rw [Ty.named_rename]
      rfl
  | .hole, supply, pool => by
      rw [toTy, toTy]
      exact (supply.parallel_draw k pool' pool).bind fun v t _ => .of_eq_ok rfl rfl rfl
  | .func params result, supply, pool => by
      rw [toTy, toTy]
      refine (parallel_toTys params supply pool).bind fun params' t _ => ?_
      cases params' with
      | error error => exact .of_eq_ok rfl rfl rfl
      | ok params' =>
          refine (parallel_toTy result t.1 t.2).bind fun result' u _ => .of_eq_ok rfl ?_ rfl
          cases result' with
          | error error => rfl
          | ok result' => simp [renameOutcome, Except.map]

theorem parallel_toTys : (list : List Ascription) → (supply : VarSupply) → (pool : VarPool) →
    Parallel k id (renameOutcome (shift k) (List.map (Ty.rename (shift k)))) (moveSupply k pool')
      (supply, pool) (toTys supply pool list) (toTys (supply.rename (shift k)) pool' list)
  | [], supply, pool => by
      rw [toTys, toTys]
      exact .of_eq_ok rfl rfl rfl
  | first :: rest, supply, pool => by
      rw [toTys, toTys]
      refine (parallel_toTy first supply pool).bind fun first' t _ => ?_
      cases first' with
      | error error => exact .of_eq_ok rfl rfl rfl
      | ok first' =>
          refine (parallel_toTys rest t.1 t.2).bind fun rest' u _ => .of_eq_ok rfl ?_ rfl
          cases rest' with
          | error error => rfl
          | ok rest' => rfl

end

end Ascription

/-- The numbers that a session can still hand out. -/
def numbersOf (state : Session × VarPool) : VarSupply × VarPool := (state.1.supply, state.2)

/-- A session with its numbers moved up, beside another pool. -/
def moveSession (state : Session × VarPool) : Session × VarPool :=
  (state.1.rename (shift k), pool')

namespace Session

variable (s : Session) (pool : VarPool)

theorem parallel_freshVar :
    Parallel k numbersOf (shift k) (moveSession k pool') (s.supply, pool) (s.freshVar pool)
      ((s.rename (shift k)).freshVar pool') :=
  (s.supply.parallel_draw k pool' pool).bind fun _ _ _ => .of_eq_ok rfl rfl rfl

theorem parallel_freshVars (count : Nat) :
    Parallel k numbersOf (List.map (shift k)) (moveSession k pool') (s.supply, pool)
      (s.freshVars pool count) ((s.rename (shift k)).freshVars pool' count) :=
  (s.supply.parallel_drawMany k pool' pool count).bind fun _ _ _ => .of_eq_ok rfl rfl rfl

theorem parallel_resolveAscription (written : Ascription) :
    Parallel k numbersOf (renameOutcome (shift k) (Ty.rename (shift k))) (moveSession k pool')
      (s.supply, pool) (s.resolveAscription pool written)
      ((s.rename (shift k)).resolveAscription pool' written) :=
  (written.parallel_toTy k pool' s.supply pool).bind fun _ _ _ => .of_eq_ok rfl rfl rfl

variable {s} {pool}

/-- Unification returns, and it draws nothing. -/
theorem exists_unify (hs : s.subst.Acyclic) (a b : Ty) :
    ∃ outcome subst trace, s.unify a b = .ok (outcome, { s with subst, trace }) ∧
      s.subst.Grows subst := by
  rcases unify_cases hs a b with ⟨p, hmoves, heq⟩ | ⟨_, _, _, _, _, _, _, _, heq⟩
  · exact ⟨_, _, _, heq, hmoves.grows⟩
  · exact ⟨_, _, _, heq, .refl⟩

theorem parallel_call (hs : s.subst.Acyclic) (callee : Ty) (args : List Ty) (origin : NodeId) :
    Parallel k numbersOf (Ty.rename (shift k)) (moveSession k pool') (s.supply, pool)
      (s.call pool callee args origin)
      ((s.rename (shift k)).call pool' (callee.rename (shift k)) (args.map (Ty.rename (shift k)))
        origin) := by
  refine (parallel_freshVar k pool' s pool).bind fun v t hfresh => ?_
  obtain ⟨t, drawn⟩ := t
  have hsame : t.subst = s.subst := (s.delivers_freshVar pool).of_eq_ok hfresh
  have ht : t.subst.Acyclic := hsame.symm ▸ hs
  obtain ⟨outcome, subst, trace, hunify, hgrows⟩ :=
    exists_unify ht callee (.func (Ty.eraseAll args) (.var v))
  have hrenamed := unify_rename (shift k) t callee (.func (Ty.eraseAll args) (.var v))
  rw [Ty.rename_func, ← Ty.map_erase_rename, Ty.rename_var] at hrenamed
  refine .after hunify hrenamed ?_
  cases outcome with
  | ok =>
      refine .after ((hgrows.acyclic ht).apply_eq_ok (.var v))
        (apply_rename (shift k) { t with subst, trace } (.var v)) (.of_eq_ok rfl rfl rfl)
  | error error =>
      exact .of_eq_ok rfl (congrArg (fun u => Except.ok (Ty.error, u, pool'))
        (reportError_rename (shift k) { t with subst, trace } error origin)) rfl

theorem parallel_reconcile (hs : s.subst.Acyclic) (decl : DeclId) (symbol : Symbol) :
    Parallel k numbersOf id (moveSession k pool') (s.supply, pool) (s.reconcile pool decl symbol)
      ((s.rename (shift k)).reconcile pool' decl (symbol.rename (shift k))) := by
  have hascription : (symbol.rename (shift k)).ascription = symbol.ascription := rfl
  rw [reconcile, reconcile, hascription]
  cases symbol.ascription with
  | none => exact .of_eq_ok rfl rfl rfl
  | some written =>
      refine (parallel_resolveAscription k pool' s pool written.value).bind
        fun annotated t hannotated => ?_
      obtain ⟨t, drawn⟩ := t
      have hsame : t.subst = s.subst :=
        (s.delivers_resolveAscription pool written.value).of_eq_ok hannotated
      have hreport (u : Session) (hsupply : u.supply = t.supply) (error : TypeError)
          (labels : List Label) :
          Parallel k numbersOf id (moveSession k pool') (t.supply, drawn)
            (.ok (false, u.report ⟨error, .decl decl, some written.span, labels⟩, drawn))
            (.ok (false, (u.rename (shift k)).report
              ⟨error.rename (shift k), .decl decl, some written.span, labels⟩, pool')) :=
        .of_eq_ok rfl (congrArg (fun u => Except.ok (false, u, pool'))
          (report_rename (shift k) u ⟨error, .decl decl, some written.span, labels⟩))
          (congrArg (·, drawn) hsupply)
      cases annotated with
      | error error => exact hreport t rfl error []
      | ok annotated =>
          obtain ⟨outcome, subst, trace, hunify, _⟩ :=
            exists_unify (hsame.symm ▸ hs) annotated symbol.ty
          refine .after hunify (unify_rename (shift k) t annotated symbol.ty) ?_
          cases outcome with
          | ok => exact .of_eq_ok rfl rfl rfl
          | error error => exact hreport { t with subst, trace } rfl error _

theorem parallel_reconcileAll (hs : s.subst.Acyclic) (entries : List (DeclId × Symbol)) :
    Parallel k numbersOf id (moveSession k pool') (s.supply, pool) (s.reconcileAll pool entries)
      ((s.rename (shift k)).reconcileAll pool'
        (entries.map (Prod.map id (Symbol.rename (shift k))))) := by
  induction entries generalizing s pool with
  | nil => exact .of_eq_ok rfl rfl rfl
  | cons entry rest ih =>
      refine (parallel_reconcile k pool' hs entry.1 entry.2).bind fun agreed t hreconcile => ?_
      obtain ⟨t, drawn⟩ := t
      have hgrows : s.subst.Grows t.subst :=
        (delivers_reconcile hs pool entry.1 entry.2).of_eq_ok hreconcile
      exact (ih (hgrows.acyclic hs)).bind fun failed u _ => .of_eq_ok rfl rfl rfl

theorem exists_settleSymbol (hs : s.subst.Acyclic) (failed : List DeclId) (decl : DeclId)
    (symbol : Symbol) :
    ∃ resolved t, s.settleSymbol failed decl symbol = .ok (resolved, t) ∧ t.subst.Acyclic ∧
      t.supply = s.supply := by
  by_cases hfailed : failed.contains decl = true
  · exact ⟨_, s, if_pos hfailed, hs, rfl⟩
  have hresolve : s.resolveSymbol symbol =
      if (symbol.ty.instantiate s.subst.image).isClosed then
        .ok (.ok (symbol.ty.instantiate s.subst.image))
      else .ok (.error (.unresolved ("`" ++ symbol.name ++ "`")
        (symbol.ty.instantiate s.subst.image))) := by
    rw [resolveSymbol, apply, hs.apply_eq_ok]
    rfl
  rw [settleSymbol, if_neg hfailed, hresolve]
  by_cases hclosed : (symbol.ty.instantiate s.subst.image).isClosed = true
  · rw [if_pos hclosed]
    exact ⟨_, s, rfl, hs, rfl⟩
  · rw [if_neg hclosed]
    obtain ⟨subst, hpoison, hgrows⟩ := exists_poison (s := s.report ⟨.unresolved
      ("`" ++ symbol.name ++ "`") (symbol.ty.instantiate s.subst.image), .decl decl,
      some symbol.span, []⟩) hs symbol.ty
    exact ⟨symbol.resolved decl .error, _,
      congrArg (· >>= fun t => Except.ok (symbol.resolved decl .error, t)) hpoison,
      hgrows.acyclic hs, rfl⟩

/-- Symbols get their final forms without a fault, and without new variables. -/
theorem exists_settleSymbols (hs : s.subst.Acyclic) (failed : List DeclId)
    (entries : List (DeclId × Symbol)) :
    ∃ symbols t, s.settleSymbols failed entries = .ok (symbols, t) ∧ t.supply = s.supply := by
  induction entries generalizing s with
  | nil => exact ⟨[], s, rfl, rfl⟩
  | cons entry rest ih =>
      obtain ⟨first, t, hfirst, ht, hsupply⟩ := exists_settleSymbol hs failed entry.1 entry.2
      obtain ⟨others, u, hothers, hsupply'⟩ := ih ht
      refine ⟨first :: others, u, ?_, hsupply'.trans hsupply⟩
      rw [settleSymbols, hfirst]
      exact congrArg (· >>= fun result => Except.ok (first :: result.1, result.2)) hothers

theorem parallel_settleScope (hs : s.subst.WellFormed) (hwaits : s.Waits) (scope : Scope) :
    Parallel k numbersOf (List.map (ResolvedSymbol.rename (shift k))) (moveSession k pool')
      (s.supply, pool) (s.settleScope pool scope)
      ((s.rename (shift k)).settleScope pool' (scope.rename (shift k))) := by
  refine (parallel_reconcileAll k pool' hs.acyclic scope.symbols.entries).bind
    fun failed t hreconcile => ?_
  obtain ⟨t, drawn⟩ := t
  have hacts : Acts (fun _ => True) s t :=
    (acts_reconcileAll inherited_true (fun _ _ => trivial) hreconcile).1
  have ht := (hacts.grows hs.acyclic).wellFormed hs
  obtain ⟨kept, refusals, _, hdischarge⟩ := dischargeTraits_eq ht (hacts.waits hs hwaits)
  refine .after hdischarge (dischargeTraits_rename (shift k) t) ?_
  obtain ⟨symbols, u, hsettle, hsupply⟩ := exists_settleSymbols
    (s := { t with obligations := kept, reports := t.reports ++ refusals }) ht.acyclic failed
    scope.symbols.entries
  refine .after hsettle (settleSymbols_rename (shift k) _ failed scope.symbols.entries) ?_
  refine .of_eq_ok rfl ?_ (congrArg (·, drawn) hsupply)
  simp [moveSession, rename]

theorem parallel_closeScope (hs : s.subst.WellFormed) (hwaits : s.Waits)
    {table outer : SymbolTable} {scope : Scope} (hpop : table.pop? = some (scope, outer)) :
    Parallel k (fun state => numbersOf state.2) (List.map (ResolvedSymbol.rename (shift k)))
      (Prod.map (SymbolTable.rename (shift k)) (moveSession k pool')) (s.supply, pool)
      (s.closeScope pool table)
      ((s.rename (shift k)).closeScope pool' (table.rename (shift k))) := by
  rw [closeScope, closeScope, SymbolTable.pop?_rename, hpop]
  exact (parallel_settleScope k pool' hs hwaits scope).bind fun symbols t _ =>
    .of_eq_ok rfl rfl rfl

end Session

end TypeInference
