/-
# What a written type determines

A written type without holes is a type without variables.  Once it is unified with
the inferred type of a symbol, no variable of that is left, except at or below a
place where `any` is written: there unification has compared nothing.

The symbol is settled only after the written types of the whole scope were used and
other symbols were poisoned, but what is closed and what agrees stays so.  Two
results follow.  Without `any`, a written type determines its symbol.  With `any`,
a variable may be left where `any` is written, and then the symbol is reported as
open although its type was written in full.
-/

import TypeInference.Proofs.Session.Ascription
import TypeInference.Proofs.Session.Idempotence
import TypeInference.Proofs.Session.Pinning

namespace TypeInference

theorem Ascription.mem_namesAll {name : String} {list : List Ascription} :
    name ∈ namesAll list ↔ ∃ written ∈ list, name ∈ written.names := by
  induction list with
  | nil => simp [namesAll]
  | cons first rest ih => simp [namesAll, ih]

/-- A type that mentions `any` was written with that name. -/
theorem Ty.any_mem_names_written {ty : Ty} (h : ty.mentions .any = true) :
    "any" ∈ ty.written.names := by
  induction ty with
  | any => exact List.mem_singleton_self _
  | func params result ihParams ihResult =>
      rw [written, Ascription.names, writtenAll_eq_map, List.mem_append, Ascription.mem_namesAll]
      rcases mentions_func.mp h with ⟨param, hparam, hmentions⟩ | hmentions
      · exact .inl ⟨_, List.mem_map_of_mem hparam, ihParams param hparam hmentions⟩
      · exact .inr (ihResult hmentions)
  | const base value ih => exact ih h
  | _ => cases h

/-- A written type without holes is read without drawing. -/
theorem Session.reads_of_resolveAscription {s s' : Session} {pool pool' : VarPool}
    {written : Ascription} {ty : Ty} (hholes : written.holes = 0)
    (h : s.resolveAscription pool written = .ok (.ok ty, s', pool')) : ty.Reads written [] := by
  obtain ⟨vars, hreads⟩ := exists_reads_of_resolveAscription h
  have hlength : vars.length = 0 := by
    rw [← hreads.vars_eq, ← Ty.holes_written, hreads.written_eq, hholes]
  rwa [List.length_eq_zero_iff.mp hlength] at hreads

namespace Ty.Reads

variable {written : Ascription} {ty : Ty}

theorem isClosed (h : ty.Reads written []) : ty.isClosed = true := List.isEmpty_iff.mpr h.vars_eq

theorem stored_eq (h : ty.Reads written []) (s : Subst) : s.stored ty = ty := by
  rw [Subst.stored, Ty.instantiate_of_isClosed h.isClosed, Ty.erase_eq_self h.constFree]

theorem resolveAscription_eq (h : ty.Reads written []) (s : Session) (pool : VarPool) :
    s.resolveAscription pool written = .ok (.ok ty, s, pool) := by
  rw [← h.written_eq]
  exact Ty.resolveAscription_written h.isClosed h.constFree h.errorFree s pool

theorem wildcardFree (h : ty.Reads written []) (hany : "any" ∉ written.names) :
    ty.WildcardFree := by
  refine ⟨Bool.eq_false_iff.mpr fun hmentions => hany ?_, h.errorFree⟩
  rw [← h.written_eq]
  exact Ty.any_mem_names_written hmentions

end Ty.Reads

namespace Session

variable {s t u : Session}

/-- To unify with a type that was written in full leaves a variable only where `any` is
written, and where the variable has been before. -/
theorem exists_any_of_unify (hs : s.subst.Acyclic) {written : Ascription} {annotated ty : Ty}
    (hreads : annotated.Reads written []) (h : s.unify annotated ty = .ok (.ok (), t)) {v : VarId}
    (hv : (t.subst.stored ty).occurs v = true) :
    ∃ above below, annotated.part? above = some .any ∧
      (s.subst.stored ty).part? (above ++ below) = some (.var v) := by
  obtain ⟨place, hplace⟩ := Ty.exists_part?_of_occurs (Ty.hasConst_erase _) hv
  have hagree : annotated.Agree (t.subst.stored ty) := by
    have hagreed := agreed_of_unify_ok hs h
    rwa [Subst.Agreed, hreads.stored_eq] at hagreed
  obtain ⟨p, hmoves, hp⟩ := exists_moves_of_unify_ok hs h
  have hpins : s.subst.Pins t.subst :=
    hp ▸ Unify.Moves.pins hmoves hs (by rw [hreads.stored_eq]; exact hreads.isClosed)
  obtain ⟨above, below, wild, rfl, habove, hwild⟩ :=
    hagree.exists_wildcard_above hreads.isClosed hplace
  refine ⟨above, below, ?_, hpins ty _ v hplace⟩
  cases wild with
  | any => exact habove
  | error =>
      have hmentions := Ty.mentions_of_part? .error habove rfl
      rw [hreads.errorFree] at hmentions
      cases hmentions
  | _ => cases hwild

/-! ## The turns of a symbol -/

/-- The reports about a declaration that are not about a trait. -/
def aboutSymbol (decl : DeclId) (reports : List Report) : List Report :=
  reports.filter fun report => report.origin = .decl decl ∧ report.category ≠ .traitBound

/-- The second session has more reports, and the given ones are those about a
declaration. -/
def Adds (s : Session) (decl : DeclId) (about : List Report) (t : Session) : Prop :=
  ∃ reports, t.reports = s.reports ++ reports ∧ aboutSymbol decl reports = about

namespace Adds

variable {decl : DeclId} {about more : List Report}

theorem of_eq (h : t.reports = s.reports) : Adds s decl [] t :=
  ⟨[], by rw [h, List.append_nil], rfl⟩

theorem trans (h : Adds s decl about t) (h' : Adds t decl more u) :
    Adds s decl (about ++ more) u := by
  obtain ⟨early, hearly, rfl⟩ := h
  obtain ⟨late, hlate, rfl⟩ := h'
  refine ⟨early ++ late, by rw [hlate, hearly, List.append_assoc], ?_⟩
  rw [aboutSymbol, List.filter_append]
  rfl

/-- A report about the declaration itself. -/
theorem single {report : Report} (h : t.reports = s.reports ++ [report])
    (horigin : report.origin = .decl decl) (hcategory : report.category ≠ .traitBound) :
    Adds s decl [report] t :=
  ⟨[report], h, by simp [aboutSymbol, horigin, hcategory]⟩

/-- Reports about other declarations. -/
theorem of_blames {decls : List DeclId} (h : Blames s decls t) (hdecl : decl ∉ decls) :
    Adds s decl [] t := by
  obtain ⟨reports, hreports, horigin, _⟩ := h.reports
  refine ⟨reports, hreports, List.filter_eq_nil_iff.mpr fun report hreport => ?_⟩
  have hmem : report.origin ∈ decls.map NodeId.decl := horigin ▸ List.mem_map_of_mem hreport
  obtain ⟨other, hother, heq⟩ := List.mem_map.mp hmem
  have hne : other ≠ decl := fun heq => hdecl (heq ▸ hother)
  simp [← heq, hne]

/-- Reports about traits. -/
theorem of_traits {refusals : List Report} (h : t.reports = s.reports ++ refusals)
    (hrefusals : ∀ report ∈ refusals, report.category = .traitBound) : Adds s decl [] t :=
  ⟨refusals, h, List.filter_eq_nil_iff.mpr fun report hreport => by
    simp [hrefusals report hreport]⟩

end Adds

theorem exists_turn_of_reconcileAll {pool pool' : VarPool} {before after : List (DeclId × Symbol)}
    {entry : DeclId × Symbol} {failed : List DeclId}
    (h : s.reconcileAll pool (before ++ entry :: after) = .ok (failed, u, pool')) :
    ∃ early t pool₁ agreed t' pool₂ late, s.reconcileAll pool before = .ok (early, t, pool₁) ∧
      t.reconcile pool₁ entry.1 entry.2 = .ok (agreed, t', pool₂) ∧
      t'.reconcileAll pool₂ after = .ok (late, u, pool') ∧
      failed = early ++ if agreed then late else entry.1 :: late := by
  induction before generalizing s pool failed with
  | nil =>
      obtain ⟨⟨agreed, t, pool₁⟩, hreconcile, h⟩ := exists_of_bind_eq_ok h
      obtain ⟨⟨late, _, _⟩, hlate, h⟩ := exists_of_bind_eq_ok h
      cases h
      exact ⟨[], s, pool, agreed, t, pool₁, late, rfl, hreconcile, hlate, rfl⟩
  | cons first rest ih =>
      obtain ⟨⟨agreed', w, pool₀⟩, hfirst, h⟩ := exists_of_bind_eq_ok h
      obtain ⟨⟨others, _, _⟩, hothers, h⟩ := exists_of_bind_eq_ok h
      cases h
      obtain ⟨early, t, pool₁, agreed, t', pool₂, late, hearly, hreconcile, hlate, rfl⟩ :=
        ih hothers
      refine ⟨if agreed' then early else first.1 :: early, t, pool₁, agreed, t', pool₂, late, ?_,
        hreconcile, hlate, ?_⟩
      · rw [reconcileAll, hfirst]
        show w.reconcileAll pool₀ rest >>= _ = _
        rw [hearly]
        rfl
      · cases agreed' <;> rfl

theorem exists_turn_of_settleSymbols {before after : List (DeclId × Symbol)}
    {entry : DeclId × Symbol} {failed : List DeclId} {symbols : List ResolvedSymbol}
    (h : s.settleSymbols failed (before ++ entry :: after) = .ok (symbols, u)) :
    ∃ early t resolved t' late, s.settleSymbols failed before = .ok (early, t) ∧
      t.settleSymbol failed entry.1 entry.2 = .ok (resolved, t') ∧
      t'.settleSymbols failed after = .ok (late, u) ∧ symbols = early ++ resolved :: late := by
  induction before generalizing s symbols with
  | nil =>
      obtain ⟨⟨resolved, t⟩, hsettle, h⟩ := exists_of_bind_eq_ok h
      obtain ⟨⟨late, _⟩, hlate, h⟩ := exists_of_bind_eq_ok h
      cases h
      exact ⟨[], s, resolved, t, late, rfl, hsettle, hlate, rfl⟩
  | cons first rest ih =>
      obtain ⟨⟨form, w⟩, hfirst, h⟩ := exists_of_bind_eq_ok h
      obtain ⟨⟨others, _⟩, hothers, h⟩ := exists_of_bind_eq_ok h
      cases h
      obtain ⟨early, t, resolved, t', late, hearly, hsettle, hlate, rfl⟩ := ih hothers
      refine ⟨form :: early, t, resolved, t', late, ?_, hsettle, hlate, rfl⟩
      rw [settleSymbols, hfirst]
      show w.settleSymbols failed rest >>= _ = _
      rw [hearly]
      rfl

section Turn

variable {before after : List (DeclId × Symbol)} {decl : DeclId} {symbol : Symbol}
variable {failed : List DeclId}

theorem notMem_of_nodup_keys (h : ((before ++ (decl, symbol) :: after).map Prod.fst).Nodup) :
    decl ∉ before.map Prod.fst ∧ decl ∉ after.map Prod.fst := by
  rw [List.map_append, List.map_cons, List.nodup_middle] at h
  exact not_or.mp fun hmem => (List.nodup_cons.mp h).1 (List.mem_append.mpr hmem)

/-- What is reported about a symbol among the written types is reported in its turn. -/
theorem exists_turn_among_written (hs : s.subst.Acyclic)
    (hkeys : ((before ++ (decl, symbol) :: after).map Prod.fst).Nodup) {pool pool' : VarPool}
    (h : s.reconcileAll pool (before ++ (decl, symbol) :: after) = .ok (failed, u, pool')) :
    ∃ early t pool₁ agreed t' pool₂, s.reconcileAll pool before = .ok (early, t, pool₁) ∧
      t.reconcile pool₁ decl symbol = .ok (agreed, t', pool₂) ∧ t.subst.Acyclic ∧
      t'.subst.Grows u.subst ∧ (decl ∈ failed ↔ agreed = false) ∧
      ∀ about, Adds t decl about t' → Adds s decl about u := by
  obtain ⟨early, t, pool₁, agreed, t', pool₂, late, hearly, hturn, hlate, rfl⟩ :=
    exists_turn_of_reconcileAll h
  have hgrows := (delivers_reconcileAll hs pool before).of_eq_ok hearly
  have ht := hgrows.acyclic hs
  have hgrows' := (delivers_reconcile ht pool₁ decl symbol).of_eq_ok hturn
  have ht' := hgrows'.acyclic ht
  obtain ⟨hbefore, hafter⟩ := notMem_of_nodup_keys hkeys
  obtain ⟨hblames, hsublist⟩ := blames_reconcileAll hs hearly
  obtain ⟨hblames', hsublist'⟩ := blames_reconcileAll ht' hlate
  have hnotEarly : decl ∉ early := fun hmem => hbefore (hsublist.subset hmem)
  have hnotLate : decl ∉ late := fun hmem => hafter (hsublist'.subset hmem)
  refine ⟨early, t, pool₁, agreed, t', pool₂, hearly, hturn, ht,
    (delivers_reconcileAll ht' pool₂ after).of_eq_ok hlate, ?_, fun about habout => ?_⟩
  · cases agreed <;> simp [hnotEarly, hnotLate]
  · have hadds := ((Adds.of_blames hblames hnotEarly).trans habout).trans
      (.of_blames hblames' hnotLate)
    rwa [List.nil_append, List.append_nil] at hadds

/-- What is reported about a symbol among the final forms is reported in its turn. -/
theorem exists_turn_among_forms (hs : s.subst.Acyclic)
    (hkeys : ((before ++ (decl, symbol) :: after).map Prod.fst).Nodup)
    {symbols : List ResolvedSymbol}
    (h : s.settleSymbols failed (before ++ (decl, symbol) :: after) = .ok (symbols, u)) :
    ∃ t resolved t', resolved ∈ symbols ∧ s.subst.Grows t.subst ∧
      t.settleSymbol failed decl symbol = .ok (resolved, t') ∧
      ∀ about, Adds t decl about t' → Adds s decl about u := by
  obtain ⟨early, t, resolved, t', late, hearly, hturn, hlate, rfl⟩ :=
    exists_turn_of_settleSymbols h
  obtain ⟨opened, hcloses⟩ := exists_closes_of_settleSymbols hs hearly
  have ht := hcloses.grows.acyclic hs
  have hgrows := (delivers_settleSymbol ht failed decl symbol).of_eq_ok hturn
  obtain ⟨opened', hcloses'⟩ := exists_closes_of_settleSymbols (hgrows.acyclic ht) hlate
  obtain ⟨hbefore, hafter⟩ := notMem_of_nodup_keys hkeys
  refine ⟨t, resolved, t', by simp, hcloses.grows, hturn, fun about habout => ?_⟩
  have hadds := ((Adds.of_blames hcloses.blames
    fun hmem => hbefore (hcloses.sublist.subset hmem)).trans habout).trans
    (.of_blames hcloses'.blames fun hmem => hafter (hcloses'.sublist.subset hmem))
  rwa [List.nil_append, List.append_nil] at hadds

end Turn

theorem category_mem_of_unify_error (hs : s.subst.Acyclic) {a b : Ty} {error : TypeError}
    (h : s.unify a b = .ok (.error error, t)) :
    error.category ∈ [.typeMismatch, .arityMismatch, .infiniteType] := by
  obtain ⟨_, _, _, _, _, _, _, hstuck⟩ := exists_stuck_of_unify_error hs h
  exact hstuck.category

/-- The turn of a symbol whose type was written in full, among the written types. -/
theorem exists_unify_of_reconcile (hs : s.subst.Acyclic) {pool pool' : VarPool} {decl : DeclId}
    {symbol : Symbol} {written : Located Ascription} {annotated : Ty} {agreed : Bool}
    (hwritten : symbol.ascription = some written) (hreads : annotated.Reads written.value [])
    (h : s.reconcile pool decl symbol = .ok (agreed, t, pool')) :
    (∃ error failed labels, s.unify annotated symbol.ty = .ok (.error error, failed) ∧
      agreed = false ∧ Adds s decl [⟨error, .decl decl, some written.span, labels⟩] t) ∨
    (s.unify annotated symbol.ty = .ok (.ok (), t) ∧ agreed = true ∧ Adds s decl [] t) := by
  rw [reconcile, hwritten] at h
  obtain ⟨read, hread, h⟩ := exists_of_bind_eq_ok h
  rw [hreads.resolveAscription_eq] at hread
  cases hread
  obtain ⟨⟨outcome, w⟩, hunify, h⟩ := exists_of_bind_eq_ok h
  have hsame : w.reports = s.reports := by
    obtain ⟨_, _, rfl⟩ := frame_unify hunify
    rfl
  cases outcome with
  | error error =>
      cases h
      refine .inl ⟨error, w, if symbol.span.isSynthetic then [] else
        [⟨symbol.span, "declared here"⟩], hunify, rfl, .single ?_ rfl ?_⟩
      · rw [report, hsame]
      · intro htrait
        have hkinds := category_mem_of_unify_error hs hunify
        rw [Report.category] at htrait
        simp [htrait] at hkinds
  | ok =>
      cases h
      exact .inr ⟨hunify, rfl, .of_eq hsame⟩

theorem settleSymbol_of_mem {failed : List DeclId} {decl : DeclId} (h : decl ∈ failed)
    (symbol : Symbol) :
    s.settleSymbol failed decl symbol = .ok (symbol.resolved decl .error, s) := by
  rw [settleSymbol, if_pos (by simpa using h)]

/-- The turn of a symbol when final forms are given, unless something was wrong with its
written type. -/
theorem settleSymbol_cases (hs : s.subst.Acyclic) {failed : List DeclId} {decl : DeclId}
    {symbol : Symbol} {resolved : ResolvedSymbol} (hfailed : decl ∉ failed)
    (h : s.settleSymbol failed decl symbol = .ok (resolved, t)) :
    ((symbol.ty.instantiate s.subst.image).isClosed = true ∧
      resolved = symbol.resolved decl (s.subst.stored symbol.ty) ∧ Adds s decl [] t) ∨
    ((symbol.ty.instantiate s.subst.image).isClosed = false ∧
      resolved = symbol.resolved decl .error ∧
      Adds s decl [⟨.unresolved ("`" ++ symbol.name ++ "`")
        (symbol.ty.instantiate s.subst.image), .decl decl, some symbol.span, []⟩] t) := by
  rw [settleSymbol, if_neg (by simpa using hfailed)] at h
  obtain ⟨answer, hanswer, h⟩ := exists_of_bind_eq_ok h
  obtain ⟨ty, happly, hanswer⟩ := exists_of_bind_eq_ok hanswer
  rw [apply, hs.apply_eq_ok] at happly
  cases happly
  split at hanswer
  · rename_i hclosed
    cases hanswer
    cases h
    exact .inl ⟨hclosed, rfl, .of_eq rfl⟩
  · rename_i hopen
    cases hanswer
    obtain ⟨w, hpoison, h⟩ := exists_of_bind_eq_ok h
    cases h
    refine .inr ⟨Bool.eq_false_iff.mpr hopen, rfl, .single ?_ rfl Category.noConfusion⟩
    obtain ⟨_, rfl⟩ := frame_poison hpoison
    rfl

/-- What closing a scope says of a symbol whose type was written in full, by its reports
and its final form.  The written type was unified in the first session, and other written
types and poison may have come in between. -/
inductive Judged (s : Session) (annotated : Ty) (span : Span) (decl : DeclId) (symbol : Symbol) :
    List Report → ResolvedSymbol → Prop
  | refused {error : TypeError} {t : Session}
      (h : s.unify annotated symbol.ty = .ok (.error error, t)) (labels : List Label) :
      Judged s annotated span decl symbol [⟨error, .decl decl, some span, labels⟩]
        (symbol.resolved decl .error)
  | closed {t : Session} {later : Subst} (h : s.unify annotated symbol.ty = .ok (.ok (), t))
      (hgrows : t.subst.Grows later)
      (hclosed : (symbol.ty.instantiate later.image).isClosed = true) :
      Judged s annotated span decl symbol [] (symbol.resolved decl (later.stored symbol.ty))
  | opened {t : Session} {later : Subst} (h : s.unify annotated symbol.ty = .ok (.ok (), t))
      (hgrows : t.subst.Grows later)
      (hopen : (symbol.ty.instantiate later.image).isClosed = false) :
      Judged s annotated span decl symbol
        [⟨.unresolved ("`" ++ symbol.name ++ "`") (symbol.ty.instantiate later.image), .decl decl,
          some symbol.span, []⟩]
        (symbol.resolved decl .error)

/-- Closing a scope returns unless the pool has no block for a hole, and it judges each
symbol whose type was written in full. -/
theorem exists_judged (hreach : s.Reachable) (pool : VarPool) {scope : Scope} (outer : List Scope)
    {before after : List (DeclId × Symbol)} {decl : DeclId} {symbol : Symbol}
    (hentries : scope.symbols.entries = before ++ (decl, symbol) :: after)
    {written : Located Ascription} {annotated : Ty}
    (hwritten : symbol.ascription = some written) (hreads : annotated.Reads written.value []) :
    (s.closeScope pool ⟨scope :: outer⟩ = .error .idsExhausted ∧
      maxVarId < pool.next + scope.holes * blockSize) ∨
    ∃ symbols s' pool' early t pool₁ about resolved,
      s.closeScope pool ⟨scope :: outer⟩ = .ok (symbols, ⟨outer⟩, s', pool') ∧
      s.reconcileAll pool before = .ok (early, t, pool₁) ∧
      Adds s decl about s' ∧ resolved ∈ symbols ∧
      t.Judged annotated written.span decl symbol about resolved := by
  have hs := hreach.wellFormed
  have hkeys : (scope.symbols.entries.map Prod.fst).Nodup := scope.symbols.nodup_keys
  rcases exists_closeScope hreach pool scope outer with
    hshort | ⟨failed, v, symbols, _, pool', hreconcile, hscope, hclose⟩
  · exact .inl hshort
  obtain ⟨_, refusals, u, w, hsettle, hsubst, hu, _, hreports, hrefusals, hforms⟩ :=
    exists_settleScope hs hreach.waits hreconcile
  cases hsettle.symm.trans hscope
  rw [hentries] at hkeys hreconcile hforms
  obtain ⟨early, t, pool₁, agreed, t', pool₂, hearly, hturn, ht, hgrows, hfailed, hwrittenAdds⟩ :=
    exists_turn_among_written hs.acyclic hkeys hreconcile
  obtain ⟨x, resolved, x', hmem, hgrows', hturn', hformAdds⟩ :=
    exists_turn_among_forms hu hkeys hforms
  have hadds {about about' : List Report} (h : Adds t decl about t') (h' : Adds x decl about' x') :
      Adds s decl (about ++ about') { w with resolved := w.resolved ++ symbols } := by
    have htraits : Adds v decl [] u := .of_traits hreports hrefusals
    have hall := ((hwrittenAdds about h).trans htraits).trans (hformAdds about' h')
    rwa [List.append_nil] at hall
  have hlater : t'.subst.Grows x.subst := hgrows.trans (hsubst ▸ hgrows')
  have hx := hgrows'.acyclic hu
  refine .inr ⟨symbols, { w with resolved := w.resolved ++ symbols }, pool', early, t, pool₁, ?_⟩
  rcases exists_unify_of_reconcile ht hwritten hreads hturn with
    ⟨error, _, labels, hunify, rfl, habout⟩ | ⟨hunify, rfl, habout⟩
  · cases (settleSymbol_of_mem (hfailed.mpr rfl) symbol).symm.trans hturn'
    exact ⟨_, _, hclose, hearly, hadds habout (.of_eq rfl), hmem, .refused hunify labels⟩
  · have hpassed : decl ∉ failed := fun hin => by cases hfailed.mp hin
    rcases settleSymbol_cases hx hpassed hturn' with
      ⟨hclosed, rfl, habout'⟩ | ⟨hopen, rfl, habout'⟩
    · exact ⟨_, _, hclose, hearly, hadds habout habout', hmem, .closed hunify hlater hclosed⟩
    · exact ⟨_, _, hclose, hearly, hadds habout habout', hmem, .opened hunify hlater hopen⟩

theorem agree_of_unify (hs : s.subst.Acyclic) {written : Ascription} {annotated ty : Ty}
    (hreads : annotated.Reads written []) (h : s.unify annotated ty = .ok (.ok (), t))
    {later : Subst} (hgrows : t.subst.Grows later) : annotated.Agree (later.stored ty) := by
  have ht := ((delivers_unify hs annotated ty).of_eq_ok h).acyclic hs
  have hagreed := (agreed_of_unify_ok hs h).grows ht hgrows
  rwa [Subst.Agreed, hreads.stored_eq] at hagreed

/-- A type that is open in the end was open where `any` is written. -/
theorem exists_any_of_open (hs : s.subst.Acyclic) {written : Ascription} {annotated ty : Ty}
    (hreads : annotated.Reads written []) (h : s.unify annotated ty = .ok (.ok (), t))
    {later : Subst} (hgrows : t.subst.Grows later)
    (hopen : (ty.instantiate later.image).isClosed = false) :
    ∃ above below v, annotated.part? above = some .any ∧
      (s.subst.stored ty).part? (above ++ below) = some (.var v) := by
  have ht := ((delivers_unify hs annotated ty).of_eq_ok h).acyclic hs
  have hbefore : (ty.instantiate t.subst.image).isClosed ≠ true := by
    intro hclosed
    rw [hgrows.instantiate_image_of_isClosed ht hclosed, hclosed] at hopen
    cases hopen
  rw [Ne, Ty.isClosed_iff, not_forall] at hbefore
  obtain ⟨v, hv⟩ := hbefore
  rw [Bool.not_eq_false, ← Ty.occurs_erase] at hv
  obtain ⟨above, below, hany, hvar⟩ := exists_any_of_unify hs hreads h hv
  exact ⟨above, below, v, hany, hvar⟩

/-- Closing a scope returns unless the pool has no block for a hole of a written type.
If the type of a symbol was written without holes and without `any`, it is not reported
as open.  Either the written type could not be unified with the inferred one, when its
turn came, and this is reported once, at the written type, and the symbol is poisoned;
or the final type agrees with the written one, and is that type if it is concrete. -/
theorem closeScope_written_type_determines (hreach : s.Reachable) (pool : VarPool)
    {scope : Scope} (outer : List Scope) {decl : DeclId} {symbol : Symbol}
    (hentry : (decl, symbol) ∈ scope.symbols.entries) {written : Located Ascription}
    (hwritten : symbol.ascription = some written) (hholes : written.value.holes = 0)
    (hany : "any" ∉ written.value.names) {annotated : Ty} {drawn : Session} {left : VarPool}
    (hread : s.resolveAscription pool written.value = .ok (.ok annotated, drawn, left)) :
    (s.closeScope pool ⟨scope :: outer⟩ = .error .idsExhausted ∧
      maxVarId < pool.next + scope.holes * blockSize) ∨
    ∃ symbols s' pool' reports resolved before after early t pool₁ outcome t',
      s.closeScope pool ⟨scope :: outer⟩ = .ok (symbols, ⟨outer⟩, s', pool') ∧
      s'.reports = s.reports ++ reports ∧
      (∀ report ∈ reports, report.origin = .decl decl → report.category ≠ .unresolvedType) ∧
      resolved ∈ symbols ∧ resolved.decl = decl ∧
      scope.symbols.entries = before ++ (decl, symbol) :: after ∧
      s.reconcileAll pool before = .ok (early, t, pool₁) ∧
      t.unify annotated symbol.ty = .ok (outcome, t') ∧
      ((∃ error labels, outcome = .error error ∧
          aboutSymbol decl reports = [⟨error, .decl decl, some written.span, labels⟩] ∧
          resolved.ty = .error ∧ resolved.verdict = .poisoned) ∨
        (outcome = .ok () ∧ aboutSymbol decl reports = [] ∧ annotated.Agree resolved.ty ∧
          (resolved.verdict = .concrete → resolved.ty = annotated))) := by
  have hs := hreach.wellFormed.acyclic
  have hreads := reads_of_resolveAscription hholes hread
  have hfree := hreads.wildcardFree hany
  obtain ⟨before, after, hentries⟩ := List.append_of_mem hentry
  rcases exists_judged hreach pool outer hentries hwritten hreads with
    hshort | ⟨symbols, s', pool', early, t, pool₁, about, resolved, hclose, hearly,
      ⟨reports, hreports, habout⟩, hresolved, hjudged⟩
  · exact .inl hshort
  have ht : t.subst.Acyclic := ((delivers_reconcileAll hs pool before).of_eq_ok hearly).acyclic hs
  have hnone (h : ∀ report ∈ about, report.category ≠ .unresolvedType) :
      ∀ report ∈ reports, report.origin = .decl decl → report.category ≠ .unresolvedType := by
    intro report hreport horigin hcategory
    refine h report ?_ hcategory
    rw [← habout]
    exact List.mem_filter.mpr ⟨hreport, by simp [horigin, hcategory]⟩
  refine .inr ⟨symbols, s', pool', reports, resolved, before, after, early, t, pool₁, ?_⟩
  cases hjudged with
  | @refused error t' hunify labels =>
      refine ⟨_, t', hclose, hreports, hnone ?_, hresolved, rfl, hentries, hearly, hunify,
        .inl ⟨error, labels, rfl, habout, rfl, rfl⟩⟩
      exact List.forall_mem_singleton.mpr (category_of_unify_error ht hunify)
  | @closed t' later hunify hgrows hclosed =>
      have hagree := agree_of_unify ht hreads hunify hgrows
      refine ⟨_, t', hclose, hreports, hnone (by simp), hresolved, rfl, hentries, hearly, hunify,
        .inr ⟨rfl, habout, hagree, fun hverdict => ?_⟩⟩
      have hconcrete := Ty.verdict_eq_concrete_iff.mp hverdict
      exact (hagree.eq hfree ⟨hconcrete.2, hconcrete.1⟩).symm
  | opened hunify hgrows hopen =>
      obtain ⟨above, _, _, habove, _⟩ := exists_any_of_open ht hreads hunify hgrows hopen
      have hmentions := Ty.mentions_of_part? .any habove rfl
      rw [hfree.1] at hmentions
      cases hmentions

/-- The inferred type is `($0) -> $1`, and a second symbol, whose type is `$0` alone, was
written as `str`: only the second is reported, and the first is `(num) -> bool`. -/
theorem closeScope_written_type_determines_shared : ∃ (first second : Symbol) (s s' : Session)
    (symbols : List ResolvedSymbol) (pool pool' : VarPool) (resolved : ResolvedSymbol),
    s.Reachable ∧ first.ty = .func [.var 0] (.var 1) ∧ second.ty = .var 0 ∧
    s.closeScope pool ⟨[(Scope.empty.publish 0 first).publish 1 second]⟩ =
      .ok (symbols, ⟨[]⟩, s', pool') ∧
    s'.reports.map Report.origin = [.decl 1] ∧ resolved ∈ symbols ∧ resolved.decl = 0 ∧
    resolved.verdict = .concrete ∧ resolved.ty = .func [.num] .bool := by
  have hrun : ∃ (first second : Symbol) (s s' : Session) (symbols : List ResolvedSymbol)
      (pool pool' : VarPool) (written : Located Ascription), s.Reachable ∧
      first.ascription = some written ∧ written.value.holes = 0 ∧
      "any" ∉ written.value.names ∧
      s.resolveAscription pool written.value = .ok (.ok (.func [.num] .bool), s, pool) ∧
      first.ty = .func [.var 0] (.var 1) ∧ second.ty = .var 0 ∧
      s.closeScope pool ⟨[(Scope.empty.publish 0 first).publish 1 second]⟩ =
        .ok (symbols, ⟨[]⟩, s', pool') ∧
      s'.reports.map Report.origin = [.decl 1] ∧
      symbols.map (fun resolved => (resolved.decl, resolved.verdict)) =
        [(0, .concrete), (1, .poisoned)] :=
    ⟨⟨some 0, "f", .synthetic, .ofTy (.func [.var 0] (.var 1)),
        some ⟨.func [.named "num"] (.named "bool"), .synthetic⟩⟩,
      ⟨some 1, "x", .synthetic, .ofTy (.var 0), some ⟨.named "str", .synthetic⟩⟩,
      _, _, _, ⟨0⟩, _, _,
      reachable_of_run Registry.builtin { varOffset := some 0 } ⟨0⟩ [.freshVars 2] rfl rfl,
      rfl, rfl, by decide, rfl, rfl, rfl, rfl, rfl, rfl⟩
  obtain ⟨first, second, s, s', symbols, pool, pool', written, hreach, hwritten, hholes, hany,
    hread, hty, hty', hclose, horigins, hverdicts⟩ := hrun
  have hentry : (0, first) ∈ ((Scope.empty.publish 0 first).publish 1 second).symbols.entries :=
    List.mem_cons_self
  rcases closeScope_written_type_determines hreach pool [] hentry hwritten hholes hany hread with
    ⟨herror, _⟩ | ⟨_, _, _, _, resolved, _, _, _, _, _, _, _, hclose', _, _, hresolved, hdecl, _, _,
      _, hsettled⟩
  · rw [hclose] at herror
    cases herror
  rw [hclose] at hclose'
  cases hclose'
  have hverdict : resolved.verdict = .concrete := by
    have hmem := List.mem_map_of_mem hresolved (f := fun r => (r.decl, r.verdict))
    rw [hverdicts, hdecl] at hmem
    simpa using hmem
  refine ⟨first, second, s, s', symbols, pool, pool', resolved, hreach, hty, hty', hclose,
    horigins, hresolved, hdecl, hverdict, ?_⟩
  rcases hsettled with ⟨_, _, _, _, _, hpoisoned⟩ | ⟨_, _, _, hconcrete⟩
  · rw [hverdict] at hpoisoned
    cases hpoisoned
  · exact hconcrete hverdict

/-- Where the written type has been unified with the inferred one, the symbol may still
be reported as open.  Then the inferred type had a variable at or below a place where
`any` is written.  In all other cases the symbol is not reported, and its final type
agrees with the written one. -/
theorem closeScope_open_only_where_any (hreach : s.Reachable) (pool : VarPool) {scope : Scope}
    (outer : List Scope) {before after : List (DeclId × Symbol)} {decl : DeclId} {symbol : Symbol}
    (hentries : scope.symbols.entries = before ++ (decl, symbol) :: after)
    {written : Located Ascription} (hwritten : symbol.ascription = some written)
    (hholes : written.value.holes = 0) {annotated : Ty} {drawn : Session} {left : VarPool}
    (hread : s.resolveAscription pool written.value = .ok (.ok annotated, drawn, left))
    {early : List DeclId} {pool₁ : VarPool} {t t' : Session}
    (hearly : s.reconcileAll pool before = .ok (early, t, pool₁))
    (hunify : t.unify annotated symbol.ty = .ok (.ok (), t')) :
    (s.closeScope pool ⟨scope :: outer⟩ = .error .idsExhausted ∧
      maxVarId < pool.next + scope.holes * blockSize) ∨
    ∃ symbols s' pool' reports resolved,
      s.closeScope pool ⟨scope :: outer⟩ = .ok (symbols, ⟨outer⟩, s', pool') ∧
      s'.reports = s.reports ++ reports ∧ resolved ∈ symbols ∧ resolved.decl = decl ∧
      ((aboutSymbol decl reports = [] ∧ annotated.Agree resolved.ty) ∨
        ∃ ty above below v,
          aboutSymbol decl reports =
            [⟨.unresolved ("`" ++ symbol.name ++ "`") ty, .decl decl, some symbol.span, []⟩] ∧
          resolved.ty = .error ∧ annotated.part? above = some .any ∧
          (t.subst.stored symbol.ty).part? (above ++ below) = some (.var v)) := by
  have hs := hreach.wellFormed.acyclic
  have hreads := reads_of_resolveAscription hholes hread
  rcases exists_judged hreach pool outer hentries hwritten hreads with
    hshort | ⟨symbols, s', pool', _, _, _, about, resolved, hclose, hearly',
      ⟨reports, hreports, habout⟩, hresolved, hjudged⟩
  · exact .inl hshort
  cases hearly.symm.trans hearly'
  have ht : t.subst.Acyclic := ((delivers_reconcileAll hs pool before).of_eq_ok hearly).acyclic hs
  refine .inr ⟨symbols, s', pool', reports, resolved, hclose, hreports, hresolved, ?_⟩
  cases hjudged with
  | refused hrefused => cases hunify.symm.trans hrefused
  | closed hunify hgrows hclosed =>
      exact ⟨rfl, .inl ⟨habout, agree_of_unify ht hreads hunify hgrows⟩⟩
  | opened hunify hgrows hopen =>
      obtain ⟨above, below, v, hany, hvar⟩ := exists_any_of_open ht hreads hunify hgrows hopen
      exact ⟨rfl, .inr ⟨_, above, below, v, habout, rfl, hany, hvar⟩⟩

/-- The written type is `(any) -> num` and the inferred one `($0) -> $1`.  The result is
settled, the parameter is not. -/
theorem closeScope_open_only_where_any_parameter : ∃ (symbol : Symbol) (s s' : Session)
    (symbols : List ResolvedSymbol) (pool pool' : VarPool) (above below : List Slot) (v : VarId),
    s.Reachable ∧ symbol.ty = .func [.var 0] (.var 1) ∧
    s.closeScope pool ⟨[Scope.empty.publish 0 symbol]⟩ = .ok (symbols, ⟨[]⟩, s', pool') ∧
    s'.subst.lookup 1 = some .num ∧ s'.reports.map Report.category = [.unresolvedType] ∧
    (Ty.func [.any] .num).part? above = some .any ∧
    (s.subst.stored symbol.ty).part? (above ++ below) = some (.var v) := by
  have hrun : ∃ (symbol : Symbol) (s s' t : Session) (symbols : List ResolvedSymbol)
      (pool pool' : VarPool) (written : Located Ascription), s.Reachable ∧
      symbol.ascription = some written ∧ written.value.holes = 0 ∧
      s.resolveAscription pool written.value = .ok (.ok (.func [.any] .num), s, pool) ∧
      s.unify (.func [.any] .num) symbol.ty = .ok (.ok (), t) ∧
      symbol.ty = .func [.var 0] (.var 1) ∧
      s.closeScope pool ⟨[Scope.empty.publish 0 symbol]⟩ = .ok (symbols, ⟨[]⟩, s', pool') ∧
      s'.subst.lookup 1 = some .num ∧ s'.reports.map Report.category = [.unresolvedType] ∧
      s.reports = [] ∧ (aboutSymbol 0 s'.reports).length = 1 :=
    ⟨⟨some 0, "f", .synthetic, .ofTy (.func [.var 0] (.var 1)),
        some ⟨.func [.named "any"] (.named "num"), .synthetic⟩⟩,
      _, _, _, _, ⟨0⟩, _, _,
      reachable_of_run Registry.builtin { varOffset := some 0 } ⟨0⟩ [.freshVars 2] rfl rfl,
      rfl, rfl, rfl, rfl, rfl, rfl, rfl, rfl, rfl, rfl⟩
  obtain ⟨symbol, s, s', t, symbols, pool, pool', written, hreach, hwritten, hholes, hread, hunify,
    hty, hclose, hbound, hcategories, hnone, hcount⟩ := hrun
  have hentries : (Scope.empty.publish 0 symbol).symbols.entries = [] ++ (0, symbol) :: [] := rfl
  rcases closeScope_open_only_where_any hreach pool [] hentries hwritten hholes hread rfl hunify
    with ⟨herror, _⟩ | ⟨_, _, _, reports, _, hclose', hreports, _, _,
      ⟨habout, _⟩ | ⟨_, above, below, v, _, _, hany, hvar⟩⟩
  · rw [hclose] at herror
    cases herror
  · rw [hclose] at hclose'
    cases hclose'
    rw [hreports, hnone, List.nil_append, habout] at hcount
    cases hcount
  · exact ⟨symbol, s, s', symbols, pool, pool', above, below, v, hreach, hty, hclose, hbound,
      hcategories, hany, hvar⟩

/-- A symbol that was written as `any` is reported as open and poisoned, although the
written type was unified with the inferred one.  If the same variable is written as
`(any) -> num`, it stands for that, and nothing is reported. -/
theorem written_any_reported_open : ∃ (symbol symbol' : Symbol) (s s₁ s₂ : Session)
    (resolved resolved' : ResolvedSymbol) (pool : VarPool), s.Reachable ∧ s.reports = [] ∧
    symbol.ty = .var 0 ∧ symbol.ascription = some ⟨.named "any", .synthetic⟩ ∧
    symbol'.ty = .var 0 ∧
    symbol'.ascription = some ⟨.func [.named "any"] (.named "num"), .synthetic⟩ ∧
    (∃ t, s.unify .any symbol.ty = .ok (.ok (), t)) ∧
    s.closeScope pool ⟨[Scope.empty.publish 0 symbol]⟩ = .ok ([resolved], ⟨[]⟩, s₁, pool) ∧
    s₁.reports.map (fun report => (report.origin, report.category)) =
      [(.decl 0, .unresolvedType)] ∧
    resolved.ty = .error ∧
    s.closeScope pool ⟨[Scope.empty.publish 0 symbol']⟩ = .ok ([resolved'], ⟨[]⟩, s₂, pool) ∧
    s₂.reports = [] ∧ resolved'.ty = .func [.any] .num ∧ resolved'.verdict = .escaped :=
  ⟨⟨some 0, "x", .synthetic, .ofTy (.var 0), some ⟨.named "any", .synthetic⟩⟩,
    ⟨some 0, "x", .synthetic, .ofTy (.var 0),
      some ⟨.func [.named "any"] (.named "num"), .synthetic⟩⟩,
    _, _, _, _, _, ⟨0⟩,
    reachable_of_run Registry.builtin { varOffset := some 0 } ⟨0⟩ [.freshVars 1] rfl rfl,
    rfl, rfl, rfl, rfl, rfl, ⟨_, rfl⟩, rfl, rfl, rfl, rfl, rfl, rfl, rfl⟩

end Session

end TypeInference
