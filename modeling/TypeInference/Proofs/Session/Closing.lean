/-
# Closing a scope is final

Every symbol of a scope that is closed gets one final form, in the order of the
declarations, hidden ones included.  A type in a final form has no variables and
no literal wrappers, and as long as the form is not poisoned it is what the type
of the symbol stands for from then on: a closed type is not reached by any later
binding.  The forms are filed with the session and handed on at its end.

A symbol is reported once at most, because its written type did not agree or
because its type is open.  Reports about traits are not counted: they belong to
operands, not to symbols.

Closing a scope needs new variables for the holes of written types and nothing
else can go wrong.  `Draws` keeps the account of the blocks that these take from
the pool.
-/

import Mathlib.Data.List.Forall2
import TypeInference.Proofs.Session.Drawing
import TypeInference.Proofs.Session.OpenType
import TypeInference.Proofs.Session.Refusal
import TypeInference.Proofs.Session.SharedPool

namespace TypeInference

section Verdict

variable {ty : Ty}

theorem Ty.verdict_eq_poisoned_iff : ty.verdict = .poisoned ↔ ty.mentions .error = true := by
  rw [verdict]
  cases ty.mentions .error <;> cases ty.mentions .any <;> simp

theorem Ty.verdict_eq_escaped_iff :
    ty.verdict = .escaped ↔ ty.mentions .error = false ∧ ty.mentions .any = true := by
  rw [verdict]
  cases ty.mentions .error <;> cases ty.mentions .any <;> simp

theorem Ty.verdict_eq_concrete_iff :
    ty.verdict = .concrete ↔ ty.mentions .error = false ∧ ty.mentions .any = false := by
  rw [verdict]
  cases ty.mentions .error <;> cases ty.mentions .any <;> simp

theorem Symbol.value_resolved (symbol : Symbol) (decl : DeclId) (ty : Ty) :
    (symbol.resolved decl ty).value =
      if ty.verdict = .poisoned then none else symbol.inferred.value := by
  rw [resolved]
  cases ty.verdict <;> rfl

end Verdict

namespace Ascription

mutual

/-- How many positions a written type leaves to inference. -/
def holes : Ascription → Nat
  | .named _ => 0
  | .func params result => holesAll params + result.holes
  | .hole => 1

/-- How many positions several written types leave to inference. -/
def holesAll : List Ascription → Nat
  | [] => 0
  | first :: rest => first.holes + holesAll rest

end

end Ascription

/-- The holes of the type that was written for a symbol. -/
def Symbol.holes (symbol : Symbol) : Nat :=
  match symbol.ascription with
  | none => 0
  | some written => written.value.holes

/-- The holes of all types that were written in a scope. -/
def Scope.holes (scope : Scope) : Nat :=
  (scope.symbols.entries.map fun entry => entry.2.holes).sum

/-- A computation that draws at most `count` variables.  It returns, with a block
taken from the pool for each of them at most, or the pool has not so many blocks. -/
inductive Draws {α : Type} (poolOf : α → VarPool) (count : Nat) (pool : VarPool) :
    Except Fault α → Prop
  | ok {a : α} (h : (poolOf a).next ≤ pool.next + count * blockSize) :
      Draws poolOf count pool (.ok a)
  | error (h : maxVarId < pool.next + count * blockSize) :
      Draws poolOf count pool (.error .idsExhausted)

section Draws

variable {α β : Type} {poolOf : α → VarPool} {poolOf' : β → VarPool} {m n : Nat} {pool : VarPool}
variable {value : Except Fault α} {next : α → Except Fault β}

theorem Draws.bind (h : Draws poolOf m pool value)
    (hnext : ∀ a, value = .ok a → Draws poolOf' n (poolOf a) (next a)) :
    Draws poolOf' (m + n) pool (value >>= next) := by
  cases h with
  | @ok a h =>
      have hlater := hnext a rfl
      show Draws poolOf' (m + n) pool (next a)
      generalize next a = result at hlater
      cases hlater with
      | ok hlater => exact .ok (by rw [Nat.add_mul]; omega)
      | error hlater => exact .error (by rw [Nat.add_mul]; omega)
  | error h => exact .error (by rw [Nat.add_mul]; omega)

/-- A computation that goes on without drawing. -/
theorem Draws.map (h : Draws poolOf m pool value)
    (hnext : ∀ a, value = .ok a → ∃ b, next a = .ok b ∧ poolOf' b = poolOf a) :
    Draws poolOf' m pool (value >>= next) := by
  rw [← Nat.add_zero m]
  refine h.bind fun a ha => ?_
  obtain ⟨b, hb, hpool⟩ := hnext a ha
  rw [hb]
  exact .ok (by rw [hpool]; omega)

theorem VarSupply.draws_draw (supply : VarSupply) (pool : VarPool) :
    Draws (fun result => result.2.2) 1 pool (supply.draw pool) := by
  cases h : supply.draw pool with
  | ok result =>
      obtain ⟨v, supply', pool'⟩ := result
      obtain ⟨_, _, _, rfl⟩ | ⟨_, _, _, _, rfl⟩ := VarSupply.draw_cases h
      · exact .ok (Nat.le_add_right _ _)
      · exact .ok (by rw [Nat.one_mul])
  | error fault =>
      obtain ⟨rfl, _, hshort⟩ := VarSupply.draw_eq_error h
      exact .error (by rwa [Nat.one_mul])

namespace Ascription

mutual

theorem draws_toTy : (written : Ascription) → (supply : VarSupply) → (pool : VarPool) →
    Draws (fun result => result.2.2) written.holes pool (written.toTy supply pool)
  | .named _, _, _ => by
      rw [toTy]
      exact .ok (Nat.le_add_right _ _)
  | .hole, supply, pool => by
      rw [toTy, holes]
      exact (supply.draws_draw pool).map fun _ _ => ⟨_, rfl, rfl⟩
  | .func params result, supply, pool => by
      rw [toTy, holes]
      apply (draws_toTys params supply pool).bind
      rintro ⟨params' | params', supply, pool⟩ _
      · exact .ok (Nat.le_add_right _ _)
      · exact (draws_toTy result supply pool).map fun _ _ => ⟨_, rfl, rfl⟩

theorem draws_toTys : (list : List Ascription) → (supply : VarSupply) → (pool : VarPool) →
    Draws (fun result => result.2.2) (holesAll list) pool (toTys supply pool list)
  | [], _, _ => by
      rw [toTys]
      exact .ok (Nat.le_add_right _ _)
  | first :: rest, supply, pool => by
      rw [toTys, holesAll]
      apply (draws_toTy first supply pool).bind
      rintro ⟨first' | first', supply, pool⟩ _
      · exact .ok (Nat.le_add_right _ _)
      · exact (draws_toTys rest supply pool).map fun _ _ => ⟨_, rfl, rfl⟩

end

end Ascription

end Draws

namespace Session

open Relation

variable {s t u : Session}

theorem draws_reconcile (hs : s.subst.Acyclic) (pool : VarPool) (decl : DeclId)
    (symbol : Symbol) :
    Draws (fun result => result.2.2) symbol.holes pool (s.reconcile pool decl symbol) := by
  rw [reconcile, Symbol.holes]
  cases symbol.ascription with
  | none => exact .ok (Nat.le_add_right _ _)
  | some written =>
      have hwritten : Draws (fun result => result.2.2) written.value.holes pool
          (s.resolveAscription pool written.value) :=
        (written.value.draws_toTy s.supply pool).map fun _ _ => ⟨_, rfl, rfl⟩
      refine hwritten.map fun result hresult => ?_
      obtain ⟨annotated, t, drawn⟩ := result
      have hsame : t.subst = s.subst :=
        (s.delivers_resolveAscription pool written.value).of_eq_ok hresult
      cases annotated with
      | error error => exact ⟨_, rfl, rfl⟩
      | ok annotated =>
          obtain ⟨outcome, subst, trace, hunify, _⟩ :=
            exists_unify (hsame.symm ▸ hs) annotated symbol.ty
          dsimp only
          rw [hunify]
          cases outcome with
          | ok => exact ⟨_, rfl, rfl⟩
          | error error => exact ⟨_, rfl, rfl⟩

theorem draws_reconcileAll (hs : s.subst.Acyclic) (pool : VarPool)
    (entries : List (DeclId × Symbol)) :
    Draws (fun result => result.2.2) (entries.map fun entry => entry.2.holes).sum pool
      (s.reconcileAll pool entries) := by
  induction entries generalizing s pool with
  | nil => exact .ok (Nat.le_add_right _ _)
  | cons entry rest ih =>
      rw [reconcileAll, List.map_cons, List.sum_cons]
      refine (draws_reconcile hs pool entry.1 entry.2).bind fun result hresult => ?_
      have hgrows := (delivers_reconcile hs pool entry.1 entry.2).of_eq_ok hresult
      exact (ih (hgrows.acyclic hs) result.2.2).map fun _ _ => ⟨_, rfl, rfl⟩

/-- The second session has one more report for each of the given declarations, none
of them about a trait, and has filed no symbols. -/
structure Blames (s : Session) (decls : List DeclId) (t : Session) : Prop where
  resolved : t.resolved = s.resolved
  reports : ∃ reports, t.reports = s.reports ++ reports ∧
    reports.map Report.origin = decls.map .decl ∧
    ∀ report ∈ reports, report.category ≠ .traitBound

namespace Blames

variable {decls more : List DeclId}

theorem none (hresolved : t.resolved = s.resolved) (hreports : t.reports = s.reports) :
    Blames s [] t :=
  ⟨hresolved, [], by rw [hreports, List.append_nil], rfl, fun _ h => absurd h List.not_mem_nil⟩

theorem trans (h : Blames s decls t) (h' : Blames t more u) : Blames s (decls ++ more) u := by
  obtain ⟨early, hearly, horigin, hcategory⟩ := h.reports
  obtain ⟨late, hlate, horigin', hcategory'⟩ := h'.reports
  refine ⟨h'.resolved.trans h.resolved, early ++ late, ?_, ?_, ?_⟩
  · rw [hlate, hearly, List.append_assoc]
  · rw [List.map_append, List.map_append, horigin, horigin']
  · exact List.forall_mem_append.mpr ⟨hcategory, hcategory'⟩

theorem report (h : Blames s [] t) {report : Report} {decl : DeclId}
    (horigin : report.origin = .decl decl) (hcategory : report.category ≠ .traitBound) :
    Blames s [decl] (t.report report) :=
  h.trans ⟨rfl, [report], rfl, by rw [List.map_singleton, horigin]; rfl,
    List.forall_mem_singleton.mpr hcategory⟩

end Blames

theorem blames_reconcile (hs : s.subst.Acyclic) {pool pool' : VarPool} {decl : DeclId}
    {symbol : Symbol} {agreed : Bool}
    (h : s.reconcile pool decl symbol = .ok (agreed, t, pool')) :
    Blames s (if agreed then [] else [decl]) t := by
  rw [reconcile] at h
  split at h
  · cases h
    exact .none rfl rfl
  · obtain ⟨⟨annotated, u, _⟩, hwritten, h⟩ := exists_of_bind_eq_ok h
    obtain ⟨⟨_, supply, _⟩, hty, hwritten⟩ := exists_of_bind_eq_ok hwritten
    cases hwritten
    cases annotated with
    | error error =>
        cases h
        have hquiet : Blames s [] { s with supply } := .none rfl rfl
        have hcategory : error.category ≠ .traitBound := by
          rw [category_of_toTy_error _ hty]
          exact Category.noConfusion
        exact hquiet.report rfl hcategory
    | ok annotated =>
        obtain ⟨⟨outcome, w⟩, hunify, h⟩ := exists_of_bind_eq_ok h
        have hquiet : Blames s [] w := by
          obtain ⟨_, _, rfl⟩ := frame_unify hunify
          exact .none rfl rfl
        cases outcome with
        | ok =>
            cases h
            exact hquiet
        | error error =>
            cases h
            obtain ⟨_, _, _, _, _, _, _, hstuck⟩ :=
              exists_stuck_of_unify_error (s := { s with supply }) hs hunify
            have hcategory : error.category ≠ .traitBound := by
              intro htrait
              have hkinds := hstuck.category
              rw [htrait] at hkinds
              simp at hkinds
            exact hquiet.report rfl hcategory

theorem blames_reconcileAll (hs : s.subst.Acyclic) {pool pool' : VarPool}
    {entries : List (DeclId × Symbol)} {failed : List DeclId}
    (h : s.reconcileAll pool entries = .ok (failed, t, pool')) :
    Blames s failed t ∧ failed.Sublist (entries.map Prod.fst) := by
  induction entries generalizing s pool failed with
  | nil =>
      cases h
      exact ⟨.none rfl rfl, .slnil⟩
  | cons entry rest ih =>
      rw [reconcileAll] at h
      obtain ⟨⟨agreed, u, _⟩, hfirst, h⟩ := exists_of_bind_eq_ok h
      obtain ⟨⟨others, w, _⟩, hothers, h⟩ := exists_of_bind_eq_ok h
      cases h
      have hu : u.subst.Acyclic :=
        ((delivers_reconcile hs pool entry.1 entry.2).of_eq_ok hfirst).acyclic hs
      obtain ⟨hlater, hsublist⟩ := ih hu hothers
      have hblames := (blames_reconcile hs hfirst).trans hlater
      cases agreed with
      | true => exact ⟨hblames, hsublist.cons _⟩
      | false => exact ⟨hblames, hsublist.cons_cons _⟩

theorem TakenUp.category_eq {registry : Registry} {subst : Subst} {list kept : List Obligation}
    {refusals : List Report} (h : TakenUp registry subst list kept refusals) :
    ∀ report ∈ refusals, report.category = .traitBound := by
  induction h with
  | nil => exact fun _ hreport => absurd hreport List.not_mem_nil
  | met _ _ ih | waiting _ _ ih => exact ih
  | refused _ _ ih => exact List.forall_mem_cons.mpr ⟨rfl, ih⟩

/-- Taking up obligations reports traits and nothing else. -/
theorem exists_dischargeTraits (hs : s.subst.WellFormed) (hwaits : s.Waits) :
    ∃ t refusals, s.dischargeTraits = .ok t ∧ t.subst = s.subst ∧ t.resolved = s.resolved ∧
      t.reports = s.reports ++ refusals ∧ ∀ report ∈ refusals, report.category = .traitBound := by
  obtain ⟨kept, refusals, htaken, hdischarge⟩ := dischargeTraits_eq hs hwaits
  exact ⟨_, refusals, hdischarge, rfl, rfl, rfl, htaken.category_eq⟩

/-- How a symbol comes by its final form, under the bindings of the moment: something
was wrong with it, or its type is closed. -/
inductive Concludes (s : Subst) (entry : DeclId × Symbol) : ResolvedSymbol → Prop
  | error : Concludes s entry (entry.2.resolved entry.1 .error)
  | closed (h : (entry.2.ty.instantiate s.image).isClosed = true) :
      Concludes s entry (entry.2.resolved entry.1 (s.stored entry.2.ty))

theorem Concludes.grows {s t : Subst} {entry : DeclId × Symbol} {resolved : ResolvedSymbol}
    (h : Concludes s entry resolved) (hs : s.Acyclic) (hgrows : s.Grows t) :
    Concludes t entry resolved := by
  cases h with
  | error => exact .error
  | closed h =>
      -- Settling the other symbols may have poisoned variables, but none of this type.
      have hsame := hgrows.instantiate_image_of_isClosed hs h
      rw [Subst.stored, ← hsame]
      exact .closed (hsame ▸ h)

/-- A declaration has an entry whose type is `error`. -/
def HasError (symbols : List ResolvedSymbol) (decl : DeclId) : Prop :=
  ∃ resolved ∈ symbols, resolved.decl = decl ∧ resolved.ty = .error

theorem hasError_singleton (entry : DeclId × Symbol) :
    HasError [entry.2.resolved entry.1 .error] entry.1 :=
  ⟨_, List.mem_singleton_self _, rfl, rfl⟩

theorem HasError.mono {symbols symbols' : List ResolvedSymbol} {decl : DeclId}
    (h : HasError symbols decl) (hsubset : symbols ⊆ symbols') : HasError symbols' decl := by
  obtain ⟨resolved, hresolved, hform⟩ := h
  exact ⟨resolved, hsubset hresolved, hform⟩

/-- The final forms of entries were made, and the declarations in `opened` were found
to have open types. -/
structure Closes (s : Session) (failed opened : List DeclId) (entries : List (DeclId × Symbol))
    (symbols : List ResolvedSymbol) (t : Session) : Prop where
  grows : s.subst.Grows t.subst
  forms : List.Forall₂ (Concludes t.subst) entries symbols
  blames : Blames s opened t
  sublist : opened.Sublist (entries.map Prod.fst)
  apart : ∀ decl ∈ opened, decl ∉ failed
  error_of_opened : ∀ decl ∈ opened, HasError symbols decl
  error_of_failed : ∀ entry ∈ entries, entry.1 ∈ failed → HasError symbols entry.1

namespace Closes

variable {failed opened opened' : List DeclId} {entries entries' : List (DeclId × Symbol)}
variable {symbols symbols' : List ResolvedSymbol}

theorem nil (s : Session) (failed : List DeclId) : Closes s failed [] [] [] s where
  grows := .refl
  forms := .nil
  blames := .none rfl rfl
  sublist := .slnil
  apart := fun _ h => absurd h List.not_mem_nil
  error_of_opened := fun _ h => absurd h List.not_mem_nil
  error_of_failed := fun _ h => absurd h List.not_mem_nil

theorem append (h : Closes s failed opened entries symbols t) (hs : s.subst.Acyclic)
    (h' : Closes t failed opened' entries' symbols' u) :
    Closes s failed (opened ++ opened') (entries ++ entries') (symbols ++ symbols') u where
  grows := h.grows.trans h'.grows
  forms := List.rel_append
    (h.forms.imp fun _ _ hform => hform.grows (h.grows.acyclic hs) h'.grows) h'.forms
  blames := h.blames.trans h'.blames
  sublist := by
    rw [List.map_append]
    exact h.sublist.append h'.sublist
  apart := List.forall_mem_append.mpr ⟨h.apart, h'.apart⟩
  error_of_opened := List.forall_mem_append.mpr
    ⟨fun decl hdecl => (h.error_of_opened decl hdecl).mono (List.subset_append_left _ _),
      fun decl hdecl => (h'.error_of_opened decl hdecl).mono (List.subset_append_right _ _)⟩
  error_of_failed := List.forall_mem_append.mpr
    ⟨fun entry hentry hfailed =>
        (h.error_of_failed entry hentry hfailed).mono (List.subset_append_left _ _),
      fun entry hentry hfailed =>
        (h'.error_of_failed entry hentry hfailed).mono (List.subset_append_right _ _)⟩

/-- An entry that was not found open, with a final form that changes nothing. -/
theorem single {entry : DeclId × Symbol} {resolved : ResolvedSymbol}
    (hform : Concludes s.subst entry resolved)
    (hfailed : entry.1 ∈ failed → HasError [resolved] entry.1) :
    Closes s failed [] [entry] [resolved] s where
  grows := .refl
  forms := .cons hform .nil
  blames := .none rfl rfl
  sublist := List.nil_sublist _
  apart := fun _ h => absurd h List.not_mem_nil
  error_of_opened := fun _ h => absurd h List.not_mem_nil
  error_of_failed := List.forall_mem_singleton.mpr hfailed

/-- The reports that closing a scope adds, where the declarations in `failed` were
reported before traits were taken up. -/
theorem exists_reports (h : Closes u failed opened entries symbols t) {t' : Session}
    (hblames : Blames s failed t') (hfailed : failed.Sublist (entries.map Prod.fst))
    (hkeys : (entries.map Prod.fst).Nodup)
    {refusals : List Report} (hrefusals : ∀ report ∈ refusals, report.category = .traitBound)
    (hreports : u.reports = t'.reports ++ refusals) :
    ∃ reports, t.reports = s.reports ++ reports ∧
      ((reports.filter fun report => report.category ≠ .traitBound).map Report.origin).Nodup ∧
      ∀ report ∈ reports, report.category ≠ .traitBound →
        ∃ resolved ∈ symbols, report.origin = .decl resolved.decl ∧ resolved.ty = .error := by
  obtain ⟨early, hearly, horigin, hcategory⟩ := hblames.reports
  obtain ⟨late, hlate, horigin', hcategory'⟩ := h.blames.reports
  have hfilter : (early ++ refusals ++ late).filter (fun report => report.category ≠ .traitBound) =
      early ++ late := by
    rw [List.filter_append, List.filter_append, List.filter_eq_self.mpr (by simpa using hcategory),
      List.filter_eq_nil_iff.mpr (by simpa using hrefusals),
      List.filter_eq_self.mpr (by simpa using hcategory'), List.append_nil]
  have horigins : (early ++ late).map Report.origin = (failed ++ opened).map .decl := by
    rw [List.map_append, List.map_append, horigin, horigin']
  have herror : ∀ decl ∈ failed ++ opened, HasError symbols decl := by
    refine List.forall_mem_append.mpr ⟨fun decl hdecl => ?_, h.error_of_opened⟩
    obtain ⟨entry, hentry, rfl⟩ := List.mem_map.mp (hfailed.subset hdecl)
    exact h.error_of_failed entry hentry hdecl
  -- What failed is not looked at again, so it is not found open on top of that.
  have hnodup : (failed ++ opened).Nodup :=
    List.nodup_append'.mpr ⟨hkeys.sublist hfailed, hkeys.sublist h.sublist,
      fun decl hdecl hopened => h.apart decl hopened hdecl⟩
  refine ⟨early ++ refusals ++ late, ?_, ?_, fun report hreport hnotTrait => ?_⟩
  · rw [hlate, hreports, hearly, List.append_assoc, List.append_assoc, List.append_assoc]
  · rw [hfilter, horigins]
    exact hnodup.map fun _ _ => NodeId.decl.inj
  · have hmem : report.origin ∈ (failed ++ opened).map NodeId.decl := by
      rw [← horigins, ← hfilter]
      exact List.mem_map_of_mem (List.mem_filter.mpr ⟨hreport, by simpa using hnotTrait⟩)
    obtain ⟨decl, hdecl, hdeclOrigin⟩ := List.mem_map.mp hmem
    obtain ⟨resolved, hresolved, rfl, hty⟩ := herror decl hdecl
    exact ⟨resolved, hresolved, hdeclOrigin.symm, hty⟩

end Closes

theorem exists_closes_of_settleSymbol (hs : s.subst.Acyclic) {failed : List DeclId}
    {entry : DeclId × Symbol} {resolved : ResolvedSymbol}
    (h : s.settleSymbol failed entry.1 entry.2 = .ok (resolved, t)) :
    ∃ opened, Closes s failed opened [entry] [resolved] t := by
  rw [settleSymbol] at h
  split at h
  · cases h
    exact ⟨[], .single .error fun _ => hasError_singleton entry⟩
  · rename_i hcontains
    have hapart : entry.1 ∉ failed := by simpa using hcontains
    obtain ⟨answer, hanswer, h⟩ := exists_of_bind_eq_ok h
    obtain ⟨ty, happly, hanswer⟩ := exists_of_bind_eq_ok hanswer
    rw [apply, hs.apply_eq_ok] at happly
    cases happly
    split at hanswer
    · rename_i hclosed
      cases hanswer
      cases h
      exact ⟨[], .single (.closed hclosed) fun hmem => absurd hmem hapart⟩
    · cases hanswer
      obtain ⟨w, hpoison, h⟩ := exists_of_bind_eq_ok h
      cases h
      have hgrows : s.subst.Grows t.subst :=
        (delivers_poison (s := s.report _) hs entry.2.ty).of_eq_ok hpoison
      have hblames : Blames s [entry.1] t := by
        obtain ⟨subst, rfl⟩ := frame_poison hpoison
        exact ⟨rfl, [_], rfl, rfl, List.forall_mem_singleton.mpr Category.noConfusion⟩
      refine ⟨[entry.1], hgrows, .cons .error .nil, hblames, List.Sublist.refl _, ?_, ?_, ?_⟩
      · exact List.forall_mem_singleton.mpr hapart
      · exact List.forall_mem_singleton.mpr (hasError_singleton entry)
      · exact List.forall_mem_singleton.mpr fun _ => hasError_singleton entry

theorem exists_closes_of_settleSymbols (hs : s.subst.Acyclic) {failed : List DeclId}
    {entries : List (DeclId × Symbol)} {symbols : List ResolvedSymbol}
    (h : s.settleSymbols failed entries = .ok (symbols, t)) :
    ∃ opened, Closes s failed opened entries symbols t := by
  induction entries generalizing s symbols with
  | nil =>
      cases h
      exact ⟨[], .nil _ failed⟩
  | cons entry rest ih =>
      rw [settleSymbols] at h
      obtain ⟨⟨first, u⟩, hfirst, h⟩ := exists_of_bind_eq_ok h
      obtain ⟨⟨others, w⟩, hothers, h⟩ := exists_of_bind_eq_ok h
      cases h
      obtain ⟨opened, hcloses⟩ := exists_closes_of_settleSymbol hs hfirst
      obtain ⟨opened', hcloses'⟩ := ih (hcloses.grows.acyclic hs) hothers
      exact ⟨opened ++ opened', hcloses.append hs hcloses'⟩

theorem Act.resolved {given : Ty → Prop} (h : Act given s t) : s.resolved <+: t.resolved := by
  cases h with
  | draw | retrace | report => exact List.prefix_rfl
  | unify _ _ h =>
      obtain ⟨_, _, rfl⟩ := frame_unify h
      exact List.prefix_rfl
  | requireTrait h =>
      obtain ⟨_, rfl⟩ := frame_requireTrait h
      exact List.prefix_rfl
  | dischargeTraits h =>
      obtain ⟨_, _, rfl⟩ := frame_dischargeTraits h
      exact List.prefix_rfl
  | poison _ h =>
      obtain ⟨_, rfl⟩ := frame_poison h
      exact List.prefix_rfl
  | file symbols => exact List.prefix_append _ _

theorem Acts.resolved {given : Ty → Prop} (h : Acts given s t) : s.resolved <+: t.resolved := by
  induction h with
  | refl => exact List.prefix_rfl
  | tail _ hact ih => exact ih.trans hact.resolved

theorem Step.resolved (h : Step s t) : s.resolved <+: t.resolved := by
  rcases h.acts with rfl | ⟨command, hacts⟩
  · exact List.prefix_rfl
  · have hrecorded : (s.recordedBy command).resolved = s.resolved := by
      cases command <;> rfl
    exact hrecorded ▸ hacts.resolved

theorem Later.resolved (h : Later s t) : s.resolved <+: t.resolved := by
  induction h with
  | refl => exact List.prefix_rfl
  | tail _ hstep ih => exact ih.trans hstep.resolved

/-- The unit that a reachable session ends with has the symbols that were filed. -/
theorem Reachable.symbols_of_finish (hreach : s.Reachable) {unit : CheckedUnit}
    (h : s.finish = .ok (.ok unit)) : unit.symbols = s.resolved := by
  obtain ⟨settled, last, hsettle, hquiet⟩ := exists_settle hreach.wellFormed hreach.waits
  obtain ⟨hnone, rfl⟩ := (finish_eq_unit_iff hsettle).mp h
  rw [(hquiet hnone).unchanged]

/-! ## The account of a closed scope -/

/-- What is said of a symbol by its final form, in a session that has closed its scope. -/
structure FinalForm (s : Session) (entry : DeclId × Symbol) (resolved : ResolvedSymbol) : Prop where
  decl : resolved.decl = entry.1
  name : resolved.name = entry.2.name
  closed : resolved.ty.isClosed = true
  constFree : resolved.ty.hasConst = false
  poisoned : resolved.verdict = .poisoned ↔ resolved.ty.mentions .error = true
  escaped : resolved.verdict = .escaped ↔
    resolved.ty.mentions .error = false ∧ resolved.ty.mentions .any = true
  concrete : resolved.verdict = .concrete ↔
    resolved.ty.mentions .error = false ∧ resolved.ty.mentions .any = false
  value : resolved.value =
    if resolved.verdict = .poisoned then none else entry.2.inferred.value
  /-- Within every later operation and after it, the type of the symbol stands for the
  final one. -/
  lasting : resolved.verdict ≠ .poisoned → ∀ later, Onward s later →
    ∃ applied, later.apply entry.2.ty = .ok applied ∧ applied.erase = resolved.ty

theorem Concludes.finalForm {entry : DeclId × Symbol} {resolved : ResolvedSymbol}
    (h : Concludes s.subst entry resolved) (hs : s.subst.Acyclic) : s.FinalForm entry resolved := by
  obtain ⟨ty, rfl, hclosed, hconst, hlasting⟩ : ∃ ty, resolved = entry.2.resolved entry.1 ty ∧
      ty.isClosed = true ∧ ty.hasConst = false ∧
      (ty.verdict ≠ .poisoned → ∀ t, s.subst.Grows t → t.stored entry.2.ty = ty) := by
    cases h with
    | error => exact ⟨.error, rfl, rfl, rfl, fun hverdict => absurd rfl hverdict⟩
    | closed h =>
        refine ⟨_, rfl, (Ty.isClosed_erase _).trans h, Ty.hasConst_erase _, fun _ t hgrows => ?_⟩
        exact congrArg Ty.erase (hgrows.instantiate_image_of_isClosed hs h)
  exact
    { decl := rfl
      name := rfl
      closed := hclosed
      constFree := hconst
      poisoned := Ty.verdict_eq_poisoned_iff
      escaped := Ty.verdict_eq_escaped_iff
      concrete := Ty.verdict_eq_concrete_iff
      value := entry.2.value_resolved entry.1 ty
      lasting := fun hverdict later honward =>
        have hgrows := honward.grows hs
        ⟨_, (hgrows.acyclic hs).apply_eq_ok _, hlasting hverdict later.subst hgrows⟩ }

theorem map_decl_of_finalForm {entries : List (DeclId × Symbol)} {symbols : List ResolvedSymbol}
    (h : List.Forall₂ s.FinalForm entries symbols) :
    symbols.map ResolvedSymbol.decl = entries.map Prod.fst := by
  induction h with
  | nil => rfl
  | cons hform _ ih => rw [List.map_cons, List.map_cons, hform.decl, ih]

theorem step_of_closeScope {pool pool' : VarPool} {table table' : SymbolTable}
    {symbols : List ResolvedSymbol}
    (h : s.closeScope pool table = .ok (symbols, table', t, pool')) : Step s t := by
  have hexec : Workspace.exec ⟨s, .empty, table, pool⟩ .closeScope =
      .ok (.closed symbols, ⟨t, .empty, table', pool'⟩) := by
    rw [Workspace.exec, h]
    rfl
  exact .exec hexec

/-- Once the written types of a scope have been dealt with, closing it returns: what was
put off is taken up, and then each symbol gets its final form. -/
theorem exists_settleScope (hs : s.subst.WellFormed) (hwaits : s.Waits) {pool pool' : VarPool}
    {scope : Scope} {failed : List DeclId}
    (h : s.reconcileAll pool scope.symbols.entries = .ok (failed, t, pool')) :
    ∃ symbols refusals, ∃ u w : Session, s.settleScope pool scope =
        .ok (symbols, { w with resolved := w.resolved ++ symbols }, pool') ∧
      u.subst = t.subst ∧ u.subst.Acyclic ∧ u.resolved = t.resolved ∧
      u.reports = t.reports ++ refusals ∧
      (∀ report ∈ refusals, report.category = .traitBound) ∧
      u.settleSymbols failed scope.symbols.entries = .ok (symbols, w) := by
  have hacts : Acts (fun _ => True) s t :=
    (acts_reconcileAll inherited_true (fun _ _ => trivial) h).1
  have ht := (hacts.grows hs.acyclic).wellFormed hs
  obtain ⟨u, refusals, hdischarge, hsubst, hresolved, hreports, hrefusals⟩ :=
    exists_dischargeTraits ht (hacts.waits hs hwaits)
  have hu : u.subst.Acyclic := hsubst.symm ▸ ht.acyclic
  obtain ⟨symbols, w, hsettle, _⟩ := exists_settleSymbols hu failed scope.symbols.entries
  refine ⟨symbols, refusals, u, w, ?_, hsubst, hu, hresolved, hreports, hrefusals, hsettle⟩
  rw [settleScope, h]
  show t.dischargeTraits >>= _ = _
  rw [hdischarge]
  show u.settleSymbols _ _ >>= _ = _
  rw [hsettle]
  rfl

/-- Closing the innermost scope returns unless the pool has no block for a hole of a
written type.  That is decided by the written types alone, which come first. -/
theorem exists_closeScope (hreach : s.Reachable) (pool : VarPool) (scope : Scope)
    (outer : List Scope) :
    (s.closeScope pool ⟨scope :: outer⟩ = .error .idsExhausted ∧
      maxVarId < pool.next + scope.holes * blockSize) ∨
    ∃ failed t symbols s' pool',
      s.reconcileAll pool scope.symbols.entries = .ok (failed, t, pool') ∧
      s.settleScope pool scope = .ok (symbols, s', pool') ∧
      s.closeScope pool ⟨scope :: outer⟩ = .ok (symbols, ⟨outer⟩, s', pool') := by
  have hs := hreach.wellFormed
  have hclose : s.closeScope pool ⟨scope :: outer⟩ = s.settleScope pool scope >>=
      fun result => .ok (result.1, ⟨outer⟩, result.2.1, result.2.2) := rfl
  cases hreconcile : s.reconcileAll pool scope.symbols.entries with
  | error fault =>
      have hdraws := draws_reconcileAll hs.acyclic pool scope.symbols.entries
      rw [hreconcile] at hdraws
      cases hdraws with | error hshort
      refine .inl ⟨?_, hshort⟩
      rw [hclose, settleScope, hreconcile]
      rfl
  | ok result =>
      obtain ⟨failed, t, pool'⟩ := result
      obtain ⟨symbols, _, _, _, hsettle, _⟩ := exists_settleScope hs hreach.waits hreconcile
      refine .inr ⟨failed, t, symbols, _, pool', rfl, hsettle, ?_⟩
      rw [hclose, hsettle]
      rfl

/-- Closing the innermost scope returns unless the pool has no block for a hole of a
written type.  It takes off that scope and no other, and there is one final form for
each of its symbols, in the order of their declarations.  The forms are filed with the
session and handed on in whatever unit it ends with.  Apart from traits that are
missing, no symbol is reported twice, and a symbol that is reported has type `error`. -/
theorem closeScope_accounts_for_symbols (hreach : s.Reachable) (pool : VarPool) (scope : Scope)
    (outer : List Scope) :
    (s.closeScope pool ⟨scope :: outer⟩ = .error .idsExhausted ∧
      maxVarId < pool.next + scope.holes * blockSize) ∨
    ∃ symbols s' pool', s.closeScope pool ⟨scope :: outer⟩ = .ok (symbols, ⟨outer⟩, s', pool') ∧
      List.Forall₂ s'.FinalForm scope.symbols.entries symbols ∧
      (symbols.map ResolvedSymbol.decl).Pairwise (· < ·) ∧
      s'.resolved = s.resolved ++ symbols ∧
      (∀ later unit, Later s' later → later.finish = .ok (.ok unit) →
        s.resolved ++ symbols <+: unit.symbols) ∧
      ∃ reports, s'.reports = s.reports ++ reports ∧
        ((reports.filter fun report => report.category ≠ .traitBound).map Report.origin).Nodup ∧
        ∀ report ∈ reports, report.category ≠ .traitBound →
          ∃ resolved ∈ symbols, report.origin = .decl resolved.decl ∧ resolved.ty = .error := by
  have hs := hreach.wellFormed
  rcases exists_closeScope hreach pool scope outer with
    hshort | ⟨failed, t, symbols, _, pool', hreconcile, hscope, hclosed⟩
  · exact .inl hshort
  obtain ⟨hblames, hfailed⟩ := blames_reconcileAll hs.acyclic hreconcile
  obtain ⟨_, refusals, u, w, hsettle, _, hu, hresolved, hreports, hrefusals, hforms⟩ :=
    exists_settleScope hs hreach.waits hreconcile
  cases hsettle.symm.trans hscope
  obtain ⟨opened, hcloses⟩ := exists_closes_of_settleSymbols hu hforms
  have hforms : List.Forall₂ (FinalForm { w with resolved := w.resolved ++ symbols })
      scope.symbols.entries symbols := by
    refine hcloses.forms.imp fun entry resolved hform => ?_
    exact Concludes.finalForm (s := { w with resolved := _ }) hform (hcloses.grows.acyclic hu)
  have hfiled : w.resolved = s.resolved :=
    hcloses.blames.resolved.trans (hresolved.trans hblames.resolved)
  refine .inr ⟨symbols, _, pool', hclosed, hforms, ?_, ?_, ?_, ?_⟩
  · rw [map_decl_of_finalForm hforms]
    exact List.pairwise_map.mpr (scope.symbols.ascending.imp Nat.compare_eq_lt.mp)
  · rw [hfiled]
  · intro later unit hlater hfinish
    have hreached := (hreach.later (.single (step_of_closeScope hclosed))).later hlater
    rw [hreached.symbols_of_finish hfinish, ← hfiled]
    exact hlater.resolved
  · exact hcloses.exists_reports hblames hfailed scope.symbols.nodup_keys hrefusals hreports

/-- A literal is hidden by a later declaration of its name, whose type is still open
after its written type was used, and a third symbol does not have its written type. -/
theorem closeScope_accounts_for_symbols_hidden : ∃ (hidden pending wrong : Symbol) (s s' : Session)
    (symbols : List ResolvedSymbol) (pool pool' : VarPool), s.Reachable ∧
    hidden.name = pending.name ∧
    s.closeScope pool ⟨[((Scope.empty.publish 0 hidden).publish 1 pending).publish 2 wrong]⟩ =
      .ok (symbols, ⟨[]⟩, s', pool') ∧
    symbols.map ResolvedSymbol.decl = [0, 1, 2] ∧
    symbols.map ResolvedSymbol.verdict = [.concrete, .poisoned, .poisoned] ∧
    s'.reports.map Report.origin = [.decl 2, .decl 1] ∧
    ∀ later, Onward s' later →
      ∃ applied, later.apply hidden.ty = .ok applied ∧ applied.erase = .bool := by
  have hrun : ∃ (hidden pending wrong : Symbol) (s s' : Session) (symbols : List ResolvedSymbol)
      (pool pool' : VarPool), s.Reachable ∧ hidden.name = pending.name ∧
      s.closeScope pool ⟨[((Scope.empty.publish 0 hidden).publish 1 pending).publish 2 wrong]⟩ =
        .ok (symbols, ⟨[]⟩, s', pool') ∧
      symbols.map ResolvedSymbol.decl = [0, 1, 2] ∧
      symbols.map ResolvedSymbol.verdict = [.concrete, .poisoned, .poisoned] ∧
      symbols.map ResolvedSymbol.ty = [.bool, .error, .error] ∧
      s'.reports.map Report.origin = [.decl 2, .decl 1] :=
    ⟨⟨some 0, "x", .synthetic, .ofLiteral (.bool true), none⟩,
      ⟨some 1, "x", .synthetic, .ofTy (.var 0),
        some ⟨.func [.hole] (.named "bool"), .synthetic⟩⟩,
      ⟨some 2, "y", .synthetic, .ofTy .str, some ⟨.named "bool", .synthetic⟩⟩,
      _, _, _, ⟨0⟩, _,
      reachable_of_run Registry.builtin { varOffset := some 0 } ⟨0⟩ [.freshVars 1] rfl rfl,
      rfl, rfl, rfl, rfl, rfl, rfl⟩
  obtain ⟨hidden, pending, wrong, s, s', symbols, pool, pool', hreach, hname, hclose, hdecls,
    hverdicts, htypes, horigins⟩ := hrun
  refine ⟨hidden, pending, wrong, s, s', symbols, pool, pool', hreach, hname, hclose, hdecls,
    hverdicts, horigins, ?_⟩
  rcases closeScope_accounts_for_symbols hreach pool
    (((Scope.empty.publish 0 hidden).publish 1 pending).publish 2 wrong) [] with
    ⟨herror, _⟩ | ⟨_, _, _, hclose', hforms, _⟩
  · rw [hclose] at herror
    cases herror
  · rw [hclose] at hclose'
    cases hclose'
    cases hforms with | @cons _ first _ rest hform _
    obtain ⟨hty, _⟩ := List.cons_eq_cons.mp htypes
    obtain ⟨hverdict, _⟩ := List.cons_eq_cons.mp hverdicts
    rw [← hty]
    exact hform.lasting (by rw [hverdict]; exact Verdict.noConfusion)

end Session

end TypeInference
