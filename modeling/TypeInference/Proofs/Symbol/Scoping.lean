/-
# Names by scope, declarations by identity

A scope keeps two maps, from declarations to symbols and from names to
declarations, and a later declaration of a name hides the earlier one without
removing it.  This module compares a table with a plain account of what was
published: for every open scope, its symbols in the order of publication.

The account determines every answer.  A name refers to what was last published
under it in the innermost scope that has it, a declaration is found wherever its
scope is, hidden or not, and a scope that is opened and removed again leaves no
mark.  What keeps the two maps of a scope in step is that a declaration has one
place in all open scopes together, and this is what `declare` checks.
-/

import Mathlib.Data.List.Forall2
import Mathlib.Data.List.Nodup
import TypeInference.Proofs.Session.Operation

namespace TypeInference

namespace SymbolTable

/-- A way to change a table. -/
inductive Change where
  | push
  | pop
  | declare (symbol : Symbol)

/-- Carry out one change.  There may be no scope left to remove. -/
def change (table : SymbolTable) : Change → Except Fault SymbolTable
  | .push => .ok table.push
  | .pop => .ok ((table.pop?.map Prod.snd).getD table)
  | .declare symbol => table.declare symbol

/-- Carry out changes in order. -/
def changeAll (table : SymbolTable) (changes : List Change) : Except Fault SymbolTable :=
  changes.foldlM change table

/-- Changes that remove exactly the scopes they open. -/
inductive Balanced : List Change → Prop
  | nil : Balanced []
  | declare (symbol : Symbol) {rest : List Change} (h : Balanced rest) :
      Balanced (.declare symbol :: rest)
  | nest {inner rest : List Change} (h : Balanced inner) (h' : Balanced rest) :
      Balanced (.push :: inner ++ .pop :: rest)

end SymbolTable

/-- What was published: the symbols of each open scope in the order of publication, the
innermost scope first. -/
abbrev Listing := List (List Symbol)

namespace Listing

open SymbolTable (Change)

/-- The account after one change. -/
def change : Listing → Change → Listing
  | lists, .push => [] :: lists
  | lists, .pop => lists.tail
  | [], .declare _ => []
  | innermost :: outer, .declare symbol => (innermost ++ [symbol]) :: outer

/-- The account after changes of a new table. -/
def after (changes : List Change) : Listing := changes.foldl change [[]]

/-- What was last published under a name, in the innermost scope that has the name. -/
def lookup (lists : Listing) (name : String) : Option Symbol :=
  lists.findSome? fun list => list.reverse.find? (·.name == name)

end Listing

/-- The two maps of a scope say what the list of its symbols says. -/
structure Scope.Holds (scope : Scope) (list : List Symbol) : Prop where
  find?_iff : ∀ decl symbol,
    scope.symbols.find? decl = some symbol ↔ symbol ∈ list ∧ symbol.decl = some decl
  names : ∀ name,
    scope.names.find? name = (list.reverse.find? (·.name == name)).bind Symbol.decl
  declared : ∀ symbol ∈ list, ∃ decl, symbol.decl = some decl

namespace Scope.Holds

variable {scope : Scope} {list : List Symbol}

theorem empty : Scope.empty.Holds [] where
  find?_iff _ _ := by simp [Scope.empty]
  names _ := rfl
  declared _ h := absurd h List.not_mem_nil

/-- A symbol whose declaration is new to the scope comes last in its list. -/
theorem publish (h : scope.Holds list) {decl : DeclId} {symbol : Symbol}
    (hdecl : symbol.decl = some decl) (hnew : scope.symbols.find? decl = none) :
    (scope.publish decl symbol).Holds (list ++ [symbol]) where
  find?_iff other found := by
    rw [Scope.publish, List.mem_append, List.mem_singleton]
    by_cases hother : other = decl
    · subst hother
      rw [KeyMap.find?_insert_self, Option.some_inj]
      constructor
      · rintro rfl
        exact ⟨.inr rfl, hdecl⟩
      · rintro ⟨hmem | rfl, hfound⟩
        · rw [(h.find?_iff other found).mpr ⟨hmem, hfound⟩] at hnew
          cases hnew
        · rfl
    · rw [KeyMap.find?_insert_of_ne _ hother, h.find?_iff]
      refine and_congr_left fun hfound => ⟨.inl, ?_⟩
      rintro (hmem | rfl)
      · exact hmem
      · exact absurd (Option.some_inj.mp (hfound.symm.trans hdecl)) hother
  names name := by
    rw [Scope.publish, List.reverse_append, List.reverse_singleton, List.singleton_append,
      List.find?_cons]
    by_cases hname : symbol.name = name
    · subst hname
      rw [KeyMap.find?_insert_self, beq_self_eq_true, Option.bind_some, hdecl]
    · rw [KeyMap.find?_insert_of_ne _ (Ne.symm hname), h.names, beq_false_of_ne hname]
  declared := List.forall_mem_append.mpr
    ⟨h.declared, List.forall_mem_singleton.mpr ⟨decl, hdecl⟩⟩

theorem lookup_eq (h : scope.Holds list) (name : String) :
    scope.lookup name = list.reverse.find? (·.name == name) := by
  rw [Scope.lookup, h.names]
  cases hfind : list.reverse.find? (·.name == name) with
  | none => rfl
  | some symbol =>
      have hmem : symbol ∈ list := List.mem_reverse.mp (List.mem_of_find?_eq_some hfind)
      obtain ⟨decl, hdecl⟩ := h.declared symbol hmem
      rw [Option.bind_some, hdecl]
      exact (h.find?_iff decl symbol).mpr ⟨hmem, hdecl⟩

/-- A scope files each of its symbols under the declaration of the symbol. -/
theorem map_decl_values (h : scope.Holds list) :
    scope.symbols.values.map Symbol.decl = scope.symbols.keys.map some := by
  rw [KeyMap.values, KeyMap.keys, List.map_map, List.map_map]
  refine List.map_congr_left fun entry hentry => ?_
  exact ((h.find?_iff entry.1 entry.2).mp (KeyMap.find?_eq_some_iff.mpr hentry)).2

/-- A scope lists all its symbols, hidden ones included. -/
theorem values_perm (h : scope.Holds list) (hnodup : (list.map Symbol.decl).Nodup) :
    scope.symbols.values.Perm list := by
  have hvalues : (scope.symbols.values.map Symbol.decl).Nodup := by
    rw [h.map_decl_values]
    exact scope.symbols.nodup_keys.map (Option.some_injective _)
  refine (List.perm_ext_iff_of_nodup hvalues.of_map hnodup.of_map).mpr fun symbol => ?_
  rw [KeyMap.values, List.mem_map]
  constructor
  · rintro ⟨entry, hentry, rfl⟩
    exact ((h.find?_iff entry.1 entry.2).mp (KeyMap.find?_eq_some_iff.mpr hentry)).1
  · intro hmem
    obtain ⟨decl, hdecl⟩ := h.declared symbol hmem
    have hfind := (h.find?_iff decl symbol).mpr ⟨hmem, hdecl⟩
    exact ⟨(decl, symbol), KeyMap.find?_eq_some_iff.mp hfind, rfl⟩

theorem map_some_keys_perm (h : scope.Holds list) (hnodup : (list.map Symbol.decl).Nodup) :
    (scope.symbols.keys.map some).Perm (list.map Symbol.decl) := by
  rw [← h.map_decl_values]
  exact (h.values_perm hnodup).map _

end Scope.Holds

namespace SymbolTable

/-- The declarations of the symbols in all open scopes. -/
def decls (table : SymbolTable) : List DeclId :=
  table.scopes.flatMap fun scope => scope.symbols.keys

/-- The table says what the account says, and a declaration has one place in it. -/
structure Accords (table : SymbolTable) (lists : Listing) : Prop where
  scopes : List.Forall₂ Scope.Holds table.scopes lists
  nodup : (lists.flatten.map Symbol.decl).Nodup

namespace Accords

variable {table : SymbolTable} {lists : Listing}

theorem new : SymbolTable.new.Accords [[]] := ⟨.cons .empty .nil, List.nodup_nil⟩

theorem lookup_eq (h : table.Accords lists) (name : String) :
    table.lookup name = lists.lookup name := by
  obtain ⟨hscopes, -⟩ := h
  rw [SymbolTable.lookup, Listing.lookup]
  generalize table.scopes = scopes at hscopes
  induction hscopes with
  | nil => rfl
  | cons hscope _ ih => rw [List.findSome?_cons, List.findSome?_cons, hscope.lookup_eq, ih]

theorem exists_list (h : table.Accords lists) {scope : Scope} (hscope : scope ∈ table.scopes) :
    ∃ list ∈ lists, scope.Holds list := by
  obtain ⟨index, hindex, rfl⟩ := List.mem_iff_getElem.mp hscope
  have hlist := h.scopes.length_eq ▸ hindex
  exact ⟨lists[index], List.getElem_mem hlist, h.scopes.get hindex hlist⟩

theorem exists_scope (h : table.Accords lists) {list : List Symbol} (hlist : list ∈ lists) :
    ∃ scope ∈ table.scopes, scope.Holds list := by
  obtain ⟨index, hindex, rfl⟩ := List.mem_iff_getElem.mp hlist
  have hscope := h.scopes.length_eq.symm ▸ hindex
  exact ⟨table.scopes[index], List.getElem_mem hscope, h.scopes.get hscope hindex⟩

theorem mem_of_get? (h : table.Accords lists) {decl : DeclId} {symbol : Symbol}
    (hget : table.get? decl = some symbol) :
    symbol ∈ lists.flatten ∧ symbol.decl = some decl := by
  obtain ⟨scope, hscope, hfind⟩ := List.exists_of_findSome?_eq_some hget
  obtain ⟨list, hlist, hholds⟩ := h.exists_list hscope
  obtain ⟨hmem, hdecl⟩ := (hholds.find?_iff decl symbol).mp hfind
  exact ⟨List.mem_flatten.mpr ⟨list, hlist, hmem⟩, hdecl⟩

/-- A declaration leads to the one symbol that has it. -/
theorem get?_eq_some_iff (h : table.Accords lists) {decl : DeclId} {symbol : Symbol} :
    table.get? decl = some symbol ↔ symbol ∈ lists.flatten ∧ symbol.decl = some decl := by
  refine ⟨h.mem_of_get?, fun ⟨hmem, hdecl⟩ => ?_⟩
  obtain ⟨list, hlist, hmemList⟩ := List.mem_flatten.mp hmem
  obtain ⟨scope, hscope, hholds⟩ := h.exists_scope hlist
  have hfind := (hholds.find?_iff decl symbol).mpr ⟨hmemList, hdecl⟩
  have hsome : (table.get? decl).isSome = true :=
    List.findSome?_isSome_iff.mpr ⟨scope, hscope, by rw [hfind]; rfl⟩
  obtain ⟨found, hfound⟩ := Option.isSome_iff_exists.mp hsome
  obtain ⟨hmem', hdecl'⟩ := h.mem_of_get? hfound
  rw [hfound, List.inj_on_of_nodup_map h.nodup hmem' hmem (hdecl'.trans hdecl.symm)]

theorem get?_eq_none_iff (h : table.Accords lists) {decl : DeclId} :
    table.get? decl = none ↔ some decl ∉ lists.flatten.map Symbol.decl := by
  rw [Option.eq_none_iff_forall_ne_some, List.mem_map, not_exists]
  simp only [ne_eq, h.get?_eq_some_iff]

/-- Every scope lists the symbols that were published in it, and all of them can be found by
their declarations. -/
theorem forall₂_listed (h : table.Accords lists) :
    List.Forall₂ (fun scope list => scope.symbols.values.Perm list ∧
      ∀ symbol ∈ list, ∃ decl, symbol.decl = some decl ∧ table.get? decl = some symbol)
      table.scopes lists := by
  refine List.forall₂_iff_get.mpr ⟨h.scopes.length_eq, fun index hscope hlist => ?_⟩
  have hholds := h.scopes.get hscope hlist
  have hmem : lists.get ⟨index, hlist⟩ ∈ lists := List.get_mem _ _
  have hsublist := (List.sublist_flatten_of_mem hmem).map Symbol.decl
  refine ⟨hholds.values_perm (h.nodup.sublist hsublist), fun symbol hsymbol => ?_⟩
  obtain ⟨decl, hdecl⟩ := hholds.declared symbol hsymbol
  have hflatten := List.mem_flatten.mpr ⟨_, hmem, hsymbol⟩
  exact ⟨decl, hdecl, h.get?_eq_some_iff.mpr ⟨hflatten, hdecl⟩⟩

/-- All open scopes together have the declarations of the account. -/
theorem map_some_decls_perm (h : table.Accords lists) :
    (table.decls.map some).Perm (lists.flatten.map Symbol.decl) := by
  obtain ⟨hscopes, hnodup⟩ := h
  rw [decls]
  generalize table.scopes = scopes at hscopes
  induction hscopes with
  | nil => exact .nil
  | @cons scope list _ outer hscope _ ih =>
      rw [List.flatten_cons, List.map_append] at hnodup
      rw [List.flatMap_cons, List.flatten_cons, List.map_append, List.map_append]
      exact (hscope.map_some_keys_perm hnodup.of_append_left).append (ih hnodup.of_append_right)

theorem nodup_decls (h : table.Accords lists) : table.decls.Nodup :=
  (h.map_some_decls_perm.nodup_iff.mpr h.nodup).of_map

end Accords

/-! ## Changes -/

section Change

variable {table after : SymbolTable} {lists : Listing}

/-- A symbol is accepted when some scope is open and its declaration has no place yet. -/
theorem declare_eq_ok_iff {symbol : Symbol} :
    table.declare symbol = .ok after ↔
      ∃ decl scope outer, symbol.decl = some decl ∧ table.get? decl = none ∧
        table.scopes = scope :: outer ∧ after = ⟨scope.publish decl symbol :: outer⟩ := by
  rw [declare]
  cases symbol.decl with
  | none => simp
  | some decl =>
      cases hget : table.get? decl with
      | some found => simp [hget]
      | none =>
          cases table.scopes with
          | nil => simp [hget]
          | cons scope outer => simp [hget, eq_comm]

theorem exists_declare_iff (h : table.Accords lists) {symbol : Symbol} :
    (∃ after, table.declare symbol = .ok after) ↔
      lists ≠ [] ∧ symbol.decl ≠ none ∧ symbol.decl ∉ lists.flatten.map Symbol.decl := by
  simp only [declare_eq_ok_iff]
  constructor
  · rintro ⟨_, decl, scope, outer, hdecl, hget, hscopes, -⟩
    have hlength := h.scopes.length_eq
    rw [hscopes] at hlength
    refine ⟨?_, by rw [hdecl]; exact Option.some_ne_none decl, ?_⟩
    · rintro rfl
      cases hlength
    · rw [hdecl]
      exact h.get?_eq_none_iff.mp hget
  · rintro ⟨hopen, hnone, hnew⟩
    obtain ⟨decl, hdecl⟩ := Option.ne_none_iff_exists'.mp hnone
    obtain ⟨scope, outer, hscopes⟩ : ∃ scope outer, table.scopes = scope :: outer := by
      refine List.exists_cons_of_ne_nil fun hnil => hopen ?_
      exact List.length_eq_zero_iff.mp (h.scopes.length_eq.symm.trans (by rw [hnil]; rfl))
    rw [hdecl] at hnew
    exact ⟨_, decl, scope, outer, hdecl, h.get?_eq_none_iff.mpr hnew, hscopes, rfl⟩

/-- A change of the table is the same change of the account. -/
theorem Accords.change (h : table.Accords lists) {change : Change}
    (hchange : table.change change = .ok after) : after.Accords (lists.change change) := by
  cases change with
  | push =>
      cases hchange
      exact ⟨.cons .empty h.scopes, h.nodup⟩
  | pop =>
      cases hchange
      obtain ⟨scopes⟩ := table
      obtain ⟨hscopes, hnodup⟩ := h
      cases hscopes with
      | nil => exact ⟨.nil, List.nodup_nil⟩
      | cons hscope houter =>
          rw [List.flatten_cons, List.map_append] at hnodup
          exact ⟨houter, hnodup.of_append_right⟩
  | declare symbol =>
      obtain ⟨decl, scope, outer, hdecl, hget, hscopes, rfl⟩ := declare_eq_ok_iff.mp hchange
      have hnew := h.get?_eq_none_iff.mp hget
      have hfind : scope.symbols.find? decl = none :=
        List.findSome?_eq_none_iff.mp hget scope (by rw [hscopes]; exact List.mem_cons_self)
      obtain ⟨hholds, hnodup⟩ := h
      rw [hscopes] at hholds
      cases hholds with | @cons _ list _ lists hscope houter
      refine ⟨.cons (hscope.publish hdecl hfind) houter, ?_⟩
      have hperm : (((list ++ [symbol]) :: lists).flatten.map Symbol.decl).Perm
          (symbol.decl :: (list :: lists).flatten.map Symbol.decl) := by
        rw [List.flatten_cons, List.flatten_cons, List.append_assoc, ← List.map_cons]
        exact List.perm_middle.map _
      exact hperm.nodup_iff.mpr (List.nodup_cons.mpr ⟨hdecl ▸ hnew, hnodup⟩)

theorem Accords.changeAll {changes : List Change} (h : table.Accords lists)
    (hchanges : table.changeAll changes = .ok after) :
    after.Accords (changes.foldl Listing.change lists) := by
  induction changes generalizing table lists with
  | nil =>
      cases hchanges
      exact h
  | cons change rest ih =>
      obtain ⟨middle, hchange, hrest⟩ := exists_of_bind_eq_ok hchanges
      exact ih (h.change hchange) hrest

theorem exists_of_changeAll_append {changes more : List Change}
    (h : table.changeAll (changes ++ more) = .ok after) :
    ∃ middle, table.changeAll changes = .ok middle ∧ middle.changeAll more = .ok after := by
  rw [changeAll, List.foldlM_append] at h
  exact exists_of_bind_eq_ok h

/-- Balanced changes reach no scope but the innermost. -/
theorem Balanced.exists_scope {changes : List Change} (h : Balanced changes) {scope : Scope}
    {outer : List Scope} (hchanges : changeAll ⟨scope :: outer⟩ changes = .ok after) :
    ∃ scope', after = ⟨scope' :: outer⟩ := by
  induction h generalizing scope outer after with
  | nil =>
      cases hchanges
      exact ⟨scope, rfl⟩
  | declare symbol _ ih =>
      obtain ⟨middle, hdeclare, hrest⟩ := exists_of_bind_eq_ok hchanges
      obtain ⟨decl, _, _, _, _, hscopes, rfl⟩ := declare_eq_ok_iff.mp hdeclare
      cases hscopes
      exact ih hrest
  | nest _ _ ih ih' =>
      obtain ⟨opened, hpush, hrest⟩ := exists_of_bind_eq_ok hchanges
      cases hpush
      obtain ⟨filled, hinner, hrest⟩ := exists_of_changeAll_append hrest
      obtain ⟨scope', rfl⟩ := ih hinner
      obtain ⟨removed, hpop, hrest⟩ := exists_of_bind_eq_ok hrest
      cases hpop
      exact ih' hrest

/-- A scope that is opened and removed again leaves no mark. -/
theorem Balanced.changeAll_nested {body : List Change} (h : Balanced body)
    (hchanges : table.changeAll (.push :: body ++ [.pop]) = .ok after) : after = table := by
  obtain ⟨opened, hpush, hrest⟩ := exists_of_bind_eq_ok hchanges
  cases hpush
  obtain ⟨filled, hbody, hrest⟩ := exists_of_changeAll_append hrest
  obtain ⟨scope, rfl⟩ := h.exists_scope hbody
  cases hrest
  rfl

end Change

/-- Whatever changes a new table has gone through, it answers as the account of what was
published does.  A name leads to the symbol last published under it in the innermost scope
that has it, and a declaration to the one symbol that has it, in whatever scope.  No
declaration has two places.  Every scope lists all its symbols, and each of them is found
by its declaration, hidden or not.  A symbol is accepted exactly when a scope is open and
the declaration of the symbol has no place.  After a scope is opened, any balanced changes
are made and the scope is removed, every answer is what it was before. -/
theorem scoping_by_identity {changes : List Change} {table : SymbolTable}
    (h : SymbolTable.new.changeAll changes = .ok table) :
    (∀ name, table.lookup name = (Listing.after changes).lookup name) ∧
    (∀ decl symbol, table.get? decl = some symbol ↔
      symbol ∈ (Listing.after changes).flatten ∧ symbol.decl = some decl) ∧
    table.decls.Nodup ∧
    List.Forall₂ (fun scope list => scope.symbols.values.Perm list ∧
      ∀ symbol ∈ list, ∃ decl, symbol.decl = some decl ∧ table.get? decl = some symbol)
      table.scopes (Listing.after changes) ∧
    (∀ symbol, (∃ after, table.declare symbol = .ok after) ↔
      Listing.after changes ≠ [] ∧ symbol.decl ≠ none ∧
        symbol.decl ∉ (Listing.after changes).flatten.map Symbol.decl) ∧
    (∀ body after, Balanced body → table.changeAll (.push :: body ++ [.pop]) = .ok after →
      (∀ name, after.lookup name = table.lookup name) ∧
        ∀ decl, after.get? decl = table.get? decl) := by
  have haccords : table.Accords (Listing.after changes) := Accords.new.changeAll h
  refine ⟨haccords.lookup_eq, fun _ _ => haccords.get?_eq_some_iff, haccords.nodup_decls,
    haccords.forall₂_listed, fun _ => exists_declare_iff haccords, ?_⟩
  intro body after hbody hchanges
  rw [hbody.changeAll_nested hchanges]
  exact ⟨fun _ => rfl, fun _ => rfl⟩

/-- A name is declared twice in the outer scope and once more in an inner one, into which a
scope of its own is put for a while. -/
theorem scoping_by_identity_hidden_twice : ∃ (first second inner passing : Symbol)
    (table : SymbolTable),
    SymbolTable.new.changeAll [.declare first, .declare second, .push, .declare inner] =
      .ok table ∧
    table.lookup "x" = some inner ∧ table.get? 4 = some first ∧ table.get? 2 = some second ∧
    table.decls.Nodup ∧ (¬ ∃ after, table.declare second = .ok after) ∧
    ∃ after, table.changeAll (.push :: [.declare passing] ++ [.pop]) = .ok after ∧
      after.lookup "x" = table.lookup "x" ∧ after.get? 4 = table.get? 4 := by
  have hrun : ∃ (first second inner passing : Symbol) (table after : SymbolTable),
      first.decl = some 4 ∧ second.decl = some 2 ∧ inner.name = "x" ∧
      SymbolTable.new.changeAll [.declare first, .declare second, .push, .declare inner] =
        .ok table ∧
      table.changeAll (.push :: [.declare passing] ++ [.pop]) = .ok after :=
    ⟨⟨some 4, "x", .synthetic, .ofTy .num, none⟩, ⟨some 2, "x", .synthetic, .ofTy .str, none⟩,
      ⟨some 7, "x", .synthetic, .ofTy .bool, none⟩, ⟨some 9, "x", .synthetic, .ofTy .any, none⟩,
      _, _, rfl, rfl, rfl, rfl, rfl⟩
  obtain ⟨first, second, inner, passing, table, after, hfirst, hsecond, hinner, htable, hafter⟩ :=
    hrun
  obtain ⟨hlookup, hget, hnodup, -, haccepted, hnested⟩ := scoping_by_identity htable
  have hsame := hnested [.declare passing] after (.declare passing .nil) hafter
  refine ⟨first, second, inner, passing, table, htable, ?_, ?_, ?_, hnodup, ?_, after, hafter,
    hsame.1 "x", hsame.2 4⟩
  · rw [hlookup]
    simp [Listing.lookup, Listing.after, Listing.change, hinner]
  · exact (hget 4 first).mpr ⟨by simp [Listing.after, Listing.change], hfirst⟩
  · exact (hget 2 second).mpr ⟨by simp [Listing.after, Listing.change], hsecond⟩
  · rw [haccepted]
    simp [Listing.after, Listing.change]

end SymbolTable

end TypeInference
