/-
# Other numbers for variables

Variables are numbers, and their order shows: bindings are listed by it, and the
variables of a type are taken in it.  A renaming that keeps the order goes
through everything that is done with types and substitutions.  Each operation
has one equation here, which says what becomes of its result; the value of a
computation and its fault are renamed alike.
-/

import Mathlib.Order.Hom.Basic
import TypeInference.Proofs.Ty.Rendering
import TypeInference.Proofs.Unify.Bound
import TypeInference.Proofs.Unify.Symmetry

namespace TypeInference

namespace KeyMap

variable {κ κ' β β' : Type} [Ord κ] [Ord κ']

/-- Change the keys and the values of a map, where the keys keep their order. -/
def transport (f : κ → κ') (hf : ∀ a b, compare (f a) (f b) = compare a b) (g : β → β')
    (map : KeyMap κ β) : KeyMap κ' β' :=
  ⟨map.entries.map (Prod.map f g),
    List.pairwise_map.mpr (map.ascending.imp fun hlt => (hf _ _).trans hlt)⟩

variable {f : κ → κ'} (hf : ∀ a b, compare (f a) (f b) = compare a b) (g : β → β')

include hf

theorem lookupIn_map (key : κ) (list : List (κ × β)) :
    lookupIn (f key) (list.map (Prod.map f g)) = (lookupIn key list).map g := by
  induction list with
  | nil => rfl
  | cons head rest ih =>
      simp only [List.map_cons, Prod.map, lookupIn, hf]
      split
      · rfl
      · exact ih

theorem insertIn_map (key : κ) (value : β) (list : List (κ × β)) :
    insertIn (f key) (g value) (list.map (Prod.map f g)) =
      (insertIn key value list).map (Prod.map f g) := by
  induction list with
  | nil => rfl
  | cons head rest ih =>
      simp only [List.map_cons, Prod.map, insertIn, hf]
      split
      · rfl
      · rfl
      · exact congrArg (_ :: ·) ih

theorem eraseIn_map (key : κ) (list : List (κ × β)) :
    eraseIn (f key) (list.map (Prod.map f g)) = (eraseIn key list).map (Prod.map f g) := by
  induction list with
  | nil => rfl
  | cons head rest ih =>
      simp only [List.map_cons, Prod.map, eraseIn, hf]
      split
      · rfl
      · exact congrArg (_ :: ·) ih

theorem find?_transport (map : KeyMap κ β) (key : κ) :
    (map.transport f hf g).find? (f key) = (map.find? key).map g :=
  lookupIn_map hf g key map.entries

theorem erase_transport (map : KeyMap κ β) (key : κ) :
    (map.transport f hf g).erase (f key) = (map.erase key).transport f hf g := by
  simp only [transport, erase, mk.injEq]
  exact eraseIn_map hf g key map.entries

theorem insert_transport [Std.TransOrd κ] [Std.LawfulEqOrd κ] [Std.TransOrd κ']
    [Std.LawfulEqOrd κ'] (map : KeyMap κ β) (key : κ) (value : β) :
    (map.transport f hf g).insert (f key) (g value) = (map.insert key value).transport f hf g := by
  simp only [transport, insert, mk.injEq]
  exact insertIn_map hf g key value map.entries

omit hf in
/-- Change the values of a map. -/
def mapValues (g : β → β') (map : KeyMap κ β) : KeyMap κ β' :=
  map.transport id (fun _ _ => rfl) g

end KeyMap

theorem compare_renamed (r : VarId ↪o VarId) (v w : VarId) : compare (r v) (r w) = compare v w := by
  simp only [Nat.compare_eq_ite_lt, r.lt_iff_lt]

theorem insertAscending_map (r : VarId ↪o VarId) (v : VarId) (list : List VarId) :
    insertAscending (r v) (list.map r) = (insertAscending v list).map r := by
  induction list with
  | nil => rfl
  | cons w rest ih =>
      simp only [List.map_cons, insertAscending, r.lt_iff_lt, r.injective.eq_iff]
      split
      · rfl
      · split
        · rfl
        · exact congrArg (_ :: ·) ih

theorem ascendingDistinct_map (r : VarId ↪o VarId) (list : List VarId) :
    ascendingDistinct (list.map r) = (ascendingDistinct list).map r := by
  induction list with
  | nil => rfl
  | cons v rest ih =>
      rw [List.map_cons, ascendingDistinct, List.foldr_cons, ← ascendingDistinct, ih,
        insertAscending_map]
      rfl

namespace Ty

section Rename

variable {r : VarId → VarId}

@[simp] theorem rename_const (base : Ty) (value : Literal) :
    (const base value).rename r = .const (base.rename r) value :=
  instantiate_const _ base value

theorem rename_of_isClosed {ty : Ty} (h : ty.isClosed = true) : ty.rename r = ty :=
  instantiate_of_isClosed h _

theorem erase_rename (ty : Ty) : (ty.rename r).erase = ty.erase.rename r :=
  erase_instantiate _ ty

theorem map_erase_rename (list : List Ty) :
    eraseAll (list.map (rename r)) = (eraseAll list).map (rename r) := by
  simp only [eraseAll_eq_map, List.map_map]
  exact List.map_congr_left fun ty _ => erase_rename ty

theorem unwrap_rename (ty : Ty) : (ty.rename r).unwrap = ty.unwrap.rename r := by
  induction ty with
  | func params result => simp [unwrap.eq_def]
  | const base value ih => simpa [unwrap] using ih
  | var v => simp [unwrap]
  | _ => rfl

theorem isError_rename (ty : Ty) : (ty.rename r).isError = ty.isError := by
  cases ty with
  | func params result => simp [isError.eq_def]
  | const base value => simp [isError.eq_def]
  | _ => rfl

theorem size_rename (ty : Ty) : (ty.rename r).size = ty.size := by
  induction ty with
  | func params result ihParams ihResult =>
      have hparams : (params.map (rename r)).map size = params.map size := by
        rw [List.map_map]
        exact List.map_congr_left ihParams
      rw [rename_func, size, size, sizeAll_eq_sum, sizeAll_eq_sum, hparams, ihResult]
  | const base value ih => rw [rename_const, size, size, ih]
  | var v => rw [rename_var, size.eq_def, size.eq_def]
  | _ => rfl

theorem varOccurrences_rename (ty : Ty) :
    (ty.rename r).varOccurrences = ty.varOccurrences.map r := by
  induction ty with
  | func params result ihParams ihResult =>
      have hparams : (params.map (rename r)).flatMap varOccurrences =
          (params.flatMap varOccurrences).map r := by
        rw [List.flatMap_map, List.map_flatMap]
        exact List.flatMap_congr ihParams
      rw [rename_func, varOccurrences, varOccurrences, varOccurrencesAll_eq_flatMap,
        varOccurrencesAll_eq_flatMap, hparams, ihResult, List.map_append]
  | const base value ih => rw [rename_const, varOccurrences, varOccurrences, ih]
  | var v => simp [varOccurrences]
  | _ => rfl

theorem isClosed_rename (ty : Ty) : (ty.rename r).isClosed = ty.isClosed := by
  rw [isClosed, isClosed, varOccurrences_rename, List.isEmpty_map]

theorem mentions_rename (leaf : Tag) (ty : Ty) :
    (ty.rename r).mentions leaf = ty.mentions leaf := by
  have hlist {list : List Ty} (h : ∀ ty ∈ list, (ty.rename r).mentions leaf = ty.mentions leaf) :
      anyMentions leaf (list.map (rename r)) = anyMentions leaf list := by
    induction list with
    | nil => rfl
    | cons first rest ih =>
        obtain ⟨hfirst, hrest⟩ := List.forall_mem_cons.mp h
        rw [List.map_cons, anyMentions, anyMentions, hfirst, ih hrest]
  induction ty with
  | func params result ihParams ihResult =>
      rw [rename_func, mentions, mentions, hlist ihParams, ihResult]
  | const base value ih => rw [rename_const, mentions, mentions, ih]
  | var v => simp [mentions, tag]
  | _ => rfl

theorem textWith_rename (name : VarId → String) (ty : Ty) :
    (ty.rename r).textWith name = ty.textWith fun v => name (r v) := by
  induction ty with
  | func params result ihParams ihResult =>
      have hparams : (params.map (rename r)).map (textWith name) =
          params.map (textWith fun v => name (r v)) := by
        rw [List.map_map]
        exact List.map_congr_left ihParams
      rw [rename_func, textWith, textWith, textsWith_eq_map, textsWith_eq_map, hparams, ihResult]
  | const base value ih => rw [rename_const, textWith, textWith, ih]
  | var v => rw [rename_var, textWith, textWith]
  | _ => rfl

/-- Renaming along an injection loses no difference of shape. -/
theorem sameShape_rename (hr : Function.Injective r) (x y : Ty) :
    (x.rename r).sameShape (y.rename r) = x.sameShape y := by
  have hlist {same : Literal → Literal → Bool} {xs : List Ty} (ys : List Ty)
      (h : ∀ x ∈ xs, ∀ y, (x.rename r).equalBy same (y.rename r) = x.equalBy same y) :
      equalAllBy same (xs.map (rename r)) (ys.map (rename r)) = equalAllBy same xs ys := by
    induction xs generalizing ys with
    | nil => cases ys <;> rfl
    | cons first rest ih =>
        obtain ⟨hfirst, hrest⟩ := List.forall_mem_cons.mp h
        cases ys with
        | nil => rfl
        | cons first' rest' =>
            rw [List.map_cons, List.map_cons, equalAllBy, equalAllBy, hfirst, ih rest' hrest]
  rw [sameShape, sameShape]
  induction x generalizing y with
  | var v =>
      cases y with
      | var w => simp [equalBy, hr.eq_iff]
      | _ => simp [equalBy, tag, rename, instantiate]
  | func params result ihParams ihResult =>
      cases y with
      | func params' result' =>
          rw [rename_func, rename_func, equalBy, equalBy, hlist params' ihParams, ihResult]
      | _ => simp [equalBy, tag, rename, instantiate]
  | const base value ih =>
      cases y with
      | const base' value' => rw [rename_const, rename_const, equalBy, equalBy, ih]
      | _ => simp [equalBy, tag, rename, instantiate]
  | _ => cases y <;> simp [equalBy, tag, rename, instantiate]

end Rename

theorem freeVars_rename (r : VarId ↪o VarId) (ty : Ty) :
    (ty.rename r).freeVars = ty.freeVars.map r := by
  rw [freeVars, varOccurrences_rename, ascendingDistinct_map, freeVars]

end Ty

variable {r : VarId ↪o VarId}

/-- A fault with other numbers for its variables. -/
def Fault.rename (r : VarId ↪o VarId) : Fault → Fault
  | .alreadyBound v existing new => .alreadyBound (r v) (existing.rename r) (new.rename r)
  | .cyclicChain v => .cyclicChain (r v)
  | fault => fault

/-- A computation with other numbers, in its value and in its fault. -/
def renamed {α β : Type} (r : VarId ↪o VarId) (f : α → β) : Except Fault α → Except Fault β
  | .ok a => .ok (f a)
  | .error fault => .error (fault.rename r)

/-- A computation of two parts is renamed part by part. -/
theorem bind_eq_renamed {α α' β β' : Type} {x : Except Fault α} {x' : Except Fault α'}
    {f : α → α'} {next : α → Except Fault β} {next' : α' → Except Fault β'} {g : β → β'}
    (h : x' = renamed r f x) (hnext : ∀ a, next' (f a) = renamed r g (next a)) :
    (x' >>= next') = renamed r g (x >>= next) := by
  rw [h]
  cases x with
  | error fault => rfl
  | ok a => exact hnext a

/-- Replacing variables goes through a renaming if the images do. -/
theorem Ty.replaceVars_rename {image image' : VarId → Except Fault Ty}
    (h : ∀ v, image' (r v) = renamed r (Ty.rename r) (image v)) (ty : Ty) :
    (ty.rename r).replaceVars image' = renamed r (Ty.rename r) (ty.replaceVars image) := by
  have hlist {list : List Ty} (ih : ∀ ty ∈ list,
      (ty.rename r).replaceVars image' = renamed r (Ty.rename r) (ty.replaceVars image)) :
      replaceVarsAll image' (list.map (Ty.rename r)) =
        renamed r (List.map (Ty.rename r)) (replaceVarsAll image list) := by
    induction list with
    | nil => rfl
    | cons first rest ihRest =>
        obtain ⟨hfirst, hrest⟩ := List.forall_mem_cons.mp ih
        rw [List.map_cons, replaceVarsAll, replaceVarsAll]
        exact bind_eq_renamed hfirst fun _ => bind_eq_renamed (ihRest hrest) fun _ => rfl
  induction ty with
  | var v => simpa [replaceVars] using h v
  | func params result ihParams ihResult =>
      rw [rename_func, replaceVars, replaceVars]
      refine bind_eq_renamed (hlist ihParams) fun params' => bind_eq_renamed ihResult fun _ => ?_
      simp [renamed]
  | const base value ih =>
      rw [rename_const, replaceVars, replaceVars]
      refine bind_eq_renamed ih fun base' => ?_
      simp [renamed]
  | _ => rfl

/-! ## Substitutions -/

namespace Subst

variable (r) (s : Subst)

/-- A substitution with other numbers for its variables. -/
def rename : Subst :=
  ⟨s.bindings.transport r (compare_renamed r) (Ty.rename r), s.trail.map r⟩

@[simp] theorem lookup_rename (v : VarId) :
    (s.rename r).lookup (r v) = (s.lookup v).map (Ty.rename r) :=
  KeyMap.find?_transport (compare_renamed r) (Ty.rename r) s.bindings v

@[simp] theorem size_rename : (s.rename r).size = s.size := List.length_map _

@[simp] theorem snapshot_rename : (s.rename r).snapshot = s.snapshot := List.length_map _

theorem extend_rename (v : VarId) (ty : Ty) :
    (s.rename r).extend (r v) (ty.rename r) = (s.extend v ty).rename r := by
  rw [extend, rename, KeyMap.insert_transport]
  rfl

theorem bind_rename (v : VarId) (ty : Ty) :
    (s.rename r).bind (r v) (ty.rename r) = renamed r (rename r) (s.bind v ty) := by
  rw [bind, bind, lookup_rename]
  cases s.lookup v with
  | none => exact congrArg Except.ok (extend_rename r s v ty)
  | some existing =>
      simp only [Option.map_some, Ty.sameShape_rename r.injective]
      split
      · rfl
      · rfl

theorem rollback_rename (point : Snapshot) :
    (s.rename r).rollback point = (s.rollback point).rename r := by
  have hundo (bindings : KeyMap VarId Ty) (trail : List VarId) :
      undo point (bindings.transport r (compare_renamed r) (Ty.rename r)) (trail.map r) =
        (undo point bindings trail).rename r := by
    induction trail generalizing bindings with
    | nil => rfl
    | cons v older ih =>
        rw [List.map_cons, undo, undo, List.length_map]
        split
        · rw [KeyMap.erase_transport]
          exact ih _
        · rfl
  exact hundo s.bindings s.trail

theorem follow_rename (hops : Nat) (ty : Ty) :
    (s.rename r).follow hops (ty.rename r) = renamed r (Ty.rename r) (s.follow hops ty) := by
  have hproper (hops : Nat) {ty : Ty} (hvar : ty.isVar = false) :
      (s.rename r).follow hops (ty.rename r) = renamed r (Ty.rename r) (s.follow hops ty) := by
    rw [follow_of_isVar_eq_false hvar,
      follow_of_isVar_eq_false ((Ty.isVar_rename ty).trans hvar)]
    rfl
  induction hops generalizing ty with
  | zero =>
      cases hvar : ty.isVar with
      | false => exact hproper 0 hvar
      | true =>
          obtain ⟨v, rfl⟩ := Ty.exists_of_isVar hvar
          rw [Ty.rename_var, follow.eq_def, follow.eq_def]
          simp only [lookup_rename]
          cases s.lookup v with
          | none => simp [renamed]
          | some next => rfl
  | succ hops ih =>
      cases hvar : ty.isVar with
      | false => exact hproper (hops + 1) hvar
      | true =>
          obtain ⟨v, rfl⟩ := Ty.exists_of_isVar hvar
          rw [Ty.rename_var, follow.eq_def, follow.eq_def]
          simp only [lookup_rename]
          cases s.lookup v with
          | none => simp [renamed]
          | some next => exact ih next

theorem resolve_rename (ty : Ty) :
    (s.rename r).resolve (ty.rename r) = renamed r (Ty.rename r) (s.resolve ty) := by
  rw [resolve, size_rename]
  exact follow_rename r s s.size ty

theorem expand_rename (depth : Nat) (active : List VarId) (v : VarId) :
    (s.rename r).expand depth (active.map r) (r v) =
      renamed r (Ty.rename r) (s.expand depth active v) := by
  have hactive (active : List VarId) (v : VarId) :
      (active.map r).contains (r v) = active.contains v := by
    rw [Bool.eq_iff_iff, List.contains_iff_mem, List.contains_iff_mem,
      List.mem_map_of_injective r.injective]
  induction depth generalizing active v with
  | zero =>
      rw [expand.eq_def, expand.eq_def]
      simp only [lookup_rename, hactive]
      cases s.lookup v with
      | none => simp [renamed]
      | some bound =>
          dsimp only [Option.map_some]
          split
          · rfl
          · rfl
  | succ depth ih =>
      rw [expand.eq_def, expand.eq_def]
      simp only [lookup_rename, hactive]
      cases s.lookup v with
      | none => simp [renamed]
      | some bound =>
          dsimp only [Option.map_some]
          split
          · rfl
          · exact Ty.replaceVars_rename (fun w => ih (v :: active) w) bound

theorem apply_rename (ty : Ty) :
    (s.rename r).apply (ty.rename r) = renamed r (Ty.rename r) (s.apply ty) := by
  rw [apply, size_rename]
  exact Ty.replaceVars_rename (fun v => expand_rename r s s.size [] v) ty

theorem boundSize_rename : Unify.boundSize (s.rename r) = Unify.boundSize s := by
  rw [Unify.boundSize, Unify.boundSize, Ty.sizeAll_eq_sum, Ty.sizeAll_eq_sum]
  refine congrArg List.sum ?_
  simp [KeyMap.values, rename, KeyMap.transport, Ty.size_rename]

end Subst

end TypeInference
