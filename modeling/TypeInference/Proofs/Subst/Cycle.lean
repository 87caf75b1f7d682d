/-
# Cycles are found, and nothing else is taken for one

Here nothing is assumed of a substitution: raw bindings may run in circles.  `resolve`
counts its steps and `apply` keeps the variables inside whose bindings it is.  Both
precautions are exact.

A chain that takes more steps than there are bindings has passed one variable twice, and a
chain that comes back to a variable never ends.  `apply` stops at a variable that is met
inside its own binding, and such a variable reaches itself; if it stops nowhere, it has
followed every reference there is, and none of them was on a cycle.

`chase` is the recursion of `apply` without a bound on its depth.  It comes to an end
because each round makes one more bound variable active.  The depth that `apply` allows
itself is never used up, so the two are the same.
-/

import TypeInference.Proofs.Subst.Acyclic

namespace TypeInference

open Relation

namespace Ty

section ReplaceVars

variable {lookup : VarId → Except Fault Ty}

theorem exists_of_replaceVarsAll_eq_error {list : List Ty} {fault : Fault}
    (h : replaceVarsAll lookup list = .error fault) :
    ∃ ty ∈ list, ty.replaceVars lookup = .error fault := by
  induction list with
  | nil => cases h
  | cons first rest ih =>
      rcases cases_of_bind_eq_error h with hfirst | ⟨_, _, h⟩
      · exact ⟨first, List.mem_cons_self, hfirst⟩
      · rcases cases_of_bind_eq_error h with hrest | ⟨_, _, h⟩
        · obtain ⟨ty, hmem, hty⟩ := ih hrest
          exact ⟨ty, List.mem_cons_of_mem _ hmem, hty⟩
        · cases h

theorem exists_of_replaceVarsAll_eq_ok {list list' : List Ty}
    (h : replaceVarsAll lookup list = .ok list') :
    ∀ ty ∈ list, ∃ ty', ty.replaceVars lookup = .ok ty' := by
  induction list generalizing list' with
  | nil => exact fun ty hmem => absurd hmem List.not_mem_nil
  | cons first rest ih =>
      obtain ⟨first', hfirst, h⟩ := exists_of_bind_eq_ok h
      obtain ⟨rest', hrest, _⟩ := exists_of_bind_eq_ok h
      exact List.forall_mem_cons.mpr ⟨⟨first', hfirst⟩, ih hrest⟩

/-- A fault comes from the image of a variable. -/
theorem exists_of_replaceVars_eq_error {ty : Ty} {fault : Fault}
    (h : ty.replaceVars lookup = .error fault) :
    ∃ v, ty.occurs v = true ∧ lookup v = .error fault := by
  induction ty with
  | var v => exact ⟨v, occurs_var.mpr rfl, h⟩
  | func params result ihParams ihResult =>
      rcases cases_of_bind_eq_error h with hparams | ⟨_, _, h⟩
      · obtain ⟨param, hmem, hparam⟩ := exists_of_replaceVarsAll_eq_error hparams
        obtain ⟨v, hv, hlookup⟩ := ihParams param hmem hparam
        exact ⟨v, occurs_func.mpr (.inl ⟨param, hmem, hv⟩), hlookup⟩
      · rcases cases_of_bind_eq_error h with hresult | ⟨_, _, h⟩
        · obtain ⟨v, hv, hlookup⟩ := ihResult hresult
          exact ⟨v, occurs_func.mpr (.inr hv), hlookup⟩
        · cases h
  | const base value ih =>
      rcases cases_of_bind_eq_error h with hbase | ⟨_, _, h⟩
      · obtain ⟨v, hv, hlookup⟩ := ih hbase
        exact ⟨v, occurs_const.trans hv, hlookup⟩
      · cases h
  | _ => cases h

/-- An answer has used the images of all variables. -/
theorem exists_of_replaceVars_eq_ok {ty ty' : Ty} (h : ty.replaceVars lookup = .ok ty')
    {v : VarId} (hv : ty.occurs v = true) : ∃ image, lookup v = .ok image := by
  induction ty generalizing ty' with
  | var w =>
      cases occurs_var.mp hv
      exact ⟨ty', h⟩
  | func params result ihParams ihResult =>
      obtain ⟨params', hparams, h⟩ := exists_of_bind_eq_ok h
      obtain ⟨result', hresult, _⟩ := exists_of_bind_eq_ok h
      rcases occurs_func.mp hv with ⟨param, hmem, hparam⟩ | hv
      · obtain ⟨param', heq⟩ := exists_of_replaceVarsAll_eq_ok hparams param hmem
        exact ihParams param hmem heq hparam
      · exact ihResult hresult hv
  | const base value ih =>
      obtain ⟨base', hbase, _⟩ := exists_of_bind_eq_ok h
      exact ih hbase (occurs_const.symm.trans hv)
  | _ => cases hv

/-- An answer is the type with an image put for each variable. -/
theorem exists_instantiate_of_replaceVars_eq_ok {ty ty' : Ty}
    (h : ty.replaceVars lookup = .ok ty') :
    ∃ image : VarId → Ty, (∀ v, ty.occurs v = true → lookup v = .ok (image v)) ∧
      ty' = ty.instantiate image := by
  have himages : ∀ v, ∃ image, ty.occurs v = true → lookup v = .ok image := by
    intro v
    by_cases hv : ty.occurs v = true
    · obtain ⟨image, hlookup⟩ := exists_of_replaceVars_eq_ok h hv
      exact ⟨image, fun _ => hlookup⟩
    · exact ⟨.var v, fun hocc => absurd hocc hv⟩
  choose image himage using himages
  have hanswer := replaceVars_eq_ok himage
  rw [h] at hanswer
  cases hanswer
  exact ⟨image, himage, rfl⟩

end ReplaceVars

end Ty

namespace Subst

variable {s : Subst}

/-- One step of a chain: from a bound variable to the type that it is bound to. -/
def Hop (s : Subst) (ty next : Ty) : Prop := ∃ v, ty = .var v ∧ s.lookup v = some next

/-- The chain that starts at a type never ends. -/
def Endless (s : Subst) (ty : Ty) : Prop :=
  ∃ chain : Nat → Ty, chain 0 = ty ∧ ∀ n, s.Hop (chain n) (chain (n + 1))

/-- The last element of the chain that starts at a type. -/
def IsLast (s : Subst) (ty head : Ty) : Prop :=
  ReflTransGen s.Hop ty head ∧ ∀ next, ¬ s.Hop head next

theorem hop_var {v : VarId} {next : Ty} : s.Hop (.var v) next ↔ s.lookup v = some next := by
  constructor
  · rintro ⟨w, heq, hlookup⟩
    cases heq
    exact hlookup
  · exact fun h => ⟨v, rfl, h⟩

theorem Hop.unique {ty first second : Ty} (h : s.Hop ty first) (h' : s.Hop ty second) :
    first = second := by
  obtain ⟨v, rfl, hlookup⟩ := h
  exact Option.some.inj (hlookup.symm.trans (hop_var.mp h'))

theorem last_or_bound (s : Subst) (ty : Ty) :
    (∀ next, ¬ s.Hop ty next) ∨ ∃ v next, ty = .var v ∧ s.lookup v = some next := by
  by_cases hlast : ∀ next, ¬ s.Hop ty next
  · exact .inl hlast
  · push Not at hlast
    obtain ⟨next, v, hvar, hlookup⟩ := hlast
    exact .inr ⟨v, next, hvar, hlookup⟩

/-- Whatever a chain comes to from a cycle lies on the cycle. -/
theorem transGen_hop_of_reflTransGen {ty later : Ty} (hcycle : TransGen s.Hop ty ty)
    (hreach : ReflTransGen s.Hop ty later) : TransGen s.Hop later later := by
  induction hreach with
  | refl => exact hcycle
  | tail _ hstep ih =>
      obtain ⟨next, hnext, hback⟩ := TransGen.head'_iff.mp ih
      cases hstep.unique hnext
      exact .tail' hback hstep

/-- A type from which a chain comes to a cycle. -/
def Circles (s : Subst) (ty : Ty) : Prop :=
  ∃ turn, ReflTransGen s.Hop ty turn ∧ TransGen s.Hop turn turn

theorem Circles.exists_hop {ty : Ty} (h : s.Circles ty) :
    ∃ next, s.Hop ty next ∧ s.Circles next := by
  obtain ⟨turn, hreach, hcycle⟩ := h
  rcases ReflTransGen.cases_head hreach with rfl | ⟨next, hnext, hrest⟩
  · obtain ⟨next, hnext, hback⟩ := TransGen.head'_iff.mp hcycle
    exact ⟨next, hnext, ty, hback, hcycle⟩
  · exact ⟨next, hnext, turn, hrest, hcycle⟩

/-- A chain that comes to a cycle never ends. -/
theorem Circles.endless {ty : Ty} (h : s.Circles ty) : s.Endless ty := by
  have hstep : ∀ here : { ty // s.Circles ty }, ∃ next : { ty // s.Circles ty },
      s.Hop here.1 next.1 := by
    rintro ⟨here, hcircles⟩
    obtain ⟨next, hhop, hnext⟩ := hcircles.exists_hop
    exact ⟨⟨next, hnext⟩, hhop⟩
  choose next hnext using hstep
  refine ⟨fun n => (next^[n] ⟨ty, h⟩).1, rfl, fun n => ?_⟩
  dsimp only
  rw [Function.iterate_succ_apply']
  exact hnext _

/-- An endless chain has no last element. -/
theorem Endless.not_isLast {ty head : Ty} (h : s.Endless ty) : ¬ s.IsLast ty head := by
  rintro ⟨hreach, hlast⟩
  obtain ⟨chain, rfl, hchain⟩ := h
  have hon : ∃ n, head = chain n := by
    clear hlast
    induction hreach with
    | refl => exact ⟨0, rfl⟩
    | tail _ hstep ih =>
        obtain ⟨n, rfl⟩ := ih
        exact ⟨n + 1, hstep.unique (hchain n)⟩
  obtain ⟨n, rfl⟩ := hon
  exact hlast _ (hchain n)

theorem follow_of_last {ty : Ty} (h : ∀ next, ¬ s.Hop ty next) (hops : Nat) :
    s.follow hops ty = .ok ty := by
  cases ty with
  | var v =>
      have hunbound : s.lookup v = none := Option.eq_none_iff_forall_ne_some.mpr
        fun next hlookup => h next ⟨v, rfl, hlookup⟩
      rw [follow.eq_def]
      dsimp only
      rw [hunbound]
  | _ => exact follow_of_isVar_eq_false rfl hops

theorem follow_zero {v : VarId} {next : Ty} (h : s.lookup v = some next) :
    s.follow 0 (.var v) = .error (.cyclicChain v) := by
  rw [follow.eq_def]
  dsimp only
  rw [h]

theorem follow_succ {v : VarId} {next : Ty} (h : s.lookup v = some next) (hops : Nat) :
    s.follow (hops + 1) (.var v) = s.follow hops next := by
  rw [follow.eq_def]
  dsimp only
  rw [h]

/-- What is followed to an end is followed to the last element of the chain. -/
theorem isLast_of_follow_eq_ok {hops : Nat} {ty head : Ty} (h : s.follow hops ty = .ok head) :
    s.IsLast ty head := by
  induction hops generalizing ty with
  | zero =>
      rcases s.last_or_bound ty with hlast | ⟨v, next, rfl, hlookup⟩
      · rw [follow_of_last hlast] at h
        cases h
        exact ⟨.refl, hlast⟩
      · rw [follow_zero hlookup] at h
        cases h
  | succ hops ih =>
      rcases s.last_or_bound ty with hlast | ⟨v, next, rfl, hlookup⟩
      · rw [follow_of_last hlast] at h
        cases h
        exact ⟨.refl, hlast⟩
      · rw [follow_succ hlookup] at h
        obtain ⟨hreach, hend⟩ := ih h
        exact ⟨.head ⟨v, rfl, hlookup⟩ hreach, hend⟩

/-- A chain that was broken off went through bound variables alone, one more than the steps
that were allowed, and the fault names the last of them. -/
theorem exists_chain_of_follow_eq_error {hops : Nat} {ty : Ty} {fault : Fault}
    (h : s.follow hops ty = .error fault) :
    ∃ chain : Nat → VarId, ty = .var (chain 0) ∧
      (∀ i < hops, s.Hop (.var (chain i)) (.var (chain (i + 1)))) ∧
      (∃ next, s.lookup (chain hops) = some next) ∧ fault = .cyclicChain (chain hops) := by
  induction hops generalizing ty with
  | zero =>
      rcases s.last_or_bound ty with hlast | ⟨v, next, rfl, hlookup⟩
      · rw [follow_of_last hlast] at h
        cases h
      · rw [follow_zero hlookup] at h
        cases h
        exact ⟨fun _ => v, rfl, fun i hi => absurd hi (Nat.not_lt_zero i), ⟨next, hlookup⟩, rfl⟩
  | succ hops ih =>
      rcases s.last_or_bound ty with hlast | ⟨v, next, rfl, hlookup⟩
      · rw [follow_of_last hlast] at h
        cases h
      · rw [follow_succ hlookup] at h
        obtain ⟨chain, rfl, hchain, hbound, hfault⟩ := ih h
        refine ⟨fun i => if i = 0 then v else chain (i - 1), rfl, fun i hi => ?_, hbound, hfault⟩
        cases i with
        | zero => exact ⟨v, rfl, hlookup⟩
        | succ i => exact hchain i (Nat.lt_of_succ_lt_succ hi)

/-- Later elements of a chain are reached from earlier ones. -/
theorem reflTransGen_hop_chain {chain : Nat → VarId} {hops : Nat}
    (hchain : ∀ i < hops, s.Hop (.var (chain i)) (.var (chain (i + 1)))) {first last : Nat}
    (hle : first ≤ last) (hlast : last ≤ hops) :
    ReflTransGen s.Hop (.var (chain first)) (.var (chain last)) := by
  induction last, hle using Nat.le_induction with
  | base => exact .refl
  | succ last _ ih => exact (ih (Nat.le_of_succ_le hlast)).tail (hchain last hlast)

/-- A chain is broken off at a variable that it comes back to. -/
theorem exists_cycle_of_resolve_eq_error {ty : Ty} {fault : Fault}
    (h : s.resolve ty = .error fault) :
    ∃ v, fault = .cyclicChain v ∧ ReflTransGen s.Hop ty (.var v) ∧
      TransGen s.Hop (.var v) (.var v) := by
  obtain ⟨chain, rfl, hchain, hbound, rfl⟩ := exists_chain_of_follow_eq_error h
  have hkeys : ∀ i < s.size + 1, chain i ∈ s.bindings.keys := by
    intro i hi
    rcases Nat.lt_succ_iff_lt_or_eq.mp hi with hlt | rfl
    · exact mem_keys_iff.mpr ⟨_, hop_var.mp (hchain i hlt)⟩
    · exact mem_keys_iff.mpr hbound
  -- There are more places in the chain than bound variables, so one stands at two of them.
  have hcard : s.bindings.keys.toFinset.card < (Finset.range (s.size + 1)).card := by
    rw [List.toFinset_card_of_nodup s.bindings.nodup_keys, Finset.card_range, KeyMap.keys,
      List.length_map]
    exact Nat.lt_succ_self _
  have hmaps : Set.MapsTo chain (Finset.range (s.size + 1)) s.bindings.keys.toFinset :=
    fun i hi => List.mem_toFinset.mpr (hkeys i (Finset.mem_range.mp hi))
  obtain ⟨i, hi, j, hj, hne, heq⟩ := Finset.exists_ne_map_eq_of_card_lt_of_maps_to hcard hmaps
  refine ⟨chain s.size, rfl, reflTransGen_hop_chain hchain (Nat.zero_le _) le_rfl, ?_⟩
  wlog hlt : i < j generalizing i j
  · exact this j hj i hi hne.symm heq.symm (lt_of_le_of_ne (Nat.le_of_not_lt hlt) hne.symm)
  have hj' : j ≤ s.size := Nat.le_of_lt_succ (Finset.mem_range.mp hj)
  have hturn : TransGen s.Hop (.var (chain i)) (.var (chain i)) := by
    have hback := reflTransGen_hop_chain hchain (Nat.succ_le_of_lt hlt) hj'
    rw [← heq] at hback
    exact .head' (hchain i (hlt.trans_le hj')) hback
  exact transGen_hop_of_reflTransGen hturn
    (reflTransGen_hop_chain hchain (hlt.le.trans hj') le_rfl)

/-! ## Applying without a bound on the depth -/

/-- The bound variables that are not active. -/
def idle (s : Subst) (active : List VarId) : Finset VarId :=
  s.bindings.keys.toFinset.filter (· ∉ active)

/-- A bound variable that becomes active is idle no more. -/
theorem idle_cons_ssubset {active : List VarId} {v : VarId} {bound : Ty}
    (h : s.lookup v = some bound) (hv : v ∉ active) : s.idle (v :: active) ⊂ s.idle active := by
  have hmem : v ∈ s.idle active :=
    Finset.mem_filter.mpr ⟨List.mem_toFinset.mpr (mem_keys_iff.mpr ⟨bound, h⟩), hv⟩
  refine Finset.ssubset_iff_subset_ne.mpr ⟨fun w hw => ?_, fun heq => ?_⟩
  · obtain ⟨hkey, hw⟩ := Finset.mem_filter.mp hw
    exact Finset.mem_filter.mpr ⟨hkey, fun hactive => hw (List.mem_cons_of_mem v hactive)⟩
  · rw [← heq] at hmem
    exact (Finset.mem_filter.mp hmem).2 List.mem_cons_self

/-- What a variable stands for once all bindings are used, unless it is met inside its own
binding. -/
def chase (s : Subst) (active : List VarId) (v : VarId) : Except Fault Ty :=
  match _h : s.lookup v with
  | none => .ok (.var v)
  | some bound =>
      if _hv : v ∈ active then .error (.cyclicChain v)
      else bound.replaceVars fun w => s.chase (v :: active) w
termination_by (s.idle active).card
decreasing_by exact Finset.card_lt_card (idle_cons_ssubset ‹_› ‹_›)

section Chase

variable {active : List VarId} {v : VarId} {bound : Ty}

theorem chase_of_unbound (h : s.lookup v = none) : s.chase active v = .ok (.var v) := by
  rw [chase]
  split
  · rfl
  · rename_i heq
    rw [h] at heq
    cases heq

theorem chase_of_active (h : s.lookup v = some bound) (hv : v ∈ active) :
    s.chase active v = .error (.cyclicChain v) := by
  rw [chase]
  split
  · rename_i heq
    rw [h] at heq
    cases heq
  · rw [dif_pos hv]

theorem chase_of_idle (h : s.lookup v = some bound) (hv : v ∉ active) :
    s.chase active v = bound.replaceVars (s.chase (v :: active)) := by
  rw [chase]
  split
  · rename_i heq
    rw [h] at heq
    cases heq
  · rename_i heq
    rw [h] at heq
    cases heq
    rw [dif_neg hv]

theorem expand_of_unbound (h : s.lookup v = none) (depth : Nat) :
    s.expand depth active v = .ok (.var v) := by
  rw [expand, h]

theorem expand_of_active (h : s.lookup v = some bound) (hv : v ∈ active) (depth : Nat) :
    s.expand depth active v = .error (.cyclicChain v) := by
  rw [expand, h]
  exact if_pos (List.contains_iff_mem.mpr hv)

theorem expand_of_idle (h : s.lookup v = some bound) (hv : v ∉ active) (depth : Nat) :
    s.expand (depth + 1) active v = bound.replaceVars (s.expand depth (v :: active)) := by
  rw [expand, h]
  exact if_neg fun hactive => hv (List.contains_iff_mem.mp hactive)

/-- There is room for one more active variable as long as a bound one is not active. -/
theorem length_lt_size (h : s.lookup v = some bound) (hv : v ∉ active) (hnodup : active.Nodup)
    (hbound : active ⊆ s.bindings.keys) : active.length < s.size := by
  have hkeys : v :: active ⊆ s.bindings.keys :=
    List.cons_subset.mpr ⟨mem_keys_iff.mpr ⟨bound, h⟩, hbound⟩
  have hlength := (List.nodup_cons.mpr ⟨hv, hnodup⟩).length_le_of_subset hkeys
  rwa [KeyMap.keys, List.length_map] at hlength

end Chase

/-- Depth for every bound variable that is not active is enough. -/
theorem expand_eq_chase {active : List VarId} (v : VarId) {depth : Nat} (hnodup : active.Nodup)
    (hbound : active ⊆ s.bindings.keys) (hroom : s.size ≤ depth + active.length) :
    s.expand depth active v = s.chase active v := by
  induction active, v using chase.induct s generalizing depth with
  | case1 active v hlookup => rw [expand_of_unbound hlookup, chase_of_unbound hlookup]
  | case2 active v bound hlookup hv =>
      rw [expand_of_active hlookup hv, chase_of_active hlookup hv]
  | case3 active v bound hlookup hv ih =>
      have hlength := length_lt_size hlookup hv hnodup hbound
      obtain ⟨depth, rfl⟩ : ∃ less, depth = less + 1 := Nat.exists_eq_add_one.mpr (by omega)
      rw [expand_of_idle hlookup hv, chase_of_idle hlookup hv]
      refine congrArg bound.replaceVars (funext fun w => ih w (List.nodup_cons.mpr ⟨hv, hnodup⟩)
        (List.cons_subset.mpr ⟨mem_keys_iff.mpr ⟨bound, hlookup⟩, hbound⟩) ?_)
      rw [List.length_cons]
      omega

/-- The depth that `apply` allows itself is never used up. -/
theorem apply_eq_replaceVars_chase (s : Subst) (ty : Ty) :
    s.apply ty = ty.replaceVars (s.chase []) := by
  have hchase : s.expand s.size [] = s.chase [] :=
    funext fun v => expand_eq_chase v List.nodup_nil (List.nil_subset _) (Nat.le_add_right _ _)
  rw [apply, hchase]

/-! ## Exactness -/

/-- A fault names a variable that reaches itself. -/
theorem exists_cycle_of_chase_eq_error {active : List VarId} {v : VarId} {fault : Fault}
    (h : s.chase active v = .error fault) (hactive : ∀ u ∈ active, TransGen s.Refers u v) :
    ∃ w, fault = .cyclicChain w ∧ ReflTransGen s.Refers v w ∧ TransGen s.Refers w w := by
  induction active, v using chase.induct s with
  | case1 active v hlookup =>
      rw [chase_of_unbound hlookup] at h
      cases h
  | case2 active v bound hlookup hv =>
      rw [chase_of_active hlookup hv] at h
      cases h
      exact ⟨v, rfl, .refl, hactive v hv⟩
  | case3 active v bound hlookup hv ih =>
      rw [chase_of_idle hlookup hv] at h
      obtain ⟨u, hu, hfault⟩ := Ty.exists_of_replaceVars_eq_error h
      have hrefers : s.Refers v u := ⟨bound, hlookup, hu⟩
      obtain ⟨w, rfl, hreach, hcycle⟩ := ih u hfault (List.forall_mem_cons.mpr
        ⟨.single hrefers, fun x hx => (hactive x hx).tail hrefers⟩)
      exact ⟨w, rfl, .head hrefers hreach, hcycle⟩

theorem not_refers_of_unbound {v w : VarId} (h : s.lookup v = none) : ¬ s.Refers v w := by
  rintro ⟨ty, hlookup, _⟩
  rw [h] at hlookup
  cases hlookup

/-- The references of a bound variable are those of its type. -/
theorem refers_iff {v w : VarId} {bound : Ty} (h : s.lookup v = some bound) :
    s.Refers v w ↔ bound.occurs w = true := by
  constructor
  · rintro ⟨ty, hlookup, hw⟩
    rw [h] at hlookup
    cases hlookup
    exact hw
  · exact fun hw => ⟨bound, h, hw⟩

/-- What has an answer reaches no cycle. -/
theorem not_cycle_of_chase_eq_ok {active : List VarId} {v : VarId} {ty : Ty}
    (h : s.chase active v = .ok ty) {w : VarId} (hreach : ReflTransGen s.Refers v w) :
    ¬ TransGen s.Refers w w := by
  induction active, v using chase.induct s generalizing ty with
  | case1 active v hlookup =>
      intro hcycle
      rcases ReflTransGen.cases_head hreach with rfl | ⟨u, hrefers, _⟩
      · obtain ⟨u, hrefers, _⟩ := TransGen.head'_iff.mp hcycle
        exact not_refers_of_unbound hlookup hrefers
      · exact not_refers_of_unbound hlookup hrefers
  | case2 active v bound hlookup hv =>
      rw [chase_of_active hlookup hv] at h
      cases h
  | case3 active v bound hlookup hv ih =>
      rw [chase_of_idle hlookup hv] at h
      intro hcycle
      -- A cycle through `v` itself goes on to something that `v` refers to.
      obtain ⟨u, hrefers, hreach⟩ : ∃ u, s.Refers v u ∧ ReflTransGen s.Refers u w := by
        rcases ReflTransGen.cases_head hreach with rfl | hhead
        · exact TransGen.head'_iff.mp hcycle
        · exact hhead
      obtain ⟨image, himage⟩ :=
        Ty.exists_of_replaceVars_eq_ok h ((refers_iff hlookup).mp hrefers)
      exact ih u himage hreach hcycle

/-- The variables of an answer are the unbound variables that are reached. -/
theorem occurs_of_chase_eq_ok {active : List VarId} {v : VarId} {ty : Ty}
    (h : s.chase active v = .ok ty) (w : VarId) :
    ty.occurs w = true ↔ s.lookup w = none ∧ ReflTransGen s.Refers v w := by
  induction active, v using chase.induct s generalizing ty with
  | case1 active v hlookup =>
      rw [chase_of_unbound hlookup] at h
      cases h
      rw [Ty.occurs_var]
      constructor
      · rintro rfl
        exact ⟨hlookup, .refl⟩
      · rintro ⟨_, hreach⟩
        rcases ReflTransGen.cases_head hreach with heq | ⟨u, hrefers, _⟩
        · exact heq
        · exact absurd hrefers (not_refers_of_unbound hlookup)
  | case2 active v bound hlookup hv =>
      rw [chase_of_active hlookup hv] at h
      cases h
  | case3 active v bound hlookup hv ih =>
      rw [chase_of_idle hlookup hv] at h
      obtain ⟨image, himage, rfl⟩ := Ty.exists_instantiate_of_replaceVars_eq_ok h
      rw [Ty.occurs_instantiate]
      constructor
      · rintro ⟨u, hu, hw⟩
        obtain ⟨hunbound, hreach⟩ := (ih u (himage u hu)).mp hw
        exact ⟨hunbound, .head ⟨bound, hlookup, hu⟩ hreach⟩
      · rintro ⟨hunbound, hreach⟩
        rcases ReflTransGen.cases_head hreach with rfl | ⟨u, hrefers, hrest⟩
        · rw [hunbound] at hlookup
          cases hlookup
        · have hu := (refers_iff hlookup).mp hrefers
          exact ⟨u, hu, (ih u (himage u hu)).mpr ⟨hunbound, hrest⟩⟩

/-- An answer does not depend on which variables are active. -/
theorem chase_unique {active active' : List VarId} {v : VarId} {ty ty' : Ty}
    (h : s.chase active v = .ok ty) (h' : s.chase active' v = .ok ty') : ty = ty' := by
  induction active, v using chase.induct s generalizing active' ty ty' with
  | case1 active v hlookup =>
      rw [chase_of_unbound hlookup] at h h'
      cases h
      cases h'
      rfl
  | case2 active v bound hlookup hv =>
      rw [chase_of_active hlookup hv] at h
      cases h
  | case3 active v bound hlookup hv ih =>
      have hv' : v ∉ active' := fun hmem => by
        rw [chase_of_active hlookup hmem] at h'
        cases h'
      rw [chase_of_idle hlookup hv] at h
      rw [chase_of_idle hlookup hv'] at h'
      obtain ⟨image, himage, rfl⟩ := Ty.exists_instantiate_of_replaceVars_eq_ok h
      obtain ⟨image', himage', rfl⟩ := Ty.exists_instantiate_of_replaceVars_eq_ok h'
      exact Ty.instantiate_congr fun u hu => ih u (himage u hu) (himage' u hu)

/-- From a free variable of a type one comes to a variable that reaches itself. -/
def Tangled (s : Subst) (ty : Ty) : Prop :=
  ∃ v ∈ ty.freeVars, ∃ w, ReflTransGen s.Refers v w ∧ TransGen s.Refers w w

theorem tangled_of_apply_eq_error {ty : Ty} {fault : Fault} (h : s.apply ty = .error fault) :
    ∃ w, fault = .cyclicChain w ∧ TransGen s.Refers w w ∧
      ∃ v ∈ ty.freeVars, ReflTransGen s.Refers v w := by
  rw [apply_eq_replaceVars_chase] at h
  obtain ⟨v, hv, hfault⟩ := Ty.exists_of_replaceVars_eq_error h
  obtain ⟨w, rfl, hreach, hcycle⟩ :=
    exists_cycle_of_chase_eq_error hfault fun _ hu => absurd hu List.not_mem_nil
  exact ⟨w, rfl, hcycle, v, Ty.mem_freeVars.mpr hv, hreach⟩

theorem not_tangled_of_apply_eq_ok {ty applied : Ty} (h : s.apply ty = .ok applied) :
    ¬ s.Tangled ty := by
  rw [apply_eq_replaceVars_chase] at h
  rintro ⟨v, hv, w, hreach, hcycle⟩
  obtain ⟨image, himage⟩ := Ty.exists_of_replaceVars_eq_ok h (Ty.mem_freeVars.mp hv)
  exact not_cycle_of_chase_eq_ok himage hreach hcycle

theorem mem_freeVars_of_apply_eq_ok {ty applied : Ty} (h : s.apply ty = .ok applied) (w : VarId) :
    w ∈ applied.freeVars ↔ s.lookup w = none ∧ ∃ v ∈ ty.freeVars, ReflTransGen s.Refers v w := by
  rw [apply_eq_replaceVars_chase] at h
  obtain ⟨image, himage, rfl⟩ := Ty.exists_instantiate_of_replaceVars_eq_ok h
  rw [Ty.mem_freeVars, Ty.occurs_instantiate]
  constructor
  · rintro ⟨v, hv, hw⟩
    obtain ⟨hunbound, hreach⟩ := (occurs_of_chase_eq_ok (himage v hv) w).mp hw
    exact ⟨hunbound, v, Ty.mem_freeVars.mpr hv, hreach⟩
  · rintro ⟨hunbound, v, hv, hreach⟩
    have hocc := Ty.mem_freeVars.mp hv
    exact ⟨v, hocc, (occurs_of_chase_eq_ok (himage v hocc) w).mpr ⟨hunbound, hreach⟩⟩

/-- A type without bound variables is its own answer. -/
theorem apply_of_unbound {ty : Ty} (h : ∀ w ∈ ty.freeVars, s.lookup w = none) :
    s.apply ty = .ok ty := by
  have himage : ∀ w, ty.occurs w = true → s.chase [] w = .ok (.var w) := fun w hw =>
    chase_of_unbound (h w (Ty.mem_freeVars.mpr hw))
  rw [apply_eq_replaceVars_chase, Ty.replaceVars_eq_ok himage, Ty.instantiate_var_self]

/-- A bound variable has the answer of its type. -/
theorem Hop.apply_eq {ty next applied : Ty} (h : s.Hop ty next)
    (happly : s.apply ty = .ok applied) : s.apply next = .ok applied := by
  obtain ⟨v, rfl, hlookup⟩ := h
  rw [apply_eq_replaceVars_chase, Ty.replaceVars, chase_of_idle hlookup List.not_mem_nil] at happly
  obtain ⟨image, himage, rfl⟩ := Ty.exists_instantiate_of_replaceVars_eq_ok happly
  rw [apply_eq_replaceVars_chase]
  refine Ty.replaceVars_eq_ok fun u hu => ?_
  cases hchase : s.chase [] u with
  | ok other => rw [chase_unique hchase (himage u hu)]
  | error fault =>
      obtain ⟨w, _, hreach, hcycle⟩ :=
        exists_cycle_of_chase_eq_error hchase fun _ hx => absurd hx List.not_mem_nil
      exact absurd hcycle (not_cycle_of_chase_eq_ok (himage u hu) hreach)

/-- A chain between variables is a path of references. -/
theorem reflTransGen_refers_of_hop {u v : VarId} (h : ReflTransGen s.Hop (.var u) (.var v)) :
    ReflTransGen s.Refers u v := by
  generalize hlast : Ty.var v = last at h
  induction h generalizing v with
  | refl =>
      cases hlast
      exact .refl
  | tail _ hstep ih =>
      obtain ⟨w, rfl, hlookup⟩ := hstep
      subst hlast
      exact (ih rfl).tail ⟨_, hlookup, Ty.occurs_var.mpr rfl⟩

theorem transGen_refers_of_hop {u v : VarId} (h : TransGen s.Hop (.var u) (.var v)) :
    TransGen s.Refers u v := by
  obtain ⟨last, hreach, w, rfl, hlookup⟩ := TransGen.tail'_iff.mp h
  exact .tail' (reflTransGen_refers_of_hop hreach) ⟨_, hlookup, Ty.occurs_var.mpr rfl⟩

/-- A chain that is broken off starts at a variable from which one comes to a cycle. -/
theorem tangled_of_resolve_eq_error {ty : Ty} {fault : Fault} (h : s.resolve ty = .error fault) :
    s.Tangled ty := by
  obtain ⟨v, _, hreach, hcycle⟩ := exists_cycle_of_resolve_eq_error h
  have hvar : ∃ u, ty = .var u := by
    rcases ReflTransGen.cases_head hreach with rfl | ⟨next, ⟨u, rfl, _⟩, _⟩
    · exact ⟨v, rfl⟩
    · exact ⟨u, rfl⟩
  obtain ⟨u, rfl⟩ := hvar
  exact ⟨u, Ty.mem_freeVars.mpr (Ty.occurs_var.mpr rfl), v, reflTransGen_refers_of_hop hreach,
    transGen_refers_of_hop hcycle⟩

/-- What has an answer has the same answer after its head was looked up. -/
theorem exists_resolve_of_apply_eq_ok {ty applied : Ty} (h : s.apply ty = .ok applied) :
    ∃ head, s.resolve ty = .ok head ∧ s.apply head = .ok applied := by
  cases hresolve : s.resolve ty with
  | error fault =>
      exact absurd (tangled_of_resolve_eq_error hresolve) (not_tangled_of_apply_eq_ok h)
  | ok head =>
      refine ⟨head, rfl, ?_⟩
      have hreach := (isLast_of_follow_eq_ok hresolve).1
      clear hresolve
      induction hreach with
      | refl => exact h
      | tail _ hstep ih => exact hstep.apply_eq ih

/-- On every substitution, whatever cycles it has, a chain of variables is broken off
exactly if it never ends, at a variable to which it comes back, and otherwise followed to
its last element.  Applying to a type is the recursion without a bound on its depth.  It
stops exactly if a free variable of the type leads to a variable that reaches itself, and
names such a variable.  Otherwise it returns a type whose variables are the unbound ones
that are reached; applying to that type again changes nothing, and neither does looking up
the head first. -/
theorem cycle_detection_exact (s : Subst) (ty : Ty) :
    ((∃ fault, s.resolve ty = .error fault) ↔ s.Endless ty) ∧
    (∀ fault, s.resolve ty = .error fault → ∃ v, fault = .cyclicChain v ∧
      ReflTransGen s.Hop ty (.var v) ∧ TransGen s.Hop (.var v) (.var v)) ∧
    (¬ s.Endless ty → ∃ head, s.resolve ty = .ok head ∧ s.IsLast ty head) ∧
    s.apply ty = ty.replaceVars (s.chase []) ∧
    ((∃ fault, s.apply ty = .error fault) ↔ s.Tangled ty) ∧
    (∀ fault, s.apply ty = .error fault → ∃ w, fault = .cyclicChain w ∧
      TransGen s.Refers w w ∧ ∃ v ∈ ty.freeVars, ReflTransGen s.Refers v w) ∧
    (¬ s.Tangled ty → ∃ applied, s.apply ty = .ok applied ∧
      (∀ w, w ∈ applied.freeVars ↔
        s.lookup w = none ∧ ∃ v ∈ ty.freeVars, ReflTransGen s.Refers v w) ∧
      s.apply applied = .ok applied ∧
      ∃ head, s.resolve ty = .ok head ∧ s.apply head = .ok applied) := by
  have hendless : ∀ {fault}, s.resolve ty = .error fault → s.Endless ty := fun h =>
    have ⟨v, _, hreach, hcycle⟩ := exists_cycle_of_resolve_eq_error h
    Circles.endless ⟨.var v, hreach, hcycle⟩
  have htangled : ∀ {fault}, s.apply ty = .error fault → s.Tangled ty := fun h =>
    have ⟨w, _, hcycle, v, hv, hreach⟩ := tangled_of_apply_eq_error h
    ⟨v, hv, w, hreach, hcycle⟩
  refine ⟨⟨fun ⟨_, h⟩ => hendless h, fun hchain => ?_⟩,
    fun _ => exists_cycle_of_resolve_eq_error, fun hchain => ?_, apply_eq_replaceVars_chase s ty,
    ⟨fun ⟨_, h⟩ => htangled h, fun htangle => ?_⟩, fun _ => tangled_of_apply_eq_error,
    fun htangle => ?_⟩
  · cases hresolve : s.resolve ty with
    | error fault => exact ⟨fault, rfl⟩
    | ok head => exact absurd (isLast_of_follow_eq_ok hresolve) hchain.not_isLast
  · cases hresolve : s.resolve ty with
    | error fault => exact absurd (hendless hresolve) hchain
    | ok head => exact ⟨head, rfl, isLast_of_follow_eq_ok hresolve⟩
  · cases happly : s.apply ty with
    | error fault => exact ⟨fault, rfl⟩
    | ok applied => exact absurd htangle (not_tangled_of_apply_eq_ok happly)
  · cases happly : s.apply ty with
    | error fault => exact absurd (htangled happly) htangle
    | ok applied =>
        have hvars := mem_freeVars_of_apply_eq_ok happly
        exact ⟨applied, rfl, hvars, apply_of_unbound fun w hw => ((hvars w).mp hw).1,
          exists_resolve_of_apply_eq_ok happly⟩

end Subst

end TypeInference
