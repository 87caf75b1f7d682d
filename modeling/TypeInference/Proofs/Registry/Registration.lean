/-
# A registry answers what was registered

Calls on a registry under construction may be refused, and a refused call leaves
everything as it was.  What a finished registry answers is compared with the list of
the calls alone: a trait is known if it was declared, and a type has it if its tag
was registered by a call that was accepted.

There are two ways to ask.  One looks a trait up under its name, the other goes
through all traits and lists the names that they carry.  They agree because a trait
is always stored under the name that it carries.
-/

import Mathlib.Data.List.Induction
import TypeInference.Registry

namespace TypeInference

/-- Any number of literal wrappers is looked through. -/
theorem Ty.unwrap_foldl_const (values : List Literal) (ty : Ty) :
    (values.foldl .const ty).unwrap = ty.unwrap := by
  induction values generalizing ty with
  | nil => rfl
  | cons value rest ih => exact ih (.const ty value)

namespace TypeTrait

@[simp] theorem name_addInstance (entry : TypeTrait) (tag : Tag) :
    (entry.addInstance tag).name = entry.name := by
  rw [addInstance]
  split <;> rfl

@[simp] theorem hasInstance_new (name : String) (tag : Tag) :
    (new name).hasInstance tag = false := rfl

/-- A trait has one instance more after it was added. -/
theorem hasInstance_addInstance {entry : TypeTrait} {tag other : Tag} :
    (entry.addInstance tag).hasInstance other = true ↔
      other = tag ∨ entry.hasInstance other = true := by
  rw [addInstance]
  split
  · rename_i hold
    refine ⟨.inr, ?_⟩
    rintro (rfl | h)
    · exact hold
    · exact h
  · simp [hasInstance]

end TypeTrait

/-- A call on a registry under construction. -/
inductive Registration where
  | declare (name : String)
  | register (name : String) (tag : Tag)
  deriving DecidableEq

namespace RegistryBuilder

/-- Carry out a call. -/
def attempt (builder : RegistryBuilder) : Registration → Except RegistryError RegistryBuilder
  | .declare name => builder.declare name
  | .register name tag => builder.register name tag

/-- What there is after a call.  A refused call leaves the builder as it was. -/
def after (builder : RegistryBuilder) (call : Registration) : RegistryBuilder :=
  match builder.attempt call with
  | .ok next => next
  | .error _ => builder

/-- What calls make of a new builder, whether they are accepted or refused. -/
def ofCalls (calls : List Registration) : RegistryBuilder := calls.foldl after empty

/-- A call that was accepted when its turn came. -/
def Accepted (calls : List Registration) (call : Registration) : Prop :=
  ∃ early late, calls = early ++ call :: late ∧ ∃ next, (ofCalls early).attempt call = .ok next

section Call

variable {builder : RegistryBuilder} {name : String}

theorem declare_of_find?_eq_none (h : builder.traits.find? name = none) :
    builder.declare name = .ok ⟨builder.traits.insert name (.new name)⟩ := by
  simp [declare, KeyMap.contains, h]

theorem declare_of_find?_eq_some {entry : TypeTrait} (h : builder.traits.find? name = some entry) :
    builder.declare name = .error (.duplicateTrait name) := by
  simp [declare, KeyMap.contains, h]

theorem register_of_find?_eq_none (h : builder.traits.find? name = none) (tag : Tag) :
    builder.register name tag = .error (.unknownTrait name) := by
  rw [register, h]

theorem register_of_find?_eq_some {entry : TypeTrait} (h : builder.traits.find? name = some entry)
    (tag : Tag) :
    builder.register name tag = .ok ⟨builder.traits.insert name (entry.addInstance tag)⟩ := by
  rw [register, h]

theorem after_of_accepted (call : Registration) {next : RegistryBuilder}
    (h : builder.attempt call = .ok next) : builder.after call = next := by
  rw [after, h]

/-- A refused call changes nothing. -/
theorem after_of_refused (call : Registration) {error : RegistryError}
    (h : builder.attempt call = .error error) : builder.after call = builder := by
  rw [after, h]

/-- A declaration adds a trait without instances, unless there is one with the name. -/
theorem find?_after_declare (builder : RegistryBuilder) (name other : String) :
    (builder.after (.declare name)).traits.find? other =
      if other = name ∧ builder.traits.find? other = none then some (.new other)
      else builder.traits.find? other := by
  cases hname : builder.traits.find? name with
  | some entry =>
      rw [after_of_refused (.declare name) (declare_of_find?_eq_some hname), if_neg]
      rintro ⟨rfl, hnone⟩
      rw [hname] at hnone
      cases hnone
  | none =>
      rw [after_of_accepted (.declare name) (declare_of_find?_eq_none hname)]
      by_cases heq : other = name
      · subst heq
        rw [if_pos ⟨rfl, hname⟩, KeyMap.find?_insert_self]
      · rw [if_neg fun h => heq h.1, KeyMap.find?_insert_of_ne _ heq]

/-- A registration adds an instance to the trait with the name, if there is one. -/
theorem find?_after_register (builder : RegistryBuilder) (name other : String) (tag : Tag) :
    (builder.after (.register name tag)).traits.find? other =
      if other = name then (builder.traits.find? other).map (·.addInstance tag)
      else builder.traits.find? other := by
  cases hname : builder.traits.find? name with
  | none =>
      rw [after_of_refused (.register name tag) (register_of_find?_eq_none hname tag)]
      split
      · rename_i heq
        rw [heq, hname, Option.map_none]
      · rfl
  | some entry =>
      rw [after_of_accepted (.register name tag) (register_of_find?_eq_some hname tag)]
      split
      · rename_i heq
        rw [heq, hname, Option.map_some, KeyMap.find?_insert_self]
      · rename_i hne
        rw [KeyMap.find?_insert_of_ne _ hne]

theorem exists_declare_iff :
    (∃ next, builder.declare name = .ok next) ↔ builder.traits.find? name = none := by
  cases hname : builder.traits.find? name with
  | none => simp [declare_of_find?_eq_none hname]
  | some entry => simp [declare_of_find?_eq_some hname]

theorem exists_register_iff {tag : Tag} :
    (∃ next, builder.register name tag = .ok next) ↔
      ∃ entry, builder.traits.find? name = some entry := by
  cases hname : builder.traits.find? name with
  | none => simp [register_of_find?_eq_none hname]
  | some entry => simp [register_of_find?_eq_some hname]

end Call

/-! ## Any number of calls -/

theorem ofCalls_concat (calls : List Registration) (call : Registration) :
    ofCalls (calls ++ [call]) = (ofCalls calls).after call := by
  rw [ofCalls, List.foldl_append]
  rfl

/-- A refused call may be left out, whatever calls come after it. -/
theorem ofCalls_of_refused {calls : List Registration} (call : Registration)
    {error : RegistryError} (later : List Registration)
    (h : (ofCalls calls).attempt call = .error error) :
    ofCalls (calls ++ call :: later) = ofCalls (calls ++ later) := by
  have hsame : (calls.foldl after empty).after call = calls.foldl after empty :=
    after_of_refused call h
  rw [ofCalls, List.foldl_append, List.foldl_cons, hsame, ofCalls, List.foldl_append]

theorem accepted_concat {calls : List Registration} {last call : Registration} :
    Accepted (calls ++ [last]) call ↔
      Accepted calls call ∨ last = call ∧ ∃ next, (ofCalls calls).attempt call = .ok next := by
  constructor
  · rintro ⟨early, late, hsplit, haccepted⟩
    rcases List.eq_nil_or_concat late with rfl | ⟨others, final, rfl⟩
    · obtain ⟨rfl, hlast⟩ := List.append_inj' hsplit rfl
      exact .inr ⟨List.singleton_inj.mp hlast, haccepted⟩
    · rw [List.concat_eq_append, ← List.cons_append, ← List.append_assoc] at hsplit
      exact .inl ⟨early, others, (List.append_inj' hsplit rfl).1, haccepted⟩
  · rintro (⟨early, late, rfl, haccepted⟩ | ⟨rfl, haccepted⟩)
    · exact ⟨early, late ++ [last], by simp, haccepted⟩
    · exact ⟨calls, [], rfl, haccepted⟩

/-- There is a trait with a name exactly if it was declared. -/
theorem exists_find?_ofCalls {calls : List Registration} {name : String} :
    (∃ entry, (ofCalls calls).traits.find? name = some entry) ↔ .declare name ∈ calls := by
  induction calls using List.reverseRecOn with
  | nil =>
      rw [ofCalls, List.foldl_nil, empty, KeyMap.find?_empty]
      simp
  | append_singleton calls last ih =>
      rw [ofCalls_concat, List.mem_append, ← ih, List.mem_singleton]
      cases last with
      | declare declared =>
          rw [find?_after_declare, Registration.declare.injEq]
          cases (ofCalls calls).traits.find? name <;> simp
      | register registered tag =>
          rw [find?_after_register]
          cases (ofCalls calls).traits.find? name with
          | none => simp
          | some entry => split <;> simp

theorem find?_ofCalls_eq_none_iff {calls : List Registration} {name : String} :
    (ofCalls calls).traits.find? name = none ↔ .declare name ∉ calls := by
  rw [← exists_find?_ofCalls, ← Option.isSome_iff_exists, Option.not_isSome_iff_eq_none]

/-- Instances are registered only of declared traits. -/
theorem Accepted.declare_mem {calls : List Registration} {name : String} {tag : Tag}
    (h : Accepted calls (.register name tag)) : .declare name ∈ calls := by
  obtain ⟨early, late, rfl, haccepted⟩ := h
  exact List.mem_append_left _ (exists_find?_ofCalls.mp (exists_register_iff.mp haccepted))

/-- A trait is what calls say of it: stored under the name that it carries, with the
instances that were accepted. -/
structure Tells (calls : List Registration) (name : String) (entry : TypeTrait) : Prop where
  name_eq : entry.name = name
  hasInstance_iff : ∀ tag, entry.hasInstance tag = true ↔ Accepted calls (.register name tag)

-- The induction adds one call at the end, since whether a call is accepted depends on
-- the calls before it.
theorem tells_of_find? {calls : List Registration} {name : String} {entry : TypeTrait}
    (h : (ofCalls calls).traits.find? name = some entry) : Tells calls name entry := by
  induction calls using List.reverseRecOn generalizing entry with
  | nil =>
      rw [ofCalls, List.foldl_nil, empty, KeyMap.find?_empty] at h
      cases h
  | append_singleton calls last ih =>
      rw [ofCalls_concat] at h
      cases last with
      | declare declared =>
          have hsame (tag : Tag) : Accepted (calls ++ [.declare declared]) (.register name tag) ↔
              Accepted calls (.register name tag) := by
            simp [accepted_concat]
          rw [find?_after_declare] at h
          split at h
          · rename_i hnew
            cases h
            refine ⟨rfl, fun tag => ?_⟩
            have hnone := find?_ofCalls_eq_none_iff.mp hnew.2
            rw [hsame, TypeTrait.hasInstance_new]
            exact iff_of_false Bool.false_ne_true fun haccepted => hnone haccepted.declare_mem
          · obtain ⟨hname, hinstances⟩ := ih h
            exact ⟨hname, fun tag => (hinstances tag).trans (hsame tag).symm⟩
      | register registered tag =>
          rw [find?_after_register] at h
          split at h
          · rename_i heq
            subst heq
            obtain ⟨old, hold, rfl⟩ := Option.map_eq_some_iff.mp h
            obtain ⟨hname, hinstances⟩ := ih hold
            refine ⟨(old.name_addInstance tag).trans hname, fun other => ?_⟩
            have haccepted : ∃ next, (ofCalls calls).attempt (.register name other) = .ok next :=
              exists_register_iff.mpr ⟨old, hold⟩
            rw [TypeTrait.hasInstance_addInstance, accepted_concat, hinstances,
              and_iff_left haccepted, Registration.register.injEq, or_comm]
            simp [eq_comm]
          · rename_i hne
            obtain ⟨hname, hinstances⟩ := ih h
            refine ⟨hname, fun other => (hinstances other).trans ?_⟩
            simp [accepted_concat, Ne.symm hne]

end RegistryBuilder

namespace Registry

open RegistryBuilder

/-- The finished registry that calls lead to. -/
def ofCalls (calls : List Registration) (counter : VersionCounter) : Registry :=
  ((RegistryBuilder.ofCalls calls).build counter).1

theorem traits_ofCalls (calls : List Registration) (counter : VersionCounter) :
    (ofCalls calls counter).traits = (RegistryBuilder.ofCalls calls).traits := rfl

theorem mem_keys_foldl_insert {held : List TypeTrait} {names : KeyMap String Unit}
    {name : String} :
    name ∈ (held.foldl (fun names entry => names.insert entry.name ()) names).keys ↔
      name ∈ names.keys ∨ ∃ entry ∈ held, entry.name = name := by
  induction held generalizing names with
  | nil => simp
  | cons first rest ih =>
      rw [List.foldl_cons, ih, KeyMap.mem_keys_insert, @eq_comm _ name, or_assoc, or_left_comm]
      simp only [List.mem_cons, or_and_right, exists_or, exists_eq_left]

/-- The listed names are those that the traits with a fitting instance carry. -/
theorem mem_traitsOf {registry : Registry} {ty : Ty} {name : String} :
    name ∈ registry.traitsOf ty ↔
      ∃ key entry, registry.traits.find? key = some entry ∧
        entry.hasInstance ty.unwrap.tag = true ∧ entry.name = name := by
  rw [traitsOf, mem_keys_foldl_insert]
  simp only [List.mem_filter, KeyMap.mem_values_iff]
  constructor
  · rintro (hempty | ⟨entry, ⟨⟨key, hkey⟩, hinstance⟩, hname⟩)
    · cases hempty
    · exact ⟨key, entry, hkey, hinstance, hname⟩
  · rintro ⟨key, entry, hkey, hinstance, hname⟩
    exact .inr ⟨entry, ⟨⟨key, hkey⟩, hinstance⟩, hname⟩

theorem checkTrait_eq_ok_true_iff {registry : Registry} {ty : Ty} {name : String} :
    registry.checkTrait ty name = .ok true ↔
      ∃ entry, registry.traits.find? name = some entry ∧
        entry.hasInstance ty.unwrap.tag = true := by
  rw [checkTrait]
  cases registry.traits.find? name <;> simp

variable (calls : List Registration) (counter : VersionCounter) (ty : Ty) (name : String)

/-- The lookup and the list agree, since traits are stored under their own names. -/
theorem mem_traitsOf_ofCalls :
    name ∈ (ofCalls calls counter).traitsOf ty ↔
      (ofCalls calls counter).checkTrait ty name = .ok true := by
  rw [mem_traitsOf, checkTrait_eq_ok_true_iff]
  constructor
  · rintro ⟨key, entry, hkey, hinstance, rfl⟩
    have hkeyed : entry.name = key := (tells_of_find? hkey).name_eq
    exact ⟨entry, hkeyed ▸ hkey, hinstance⟩
  · rintro ⟨entry, hfound, hinstance⟩
    exact ⟨name, entry, hfound, hinstance, (tells_of_find? hfound).name_eq⟩

theorem nodup_traitsOf (registry : Registry) : (registry.traitsOf ty).Nodup :=
  KeyMap.nodup_keys _

variable {calls name}

/-- A declared trait is had by the types whose tag was registered. -/
theorem checkTrait_of_declared (h : .declare name ∈ calls) :
    ∃ answer, (ofCalls calls counter).checkTrait ty name = .ok answer ∧
      (ofCalls calls counter).satisfies ty name = .ok answer ∧
      (answer = true ↔ Accepted calls (.register name ty.unwrap.tag)) := by
  obtain ⟨entry, hfound⟩ := exists_find?_ofCalls.mpr h
  have hcheck : (ofCalls calls counter).checkTrait ty name =
      .ok (entry.hasInstance ty.unwrap.tag) := by
    rw [checkTrait, traits_ofCalls, hfound]
  refine ⟨_, hcheck, ?_, (tells_of_find? hfound).hasInstance_iff _⟩
  rw [satisfies, hcheck]

/-- A trait that was never declared is refused. -/
theorem checkTrait_of_undeclared (h : .declare name ∉ calls) :
    (ofCalls calls counter).checkTrait ty name = .error (.unknownTrait name) ∧
      (ofCalls calls counter).satisfies ty name = .error (.unregisteredTrait name) := by
  have hcheck : (ofCalls calls counter).checkTrait ty name = .error (.unknownTrait name) := by
    rw [checkTrait, traits_ofCalls, find?_ofCalls_eq_none_iff.mpr h]
  refine ⟨hcheck, ?_⟩
  rw [satisfies, hcheck]

/-- Literal wrappers do not show in an answer. -/
theorem answers_foldl_const (registry : Registry) (values : List Literal) (ty : Ty)
    (name : String) :
    registry.checkTrait (values.foldl .const ty) name = registry.checkTrait ty name ∧
    registry.satisfies (values.foldl .const ty) name = registry.satisfies ty name ∧
    registry.traitsOf (values.foldl .const ty) = registry.traitsOf ty := by
  have hunwrap := Ty.unwrap_foldl_const values ty
  refine ⟨?_, ?_, ?_⟩
  · rw [checkTrait, hunwrap, checkTrait]
  · rw [satisfies, checkTrait, hunwrap, satisfies, checkTrait]
  · rw [traitsOf, hunwrap, traitsOf]

/-- Calls on a new builder, accepted or refused, are followed by its completion.  The
registry knows the traits that were declared.  Of the others both forms of the question
are refused, and of a declared trait both have one answer: whether a registration of the
tag below all wrappers was accepted.  The traits of a type are those for which the answer
is yes.  A registration is accepted exactly if its trait was declared before, and a
declaration exactly if it was not.  Without a refused call everything comes out as it did,
so that a second declaration leaves the instances alone. -/
theorem registry_answers_registrations (calls : List Registration) (counter : VersionCounter)
    (ty : Ty) (name : String) :
    ((ofCalls calls counter).contains name = true ↔ .declare name ∈ calls) ∧
    ((ofCalls calls counter).checkTrait ty name = .error (.unknownTrait name) ↔
      .declare name ∉ calls) ∧
    ((∃ fault, (ofCalls calls counter).satisfies ty name = .error fault) ↔
      .declare name ∉ calls) ∧
    (.declare name ∈ calls → ∃ answer, (ofCalls calls counter).checkTrait ty name = .ok answer ∧
      (ofCalls calls counter).satisfies ty name = .ok answer ∧
      (answer = true ↔ Accepted calls (.register name ty.unwrap.tag))) ∧
    (∀ other, other ∈ (ofCalls calls counter).traitsOf ty ↔
      (ofCalls calls counter).checkTrait ty other = .ok true) ∧
    ((ofCalls calls counter).traitsOf ty).Nodup ∧
    (∀ values : List Literal,
      (ofCalls calls counter).checkTrait (values.foldl .const ty) name =
        (ofCalls calls counter).checkTrait ty name ∧
      (ofCalls calls counter).satisfies (values.foldl .const ty) name =
        (ofCalls calls counter).satisfies ty name ∧
      (ofCalls calls counter).traitsOf (values.foldl .const ty) =
        (ofCalls calls counter).traitsOf ty) ∧
    ((∃ next, (RegistryBuilder.ofCalls calls).declare name = .ok next) ↔
      .declare name ∉ calls) ∧
    (∀ tag, (∃ next, (RegistryBuilder.ofCalls calls).register name tag = .ok next) ↔
      .declare name ∈ calls) ∧
    (∀ call error later, (RegistryBuilder.ofCalls calls).attempt call = .error error →
      RegistryBuilder.ofCalls (calls ++ call :: later) =
        RegistryBuilder.ofCalls (calls ++ later)) ∧
    (.declare name ∈ calls →
      (RegistryBuilder.ofCalls calls).declare name = .error (.duplicateTrait name) ∧
      RegistryBuilder.ofCalls (calls ++ [.declare name]) = RegistryBuilder.ofCalls calls) := by
  have hdeclared (h : .declare name ∈ calls) := checkTrait_of_declared counter ty h
  have hundeclared (h : .declare name ∉ calls) := checkTrait_of_undeclared counter ty h
  refine ⟨?_, ⟨?_, fun h => (hundeclared h).1⟩, ⟨?_, fun h => ⟨_, (hundeclared h).2⟩⟩, hdeclared,
    fun other => mem_traitsOf_ofCalls calls counter ty other, nodup_traitsOf ty _,
    fun values => answers_foldl_const _ values ty name, ?_, ?_,
    fun call error later => ofCalls_of_refused call later, ?_⟩
  · exact Option.isSome_iff_exists.trans exists_find?_ofCalls
  · intro hrefused h
    obtain ⟨answer, hanswer, _⟩ := hdeclared h
    rw [hanswer] at hrefused
    cases hrefused
  · rintro ⟨fault, hfault⟩ h
    obtain ⟨answer, _, hanswer, _⟩ := hdeclared h
    rw [hanswer] at hfault
    cases hfault
  · rw [exists_declare_iff, find?_ofCalls_eq_none_iff]
  · intro tag
    rw [exists_register_iff, exists_find?_ofCalls]
  · intro h
    obtain ⟨entry, hfound⟩ := exists_find?_ofCalls.mpr h
    have hduplicate := declare_of_find?_eq_some hfound
    refine ⟨hduplicate, (ofCalls_of_refused (.declare name) [] hduplicate).trans ?_⟩
    rw [List.append_nil]

example : (ofCalls [.register "Show" .bool, .declare "Show", .register "Show" .num,
    .declare "Show"] ⟨1⟩).traitsOf (.const .num (.bool true)) = ["Show"] := by
  decide +kernel

end Registry

end TypeInference
