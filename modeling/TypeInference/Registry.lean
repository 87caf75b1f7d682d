/-
# Traits and their instances

A trait is a named set of type tags.  A registry is built once, by declaring
traits and registering instances, and does not change afterwards.  Queries look
below the literal wrappers of a type.
-/

import TypeInference.Fault
import TypeInference.KeyMap
import TypeInference.Operator

namespace TypeInference

/-- The trait of operands of `+`. -/
def addable : String := "Addable"

/-- The trait of operands of `-`, `*` and `/`. -/
def arithmetic : String := "Arithmetic"

/-- The trait of operands of the order comparisons. -/
def comparable : String := "Comparable"

/-- The trait of operands of `==` and `!=`. -/
def equatable : String := "Equatable"

/-- The trait that both operands must have.  The logical operators have none:
they require `bool` itself. -/
def Operator.trait? : Operator → Option String
  | .add => some addable
  | .sub | .mul | .div => some arithmetic
  | .lt | .gt | .le | .ge => some comparable
  | .eq | .ne => some equatable
  | .and | .or => none

/-- Why a registration or a query was refused. -/
inductive RegistryError where
  | duplicateTrait (name : String)
  | unknownTrait (name : String)
  deriving DecidableEq, Repr

/-- The text of a refusal. -/
def RegistryError.message : RegistryError → String
  | .duplicateTrait name => "trait `" ++ name ++ "` is already registered"
  | .unknownTrait name => "trait `" ++ name ++ "` is not registered"

/-- A trait: its name and the tags of the types that have it. -/
structure TypeTrait where
  name : String
  tags : List Tag
  deriving DecidableEq, Repr

namespace TypeTrait

/-- A trait without instances. -/
def new (name : String) : TypeTrait := ⟨name, []⟩

/-- Whether types with a tag are instances. -/
def hasInstance (entry : TypeTrait) (tag : Tag) : Bool := entry.tags.contains tag

/-- Make the types with a tag instances. -/
def addInstance (entry : TypeTrait) (tag : Tag) : TypeTrait :=
  if entry.hasInstance tag then entry else { entry with tags := tag :: entry.tags }

/-- The instances in the order of tags. -/
def instances (entry : TypeTrait) : List Tag := Tag.all.filter entry.hasInstance

end TypeTrait

/-- A registry under construction. -/
structure RegistryBuilder where
  traits : KeyMap String TypeTrait
  deriving DecidableEq

namespace RegistryBuilder

/-- No traits. -/
def empty : RegistryBuilder := ⟨.empty⟩

/-- Declare a trait without instances; a name can be declared once. -/
def declare (builder : RegistryBuilder) (name : String) :
    Except RegistryError RegistryBuilder :=
  if builder.traits.contains name then .error (.duplicateTrait name)
  else .ok ⟨builder.traits.insert name (.new name)⟩

/-- Make the types with a given tag instances of a declared trait. -/
def register (builder : RegistryBuilder) (name : String) (tag : Tag) :
    Except RegistryError RegistryBuilder :=
  match builder.traits.find? name with
  | none => .error (.unknownTrait name)
  | some entry => .ok ⟨builder.traits.insert name (entry.addInstance tag)⟩

/-- Declare a trait together with its instances. -/
def declareWith (builder : RegistryBuilder) (name : String) (tags : List Tag) :
    Except RegistryError RegistryBuilder := do
  let declared ← builder.declare name
  tags.foldlM (fun builder tag => builder.register name tag) declared

/-- Declare several traits with their instances, in order. -/
def ofList (seed : List (String × List Tag)) : Except RegistryError RegistryBuilder :=
  seed.foldlM (fun builder entry => builder.declareWith entry.1 entry.2) .empty

end RegistryBuilder

/-- A finished registry, identified by its version. -/
structure Registry where
  traits : KeyMap String TypeTrait
  version : Nat
  deriving DecidableEq

/-- The version that the next finished registry will have. -/
structure VersionCounter where
  next : Nat
  deriving DecidableEq, Repr

/-- Finish a registry under a version of its own. -/
def RegistryBuilder.build (builder : RegistryBuilder) (counter : VersionCounter) :
    Registry × VersionCounter :=
  (⟨builder.traits, counter.next⟩, ⟨counter.next + 1⟩)

namespace Registry

/-- The traits of the language's operators and the types that have them. -/
def builtinSeed : List (String × List Tag) :=
  [(addable, [.num, .str]),
   (arithmetic, [.num]),
   (comparable, [.num, .str]),
   (equatable, [.int, .num, .bool, .str, .none])]

/-- The registry of the language's own traits. -/
def builtin : Registry :=
  ⟨builtinSeed.foldl (fun traits entry => traits.insert entry.1 ⟨entry.1, entry.2⟩) .empty, 0⟩

/-- The counter before any registry but the built-in one was finished. -/
def firstVersions : VersionCounter := ⟨1⟩

/-- The names of all traits in ascending order. -/
def names (registry : Registry) : List String := registry.traits.keys

/-- Whether a trait is registered. -/
def contains (registry : Registry) (name : String) : Bool := registry.traits.contains name

/-- The trait with a name. -/
def get? (registry : Registry) (name : String) : Option TypeTrait := registry.traits.find? name

/-- The instances of a trait, in the order of tags. -/
def instances? (registry : Registry) (name : String) : Option (List Tag) :=
  (registry.get? name).map TypeTrait.instances

/-- Whether types with a tag are instances of a trait. -/
def hasInstance? (registry : Registry) (name : String) (tag : Tag) : Option Bool :=
  (registry.get? name).map (·.hasInstance tag)

/-- Whether a type has a trait, refusing unknown traits. -/
def checkTrait (registry : Registry) (ty : Ty) (name : String) : Except RegistryError Bool :=
  match registry.traits.find? name with
  | none => .error (.unknownTrait name)
  | some entry => .ok (entry.hasInstance ty.unwrap.tag)

/-- Whether a type has a trait that is known to be registered. -/
def satisfies (registry : Registry) (ty : Ty) (name : String) : Except Fault Bool :=
  match registry.checkTrait ty name with
  | .ok answer => .ok answer
  | .error _ => .error (.unregisteredTrait name)

/-- The names of the traits that a type has, each once and in ascending order. -/
def traitsOf (registry : Registry) (ty : Ty) : List String :=
  let held := registry.traits.values.filter (·.hasInstance ty.unwrap.tag)
  (held.foldl (fun names entry => names.insert entry.name ()) KeyMap.empty).keys

end Registry

end TypeInference
