import Cecs.Commands
import Cecs.Query

/-! # Saving and loading worlds

A persister is a chain of registered types. It saves a world as a map of entries,
one for each registered type that the world has values of, and loads one by
visiting the entries of such a map. A payload is the sequence of entries that
the data format round-trips. `none` stands for a panic. -/

namespace Cecs

open Foundation

/-- `std::any::type_name`. -/
class TypeName where
  typeName : TypeId → String

export TypeName (typeName)

/-- The requirement `<= expected, ^major` of the semver crate. -/
class VersionReq (Version : Type) where
  accepts (expected version : Version) : Bool

inductive SerTy where
  | Component
  | Resource
  | Noop
  deriving DecidableEq, Repr

namespace SerTy

/-- The `Debug` format. -/
def debug : SerTy → String
  | .Component => "Component"
  | .Resource => "Resource"
  | .Noop => "Noop"

end SerTy

def VERSION_KEY : String := "__version__"

def entryName [TypeName] (ty : SerTy) (component : TypeId) : String :=
  ty.debug ++ "_" ++ typeName component

/-- The value of an entry. -/
inductive Content (Version Value : Type) where
  | version (version : Version)
  | components (values : List (EntityId × Value))
  | resource (value : Value)

namespace Content

variable {Version Value : Type}

def asVersion : Content Version Value → Option Version
  | .version saved => some saved
  | _ => none

def asComponents : Content Version Value → Option (List (EntityId × Value))
  | .components values => some values
  | _ => none

def asResource : Content Version Value → Option Value
  | .resource value => some value
  | _ => none

end Content

abbrev Entries (Version Value : Type) := List (String × Content Version Value)

/-- What a serializer was told, and given. -/
structure Payload (Version Value : Type) where
  announced : Nat
  entries : Entries Version Value

inductive LoadError where
  | VersionMismatch
  /-- A value of another type than the one asked for. -/
  | InvalidType
  /-- A key was asked for while the value of the last one was not read. -/
  | ValueUnread
  /-- A value was asked for before its key. -/
  | KeyUnread
  deriving DecidableEq, Repr

/-- The position in a map: a value that was not read yet, and the entries left. -/
structure MapAccess (Version Value : Type) where
  pending : Option (Content Version Value)
  rest : Entries Version Value

namespace MapAccess

variable {Version Value : Type}

def nextKey (map : MapAccess Version Value) :
    Except LoadError (Option String × MapAccess Version Value) :=
  match map.pending, map.rest with
  | some _, _ => .error .ValueUnread
  | none, [] => .ok (none, map)
  | none, (key, content) :: rest => .ok (some key, { pending := some content, rest })

def nextValue {α : Type} (decode : Content Version Value → Option α)
    (map : MapAccess Version Value) : Except LoadError (α × MapAccess Version Value) :=
  match map.pending with
  | none => .error .KeyUnread
  | some content =>
      match decode content with
      | none => .error .InvalidType
      | some value => .ok (value, { map with pending := none })

end MapAccess

/-- The chain, the last registration first. -/
inductive WorldPersister (Version : Type) where
  | nil (version : Option Version)
  | cons (ty : SerTy) (component : TypeId) (version : Option Version)
      (next : WorldPersister Version)

namespace WorldPersister

section Build

variable {Version : Type}

def new : WorldPersister Version := .nil none

def version : WorldPersister Version → Option Version
  | .nil version => version
  | .cons _ _ version _ => version

def setVersion (self : WorldPersister Version) (version : Option Version) :
    WorldPersister Version :=
  match self with
  | .nil _ => .nil version
  | .cons ty component _ next => .cons ty component version next

def withVersion (self : WorldPersister Version) (version : Version) :
    WorldPersister Version := self.setVersion (some version)

/-- The version moves to the new head of the chain. -/
def withComponent (self : WorldPersister Version) (component : TypeId) :
    WorldPersister Version :=
  .cons .Component component self.version (self.setVersion none)

def withResource (self : WorldPersister Version) (resource : TypeId) :
    WorldPersister Version :=
  .cons .Resource resource self.version (self.setVersion none)

/-- The registered types with their kinds. -/
def entries : WorldPersister Version → List (SerTy × TypeId)
  | .nil _ => []
  | .cons ty component _ next => (ty, component) :: next.entries

end Build

variable {Version Value : Type}

section Save

variable [TypeName]

omit [TypeName] in
/-- An item of `(EntityId, &T)`. -/
def entityValue : Item Value → Option (EntityId × Value)
  | .pair (.entityId id) (.ref value) => some (id, value)
  | _ => none

omit [TypeName] in
/-- `Query::<(EntityId, &T)>`, collected. -/
def componentValues (w : World Value) (component : TypeId) : List (EntityId × Value) :=
  (Query.iter ⟨.pair .entityId (.ref component), .unit⟩ w).filterMap entityValue

def saveImpl (ty : SerTy) (component : TypeId) (w : World Value) : Entries Version Value :=
  match ty with
  | .Component =>
      let values := componentValues w component
      if values.isEmpty then [] else [(entryName ty component, .components values)]
  | .Resource =>
      match w.resources[component]? with
      | some value => [(entryName ty component, .resource value)]
      | none => []
  | .Noop => []

def saveEntry (self : WorldPersister Version) (w : World Value) : Entries Version Value :=
  match self with
  | .nil _ => []
  | .cons ty component _ next => saveImpl ty component w ++ next.saveEntry w

omit [TypeName] in
/-- Whether the world has values of a registered type. -/
def countsEntry (w : World Value) (ty : SerTy) (component : TypeId) : Bool :=
  match ty with
  | .Component => !Query.isEmpty ⟨.ref component, .unit⟩ w
  | .Resource => w.resources.contains component
  | .Noop => false

omit [TypeName] in
def countEntries (self : WorldPersister Version) (w : World Value) : Nat :=
  match self with
  | .nil _ => 0
  | .cons ty component _ next => (countsEntry w ty component).toNat + next.countEntries w

def save (self : WorldPersister Version) (w : World Value) : Payload Version Value :=
  let len := self.countEntries w + self.version.isSome.toNat
  let versionEntry := self.version.toList.map fun version => (VERSION_KEY, .version version)
  { announced := len, entries := versionEntry ++ self.saveEntry w }

end Save

section Load

variable [UnitTypeId] [BuiltinValues Value]

/-- The body of the loop over the values of one component type; both results are
unwrapped. -/
def loadComponent (component : TypeId) (world : World Value) (entry : EntityId × Value) :
    Option (World Value) := do
  let world ←
    if world.isIdValid entry.1 then some world
    else
      match ← world.insertId entry.1 with
      | (.ok (), inserted) => some inserted
      | (.error _, _) => none
  match ← world.setComponent entry.1 component entry.2 with
  | (.ok (), set) => some set
  | (.error _, _) => none

def visitMapValueImpl (ty : SerTy) (component : TypeId) (map : MapAccess Version Value)
    (world : World Value) :
    Option (Except LoadError (MapAccess Version Value × World Value)) :=
  match ty with
  | .Component =>
      match map.nextValue Content.asComponents with
      | .ok (values, map) => do
          return .ok (map, ← values.foldlM (loadComponent component) world)
      | .error error => some (.error error)
  | .Resource =>
      match map.nextValue Content.asResource with
      | .ok (value, map) => some (.ok (map, world.insertResource component value))
      | .error error => some (.error error)
  | .Noop => some (.ok (map, world))

variable [TypeName]

/-- A key that no registered type has is not an error, and its value stays unread. -/
def visitMapValue (self : WorldPersister Version) (key : String)
    (map : MapAccess Version Value) (world : World Value) :
    Option (Except LoadError (MapAccess Version Value × World Value)) :=
  match self with
  | .nil _ =>
      if entryName .Noop unitTypeId ≠ key then some (.ok (map, world))
      else visitMapValueImpl .Noop unitTypeId map world
  | .cons ty component _ next =>
      if entryName ty component ≠ key then next.visitMapValue key map world
      else visitMapValueImpl ty component map world

variable [VersionReq Version]

/-- The version entry is read only by a persister that has a version. -/
def visitVersion (self : WorldPersister Version) (map : MapAccess Version Value) :
    Except LoadError (MapAccess Version Value) :=
  match self.version with
  | none => .ok map
  | some expected =>
      match map.nextValue Content.asVersion with
      | .error error => .error error
      | .ok (version, map) =>
          if VersionReq.accepts expected version then .ok map else .error .VersionMismatch

/-- The loop takes one key in each round, so a map of `n` entries is done in
`n + 1` rounds. -/
def visitMap (self : WorldPersister Version) :
    Nat → MapAccess Version Value → World Value → Option (Except LoadError (World Value))
  | 0, _, _ => none
  | fuel + 1, map, world =>
      match map.nextKey with
      | .error error => some (.error error)
      | .ok (none, _) => some (.ok world)
      | .ok (some key, map) =>
          if key = VERSION_KEY then
            match self.visitVersion map with
            | .error error => some (.error error)
            | .ok map => self.visitMap fuel map world
          else do
            match ← self.visitMapValue key map world with
            | .error error => return .error error
            | .ok (map, world) => self.visitMap fuel map world

def load (self : WorldPersister Version) (payload : Payload Version Value) :
    Option (Except LoadError (World Value)) := do
  let world ← World.new 0
  self.visitMap (payload.entries.length + 1) { pending := none, rest := payload.entries } world

end Load

end WorldPersister

/-! Names and versions to evaluate the model with: a version is its major number. -/
namespace Sample

scoped instance : TypeName := ⟨fun ty => String.ofList (List.replicate ty.toNat 'T')⟩

scoped instance : VersionReq Nat := ⟨fun expected version => decide (version = expected)⟩

theorem typeName_injective : Function.Injective (typeName : TypeId → String) := by
  intro left right same
  have lists := congrArg List.length (String.ofList_inj.mp same)
  simp only [List.length_replicate] at lists
  exact BitVec.eq_of_toNat_eq lists

end Sample

end Cecs
