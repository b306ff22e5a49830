import FilterTree.Filter.Basic

/-!
# Registries

A document names its filters by identifier and a user by name, so a registry
keeps filters of which no two share either. Registering a filter that would is
refused and changes nothing. The filters stay in the order in which they were
registered, which is the order in which they are listed.
-/

namespace FilterTree

/-- Why a filter was not registered or not found. -/
inductive RegistryError where
  | duplicate (uuid : Uuid) (name : String)
  | duplicateName (name : String)
  | unknownUuid (uuid : Uuid)
  | unknownName (name : String)
deriving DecidableEq, Repr

/-- The text of an error of a registry. -/
def RegistryError.message : RegistryError → String
  | duplicate uuid name => "filter " ++ uuid.toText ++ s!" is already registered as '{name}'"
  | duplicateName name => s!"filter name '{name}' is already registered"
  | unknownUuid uuid => "no filter registered with uuid " ++ uuid.toText
  | unknownName name => s!"no filter registered with name '{name}'"

/-- Filters with distinct identifiers and names, in the order of registration. -/
structure Registry where
  filters : List Filter
  uuidsNodup : (filters.map Filter.uuid).Nodup
  namesNodup : (filters.map Filter.name).Nodup

namespace Registry

/-- The registry without filters. -/
def empty : Registry := ⟨[], .nil, .nil⟩

variable (r : Registry)

/-! ## Looking up -/

/-- The filter with an identifier. -/
def find? (uuid : Uuid) : Option Filter := r.filters.find? fun f => f.uuid = uuid

/-- The filter with a name. -/
def findNamed? (name : String) : Option Filter := r.filters.find? fun f => f.name = name

/-- Whether a filter has an identifier. -/
def contains (uuid : Uuid) : Bool := (r.find? uuid).isSome

/-- The filter with an identifier, or the error that there is none. -/
def get (uuid : Uuid) : Except RegistryError Filter :=
  match r.find? uuid with
  | some f => .ok f
  | none => .error (.unknownUuid uuid)

/-- The filter with a name, or the error that there is none. -/
def getNamed (name : String) : Except RegistryError Filter :=
  match r.findNamed? name with
  | some f => .ok f
  | none => .error (.unknownName name)

/-- The names of the filters between brackets, each in quotes. -/
def text : String := Numeral.listText (r.filters.map fun f => "\"" ++ f.name ++ "\"")

/-! ## Registering -/

theorem nodup_map_concat {β : Type} [DecidableEq β] {g : Filter → β} {l : List Filter} {f : Filter}
    (hl : (l.map g).Nodup) (hf : l.find? (fun h => g h = g f) = none) :
    ((l ++ [f]).map g).Nodup := by
  rw [List.map_append, List.nodup_append]
  refine ⟨hl, by simp, ?_⟩
  intro a ha b hb
  obtain ⟨h, hmem, rfl⟩ := List.mem_map.mp ha
  obtain rfl : b = g f := by simpa using hb
  simpa using List.find?_eq_none.mp hf h hmem

/-- Register a filter at the end. -/
def register (f : Filter) : Except RegistryError Registry :=
  match hu : r.find? f.uuid with
  | some g => .error (.duplicate f.uuid g.name)
  | none =>
    match hn : r.findNamed? f.name with
    | some _ => .error (.duplicateName f.name)
    | none =>
      .ok ⟨r.filters ++ [f], nodup_map_concat r.uuidsNodup hu, nodup_map_concat r.namesNodup hn⟩

/-- Register filters in turn, up to the first that is refused. -/
def registerAll (r : Registry) : List Filter → Except RegistryError Unit × Registry
  | [] => (.ok (), r)
  | f :: rest =>
    match r.register f with
    | .ok r => registerAll r rest
    | .error e => (.error e, r)

end Registry

end FilterTree
