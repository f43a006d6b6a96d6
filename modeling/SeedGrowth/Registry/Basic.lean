import SeedGrowth.Capacity.OfValue
import SeedGrowth.Value.Equality

/-!
# Registries

A registry hands out flags to names, from zero upwards, in the order in which
the names are first seen; a name keeps its flag for good. It also holds how deep
the calls that use it are nested, and whether they are traced.
-/
namespace SeedGrowth

/-- Names with their flags, a name's flag being its place in the list. -/
structure Registry where
  capacity : Capacity
  verbose : Bool
  /-- How many calls are unfinished. -/
  level : Nat
  names : List Value

namespace Registry

/-- A registry without names. -/
def empty (capacity : Capacity) (verbose : Bool) : Registry := ⟨capacity, verbose, 0, []⟩

instance : Inhabited Registry := ⟨empty .standard false⟩

/-- A registry for a given number of flags. -/
def create (capacity : Option Value) (verbose : Bool) : Except Fault Registry := do
  return empty (← Capacity.ofValue? capacity) verbose

/-- The number of names. -/
def size (r : Registry) : Nat := r.names.length

/-- The flag of a name, if it has one. -/
def find? (r : Registry) (name : Value) : Option Nat := r.names.findIdx? name.alike

/-- The flag of a name; a new name gets the next free one. -/
def get (r : Registry) (name : Value) : Except Fault (Nat × Registry) :=
  if name.hashable then
    match r.find? name with
    | some flag => .ok (flag, r)
    | none =>
      if r.size < r.capacity.size then .ok (r.size, { r with names := r.names ++ [name] })
      else .error (.registryFull r.capacity)
  else .error (.unhashable .list)

/-- Whether a name has a flag. -/
def contains (r : Registry) (name : Value) : Except Fault Bool :=
  if name.hashable then .ok (r.find? name).isSome else .error (.unhashable .list)

/-- The written form of a registry. -/
def written (r : Registry) : String :=
  s!"RecursiveIndexes(capacity={r.capacity.text}, used={r.size})"

@[simp] theorem size_empty (c : Capacity) (verbose : Bool) : (empty c verbose).size = 0 := rfl

theorem get_of_find? {r : Registry} {name : Value} {flag : Nat} (hn : name.hashable = true)
    (hf : r.find? name = some flag) : r.get name = .ok (flag, r) := by
  simp [get, hn, hf]

theorem get_of_not_hashable {r : Registry} {name : Value} (hn : name.hashable = false) :
    r.get name = .error (.unhashable .list) := by
  simp [get, hn]

end Registry

end SeedGrowth
