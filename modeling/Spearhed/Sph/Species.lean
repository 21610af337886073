import Mathlib.Data.Fintype.Basic

/-!
# Species and roles

`RegionRole.hpp` and the species of the simulation.  A species is a population of particles; the roles
that it is assigned say which algorithms act on it.
-/

namespace Spearhed
namespace Sph

/-- The built-in roles. -/
inductive Role
  | Movable
  | Frozen
  | Source
  | Interior
  | Thermodynamic
  | OpenPMDOutput
  deriving DecidableEq

/-- `species::AllTypes`. -/
inductive Species
  | Default
  | Boundary
  | Tracer
  deriving DecidableEq

namespace Species

/-- `RolesOf`. -/
def roles : Species → List Role
  | Default => [.Interior, .Movable, .Source, .Thermodynamic, .OpenPMDOutput]
  | Boundary => [.Frozen, .Source, .Thermodynamic]
  | Tracer => [.Movable]

/-- `hasRole`. -/
def hasRole (S : Species) (role : Role) : Bool := decide (role ∈ S.roles)

/-- All of some roles, the test of `selectBuffers`. -/
def hasRoles (S : Species) (roles : List Role) : Bool := roles.all S.hasRole

/-- `species::all`. -/
def all : List Species := [Default, Boundary, Tracer]

theorem mem_all (S : Species) : S ∈ all := by
  cases S <;> decide

theorem nodup_all : all.Nodup := by decide

instance : Fintype Species := Fintype.ofList all mem_all

end Species

end Sph
end Spearhed
