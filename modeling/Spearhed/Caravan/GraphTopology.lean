import Mathlib.Logic.Relation
import Mathlib.Tactic

/-!
# Graph topologies

`GraphTopology` of `core/sender/graph.hpp` holds the nodes of a fixed graph in argument order.
Edges are given by name: a node lists the names it is placed after.  `caravan::graph` accepts a
topology only when the names are distinct and every listed name belongs to an earlier node, so
both checks are fields here and a bad topology cannot be built.

The same topology drives the lowering of native submissions and the general `GraphOperation`.
-/

namespace Spearhed
namespace Caravan

/-- `GraphTopology`: the names of the nodes, in argument order, and the names each node is
placed after.  The two last fields are the `static_assert`s of `caravan::graph`. -/
structure GraphTopology (n : ℕ) where
  /-- `Node<T_Index>::identity`. -/
  identity : Fin n → String
  /-- `Node<T_Index>::predecessors`, the argument list of `After`. -/
  after : Fin n → List String
  /-- `hasUniqueNames`. -/
  hasUniqueNames : ∀ i, (List.finRange n).countP (fun j => identity j == identity i) = 1
  /-- `isTopologicallyOrdered`. -/
  isTopologicallyOrdered : ∀ i, ∀ name ∈ after i, ∃ j, j < i ∧ identity j = name

namespace GraphTopology

variable {n : ℕ}

/-- `GraphTopology::predecessors[row][column]`, by `containsIdentity`. -/
def predecessors (T : GraphTopology n) (row column : Fin n) : Bool :=
  (T.after row).contains (T.identity column)

/-- The same matrix on plain indices, as `addGraphDependencies` reads it. -/
def predecessorsAt (T : GraphTopology n) (row column : ℕ) : Bool :=
  if h : row < n ∧ column < n then T.predecessors ⟨row, h.1⟩ ⟨column, h.2⟩ else false

/-- Unique names are distinct names. -/
theorem identity_injective (T : GraphTopology n) : Function.Injective T.identity := by
  intro i j hij
  have hcount := T.hasUniqueNames i
  rw [List.countP_eq_length_filter, List.length_eq_one_iff] at hcount
  obtain ⟨k, hk⟩ := hcount
  have hi : i ∈ (List.finRange n).filter fun j => T.identity j == T.identity i := by simp
  have hj : j ∈ (List.finRange n).filter fun j => T.identity j == T.identity i := by simp [hij]
  rw [hk, List.mem_singleton] at hi hj
  rw [hi, hj]

/-- An edge of the topology leads to an earlier node. -/
theorem lt_of_predecessors (T : GraphTopology n) {row column : Fin n}
    (h : T.predecessors row column = true) : column < row := by
  rw [predecessors, List.contains_iff_mem] at h
  obtain ⟨j, hj, hname⟩ := T.isTopologicallyOrdered row _ h
  rwa [← T.identity_injective hname]

/-- Node `a` comes before node `b`: the transitive closure of the node edges. -/
def Before (T : GraphTopology n) (a b : Fin n) : Prop :=
  Relation.TransGen (fun a b => T.predecessors b a = true) a b

end GraphTopology

end Caravan
end Spearhed
