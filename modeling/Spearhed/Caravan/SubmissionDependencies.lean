import Spearhed.Library.Blocks
import Spearhed.Library.Dag

/-!
# Dependency matrices of native submissions

`caravan::alpaka` lowers a sender expression to one flat array of stages and a Boolean matrix of
direct dependency edges.  This file is the matrix part of `alpaka/submission.hpp`: the matrix
itself, the composition of two matrices, and the in-place pass that adds the edges of a graph.

A matrix is stored as a stage count and an entry function; the entry `predecessors i j` says that
stage `i` depends directly on stage `j`.  Only the entries below the count are storage of the
source's `std::array`, and `IsTopological` is the invariant the source states about them: an edge
goes to a smaller index.

* `composeDependencies`: the left matrix, the right matrix shifted past it, and in the ordered
  case an edge from every left tail to every right root.
* `addGraphDependencies`: four nested loops that write into the matrix they read.
  `addGraphDependencies_edge_iff` is the closed form; it holds because the loops read entries inside
  one node only and write entries between two nodes only.
-/

namespace Spearhed
namespace Caravan

open Library

/-- Direct dependency edges between the stages of a submission. -/
structure SubmissionDependencies where
  /-- The number of stages, `T_Count`. -/
  stageCount : ℕ
  /-- `predecessors i j`: stage `i` depends directly on stage `j`. -/
  predecessors : ℕ → ℕ → Bool

namespace SubmissionDependencies

/-- `SubmissionDependencies::linear`: each stage after the one before it. -/
def linear (count : ℕ) : SubmissionDependencies where
  stageCount := count
  predecessors := fun i j => decide (1 ≤ i) && decide (i < count) && decide (j = i - 1)

/-- Stage `a` comes directly before stage `b`. -/
def Edge (D : SubmissionDependencies) (a b : ℕ) : Prop := D.predecessors b a = true

/-- The invariant of the source's class comment: an edge goes from a stage to a smaller one. -/
def IsTopological (D : SubmissionDependencies) : Prop :=
  ∀ i j, D.predecessors i j = true → j < i ∧ i < D.stageCount

theorem IsTopological.edge_lt {D : SubmissionDependencies} (h : D.IsTopological) :
    ∀ a b, D.Edge a b → a < b := fun a b hab => (h b a hab).1

/-- Stage `j` of the matrix has no successor: `tails[j]` of `composeDependencies`. -/
def isTail (D : SubmissionDependencies) (j : ℕ) : Bool :=
  (List.range D.stageCount).all fun i => !D.predecessors i j

/-- Row `i` has no edge: the `std::none_of` of `composeDependencies`. -/
def isRoot (D : SubmissionDependencies) (i : ℕ) : Bool :=
  (List.range D.stageCount).all fun j => !D.predecessors i j

theorem isTail_iff {D : SubmissionDependencies} {j : ℕ} (hj : j < D.stageCount) :
    D.isTail j = true ↔ IsTail (· < D.stageCount) D.Edge j := by
  simp [isTail, IsTail, Edge, hj]

theorem isRoot_iff {D : SubmissionDependencies} {i : ℕ} (hi : i < D.stageCount) :
    D.isRoot i = true ↔ IsRoot (· < D.stageCount) D.Edge i := by
  simp [isRoot, IsRoot, Edge, hi]

end SubmissionDependencies

open SubmissionDependencies

/-! ## Composition of two matrices -/

/-- `composeDependencies<T_Ordered>`: the stages of `left`, then the stages of `right`.  In the
ordered case each root row of `right` receives the tail mask of `left`. -/
def composeDependencies (ordered : Bool) (left right : SubmissionDependencies) :
    SubmissionDependencies where
  stageCount := left.stageCount + right.stageCount
  predecessors := fun i j =>
    if i < left.stageCount then
      decide (j < left.stageCount) && left.predecessors i j
    else if i < left.stageCount + right.stageCount then
      if j < left.stageCount then
        ordered && right.isRoot (i - left.stageCount) && left.isTail j
      else
        decide (j < left.stageCount + right.stageCount) &&
          right.predecessors (i - left.stageCount) (j - left.stageCount)
    else
      false

section Compose

variable (ordered : Bool) {L R : SubmissionDependencies}

@[simp] theorem composeDependencies_stageCount :
    (composeDependencies ordered L R).stageCount = L.stageCount + R.stageCount := rfl

/-- An edge of the composition lies in the left part, lies in the right part, or leads from a
left tail to a right root. -/
theorem composeDependencies_edge_iff (hL : L.IsTopological) (hR : R.IsTopological) (a b : ℕ) :
    (composeDependencies ordered L R).Edge a b ↔
      (L.Edge a b) ∨
      (L.stageCount ≤ a ∧ L.stageCount ≤ b ∧ R.Edge (a - L.stageCount) (b - L.stageCount)) ∨
      (ordered = true ∧ a < L.stageCount ∧ L.stageCount ≤ b ∧
        b < L.stageCount + R.stageCount ∧
        R.isRoot (b - L.stageCount) = true ∧ L.isTail a = true) := by
  unfold Edge composeDependencies
  dsimp only
  by_cases hb : b < L.stageCount
  · rw [if_pos hb]
    constructor
    · intro h
      rw [Bool.and_eq_true] at h
      exact Or.inl h.2
    · rintro (h | ⟨-, h, -⟩ | ⟨-, -, h, -⟩)
      · have := hL b a h
        simp [h, show a < L.stageCount by omega]
      · omega
      · omega
  · have hLno : ¬ L.predecessors b a = true := fun h => hb (hL b a h).2
    rw [if_neg hb]
    by_cases hb' : b < L.stageCount + R.stageCount
    · rw [if_pos hb']
      by_cases ha : a < L.stageCount
      · rw [if_pos ha]
        simp [hLno, ha, hb', show L.stageCount ≤ b by omega, show ¬ L.stageCount ≤ a by omega,
          and_assoc]
      · rw [if_neg ha]
        have hup : R.predecessors (b - L.stageCount) (a - L.stageCount) = true →
            a < L.stageCount + R.stageCount := by
          intro h
          have := hR _ _ h
          omega
        simp only [eq_false hLno, ha, false_or, false_and, and_false, or_false, Bool.and_eq_true,
          decide_eq_true_eq]
        constructor
        · rintro ⟨-, h⟩
          exact ⟨by omega, by omega, h⟩
        · rintro ⟨-, -, h⟩
          exact ⟨hup h, h⟩
    · rw [if_neg hb']
      have hRno : ¬ R.predecessors (b - L.stageCount) (a - L.stageCount) = true := by
        intro h
        have := (hR _ _ h).2
        omega
      simp [hLno, hRno, hb']

theorem isTopological_composeDependencies (hL : L.IsTopological) (hR : R.IsTopological) :
    (composeDependencies ordered L R).IsTopological := by
  intro i j hij
  rcases (composeDependencies_edge_iff ordered hL hR j i).mp hij with h | ⟨h1, h2, h⟩ | ⟨-, h1, h2, h3, -⟩
  · have := hL i j h
    simp only [composeDependencies_stageCount]
    omega
  · have := hR _ _ h
    simp only [composeDependencies_stageCount]
    omega
  · simp only [composeDependencies_stageCount]
    omega

end Compose

/-! ## The graph pass -/

/-- The entry `[i][j]` set to true. -/
def SubmissionDependencies.set (D : SubmissionDependencies) (i j : ℕ) :
    SubmissionDependencies :=
  { D with predecessors := fun i' j' => (i' == i && j' == j) || D.predecessors i' j' }

/-- `isRoot` of the graph pass: row `root` has no edge to a stage of its own node. -/
def isNodeRoot (D : SubmissionDependencies) (start count root : ℕ) : Bool :=
  (List.range' start count).all fun candidate => !D.predecessors root candidate

/-- `isTail` of the graph pass: no stage of its own node depends on `tail`. -/
def isNodeTail (D : SubmissionDependencies) (start count tail : ℕ) : Bool :=
  (List.range' start count).all fun candidate => !D.predecessors candidate tail

/-- `addGraphDependencies`: for every node and every direct predecessor node of it, an edge from
each tail of the predecessor to each root of the node.  The matrix is written in place, so each
test below reads the matrix as the loops have left it. -/
def addGraphDependencies (topology : ℕ → ℕ → Bool) (counts : List ℕ)
    (dependencies : SubmissionDependencies) : SubmissionDependencies :=
  (List.range counts.length).foldl (fun D node =>
    (List.range node).foldl (fun D predecessor =>
      if topology node predecessor then
        (List.range' (blockStart counts node) (counts.getD node 0)).foldl (fun D root =>
          if isNodeRoot D (blockStart counts node) (counts.getD node 0) root then
            (List.range' (blockStart counts predecessor) (counts.getD predecessor 0)).foldl
              (fun D tail =>
                if isNodeTail D (blockStart counts predecessor) (counts.getD predecessor 0) tail
                then D.set root tail else D) D
          else D) D
      else D) D) dependencies

section GraphPass

variable {topology : ℕ → ℕ → Bool} {counts : List ℕ} {D₀ D : SubmissionDependencies}

/-- What every matrix of the pass has in common with the one it started from: the stage count
and the entries inside one node. -/
def AgreesInside (counts : List ℕ) (D₀ D : SubmissionDependencies) : Prop :=
  D.stageCount = D₀.stageCount ∧
    ∀ k i j, InBlock counts k i → InBlock counts k j → D.predecessors i j = D₀.predecessors i j

/-- `f` adds exactly the edges `A` to every matrix that agrees with `D₀` inside the nodes, and
keeps that agreement. -/
def Adds (counts : List ℕ) (D₀ : SubmissionDependencies)
    (f : SubmissionDependencies → SubmissionDependencies) (A : ℕ → ℕ → Prop) : Prop :=
  ∀ D, AgreesInside counts D₀ D → AgreesInside counts D₀ (f D) ∧
    ∀ i j, (f D).predecessors i j = true ↔ D.predecessors i j = true ∨ A i j

/-- A loop adds what its iterations add. -/
theorem Adds.foldl {α : Type*} {f : SubmissionDependencies → α → SubmissionDependencies}
    {A : α → ℕ → ℕ → Prop} (l : List α)
    (h : ∀ x ∈ l, Adds counts D₀ (fun D => f D x) (A x)) :
    Adds counts D₀ (fun D => l.foldl f D) (fun i j => ∃ x ∈ l, A x i j) := by
  induction l with
  | nil =>
    intro D hD
    exact ⟨hD, fun i j => by simp⟩
  | cons x l ih =>
    intro D hD
    obtain ⟨hD', hadd⟩ := h x List.mem_cons_self D hD
    obtain ⟨hD'', hadd'⟩ := ih (fun y hy => h y (List.mem_cons_of_mem _ hy)) (f D x) hD'
    refine ⟨hD'', fun i j => ?_⟩
    have h2 := hadd' i j
    dsimp only at h2 ⊢
    rw [List.foldl_cons, h2, hadd i j]
    simp [or_assoc]

/-- A guarded iteration adds its edges exactly when the guard holds. -/
theorem Adds.ite {g : SubmissionDependencies → Bool} {p : Prop}
    {f : SubmissionDependencies → SubmissionDependencies} {A : ℕ → ℕ → Prop}
    (hg : ∀ D, AgreesInside counts D₀ D → (g D = true ↔ p))
    (h : p → Adds counts D₀ f A) :
    Adds counts D₀ (fun D => if g D then f D else D) (fun i j => p ∧ A i j) := by
  intro D hD
  dsimp only
  by_cases hp : p
  · rw [if_pos ((hg D hD).mpr hp)]
    obtain ⟨h1, h2⟩ := h hp D hD
    exact ⟨h1, fun i j => by rw [h2]; simp [hp]⟩
  · rw [if_neg (fun hgD => hp ((hg D hD).mp hgD))]
    exact ⟨hD, fun i j => by simp [hp]⟩

/-- Writing an entry between two different nodes adds that edge. -/
theorem adds_set {k l i j : ℕ} (hi : InBlock counts k i) (hj : InBlock counts l j)
    (hkl : k ≠ l) : Adds counts D₀ (fun D => D.set i j) (fun i' j' => i' = i ∧ j' = j) := by
  intro D hD
  refine ⟨⟨hD.1, fun m i' j' hi' hj' => ?_⟩, fun i' j' => ?_⟩
  · have hne : ¬ (i' = i ∧ j' = j) := by
      rintro ⟨rfl, rfl⟩
      exact hkl ((hi.unique hi').trans (hj'.unique hj))
    rw [← hD.2 m i' j' hi' hj']
    rcases not_and_or.mp hne with h | h <;> simp [SubmissionDependencies.set, h]
  · simp [SubmissionDependencies.set, or_comm]

/-- A member of the loop range of a node is a stage of the node. -/
theorem mem_range'_block {k i : ℕ} :
    i ∈ List.range' (blockStart counts k) (counts.getD k 0) ↔ InBlock counts k i := by
  rw [List.mem_range'_1, InBlock, blockStart_succ]

theorem isNodeRoot_iff (hD : AgreesInside counts D₀ D) {k i : ℕ} (hi : InBlock counts k i) :
    isNodeRoot D (blockStart counts k) (counts.getD k 0) i = true ↔
      IsRoot (InBlock counts k) D₀.Edge i := by
  simp only [isNodeRoot, List.all_eq_true, mem_range'_block, IsRoot, hi, true_and, Edge,
    Bool.not_eq_true', Bool.not_eq_true]
  exact forall₂_congr fun j hj => by rw [hD.2 k i j hi hj]

theorem isNodeTail_iff (hD : AgreesInside counts D₀ D) {k j : ℕ} (hj : InBlock counts k j) :
    isNodeTail D (blockStart counts k) (counts.getD k 0) j = true ↔
      IsTail (InBlock counts k) D₀.Edge j := by
  simp only [isNodeTail, List.all_eq_true, mem_range'_block, IsTail, hj, true_and, Edge,
    Bool.not_eq_true', Bool.not_eq_true]
  exact forall₂_congr fun i hi => by rw [hD.2 k i j hi hj]

/-- What the four loops add, read from the outside in.  The guards of the two inner loops read
one node each, which is why they see the matrix the pass started from. -/
theorem adds_addGraphDependencies (topology : ℕ → ℕ → Bool) (counts : List ℕ)
    (D₀ : SubmissionDependencies) :
    Adds counts D₀ (addGraphDependencies topology counts)
      (fun i j => ∃ node ∈ List.range counts.length, ∃ predecessor ∈ List.range node,
        topology node predecessor = true ∧
        ∃ root ∈ List.range' (blockStart counts node) (counts.getD node 0),
          IsRoot (InBlock counts node) D₀.Edge root ∧
          ∃ tail ∈ List.range' (blockStart counts predecessor) (counts.getD predecessor 0),
            IsTail (InBlock counts predecessor) D₀.Edge tail ∧ i = root ∧ j = tail) := by
  refine Adds.foldl _ fun node _ => Adds.foldl _ fun predecessor hpred => ?_
  refine Adds.ite (fun D _ => Iff.rfl) fun _ => Adds.foldl _ fun root hroot => ?_
  have hroot' := mem_range'_block.mp hroot
  refine Adds.ite (fun D hD => isNodeRoot_iff hD hroot') fun _ => Adds.foldl _ fun tail htail => ?_
  have htail' := mem_range'_block.mp htail
  refine Adds.ite (fun D hD => isNodeTail_iff hD htail') fun _ => ?_
  exact adds_set hroot' htail' (by rw [List.mem_range] at hpred; omega)

@[simp] theorem addGraphDependencies_stageCount (topology : ℕ → ℕ → Bool) (counts : List ℕ)
    (D₀ : SubmissionDependencies) :
    (addGraphDependencies topology counts D₀).stageCount = D₀.stageCount :=
  (adds_addGraphDependencies topology counts D₀ D₀ ⟨rfl, fun _ _ _ _ _ => rfl⟩).1.1

/-- **The graph pass in closed form.**  The new edges are those from a tail of a node to a root
of a node that directly depends on it. -/
theorem addGraphDependencies_edge_iff (topology : ℕ → ℕ → Bool) (counts : List ℕ)
    (D₀ : SubmissionDependencies) (a b : ℕ) :
    (addGraphDependencies topology counts D₀).Edge a b ↔
      D₀.Edge a b ∨
      ∃ node predecessor, predecessor < node ∧ topology node predecessor = true ∧
        IsRoot (InBlock counts node) D₀.Edge b ∧
        IsTail (InBlock counts predecessor) D₀.Edge a := by
  refine ((adds_addGraphDependencies topology counts D₀ D₀ ⟨rfl, fun _ _ _ _ _ => rfl⟩).2
    b a).trans (or_congr Iff.rfl ⟨?_, ?_⟩)
  · rintro ⟨node, -, predecessor, hpred, htop, root, -, hroot, tail, -, htail, rfl, rfl⟩
    exact ⟨node, predecessor, List.mem_range.mp hpred, htop, hroot, htail⟩
  · rintro ⟨node, predecessor, hpred, htop, hroot, htail⟩
    exact ⟨node, List.mem_range.mpr hroot.1.lt_length, predecessor, List.mem_range.mpr hpred,
      htop, b, mem_range'_block.mpr hroot.1, hroot, a, mem_range'_block.mpr htail.1, htail,
      rfl, rfl⟩

end GraphPass

end Caravan
end Spearhed
