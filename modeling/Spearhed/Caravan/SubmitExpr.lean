import Spearhed.Caravan.GraphTopology
import Spearhed.Caravan.SubmissionDependencies

/-!
# Native composition of submit senders

`ManagedSubmitSender::compose` and the `transform` overloads of `ManagedSubmissionDomain` lower
`sequence`, `whenAll` and `graph` over submissions to one flat sender.  This file models the
lowering on an expression type of arbitrary nesting depth and proves that the matrix it builds
means what the expression says.

## The order an expression denotes

`SubmitExpr.order` is the meaning, read off the expression and not off the matrix: `sequence`
puts all of its left stages before all of its right ones, `whenAll` relates nothing across its
children, and `graph` puts all stages of a node before all stages of every node that transitively
depends on it.  Stages are named by their position in the flat tuple.

## Why the matrix is enough

Only tails are linked to roots, and roots and tails are recomputed from the matrix at every
composition.  `Dag.transGen_of_tails_roots` is the reason nothing is lost: in a finite acyclic
part every stage reaches a tail and is reached from a root.  Nothing is added either, since the
denoted order is transitive and contains every edge.
-/

namespace Spearhed
namespace Caravan

open Library SubmissionDependencies

/-! ## Managed senders -/

/-- `ManagedSubmitSender`: the callables in stage order, a logical lane for each of them, and
the dependency matrix. -/
structure ManagedSubmitSender (α : Type) where
  /-- `m_submits`. -/
  submits : List α
  /-- `m_lanes`. -/
  lanes : List ℕ
  /-- `m_laneCount`. -/
  laneCount : ℕ
  /-- `m_dependencies`. -/
  dependencies : SubmissionDependencies

variable {α : Type}

namespace ManagedSubmitSender

/-- `detail::managedSubmit`: one stage on lane zero, with the defaults of the constructor. -/
def managedSubmit (submit : α) : ManagedSubmitSender α :=
  ⟨[submit], [0], 1, linear 1⟩

/-- `ManagedSubmitSender::compose<T_Ordered>`. -/
def compose (ordered : Bool) (left right : ManagedSubmitSender α) : ManagedSubmitSender α where
  submits := left.submits ++ right.submits
  lanes := left.lanes ++
    if ordered then right.lanes else right.lanes.map fun lane => left.laneCount + lane
  laneCount := if ordered then max left.laneCount right.laneCount
    else left.laneCount + right.laneCount
  dependencies := composeDependencies ordered left.dependencies right.dependencies

/-- `merge`, and the recursive `transform(WhenAllTag, ...)`: a left fold of the unordered
composition. -/
def merge (first : ManagedSubmitSender α) (rest : List (ManagedSubmitSender α)) :
    ManagedSubmitSender α :=
  rest.foldl (compose false) first

/-- `transform(GraphTag, ...)`: merge the nodes, then add the edges of the topology. -/
def graph {n : ℕ} (topology : GraphTopology n) (first : ManagedSubmitSender α)
    (rest : List (ManagedSubmitSender α)) : ManagedSubmitSender α :=
  let flattened := merge first rest
  { flattened with
    dependencies := addGraphDependencies topology.predecessorsAt
      ((first :: rest).map fun sender => sender.dependencies.stageCount)
      flattened.dependencies }

end ManagedSubmitSender

open ManagedSubmitSender

/-! ## Expressions -/

/-- Sender expressions over single-stage submissions.  `whenAll` and `graph` have at least one
child, as their overloads require. -/
inductive SubmitExpr (α : Type)
  | submit (callable : α)
  | sequence (left right : SubmitExpr α)
  | whenAll (n : ℕ) (children : Fin (n + 1) → SubmitExpr α)
  | graph (n : ℕ) (topology : GraphTopology (n + 1)) (nodes : Fin (n + 1) → SubmitExpr α)

namespace SubmitExpr

/-- The native lowering of an expression. -/
def lower : SubmitExpr α → ManagedSubmitSender α
  | submit callable => managedSubmit callable
  | sequence left right => compose true left.lower right.lower
  | whenAll n children =>
      merge (children 0).lower (List.ofFn fun k : Fin n => (children k.succ).lower)
  | graph n topology nodes =>
      ManagedSubmitSender.graph topology (nodes 0).lower
        (List.ofFn fun k : Fin n => (nodes k.succ).lower)

/-- The number of submissions in an expression. -/
def stageCount : SubmitExpr α → ℕ
  | submit _ => 1
  | sequence left right => left.stageCount + right.stageCount
  | whenAll _ children => (List.ofFn fun k => (children k).stageCount).sum
  | graph _ _ nodes => (List.ofFn fun k => (nodes k).stageCount).sum

end SubmitExpr

/-- All of the first `m` stages before all of the next `n`, with the orders inside the two. -/
def seriesOrder (m n : ℕ) (l r : ℕ → ℕ → Prop) (a b : ℕ) : Prop :=
  l a b ∨ (m ≤ a ∧ m ≤ b ∧ r (a - m) (b - m)) ∨ (a < m ∧ m ≤ b ∧ b < m + n)

/-- The orders inside the children, and nothing across them. -/
def parallelOrder {n : ℕ} (counts : Fin n → ℕ) (ords : Fin n → ℕ → ℕ → Prop) (a b : ℕ) : Prop :=
  ∃ k : Fin n, InBlock (List.ofFn counts) k a ∧ InBlock (List.ofFn counts) k b ∧
    ords k (a - blockStart (List.ofFn counts) k) (b - blockStart (List.ofFn counts) k)

/-- The orders inside the nodes, and every stage of a node before every stage of the nodes that
come after it in the topology. -/
def graphOrder {n : ℕ} (topology : GraphTopology n) (counts : Fin n → ℕ)
    (ords : Fin n → ℕ → ℕ → Prop) (a b : ℕ) : Prop :=
  parallelOrder counts ords a b ∨
    ∃ p q : Fin n, topology.Before p q ∧ InBlock (List.ofFn counts) p a ∧
      InBlock (List.ofFn counts) q b

/-- **The order an expression denotes.**  `order e a b` says that stage `a` has to finish before
stage `b` starts. -/
def SubmitExpr.order : SubmitExpr α → ℕ → ℕ → Prop
  | submit _ => fun _ _ => False
  | sequence left right => seriesOrder left.stageCount right.stageCount left.order right.order
  | whenAll _ children =>
      parallelOrder (fun k => (children k).stageCount) fun k => (children k).order
  | graph _ topology nodes =>
      graphOrder topology (fun k => (nodes k).stageCount) fun k => (nodes k).order

/-! ## What a lowered matrix has to satisfy -/

/-- The matrix `D` over `count` stages realises the order `ord`. -/
structure Realises (D : SubmissionDependencies) (count : ℕ) (ord : ℕ → ℕ → Prop) : Prop where
  stageCount_eq : D.stageCount = count
  count_pos : 0 < count
  topological : D.IsTopological
  before_iff : ∀ a b, Relation.TransGen D.Edge a b ↔ ord a b

namespace Realises

variable {D : SubmissionDependencies} {count : ℕ} {ord : ℕ → ℕ → Prop}

theorem lt_of_ord (h : Realises D count ord) {a b : ℕ} (hab : ord a b) : a < b ∧ b < count := by
  have hpath := (h.before_iff a b).mpr hab
  refine ⟨transGen_le_of_trans h.topological.edge_lt (fun _ _ _ => lt_trans) hpath, ?_⟩
  obtain ⟨c, -, hcb⟩ := Relation.TransGen.tail'_iff.mp hpath
  rw [← h.stageCount_eq]
  exact (h.topological b c hcb).2

theorem ord_trans (h : Realises D count ord) {a b c : ℕ} (hab : ord a b) (hbc : ord b c) :
    ord a c :=
  (h.before_iff a c).mp (((h.before_iff a b).mpr hab).trans ((h.before_iff b c).mpr hbc))

theorem ord_of_edge (h : Realises D count ord) {a b : ℕ} (hab : D.Edge a b) : ord a b :=
  (h.before_iff a b).mp (Relation.TransGen.single hab)

/-- A single stage realises the empty order. -/
theorem linear_one : Realises (linear 1) 1 (fun _ _ => False) where
  stageCount_eq := rfl
  count_pos := Nat.one_pos
  topological := by
    intro i j h
    simp only [linear, Bool.and_eq_true, decide_eq_true_eq] at h
    omega
  before_iff := by
    intro a b
    refine ⟨fun h => ?_, False.elim⟩
    obtain ⟨c, -, hcb⟩ := Relation.TransGen.tail'_iff.mp h
    simp only [Edge, linear, Bool.and_eq_true, decide_eq_true_eq] at hcb
    omega

end Realises

/-! ## Sequences -/

section Sequence

variable {L R : SubmissionDependencies} {m n : ℕ} {l r : ℕ → ℕ → Prop}

/-- Paths of the right matrix, shifted past the left one. -/
theorem transGen_shift {E E' : ℕ → ℕ → Prop} {m a b : ℕ}
    (hE : ∀ x y, E x y → E' (m + x) (m + y)) (ha : m ≤ a) (hb : m ≤ b)
    (h : Relation.TransGen E (a - m) (b - m)) : Relation.TransGen E' a b := by
  have h' := Relation.TransGen.lift (p := E') (fun x => m + x) hE _ _ h
  have ha' : m + (a - m) = a := by omega
  have hb' : m + (b - m) = b := by omega
  simpa only [Function.onFun, ha', hb'] using h'

/-- **Ordered composition is series composition.** -/
theorem Realises.sequence (hL : Realises L m l) (hR : Realises R n r) :
    Realises (composeDependencies true L R) (m + n) (seriesOrder m n l r) := by
  have hLm := hL.stageCount_eq
  have hRn := hR.stageCount_eq
  have hiff := composeDependencies_edge_iff true hL.topological hR.topological
  have htop := isTopological_composeDependencies true hL.topological hR.topological
  refine ⟨by simp [hLm, hRn], by have := hL.count_pos; omega, htop, fun a b => ⟨?_, ?_⟩⟩
  · -- the denoted order contains the edges and is transitive
    refine transGen_le_of_trans ?_ ?_
    · intro a b hab
      rcases (hiff a b).mp hab with h | ⟨h1, h2, h⟩ | ⟨-, h1, h2, h3, -⟩
      · exact Or.inl (hL.ord_of_edge h)
      · rw [hLm] at h1 h2 h
        exact Or.inr (Or.inl ⟨h1, h2, hR.ord_of_edge h⟩)
      · rw [hLm] at h1 h2
        rw [hLm, hRn] at h3
        exact Or.inr (Or.inr ⟨h1, h2, h3⟩)
    · rintro a b c (hab | ⟨ha, hb, hab⟩ | ⟨ha, hb, hbn⟩) (hbc | ⟨hb', hc, hbc⟩ | ⟨hb', hc, hcn⟩)
      · exact Or.inl (hL.ord_trans hab hbc)
      · have := hL.lt_of_ord hab
        omega
      · have := hL.lt_of_ord hab
        exact Or.inr (Or.inr ⟨by omega, hc, hcn⟩)
      · have := hL.lt_of_ord hbc
        omega
      · exact Or.inr (Or.inl ⟨ha, hc, hR.ord_trans hab hbc⟩)
      · omega
      · have := hL.lt_of_ord hbc
        omega
      · have := hR.lt_of_ord hbc
        exact Or.inr (Or.inr ⟨ha, hc, by omega⟩)
      · omega
  · rintro (h | ⟨ha, hb, h⟩ | ⟨ha, hb, hbn⟩)
    · exact Relation.TransGen.mono (fun x y hxy => (hiff _ _).mpr (Or.inl hxy)) _ _
        ((hL.before_iff a b).mpr h)
    · refine transGen_shift (fun x y hxy => (hiff _ _).mpr (Or.inr (Or.inl ?_))) ha hb
        ((hR.before_iff _ _).mpr h)
      rw [hLm]
      simpa using hxy
    · refine transGen_of_tails_roots (P := (· < m)) (Q := fun x => m ≤ x ∧ x < m + n)
        htop.edge_lt (fun _ h => h) ?_ ha ⟨hb, hbn⟩
      intro t s ht hs
      have htail : L.isTail t = true := by
        rw [isTail_iff (by rw [hLm]; exact ht.1)]
        refine ⟨by rw [hLm]; exact ht.1, fun x hx hxt => ?_⟩
        rw [hLm] at hx
        exact ht.2 x hx ((hiff _ _).mpr (Or.inl hxt))
      have hroot : R.isRoot (s - m) = true := by
        rw [isRoot_iff (by rw [hRn]; have := hs.1; omega)]
        refine ⟨by rw [hRn]; have := hs.1; omega, fun x hx hxs => ?_⟩
        rw [hRn] at hx
        refine hs.2 (m + x) ⟨by omega, by omega⟩ ((hiff _ _).mpr (Or.inr (Or.inl ?_)))
        rw [hLm]
        exact ⟨by omega, hs.1.1, by simpa using hxs⟩
      refine (hiff _ _).mpr (Or.inr (Or.inr ?_))
      rw [hLm, hRn]
      exact ⟨rfl, ht.1, hs.1.1, hs.1.2, hroot, htail⟩

end Sequence

/-! ## Parallel composition -/

section Parallel

/-- The edges of the parts, each shifted to where its part begins. -/
def BlockEdge (Ds : List SubmissionDependencies) (a b : ℕ) : Prop :=
  ∃ k D, Ds[k]? = some D ∧
    blockStart (Ds.map SubmissionDependencies.stageCount) k ≤ a ∧
    blockStart (Ds.map SubmissionDependencies.stageCount) k ≤ b ∧
    D.Edge (a - blockStart (Ds.map SubmissionDependencies.stageCount) k)
      (b - blockStart (Ds.map SubmissionDependencies.stageCount) k)

/-- One more part at the end. -/
theorem blockEdge_concat (Ds : List SubmissionDependencies) (D : SubmissionDependencies)
    (a b : ℕ) :
    BlockEdge (Ds ++ [D]) a b ↔ BlockEdge Ds a b ∨
      ((Ds.map SubmissionDependencies.stageCount).sum ≤ a ∧
        (Ds.map SubmissionDependencies.stageCount).sum ≤ b ∧
        D.Edge (a - (Ds.map SubmissionDependencies.stageCount).sum)
          (b - (Ds.map SubmissionDependencies.stageCount).sum)) := by
  have hstart : ∀ k ≤ Ds.length,
      blockStart ((Ds ++ [D]).map SubmissionDependencies.stageCount) k =
        blockStart (Ds.map SubmissionDependencies.stageCount) k := by
    intro k hk
    rw [List.map_append, blockStart_append_of_le _ (by rwa [List.length_map])]
  have hend : blockStart (Ds.map SubmissionDependencies.stageCount) Ds.length =
      (Ds.map SubmissionDependencies.stageCount).sum := by
    conv_lhs => rw [← List.length_map (f := SubmissionDependencies.stageCount)]
    exact blockStart_length _
  constructor
  · rintro ⟨k, D', hk, ha, hb, hab⟩
    have hlt : k < (Ds ++ [D]).length := (List.getElem?_eq_some_iff.mp hk).1
    rw [List.length_append, List.length_singleton] at hlt
    rw [hstart k (by omega)] at ha hb hab
    rcases Nat.lt_or_ge k Ds.length with hk' | hk'
    · rw [List.getElem?_append_left hk'] at hk
      exact Or.inl ⟨k, D', hk, ha, hb, hab⟩
    · have hkeq : k = Ds.length := by omega
      subst hkeq
      rw [List.getElem?_concat_length, Option.some.injEq] at hk
      subst hk
      rw [hend] at ha hb hab
      exact Or.inr ⟨ha, hb, hab⟩
  · rintro (⟨k, D', hk, ha, hb, hab⟩ | ⟨ha, hb, hab⟩)
    · have hk' : k < Ds.length := (List.getElem?_eq_some_iff.mp hk).1
      refine ⟨k, D', by rw [List.getElem?_append_left hk', hk], ?_⟩
      rw [hstart k hk'.le]
      exact ⟨ha, hb, hab⟩
    · refine ⟨Ds.length, D, List.getElem?_concat_length, ?_⟩
      rw [hstart _ le_rfl, hend]
      exact ⟨ha, hb, hab⟩

/-- **Merging is the block diagonal.** -/
theorem merge_dependencies (first : ManagedSubmitSender α) (rest : List (ManagedSubmitSender α))
    (h : ∀ s ∈ first :: rest, s.dependencies.IsTopological) :
    (merge first rest).dependencies.stageCount =
        ((first :: rest).map fun s => s.dependencies.stageCount).sum ∧
      (merge first rest).dependencies.IsTopological ∧
      ∀ a b, (merge first rest).dependencies.Edge a b ↔
        BlockEdge ((first :: rest).map fun s => s.dependencies) a b := by
  induction rest using List.reverseRecOn with
  | nil =>
    refine ⟨by simp [merge], h first (by simp), fun a b => ?_⟩
    have := blockEdge_concat [] first.dependencies a b
    simp only [List.nil_append, List.map_nil, List.sum_nil, Nat.zero_le, true_and,
      Nat.sub_zero] at this
    refine Iff.symm (this.trans (or_iff_right ?_))
    rintro ⟨k, D, hk, -⟩
    simp at hk
  | append_singleton rest s ih =>
    obtain ⟨hcount, htop, hedge⟩ := ih fun t ht => h t (by
      rcases List.mem_cons.mp ht with rfl | ht
      · simp
      · simp [ht])
    have hs : s.dependencies.IsTopological := h s (by simp)
    have hmerge : (merge first (rest ++ [s])).dependencies =
        composeDependencies false (merge first rest).dependencies s.dependencies := by
      rw [merge, List.foldl_concat, compose]
      rfl
    rw [hmerge]
    refine ⟨?_, isTopological_composeDependencies false htop hs, fun a b => ?_⟩
    · rw [composeDependencies_stageCount, hcount]
      simp [Nat.add_assoc]
    · rw [composeDependencies_edge_iff false htop hs, hedge, hcount]
      have hcat := blockEdge_concat ((first :: rest).map fun s => s.dependencies)
        s.dependencies a b
      rw [List.map_map] at hcat
      rw [← List.cons_append, List.map_append, List.map_singleton, hcat]
      simp [Function.comp_def]

variable {n : ℕ} {senders : Fin (n + 1) → ManagedSubmitSender α} {counts : Fin (n + 1) → ℕ}
  {ords : Fin (n + 1) → ℕ → ℕ → Prop}

/-- `merge` over the children of a node, in argument order. -/
def mergeAll (senders : Fin (n + 1) → ManagedSubmitSender α) : ManagedSubmitSender α :=
  merge (senders 0) (List.ofFn fun k : Fin n => senders k.succ)

theorem cons_ofFn_succ (senders : Fin (n + 1) → ManagedSubmitSender α) :
    senders 0 :: List.ofFn (fun k : Fin n => senders k.succ) = List.ofFn senders :=
  List.ofFn_succ.symm

theorem map_stageCount_ofFn (h : ∀ k, Realises (senders k).dependencies (counts k) (ords k)) :
    (List.ofFn senders).map (fun s => s.dependencies.stageCount) = List.ofFn counts := by
  rw [List.map_ofFn]
  exact congrArg List.ofFn (funext fun k => (h k).stageCount_eq)

/-- The edges of merged children: an edge of one child, in the child's block. -/
theorem mergeAll_dependencies
    (h : ∀ k, Realises (senders k).dependencies (counts k) (ords k)) :
    (mergeAll senders).dependencies.stageCount = (List.ofFn counts).sum ∧
      (mergeAll senders).dependencies.IsTopological ∧
      ∀ a b, (mergeAll senders).dependencies.Edge a b ↔
        ∃ k : Fin (n + 1), InBlock (List.ofFn counts) k a ∧ InBlock (List.ofFn counts) k b ∧
          (senders k).dependencies.Edge (a - blockStart (List.ofFn counts) k)
            (b - blockStart (List.ofFn counts) k) := by
  obtain ⟨hcount, htop, hedge⟩ := merge_dependencies (senders 0)
    (List.ofFn fun k : Fin n => senders k.succ) (by
      rw [cons_ofFn_succ]
      intro s hs
      obtain ⟨k, rfl⟩ := List.mem_ofFn.mp hs
      exact (h k).topological)
  rw [cons_ofFn_succ, map_stageCount_ofFn h] at hcount
  refine ⟨hcount, htop, fun a b => ?_⟩
  rw [mergeAll, hedge, cons_ofFn_succ, BlockEdge, List.map_map]
  simp only [Function.comp_def, map_stageCount_ofFn h]
  constructor
  · rintro ⟨k, D, hk, ha, hb, hab⟩
    rw [List.map_ofFn, List.getElem?_ofFn] at hk
    by_cases hkn : k < n + 1
    · rw [dif_pos hkn, Option.some.injEq] at hk
      subst hk
      have hlt := (h ⟨k, hkn⟩).topological _ _ hab
      rw [(h ⟨k, hkn⟩).stageCount_eq, ← getD_ofFn counts ⟨k, hkn⟩] at hlt
      have hend := blockStart_succ (List.ofFn counts) k
      exact ⟨⟨k, hkn⟩, ⟨ha, by dsimp only at hlt ⊢; omega⟩, ⟨hb, by dsimp only at hlt ⊢; omega⟩,
        hab⟩
    · rw [dif_neg hkn] at hk
      cases hk
  · rintro ⟨k, ha, hb, hab⟩
    refine ⟨k, (senders k).dependencies, ?_, ha.1, hb.1, hab⟩
    rw [List.map_ofFn, List.getElem?_ofFn, dif_pos k.isLt]
    rfl

/-- **Unordered composition is parallel composition.** -/
theorem Realises.mergeAll (h : ∀ k, Realises (senders k).dependencies (counts k) (ords k)) :
    Realises (mergeAll senders).dependencies (List.ofFn counts).sum
      (parallelOrder counts ords) := by
  obtain ⟨hcount, htop, hedge⟩ := mergeAll_dependencies h
  refine ⟨hcount, ?_, htop, fun a b => ⟨?_, ?_⟩⟩
  · have := (h 0).count_pos
    rw [List.ofFn_succ, List.sum_cons]
    omega
  · refine transGen_le_of_trans (s := parallelOrder counts ords) ?_ ?_
    · intro a b hab
      obtain ⟨k, ha, hb, hab⟩ := (hedge a b).mp hab
      exact ⟨k, ha, hb, (h k).ord_of_edge hab⟩
    · rintro a b c ⟨k, ha, hb, hab⟩ ⟨l, hb', hc, hbc⟩
      obtain rfl : k = l := Fin.ext (hb.unique hb')
      exact ⟨k, ha, hc, (h k).ord_trans hab hbc⟩
  · rintro ⟨k, ha, hb, hab⟩
    refine transGen_shift (fun x y hxy => ?_) ha.1 hb.1 (((h k).before_iff _ _).mpr hab)
    have hlt := (h k).topological _ _ hxy
    rw [(h k).stageCount_eq, ← getD_ofFn counts k] at hlt
    refine (hedge _ _).mpr ⟨k, inBlock_add (by omega), inBlock_add (by omega), ?_⟩
    simpa using hxy

/-- **The graph lowering realises the graph order.** -/
theorem Realises.graph (topology : GraphTopology (n + 1))
    (h : ∀ k, Realises (senders k).dependencies (counts k) (ords k)) :
    Realises (ManagedSubmitSender.graph topology (senders 0)
        (List.ofFn fun k : Fin n => senders k.succ)).dependencies
      (List.ofFn counts).sum (graphOrder topology counts ords) := by
  have hmerge := Realises.mergeAll h
  have hgraph : (ManagedSubmitSender.graph topology (senders 0)
      (List.ofFn fun k : Fin n => senders k.succ)).dependencies =
      addGraphDependencies topology.predecessorsAt (List.ofFn counts)
        (Caravan.mergeAll senders).dependencies := by
    rw [ManagedSubmitSender.graph, cons_ofFn_succ, map_stageCount_ofFn h]
    rfl
  rw [hgraph]
  have hedge := addGraphDependencies_edge_iff topology.predecessorsAt (List.ofFn counts)
    (Caravan.mergeAll senders).dependencies
  -- the node of a stage, as an index into the topology
  have hnode : ∀ {k i : ℕ}, InBlock (List.ofFn counts) k i → k < n + 1 := fun hk => by
    simpa using hk.lt_length
  have hbefore : ∀ {p q : ℕ} (hp : p < n + 1) (hq : q < n + 1),
      topology.predecessorsAt q p = true → topology.predecessors ⟨q, hq⟩ ⟨p, hp⟩ = true := by
    intro p q hp hq hpq
    rwa [GraphTopology.predecessorsAt, dif_pos ⟨hq, hp⟩] at hpq
  have htop : (addGraphDependencies topology.predecessorsAt (List.ofFn counts)
      (Caravan.mergeAll senders).dependencies).IsTopological := by
    intro i j hij
    rw [addGraphDependencies_stageCount, hmerge.stageCount_eq]
    rcases (hedge j i).mp hij with hij | ⟨q, p, hpq, -, hi, hj⟩
    · exact hmerge.stageCount_eq ▸ hmerge.topological i j hij
    · exact ⟨hj.1.lt_of_lt hi.1 hpq, hi.1.lt_sum⟩
  refine ⟨by rw [addGraphDependencies_stageCount, hmerge.stageCount_eq], hmerge.count_pos, htop,
    fun a b => ⟨?_, ?_⟩⟩
  · refine transGen_le_of_trans (s := graphOrder topology counts ords) ?_ ?_
    · intro a b hab
      rcases (hedge a b).mp hab with hab | ⟨q, p, -, hpq, hb, ha⟩
      · exact Or.inl (hmerge.ord_of_edge hab)
      · have hp := hnode ha.1
        have hq := hnode hb.1
        exact Or.inr ⟨⟨p, hp⟩, ⟨q, hq⟩, Relation.TransGen.single (hbefore hp hq hpq), ha.1, hb.1⟩
    · rintro a b c (hab | ⟨p, q, hpq, ha, hb⟩) (hbc | ⟨p', q', hpq', hb', hc⟩)
      · exact Or.inl (hmerge.ord_trans hab hbc)
      · obtain ⟨k, ha, hb, -⟩ := hab
        rw [hb.unique hb'] at ha
        exact Or.inr ⟨p', q', hpq', ha, hc⟩
      · obtain ⟨k, hb', hc, -⟩ := hbc
        rw [hb'.unique hb] at hc
        exact Or.inr ⟨p, q, hpq, ha, hc⟩
      · obtain rfl : q = p' := Fin.ext (hb.unique hb')
        exact Or.inr ⟨p, q', hpq.trans hpq', ha, hc⟩
  · -- one node edge first, by tails and roots; then along the topology through any stage of the
    -- node in the middle
    have hlink : ∀ p q : Fin (n + 1), topology.predecessors q p = true → ∀ a b,
        InBlock (List.ofFn counts) p a → InBlock (List.ofFn counts) q b →
        Relation.TransGen (addGraphDependencies topology.predecessorsAt (List.ofFn counts)
          (Caravan.mergeAll senders).dependencies).Edge a b := by
      intro p q hpq a b ha hb
      refine transGen_of_tails_roots (P := InBlock (List.ofFn counts) p)
        (Q := InBlock (List.ofFn counts) q) htop.edge_lt (fun _ hx => hx.lt_sum) ?_ ha hb
      intro t s ht hs
      refine (hedge t s).mpr (Or.inr ⟨q, p, topology.lt_of_predecessors hpq, ?_, ?_, ?_⟩)
      · rw [GraphTopology.predecessorsAt, dif_pos ⟨q.isLt, p.isLt⟩]
        exact hpq
      · exact ⟨hs.1, fun x hx hxs => hs.2 x hx ((hedge _ _).mpr (Or.inl hxs))⟩
      · exact ⟨ht.1, fun x hx htx => ht.2 x hx ((hedge _ _).mpr (Or.inl htx))⟩
    rintro (hab | ⟨p, q, hpq, ha, hb⟩)
    · exact Relation.TransGen.mono (fun x y hxy => (hedge x y).mpr (Or.inl hxy)) _ _
        ((hmerge.before_iff a b).mpr hab)
    · induction hpq generalizing b with
      | single hpq => exact hlink _ _ hpq a b ha hb
      | @tail m q _ hmq ih =>
        have hm : InBlock (List.ofFn counts) m (blockStart (List.ofFn counts) m + 0) := by
          refine inBlock_add ?_
          rw [getD_ofFn]
          exact (h m).count_pos
        exact (ih _ hm).trans (hlink m q hmq _ b hm hb)

end Parallel

/-! ## The lowering of an expression -/

/-- The lowering realises the denoted order: one composition lemma for each constructor. -/
theorem lower_realises_order (e : SubmitExpr α) :
    Realises e.lower.dependencies e.stageCount e.order := by
  induction e with
  | submit callable => exact Realises.linear_one
  | sequence left right ihl ihr => exact ihl.sequence ihr
  | whenAll n children ih => exact Realises.mergeAll ih
  | graph n topology nodes ih => exact Realises.graph topology ih

/-- **Native composition means what the expression says.**  The lowered matrix has a row for
every stage of the expression, each of its edges leads to a smaller stage index, and its
transitive closure is the order the expression denotes, with no order lost and none added. -/
theorem lower_transGen_iff_order (e : SubmitExpr α) :
    e.lower.dependencies.stageCount = e.stageCount ∧
      (∀ i j, e.lower.dependencies.predecessors i j = true → j < i ∧ i < e.stageCount) ∧
      ∀ a b, Relation.TransGen (fun a b => e.lower.dependencies.predecessors b a = true) a b ↔
        e.order a b := by
  have h := lower_realises_order e
  refine ⟨h.stageCount_eq, fun i j hij => ?_, h.before_iff⟩
  rw [← h.stageCount_eq]
  exact h.topological i j hij

end Caravan
end Spearhed
