import Spearhed.Caravan.SubmitExpr

/-!
# Lanes of composed submissions

Every stage of a submit sender has a logical lane, and a queue is leased for each lane when the
sender is connected.  `compose` shifts the lanes of its right side past those of the left one in the
unordered case and reuses them in the ordered one.  Two stages on one lane share a queue, so they
run one after the other whatever the dependency matrix says; this file shows that the matrix says
so too.

The lanes of merged children lie one range after the other, as their stages do
(`laneAt_mergeAll`), so a lane determines its child and stages that share it are stages of one
child.  In a sequence, stages of different sides are ordered anyway.  The induction over nested
expressions is `lanesSound_lower`.

`PoolSubmitSender` composes in the same way and checks that both sides use one pool.
-/

namespace Spearhed
namespace Caravan

open Library SubmissionDependencies ManagedSubmitSender

variable {α : Type}

namespace ManagedSubmitSender

/-- The lane of a stage. -/
def laneAt (s : ManagedSubmitSender α) (a : ℕ) : ℕ := s.lanes.getD a 0

/-- `PooledSubmitOperation::bindQueues`, with the accesses to the binding checked. -/
def bindQueues {Queue : Type} (binding : List Queue) (lanes : List ℕ) : Option (List Queue) :=
  lanes.mapM fun lane => binding[lane]?

end ManagedSubmitSender

/-! ## Pool-bound senders -/

/-- `PoolSubmitSender`. -/
structure PoolSubmitSender (Pool α : Type) where
  /-- `m_pool`. -/
  pool : Pool
  /-- The other members, which are those of `ManagedSubmitSender`. -/
  sender : ManagedSubmitSender α

namespace PoolSubmitSender

variable {Pool : Type} [DecidableEq Pool]

/-- `PoolSubmitSender::compose<T_Ordered>`; different pools throw. -/
def compose (ordered : Bool) (left right : PoolSubmitSender Pool α) :
    Option (PoolSubmitSender Pool α) :=
  if left.pool = right.pool then
    some ⟨left.pool, ManagedSubmitSender.compose ordered left.sender right.sender⟩
  else none

/-- `PoolSubmissionDomain::merge`, and its recursive `transform(WhenAllTag, ...)`. -/
def merge (first : PoolSubmitSender Pool α) (rest : List (PoolSubmitSender Pool α)) :
    Option (PoolSubmitSender Pool α) :=
  rest.foldlM (compose false) first

/-- `PoolSubmissionDomain::transform(GraphTag, ...)`. -/
def graph {n : ℕ} (topology : GraphTopology n) (first : PoolSubmitSender Pool α)
    (rest : List (PoolSubmitSender Pool α)) : Option (PoolSubmitSender Pool α) :=
  (merge first rest).map fun flattened => { flattened with
    sender := { flattened.sender with
      dependencies := addGraphDependencies topology.predecessorsAt
        ((first :: rest).map fun s => s.sender.dependencies.stageCount)
        flattened.sender.dependencies } }

/-- The lowering of an expression whose submissions name their pools. -/
def lower (poolOf : α → Pool) : SubmitExpr α → Option (PoolSubmitSender Pool α)
  | .submit callable => some ⟨poolOf callable, managedSubmit callable⟩
  | .sequence left right => do compose true (← lower poolOf left) (← lower poolOf right)
  | .whenAll n children => do
      merge (← lower poolOf (children 0))
        (← (List.finRange n).mapM fun k => lower poolOf (children k.succ))
  | .graph n topology nodes => do
      graph topology (← lower poolOf (nodes 0))
        (← (List.finRange n).mapM fun k => lower poolOf (nodes k.succ))

omit [DecidableEq Pool] in
theorem map_sender_eq {n : ℕ} {f : Fin n → Option (PoolSubmitSender Pool α)}
    {g : Fin n → ManagedSubmitSender α} (h : ∀ k s, f k = some s → s.sender = g k)
    {l : List (PoolSubmitSender Pool α)} (hl : (List.finRange n).mapM f = some l) :
    l.map PoolSubmitSender.sender = List.ofFn g := by
  rw [List.ofFn_eq_map]
  generalize List.finRange n = ks at hl ⊢
  induction ks generalizing l with
  | nil =>
    obtain rfl := Option.some.inj hl
    rfl
  | cons k ks ih =>
    rw [List.mapM_cons] at hl
    obtain ⟨s, hs, hl⟩ := Option.bind_eq_some_iff.mp hl
    obtain ⟨l', hl', hl⟩ := Option.bind_eq_some_iff.mp hl
    obtain rfl := Option.some.inj hl
    rw [List.map_cons, List.map_cons, h k s hs, ih hl']

theorem merge_sender {first s : PoolSubmitSender Pool α} {rest : List (PoolSubmitSender Pool α)}
    (h : merge first rest = some s) :
    s.sender = ManagedSubmitSender.merge first.sender (rest.map PoolSubmitSender.sender) := by
  induction rest generalizing first with
  | nil =>
    obtain rfl := Option.some.inj h
    rfl
  | cons next rest ih =>
    rw [merge, List.foldlM_cons] at h
    obtain ⟨t, ht, h⟩ := Option.bind_eq_some_iff.mp h
    rw [compose] at ht
    split at ht
    · obtain rfl := Option.some.inj ht
      exact ih h
    · cases ht

/-- **Composition over one pool is managed composition.** -/
theorem lower_sender (poolOf : α → Pool) {e : SubmitExpr α} {s : PoolSubmitSender Pool α}
    (h : lower poolOf e = some s) : s.sender = e.lower := by
  induction e generalizing s with
  | submit callable =>
    obtain rfl := Option.some.inj h
    rfl
  | sequence left right ihl ihr =>
    obtain ⟨l, hl, h⟩ := Option.bind_eq_some_iff.mp h
    obtain ⟨r, hr, h⟩ := Option.bind_eq_some_iff.mp h
    rw [compose] at h
    split at h
    · obtain rfl := Option.some.inj h
      show ManagedSubmitSender.compose true l.sender r.sender = _
      rw [ihl hl, ihr hr]
      rfl
    · cases h
  | whenAll n children ih =>
    obtain ⟨first, hfirst, h⟩ := Option.bind_eq_some_iff.mp h
    obtain ⟨rest, hrest, h⟩ := Option.bind_eq_some_iff.mp h
    rw [merge_sender h, ih 0 hfirst, map_sender_eq (fun k _ => ih k.succ) hrest]
    rfl
  | graph n topology nodes ih =>
    obtain ⟨first, hfirst, h⟩ := Option.bind_eq_some_iff.mp h
    obtain ⟨rest, hrest, h⟩ := Option.bind_eq_some_iff.mp h
    obtain ⟨flattened, hflattened, rfl⟩ := Option.map_eq_some_iff.mp h
    have hsenders := map_sender_eq (fun k _ => ih k.succ) hrest
    have hcounts : (first :: rest).map (fun s => s.sender.dependencies.stageCount) =
        ((first.sender :: rest.map PoolSubmitSender.sender).map fun s =>
          s.dependencies.stageCount) := by
      rw [List.map_cons, List.map_cons, List.map_map]
      rfl
    dsimp only
    rw [hcounts, merge_sender hflattened, ih 0 hfirst, hsenders]
    rfl

end PoolSubmitSender

/-! ## Lanes of merged senders -/

/-- **Merged senders get one range of lanes after the other.** -/
theorem merge_lanes (first : ManagedSubmitSender α) (rest : List (ManagedSubmitSender α)) :
    (merge first rest).laneCount = ((first :: rest).map laneCount).sum ∧
      (merge first rest).lanes = (first :: rest).zipIdx.flatMap fun x =>
        x.1.lanes.map fun lane => blockStart ((first :: rest).map laneCount) x.2 + lane := by
  induction rest using List.reverseRecOn with
  | nil => simp [merge]
  | append_singleton rest s ih =>
    obtain ⟨hcount, hlanes⟩ := ih
    have hmerge : merge first (rest ++ [s]) = compose false (merge first rest) s := by
      rw [merge, List.foldl_concat]
      rfl
    have hstart : ∀ x ∈ (first :: rest).zipIdx,
        blockStart ((first :: (rest ++ [s])).map laneCount) x.2 =
          blockStart ((first :: rest).map laneCount) x.2 := by
      intro x hx
      have hlt := (List.getElem?_eq_some_iff.mp (List.mem_zipIdx_iff_getElem?.mp hx)).1
      rw [← List.cons_append, List.map_append, blockStart_append_of_le _ (by
        rw [List.length_map]
        exact hlt.le)]
    have hlast : blockStart ((first :: (rest ++ [s])).map laneCount) (first :: rest).length =
        ((first :: rest).map laneCount).sum := by
      rw [← List.cons_append, List.map_append, blockStart_append_of_le _ (by rw [List.length_map]),
        ← blockStart_length, List.length_map]
    rw [hmerge]
    constructor
    · show (merge first rest).laneCount + s.laneCount = _
      rw [hcount, ← List.cons_append, List.map_append, List.sum_append, List.map_singleton,
        List.sum_singleton]
    · show (merge first rest).lanes ++ s.lanes.map _ = _
      rw [hlanes, hcount, ← List.cons_append, List.zipIdx_append, List.flatMap_append]
      congr 1
      · exact List.flatMap_congr fun x hx => by rw [← hstart x hx, List.cons_append]
      · rw [List.zipIdx_singleton, List.flatMap_singleton, Nat.zero_add, List.cons_append, hlast]

section Merged

variable {n : ℕ} {senders : Fin (n + 1) → ManagedSubmitSender α} {counts : Fin (n + 1) → ℕ}

theorem map_length_lanes (hlength : ∀ k, (senders k).lanes.length = counts k) :
    ((List.ofFn senders).zipIdx.map fun x => x.1.lanes.length) = List.ofFn counts := by
  have hfst : ((List.ofFn senders).zipIdx.map fun x => x.1.lanes.length) =
      ((List.ofFn senders).zipIdx.map Prod.fst).map fun s => s.lanes.length := by
    rw [List.map_map]
    rfl
  rw [hfst, List.zipIdx_map_fst, List.map_ofFn]
  exact congrArg List.ofFn (funext hlength)

theorem laneCount_mergeAll :
    (mergeAll senders).laneCount = (List.ofFn fun k => (senders k).laneCount).sum := by
  rw [mergeAll, (merge_lanes _ _).1, cons_ofFn_succ, List.map_ofFn]
  rfl

/-- **The lanes of child `k` follow those of the children before it.** -/
theorem laneAt_mergeAll (hlength : ∀ k, (senders k).lanes.length = counts k) (k : Fin (n + 1))
    {i : ℕ} (hi : i < counts k) :
    (mergeAll senders).laneAt (blockStart (List.ofFn counts) k + i) =
      blockStart (List.ofFn fun k => (senders k).laneCount) k + (senders k).laneAt i := by
  have hcounts : List.ofFn counts = (List.ofFn senders).zipIdx.map fun x =>
      (x.1.lanes.map fun lane =>
        blockStart ((List.ofFn senders).map laneCount) x.2 + lane).length := by
    simp only [List.length_map]
    exact (map_length_lanes hlength).symm
  have hk : (List.ofFn senders).zipIdx[k.val]? = some (senders k, k.val) := by
    rw [List.getElem?_zipIdx, List.getElem?_ofFn, dif_pos k.isLt, Option.map_some, Nat.zero_add]
  have hlane := List.getElem?_eq_getElem (hlength k ▸ hi)
  rw [laneAt, mergeAll, (merge_lanes _ _).2, cons_ofFn_succ, List.getD_eq_getElem?_getD, hcounts,
    getElem?_flatMap_blockStart hk (by rw [List.getElem?_map, hlane]; rfl), List.map_ofFn, laneAt,
    List.getD_eq_getElem?_getD, hlane]
  rfl

theorem length_lanes_mergeAll (hlength : ∀ k, (senders k).lanes.length = counts k) :
    (mergeAll senders).lanes.length = (List.ofFn counts).sum := by
  rw [mergeAll, (merge_lanes _ _).2, cons_ofFn_succ, List.length_flatMap,
    ← map_length_lanes hlength]
  simp only [List.length_map]

end Merged

/-! ## Sharing a lane implies an order -/

/-- Stages have lanes, and stages that share one are ordered. -/
structure LanesSound (s : ManagedSubmitSender α) (count : ℕ) (ord : ℕ → ℕ → Prop) : Prop where
  length : s.lanes.length = count
  lt : ∀ a < count, s.laneAt a < s.laneCount
  ordered : ∀ a < count, ∀ b < count, a ≠ b → s.laneAt a = s.laneAt b → ord a b ∨ ord b a

namespace LanesSound

variable {L R : ManagedSubmitSender α} {m n : ℕ} {l r : ℕ → ℕ → Prop}

theorem managedSubmit (callable : α) :
    LanesSound (managedSubmit callable) 1 (fun _ _ => False) := by
  refine ⟨rfl, fun a ha => ?_, fun a ha b hb hab _ => ?_⟩
  · obtain rfl : a = 0 := by omega
    exact Nat.one_pos
  · omega

/-- **Lanes are reused in a sequence**, whose sides are ordered. -/
theorem sequence (hL : LanesSound L m l) (hR : LanesSound R n r) :
    LanesSound (compose true L R) (m + n) (seriesOrder m n l r) := by
  have hleft : ∀ a < m, (compose true L R).laneAt a = L.laneAt a := fun a ha =>
    List.getD_append _ _ _ _ (by rw [hL.length]; exact ha)
  have hright : ∀ a, m ≤ a → (compose true L R).laneAt a = R.laneAt (a - m) := fun a ha => by
    show (L.lanes ++ R.lanes).getD a 0 = _
    rw [List.getD_append_right _ _ _ _ (by rw [hL.length]; exact ha), hL.length]
    rfl
  refine ⟨?_, fun a ha => ?_, fun a ha b hb hab hlane => ?_⟩
  · show (L.lanes ++ R.lanes).length = _
    rw [List.length_append, hL.length, hR.length]
  · show _ < max L.laneCount R.laneCount
    rcases Nat.lt_or_ge a m with ham | ham
    · rw [hleft a ham]
      exact lt_of_lt_of_le (hL.lt a ham) (le_max_left _ _)
    · rw [hright a ham]
      exact lt_of_lt_of_le (hR.lt (a - m) (by omega)) (le_max_right _ _)
  · rcases Nat.lt_or_ge a m with ham | ham <;> rcases Nat.lt_or_ge b m with hbm | hbm
    · rw [hleft a ham, hleft b hbm] at hlane
      exact (hL.ordered a ham b hbm hab hlane).imp Or.inl Or.inl
    · exact Or.inl (Or.inr (Or.inr ⟨ham, hbm, hb⟩))
    · exact Or.inr (Or.inr (Or.inr ⟨hbm, ham, ha⟩))
    · rw [hright a ham, hright b hbm] at hlane
      refine (hR.ordered (a - m) (by omega) (b - m) (by omega) (by omega) hlane).imp
        (fun h => ?_) fun h => ?_
      · exact Or.inr (Or.inl ⟨ham, hbm, h⟩)
      · exact Or.inr (Or.inl ⟨hbm, ham, h⟩)

theorem mono {ord' : ℕ → ℕ → Prop} (hL : LanesSound L m l) (hord : ∀ a b, l a b → ord' a b) :
    LanesSound L m ord' :=
  ⟨hL.length, hL.lt, fun a ha b hb hab hlane =>
    (hL.ordered a ha b hb hab hlane).imp (hord a b) (hord b a)⟩

variable {k : ℕ} {senders : Fin (k + 1) → ManagedSubmitSender α} {counts : Fin (k + 1) → ℕ}
  {ords : Fin (k + 1) → ℕ → ℕ → Prop}

/-- The lane of a stage lies in the range of its child. -/
theorem inBlock_laneAt (h : ∀ k, LanesSound (senders k) (counts k) (ords k)) {a : ℕ}
    {j : Fin (k + 1)} (ha : InBlock (List.ofFn counts) j a) :
    (Caravan.mergeAll senders).laneAt a =
        blockStart (List.ofFn fun k => (senders k).laneCount) j +
          (senders j).laneAt (a - blockStart (List.ofFn counts) j) ∧
      InBlock (List.ofFn fun k => (senders k).laneCount) j
        ((Caravan.mergeAll senders).laneAt a) := by
  have hi := ha.sub_lt
  rw [getD_ofFn] at hi
  have hlane := laneAt_mergeAll (fun k => (h k).length) j hi
  rw [Nat.add_sub_cancel' ha.1] at hlane
  refine ⟨hlane, ?_⟩
  rw [hlane]
  refine inBlock_add ?_
  rw [getD_ofFn]
  exact (h j).lt _ hi

/-- **Lanes of merged children differ**, so stages that share one have a common child. -/
theorem mergeAll (h : ∀ k, LanesSound (senders k) (counts k) (ords k)) :
    LanesSound (mergeAll senders) (List.ofFn counts).sum (parallelOrder counts ords) := by
  have hchild : ∀ {a : ℕ}, a < (List.ofFn counts).sum →
      ∃ j : Fin (k + 1), InBlock (List.ofFn counts) j a := fun ha => by
    obtain ⟨j, hj⟩ := exists_inBlock ha
    exact ⟨⟨j, by simpa using hj.lt_length⟩, hj⟩
  refine ⟨length_lanes_mergeAll fun k => (h k).length, fun a ha => ?_,
    fun a ha b hb hab hlane => ?_⟩
  · obtain ⟨j, hj⟩ := hchild ha
    rw [laneCount_mergeAll]
    exact (inBlock_laneAt h hj).2.lt_sum
  · obtain ⟨i, hi⟩ := hchild ha
    obtain ⟨j, hj⟩ := hchild hb
    obtain ⟨hlanei, hblocki⟩ := inBlock_laneAt h hi
    obtain ⟨hlanej, hblockj⟩ := inBlock_laneAt h hj
    obtain rfl : i = j := Fin.ext (hblocki.unique (hlane ▸ hblockj))
    rw [hlanei, hlanej] at hlane
    have hai := hi.sub_lt
    have hbi := hj.sub_lt
    rw [getD_ofFn] at hai hbi
    have hne : a - blockStart (List.ofFn counts) i ≠ b - blockStart (List.ofFn counts) i := by
      have := hi.1
      have := hj.1
      omega
    exact ((h i).ordered _ hai _ hbi hne (Nat.add_left_cancel hlane)).imp
      (fun h => ⟨i, hi, hj, h⟩) fun h => ⟨i, hj, hi, h⟩

end LanesSound

/-- **Stages that share a lane are ordered**, in any nesting. -/
theorem lanesSound_lower (e : SubmitExpr α) : LanesSound e.lower e.stageCount e.order := by
  induction e with
  | submit callable => exact LanesSound.managedSubmit callable
  | sequence left right ihl ihr => exact ihl.sequence ihr
  | whenAll n children ih => exact LanesSound.mergeAll ih
  | graph n topology nodes ih =>
    -- the graph pass only changes the matrix
    have hmerge := LanesSound.mergeAll ih
    exact LanesSound.mono ⟨hmerge.length, hmerge.lt, hmerge.ordered⟩ fun _ _ => Or.inl

/-! ## Parts of an expression -/

/-- `Occurs f start e`: the part `f` of `e` begins at stage `start`. -/
inductive Occurs : SubmitExpr α → ℕ → SubmitExpr α → Prop
  | self (e : SubmitExpr α) : Occurs e 0 e
  | left {f left : SubmitExpr α} {start : ℕ} (right : SubmitExpr α) (h : Occurs f start left) :
      Occurs f start (.sequence left right)
  | right {f right : SubmitExpr α} {start : ℕ} (left : SubmitExpr α)
      (h : Occurs f start right) : Occurs f (left.stageCount + start) (.sequence left right)
  | whenAll {f : SubmitExpr α} {start n : ℕ} {children : Fin (n + 1) → SubmitExpr α}
      (k : Fin (n + 1)) (h : Occurs f start (children k)) :
      Occurs f (blockStart (List.ofFn fun k => (children k).stageCount) k + start)
        (.whenAll n children)
  | graph {f : SubmitExpr α} {start n : ℕ} {topology : GraphTopology (n + 1)}
      {nodes : Fin (n + 1) → SubmitExpr α} (k : Fin (n + 1)) (h : Occurs f start (nodes k)) :
      Occurs f (blockStart (List.ofFn fun k => (nodes k).stageCount) k + start)
        (.graph n topology nodes)

theorem laneAt_compose_left {L R : ManagedSubmitSender α} {ordered : Bool} {a : ℕ}
    (ha : a < L.lanes.length) : (compose ordered L R).laneAt a = L.laneAt a :=
  List.getD_append _ _ _ _ ha

theorem laneAt_sequence_right {L R : ManagedSubmitSender α} (a : ℕ) :
    (compose true L R).laneAt (L.lanes.length + a) = R.laneAt a := by
  show (L.lanes ++ R.lanes).getD (L.lanes.length + a) 0 = _
  rw [List.getD_append_right _ _ _ _ (Nat.le_add_right _ _), Nat.add_sub_cancel_left]
  rfl

theorem length_lanes_lower (e : SubmitExpr α) : e.lower.lanes.length = e.stageCount :=
  (lanesSound_lower e).length

/-- One step up: the lanes of a child, in those of merged children. -/
theorem laneAt_child {n : ℕ} (children : Fin (n + 1) → SubmitExpr α) (k : Fin (n + 1)) {i : ℕ}
    (hi : i < (children k).stageCount) :
    (mergeAll fun k => (children k).lower).laneAt
        (blockStart (List.ofFn fun k => (children k).stageCount) k + i) =
      blockStart (List.ofFn fun k => (children k).lower.laneCount) k +
        (children k).lower.laneAt i :=
  laneAt_mergeAll (fun k => length_lanes_lower (children k)) k hi

/-- A part keeps its lanes, up to a shift. -/
theorem Occurs.laneAt {f e : SubmitExpr α} {start : ℕ} (h : Occurs f start e) :
    start + f.stageCount ≤ e.stageCount ∧
      ∃ shift, ∀ a < f.stageCount, e.lower.laneAt (start + a) = shift + f.lower.laneAt a := by
  have hchild : ∀ {n : ℕ} (children : Fin (n + 1) → SubmitExpr α) (k : Fin (n + 1)) (start : ℕ),
      (start + f.stageCount ≤ (children k).stageCount ∧ ∃ shift, ∀ a < f.stageCount,
        (children k).lower.laneAt (start + a) = shift + f.lower.laneAt a) →
      blockStart (List.ofFn fun k => (children k).stageCount) k + start + f.stageCount ≤
          (List.ofFn fun k => (children k).stageCount).sum ∧
        ∃ shift, ∀ a < f.stageCount, (mergeAll fun k => (children k).lower).laneAt
          (blockStart (List.ofFn fun k => (children k).stageCount) k + start + a) =
            shift + f.lower.laneAt a := by
    rintro n children k start ⟨hle, shift, hshift⟩
    have hsucc := blockStart_succ (List.ofFn fun k => (children k).stageCount) k
    have hsum := blockStart_le_sum (List.ofFn fun k => (children k).stageCount) (k + 1)
    rw [getD_ofFn] at hsucc
    refine ⟨by omega, blockStart (List.ofFn fun k => (children k).lower.laneCount) k + shift,
      fun a ha => ?_⟩
    rw [Nat.add_assoc, laneAt_child children k (by omega), hshift a ha, Nat.add_assoc]
  induction h with
  | self => exact ⟨(Nat.zero_add _).le, 0, fun a _ => by rw [Nat.zero_add, Nat.zero_add]⟩
  | @left left start right h ih =>
    obtain ⟨hle, shift, hshift⟩ := ih
    refine ⟨hle.trans (Nat.le_add_right _ _), shift, fun a ha => ?_⟩
    rw [← hshift a ha]
    exact laneAt_compose_left (by rw [length_lanes_lower]; omega)
  | @right right start left h ih =>
    obtain ⟨hle, shift, hshift⟩ := ih
    refine ⟨?_, shift, fun a ha => ?_⟩
    · show left.stageCount + start + f.stageCount ≤ left.stageCount + right.stageCount
      omega
    · rw [← hshift a ha, Nat.add_assoc, ← length_lanes_lower left]
      exact laneAt_sequence_right (start + a)
  | @whenAll start n children k h ih => exact hchild children k start ih
  | @graph start n topology nodes k h ih => exact hchild nodes k start ih

/-- **Stages of different children have different lanes**, wherever the children occur. -/
theorem laneAt_ne_of_children {n : ℕ} (children : Fin (n + 1) → SubmitExpr α) {k l : Fin (n + 1)}
    (hkl : k ≠ l) {a b : ℕ} (ha : InBlock (List.ofFn fun k => (children k).stageCount) k a)
    (hb : InBlock (List.ofFn fun k => (children k).stageCount) l b) :
    (mergeAll fun k => (children k).lower).laneAt a ≠
      (mergeAll fun k => (children k).lower).laneAt b := by
  have hsound := fun k => lanesSound_lower (children k)
  intro hlane
  exact hkl (Fin.ext ((LanesSound.inBlock_laneAt hsound ha).2.unique
    (hlane ▸ (LanesSound.inBlock_laneAt hsound hb).2)))

/-! ## Expressions over one pool -/

namespace PoolSubmitSender

variable {Pool : Type} [DecidableEq Pool] {pool : Pool}

theorem compose_pool {ordered : Bool} {left right : PoolSubmitSender Pool α} :
    (∃ s, compose ordered left right = some s ∧ s.pool = pool) ↔
      left.pool = pool ∧ right.pool = pool := by
  rw [compose]
  split
  · next heq =>
    constructor
    · rintro ⟨s, hs, rfl⟩
      obtain rfl := Option.some.inj hs
      exact ⟨rfl, heq.symm⟩
    · rintro ⟨hleft, -⟩
      exact ⟨_, rfl, hleft⟩
  · next hne =>
    constructor
    · rintro ⟨s, hs, -⟩
      cases hs
    · rintro ⟨hleft, hright⟩
      exact absurd (hleft.trans hright.symm) hne

theorem merge_pool {first : PoolSubmitSender Pool α} {rest : List (PoolSubmitSender Pool α)} :
    (∃ s, merge first rest = some s ∧ s.pool = pool) ↔
      first.pool = pool ∧ ∀ t ∈ rest, t.pool = pool := by
  induction rest generalizing first with
  | nil =>
    constructor
    · rintro ⟨s, hs, rfl⟩
      obtain rfl := Option.some.inj hs
      exact ⟨rfl, nofun⟩
    · rintro ⟨hfirst, -⟩
      exact ⟨first, rfl, hfirst⟩
  | cons next rest ih =>
    have hmerge : merge first (next :: rest) = (compose false first next).bind fun t => merge t rest :=
      List.foldlM_cons
    rw [hmerge, List.forall_mem_cons, ← and_assoc, ← compose_pool]
    constructor
    · rintro ⟨s, hs, hpool⟩
      obtain ⟨t, ht, hs⟩ := Option.bind_eq_some_iff.mp hs
      obtain ⟨htpool, hrest⟩ := ih.mp ⟨s, hs, hpool⟩
      exact ⟨⟨t, ht, htpool⟩, hrest⟩
    · rintro ⟨⟨t, ht, htpool⟩, hrest⟩
      obtain ⟨s, hs, hpool⟩ := ih.mpr ⟨htpool, hrest⟩
      exact ⟨s, Option.bind_eq_some_iff.mpr ⟨t, ht, hs⟩, hpool⟩

omit [DecidableEq Pool] in
theorem mapM_pool {n : ℕ} {f : Fin n → Option (PoolSubmitSender Pool α)} :
    (∃ l, (List.finRange n).mapM f = some l ∧ ∀ t ∈ l, t.pool = pool) ↔
      ∀ k, ∃ s, f k = some s ∧ s.pool = pool := by
  have hlist : ∀ ks : List (Fin n), (∃ l, ks.mapM f = some l ∧ ∀ t ∈ l, t.pool = pool) ↔
      ∀ k ∈ ks, ∃ s, f k = some s ∧ s.pool = pool := by
    intro ks
    induction ks with
    | nil => exact iff_of_true ⟨[], rfl, nofun⟩ nofun
    | cons k ks ih =>
      rw [List.mapM_cons, List.forall_mem_cons, ← ih]
      constructor
      · rintro ⟨l, hl, hpool⟩
        obtain ⟨s, hs, hl⟩ := Option.bind_eq_some_iff.mp hl
        obtain ⟨l', hl', hl⟩ := Option.bind_eq_some_iff.mp hl
        obtain rfl := Option.some.inj hl
        obtain ⟨hspool, hpool⟩ := List.forall_mem_cons.mp hpool
        exact ⟨⟨s, hs, hspool⟩, l', hl', hpool⟩
      · rintro ⟨⟨s, hs, hspool⟩, l', hl', hpool⟩
        refine ⟨s :: l', ?_, List.forall_mem_cons.mpr ⟨hspool, hpool⟩⟩
        rw [hs, hl']
        rfl
  rw [hlist]
  exact ⟨fun h k => h k (List.mem_finRange k), fun h k _ => h k⟩

/-- Children are merged exactly when all of them are on the pool. -/
theorem mergeChildren_pool {n : ℕ} {f : Fin (n + 1) → Option (PoolSubmitSender Pool α)} :
    (∃ first rest s, f 0 = some first ∧ (List.finRange n).mapM (fun k => f k.succ) = some rest ∧
      merge first rest = some s ∧ s.pool = pool) ↔ ∀ k, ∃ s, f k = some s ∧ s.pool = pool := by
  rw [Fin.forall_fin_succ, ← mapM_pool]
  constructor
  · rintro ⟨first, rest, s, hfirst, hrest, hs, hpool⟩
    obtain ⟨hfirstPool, hrestPool⟩ := merge_pool.mp ⟨s, hs, hpool⟩
    exact ⟨⟨first, hfirst, hfirstPool⟩, rest, hrest, hrestPool⟩
  · rintro ⟨⟨first, hfirst, hfirstPool⟩, rest, hrest, hrestPool⟩
    obtain ⟨s, hs, hpool⟩ := merge_pool.mpr ⟨hfirstPool, hrestPool⟩
    exact ⟨first, rest, s, hfirst, hrest, hs, hpool⟩

/-- **An expression is lowered to a pool exactly when all of its submissions name that pool.** -/
theorem lower_pool (poolOf : α → Pool) (e : SubmitExpr α) :
    (∃ s, lower poolOf e = some s ∧ s.pool = pool) ↔
      ∀ callable start, Occurs (.submit callable) start e → poolOf callable = pool := by
  induction e with
  | submit callable =>
    constructor
    · rintro ⟨s, hs, rfl⟩ callable' start h
      obtain rfl := Option.some.inj hs
      cases h
      rfl
    · intro h
      exact ⟨_, rfl, h callable 0 (.self _)⟩
  | sequence left right ihl ihr =>
    constructor
    · rintro ⟨s, hs, hpool⟩ callable start h
      obtain ⟨l, hl, hs⟩ := Option.bind_eq_some_iff.mp hs
      obtain ⟨r, hr, hs⟩ := Option.bind_eq_some_iff.mp hs
      obtain ⟨hlpool, hrpool⟩ := compose_pool.mp ⟨s, hs, hpool⟩
      cases h with
      | left _ h => exact ihl.mp ⟨l, hl, hlpool⟩ callable _ h
      | right _ h => exact ihr.mp ⟨r, hr, hrpool⟩ callable _ h
    · intro h
      obtain ⟨l, hl, hlpool⟩ := ihl.mpr fun callable start hoccurs => h callable _ (.left right hoccurs)
      obtain ⟨r, hr, hrpool⟩ := ihr.mpr fun callable start hoccurs => h callable _ (.right left hoccurs)
      obtain ⟨s, hs, hpool⟩ := compose_pool.mpr ⟨hlpool, hrpool⟩
      exact ⟨s, Option.bind_eq_some_iff.mpr ⟨l, hl, Option.bind_eq_some_iff.mpr ⟨r, hr, hs⟩⟩, hpool⟩
  | whenAll n children ih =>
    constructor
    · rintro ⟨s, hs, hpool⟩ callable start h
      obtain ⟨first, hfirst, hs⟩ := Option.bind_eq_some_iff.mp hs
      obtain ⟨rest, hrest, hs⟩ := Option.bind_eq_some_iff.mp hs
      have hchildren := mergeChildren_pool (f := fun k => lower poolOf (children k)).mp
        ⟨first, rest, s, hfirst, hrest, hs, hpool⟩
      cases h with
      | whenAll k h => exact (ih k).mp (hchildren k) callable _ h
    · intro h
      obtain ⟨first, rest, s, hfirst, hrest, hs, hpool⟩ := mergeChildren_pool.mpr fun k =>
        (ih k).mpr fun callable start hoccurs => h callable _ (.whenAll k hoccurs)
      exact ⟨s, Option.bind_eq_some_iff.mpr
        ⟨first, hfirst, Option.bind_eq_some_iff.mpr ⟨rest, hrest, hs⟩⟩, hpool⟩
  | graph n topology nodes ih =>
    constructor
    · rintro ⟨s, hs, hpool⟩ callable start h
      obtain ⟨first, hfirst, hs⟩ := Option.bind_eq_some_iff.mp hs
      obtain ⟨rest, hrest, hs⟩ := Option.bind_eq_some_iff.mp hs
      obtain ⟨flattened, hflattened, rfl⟩ := Option.map_eq_some_iff.mp hs
      have hnodes := mergeChildren_pool (f := fun k => lower poolOf (nodes k)).mp
        ⟨first, rest, flattened, hfirst, hrest, hflattened, hpool⟩
      cases h with
      | graph k h => exact (ih k).mp (hnodes k) callable _ h
    · intro h
      obtain ⟨first, rest, s, hfirst, hrest, hs, hpool⟩ := mergeChildren_pool.mpr fun k =>
        (ih k).mpr fun callable start hoccurs => h callable _ (.graph k hoccurs)
      exact ⟨_, Option.bind_eq_some_iff.mpr ⟨first, hfirst, Option.bind_eq_some_iff.mpr
        ⟨rest, hrest, Option.map_eq_some_iff.mpr ⟨s, hs, rfl⟩⟩⟩, hpool⟩

end PoolSubmitSender

/-! ## Queues of a lease -/

/-- Every access to a long enough binding is in range. -/
theorem bindQueues_eq_some {Queue : Type} {binding : List Queue} {lanes : List ℕ}
    (h : ∀ lane ∈ lanes, lane < binding.length) :
    ∃ queues, bindQueues binding lanes = some queues ∧ queues.length = lanes.length ∧
      ∀ (i lane : ℕ), lanes[i]? = some lane → queues[i]? = binding[lane]? := by
  induction lanes with
  | nil => exact ⟨[], rfl, rfl, fun i lane hi => by simp at hi⟩
  | cons lane lanes ih =>
    obtain ⟨queues, hqueues, hlength, hget⟩ := ih fun l hl => h l (List.mem_cons_of_mem _ hl)
    have hlane := List.getElem?_eq_getElem (h lane List.mem_cons_self)
    refine ⟨binding.get ⟨lane, h lane List.mem_cons_self⟩ :: queues, ?_,
      congrArg Nat.succ hlength, fun i l hi => ?_⟩
    · rw [bindQueues] at hqueues
      rw [bindQueues, List.mapM_cons, hlane, hqueues]
      rfl
    · cases i with
      | zero =>
        obtain rfl := Option.some.inj hi
        exact hlane.symm
      | succ i => exact hget i l hi

/-- Distinct queues for the lanes serialise only what is ordered. -/
theorem LanesSound.bindQueues {Queue : Type} {s : ManagedSubmitSender α} {count : ℕ}
    {ord : ℕ → ℕ → Prop} (h : LanesSound s count ord) {binding : List Queue}
    (hnodup : binding.Nodup) (hlength : binding.length = s.laneCount) :
    ∃ queues, bindQueues binding s.lanes = some queues ∧ queues.length = count ∧
      ∀ a < count, ∀ b < count, a ≠ b → queues[a]? = queues[b]? → ord a b ∨ ord b a := by
  have hlane : ∀ a < count, s.lanes[a]? = some (s.laneAt a) := fun a ha => by
    have ha' : a < s.lanes.length := h.length ▸ ha
    rw [laneAt, List.getD_eq_getElem _ _ ha', List.getElem?_eq_getElem ha']
  have hbound : ∀ lane ∈ s.lanes, lane < binding.length := fun lane hmem => by
    obtain ⟨a, ha, rfl⟩ := List.mem_iff_getElem.mp hmem
    have hcount : a < count := h.length ▸ ha
    have heq := hlane a hcount
    rw [List.getElem?_eq_getElem ha, Option.some.injEq] at heq
    rw [heq, hlength]
    exact h.lt a hcount
  obtain ⟨queues, hqueues, hqlength, hget⟩ := bindQueues_eq_some hbound
  refine ⟨queues, hqueues, hqlength.trans h.length, fun a ha b hb hab heq => ?_⟩
  rw [hget a _ (hlane a ha), hget b _ (hlane b hb)] at heq
  exact h.ordered a ha b hb hab
    ((List.getElem?_inj (hlength ▸ h.lt a ha) hnodup).mp heq)

/-! ## Lane assignment -/

/-- What the lanes of a sender `s` say about the expression `e` it was composed for. -/
structure LaneAssignment (e : SubmitExpr α) (s : ManagedSubmitSender α) : Prop where
  /-- Every stage has a lane. -/
  length : s.lanes.length = e.stageCount
  /-- Lanes are below the lane count. -/
  lt : ∀ a < e.stageCount, s.laneAt a < s.laneCount
  /-- Different children of a `whenAll` share no lane. -/
  whenAll : ∀ {n : ℕ} {children : Fin (n + 1) → SubmitExpr α} {start : ℕ},
    Occurs (.whenAll n children) start e → ∀ {k l : Fin (n + 1)}, k ≠ l → ∀ {a b : ℕ},
    InBlock (List.ofFn fun k => (children k).stageCount) k a →
    InBlock (List.ofFn fun k => (children k).stageCount) l b →
    s.laneAt (start + a) ≠ s.laneAt (start + b)
  /-- Different nodes of a graph share no lane. -/
  graph : ∀ {n : ℕ} {topology : GraphTopology (n + 1)} {nodes : Fin (n + 1) → SubmitExpr α}
    {start : ℕ}, Occurs (.graph n topology nodes) start e → ∀ {k l : Fin (n + 1)}, k ≠ l →
    ∀ {a b : ℕ}, InBlock (List.ofFn fun k => (nodes k).stageCount) k a →
    InBlock (List.ofFn fun k => (nodes k).stageCount) l b →
    s.laneAt (start + a) ≠ s.laneAt (start + b)
  /-- A sequence keeps the lanes of both sides and takes the larger lane count. -/
  sequence : ∀ {left right : SubmitExpr α}, e = .sequence left right →
    s.lanes = left.lower.lanes ++ right.lower.lanes ∧
      s.laneCount = max left.lower.laneCount right.lower.laneCount
  /-- Stages that share a lane are ordered by the dependencies. -/
  ordered : ∀ a < e.stageCount, ∀ b < e.stageCount, a ≠ b → s.laneAt a = s.laneAt b →
    Relation.TransGen s.dependencies.Edge a b ∨ Relation.TransGen s.dependencies.Edge b a
  /-- A lease of one queue per lane serves every stage and serialises only what the expression
  orders. -/
  queues : ∀ {Queue : Type} {binding : List Queue}, binding.Nodup →
    binding.length = s.laneCount → ∃ queues, bindQueues binding s.lanes = some queues ∧
      queues.length = e.stageCount ∧ ∀ a < e.stageCount, ∀ b < e.stageCount, a ≠ b →
        queues[a]? = queues[b]? → e.order a b ∨ e.order b a

theorem laneAssignment_lower (e : SubmitExpr α) : LaneAssignment e e.lower where
  length := length_lanes_lower e
  lt := (lanesSound_lower e).lt
  whenAll := by
    intro n children start h k l hkl a b ha hb hlane
    obtain ⟨-, shift, hshift⟩ := h.laneAt
    rw [hshift a ha.lt_sum, hshift b hb.lt_sum] at hlane
    exact laneAt_ne_of_children children hkl ha hb (Nat.add_left_cancel hlane)
  graph := by
    intro n topology nodes start h k l hkl a b ha hb hlane
    obtain ⟨-, shift, hshift⟩ := h.laneAt
    rw [hshift a ha.lt_sum, hshift b hb.lt_sum] at hlane
    exact laneAt_ne_of_children nodes hkl ha hb (Nat.add_left_cancel hlane)
  sequence := by
    rintro left right rfl
    exact ⟨rfl, rfl⟩
  ordered := by
    intro a ha b hb hab hlane
    have hbefore := (lower_realises_order e).before_iff
    exact ((lanesSound_lower e).ordered a ha b hb hab hlane).imp (hbefore a b).mpr
      (hbefore b a).mpr
  queues := (lanesSound_lower e).bindQueues

/-- **Lane assignment of composed submissions.**  In every nesting of `sequence`, `whenAll` and
`graph`, and for pool-bound submissions whenever their pools agree, lanes are in range, different
children use different lanes, and sharing a lane or a leased queue implies an order.  Pool-bound
submissions are composed exactly when all of them name one pool. -/
theorem lane_assignment {Pool : Type} [DecidableEq Pool] (poolOf : α → Pool) (e : SubmitExpr α) :
    LaneAssignment e e.lower ∧
      (∀ s, PoolSubmitSender.lower poolOf e = some s → LaneAssignment e s.sender) ∧
      ∀ pool, (∃ s, PoolSubmitSender.lower poolOf e = some s ∧ s.pool = pool) ↔
        ∀ callable start, Occurs (.submit callable) start e → poolOf callable = pool :=
  ⟨laneAssignment_lower e, fun _ hs =>
    (PoolSubmitSender.lower_sender poolOf hs).symm ▸ laneAssignment_lower e,
    fun _ => PoolSubmitSender.lower_pool poolOf e⟩

/-- Two branches and a join on one pool: the branches use lanes 0 and 1, the join reuses 0. -/
example : ((PoolSubmitSender.lower (fun _ => ()) (.sequence
    (.whenAll 1 fun k => .submit k.val) (.submit 2))).map fun s => s.sender.lanes) =
      some [0, 1, 0] := by
  rfl

end Caravan
end Spearhed
