import Spearhed.Library.RowMajor
import Spearhed.Mappings.Mask

/-!
# The Cartesian communicator and its slides

The ranks stand on a grid of two or three dimensions.  A slide moves every rank one place down the y
axis, and the ranks at its lower end to the upper end.  The MPI communicator is not touched: a rank
keeps its base coordinates and an offset in y, from which its coordinates, the ranks of its
neighbours and the mask of the directions that have a neighbour are worked out again.

The dimension is written `n + 2`, so that there is a y axis.
-/

namespace Spearhed
namespace Communication

open Library Mappings

variable {n : ℕ}

@[ext] structure CommunicatorMPI (n : ℕ) where
  /-- The coordinates in the grid as it has been slid. -/
  coordinates : DataSpace (n + 2)
  baseCoordinates : DataSpace (n + 2)
  periodic : DataSpace (n + 2)
  /-- The rank of every exchange direction, `-1` without a neighbour. -/
  ranks : ℕ → ℤ
  dims : DataSpace (n + 2)
  communicationMask : Mask
  yoffset : ℤ

namespace CommunicatorMPI

/-- The loop that adds the extent while the coordinate is negative. -/
def raiseCoordinate : ℕ → ℤ → ℤ → ℤ
  | 0, coordinate, _ => coordinate
  | fuel + 1, coordinate, extent =>
    if coordinate < 0 then raiseCoordinate fuel (coordinate + extent) extent else coordinate

/-- The own coordinates: the base, moved by the offset in y. -/
def ownCoordinates (comm : CommunicatorMPI n) : DataSpace (n + 2) :=
  let y :=
    if comm.dims 1 > 1 then (comm.baseCoordinates 1 + comm.yoffset).tmod (comm.dims 1) else comm.baseCoordinates 1
  Function.update comm.baseCoordinates 1 (raiseCoordinate (-y).toNat y (comm.dims 1))

/-- How the axis directions of a mask move a coordinate. -/
def neighbourStep (m : Mask) : ℕ → ℤ
  | 0 => (if m.containsExchangeType LEFT then -1 else 0) + (if m.containsExchangeType RIGHT then 1 else 0)
  | 1 => (if m.containsExchangeType TOP then -1 else 0) + (if m.containsExchangeType BOTTOM then 1 else 0)
  | 2 => (if m.containsExchangeType BACK then 1 else 0) + (if m.containsExchangeType FRONT then -1 else 0)
  | _ => 0

def neighbourCoordinates (coords : DataSpace (n + 2)) (i : ℕ) : DataSpace (n + 2) :=
  fun d => coords d + neighbourStep (Mask.single i) d

/-- Only axes that are not periodic end. -/
def neighbourExists (comm : CommunicatorMPI n) (mcoords : DataSpace (n + 2)) : Prop :=
  ∀ j, ¬ (comm.periodic j = 0 ∧ (mcoords j < 0 ∨ mcoords j ≥ comm.dims j))

instance (comm : CommunicatorMPI n) (mcoords : DataSpace (n + 2)) : Decidable (comm.neighbourExists mcoords) :=
  inferInstanceAs (Decidable (∀ _, _))

/-- The rank at some coordinates, back in the base coordinates the communicator knows. -/
def neighbourRank (comm : CommunicatorMPI n) (mcoords : DataSpace (n + 2)) : ℤ :=
  let mcoords :=
    if comm.dims 1 > 1 then Function.update mcoords 1 ((mcoords 1 - comm.yoffset).tmod (comm.dims 1)) else mcoords
  rowMajorIndex comm.dims fun dimension =>
    let coordinate := (mcoords dimension).tmod (comm.dims dimension)
    if coordinate < 0 then coordinate + comm.dims dimension else coordinate

/-- One turn of the loop over the directions. -/
def visitExchange (comm : CommunicatorMPI n) (coords : DataSpace (n + 2)) (table : (ℕ → ℤ) × Mask) (i : ℕ) :
    (ℕ → ℤ) × Mask :=
  let mcoords := neighbourCoordinates coords i
  if comm.neighbourExists mcoords then
    (Function.update table.1 i (comm.neighbourRank mcoords), table.2 + Mask.single i)
  else
    (Function.update table.1 i (-1), table.2)

/-- The directions `1` up to the bound of the loop. -/
def exchanges (DIM : ℕ) : List ℕ :=
  List.range' 1 ((-12 * (DIM : ℤ) + 6 * DIM * DIM + 9).toNat - 1)

def updateCoordinates (comm : CommunicatorMPI n) : CommunicatorMPI n :=
  let coords := comm.ownCoordinates
  let table := (exchanges (n + 2)).foldl (comm.visitExchange coords) (comm.ranks, {})
  { comm with coordinates := coords, ranks := table.1, communicationMask := table.2 }

/-- The communicator of the rank with these base coordinates, before the first slide. -/
def init (numberProcesses periodic baseCoordinates : DataSpace (n + 2)) (uninitialised : ℕ → ℤ) : CommunicatorMPI n :=
  updateCoordinates
    { coordinates := baseCoordinates, baseCoordinates := baseCoordinates, periodic := periodic,
      ranks := uninitialised, dims := numberProcesses, communicationMask := {}, yoffset := 0 }

/-- One slide, and whether the rank is at the end now. -/
def slide (comm : CommunicatorMPI n) : Bool × CommunicatorMPI n :=
  let yoffset := comm.yoffset - 1
  let yoffset := if yoffset = -comm.dims 1 then 0 else yoffset
  let comm := { comm with yoffset := yoffset }.updateCoordinates
  (decide (comm.coordinates 1 = comm.dims 1 - 1), comm)

/-- Slides one after another, and what the last one returned. -/
def slides (comm : CommunicatorMPI n) : ℕ → Bool × CommunicatorMPI n
  | 0 => (false, comm)
  | numSlides + 1 => (comm.slides numSlides).2.slide

/-- Only the slides past the last whole turn are made. -/
def setStateAfterSlides (comm : CommunicatorMPI n) (numSlides : ℕ) : Bool × CommunicatorMPI n :=
  if numSlides = 0 then (false, comm) else comm.slides (numSlides % (comm.dims 1).toNat)

/-! ## What the update leaves -/

section Update

variable {comm : CommunicatorMPI n}

/-- The entry of a direction in the table of ranks. -/
def tableEntry (comm : CommunicatorMPI n) (i : ℕ) : ℤ :=
  let mcoords := neighbourCoordinates comm.ownCoordinates i
  if comm.neighbourExists mcoords then comm.neighbourRank mcoords else -1

theorem visitExchange_fst (table : (ℕ → ℤ) × Mask) (i : ℕ) :
    (comm.visitExchange comm.ownCoordinates table i).1 = Function.update table.1 i (comm.tableEntry i) := by
  rw [visitExchange, tableEntry]
  split <;> rfl

theorem isSet_visitExchange (table : (ℕ → ℤ) × Mask) {i e : ℕ} (hi : i < 32) :
    (comm.visitExchange comm.ownCoordinates table i).2.isSet e = true ↔
      table.2.isSet e = true ∨
        (e = i ∧ comm.neighbourExists (neighbourCoordinates comm.ownCoordinates i)) := by
  rw [visitExchange]
  split
  · next hexists => simp [Mask.isSet_single hi, hexists]
  · next hnone => simp [hnone]

theorem foldl_visitExchange_fst (l : List ℕ) (table : (ℕ → ℤ) × Mask) :
    (l.foldl (comm.visitExchange comm.ownCoordinates) table).1 =
      fun i => if i ∈ l then comm.tableEntry i else table.1 i := by
  induction l generalizing table with
  | nil => simp
  | cons j l ih =>
    rw [List.foldl_cons, ih, visitExchange_fst]
    funext i
    by_cases hl : i ∈ l
    · simp [hl]
    · by_cases hj : i = j
      · subst hj; simp [hl]
      · simp [hl, hj]

theorem foldl_visitExchange_snd (l : List ℕ) (ranks ranks' : ℕ → ℤ) (m : Mask) :
    (l.foldl (comm.visitExchange comm.ownCoordinates) (ranks, m)).2 =
      (l.foldl (comm.visitExchange comm.ownCoordinates) (ranks', m)).2 := by
  induction l generalizing ranks ranks' m with
  | nil => rfl
  | cons j l ih =>
    have hsnd : (comm.visitExchange comm.ownCoordinates (ranks, m) j).2 =
        (comm.visitExchange comm.ownCoordinates (ranks', m) j).2 := by
      rw [visitExchange, visitExchange]
      split <;> rfl
    rw [List.foldl_cons, List.foldl_cons, ← Prod.mk.eta (p := comm.visitExchange _ (ranks, m) j), hsnd]
    exact ih _ _ _

theorem isSet_foldl_visitExchange {l : List ℕ} (hl : ∀ i ∈ l, i < 32) (table : (ℕ → ℤ) × Mask) {e : ℕ} :
    (l.foldl (comm.visitExchange comm.ownCoordinates) table).2.isSet e = true ↔
      table.2.isSet e = true ∨
        (e ∈ l ∧ comm.neighbourExists (neighbourCoordinates comm.ownCoordinates e)) := by
  induction l generalizing table with
  | nil => simp
  | cons j l ih =>
    rw [List.foldl_cons, ih fun i hi => hl i (List.mem_cons_of_mem j hi),
      isSet_visitExchange _ (hl j List.mem_cons_self), List.mem_cons, or_assoc]
    refine or_congr_right ⟨?_, ?_⟩
    · rintro (⟨rfl, hexists⟩ | ⟨he, hexists⟩)
      · exact ⟨Or.inl rfl, hexists⟩
      · exact ⟨Or.inr he, hexists⟩
    · rintro ⟨rfl | he, hexists⟩
      · exact Or.inl ⟨rfl, hexists⟩
      · exact Or.inr ⟨he, hexists⟩

@[simp] theorem updateCoordinates_coordinates : comm.updateCoordinates.coordinates = comm.ownCoordinates := rfl

theorem updateCoordinates_ranks (comm : CommunicatorMPI n) :
    comm.updateCoordinates.ranks =
      fun i => if i ∈ exchanges (n + 2) then comm.tableEntry i else comm.ranks i :=
  foldl_visitExchange_fst _ _

/-- An update depends on the topology and the offset alone; of the table it keeps what is no direction. -/
theorem updateCoordinates_congr {comm comm' : CommunicatorMPI n} (hbase : comm.baseCoordinates = comm'.baseCoordinates)
    (hperiodic : comm.periodic = comm'.periodic) (hdims : comm.dims = comm'.dims) (hoffset : comm.yoffset = comm'.yoffset)
    (hranks : ∀ i ∉ exchanges (n + 2), comm.ranks i = comm'.ranks i) :
    comm.updateCoordinates = comm'.updateCoordinates := by
  have htable : comm'.updateCoordinates.ranks = comm.updateCoordinates.ranks := by
    rw [updateCoordinates_ranks comm, updateCoordinates_ranks comm']
    funext i
    split
    · obtain ⟨_, base, periodic, _, dims, _, yoffset⟩ := comm
      cases hbase; cases hperiodic; cases hdims; cases hoffset
      rfl
    · next hi => exact (hranks i hi).symm
  obtain ⟨_, base, periodic, ranks, dims, _, yoffset⟩ := comm
  obtain ⟨_, base', periodic', ranks', dims', _, yoffset'⟩ := comm'
  cases hbase; cases hperiodic; cases hdims; cases hoffset
  refine CommunicatorMPI.ext rfl rfl rfl htable.symm rfl ?_ rfl
  exact foldl_visitExchange_snd _ ranks ranks' {}

end Update

/-! ## The state after some slides -/

/-- The offset after some slides. -/
def offsetAfter (extent : ℤ) (numSlides : ℕ) : ℤ := -(numSlides % extent)

section Slides

variable {comm : CommunicatorMPI n}

theorem offsetAfter_succ {extent : ℤ} (hextent : 0 < extent) (numSlides : ℕ) :
    (if offsetAfter extent numSlides - 1 = -extent then 0 else offsetAfter extent numSlides - 1) =
      offsetAfter extent (numSlides + 1) := by
  have hlo := Int.emod_nonneg (numSlides : ℤ) hextent.ne'
  have hhi := Int.emod_lt_of_pos (numSlides : ℤ) hextent
  have hsucc : ((numSlides + 1 : ℕ) : ℤ) % extent = (numSlides % extent + 1) % extent := by
    rw [Nat.cast_succ, Int.emod_add_emod]
  rw [offsetAfter, offsetAfter, hsucc]
  by_cases hwrap : (numSlides : ℤ) % extent + 1 = extent
  · rw [if_pos (by omega), hwrap, Int.emod_self, neg_zero]
  · rw [if_neg (by omega), Int.emod_eq_of_lt (add_nonneg hlo zero_le_one) (by omega)]
    ring

theorem slides_baseCoordinates (comm : CommunicatorMPI n) (numSlides : ℕ) : (comm.slides numSlides).2.baseCoordinates = comm.baseCoordinates := by
  induction numSlides with
  | zero => rfl
  | succ numSlides ih => exact ih

theorem slides_periodic (comm : CommunicatorMPI n) (numSlides : ℕ) : (comm.slides numSlides).2.periodic = comm.periodic := by
  induction numSlides with
  | zero => rfl
  | succ numSlides ih => exact ih

theorem slides_dims (comm : CommunicatorMPI n) (numSlides : ℕ) : (comm.slides numSlides).2.dims = comm.dims := by
  induction numSlides with
  | zero => rfl
  | succ numSlides ih => exact ih

theorem slides_ranks_of_not_mem {i : ℕ} (hi : i ∉ exchanges (n + 2)) (numSlides : ℕ) :
    (comm.slides numSlides).2.ranks i = comm.ranks i := by
  induction numSlides with
  | zero => rfl
  | succ numSlides ih =>
    rw [slides, slide, updateCoordinates_ranks, ← ih]
    exact if_neg hi

theorem slides_yoffset (hdims : 0 < comm.dims 1) (hoffset : comm.yoffset = 0) (numSlides : ℕ) :
    (comm.slides numSlides).2.yoffset = offsetAfter (comm.dims 1) numSlides := by
  induction numSlides with
  | zero => exact hoffset.trans (by simp [offsetAfter])
  | succ numSlides ih =>
    rw [← offsetAfter_succ hdims, ← ih, ← slides_dims comm numSlides]
    rfl

/-- Every state of a run is up to date. -/
theorem slides_updated (hupdated : comm.updateCoordinates = comm) (numSlides : ℕ) :
    (comm.slides numSlides).2.updateCoordinates = (comm.slides numSlides).2 := by
  cases numSlides with
  | zero => exact hupdated
  | succ numSlides =>
    refine updateCoordinates_congr rfl rfl rfl rfl fun i hi => ?_
    rw [slides, slide, updateCoordinates_ranks]
    exact if_neg hi

/-- **Whole turns are lost**: the state depends on the number of slides up to the extent of y. -/
theorem slides_mod (hdims : 0 < comm.dims 1) (hoffset : comm.yoffset = 0) (hupdated : comm.updateCoordinates = comm)
    (numSlides : ℕ) : (comm.slides (numSlides % (comm.dims 1).toNat)).2 = (comm.slides numSlides).2 := by
  rw [← slides_updated hupdated, ← slides_updated hupdated numSlides]
  refine updateCoordinates_congr ?_ ?_ ?_ ?_ fun i hi => ?_
  · rw [slides_baseCoordinates, slides_baseCoordinates]
  · rw [slides_periodic, slides_periodic]
  · rw [slides_dims, slides_dims]
  · rw [slides_yoffset hdims hoffset, slides_yoffset hdims hoffset, offsetAfter, offsetAfter, Int.natCast_mod,
      Int.toNat_of_nonneg hdims.le, Int.emod_emod]
  · rw [slides_ranks_of_not_mem hi, slides_ranks_of_not_mem hi]

end Slides

/-! ## Coordinates and neighbours on the grid -/

section Topology

variable {comm : CommunicatorMPI n}

theorem raiseCoordinate_eq {coordinate extent : ℤ} (hlo : -extent ≤ coordinate) (hhi : coordinate < extent) :
    raiseCoordinate (-coordinate).toNat coordinate extent = coordinate % extent := by
  have hstop : ∀ fuel c, 0 ≤ c → raiseCoordinate fuel c extent = c := by
    intro fuel c hc
    cases fuel with
    | zero => rfl
    | succ fuel => exact if_neg (not_lt.mpr hc)
  by_cases hneg : coordinate < 0
  · obtain ⟨fuel, hfuel⟩ : ∃ fuel, (-coordinate).toNat = fuel + 1 := ⟨(-coordinate).toNat - 1, by omega⟩
    rw [hfuel, raiseCoordinate, if_pos hneg, hstop fuel _ (by omega), ← Int.add_emod_right,
      Int.emod_eq_of_lt (by omega) (by omega)]
  · rw [hstop _ _ (by omega), Int.emod_eq_of_lt (by omega) hhi]

/-- The remainder of C++ made non-negative. -/
theorem tmod_raised {a extent : ℤ} (hextent : 0 < extent) :
    (if a.tmod extent < 0 then a.tmod extent + extent else a.tmod extent) = a % extent := by
  have hlo := Int.emod_nonneg a hextent.ne'
  have hhi := Int.emod_lt_of_pos a hextent
  rw [Int.tmod_eq_emod]
  have habs : (extent.natAbs : ℤ) = extent := by omega
  split <;> split <;> omega

theorem tmod_emod_self (a extent : ℤ) : a.tmod extent % extent = a % extent := by
  rw [Int.tmod_eq_emod]
  split
  · rw [Nat.cast_zero, sub_zero, Int.emod_emod]
  · rw [Int.sub_emod, Int.emod_eq_zero_of_dvd Int.dvd_natAbs_self, sub_zero, Int.emod_emod, Int.emod_emod]

/-- The cells of the grid of ranks. -/
def grid (dims : DataSpace (n + 2)) : Set (DataSpace (n + 2)) := box 0 dims

/-- Where a rank stands after some slides. -/
def slidCoordinates (dims base : DataSpace (n + 2)) (numSlides : ℕ) : DataSpace (n + 2) :=
  Function.update base 1 ((base 1 - numSlides) % dims 1)

theorem ownCoordinates_eq (numSlides : ℕ) (hdims : 0 < comm.dims 1) (hbase : comm.baseCoordinates ∈ grid comm.dims)
    (hoffset : comm.yoffset = offsetAfter (comm.dims 1) numSlides) :
    comm.ownCoordinates = slidCoordinates comm.dims comm.baseCoordinates numSlides := by
  obtain ⟨hlo, hhi⟩ := hbase 1
  have hmod := Int.emod_nonneg (numSlides : ℤ) hdims.ne'
  have hmod' := Int.emod_lt_of_pos (numSlides : ℤ) hdims
  have hslid : (comm.baseCoordinates 1 - numSlides) % comm.dims 1 =
      (comm.baseCoordinates 1 + comm.yoffset) % comm.dims 1 := by
    rw [hoffset, offsetAfter, ← sub_eq_add_neg, Int.sub_emod_emod]
  have hown : ∀ y, -comm.dims 1 ≤ y → y < comm.dims 1 → y % comm.dims 1 = (comm.baseCoordinates 1 + comm.yoffset) % comm.dims 1 →
      Function.update comm.baseCoordinates 1 (raiseCoordinate (-y).toNat y (comm.dims 1)) =
        slidCoordinates comm.dims comm.baseCoordinates numSlides := by
    intro y hy hy' hmodeq
    rw [slidCoordinates, hslid, ← hmodeq, raiseCoordinate_eq hy hy']
  rw [ownCoordinates]
  split
  · have hlt := Int.tmod_lt_of_pos (comm.baseCoordinates 1 + comm.yoffset) hdims
    have hgt := Int.lt_tmod_of_pos (comm.baseCoordinates 1 + comm.yoffset) hdims
    exact hown _ hgt.le hlt (tmod_emod_self _ _)
  · next hone =>
    have hextent : comm.dims 1 = 1 := by omega
    have hlo' : 0 ≤ comm.baseCoordinates 1 := hlo
    refine hown _ (by omega) hhi ?_
    rw [hextent, Int.emod_one, Int.emod_one]

theorem slidCoordinates_mem {dims base : DataSpace (n + 2)} (hdims : ∀ d, 0 < dims d) (hbase : base ∈ grid dims)
    (numSlides : ℕ) : slidCoordinates dims base numSlides ∈ grid dims := by
  intro d
  by_cases hd : d = 1
  · subst hd
    rw [slidCoordinates, Function.update_self]
    exact ⟨Int.emod_nonneg _ (hdims 1).ne', Int.emod_lt_of_pos _ (hdims 1)⟩
  · rw [slidCoordinates, Function.update_of_ne hd]
    exact hbase d

theorem slidCoordinates_injOn {dims : DataSpace (n + 2)} (numSlides : ℕ) :
    Set.InjOn (fun base => slidCoordinates dims base numSlides) (grid dims) := by
  intro b hb b' hb' h
  funext d
  by_cases hd : d = 1
  · subst hd
    have h1 := congrFun h 1
    dsimp only at h1
    rw [slidCoordinates, slidCoordinates, Function.update_self, Function.update_self,
      Int.emod_sub_cancel_right] at h1
    rwa [Int.emod_eq_of_lt (hb 1).1 (hb 1).2, Int.emod_eq_of_lt (hb' 1).1 (hb' 1).2] at h1
  · have hd' := congrFun h d
    dsimp only at hd'
    rwa [slidCoordinates, slidCoordinates, Function.update_of_ne hd, Function.update_of_ne hd] at hd'

theorem neighbourRank_eq (hdims : ∀ d, 0 < comm.dims d) (mcoords : DataSpace (n + 2)) :
    comm.neighbourRank mcoords = rowMajorIndex comm.dims fun d =>
      (if d = 1 then mcoords d - comm.yoffset else mcoords d) % comm.dims d := by
  rw [neighbourRank]
  congr 1
  funext d
  rw [tmod_raised (hdims d)]
  by_cases hd : d = 1
  · subst hd
    rw [if_pos rfl]
    split
    · rw [Function.update_self, tmod_emod_self]
    · have hextent : comm.dims 1 = 1 := by have := hdims 1; omega
      rw [hextent, Int.emod_one, Int.emod_one]
  · rw [if_neg hd]
    split
    · rw [Function.update_of_ne hd]
    · rfl

/-- The base coordinates of the rank one step in a direction, around the end of every axis. -/
def baseNeighbour (dims base v : DataSpace (n + 2)) : DataSpace (n + 2) := fun d => (base d + v d) % dims d

theorem baseNeighbour_mem {dims : DataSpace (n + 2)} (hdims : ∀ d, 0 < dims d) (base v : DataSpace (n + 2)) :
    baseNeighbour dims base v ∈ grid dims :=
  fun d => ⟨Int.emod_nonneg _ (hdims d).ne', Int.emod_lt_of_pos _ (hdims d)⟩

/-- The coordinates after some slides. -/
theorem slides_coordinates (hdims : 0 < comm.dims 1) (hbase : comm.baseCoordinates ∈ grid comm.dims)
    (hoffset : comm.yoffset = 0) (hupdated : comm.updateCoordinates = comm) (numSlides : ℕ) :
    (comm.slides numSlides).2.coordinates = slidCoordinates comm.dims comm.baseCoordinates numSlides := by
  have hdims' := slides_dims comm numSlides
  have hbase' := slides_baseCoordinates comm numSlides
  rw [← slides_updated hupdated numSlides, updateCoordinates_coordinates, ownCoordinates_eq numSlides,
    hdims', hbase']
  · rwa [hdims']
  · rwa [hdims', hbase']
  · rw [hdims', slides_yoffset hdims hoffset]

/-- A slide tells whether the rank is at the end. -/
theorem slides_succ_fst (numSlides : ℕ) :
    (comm.slides (numSlides + 1)).1 = decide ((comm.slides (numSlides + 1)).2.coordinates 1 = comm.dims 1 - 1) := by
  have hdims := slides_dims comm (numSlides + 1)
  rw [← hdims]
  rfl

/-- The neighbour stands one step away in the grid as it has been slid. -/
theorem slidCoordinates_baseNeighbour (dims base v : DataSpace (n + 2)) (numSlides : ℕ) :
    slidCoordinates dims (baseNeighbour dims base v) numSlides =
      baseNeighbour dims (slidCoordinates dims base numSlides) v := by
  funext d
  by_cases hd : d = 1
  · subst hd
    rw [slidCoordinates, Function.update_self, baseNeighbour, baseNeighbour, slidCoordinates, Function.update_self,
      Int.emod_sub_emod, Int.emod_add_emod]
    congr 1
    ring
  · rw [slidCoordinates, Function.update_of_ne hd, baseNeighbour, baseNeighbour, slidCoordinates,
      Function.update_of_ne hd]

theorem neighbourStep_eq (hn : n ≤ 1) {i : ℕ} (hi : i < 3 ^ (n + 2)) (d : Fin (n + 2)) :
    neighbourStep (Mask.single i) d = getRelativeDirections (n + 2) i d := by
  interval_cases n <;> interval_cases i <;> revert d <;> decide +kernel

theorem mem_exchanges (hn : n ≤ 1) {i : ℕ} : i ∈ exchanges (n + 2) ↔ 1 ≤ i ∧ i < 3 ^ (n + 2) := by
  rw [exchanges, List.mem_range'_1]
  interval_cases n <;> norm_num

end Topology

end CommunicatorMPI
end Communication
end Spearhed
