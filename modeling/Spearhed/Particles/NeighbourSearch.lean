import Spearhed.Particles.NeighbourRows

/-!
# Completeness of the neighbour search in global coordinates

The functors of `NeighbourRegions.hpp` compare the boxes of two regions as they are stored, each
relative to its own origin; the interaction shifts by the difference of the origins.  Two regions
whose boxes come close in global coordinates therefore find each other only as long as their origins
do not differ by too much, which is `OriginsAgree`.

* `inRow_iff`: what the finished lists hold.
* `FindsClosePairs.agreeWhereClose`: where the origins differ by too much, particles are missed.
* `neighbour_search_complete_iff`: when no close pair of particles is missed.
-/

namespace Spearhed
namespace Particles

open Library

variable {K : Type} [Field K] [LinearOrder K] {d : ℕ}

/-! ## What is found -/

/-- After the write pass the index of a source region stands in the row of a target region, at a
position that the array has. -/
def InRow (numWorkers : ℕ) (targetPR sourcePR : List (ParticleRegion K d)) (smoothingLength : K)
    (memory : ℕ → UInt32) (b j : ℕ) : Prop :=
  let offsets := (regionOffsets numWorkers targetPR sourcePR smoothingLength).1
  ∃ k : ℕ, (offsets b).toNat ≤ k ∧ k < (offsets (b + 1)).toNat ∧
    (k : ℤ) < neighbourRegionsSize numWorkers targetPR sourcePR smoothingLength ∧ (memory k).toNat = j

theorem mem_row {offsets memory : ℕ → UInt32} {b j : ℕ} : j ∈ row offsets memory b ↔
    ∃ k : ℕ, (offsets b).toNat ≤ k ∧ k < (offsets (b + 1)).toNat ∧ (memory k).toNat = j := by
  rw [row, List.mem_map]
  constructor
  · rintro ⟨i, hi, rfl⟩
    have hlt := List.mem_range.mp hi
    exact ⟨_, Nat.le_add_right _ i, by omega, rfl⟩
  · rintro ⟨k, hle, hlt, rfl⟩
    exact ⟨k - (offsets b).toNat, List.mem_range.mpr (by omega), by rw [Nat.add_sub_cancel' hle]⟩

/-- **What the finished lists hold.**  From `2 ^ 31` pairs on the array has no position at all. -/
theorem inRow_iff {k : ℕ} {targetPR sourcePR : List (ParticleRegion K d)} {smoothingLength : K}
    (hfit : pairs targetPR sourcePR smoothingLength < 2 ^ 32) (hsource : sourcePR.length < 2 ^ 31)
    {memory : ℕ → UInt32} {s : SharedCursor.State (Fin targetPR.length) ℕ ℕ UInt32}
    (h : ((writePass (2 ^ k) targetPR sourcePR smoothingLength).system memory).Reachable s)
    (ht : ((writePass (2 ^ k) targetPR sourcePR smoothingLength).system memory).Terminal s)
    (b : Fin targetPR.length) (j : Fin sourcePR.length) :
    InRow (2 ^ k) targetPR sourcePR smoothingLength s.memory b j ↔
      pairs targetPR sourcePR smoothingLength < 2 ^ 31 ∧
        StoredBoxesWithin (targetPR.get b) (sourcePR.get j) smoothingLength := by
  have hmem : j.val ∈ row (regionOffsets (2 ^ k) targetPR sourcePR smoothingLength).1 s.memory b ↔
      StoredBoxesWithin (targetPR.get b) (sourcePR.get j) smoothingLength := by
    rw [(row_perm hfit hsource h ht b).mem_iff, mem_neighbours (List.getElem?_eq_getElem j.isLt)]
    rfl
  constructor
  · rintro ⟨i, hle, hlt, hsize, hj⟩
    refine ⟨?_, hmem.mp (mem_row.mpr ⟨i, hle, hlt, hj⟩)⟩
    by_contra hge
    rw [neighbourRegionsSize, totalPairs_eq] at hsize
    have hneg : toInt (UInt32.ofNat (pairs targetPR sourcePR smoothingLength)) < 0 :=
      toInt_neg_of_le (by rw [UInt32.toNat_ofNat_of_lt' hfit]; omega)
    omega
  · rintro ⟨hpairs, hbox⟩
    obtain ⟨i, hle, hlt, hj⟩ := mem_row.mp (hmem.mpr hbox)
    refine ⟨i, hle, hlt, ?_, hj⟩
    rw [neighbourRegionsSize, totalPairs_eq, toInt_ofNat hpairs]
    have hend : ((regionOffsets (2 ^ k) targetPR sourcePR smoothingLength).1 (b + 1)).toNat ≤
        pairs targetPR sourcePR smoothingLength := by
      rw [regionOffsets_toNat hfit b.isLt, pairs]
      exact blockStart_le_sum _ _
    omega

/-! ## What only the boxes decide -/

/-- The regions of two lists have the same boxes; their particles may differ. -/
def SameVolumes (regions regions' : List (ParticleRegion K d)) : Prop :=
  regions.map ParticleRegion.volume = regions'.map ParticleRegion.volume

section SameVolumes

omit [Field K] [LinearOrder K]

variable {regions regions' : List (ParticleRegion K d)}

theorem SameVolumes.length_eq (h : SameVolumes regions regions') : regions.length = regions'.length := by
  have hlen := congrArg List.length h
  rwa [List.length_map, List.length_map] at hlen

theorem SameVolumes.getElem_volume (h : SameVolumes regions regions') {i : ℕ} (hi : i < regions.length)
    (hi' : i < regions'.length) : regions[i].volume = regions'[i].volume := by
  have hget := congrArg (·[i]?) h
  simpa [List.getElem?_map, hi, hi'] using hget

end SameVolumes

omit [Field K] in
theorem SameVolumes.meets_eq {sourcePR sourcePR' : List (ParticleRegion K d)}
    (h : SameVolumes sourcePR sourcePR') (searchVolume : AABB K d) :
    meets searchVolume sourcePR = meets searchVolume sourcePR' := by
  funext j
  have hget := congrArg (fun volumes : List (AABB K d) => (volumes[j]?).any searchVolume.intersects) h
  simpa only [meets, List.getElem?_map, Option.any_map, Function.comp_def] using hget

/-- How many pairs of regions meet depends on the boxes alone. -/
theorem SameVolumes.pairs_eq {targetPR targetPR' sourcePR sourcePR' : List (ParticleRegion K d)}
    (htarget : SameVolumes targetPR targetPR') (hsource : SameVolumes sourcePR sourcePR') (R : K) :
    pairs targetPR sourcePR R = pairs targetPR' sourcePR' R := by
  have hrow : ∀ region : ParticleRegion K d,
      (neighbours region sourcePR R).length = (neighbours region sourcePR' R).length := fun region => by
    rw [neighbours, neighbours, hsource.length_eq, hsource.meets_eq]
  have hsum := congrArg (fun volumes : List (AABB K d) => (volumes.map fun volume =>
    (neighbours ⟨volume, []⟩ sourcePR' R).length).sum) htarget
  simp only [List.map_map] at hsum
  calc pairs targetPR sourcePR R
      = (targetPR.map fun region => (neighbours region sourcePR' R).length).sum := by
        rw [pairs, rowLengths]
        simp only [hrow]
    _ = pairs targetPR' sourcePR' R := hsum

/-- The difference of the origins of two boxes, along every axis, lies between the bounds within
which the second box, moved by that difference, still meets the first one expanded by `R`.  All
bounds are global positions. -/
def OriginsAgree (a b : AABB K d) (R : K) : Prop :=
  ∀ t, a.origin t - b.origin t ∈ Set.Icc
    (a.getPosition a.min t - b.getPosition b.max t - R)
    (a.getPosition a.max t - b.getPosition b.min t + R)

/-- Target and source regions whose boxes come closer than `R` in global coordinates have origins
that agree, and the number of pairs of regions that meet is an `int`. -/
def AgreeWhereClose (targetPR sourcePR : List (ParticleRegion K d)) (R : K) : Prop :=
  ∀ r ∈ targetPR, ∀ r' ∈ sourcePR, r.volume.CloserThan r'.volume R →
    pairs targetPR sourcePR R < 2 ^ 31 ∧ OriginsAgree r.volume r'.volume R

/-- The search misses no close pair of particles: however live particles fill these boxes, every run
of the write pass ends, and then a source region with a particle closer than `R` to one of a target
region, in global coordinates, stands in the list of the target region. -/
def FindsClosePairs (A : Type) (frameSize numWorkers : ℕ) (targetPR sourcePR : List (ParticleRegion K d))
    (R : K) : Prop :=
  ∀ targetPR' sourcePR', SameVolumes targetPR' targetPR → SameVolumes sourcePR' sourcePR →
    ∀ H : Heap K d A frameSize, (∀ r ∈ targetPR', r.BoxContainsLive H) →
      (∀ r ∈ sourcePR', r.BoxContainsLive H) → ∀ memory s,
        ((writePass numWorkers targetPR' sourcePR' R).system memory).Reachable s →
          ((writePass numWorkers targetPR' sourcePR' R).system memory).Terminating s ∧
          (((writePass numWorkers targetPR' sourcePR' R).system memory).Terminal s →
            ∀ (b : Fin targetPR'.length) (j : Fin sourcePR'.length),
              HasClosePair H (targetPR'.get b) (sourcePR'.get j) R →
                InRow numWorkers targetPR' sourcePR' R s.memory b j)

section Ordered

variable [IsStrictOrderedRing K]

theorem originsAgree_iff {target source : ParticleRegion K d} {R : K} :
    OriginsAgree target.volume source.volume R ↔ StoredBoxesWithin target source R := by
  refine forall_congr' fun t => and_congr ?_ ?_ <;> simp only [AABB.getPosition] <;>
    constructor <;> intro h <;> linarith

variable {A : Type} {frameSize : ℕ}

/-- Close particles are in close boxes. -/
theorem HasClosePair.closerThan {H : Heap K d A frameSize} {target source : ParticleRegion K d} {R : K}
    (h : HasClosePair H target source R) (htarget : target.BoxContainsLive H)
    (hsource : source.BoxContainsLive H) : target.volume.CloserThan source.volume R := by
  obtain ⟨x, y, hx, hy, hxy⟩ := h
  exact AABB.closerThan_iff.mpr ⟨_, _, htarget x hx, hsource y hy, hxy⟩

/-- With equal origins, and a margin that is not negative, close boxes meet as they are stored. -/
theorem originsAgree_of_origin_eq {a b : AABB K d} {R : K} (hR : 0 ≤ R) (horigin : a.origin = b.origin)
    (hclose : a.CloserThan b R) : OriginsAgree a b R := by
  obtain ⟨v, w, hv, hw, hlt⟩ := AABB.closerThan_iff.mp hclose
  have hshift : a.getPosition v - b.getPosition w = fun t => v t - w t := by
    funext t
    show a.origin t + v t - (b.origin t + w t) = _
    rw [horigin]
    ring
  rw [hshift] at hlt
  have hiff : OriginsAgree (⟨a, []⟩ : ParticleRegion K d).volume (⟨b, []⟩ : ParticleRegion K d).volume R ↔
      StoredBoxesWithin ⟨a, []⟩ ⟨b, []⟩ R := originsAgree_iff
  exact hiff.mpr (AABB.expand_intersects_iff.mp (AABB.expand_intersects_of_normSq_lt hR hv hw hlt))

/-! ## One pair of particles in given boxes -/

/-- The same boxes, with one frame in the region at an index and no other frame. -/
def onlyFrameIn (regions : List (ParticleRegion K d)) (i : ℕ) (a : FramePtr) : List (ParticleRegion K d) :=
  regions.mapIdx fun k r => ⟨r.volume, if k = i then [a] else []⟩

/-- The frame at address zero holds particles at one position, every other frame at another. -/
def twoPositions [Inhabited A] (v w : Vec K d) : Heap K d A frameSize :=
  fun a => ⟨fun _ => ⟨if a = 0 then v else w, 1, default⟩, UInt32.ofNat frameSize⟩

section OnlyFrameIn

omit [Field K] [LinearOrder K] [IsStrictOrderedRing K]

theorem sameVolumes_onlyFrameIn (regions : List (ParticleRegion K d)) (i : ℕ) (a : FramePtr) :
    SameVolumes (onlyFrameIn regions i a) regions := by
  refine List.ext_getElem (by simp [onlyFrameIn]) fun k hk hk' => ?_
  simp [onlyFrameIn]

theorem length_onlyFrameIn (regions : List (ParticleRegion K d)) (i : ℕ) (a : FramePtr) :
    (onlyFrameIn regions i a).length = regions.length :=
  (sameVolumes_onlyFrameIn regions i a).length_eq

theorem getElem_onlyFrameIn {regions : List (ParticleRegion K d)} {i : ℕ} (hi : i < regions.length)
    (a : FramePtr) (hi' : i < (onlyFrameIn regions i a).length) :
    (onlyFrameIn regions i a)[i] = ⟨regions[i].volume, [a]⟩ := by
  simp [onlyFrameIn]

end OnlyFrameIn

omit [Field K] [IsStrictOrderedRing K] in
theorem boxContainsLive_onlyFrameIn {H : Heap K d A frameSize} {regions : List (ParticleRegion K d)}
    {i : ℕ} (hi : i < regions.length) {a : FramePtr}
    (hcontains : ∀ slot, regions[i].volume.Contains (H.relativePos (a, slot))) :
    ∀ r ∈ onlyFrameIn regions i a, r.BoxContainsLive H := by
  intro r hr
  obtain ⟨k, hk, rfl⟩ := List.mem_iff_getElem.mp hr
  rintro ⟨f, slot⟩ ⟨hf, -⟩
  by_cases hki : k = i
  · subst hki
    rw [getElem_onlyFrameIn hi] at hf ⊢
    obtain rfl := List.mem_singleton.mp hf
    exact hcontains slot
  · simp [onlyFrameIn, hki] at hf

/-- **A search that misses no particle has origins that agree**: two close boxes may hold one close
pair of particles and nothing else. -/
theorem FindsClosePairs.agreeWhereClose [Inhabited A] (hframe : 0 < frameSize) {k : ℕ}
    {targetPR sourcePR : List (ParticleRegion K d)} {R : K}
    (hfinds : FindsClosePairs A frameSize (2 ^ k) targetPR sourcePR R)
    (hfit : pairs targetPR sourcePR R < 2 ^ 32) (hsource : sourcePR.length < 2 ^ 31) :
    AgreeWhereClose targetPR sourcePR R := by
  intro r hr r' hr' hclose
  obtain ⟨v, w, hv, hw, hlt⟩ := AABB.closerThan_iff.mp hclose
  obtain ⟨b, hb, rfl⟩ := List.mem_iff_getElem.mp hr
  obtain ⟨j, hj, rfl⟩ := List.mem_iff_getElem.mp hr'
  have htargets := sameVolumes_onlyFrameIn targetPR b 0
  have hsources := sameVolumes_onlyFrameIn sourcePR j 1
  have hpairs := htargets.pairs_eq hsources R
  have hb' : b < (onlyFrameIn targetPR b 0).length := by rwa [length_onlyFrameIn]
  have hj' : j < (onlyFrameIn sourcePR j 1).length := by rwa [length_onlyFrameIn]
  have hget := getElem_onlyFrameIn hb 0 hb'
  have hget' := getElem_onlyFrameIn hj 1 hj'
  have hpair : HasClosePair (twoPositions v w : Heap K d A frameSize) (onlyFrameIn targetPR b 0)[b]
      (onlyFrameIn sourcePR j 1)[j] R := by
    rw [hget, hget']
    exact ⟨(0, ⟨0, hframe⟩), (1, ⟨0, hframe⟩), ⟨List.mem_singleton_self _, rfl⟩,
      ⟨List.mem_singleton_self _, rfl⟩, hlt⟩
  -- some run of the write pass, to its end
  obtain ⟨s, hrun, ht⟩ := (SharedCursor.terminating (.init rfl) :
    ((writePass (2 ^ k) (onlyFrameIn targetPR b 0) (onlyFrameIn sourcePR j 1) R).system
      fun _ => 0).Terminating _).exists_terminal
  have h := StepSystem.Reachable.trans (.init rfl) hrun
  have hrow := (hfinds _ _ htargets hsources (twoPositions v w)
    (boxContainsLive_onlyFrameIn hb fun _ => hv) (boxContainsLive_onlyFrameIn hj fun _ => hw) _ s h).2 ht
    ⟨b, hb'⟩ ⟨j, hj'⟩ hpair
  rw [inRow_iff (by rwa [hpairs]) (by rwa [length_onlyFrameIn]) h ht] at hrow
  obtain ⟨hlimit, hbox⟩ := hrow
  refine ⟨by rwa [hpairs] at hlimit, ?_⟩
  rw [← originsAgree_iff] at hbox
  simpa only [List.get_eq_getElem, hget, hget'] using hbox

/-! ## The search -/

/-- Where the origins agree, the search misses no particle. -/
theorem AgreeWhereClose.findsClosePairs {k : ℕ} {targetPR sourcePR : List (ParticleRegion K d)} {R : K}
    (hagree : AgreeWhereClose targetPR sourcePR R) (hsource : sourcePR.length < 2 ^ 31) :
    FindsClosePairs A frameSize (2 ^ k) targetPR sourcePR R := by
  intro targetPR' sourcePR' htargets hsources H htarget' hsource' memory s h
  refine ⟨SharedCursor.terminating h, fun ht b j hpair => ?_⟩
  have hb : b < targetPR.length := by rw [← htargets.length_eq]; exact b.isLt
  have hj : j < sourcePR.length := by rw [← hsources.length_eq]; exact j.isLt
  have hclose := hpair.closerThan (htarget' _ (List.getElem_mem b.isLt)) (hsource' _ (List.getElem_mem j.isLt))
  have hvolume := htargets.getElem_volume b.isLt hb
  have hvolume' := hsources.getElem_volume j.isLt hj
  obtain ⟨hlimit, hwithin⟩ := hagree _ (List.getElem_mem hb) _ (List.getElem_mem hj)
    (by rwa [← hvolume, ← hvolume'])
  rw [← hvolume, ← hvolume', originsAgree_iff] at hwithin
  rw [← htargets.pairs_eq hsources] at hlimit
  exact (inRow_iff (hlimit.trans (by norm_num)) (by rwa [hsources.length_eq]) h ht b j).mpr ⟨hlimit, hwithin⟩

/-- **When the lists are complete in global coordinates.**  The search misses no close pair of
particles where the origins of close boxes agree and fewer than `2 ^ 31` pairs of regions meet; below
`2 ^ 32` pairs, which an unsigned total holds, there only.  The condition is met wherever all origins
are equal. -/
theorem neighbour_search_complete_iff [Inhabited A] (hframe : 0 < frameSize) {numWorkers : ℕ}
    (hw : numWorkers = 1 ∨ numWorkers = 32) {targetPR sourcePR : List (ParticleRegion K d)}
    (hsource : sourcePR.length + numWorkers ≤ 2 ^ 31) (R : K) :
    (AgreeWhereClose targetPR sourcePR R → FindsClosePairs A frameSize numWorkers targetPR sourcePR R) ∧
    (pairs targetPR sourcePR R < 2 ^ 32 →
      (FindsClosePairs A frameSize numWorkers targetPR sourcePR R ↔ AgreeWhereClose targetPR sourcePR R)) ∧
    (0 ≤ R → (∀ r ∈ targetPR, ∀ r' ∈ sourcePR, r.volume.origin = r'.volume.origin) →
      pairs targetPR sourcePR R < 2 ^ 31 → AgreeWhereClose targetPR sourcePR R) := by
  obtain ⟨k, rfl⟩ : ∃ k, numWorkers = 2 ^ k := by
    rcases hw with rfl | rfl
    · exact ⟨0, rfl⟩
    · exact ⟨5, rfl⟩
  have hlt : sourcePR.length < 2 ^ 31 := by
    have hpos := Nat.two_pow_pos k
    omega
  refine ⟨fun hagree => hagree.findsClosePairs hlt, fun hfit => ⟨fun hfinds =>
    hfinds.agreeWhereClose hframe hfit hlt, fun hagree => hagree.findsClosePairs hlt⟩,
    fun hR horigin hpairs r hr r' hr' hclose => ⟨hpairs, ?_⟩⟩
  exact originsAgree_of_origin_eq hR (horigin r hr r' hr') hclose

end Ordered

/-! ## Two boxes at one place

One axis.  The frame at address `a` holds one live particle at `-10 a`; in the region at origin
`10 a` that is the global position zero. -/

/-- One live particle in every frame. -/
def tenthsHeap : Heap ℚ 0 Unit 1 := fun a => ⟨fun _ => ⟨fun _ => -10 * (a : ℚ), 1, ()⟩, 1⟩

theorem shiftedRegion_boxContainsLive (a : ℕ) : (shiftedRegion a).BoxContainsLive tenthsHeap := by
  rintro ⟨f, i⟩ ⟨hf, -⟩ t
  obtain rfl := List.mem_singleton.mp hf
  exact ⟨le_rfl, le_rfl⟩

theorem shiftedRegion_hasClosePair (a b : ℕ) :
    HasClosePair tenthsHeap (shiftedRegion a) (shiftedRegion b) 1 := by
  refine ⟨(a, 0), (b, 0), ⟨List.mem_singleton_self a, rfl⟩, ⟨List.mem_singleton_self b, rfl⟩, ?_⟩
  have hzero : (shiftedRegion a).globalPos tenthsHeap (a, 0) -
      (shiftedRegion b).globalPos tenthsHeap (b, 0) = 0 := by
    funext t
    show 10 * (a : ℚ) + -10 * (a : ℚ) - (10 * (b : ℚ) + -10 * (b : ℚ)) = 0
    ring
  rw [hzero]
  simp [normSq]

theorem shiftedRegion_closerThan (a b : ℕ) :
    (shiftedRegion a).volume.CloserThan (shiftedRegion b).volume 1 :=
  (shiftedRegion_hasClosePair a b).closerThan (shiftedRegion_boxContainsLive a)
    (shiftedRegion_boxContainsLive b)

theorem shiftedRegion_not_storedBoxesWithin :
    ¬ StoredBoxesWithin (shiftedRegion 0) (shiftedRegion 1) 1 := by
  intro hbox
  have hlow := (hbox 0).1
  norm_num [shiftedRegion] at hlow

theorem pairs_singleton_le (r r' : ParticleRegion ℚ 0) (R : ℚ) : pairs [r] [r'] R ≤ 1 := by
  rw [pairs, rowLengths, List.map_singleton, List.sum_singleton]
  exact List.length_filter_le ..

/-- Two boxes at one place in global coordinates: with one origin they find each other, and with
origins ten apart they do not. -/
theorem neighbour_search_complete_iff_same_origin :
    FindsClosePairs Unit 1 32 [shiftedRegion 0] [shiftedRegion 0] 1 ∧
      ¬ FindsClosePairs Unit 1 32 [shiftedRegion 0] [shiftedRegion 1] 1 := by
  have hlimit : ∀ a b, pairs [shiftedRegion a] [shiftedRegion b] 1 < 2 ^ 31 := fun a b =>
    (pairs_singleton_le _ _ _).trans_lt (by norm_num)
  constructor
  · have hsearch : (AgreeWhereClose [shiftedRegion 0] [shiftedRegion 0] 1 →
        FindsClosePairs Unit 1 32 [shiftedRegion 0] [shiftedRegion 0] 1) ∧ _ ∧ _ :=
      neighbour_search_complete_iff Nat.one_pos (Or.inr rfl) (by norm_num) 1
    refine hsearch.1 (hsearch.2.2 zero_le_one (fun r hr r' hr' => ?_) (hlimit 0 0))
    rw [List.mem_singleton.mp hr, List.mem_singleton.mp hr']
  · have hsearch : (AgreeWhereClose [shiftedRegion 0] [shiftedRegion 1] 1 →
        FindsClosePairs Unit 1 32 [shiftedRegion 0] [shiftedRegion 1] 1) ∧ _ ∧ _ :=
      neighbour_search_complete_iff Nat.one_pos (Or.inr rfl) (by norm_num) 1
    rw [hsearch.2.1 ((hlimit 0 1).trans (by norm_num))]
    intro hagree
    exact shiftedRegion_not_storedBoxesWithin (originsAgree_iff.mp
      (hagree _ (List.mem_singleton_self _) _ (List.mem_singleton_self _) (shiftedRegion_closerThan 0 1)).2)

/-- Two particles at one place, in regions with different origins: the lists miss the pair. -/
theorem neighbour_search_misses_shifted_region :
    (shiftedRegion 0).BoxContainsLive tenthsHeap ∧ (shiftedRegion 1).BoxContainsLive tenthsHeap ∧
      HasClosePair tenthsHeap (shiftedRegion 0) (shiftedRegion 1) 1 ∧
      ∀ s, ((writePass 1 [shiftedRegion 0] [shiftedRegion 1] 1).system fun _ => 0).Reachable s →
        ((writePass 1 [shiftedRegion 0] [shiftedRegion 1] 1).system fun _ => 0).Terminal s →
          ¬ InRow 1 [shiftedRegion 0] [shiftedRegion 1] 1 s.memory 0 0 := by
  refine ⟨shiftedRegion_boxContainsLive 0, shiftedRegion_boxContainsLive 1,
    shiftedRegion_hasClosePair 0 1, fun s h ht hrow => shiftedRegion_not_storedBoxesWithin ?_⟩
  have hfit : pairs [shiftedRegion 0] [shiftedRegion 1] 1 < 2 ^ 32 :=
    (pairs_singleton_le _ _ _).trans_lt (by norm_num)
  exact ((inRow_iff (k := 0) hfit (by norm_num) h ht 0 0).mp hrow).2

end Particles
end Spearhed
