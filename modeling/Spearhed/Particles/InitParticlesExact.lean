import Mathlib.Tactic
import Mathlib.Data.List.FinRange
import Spearhed.Particles.PlacedParticles

/-!
# Particle creation is exact

What `InitParticles` leaves behind, for any blocks and any order of the kernel's actions.

* `RegionHolds`: a region has its number of particles, spread over frames as `frameFill` says, and
  its calls of `placeParticle` are those of one recipe, one for each index.
* `Extends`: what was there before stays as it was.
* `ends_initBlockSlice`: one slice; by induction over the blocks, `ends_initBlocks`.
* `initParticles_exact`: the whole of `InitParticles` for a species.
-/

namespace Spearhed
namespace Particles

open Library

variable {K : Type} {d : ℕ} {A Species : Type} {frameSize : ℕ}

namespace CreateParticlesInFrame

variable {recipe : Recipe K d A Species} {tasks : List FrameTask} {m₀ : Memory K d A frameSize}
  {s : State K d A frameSize}

/-- The frames of a list, in walking order. -/
structure ListHolds (m : Memory K d A frameSize) (r : ℕ) (frames : List FramePtr) : Prop where
  walk : Walk m.next (m.frameList r).firstNode frames
  lastNode : (m.frameList r).lastNode = frames.getLast?
  nodup : frames.Nodup
  allocated : ∀ p ∈ frames, p ∈ m.allocated
  multiMask : ∀ p ∈ frames, ∀ slot, ((m.frames p).particlesSoa slot).multiMask =
    if slot.val < (m.frames p).liveParticles.toNat then 1 else 0

/-- A list without frames. -/
theorem listHolds_nil {m : Memory K d A frameSize} {r : ℕ} (h : m.frameList r = {}) :
    ListHolds m r [] := by
  refine ⟨?_, ?_, List.nodup_nil, nofun, nofun⟩
  · rw [h]
    rfl
  · rw [h]
    rfl

/-- The frame of a block at the end of a run. -/
theorem filled_of_terminal (hinv : Inv recipe tasks m₀ s)
    (ht : (system recipe tasks m₀).Terminal s) {j : ℕ} {task : FrameTask}
    (hj : tasks[j]? = some task) :
    ∃ p, (s.phase j).listedPtr = some p ∧ (s.memory.frames p).liveParticles =
      task.numParticlesToCreate ∧ ∀ slot, ((s.memory.frames p).particlesSoa slot).multiMask =
        if slot.val < task.numParticlesToCreate.toNat then 1 else 0 := by
  obtain ⟨p, done, hphase, hdone⟩ := phase_of_terminal ht hj
  obtain ⟨-, hlive, hmask⟩ := hinv.filled.filling j task p done hj hphase
  exact ⟨p, by rw [hphase]; rfl, hlive, fun slot => hmask slot (hdone slot)⟩

/-- At the end of a run the order of a region lists the frames of its tasks, each once. -/
theorem order_perm_jobs (hinv : Inv recipe tasks m₀ s) {order : ℕ → List FramePtr}
    (hlinked : Linked tasks s order) (ht : (system recipe tasks m₀).Terminal s) {r : ℕ}
    (hr : ∃ task ∈ tasks, task.region = r) :
    ∃ ptr : FrameTask × ℕ → FramePtr, (order r).Perm ((jobs tasks r).map ptr) ∧
      ∀ x ∈ jobs tasks r, (s.phase x.2).listedPtr = some (ptr x) := by
  set ptr : FrameTask × ℕ → FramePtr := fun x => ((s.phase x.2).listedPtr).getD 0 with hptr
  have hptr_eq : ∀ x ∈ jobs tasks r, (s.phase x.2).listedPtr = some (ptr x) := fun x hx => by
    obtain ⟨p, hp, -⟩ := filled_of_terminal hinv ht (mem_jobs.mp hx).1
    rw [hptr]
    dsimp only
    rw [hp]
    rfl
  refine ⟨ptr, ?_, hptr_eq⟩
  have hnodup : (order r).Nodup := by
    obtain ⟨task, htask, rfl⟩ := hr
    exact (hlinked.chain task htask).nodup
  rw [List.perm_ext_iff_of_nodup hnodup]
  · intro p
    rw [hlinked.mem, List.mem_map]
    constructor
    · rintro ⟨j, task, hj, hregion, hp⟩
      have hmem : (task, j) ∈ jobs tasks r := mem_jobs.mpr ⟨hj, hregion⟩
      refine ⟨(task, j), hmem, Option.some.inj ?_⟩
      rw [← hptr_eq _ hmem, hp]
    · rintro ⟨x, hx, rfl⟩
      exact ⟨x.2, x.1, (mem_jobs.mp hx).1, (mem_jobs.mp hx).2, hptr_eq x hx⟩
  · refine List.Nodup.map_on (fun x hx y hy hxy => ?_) ((nodup_zipIdx tasks).filter _)
    have hidx : x.2 = y.2 := hinv.owned.unique _ _ (ptr x)
      (Phase.framePtr_of_listedPtr (hptr_eq x hx))
      (Phase.framePtr_of_listedPtr (hxy ▸ hptr_eq y hy))
    refine Prod.ext (Option.some.inj ?_) hidx
    rw [← (mem_jobs.mp hx).1, ← (mem_jobs.mp hy).1, hidx]

/-- **At the end of a run the list of a region consists of the frames of its tasks.** -/
theorem list_of_terminal (hinv : Inv recipe tasks m₀ s) {order : ℕ → List FramePtr}
    (hlinked : Linked tasks s order) (ht : (system recipe tasks m₀).Terminal s) {r : ℕ}
    (hr : ∃ task ∈ tasks, task.region = r) :
    ListHolds s.memory r (order r) ∧
      ((order r).map fun p => (s.memory.frames p).liveParticles).Perm
        ((tasks.filter fun task => decide (task.region = r)).map FrameTask.numParticlesToCreate) := by
  have hphase := fun {j : ℕ} {task : FrameTask} (hj : tasks[j]? = some task) =>
    filled_of_terminal hinv ht hj
  -- no block is between its exchange and its link
  have hpending : ∀ p ∈ order r, p ∉ s.pending := by
    rintro p hp ⟨j, hj⟩
    obtain ⟨i, task, hi, -, hip⟩ := (hlinked.mem r p).mp hp
    have hframe := Phase.framePtr_of_listedPtr hip
    obtain rfl := hinv.owned.unique i j p hframe
      (Phase.framePtr_of_listedPtr (Phase.listedPtr_of_pendingPtr hj))
    obtain ⟨q, done, hfilling, -⟩ := phase_of_terminal ht hi
    rw [hfilling] at hj
    cases hj
  have hchain : AppendList (s.memory.frameList r).firstNode (s.memory.frameList r).lastNode
      s.memory.next s.pending (order r) := by
    obtain ⟨task, htask, rfl⟩ := hr
    exact hlinked.chain task htask
  refine ⟨⟨hchain.walk hpending, hchain.lastNode, hchain.nodup,
    fun p hp => (hlinked.not_mem_allocated hinv.owned hp).1, fun p hp slot => ?_⟩, ?_⟩
  · obtain ⟨i, task, hi, -, hip⟩ := (hlinked.mem r p).mp hp
    obtain ⟨q, hiq, hlive, hmask⟩ := hphase hi
    rw [hip] at hiq
    obtain rfl := Option.some.inj hiq
    rw [hlive]
    exact hmask slot
  · obtain ⟨ptr, hperm, hptr⟩ := order_perm_jobs hinv hlinked ht hr
    refine (hperm.map _).trans (List.Perm.of_eq ?_)
    have hfst : (jobs tasks r).map Prod.fst = tasks.filter fun task => decide (task.region = r) := by
      conv_rhs => rw [← List.zipIdx_map_fst 0 tasks, List.filter_map]
      rfl
    rw [← hfst, List.map_map, List.map_map]
    refine List.map_congr_left fun x hx => ?_
    obtain ⟨p, hp, hlive, -⟩ := hphase (mem_jobs.mp hx).1
    rw [hptr x hx] at hp
    show (s.memory.frames (ptr x)).liveParticles = _
    rw [Option.some.inj hp]
    exact hlive

/-- **At the end of a run the frames of a region hold what the recipe places in them.** -/
theorem placed_of_terminal (hinv : Inv recipe tasks m₀ s) (hplaced : Placed recipe tasks m₀ s)
    {order : ℕ → List FramePtr} (hlinked : Linked tasks s order)
    (ht : (system recipe tasks m₀).Terminal s) {r : ℕ} (hr : ∃ task ∈ tasks, task.region = r) :
    FramesPlaced s.memory recipe (m₀.regions r).volume
      (m₀.regions r).particleFrameList.numParticles (jobs tasks r) (order r) := by
  obtain ⟨ptr, hperm, hptr⟩ := order_perm_jobs hinv hlinked ht hr
  refine ⟨ptr, hperm, fun x hx slot => ?_⟩
  obtain ⟨hj, hregion⟩ := mem_jobs.mp hx
  obtain ⟨p, done, hphase, hdone⟩ := phase_of_terminal ht hj
  have hp := hptr x hx
  rw [hphase] at hp
  obtain rfl : p = ptr x := Option.some.inj hp
  split
  · next hlt =>
    rw [← hregion]
    exact hplaced x.2 x.1 _ done hj hphase slot (hdone slot) hlt
  · next hge =>
    rw [(hinv.filled.filling x.2 x.1 _ done hj hphase).multiMask slot (hdone slot), if_neg hge]

/-- **At the end of a run `placeParticle` was called for all tasks.** -/
theorem calls_of_terminal (hinv : Inv recipe tasks m₀ s)
    (ht : (system recipe tasks m₀).Terminal s) :
    s.memory.calls.Perm
      (tasks.flatMap (fun task => doneCalls recipe task (List.finRange frameSize)) ++ m₀.calls) := by
  refine hinv.called.trans (List.Perm.append_right _ ?_)
  have hfst : tasks.flatMap (fun task => doneCalls recipe task (List.finRange frameSize)) =
      tasks.zipIdx.flatMap fun x => doneCalls recipe x.1 (List.finRange frameSize) := by
    conv_lhs => rw [← List.zipIdx_map_fst 0 tasks, List.flatMap_map]
  rw [hfst]
  refine List.Perm.flatMap_left _ fun x hx => ?_
  have hj := List.mem_zipIdx_iff_getElem?.mp hx
  obtain ⟨p, done, hphase, hdone⟩ := phase_of_terminal ht hj
  have hnodup := (hinv.filled.filling x.2 x.1 p done hj hphase).nodup
  have hall : done.Perm (List.finRange frameSize) :=
    (List.perm_ext_iff_of_nodup hnodup (List.nodup_finRange frameSize)).mpr fun slot =>
      iff_of_true (hdone slot) (List.mem_finRange slot)
  rw [hphase]
  exact (hall.filter _).map _

end CreateParticlesInFrame

/-! ## The tasks of a slice -/

/-- The calls for one frame, by the indices of its particles. -/
theorem doneCalls_finRange {recipe : Recipe K d A Species} (hsize : frameSize < 2 ^ 32)
    {n r k : ℕ} :
    CreateParticlesInFrame.doneCalls recipe
        ⟨r, UInt32.ofNat k, UInt32.ofNat (frameFill frameSize n k)⟩ (List.finRange frameSize) =
      (frameIndices frameSize n k).map fun i => ⟨recipe.index, r, UInt32.ofNat i⟩ := by
  have hfill : (UInt32.ofNat (frameFill frameSize n k)).toNat = frameFill frameSize n k :=
    UInt32.toNat_ofNat_of_lt' (lt_of_le_of_lt frameFill_le hsize)
  have hrange : (List.range frameSize).filter (fun i => decide (i < frameFill frameSize n k)) =
      List.range (frameFill frameSize n k) := by
    have hle : frameFill frameSize n k ≤ frameSize := frameFill_le
    have hsplit := Nat.add_sub_cancel' hle
    rw [← hsplit, List.range_add, List.filter_append, hsplit, List.filter_eq_self.mpr fun i hi =>
      decide_eq_true (List.mem_range.mp hi), List.filter_eq_nil_iff.mpr fun i hi => ?_,
      List.append_nil]
    obtain ⟨i', -, rfl⟩ := List.mem_map.mp hi
    simp
  rw [CreateParticlesInFrame.doneCalls, hfill, frameIndices, ← hrange,
    ← List.map_coe_finRange_eq_range, List.filter_map, List.map_map, List.map_map]
  refine List.map_congr_left fun slot _ => ?_
  show PlaceCall.mk _ _ (_ * _ + _) = PlaceCall.mk _ _ _
  rw [← UInt32.ofNat_mul, ← UInt32.ofNat_add]

/-- The calls for one region. -/
theorem regionTasks_calls {recipe : Recipe K d A Species} (hpos : 0 < frameSize)
    (hsize : frameSize < 2 ^ 32) {n r : ℕ} :
    (regionTasks frameSize n r).flatMap (fun task =>
        CreateParticlesInFrame.doneCalls recipe task (List.finRange frameSize)) =
      (List.range n).map fun i => ⟨recipe.index, r, UInt32.ofNat i⟩ := by
  rw [regionTasks, List.flatMap_map]
  simp only [doneCalls_finRange hsize]
  rw [← flatten_frameIndices (n := n) hpos, List.map_flatten, List.map_map, List.flatMap_def]
  rfl

/-- The tasks of a slice that are for one region. -/
theorem filter_regionTasks {n begin i : ℕ} (hi : i < n) (N : ℕ → ℕ) :
    ((List.range n).flatMap fun i => regionTasks frameSize (N i) (begin + i)).filter
        (fun task => decide (task.region = begin + i)) =
      regionTasks frameSize (N i) (begin + i) := by
  have hkey : ∀ i' ∈ List.range n, ∀ task ∈ regionTasks frameSize (N i') (begin + i'),
      task.region = begin + i' := fun i' _ task htask => by
    obtain ⟨k, -, rfl⟩ := List.mem_map.mp htask
    rfl
  rw [filter_flatMap_key hkey]
  simp only [Nat.add_left_cancel_iff]
  rw [filter_eq_singleton List.nodup_range (List.mem_range.mpr hi), List.flatMap_singleton]

/-- The calls of the tasks that are for one region. -/
theorem filter_calls {recipe : Recipe K d A Species} (tasks : List FrameTask) (r : ℕ)
    (slots : List (Fin frameSize)) :
    (tasks.flatMap fun task => CreateParticlesInFrame.doneCalls recipe task slots).filter
        (fun call => decide (call.region = r)) =
      (tasks.filter fun task => decide (task.region = r)).flatMap fun task =>
        CreateParticlesInFrame.doneCalls recipe task slots := by
  refine filter_flatMap_key (fun task _ call hcall => ?_) r
  obtain ⟨slot, -, rfl⟩ := List.mem_map.mp hcall
  rfl

/-! ## One slice -/

/-- **A region holds `n` particles** in these frames, all created with the recipe of one block. -/
structure RegionHolds (m : Memory K d A frameSize) (index n r : ℕ) (frames : List FramePtr) :
    Prop where
  numParticles : (m.regions r).particleFrameList.numParticles.toNat = n
  list : CreateParticlesInFrame.ListHolds m r frames
  fills : (frames.map fun p => (m.frames p).liveParticles.toNat).Perm (frameFills frameSize n)
  calls : (m.calls.filter fun call => decide (call.region = r)).Perm
    ((List.range n).map fun i => ⟨index, r, UInt32.ofNat i⟩)

/-- The regions from `first` up to `last` may have changed; all else is as it was. -/
structure Extends (m m' : Memory K d A frameSize) (first last : ℕ) : Prop where
  regions : ∀ r, r < first ∨ last ≤ r → m'.regions r = m.regions r
  frames : ∀ p ∈ m.allocated, m'.frames p = m.frames p
  allocated : m.allocated ⊆ m'.allocated
  calls : ∃ new : List PlaceCall, m'.calls.Perm (new ++ m.calls) ∧
    ∀ call ∈ new, first ≤ call.region ∧ call.region < last

theorem Extends.refl (m : Memory K d A frameSize) (first : ℕ) : Extends m m first first :=
  ⟨fun _ _ => rfl, fun _ _ => rfl, Finset.Subset.refl _, [], List.Perm.refl _, nofun⟩

theorem Extends.trans {m m' m'' : Memory K d A frameSize} {first mid last : ℕ}
    (h : Extends m m' first mid) (h' : Extends m' m'' mid last) (hfirst : first ≤ mid)
    (hlast : mid ≤ last) : Extends m m'' first last := by
  obtain ⟨new, hnew, hregion⟩ := h.calls
  obtain ⟨new', hnew', hregion'⟩ := h'.calls
  refine ⟨fun r hr => ?_, fun p hp => ?_, h.allocated.trans h'.allocated, new' ++ new, ?_,
    fun call hcall => ?_⟩
  · rw [h'.regions r (by omega), h.regions r (by omega)]
  · rw [h'.frames p (h.allocated hp), h.frames p hp]
  · rw [List.append_assoc]
    exact hnew'.trans (hnew.append_left new')
  · rcases List.mem_append.mp hcall with hcall | hcall
    · have := hregion' call hcall
      omega
    · have := hregion call hcall
      omega

/-- What is outside of the slice stays. -/
theorem RegionHolds.of_extends {m m' : Memory K d A frameSize} {first last index n r : ℕ}
    {frames : List FramePtr} (h : RegionHolds m index n r frames) (hm : Extends m m' first last)
    (hr : r < first ∨ last ≤ r) : RegionHolds m' index n r frames := by
  obtain ⟨hnum, hlist, hfills, hcalls⟩ := h
  have hregion := hm.regions r hr
  have hframe : ∀ p ∈ frames, m'.frames p = m.frames p := fun p hp =>
    hm.frames p (hlist.allocated p hp)
  refine ⟨by rw [hregion]; exact hnum, ⟨?_, ?_, hlist.nodup,
    fun p hp => hm.allocated (hlist.allocated p hp), fun p hp slot => ?_⟩, ?_, ?_⟩
  · rw [Memory.frameList, hregion]
    exact hlist.walk.congr fun p hp => by rw [Memory.next, hframe p hp]; rfl
  · rw [Memory.frameList, hregion]
    exact hlist.lastNode
  · rw [hframe p hp]
    exact hlist.multiMask p hp slot
  · rw [List.map_congr_left fun p hp => by rw [hframe p hp]]
    exact hfills
  · obtain ⟨new, hnew, hnewregion⟩ := hm.calls
    refine (hnew.filter _).trans ?_
    rw [List.filter_append, List.filter_eq_nil_iff.mpr fun call hcall => ?_, List.nil_append]
    · exact hcalls
    · have := hnewregion call hcall
      simp only [decide_eq_true_eq]
      omega

namespace Block

/-- How many particles a block creates in its region `i`. -/
def numParticles (block : Block K d A Species) (i : ℕ) (volume : AABB K d) : ℕ :=
  (block.numParticlesToCreate i (StoredRegion.ofVolume volume)).toNat

/-- The numbers of frames of the regions of a block. -/
def frameCounts (block : Block K d A Species) (S : Species) (frameSize : ℕ) : List ℕ :=
  (block.addRegions S).mapIdx fun i volume => block.numParticles i volume ⌈/⌉ frameSize

end Block

/-- The tasks of the kernel for a block whose regions begin at an index. -/
def Block.sliceTasks (block : Block K d A Species) (S : Species) (frameSize regionBegin : ℕ) :
    List FrameTask :=
  ((block.addRegions S).mapIdx fun i volume =>
    regionTasks frameSize (block.numParticles i volume) (regionBegin + i)).flatten

section Slice

variable {block : Block K d A Species} {S : Species} {regionBegin i : ℕ} {volume : AABB K d}

/-- The tasks of a slice, region by region. -/
theorem Block.sliceTasks_eq {N : ℕ → ℕ}
    (hN : ∀ i volume, (block.addRegions S)[i]? = some volume → N i = block.numParticles i volume) :
    block.sliceTasks S frameSize regionBegin = (List.range (block.addRegions S).length).flatMap
      fun i => regionTasks frameSize (N i) (regionBegin + i) := by
  rw [Block.sliceTasks, List.flatMap_def]
  refine congrArg List.flatten (List.ext_getElem? fun i => ?_)
  rw [List.getElem?_map, List.getElem?_mapIdx]
  rcases Nat.lt_or_ge i (block.addRegions S).length with hi | hi
  · have hvolume := List.getElem?_eq_getElem hi
    rw [List.getElem?_range hi, hvolume, Option.map_some, Option.map_some, hN i _ hvolume]
  · rw [List.getElem?_eq_none hi, List.getElem?_eq_none (by simpa using hi)]
    rfl

/-- The tasks of a slice that are for its region `i`. -/
theorem Block.filter_sliceTasks (hi : (block.addRegions S)[i]? = some volume) :
    (block.sliceTasks S frameSize regionBegin).filter
        (fun task => decide (task.region = regionBegin + i)) =
      regionTasks frameSize (block.numParticles i volume) (regionBegin + i) := by
  have hN : ∀ k v, (block.addRegions S)[k]? = some v →
      ((block.addRegions S)[k]?).elim 0 (block.numParticles k) = block.numParticles k v := by
    intro k v hk
    rw [hk]
    rfl
  rw [Block.sliceTasks_eq hN, filter_regionTasks (List.getElem?_eq_some_iff.mp hi).1
    (fun k => ((block.addRegions S)[k]?).elim 0 (block.numParticles k)), hN i volume hi]

/-- The tasks of a slice are for its regions. -/
theorem Block.region_of_mem_sliceTasks {task : FrameTask}
    (htask : task ∈ block.sliceTasks S frameSize regionBegin) :
    ∃ i < (block.addRegions S).length, task.region = regionBegin + i := by
  obtain ⟨tasks, htasks, hmem⟩ := List.mem_flatten.mp htask
  obtain ⟨i, hi, rfl⟩ := List.mem_mapIdx.mp htasks
  obtain ⟨k, -, rfl⟩ := List.mem_map.mp hmem
  exact ⟨i, hi, rfl⟩

variable {regions : ℕ → StoredRegion K d} {framesPerRegion : ℕ → UInt32}

/-- What the count kernel leaves in a region of the slice. -/
theorem calculateFramesPerRegion_of_new
    (hnew : regions (regionBegin + i) = StoredRegion.ofVolume volume)
    (hi : (block.addRegions S)[i]? = some volume) :
    (calculateFramesPerRegion frameSize block regions regionBegin (block.addRegions S).length
        framesPerRegion).1 (regionBegin + i) =
      ⟨volume, {}, block.numParticlesToCreate i (StoredRegion.ofVolume volume)⟩ := by
  have hlt := (List.getElem?_eq_some_iff.mp hi).1
  rw [calculateFramesPerRegion]
  dsimp only
  rw [if_pos (by omega), hnew, Nat.add_sub_cancel_left]
  rfl

/-- Other regions are not counted. -/
theorem calculateFramesPerRegion_of_outside {n r : ℕ} (hr : r < regionBegin ∨ regionBegin + n ≤ r) :
    (calculateFramesPerRegion frameSize block regions regionBegin n framesPerRegion).1 r =
      regions r := by
  rw [calculateFramesPerRegion]
  exact if_neg (by omega)

/-- **The kernel runs over the tasks of the slice**: counting and scanning the regions of a block
finds for each block of the kernel its part of a region. -/
theorem frameTasks_of_new (hpos : 0 < frameSize) (hsize : frameSize < 2 ^ 32)
    (hnew : ∀ i volume, (block.addRegions S)[i]? = some volume →
      regions (regionBegin + i) = StoredRegion.ofVolume volume)
    (hsum : (block.frameCounts S frameSize).sum < 2 ^ 31)
    {counted : (ℕ → StoredRegion K d) × (ℕ → UInt32)}
    (hcounted : counted = calculateFramesPerRegion frameSize block regions regionBegin
      (block.addRegions S).length framesPerRegion) :
    frameTasks frameSize counted.1 regionBegin (block.addRegions S).length
        (inclusiveScanHost counted.2 (block.addRegions S).length).1
        (inclusiveScanHost counted.2 (block.addRegions S).length).2 =
      block.sliceTasks S frameSize regionBegin := by
  set n := (block.addRegions S).length with hn
  have hregion : ∀ i volume, (block.addRegions S)[i]? = some volume →
      counted.1 (regionBegin + i) =
        ⟨volume, {}, block.numParticlesToCreate i (StoredRegion.ofVolume volume)⟩ :=
    fun i volume hi => hcounted ▸ calculateFramesPerRegion_of_new (hnew i volume hi) hi
  have hcounts : sliceCounts frameSize counted.1 regionBegin n = block.frameCounts S frameSize := by
    refine List.ext_getElem? fun i => ?_
    rw [sliceCounts, Block.frameCounts, List.getElem?_map, List.getElem?_mapIdx]
    rcases Nat.lt_or_ge i n with hi | hi
    · have hvolume := List.getElem?_eq_getElem (hn ▸ hi)
      rw [List.getElem?_range hi, hvolume, Option.map_some, Option.map_some, hregion i _ hvolume]
      rfl
    · rw [List.getElem?_eq_none (by simpa using hi), List.getElem?_eq_none (by omega)]
      rfl
  have hlength : (sliceCounts frameSize counted.1 regionBegin n).length = n := by
    simp [sliceCounts]
  have hdata : ∀ i < (sliceCounts frameSize counted.1 regionBegin n).length,
      counted.2 i = UInt32.ofNat ((sliceCounts frameSize counted.1 regionBegin n).getD i 0) := by
    intro i hi
    rw [hlength] at hi
    rw [sliceCounts, List.getD_eq_getElem?_getD, List.getElem?_map, List.getElem?_range hi]
    rw [hcounted, calculateFramesPerRegion]
    dsimp only
    rw [if_pos hi]
    rfl
  have hscan := fun i hi => inclusiveScanHost_ofNat hdata (i := i) hi
  have htotal := inclusiveScanHost_ofNat_total hdata
  rw [hlength] at hscan htotal
  rw [htotal, frameTasks_eq hpos hsize (hcounts ▸ hsum) hscan]
  refine (Block.sliceTasks_eq fun i volume hi => ?_).symm
  rw [hregion i volume hi]
  rfl

end Slice

/-- The frames of region `i` of a block hold what the block places there. -/
def RegionPlaced (m : Memory K d A frameSize) (recipe : Recipe K d A Species) (S : Species)
    (regionBegin i : ℕ) (volume : AABB K d) (frames : List FramePtr) : Prop :=
  CreateParticlesInFrame.FramesPlaced m recipe volume
    (recipe.block.numParticlesToCreate i (StoredRegion.ofVolume volume))
    (CreateParticlesInFrame.jobs (recipe.block.sliceTasks S frameSize regionBegin) (regionBegin + i))
    frames

/-- The lists of the regions from `first` up to `last` have no frame in common, and none with what
was allocated before. -/
structure Separate (m : Memory K d A frameSize) (first last : ℕ) (frames : ℕ → List FramePtr) :
    Prop where
  fresh : ∀ r, first ≤ r → r < last → ∀ p ∈ frames r, p ∉ m.allocated
  disjoint : ∀ r r' p, first ≤ r → r < last → first ≤ r' → r' < last →
    p ∈ frames r → p ∈ frames r' → r = r'

namespace Separate

variable {m m₁ : Memory K d A frameSize} {first mid last : ℕ} {frames frames' : ℕ → List FramePtr}

theorem empty : Separate m first last fun _ => [] :=
  ⟨fun _ _ _ _ hp => absurd hp List.not_mem_nil, fun _ _ _ _ _ _ _ hp => absurd hp List.not_mem_nil⟩

/-- Lists that are filled later have no frame of those that were filled before. -/
theorem append (h : Separate m first mid frames) (hm : m.allocated ⊆ m₁.allocated)
    (hold : ∀ r, first ≤ r → r < mid → ∀ p ∈ frames r, p ∈ m₁.allocated)
    (h' : Separate m₁ mid last frames') :
    Separate m first last fun r => if r < mid then frames r else frames' r := by
  refine ⟨fun r hr hr' p hp => ?_, fun r r' p hr hlt hr' hlt' hp hp' => ?_⟩
  · split at hp
    · exact h.fresh r hr ‹_› p hp
    · exact fun hmem => h'.fresh r (by omega) hr' p hp (hm hmem)
  · split at hp <;> split at hp'
    · exact h.disjoint r r' p hr ‹_› hr' ‹_› hp hp'
    · exact absurd (hold r hr ‹_› p hp) (h'.fresh r' (by omega) hlt' p hp')
    · exact absurd (hold r' hr' ‹_› p hp') (h'.fresh r (by omega) hlt p hp)
    · exact h'.disjoint r r' p (by omega) hlt (by omega) hlt' hp hp'

end Separate

/-! ### The end of a slice -/

section Terminal

variable {recipe : Recipe K d A Species} {S : Species} {regionBegin i : ℕ} {volume : AABB K d}
  {m₀ : Memory K d A frameSize} {s : CreateParticlesInFrame.State K d A frameSize}
  {order : ℕ → List FramePtr} {tasks : List FrameTask}

/-- Where no task is for a region, its list has no frames. -/
theorem order_eq_nil (hlinked : CreateParticlesInFrame.Linked tasks s order) {r : ℕ}
    (hnone : ¬ ∃ task ∈ tasks, task.region = r) : order r = [] := by
  refine List.eq_nil_iff_forall_not_mem.mpr fun p hp => ?_
  obtain ⟨j, task, hj, hr, -⟩ := (hlinked.mem _ p).mp hp
  exact hnone ⟨task, List.mem_of_getElem? hj, hr⟩

/-- **A region of the slice at the end of a run.** -/
theorem regionHolds_of_terminal (hpos : 0 < frameSize) (hsize : frameSize < 2 ^ 32)
    (htasks : tasks = recipe.block.sliceTasks S frameSize regionBegin)
    (hinv : CreateParticlesInFrame.Inv recipe tasks m₀ s)
    (hlinked : CreateParticlesInFrame.Linked tasks s order)
    (ht : (CreateParticlesInFrame.system recipe tasks m₀).Terminal s)
    (hcalls : ∀ call ∈ m₀.calls, call.region < regionBegin)
    (hi : (recipe.block.addRegions S)[i]? = some volume)
    (hregion : m₀.regions (regionBegin + i) =
      ⟨volume, {}, recipe.block.numParticlesToCreate i (StoredRegion.ofVolume volume)⟩) :
    RegionHolds s.memory recipe.index (recipe.block.numParticles i volume) (regionBegin + i)
      (order (regionBegin + i)) := by
  have hfilter : tasks.filter (fun task => decide (task.region = regionBegin + i)) =
      regionTasks frameSize (recipe.block.numParticles i volume) (regionBegin + i) := by
    rw [htasks, Block.filter_sliceTasks hi]
  have hlist : CreateParticlesInFrame.ListHolds s.memory (regionBegin + i)
        (order (regionBegin + i)) ∧
      ((order (regionBegin + i)).map fun p => (s.memory.frames p).liveParticles.toNat).Perm
        (frameFills frameSize (recipe.block.numParticles i volume)) := by
    by_cases hsome : ∃ task ∈ tasks, task.region = regionBegin + i
    · obtain ⟨hlist, hperm⟩ := CreateParticlesInFrame.list_of_terminal hinv hlinked ht hsome
      refine ⟨hlist, ?_⟩
      have hnat := hperm.map UInt32.toNat
      rw [hfilter, List.map_map, List.map_map, regionTasks, List.map_map] at hnat
      refine hnat.trans (List.Perm.of_eq (List.map_congr_left fun k _ => ?_))
      exact UInt32.toNat_ofNat_of_lt' (lt_of_le_of_lt frameFill_le hsize)
    · -- a region without particles has no tasks
      have hnone : regionTasks frameSize (recipe.block.numParticles i volume)
          (regionBegin + i) = [] := by
        rw [← hfilter]
        exact List.filter_eq_nil_iff.mpr fun task hmem => by
          simpa using fun heq => hsome ⟨task, hmem, heq⟩
      rw [order_eq_nil hlinked hsome]
      refine ⟨CreateParticlesInFrame.listHolds_nil ?_, ?_⟩
      · rw [Memory.frameList, hinv.filled.regions _ fun task hmem heq => hsome ⟨task, hmem, heq⟩,
          hregion]
      · have hzero := congrArg List.length hnone
        rw [regionTasks, List.length_map, List.length_range, List.length_nil] at hzero
        rw [frameFills, hzero]
        exact List.Perm.refl _
  refine ⟨?_, hlist.1, hlist.2, ?_⟩
  · rw [hinv.filled.numParticles, hregion]
    rfl
  · refine ((CreateParticlesInFrame.calls_of_terminal hinv ht).filter _).trans ?_
    rw [List.filter_append, filter_calls, hfilter, regionTasks_calls hpos hsize,
      List.filter_eq_nil_iff.mpr fun call hcall => ?_, List.append_nil]
    have := hcalls call hcall
    simp only [decide_eq_true_eq]
    omega

/-- What is placed in a region of the slice. -/
theorem regionPlaced_of_terminal
    (htasks : tasks = recipe.block.sliceTasks S frameSize regionBegin)
    (hinv : CreateParticlesInFrame.Inv recipe tasks m₀ s)
    (hplaced : CreateParticlesInFrame.Placed recipe tasks m₀ s)
    (hlinked : CreateParticlesInFrame.Linked tasks s order)
    (ht : (CreateParticlesInFrame.system recipe tasks m₀).Terminal s)
    (hregion : m₀.regions (regionBegin + i) =
      ⟨volume, {}, recipe.block.numParticlesToCreate i (StoredRegion.ofVolume volume)⟩) :
    RegionPlaced s.memory recipe S regionBegin i volume (order (regionBegin + i)) := by
  rw [RegionPlaced, ← htasks]
  by_cases hsome : ∃ task ∈ tasks, task.region = regionBegin + i
  · have hframes := CreateParticlesInFrame.placed_of_terminal hinv hplaced hlinked ht hsome
    rw [hregion] at hframes
    exact hframes
  · have hjobs : CreateParticlesInFrame.jobs tasks (regionBegin + i) = [] := by
      refine List.eq_nil_iff_forall_not_mem.mpr fun x hx => ?_
      obtain ⟨hj, hr⟩ := CreateParticlesInFrame.mem_jobs.mp hx
      exact hsome ⟨x.1, List.mem_of_getElem? hj, hr⟩
    rw [hjobs, order_eq_nil hlinked hsome]
    exact ⟨fun _ => 0, List.Perm.refl _, fun job hjob => absurd hjob List.not_mem_nil⟩

end Terminal

namespace InitParticles

variable {S : Species} {initAttributes : UInt64 → Vec K d × A}

/-- **A slice is filled as its block says.** -/
theorem ends_initBlockSlice (hpos : 0 < frameSize) (hsize : frameSize < 2 ^ 32)
    {recipe : Recipe K d A Species} {framesPerRegion : ℕ → UInt32} {regionBegin : ℕ}
    {m : Memory K d A frameSize}
    (hnew : ∀ i volume, (recipe.block.addRegions S)[i]? = some volume →
      m.regions (regionBegin + i) = StoredRegion.ofVolume volume)
    (hcalls : ∀ call ∈ m.calls, call.region < regionBegin)
    (hsum : (recipe.block.frameCounts S frameSize).sum < 2 ^ 31)
    {Q : Memory K d A frameSize → Prop}
    (hQ : ∀ m' frames,
      Extends m m' regionBegin (regionBegin + (recipe.block.addRegions S).length) →
      Separate m regionBegin (regionBegin + (recipe.block.addRegions S).length) frames →
      (∀ i volume, (recipe.block.addRegions S)[i]? = some volume →
        (m'.regions (regionBegin + i)).volume = volume ∧
          RegionHolds m' recipe.index (recipe.block.numParticles i volume) (regionBegin + i)
            (frames (regionBegin + i)) ∧
          RegionPlaced m' recipe S regionBegin i volume (frames (regionBegin + i))) →
      Q m') :
    initBlockSlice recipe framesPerRegion regionBegin (recipe.block.addRegions S).length m Q := by
  set n := (recipe.block.addRegions S).length with hn
  set counted := calculateFramesPerRegion frameSize recipe.block m.regions regionBegin n
    framesPerRegion with hcounted
  -- what the count kernel leaves in the regions of the slice
  have hregion : ∀ i volume, (recipe.block.addRegions S)[i]? = some volume →
      counted.1 (regionBegin + i) =
        ⟨volume, {}, recipe.block.numParticlesToCreate i (StoredRegion.ofVolume volume)⟩ :=
    fun i volume hi => calculateFramesPerRegion_of_new (hnew i volume hi) hi
  show (CreateParticlesInFrame.system recipe (frameTasks frameSize counted.1 regionBegin n
    (inclusiveScanHost counted.2 n).1 (inclusiveScanHost counted.2 n).2)
      { m with regions := counted.1 }).Ends ⟨{ m with regions := counted.1 }, fun _ => .start⟩ _
  rw [frameTasks_of_new hpos hsize hnew hsum hcounted]
  set tasks := recipe.block.sliceTasks S frameSize regionBegin with htasks
  have hempty : ∀ task ∈ tasks,
      Memory.frameList { m with regions := counted.1 } task.region = {} := fun task ht => by
    obtain ⟨i, hi, hr⟩ := Block.region_of_mem_sliceTasks ht
    rw [hr]
    show (counted.1 (regionBegin + i)).particleFrameList.list = {}
    rw [hregion i _ (List.getElem?_eq_getElem hi)]
  have hstart : (CreateParticlesInFrame.system recipe tasks
      { m with regions := counted.1 }).Reachable ⟨{ m with regions := counted.1 }, fun _ => .start⟩ :=
    StepSystem.Reachable.init rfl
  refine ⟨CreateParticlesInFrame.terminating hempty hstart, fun t hrun ht => ?_⟩
  have hinv := CreateParticlesInFrame.inv_of_reachable hempty (hstart.trans hrun)
  have hplaced := CreateParticlesInFrame.placed_of_reachable hempty (hstart.trans hrun)
  obtain ⟨order, hlinked⟩ := hinv.linked
  refine hQ _ order ?_ ?_ fun i volume hi => ⟨?_, ?_, ?_⟩
  · -- outside of the slice
    have hcalled := CreateParticlesInFrame.calls_of_terminal hinv ht
    refine ⟨fun r hr => ?_, hinv.filled.frames, hinv.owned.allocated, _, hcalled,
      fun call hcall => ?_⟩
    · rw [hinv.filled.regions r fun task hmem => ?_]
      · show counted.1 r = m.regions r
        rw [hcounted]
        exact calculateFramesPerRegion_of_outside hr
      · obtain ⟨i, hi, heq⟩ := Block.region_of_mem_sliceTasks hmem
        omega
    · obtain ⟨task, hmem, hcall⟩ := List.mem_flatMap.mp hcall
      obtain ⟨slot, -, rfl⟩ := List.mem_map.mp hcall
      obtain ⟨i, hi, heq⟩ := Block.region_of_mem_sliceTasks hmem
      dsimp only
      omega
  · exact ⟨fun r _ _ p hp => (hlinked.not_mem_allocated hinv.owned hp).2,
      fun r r' p _ _ _ _ hp hp' => hlinked.region_unique hinv.owned hp hp'⟩
  · rw [hinv.filled.volume]
    exact congrArg StoredRegion.volume (hregion i volume hi)
  · exact regionHolds_of_terminal hpos hsize htasks hinv hlinked ht hcalls hi (hregion i volume hi)
  · exact regionPlaced_of_terminal htasks hinv hplaced hlinked ht (hregion i volume hi)

/-! ## All slices -/

/-- The sizes of the slices. -/
def sliceSizes (S : Species) (blocks : List (Block K d A Species)) : List ℕ :=
  blocks.map fun block => (block.addRegions S).length

theorem sum_sliceSizes (S : Species) (blocks : List (Block K d A Species)) :
    (sliceSizes S blocks).sum = (InitRegions.volumes S blocks).length := by
  rw [InitRegions.volumes, List.length_flatMap]
  rfl

/-- The regions of a slice, among the volumes gathered for all blocks. -/
theorem volumes_getElem? {blocks : List (Block K d A Species)} {k i : ℕ}
    {block : Block K d A Species} {volume : AABB K d} (hk : blocks[k]? = some block)
    (hi : (block.addRegions S)[i]? = some volume) :
    (InitRegions.volumes S blocks)[blockStart (sliceSizes S blocks) k + i]? = some volume :=
  getElem?_flatMap_blockStart hk hi

/-- **All slices are filled**, each with the recipe of its block. -/
theorem ends_initBlocks (hpos : 0 < frameSize) (hsize : frameSize < 2 ^ 32)
    {framesPerRegion : ℕ → ℕ → UInt32} {Q : Memory K d A frameSize → Prop}
    {blocks : List (Block K d A Species)} {index regionOffset : ℕ} {m : Memory K d A frameSize}
    (hnew : ∀ i volume, (InitRegions.volumes S blocks)[i]? = some volume →
      m.regions (regionOffset + i) = StoredRegion.ofVolume volume)
    (hcalls : ∀ call ∈ m.calls, call.region < regionOffset)
    (hsum : ∀ block ∈ blocks, (block.frameCounts S frameSize).sum < 2 ^ 31)
    (hQ : ∀ m' frames, Extends m m' regionOffset (regionOffset + (sliceSizes S blocks).sum) →
      Separate m regionOffset (regionOffset + (sliceSizes S blocks).sum) frames →
      (∀ k block i volume, blocks[k]? = some block → (block.addRegions S)[i]? = some volume →
        (m'.regions (regionOffset + (blockStart (sliceSizes S blocks) k + i))).volume = volume ∧
          RegionHolds m' (index + k) (block.numParticles i volume)
            (regionOffset + (blockStart (sliceSizes S blocks) k + i))
            (frames (regionOffset + (blockStart (sliceSizes S blocks) k + i))) ∧
          RegionPlaced m' ⟨index + k, block, initAttributes⟩ S
            (regionOffset + blockStart (sliceSizes S blocks) k) i volume
            (frames (regionOffset + (blockStart (sliceSizes S blocks) k + i)))) →
      Q m') :
    initBlocks S initAttributes framesPerRegion Q blocks index regionOffset m := by
  induction blocks generalizing index regionOffset m with
  | nil =>
    exact hQ m (fun _ => []) (Extends.refl m regionOffset) Separate.empty nofun
  | cons block blocks ih =>
    set n := (block.addRegions S).length with hn
    have hsizes : sliceSizes S (block :: blocks) = n :: sliceSizes S blocks := rfl
    have hvolumes : InitRegions.volumes S (block :: blocks) =
        block.addRegions S ++ InitRegions.volumes S blocks := List.flatMap_cons
    rw [hsizes, List.sum_cons] at hQ
    -- the walk over the other blocks, from what the first slice leaves behind
    have hrest : ∀ m₁ frames₁, Extends m m₁ regionOffset (regionOffset + n) →
        Separate m regionOffset (regionOffset + n) frames₁ →
        (∀ i volume, (block.addRegions S)[i]? = some volume →
          (m₁.regions (regionOffset + i)).volume = volume ∧
            RegionHolds m₁ index (block.numParticles i volume) (regionOffset + i)
              (frames₁ (regionOffset + i)) ∧
            RegionPlaced m₁ ⟨index, block, initAttributes⟩ S regionOffset i volume
              (frames₁ (regionOffset + i))) →
        initBlocks S initAttributes framesPerRegion Q blocks (index + 1) (regionOffset + n) m₁ := by
      intro m₁ frames₁ hm₁ hsep₁ hslice
      -- a frame of the first slice is allocated before the other slices are filled
      have hold : ∀ r, regionOffset ≤ r → r < regionOffset + n → ∀ p ∈ frames₁ r,
          p ∈ m₁.allocated := fun r hr hr' p hp => by
        have hi : r - regionOffset < n := by omega
        have hregion := (hslice (r - regionOffset) _ (List.getElem?_eq_getElem hi)).2.1
        rw [Nat.add_sub_cancel' hr] at hregion
        exact hregion.list.allocated p hp
      refine ih (fun i volume hi => ?_) (fun call hcall => ?_)
        (fun b hb => hsum b (List.mem_cons_of_mem block hb)) fun m' frames' hm' hsep' hslices =>
          hQ m' (fun r => if r < regionOffset + n then frames₁ r else frames' r) ?_ ?_ ?_
      · rw [hm₁.regions _ (Or.inr (by omega)), Nat.add_assoc]
        refine hnew (n + i) volume ?_
        rw [hvolumes, List.getElem?_append_right (Nat.le_add_right _ _), Nat.add_sub_cancel_left]
        exact hi
      · obtain ⟨new, hperm, hnewcalls⟩ := hm₁.calls
        rcases List.mem_append.mp (hperm.subset hcall) with hcall | hcall
        · exact (hnewcalls call hcall).2
        · exact lt_of_lt_of_le (hcalls call hcall) (Nat.le_add_right _ _)
      · rw [← Nat.add_assoc]
        exact hm₁.trans hm' (Nat.le_add_right _ _) (Nat.le_add_right _ _)
      · rw [← Nat.add_assoc]
        exact hsep₁.append hm₁.allocated hold hsep'
      · intro k b i volume hk hi
        cases k with
        | zero =>
          obtain rfl := Option.some.inj hk
          have hlt : i < n := (List.getElem?_eq_some_iff.mp hi).1
          obtain ⟨hvolume, hholds, hplaced⟩ := hslice i volume hi
          rw [blockStart_zero, Nat.zero_add, Nat.add_zero, Nat.add_zero]
          have hr : regionOffset + i < regionOffset + n := by omega
          rw [hm'.regions _ (Or.inl hr), if_pos hr]
          refine ⟨hvolume, hholds.of_extends hm' (Or.inl hr), hplaced.congr fun p hp => ?_⟩
          exact hm'.frames p (hholds.list.allocated p hp)
        | succ k =>
          have hlater := hslices k b i volume hk hi
          rw [blockStart_cons_succ, Nat.add_assoc n, ← Nat.add_assoc regionOffset,
            ← Nat.add_assoc index, Nat.add_right_comm index, if_neg (by omega),
            ← Nat.add_assoc regionOffset n (blockStart _ k)]
          exact hlater
    rcases Nat.eq_zero_or_pos n with hn0 | hn0
    · rw [initBlocks, if_neg (by omega), ← hn]
      refine hrest m (fun _ => []) ?_ Separate.empty
        fun i volume hi => absurd (List.getElem?_eq_some_iff.mp hi).1 (by omega)
      rw [hn0]
      exact Extends.refl m regionOffset
    · rw [initBlocks, if_pos hn0]
      set recipe : Recipe K d A Species := ⟨index, block, initAttributes⟩
      have hfits : (recipe.block.frameCounts S frameSize).sum < 2 ^ 31 :=
        hsum block List.mem_cons_self
      show initBlockSlice recipe _ _ (recipe.block.addRegions S).length m _
      refine ends_initBlockSlice hpos hsize (fun i volume hi => hnew i volume ?_) hcalls hfits hrest
      rw [hvolumes, List.getElem?_append_left (List.getElem?_eq_some_iff.mp hi).1]
      exact hi

/-- **A region with exactly `n` particles**, created with the recipe of block `index`. -/
structure RegionExact (region : StoredRegion K d) (m : Memory K d A frameSize)
    (index n r : ℕ) : Prop where
  getNumParticles : region.particleFrameList.numParticles.toNat = n
  frames : ∃ frames : List FramePtr,
    Walk m.next region.particleFrameList.list.firstNode frames ∧
    frames.Nodup ∧
    frames.length = n ⌈/⌉ frameSize ∧
    (frames.map fun p => (m.frames p).liveParticles.toNat).sum = n ∧
    frames.countP (fun p => decide ((m.frames p).liveParticles.toNat ≠ frameSize)) ≤ 1 ∧
    ∀ p ∈ frames, ∀ slot, ((m.frames p).particlesSoa slot).multiMask =
      if slot.val < (m.frames p).liveParticles.toNat then 1 else 0
  /-- One call for every index, all for this region and with this recipe. -/
  placeParticle : (m.calls.filter fun call => decide (call.region = r)).Perm
    ((List.range n).map fun i => ⟨index, r, UInt32.ofNat i⟩)

theorem regionExact_of_holds {m : Memory K d A frameSize} {index n r : ℕ} {frames : List FramePtr}
    (hpos : 0 < frameSize) (h : RegionHolds m index n r frames) :
    RegionExact (m.regions r) m index n r := by
  obtain ⟨hnum, hlist, hfills, hcalls⟩ := h
  refine ⟨hnum, ⟨frames, hlist.walk, hlist.nodup, ?_, ?_, ?_, hlist.multiMask⟩, hcalls⟩
  · rw [← List.length_map, hfills.length_eq, length_frameFills]
  · rw [hfills.sum_eq, sum_frameFills hpos]
  · have hcount := hfills.countP_eq fun fill => decide (fill ≠ frameSize)
    rw [List.countP_map] at hcount
    exact hcount.trans_le (countP_frameFills_ne hpos)

/-- **A buffer whose regions are those that the blocks contribute**: contiguous disjoint slices, in
block order, that cover the buffer, each region filled by the block of its slice. -/
structure BufferExact (S : Species) (blocks : List (Block K d A Species))
    (prBuf : ParticleRegionBuffer (StoredRegion K d)) (m : Memory K d A frameSize) : Prop where
  size : prBuf.device.length = (sliceSizes S blocks).sum
  slice : ∀ r < prBuf.device.length, ∃! k, InBlock (sliceSizes S blocks) k r
  regions : ∀ k block i volume, blocks[k]? = some block → (block.addRegions S)[i]? = some volume →
    ∃ region, prBuf.device[blockStart (sliceSizes S blocks) k + i]? = some region ∧
      region.volume = volume ∧ RegionExact region m k (block.numParticles i volume)
        (blockStart (sliceSizes S blocks) k + i)

/-- What `InitParticles` leaves behind for a species, and in which frames. -/
theorem ends_initSpecies (hpos : 0 < frameSize) (hsize : frameSize < 2 ^ 32)
    {setup : Setup K d A Species} {shared : Option (ParticleRegionBuffer (StoredRegion K d))}
    {prBuf : ParticleRegionBuffer (StoredRegion K d)} (hS : setup.targeting S ≠ [])
    (hcreate : InitRegions.createSpecies S setup shared = some (some prBuf))
    (hframes : ((setup.targeting S).map fun block =>
      (block.frameCounts S frameSize).sum).sum < 2 ^ 31)
    (framesPerRegion : ℕ → ℕ → UInt32) {m : Memory K d A frameSize}
    (hbox : ∀ r region, prBuf.device[r]? = some region → m.regions r = region)
    (hcalls : m.calls = [])
    {Q : ParticleRegionBuffer (StoredRegion K d) → Memory K d A frameSize → Prop}
    (hQ : ∀ m' frames, prBuf.size = (sliceSizes S (setup.targeting S)).sum →
      prBuf.device.length = (sliceSizes S (setup.targeting S)).sum →
      Separate m 0 (sliceSizes S (setup.targeting S)).sum frames →
      (∀ k block i volume, (setup.targeting S)[k]? = some block →
        (block.addRegions S)[i]? = some volume →
        (m'.regions (blockStart (sliceSizes S (setup.targeting S)) k + i)).volume = volume ∧
          RegionHolds m' k (block.numParticles i volume)
            (blockStart (sliceSizes S (setup.targeting S)) k + i)
            (frames (blockStart (sliceSizes S (setup.targeting S)) k + i))) →
      Q (prBuf.changeTopology ((List.range prBuf.device.length).map m'.regions)) m') :
    initSpecies S setup initAttributes framesPerRegion prBuf m Q := by
  obtain ⟨hdevice, hhost⟩ := InitRegions.createSpecies_eq_some hS hcreate
  have hlength : prBuf.device.length = (sliceSizes S (setup.targeting S)).sum := by
    rw [hdevice, List.length_map, sum_sliceSizes]
  have hsizeEq : prBuf.size = (sliceSizes S (setup.targeting S)).sum := by
    rw [ParticleRegionBuffer.size, hhost, hlength]
  refine ends_initBlocks hpos hsize (fun i volume hi => ?_) (by rw [hcalls]; exact nofun)
    (fun block hblock => ?_) fun m' frames hm' hsep hslices =>
      hQ m' frames hsizeEq hlength ?_ fun k block i volume hk hi => ?_
  · rw [Nat.zero_add]
    refine hbox i _ ?_
    rw [hdevice, List.getElem?_map, hi]
    rfl
  · have hle : (block.frameCounts S frameSize).sum ≤
        ((setup.targeting S).map fun block => (block.frameCounts S frameSize).sum).sum :=
      List.le_sum_of_mem (List.mem_map.mpr ⟨block, hblock, rfl⟩)
    exact hle.trans_lt hframes
  · rwa [Nat.zero_add] at hsep
  · obtain ⟨hvolume, hholds, -⟩ := hslices k block i volume hk hi
    rw [Nat.zero_add] at hvolume hholds
    rw [Nat.zero_add] at hholds
    exact ⟨hvolume, hholds⟩

/-- **Particle creation is exact**, for every setup and every order in which the kernels' blocks
act. -/
theorem initParticles_exact (hpos : 0 < frameSize) (hsize : frameSize < 2 ^ 32)
    {setup : Setup K d A Species} {shared : Option (ParticleRegionBuffer (StoredRegion K d))}
    {prBuf : ParticleRegionBuffer (StoredRegion K d)} (hS : setup.targeting S ≠ [])
    (hcreate : InitRegions.createSpecies S setup shared = some (some prBuf))
    (hframes : ((setup.targeting S).map fun block =>
      (block.frameCounts S frameSize).sum).sum < 2 ^ 31)
    (framesPerRegion : ℕ → ℕ → UInt32) {m : Memory K d A frameSize}
    (hbox : ∀ r region, prBuf.device[r]? = some region → m.regions r = region)
    (hcalls : m.calls = []) :
    initSpecies S setup initAttributes framesPerRegion prBuf m
      (BufferExact S (setup.targeting S)) := by
  refine ends_initSpecies hpos hsize hS hcreate hframes framesPerRegion hbox hcalls
    fun m' frames _ hlength _ hslices => ?_
  have hwritten : ∀ r < prBuf.device.length,
      ((List.range prBuf.device.length).map m'.regions)[r]? = some (m'.regions r) := fun r hr => by
    rw [List.getElem?_map, List.getElem?_range hr]
    rfl
  refine ⟨?_, fun r hr => ?_, fun k block i volume hk hi => ?_⟩
  · show ((List.range prBuf.device.length).map m'.regions).length = _
    rw [List.length_map, List.length_range, hlength]
  · change r < ((List.range prBuf.device.length).map m'.regions).length at hr
    rw [List.length_map, List.length_range, hlength] at hr
    obtain ⟨k, hk⟩ := exists_inBlock hr
    exact ⟨k, hk, fun l hl => hl.unique hk⟩
  · obtain ⟨hvolume, hholds⟩ := hslices k block i volume hk hi
    have hlt : blockStart (sliceSizes S (setup.targeting S)) k + i < prBuf.device.length := by
      have hlt := (List.getElem?_eq_some_iff.mp (volumes_getElem? hk hi)).1
      rwa [← sum_sliceSizes, ← hlength] at hlt
    exact ⟨_, hwritten _ hlt, hvolume, regionExact_of_holds hpos hholds⟩

/-- One block, which creates three particles in its one region. -/
def threeParticles : Setup ℚ 0 Unit Unit :=
  [⟨fun _ => true, fun _ => [⟨0, 0, 1⟩], fun _ _ => 3, fun _ _ _ particle => particle⟩]

/-- The buffer that is created for it. -/
def threeParticlesBuffer : ParticleRegionBuffer (StoredRegion ℚ 0) :=
  ⟨[StoredRegion.ofVolume ⟨0, 0, 1⟩], [StoredRegion.ofVolume ⟨0, 0, 1⟩], 1, 2, le_rfl, ParticleRegionBuffer.one_lt_limit⟩

/-- A memory without frames, with frames of two slots. -/
def threeParticlesMemory : Memory ℚ 0 Unit 2 where
  regions := fun _ => StoredRegion.ofVolume ⟨0, 0, 1⟩
  frames := fun _ => ⟨⟨fun _ => ⟨0, 0, ()⟩, 0⟩, none⟩
  allocated := ∅
  nextId := 0
  calls := []

theorem initParticles_exact_threeParticles :
    initSpecies () threeParticles (fun _ => (0, ())) (fun _ _ => 0) threeParticlesBuffer
      threeParticlesMemory (BufferExact () (threeParticles.targeting ())) :=
  initParticles_exact (by decide) (by decide) (by simp [threeParticles,
    Setup.targeting]) (show InitRegions.createSpecies () threeParticles none = _ from rfl) (by decide) _ (fun r region h => by
      rcases r with _ | r
      · exact Option.some.inj h
      · cases h) rfl

end InitParticles

end Particles
end Spearhed
