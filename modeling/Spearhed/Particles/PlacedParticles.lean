import Spearhed.Particles.InitParticlesRuns

/-!
# The records that particle creation leaves behind

What is in the slots that the blocks of `InitParticleRegions` fill, and which ids they hand out.

* `Placed`: a slot that is filled and to be occupied holds the record that the recipe places there,
  for some id.
* `HandsOut.ids_eq`: whatever the order in which slots are filled, ids are handed out one after the
  other.
* `InitBlocksRuns`: the walk over the blocks of a setup as a run; what is proved of `initBlocks` holds
  after it (`InitBlocksRuns.sound`).
-/

namespace Spearhed
namespace Particles

open Library

variable {K : Type} {d : ℕ} {A Species : Type} {frameSize : ℕ}

/-- Consecutive ids. -/
def idsFrom (start : UInt64) (n : ℕ) : List UInt64 :=
  (List.range n).map fun k => start + UInt64.ofNat k

theorem idsFrom_succ (start : UInt64) (n : ℕ) :
    idsFrom start (n + 1) = idsFrom start n ++ [start + UInt64.ofNat n] := by
  rw [idsFrom, List.range_succ, List.map_append, List.map_singleton]
  rfl

theorem idsFrom_add (start : UInt64) (n n' : ℕ) :
    idsFrom start (n + n') = idsFrom start n ++ idsFrom (start + UInt64.ofNat n) n' := by
  rw [idsFrom, List.range_add, List.map_append, List.map_map]
  refine congrArg _ (List.map_congr_left fun k _ => ?_)
  rw [Function.comp_apply, UInt64.ofNat_add, add_assoc]

/-- Until the counter comes round, ids are different. -/
theorem nodup_idsFrom (start : UInt64) {n : ℕ} (hn : n ≤ 2 ^ 64) : (idsFrom start n).Nodup := by
  refine List.Nodup.map_on (fun k hk k' hk' heq => ?_) List.nodup_range
  rw [List.mem_range] at hk hk'
  have hnat := congrArg UInt64.toNat (add_left_cancel heq)
  rwa [UInt64.toNat_ofNat_of_lt' (hk.trans_le hn), UInt64.toNat_ofNat_of_lt' (hk'.trans_le hn)] at hnat

namespace CreateParticlesInFrame

/-! ## Records -/

/-- The record that a recipe places in a slot. -/
def placed (recipe : Recipe K d A Species) (task : FrameTask) (j : ℕ) (slot : Fin frameSize)
    (region : StoredRegion K d) (id : UInt64) : Particle K d A :=
  let attributes := recipe.block.placeParticle j region (globalParticleIdx task slot)
    (recipe.initAttributes id)
  ⟨attributes.1, 1, attributes.2⟩

/-- A record that the recipe places in a slot, of a region with this box and this number of
particles. -/
def SlotPlaced (recipe : Recipe K d A Species) (volume : AABB K d) (n : UInt32) (task : FrameTask)
    (j : ℕ) (slot : Fin frameSize) (particle : Particle K d A) : Prop :=
  ∃ region id, region.volume = volume ∧ region.particleFrameList.numParticles = n ∧
    particle = placed recipe task j slot region id

variable {recipe : Recipe K d A Species} {tasks : List FrameTask} {m₀ : Memory K d A frameSize}
  {s t : State K d A frameSize}

/-- Every slot that is filled and to be occupied holds what the recipe places there. -/
def Placed (recipe : Recipe K d A Species) (tasks : List FrameTask) (m₀ : Memory K d A frameSize)
    (s : State K d A frameSize) : Prop :=
  ∀ (j : ℕ) (task : FrameTask) p done, tasks[j]? = some task → s.phase j = .filling p done →
    ∀ slot ∈ done, slot.val < task.numParticlesToCreate.toNat →
      SlotPlaced recipe (m₀.regions task.region).volume
        (m₀.regions task.region).particleFrameList.numParticles task j slot
        ((s.memory.frames p).particlesSoa slot)

namespace Placed

/-- A step that leaves the slots of other blocks alone. -/
theorem advance (h : Placed recipe tasks m₀ s) {j : ℕ} {m : Memory K d A frameSize}
    {ph : Phase frameSize}
    (hother : ∀ i p done, i ≠ j → s.phase i = .filling p done →
      (m.frames p).particlesSoa = (s.memory.frames p).particlesSoa)
    (hself : ∀ task p done, tasks[j]? = some task → ph = .filling p done → ∀ slot ∈ done,
      slot.val < task.numParticlesToCreate.toNat →
        SlotPlaced recipe (m₀.regions task.region).volume
          (m₀.regions task.region).particleFrameList.numParticles task j slot
          ((m.frames p).particlesSoa slot)) : Placed recipe tasks m₀ (s.advance j m ph) := by
  intro i task p done hi hphase slot hslot hlt
  rcases eq_or_ne i j with rfl | hne
  · rw [State.advance_phase_self] at hphase
    exact hself task p done hi hphase slot hslot hlt
  · rw [State.advance_phase_of_ne _ _ _ _ hne] at hphase
    rw [State.advance_memory, hother i p done hne hphase]
    exact h i task p done hi hphase slot hslot hlt

/-- A step of block `j` that writes to its own frame. -/
theorem advance_own (h : Placed recipe tasks m₀ s) (howned : Owned m₀ s) {j : ℕ}
    {m : Memory K d A frameSize} {ph : Phase frameSize} {p : FramePtr}
    (hj : (s.phase j).framePtr = some p) (hframes : ∀ q, q ≠ p → m.frames q = s.memory.frames q)
    (hself : ∀ task q done, tasks[j]? = some task → ph = .filling q done → ∀ slot ∈ done,
      slot.val < task.numParticlesToCreate.toNat →
        SlotPlaced recipe (m₀.regions task.region).volume
          (m₀.regions task.region).particleFrameList.numParticles task j slot
          ((m.frames q).particlesSoa slot)) : Placed recipe tasks m₀ (s.advance j m ph) := by
  refine h.advance (fun i q done hne hi => ?_) hself
  have hqp : q ≠ p := fun hqp => hne (howned.unique i j p (by rw [hi, hqp]; rfl) hj)
  rw [hframes q hqp]

/-- Filling a slot places its record. -/
theorem fillSlot (h : Placed recipe tasks m₀ s) (howned : Owned m₀ s) (hfilled : Filled tasks m₀ s)
    {j : ℕ} {task : FrameTask} {p : FramePtr} {done : List (Fin frameSize)} {slot : Fin frameSize}
    (hj : tasks[j]? = some task) (hs : s.phase j = .filling p done) (hslot : slot ∉ done) :
    Placed recipe tasks m₀
      (s.advance j (fillSlot recipe task j p slot s.memory) (.filling p (slot :: done))) := by
  have hwrite : ∃ particle : Particle K d A,
      (CreateParticlesInFrame.fillSlot recipe task j p slot s.memory).frames =
        (s.memory.setParticle p slot particle).frames ∧
      (slot.val < task.numParticlesToCreate.toNat →
        particle = placed recipe task j slot (s.memory.regions task.region) s.memory.nextId) := by
    unfold CreateParticlesInFrame.fillSlot
    split
    · exact ⟨_, rfl, fun _ => rfl⟩
    · next hdead => exact ⟨_, rfl, fun hlt => absurd hlt hdead⟩
  obtain ⟨particle, hframes, hparticle⟩ := hwrite
  refine h.advance_own howned (p := p) (by rw [hs]; rfl) (fun q hq => ?_)
    fun task' q done' hj' hq slot' hslot' hlt => ?_
  · rw [hframes]
    exact s.memory.setFrame_frames_of_ne _ _ hq
  · injection hq with hpq hdone
    subst hpq hdone
    rw [hj] at hj'
    obtain rfl := Option.some.inj hj'
    rw [hframes, Memory.setParticle, Memory.setFrame_frames_self]
    show SlotPlaced _ _ _ _ _ _ (Function.update (s.memory.frames p).particlesSoa slot particle slot')
    rcases List.mem_cons.mp hslot' with rfl | hold
    · rw [Function.update_self]
      exact ⟨_, _, hfilled.volume _, hfilled.numParticles _, hparticle hlt⟩
    · have hne : slot' ≠ slot := fun heq => hslot (heq ▸ hold)
      rw [Function.update_of_ne hne]
      exact h j task p done hj hs slot' hold hlt

theorem step (h : Placed recipe tasks m₀ s) (howned : Owned m₀ s) (hfilled : Filled tasks m₀ s)
    (hst : Step recipe tasks s t) : Placed recipe tasks m₀ t := by
  cases hst with
  | @getEmptyNode j task p hj hs hp =>
    refine h.advance (fun i q done _ hi => ?_) nofun
    have hqp : q ≠ p := fun hqp => hp (hqp ▸ (howned.fresh i q (by rw [hi]; rfl)).1)
    have hframe : (s.memory.getEmptyNode p).frames q = s.memory.frames q :=
      s.memory.setFrame_frames_of_ne _ _ hqp
    rw [hframe]
  | @clearNext j task p hj hs =>
    exact h.advance_own howned (p := p) (by rw [hs]; rfl)
      (fun q hq => s.memory.setFrame_frames_of_ne _ _ hq) nofun
  | exchange hj hs => exact h.advance (fun _ _ _ _ _ => rfl) nofun
  | @linkNext j task p old hj hs =>
    -- the older frame belongs to another block, but only its pointer changes
    refine h.advance (fun i q done _ _ => ?_) nofun
    rcases eq_or_ne q old with rfl | hne
    · rw [Memory.setNext, Memory.setFrame_frames_self]
    · rw [Memory.setNext, Memory.setFrame_frames_of_ne _ _ _ hne]
  | linkFirst hj hs => exact h.advance (fun _ _ _ _ _ => rfl) nofun
  | @setLiveParticles j task p hj hs =>
    refine h.advance_own howned (p := p) (by rw [hs]; rfl)
      (fun q hq => s.memory.setFrame_frames_of_ne _ _ hq) fun task' q done hj' hq slot hslot => ?_
    injection hq with hpq hdone
    subst hdone
    cases hslot
  | fillSlot hj hs hslot => exact h.fillSlot howned hfilled hj hs hslot

end Placed

/-- **Every state of every run.** -/
theorem placed_of_reachable (hempty : ∀ task ∈ tasks, m₀.frameList task.region = {})
    (h : (system recipe tasks m₀).Reachable s) : Placed recipe tasks m₀ s := by
  refine h.invariant (fun s hs => ?_) fun s t hs hplaced hst => ?_
  · obtain rfl : s = _ := hs
    exact fun _ _ _ _ _ hphase => by cases hphase
  · have hinv := inv_of_reachable hempty hs
    exact hplaced.step hinv.owned hinv.filled hst

/-- The tasks for one region, each with the block that it is for. -/
def jobs (tasks : List FrameTask) (r : ℕ) : List (FrameTask × ℕ) :=
  tasks.zipIdx.filter fun x => decide (x.1.region = r)

theorem mem_jobs {r : ℕ} {x : FrameTask × ℕ} :
    x ∈ jobs tasks r ↔ tasks[x.2]? = some x.1 ∧ x.1.region = r := by
  rw [jobs, List.mem_filter, List.mem_zipIdx_iff_getElem?, decide_eq_true_iff]

/-- Frames hold what the recipe places in them, one frame for every task. -/
def FramesPlaced (m : Memory K d A frameSize) (recipe : Recipe K d A Species) (volume : AABB K d)
    (n : UInt32) (jobs : List (FrameTask × ℕ)) (frames : List FramePtr) : Prop :=
  ∃ ptr : FrameTask × ℕ → FramePtr, frames.Perm (jobs.map ptr) ∧ ∀ x ∈ jobs, ∀ slot : Fin frameSize,
    if slot.val < x.1.numParticlesToCreate.toNat then
      SlotPlaced recipe volume n x.1 x.2 slot ((m.frames (ptr x)).particlesSoa slot)
    else ((m.frames (ptr x)).particlesSoa slot).multiMask = 0

theorem FramesPlaced.congr {m m' : Memory K d A frameSize} {volume : AABB K d} {n : UInt32}
    {jobs : List (FrameTask × ℕ)} {frames : List FramePtr}
    (h : FramesPlaced m recipe volume n jobs frames)
    (hframes : ∀ p ∈ frames, m'.frames p = m.frames p) :
    FramesPlaced m' recipe volume n jobs frames := by
  obtain ⟨ptr, hperm, hslots⟩ := h
  refine ⟨ptr, hperm, fun x hx => ?_⟩
  rw [hframes _ (hperm.symm.subset (List.mem_map_of_mem hx))]
  exact hslots x hx

/-! ## Ids -/

/-- A run together with the ids that it hands out: what the counter held whenever it was advanced. -/
inductive HandsOut (recipe : Recipe K d A Species) (tasks : List FrameTask)
    (s : State K d A frameSize) : State K d A frameSize → List UInt64 → Prop
  | refl : HandsOut recipe tasks s s []
  | step {t u : State K d A frameSize} {ids : List UInt64} (h : HandsOut recipe tasks s t ids)
      (hst : Step recipe tasks t u) : HandsOut recipe tasks s u
        (if u.memory.nextId = t.memory.nextId then ids else ids ++ [t.memory.nextId])

theorem HandsOut.run {ids : List UInt64} (h : HandsOut recipe tasks s t ids) :
    Relation.ReflTransGen (Step recipe tasks) s t := by
  induction h with
  | refl => exact .refl
  | step _ hst ih => exact ih.tail hst

theorem exists_handsOut (h : Relation.ReflTransGen (Step recipe tasks) s t) :
    ∃ ids, HandsOut recipe tasks s t ids := by
  induction h with
  | refl => exact ⟨[], .refl⟩
  | tail _ hst ih =>
    obtain ⟨ids, hids⟩ := ih
    exact ⟨_, hids.step hst⟩

/-- A step advances the counter by one or not at all. -/
theorem nextId_step (hst : Step recipe tasks s t) :
    t.memory.nextId = s.memory.nextId ∨ t.memory.nextId = s.memory.nextId + 1 := by
  cases hst with
  | fillSlot hj hs hslot =>
    rw [State.advance_memory, CreateParticlesInFrame.fillSlot]
    split
    · exact Or.inr rfl
    · exact Or.inl rfl
  | _ => exact Or.inl rfl

/-- **Ids are handed out one after the other.** -/
theorem HandsOut.ids_eq {ids : List UInt64} (h : HandsOut recipe tasks s t ids) :
    ids = idsFrom s.memory.nextId ids.length ∧
      t.memory.nextId = s.memory.nextId + UInt64.ofNat ids.length := by
  induction h with
  | refl => exact ⟨rfl, (add_zero _).symm⟩
  | @step t u ids _ hst ih =>
    obtain ⟨hids, hnext⟩ := ih
    by_cases hsame : u.memory.nextId = t.memory.nextId
    · rw [if_pos hsame, hsame]
      exact ⟨hids, hnext⟩
    · rw [if_neg hsame, (nextId_step hst).resolve_left hsame, List.length_append, List.length_singleton,
        idsFrom_succ, ← hids, hnext, UInt64.ofNat_add, add_assoc]
      exact ⟨rfl, rfl⟩

end CreateParticlesInFrame

/-! ## Runs of the walk over the blocks -/

namespace InitParticles

open CreateParticlesInFrame

/-- What the second kernel of a slice is started with. -/
def sliceKernel (recipe : Recipe K d A Species) (framesPerRegion : ℕ → UInt32)
    (regionBegin numRegions : ℕ) (m : Memory K d A frameSize) :
    List FrameTask × Memory K d A frameSize :=
  let counted :=
    calculateFramesPerRegion frameSize recipe.block m.regions regionBegin numRegions framesPerRegion
  let scan := inclusiveScanHost counted.2 numRegions
  (frameTasks frameSize counted.1 regionBegin numRegions scan.1 scan.2, { m with regions := counted.1 })

/-- A run of `initBlockSlice`, with the ids that it hands out. -/
def InitBlockSliceRuns (recipe : Recipe K d A Species) (framesPerRegion : ℕ → UInt32)
    (regionBegin numRegions : ℕ) (m : Memory K d A frameSize) (ids : List UInt64)
    (m' : Memory K d A frameSize) : Prop :=
  let kernel := sliceKernel recipe framesPerRegion regionBegin numRegions m
  ∃ t, HandsOut recipe kernel.1 ⟨kernel.2, fun _ => .start⟩ t ids ∧
    (system recipe kernel.1 kernel.2).Terminal t ∧ m' = t.memory

/-- A run of `initBlocks`. -/
def InitBlocksRuns (S : Species) (initAttributes : UInt64 → Vec K d × A)
    (framesPerRegion : ℕ → ℕ → UInt32) :
    List (Block K d A Species) → ℕ → ℕ → Memory K d A frameSize → List UInt64 →
      Memory K d A frameSize → Prop
  | [], _, _, m, ids, m' => ids = [] ∧ m' = m
  | block :: blocks, index, regionOffset, m, ids, m' =>
    let numRegions := (block.addRegions S).length
    let rest := InitBlocksRuns S initAttributes framesPerRegion blocks (index + 1)
      (regionOffset + numRegions)
    if numRegions > 0 then
      ∃ m₁ ids₁ ids₂, InitBlockSliceRuns ⟨index, block, initAttributes⟩ (framesPerRegion index)
        regionOffset numRegions m ids₁ m₁ ∧ rest m₁ ids₂ m' ∧ ids = ids₁ ++ ids₂
    else rest m ids m'

variable {S : Species} {initAttributes : UInt64 → Vec K d × A} {framesPerRegion : ℕ → ℕ → UInt32}
  {blocks : List (Block K d A Species)} {index regionOffset : ℕ} {m m' : Memory K d A frameSize}
  {ids : List UInt64}

theorem initBlockSlice_iff {recipe : Recipe K d A Species} {framesPerRegion : ℕ → UInt32}
    {regionBegin numRegions : ℕ} {Q : Memory K d A frameSize → Prop} :
    initBlockSlice recipe framesPerRegion regionBegin numRegions m Q ↔
      (system recipe (sliceKernel recipe framesPerRegion regionBegin numRegions m).1
        (sliceKernel recipe framesPerRegion regionBegin numRegions m).2).Ends
          ⟨(sliceKernel recipe framesPerRegion regionBegin numRegions m).2, fun _ => .start⟩
          fun s => Q s.memory := Iff.rfl

/-- **What is proved of `initBlocks` holds after every run of it.** -/
theorem InitBlocksRuns.sound {Q : Memory K d A frameSize → Prop}
    (hQ : initBlocks S initAttributes framesPerRegion Q blocks index regionOffset m)
    (h : InitBlocksRuns S initAttributes framesPerRegion blocks index regionOffset m ids m') :
    Q m' := by
  induction blocks generalizing index regionOffset m ids with
  | nil => exact h.2 ▸ hQ
  | cons block blocks ih =>
    rw [initBlocks] at hQ
    rw [InitBlocksRuns] at h
    split at h
    · next hn =>
      rw [if_pos hn, initBlockSlice_iff] at hQ
      obtain ⟨m₁, ids₁, ids₂, ⟨t, hrun, ht, rfl⟩, hrest, -⟩ := h
      exact ih (hQ.2 t hrun.run ht) hrest
    · next hn =>
      rw [if_neg hn] at hQ
      exact ih hQ h

/-- There is a run. -/
theorem exists_initBlocksRuns {Q : Memory K d A frameSize → Prop}
    (hQ : initBlocks S initAttributes framesPerRegion Q blocks index regionOffset m) :
    ∃ ids m', InitBlocksRuns S initAttributes framesPerRegion blocks index regionOffset m ids m' := by
  induction blocks generalizing index regionOffset m with
  | nil => exact ⟨[], m, rfl, rfl⟩
  | cons block blocks ih =>
    rw [initBlocks] at hQ
    simp only [InitBlocksRuns]
    split at hQ
    · next hn =>
      simp only [if_pos hn]
      rw [initBlockSlice_iff] at hQ
      obtain ⟨t, hrun, ht⟩ := hQ.1.exists_terminal
      obtain ⟨ids₁, hids₁⟩ := exists_handsOut hrun
      obtain ⟨ids₂, m', hrest⟩ := ih (hQ.2 t hrun ht)
      exact ⟨_, m', t.memory, ids₁, ids₂, ⟨t, hids₁, ht, rfl⟩, hrest, rfl⟩
    · next hn =>
      simp only [if_neg hn]
      exact ih hQ

/-- **Ids are handed out one after the other.** -/
theorem InitBlocksRuns.ids_eq
    (h : InitBlocksRuns S initAttributes framesPerRegion blocks index regionOffset m ids m') :
    ids = idsFrom m.nextId ids.length ∧ m'.nextId = m.nextId + UInt64.ofNat ids.length := by
  induction blocks generalizing index regionOffset m ids with
  | nil =>
    obtain ⟨rfl, rfl⟩ := h
    exact ⟨rfl, (add_zero _).symm⟩
  | cons block blocks ih =>
    rw [InitBlocksRuns] at h
    split at h
    · obtain ⟨m₁, ids₁, ids₂, ⟨t, hrun, -, rfl⟩, hrest, rfl⟩ := h
      obtain ⟨hids₁, hnext₁⟩ := hrun.ids_eq
      obtain ⟨hids₂, hnext₂⟩ := ih hrest
      have hstart : (sliceKernel ⟨index, block, initAttributes⟩ (framesPerRegion index) regionOffset
          (block.addRegions S).length m).2.nextId = m.nextId := rfl
      rw [hstart] at hids₁ hnext₁
      rw [hnext₁] at hids₂ hnext₂
      rw [List.length_append, idsFrom_add, ← hids₁, ← hids₂, hnext₂, UInt64.ofNat_add, add_assoc]
      exact ⟨rfl, rfl⟩
    · exact ih h

end InitParticles

end Particles
end Spearhed
