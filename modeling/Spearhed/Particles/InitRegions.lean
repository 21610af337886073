import Mathlib.Tactic
import Spearhed.Particles.FrameList

/-!
# Setups, and the regions they create

`SetupInterface.hpp` and `InitRegions.hpp`.  A setup is a list of blocks.  For each species that a
block targets it contributes region volumes, and it has one recipe for the particles in them.
`InitRegions` allocates, for each species, one buffer with the volumes of all blocks in order.

* `createSpecies_eq_some`: the buffer of a species, when its creation succeeds.
* `exists_createSpecies`, `createSpecies_topologyVersion`: it does, and makes the buffer newer.
-/

namespace Spearhed
namespace Particles

open Library

variable {K : Type} {d : ℕ} {A Species : Type}

/-- A `SetupBlock`, with the arguments that are forwarded to its functors already applied. -/
structure Block (K : Type) (d : ℕ) (A Species : Type) where
  /-- `blockTargets`. -/
  targets : Species → Bool
  /-- What `addRegions` appends. -/
  addRegions : Species → List (AABB K d)
  /-- `NumParticlesToCreate`, which is handed the worker, for the index of its block, and the
  region. -/
  numParticlesToCreate : ℕ → StoredRegion K d → UInt32
  /-- `PlaceParticle`, which is also handed the index of the particle in its region; it sets the
  attributes of the particle other than the mask. -/
  placeParticle : ℕ → StoredRegion K d → UInt32 → Vec K d × A → Vec K d × A

/-- `setup.blocks()`. -/
abbrev Setup (K : Type) (d : ℕ) (A Species : Type) : Type := List (Block K d A Species)

/-- The blocks that the compile-time test `blockTargets` keeps. -/
def Setup.targeting (setup : Setup K d A Species) (S : Species) : List (Block K d A Species) :=
  setup.filter fun block => block.targets S

/-- A default-constructed buffer. -/
def ParticleRegionBuffer.empty : ParticleRegionBuffer (StoredRegion K d) :=
  ⟨[], [], 0, 0, Nat.zero_le _, zero_lt_limit⟩

namespace InitRegions

/-- The volumes gathered for a species, in block order. -/
def volumes (S : Species) (blocks : List (Block K d A Species)) : List (AABB K d) :=
  blocks.flatMap fun block => block.addRegions S

/-- `pushBack` of a new region for every volume. -/
def pushVolumes (prBuf : ParticleRegionBuffer (StoredRegion K d)) (volumes : List (AABB K d)) :
    Option (ParticleRegionBuffer (StoredRegion K d)) :=
  volumes.foldlM (fun B volume => B.pushBack (StoredRegion.ofVolume volume)) prBuf

/-- `createSpecies`.  The argument and the result are the entry of the species in the data
connector; a buffer that is there already is filled in place. -/
def createSpecies (S : Species) (setup : Setup K d A Species)
    (shared : Option (ParticleRegionBuffer (StoredRegion K d))) :
    Option (Option (ParticleRegionBuffer (StoredRegion K d))) :=
  if setup.targeting S = [] then some shared
  else do
    let volumes := volumes S (setup.targeting S)
    let prBuf ← (shared.getD ParticleRegionBuffer.empty).create volumes.length
    let prBuf ← pushVolumes prBuf volumes
    return some prBuf.hostToDevice

theorem pushVolumes_host {volumes : List (AABB K d)}
    {prBuf B : ParticleRegionBuffer (StoredRegion K d)} (h : pushVolumes prBuf volumes = some B) :
    B.host = prBuf.host ++ volumes.map StoredRegion.ofVolume := by
  induction volumes generalizing prBuf with
  | nil =>
    obtain rfl := Option.some.inj h
    simp
  | cons volume volumes ih =>
    rw [pushVolumes, List.foldlM_cons] at h
    obtain ⟨B', hB', h⟩ := Option.bind_eq_some_iff.mp h
    rw [ParticleRegionBuffer.pushBack] at hB'
    split at hB'
    · obtain rfl := Option.some.inj hB'
      rw [ih h, List.map_cons, List.append_assoc, List.singleton_append]
    · cases hB'

/-- **A created buffer holds one new region for every volume**, on the device too. -/
theorem createSpecies_eq_some {S : Species} {setup : Setup K d A Species}
    {shared : Option (ParticleRegionBuffer (StoredRegion K d))}
    {B : ParticleRegionBuffer (StoredRegion K d)} (hS : setup.targeting S ≠ [])
    (h : createSpecies S setup shared = some (some B)) :
    B.device = (volumes S (setup.targeting S)).map StoredRegion.ofVolume ∧ B.host = B.device := by
  rw [createSpecies, if_neg hS] at h
  obtain ⟨B₁, hB₁, h⟩ := Option.bind_eq_some_iff.mp h
  obtain ⟨B₂, hB₂, h⟩ := Option.bind_eq_some_iff.mp h
  obtain rfl := Option.some.inj (Option.some.inj h)
  have hempty : B₁.host = [] := by
    rw [ParticleRegionBuffer.create] at hB₁
    split at hB₁
    · obtain rfl := Option.some.inj hB₁
      rfl
    · cases hB₁
  refine ⟨?_, rfl⟩
  show B₂.host = _
  rw [pushVolumes_host hB₂, hempty, List.nil_append]

/-! ## Versions -/

/-- Every region that is pushed makes the buffer newer. -/
theorem pushVolumes_topologyVersion {volumes : List (AABB K d)}
    {prBuf B : ParticleRegionBuffer (StoredRegion K d)} (h : pushVolumes prBuf volumes = some B) :
    B.topologyVersion = prBuf.topologyVersion + volumes.length := by
  induction volumes generalizing prBuf with
  | nil =>
    obtain rfl := Option.some.inj h
    rfl
  | cons volume volumes ih =>
    rw [pushVolumes, List.foldlM_cons] at h
    obtain ⟨B', hB', h⟩ := Option.bind_eq_some_iff.mp h
    rw [ParticleRegionBuffer.pushBack] at hB'
    split at hB'
    · obtain rfl := Option.some.inj hB'
      rw [ih h, List.length_cons, Nat.add_assoc, Nat.add_comm 1]
    · cases hB'

/-- There is room for as many regions as the buffer was created for. -/
theorem exists_pushVolumes {volumes : List (AABB K d)}
    {prBuf : ParticleRegionBuffer (StoredRegion K d)}
    (hroom : prBuf.size + volumes.length ≤ prBuf.capacity) : ∃ B, pushVolumes prBuf volumes = some B := by
  induction volumes generalizing prBuf with
  | nil => exact ⟨prBuf, rfl⟩
  | cons volume volumes ih =>
    rw [List.length_cons] at hroom
    have hpush : ∃ B, prBuf.pushBack (StoredRegion.ofVolume volume) = some B ∧
        B.size = prBuf.size + 1 ∧ B.capacity = prBuf.capacity := by
      rw [ParticleRegionBuffer.pushBack, dif_pos (by omega)]
      exact ⟨_, rfl, List.length_append .., rfl⟩
    obtain ⟨B, hB, hsize, hcapacity⟩ := hpush
    obtain ⟨B', hB'⟩ : ∃ B', pushVolumes B volumes = some B' := ih (by omega)
    refine ⟨B', ?_⟩
    rw [pushVolumes, List.foldlM_cons, hB]
    exact hB'

/-- A buffer that is created again is newer. -/
theorem createSpecies_topologyVersion {S : Species} {setup : Setup K d A Species}
    {shared B : ParticleRegionBuffer (StoredRegion K d)} (hS : setup.targeting S ≠ [])
    (h : createSpecies S setup (some shared) = some (some B)) :
    shared.topologyVersion < B.topologyVersion := by
  rw [createSpecies, if_neg hS] at h
  obtain ⟨B₁, hB₁, h⟩ := Option.bind_eq_some_iff.mp h
  obtain ⟨B₂, hB₂, h⟩ := Option.bind_eq_some_iff.mp h
  obtain rfl := Option.some.inj (Option.some.inj h)
  have hcreated : B₁.topologyVersion = shared.topologyVersion + 1 := by
    rw [ParticleRegionBuffer.create] at hB₁
    split at hB₁
    · obtain rfl := Option.some.inj hB₁
      rfl
    · cases hB₁
  show _ < B₂.topologyVersion
  rw [pushVolumes_topologyVersion hB₂]
  omega

/-- **The creation succeeds** if an allocation of this size does. -/
theorem exists_createSpecies {S : Species} {setup : Setup K d A Species}
    (hS : setup.targeting S ≠ []) (hlength : (volumes S (setup.targeting S)).length < 2 ^ 31)
    (shared : Option (ParticleRegionBuffer (StoredRegion K d))) :
    ∃ B, createSpecies S setup shared = some (some B) := by
  have hcreate : ∃ B₁, (shared.getD ParticleRegionBuffer.empty).create
      (volumes S (setup.targeting S)).length = some B₁ ∧ B₁.size = 0 ∧
        B₁.capacity = (volumes S (setup.targeting S)).length := by
    rw [ParticleRegionBuffer.create, dif_pos hlength]
    exact ⟨_, rfl, rfl, rfl⟩
  obtain ⟨B₁, hB₁, hsize, hcapacity⟩ := hcreate
  obtain ⟨B₂, hB₂⟩ : ∃ B₂, pushVolumes B₁ (volumes S (setup.targeting S)) = some B₂ :=
    exists_pushVolumes (by omega)
  refine ⟨B₂.hostToDevice, ?_⟩
  rw [createSpecies, if_neg hS]
  exact Option.bind_eq_some_iff.mpr ⟨B₁, hB₁, Option.bind_eq_some_iff.mpr ⟨B₂, hB₂, rfl⟩⟩

end InitRegions

end Particles
end Spearhed
