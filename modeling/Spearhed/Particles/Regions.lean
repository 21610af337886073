import Spearhed.Particles.Geometry

/-!
# Particles, frames and regions

The data that the particle algorithms share: `Frame.hpp`, `ParticleRegion.hpp` and the liveness
predicate of `MultiMask.hpp`.

Frames live on the device heap and are named by their addresses; a frame list is the sequence of
addresses that a walk along the `next` pointers meets (`FrameList.hpp`).  That the pointers spell
such a sequence is the business of the code that appends frames.
-/

namespace Spearhed
namespace Particles

/-- A slot of a frame: the attributes that this code reads, and the rest of the record. -/
structure Particle (K : Type) (d : ℕ) (A : Type) where
  relativePos : Vec K d
  multiMask : UInt8
  attributes : A

/-- `pred::Occupied`. -/
def Particle.occupied {K : Type} {d : ℕ} {A : Type} (p : Particle K d A) : Bool :=
  p.multiMask != 0

/-- `Frame`. -/
structure Frame (K : Type) (d : ℕ) (A : Type) (frameSize : ℕ) where
  particlesSoa : Fin frameSize → Particle K d A
  liveParticles : UInt32

/-- The device heap address of a frame. -/
abbrev FramePtr : Type := ℕ

/-- `ParticleRegion`. -/
structure ParticleRegion (K : Type) (d : ℕ) where
  volume : AABB K d
  /-- What `begin()` to `end()` visits. -/
  particleFrameList : List FramePtr

/-- `ParticleRegionBuffer`.  The host copy holds `size` regions, the device copy those that were
uploaded; `create` leaves neither.  Sizes are of type `int`. -/
structure ParticleRegionBuffer (PR : Type) where
  host : List PR
  device : List PR
  capacity : ℕ
  topologyVersion : ℕ
  size_le : host.length ≤ capacity
  capacity_lt : capacity < 2 ^ 31

namespace ParticleRegionBuffer

theorem zero_lt_limit : 0 < 2 ^ 31 := by norm_num

theorem one_lt_limit : 1 < 2 ^ 31 := by norm_num

theorem two_lt_limit : 2 < 2 ^ 31 := by norm_num

variable {PR : Type} (B : ParticleRegionBuffer PR)

/-- `size`. -/
def size : ℕ := B.host.length

/-- `create`: two new copies without regions.  An allocation of `2 ^ 31` regions or more fails. -/
def create (capacity : ℕ) : Option (ParticleRegionBuffer PR) :=
  if h : capacity < 2 ^ 31 then
    some ⟨[], [], capacity, B.topologyVersion + 1, Nat.zero_le _, h⟩
  else none

/-- `pushBack`, with its assertion. -/
def pushBack (pr : PR) : Option (ParticleRegionBuffer PR) :=
  if h : B.size < B.capacity then
    some { B with
      host := B.host ++ [pr]
      topologyVersion := B.topologyVersion + 1
      size_le := by rw [List.length_append]; exact h }
  else none

/-- `buffer->hostToDevice()`. -/
def hostToDevice : ParticleRegionBuffer PR := { B with device := B.host }

/-- Kernels changed the regions on the device, and the host bumps the version. -/
def changeTopology (regions : List PR) : ParticleRegionBuffer PR :=
  { B with device := regions, topologyVersion := B.topologyVersion + 1 }

/-- Every region of the host copy has been uploaded. -/
def Uploaded : Prop := B.device.length = B.size

instance : Decidable B.Uploaded := inferInstanceAs (Decidable (_ = _))

theorem size_lt : B.size < 2 ^ 31 := lt_of_le_of_lt B.size_le B.capacity_lt

end ParticleRegionBuffer

/-- The contents of the frames. -/
abbrev Heap (K : Type) (d : ℕ) (A : Type) (frameSize : ℕ) : Type := FramePtr → Frame K d A frameSize

variable {K : Type} {d : ℕ} {A : Type} {frameSize : ℕ}

/-- The occupied slots of a frame. -/
def Frame.liveSlots (f : Frame K d A frameSize) : List (Fin frameSize) :=
  (List.finRange frameSize).filter fun s => (f.particlesSoa s).occupied

theorem Frame.mem_liveSlots {f : Frame K d A frameSize} {s : Fin frameSize} :
    s ∈ f.liveSlots ↔ (f.particlesSoa s).occupied = true := by
  rw [Frame.liveSlots, List.mem_filter]
  exact and_iff_right (List.mem_finRange s)

/-- The slots of a region that hold a live particle: a frame of its list and a slot of it. -/
def ParticleRegion.IsLive (H : Heap K d A frameSize) (r : ParticleRegion K d)
    (x : FramePtr × Fin frameSize) : Prop :=
  x.1 ∈ r.particleFrameList ∧ ((H x.1).particlesSoa x.2).occupied = true

/-- The relative position stored in a slot. -/
def Heap.relativePos (H : Heap K d A frameSize) (x : FramePtr × Fin frameSize) : Vec K d :=
  ((H x.1).particlesSoa x.2).relativePos

variable [LinearOrder K]

/-- The box of a region contains the relative positions of its live particles. -/
def ParticleRegion.BoxContainsLive (H : Heap K d A frameSize) (r : ParticleRegion K d) : Prop :=
  ∀ x, r.IsLive H x → r.volume.Contains (H.relativePos x)

variable [Field K]

/-- The global position of a slot of a region, `volume.getPosition(relativePos)`. -/
def ParticleRegion.globalPos (H : Heap K d A frameSize) (r : ParticleRegion K d)
    (x : FramePtr × Fin frameSize) : Vec K d :=
  r.volume.getPosition (H.relativePos x)

end Particles
end Spearhed
