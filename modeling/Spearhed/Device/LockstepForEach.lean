import Mathlib.Data.UInt
import Spearhed.Library.Dealing

/-!
# Lockstep loops

`lockstep::ForEach`, its `Config`, and the context variables.  A worker goes through full iterations
without checks, and through one more for the indices that are left over; each call is given the index
in the domain and the place of the index on its worker.  Constants and indices are `uint32_t`.

As long as `simdSize * numWorkers` does not wrap around, this deals out the domain in vectors
(`Config.forEach_eq`).  So a context variable is an array over the domain: whatever the order of the
calls in each lockstep, a call finds what the last lockstep that wrote for its index has left
(`Lockstep.get?_foldl_run`, `forEach_partition`).
-/

namespace Spearhed
namespace Device

open Library

/-! ## The loop -/

/-- `Config`. -/
structure Config where
  domainSize : UInt32
  numWorkers : UInt32
  simdSize : UInt32

/-- `Idx`. -/
@[ext]
structure Idx where
  domElemIdx : UInt32
  workerElemIdx : UInt32
  deriving DecidableEq

namespace Config

/-- `maxIndicesPerWorker`, the size of a `Variable`. -/
def maxIndicesPerWorker (cfg : Config) : UInt32 :=
  (cfg.domainSize + cfg.simdSize * cfg.numWorkers - 1) / (cfg.simdSize * cfg.numWorkers) * cfg.simdSize

/-- The `Idx` of a call: `beginIdx` is computed from `beginWorker`. -/
def idx (cfg : Config) (workerIdx beginWorker s : UInt32) : Idx :=
  let beginIdx := beginWorker * cfg.numWorkers + cfg.simdSize * workerIdx
  ⟨beginIdx + s, beginWorker + s⟩

/-- `ForEach::operator()` on a worker: what the functor is called with, in order. -/
def forEach (cfg : Config) (workerIdx : UInt32) : List Idx :=
  if cfg.domainSize = 1 then
    -- the overload for the master
    if workerIdx = 0 then [⟨0, 0⟩] else []
  else
    let peeledIterations := cfg.domainSize / (cfg.simdSize * cfg.numWorkers)
    let peeled := (List.range peeledIterations.toNat).flatMap fun i =>
      (List.range cfg.simdSize.toNat).map fun s =>
        cfg.idx workerIdx (UInt32.ofNat i * cfg.simdSize) (UInt32.ofNat s)
    let hasRemainder := cfg.domainSize % (cfg.simdSize * cfg.numWorkers) ≠ 0
    let leftOverIndices := cfg.domainSize - peeledIterations * cfg.numWorkers * cfg.simdSize
    let remainder := if hasRemainder then
        ((List.range cfg.simdSize.toNat).filter fun s =>
          decide (workerIdx * cfg.simdSize + UInt32.ofNat s < leftOverIndices)).map fun s =>
            cfg.idx workerIdx (peeledIterations * cfg.simdSize) (UInt32.ofNat s)
      else []
    peeled ++ remainder

/-- The calls of all workers. -/
def calls (cfg : Config) : List (UInt32 × Idx) :=
  (List.range cfg.numWorkers.toNat).flatMap fun w =>
    (cfg.forEach (UInt32.ofNat w)).map fun idx => (UInt32.ofNat w, idx)

/-- What the constants of a configuration are: there are workers and lanes, and the product of their
numbers does not wrap around. -/
structure Valid (cfg : Config) : Prop where
  numWorkers : 1 ≤ cfg.numWorkers.toNat
  simdSize : 1 ≤ cfg.simdSize.toNat
  product : cfg.simdSize.toNat * cfg.numWorkers.toNat < 2 ^ 32

variable {cfg : Config} {workerIdx : UInt32}

/-- Indices are those of a deal, modulo `2 ^ 32`. -/
theorem idx_eq (hsimd : 0 < cfg.simdSize.toNat) (i : ℕ) {s : ℕ} (hs : s < cfg.simdSize.toNat) :
    cfg.idx workerIdx (UInt32.ofNat i * cfg.simdSize) (UInt32.ofNat s) =
      ⟨UInt32.ofNat (dealIndex cfg.numWorkers.toNat cfg.simdSize.toNat workerIdx.toNat
        (i * cfg.simdSize.toNat + s)), UInt32.ofNat (i * cfg.simdSize.toNat + s)⟩ := by
  rw [dealIndex_add hsimd hs, idx]
  simp only [UInt32.ofNat_add, UInt32.ofNat_mul, UInt32.ofNat_toNat]
  rw [Idx.mk.injEq]
  refine ⟨?_, rfl⟩
  rw [UInt32.add_mul, UInt32.mul_assoc, UInt32.mul_comm cfg.simdSize cfg.numWorkers, ← UInt32.mul_assoc,
    UInt32.mul_comm cfg.simdSize]

theorem Valid.toNat_product (h : cfg.Valid) : (cfg.simdSize * cfg.numWorkers).toNat =
    cfg.simdSize.toNat * cfg.numWorkers.toNat := by
  rw [UInt32.toNat_mul, Nat.mod_eq_of_lt h.product]

/-- The indices that whole iterations leave over. -/
theorem Valid.toNat_leftOver (h : cfg.Valid) :
    (cfg.domainSize - cfg.domainSize / (cfg.simdSize * cfg.numWorkers) * cfg.numWorkers *
        cfg.simdSize).toNat =
      cfg.domainSize.toNat - cfg.domainSize.toNat / (cfg.simdSize.toNat * cfg.numWorkers.toNat) *
        cfg.numWorkers.toNat * cfg.simdSize.toNat := by
  have hle : cfg.domainSize.toNat / (cfg.simdSize.toNat * cfg.numWorkers.toNat) *
      cfg.numWorkers.toNat * cfg.simdSize.toNat ≤ cfg.domainSize.toNat := by
    rw [Nat.mul_assoc, Nat.mul_comm cfg.numWorkers.toNat]
    exact Nat.div_mul_le_self ..
  have hlt := cfg.domainSize.toNat_lt
  have hwhole : (cfg.domainSize / (cfg.simdSize * cfg.numWorkers) * cfg.numWorkers *
      cfg.simdSize).toNat = cfg.domainSize.toNat / (cfg.simdSize.toNat * cfg.numWorkers.toNat) *
        cfg.numWorkers.toNat * cfg.simdSize.toNat := by
    rw [UInt32.toNat_mul, UInt32.toNat_mul, UInt32.toNat_div, h.toNat_product, Nat.mod_mul_mod,
      Nat.mod_eq_of_lt (by omega)]
  rw [UInt32.toNat_sub_of_le _ _ (UInt32.le_iff_toNat_le.mpr (hwhole.symm ▸ hle)), hwhole]

/-- The place of a lane in the vectors of one iteration. -/
theorem Valid.toNat_lane (h : cfg.Valid) (hworker : workerIdx.toNat < cfg.numWorkers.toNat) {s : ℕ}
    (hs : s < cfg.simdSize.toNat) : (workerIdx * cfg.simdSize + UInt32.ofNat s).toNat =
      workerIdx.toNat * cfg.simdSize.toNat + s := by
  have hlt : workerIdx.toNat * cfg.simdSize.toNat + s < cfg.simdSize.toNat * cfg.numWorkers.toNat :=
    calc workerIdx.toNat * cfg.simdSize.toNat + s
        < (workerIdx.toNat + 1) * cfg.simdSize.toNat := by rw [Nat.succ_mul]; omega
      _ ≤ cfg.numWorkers.toNat * cfg.simdSize.toNat := Nat.mul_le_mul_right _ hworker
      _ = _ := Nat.mul_comm ..
  have hproduct := h.product
  rw [UInt32.toNat_add, UInt32.toNat_mul, UInt32.toNat_ofNat_of_lt' (hs.trans cfg.simdSize.toNat_lt),
    Nat.mod_add_mod, Nat.mod_eq_of_lt (by omega)]

/-- **The loop deals out the domain.** -/
theorem forEach_eq (h : cfg.Valid) (hworker : workerIdx < cfg.numWorkers) :
    cfg.forEach workerIdx =
      (dealt cfg.numWorkers.toNat cfg.simdSize.toNat cfg.domainSize.toNat workerIdx.toNat).map fun k =>
        ⟨UInt32.ofNat (dealIndex cfg.numWorkers.toNat cfg.simdSize.toNat workerIdx.toNat k),
          UInt32.ofNat k⟩ := by
  have hw : workerIdx.toNat < cfg.numWorkers.toNat := UInt32.lt_iff_toNat_lt.mp hworker
  have hsimd : 0 < cfg.simdSize.toNat := h.simdSize
  rw [forEach]
  split
  · next hone =>
    rw [hone, UInt32.toNat_one, dealt_one hw hsimd]
    have hzero : workerIdx = 0 ↔ workerIdx.toNat = 0 := UInt32.toNat_inj.symm
    simp only [hzero]
    split
    · next hmaster =>
      rw [hmaster, List.map_singleton, dealIndex, Nat.zero_div, Nat.zero_mul, Nat.zero_mod,
        Nat.zero_add, Nat.zero_mul]
      rfl
    · rfl
  · have hquotient : UInt32.ofNat (cfg.domainSize.toNat /
        (cfg.simdSize.toNat * cfg.numWorkers.toNat)) =
          cfg.domainSize / (cfg.simdSize * cfg.numWorkers) := by
      rw [← h.toNat_product, ← UInt32.toNat_div, UInt32.ofNat_toNat]
    have hpeeled : (cfg.domainSize / (cfg.simdSize * cfg.numWorkers)).toNat =
        cfg.domainSize.toNat / (cfg.simdSize.toNat * cfg.numWorkers.toNat) := by
      rw [UInt32.toNat_div, h.toNat_product]
    have hrest : cfg.domainSize % (cfg.simdSize * cfg.numWorkers) ≠ 0 ↔
        cfg.domainSize.toNat % (cfg.simdSize.toNat * cfg.numWorkers.toNat) ≠ 0 := by
      rw [Ne, ← UInt32.toNat_inj, UInt32.toNat_mod, h.toNat_product]
      rfl
    rw [dealt_eq_append hw hsimd, List.map_append, ← flatMap_rounds, List.map_flatMap]
    simp only [hpeeled, hrest]
    congr 1
    · refine List.flatMap_congr fun i _ => ?_
      rw [List.map_map]
      exact List.map_congr_left fun s hs => idx_eq hsimd i (List.mem_range.mp hs)
    · rw [ite_not]
      split
      · rfl
      · rw [List.map_map]
        refine Eq.trans (congrArg _ (List.filter_congr fun s hs => ?_))
          (List.map_congr_left fun s hs => ?_)
        · rw [decide_eq_decide, UInt32.lt_iff_toNat_lt, h.toNat_lane hw (List.mem_range.mp hs),
            h.toNat_leftOver]
        · rw [← hquotient]
          exact idx_eq hsimd _ (List.mem_range.mp (List.mem_filter.mp hs).1)

/-- **Each index of the domain is called for once, on some worker.** -/
theorem calls_perm (h : cfg.Valid) : (cfg.calls.map fun call => call.2.domElemIdx).Perm
    ((List.range cfg.domainSize.toNat).map UInt32.ofNat) := by
  refine List.Perm.trans (List.Perm.of_eq ?_)
    ((flatMap_dealt_perm h.numWorkers h.simdSize cfg.domainSize.toNat).map UInt32.ofNat)
  rw [calls, List.map_flatMap, List.map_flatMap]
  refine List.flatMap_congr fun w hw => ?_
  have hlt : w < cfg.numWorkers.toNat := List.mem_range.mp hw
  have htoNat : (UInt32.ofNat w).toNat = w :=
    UInt32.toNat_ofNat_of_lt' (hlt.trans cfg.numWorkers.toNat_lt)
  rw [forEach_eq h (UInt32.lt_iff_toNat_lt.mpr (htoNat.symm ▸ hlt)), htoNat, List.map_map,
    List.map_map, List.map_map]
  rfl

theorem mem_calls {call : UInt32 × Idx} (hcall : call ∈ cfg.calls) :
    call.1 < cfg.numWorkers ∧ call.2 ∈ cfg.forEach call.1 := by
  obtain ⟨w, hw, hmem⟩ := List.mem_flatMap.mp hcall
  obtain ⟨idx, hidx, rfl⟩ := List.mem_map.mp hmem
  have hlt : w < cfg.numWorkers.toNat := List.mem_range.mp hw
  refine ⟨UInt32.lt_iff_toNat_lt.mpr ?_, hidx⟩
  rwa [UInt32.toNat_ofNat_of_lt' (hlt.trans cfg.numWorkers.toNat_lt)]

/-- The first call on a worker, if it has a whole iteration. -/
theorem first_mem_calls (w : ℕ) (hw : w < cfg.numWorkers.toNat) (hone : cfg.domainSize ≠ 1)
    (hpeeled : 0 < (cfg.domainSize / (cfg.simdSize * cfg.numWorkers)).toNat)
    (hsimd : 0 < cfg.simdSize.toNat) :
    (UInt32.ofNat w, cfg.idx (UInt32.ofNat w) (UInt32.ofNat 0 * cfg.simdSize) (UInt32.ofNat 0)) ∈
      cfg.calls := by
  refine List.mem_flatMap.mpr ⟨w, List.mem_range.mpr hw, List.mem_map_of_mem ?_⟩
  rw [forEach, if_neg hone]
  exact List.mem_append_left _ (List.mem_flatMap.mpr ⟨0, List.mem_range.mpr hpeeled,
    List.mem_map.mpr ⟨0, List.mem_range.mpr hsimd, rfl⟩⟩)

theorem nodup_map_calls (h : cfg.Valid) :
    (cfg.calls.map fun call => call.2.domElemIdx).Nodup := by
  refine (calls_perm h).nodup_iff.mpr (List.nodup_range.map_on fun i hi j hj hij => ?_)
  have hlt := cfg.domainSize.toNat_lt
  have htoNat := congrArg UInt32.toNat hij
  rwa [UInt32.toNat_ofNat_of_lt' ((List.mem_range.mp hi).trans hlt),
    UInt32.toNat_ofNat_of_lt' ((List.mem_range.mp hj).trans hlt)] at htoNat

/-- The index in the domain determines the call. -/
theorem calls_injOn (h : cfg.Valid) {call call' : UInt32 × Idx} (hmem : call ∈ cfg.calls)
    (hmem' : call' ∈ cfg.calls) (heq : call.2.domElemIdx = call'.2.domElemIdx) : call = call' :=
  List.inj_on_of_nodup_map (nodup_map_calls h) hmem hmem' heq

/-- The elements of a worker are distinct. -/
theorem nodup_workerElemIdx (h : cfg.Valid) (hworker : workerIdx < cfg.numWorkers) :
    ((cfg.forEach workerIdx).map Idx.workerElemIdx).Nodup := by
  have hw : workerIdx.toNat < cfg.numWorkers.toNat := UInt32.lt_iff_toNat_lt.mp hworker
  rw [forEach_eq h hworker, List.map_map]
  refine nodup_dealt.map_on fun k hk l hl hkl => ?_
  have hlt : ∀ m ∈ dealt cfg.numWorkers.toNat cfg.simdSize.toNat cfg.domainSize.toNat workerIdx.toNat,
      m < 2 ^ 32 := fun m hm =>
    (le_dealIndex h.numWorkers).trans_lt
      (((mem_dealt hw h.simdSize).mp hm).trans cfg.domainSize.toNat_lt)
  have htoNat := congrArg UInt32.toNat hkl
  simp only [Function.comp_apply] at htoNat
  rwa [UInt32.toNat_ofNat_of_lt' (hlt k hk), UInt32.toNat_ofNat_of_lt' (hlt l hl)] at htoNat

/-- **A `Variable` has room for the elements of a worker**, if its size does not wrap around. -/
theorem workerElemIdx_lt (h : cfg.Valid)
    (hsize : cfg.domainSize.toNat + cfg.simdSize.toNat * cfg.numWorkers.toNat ≤ 2 ^ 32)
    (hworker : workerIdx < cfg.numWorkers) {idx : Idx} (hidx : idx ∈ cfg.forEach workerIdx) :
    idx.workerElemIdx < cfg.maxIndicesPerWorker := by
  have hw : workerIdx.toNat < cfg.numWorkers.toNat := UInt32.lt_iff_toNat_lt.mp hworker
  have hpos : 0 < cfg.simdSize.toNat * cfg.numWorkers.toNat := Nat.mul_pos h.simdSize h.numWorkers
  rw [forEach_eq h hworker] at hidx
  obtain ⟨k, hk, rfl⟩ := List.mem_map.mp hidx
  have hsum : (cfg.domainSize + cfg.simdSize * cfg.numWorkers - 1).toNat =
      cfg.domainSize.toNat + cfg.simdSize.toNat * cfg.numWorkers.toNat - 1 := by
    obtain ⟨m, hm⟩ : ∃ m, cfg.domainSize.toNat + cfg.simdSize.toNat * cfg.numWorkers.toNat = m + 1 :=
      Nat.exists_eq_succ_of_ne_zero (by omega)
    -- the sum itself may be `2 ^ 32`, and then the subtraction wraps back
    have hwrap : cfg.domainSize + cfg.simdSize * cfg.numWorkers = UInt32.ofNat m + 1 := by
      rw [← UInt32.ofNat_one, ← UInt32.ofNat_add, ← hm, UInt32.ofNat_add, UInt32.ofNat_mul,
        UInt32.ofNat_toNat, UInt32.ofNat_toNat, UInt32.ofNat_toNat]
    rw [hwrap, hm, UInt32.add_sub_cancel, UInt32.toNat_ofNat_of_lt' (hm.symm.trans_le hsize),
      Nat.add_sub_cancel]
  have hrounds : (cfg.domainSize.toNat + cfg.simdSize.toNat * cfg.numWorkers.toNat - 1) /
      (cfg.simdSize.toNat * cfg.numWorkers.toNat) * cfg.simdSize.toNat < 2 ^ 32 :=
    calc _ ≤ (cfg.domainSize.toNat + cfg.simdSize.toNat * cfg.numWorkers.toNat - 1) /
          (cfg.simdSize.toNat * cfg.numWorkers.toNat) *
            (cfg.simdSize.toNat * cfg.numWorkers.toNat) :=
          Nat.mul_le_mul_left _ (Nat.le_mul_of_pos_right _ h.numWorkers)
      _ ≤ cfg.domainSize.toNat + cfg.simdSize.toNat * cfg.numWorkers.toNat - 1 :=
          Nat.div_mul_le_self ..
      _ < 2 ^ 32 := by omega
  have hk' := List.mem_range.mp (List.mem_filter.mp hk).1
  rw [UInt32.lt_iff_toNat_lt, UInt32.toNat_ofNat_of_lt' (hk'.trans hrounds), maxIndicesPerWorker,
    UInt32.toNat_mul, UInt32.toNat_div, hsum, h.toNat_product, Nat.mod_eq_of_lt hrounds]
  exact hk'

/-- Different calls have different elements, or different workers. -/
theorem workerElemIdx_ne (h : cfg.Valid) {call call' : UInt32 × Idx} (hmem : call ∈ cfg.calls)
    (hmem' : call' ∈ cfg.calls) (hne : call ≠ call') (hworker : call.1 = call'.1) :
    call.2.workerElemIdx ≠ call'.2.workerElemIdx := by
  obtain ⟨hlt, hidx⟩ := mem_calls hmem
  obtain ⟨-, hidx'⟩ := mem_calls hmem'
  intro heq
  refine hne (Prod.ext hworker (List.inj_on_of_nodup_map (nodup_workerElemIdx h hlt) hidx ?_ heq))
  rwa [hworker]

end Config

/-! ## Context variables -/

/-- `Variable`: on each worker an array. -/
structure Variable (T : Type*) (cfg : Config) where
  elements : UInt32 → Vector T cfg.maxIndicesPerWorker.toNat

namespace Variable

variable {T : Type*} {cfg : Config}

/-- `operator[]` on a worker; there is nothing to be had outside of the array. -/
def get? (ctxVar : Variable T cfg) (call : UInt32 × Idx) : Option T :=
  (ctxVar.elements call.1)[call.2.workerElemIdx.toNat]?

/-- Assignment to `operator[]` on a worker. -/
def set (ctxVar : Variable T cfg) (call : UInt32 × Idx) (value : T) : Variable T cfg :=
  ⟨Function.update ctxVar.elements call.1
    ((ctxVar.elements call.1).setIfInBounds call.2.workerElemIdx.toNat value)⟩

@[simp] theorem set_elements (ctxVar : Variable T cfg) (call : UInt32 × Idx) (value : T) :
    (ctxVar.set call value).elements = Function.update ctxVar.elements call.1
      ((ctxVar.elements call.1).setIfInBounds call.2.workerElemIdx.toNat value) := rfl

theorem get?_set_self (ctxVar : Variable T cfg) {call : UInt32 × Idx} (value : T)
    (hin : call.2.workerElemIdx < cfg.maxIndicesPerWorker) :
    (ctxVar.set call value).get? call = some value := by
  rw [get?, set_elements, Function.update_self, Vector.getElem?_setIfInBounds_self,
    if_pos (UInt32.lt_iff_toNat_lt.mp hin)]

theorem get?_set_of_ne (ctxVar : Variable T cfg) {call call' : UInt32 × Idx} (value : T)
    (hne : call.1 = call'.1 → call.2.workerElemIdx ≠ call'.2.workerElemIdx) :
    (ctxVar.set call value).get? call' = ctxVar.get? call' := by
  rw [get?, get?, set_elements]
  by_cases hworker : call.1 = call'.1
  · rw [← hworker, Function.update_self, Vector.getElem?_setIfInBounds_ne]
    exact fun heq => hne hworker (UInt32.toNat_inj.mp heq)
  · rw [Function.update_of_ne (Ne.symm hworker)]

end Variable

/-- A lockstep that uses a context variable: its calls in the order in which they happen, and what they
store, if anything. -/
structure Lockstep (T : Type*) (cfg : Config) where
  order : List (UInt32 × Idx)
  order_perm : order.Perm cfg.calls
  written : UInt32 → Option T

namespace Lockstep

variable {T : Type*} {cfg : Config}

/-- A call of the functor. -/
def call (lockstep : Lockstep T cfg) (ctxVar : Variable T cfg) (call : UInt32 × Idx) : Variable T cfg :=
  match lockstep.written call.2.domElemIdx with
  | some value => ctxVar.set call value
  | none => ctxVar

/-- All calls. -/
def run (ctxVar : Variable T cfg) (lockstep : Lockstep T cfg) : Variable T cfg :=
  lockstep.order.foldl lockstep.call ctxVar

/-- A call leaves alone what other calls find. -/
theorem get?_call_of_ne (h : cfg.Valid) (lockstep : Lockstep T cfg) (ctxVar : Variable T cfg)
    {other this : UInt32 × Idx} (hother : other ∈ cfg.calls) (hthis : this ∈ cfg.calls)
    (hne : other ≠ this) : (lockstep.call ctxVar other).get? this = ctxVar.get? this := by
  rw [call]
  split
  · exact Variable.get?_set_of_ne _ _ (Config.workerElemIdx_ne h hother hthis hne)
  · rfl

/-- So do many calls. -/
theorem get?_foldl_of_notMem (h : cfg.Valid) (lockstep : Lockstep T cfg) {this : UInt32 × Idx}
    (hthis : this ∈ cfg.calls) {others : List (UInt32 × Idx)} (hothers : others ⊆ cfg.calls)
    (hnotMem : this ∉ others) (ctxVar : Variable T cfg) :
    (others.foldl lockstep.call ctxVar).get? this = ctxVar.get? this := by
  induction others generalizing ctxVar with
  | nil => rfl
  | cons other others ih =>
    rw [List.cons_subset] at hothers
    rw [List.mem_cons, not_or] at hnotMem
    rw [List.foldl_cons, ih hothers.2 hnotMem.2,
      get?_call_of_ne h lockstep ctxVar hothers.1 hthis (Ne.symm hnotMem.1)]

/-- Before its turn in a lockstep, a call finds what there was at the beginning. -/
theorem get?_foldl_before (h : cfg.Valid) (lockstep : Lockstep T cfg) {before after : List (UInt32 × Idx)}
    {this : UInt32 × Idx} (horder : lockstep.order = before ++ this :: after)
    (ctxVar : Variable T cfg) :
    (before.foldl lockstep.call ctxVar).get? this = ctxVar.get? this := by
  have hperm : (before ++ this :: after).Perm cfg.calls := horder ▸ lockstep.order_perm
  have hnodup := hperm.nodup_iff.mpr (Config.nodup_map_calls h).of_map
  refine get?_foldl_of_notMem h lockstep (hperm.subset (by simp))
    (fun other hother => hperm.subset (List.mem_append_left _ hother)) (fun hmem => ?_) ctxVar
  exact List.disjoint_of_nodup_append hnodup hmem List.mem_cons_self

/-- **A lockstep stores for each index what it writes for that index.** -/
theorem get?_run (h : cfg.Valid) (lockstep : Lockstep T cfg) {this : UInt32 × Idx}
    (hthis : this ∈ cfg.calls) (hin : this.2.workerElemIdx < cfg.maxIndicesPerWorker)
    {ctxVar : Variable T cfg} {value : T} (hvalue : ctxVar.get? this = some value) :
    (run ctxVar lockstep).get? this =
      some ((lockstep.written this.2.domElemIdx).getD value) := by
  obtain ⟨before, after, horder⟩ := List.append_of_mem (lockstep.order_perm.mem_iff.mpr hthis)
  have hperm : (before ++ this :: after).Perm cfg.calls := horder ▸ lockstep.order_perm
  have hnodup := hperm.nodup_iff.mpr (Config.nodup_map_calls h).of_map
  have hafter : this ∉ after := (List.nodup_cons.mp hnodup.of_append_right).1
  rw [run, horder, List.foldl_append, List.foldl_cons, get?_foldl_of_notMem h lockstep hthis
    (fun other hother => hperm.subset
      (List.mem_append_right _ (List.mem_cons_of_mem _ hother))) hafter, call]
  split
  · next written hwritten =>
    rw [Variable.get?_set_self _ _ hin, hwritten, Option.getD_some]
  · next hwritten =>
    rw [get?_foldl_before h lockstep horder, hvalue, hwritten, Option.getD_none]

/-- Many locksteps leave what the last of them that wrote for the index has written. -/
theorem get?_foldl_run (h : cfg.Valid) {this : UInt32 × Idx} (hthis : this ∈ cfg.calls)
    (hin : this.2.workerElemIdx < cfg.maxIndicesPerWorker) (locksteps : List (Lockstep T cfg))
    {ctxVar : Variable T cfg} {value : T} (hvalue : ctxVar.get? this = some value) :
    (locksteps.foldl run ctxVar).get? this = some (locksteps.foldl
      (fun value lockstep => (lockstep.written this.2.domElemIdx).getD value) value) := by
  induction locksteps generalizing ctxVar value with
  | nil => exact hvalue
  | cons lockstep locksteps ih => exact ih (get?_run h lockstep hthis hin hvalue)

end Lockstep

/-! ## The loop and its variables -/

/-- Lockstep loops partition their domain and keep context variables aligned. -/
theorem forEach_partition {cfg : Config} (h : cfg.Valid) (T : Type*) :
    (cfg.calls.map fun call => call.2.domElemIdx).Perm
      ((List.range cfg.domainSize.toNat).map UInt32.ofNat) ∧
    (∀ call ∈ cfg.calls, ∀ call' ∈ cfg.calls, call.2.domElemIdx = call'.2.domElemIdx →
      call = call') ∧
    (∀ workerIdx < cfg.numWorkers, ((cfg.forEach workerIdx).map Idx.workerElemIdx).Nodup) ∧
    (cfg.domainSize.toNat + cfg.simdSize.toNat * cfg.numWorkers.toNat ≤ 2 ^ 32 →
      (∀ workerIdx < cfg.numWorkers, ∀ idx ∈ cfg.forEach workerIdx,
        idx.workerElemIdx < cfg.maxIndicesPerWorker) ∧
      ∀ (ctxVar : Variable T cfg) (earlier : List (Lockstep T cfg)) (lockstep : Lockstep T cfg)
        (before after : List (UInt32 × Idx)) (this : UInt32 × Idx),
        lockstep.order = before ++ this :: after →
        ∃ value, ctxVar.get? this = some value ∧
          (before.foldl lockstep.call (earlier.foldl Lockstep.run ctxVar)).get? this =
            some (earlier.foldl
              (fun value lockstep => (lockstep.written this.2.domElemIdx).getD value) value)) := by
  refine ⟨Config.calls_perm h, fun call hmem call' hmem' => Config.calls_injOn h hmem hmem',
    fun workerIdx hworker => Config.nodup_workerElemIdx h hworker, fun hsize =>
      ⟨fun workerIdx hworker idx hidx => Config.workerElemIdx_lt h hsize hworker hidx, ?_⟩⟩
  intro ctxVar earlier lockstep before after this horder
  have hthis : this ∈ cfg.calls := lockstep.order_perm.subset (by rw [horder]; simp)
  have hin : this.2.workerElemIdx < cfg.maxIndicesPerWorker :=
    Config.workerElemIdx_lt h hsize (Config.mem_calls hthis).1 (Config.mem_calls hthis).2
  refine ⟨_, Vector.getElem?_eq_getElem (UInt32.lt_iff_toNat_lt.mp hin), ?_⟩
  rw [Lockstep.get?_foldl_before h lockstep horder]
  exact Lockstep.get?_foldl_run h hthis hin earlier
    (Vector.getElem?_eq_getElem (UInt32.lt_iff_toNat_lt.mp hin))

/-- Seven indices for two workers, in vectors of two. -/
theorem forEach_partition_seven :
    ((Config.mk 7 2 2).calls.map fun call => call.2.domElemIdx).Perm
      ((List.range 7).map UInt32.ofNat) ∧
    ∀ workerIdx < 2, ∀ idx ∈ (Config.mk 7 2 2).forEach workerIdx, idx.workerElemIdx < 4 := by
  have hvalid : (Config.mk 7 2 2).Valid := ⟨by decide, by decide, by decide⟩
  have hpartition := forEach_partition hvalid ℕ
  exact ⟨hpartition.1, (hpartition.2.2.2 (by decide)).1⟩

/-- If `simdSize * numWorkers` wraps around, there are calls for indices that are not in the domain; if
the size of a `Variable` does, there are elements that are not in a `Variable`. -/
theorem exists_forEach_outside :
    (∃ call ∈ (Config.mk 65536 65536 65537).calls, ¬ call.2.domElemIdx < 65536) ∧
    ∃ call ∈ (Config.mk 4294967295 2 1).calls,
      ¬ call.2.workerElemIdx < (Config.mk 4294967295 2 1).maxIndicesPerWorker := by
  constructor
  · exact ⟨_, Config.first_mem_calls 1 (by decide) (by decide) (by decide) (by decide), by decide⟩
  · exact ⟨_, Config.first_mem_calls 0 (by decide) (by decide) (by decide) (by decide), by decide⟩

end Device
end Spearhed
