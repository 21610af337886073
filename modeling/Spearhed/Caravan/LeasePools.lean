import Mathlib.Data.List.GetD
import Mathlib.Tactic
import Spearhed.Library.AppendList

/-!
# Queue and event pools

`QueuePool` leases several queues at once by marking its entries; `EventPool` leases one event at a
time and keeps the others in an intrusive free list.  Both grow instead of waiting.  Entries are
named by their index in `m_entries`, lease objects by the place they are constructed in.

Entries are returned and handed out under the mutex of the pool, so each operation here is one
action.  `QueuePool.acquire_eq_some` and `EventPool.acquire_eq_some` say what a lease gets,
`acquire_eq_none` what a throw leaves behind, and `EventPool.FreeList` that the free list leads
through exactly the entries that are not leased.
-/

namespace Spearhed
namespace Caravan

open Library

/-! ## Queues -/

/-- A `QueuePool::Lease` object. -/
structure QueueLease where
  /-- `m_pool` is not null. -/
  pool : Bool
  /-- `m_entries`. -/
  entries : List ℕ

/-- The `leased` flags of the entries of a `QueuePool`. -/
structure QueuePool where
  leased : List Bool

namespace QueuePool

/-- The loop of `acquire` over the existing entries. -/
def scanIdle (leased : List Bool) (count : ℕ) : List ℕ :=
  leased.zipIdx.foldl (fun entries x =>
    if !x.1 && decide (entries.length ≠ count) then entries ++ [x.2] else entries) []

/-- `acquire(count)`.  The device can make `creatable` more queues before `makeQueue` throws. -/
def acquire (pool : QueuePool) (count creatable : ℕ) : Option QueueLease × QueuePool :=
  let found := scanIdle pool.leased count
  let missing := count - found.length
  if missing ≤ creatable then
    let entries := found ++ List.range' pool.leased.length missing
    (some ⟨true, entries⟩,
      ⟨entries.foldl (fun leased entry => leased.set entry true)
        (pool.leased ++ List.replicate missing false)⟩)
  else (none, ⟨pool.leased ++ List.replicate creatable false⟩)

/-- `release(entries)`. -/
def release (pool : QueuePool) (entries : List ℕ) : QueuePool :=
  ⟨entries.foldl (fun leased entry => leased.set entry false) pool.leased⟩

/-- The flag of an entry. -/
def flag (pool : QueuePool) (entry : ℕ) : Bool := pool.leased.getD entry false

theorem foldl_scan (count : ℕ) (l : List (Bool × ℕ)) (acc : List ℕ) (hacc : acc.length ≤ count) :
    l.foldl (fun entries x =>
        if !x.1 && decide (entries.length ≠ count) then entries ++ [x.2] else entries) acc =
      acc ++ ((l.filter fun x => !x.1).map Prod.snd).take (count - acc.length) := by
  induction l generalizing acc with
  | nil => simp
  | cons x l ih =>
    rw [List.foldl_cons]
    cases hx : x.1 with
    | true => rw [if_neg (by simp), ih acc hacc, List.filter_cons_of_neg (by simp [hx])]
    | false =>
      rw [List.filter_cons_of_pos (by simp [hx]), List.map_cons]
      by_cases hfull : acc.length = count
      · rw [if_neg (by simp [hfull]), ih acc hacc, hfull, Nat.sub_self, List.take_zero,
          List.take_zero]
      · have hlt : acc.length < count := lt_of_le_of_ne hacc hfull
        rw [if_pos (by simp [hfull]), ih _ (by rw [List.length_append]; exact hlt),
          List.length_append, List.length_singleton, List.append_assoc, List.singleton_append,
          show count - acc.length = count - (acc.length + 1) + 1 by omega, List.take_succ_cons]

theorem scanIdle_eq (leased : List Bool) (count : ℕ) :
    scanIdle leased count = ((leased.zipIdx.filter fun x => !x.1).map Prod.snd).take count := by
  rw [scanIdle, foldl_scan count _ [] (Nat.zero_le _)]
  rfl

/-- The scan finds different idle entries, at most `count` of them. -/
theorem scanIdle_spec (leased : List Bool) (count : ℕ) :
    (scanIdle leased count).Nodup ∧ (scanIdle leased count).length ≤ count ∧
      ∀ e ∈ scanIdle leased count, leased[e]? = some false := by
  rw [scanIdle_eq]
  refine ⟨?_, List.length_take_le _ _, fun e he => ?_⟩
  · have hindices : ((leased.zipIdx.filter fun x => !x.1).map Prod.snd).Sublist
        (List.range leased.length) := by
      have h := (List.filter_sublist (p := fun x : Bool × ℕ => !x.1) (l := leased.zipIdx)).map
        Prod.snd
      rwa [List.zipIdx_map_snd, ← List.range_eq_range'] at h
    exact ((List.nodup_range).sublist hindices).sublist (List.take_sublist _ _)
  · obtain ⟨x, hx, rfl⟩ := List.mem_map.mp (List.mem_of_mem_take he)
    obtain ⟨hmem, hidle⟩ := List.mem_filter.mp hx
    rw [List.mem_zipIdx_iff_getElem?.mp hmem, Option.some.injEq]
    simpa using hidle

theorem length_foldl_set (entries : List ℕ) (b : Bool) (leased : List Bool) :
    (entries.foldl (fun leased entry => leased.set entry b) leased).length = leased.length := by
  induction entries generalizing leased with
  | nil => rfl
  | cons e entries ih => rw [List.foldl_cons, ih, List.length_set]

/-- Setting the flags of some entries. -/
theorem getD_foldl_set (entries : List ℕ) (b : Bool) (leased : List Bool)
    (hlt : ∀ e ∈ entries, e < leased.length) (e : ℕ) :
    (entries.foldl (fun leased entry => leased.set entry b) leased).getD e false =
      if e ∈ entries then b else leased.getD e false := by
  induction entries generalizing leased with
  | nil => rfl
  | cons d entries ih =>
    rw [List.foldl_cons, ih _ fun e he => by
      rw [List.length_set]; exact hlt e (List.mem_cons_of_mem d he)]
    have hd := hlt d List.mem_cons_self
    by_cases hmem : e ∈ entries
    · rw [if_pos hmem, if_pos (List.mem_cons_of_mem d hmem)]
    · rw [if_neg hmem]
      by_cases hed : e = d
      · rw [hed, if_pos List.mem_cons_self, List.getD_eq_getElem?_getD, List.getElem?_set_self hd]
        rfl
      · rw [if_neg (by simp [hed, hmem]), List.getD_eq_getElem?_getD,
          List.getElem?_set_ne (Ne.symm hed), ← List.getD_eq_getElem?_getD]

theorem getD_append_replicate (leased : List Bool) (n e : ℕ) :
    (leased ++ List.replicate n false).getD e false = leased.getD e false := by
  rcases Nat.lt_or_ge e leased.length with he | he
  · rw [List.getD_append _ _ _ _ he]
  · rw [List.getD_append_right _ _ _ _ he, List.getD_eq_default _ _ he, List.getD_eq_getElem?_getD,
      List.getElem?_replicate]
    split <;> rfl

/-- **What `acquire` returns**: `count` different entries that were idle. -/
theorem acquire_eq_some {pool pool' : QueuePool} {count creatable : ℕ} {lease : QueueLease}
    (h : pool.acquire count creatable = (some lease, pool')) :
    lease.pool = true ∧ lease.entries.length = count ∧ lease.entries.Nodup ∧
      (∀ e ∈ lease.entries, pool.flag e = false) ∧
      (∀ e ∈ lease.entries, e < pool'.leased.length) ∧
      pool.leased.length ≤ pool'.leased.length ∧
      ∀ e, pool'.flag e = (pool.flag e || decide (e ∈ lease.entries)) := by
  obtain ⟨hnodup, hlength, hidle⟩ := scanIdle_spec pool.leased count
  rw [acquire] at h
  split at h
  · next hcreatable =>
    obtain ⟨hlease, rfl⟩ := Prod.mk.inj h
    obtain rfl := Option.some.inj hlease
    have hold : ∀ e ∈ scanIdle pool.leased count, e < pool.leased.length := fun e he =>
      (List.getElem?_eq_some_iff.mp (hidle e he)).1
    have hlt : ∀ e ∈ scanIdle pool.leased count ++ List.range' pool.leased.length
        (count - (scanIdle pool.leased count).length), e <
        (pool.leased ++ List.replicate (count - (scanIdle pool.leased count).length) false).length := by
      intro e he
      rw [List.length_append, List.length_replicate]
      rcases List.mem_append.mp he with he | he
      · exact Nat.lt_add_right _ (hold e he)
      · exact (List.mem_range'_1.mp he).2
    refine ⟨rfl, ?_, ?_, fun e he => ?_, fun e he => ?_, ?_, fun e => ?_⟩
    · rw [List.length_append, List.length_range']
      omega
    · refine List.nodup_append.mpr ⟨hnodup, List.nodup_range', fun a ha b hb => ?_⟩
      exact ((hold a ha).trans_le (List.mem_range'_1.mp hb).1).ne
    · rcases List.mem_append.mp he with he | he
      · rw [flag, List.getD_eq_getElem?_getD, hidle e he]
        rfl
      · exact List.getD_eq_default _ _ (List.mem_range'_1.mp he).1
    · rw [length_foldl_set]
      exact hlt e he
    · rw [length_foldl_set, List.length_append]
      exact Nat.le_add_right _ _
    · rw [flag, getD_foldl_set _ _ _ hlt, getD_append_replicate, flag]
      split
      · next hmem => rw [decide_eq_true hmem, Bool.or_true]
      · next hmem => rw [decide_eq_false hmem, Bool.or_false]
  · cases h

/-- **A throw while growing** leaves all flags as they are, and new entries idle. -/
theorem acquire_eq_none {pool pool' : QueuePool} {count creatable : ℕ}
    (h : pool.acquire count creatable = (none, pool')) :
    pool.leased <+: pool'.leased ∧ ∀ e, pool'.flag e = pool.flag e := by
  rw [acquire] at h
  split at h
  · cases h
  · obtain ⟨-, rfl⟩ := Prod.mk.inj h
    exact ⟨List.prefix_append _ _, getD_append_replicate _ _⟩

theorem release_flag {pool : QueuePool} {entries : List ℕ}
    (hlt : ∀ e ∈ entries, e < pool.leased.length) (e : ℕ) :
    (pool.release entries).flag e = (pool.flag e && !decide (e ∈ entries)) := by
  rw [flag, release, getD_foldl_set _ _ _ hlt, flag]
  split
  · next hmem => rw [decide_eq_true hmem, Bool.not_true, Bool.and_false]
  · next hmem => rw [decide_eq_false hmem, Bool.not_false, Bool.and_true]

end QueuePool

/-! ## Events -/

/-- An `EventPool::Lease` object. -/
structure EventLease where
  /-- `m_pool` is not null. -/
  pool : Bool
  /-- `m_entry`. -/
  entry : ℕ

/-- An `EventPool`: the number of entries, their `next` pointers, and `m_free`. -/
structure EventPool where
  count : ℕ
  next : ℕ → Option ℕ
  free : Option ℕ

namespace EventPool

/-- `acquire()`.  Where `creatable` is false, making one more event throws. -/
def acquire (pool : EventPool) (creatable : Bool) : Option EventLease × EventPool :=
  match pool.free with
  | some entry => (some ⟨true, entry⟩, { pool with free := pool.next entry })
  | none =>
      if creatable then
        (some ⟨true, pool.count⟩,
          { pool with count := pool.count + 1, next := Function.update pool.next pool.count none })
      else (none, pool)

/-- The body of `~Lease` for a lease that was not moved from. -/
def release (pool : EventPool) (entry : ℕ) : EventPool :=
  { pool with next := Function.update pool.next entry pool.free, free := some entry }

/-- `m_free` leads through exactly the idle entries, once each. -/
def FreeList (pool : EventPool) (leased : ℕ → Bool) : Prop :=
  ∃ l, Walk pool.next pool.free l ∧ l.Nodup ∧ (∀ e, e ∈ l ↔ e < pool.count ∧ leased e = false) ∧
    ∀ e, leased e = true → e < pool.count

theorem pool_of_acquire {pool pool' : EventPool} {creatable : Bool} {lease : EventLease}
    (h : pool.acquire creatable = (some lease, pool')) : lease.pool = true := by
  rw [acquire] at h
  split at h
  · obtain rfl := Option.some.inj (Prod.mk.inj h).1
    rfl
  · split at h
    · obtain rfl := Option.some.inj (Prod.mk.inj h).1
      rfl
    · cases h

/-- **What `acquire` returns**: an entry that was not leased. -/
theorem acquire_eq_some {pool pool' : EventPool} {creatable : Bool} {lease : EventLease}
    {leased : ℕ → Bool} (hfree : pool.FreeList leased)
    (h : pool.acquire creatable = (some lease, pool')) :
    leased lease.entry = false ∧
      pool'.FreeList fun e => leased e || decide (e ∈ [lease.entry]) := by
  obtain ⟨l, hwalk, hnodup, hmem, hlt⟩ := hfree
  rw [acquire] at h
  split at h
  · next entry hhead =>
    obtain ⟨hlease, rfl⟩ := Prod.mk.inj h
    obtain rfl := Option.some.inj hlease
    cases l with
    | nil => exact absurd (hwalk.symm.trans hhead) (by simp)
    | cons a l =>
      obtain ⟨ha, hrest⟩ := hwalk
      obtain rfl := Option.some.inj (ha.symm.trans hhead)
      obtain ⟨hnew, hnodup⟩ := List.nodup_cons.mp hnodup
      have hidle := (hmem a).mp List.mem_cons_self
      refine ⟨hidle.2, l, hrest, hnodup, fun e => ?_, fun e he => ?_⟩
      · have he := hmem e
        rw [List.mem_cons] at he
        simp only [Bool.or_eq_false_iff, decide_eq_false_iff_not, List.mem_singleton]
        constructor
        · intro hel
          have hne : e ≠ a := fun hea => hnew (hea ▸ hel)
          obtain ⟨h1, h2⟩ := he.mp (Or.inr hel)
          exact ⟨h1, h2, hne⟩
        · rintro ⟨h1, h2, hne⟩
          exact (he.mpr ⟨h1, h2⟩).resolve_left hne
      · rw [Bool.or_eq_true, decide_eq_true_iff, List.mem_singleton] at he
        rcases he with he | rfl
        · exact hlt e he
        · exact hidle.1
  · next hhead =>
    have hnil : l = [] := by
      cases l with
      | nil => rfl
      | cons a l => exact absurd (hwalk.1.symm.trans hhead) (by simp)
    subst hnil
    split at h
    · obtain ⟨hlease, rfl⟩ := Prod.mk.inj h
      obtain rfl := Option.some.inj hlease
      have hfresh : leased pool.count = false := by
        by_contra hne
        exact absurd (hlt _ (Bool.not_eq_false _ ▸ hne)) (Nat.lt_irrefl _)
      refine ⟨hfresh, [], hhead, List.nodup_nil, fun e => ?_, fun e he => ?_⟩
      · have he := hmem e
        simp only [Bool.or_eq_false_iff, decide_eq_false_iff_not, List.mem_singleton]
        refine iff_of_false List.not_mem_nil ?_
        rintro ⟨h1, h2, hne⟩
        exact List.not_mem_nil (he.mpr ⟨lt_of_le_of_ne (Nat.le_of_lt_succ h1) hne, h2⟩)
      · rw [Bool.or_eq_true, decide_eq_true_iff, List.mem_singleton] at he
        rcases he with he | rfl
        · exact Nat.lt_succ_of_lt (hlt e he)
        · exact Nat.lt_succ_self _
    · cases h

/-- A throw changes nothing. -/
theorem acquire_eq_none {pool pool' : EventPool} {creatable : Bool}
    (h : pool.acquire creatable = (none, pool')) : pool' = pool := by
  rw [acquire] at h
  split at h
  · cases h
  · split at h
    · cases h
    · exact (Prod.mk.inj h).2.symm

/-- A returned entry goes to the front of the free list. -/
theorem FreeList.release {pool : EventPool} {leased : ℕ → Bool} (hfree : pool.FreeList leased)
    {entry : ℕ} (hentry : leased entry = true) :
    (pool.release entry).FreeList fun e => leased e && !decide (e ∈ [entry]) := by
  obtain ⟨l, hwalk, hnodup, hmem, hlt⟩ := hfree
  have hnew : entry ∉ l := fun hin => by
    rw [((hmem entry).mp hin).2] at hentry
    cases hentry
  refine ⟨entry :: l, ⟨rfl, ?_⟩, List.nodup_cons.mpr ⟨hnew, hnodup⟩, fun e => ?_, fun e he => ?_⟩
  · show Walk (Function.update pool.next entry pool.free)
      (Function.update pool.next entry pool.free entry) l
    rw [Function.update_self]
    exact hwalk.congr fun a ha => Function.update_of_ne (fun h : a = entry => hnew (h ▸ ha)) _ _
  · rw [List.mem_cons, hmem, Bool.and_eq_false_iff, Bool.not_eq_false', decide_eq_true_iff,
      List.mem_singleton]
    constructor
    · rintro (rfl | ⟨h1, h2⟩)
      · exact ⟨hlt e hentry, Or.inr rfl⟩
      · exact ⟨h1, Or.inl h2⟩
    · rintro ⟨h1, h2 | rfl⟩
      · exact Or.inr ⟨h1, h2⟩
      · exact Or.inl rfl
  · rw [Bool.and_eq_true] at he
    exact hlt e he.1

end EventPool

end Caravan
end Spearhed
