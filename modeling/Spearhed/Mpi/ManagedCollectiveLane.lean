import Mathlib.Tactic
import Mathlib.Data.List.Basic

/-!
# Managed collective lanes

A communicator has one `ManagedCollectiveLane` (`mpi/context.hpp`): a deque of tickets that were
reserved and not yet retired, and the sequence number of its front.  Tickets are committed or
skipped in any order, and only the front of the deque may retire.

The second half of the file says what a lane is for, without a deque.  A `Ledger` remembers every
ticket that was ever reserved together with its fate, and how many have retired.  A lane is the
unretired part of its ledger (`Ledger.lane`), and each operation of the lane is the corresponding
operation of the ledger:

* `Ledger.lane_reserve`, `Ledger.lane_commit`, `Ledger.lane_skip`, `Ledger.lane_skipReserved`,
  `Ledger.lane_popReady`.

Start functions are an arbitrary type `α`.  The empty `std::function` of a fresh entry is `none`;
the one caller of `commit` always passes a callable.
-/

namespace Spearhed
namespace Mpi

variable {α : Type}

/-! ## The lane -/

/-- `ManagedCollectiveLane::State`. -/
inductive EntryState
  | reserved
  | committed
  | skipped
  deriving DecidableEq

/-- `ManagedCollectiveLane::Entry`. -/
structure Entry (α : Type) where
  start : Option α
  state : EntryState

/-- A default-constructed entry. -/
def Entry.fresh : Entry α := ⟨none, EntryState.reserved⟩

/-- `ManagedCollectiveLane`. -/
structure ManagedCollectiveLane (α : Type) where
  firstSequence : ℕ
  entries : List (Entry α)

namespace ManagedCollectiveLane

/-- A default-constructed lane. -/
def empty : ManagedCollectiveLane α := ⟨0, []⟩

/-- `reserve`: the new lane and the sequence number of the ticket. -/
def reserve (L : ManagedCollectiveLane α) : ManagedCollectiveLane α × ℕ :=
  ({ L with entries := L.entries ++ [Entry.fresh] }, L.firstSequence + L.entries.length)

/-- `find`, dereferenced. -/
def find (L : ManagedCollectiveLane α) (sequence : ℕ) : Option (Entry α) :=
  if sequence < L.firstSequence ∨ L.entries.length ≤ sequence - L.firstSequence then none
  else L.entries[sequence - L.firstSequence]?

/-- A store through the pointer that `find` returned. -/
def store (L : ManagedCollectiveLane α) (sequence : ℕ) (e : Entry α) : ManagedCollectiveLane α :=
  { L with entries := L.entries.set (sequence - L.firstSequence) e }

/-- `commit`: how it returns, and the lane it leaves. -/
def commit (L : ManagedCollectiveLane α) (sequence : ℕ) (start : α) :
    Except String Unit × ManagedCollectiveLane α :=
  match L.find sequence with
  | none => (Except.error "Inactive managed collective ticket", L)
  | some e =>
    if e.state ≠ EntryState.reserved then (Except.error "Inactive managed collective ticket", L)
    else (Except.ok (), L.store sequence ⟨some start, EntryState.committed⟩)

/-- `skip`. -/
def skip (L : ManagedCollectiveLane α) (sequence : ℕ) : ManagedCollectiveLane α :=
  match L.find sequence with
  | none => L
  | some e =>
    if e.state = EntryState.reserved then L.store sequence { e with state := EntryState.skipped }
    else L

/-- `skipReserved`. -/
def skipReserved (L : ManagedCollectiveLane α) : ManagedCollectiveLane α :=
  { L with entries := L.entries.map fun e =>
      if e.state = EntryState.reserved then { e with state := EntryState.skipped } else e }

/-- `ready`. -/
def ready (L : ManagedCollectiveLane α) : Bool :=
  match L.entries with
  | [] => false
  | e :: _ => decide (e.state ≠ EntryState.reserved)

/-- `popReady`: the start function of the front, possibly empty, and the lane without it. -/
def popReady (L : ManagedCollectiveLane α) : Option (Option α × ManagedCollectiveLane α) :=
  if L.ready then
    L.entries.head?.map fun e => (e.start, ⟨L.firstSequence + 1, L.entries.tail⟩)
  else none

end ManagedCollectiveLane

/-! ## The ledger -/

/-- What has become of a ticket. -/
inductive Fate (α : Type)
  | reserved
  | committed (start : α)
  | skipped

/-- The entry a ticket of this fate has while it is in the deque. -/
def Fate.entry : Fate α → Entry α
  | reserved => Entry.fresh
  | committed start => ⟨some start, EntryState.committed⟩
  | skipped => ⟨none, EntryState.skipped⟩

/-- The fate of every ticket of a communicator, in reservation order, and the number of tickets
that have retired.  A retired ticket was committed or skipped before. -/
@[ext]
structure Ledger (α : Type) where
  tickets : List (Fate α)
  retired : ℕ
  settled : ∀ k, k < retired → ∃ f, tickets[k]? = some f ∧ f ≠ Fate.reserved

namespace Ledger

/-- No ticket has been reserved. -/
def empty : Ledger α := ⟨[], 0, fun _ h => absurd h (Nat.not_lt_zero _)⟩

theorem retired_le (H : Ledger α) : H.retired ≤ H.tickets.length := by
  by_contra hlt
  obtain ⟨f, hf, -⟩ := H.settled H.tickets.length (by omega)
  rw [List.getElem?_eq_none le_rfl] at hf
  cases hf

/-- A new ticket. -/
def reserve (H : Ledger α) : Ledger α where
  tickets := H.tickets ++ [Fate.reserved]
  retired := H.retired
  settled := by
    intro k hk
    obtain ⟨f, hf, hne⟩ := H.settled k hk
    exact ⟨f, by rw [List.getElem?_append_left (List.getElem?_eq_some_iff.mp hf).1, hf], hne⟩

/-- Every ticket goes from `x` to `g k x`, where only reserved tickets may change. -/
def update (H : Ledger α) (g : ℕ → Fate α → Fate α) (hg : ∀ k f, f ≠ Fate.reserved → g k f = f) :
    Ledger α where
  tickets := H.tickets.mapIdx g
  retired := H.retired
  settled := by
    intro k hk
    obtain ⟨f, hf, hne⟩ := H.settled k hk
    exact ⟨f, by rw [List.getElem?_mapIdx, hf, Option.map_some, hg k f hne], hne⟩

/-- Ticket `k` gets its fate, unless it has one. -/
def settle (H : Ledger α) (k : ℕ) (f : Fate α) : Ledger α :=
  H.update (fun j x => match x with
    | Fate.reserved => if j = k then f else Fate.reserved
    | x => x) (by
    intro j x hx
    cases x with
    | reserved => exact absurd rfl hx
    | committed start => rfl
    | skipped => rfl)

/-- All undecided tickets are skipped. -/
def settleAll (H : Ledger α) : Ledger α :=
  H.update (fun _ x => match x with
    | Fate.reserved => Fate.skipped
    | x => x) (by
    intro j x hx
    cases x with
    | reserved => exact absurd rfl hx
    | committed start => rfl
    | skipped => rfl)

/-- The fate of the first unretired ticket is decided. -/
def FrontSettled (H : Ledger α) : Prop :=
  ∃ f, H.tickets[H.retired]? = some f ∧ f ≠ Fate.reserved

instance (H : Ledger α) : Decidable H.FrontSettled :=
  match h : H.tickets[H.retired]? with
  | none => isFalse (by simp [FrontSettled, h])
  | some Fate.reserved => isFalse (by simp [FrontSettled, h])
  | some (Fate.committed start) => isTrue ⟨_, h, nofun⟩
  | some Fate.skipped => isTrue ⟨_, h, nofun⟩

/-- The first unretired ticket retires once its fate is decided. -/
def retire (H : Ledger α) : Ledger α :=
  if hf : H.FrontSettled then
    { tickets := H.tickets
      retired := H.retired + 1
      settled := by
        intro k hk
        rcases Nat.lt_succ_iff_lt_or_eq.mp hk with hlt | rfl
        · exact H.settled k hlt
        · exact hf }
  else H

/-- The start functions of the retired tickets that were committed, with their tickets. -/
def started (H : Ledger α) : List (ℕ × α) :=
  (List.range H.retired).filterMap fun k =>
    (H.tickets[k]?).bind fun f => f.entry.start.map fun start => (k, start)

/-- The lane that a ledger describes. -/
def lane (H : Ledger α) : ManagedCollectiveLane α :=
  ⟨H.retired, (H.tickets.drop H.retired).map Fate.entry⟩

/-! ## The lane is the unretired part of the ledger -/

theorem lane_empty : (empty : Ledger α).lane = ManagedCollectiveLane.empty := rfl

/-- **Tickets get consecutive numbers.** -/
theorem lane_reserve (H : Ledger α) :
    H.lane.reserve = (H.reserve.lane, H.tickets.length) := by
  have hle := H.retired_le
  refine Prod.ext ?_ ?_
  · simp [lane, reserve, ManagedCollectiveLane.reserve, List.drop_append_of_le_length hle,
      Fate.entry]
  · simp only [lane, ManagedCollectiveLane.reserve, List.length_map, List.length_drop]
    omega

/-- A retired ticket is not found, any other is found with the entry of its fate. -/
theorem find_lane (H : Ledger α) (k : ℕ) :
    H.lane.find k = if k < H.retired then none else (H.tickets[k]?).map Fate.entry := by
  simp only [lane, ManagedCollectiveLane.find, List.length_map, List.length_drop]
  by_cases hk : k < H.retired
  · simp [hk]
  · have hadd : H.retired + (k - H.retired) = k := by omega
    rw [if_neg hk, List.getElem?_map, List.getElem?_drop, hadd]
    split
    · next hout =>
      have := H.retired_le
      rw [List.getElem?_eq_none (by omega), Option.map_none]
    · rfl

/-- The entry of a fate is reserved exactly when the fate is. -/
theorem entry_state_eq_reserved (f : Fate α) :
    f.entry.state = EntryState.reserved ↔ f = Fate.reserved := by
  cases f <;> simp [Fate.entry, Entry.fresh]

theorem retired_le_of_reserved (H : Ledger α) {k : ℕ}
    (hk : H.tickets[k]? = some Fate.reserved) : H.retired ≤ k := by
  by_contra hlt
  obtain ⟨g, hg, hne⟩ := H.settled k (by omega)
  rw [hk, Option.some.injEq] at hg
  exact hne hg.symm

/-- A reserved ticket is found with a fresh entry. -/
theorem find_lane_of_reserved (H : Ledger α) {k : ℕ}
    (hk : H.tickets[k]? = some Fate.reserved) : H.lane.find k = some Entry.fresh := by
  have hret := H.retired_le_of_reserved hk
  rw [find_lane, if_neg (by omega), hk]
  rfl

/-- What is found under any other number is not reserved. -/
theorem ne_reserved_of_find_lane (H : Ledger α) {k : ℕ} {e : Entry α}
    (hk : H.tickets[k]? ≠ some Fate.reserved) (he : H.lane.find k = some e) :
    e.state ≠ EntryState.reserved := by
  rw [find_lane] at he
  split at he
  · cases he
  · obtain ⟨f, hf, rfl⟩ := Option.map_eq_some_iff.mp he
    rw [ne_eq, entry_state_eq_reserved]
    rintro rfl
    exact hk hf

/-- Settling a reserved ticket is a store to its entry. -/
theorem lane_settle (H : Ledger α) {k : ℕ} (f : Fate α)
    (hk : H.tickets[k]? = some Fate.reserved) :
    (H.settle k f).lane = H.lane.store k f.entry := by
  have hret : H.retired ≤ k := H.retired_le_of_reserved hk
  have hset : (H.settle k f).tickets = H.tickets.set k f := by
    refine List.ext_getElem? fun j => ?_
    rw [settle, update, List.getElem?_mapIdx]
    rcases eq_or_ne j k with rfl | hne
    · rw [hk, List.getElem?_set_self (List.getElem?_eq_some_iff.mp hk).1]
      simp
    · rw [List.getElem?_set_ne hne.symm]
      rcases H.tickets[j]? with _ | _ | _ | _ <;> simp [hne]
  have hlane : (H.settle k f).lane =
      ⟨H.retired, ((H.settle k f).tickets.drop H.retired).map Fate.entry⟩ := rfl
  rw [hlane, hset, List.drop_set, if_neg (by omega), List.map_set]
  rfl

theorem settle_of_ne (H : Ledger α) {k : ℕ} (f : Fate α)
    (hk : H.tickets[k]? ≠ some Fate.reserved) : H.settle k f = H := by
  refine Ledger.ext (List.ext_getElem? fun j => ?_) rfl
  rw [settle, update, List.getElem?_mapIdx]
  rcases hj : H.tickets[j]? with _ | _ | _ | _
  · rfl
  · have hne : j ≠ k := by
      rintro rfl
      exact hk hj
    simp [hne]
  · rfl
  · rfl

/-- `commit` succeeds on a reserved ticket. -/
theorem lane_commit_of_reserved (H : Ledger α) {k : ℕ} (start : α)
    (hk : H.tickets[k]? = some Fate.reserved) :
    H.lane.commit k start = (Except.ok (), (H.settle k (Fate.committed start)).lane) := by
  rw [ManagedCollectiveLane.commit, H.find_lane_of_reserved hk, lane_settle H _ hk]
  simp [Fate.entry, Entry.fresh]

/-- `commit` throws on any other number, and the lane keeps its contents. -/
theorem lane_commit_of_ne (H : Ledger α) {k : ℕ} (start : α)
    (hk : H.tickets[k]? ≠ some Fate.reserved) :
    H.lane.commit k start = (Except.error "Inactive managed collective ticket", H.lane) := by
  rw [ManagedCollectiveLane.commit]
  split
  · rfl
  · next e he => rw [if_pos (H.ne_reserved_of_find_lane hk he)]

/-- `skip` decides a reserved ticket and nothing else. -/
theorem lane_skip (H : Ledger α) (k : ℕ) : H.lane.skip k = (H.settle k Fate.skipped).lane := by
  rw [ManagedCollectiveLane.skip]
  by_cases hk : H.tickets[k]? = some Fate.reserved
  · rw [H.find_lane_of_reserved hk, lane_settle H _ hk]
    simp [Fate.entry, Entry.fresh]
  · rw [settle_of_ne H _ hk]
    split
    · rfl
    · next e he => rw [if_neg (H.ne_reserved_of_find_lane hk he)]

theorem lane_skipReserved (H : Ledger α) : H.lane.skipReserved = H.settleAll.lane := by
  have htickets : H.settleAll.tickets = H.tickets.map fun x => match x with
      | Fate.reserved => Fate.skipped
      | x => x := by
    refine List.ext_getElem? fun j => ?_
    rw [settleAll, update, List.getElem?_mapIdx, List.getElem?_map]
  have hlane : H.settleAll.lane =
      ⟨H.retired, (H.settleAll.tickets.drop H.retired).map Fate.entry⟩ := rfl
  rw [hlane, htickets, ← List.map_drop, List.map_map, lane, ManagedCollectiveLane.skipReserved]
  simp only [List.map_map, ManagedCollectiveLane.mk.injEq, true_and]
  refine List.map_congr_left fun f _ => ?_
  cases f <;> rfl

/-- What `popReady` sees: the entry of the first unretired ticket. -/
theorem entries_head?_lane (H : Ledger α) :
    H.lane.entries.head? = (H.tickets[H.retired]?).map Fate.entry := by
  rw [lane, List.head?_map, List.head?_drop]

theorem lane_ready (H : Ledger α) : H.lane.ready = true ↔ H.FrontSettled := by
  have hhead := H.entries_head?_lane
  rw [ManagedCollectiveLane.ready, FrontSettled]
  split
  · next hnil =>
    rw [hnil] at hhead
    simp [Option.map_eq_none_iff.mp hhead.symm]
  · next e rest hcons =>
    rw [hcons, List.head?_cons] at hhead
    obtain ⟨f, hf, rfl⟩ := Option.map_eq_some_iff.mp hhead.symm
    simp [hf, entry_state_eq_reserved]

theorem retire_tickets (H : Ledger α) : H.retire.tickets = H.tickets := by
  rw [retire]
  split <;> rfl

theorem retire_retired (H : Ledger α) (h : H.FrontSettled) : H.retire.retired = H.retired + 1 := by
  rw [retire, dif_pos h]

/-- **`popReady` retires the first unretired ticket once its fate is decided.** -/
theorem lane_popReady (H : Ledger α) {f : Fate α} (hf : H.tickets[H.retired]? = some f)
    (hne : f ≠ Fate.reserved) :
    H.lane.popReady = some (f.entry.start, H.retire.lane) := by
  have hsettled : H.FrontSettled := ⟨f, hf, hne⟩
  rw [ManagedCollectiveLane.popReady, if_pos (H.lane_ready.mpr hsettled), entries_head?_lane, hf,
    lane, lane, retire_tickets, H.retire_retired hsettled]
  simp [List.tail_drop]

/-- What a successful `popReady` tells about the ledger. -/
theorem popReady_lane_eq_some (H : Ledger α) {start : Option α} {L : ManagedCollectiveLane α}
    (h : H.lane.popReady = some (start, L)) :
    ∃ f, H.tickets[H.retired]? = some f ∧ f ≠ Fate.reserved ∧ start = f.entry.start ∧
      L = H.retire.lane := by
  have hready : H.lane.ready = true := by
    by_contra hno
    rw [ManagedCollectiveLane.popReady, if_neg hno] at h
    cases h
  obtain ⟨f, hf, hne⟩ := H.lane_ready.mp hready
  rw [H.lane_popReady hf hne, Option.some.injEq, Prod.mk.injEq] at h
  exact ⟨f, hf, hne, h.1.symm, h.2.symm⟩

/-- What a retirement adds to the started functions. -/
theorem started_retire (H : Ledger α) {f : Fate α} (hf : H.tickets[H.retired]? = some f)
    (hne : f ≠ Fate.reserved) :
    H.retire.started = H.started ++ (f.entry.start.map fun start => (H.retired, start)).toList := by
  rw [started, started, retire_tickets, H.retire_retired ⟨f, hf, hne⟩, List.range_succ,
    List.filterMap_append]
  congr 1
  cases f <;> simp [hf, Fate.entry, Entry.fresh]

end Ledger

end Mpi
end Spearhed
