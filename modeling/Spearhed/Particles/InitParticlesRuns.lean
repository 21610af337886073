import Mathlib.Tactic
import Spearhed.Library.AppendList
import Spearhed.Particles.InitParticles

/-!
# Runs of the kernel that creates particles

Whatever the order in which the blocks of `InitParticleRegions` act, the frames that they create
end up in the right lists.  Four invariants carry the argument.

* `Owned`: blocks own distinct frames, none of which was allocated before the kernel.
* `Linked`: the list of every region is an `AppendList` whose order consists of the frames that
  blocks have exchanged into it.
* `Filled`: what is in the frames of blocks that are filling them; nothing else has changed.
* `Called`: `placeParticle` was called once for every slot that is filled and to be occupied.

At the end of a run every block has filled all slots of its frame (`phase_of_terminal`), and every
run ends (`terminating`).
-/

namespace Spearhed
namespace Particles

open Library

variable {K : Type} {d : ℕ} {A Species : Type} {frameSize : ℕ}

namespace Phase

/-- The frame of a block, once it has one. -/
@[simp] def framePtr : Phase frameSize → Option FramePtr
  | start => none
  | allocated p => some p
  | cleared p => some p
  | exchanged p _ => some p
  | appended p => some p
  | filling p _ => some p

/-- The frame of a block, once the last pointer was exchanged for it. -/
@[simp] def listedPtr : Phase frameSize → Option FramePtr
  | exchanged p _ => some p
  | appended p => some p
  | filling p _ => some p
  | _ => none

/-- The frame of a block, while it is exchanged and not yet linked. -/
@[simp] def pendingPtr : Phase frameSize → Option FramePtr
  | exchanged p _ => some p
  | _ => none

/-- The slots that are filled. -/
@[simp] def done : Phase frameSize → List (Fin frameSize)
  | filling _ done => done
  | _ => []

/-- What a block has left to do. -/
def actionsLeft : Phase frameSize → ℕ
  | start => frameSize + 5
  | allocated _ => frameSize + 4
  | cleared _ => frameSize + 3
  | exchanged _ _ => frameSize + 2
  | appended _ => frameSize + 1
  | filling _ done => frameSize - done.length

theorem framePtr_of_listedPtr {ph : Phase frameSize} {p : FramePtr} (h : ph.listedPtr = some p) :
    ph.framePtr = some p := by
  cases ph <;> first | exact h | cases h

theorem listedPtr_of_pendingPtr {ph : Phase frameSize} {p : FramePtr} (h : ph.pendingPtr = some p) :
    ph.listedPtr = some p := by
  cases ph <;> first | exact h | cases h

end Phase

namespace Memory

variable (m : Memory K d A frameSize)

@[simp] theorem setFrame_frames_self (p : FramePtr) (f : LinkedFrame K d A frameSize) :
    (m.setFrame p f).frames p = f :=
  Function.update_self ..

@[simp] theorem setFrame_frames_of_ne (p : FramePtr) (f : LinkedFrame K d A frameSize) {q : FramePtr}
    (h : q ≠ p) : (m.setFrame p f).frames q = m.frames q :=
  Function.update_of_ne h ..

/-- Only a change of a `next` pointer changes the pointers of the lists. -/
theorem setFrame_next (p : FramePtr) (f : LinkedFrame K d A frameSize) :
    (m.setFrame p f).next = Function.update m.next p f.next := by
  funext q
  rcases eq_or_ne q p with rfl | hne
  · rw [Function.update_self, next, setFrame_frames_self]
  · rw [Function.update_of_ne hne, next, setFrame_frames_of_ne m p f hne]
    rfl

theorem setFrame_next_of_eq (p : FramePtr) {f : LinkedFrame K d A frameSize}
    (h : f.next = m.next p) : (m.setFrame p f).next = m.next := by
  rw [setFrame_next, h, Function.update_eq_self]

@[simp] theorem setList_regions_self (r : ℕ) (l : FrameList) :
    (m.setList r l).regions r = { m.regions r with particleFrameList := l } :=
  Function.update_self ..

@[simp] theorem setList_regions_of_ne (r : ℕ) (l : FrameList) {r' : ℕ} (h : r' ≠ r) :
    (m.setList r l).regions r' = m.regions r' :=
  Function.update_of_ne h ..

end Memory

namespace CreateParticlesInFrame

namespace State

variable (s : State K d A frameSize) (j : ℕ) (m : Memory K d A frameSize) (ph : Phase frameSize)

@[simp] theorem advance_memory : (s.advance j m ph).memory = m := rfl

@[simp] theorem advance_phase_self : (s.advance j m ph).phase j = ph := Function.update_self ..

@[simp] theorem advance_phase_of_ne {i : ℕ} (h : i ≠ j) :
    (s.advance j m ph).phase i = s.phase i :=
  Function.update_of_ne h ..

/-- What the new phase has in common with the old one has not changed. -/
theorem advance_phase_congr {β : Type} (f : Phase frameSize → β) {ph : Phase frameSize}
    (h : f ph = f (s.phase j)) (i : ℕ) : f ((s.advance j m ph).phase i) = f (s.phase i) := by
  rcases eq_or_ne i j with rfl | hne
  · rw [advance_phase_self, h]
  · rw [advance_phase_of_ne s j m ph hne]

/-- The frames that are exchanged and not yet linked. -/
def pending : Set FramePtr := {p | ∃ j, (s.phase j).pendingPtr = some p}

end State

variable {recipe : Recipe K d A Species} {tasks : List FrameTask} {m₀ : Memory K d A frameSize}
  {s t : State K d A frameSize}

/-! ## Frames have one owner -/

/-- Blocks own distinct frames that are new. -/
structure Owned (m₀ : Memory K d A frameSize) (s : State K d A frameSize) : Prop where
  allocated : m₀.allocated ⊆ s.memory.allocated
  fresh : ∀ j p, (s.phase j).framePtr = some p → p ∈ s.memory.allocated ∧ p ∉ m₀.allocated
  unique : ∀ i j p, (s.phase i).framePtr = some p → (s.phase j).framePtr = some p → i = j

theorem Owned.advance (h : Owned m₀ s) {j : ℕ} {m : Memory K d A frameSize} {ph : Phase frameSize}
    (hm : m.allocated = s.memory.allocated) (hph : ph.framePtr = (s.phase j).framePtr) :
    Owned m₀ (s.advance j m ph) := by
  have hsame := s.advance_phase_congr j m Phase.framePtr hph
  refine ⟨?_, fun i p hi => ?_, fun i i' p hi hi' => ?_⟩
  · rw [State.advance_memory, hm]
    exact h.allocated
  · rw [hsame] at hi
    rw [State.advance_memory, hm]
    exact h.fresh i p hi
  · rw [hsame] at hi hi'
    exact h.unique i i' p hi hi'

/-- What a block has allocated is its own. -/
theorem Owned.getEmptyNode (h : Owned m₀ s) {j : ℕ} {p : FramePtr} (hs : s.phase j = .start)
    (hp : p ∉ s.memory.allocated) :
    Owned m₀ (s.advance j (s.memory.getEmptyNode p) (.allocated p)) := by
  have hother : ∀ i, i ≠ j → ∀ q,
      ((s.advance j (s.memory.getEmptyNode p) (.allocated p)).phase i).framePtr = some q →
        q ∈ s.memory.allocated ∧ q ∉ m₀.allocated ∧ (s.phase i).framePtr = some q :=
    fun i hi q hq => by
      rw [State.advance_phase_of_ne _ _ _ _ hi] at hq
      exact ⟨(h.fresh i q hq).1, (h.fresh i q hq).2, hq⟩
  refine ⟨h.allocated.trans (Finset.subset_insert p _), fun i q hi => ?_, fun i i' q hi hi' => ?_⟩
  · rcases eq_or_ne i j with rfl | hne
    · rw [State.advance_phase_self] at hi
      obtain rfl := Option.some.inj hi
      exact ⟨Finset.mem_insert_self p _, fun hold => hp (h.allocated hold)⟩
    · obtain ⟨hmem, hnew, -⟩ := hother i hne q hi
      exact ⟨Finset.mem_insert_of_mem hmem, hnew⟩
  · rcases eq_or_ne i j with hij | hne <;> rcases eq_or_ne i' j with hij' | hne'
    · rw [hij, hij']
    · -- the new frame is not one that another block owns
      rw [hij, State.advance_phase_self] at hi
      obtain rfl := Option.some.inj hi
      exact absurd (hother i' hne' p hi').1 hp
    · rw [hij', State.advance_phase_self] at hi'
      obtain rfl := Option.some.inj hi'
      exact absurd (hother i hne p hi).1 hp
    · exact h.unique i i' q (hother i hne q hi).2.2 (hother i' hne' q hi').2.2

theorem fillSlot_allocated (task : FrameTask) (j : ℕ) (p : FramePtr) (slot : Fin frameSize)
    (m : Memory K d A frameSize) : (fillSlot recipe task j p slot m).allocated = m.allocated := by
  unfold fillSlot
  split <;> rfl

theorem fillSlot_next (task : FrameTask) (j : ℕ) (p : FramePtr) (slot : Fin frameSize)
    (m : Memory K d A frameSize) : (fillSlot recipe task j p slot m).next = m.next := by
  unfold fillSlot
  split
  · exact m.setFrame_next_of_eq p rfl
  · exact m.setFrame_next_of_eq p rfl

theorem fillSlot_regions (task : FrameTask) (j : ℕ) (p : FramePtr) (slot : Fin frameSize)
    (m : Memory K d A frameSize) : (fillSlot recipe task j p slot m).regions = m.regions := by
  unfold fillSlot
  split <;> rfl

theorem Owned.step (h : Owned m₀ s) (hst : Step recipe tasks s t) : Owned m₀ t := by
  cases hst with
  | getEmptyNode hj hs hp => exact h.getEmptyNode hs hp
  | clearNext hj hs => exact h.advance rfl (by rw [hs]; rfl)
  | exchange hj hs => exact h.advance rfl (by rw [hs]; rfl)
  | linkNext hj hs => exact h.advance rfl (by rw [hs]; rfl)
  | linkFirst hj hs => exact h.advance rfl (by rw [hs]; rfl)
  | setLiveParticles hj hs => exact h.advance rfl (by rw [hs]; rfl)
  | fillSlot hj hs hslot => exact h.advance (fillSlot_allocated ..) (by rw [hs]; rfl)

/-! ## The lists of the regions -/

/-- The list of every region that frames are created for, in the order of the exchanges. -/
structure Linked (tasks : List FrameTask) (s : State K d A frameSize)
    (order : ℕ → List FramePtr) : Prop where
  chain : ∀ task ∈ tasks, AppendList (s.memory.frameList task.region).firstNode
    (s.memory.frameList task.region).lastNode s.memory.next s.pending (order task.region)
  mem : ∀ r p, p ∈ order r ↔
    ∃ (j : ℕ) (task : FrameTask), tasks[j]? = some task ∧ task.region = r ∧
      (s.phase j).listedPtr = some p
  cleared : ∀ j p, s.phase j = .cleared p → s.memory.next p = none
  follows : ∀ (j : ℕ) (task : FrameTask) p old, tasks[j]? = some task →
    s.phase j = .exchanged p old → Follows (order task.region) p old

namespace Linked

variable {order : ℕ → List FramePtr}

/-- A frame in a list is owned by a block that has exchanged it. -/
theorem eq_of_mem (h : Linked tasks s order) (howned : Owned m₀ s) {r j : ℕ} {p : FramePtr}
    (hp : p ∈ order r) (hj : (s.phase j).framePtr = some p) : (s.phase j).listedPtr = some p := by
  obtain ⟨i, task, -, -, hi⟩ := (h.mem r p).mp hp
  rwa [howned.unique j i p hj (Phase.framePtr_of_listedPtr hi)]

/-- A frame is in one list only. -/
theorem region_unique (h : Linked tasks s order) (howned : Owned m₀ s) {r r' : ℕ} {p : FramePtr}
    (hp : p ∈ order r) (hp' : p ∈ order r') : r = r' := by
  obtain ⟨i, task, hi, rfl, hip⟩ := (h.mem r p).mp hp
  obtain ⟨i', task', hi', rfl, hip'⟩ := (h.mem r' p).mp hp'
  obtain rfl := howned.unique i i' p (Phase.framePtr_of_listedPtr hip)
    (Phase.framePtr_of_listedPtr hip')
  rw [hi] at hi'
  rw [Option.some.inj hi']

/-- Frames in lists are new. -/
theorem not_mem_allocated (h : Linked tasks s order) (howned : Owned m₀ s) {r : ℕ} {p : FramePtr}
    (hp : p ∈ order r) : p ∈ s.memory.allocated ∧ p ∉ m₀.allocated := by
  obtain ⟨i, task, -, -, hip⟩ := (h.mem r p).mp hp
  exact howned.fresh i p (Phase.framePtr_of_listedPtr hip)

/-- A step away from the exchange and the link. -/
theorem advance (h : Linked tasks s order) {j : ℕ} {m : Memory K d A frameSize}
    {ph : Phase frameSize} (hlist : ∀ r, m.frameList r = s.memory.frameList r)
    (hnext : ∀ r, ∀ p ∈ order r, m.next p = s.memory.next p)
    (hcleared : ∀ p, ph = .cleared p → m.next p = none)
    (hother : ∀ i p, i ≠ j → s.phase i = .cleared p → m.next p = none)
    (hlisted : ph.listedPtr = (s.phase j).listedPtr) (hpending : (s.phase j).pendingPtr = none)
    (hph : ph.pendingPtr = none) : Linked tasks (s.advance j m ph) order := by
  have hsame := s.advance_phase_congr j m Phase.pendingPtr (hph.trans hpending.symm)
  have hset : (s.advance j m ph).pending = s.pending := by
    ext p
    exact exists_congr fun i => by rw [hsame]
  refine ⟨fun task htask => ?_, fun r p => ?_, fun i p hi => ?_, fun i task p old hi hip => ?_⟩
  · rw [State.advance_memory, hlist, hset]
    exact (h.chain task htask).congr (hnext task.region) fun _ _ => Iff.rfl
  · rw [h.mem]
    simp only [s.advance_phase_congr j m Phase.listedPtr hlisted]
  · rcases eq_or_ne i j with rfl | hne
    · rw [State.advance_phase_self] at hi
      exact hcleared p hi
    · rw [State.advance_phase_of_ne _ _ _ _ hne] at hi
      exact hother i p hne hi
  · rcases eq_or_ne i j with rfl | hne
    · rw [State.advance_phase_self] at hip
      rw [hip] at hph
      cases hph
    · rw [State.advance_phase_of_ne _ _ _ _ hne] at hip
      exact h.follows i task p old hi hip

/-- A frame whose block has not exchanged it is in no list. -/
theorem not_mem_of_not_listed (h : Linked tasks s order) (howned : Owned m₀ s) {j : ℕ}
    {p : FramePtr} (hj : (s.phase j).framePtr = some p) (hnot : (s.phase j).listedPtr = none)
    (r : ℕ) : p ∉ order r := fun hp => by
  rw [h.eq_of_mem howned hp hj] at hnot
  cases hnot

theorem getEmptyNode (h : Linked tasks s order) (howned : Owned m₀ s) {j : ℕ} {p : FramePtr}
    (hs : s.phase j = .start) (hp : p ∉ s.memory.allocated) :
    Linked tasks (s.advance j (s.memory.getEmptyNode p) (.allocated p)) order := by
  have hnext : (s.memory.getEmptyNode p).next = Function.update s.memory.next p none :=
    s.memory.setFrame_next p (s.memory.frames p).emptied
  refine h.advance (fun _ => rfl) (fun r q hq => ?_) nofun (fun i q _ hi => ?_) (by rw [hs]; rfl)
    (by rw [hs]; rfl) rfl
  · have hne : q ≠ p := fun hqp => hp (hqp ▸ (h.not_mem_allocated howned hq).1)
    rw [hnext, Function.update_of_ne hne]
  · have hq : (s.phase i).framePtr = some q := by rw [hi]; rfl
    have hne : q ≠ p := fun hqp => hp (hqp ▸ (howned.fresh i q hq).1)
    rw [hnext, Function.update_of_ne hne]
    exact h.cleared i q hi

theorem clearNext (h : Linked tasks s order) (howned : Owned m₀ s) {j : ℕ} {p : FramePtr}
    (hs : s.phase j = .allocated p) :
    Linked tasks (s.advance j (s.memory.setNext p none) (.cleared p)) order := by
  have hnext : (s.memory.setNext p none).next = Function.update s.memory.next p none :=
    s.memory.setFrame_next ..
  have hp : ∀ r, p ∉ order r :=
    h.not_mem_of_not_listed howned (by rw [hs]; rfl) (by rw [hs]; rfl)
  refine h.advance (fun _ => rfl) (fun r q hq => ?_) (fun q hq => ?_) (fun i q hne hi => ?_)
    (by rw [hs]; rfl) (by rw [hs]; rfl) rfl
  · have hne : q ≠ p := fun hqp => hp r (hqp ▸ hq)
    rw [hnext, Function.update_of_ne hne]
  · obtain rfl : p = q := by injection hq
    rw [hnext, Function.update_self]
  · have hqp : q ≠ p := fun hqp => hne (howned.unique i j p (by rw [hi, hqp]; rfl) (by rw [hs]; rfl))
    rw [hnext, Function.update_of_ne hqp]
    exact h.cleared i q hi

/-- A step that writes to a frame but not to its `next` pointer. -/
theorem write (h : Linked tasks s order) {j : ℕ} {m : Memory K d A frameSize}
    {ph : Phase frameSize} (hlist : ∀ r, m.frameList r = s.memory.frameList r)
    (hnext : m.next = s.memory.next) (hlisted : ph.listedPtr = (s.phase j).listedPtr)
    (hpending : (s.phase j).pendingPtr = none) (hph : ph.pendingPtr = none)
    (hcleared : ∀ p, ph ≠ .cleared p) : Linked tasks (s.advance j m ph) order :=
  h.advance hlist (fun _ _ _ => by rw [hnext]) (fun p hp => absurd hp (hcleared p))
    (fun i p _ hi => by rw [hnext]; exact h.cleared i p hi) hlisted hpending hph

theorem exchange (h : Linked tasks s order) (howned : Owned m₀ s) {j : ℕ} {task : FrameTask}
    {p : FramePtr} (hj : tasks[j]? = some task) (hs : s.phase j = .cleared p) :
    Linked tasks (s.advance j (s.memory.setLastNode task.region p)
        (.exchanged p (s.memory.frameList task.region).lastNode))
      (Function.update order task.region (order task.region ++ [p])) := by
  set t := s.advance j (s.memory.setLastNode task.region p)
    (.exchanged p (s.memory.frameList task.region).lastNode) with ht
  have hp : ∀ r, p ∉ order r :=
    h.not_mem_of_not_listed howned (by rw [hs]; rfl) (by rw [hs]; rfl)
  have hself : t.phase j = .exchanged p (s.memory.frameList task.region).lastNode :=
    State.advance_phase_self ..
  have hother : ∀ i, i ≠ j → t.phase i = s.phase i := fun i hne =>
    State.advance_phase_of_ne _ _ _ _ hne
  have hpending : ∀ q, q ∈ t.pending ↔ q = p ∨ q ∈ s.pending := fun q => by
    constructor
    · rintro ⟨i, hi⟩
      rcases eq_or_ne i j with rfl | hne
      · rw [hself] at hi
        exact Or.inl (Option.some.inj hi).symm
      · rw [hother i hne] at hi
        exact Or.inr ⟨i, hi⟩
    · rintro (rfl | ⟨i, hi⟩)
      · exact ⟨j, by rw [hself]; rfl⟩
      · refine ⟨i, ?_⟩
        rw [hother i fun hij => by rw [hij, hs] at hi; cases hi]
        exact hi
  have hlistOther : ∀ r, r ≠ task.region → t.memory.frameList r = s.memory.frameList r :=
    fun r hne => congrArg (fun region => region.particleFrameList.list)
      (s.memory.setList_regions_of_ne _ _ hne)
  have hlistSelf : t.memory.frameList task.region =
      { s.memory.frameList task.region with lastNode := some p } := by
    rw [ht, State.advance_memory, Memory.setLastNode, Memory.frameList,
      Memory.setList_regions_self]
    rfl
  refine ⟨fun task' htask' => ?_, fun r q => ?_, fun i q hi => ?_, fun i task' q old hi hiq => ?_⟩
  · rcases eq_or_ne task'.region task.region with heq | hne
    · rw [heq, Function.update_self, hlistSelf]
      refine (heq ▸ h.chain task' htask').exchange (hp _) (h.cleared j p hs) hpending
    · rw [Function.update_of_ne hne, hlistOther _ hne]
      refine (h.chain task' htask').congr (fun _ _ => rfl) fun q hq => ?_
      rw [hpending]
      exact or_iff_right fun hqp => hp _ (hqp ▸ hq)
  · constructor
    · intro hq
      rcases eq_or_ne r task.region with rfl | hne
      · rw [Function.update_self, List.mem_append, List.mem_singleton] at hq
        rcases hq with hq | rfl
        · obtain ⟨i, task', hi, hr, hiq⟩ := (h.mem _ q).mp hq
          refine ⟨i, task', hi, hr, ?_⟩
          rw [hother i fun hij => by rw [hij, hs] at hiq; cases hiq]
          exact hiq
        · exact ⟨j, task, hj, rfl, by rw [hself]; rfl⟩
      · rw [Function.update_of_ne hne] at hq
        obtain ⟨i, task', hi, hr, hiq⟩ := (h.mem _ q).mp hq
        refine ⟨i, task', hi, hr, ?_⟩
        rw [hother i fun hij => by rw [hij, hs] at hiq; cases hiq]
        exact hiq
    · rintro ⟨i, task', hi, rfl, hiq⟩
      rcases eq_or_ne i j with rfl | hne
      · rw [hself] at hiq
        obtain rfl := Option.some.inj hiq
        rw [hj] at hi
        obtain rfl := Option.some.inj hi
        rw [Function.update_self]
        exact List.mem_append_right _ (List.mem_singleton.mpr rfl)
      · rw [hother i hne] at hiq
        have hq := (h.mem task'.region q).mpr ⟨i, task', hi, rfl, hiq⟩
        rcases eq_or_ne task'.region task.region with heq | hne'
        · rw [heq] at hq ⊢
          rw [Function.update_self]
          exact List.mem_append_left _ hq
        · rwa [Function.update_of_ne hne']
  · rcases eq_or_ne i j with rfl | hne
    · rw [hself] at hi
      cases hi
    · rw [hother i hne] at hi
      exact h.cleared i q hi
  · rcases eq_or_ne i j with rfl | hne
    · rw [hj] at hi
      obtain rfl := Option.some.inj hi
      rw [hself] at hiq
      injection hiq with hpq hold
      subst hpq hold
      rw [Function.update_self, (h.chain task (List.mem_of_getElem? hj)).lastNode]
      exact follows_concat ..
    · rw [hother i hne] at hiq
      have hold := h.follows i task' q old hi hiq
      rcases eq_or_ne task'.region task.region with heq | hne'
      · rw [heq] at hold ⊢
        rw [Function.update_self]
        exact hold.append [p]
      · rwa [Function.update_of_ne hne']

/-- What a link leaves to be linked. -/
theorem mem_pending_link (howned : Owned m₀ s) {j : ℕ} {p : FramePtr} {old : Option FramePtr}
    {m : Memory K d A frameSize} (hs : s.phase j = .exchanged p old) (q : FramePtr) :
    q ∈ (s.advance j m (.appended p)).pending ↔ q ≠ p ∧ q ∈ s.pending := by
  have hj : (s.phase j).framePtr = some p := by rw [hs]; rfl
  constructor
  · rintro ⟨i, hi⟩
    rcases eq_or_ne i j with rfl | hne
    · rw [State.advance_phase_self] at hi
      cases hi
    · rw [State.advance_phase_of_ne _ _ _ _ hne] at hi
      refine ⟨fun hqp => hne (howned.unique i j p ?_ hj), i, hi⟩
      exact Phase.framePtr_of_listedPtr (Phase.listedPtr_of_pendingPtr (hqp ▸ hi))
  · rintro ⟨hqp, i, hi⟩
    refine ⟨i, ?_⟩
    rw [State.advance_phase_of_ne _ _ _ _ fun hij => ?_]
    · exact hi
    · rw [hij, hs] at hi
      exact hqp (Option.some.inj hi).symm

/-- The two links differ in what happens to the list that the frame goes to. -/
theorem link (h : Linked tasks s order) (howned : Owned m₀ s) {j : ℕ} {task : FrameTask}
    {p : FramePtr} {old : Option FramePtr} {m : Memory K d A frameSize}
    (hj : tasks[j]? = some task) (hs : s.phase j = .exchanged p old)
    (hlist : ∀ r, r ≠ task.region → m.frameList r = s.memory.frameList r)
    (hnext : ∀ q, some q ≠ old → m.next q = s.memory.next q)
    (hself : AppendList (m.frameList task.region).firstNode (m.frameList task.region).lastNode
      m.next (s.advance j m (.appended p)).pending (order task.region)) :
    Linked tasks (s.advance j m (.appended p)) order := by
  have hfollows := h.follows j task p old hj hs
  have hsame : ∀ i, ((s.advance j m (.appended p)).phase i).listedPtr = (s.phase i).listedPtr :=
    s.advance_phase_congr j m Phase.listedPtr (by rw [hs]; rfl)
  have hp : (s.phase j).framePtr = some p := by rw [hs]; rfl
  refine ⟨fun task' htask' => ?_, fun r q => ?_, fun i q hi => ?_, fun i task' q old' hi hiq => ?_⟩
  · rcases eq_or_ne task'.region task.region with heq | hne
    · rw [heq]
      exact hself
    · rw [State.advance_memory, hlist _ hne]
      refine (h.chain task' htask').congr (fun q hq => hnext q fun hqold => hne ?_) fun q hq => ?_
      · rw [← hqold] at hfollows
        exact h.region_unique howned hq hfollows.mem_old
      · rw [mem_pending_link howned hs]
        refine and_iff_right fun hqp => hne ?_
        exact h.region_unique howned hq (hqp ▸ hfollows.mem)
  · rw [h.mem]
    simp only [hsame]
  · rcases eq_or_ne i j with rfl | hne
    · rw [State.advance_phase_self] at hi
      cases hi
    · rw [State.advance_phase_of_ne _ _ _ _ hne] at hi
      rw [State.advance_memory, hnext q fun hqold => ?_]
      · exact h.cleared i q hi
      · -- the older frame is in a list, and this one is not
        rw [← hqold] at hfollows
        exact h.not_mem_of_not_listed howned (by rw [hi]; rfl) (by rw [hi]; rfl) task.region
          hfollows.mem_old
  · rcases eq_or_ne i j with rfl | hne
    · rw [State.advance_phase_self] at hiq
      cases hiq
    · rw [State.advance_phase_of_ne _ _ _ _ hne] at hiq
      exact h.follows i task' q old' hi hiq

theorem linkNext (h : Linked tasks s order) (howned : Owned m₀ s) {j : ℕ} {task : FrameTask}
    {p old : FramePtr} (hj : tasks[j]? = some task) (hs : s.phase j = .exchanged p (some old)) :
    Linked tasks (s.advance j (s.memory.setNext old (some p)) (.appended p)) order := by
  have hnext : (s.memory.setNext old (some p)).next = Function.update s.memory.next old (some p) :=
    s.memory.setFrame_next ..
  refine h.link howned hj hs (fun _ _ => rfl) (fun q hq => ?_) ?_
  · rw [hnext, Function.update_of_ne fun hqold => hq (by rw [hqold])]
  · rw [hnext]
    exact (h.chain task (List.mem_of_getElem? hj)).storeNext (h.follows j task p _ hj hs)
      (mem_pending_link howned hs)

theorem linkFirst (h : Linked tasks s order) (howned : Owned m₀ s) {j : ℕ} {task : FrameTask}
    {p : FramePtr} (hj : tasks[j]? = some task) (hs : s.phase j = .exchanged p none) :
    Linked tasks (s.advance j (s.memory.setFirstNode task.region p) (.appended p)) order := by
  have hself : (s.memory.setFirstNode task.region p).frameList task.region =
      { s.memory.frameList task.region with firstNode := some p } := by
    rw [Memory.setFirstNode, Memory.frameList, Memory.setList_regions_self]
    rfl
  refine h.link howned hj hs (fun r hne => ?_) (fun _ _ => rfl) ?_
  · exact congrArg (fun region => region.particleFrameList.list)
      (s.memory.setList_regions_of_ne _ _ hne)
  · rw [hself]
    exact (h.chain task (List.mem_of_getElem? hj)).storeFirst (h.follows j task p _ hj hs)
      (mem_pending_link howned hs)

/-- **Every step keeps the lists in order.** -/
theorem step (h : Linked tasks s order) (howned : Owned m₀ s) (hst : Step recipe tasks s t) :
    ∃ order', Linked tasks t order' := by
  cases hst with
  | getEmptyNode hj hs hp => exact ⟨order, h.getEmptyNode howned hs hp⟩
  | clearNext hj hs => exact ⟨order, h.clearNext howned hs⟩
  | exchange hj hs => exact ⟨_, h.exchange howned hj hs⟩
  | linkNext hj hs => exact ⟨order, h.linkNext howned hj hs⟩
  | linkFirst hj hs => exact ⟨order, h.linkFirst howned hj hs⟩
  | @setLiveParticles j task p hj hs =>
    exact ⟨order, h.write (fun _ => rfl) (s.memory.setFrame_next_of_eq p rfl) (by rw [hs]; rfl)
      (by rw [hs]; rfl) rfl nofun⟩
  | @fillSlot j task p done slot hj hs hslot =>
    exact ⟨order, h.write (fun r => by rw [Memory.frameList, fillSlot_regions]; rfl)
      (fillSlot_next ..) (by rw [hs]; rfl) (by rw [hs]; rfl) rfl nofun⟩

end Linked

/-! ## The contents of the frames -/

/-- The live count of a frame is set, and so are the masks of some of its slots. -/
structure FrameHolds (task : FrameTask) (f : LinkedFrame K d A frameSize)
    (done : List (Fin frameSize)) : Prop where
  nodup : done.Nodup
  liveParticles : f.liveParticles = task.numParticlesToCreate
  multiMask : ∀ slot ∈ done, (f.particlesSoa slot).multiMask =
    if slot.val < task.numParticlesToCreate.toNat then 1 else 0

theorem FrameHolds.congr {task : FrameTask} {f f' : LinkedFrame K d A frameSize}
    {done : List (Fin frameSize)} (h : FrameHolds task f done) (hf : f'.toFrame = f.toFrame) :
    FrameHolds task f' done := by
  obtain ⟨hnodup, hlive, hmask⟩ := h
  refine ⟨hnodup, ?_, fun slot hslot => ?_⟩
  · rw [hf]
    exact hlive
  · rw [hf]
    exact hmask slot hslot

/-- What blocks have put into their frames; everything else is as it was. -/
structure Filled (tasks : List FrameTask) (m₀ : Memory K d A frameSize)
    (s : State K d A frameSize) : Prop where
  frames : ∀ p ∈ m₀.allocated, s.memory.frames p = m₀.frames p
  volume : ∀ r, (s.memory.regions r).volume = (m₀.regions r).volume
  numParticles : ∀ r, (s.memory.regions r).particleFrameList.numParticles =
    (m₀.regions r).particleFrameList.numParticles
  regions : ∀ r, (∀ task ∈ tasks, task.region ≠ r) → s.memory.regions r = m₀.regions r
  filling : ∀ (j : ℕ) (task : FrameTask) p done, tasks[j]? = some task →
    s.phase j = .filling p done → FrameHolds task (s.memory.frames p) done

namespace Filled

/-- A step that writes to a frame. -/
theorem setFrame (h : Filled tasks m₀ s) {j : ℕ} {m : Memory K d A frameSize}
    {ph : Phase frameSize} {p : FramePtr} (hregions : m.regions = s.memory.regions)
    (hframes : ∀ q, q ≠ p → m.frames q = s.memory.frames q) (hp : p ∉ m₀.allocated)
    (hother : ∀ i done, i ≠ j → s.phase i = .filling p done →
      (m.frames p).toFrame = (s.memory.frames p).toFrame)
    (hself : ∀ (task : FrameTask) q done, tasks[j]? = some task → ph = .filling q done →
      FrameHolds task (m.frames q) done) : Filled tasks m₀ (s.advance j m ph) := by
  refine ⟨fun q hq => ?_, fun r => ?_, fun r => ?_, fun r hr => ?_, fun i task q done hi hiq => ?_⟩
  · rw [State.advance_memory, hframes q fun hqp => hp (hqp ▸ hq)]
    exact h.frames q hq
  · rw [State.advance_memory, hregions]
    exact h.volume r
  · rw [State.advance_memory, hregions]
    exact h.numParticles r
  · rw [State.advance_memory, hregions]
    exact h.regions r hr
  · rcases eq_or_ne i j with rfl | hne
    · rw [State.advance_phase_self] at hiq
      exact hself task q done hi hiq
    · rw [State.advance_phase_of_ne _ _ _ _ hne] at hiq
      have hold := h.filling i task q done hi hiq
      rcases eq_or_ne q p with rfl | hqp
      · exact hold.congr (hother i done hne hiq)
      · rw [State.advance_memory, hframes q hqp]
        exact hold

/-- A step that writes to the pointers of a list. -/
theorem setList (h : Filled tasks m₀ s) {j : ℕ} {task : FrameTask} (hj : tasks[j]? = some task)
    {l : FrameList} (hl : l.numParticles =
      (s.memory.regions task.region).particleFrameList.numParticles) {ph : Phase frameSize}
    (hph : ∀ p done, ph ≠ .filling p done) :
    Filled tasks m₀ (s.advance j (s.memory.setList task.region l) ph) := by
  refine ⟨h.frames, fun r => ?_, fun r => ?_, fun r hr => ?_, fun i task' q done hi hiq => ?_⟩
  · rw [State.advance_memory, ← h.volume r]
    rcases eq_or_ne r task.region with rfl | hne
    · rw [Memory.setList_regions_self]
    · rw [Memory.setList_regions_of_ne _ _ _ hne]
  · rw [State.advance_memory, ← h.numParticles r]
    rcases eq_or_ne r task.region with rfl | hne
    · rw [Memory.setList_regions_self]
      exact hl
    · rw [Memory.setList_regions_of_ne _ _ _ hne]
  · rw [State.advance_memory,
      Memory.setList_regions_of_ne _ _ _ (hr task (List.mem_of_getElem? hj)).symm]
    exact h.regions r hr
  · rcases eq_or_ne i j with rfl | hne
    · rw [State.advance_phase_self] at hiq
      exact absurd hiq (hph q done)
    · rw [State.advance_phase_of_ne _ _ _ _ hne] at hiq
      exact h.filling i task' q done hi hiq

/-- A block writes to its own frame. -/
theorem setOwnFrame (h : Filled tasks m₀ s) (howned : Owned m₀ s) {j : ℕ}
    {m : Memory K d A frameSize} {ph : Phase frameSize} {p : FramePtr}
    (hj : (s.phase j).framePtr = some p) (hregions : m.regions = s.memory.regions)
    (hframes : ∀ q, q ≠ p → m.frames q = s.memory.frames q)
    (hself : ∀ (task : FrameTask) q done, tasks[j]? = some task → ph = .filling q done →
      FrameHolds task (m.frames q) done) : Filled tasks m₀ (s.advance j m ph) :=
  h.setFrame hregions hframes (howned.fresh j p hj).2
    (fun i done hne hi => absurd (howned.unique i j p (by rw [hi]; rfl) hj) hne) hself

/-- A slot is filled. -/
theorem fillSlot (h : Filled tasks m₀ s) (howned : Owned m₀ s) {j : ℕ} {task : FrameTask}
    {p : FramePtr} {done : List (Fin frameSize)} {slot : Fin frameSize}
    (hj : tasks[j]? = some task) (hs : s.phase j = .filling p done) (hslot : slot ∉ done) :
    Filled tasks m₀
      (s.advance j (fillSlot recipe task j p slot s.memory) (.filling p (slot :: done))) := by
  have hholds := h.filling j task p done hj hs
  have hwrite : ∃ particle : Particle K d A,
      (CreateParticlesInFrame.fillSlot recipe task j p slot s.memory).frames =
        (s.memory.setParticle p slot particle).frames ∧
      particle.multiMask = if slot.val < task.numParticlesToCreate.toNat then 1 else 0 := by
    unfold CreateParticlesInFrame.fillSlot
    split
    · exact ⟨_, rfl, rfl⟩
    · exact ⟨_, rfl, rfl⟩
  obtain ⟨particle, hframes, hmask⟩ := hwrite
  refine h.setOwnFrame howned (p := p) (by rw [hs]; rfl) (fillSlot_regions ..) (fun q hq => ?_)
    fun task' q done' hj' hq => ?_
  · rw [hframes]
    exact s.memory.setFrame_frames_of_ne _ _ hq
  · injection hq with hpq hdone
    subst hpq hdone
    rw [hj] at hj'
    obtain rfl := Option.some.inj hj'
    rw [hframes, Memory.setParticle, Memory.setFrame_frames_self]
    refine ⟨List.nodup_cons.mpr ⟨hslot, hholds.nodup⟩, hholds.liveParticles, fun slot' hslot' => ?_⟩
    show (Function.update (s.memory.frames p).particlesSoa slot particle slot').multiMask = _
    rcases List.mem_cons.mp hslot' with rfl | hslot'
    · rw [Function.update_self, hmask]
    · have hne : slot' ≠ slot := fun heq => hslot (heq ▸ hslot')
      rw [Function.update_of_ne hne]
      exact hholds.multiMask slot' hslot'

theorem step {order : ℕ → List FramePtr} (h : Filled tasks m₀ s) (howned : Owned m₀ s)
    (hlinked : Linked tasks s order) (hst : Step recipe tasks s t) : Filled tasks m₀ t := by
  cases hst with
  | @getEmptyNode j task p hj hs hp =>
    exact h.setFrame rfl (fun q hq => s.memory.setFrame_frames_of_ne _ _ hq)
      (fun hold => hp (howned.allocated hold))
      (fun i done _ hi => absurd (howned.fresh i p (by rw [hi]; rfl)).1 hp) nofun
  | @clearNext j task p hj hs =>
    exact h.setOwnFrame howned (p := p) (by rw [hs]; rfl) rfl
      (fun q hq => s.memory.setFrame_frames_of_ne _ _ hq) nofun
  | exchange hj hs =>
    rw [Memory.setLastNode]
    refine h.setList hj ?_ nofun
    rfl
  | @linkNext j task p old hj hs =>
    -- the older frame belongs to another block, but only its pointer changes
    have hold := hlinked.not_mem_allocated howned (hlinked.follows j task p _ hj hs).mem_old
    refine h.setFrame (p := old) rfl (fun q hq => s.memory.setFrame_frames_of_ne _ _ hq) hold.2
      (fun i done _ _ => ?_) nofun
    rw [Memory.setNext, Memory.setFrame_frames_self]
  | linkFirst hj hs =>
    rw [Memory.setFirstNode]
    refine h.setList hj ?_ nofun
    rfl
  | @setLiveParticles j task p hj hs =>
    refine h.setOwnFrame howned (p := p) (by rw [hs]; rfl) rfl
      (fun q hq => s.memory.setFrame_frames_of_ne _ _ hq) fun task' q done hj' hq => ?_
    injection hq with hpq hdone
    subst hpq hdone
    rw [hj] at hj'
    obtain rfl := Option.some.inj hj'
    rw [Memory.setLiveParticles, Memory.setFrame_frames_self]
    exact ⟨List.nodup_nil, rfl, nofun⟩
  | fillSlot hj hs hslot => exact h.fillSlot howned hj hs hslot

end Filled

/-! ## The calls of `placeParticle` -/

/-- The calls that a block has made. -/
def doneCalls (recipe : Recipe K d A Species) (task : FrameTask) (done : List (Fin frameSize)) :
    List PlaceCall :=
  (done.filter fun slot => decide (slot.val < task.numParticlesToCreate.toNat)).map fun slot =>
    ⟨recipe.index, task.region, globalParticleIdx task slot⟩

/-- The calls so far are those that blocks have made. -/
def Called (recipe : Recipe K d A Species) (tasks : List FrameTask) (m₀ : Memory K d A frameSize)
    (s : State K d A frameSize) : Prop :=
  s.memory.calls.Perm
    (tasks.zipIdx.flatMap (fun x => doneCalls recipe x.1 (s.phase x.2).done) ++ m₀.calls)

/-- Where one element contributes one item more, the flattening has it once more. -/
theorem flatMap_perm_cons {α β : Type*} {l : List α} (hl : l.Nodup) {a : α} (ha : a ∈ l)
    {f g : α → List β} {x : β} (hother : ∀ b ∈ l, b ≠ a → g b = f b) (hself : g a = x :: f a) :
    (l.flatMap g).Perm (x :: l.flatMap f) := by
  obtain ⟨front, back, rfl⟩ := List.append_of_mem ha
  rw [List.nodup_middle, List.nodup_cons, List.mem_append, not_or] at hl
  have hfront : front.flatMap g = front.flatMap f := List.flatMap_congr fun b hb =>
    hother b (List.mem_append_left _ hb) fun hba => hl.1.1 (hba ▸ hb)
  have hback : back.flatMap g = back.flatMap f := List.flatMap_congr fun b hb =>
    hother b (List.mem_append_right _ (List.mem_cons_of_mem _ hb)) fun hba => hl.1.2 (hba ▸ hb)
  rw [List.flatMap_append, List.flatMap_cons, List.flatMap_append, List.flatMap_cons, hfront, hback,
    hself, List.cons_append]
  exact List.perm_middle

theorem nodup_zipIdx {α : Type*} (l : List α) : l.zipIdx.Nodup :=
  List.Nodup.of_map Prod.snd (by rw [List.zipIdx_map_snd]; exact List.nodup_range')

namespace Called

theorem advance (h : Called recipe tasks m₀ s) {j : ℕ} {m : Memory K d A frameSize}
    {ph : Phase frameSize} (hm : m.calls = s.memory.calls) (hph : ph.done = (s.phase j).done) :
    Called recipe tasks m₀ (s.advance j m ph) := by
  rw [Called, State.advance_memory, hm]
  simp only [s.advance_phase_congr j m Phase.done hph]
  exact h

/-- Filling a slot calls `placeParticle` if the slot is to be occupied. -/
theorem fillSlot (h : Called recipe tasks m₀ s) {j : ℕ} {task : FrameTask} {p : FramePtr}
    {done : List (Fin frameSize)} {slot : Fin frameSize} (hj : tasks[j]? = some task)
    (hs : s.phase j = .filling p done) :
    Called recipe tasks m₀
      (s.advance j (fillSlot recipe task j p slot s.memory) (.filling p (slot :: done))) := by
  by_cases hslot : slot.val < task.numParticlesToCreate.toNat
  · have hcalls : (CreateParticlesInFrame.fillSlot recipe task j p slot s.memory).calls =
        ⟨recipe.index, task.region, globalParticleIdx task slot⟩ :: s.memory.calls := by
      rw [CreateParticlesInFrame.fillSlot, if_pos hslot]
    rw [Called, State.advance_memory, hcalls]
    refine (h.cons _).trans ?_
    rw [← List.cons_append]
    refine List.Perm.append_right _ (List.Perm.symm ?_)
    refine flatMap_perm_cons (nodup_zipIdx tasks) (List.mk_mem_zipIdx_iff_getElem?.mpr hj)
      (fun x hx hne => ?_) ?_
    · have hx2 : x.2 ≠ j := fun heq => hne (by
        have := List.mem_zipIdx_iff_getElem?.mp hx
        rw [heq, hj] at this
        exact Prod.ext (Option.some.inj this).symm heq)
      rw [State.advance_phase_of_ne _ _ _ _ hx2]
    · rw [State.advance_phase_self, hs, doneCalls, doneCalls, Phase.done, Phase.done,
        List.filter_cons_of_pos (by simpa using hslot), List.map_cons]
  · have hcalls : (CreateParticlesInFrame.fillSlot recipe task j p slot s.memory).calls =
        s.memory.calls := by
      rw [CreateParticlesInFrame.fillSlot, if_neg hslot]
      rfl
    rw [Called, State.advance_memory, hcalls]
    refine h.trans (List.Perm.append_right _ (List.Perm.of_eq ?_))
    refine List.flatMap_congr fun x hx => ?_
    rcases eq_or_ne x.2 j with heq | hne
    · have := List.mem_zipIdx_iff_getElem?.mp hx
      rw [heq, hj] at this
      rw [heq, State.advance_phase_self, hs, ← Option.some.inj this, doneCalls, doneCalls,
        Phase.done, Phase.done, List.filter_cons_of_neg (by simpa using hslot)]
    · rw [State.advance_phase_of_ne _ _ _ _ hne]

theorem step (h : Called recipe tasks m₀ s) (hst : Step recipe tasks s t) :
    Called recipe tasks m₀ t := by
  cases hst with
  | getEmptyNode hj hs hp => exact h.advance rfl (by rw [hs]; rfl)
  | clearNext hj hs => exact h.advance rfl (by rw [hs]; rfl)
  | exchange hj hs => exact h.advance rfl (by rw [hs]; rfl)
  | linkNext hj hs => exact h.advance rfl (by rw [hs]; rfl)
  | linkFirst hj hs => exact h.advance rfl (by rw [hs]; rfl)
  | setLiveParticles hj hs => exact h.advance rfl (by rw [hs]; rfl)
  | fillSlot hj hs hslot => exact h.fillSlot hj hs

end Called

/-! ## Whole runs -/

/-- What holds in every state of a run. -/
structure Inv (recipe : Recipe K d A Species) (tasks : List FrameTask)
    (m₀ : Memory K d A frameSize) (s : State K d A frameSize) : Prop where
  owned : Owned m₀ s
  linked : ∃ order, Linked tasks s order
  filled : Filled tasks m₀ s
  called : Called recipe tasks m₀ s

theorem Inv.step (h : Inv recipe tasks m₀ s) (hst : Step recipe tasks s t) :
    Inv recipe tasks m₀ t := by
  obtain ⟨howned, ⟨order, hlinked⟩, hfilled, hcalled⟩ := h
  exact ⟨howned.step hst, hlinked.step howned hst, hfilled.step howned hlinked hst,
    hcalled.step hst⟩

/-- **Every state of every run.**  The lists to which frames are added start out empty. -/
theorem inv_of_reachable (hempty : ∀ task ∈ tasks, m₀.frameList task.region = {})
    (h : (system recipe tasks m₀).Reachable s) : Inv recipe tasks m₀ s := by
  refine h.invariant (fun s hs => ?_) fun _ _ _ hinv hst => hinv.step hst
  obtain rfl : s = _ := hs
  refine ⟨⟨Finset.Subset.refl _, nofun, nofun⟩, ⟨fun _ => [], fun task htask => ?_, fun r p => ?_,
    nofun, nofun⟩, ⟨fun _ _ => rfl, fun _ => rfl, fun _ => rfl, fun _ _ => rfl, nofun⟩, ?_⟩
  · show AppendList (m₀.frameList task.region).firstNode _ _ _ _
    rw [hempty task htask]
    exact AppendList.nil
  · refine ⟨nofun, ?_⟩
    rintro ⟨j, task, -, -, hp⟩
    cases hp
  · have hnone : tasks.zipIdx.flatMap (fun x => doneCalls recipe x.1 ([] : List (Fin frameSize))) = [] :=
      List.flatMap_eq_nil_iff.mpr fun _ _ => rfl
    show m₀.calls.Perm (_ ++ m₀.calls)
    exact List.Perm.of_eq (congrArg (· ++ m₀.calls) hnone.symm)

/-- **Where a run ends, every block has filled its frame.** -/
theorem phase_of_terminal (ht : (system recipe tasks m₀).Terminal s) {j : ℕ} {task : FrameTask}
    (hj : tasks[j]? = some task) :
    ∃ p done, s.phase j = .filling p done ∧ ∀ slot, slot ∈ done := by
  cases hs : s.phase j with
  | start =>
    obtain ⟨p, hp⟩ := Infinite.exists_notMem_finset s.memory.allocated
    exact absurd (Step.getEmptyNode hj hs hp) (ht _)
  | allocated p => exact absurd (Step.clearNext hj hs) (ht _)
  | cleared p => exact absurd (Step.exchange hj hs) (ht _)
  | exchanged p old =>
    cases old with
    | none => exact absurd (Step.linkFirst hj hs) (ht _)
    | some old => exact absurd (Step.linkNext hj hs) (ht _)
  | appended p => exact absurd (Step.setLiveParticles hj hs) (ht _)
  | filling p done =>
    refine ⟨p, done, rfl, fun slot => ?_⟩
    by_contra hslot
    exact ht _ (Step.fillSlot hj hs hslot)

/-- Every run ends. -/
theorem terminating (hempty : ∀ task ∈ tasks, m₀.frameList task.region = {})
    (h : (system recipe tasks m₀).Reachable s) : (system recipe tasks m₀).Terminating s := by
  refine h.terminating (fun s => ∑ j ∈ Finset.range tasks.length, (s.phase j).actionsLeft)
    fun s t hs hst => ?_
  -- a step changes what is left for one block only
  have hone : ∀ {j : ℕ} {task : FrameTask} {m : Memory K d A frameSize} {ph : Phase frameSize},
      tasks[j]? = some task → ph.actionsLeft < (s.phase j).actionsLeft →
        ∑ i ∈ Finset.range tasks.length, ((s.advance j m ph).phase i).actionsLeft <
          ∑ i ∈ Finset.range tasks.length, (s.phase i).actionsLeft := by
    intro j task m ph hj hlt
    have hmem : j ∈ Finset.range tasks.length :=
      Finset.mem_range.mpr (List.getElem?_eq_some_iff.mp hj).1
    refine Finset.sum_lt_sum (fun i _ => ?_) ⟨j, hmem, ?_⟩
    · rcases eq_or_ne i j with rfl | hne
      · rw [State.advance_phase_self]
        exact hlt.le
      · rw [State.advance_phase_of_ne _ _ _ _ hne]
    · rw [State.advance_phase_self]
      exact hlt
  cases hst with
  | getEmptyNode hj hs hp => exact hone hj (by rw [hs]; exact Nat.lt_succ_self _)
  | clearNext hj hs => exact hone hj (by rw [hs]; exact Nat.lt_succ_self _)
  | exchange hj hs => exact hone hj (by rw [hs]; exact Nat.lt_succ_self _)
  | linkNext hj hs => exact hone hj (by rw [hs]; exact Nat.lt_succ_self _)
  | linkFirst hj hs => exact hone hj (by rw [hs]; exact Nat.lt_succ_self _)
  | setLiveParticles hj hs => exact hone hj (by rw [hs]; exact Nat.lt_succ_self _)
  | @fillSlot j task p done slot hj hphase hslot =>
    have hnodup := ((inv_of_reachable hempty hs).filled.filling j task p done hj hphase).nodup
    have hle := (List.nodup_cons.mpr ⟨hslot, hnodup⟩).length_le_card
    rw [List.length_cons, Fintype.card_fin] at hle
    refine hone hj ?_
    rw [hphase, Phase.actionsLeft, Phase.actionsLeft, List.length_cons]
    omega

end CreateParticlesInFrame

end Particles
end Spearhed
