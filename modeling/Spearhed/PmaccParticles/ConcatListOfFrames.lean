import Spearhed.Communication.Exchange
import Spearhed.Library.StepSystem
import Spearhed.PmaccParticles.ParticlesBox

/-!
# Frame lists as one frame

`ConcatListOfFrames`.  The iterations of its parallel loop go through the frames of a supercell each.  For
every frame, an iteration counts the particles that pass the filters, takes as many places of the
destination from the shared counter, and copies the particles there, with the cell of the domain in place of
the cell of the supercell.  Every access to the counter and every copy is an action of its own.

* `Running.step`: what the iterations keep; `log` are the records in the order of their places.
* `concat_ends`: every run writes every selected particle to one place, and no other place.
-/

namespace Spearhed
namespace PmaccParticles

open Communication Library Mappings

variable {DIM frameSize : ℕ} {B : Type}

/-- A value as an `int`. -/
def toInt (x : ℤ) : ℤ := x.bmod (2 ^ 32)

theorem toInt_eq {x : ℤ} (hle : -2 ^ 31 ≤ x) (hlt : x < 2 ^ 31) : toInt x = x :=
  Int.bmod_eq_of_le (by omega) (by omega)

/-- The attributes of a particle in a supercell, but for the mask. -/
structure Attributes (B : Type) where
  localCellIdx : ℤ
  others : B

/-- A particle of the destination frame. -/
structure Record (DIM : ℕ) (B : Type) where
  domainCellIdx : DataSpace DIM
  others : B

/-- The arguments of `ConcatListOfFrames`, and what the mapper says about supercells. -/
structure ConcatListOfFrames (DIM : ℕ) (B : Type) where
  superCellSize : DataSpace DIM
  guardingSuperCells : DataSpace DIM
  domainOffset : DataSpace DIM
  /-- A filter that was given the position of the supercell. -/
  particleFilter : DataSpace DIM → Attributes B → Bool
  /-- A filter that was given the index of the supercell without the guard. -/
  parFilter : DataSpace DIM → Attributes B → Bool

namespace ConcatListOfFrames

variable (K : ConcatListOfFrames DIM B)

def superCellPosition (superCellIdx : DataSpace DIM) : DataSpace DIM :=
  (superCellIdx - K.guardingSuperCells) * K.superCellSize

/-- The particle exists and passes the filters. -/
def selects (superCellIdx : DataSpace DIM) (parSrc : Slot (Attributes B)) : Bool :=
  decide (parSrc.multiMask = 1) && K.particleFilter (K.superCellPosition superCellIdx) parSrc.attributes &&
    K.parFilter (superCellIdx - K.guardingSuperCells) parSrc.attributes

/-- `localIdxs`: the selected particles of a frame are counted; the other entries are `-1`. -/
def localIdxs (superCellIdx : DataSpace DIM) (slots : Fin frameSize → Slot (Attributes B)) (particleIdx : Fin frameSize) : ℤ :=
  if K.selects superCellIdx (slots particleIdx) then
    ((List.finRange frameSize).take particleIdx).countP fun i => K.selects superCellIdx (slots i)
  else -1

def curNumParticles (superCellIdx : DataSpace DIM) (slots : Fin frameSize → Slot (Attributes B)) : ℕ :=
  (List.finRange frameSize).countP fun i => K.selects superCellIdx (slots i)

/-- What is written for a particle. -/
def record (superCellIdx : DataSpace DIM) (parSrc : Attributes B) : Record DIM B :=
  ⟨K.domainOffset + K.superCellPosition superCellIdx + mapToND K.superCellSize parSrc.localCellIdx, parSrc.others⟩

/-- Where an iteration of the loop is. -/
inductive Pc
  /-- At the head of the loop over the frames. -/
  | frame (srcFramePtr : Option FramePtr)
  /-- In the loop over the slots of a frame, before some slot. -/
  | copy (srcFramePtr : FramePtr) (globalOffset : ℤ) (particleIdx : ℕ)

structure State (DIM : ℕ) (B : Type) where
  counter : ℤ
  destFrame : ℤ → Record DIM B
  pc : DataSpace DIM → Pc

variable (box : ParticlesBox DIM frameSize (Attributes B)) (c : DataSpace DIM)

/-- The next action of the iteration for a supercell.  The counter is an `int`. -/
inductive Step : State DIM B → State DIM B → Prop
  | count {s : State DIM B} {p : FramePtr} (hpc : s.pc c = .frame (some p)) :
      Step s { s with
        counter := toInt (s.counter + K.curNumParticles c (box.frames p).slots)
        pc := Function.update s.pc c (.copy p s.counter 0) }
  | write {s : State DIM B} {p : FramePtr} {globalOffset : ℤ} {particleIdx : Fin frameSize}
      (hpc : s.pc c = .copy p globalOffset particleIdx)
      (hidx : K.localIdxs c (box.frames p).slots particleIdx ≠ -1) :
      Step s { s with
        destFrame := Function.update s.destFrame (globalOffset + K.localIdxs c (box.frames p).slots particleIdx)
          (K.record c ((box.frames p).slots particleIdx).attributes)
        pc := Function.update s.pc c (.copy p globalOffset (particleIdx + 1)) }
  | skip {s : State DIM B} {p : FramePtr} {globalOffset : ℤ} {particleIdx : Fin frameSize}
      (hpc : s.pc c = .copy p globalOffset particleIdx)
      (hidx : K.localIdxs c (box.frames p).slots particleIdx = -1) :
      Step s { s with pc := Function.update s.pc c (.copy p globalOffset (particleIdx + 1)) }
  | next {s : State DIM B} {p : FramePtr} {globalOffset : ℤ} (hpc : s.pc c = .copy p globalOffset frameSize) :
      Step s { s with pc := Function.update s.pc c (.frame (box.getNextFrame p)) }

/-- The loop over these supercells. -/
def system (blocks : Finset (DataSpace DIM)) (s₀ : State DIM B) : StepSystem (State DIM B) where
  init s := s = s₀
  step s t := ∃ c ∈ blocks, K.Step box c s t

/-- Before the loop. -/
def start (counter : ℤ) (destFrame : ℤ → Record DIM B) : State DIM B :=
  ⟨counter, destFrame, fun c => .frame (box.getFirstFrame c)⟩

/-! ## The particles that are selected -/

/-- The selected particles of a frame, as they are written. -/
def selected (slots : Fin frameSize → Slot (Attributes B)) : List (Record DIM B) :=
  ((List.finRange frameSize).filter fun i => K.selects c (slots i)).map fun i => K.record c (slots i).attributes

/-- The selected particles of some frames of a supercell. -/
def selectedOf (l : List FramePtr) : List (Record DIM B) := l.flatMap fun p => K.selected c (box.frames p).slots

section Selected

variable {K c} {slots : Fin frameSize → Slot (Attributes B)} {i : Fin frameSize}

theorem length_selected : (K.selected c slots).length = K.curNumParticles c slots := by
  rw [selected, List.length_map, curNumParticles, List.countP_eq_length_filter]

theorem localIdxs_ne : K.localIdxs c slots i ≠ -1 ↔ K.selects c (slots i) = true := by
  rw [localIdxs]
  split
  · next h => exact iff_of_true (by omega) h
  · next h => exact iff_of_false (not_not.mpr rfl) h

/-- An element that a filter keeps stands behind those in front of it that it keeps. -/
theorem getElem?_filter_countP {α : Type} (l : List α) (p : α → Bool) {i : ℕ} (hi : i < l.length) (hp : p l[i] = true) :
    (l.filter p)[(l.take i).countP p]? = some l[i] := by
  have hsplit : l.take i ++ l[i] :: l.drop (i + 1) = l := by
    rw [← List.drop_eq_getElem_cons hi, List.take_append_drop]
  have hfilter : l.filter p = (l.take i).filter p ++ l[i] :: (l.drop (i + 1)).filter p := by
    rw [← List.filter_cons_of_pos hp, ← List.filter_append, hsplit]
  rw [hfilter, List.countP_eq_length_filter, List.getElem?_append_right le_rfl, Nat.sub_self]
  rfl

/-- **The number of a selected particle** is its position among the selected ones. -/
theorem selected_localIdxs (h : K.localIdxs c slots i ≠ -1) :
    ∃ k : ℕ, K.localIdxs c slots i = k ∧ (K.selected c slots)[k]? = some (K.record c (slots i).attributes) := by
  have hsel := localIdxs_ne.mp h
  have hi : (i : ℕ) < (List.finRange frameSize).length := by rw [List.length_finRange]; exact i.isLt
  have hget : (List.finRange frameSize)[(i : ℕ)] = i := by rw [List.getElem_finRange]; rfl
  refine ⟨_, if_pos hsel, ?_⟩
  rw [selected, List.getElem?_map, getElem?_filter_countP _ _ hi (by rw [hget]; exact hsel), hget]
  rfl

end Selected

/-! ## Whole runs -/

section Runs

/-- Where an iteration is in the list of its supercell, with the frames that it has not counted. -/
inductive At (l : List FramePtr) (start : ℤ) (log : List (Record DIM B)) : Pc → List FramePtr → Prop
  | frame {counted rest : List FramePtr} (hl : l = counted ++ rest) : At l start log (.frame rest.head?) rest
  | copy {counted rest : List FramePtr} {p : FramePtr} {m i : ℕ} (hl : l = counted ++ p :: rest) (hi : i ≤ frameSize)
      (hplaces : ∀ k r, (K.selected c (box.frames p).slots)[k]? = some r → log[m + k]? = some r) :
      At l start log (.copy p (start + m) i) rest

/-- An iteration has yet to copy a particle to this place. -/
def Owed (s : State DIM B) (start : ℤ) (k : ℕ) : Prop :=
  ∃ p globalOffset i, s.pc c = .copy p globalOffset i ∧ ∃ j : Fin frameSize, i ≤ j ∧
    K.localIdxs c (box.frames p).slots j ≠ -1 ∧ start + k = globalOffset + K.localIdxs c (box.frames p).slots j

/-- What holds while the iterations run, with the records in the order of their places. -/
structure Running (blocks : Finset (DataSpace DIM)) (L : DataSpace DIM → List FramePtr) (s₀ s : State DIM B)
    (log : List (Record DIM B)) (rest : DataSpace DIM → List FramePtr) : Prop where
  counter : s.counter = s₀.counter + log.length
  records : (log : Multiset (Record DIM B)) + ∑ c ∈ blocks, (K.selectedOf box c (rest c) : Multiset (Record DIM B)) =
    ∑ c ∈ blocks, (K.selectedOf box c (L c) : Multiset (Record DIM B))
  place : ∀ c ∈ blocks, K.At box c (L c) s₀.counter log (s.pc c) (rest c)
  memory : ∀ k < log.length, log[k]? = some (s.destFrame (s₀.counter + k)) ∨ ∃ c ∈ blocks, K.Owed box c s s₀.counter k
  others : ∀ x, x < s₀.counter ∨ s₀.counter + log.length ≤ x → s.destFrame x = s₀.destFrame x

/-- How many actions an iteration has left. -/
def left (frameSize : ℕ) (rest : List FramePtr) : Pc → ℕ
  | .frame _ => rest.length * (frameSize + 2)
  | .copy _ _ i => rest.length * (frameSize + 2) + (frameSize - i) + 1

variable {K box c} {blocks : Finset (DataSpace DIM)} {L rest : DataSpace DIM → List FramePtr} {s₀ s t : State DIM B}
  {log : List (Record DIM B)}

theorem getElem?_append_of_some {α : Type} {l : List α} {k : ℕ} {a : α} (h : l[k]? = some a) (l' : List α) :
    (l ++ l')[k]? = some a := by
  rw [List.getElem?_append_left (List.getElem?_eq_some_iff.mp h).1, h]

/-- The places of an iteration stay what they are when others are added. -/
theorem At.append {l r : List FramePtr} {start : ℤ} {pc : Pc} (h : K.At box c l start log pc r) (new : List (Record DIM B)) :
    K.At box c l start (log ++ new) pc r := by
  cases h with
  | frame hl => exact At.frame hl
  | copy hl hi hplaces => exact At.copy hl hi fun k r hk => getElem?_append_of_some (hplaces k r hk) new

theorem At.of_copy {l r : List FramePtr} {start : ℤ} {p : FramePtr} {globalOffset : ℤ} {i : ℕ}
    (h : K.At box c l start log (.copy p globalOffset i) r) : ∃ counted, l = counted ++ p :: r := by
  generalize hpc : Pc.copy p globalOffset i = pc at h
  cases h with
  | frame hl => cases hpc
  | @copy counted _ p' _ _ hl =>
    obtain ⟨rfl, -, -⟩ := Pc.copy.inj hpc
    exact ⟨counted, hl⟩

/-- What is owed by an iteration that has not moved. -/
theorem Owed.congr {k : ℕ} (h : K.Owed box c s s₀.counter k) (hpc : t.pc c = s.pc c) : K.Owed box c t s₀.counter k := by
  obtain ⟨p, globalOffset, i, hc, hj⟩ := h
  exact ⟨p, globalOffset, i, hpc.trans hc, hj⟩

/-- An iteration that has moved over a slot owes what it owed, but for the place of that slot. -/
theorem Owed.move {k : ℕ} {p : FramePtr} {globalOffset : ℤ} {i : Fin frameSize} (h : K.Owed box c s s₀.counter k)
    (hpc : s.pc c = .copy p globalOffset i) (hpc' : t.pc c = .copy p globalOffset (i + 1)) :
    K.Owed box c t s₀.counter k ∨ K.localIdxs c (box.frames p).slots i ≠ -1 ∧
      s₀.counter + k = globalOffset + K.localIdxs c (box.frames p).slots i := by
  obtain ⟨p', globalOffset', i', hc, j, hj, hidx, hplace⟩ := h
  obtain ⟨rfl, rfl, rfl⟩ := Pc.copy.inj (hpc.symm.trans hc)
  rcases eq_or_lt_of_le hj with heq | hlt
  · obtain rfl : i = j := Fin.ext heq
    exact Or.inr ⟨hidx, hplace⟩
  · exact Or.inl ⟨p, globalOffset, i + 1, hpc', j, hlt, hidx, hplace⟩

/-- A filter keeps as many elements as there are numbers for them. -/
theorem exists_countP_eq {α : Type} {p : α → Bool} {l : List α} {k : ℕ} (hk : k < l.countP p) :
    ∃ i, ∃ hi : i < l.length, p l[i] = true ∧ (l.take i).countP p = k := by
  induction l generalizing k with
  | nil => exact absurd hk (Nat.not_lt_zero k)
  | cons a l ih =>
    by_cases ha : p a = true
    · rw [List.countP_cons_of_pos ha] at hk
      cases k with
      | zero => exact ⟨0, Nat.zero_lt_succ _, ha, rfl⟩
      | succ k =>
        obtain ⟨i, hi, hp, hcount⟩ := ih (Nat.lt_of_succ_lt_succ hk)
        exact ⟨i + 1, Nat.succ_lt_succ hi, hp, by rw [List.take_succ_cons, List.countP_cons_of_pos ha, hcount]⟩
    · rw [List.countP_cons_of_neg ha] at hk
      obtain ⟨i, hi, hp, hcount⟩ := ih hk
      exact ⟨i + 1, Nat.succ_lt_succ hi, hp, by rw [List.take_succ_cons, List.countP_cons_of_neg ha, hcount]⟩

/-- Every place that is taken for a frame has a particle. -/
theorem exists_localIdxs {slots : Fin frameSize → Slot (Attributes B)} {k : ℕ} (hk : k < (K.selected c slots).length) :
    ∃ j, K.localIdxs c slots j = k := by
  rw [length_selected] at hk
  obtain ⟨i, hi, hp, hcount⟩ := exists_countP_eq hk
  rw [List.getElem_finRange] at hp
  have hi' : i < frameSize := by rwa [List.length_finRange] at hi
  have hp' : K.selects c (slots ⟨i, hi'⟩) = true := hp
  exact ⟨⟨i, hi'⟩, by rw [localIdxs, if_pos hp']; exact congrArg Nat.cast hcount⟩

/-- The number of records of all of the frames. -/
def total (K : ConcatListOfFrames DIM B) (box : ParticlesBox DIM frameSize (Attributes B)) (blocks : Finset (DataSpace DIM))
    (L : DataSpace DIM → List FramePtr) : ℕ :=
  ∑ c ∈ blocks, (K.selectedOf box c (L c)).length

namespace Running

theorem length_le (h : K.Running box blocks L s₀ s log rest) (hc : c ∈ blocks) :
    log.length + (K.selectedOf box c (rest c)).length ≤ K.total box blocks L := by
  have hcard := congrArg Multiset.card h.records
  rw [Multiset.card_add, Multiset.card_sum, Multiset.card_sum, Multiset.coe_card] at hcard
  simp only [Multiset.coe_card] at hcard
  rw [total, ← hcard]
  exact Nat.add_le_add_left (Finset.single_le_sum (f := fun c => (K.selectedOf box c (rest c)).length)
    (fun _ _ => Nat.zero_le _) hc) _

/-- **An iteration takes places.** -/
theorem count (h : K.Running box blocks L s₀ s log rest) (hc : c ∈ blocks) {p : FramePtr} (hpc : s.pc c = .frame (some p))
    (hmin : -2 ^ 31 ≤ s₀.counter) (hmax : s₀.counter + K.total box blocks L < 2 ^ 31) :
    ∃ l, rest c = p :: l ∧ K.Running box blocks L s₀
      { s with
        counter := toInt (s.counter + K.curNumParticles c (box.frames p).slots)
        pc := Function.update s.pc c (.copy p s.counter 0) }
      (log ++ K.selected c (box.frames p).slots) (Function.update rest c l) := by
  have hplace := h.place c hc
  rw [hpc] at hplace
  generalize hrest : rest c = r at hplace
  generalize hptr : some p = ptr at hplace
  cases hplace with
  | @frame counted r hl =>
    obtain ⟨l, rfl⟩ := List.head?_eq_some_iff.mp hptr.symm
    have hsel : K.selectedOf box c (p :: l) = K.selected c (box.frames p).slots ++ K.selectedOf box c l := List.flatMap_cons
    have hle := h.length_le hc
    rw [hrest, hsel, List.length_append, length_selected] at hle
    refine ⟨l, rfl, ?_, ?_, fun d hd => ?_, fun k hk => ?_, fun x hx => ?_⟩
    · dsimp only
      rw [h.counter, toInt_eq (by omega) (by omega), List.length_append, length_selected]
      push_cast
      omega
    · have hother : ∀ d ∈ blocks.erase c, (K.selectedOf box d (Function.update rest c l d) : Multiset (Record DIM B)) =
          K.selectedOf box d (rest d) := fun d hd => by
        rw [Function.update_of_ne (Finset.ne_of_mem_erase hd)]
      rw [← h.records, ← Finset.add_sum_erase blocks _ hc, ← Finset.add_sum_erase blocks _ hc, Finset.sum_congr rfl hother,
        Function.update_self, hrest, hsel, ← Multiset.coe_add, ← Multiset.coe_add]
      abel
    · rcases eq_or_ne d c with rfl | hne
      · dsimp only
        rw [Function.update_self, Function.update_self, h.counter]
        refine At.copy hl (Nat.zero_le _) fun k r hk => ?_
        rw [List.getElem?_append_right (Nat.le_add_right _ _), Nat.add_sub_cancel_left, hk]
      · dsimp only
        rw [Function.update_of_ne hne, Function.update_of_ne hne]
        exact (h.place d hd).append _
    · rcases Nat.lt_or_ge k log.length with hlt | hge
      · rcases h.memory k hlt with hdone | ⟨d, hd, howed⟩
        · exact Or.inl (getElem?_append_of_some hdone _)
        · have hne : d ≠ c := fun heq => by
            obtain ⟨p', o, i, hcopy, -⟩ := howed
            rw [heq, hpc] at hcopy
            cases hcopy
          exact Or.inr ⟨d, hd, howed.congr (Function.update_of_ne hne _ _)⟩
      · rw [List.length_append] at hk
        have hnew : k - log.length < (K.selected c (box.frames p).slots).length := by omega
        obtain ⟨j, hj⟩ := exists_localIdxs hnew
        refine Or.inr ⟨c, hc, p, s.counter, 0, Function.update_self .., j, Nat.zero_le _, by omega, ?_⟩
        rw [hj, h.counter]
        omega
    · rw [List.length_append] at hx
      exact h.others x (by push_cast at hx; omega)

/-- **An iteration moves over a slot**, after it has copied the particle if there is one. -/
theorem move (h : K.Running box blocks L s₀ s log rest) (hc : c ∈ blocks) {p : FramePtr} {globalOffset : ℤ} {i : Fin frameSize}
    (hpc : s.pc c = .copy p globalOffset i) {destFrame : ℤ → Record DIM B}
    (hdest : (K.localIdxs c (box.frames p).slots i = -1 ∧ destFrame = s.destFrame) ∨
      (K.localIdxs c (box.frames p).slots i ≠ -1 ∧
        destFrame = Function.update s.destFrame (globalOffset + K.localIdxs c (box.frames p).slots i)
          (K.record c ((box.frames p).slots i).attributes))) :
    K.Running box blocks L s₀
      { s with destFrame := destFrame, pc := Function.update s.pc c (.copy p globalOffset (i + 1)) } log rest := by
  have hplace := h.place c hc
  rw [hpc] at hplace
  generalize hrest : rest c = r at hplace
  generalize ho : globalOffset = o at hplace
  cases hplace with
  | @copy counted r p m _ hl hi hplaces =>
    subst ho
    -- the place of the slot, if it has one
    have hat : K.localIdxs c (box.frames p).slots i ≠ -1 → ∃ k < log.length,
        s₀.counter + m + K.localIdxs c (box.frames p).slots i = s₀.counter + (k : ℕ) ∧
          log[k]? = some (K.record c ((box.frames p).slots i).attributes) := by
      intro hidx
      obtain ⟨k, hk, hsel⟩ := selected_localIdxs hidx
      have hlog := hplaces k _ hsel
      exact ⟨m + k, (List.getElem?_eq_some_iff.mp hlog).1, by rw [hk]; push_cast; omega, hlog⟩
    refine ⟨h.counter, h.records, fun d hd => ?_, fun k hk => ?_, fun x hx => ?_⟩
    · rcases eq_or_ne d c with rfl | hne
      · dsimp only
        rw [Function.update_self, hrest]
        exact At.copy hl i.isLt hplaces
      · dsimp only
        rw [Function.update_of_ne hne]
        exact h.place d hd
    · have hmoved : ∀ d ∈ blocks, K.Owed box d s s₀.counter k → log[k]? = some (destFrame (s₀.counter + k)) ∨
          ∃ d ∈ blocks, K.Owed box d { s with destFrame := destFrame, pc := Function.update s.pc c (.copy p (s₀.counter + m) (i + 1)) }
            s₀.counter k := by
        intro d hd howed
        rcases eq_or_ne d c with rfl | hne
        · rcases howed.move (t := { s with destFrame := destFrame, pc := Function.update s.pc d (.copy p (s₀.counter + m) (i + 1)) })
            hpc (Function.update_self ..) with howed' | ⟨hidx, hk'⟩
          · exact Or.inr ⟨d, hd, howed'⟩
          · obtain ⟨k', -, hk'', hlog⟩ := hat hidx
            obtain rfl : k = k' := by omega
            rcases hdest with ⟨hnone, -⟩ | ⟨-, rfl⟩
            · exact absurd hnone hidx
            · rw [hk', Function.update_self]
              exact Or.inl hlog
        · exact Or.inr ⟨d, hd, howed.congr (Function.update_of_ne hne _ _)⟩
      rcases h.memory k hk with hdone | ⟨d, hd, howed⟩
      · rcases hdest with ⟨-, rfl⟩ | ⟨hidx, rfl⟩
        · exact Or.inl hdone
        · refine Or.inl ?_
          obtain ⟨k', -, hk', hlog⟩ := hat hidx
          dsimp only
          rcases eq_or_ne k k' with rfl | hne
          · rw [hk', Function.update_self]
            exact hlog
          · rw [hk', Function.update_of_ne (by omega)]
            exact hdone
      · exact hmoved d hd howed
    · rcases hdest with ⟨-, rfl⟩ | ⟨hidx, rfl⟩
      · exact h.others x hx
      · obtain ⟨k, hk, hk', -⟩ := hat hidx
        dsimp only
        rw [hk', Function.update_of_ne (by omega)]
        exact h.others x hx

/-- **An iteration goes on to the next frame.** -/
theorem next (h : K.Running box blocks L s₀ s log rest) (hbox : box.Holds L) (hc : c ∈ blocks) {p : FramePtr} {globalOffset : ℤ}
    (hpc : s.pc c = .copy p globalOffset frameSize) :
    K.Running box blocks L s₀ { s with pc := Function.update s.pc c (.frame (box.getNextFrame p)) } log rest := by
  refine ⟨h.counter, h.records, fun d hd => ?_, fun k hk => ?_, h.others⟩
  · rcases eq_or_ne d c with rfl | hne
    · have hplace := h.place d hd
      rw [hpc] at hplace
      dsimp only
      rw [Function.update_self]
      obtain ⟨counted, hl⟩ := hplace.of_copy
      rw [hbox.getNextFrame hl]
      have hl' : L d = counted ++ [p] ++ rest d := by rw [hl, List.append_assoc, List.singleton_append]
      exact At.frame hl'
    · dsimp only
      rw [Function.update_of_ne hne]
      exact h.place d hd
  · refine (h.memory k hk).imp_right ?_
    rintro ⟨d, hd, howed⟩
    have hne : d ≠ c := fun heq => by
      obtain ⟨p', o, i, hcopy, j, hj, -⟩ := howed
      rw [heq, hpc] at hcopy
      obtain ⟨-, -, rfl⟩ := Pc.copy.inj hcopy
      exact absurd hj (not_le.mpr j.isLt)
    exact ⟨d, hd, howed.congr (Function.update_of_ne hne _ _)⟩

end Running

/-- The actions that the iterations have left. -/
def leftOf (blocks : Finset (DataSpace DIM)) (frameSize : ℕ) (s : State DIM B) (rest : DataSpace DIM → List FramePtr) : ℕ :=
  ∑ c ∈ blocks, left frameSize (rest c) (s.pc c)

theorem leftOf_lt {rest' : DataSpace DIM → List FramePtr} (hc : c ∈ blocks) (hpc : ∀ d, d ≠ c → t.pc d = s.pc d)
    (hrest : ∀ d, d ≠ c → rest' d = rest d) (hlt : left frameSize (rest' c) (t.pc c) < left frameSize (rest c) (s.pc c)) :
    leftOf blocks frameSize t rest' < leftOf blocks frameSize s rest := by
  refine Finset.sum_lt_sum (fun d _ => ?_) ⟨c, hc, hlt⟩
  rcases eq_or_ne d c with rfl | hne
  · exact hlt.le
  · rw [hpc d hne, hrest d hne]

/-- **Every action keeps what the loop has achieved**, and leaves less to do. -/
theorem Running.step (h : K.Running box blocks L s₀ s log rest) (hbox : box.Holds L) (hmin : -2 ^ 31 ≤ s₀.counter)
    (hmax : s₀.counter + K.total box blocks L < 2 ^ 31) (hst : (K.system box blocks s₀).step s t) :
    ∃ log' rest', K.Running box blocks L s₀ t log' rest' ∧ leftOf blocks frameSize t rest' < leftOf blocks frameSize s rest := by
  obtain ⟨c, hc, hstep⟩ := hst
  cases hstep with
  | @count p hpc =>
    obtain ⟨l, hl, hrunning⟩ := h.count hc hpc hmin hmax
    refine ⟨_, _, hrunning, leftOf_lt hc (fun d hd => Function.update_of_ne hd _ _) (fun d hd => Function.update_of_ne hd _ _) ?_⟩
    dsimp only
    rw [Function.update_self, Function.update_self, hpc, hl, left, left, List.length_cons, Nat.succ_mul]
    omega
  | @write p globalOffset i hpc hidx =>
    refine ⟨_, _, h.move hc hpc (Or.inr ⟨hidx, rfl⟩), leftOf_lt hc (fun d hd => Function.update_of_ne hd _ _) (fun _ _ => rfl) ?_⟩
    have hi := i.isLt
    dsimp only
    rw [Function.update_self, hpc, left, left]
    omega
  | @skip p globalOffset i hpc hidx =>
    refine ⟨_, _, h.move hc hpc (Or.inl ⟨hidx, rfl⟩), leftOf_lt hc (fun d hd => Function.update_of_ne hd _ _) (fun _ _ => rfl) ?_⟩
    have hi := i.isLt
    dsimp only
    rw [Function.update_self, hpc, left, left]
    omega
  | @next p globalOffset hpc =>
    refine ⟨_, _, h.next hbox hc hpc, leftOf_lt hc (fun d hd => Function.update_of_ne hd _ _) (fun _ _ => rfl) ?_⟩
    dsimp only
    rw [Function.update_self, hpc, left, left]
    omega

/-- An iteration that is not over can go on. -/
theorem Running.terminal (h : K.Running box blocks L s₀ s log rest) (hterminal : (K.system box blocks s₀).Terminal s)
    (hc : c ∈ blocks) : s.pc c = .frame none ∧ rest c = [] := by
  have hplace := h.place c hc
  generalize hpc : s.pc c = pc at hplace
  generalize hrest : rest c = r at hplace
  cases hplace with
  | @frame counted r hl =>
    rcases r with _ | ⟨p, r⟩
    · exact ⟨rfl, rfl⟩
    · exact absurd ⟨c, hc, Step.count hpc⟩ (hterminal _)
  | @copy counted r p m i hl hi hplaces =>
    rcases eq_or_lt_of_le hi with rfl | hlt
    · exact absurd ⟨c, hc, Step.next hpc⟩ (hterminal _)
    · by_cases hidx : K.localIdxs c (box.frames p).slots ⟨i, hlt⟩ = -1
      · exact absurd ⟨c, hc, @Step.skip _ _ _ K box c s p _ ⟨i, hlt⟩ hpc hidx⟩ (hterminal _)
      · exact absurd ⟨c, hc, @Step.write _ _ _ K box c s p _ ⟨i, hlt⟩ hpc hidx⟩ (hterminal _)

end Runs

/-- **Every run of the loop ends**, and writes every selected particle of the area once.  The places are
those from the counter on, and the counter is behind them when the loop is over; no other place of the
destination is written to. -/
theorem concat_ends (K : ConcatListOfFrames DIM B) {box : ParticlesBox DIM frameSize (Attributes B)}
    {L : DataSpace DIM → List FramePtr} (hbox : box.Holds L) (blocks : Finset (DataSpace DIM)) {counter : ℤ}
    (hmin : -2 ^ 31 ≤ counter) (hmax : counter + K.total box blocks L < 2 ^ 31) (destFrame : ℤ → Record DIM B) :
    (K.system box blocks (start box counter destFrame)).Ends (start box counter destFrame) fun s =>
      ∃ log : List (Record DIM B),
        (log : Multiset (Record DIM B)) = ∑ c ∈ blocks, (K.selectedOf box c (L c) : Multiset (Record DIM B)) ∧
        s.counter = counter + log.length ∧ (∀ (k : ℕ) r, log[k]? = some r → s.destFrame (counter + k) = r) ∧
        ∀ x, x < counter ∨ counter + log.length ≤ x → s.destFrame x = destFrame x := by
  refine StepSystem.ends_of_variant (I := fun s n => ∃ log rest,
      K.Running box blocks L (start box counter destFrame) s log rest ∧ n = leftOf blocks frameSize s rest)
    ?_ ?_ (n := leftOf blocks frameSize (start box counter destFrame) L) ⟨[], L, ?_, rfl⟩
  · rintro s n ⟨log, rest, h, rfl⟩ t hst
    obtain ⟨log', rest', h', hlt⟩ := h.step hbox hmin hmax hst
    exact ⟨_, hlt, log', rest', h', rfl⟩
  · rintro s n ⟨log, rest, h, -⟩ hterminal
    refine ⟨log, ?_, h.counter, fun k r hk => ?_, h.others⟩
    · rw [← h.records, Finset.sum_eq_zero fun c hc => ?_, add_zero]
      rw [(h.terminal hterminal hc).2]
      rfl
    · rcases h.memory k (List.getElem?_eq_some_iff.mp hk).1 with hdone | ⟨c, hc, p, o, i, hcopy, -⟩
      · exact Option.some.inj (hdone.symm.trans hk)
      · rw [(h.terminal hterminal hc).1] at hcopy
        cases hcopy
  · refine ⟨(add_zero counter).symm, zero_add _, fun c _ => ?_, fun k hk => absurd hk (Nat.not_lt_zero k), fun _ _ => rfl⟩
    show K.At box c (L c) counter [] (.frame (box.getFirstFrame c)) (L c)
    rw [hbox.getFirstFrame]
    exact At.frame (List.nil_append (L c)).symm

end ConcatListOfFrames
end PmaccParticles
end Spearhed
