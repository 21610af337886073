import Spearhed.Library.AppendList

/-!
# Doubly linked lists

The nodes of a doubly linked list carry a pointer to the next and one to the previous node, and two
pointers lead to the ends of the list.  `LinkedList` says what all of these pointers are when the
nodes are given in order.

* `Walk.nodup`, `Walk.join`: a list that is only linked forward is acyclic, and two are joined by one
  store.
* `Walk.translate`: the image of a list under a translation of its pointers.
* `LinkedList.forward`, `LinkedList.backward`: a walk from either end visits the nodes.
* `LinkedList.congr`: only the pointers of the list's own nodes matter.
* `LinkedList.dropLast`, `LinkedList.concat`: removing the last node and appending one.
* `LinkedList.appendList`: a list that participants may begin to append to.
* `LinkedList.of_appendList`: the list left when every participant that exchanged one end of it has
  stored both of its pointers.
-/

namespace Spearhed
namespace Library

variable {ν : Type*}

/-! ## Walks and stores -/

namespace Walk

variable {next : ν → Option ν} {start start' : Option ν} {l l' : List ν} {a : ν}

/-- Where a walk that visits a node can be taken up again. -/
theorem of_append (h : Walk next start (l ++ l')) : ∃ middle, Walk next middle l' := by
  induction l generalizing start with
  | nil => exact ⟨start, h⟩
  | cons b l ih => exact ih h.2

/-- **A walk that ends does not come back.** -/
theorem nodup (h : Walk next start l) : l.Nodup := by
  induction l generalizing start with
  | nil => exact List.nodup_nil
  | cons b l ih =>
    refine List.nodup_cons.mpr ⟨fun hmem => ?_, ih h.2⟩
    obtain ⟨front, back, rfl⟩ := List.append_of_mem hmem
    -- the rest of the walk would be as long as the walk
    obtain ⟨middle, hmiddle⟩ := of_append h.2
    have hsame : (b :: (front ++ b :: back)) = b :: back := Walk.unique ⟨rfl, h.2⟩ ⟨rfl, hmiddle.2⟩
    have hlength := congrArg List.length hsame
    simp only [List.length_cons, List.length_append] at hlength
    omega

/-- **A translated list.**  Where the pointers read at the images of the nodes are the translated
pointers of the nodes, and null stays null, a walk visits the images in the same order. -/
theorem translate {μ : Type*} {t : Option ν → Option μ} {f : ν → μ} {next' : μ → Option μ}
    (h : Walk next start l) (hnull : t none = none) (hnode : ∀ a ∈ l, t (some a) = some (f a))
    (hnext : ∀ a ∈ l, next' (f a) = t (next a)) : Walk next' (t start) (l.map f) := by
  induction l generalizing start with
  | nil =>
    obtain rfl : start = none := h
    exact hnull
  | cons a l ih =>
    obtain ⟨rfl, hrest⟩ := h
    refine ⟨hnode a List.mem_cons_self, ?_⟩
    rw [hnext a List.mem_cons_self]
    exact ih hrest (fun b hb => hnode b (List.mem_cons_of_mem a hb)) fun b hb =>
      hnext b (List.mem_cons_of_mem a hb)

/-- A store to another node does not matter. -/
theorem update [DecidableEq ν] (h : Walk next start l) (ha : a ∉ l) (target : Option ν) :
    Walk (Function.update next a target) start l :=
  h.congr fun b hb => Function.update_of_ne (fun hba : b = a => ha (hba ▸ hb)) _ _

/-- **Two lists are joined** by a store to the last node of the first. -/
theorem join [DecidableEq ν] (h : Walk next start l) (h' : Walk next start' l') (ha : a ∈ l.getLast?)
    (hdisjoint : l.Disjoint l') : Walk (Function.update next a start') start (l ++ l') := by
  induction l generalizing start with
  | nil => cases ha
  | cons b l ih =>
    obtain ⟨hstart, hnext⟩ := h
    have hdisjoint' := List.disjoint_cons_left.mp hdisjoint
    refine ⟨hstart, ?_⟩
    rcases List.eq_nil_or_concat' l with rfl | ⟨l, c, rfl⟩
    · obtain rfl : b = a := Option.some.inj ha
      rw [Function.update_self]
      exact h'.update hdisjoint'.1 _
    · have hlast : a ∈ (l ++ [c]).getLast? := by
        rw [List.getLast?_cons, List.getLast?_concat] at ha
        rwa [List.getLast?_concat]
      have hmem : a ∈ l ++ [c] := List.mem_of_getLast? hlast
      have hne : b ≠ a := by
        rintro rfl
        exact (List.nodup_cons.mp (nodup ⟨hstart, hnext⟩)).1 hmem
      rw [Function.update_of_ne hne]
      exact ih hnext hlast hdisjoint'.2

end Walk

/-- The pointers of a doubly linked list with these nodes. -/
structure LinkedList (first last : Option ν) (next prev : ν → Option ν) (l : List ν) : Prop where
  nodup : l.Nodup
  first : first = l.head?
  last : last = l.getLast?
  next : ∀ front a back, l = front ++ a :: back → next a = back.head?
  prev : ∀ front a back, l = front ++ a :: back → prev a = front.getLast?

namespace LinkedList

variable {first last : Option ν} {next prev next' prev' : ν → Option ν} {l : List ν} {a : ν}

/-- The list without nodes. -/
theorem nil : LinkedList none none next prev ([] : List ν) :=
  ⟨List.nodup_nil, rfl, rfl, fun front a back h => by simp at h, fun front a back h => by simp at h⟩

/-- The same list from its other end. -/
theorem symm (h : LinkedList first last next prev l) : LinkedList last first prev next l.reverse := by
  refine ⟨List.nodup_reverse.mpr h.nodup, ?_, ?_, fun front a back hl => ?_, fun front a back hl => ?_⟩
  · rw [List.head?_reverse, h.last]
  · rw [List.getLast?_reverse, h.first]
  · have hl' : l = back.reverse ++ a :: front.reverse := by
      rw [← List.reverse_reverse l, hl]
      simp
    rw [h.prev _ _ _ hl', List.getLast?_reverse]
  · have hl' : l = back.reverse ++ a :: front.reverse := by
      rw [← List.reverse_reverse l, hl]
      simp
    rw [h.next _ _ _ hl', List.head?_reverse]

/-- What happens to other nodes does not matter. -/
theorem congr (h : LinkedList first last next prev l) (hnext : ∀ b ∈ l, next' b = next b)
    (hprev : ∀ b ∈ l, prev' b = prev b) : LinkedList first last next' prev' l := by
  refine ⟨h.nodup, h.first, h.last, fun front a back hl => ?_, fun front a back hl => ?_⟩
  · rw [hnext a (by simp [hl]), h.next front a back hl]
  · rw [hprev a (by simp [hl]), h.prev front a back hl]

/-- **A walk along the list visits its nodes.** -/
theorem forward (h : LinkedList first last next prev l) : Walk next first l := by
  suffices hsuffix : ∀ front back, l = front ++ back → Walk next back.head? back by
    rw [h.first]
    exact hsuffix [] l rfl
  intro front back
  induction back generalizing front with
  | nil => exact fun _ => rfl
  | cons a back ih =>
    intro hl
    refine ⟨rfl, ?_⟩
    rw [h.next front a back hl]
    exact ih (front ++ [a]) (by simp [hl])

/-- And so does one from its end. -/
theorem backward (h : LinkedList first last next prev l) : Walk prev last l.reverse := h.symm.forward

/-- The pointers determine the nodes. -/
theorem unique {l' : List ν} (h : LinkedList first last next prev l) (h' : LinkedList first last next prev l') : l = l' :=
  h.forward.unique h'.forward

theorem getLast?_append_cons_concat (front : List ν) (b : ν) (init : List ν) (z : ν) :
    (front ++ b :: (init ++ [z])).getLast? = some z := by
  rw [← List.cons_append, ← List.append_assoc, List.getLast?_concat]

/-- **Removing the last node**: the node before it is the end now. -/
theorem dropLast [DecidableEq ν] (h : LinkedList first last next prev (l ++ [a])) {first' : Option ν}
    (hfirst : first' = if l = [] then none else first)
    (hnext : ∀ b ∈ l, next' b = if l.getLast? = some b then none else next b)
    (hprev : ∀ b ∈ l, prev' b = prev b) : LinkedList first' l.getLast? next' prev' l := by
  have hnodup := (List.nodup_append.mp h.nodup).1
  refine ⟨hnodup, ?_, rfl, fun front b back hl => ?_, fun front b back hl => ?_⟩
  · rw [hfirst, h.first]
    cases l with
    | nil => rfl
    | cons b l => rfl
  · rw [hnext b (by simp [hl])]
    rcases List.eq_nil_or_concat' back with rfl | ⟨init, z, rfl⟩
    · rw [if_pos (by simp [hl])]
      rfl
    · have hne : ¬ l.getLast? = some b := by
        intro hlast
        rw [hl, List.nodup_middle, List.nodup_cons] at hnodup
        obtain rfl : z = b := by
          rw [hl, getLast?_append_cons_concat] at hlast
          exact Option.some.inj hlast
        exact hnodup.1 (by simp)
      rw [if_neg hne, h.next front b (init ++ [z] ++ [a]) (by simp [hl])]
      simp
  · rw [hprev b (by simp [hl])]
    exact h.prev front b (back ++ [a]) (by simp [hl])

/-- **Appending a node**: it becomes the successor of the last one. -/
theorem concat [DecidableEq ν] (h : LinkedList first last next prev l) (ha : a ∉ l)
    {first' last' : Option ν} (hfirst : first' = if l = [] then some a else first) (hlast : last' = some a) (hnexta : next' a = none) (hpreva : prev' a = last)
    (hnext : ∀ b ∈ l, next' b = if l.getLast? = some b then some a else next b)
    (hprev : ∀ b ∈ l, prev' b = prev b) : LinkedList first' last' next' prev' (l ++ [a]) := by
  have hnodup : (l ++ [a]).Nodup := by
    rw [List.nodup_append]
    exact ⟨h.nodup, List.nodup_singleton a, fun b hb c hc hbc => ha (by
      rw [← List.mem_singleton.mp hc, ← hbc]
      exact hb)⟩
  refine ⟨hnodup, ?_, by simp [hlast], fun front b back hl => ?_, fun front b back hl => ?_⟩
  · rw [hfirst, h.first]
    cases l with
    | nil => rfl
    | cons b l => rfl
  · -- what follows the split is the new node, or something before it
    rcases List.eq_nil_or_concat' back with rfl | ⟨init, z, rfl⟩
    · obtain ⟨-, hb⟩ := List.append_inj' hl rfl
      obtain rfl := (List.cons.inj hb).1
      exact hnexta
    · have hl' : l ++ [a] = (front ++ b :: init) ++ [z] := by simpa using hl
      obtain ⟨hl'', hz⟩ := List.append_inj' hl' rfl
      obtain rfl := (List.cons.inj hz).1
      rw [hnext b (by simp [hl''])]
      rcases List.eq_nil_or_concat' init with rfl | ⟨init, y, rfl⟩
      · rw [if_pos (by simp [hl''])]
        rfl
      · have hne : ¬ l.getLast? = some b := by
          intro hlast
          have hnd := h.nodup
          rw [hl'', List.nodup_middle, List.nodup_cons] at hnd
          obtain rfl : y = b := by
            rw [hl'', getLast?_append_cons_concat] at hlast
            exact Option.some.inj hlast
          exact hnd.1 (by simp)
        rw [if_neg hne, h.next front b (init ++ [y]) hl'']
        simp
  · rcases List.eq_nil_or_concat' back with rfl | ⟨init, z, rfl⟩
    · obtain ⟨hfront, hb⟩ := List.append_inj' hl rfl
      obtain rfl := (List.cons.inj hb).1
      rw [hpreva, h.last, hfront]
    · have hl' : l ++ [a] = (front ++ b :: init) ++ [z] := by simpa using hl
      obtain ⟨hl'', -⟩ := List.append_inj' hl' rfl
      rw [hprev b (by simp [hl''])]
      exact h.prev front b init hl''

/-- **A list to append to.**  Nothing is pending in it. -/
theorem appendList (h : LinkedList first last next prev l) {pending : Set ν} (hpending : ∀ b ∈ l, b ∉ pending) :
    AppendList first last next pending l := by
  refine ⟨h.nodup, h.last, ?_, fun front b back hl => ?_⟩
  · rw [h.first]
    exact PointsTo.stored fun b hb => hpending b (List.mem_of_head? hb)
  · rw [h.next front b back hl]
    refine PointsTo.stored fun z hz => hpending z ?_
    rw [hl]
    exact List.mem_append_right front (List.mem_cons_of_mem b (List.mem_of_head? hz))

theorem follows (h : LinkedList first last next prev l) (ha : a ∈ l) : Follows l a (prev a) := by
  obtain ⟨front, back, hl⟩ := List.append_of_mem ha
  exact ⟨front, back, hl, h.prev front a back hl⟩

/-- **The list that racing appends leave.**  Once no node is pending, and every node points back to
the one it found at the end, the order of the exchanges is a doubly linked list. -/
theorem of_appendList {pending : Set ν} (h : AppendList first last next pending l) (hpending : ∀ b ∈ l, b ∉ pending)
    (hprev : ∀ b ∈ l, Follows l b (prev b)) : LinkedList first last next prev l := by
  refine ⟨h.nodup, h.firstNode.eq_of_not_mem fun b hb => hpending b (List.mem_of_head? hb), h.lastNode,
    fun front b back hl => ?_, fun front b back hl => ?_⟩
  · refine (h.next front b back hl).eq_of_not_mem fun z hz => hpending z ?_
    rw [hl]
    exact List.mem_append_right front (List.mem_cons_of_mem b (List.mem_of_head? hz))
  · obtain ⟨front', back', hl', hold⟩ := hprev b (by simp [hl])
    have hnodup := h.nodup
    rw [hl, List.nodup_middle, List.nodup_cons, List.mem_append, not_or] at hnodup
    obtain ⟨rfl, -, -⟩ := (List.append_cons_inj_of_notMem hnodup.1.1 hnodup.1.2).mp (hl.symm.trans hl')
    exact hold

end LinkedList

end Library
end Spearhed
