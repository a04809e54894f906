import OsProgramming.Library.Memory
import Mathlib.Data.List.Nodup

/-! A singly linked queue in a heap of cells. An address is an index of the heap and
a cell once allocated stays, so a new cell has a fresh address. The queue has a
pointer to its first cell and one to its last; the segments of the heap say which
values hang on a pointer. -/

namespace OsProgramming.Library

structure Cell (α : Type*) where
  value : α
  next : Option ℕ

structure LinkedQueue (α : Type*) where
  heap : List (Cell α)
  head : Option ℕ
  tail : Option ℕ

namespace LinkedQueue

universe u
variable {α : Type u}

def empty : LinkedQueue α := ⟨[], none, none⟩

/-- The cell behind a pointer that is not `NULL`. -/
def deref (heap : List (Cell α)) (a : ℕ) : Result (Cell α) :=
  match heap[a]? with
  | some cell => .ok cell
  | none => .error .outOfBounds

/-- Allocate a cell and hang it behind the last one. -/
def enqueue (q : LinkedQueue α) (value : α) : Result (LinkedQueue α) :=
  let node := q.heap.length
  let heap := q.heap ++ [⟨value, none⟩]
  match q.head, q.tail with
  | none, _ => .ok ⟨heap, some node, some node⟩
  | some _, none => .error .outOfBounds
  | some _, some last => do
    let cell ← deref heap last
    .ok ⟨heap.set last { cell with next := some node }, q.head, some node⟩

/-- Forget all cells. -/
def clear (q : LinkedQueue α) : LinkedQueue α := { q with head := none, tail := none }

/-! ### Segments -/

/-- Following the cells from a pointer passes `nodes`, addresses with their values,
and arrives at `last`. -/
def Segment (heap : List (Cell α)) : Option ℕ → List (ℕ × α) → Option ℕ → Prop
  | first, [], last => first = last
  | first, (a, x) :: nodes, last =>
    first = some a ∧ ∃ next, heap[a]? = some ⟨x, next⟩ ∧ Segment heap next nodes last

theorem segment_append {heap : List (Cell α)} {first last : Option ℕ} {xs ys : List (ℕ × α)} :
    Segment heap first (xs ++ ys) last ↔
      ∃ middle, Segment heap first xs middle ∧ Segment heap middle ys last := by
  induction xs generalizing first with
  | nil => simp [Segment]
  | cons node xs ih =>
    obtain ⟨a, x⟩ := node
    simp only [List.cons_append, Segment, ih]
    constructor
    · rintro ⟨hfirst, next, hcell, middle, hxs, hys⟩
      exact ⟨middle, ⟨hfirst, next, hcell, hxs⟩, hys⟩
    · rintro ⟨middle, ⟨hfirst, next, hcell, hxs⟩, hys⟩
      exact ⟨hfirst, next, hcell, middle, hxs, hys⟩

/-- Only the cells that it passes matter to a segment. -/
theorem Segment.congr {heap heap' : List (Cell α)} {first last : Option ℕ} {nodes : List (ℕ × α)}
    (h : Segment heap first nodes last)
    (hheap : ∀ a ∈ nodes.map Prod.fst, heap'[a]? = heap[a]?) : Segment heap' first nodes last := by
  induction nodes generalizing first with
  | nil => exact h
  | cons node nodes ih =>
    obtain ⟨a, x⟩ := node
    obtain ⟨hfirst, next, hcell, hrest⟩ := h
    refine ⟨hfirst, next, ?_, ih hrest fun b hb => hheap b (List.mem_cons_of_mem _ hb)⟩
    rw [hheap a List.mem_cons_self, hcell]

theorem Segment.lt_length {heap : List (Cell α)} {first last : Option ℕ} {nodes : List (ℕ × α)}
    (h : Segment heap first nodes last) : ∀ a ∈ nodes.map Prod.fst, a < heap.length := by
  induction nodes generalizing first with
  | nil => simp
  | cons node nodes ih =>
    obtain ⟨a, x⟩ := node
    obtain ⟨-, next, hcell, hrest⟩ := h
    intro b hb
    rcases List.mem_cons.mp hb with rfl | hb
    · exact (List.getElem?_eq_some_iff.mp hcell).1
    · exact ih hrest b hb

/-- A segment that ends in `NULL` and does not start there has a first cell. -/
theorem Segment.of_some {heap : List (Cell α)} {a : ℕ} {nodes : List (ℕ × α)}
    (h : Segment heap (some a) nodes none) :
    ∃ x next rest, nodes = (a, x) :: rest ∧ deref heap a = .ok ⟨x, next⟩ ∧
      Segment heap next rest none := by
  match nodes with
  | [] => cases h
  | (b, x) :: rest =>
    obtain ⟨hfirst, next, hcell, hrest⟩ := h
    cases hfirst
    exact ⟨x, next, rest, rfl, by simp [deref, hcell], hrest⟩

theorem Segment.of_none {heap : List (Cell α)} {nodes : List (ℕ × α)}
    (h : Segment heap none nodes none) : nodes = [] := by
  match nodes with
  | [] => rfl
  | (b, x) :: rest => cases h.1

/-! ### Queues -/

/-- The queue is one list of distinct cells, from its first to its last. -/
structure Represents (q : LinkedQueue α) (nodes : List (ℕ × α)) : Prop where
  segment : Segment q.heap q.head nodes none
  tail_eq : q.tail = (nodes.map Prod.fst).getLast?
  nodup : (nodes.map Prod.fst).Nodup

theorem represents_empty : (empty : LinkedQueue α).Represents [] := ⟨rfl, rfl, List.nodup_nil⟩

theorem represents_clear (q : LinkedQueue α) : q.clear.Represents [] := ⟨rfl, rfl, List.nodup_nil⟩

/-- The queue is empty exactly when both of its pointers are `NULL`. -/
theorem Represents.eq_nil_iff {q : LinkedQueue α} {nodes : List (ℕ × α)} (h : q.Represents nodes) :
    (q.head = none ↔ nodes = []) ∧ (q.tail = none ↔ nodes = []) := by
  refine ⟨⟨?_, ?_⟩, ?_⟩
  · intro hhead
    exact Segment.of_none (hhead ▸ h.segment)
  · intro hnil
    have hseg := h.segment
    rw [hnil] at hseg
    exact hseg
  · rw [h.tail_eq]
    simp

/-- A cell that is hung behind the last one is the last of the queue. -/
theorem enqueue_represents {q : LinkedQueue α} {nodes : List (ℕ × α)} (h : q.Represents nodes)
    (x : α) : ∃ q', q.enqueue x = .ok q' ∧ q'.Represents (nodes ++ [(q.heap.length, x)]) := by
  have hlt := h.segment.lt_length
  have hfresh : (nodes ++ [(q.heap.length, x)]).map Prod.fst =
      nodes.map Prod.fst ++ [q.heap.length] := by simp
  have hnodup : ((nodes ++ [(q.heap.length, x)]).map Prod.fst).Nodup := by
    rw [hfresh, List.nodup_append]
    refine ⟨h.nodup, List.nodup_singleton _, ?_⟩
    intro a ha b hb
    rw [List.mem_singleton.mp hb]
    exact (hlt a ha).ne
  rcases nodes.eq_nil_or_concat with rfl | ⟨init, ⟨last, y⟩, rfl⟩
  · -- the first cell of an empty queue
    have hhead : q.head = none := h.segment
    refine ⟨⟨q.heap ++ [⟨x, none⟩], some q.heap.length, some q.heap.length⟩, ?_, ?_, rfl, hnodup⟩
    · simp only [enqueue, hhead]
    · exact ⟨rfl, none, by simp, rfl⟩
  · -- the last cell gets a successor
    rw [List.concat_eq_append] at h hlt hfresh hnodup ⊢
    obtain ⟨middle, hinit, hmiddle, next, hcell, hnext⟩ := segment_append.mp h.segment
    have hnone : next = none := hnext
    subst hnone hmiddle
    have hlast : last < q.heap.length := hlt last (by simp)
    have htail : q.tail = some last := by rw [h.tail_eq]; simp
    obtain ⟨a, hhead⟩ : ∃ a, q.head = some a := by
      cases hq : q.head with
      | some a => exact ⟨a, rfl⟩
      | none =>
        have hnil := h.eq_nil_iff.1.mp hq
        simp at hnil
    have hderef : deref (q.heap ++ [⟨x, none⟩]) last = .ok ⟨y, none⟩ := by
      simp [deref, List.getElem?_append_left hlast, hcell]
    set heap' := (q.heap ++ [Cell.mk x none]).set last ⟨y, some q.heap.length⟩ with hheap'
    have hsame : ∀ a, a < q.heap.length → a ≠ last → heap'[a]? = q.heap[a]? := by
      intro a ha hne
      rw [hheap', List.getElem?_set_ne (Ne.symm hne), List.getElem?_append_left ha]
    refine ⟨⟨heap', q.head, some q.heap.length⟩, ?_, ?_, by simp, hnodup⟩
    · simp only [enqueue, hhead, htail, hderef, ok_bind, hheap']
    · rw [List.append_assoc]
      refine segment_append.mpr ⟨some last, hinit.congr ?_, rfl, some q.heap.length, ?_,
        rfl, none, ?_, rfl⟩
      · intro b hb
        apply hsame b (hlt b (by simp [hb]))
        rintro rfl
        have hd := h.nodup
        simp only [List.map_append, List.map_cons, List.map_nil] at hd
        exact (List.nodup_append.mp hd).2.2 b hb b (by simp) rfl
      · rw [hheap', List.getElem?_set_self (by simp; omega)]
      · rw [hheap', List.getElem?_set_ne (by omega)]
        simp

end LinkedQueue

end OsProgramming.Library
