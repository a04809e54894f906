import Mathlib.Data.List.TakeDrop
import Mathlib.Tactic.Linarith

/-! Machine integers and memory blocks of a C program. A computation of the
program is a `Result`: a value, or the way in which the program left its defined
behaviour or ended. A block is the list of its cells, so its length is the
allocated length, and every access is checked against it. -/

namespace OsProgramming.Library

/-- How a C program stops being described by its source, or ends. -/
inductive Fault where
  /-- an access outside an allocated block -/
  | outOfBounds
  /-- a pointer used at a type that it does not point to -/
  | badCast
  /-- a failed `assert` -/
  | assertFailed
  /-- `exit` with a failure status -/
  | exitFailure
  /-- a loop that never ends -/
  | divergence
  deriving DecidableEq, Repr

abbrev Result (α : Type*) := Except Fault α

section Results

universe u
variable {α β : Type u}

@[simp] theorem ok_bind (x : α) (f : α → Result β) : ((Except.ok x : Result α) >>= f) = f x := (rfl)

@[simp] theorem error_bind (e : Fault) (f : α → Result β) :
    ((Except.error e : Result α) >>= f) = .error e := (rfl)

@[simp] theorem pure_ok (x : α) : (pure x : Result α) = .ok x := (rfl)

/-- A sequence of two computations returns exactly when both do. -/
theorem bind_eq_ok {m : Result α} {f : α → Result β} {y : β} :
    m >>= f = .ok y ↔ ∃ x, m = .ok x ∧ f x = .ok y := by
  cases m with
  | error e => simp
  | ok x => simp

theorem bind_eq_error {m : Result α} {f : α → Result β} {e : Fault} :
    m >>= f = .error e ↔ m = .error e ∨ ∃ x, m = .ok x ∧ f x = .error e := by
  cases m with
  | error e' => simp
  | ok x => simp

/-- For a computation that is evaluated. -/
theorem exists_ok_of_any {m : Result α} {p : α → Prop} [DecidablePred p]
    (h : m.toOption.any (fun x => decide (p x)) = true) : ∃ x, m = .ok x ∧ p x := by
  cases m with
  | error e => cases h
  | ok x => exact ⟨x, rfl, of_decide_eq_true h⟩

end Results

/-! ### Integers -/

def intMax : ℤ := 2147483647

/-- The largest object an allocator hands out. -/
def ptrdiffMax : ℕ := 9223372036854775807

/-- The value of a 32-bit two's complement `int` expression. -/
def wrapInt (x : ℤ) : ℤ := Int.bmod x 4294967296

/-- The conversion of an `int` to the 64-bit `size_t`. -/
def toSizeT (x : ℤ) : ℕ := (x % 18446744073709551616).toNat

theorem wrapInt_of_le {x : ℤ} (h0 : 0 ≤ x) (h : x ≤ intMax) : wrapInt x = x := by
  unfold wrapInt
  unfold intMax at h
  exact Int.bmod_eq_of_le (by omega) (by omega)

theorem wrapInt_succ {n : ℕ} (h : (n : ℤ) < intMax) : wrapInt (n + 1) = ((n + 1 : ℕ) : ℤ) := by
  rw [wrapInt_of_le (by omega) (by omega)]
  push_cast
  rfl

theorem toSizeT_natCast {n : ℕ} (h : (n : ℤ) ≤ intMax) : toSizeT n = n := by
  unfold toSizeT
  unfold intMax at h
  omega

theorem wrapInt_of_lt {x : ℤ} (h : intMax < x) (h2 : x ≤ 2 * intMax) :
    wrapInt x = x - 4294967296 := by
  unfold intMax at h h2
  rw [wrapInt, Int.bmod_def]
  split_ifs <;> omega

/-- A sum of two nonnegative `int`s that overflows converts to a `size_t` that
no allocator serves. -/
theorem lt_toSizeT_wrapInt {x : ℤ} (h : intMax < x) (h2 : x ≤ 2 * intMax) :
    ptrdiffMax < toSizeT (wrapInt x) := by
  rw [wrapInt_of_lt h h2]
  unfold intMax at h h2
  unfold ptrdiffMax toSizeT
  omega

theorem wrapInt_bounds (x : ℤ) : -2147483648 ≤ wrapInt x ∧ wrapInt x ≤ intMax := by
  rw [wrapInt, Int.bmod_def]
  unfold intMax
  split_ifs <;> omega

/-- A wrapped sum is at most the sum. -/
theorem wrapInt_le {x : ℤ} (h : 0 ≤ x) : wrapInt x ≤ x := by
  rw [wrapInt, Int.bmod_def]
  split_ifs <;> omega

/-- A wrapped sum that does not come out negative below `2 ^ 32` has not wrapped. -/
theorem wrapInt_of_nonneg {x : ℤ} (h0 : 0 ≤ x) (h : x < 4294967296) (hw : 0 ≤ wrapInt x) :
    wrapInt x = x := by
  rw [wrapInt, Int.bmod_def] at hw ⊢
  split_ifs at hw ⊢ <;> omega

/-- A request that an allocator may serve is the `int` that was converted. -/
theorem natCast_toSizeT_wrapInt {x : ℤ} (h : toSizeT (wrapInt x) ≤ ptrdiffMax) :
    ((toSizeT (wrapInt x) : ℕ) : ℤ) = wrapInt x := by
  have := wrapInt_bounds x
  unfold toSizeT ptrdiffMax at *
  unfold intMax at this
  omega

/-- A byte count that is computed as an `int` is the true one only if it is an `int`. -/
theorem toSizeT_wrapInt_eq_iff {x : ℤ} (h0 : 0 ≤ x) (h : x ≤ ptrdiffMax) :
    ((toSizeT (wrapInt x) : ℕ) : ℤ) = x ↔ x ≤ intMax := by
  constructor
  · intro heq
    have hserved : toSizeT (wrapInt x) ≤ ptrdiffMax := by omega
    rw [← heq, natCast_toSizeT_wrapInt hserved]
    exact (wrapInt_bounds x).2
  · intro hle
    obtain ⟨n, rfl⟩ := Int.eq_ofNat_of_zero_le h0
    rw [wrapInt_of_le h0 hle, toSizeT_natCast hle]

/-! ### Blocks -/

section Blocks

variable {α : Type*}

def load (block : List α) (i : ℤ) : Result α :=
  if 0 ≤ i then
    match block[i.toNat]? with
    | some x => .ok x
    | none => .error .outOfBounds
  else .error .outOfBounds

/-- The `n` cells of a block from index `i` on, as `memcpy` reads them. -/
def fetch (block : List α) (i n : ℤ) : Result (List α) :=
  if 0 ≤ i ∧ 0 ≤ n ∧ i + n ≤ block.length then .ok ((block.drop i.toNat).take n.toNat)
  else .error .outOfBounds

/-- Overwrite the cells of a block from index `i` on. -/
def store (block : List α) (i : ℤ) (xs : List α) : Result (List α) :=
  if 0 ≤ i ∧ i + xs.length ≤ block.length then
    .ok (block.take i.toNat ++ xs ++ block.drop (i.toNat + xs.length))
  else .error .outOfBounds

/-- The answer of the allocator to one call: `NULL`, or the bytes it leaves in
the cells that hold nothing yet. -/
abbrev Alloc (α : Type*) := Option (ℕ → α)

/-- `malloc`: `NULL` is the empty block, no access to which is in bounds. -/
def malloc (request : ℕ) (answer : Alloc α) : List α :=
  match answer with
  | some fill => (List.range request).map fill
  | none => []

/-- `realloc`: a request beyond `ptrdiffMax` is refused whatever the answer. -/
def realloc (block : List α) (request : ℕ) (answer : Alloc α) : Option (List α) :=
  if request ≤ ptrdiffMax then
    answer.map fun fill =>
      block.take request ++ (List.range (request - block.length)).map fill
  else none

/-- `realloc` for a block of cells of `size` bytes each; the request is in bytes. -/
def reallocCells (size : ℕ) (block : List α) (request : ℕ) (answer : Alloc α) : Option (List α) :=
  if request ≤ ptrdiffMax then
    answer.map fun fill =>
      block.take (request / size) ++ (List.range (request / size - block.length)).map fill
  else none

/-- Move `n` cells from index `src + i` to index `i`, one at a time and upwards. -/
def copyForward (src : ℤ) : ℕ → ℤ → List α → Result (List α)
  | 0, _, block => .ok block
  | n + 1, i, block => do
    let x ← load block (src + i)
    let block ← store block i [x]
    copyForward src n (i + 1) block

theorem load_natCast (block : List α) {i : ℕ} (h : i < block.length) :
    load block i = .ok block[i] := by
  simp [load, List.getElem?_eq_getElem h]

theorem load_of_length_le {block : List α} {i : ℕ} (h : block.length ≤ i) :
    load block i = .error .outOfBounds := by
  simp [load, List.getElem?_eq_none h]

theorem lt_length_of_load {block : List α} {i : ℤ} {x : α} (h : load block i = .ok x) :
    i.toNat < block.length := by
  unfold load at h
  split_ifs at h
  split at h
  · exact (List.getElem?_eq_some_iff.mp ‹_›).1
  · cases h

theorem getElem?_of_load {block : List α} {i : ℕ} {x : α} (h : load block i = .ok x) :
    block[i]? = some x := by
  have hlt := lt_length_of_load h
  rw [Int.toNat_natCast] at hlt
  rw [load_natCast block hlt] at h
  cases h
  exact List.getElem?_eq_getElem hlt

theorem fetch_natCast (block : List α) {i n : ℕ} (h : i + n ≤ block.length) :
    fetch block i n = .ok ((block.drop i).take n) := by
  have h' : (i : ℤ) + n ≤ block.length := by omega
  simp [fetch, h']

theorem store_natCast (block : List α) {xs : List α} {i : ℕ} (h : i + xs.length ≤ block.length) :
    store block i xs = .ok (block.take i ++ xs ++ block.drop (i + xs.length)) := by
  have h' : (i : ℤ) + xs.length ≤ block.length := by omega
  simp [store, h']

theorem store_one (block : List α) {i : ℕ} (h : i < block.length) (x : α) :
    store block i [x] = .ok (block.set i x) := by
  have hfit : i + [x].length ≤ block.length := h
  rw [store_natCast block hfit, List.set_eq_take_append_cons_drop, if_pos h]
  simp

theorem take_succ_set {block : List α} {i : ℕ} (h : i < block.length) (x : α) :
    (block.set i x).take (i + 1) = block.take i ++ [x] := by
  have hset : i < (block.set i x).length := by rwa [List.length_set]
  rw [List.take_succ_eq_append_getElem hset, List.take_set_of_le le_rfl, List.getElem_set_self]

theorem length_stored {block : List α} {i : ℕ} (xs : List α) (h : i + xs.length ≤ block.length) :
    (block.take i ++ xs ++ block.drop (i + xs.length)).length = block.length := by
  simp only [List.length_append, List.length_take, List.length_drop]
  omega

/-- What has been stored, and the cells behind it. -/
theorem take_stored {block : List α} {i : ℕ} (xs : List α) (h : i + xs.length ≤ block.length) :
    (block.take i ++ xs ++ block.drop (i + xs.length)).take (i + xs.length) =
      block.take i ++ xs := by
  have hlen : (block.take i ++ xs).length = i + xs.length := by
    rw [List.length_append, List.length_take]
    omega
  rw [← hlen, List.take_left]

theorem drop_stored {block : List α} {i : ℕ} (xs : List α) (h : i + xs.length ≤ block.length)
    (j : ℕ) :
    (block.take i ++ xs ++ block.drop (i + xs.length)).drop (i + xs.length + j) =
      block.drop (i + xs.length + j) := by
  have hlen : (block.take i ++ xs).length = i + xs.length := by
    rw [List.length_append, List.length_take]
    omega
  rw [← List.drop_drop, ← hlen, List.drop_left, hlen, List.drop_drop]

theorem store_of_length_lt {block xs : List α} {i : ℕ} (h : block.length < i + xs.length) :
    store block i xs = .error .outOfBounds := by
  have h' : ¬ (i : ℤ) + xs.length ≤ block.length := by omega
  simp [store, h']

theorem store_error {block xs : List α} {i : ℤ} {e : Fault} (h : store block i xs = .error e) :
    e = .outOfBounds := by
  unfold store at h
  split_ifs at h
  cases h
  rfl

theorem store_nil (i : ℤ) (x : α) : store [] i [x] = .error .outOfBounds := by
  rw [store, if_neg]
  rw [List.length_nil, List.length_singleton]
  omega

@[simp] theorem length_malloc (request : ℕ) (fill : ℕ → α) :
    (malloc request (some fill)).length = request := by
  simp [malloc]

/-- A served request that does not shrink the block keeps all of its cells. -/
theorem realloc_grow {block : List α} {n : ℕ} (fill : ℕ → α)
    (h : block.length + n ≤ ptrdiffMax) :
    realloc block (block.length + n) (some fill) = some (block ++ (List.range n).map fill) := by
  simp [realloc, h, List.take_of_length_le]

theorem realloc_of_lt {block : List α} {request : ℕ} (answer : Alloc α)
    (h : ptrdiffMax < request) : realloc block request answer = none := by
  simp [realloc, Nat.not_le.mpr h]

theorem length_reallocCells {size request : ℕ} {block cells : List α} {answer : Alloc α}
    (h : reallocCells size block request answer = some cells) :
    cells.length = request / size ∧ request ≤ ptrdiffMax := by
  unfold reallocCells at h
  split_ifs at h with hmax
  obtain ⟨fill, -, rfl⟩ := Option.map_eq_some_iff.mp h
  refine ⟨?_, hmax⟩
  simp only [List.length_append, List.length_take, List.length_map, List.length_range]
  omega

/-- A served request for at least the cells of the block keeps them all. -/
theorem take_reallocCells {size request : ℕ} {block cells : List α} {answer : Alloc α}
    (h : reallocCells size block request answer = some cells)
    (hle : block.length ≤ request / size) :
    cells.take block.length = block := by
  unfold reallocCells at h
  split_ifs at h with hmax
  obtain ⟨fill, -, rfl⟩ := Option.map_eq_some_iff.mp h
  rw [List.take_of_length_le hle, List.take_left]

theorem length_store {block block' xs : List α} {i : ℤ} (h : store block i xs = .ok block') :
    block'.length = block.length := by
  unfold store at h
  split_ifs at h with hbound
  cases h
  simp only [List.length_append, List.length_take, List.length_drop]
  omega

/-- The upward move over overlapping ranges: a cell is read before the move
reaches it, so the moved cells are the original ones. -/
theorem copyForward_natCast (src : ℕ) (n i : ℕ) (block : List α)
    (h : src + i + n ≤ block.length) :
    copyForward src n i block =
      .ok (block.take i ++ (block.drop (src + i)).take n ++ block.drop (i + n)) := by
  induction n generalizing i block with
  | zero => simp [copyForward]
  | succ n ih =>
    have hload : load block ((src : ℤ) + i) = .ok block[src + i] := by
      rw [← load_natCast block (by omega)]; push_cast; rfl
    have hi : i < block.length := by omega
    simp only [copyForward, hload, store_one block hi, ok_bind]
    rw [show (i : ℤ) + 1 = ((i + 1 : ℕ) : ℤ) by push_cast; rfl,
      ih (i + 1) _ (by rw [List.length_set]; omega)]
    congr 1
    -- the cells already moved, the cell of this step, and the untouched rest
    rw [take_succ_set hi, show src + (i + 1) = i + 1 + src by omega,
      List.drop_set_of_lt (by omega), List.drop_set_of_lt (by omega),
      List.drop_eq_getElem_cons (show src + i < block.length by omega), List.take_succ_cons,
      show src + i + 1 = i + 1 + src by omega, show i + (n + 1) = i + 1 + n by omega]
    simp

end Blocks

end OsProgramming.Library
