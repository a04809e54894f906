import Mathlib.Data.List.Range
import Mathlib.Logic.Function.Basic

/-! The descriptors of a process. The kernel gives out the lowest number that is free. A function
that returns as soon as a call fails is a computation in `Except`, and its error is what that
call has left: the descriptors, and its number in `errno`. -/

namespace OsProgramming.Library

/-! ### The lowest free descriptor -/

section Tables

variable {F : Type*} {limit fd : ℕ} {descriptors : ℕ → Option F}

/-- The descriptor that the kernel gives out, below the limit of the process. -/
def lowestFree (limit : ℕ) (descriptors : ℕ → Option F) : Option ℕ :=
  (List.range limit).find? fun fd => (descriptors fd).isNone

theorem lowestFree_eq_some_iff : lowestFree limit descriptors = some fd ↔
    descriptors fd = none ∧ fd < limit ∧ ∀ other, other < fd → descriptors other ≠ none := by
  simp [lowestFree, List.find?_range_eq_some, Option.isSome_iff_ne_none]

theorem lowestFree_free (h : lowestFree limit descriptors = some fd) : descriptors fd = none :=
  (lowestFree_eq_some_iff.mp h).1

theorem lowestFree_zero (hfree : descriptors 0 = none) (hlimit : 0 < limit) :
    lowestFree limit descriptors = some 0 :=
  lowestFree_eq_some_iff.mpr ⟨hfree, hlimit, fun _ hlt => absurd hlt (Nat.not_lt_zero _)⟩

theorem eq_zero_of_lowestFree (hfree : descriptors 0 = none)
    (h : lowestFree limit descriptors = some fd) : fd = 0 := by
  by_contra hne
  exact (lowestFree_eq_some_iff.mp h).2.2 0 (Nat.pos_of_ne_zero hne) hfree

/-- What has been opened and closed again is as it was before. -/
theorem update_lowestFree (h : lowestFree limit descriptors = some fd) (file : F) :
    Function.update (Function.update descriptors fd (some file)) fd none = descriptors := by
  rw [Function.update_idem, ← lowestFree_free h, Function.update_eq_self]

/-- `close` of all descriptors below a bound. -/
def closeBelow (descriptors : ℕ → Option F) (bound : ℕ) : ℕ → Option F :=
  (List.range bound).foldl (fun left fd => Function.update left fd none) descriptors

theorem closeBelow_apply (descriptors : ℕ → Option F) (bound fd : ℕ) :
    closeBelow descriptors bound fd = if fd < bound then none else descriptors fd := by
  induction bound with
  | zero => simp [closeBelow]
  | succ bound ih =>
    have hstep : closeBelow descriptors (bound + 1) =
        Function.update (closeBelow descriptors bound) bound none := by
      simp [closeBelow, List.range_succ]
    rw [hstep, Function.update_apply, ih]
    split_ifs <;> first | rfl | omega

end Tables

/-! ### Calls -/

structure Files (F : Type) where
  limit : ℕ
  descriptors : ℕ → Option F
  errno : ℕ

def ebadf : ℕ := 9

def emfile : ℕ := 24

namespace Files

variable {F α β : Type}

/-- A call that changes no descriptor. -/
def call (p : Files F) (result : Except ℕ α) : Except (Files F) α :=
  result.mapError fun errno => { p with errno }

@[simp] theorem call_ok (p : Files F) (x : α) : p.call (.ok x) = .ok x := rfl

@[simp] theorem call_error (p : Files F) (errno : ℕ) :
    p.call (.error errno : Except ℕ α) = .error { p with errno } := rfl

/-- A call that returns a new descriptor. -/
def new (p : Files F) (result : Except ℕ F) : Except (Files F) (ℕ × Files F) :=
  match result, lowestFree p.limit p.descriptors with
  | .error errno, _ => .error { p with errno }
  | .ok _, none => .error { p with errno := emfile }
  | .ok file, some fd =>
    .ok (fd, { p with descriptors := Function.update p.descriptors fd (some file) })

/-- `close` frees the descriptor, and may still leave a number in `errno`. -/
def close (p : Files F) (fd : ℕ) (closing : Option ℕ) : Files F :=
  { p with descriptors := Function.update p.descriptors fd none, errno := closing.getD p.errno }

/-- A call after whose failure the caller closes a descriptor, without the loss of `errno`. -/
def callOrClose (p : Files F) (result : Except ℕ α) (fd : ℕ) (closing : Option ℕ) :
    Except (Files F) α :=
  result.mapError fun errno => { p.close fd closing with errno }

def dup2 (p : Files F) (oldfd newfd : ℕ) : Except (Files F) (Files F) :=
  match p.descriptors oldfd with
  | none => .error { p with errno := ebadf }
  | some file =>
    if newfd < p.limit then
      .ok { p with descriptors := Function.update p.descriptors newfd (some file) }
    else .error { p with errno := ebadf }

end Files

/-! ### Functions that return as soon as a call fails -/

section Functions

variable {F α β : Type} {p : Files F} {left : (ℕ → Option F) → Prop} {failures failures' : List (Option ℕ)}
  {m : Except (Files F) α} {f : α → Except (Files F) β} {post post' : α → Prop} {post₂ : β → Prop}

/-- The number of a call that has failed. -/
def failure : Except ℕ α → Option ℕ
  | .ok _ => none
  | .error errno => some errno

@[simp] theorem failure_ok (x : α) : failure (.ok x) = none := rfl

@[simp] theorem failure_error (errno : ℕ) : failure (.error errno : Except ℕ α) = some errno := rfl

@[simp] theorem failure_map (f : α → β) (result : Except ℕ α) :
    failure (result.map f) = failure result := by
  cases result <;> rfl

/-- A call that makes one certain file. -/
theorem map_const_eq_ok {call : Except ℕ Unit} {file file' : F}
    (h : call.map (fun _ => file) = .ok file') : failure call = none ∧ file' = file := by
  cases call with
  | ok u => exact ⟨rfl, (Except.ok.inj h).symm⟩
  | error errno => cases h

/-- The function returns what `post` says when none of its calls fails. When one does, `errno` is
that of the first, and the descriptors are such as `left` says. -/
structure Meets (left : (ℕ → Option F) → Prop) (failures : List (Option ℕ)) (m : Except (Files F) α)
    (post : α → Prop) : Prop where
  returns : ∀ x, m = .ok x → failures.findSome? id = none ∧ post x
  fails : ∀ q, m = .error q → failures.findSome? id = some q.errno ∧ left q.descriptors

theorem Meets.ok {x : α} (h : post x) : Meets left [] (.ok x) post where
  returns := by
    rintro _ ⟨⟩
    exact ⟨rfl, h⟩
  fails := nofun

theorem Meets.error {q : Files F} (h : left q.descriptors) :
    Meets left [some q.errno] (.error q : Except (Files F) α) post where
  returns := nofun
  fails := by
    rintro _ ⟨⟩
    exact ⟨rfl, h⟩

theorem Meets.mono (h : Meets left failures m post) (hpost : ∀ x, post x → post' x) :
    Meets left failures m post' where
  returns := fun x hx => ⟨(h.returns x hx).1, hpost x (h.returns x hx).2⟩
  fails := h.fails

theorem Meets.bind (h : Meets left failures m post)
    (hf : ∀ x, post x → Meets left failures' (f x) post₂) :
    Meets left (failures ++ failures') (m >>= f) post₂ := by
  cases m with
  | error q =>
    obtain ⟨hfailure, hleft⟩ := h.fails q rfl
    refine ⟨nofun, ?_⟩
    rintro _ ⟨⟩
    rw [List.findSome?_append, hfailure]
    exact ⟨rfl, hleft⟩
  | ok x =>
    obtain ⟨hnone, hx⟩ := h.returns x rfl
    have hrest := hf x hx
    refine ⟨fun y hy => ?_, fun q hq => ?_⟩ <;> rw [List.findSome?_append, hnone, Option.none_or]
    · exact hrest.returns y hy
    · exact hrest.fails q hq

/-- One call, and what follows it. -/
theorem Meets.cons {first : Option ℕ} (h : Meets left [first] m post)
    (hf : ∀ x, post x → Meets left failures (f x) post₂) :
    Meets left (first :: failures) (m >>= f) post₂ :=
  h.bind hf

theorem Meets.congr (h : Meets left failures m post)
    (heq : failures.findSome? id = failures'.findSome? id) : Meets left failures' m post where
  returns := fun x hx => ⟨heq ▸ (h.returns x hx).1, (h.returns x hx).2⟩
  fails := fun q hq => ⟨heq ▸ (h.fails q hq).1, (h.fails q hq).2⟩

theorem Meets.call (h : left p.descriptors) (result : Except ℕ α) :
    Meets left [failure result] (p.call result) (fun x => result = .ok x) := by
  cases result with
  | ok x => exact ⟨by rintro _ ⟨⟩; exact ⟨rfl, rfl⟩, nofun⟩
  | error errno => exact Meets.error (q := { p with errno }) h

theorem Meets.callOrClose {result : Except ℕ α} {fd : ℕ} {closing : Option ℕ}
    (h : left (Function.update p.descriptors fd none)) :
    Meets left [failure result] (p.callOrClose result fd closing) (fun x => result = .ok x) := by
  cases result with
  | ok x => exact ⟨by rintro _ ⟨⟩; exact ⟨rfl, rfl⟩, nofun⟩
  | error errno => exact Meets.error (q := { p.close fd closing with errno }) h

/-- The process has one more descriptor. -/
structure Opened (p : Files F) (file : F) (fd : ℕ) (q : Files F) : Prop where
  lowest : lowestFree p.limit p.descriptors = some fd
  limit : q.limit = p.limit
  descriptors : q.descriptors = Function.update p.descriptors fd (some file)

theorem Opened.close {q : Files F} {file : F} {fd : ℕ} (h : Opened p file fd q) :
    Function.update q.descriptors fd none = p.descriptors := by
  rw [h.descriptors, update_lowestFree h.lowest]

/-- After a failure the descriptor is closed again. -/
theorem Opened.undone {q : Files F} {file : F} {fd : ℕ} (h : Opened p file fd q) (errno : ℕ)
    (closing : Option ℕ) :
    Files.close { q with errno } fd closing = { p with errno := closing.getD errno } := by
  simp only [Files.close, h.limit, h.close]

/-- A call for a new descriptor fails without a change, or takes the lowest that is free. -/
theorem Files.new_cases (p : Files F) (result : Except ℕ F) :
    (∃ errno, p.new result = .error { p with errno } ∧
      (failure result = some errno ∨
        failure result = none ∧ lowestFree p.limit p.descriptors = none ∧ errno = emfile)) ∨
    ∃ file fd q, result = .ok file ∧ p.new result = .ok (fd, q) ∧ Opened p file fd q := by
  cases result with
  | error errno => exact .inl ⟨errno, rfl, .inl rfl⟩
  | ok file =>
    cases hlowest : lowestFree p.limit p.descriptors with
    | none => exact .inl ⟨emfile, by simp only [Files.new, hlowest], .inr ⟨rfl, rfl, rfl⟩⟩
    | some fd =>
      exact .inr ⟨file, fd, { p with descriptors := Function.update p.descriptors fd (some file) }, rfl,
        by simp only [Files.new, hlowest], hlowest, rfl, rfl⟩

/-- The failures of a call that returns a new descriptor. -/
def newFailures (p : Files F) (result : Except ℕ F) : List (Option ℕ) :=
  [failure result, if lowestFree p.limit p.descriptors = none then some emfile else none]

theorem Meets.new (h : left p.descriptors) (result : Except ℕ F) :
    Meets left (newFailures p result) (p.new result)
      fun (fd, q) => ∃ file, result = .ok file ∧ Opened p file fd q := by
  rcases p.new_cases result with ⟨errno, hnew, hwhy⟩ | ⟨file, fd, q, rfl, hnew, hopened⟩
  · rw [hnew]
    refine ⟨nofun, ?_⟩
    rintro _ ⟨⟩
    refine ⟨?_, h⟩
    rcases hwhy with hfailure | ⟨hnone, hlowest, rfl⟩
    · simp [newFailures, hfailure]
    · simp [newFailures, hnone, hlowest]
  · rw [hnew]
    refine ⟨?_, nofun⟩
    rintro _ ⟨⟩
    exact ⟨by simp [newFailures, hopened.lowest], file, rfl, hopened⟩

/-- The same where a descriptor is known to be free. -/
theorem Meets.new_free {fd : ℕ} (h : left p.descriptors)
    (hlowest : lowestFree p.limit p.descriptors = some fd) (result : Except ℕ F) :
    Meets left [failure result] (p.new result)
      fun (fd', q) => fd' = fd ∧ ∃ file, result = .ok file ∧ Opened p file fd q := by
  refine ((Meets.new h result).mono ?_).congr ?_
  · rintro ⟨fd', q⟩ ⟨file, hfile, hopened⟩
    obtain rfl : fd = fd' := Option.some.inj (hlowest.symm.trans hopened.lowest)
    exact ⟨rfl, file, hfile, hopened⟩
  · rw [newFailures, hlowest]
    cases failure result <;> rfl

theorem Meets.dup2 (h : left p.descriptors) {oldfd : ℕ} {file : F}
    (hfile : p.descriptors oldfd = some file) (newfd : ℕ) :
    Meets left [if newfd < p.limit then none else some ebadf] (p.dup2 oldfd newfd) fun q =>
      q.limit = p.limit ∧ q.descriptors = Function.update p.descriptors newfd (some file) := by
  rw [Files.dup2, hfile]
  by_cases hlimit : newfd < p.limit <;> simp only [hlimit, if_true, if_false]
  · exact ⟨by rintro _ ⟨⟩; exact ⟨rfl, rfl, rfl⟩, nofun⟩
  · exact Meets.error (q := { p with errno := ebadf }) h

end Functions

end OsProgramming.Library
