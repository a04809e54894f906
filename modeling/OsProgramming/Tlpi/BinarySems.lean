import OsProgramming.Library.Runs
import OsProgramming.Reactor.Socket
import Mathlib.Logic.Function.Basic

/-! The binary semaphores of `binary_sems.c`, which any number of processes reserve and release,
and in which a process may end at any time. They are a lock: a process that releases has
reserved. The kernel undoes what a process that ends has done to the semaphore if each of its
calls has asked for it. -/

namespace OsProgramming.Tlpi

open Library Reactor

/-- The global variables. -/
structure BinarySems where
  bsUseSemUndo : Bool
  bsRetryOnEintr : Bool

inductive SemUser where
  | outside
  /-- blocked in the `semop` of `reserveSem` -/
  | reserving
  /-- `reserveSem` has returned 0 -/
  | inside
  | ended
  /-- the process has ended before its `releaseSem` -/
  | endedInside
  deriving DecidableEq

/-- `semadj` is what the kernel adds to `semval` when a process ends. -/
structure Semaphore (T : Type) where
  semval : ℤ
  semadj : T → ℤ
  users : T → SemUser

inductive SemAction (T : Type) where
  | reserveSem (process : T)
  /-- its `semop` returns 0 -/
  | granted (process : T)
  /-- its `semop` fails -/
  | failed (process : T) (errno : Errno)
  | releaseSem (process : T)
  /-- `releaseSem` returns -1 -/
  | releaseFailed (process : T)
  | ends (process : T)

namespace Semaphore

variable {T : Type} [DecidableEq T]

/-- `initSemAvailable`; `SETVAL` clears the adjustments. -/
def initSemAvailable : Semaphore T := ⟨1, fun _ => 0, fun _ => .outside⟩

/-- `semop` of a process with `sem_op`, and where the process is then. -/
def semop (sems : BinarySems) (s : Semaphore T) (process : T) (semOp : ℤ) (next : SemUser) :
    Semaphore T where
  semval := s.semval + semOp
  semadj := if sems.bsUseSemUndo then
      Function.update s.semadj process (s.semadj process - semOp) else s.semadj
  users := Function.update s.users process next

def step (sems : BinarySems) (s : Semaphore T) : SemAction T → Option (Semaphore T)
  | .reserveSem process =>
    if s.users process = .outside then
      some { s with users := Function.update s.users process .reserving }
    else none
  | .granted process =>
    if s.users process = .reserving ∧ 1 ≤ s.semval then some (semop sems s process (-1) .inside)
    else none
  | .failed process errno =>
    if s.users process = .reserving then
      -- `reserveSem` tries again, or returns -1
      if errno = .eintr ∧ sems.bsRetryOnEintr then some s
      else some { s with users := Function.update s.users process .outside }
    else none
  | .releaseSem process =>
    if s.users process = .inside then some (semop sems s process 1 .outside) else none
  | .releaseFailed process => if s.users process = .inside then some s else none
  | .ends process =>
    let ended : Semaphore T :=
      { s with
        -- below 0 the value becomes 0
        semval := max 0 (s.semval + s.semadj process)
        semadj := Function.update s.semadj process 0 }
    match s.users process with
    | .outside | .reserving =>
      some { ended with users := Function.update s.users process .ended }
    | .inside => some { ended with users := Function.update s.users process .endedInside }
    | .ended | .endedInside => none

/-! ### Who has the semaphore -/

/-- The semaphore is gone with a process that has ended inside, unless it has been undone. -/
def holds (sems : BinarySems) : SemUser → Bool
  | .inside => true
  | .endedInside => !sems.bsUseSemUndo
  | .outside | .reserving | .ended => false

structure Inv (sems : BinarySems) (s : Semaphore T) : Prop where
  semadj : ∀ process, s.semadj process =
    if sems.bsUseSemUndo ∧ s.users process = .inside then 1 else 0
  free_or_held : (s.semval = 1 ∧ ∀ process, holds sems (s.users process) = false) ∨
    s.semval = 0 ∧ ∃ process, ∀ process', holds sems (s.users process') = true ↔ process' = process

variable {sems : BinarySems} {s s' : Semaphore T} {action : SemAction T} {process : T} {next : SemUser}

omit [DecidableEq T] in
theorem inv_initSemAvailable : Inv sems (initSemAvailable : Semaphore T) :=
  ⟨by simp [initSemAvailable], .inl ⟨rfl, fun _ => rfl⟩⟩

omit [DecidableEq T] in
theorem Inv.semadj_outside (h : Inv sems s) (hout : s.users process ≠ .inside) :
    s.semadj process = 0 := by
  rw [h.semadj, if_neg (fun hinside => hout hinside.2)]

omit [DecidableEq T] in
/-- While a process is inside, it is the only one that has the semaphore. -/
theorem Inv.semval_inside (h : Inv sems s) (hinside : s.users process = .inside) :
    s.semval = 0 ∧ ∀ process', holds sems (s.users process') = true ↔ process' = process := by
  have hholds : holds sems (s.users process) = true := by rw [hinside, holds]
  obtain ⟨-, hnone⟩ | ⟨hzero, holder, hholder⟩ := h.free_or_held
  · rw [hnone] at hholds
    cases hholds
  · obtain rfl := (hholder process).mp hholds
    exact ⟨hzero, hholder⟩

omit [DecidableEq T] in
theorem Inv.semval_nonneg (h : Inv sems s) : 0 ≤ s.semval := by
  obtain ⟨hone, -⟩ | ⟨hzero, -⟩ := h.free_or_held <;> omega

/-- Where a process is does not matter as long as it has the semaphore or not as before. -/
theorem Inv.goto (h : Inv sems s) (hholds : holds sems next = holds sems (s.users process))
    (hadj : s.semadj process = 0) (hout : next ≠ .inside) :
    Inv sems { s with users := Function.update s.users process next } where
  semadj process' := by
    by_cases heq : process' = process
    · subst heq
      simp [hadj, hout]
    · simpa [heq] using h.semadj process'
  free_or_held := by
    have hsame : ∀ process', holds sems (Function.update s.users process next process') =
        holds sems (s.users process') := by
      intro process'
      by_cases heq : process' = process
      · subst heq
        rw [Function.update_self, hholds]
      · rw [Function.update_of_ne heq]
    simpa only [hsame] using h.free_or_held

/-- A process gets the semaphore. -/
theorem Inv.granted (h : Inv sems s) (hhere : s.users process = .reserving) (hfree : 1 ≤ s.semval) :
    Inv sems (semop sems s process (-1) .inside) := by
  obtain ⟨hone, hnone⟩ : s.semval = 1 ∧ ∀ process, holds sems (s.users process) = false := by
    apply h.free_or_held.resolve_right
    rintro ⟨hzero, -⟩
    omega
  have hadj : s.semadj process = 0 := h.semadj_outside (by simp [hhere])
  refine ⟨fun process' => ?_, .inr ⟨by simp [semop, hone], process, fun process' => ?_⟩⟩
  · by_cases heq : process' = process
    · subst heq
      by_cases hundo : sems.bsUseSemUndo = true <;> simp [semop, hundo, hadj]
    · have hother := h.semadj process'
      by_cases hundo : sems.bsUseSemUndo = true <;> simp_all [semop]
  · by_cases heq : process' = process
    · subst heq
      simp [semop, holds]
    · simp [semop, hnone, heq]

/-- A process gives the semaphore back, or the kernel does it for it. -/
theorem Inv.leaves (h : Inv sems s) (hinside : s.users process = .inside)
    (hnext : holds sems next = false) (hout : next ≠ .inside) :
    Inv sems ⟨1, Function.update s.semadj process 0, Function.update s.users process next⟩ := by
  obtain ⟨-, hholder⟩ := h.semval_inside hinside
  refine ⟨fun process' => ?_, .inl ⟨rfl, fun process' => ?_⟩⟩
  · by_cases heq : process' = process
    · subst heq
      simp [hout]
    · simpa [heq] using h.semadj process'
  · by_cases heq : process' = process
    · subst heq
      simpa using hnext
    · have hnone := mt (hholder process').mp heq
      simpa [heq] using hnone

/-- The release leaves no adjustment behind, whether there has been one or not. -/
theorem Inv.released (h : Inv sems s) (hinside : s.users process = .inside) :
    Inv sems (semop sems s process 1 .outside) := by
  have hadj : (semop sems s process 1 .outside).semadj = Function.update s.semadj process 0 := by
    have hown := h.semadj process
    by_cases hundo : sems.bsUseSemUndo = true
    · have hone : s.semadj process = 1 := by simpa [hundo, hinside] using hown
      simp [semop, hundo, hone]
    · have hzero : s.semadj process = 0 := by simpa [hundo] using hown
      simp [semop, hundo, ← hzero]
  have hval : (semop sems s process 1 .outside).semval = 1 := by
    simp [semop, (h.semval_inside hinside).1]
  have hleft : semop sems s process 1 .outside =
      ⟨1, Function.update s.semadj process 0, Function.update s.users process .outside⟩ := by
    rw [semop, mk.injEq]
    exact ⟨hval, hadj, rfl⟩
  rw [hleft]
  exact h.leaves hinside rfl (by simp)

/-- A process ends that has nothing to undo. -/
theorem Inv.ends (h : Inv sems s) (hholds : holds sems next = holds sems (s.users process))
    (hadj : s.semadj process = 0) (hout : next ≠ .inside) :
    Inv sems ⟨max 0 (s.semval + s.semadj process), Function.update s.semadj process 0,
      Function.update s.users process next⟩ := by
  have hval : max 0 (s.semval + s.semadj process) = s.semval := by
    rw [hadj, add_zero]
    exact max_eq_right h.semval_nonneg
  have hsame : Function.update s.semadj process 0 = s.semadj := by
    rw [← hadj, Function.update_eq_self]
  rw [hval, hsame]
  exact h.goto hholds hadj hout

theorem Inv.step (h : Inv sems s) (hstep : step sems s action = some s') : Inv sems s' := by
  cases action with
  | reserveSem process =>
    simp only [Semaphore.step] at hstep
    split_ifs at hstep with hhere
    cases hstep
    exact h.goto (by rw [hhere]; rfl) (h.semadj_outside (by simp [hhere])) (by simp)
  | granted process =>
    simp only [Semaphore.step] at hstep
    split_ifs at hstep with hhere
    cases hstep
    exact h.granted hhere.1 hhere.2
  | failed process errno =>
    simp only [Semaphore.step] at hstep
    split_ifs at hstep with hhere hretry
    · cases hstep
      exact h
    · cases hstep
      exact h.goto (by rw [hhere]; rfl) (h.semadj_outside (by simp [hhere])) (by simp)
  | releaseSem process =>
    simp only [Semaphore.step] at hstep
    split_ifs at hstep with hhere
    cases hstep
    exact h.released hhere
  | releaseFailed process =>
    simp only [Semaphore.step] at hstep
    split_ifs at hstep
    cases hstep
    exact h
  | ends process =>
    cases hhere : s.users process with
    | outside | reserving =>
      simp only [Semaphore.step, hhere, Option.some.injEq] at hstep
      cases hstep
      exact h.ends (by rw [hhere]; rfl) (h.semadj_outside (by simp [hhere])) (by simp)
    | inside =>
      simp only [Semaphore.step, hhere, Option.some.injEq] at hstep
      cases hstep
      have hadj := h.semadj process
      by_cases hundo : sems.bsUseSemUndo = true
      · have hone : s.semadj process = 1 := by simpa [hundo, hhere] using hadj
        rw [(h.semval_inside hhere).1, hone]
        exact h.leaves hhere (by simp [holds, hundo]) (by simp)
      · exact h.ends (by simp [hhere, holds, hundo]) (by simpa [hundo] using hadj) (by simp)
    | ended | endedInside =>
      simp only [Semaphore.step, hhere] at hstep
      cases hstep

theorem inv_of_reaches (h : Reaches (step sems) initSemAvailable s) : Inv sems s :=
  h.invariant (Inv sems) inv_initSemAvailable fun _ _ _ hinv hstep => hinv.step hstep

/-- A process that has ended never comes back. -/
theorem users_endedInside (h : Reaches (step sems) s s') (hended : s.users process = .endedInside) :
    s'.users process = .endedInside := by
  apply h.invariant (fun s => s.users process = .endedInside) hended
  intro s action s' hended hstep
  have hother : ∀ {process' : T} {next : SemUser}, s.users process' ≠ .endedInside →
      Function.update s.users process' next process = .endedInside := by
    intro process' next hlives
    rw [Function.update_of_ne, hended]
    rintro rfl
    exact hlives hended
  cases action with
  | reserveSem process' | granted process' | releaseSem process' =>
    simp only [step] at hstep
    split_ifs at hstep with hhere
    cases hstep
    exact hother (by simp [hhere])
  | failed process' errno =>
    simp only [step] at hstep
    split_ifs at hstep with hhere hretry
    · cases hstep
      exact hended
    · cases hstep
      exact hother (by simp [hhere])
  | releaseFailed process' =>
    simp only [step] at hstep
    split_ifs at hstep
    cases hstep
    exact hended
  | ends process' =>
    cases hhere : s.users process' with
    | outside | reserving | inside =>
      simp only [step, hhere, Option.some.injEq] at hstep
      cases hstep
      exact hother (by simp [hhere])
    | ended | endedInside =>
      simp only [step, hhere] at hstep
      cases hstep

/-- One process at most is inside, and the semaphore is 0 then. With `SEM_UNDO` it is 1 as soon
as nobody is inside, whoever has ended; without it a process that has ended inside keeps the
others out for ever. -/
theorem binary_sems (h : Reaches (step sems) initSemAvailable s) :
    (∀ process process', s.users process = .inside → s.users process' = .inside →
      process = process' ∧ s.semval = 0) ∧
      (s.semval = 0 ∨ s.semval = 1) ∧
      (∀ process, s.semadj process =
        if sems.bsUseSemUndo ∧ s.users process = .inside then 1 else 0) ∧
      (sems.bsUseSemUndo = true → (∀ process, s.users process ≠ .inside) → s.semval = 1) ∧
      (sems.bsUseSemUndo = false → ∀ process, s.users process = .endedInside →
        ∀ later, Reaches (step sems) s later →
          later.semval = 0 ∧ ∀ process', later.users process' ≠ .inside) := by
  have hinv := inv_of_reaches h
  refine ⟨?_, ?_, hinv.semadj, ?_, ?_⟩
  · intro process process' hinside hinside'
    obtain ⟨hzero, hholder⟩ := hinv.semval_inside hinside'
    exact ⟨(hholder process).mp (by rw [hinside, holds]), hzero⟩
  · exact hinv.free_or_held.symm.imp And.left And.left
  · intro hundo hnobody
    obtain ⟨hone, -⟩ | ⟨-, holder, hholder⟩ := hinv.free_or_held
    · exact hone
    · have hholds := (hholder holder).mpr rfl
      have hout := hnobody holder
      cases hhere : s.users holder <;> simp_all [holds]
  · intro hundo process hended later hlater
    have hended' := users_endedInside hlater hended
    have hinv' := inv_of_reaches (h.trans hlater)
    have hholds : holds sems (later.users process) = true := by simp [hended', holds, hundo]
    obtain ⟨-, hnone⟩ | ⟨hzero, holder, hholder⟩ := hinv'.free_or_held
    · rw [hnone] at hholds
      cases hholds
    · refine ⟨hzero, fun process' hinside => ?_⟩
      obtain ⟨-, hholder'⟩ := hinv'.semval_inside hinside
      have heq := (hholder' process).mp hholds
      rw [← heq, hended'] at hinside
      cases hinside

/-- The first process ends inside, and the kernel lets the second one in. -/
theorem binary_sems_undone : ∃ s : Semaphore (Fin 2),
    [SemAction.reserveSem 0, .reserveSem 1, .granted 0, .ends 0, .granted 1].foldlM
      (step ⟨true, true⟩) initSemAvailable = some s ∧ s.users 1 = .inside ∧ s.semval = 0 ∧
      s.semadj 1 = 1 := by
  obtain ⟨s, hrun, hinside⟩ : ∃ s : Semaphore (Fin 2),
      [SemAction.reserveSem 0, .reserveSem 1, .granted 0, .ends 0, .granted 1].foldlM
        (step ⟨true, true⟩) initSemAvailable = some s ∧ s.users 1 = .inside := ⟨_, rfl, rfl⟩
  obtain ⟨hsingle, -, hadj, -⟩ := binary_sems (.of_foldlM hrun)
  exact ⟨s, hrun, hinside, (hsingle 1 1 hinside hinside).2, by rw [hadj, hinside]; rfl⟩

end Semaphore

end OsProgramming.Tlpi
