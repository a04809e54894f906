import OsProgramming.Library.Runs
import Mathlib.Data.Fintype.Basic
import Mathlib.Logic.Function.Basic

/-! `sysv_sem_sample`: any number of processes run `main` on one key. Each system call
is one step, and a `semop` that has to block is one that changes nothing. `SEM_UNDO` has
nothing to undo: a process leaves its critical section by `V`, unless the set is gone. -/

namespace OsProgramming.Ipc

open Library

/-- The next system call of a process. -/
inductive Process where
  | init
  /-- `semget` with `IPC_CREAT | IPC_EXCL` -/
  | create
  /-- `semget` again, after `EEXIST` -/
  | find
  | setval (semId : ℕ)
  | P (semId : ℕ)
  /-- the critical section, and the `semop` of `V` after it -/
  | V (semId : ℕ)
  | destroy (semId : ℕ)
  | exited
  deriving DecidableEq

/-- The set that a process is about to remove. -/
def Process.removes : Process → Option ℕ
  | .destroy semId => some semId
  | _ => none

theorem Process.eq_destroy {process : Process} {semId : ℕ} (h : semId ∈ process.removes) :
    process = .destroy semId := by
  cases process with
  | destroy => exact congrArg Process.destroy (Option.some.inj h)
  | _ => cases h

structure SemSet where
  semId : ℕ
  value : ℕ

/-- `sem` is the set that the key names, and `created` how many there have been: no
identifier comes twice. -/
structure Samples (T : Type) where
  processes : T → Process
  sem : Option SemSet
  created : ℕ

/-- A process makes its next call. A `semget` and the `semop` of `P` can be refused: no
space is left, a signal has come. -/
structure Call (T : Type) where
  process : T
  refused : Bool

namespace Samples

variable {T : Type}

/-- No process has started, and the key names nothing. -/
def init : Samples T := ⟨fun _ => .init, none, 0⟩

/-- The value of a set, unless it has been removed. -/
def semval (s : Samples T) (semId : ℕ) : Option ℕ :=
  match s.sem with
  | some sem => if sem.semId = semId then some sem.value else none
  | none => none

/-- The process is between its `P` and its `V`. -/
def Critical (s : Samples T) (process : T) (semId : ℕ) : Prop :=
  s.processes process = .V semId

/-- At most one process is between its `P` and its `V`. -/
def Exclusive (s : Samples T) : Prop :=
  ∀ p q i j, s.Critical p i → s.Critical q j → p = q

section

variable [DecidableEq T]

def goto (s : Samples T) (process : T) (next : Process) : Samples T :=
  { s with processes := Function.update s.processes process next }

def step (s : Samples T) (call : Call T) : Result (Samples T) :=
  match s.processes call.process with
  | .init =>
    if call.refused then .ok (s.goto call.process .exited)
    else
      match s.sem with
      | some sem => .ok (s.goto call.process (.P sem.semId))
      | none => .ok (s.goto call.process .create)
  | .create =>
    if call.refused then .ok (s.goto call.process .exited)
    else
      match s.sem with
      | some _ => .ok (s.goto call.process .find)
      | none => .ok ({ s with sem := some ⟨s.created, 0⟩, created := s.created + 1 }.goto
          call.process (.setval s.created))
  | .find =>
    if call.refused then .ok (s.goto call.process .exited)
    else
      match s.sem with
      | some sem => .ok (s.goto call.process (.P sem.semId))
      | none => .ok (s.goto call.process .exited)
  | .setval semId =>
    match s.semval semId with
    | some _ => .ok ({ s with sem := some ⟨semId, 1⟩ }.goto call.process (.P semId))
    | none => .ok (s.goto call.process .exited)
  | .P semId =>
    if call.refused then .ok (s.goto call.process .exited)
    else
      match s.semval semId with
      | some 0 => .ok s
      | some (value + 1) =>
        .ok ({ s with sem := some ⟨semId, value⟩ }.goto call.process (.V semId))
      | none => .ok (s.goto call.process .exited)
  | .V semId =>
    match s.semval semId with
    | some value =>
      .ok ({ s with sem := some ⟨semId, value + 1⟩ }.goto call.process (.destroy semId))
    | none => .ok (s.goto call.process .exited)
  | .destroy semId =>
    match s.semval semId with
    | some _ => .ok ({ s with sem := none }.goto call.process .exited)
    | none => .ok (s.goto call.process .exited)
  | .exited => .ok s

end

/-- Nobody is in the critical section of a set when it is removed. -/
def Spares (s : Samples T) (call : Call T) : Prop :=
  ∀ semId ∈ (s.processes call.process).removes, s.semval semId ≠ none →
    ∀ p, ¬ s.Critical p semId

instance (s : Samples T) (process : T) (semId : ℕ) : Decidable (s.Critical process semId) :=
  inferInstanceAs (Decidable (_ = _))

instance [Fintype T] (s : Samples T) (call : Call T) : Decidable (s.Spares call) :=
  Option.decidableForallMem _

/-- The process has taken the unit of the set, or has still to put it there. -/
def Owns (s : Samples T) (process : T) (semId : ℕ) : Prop :=
  s.processes process = .setval semId ∨ s.Critical process semId

structure Inv (s : Samples T) : Prop where
  unique : ∀ p q semId, s.Owns p semId → s.Owns q semId → p = q
  taken : ∀ p semId value, s.Owns p semId → s.semval semId = some value → value = 0
  binary : ∀ semId value, s.semval semId = some value → value ≤ 1
  named : ∀ semId value, s.semval semId = some value → semId < s.created
  fresh : ∀ p semId, s.Owns p semId → semId < s.created
  held : ∀ p semId, s.Critical p semId → s.semval semId ≠ none

variable {s s' : Samples T}

theorem inv_init : (init : Samples T).Inv := by
  refine ⟨?_, ?_, nofun, nofun, ?_, nofun⟩
  · rintro p q semId (hp | hp) <;> cases hp
  · rintro p semId value (hp | hp) <;> cases hp
  · rintro p semId (hp | hp) <;> cases hp

/-! ### The set -/

section

variable {b : Samples T} {semId value j v : ℕ}

theorem semval_eq_none (h : s.sem = none) (j : ℕ) : s.semval j = none := by rw [semval, h]

theorem semval_of_sem (h : s.sem = some ⟨semId, value⟩) : s.semval semId = some value := by
  rw [semval, h]
  exact if_pos rfl

theorem eq_of_semval (h : s.sem = some ⟨semId, value⟩) (hj : s.semval j = some v) :
    j = semId ∧ v = value := by
  simp only [semval, h] at hj
  split_ifs at hj with heq
  cases hj
  exact ⟨heq.symm, rfl⟩

/-- The key names one set at a time. -/
theorem semval_unique (h : s.semval semId = some value) (hj : s.semval j ≠ none) : j = semId := by
  cases hsem : s.sem with
  | none => exact absurd (semval_eq_none hsem j) hj
  | some sem =>
    obtain ⟨u, hu⟩ := Option.ne_none_iff_exists'.mp hj
    exact (eq_of_semval hsem hu).1.trans (eq_of_semval hsem h).1.symm

/-- An operation on the set that the key names leaves it there. -/
theorem semval_ne_none (hb : b.sem = some ⟨semId, v⟩) (h : s.semval semId = some value)
    (hj : s.semval j ≠ none) : b.semval j ≠ none := by
  rw [semval_unique h hj, semval_of_sem hb]
  nofun

end

/-- The unit of the set is with at most one process, and all are in the same set. -/
theorem Inv.exclusive (h : s.Inv) : s.Exclusive := by
  intro p q i j hp hq
  obtain ⟨value, hvalue⟩ := Option.ne_none_iff_exists'.mp (h.held p i hp)
  cases semval_unique hvalue (h.held q j hq)
  exact h.unique p q i (.inr hp) (.inr hq)

/-! ### The processes -/

variable [DecidableEq T]

/-- What a step can do. -/
inductive Moves (s : Samples T) (p : T) : Samples T → Prop
  | stays : Moves s p s
  | goes (next : Process) (hset : ∀ semId, next ≠ .setval semId) (hV : ∀ semId, next ≠ .V semId) :
      Moves s p (s.goto p next)
  | creates : s.sem = none →
      Moves s p ({ s with sem := some ⟨s.created, 0⟩, created := s.created + 1 }.goto p
        (.setval s.created))
  | initialises (semId value : ℕ) : s.processes p = .setval semId → s.semval semId = some value →
      Moves s p ({ s with sem := some ⟨semId, 1⟩ }.goto p (.P semId))
  | enters (semId value : ℕ) : s.semval semId = some (value + 1) →
      Moves s p ({ s with sem := some ⟨semId, value⟩ }.goto p (.V semId))
  | leaves (semId value : ℕ) : s.Critical p semId → s.semval semId = some value →
      Moves s p ({ s with sem := some ⟨semId, value + 1⟩ }.goto p (.destroy semId))
  | removes (semId value : ℕ) : s.processes p = .destroy semId → s.semval semId = some value →
      Moves s p ({ s with sem := none }.goto p .exited)

theorem moves (s : Samples T) (call : Call T) :
    ∃ s', s.step call = .ok s' ∧ s.Moves call.process s' := by
  have hexit : s.Moves call.process (s.goto call.process .exited) := .goes _ nofun nofun
  rw [step]
  split
  next =>
    split_ifs
    · exact ⟨_, rfl, hexit⟩
    split
    · exact ⟨_, rfl, .goes _ nofun nofun⟩
    · exact ⟨_, rfl, .goes _ nofun nofun⟩
  next =>
    split_ifs
    · exact ⟨_, rfl, hexit⟩
    split
    next => exact ⟨_, rfl, .goes _ nofun nofun⟩
    next hnone => exact ⟨_, rfl, .creates hnone⟩
  next =>
    split_ifs
    · exact ⟨_, rfl, hexit⟩
    split
    · exact ⟨_, rfl, .goes _ nofun nofun⟩
    · exact ⟨_, rfl, hexit⟩
  next semId hprocess =>
    split
    next value hvalue => exact ⟨_, rfl, .initialises semId value hprocess hvalue⟩
    next => exact ⟨_, rfl, hexit⟩
  next semId hprocess =>
    split_ifs
    · exact ⟨_, rfl, hexit⟩
    split
    next => exact ⟨_, rfl, .stays⟩
    next value hvalue => exact ⟨_, rfl, .enters semId value hvalue⟩
    next => exact ⟨_, rfl, hexit⟩
  next semId hprocess =>
    split
    next value hvalue => exact ⟨_, rfl, .leaves semId value hprocess hvalue⟩
    next => exact ⟨_, rfl, hexit⟩
  next semId hprocess =>
    split
    next value hvalue => exact ⟨_, rfl, .removes semId value hprocess hvalue⟩
    next => exact ⟨_, rfl, hexit⟩
  next => exact ⟨_, rfl, .stays⟩

section

variable {b : Samples T} {p q : T} {next : Process} {semId value : ℕ}

/-- A process that has moved on, over a state that differs from `s` in the set only. -/
theorem owns_goto (hb : b.processes = s.processes) (h : (b.goto p next).Owns q semId) :
    q = p ∧ (next = .setval semId ∨ next = .V semId) ∨ q ≠ p ∧ s.Owns q semId := by
  by_cases hq : q = p
  · refine .inl ⟨hq, ?_⟩
    rw [hq] at h
    simpa only [Owns, Critical, goto, Function.update_self] using h
  · refine .inr ⟨hq, ?_⟩
    simpa only [Owns, Critical, goto, Function.update_of_ne hq, hb] using h

theorem critical_goto (hb : b.processes = s.processes) (h : (b.goto p next).Critical q semId) :
    q = p ∧ next = .V semId ∨ q ≠ p ∧ s.Critical q semId := by
  by_cases hq : q = p
  · refine .inl ⟨hq, ?_⟩
    rw [hq] at h
    simpa only [Critical, goto, Function.update_self] using h
  · refine .inr ⟨hq, ?_⟩
    simpa only [Critical, goto, Function.update_of_ne hq, hb] using h

/-- A process that owns nothing any more. -/
theorem Inv.goto_free (h : s.Inv) (hb : b.processes = s.processes) (hcreated : b.created = s.created)
    (hset : ∀ semId, next ≠ .setval semId) (hV : ∀ semId, next ≠ .V semId)
    (htaken : ∀ q semId value, q ≠ p → s.Owns q semId → b.semval semId = some value → value = 0)
    (hnamed : ∀ semId value, b.semval semId = some value → value ≤ 1 ∧ semId < s.created)
    (hheld : ∀ q semId, q ≠ p → s.Critical q semId → b.semval semId ≠ none) :
    (b.goto p next).Inv := by
  have howns : ∀ q semId, (b.goto p next).Owns q semId → q ≠ p ∧ s.Owns q semId := by
    intro q semId hq
    rcases owns_goto hb hq with ⟨-, hnext | hnext⟩ | hold
    · exact absurd hnext (hset semId)
    · exact absurd hnext (hV semId)
    · exact hold
  refine ⟨?_, ?_, fun j v hj => (hnamed j v hj).1, ?_, ?_, ?_⟩
  · intro q r j hq hr
    exact h.unique q r j (howns q j hq).2 (howns r j hr).2
  · intro q j v hq hj
    exact htaken q j v (howns q j hq).1 (howns q j hq).2 hj
  · intro j v hj
    exact hcreated ▸ (hnamed j v hj).2
  · intro q j hq
    exact hcreated ▸ h.fresh q j (howns q j hq).2
  · intro q j hq
    rcases critical_goto hb hq with ⟨-, hnext⟩ | ⟨hne, hold⟩
    · exact absurd hnext (hV j)
    · exact hheld q j hne hold

/-- The owner of the set gives its unit back, or puts it there. -/
theorem Inv.gives (h : s.Inv) (howns : s.Owns p semId) (hvalue : s.semval semId = some value)
    (hset : ∀ semId, next ≠ .setval semId) (hV : ∀ semId, next ≠ .V semId) :
    ({ s with sem := some ⟨semId, 1⟩ }.goto p next : Samples T).Inv := by
  refine h.goto_free rfl rfl hset hV ?_ ?_ ?_
  · intro q j v hne hq hj
    cases (eq_of_semval rfl hj).1
    exact absurd (h.unique q p semId hq howns) hne
  · intro j v hj
    obtain ⟨rfl, rfl⟩ := eq_of_semval rfl hj
    exact ⟨le_rfl, h.named j value hvalue⟩
  · intro q j _ hq
    exact semval_ne_none rfl hvalue (h.held q j hq)

theorem Inv.creates (h : s.Inv) (hnone : s.sem = none) :
    ({ s with sem := some ⟨s.created, 0⟩, created := s.created + 1 }.goto p
      (.setval s.created) : Samples T).Inv := by
  have howns : ∀ q j, ({ s with sem := some ⟨s.created, 0⟩, created := s.created + 1 }.goto p
      (.setval s.created) : Samples T).Owns q j →
        q = p ∧ j = s.created ∨ j < s.created ∧ s.Owns q j := by
    intro q j hq
    rcases owns_goto (s := s) rfl hq with ⟨rfl, hnext | hnext⟩ | ⟨-, hold⟩
    · cases hnext
      exact .inl ⟨rfl, rfl⟩
    · cases hnext
    · exact .inr ⟨h.fresh q j hold, hold⟩
  refine ⟨?_, ?_, ?_, ?_, ?_, ?_⟩
  · intro q r j hq hr
    rcases howns q j hq with ⟨rfl, hj⟩ | ⟨hlt, hq⟩ <;> rcases howns r j hr with ⟨rfl, hj'⟩ | ⟨hlt', hr⟩
    · rfl
    · omega
    · omega
    · exact h.unique q r j hq hr
  · intro q j v _ hj
    exact (eq_of_semval rfl hj).2
  · intro j v hj
    exact (eq_of_semval rfl hj).2 ▸ Nat.zero_le 1
  · intro j v hj
    exact (eq_of_semval rfl hj).1 ▸ Nat.lt_succ_self s.created
  · intro q j hq
    rcases howns q j hq with ⟨-, rfl⟩ | ⟨hlt, -⟩
    · exact Nat.lt_succ_self _
    · exact Nat.lt_succ_of_lt hlt
  · intro q j hq
    rcases critical_goto (s := s) rfl hq with ⟨-, hnext⟩ | ⟨-, hold⟩
    · cases hnext
    · exact absurd (semval_eq_none hnone j) (h.held q j hold)

theorem Inv.enters (h : s.Inv) (hvalue : s.semval semId = some (value + 1)) :
    ({ s with sem := some ⟨semId, value⟩ }.goto p (.V semId) : Samples T).Inv := by
  have hzero : value = 0 := by
    have := h.binary semId (value + 1) hvalue
    omega
  have hnobody : ∀ q, ¬ s.Owns q semId := by
    intro q hq
    cases h.taken q semId (value + 1) hq hvalue
  have howns : ∀ q j, ({ s with sem := some ⟨semId, value⟩ }.goto p (.V semId) : Samples T).Owns q j →
      q = p ∧ j = semId ∨ s.Owns q j := by
    intro q j hq
    rcases owns_goto (s := s) rfl hq with ⟨rfl, hnext | hnext⟩ | ⟨-, hold⟩
    · cases hnext
    · cases hnext
      exact .inl ⟨rfl, rfl⟩
    · exact .inr hold
  refine ⟨?_, ?_, ?_, ?_, ?_, ?_⟩
  · intro q r j hq hr
    rcases howns q j hq with ⟨rfl, hj⟩ | hq' <;> rcases howns r j hr with ⟨rfl, hj'⟩ | hr'
    · rfl
    · exact absurd (hj ▸ hr') (hnobody r)
    · exact absurd (hj' ▸ hq') (hnobody q)
    · exact h.unique q r j hq' hr'
  · intro q j v _ hj
    exact (eq_of_semval rfl hj).2.trans hzero
  · intro j v hj
    rw [(eq_of_semval rfl hj).2, hzero]
    exact Nat.zero_le 1
  · intro j v hj
    rw [(eq_of_semval rfl hj).1]
    exact h.named semId _ hvalue
  · intro q j hq
    rcases howns q j hq with ⟨-, rfl⟩ | hq
    · exact h.named j _ hvalue
    · exact h.fresh q j hq
  · intro q j hq
    rcases critical_goto (s := s) rfl hq with ⟨-, hnext⟩ | ⟨-, hold⟩
    · cases hnext
      rw [semval_of_sem rfl]
      nofun
    · exact semval_ne_none rfl hvalue (h.held q j hold)

end

/-- A step that removes no set in use. -/
theorem Inv.step (h : s.Inv) {call : Call T} (hspares : s.Spares call)
    (hret : s.step call = .ok s') : s'.Inv := by
  obtain ⟨s'', hs'', hmoves⟩ := s.moves call
  cases hret.symm.trans hs''
  cases hmoves with
  | stays => exact h
  | goes next hset hV =>
    exact h.goto_free rfl rfl hset hV (fun q j v _ hq => h.taken q j v hq)
      (fun j v hj => ⟨h.binary j v hj, h.named j v hj⟩) (fun q j _ hq => h.held q j hq)
  | creates hnone => exact h.creates hnone
  | initialises semId value hprocess hvalue =>
    exact h.gives (.inl hprocess) hvalue nofun nofun
  | enters semId value hvalue => exact h.enters hvalue
  | leaves semId value hcritical hvalue =>
    cases h.taken _ semId value (.inr hcritical) hvalue
    exact h.gives (.inr hcritical) hvalue nofun nofun
  | removes semId value hprocess hvalue =>
    refine h.goto_free rfl rfl nofun nofun (fun _ _ _ _ _ => nofun) (fun _ _ => nofun) ?_
    intro q j _ hq
    have hj := semval_unique hvalue (h.held q j hq)
    have hne : s.semval semId ≠ none := by
      rw [hvalue]
      nofun
    exact absurd (hj ▸ hq) (hspares semId (by rw [hprocess]; rfl) hne q)

/-- While the key names nothing, a process that starts gets a set of its own. -/
theorem enters_alone (hsem : s.sem = none) {r : T} (hr : s.processes r = .init) :
    ∃ s', (List.replicate 4 ⟨r, false⟩).foldlM step s = .ok s' ∧ s'.Critical r s.created ∧
      ∀ q semId, q ≠ r → s.Critical q semId → s'.Critical q semId := by
  obtain ⟨processes, sem, created⟩ := s
  subst hsem
  replace hr : processes r = .init := hr
  refine ⟨({ processes, sem := some ⟨created, 0⟩, created := created + 1 } : Samples T).goto r
    (.V created), ?_, Function.update_self .., ?_⟩
  · simp only [List.replicate, List.foldlM_cons, List.foldlM_nil, step, hr, goto, semval,
      Function.update_self, Function.update_idem, Bool.false_eq_true, if_false, if_true, ok_bind]
    rfl
  · intro q semId hne hq
    exact (Function.update_of_ne hne ..).trans hq

/-- A process that removes the set of another lets a third one in. -/
theorem not_exclusive_of_removal {call : Call T} (hcall : ¬ s.Spares call) {r : T}
    (hr : s.processes r = .init) :
    ∃ s', (call :: List.replicate 4 ⟨r, false⟩).foldlM step s = .ok s' ∧ ¬ s'.Exclusive := by
  simp only [Spares, not_forall, not_not] at hcall
  obtain ⟨semId, hremoves, hvalue, q, hq⟩ := hcall
  have hprocess := Process.eq_destroy hremoves
  obtain ⟨value, hvalue⟩ := Option.ne_none_iff_exists'.mp hvalue
  have hremoved : s.step call = .ok ({ s with sem := none }.goto call.process .exited) := by
    simp only [step, hprocess, hvalue]
  have hne : ∀ p, s.processes p ≠ .destroy semId → p ≠ call.process :=
    fun p hp heq => hp (heq ▸ hprocess)
  have hr' : ({ s with sem := none }.goto call.process .exited : Samples T).processes r = .init :=
    (Function.update_of_ne (hne r (by rw [hr]; nofun)) ..).trans hr
  have hq' : ({ s with sem := none }.goto call.process .exited : Samples T).Critical q semId :=
    (Function.update_of_ne (hne q (by rw [hq]; nofun)) ..).trans hq
  have hqr : q ≠ r := by
    rintro rfl
    exact absurd (hr.symm.trans hq) nofun
  obtain ⟨s', hrun, hin, hothers⟩ := enters_alone rfl hr'
  refine ⟨s', by rw [List.foldlM_cons, hremoved, ok_bind, hrun], ?_⟩
  intro hexclusive
  exact hqr (hexclusive q r semId _ (hothers q semId hqr hq') hin)

/-- At most one process is between its `P` and its `V` at the end of every run that
removes no set while a process is between its `P` and its `V` on it; and one that does so
can be followed by two. -/
theorem exclusive_of_spares (calls : List (Call T)) (h : Admissible step Spares init calls) :
    ∃ s, calls.foldlM step (init : Samples T) = .ok s ∧ s.Exclusive ∧
      ∀ call r, ¬ s.Spares call → s.processes r = .init →
        ∃ s', (call :: List.replicate 4 ⟨r, false⟩).foldlM step s = .ok s' ∧ ¬ s'.Exclusive := by
  have hstep : ∀ (s : Samples T) call, s.Inv → s.Spares call →
      ∃ s', s.step call = .ok s' ∧ s'.Inv := by
    intro s call hinv hspares
    obtain ⟨s', hs', -⟩ := s.moves call
    exact ⟨s', hs', hinv.step hspares hs'⟩
  obtain ⟨s, hrun, hinv⟩ := foldlM_ok hstep inv_init h
  exact ⟨s, hrun, hinv.exclusive, fun _ _ hcall hr => not_exclusive_of_removal hcall hr⟩

/-- Process 0 leaves, process 1 enters, process 0 removes the set and process 2 creates
another one. -/
theorem two_processes_critical :
    ∃ s : Samples ℕ, ([0, 0, 0, 0, 1, 0, 1, 0, 2, 2, 2, 2].map (⟨·, false⟩)).foldlM step init =
        .ok s ∧
      s.Critical 1 0 ∧ s.Critical 2 1 ∧ ¬ s.Exclusive := by
  refine ⟨_, rfl, rfl, rfl, ?_⟩
  intro hexclusive
  cases hexclusive 1 2 0 1 rfl rfl

/-- The set is removed under a process that waits, and that gives up. -/
theorem exclusive_of_spares_two :
    ∃ s : Samples Bool,
      [⟨false, false⟩, ⟨false, false⟩, ⟨false, false⟩, ⟨false, false⟩, ⟨true, false⟩,
        ⟨false, false⟩, ⟨false, false⟩, ⟨true, false⟩].foldlM step init = .ok s ∧ s.Exclusive := by
  obtain ⟨s, hrun, hexclusive, -⟩ := exclusive_of_spares (T := Bool)
    [⟨false, false⟩, ⟨false, false⟩, ⟨false, false⟩, ⟨false, false⟩, ⟨true, false⟩,
      ⟨false, false⟩, ⟨false, false⟩, ⟨true, false⟩] (by decide)
  exact ⟨s, hrun, hexclusive⟩

end Samples

end OsProgramming.Ipc
