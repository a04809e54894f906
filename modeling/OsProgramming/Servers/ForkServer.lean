import OsProgramming.Library.Descriptors
import OsProgramming.Library.Progress
import Mathlib.Algebra.BigOperators.Intervals

/-! The server with a process for each client, `fork_server.c`. A descriptor is an entry of the
table of a process, and `fork` copies the table, so a connection stays open until both
processes have closed it. The handler of `SIGCHLD` may interrupt the server between any two
statements. -/

namespace OsProgramming.Servers

open Library

/-- What a descriptor refers to. -/
inductive Socket where
  | listening
  /-- the connection that the `c`-th successful call of `accept` has returned -/
  | connection (c : ℕ)
  /-- a descriptor that the server was started with -/
  | inherited
  deriving DecidableEq

abbrev Descriptors := ℕ → Option Socket

/-- The table of a process that has ended. -/
def gone : Descriptors := fun _ => none

/-- The next statement of `main`. -/
inductive ForkMain where
  | accept
  | fork (c clientFd : ℕ)
  | close (c clientFd : ℕ)
  | exited
  deriving DecidableEq

/-- The process that is forked for a connection. -/
inductive ChildRun where
  | unborn
  /-- `fork` has failed -/
  | refused
  /-- about to close `server_fd` -/
  | closing (clientFd : ℕ)
  /-- in `child_run` -/
  | serving (clientFd : ℕ)
  | zombie
  | reaped
  deriving DecidableEq

structure ChildProcess where
  run : ChildRun
  descriptors : Descriptors

structure ForkServer where
  descriptors : Descriptors
  main : ForkMain
  /-- `SIGCHLD` is pending -/
  pending : Bool
  /-- in `child_exit_signal_handler` -/
  handling : Bool
  accepted : ℕ
  children : ℕ → ChildProcess

inductive ForkAction where
  | accept (succeeds : Bool)
  | fork (succeeds : Bool)
  | close
  /-- the handler starts -/
  | deliver
  /-- `waitpid` finds the child of a connection, or none that has ended -/
  | waitpid (child : Option ℕ)
  /-- a child closes `server_fd` -/
  | closeServer (c : ℕ)
  /-- a child ends, by `exit` or by a signal -/
  | exit (c : ℕ)
  deriving DecidableEq

/-! ### Who has a socket open -/

/-- The connection that the server has open, and where. -/
def ForkMain.client : ForkMain → Option (ℕ × ℕ)
  | .fork c clientFd | .close c clientFd => some (c, clientFd)
  | .accept | .exited => none

/-- The table of the server before its next statement. -/
def ForkMain.table (base : Descriptors) : ForkMain → Descriptors
  | .accept => base
  | .fork c clientFd | .close c clientFd => Function.update base clientFd (some (.connection c))
  | .exited => gone

/-- Where a child has its connection. -/
def ChildRun.client : ChildRun → Option ℕ
  | .closing clientFd | .serving clientFd => some clientFd
  | .unborn | .refused | .zombie | .reaped => none

/-- The table of the child of the connection `c`. -/
def ChildRun.table (base : Descriptors) (serverFd c : ℕ) : ChildRun → Descriptors
  | .closing clientFd => Function.update base clientFd (some (.connection c))
  | .serving clientFd =>
    Function.update (Function.update base clientFd (some (.connection c))) serverFd none
  | .unborn | .refused | .zombie | .reaped => gone

structure ChildProcess.Meets (limit serverFd : ℕ) (base : Descriptors) (forked signalled : Prop)
    (c : ℕ) (child : ChildProcess) : Prop where
  born : child.run ≠ .unborn ↔ forked
  table : child.descriptors = child.run.table base serverFd c
  client : ∀ clientFd, child.run.client = some clientFd → lowestFree limit base = some clientFd
  signalled : child.run = .zombie → signalled

theorem ChildProcess.Meets.mono {limit serverFd c : ℕ} {base : Descriptors} {child : ChildProcess}
    {forked forked' signalled signalled' : Prop}
    (h : child.Meets limit serverFd base forked signalled c)
    (hforked : forked ↔ forked') (hsignalled : signalled → signalled') :
    child.Meets limit serverFd base forked' signalled' c where
  born := h.born.trans hforked
  table := h.table
  client := h.client
  signalled := fun hzombie => hsignalled (h.signalled hzombie)

theorem update_eq_connection {base : Descriptors} (hbase : ∀ fd c, base fd ≠ some (.connection c))
    (c c' clientFd fd : ℕ) :
    Function.update base clientFd (some (.connection c)) fd = some (.connection c') ↔
      c' = c ∧ clientFd = fd := by
  rw [Function.update_apply]
  split_ifs with hfd
  · simp [hfd, eq_comm]
  · simp [hbase, Ne.symm hfd]

theorem ForkMain.table_eq_connection {base : Descriptors} (hbase : ∀ fd c, base fd ≠ some (.connection c))
    (main : ForkMain) (c fd : ℕ) :
    main.table base fd = some (.connection c) ↔ main.client = some (c, fd) := by
  cases main with
  | accept => simp [ForkMain.table, ForkMain.client, hbase]
  | fork c' clientFd | close c' clientFd =>
    rw [ForkMain.table, update_eq_connection hbase, ForkMain.client, Option.some.injEq, Prod.mk.injEq,
      eq_comm]
  | exited => simp [ForkMain.table, ForkMain.client, gone]

theorem ChildRun.table_eq_connection {base : Descriptors} {serverFd : ℕ} {run : ChildRun}
    (hbase : ∀ fd c, base fd ≠ some (.connection c)) (hserver : run.client ≠ some serverFd)
    (c c' fd : ℕ) :
    run.table base serverFd c fd = some (.connection c') ↔ c' = c ∧ run.client = some fd := by
  cases run with
  | closing clientFd =>
    rw [ChildRun.table, update_eq_connection hbase, ChildRun.client, Option.some.injEq]
  | serving clientFd =>
    rw [ChildRun.table, Function.update_apply, ChildRun.client, Option.some.injEq]
    split_ifs with hfd
    · have hne : clientFd ≠ fd := fun heq => hserver (by rw [ChildRun.client, heq, hfd])
      simp [hne]
    · exact update_eq_connection hbase c c' clientFd fd
  | unborn | refused | zombie | reaped => simp [ChildRun.table, ChildRun.client, gone]

theorem ChildRun.table_eq_listening {base : Descriptors} {serverFd : ℕ} {run : ChildRun}
    (hbase : ∀ fd, base fd = some .listening ↔ fd = serverFd) (hserver : run.client ≠ some serverFd)
    (c fd : ℕ) :
    run.table base serverFd c fd = some .listening ↔
      fd = serverFd ∧ ∃ clientFd, run = .closing clientFd := by
  cases run with
  | closing clientFd =>
    have hne : serverFd ≠ clientFd := fun heq => hserver (congrArg some heq.symm)
    rw [ChildRun.table, Function.update_apply]
    split_ifs with hfd
    · simp [hfd, hne.symm]
    · simp [hbase]
  | serving clientFd =>
    rw [ChildRun.table, Function.update_apply, Function.update_apply]
    split_ifs with hfd hclient <;> simp [hfd, hbase]
  | unborn | refused | zombie | reaped => simp [ChildRun.table, gone]

namespace ForkServer

/-- The table of the server after `tcp_server_listen`. -/
def listening (serverFd : ℕ) (inherited : ℕ → Bool) : Descriptors := fun fd =>
  if fd = serverFd then some .listening else if inherited fd then some .inherited else none

def init (serverFd : ℕ) (inherited : ℕ → Bool) : ForkServer where
  descriptors := listening serverFd inherited
  main := .accept
  pending := false
  handling := false
  accepted := 0
  children := fun _ => ⟨.unborn, gone⟩

def setChild (s : ForkServer) (c : ℕ) (child : ChildProcess) : ForkServer :=
  { s with children := Function.update s.children c child }

/-- The child that `fork` makes, if it makes one. -/
def forked (s : ForkServer) (clientFd : ℕ) (succeeds : Bool) : ChildProcess :=
  if succeeds then ⟨.closing clientFd, s.descriptors⟩ else ⟨.refused, gone⟩

/-- While the handler runs, `main` does not. -/
def step (limit serverFd : ℕ) (s : ForkServer) : ForkAction → Option ForkServer
  | .accept succeeds =>
    if s.main = .accept ∧ s.handling = false then
      match if succeeds then lowestFree limit s.descriptors else none with
      | some clientFd =>
        some { s with
          descriptors := Function.update s.descriptors clientFd (some (.connection s.accepted))
          accepted := s.accepted + 1
          main := .fork s.accepted clientFd }
      -- `error` ends the process
      | none => some { s with main := .exited, descriptors := gone }
    else none
  | .fork succeeds =>
    match s.main with
    | .fork c clientFd =>
      if s.handling then none
      else some { s.setChild c (s.forked clientFd succeeds) with main := .close c clientFd }
    | _ => none
  | .close =>
    match s.main with
    | .close _ clientFd =>
      if s.handling then none
      else some { s with
        descriptors := Function.update s.descriptors clientFd none
        main := .accept }
    | _ => none
  | .deliver =>
    if s.pending ∧ s.handling = false ∧ s.main ≠ .exited then
      some { s with pending := false, handling := true }
    else none
  | .waitpid (some c) =>
    if s.handling ∧ (s.children c).run = .zombie then some (s.setChild c ⟨.reaped, gone⟩) else none
  | .waitpid none =>
    if s.handling ∧ ∀ c < s.accepted, (s.children c).run ≠ .zombie then
      some { s with handling := false }
    else none
  | .closeServer c =>
    match (s.children c).run with
    | .closing clientFd =>
      some (s.setChild c
        ⟨.serving clientFd, Function.update (s.children c).descriptors serverFd none⟩)
    | _ => none
  | .exit c =>
    match (s.children c).run with
    | .closing _ | .serving _ => some { s.setChild c ⟨.zombie, gone⟩ with pending := true }
    | _ => none

/-- All that a step can do. -/
inductive Moves (limit serverFd : ℕ) (s : ForkServer) : ForkAction → ForkServer → Prop where
  | accepts (clientFd : ℕ) (hmain : s.main = .accept) (hhandling : s.handling = false)
    (hfree : lowestFree limit s.descriptors = some clientFd) :
    Moves limit serverFd s (.accept true) { s with
      descriptors := Function.update s.descriptors clientFd (some (.connection s.accepted))
      accepted := s.accepted + 1
      main := .fork s.accepted clientFd }
  | acceptFails (succeeds : Bool) (hmain : s.main = .accept) :
    Moves limit serverFd s (.accept succeeds) { s with main := .exited, descriptors := gone }
  | forks (c clientFd : ℕ) (succeeds : Bool) (hmain : s.main = .fork c clientFd) :
    Moves limit serverFd s (.fork succeeds)
      { s.setChild c (s.forked clientFd succeeds) with main := .close c clientFd }
  | closes (c clientFd : ℕ) (hmain : s.main = .close c clientFd) :
    Moves limit serverFd s .close { s with
      descriptors := Function.update s.descriptors clientFd none
      main := .accept }
  | delivers (hpending : s.pending = true) (hhandling : s.handling = false) :
    Moves limit serverFd s .deliver { s with pending := false, handling := true }
  | reaps (c : ℕ) (hzombie : (s.children c).run = .zombie) :
    Moves limit serverFd s (.waitpid (some c)) (s.setChild c ⟨.reaped, gone⟩)
  | handled (hhandling : s.handling = true) (hnone : ∀ c < s.accepted, (s.children c).run ≠ .zombie) :
    Moves limit serverFd s (.waitpid none) { s with handling := false }
  | closesServer (c clientFd : ℕ) (hrun : (s.children c).run = .closing clientFd) :
    Moves limit serverFd s (.closeServer c) (s.setChild c
      ⟨.serving clientFd, Function.update (s.children c).descriptors serverFd none⟩)
  | exits (c clientFd : ℕ)
    (hrun : (s.children c).run = .closing clientFd ∨ (s.children c).run = .serving clientFd) :
    Moves limit serverFd s (.exit c) { s.setChild c ⟨.zombie, gone⟩ with pending := true }

theorem step_moves {limit serverFd : ℕ} {s s' : ForkServer} {a : ForkAction}
    (h : step limit serverFd s a = some s') : Moves limit serverFd s a s' := by
  cases a with
  | accept succeeds =>
    simp only [step] at h
    split_ifs at h with hmain hsucceeds
    · subst hsucceeds
      split at h <;> cases h
      · exact .accepts _ hmain.1 hmain.2 ‹_›
      · exact .acceptFails true hmain.1
    · cases h
      exact .acceptFails succeeds hmain.1
  | fork succeeds =>
    simp only [step] at h
    split at h <;> try cases h
    split_ifs at h
    cases h
    exact .forks _ _ succeeds ‹_›
  | close =>
    simp only [step] at h
    split at h <;> try cases h
    split_ifs at h
    cases h
    exact .closes _ _ ‹_›
  | deliver =>
    simp only [step] at h
    split_ifs at h with hdeliver
    cases h
    exact .delivers hdeliver.1 hdeliver.2.1
  | waitpid child =>
    cases child with
    | some c =>
      simp only [step] at h
      split_ifs at h with hzombie
      cases h
      exact .reaps c hzombie.2
    | none =>
      simp only [step] at h
      split_ifs at h with hnone
      cases h
      exact .handled hnone.1 hnone.2
  | closeServer c =>
    simp only [step] at h
    split at h <;> cases h
    exact .closesServer c _ ‹_›
  | exit c =>
    simp only [step] at h
    split at h <;> cases h
    · exact .exits c _ (.inl ‹_›)
    · exact .exits c _ (.inr ‹_›)

/-! ### Runs -/

/-- The child of the connection `c` has been forked, or has not been for want of a process. -/
def Forked (s : ForkServer) (c : ℕ) : Prop := c < s.accepted ∧ ∀ clientFd, s.main ≠ .fork c clientFd

/-- The server will call `waitpid`. -/
def Signalled (s : ForkServer) : Prop := s.main = .exited ∨ s.pending ∨ s.handling

structure Inv (limit serverFd : ℕ) (base : Descriptors) (s : ForkServer) : Prop where
  table : s.descriptors = s.main.table base
  client : ∀ c clientFd, s.main.client = some (c, clientFd) →
    c + 1 = s.accepted ∧ lowestFree limit base = some clientFd
  children : ∀ c, (s.children c).Meets limit serverFd base (s.Forked c) s.Signalled c

variable {limit serverFd : ℕ} {inherited : ℕ → Bool} {base : Descriptors} {s s' : ForkServer}
  {a : ForkAction} {actions : List ForkAction} {c : ℕ}

theorem inv_init : Inv limit serverFd (listening serverFd inherited) (init serverFd inherited) where
  table := rfl
  client := by simp [init, ForkMain.client]
  children c := by
    constructor <;> simp [init, Forked, ChildRun.table, ChildRun.client]

theorem Inv.accept (h : Inv limit serverFd base s) {clientFd : ℕ} (hmain : s.main = .accept)
    (hhandling : s.handling = false) (hfree : lowestFree limit s.descriptors = some clientFd) :
    Inv limit serverFd base { s with
      descriptors := Function.update s.descriptors clientFd (some (.connection s.accepted))
      accepted := s.accepted + 1
      main := .fork s.accepted clientFd } := by
  have htable : s.descriptors = base := by rw [h.table, hmain, ForkMain.table]
  rw [htable] at hfree ⊢
  refine ⟨rfl, ?_, fun c => (h.children c).mono ?_ ?_⟩
  · intro c fd hclient
    cases hclient
    exact ⟨rfl, hfree⟩
  · simp only [Forked, hmain, ne_eq, reduceCtorEq, not_false_iff, implies_true, and_true,
      ForkMain.fork.injEq, not_and]
    constructor
    · intro hlt
      exact ⟨by omega, fun _ heq => absurd heq.symm hlt.ne⟩
    · rintro ⟨hlt, hne⟩
      have : s.accepted ≠ c := fun heq => hne clientFd heq rfl
      omega
  · simp [Signalled, hmain, hhandling]

theorem Inv.exits (h : Inv limit serverFd base s) (hmain : s.main = .accept) :
    Inv limit serverFd base { s with main := .exited, descriptors := gone } where
  table := rfl
  client := by simp [ForkMain.client]
  children c := (h.children c).mono (by simp [Forked, hmain]) fun _ => .inl rfl

theorem Inv.fork (h : Inv limit serverFd base s) {clientFd : ℕ} (hmain : s.main = .fork c clientFd)
    (succeeds : Bool) :
    Inv limit serverFd base
      { s.setChild c (s.forked clientFd succeeds) with main := .close c clientFd } := by
  have htable : s.descriptors = Function.update base clientFd (some (.connection c)) := by
    rw [h.table, hmain, ForkMain.table]
  obtain ⟨haccepted, hlowest⟩ := h.client c clientFd (by rw [hmain, ForkMain.client])
  refine ⟨htable, ?_, ?_⟩
  · intro c' fd hclient
    cases hclient
    exact ⟨haccepted, hlowest⟩
  · apply (Function.forall_update_iff s.children
      fun c' child => child.Meets limit serverFd base _ _ c').mpr
    constructor
    · cases succeeds
      · constructor <;> simp [ForkServer.forked, Forked, setChild, ChildRun.table, ChildRun.client]
        omega
      · constructor <;>
          simp [ForkServer.forked, Forked, setChild, ChildRun.table, ChildRun.client, htable, hlowest]
        omega
    · intro c' hne
      apply (h.children c').mono
      · simp [Forked, setChild, hmain, hne.symm]
      · simp [Signalled, setChild, hmain]

theorem Inv.close (h : Inv limit serverFd base s) {clientFd : ℕ} (hmain : s.main = .close c clientFd) :
    Inv limit serverFd base { s with
      descriptors := Function.update s.descriptors clientFd none
      main := .accept } := by
  obtain ⟨-, hlowest⟩ := h.client c clientFd (by rw [hmain, ForkMain.client])
  refine ⟨?_, by simp [ForkMain.client], fun c' => (h.children c').mono ?_ ?_⟩
  · rw [h.table, hmain, ForkMain.table, ForkMain.table, update_lowestFree hlowest]
  · simp [Forked, hmain]
  · simp [Signalled, hmain]

/-- A child that has been forked moves on. -/
theorem Inv.moves (h : Inv limit serverFd base s) (run : ChildRun) (pending : Bool)
    (hborn : (s.children c).run ≠ .unborn) (hrun : run ≠ .unborn)
    (hclient : ∀ clientFd, run.client = some clientFd → lowestFree limit base = some clientFd)
    (hpending : s.pending = true → pending = true) (hzombie : run = .zombie → pending = true) :
    Inv limit serverFd base
      { s.setChild c ⟨run, run.table base serverFd c⟩ with pending := pending } := by
  refine ⟨h.table, h.client, (Function.forall_update_iff s.children
      fun c' child => child.Meets limit serverFd base _ _ c').mpr ⟨?_, fun c' _ => ?_⟩⟩
  · exact ⟨iff_of_true hrun ((h.children c).born.mp hborn), rfl, hclient,
      fun hrun => .inr (.inl (hzombie hrun))⟩
  · apply (h.children c').mono Iff.rfl
    exact Or.imp_right (Or.imp_left hpending)

theorem Inv.step (h : Inv limit serverFd base s) (hstep : step limit serverFd s a = some s') :
    Inv limit serverFd base s' := by
  cases step_moves hstep with
  | accepts clientFd hmain hhandling hfree => exact h.accept hmain hhandling hfree
  | acceptFails succeeds hmain => exact h.exits hmain
  | forks c clientFd succeeds hmain => exact h.fork hmain succeeds
  | closes c clientFd hmain => exact h.close hmain
  | delivers =>
    refine ⟨h.table, h.client, fun c => (h.children c).mono Iff.rfl ?_⟩
    simp [Signalled]
  | reaps c hzombie =>
    exact h.moves .reaped s.pending (by simp [hzombie]) (by simp) (by simp [ChildRun.client]) id
      (by simp)
  | handled hhandling hnone =>
    refine ⟨h.table, h.client, fun c => ?_⟩
    obtain ⟨hborn, htable, hclient, -⟩ := h.children c
    refine ⟨hborn, htable, hclient, fun hzombie => absurd hzombie (hnone c ?_)⟩
    rw [ne_eq, hzombie] at hborn
    exact (hborn.mp ChildRun.noConfusion).1
  | closesServer c clientFd hrun =>
    have hclient : (s.children c).run.client = some clientFd := by rw [hrun, ChildRun.client]
    rw [(h.children c).table, hrun, ChildRun.table]
    refine h.moves (.serving clientFd) s.pending (by simp [hrun]) (by simp) ?_ id (by simp)
    intro fd hfd
    cases hfd
    exact (h.children c).client clientFd hclient
  | exits c clientFd hrun =>
    have hborn : (s.children c).run ≠ .unborn := by
      rcases hrun with hrun | hrun <;> rw [hrun] <;> nofun
    exact h.moves .zombie true hborn (by simp) (by simp [ChildRun.client]) (by simp) (by simp)

theorem listening_connection (fd c : ℕ) : listening serverFd inherited fd ≠ some (.connection c) := by
  rw [listening]
  split_ifs <;> simp

theorem listening_listening (fd : ℕ) :
    listening serverFd inherited fd = some .listening ↔ fd = serverFd := by
  rw [listening]
  split_ifs <;> simp [*]

theorem Inv.client_ne_serverFd (h : Inv limit serverFd (listening serverFd inherited) s) (c : ℕ) :
    (s.children c).run.client ≠ some serverFd := by
  intro hclient
  have hfree := lowestFree_free ((h.children c).client serverFd hclient)
  rw [(listening_listening serverFd).mpr rfl] at hfree
  cases hfree

theorem inv_of_reaches (h : Reaches (step limit serverFd) (init serverFd inherited) s) :
    Inv limit serverFd (listening serverFd inherited) s :=
  h.invariant _ inv_init fun _ _ _ hinv hstep => hinv.step hstep

/-- However the server, its handler and its children interleave, the server has a connection
open only between `accept` and `close`, a child has that of its client only, and the listening
socket until it closes it; all of them find their connection at the same descriptor; and no
child is a zombie unless the server has still to be told or is calling `waitpid`. -/
theorem fork_server (h : Reaches (step limit serverFd) (init serverFd inherited) s) :
    (∀ c fd, s.descriptors fd = some (.connection c) ↔ s.main.client = some (c, fd)) ∧
      (∀ c c' fd, (s.children c).descriptors fd = some (.connection c') ↔
        c' = c ∧ (s.children c).run.client = some fd) ∧
      (∀ c fd, (s.children c).descriptors fd = some .listening ↔
        fd = serverFd ∧ ∃ clientFd, (s.children c).run = .closing clientFd) ∧
      (∀ c clientFd, s.main.client = some (c, clientFd) ∨ (s.children c).run.client = some clientFd →
        lowestFree limit (listening serverFd inherited) = some clientFd) ∧
      ∀ c, (s.children c).run = .zombie → s.main = .exited ∨ s.pending ∨ s.handling := by
  have hinv := inv_of_reaches h
  refine ⟨fun c fd => ?_, fun c c' fd => ?_, fun c fd => ?_, ?_, fun c => (hinv.children c).signalled⟩
  · rw [hinv.table]
    exact ForkMain.table_eq_connection listening_connection s.main c fd
  · rw [(hinv.children c).table]
    exact ChildRun.table_eq_connection listening_connection (hinv.client_ne_serverFd c) c c' fd
  · rw [(hinv.children c).table]
    exact ChildRun.table_eq_listening listening_listening (hinv.client_ne_serverFd c) c fd
  · rintro c clientFd (hclient | hclient)
    · exact (hinv.client c clientFd hclient).2
    · exact (hinv.children c).client clientFd hclient

/-- A client has gone while the next one comes. -/
theorem fork_server_two : ∃ s,
    [.accept true, .fork true, .close, .closeServer 0, .accept true, .exit 0].foldlM (step 8 3)
      (init 3 fun fd => fd < 3) = some s ∧
    (s.children 0).run = .zombie ∧ (s.main = .exited ∨ s.pending ∨ s.handling) := by
  obtain ⟨s, hrun, hzombie⟩ : ∃ s,
      [.accept true, .fork true, .close, .closeServer 0, .accept true, .exit 0].foldlM (step 8 3)
        (init 3 fun fd => fd < 3) = some s ∧ (s.children 0).run = .zombie := ⟨_, rfl, rfl⟩
  exact ⟨s, hrun, hzombie, (fork_server (.of_foldlM hrun)).2.2.2.2 0 hzombie⟩

/-! ### The server comes to rest -/

/-- What the world decides: that a client comes, and that a child ends. -/
def External : ForkAction → Prop
  | .accept _ | .exit _ => True
  | .fork _ | .close | .deliver | .waitpid _ | .closeServer _ => False

instance : DecidablePred External := fun a => by cases a <;> unfold External <;> infer_instance

/-- The server is blocked in `accept`, or has exited, and the children serve their clients. -/
def Settled (s : ForkServer) : Prop :=
  (s.main = .accept ∧ s.pending = false ∧ s.handling = false ∨ s.main = .exited) ∧
    ∀ c clientFd, (s.children c).run ≠ .closing clientFd

def mainRank : ForkMain → ℕ
  | .accept | .exited => 0
  | .fork _ _ => 3
  | .close _ _ => 1

def childRank (child : ChildProcess) : ℕ :=
  match child.run with
  | .closing _ | .zombie => 1
  | .unborn | .refused | .serving _ | .reaped => 0

/-- The statements that are left to the server, its handler and its children. -/
def rank (s : ForkServer) : ℕ :=
  mainRank s.main + 2 * s.pending.toNat + s.handling.toNat +
    ∑ c ∈ Finset.range s.accepted, childRank (s.children c)

theorem rank_setChild {main : ForkMain} {pending : Bool} {child : ChildProcess} {i j : ℕ}
    (hc : c < s.accepted)
    (hle : childRank child + mainRank main + 2 * pending.toNat + i ≤
      childRank (s.children c) + mainRank s.main + 2 * s.pending.toNat + j) :
    rank { s.setChild c child with main := main, pending := pending } + i ≤ rank s + j := by
  have hsum := sum_update childRank s.children (Finset.mem_range.mpr hc) child
  simp only [rank, setChild]
  omega

theorem Inv.lt_accepted (h : Inv limit serverFd base s) (hrun : (s.children c).run ≠ .unborn) :
    c < s.accepted := ((h.children c).born.mp hrun).1

theorem Inv.childRank_unborn (h : Inv limit serverFd base s) (hnot : ¬ s.Forked c) :
    childRank (s.children c) = 0 := by
  have hrun : (s.children c).run = .unborn := by
    by_contra hborn
    exact hnot ((h.children c).born.mp hborn)
  rw [childRank, hrun]

theorem Inv.rank_lt (h : Inv limit serverFd base s) (hstep : ForkServer.step limit serverFd s a = some s')
    (hnot : ¬ External a) : rank s' < rank s := by
  cases step_moves hstep with
  | accepts | acceptFails | exits => exact absurd trivial hnot
  | forks c clientFd succeeds hmain =>
    obtain ⟨haccepted, -⟩ := h.client c clientFd (by rw [hmain, ForkMain.client])
    have hunborn := h.childRank_unborn (c := c) fun hforked => hforked.2 clientFd hmain
    have hchild : childRank (s.forked clientFd succeeds) ≤ 1 := by
      cases succeeds <;> simp [forked, childRank]
    apply rank_setChild (i := 1) (j := 0) (by omega)
    simp only [hunborn, hmain, mainRank, setChild]
    omega
  | closes c clientFd hmain =>
    simp only [rank, hmain, mainRank]
    omega
  | delivers hpending hhandling =>
    simp only [rank, hpending, hhandling, Bool.toNat_true, Bool.toNat_false]
    omega
  | reaps c hzombie =>
    apply rank_setChild (i := 1) (j := 0) (h.lt_accepted (by simp [hzombie]))
    simp only [childRank, hzombie]
    omega
  | handled hhandling =>
    simp only [rank, hhandling, Bool.toNat_true, Bool.toNat_false]
    omega
  | closesServer c clientFd hrun =>
    apply rank_setChild (i := 1) (j := 0) (h.lt_accepted (by simp [hrun]))
    simp only [childRank, hrun]
    omega

theorem Inv.rank_external (h : Inv limit serverFd base s)
    (hstep : ForkServer.step limit serverFd s a = some s') (hext : External a) :
    rank s' ≤ rank s + 3 := by
  cases step_moves hstep with
  | accepts clientFd hmain =>
    have hunborn := h.childRank_unborn (c := s.accepted) fun hforked => hforked.1.false
    simp only [rank, hmain, mainRank, Finset.sum_range_succ, hunborn]
    omega
  | acceptFails succeeds hmain =>
    simp only [rank, hmain, mainRank]
    omega
  | exits c clientFd hrun =>
    have hborn : (s.children c).run ≠ .unborn := by
      rcases hrun with hrun | hrun <;> rw [hrun] <;> nofun
    apply rank_setChild (i := 0) (j := 3) (h.lt_accepted hborn)
    simp only [childRank, setChild, Bool.toNat_true]
    omega
  | forks | closes | delivers | reaps | handled | closesServer => exact hext.elim

/-- What is not at rest moves on by itself. -/
theorem moves_on (hnot : ¬ s.Settled) :
    ∃ a s', ¬ External a ∧ ForkServer.step limit serverFd s a = some s' := by
  by_cases hclosing : ∃ c clientFd, (s.children c).run = .closing clientFd
  · obtain ⟨c, clientFd, hrun⟩ := hclosing
    exact ⟨.closeServer c, _, id, by simp only [ForkServer.step, hrun]; rfl⟩
  by_cases hhandling : s.handling = true
  · by_cases hzombie : ∃ c < s.accepted, (s.children c).run = .zombie
    · obtain ⟨c, -, hrun⟩ := hzombie
      exact ⟨.waitpid (some c), _, id, if_pos ⟨hhandling, hrun⟩⟩
    · push Not at hzombie
      exact ⟨.waitpid none, _, id, if_pos ⟨hhandling, hzombie⟩⟩
  rw [Bool.not_eq_true] at hhandling
  cases hmain : s.main with
  | accept =>
    have hpending : s.pending = true := by
      by_contra hpending
      apply hnot
      refine ⟨.inl ⟨hmain, by simpa using hpending, hhandling⟩, fun c clientFd hrun => ?_⟩
      exact hclosing ⟨c, clientFd, hrun⟩
    exact ⟨.deliver, _, id, if_pos ⟨hpending, hhandling, by simp [hmain]⟩⟩
  | fork c clientFd => exact ⟨.fork true, _, id, by simp only [ForkServer.step, hmain, hhandling]; rfl⟩
  | close c clientFd => exact ⟨.close, _, id, by simp only [ForkServer.step, hmain, hhandling]; rfl⟩
  | exited =>
    exact absurd ⟨.inr hmain, fun c clientFd hrun => hclosing ⟨c, clientFd, hrun⟩⟩ hnot

/-- The handler keeps up: after at most three statements for each client that comes and each
child that ends, the server is back in `accept` with the table it started with, and every
child that has ended has been reaped. -/
theorem fork_server_settles {actions : List ForkAction}
    (hpath : actions.foldlM (step limit serverFd) (init serverFd inherited) = some s) :
    actions.countP (¬ External ·) ≤ 3 * actions.countP (External ·) ∧
      ∃ (later : List ForkAction) (s' : ForkServer), (∀ a ∈ later, ¬ External a) ∧ later.foldlM (step limit serverFd) s = some s' ∧
        s'.Settled ∧ (s'.main = .accept → s'.descriptors = listening serverFd inherited ∧
          ∀ c, (s'.children c).run ≠ .zombie) := by
  have hkeeps : ∀ s a s', Inv limit serverFd (listening serverFd inherited) s →
      ForkServer.step limit serverFd s a = some s' →
      Inv limit serverFd (listening serverFd inherited) s' := fun _ _ _ h hstep => h.step hstep
  have hworks : ∀ s a s', Inv limit serverFd (listening serverFd inherited) s →
      ForkServer.step limit serverFd s a = some s' → ¬ External a → rank s' < rank s :=
    fun _ _ _ h => h.rank_lt
  have hexternal : ∀ s a s', Inv limit serverFd (listening serverFd inherited) s →
      ForkServer.step limit serverFd s a = some s' → External a → rank s' ≤ rank s + 3 :=
    fun _ _ _ h => h.rank_external
  have hinv := inv_of_reaches (Reaches.of_foldlM hpath)
  constructor
  · have hrank := rank_path hkeeps hworks hexternal inv_init hpath
    have hinit : rank (init serverFd inherited) = 0 := rfl
    omega
  · obtain ⟨later, s', hlater, hrest, hsettled⟩ :=
      exists_finished hkeeps hworks (fun _ _ hnot => moves_on hnot) hinv
    refine ⟨later, s', hlater, hrest, hsettled, fun hmain => ?_⟩
    have hinv' := foldlM_invariant hkeeps hinv hrest
    refine ⟨by rw [hinv'.table, hmain, ForkMain.table], fun c hzombie => ?_⟩
    obtain ⟨-, hpending, hhandling⟩ := hsettled.1.resolve_right (by simp [hmain])
    have := (hinv'.children c).signalled hzombie
    simp [Signalled, hmain, hpending, hhandling] at this

/-- The second client is lost, as `fork` fails. -/
theorem fork_server_settles_two : ∃ s,
    [.accept true, .fork true, .close, .accept true, .fork false, .exit 0].foldlM (step 8 3)
      (init 3 fun fd => fd < 3) = some s ∧
    ∃ (later : List ForkAction) (s' : ForkServer), (∀ a ∈ later, ¬ External a) ∧
      later.foldlM (step 8 3) s = some s' ∧ s'.Settled := by
  obtain ⟨s, hrun⟩ : ∃ s,
      [.accept true, .fork true, .close, .accept true, .fork false, .exit 0].foldlM (step 8 3)
        (init 3 fun fd => fd < 3) = some s := ⟨_, rfl⟩
  obtain ⟨later, s', hlater, hrest, hsettled, -⟩ := (fork_server_settles hrun).2
  exact ⟨s, hrun, later, s', hlater, hrest, hsettled⟩

end ForkServer

end OsProgramming.Servers
