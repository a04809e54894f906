import OsProgramming.Library.Runs
import Mathlib.Data.List.Nodup

/-! `threads_server.c`. The variable `client_fd` of the accept loop is one cell: every
`accept` writes it, and every thread reads it through the address it was created with. -/

namespace OsProgramming.Servers

open Library

/-- What `main` does next. -/
inductive AcceptLoop where
  | accept
  | create
  /-- `error` ends the process -/
  | error
  deriving DecidableEq

/-- A thread of `handleClient` is what it has read of the cell, if it has. Nothing closes
the descriptors `accepted`. -/
structure ThreadsServer where
  main : AcceptLoop
  clientFd : ℤ
  threads : List (Option ℤ)
  accepted : List ℤ
  exited : Bool

inductive ThreadsEvent where
  /-- the next step of `main`; if that is `accept`, it returns `fd` -/
  | main (fd : ℤ)
  /-- the next step of a thread; if it is in `loop_echo`, its `recv` fails or not -/
  | thread (index : ℕ) (failed : Bool)

namespace ThreadsServer

def init : ThreadsServer := ⟨.accept, 0, [], [], false⟩

/-- The body of the loop, up to the next call. -/
def stepMain (s : ThreadsServer) (fd : ℤ) : ThreadsServer :=
  match s.main with
  | .accept =>
    if fd < 0 then { s with clientFd := fd, main := .error }
    else { s with clientFd := fd, main := .create, accepted := s.accepted ++ [fd] }
  | .create => { s with threads := s.threads ++ [none], main := .accept }
  | .error => { s with exited := true }

/-- A failed `recv` in `loop_echo` ends the process. -/
def handleClient (s : ThreadsServer) (index : ℕ) (failed : Bool) : ThreadsServer :=
  match s.threads[index]? with
  | none => s
  | some none => { s with threads := s.threads.set index (some s.clientFd) }
  | some (some _) => if failed then { s with exited := true } else s

def step (s : ThreadsServer) (event : ThreadsEvent) : Result ThreadsServer :=
  if s.exited then .ok s
  else
    match event with
    | .main fd => .ok (s.stepMain fd)
    | .thread index failed => .ok (s.handleClient index failed)

/-- `accept` does not return a descriptor that is open. -/
def Fresh (s : ThreadsServer) : ThreadsEvent → Prop
  | .main fd => s.main = .accept → fd ∉ s.accepted
  | .thread _ _ => True

/-- When `accept` writes the cell, every thread has read it. -/
def HandedOver (s : ThreadsServer) : ThreadsEvent → Prop
  | .main _ => s.exited = false → s.main = .accept → none ∉ s.threads
  | .thread _ _ => True

/-- Exactly one thread has read the descriptor. -/
def ReadByOne (s : ThreadsServer) (fd : ℤ) : Prop := s.threads.count (some fd) = 1

/-- No thread has read the descriptor, and one will find it in the cell. -/
def Offered (s : ThreadsServer) (fd : ℤ) : Prop :=
  some fd ∉ s.threads ∧ s.clientFd = fd ∧ (s.main = .create ∨ none ∈ s.threads)

/-- Every client has one thread that serves it, or is the one for whom a thread is about
to start. -/
def Serves (s : ThreadsServer) : Prop := ∀ fd ∈ s.accepted, s.ReadByOne fd ∨ s.Offered fd

/-- Every accepted client has got its thread, and every thread has read the cell. -/
def Started (s : ThreadsServer) : Prop := s.main ≠ .create ∧ none ∉ s.threads

/-- No thread has read the descriptor, and none will find it. -/
def Loses (s : ThreadsServer) : Prop :=
  ∃ fd ∈ s.accepted, some fd ∉ s.threads ∧ s.clientFd ≠ fd

instance (s : ThreadsServer) : (event : ThreadsEvent) → Decidable (s.Fresh event)
  | .main fd => inferInstanceAs (Decidable (s.main = .accept → fd ∉ s.accepted))
  | .thread _ _ => .isTrue trivial

instance (s : ThreadsServer) : (event : ThreadsEvent) → Decidable (s.HandedOver event)
  | .main _ => inferInstanceAs (Decidable (s.exited = false → s.main = .accept → none ∉ s.threads))
  | .thread _ _ => .isTrue trivial

/-- The threads have read the descriptors in the order of `accept`, and at most the last
one is still in the cell. -/
inductive InOrder (s : ThreadsServer) : Prop
  | started : s.main ≠ .create → s.threads = s.accepted.map some → InOrder s
  | creating (fds : List ℤ) : s.main = .create → s.accepted = fds ++ [s.clientFd] →
      s.threads = fds.map some → InOrder s
  | starting (fds : List ℤ) : s.main = .accept → s.accepted = fds ++ [s.clientFd] →
      s.threads = fds.map some ++ [none] → InOrder s

structure Inv (s : ThreadsServer) : Prop where
  nodup : s.accepted.Nodup
  inOrder : s.InOrder

variable {s s' : ThreadsServer}

theorem inv_init : init.Inv := ⟨List.nodup_nil, .started nofun rfl⟩

theorem some_mem_map {fds : List ℤ} {fd : ℤ} : some fd ∈ fds.map some ↔ fd ∈ fds :=
  List.mem_map_of_injective (Option.some_injective ℤ)

theorem none_notMem_map (fds : List ℤ) : none ∉ fds.map some := by
  intro h
  obtain ⟨fd, -, hnone⟩ := List.mem_map.mp h
  cases hnone

theorem count_map_some {fds : List ℤ} (h : fds.Nodup) {fd : ℤ} (hfd : fd ∈ fds) :
    (fds.map some).count (some fd) = 1 :=
  List.count_eq_one_of_mem (h.map (Option.some_injective ℤ)) (some_mem_map.mpr hfd)

theorem notMem_of_nodup_append {fds : List ℤ} {fd : ℤ} (h : (fds ++ [fd]).Nodup) : fd ∉ fds :=
  fun hmem => (List.nodup_append.mp h).2.2 fd hmem fd (List.mem_singleton.mpr rfl) rfl

/-- The client in the cell has not been read. -/
theorem Inv.cell_notMem (h : s.Inv) {fds : List ℤ} (haccepted : s.accepted = fds ++ [s.clientFd])
    (hthreads : s.threads = fds.map some ∨ s.threads = fds.map some ++ [none]) :
    some s.clientFd ∉ s.threads := by
  have hnew : some s.clientFd ∉ fds.map some :=
    mt some_mem_map.mp (notMem_of_nodup_append (haccepted ▸ h.nodup))
  rcases hthreads with hthreads | hthreads
  · rwa [hthreads]
  · rw [hthreads, List.mem_append, List.mem_singleton]
    rintro (hmem | hnone)
    · exact hnew hmem
    · cases hnone

/-- If every thread has read the cell, each has read its own client. -/
theorem Inv.threads_of_none_notMem (h : s.Inv) (hmain : s.main ≠ .create)
    (hnone : none ∉ s.threads) : s.threads = s.accepted.map some := by
  cases h.inOrder with
  | started _ hthreads => exact hthreads
  | creating _ hmain' => exact absurd hmain' hmain
  | starting fds _ _ hthreads =>
    rw [hthreads] at hnone
    exact absurd (List.mem_append_right _ (List.mem_singleton.mpr rfl)) hnone

theorem Inv.serves (h : s.Inv) : s.Serves := by
  intro fd hfd
  have hnodup := h.nodup
  cases h.inOrder with
  | started _ hthreads =>
    refine .inl ?_
    rw [ReadByOne, hthreads]
    exact count_map_some hnodup hfd
  | creating fds hmain haccepted hthreads =>
    rw [haccepted] at hfd hnodup
    rcases List.mem_append.mp hfd with hfd | hfd
    · refine .inl ?_
      rw [ReadByOne, hthreads]
      exact count_map_some (List.nodup_append.mp hnodup).1 hfd
    · cases List.mem_singleton.mp hfd
      exact .inr ⟨h.cell_notMem haccepted (.inl hthreads), rfl, .inl hmain⟩
  | starting fds _ haccepted hthreads =>
    rw [haccepted] at hfd hnodup
    rcases List.mem_append.mp hfd with hfd | hfd
    · refine .inl ?_
      rw [ReadByOne, hthreads, List.count_append,
        count_map_some (List.nodup_append.mp hnodup).1 hfd]
      rfl
    · cases List.mem_singleton.mp hfd
      refine .inr ⟨h.cell_notMem haccepted (.inr hthreads), rfl, .inr ?_⟩
      rw [hthreads]
      exact List.mem_append_right _ (List.mem_singleton.mpr rfl)

theorem step_ok (s : ThreadsServer) (event : ThreadsEvent) : ∃ s', s.step event = .ok s' := by
  simp only [step]
  split_ifs
  · exact ⟨_, rfl⟩
  · cases event <;> exact ⟨_, rfl⟩

/-- What a step can do. -/
inductive Moves (s : ThreadsServer) : ThreadsEvent → ThreadsServer → Prop
  | stays (event : ThreadsEvent) : Moves s event s
  | exits (event : ThreadsEvent) : Moves s event { s with exited := true }
  | fails (fd : ℤ) : s.exited = false → s.main = .accept → fd < 0 →
      Moves s (.main fd) { s with clientFd := fd, main := .error }
  | accepts (fd : ℤ) : s.exited = false → s.main = .accept → 0 ≤ fd →
      Moves s (.main fd)
        { s with clientFd := fd, main := .create, accepted := s.accepted ++ [fd] }
  | creates (fd : ℤ) : s.main = .create →
      Moves s (.main fd) { s with threads := s.threads ++ [none], main := .accept }
  | reads (index : ℕ) (failed : Bool) : s.threads[index]? = some none →
      Moves s (.thread index failed)
        { s with threads := s.threads.set index (some s.clientFd) }

theorem moves {event : ThreadsEvent} (h : s.step event = .ok s') : s.Moves event s' := by
  simp only [step] at h
  split_ifs at h with hexited
  · cases h
    exact .stays event
  rw [Bool.not_eq_true] at hexited
  cases event with
  | main fd =>
    cases h
    rw [stepMain]
    split
    next hmain =>
      split_ifs with hfd
      · exact .fails fd hexited hmain hfd
      · exact .accepts fd hexited hmain (not_lt.mp hfd)
    next hmain => exact .creates fd hmain
    next => exact .exits _
  | thread index failed =>
    cases h
    rw [handleClient]
    split
    next => exact .stays _
    next hthread => exact .reads index failed hthread
    next =>
      cases failed with
      | false => exact .stays _
      | true => exact .exits _

/-- Handing over, the threads stay in order. -/
theorem Inv.step (h : s.Inv) {event : ThreadsEvent} (hfresh : s.Fresh event)
    (hhanded : s.HandedOver event) (hret : s.step event = .ok s') : s'.Inv := by
  cases moves hret with
  | stays => exact h
  | exits =>
    refine ⟨h.nodup, ?_⟩
    cases h.inOrder with
    | started hmain hthreads => exact .started hmain hthreads
    | creating fds hmain haccepted hthreads => exact .creating fds hmain haccepted hthreads
    | starting fds hmain haccepted hthreads => exact .starting fds hmain haccepted hthreads
  | fails fd hexited hmain _ =>
    refine ⟨h.nodup, .started nofun ?_⟩
    exact h.threads_of_none_notMem (hmain ▸ nofun) (hhanded hexited hmain)
  | accepts fd hexited hmain _ =>
    refine ⟨?_, .creating s.accepted rfl rfl ?_⟩
    · exact List.nodup_append.mpr ⟨h.nodup, List.nodup_singleton fd, fun fd' hfd' fd'' hfd'' heq =>
        hfresh hmain (List.mem_singleton.mp hfd'' ▸ heq ▸ hfd')⟩
    · exact h.threads_of_none_notMem (hmain ▸ nofun) (hhanded hexited hmain)
  | creates _ hmain =>
    refine ⟨h.nodup, ?_⟩
    cases h.inOrder with
    | started hne => exact absurd hmain hne
    | creating fds _ haccepted hthreads =>
      exact .starting fds rfl haccepted (congrArg (· ++ [none]) hthreads)
    | starting _ hmain' => exact absurd (hmain.symm.trans hmain') nofun
  | reads index _ hindex =>
    refine ⟨h.nodup, ?_⟩
    have hmem : none ∈ s.threads := List.mem_of_getElem? hindex
    cases h.inOrder with
    | started _ hthreads => exact absurd (hthreads ▸ hmem) (none_notMem_map _)
    | creating _ _ _ hthreads => exact absurd (hthreads ▸ hmem) (none_notMem_map _)
    | starting fds hmain haccepted hthreads =>
      refine .started (hmain ▸ nofun) ?_
      rw [hthreads] at hindex
      have hlt : index < (fds.map some ++ [none]).length := (List.getElem?_eq_some_iff.mp hindex).1
      have hlast : index = (fds.map some).length := by
        by_contra hne
        rw [List.length_append, List.length_singleton] at hlt
        rw [List.getElem?_append_left (by omega)] at hindex
        exact none_notMem_map fds (List.mem_of_getElem? hindex)
      show s.threads.set index (some s.clientFd) = s.accepted.map some
      rw [hthreads, hlast, List.set_append_right _ _ le_rfl, Nat.sub_self, haccepted, List.map_append]
      rfl

/-- An `accept` that overtakes a thread takes its client away. -/
theorem Inv.loses (h : s.Inv) {event : ThreadsEvent} (hfresh : s.Fresh event)
    (hovertakes : ¬ s.HandedOver event) (hret : s.step event = .ok s') : s'.Loses := by
  cases event with
  | thread => exact absurd trivial hovertakes
  | main fd =>
    simp only [HandedOver, not_forall, not_not] at hovertakes
    obtain ⟨hexited, hmain, hnone⟩ := hovertakes
    have hold : s.clientFd ∈ s.accepted ∧ some s.clientFd ∉ s.threads := by
      cases h.inOrder with
      | started _ hthreads => exact absurd (hthreads ▸ hnone) (none_notMem_map _)
      | creating _ _ _ hthreads => exact absurd (hthreads ▸ hnone) (none_notMem_map _)
      | starting fds _ haccepted hthreads =>
        refine ⟨?_, h.cell_notMem haccepted (.inr hthreads)⟩
        rw [haccepted]
        exact List.mem_append_right _ (List.mem_singleton.mpr rfl)
    have hne : fd ≠ s.clientFd := fun heq => hfresh hmain (heq ▸ hold.1)
    have hstep : s.step (.main fd) = .ok (s.stepMain fd) := if_neg (by rw [hexited]; nofun)
    cases hstep.symm.trans hret
    simp only [stepMain, hmain]
    split_ifs
    · exact ⟨s.clientFd, hold.1, hold.2, hne⟩
    · exact ⟨s.clientFd, List.mem_append_left _ hold.1, hold.2, hne⟩

/-- A lost client stays lost. -/
theorem Loses.step (h : s.Loses) {event : ThreadsEvent} (hfresh : s.Fresh event)
    (hret : s.step event = .ok s') : s'.Loses := by
  obtain ⟨lost, hmem, hread, hcell⟩ := h
  have hne : ∀ fd, fd ∉ s.accepted → fd ≠ lost := fun fd hnew heq => hnew (heq ▸ hmem)
  cases moves hret with
  | stays => exact ⟨lost, hmem, hread, hcell⟩
  | exits => exact ⟨lost, hmem, hread, hcell⟩
  | fails fd _ hmain => exact ⟨lost, hmem, hread, hne fd (hfresh hmain)⟩
  | accepts fd _ hmain =>
    exact ⟨lost, List.mem_append_left _ hmem, hread, hne fd (hfresh hmain)⟩
  | creates =>
    refine ⟨lost, hmem, ?_, hcell⟩
    show some lost ∉ s.threads ++ [none]
    rw [List.mem_append, List.mem_singleton]
    rintro (hmem' | hnone)
    · exact hread hmem'
    · cases hnone
  | reads index =>
    refine ⟨lost, hmem, ?_, hcell⟩
    intro hmem'
    rcases List.mem_or_eq_of_mem_set hmem' with hmem' | heq
    · exact hread hmem'
    · exact hcell (Option.some.inj heq).symm

theorem Loses.not_serves (h : s.Loses) : ¬ s.Serves := by
  obtain ⟨lost, hmem, hread, hcell⟩ := h
  intro hserves
  rcases hserves lost hmem with hone | hoffered
  · rw [ReadByOne, List.count_eq_zero_of_not_mem hread] at hone
    cases hone
  · exact hcell hoffered.2.1

theorem Inv.readByOne (h : s.Inv) (hstarted : s.Started) : ∀ fd ∈ s.accepted, s.ReadByOne fd := by
  intro fd hfd
  rw [ReadByOne, h.threads_of_none_notMem hstarted.1 hstarted.2]
  exact count_map_some h.nodup hfd

theorem Loses.not_readByOne (h : s.Loses) : ¬ ∀ fd ∈ s.accepted, s.ReadByOne fd := by
  obtain ⟨lost, hmem, hread, -⟩ := h
  intro hone
  have hcount := hone lost hmem
  rw [ReadByOne, List.count_eq_zero_of_not_mem hread] at hcount
  cases hcount

theorem serves_iff (s : ThreadsServer) (event : ThreadsEvent) (s' : ThreadsServer) (h : s.Inv)
    (hfresh : s.Fresh event) (hret : s.step event = .ok s') : s'.Serves ↔ s.HandedOver event := by
  constructor
  · intro hserves
    by_contra hovertakes
    exact (h.loses hfresh hovertakes hret).not_serves hserves
  · intro hhanded
    exact (h.step hfresh hhanded hret).serves

/-- In every interleaving, every client has or is about to get one thread after each step
if and only if no `accept` overtakes a thread; and once all threads have started, the end
of the run shows it. -/
theorem served_by_one_iff (events : List ThreadsEvent) (hfresh : Admissible step Fresh init events) :
    ∃ s, events.foldlM step init = .ok s ∧
      (EachStep step (fun _ _ s' => s'.Serves) init events ↔
        Admissible step HandedOver init events) ∧
      (s.Started → ((∀ fd ∈ s.accepted, s.ReadByOne fd) ↔
        Admissible step HandedOver init events)) := by
  have hok : ∀ (s : ThreadsServer) event, True → s.Fresh event →
      ∃ s', s.step event = .ok s' ∧ True := by
    intro s event _ _
    obtain ⟨s', hs'⟩ := s.step_ok event
    exact ⟨s', hs', trivial⟩
  obtain ⟨s, hrun, -⟩ := foldlM_ok hok trivial hfresh
  refine ⟨s, hrun, ?_, ?_⟩
  · exact eachStep_iff_of_admissible (fun _ _ _ h => h.step) serves_iff inv_init hfresh hrun
  · intro hstarted
    rcases foldlM_inv_or_broken (fun _ _ _ h => h.step) (fun _ _ _ h => h.loses)
      (fun _ _ _ h => h.step) inv_init hfresh hrun with ⟨hadm, hinv⟩ | ⟨hnot, hlost⟩
    · exact iff_of_true (hinv.readByOne hstarted) hadm
    · exact iff_of_false hlost.not_readByOne hnot

/-- The second client is accepted before the thread of the first one runs. -/
theorem two_threads_serve_one :
    ∃ s, [.main 4, .main 0, .main 5, .thread 0 false, .main 0, .thread 1 false].foldlM step init =
        .ok s ∧
      s.Started ∧ s.accepted = [4, 5] ∧ s.threads = [some 5, some 5] ∧
      ¬ ∀ fd ∈ s.accepted, s.ReadByOne fd := by
  refine ⟨_, rfl, ⟨nofun, by decide⟩, rfl, rfl, ?_⟩
  intro hone
  exact absurd (hone 4 (by decide)) (by unfold ReadByOne; decide)

theorem served_by_one_iff_two :
    ∃ s, [.main 4, .main 0, .thread 0 false, .main 5, .main 0, .thread 1 true].foldlM step init =
        .ok s ∧
      ∀ fd ∈ s.accepted, s.ReadByOne fd := by
  obtain ⟨s, hrun, -, hone⟩ := served_by_one_iff
    [.main 4, .main 0, .thread 0 false, .main 5, .main 0, .thread 1 true] (by decide)
  refine ⟨s, hrun, (hone ?_).mpr (by decide)⟩
  cases hrun
  exact ⟨nofun, by decide⟩

end ThreadsServer

end OsProgramming.Servers
