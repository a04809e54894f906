import OsProgramming.Library.Format
import OsProgramming.Library.Runs

/-! `createPidFile`, with which a program makes sure that only one instance of it runs. The
lock belongs to the file and not to its name, and the caller deletes the name before it ends. -/

namespace OsProgramming.Tlpi

open Library

def bufSize : ℕ := 100

/-- What `snprintf` leaves in the buffer for `write`. -/
def pidText (pid : ℕ) : List Char := (decimal pid ++ ['\n']).take (bufSize - 1)

/-- The next statement of a process, and the file that it has open. -/
inductive PidPhase where
  /-- without the file: it has not called `createPidFile`, or has ended -/
  | idle
  | setCloexec (file : ℕ)
  | lockRegion (file : ℕ)
  | ftruncate (file : ℕ)
  | write (file : ℕ)
  /-- `createPidFile` has returned -/
  | running (file : ℕ)
  /-- the name has been deleted, and the process is about to end -/
  | leaving (file : ℕ)
  deriving DecidableEq

/-- `path` is the file that the name refers to, and `locks` are the processes with a lock. -/
structure PidFile where
  path : Option ℕ
  contents : ℕ → List Char
  locks : ℕ → Option ℕ
  nextFile : ℕ
  phases : ℕ → PidPhase

inductive PidAction where
  | open (pid : ℕ) (succeeds : Bool)
  | setCloexec (pid : ℕ) (succeeds : Bool)
  | lockRegion (pid : ℕ) (succeeds : Bool)
  | ftruncate (pid : ℕ) (succeeds : Bool)
  /-- `write` writes so many bytes at most -/
  | write (pid count : ℕ)
  | unlink (pid : ℕ)
  /-- the process ends, for whatever reason -/
  | exit (pid : ℕ)
  deriving DecidableEq

namespace PidFile

/-- `file` is what an earlier instance has left behind. -/
def init (file : Option (List Char)) : PidFile where
  path := file.map fun _ => 0
  contents := fun _ => file.getD []
  locks := fun _ => none
  nextFile := 1
  phases := fun _ => .idle

def setPhase (s : PidFile) (pid : ℕ) (phase : PidPhase) : PidFile :=
  { s with phases := Function.update s.phases pid phase }

def setContents (s : PidFile) (file : ℕ) (text : List Char) : PidFile :=
  { s with contents := Function.update s.contents file text }

/-- `open` with `O_CREAT`. -/
def openFile (s : PidFile) : ℕ × PidFile :=
  match s.path with
  | some file => (file, s)
  | none =>
    (s.nextFile, { s.setContents s.nextFile [] with
      path := some s.nextFile
      nextFile := s.nextFile + 1 })

/-- The end of a process, by `errExit` or `fatal` too. Its lock goes with it. -/
def exitProcess (s : PidFile) (pid : ℕ) : PidFile :=
  { s.setPhase pid .idle with
    locks := fun file => if s.locks file = some pid then none else s.locks file }

/-- What follows `open`; `cloexec` tells if a process passes `CPF_CLOEXEC`. -/
def opened (cloexec : ℕ → Bool) (pid file : ℕ) : PidPhase :=
  if cloexec pid then .setCloexec file else .lockRegion file

def step (cloexec : ℕ → Bool) (s : PidFile) : PidAction → Option PidFile
  | .open pid succeeds =>
    match s.phases pid with
    | .idle =>
      if succeeds then
        let (file, s) := s.openFile
        some (s.setPhase pid (opened cloexec pid file))
      else some s
    | _ => none
  | .setCloexec pid succeeds =>
    match s.phases pid with
    | .setCloexec file =>
      some (if succeeds then s.setPhase pid (.lockRegion file) else s.exitProcess pid)
    | _ => none
  | .lockRegion pid succeeds =>
    match s.phases pid with
    | .lockRegion file =>
      if succeeds ∧ (s.locks file = none ∨ s.locks file = some pid) then
        some { s.setPhase pid (.ftruncate file) with
          locks := Function.update s.locks file (some pid) }
      else some (s.exitProcess pid)
    | _ => none
  | .ftruncate pid succeeds =>
    match s.phases pid with
    | .ftruncate file =>
      some (if succeeds then (s.setContents file []).setPhase pid (.write file)
        else s.exitProcess pid)
    | _ => none
  | .write pid count =>
    match s.phases pid with
    | .write file =>
      let s := s.setContents file ((pidText pid).take count)
      some (if (pidText pid).length ≤ count then s.setPhase pid (.running file)
        else s.exitProcess pid)
    | _ => none
  | .unlink pid =>
    match s.phases pid with
    | .running file => some { s.setPhase pid (.leaving file) with path := none }
    | _ => none
  | .exit pid => if s.phases pid = .idle then none else some (s.exitProcess pid)

/-- All that a step can do. -/
inductive Moves (cloexec : ℕ → Bool) (s : PidFile) : PidAction → PidFile → Prop where
  | openFails (pid : ℕ) : Moves cloexec s (.open pid false) s
  | opens (pid : ℕ) (hphase : s.phases pid = .idle) :
    Moves cloexec s (.open pid true) (s.openFile.2.setPhase pid (opened cloexec pid s.openFile.1))
  | setsCloexec (pid file : ℕ) (hphase : s.phases pid = .setCloexec file) :
    Moves cloexec s (.setCloexec pid true) (s.setPhase pid (.lockRegion file))
  | locks (pid file : ℕ) (hphase : s.phases pid = .lockRegion file)
    (hfree : s.locks file = none ∨ s.locks file = some pid) :
    Moves cloexec s (.lockRegion pid true) { s.setPhase pid (.ftruncate file) with
      locks := Function.update s.locks file (some pid) }
  | truncates (pid file : ℕ) (hphase : s.phases pid = .ftruncate file) :
    Moves cloexec s (.ftruncate pid true) ((s.setContents file []).setPhase pid (.write file))
  | writes (pid file count : ℕ) (hphase : s.phases pid = .write file)
    (hcount : (pidText pid).length ≤ count) :
    Moves cloexec s (.write pid count)
      ((s.setContents file ((pidText pid).take count)).setPhase pid (.running file))
  | writeFails (pid file count : ℕ) (hphase : s.phases pid = .write file) :
    Moves cloexec s (.write pid count)
      ((s.setContents file ((pidText pid).take count)).exitProcess pid)
  | unlinks (pid file : ℕ) (hphase : s.phases pid = .running file) :
    Moves cloexec s (.unlink pid) { s.setPhase pid (.leaving file) with path := none }
  /-- also where another call fails -/
  | exits (pid : ℕ) (action : PidAction) : Moves cloexec s action (s.exitProcess pid)

theorem step_moves {cloexec : ℕ → Bool} {s s' : PidFile} {action : PidAction}
    (h : step cloexec s action = some s') : Moves cloexec s action s' := by
  cases action with
  | «open» pid succeeds =>
    simp only [step] at h
    split at h <;> try cases h
    cases succeeds <;> cases h
    · exact .openFails pid
    · exact .opens pid ‹_›
  | setCloexec pid succeeds =>
    simp only [step] at h
    split at h <;> cases h
    cases succeeds
    · exact .exits pid _
    · exact .setsCloexec pid _ ‹_›
  | lockRegion pid succeeds =>
    simp only [step] at h
    split at h <;> try cases h
    split_ifs at h with hlock <;> cases h
    · obtain ⟨rfl, hfree⟩ := hlock
      exact .locks pid _ ‹_› hfree
    · exact .exits pid _
  | ftruncate pid succeeds =>
    simp only [step] at h
    split at h <;> cases h
    cases succeeds
    · exact .exits pid _
    · exact .truncates pid _ ‹_›
  | write pid count =>
    simp only [step] at h
    split at h <;> cases h
    split_ifs with hcount
    · exact .writes pid _ count ‹_› hcount
    · exact .writeFails pid _ count ‹_›
  | unlink pid =>
    simp only [step] at h
    split at h <;> cases h
    exact .unlinks pid _ ‹_›
  | exit pid =>
    simp only [step] at h
    split_ifs at h
    cases h
    exact .exits pid _

end PidFile

/-! ### What a process has -/

/-- The file that a process has open. -/
def PidPhase.file : PidPhase → Option ℕ
  | .idle => none
  | .setCloexec file | .lockRegion file | .ftruncate file | .write file | .running file
  | .leaving file => some file

/-- The file that a process has locked. -/
def PidPhase.locked : PidPhase → Option ℕ
  | .idle | .setCloexec _ | .lockRegion _ => none
  | .ftruncate file | .write file | .running file | .leaving file => some file

/-- What a process knows of the file that it has locked. -/
def PidPhase.Knows (pid : ℕ) (contents : ℕ → List Char) : PidPhase → Prop
  | .idle | .setCloexec _ | .lockRegion _ | .ftruncate _ => True
  | .write file => contents file = []
  | .running file | .leaving file => contents file = pidText pid

namespace PidFile

structure Inv (s : PidFile) : Prop where
  locks : ∀ pid file, (s.phases pid).locked = some file ↔ s.locks file = some pid
  opened : ∀ pid file, (s.phases pid).file = some file → file < s.nextFile
  named : ∀ file, s.path = some file → file < s.nextFile
  knows : ∀ pid, (s.phases pid).Knows pid s.contents

variable {cloexec : ℕ → Bool} {file : Option (List Char)} {s s' : PidFile} {pid : ℕ}
  {phase : PidPhase} {action : PidAction}

theorem inv_init : Inv (init file) := by
  constructor <;> simp [init, PidPhase.locked, PidPhase.file, PidPhase.Knows]

/-- What a process knows depends on the file that it has locked only. -/
theorem knows_of_locked {contents contents' : ℕ → List Char}
    (h : phase.Knows pid contents)
    (heq : ∀ file, phase.locked = some file → contents' file = contents file) :
    phase.Knows pid contents' := by
  cases phase with
  | idle | setCloexec _ | lockRegion _ | ftruncate _ => trivial
  | write file | running file | leaving file => exact (heq file rfl).trans h

/-- One process moves on. Nobody else loses a lock, or finds another text in a file that it
has locked. -/
theorem Inv.moves (h : Inv s) (pid : ℕ) (phase : PidPhase)
    (hphases : s'.phases = Function.update s.phases pid phase)
    (hlocks : ∀ file, phase.locked = some file ↔ s'.locks file = some pid)
    (hothers : ∀ pid' file, pid' ≠ pid → (s'.locks file = some pid' ↔ s.locks file = some pid'))
    (hnext : s.nextFile ≤ s'.nextFile) (hopened : ∀ file, phase.file = some file → file < s'.nextFile)
    (hnamed : ∀ file, s'.path = some file → file < s'.nextFile)
    (hcontents : ∀ pid' file, pid' ≠ pid → s.locks file = some pid' →
      s'.contents file = s.contents file)
    (hknows : phase.Knows pid s'.contents) : Inv s' := by
  refine ⟨?_, ?_, hnamed, ?_⟩ <;> rw [hphases]
  · refine (Function.forall_update_iff s.phases
      fun pid' phase => ∀ file, phase.locked = some file ↔ s'.locks file = some pid').mpr ⟨hlocks, ?_⟩
    intro pid' hpid file
    rw [h.locks pid' file, hothers pid' file hpid]
  · refine (Function.forall_update_iff s.phases
      fun _ phase => ∀ file, phase.file = some file → file < s'.nextFile).mpr ⟨hopened, ?_⟩
    exact fun pid' _ file hfile => (h.opened pid' file hfile).trans_le hnext
  · refine (Function.forall_update_iff s.phases
      fun pid' phase => phase.Knows pid' s'.contents).mpr ⟨hknows, ?_⟩
    intro pid' hpid
    apply knows_of_locked (h.knows pid')
    exact fun file hlocked => hcontents pid' file hpid ((h.locks pid' file).mp hlocked)

theorem Inv.exitProcess (h : Inv s) (pid : ℕ) : Inv (s.exitProcess pid) := by
  have hrest : ∀ file, PidPhase.idle.file = some file → file < s.nextFile := fun _ hfile => by cases hfile
  refine h.moves pid .idle rfl ?_ ?_ le_rfl hrest h.named
    (fun _ _ _ _ => rfl) trivial
  · simp [PidFile.exitProcess, PidPhase.locked]
  · intro pid' file hpid
    simp only [PidFile.exitProcess]
    split_ifs with hheld
    · simp [hheld, Ne.symm hpid]
    · rfl

/-- A process moves on without a change of its lock. -/
theorem Inv.setPhase (h : Inv s) (phase : PidPhase) (hlocked : phase.locked = (s.phases pid).locked)
    (hopened : ∀ file, phase.file = some file → file < s.nextFile)
    (hknows : phase.Knows pid s.contents) : Inv (s.setPhase pid phase) := by
  refine h.moves pid phase rfl ?_ (fun _ _ _ => Iff.rfl) le_rfl hopened h.named
    (fun _ _ _ _ => rfl) hknows
  intro file
  rw [hlocked, h.locks]
  rfl

theorem file_of_locked {file : ℕ} (h : phase.locked = some file) : phase.file = some file := by
  cases phase <;> first | exact h | cases h

theorem opened_spec (cloexec : ℕ → Bool) (pid file : ℕ) (contents : ℕ → List Char) :
    (opened cloexec pid file).locked = none ∧ (opened cloexec pid file).file = some file ∧
      (opened cloexec pid file).Knows pid contents := by
  unfold opened
  split_ifs <;> exact ⟨rfl, rfl, trivial⟩

theorem openFile_phases (s : PidFile) : s.openFile.2.phases = s.phases := by
  rw [openFile]
  split <;> rfl

theorem Inv.openFile (h : Inv s) : Inv s.openFile.2 ∧ s.openFile.1 < s.openFile.2.nextFile := by
  rw [PidFile.openFile]
  cases hpath : s.path with
  | some file => exact ⟨h, h.named file hpath⟩
  | none =>
    refine ⟨⟨h.locks, ?_, ?_, ?_⟩, Nat.lt_succ_self _⟩
    · exact fun pid file hfile => (h.opened pid file hfile).trans (Nat.lt_succ_self _)
    · intro file hfile
      cases hfile
      exact Nat.lt_succ_self _
    · intro pid
      apply knows_of_locked (h.knows pid)
      intro file hlocked
      have hlt := h.opened pid file (file_of_locked hlocked)
      exact Function.update_of_ne hlt.ne _ _

/-- A process writes to the file that it has locked. -/
theorem Inv.writes (h : Inv s) {file : ℕ} {text : List Char} (hlocked : (s.phases pid).locked = some file)
    (hphase : phase.locked = some file) (hknows : phase.Knows pid (s.setContents file text).contents) :
    Inv ((s.setContents file text).setPhase pid phase) := by
  have hlock := (h.locks pid file).mp hlocked
  have hfile : phase.file = (s.phases pid).file := by
    rw [file_of_locked hlocked, file_of_locked hphase]
  refine h.moves pid phase rfl ?_ (fun _ _ _ => Iff.rfl)
    le_rfl ?_ h.named ?_ hknows
  · intro file'
    rw [hphase, ← hlocked]
    exact h.locks pid file'
  · rw [hfile]
    exact h.opened pid
  · intro pid' file' hpid hlock'
    apply Function.update_of_ne
    rintro rfl
    exact hpid (Option.some.inj (hlock'.symm.trans hlock))

theorem Inv.lockRegion (h : Inv s) {file : ℕ} (hphase : s.phases pid = .lockRegion file)
    (hfree : s.locks file = none ∨ s.locks file = some pid) :
    Inv { s.setPhase pid (.ftruncate file) with locks := Function.update s.locks file (some pid) } := by
  have hnone : ∀ file', s.locks file' ≠ some pid := by
    intro file' hheld
    rw [← h.locks, hphase] at hheld
    cases hheld
  have hopened := h.opened pid file (by rw [hphase, PidPhase.file])
  have hunlocked := hfree.resolve_right (hnone file)
  refine h.moves pid (.ftruncate file) rfl ?_ ?_ le_rfl ?_ h.named
    (fun _ _ _ _ => rfl) trivial
  · intro file'
    by_cases hfile : file' = file
    · subst hfile
      simp [PidPhase.locked]
    · simp [PidPhase.locked, Function.update_of_ne hfile, hnone, Ne.symm hfile]
  · intro pid' file' hpid
    by_cases hfile : file' = file
    · subst hfile
      simp [hunlocked, Ne.symm hpid]
    · simp [Function.update_of_ne hfile]
  · intro file' hfile
    cases hfile
    exact hopened

theorem Inv.step (h : Inv s) (hstep : step cloexec s action = some s') : Inv s' := by
  cases step_moves hstep with
  | openFails pid => exact h
  | opens pid hphase =>
    obtain ⟨hinv, hlt⟩ := h.openFile
    obtain ⟨hlocked, hfile, hknows⟩ :=
      opened_spec cloexec pid s.openFile.1 s.openFile.2.contents
    apply hinv.setPhase _ ?_ ?_ hknows
    · rw [hlocked, openFile_phases, hphase, PidPhase.locked]
    · rw [hfile]
      rintro file ⟨⟩
      exact hlt
  | setsCloexec pid file hphase =>
    refine h.setPhase (.lockRegion file) (by rw [hphase]; rfl) ?_ trivial
    rintro file' ⟨⟩
    exact h.opened pid file (by rw [hphase]; rfl)
  | locks pid file hphase hfree => exact h.lockRegion hphase hfree
  | truncates pid file hphase => exact h.writes (by rw [hphase]; rfl) rfl (Function.update_self ..)
  | writes pid file count hphase hcount =>
    refine h.writes (by rw [hphase]; rfl) rfl ((Function.update_self ..).trans ?_)
    exact List.take_of_length_le hcount
  | writeFails pid file count hphase =>
    have hwritten : Inv ((s.setContents file ((pidText pid).take count)).setPhase pid
        (.ftruncate file)) := h.writes (by rw [hphase]; rfl) rfl trivial
    have hexit := hwritten.exitProcess pid
    rwa [PidFile.exitProcess, PidFile.setPhase, PidFile.setPhase, Function.update_idem] at hexit
  | unlinks pid file hphase =>
    have hknows := h.knows pid
    rw [hphase] at hknows
    have hphases : Inv (s.setPhase pid (.leaving file)) := by
      refine h.setPhase (.leaving file) (by rw [hphase]; rfl) ?_ hknows
      rintro file' ⟨⟩
      exact h.opened pid file (by rw [hphase]; rfl)
    exact ⟨hphases.locks, hphases.opened, by simp, hphases.knows⟩
  | exits pid => exact h.exitProcess pid

theorem inv_of_reaches (h : Reaches (step cloexec) (init file) s) : Inv s :=
  h.invariant Inv inv_init fun _ _ _ hinv hstep => hinv.step hstep

/-! ### The name -/

/-- The file of a process that has not deleted the name. -/
def named : PidPhase → Option ℕ
  | .idle | .leaving _ => none
  | .setCloexec file | .lockRegion file | .ftruncate file | .write file | .running file => some file

/-- Nobody else has the file open when its name is deleted. -/
def Careful (s : PidFile) : PidAction → Prop
  | .unlink pid => ∀ pid', pid' ≠ pid → (s.phases pid').file = none
  | _ => True

def CarefulReaches (cloexec : ℕ → Bool) : PidFile → PidFile → Prop :=
  Relation.ReflTransGen fun s s' => ∃ action, Careful s action ∧ step cloexec s action = some s'

/-- The name refers to the file of every such process. -/
def Named (s : PidFile) : Prop := ∀ pid file, named (s.phases pid) = some file → s.path = some file

theorem file_of_named {file : ℕ} (h : named phase = some file) : phase.file = some file := by
  cases phase <;> first | exact h | cases h

theorem Named.moves (h : Named s) (pid : ℕ) (phase : PidPhase)
    (hphases : s'.phases = Function.update s.phases pid phase)
    (hphase : ∀ file, named phase = some file → s'.path = some file)
    (hothers : ∀ pid' file, pid' ≠ pid → named (s.phases pid') = some file → s.path = some file →
      s'.path = some file) : Named s' := by
  rw [Named, hphases]
  refine (Function.forall_update_iff s.phases
    fun _ phase => ∀ file, named phase = some file → s'.path = some file).mpr ⟨hphase, ?_⟩
  exact fun pid' hpid file hnamed => hothers pid' file hpid hnamed (h pid' file hnamed)

theorem Named.exitProcess (h : Named s) (pid : ℕ) : Named (s.exitProcess pid) :=
  h.moves pid .idle rfl (fun _ hnamed => by cases hnamed) fun _ _ _ _ => id

/-- A process stays with its file. -/
theorem Named.setPhase (h : Named s) (phase : PidPhase) (hphase : ∀ file, named phase = some file →
    named (s.phases pid) = some file) : Named (s.setPhase pid phase) :=
  h.moves pid phase rfl (fun file hnamed => h pid file (hphase file hnamed))
    fun _ _ _ _ => id

theorem openFile_path (s : PidFile) : s.openFile.2.path = some s.openFile.1 ∧
    ∀ file, s.path = some file → s.openFile.1 = file := by
  rw [openFile]
  cases hpath : s.path with
  | some file => exact ⟨hpath, fun file' heq => Option.some.inj heq⟩
  | none => exact ⟨rfl, fun _ heq => by cases heq⟩

theorem named_opened (cloexec : ℕ → Bool) (pid file : ℕ) :
    named (opened cloexec pid file) = some file := by
  unfold opened
  split_ifs <;> rfl

theorem Named.step (h : Named s) (hcareful : Careful s action)
    (hstep : step cloexec s action = some s') : Named s' := by
  cases step_moves hstep with
  | openFails pid => exact h
  | opens pid hphase =>
    obtain ⟨hpath, hsame⟩ := openFile_path s
    refine h.moves pid (opened cloexec pid s.openFile.1) ?_ ?_ ?_
    · rw [PidFile.setPhase, openFile_phases]
    · rw [named_opened]
      rintro file ⟨⟩
      exact hpath
    · intro pid' file _ _ hfile
      rw [← hsame file hfile]
      exact hpath
  | setsCloexec pid file hphase =>
    exact h.setPhase (.lockRegion file) (by rw [hphase]; exact fun _ => id)
  | locks pid file hphase => exact h.setPhase (.ftruncate file) (by rw [hphase]; exact fun _ => id)
  | truncates pid file hphase => exact h.setPhase (.write file) (by rw [hphase]; exact fun _ => id)
  | writes pid file count hphase =>
    exact h.setPhase (.running file) (by rw [hphase]; exact fun _ => id)
  | writeFails pid | exits pid => exact h.exitProcess pid
  | unlinks pid file hphase =>
    refine h.moves pid (.leaving file) rfl (fun _ hnamed => by cases hnamed) ?_
    intro pid' file' hpid hnamed
    have hfile := file_of_named hnamed
    rw [hcareful pid' hpid] at hfile
    cases hfile

theorem named_of_carefulReaches (h : CarefulReaches cloexec (init file) s) : Named s := by
  induction h with
  | refl =>
    intro pid file hnamed
    cases hnamed
  | tail _ hlast ih =>
    obtain ⟨action, hcareful, hstep⟩ := hlast
    exact ih.step hcareful hstep

/-- The calls of a process that all succeed. -/
def startup (cloexec : ℕ → Bool) (pid : ℕ) : List PidAction :=
  .open pid true :: (if cloexec pid then [.setCloexec pid true] else []) ++
    [.lockRegion pid true, .ftruncate pid true, .write pid (pidText pid).length]

theorem startup_open (hphase : s.phases pid = .idle) :
    (startup cloexec pid).foldlM (step cloexec) s =
      [.lockRegion pid true, .ftruncate pid true, .write pid (pidText pid).length].foldlM
        (step cloexec) (s.openFile.2.setPhase pid (.lockRegion s.openFile.1)) := by
  have hopen : step cloexec s (.open pid true) =
      some (s.openFile.2.setPhase pid (opened cloexec pid s.openFile.1)) := by
    simp only [step, hphase]
    rfl
  rw [startup, List.cons_append, List.foldlM_cons, hopen, Option.bind_eq_bind, Option.bind_some]
  by_cases hcloexec : cloexec pid = true
  · have hset : step cloexec (s.openFile.2.setPhase pid (.setCloexec s.openFile.1))
        (.setCloexec pid true) = some (s.openFile.2.setPhase pid (.lockRegion s.openFile.1)) := by
      simp only [step, setPhase, Function.update_self, Function.update_idem, if_true]
    rw [if_pos hcloexec, opened, if_pos hcloexec, List.singleton_append, List.foldlM_cons, hset]
    rfl
  · rw [if_neg hcloexec, opened, if_neg hcloexec, List.nil_append]

theorem startup_lock (cloexec : ℕ → Bool) {file : ℕ} (hphase : s.phases pid = .lockRegion file)
    (hfree : s.locks file = none) :
    ∃ s', [.lockRegion pid true, .ftruncate pid true, .write pid (pidText pid).length].foldlM
        (step cloexec) s = some s' ∧ s'.phases pid = .running file ∧ s'.path = s.path := by
  have hlock : step cloexec s (.lockRegion pid true) = some { s.setPhase pid (.ftruncate file) with
      locks := Function.update s.locks file (some pid) } := by
    simp only [step, hphase, hfree, true_or, and_self, if_true]
  rw [List.foldlM_cons, hlock, Option.bind_eq_bind, Option.bind_some]
  simp only [List.foldlM_cons, List.foldlM_nil, step, setPhase, setContents, Function.update_self,
    Option.bind_eq_bind, Option.bind_some, le_refl, if_true]
  exact ⟨_, rfl, Function.update_self .., rfl⟩

/-- What has been left behind does not keep a process from starting. -/
theorem Inv.starts (h : Inv s) (hphase : s.phases pid = .idle)
    (hfree : ∀ file, s.path = some file → s.locks file = none) :
    ∃ s' file, (startup cloexec pid).foldlM (PidFile.step cloexec) s = some s' ∧
      s'.phases pid = .running file ∧ s'.path = some file := by
  have hlocks : s.openFile.2.locks s.openFile.1 = none := by
    cases hpath : s.path with
    | some file =>
      simp only [PidFile.openFile, hpath]
      exact hfree file hpath
    | none =>
      simp only [PidFile.openFile, hpath, setContents]
      by_contra hheld
      obtain ⟨pid', hheld⟩ := Option.ne_none_iff_exists'.mp hheld
      have hlocked := (h.locks pid' s.nextFile).mpr hheld
      exact (h.opened pid' s.nextFile (file_of_locked hlocked)).false
  obtain ⟨s', hrun, hrunning, hpath⟩ := startup_lock cloexec
    (s := s.openFile.2.setPhase pid (.lockRegion s.openFile.1)) (Function.update_self ..) hlocks
  exact ⟨s', s.openFile.1, (startup_open hphase).trans hrun, hrunning,
    hpath.trans (openFile_path s).1⟩

-- A process that has opened the file before its name is deleted, and locks it after, runs
-- beside one that comes later.
example : ∃ s,
    (startup (fun _ => false) 7 ++ PidAction.open 8 true :: .unlink 7 :: .exit 7 ::
        .lockRegion 8 true :: .ftruncate 8 true :: .write 8 2 :: startup (fun _ => false) 9).foldlM
      (step fun _ => false) (init none) = some s ∧
      s.phases 8 = .running 1 ∧ s.phases 9 = .running 2 := ⟨_, rfl, rfl, rfl⟩

end PidFile

end OsProgramming.Tlpi
