import OsProgramming.Library.Descriptors
import OsProgramming.Library.Text

/-! `ptyFork`, which makes a child process that is connected to its parent by a pseudoterminal,
and `ptyMasterOpen`. -/

namespace OsProgramming.Tlpi

open Library

/-- What a descriptor refers to. -/
inductive Terminal where
  | master
  | slave (name : List UInt8)
  /-- what the caller had open before -/
  | other (file : ℕ)
  deriving DecidableEq

/-- What the kernel answers. `closing` is what `close` leaves in `errno`. -/
structure PtyCalls where
  posixOpenpt : Except ℕ Unit
  grantpt : Except ℕ Unit
  unlockpt : Except ℕ Unit
  ptsname : Except ℕ (List UInt8)
  fork : Except ℕ ℕ
  setsid : Except ℕ Unit
  openSlave : Except ℕ Unit
  tiocsctty : Except ℕ Unit
  tcsetattr : Except ℕ Unit
  tiocswinsz : Except ℕ Unit
  closing : Option ℕ

def eoverflow : ℕ := 75

def maxSname : ℕ := 1000

/-- The name in a buffer of the caller, which may be too small. -/
def copyName (snLen : ℕ) (name : List UInt8) : Except ℕ (List UInt8) :=
  if (cString 0 name).length < snLen then .ok (strncpy 0 snLen name) else .error eoverflow

def ptyMasterOpen (p : Files Terminal) (calls : PtyCalls) (snLen : ℕ) :
    Except (Files Terminal) (ℕ × Files Terminal × List UInt8) := do
  let (masterFd, p) ← p.new (calls.posixOpenpt.map fun _ => .master)
  p.callOrClose calls.grantpt masterFd calls.closing
  p.callOrClose calls.unlockpt masterFd calls.closing
  let name ← p.callOrClose calls.ptsname masterFd calls.closing
  let slaveName ← p.callOrClose (copyName snLen name) masterFd calls.closing
  .ok (masterFd, p, slaveName)

/-- The slave becomes the standard input, output and error. -/
def dupStandard (p : Files Terminal) (slaveFd : ℕ) : Except (Files Terminal) (Files Terminal) := do
  let p ← p.dup2 slaveFd 0
  let p ← p.dup2 slaveFd 1
  p.dup2 slaveFd 2

/-- The child, which ends where a call fails. -/
def ptyForkChild (p : Files Terminal) (calls : PtyCalls) (mfd : ℕ) (slname : List UInt8)
    (slaveTermios slaveWS : Bool) : Except (Files Terminal) (Files Terminal) := do
  p.call calls.setsid
  let p := p.close mfd calls.closing
  let (slaveFd, p) ← p.new (calls.openSlave.map fun _ => .slave (cString 0 slname))
  p.call calls.tiocsctty
  p.call (if slaveTermios then calls.tcsetattr else .ok ())
  p.call (if slaveWS then calls.tiocswinsz else .ok ())
  let p ← dupStandard p slaveFd
  .ok (if 2 < slaveFd then p.close slaveFd calls.closing else p)

/-- The two processes when `ptyFork` returns. -/
structure PtyForked where
  parent : Files Terminal
  childPid : ℕ
  masterFd : ℕ
  slaveName : Option (List UInt8)
  child : Except (Files Terminal) (Files Terminal)

/-- The copy of the name for the caller, if it has a buffer for it. -/
def nameForCaller (snLen : Option ℕ) (slname : List UInt8) : Except ℕ (Option (List UInt8)) :=
  match snLen with
  | none => .ok none
  | some snLen => (copyName snLen slname).map some

/-- `snLen` is the size of the buffer for the name, if there is one. -/
def ptyFork (p : Files Terminal) (calls : PtyCalls) (snLen : Option ℕ) (slaveTermios slaveWS : Bool) :
    Except (Files Terminal) PtyForked := do
  let (mfd, p, slname) ← ptyMasterOpen p calls maxSname
  let slaveName ← p.callOrClose (nameForCaller snLen slname) mfd calls.closing
  let childPid ← p.callOrClose calls.fork mfd calls.closing
  .ok {
    parent := p
    childPid := childPid
    masterFd := mfd
    slaveName := slaveName
    child := ptyForkChild p calls mfd slname slaveTermios slaveWS }

/-! ### The descriptors of the two processes -/

/-- The failure of a buffer for the name. -/
def nameFailure (ptsname : Except ℕ (List UInt8)) (snLen : ℕ) : Option ℕ :=
  match ptsname with
  | .ok name => if (cString 0 name).length < snLen then none else some eoverflow
  | .error _ => none

theorem failure_copyName (snLen : ℕ) (name : List UInt8) :
    failure (copyName snLen name) = nameFailure (.ok name) snLen := by
  rw [copyName, nameFailure]
  split_ifs <;> rfl

theorem copyName_eq_ok {snLen : ℕ} {name buffer : List UInt8} (h : copyName snLen name = .ok buffer) :
    cString 0 buffer = cString 0 name := by
  rw [copyName] at h
  split_ifs at h with hfits
  cases h
  exact cString_strncpy hfits.le

theorem failure_nameForCaller {ptsname : Except ℕ (List UInt8)} {name slname : List UInt8}
    (hname : ptsname = .ok name) (hslname : cString 0 slname = cString 0 name) (snLen : Option ℕ) :
    failure (nameForCaller snLen slname) = snLen.bind (nameFailure ptsname) := by
  cases snLen with
  | none => rfl
  | some snLen =>
    rw [nameForCaller, failure_map, failure_copyName, Option.bind_some, hname, nameFailure, nameFailure,
      hslname]

theorem nameForCaller_eq_ok {snLen : Option ℕ} {slname buffer : List UInt8}
    (h : nameForCaller snLen slname = .ok (some buffer)) : cString 0 buffer = cString 0 slname := by
  cases snLen with
  | none => cases h
  | some snLen =>
    rw [nameForCaller] at h
    cases hcopied : copyName snLen slname with
    | error errno =>
      rw [hcopied] at h
      cases h
    | ok copied =>
      rw [hcopied] at h
      cases h
      exact copyName_eq_ok hcopied

def masterFailures (p : Files Terminal) (calls : PtyCalls) (snLen : ℕ) : List (Option ℕ) :=
  newFailures p (calls.posixOpenpt.map fun _ => .master) ++
    [failure calls.grantpt, failure calls.unlockpt, failure calls.ptsname, nameFailure calls.ptsname snLen]

/-- A master, and the name of its slave, or nothing. -/
theorem ptyMasterOpen_meets (p : Files Terminal) (calls : PtyCalls) (snLen : ℕ) :
    Meets (· = p.descriptors) (masterFailures p calls snLen) (ptyMasterOpen p calls snLen)
      fun (masterFd, q, slaveName) => ∃ name, calls.ptsname = .ok name ∧ Opened p .master masterFd q ∧
        cString 0 slaveName = cString 0 name := by
  refine .bind (.new (by rfl) _) ?_
  rintro ⟨masterFd, q⟩ ⟨file, hfile, hopened⟩
  obtain ⟨-, rfl⟩ := map_const_eq_ok hfile
  refine .cons (.callOrClose hopened.close) fun _ _ => .cons (.callOrClose hopened.close) fun _ _ => ?_
  refine .cons (.callOrClose hopened.close) fun name hname => ?_
  rw [hname, ← failure_copyName]
  refine .cons (.callOrClose hopened.close) fun slaveName hslaveName => .ok ?_
  exact ⟨name, rfl, hopened, copyName_eq_ok hslaveName⟩

/-- The descriptors with another file as standard input, output and error. -/
def onStandard (file : Terminal) (descriptors : ℕ → Option Terminal) (fd : ℕ) : Option Terminal :=
  if fd ≤ 2 then some file else descriptors fd

theorem dupStandard_meets {p : Files Terminal} {fd : ℕ} {file : Terminal}
    (hfile : p.descriptors fd = some file) :
    Meets (fun _ => True) [if 2 < p.limit then none else some ebadf] (dupStandard p fd)
      fun q => q.descriptors = onStandard file p.descriptors := by
  have hthree : Meets (fun _ => True) [if 0 < p.limit then none else some ebadf,
      if 1 < p.limit then none else some ebadf, if 2 < p.limit then none else some ebadf]
      (dupStandard p fd) fun q => q.descriptors = onStandard file p.descriptors := by
    refine .cons (.dup2 trivial hfile 0) ?_
    rintro q ⟨hlimit, hinput⟩
    have hfile₁ : q.descriptors fd = some file := by
      rw [hinput, Function.update_apply, hfile, ite_self]
    rw [← hlimit]
    refine .cons (.dup2 trivial hfile₁ 1) ?_
    rintro r ⟨hlimit', houtput⟩
    have hfile₂ : r.descriptors fd = some file := by
      rw [houtput, Function.update_apply, hfile₁, ite_self]
    rw [← hlimit']
    refine (Meets.dup2 trivial hfile₂ 2).mono fun s hs => ?_
    rw [hs.2, houtput, hinput]
    funext other
    simp only [onStandard, Function.update_apply]
    split_ifs <;> first | rfl | omega
  refine hthree.congr ?_
  rcases Nat.lt_or_ge 2 p.limit with hlimit | hlimit
  · simp [hlimit, (by omega : 0 < p.limit), (by omega : 1 < p.limit)]
  · simp only [hlimit.not_gt, if_false]
    split_ifs <;> rfl

def childFailures (p : Files Terminal) (calls : PtyCalls) (slaveTermios slaveWS : Bool) :
    List (Option ℕ) :=
  [failure calls.setsid, failure calls.openSlave, failure calls.tiocsctty,
    failure (if slaveTermios then calls.tcsetattr else .ok ()),
    failure (if slaveWS then calls.tiocswinsz else .ok ()), if 2 < p.limit then none else some ebadf]

/-- What the calls of the child do to its descriptors. -/
theorem ptyForkChild_meets {p q : Files Terminal} (calls : PtyCalls) {mfd : ℕ}
    (hopened : Opened p .master mfd q) (slname : List UInt8) (slaveTermios slaveWS : Bool) :
    Meets (fun _ => True) (childFailures p calls slaveTermios slaveWS)
      (ptyForkChild q calls mfd slname slaveTermios slaveWS) fun child =>
        child.descriptors = onStandard (.slave (cString 0 slname)) p.descriptors := by
  -- the slave gets the descriptor that the master has left
  have hclosed : (q.close mfd calls.closing).descriptors = p.descriptors := hopened.close
  have hlowest : lowestFree (q.close mfd calls.closing).limit (q.close mfd calls.closing).descriptors =
      some mfd := by
    rw [hclosed]
    exact hopened.limit ▸ hopened.lowest
  refine .cons (.call trivial _) fun _ _ => ?_
  rw [← failure_map (fun _ => Terminal.slave (cString 0 slname)) calls.openSlave]
  refine .cons (.new_free trivial hlowest _) ?_
  rintro ⟨mfd, r⟩ ⟨rfl, file, hfile, hslave⟩
  obtain ⟨-, rfl⟩ := map_const_eq_ok hfile
  have hr : r.descriptors = Function.update p.descriptors mfd (some (.slave (cString 0 slname))) := by
    rw [hslave.descriptors, hclosed]
  have hlimit : r.limit = p.limit := hslave.limit.trans hopened.limit
  refine .cons (.call trivial _) fun _ _ => .cons (.call trivial _) fun _ _ => ?_
  refine .cons (.call trivial _) fun _ _ => ?_
  rw [← hlimit]
  refine .cons (dupStandard_meets (by rw [hr, Function.update_self])) fun s hs => .ok ?_
  have hfree := lowestFree_free hopened.lowest
  rw [hr] at hs
  split_ifs with hlarge
  · funext fd
    simp only [Files.close, hs, onStandard, Function.update_apply]
    split_ifs <;> first | rfl | omega | simp_all
  · rw [hs]
    funext fd
    simp only [onStandard, Function.update_apply]
    split_ifs <;> first | rfl | omega

/-- The two processes, and the name of the slave that they share. -/
structure PtyForked.Joins (p : Files Terminal) (calls : PtyCalls) (slaveTermios slaveWS : Bool)
    (name : List UInt8) (forked : PtyForked) : Prop where
  childPid : calls.fork = .ok forked.childPid
  parent : Opened p .master forked.masterFd forked.parent
  slaveName : ∀ buffer, forked.slaveName = some buffer → cString 0 buffer = name
  child : Meets (fun _ => True) (childFailures p calls slaveTermios slaveWS) forked.child
    fun child => child.descriptors = onStandard (.slave name) p.descriptors

/-- `ptyFork` fails with the number of the first call that fails, and then nothing is left open.
Otherwise the parent has the master, as the only new descriptor. A child in which no call fails has
the slave of this master as standard input, output and error, whatever was there before, and
besides them just what the caller had. -/
theorem pty_fork (p : Files Terminal) (calls : PtyCalls) (snLen : Option ℕ)
    (slaveTermios slaveWS : Bool) :
    Meets (· = p.descriptors)
      (masterFailures p calls maxSname ++
        [snLen.bind (nameFailure calls.ptsname), failure calls.fork])
      (ptyFork p calls snLen slaveTermios slaveWS)
      fun forked => ∃ name, calls.ptsname = .ok name ∧
        forked.Joins p calls slaveTermios slaveWS (cString 0 name) := by
  refine .bind (ptyMasterOpen_meets p calls maxSname) ?_
  rintro ⟨mfd, q, slname⟩ ⟨name, hname, hopened, hslname⟩
  rw [← failure_nameForCaller hname hslname snLen]
  refine .cons (.callOrClose hopened.close) fun slaveName hslaveName => ?_
  refine .cons (.callOrClose hopened.close) fun childPid hfork => .ok ⟨name, hname, hfork, hopened, ?_, ?_⟩
  · rintro buffer rfl
    exact (nameForCaller_eq_ok hslaveName).trans hslname
  · exact hslname ▸ ptyForkChild_meets calls hopened slname slaveTermios slaveWS

end OsProgramming.Tlpi
