import OsProgramming.Library.Descriptors

/-! `becomeDaemon`. Each `fork` makes a child that goes on, while the parent ends. -/

namespace OsProgramming.Tlpi

open Library

def bdNoChdir : ℕ := 1

def bdNoCloseFiles : ℕ := 2

def bdNoReopenStdFds : ℕ := 4

def bdNoUmask0 : ℕ := 8

def bdMaxClose : ℕ := 8192

def eperm : ℕ := 1

variable {F : Type}

/-- The process that executes `becomeDaemon`, and those that have ended in it. -/
structure Daemon (F : Type) where
  pid : ℕ
  pgid : ℕ
  sid : ℕ
  umask : ℕ
  cwd : String
  files : Files F
  ended : List ℕ

/-- What the kernel answers. `closing` is what `close` leaves in `errno`. -/
structure DaemonCalls where
  firstFork : Except ℕ ℕ
  secondFork : Except ℕ ℕ
  chdir : Except ℕ Unit
  /-- the limit of open files, which may be indeterminate -/
  openMax : Option ℕ
  openDevNull : Except ℕ Unit
  closing : Option ℕ

namespace Daemon

/-- The child after `fork`. -/
def fork (p : Daemon F) (result : Except ℕ ℕ) : Except (Daemon F) (Daemon F) :=
  match result with
  | .error errno => .error { p with files := { p.files with errno } }
  | .ok pid => .ok { p with pid := pid, ended := p.ended ++ [p.pid] }

def setsid (p : Daemon F) : Except (Daemon F) (Daemon F) :=
  if p.pgid = p.pid then .error { p with files := { p.files with errno := eperm } }
  else .ok { p with pgid := p.pid, sid := p.pid }

/-- The second child, which is in the session that the first has made. -/
def detach (p : Daemon F) (calls : DaemonCalls) : Except (Daemon F) (Daemon F) := do
  let p ← p.fork calls.firstFork
  let p ← p.setsid
  p.fork calls.secondFork

/-- The result of `chdir` is not looked at. -/
def chdir (p : Daemon F) (result : Except ℕ Unit) : Daemon F :=
  match result with
  | .error errno => { p with files := { p.files with errno } }
  | .ok _ => { p with cwd := "/" }

def closeFiles (p : Daemon F) (calls : DaemonCalls) : Daemon F :=
  { p with files := { p.files with
      descriptors := closeBelow p.files.descriptors (calls.openMax.getD bdMaxClose)
      errno := calls.closing.getD p.files.errno } }

/-- The umask, the directory and the open files of the last child. -/
def settle (p : Daemon F) (flags : ℕ) (calls : DaemonCalls) : Daemon F :=
  let p := if flags &&& bdNoUmask0 = 0 then { p with umask := 0 } else p
  let p := if flags &&& bdNoChdir = 0 then p.chdir calls.chdir else p
  if flags &&& bdNoCloseFiles = 0 then p.closeFiles calls else p

end Daemon

/-- The standard input, output and error become `/dev/null`. -/
def reopenStdFds (devNull : F) (p : Files F) (calls : DaemonCalls) : Except (Files F) (Files F) := do
  let (fd, p) ← (p.close 0 calls.closing).new (calls.openDevNull.map fun _ => devNull)
  if fd ≠ 0 then .error p
  else
    let p ← p.dup2 0 1
    p.dup2 0 2

/-- In the process in which it returns: 0, or -1 as an error. -/
def becomeDaemon (devNull : F) (flags : ℕ) (p : Daemon F) (calls : DaemonCalls) :
    Except (Daemon F) (Daemon F) := do
  let p ← p.detach calls
  let p := p.settle flags calls
  if flags &&& bdNoReopenStdFds = 0 then
    match reopenStdFds devNull p.files calls with
    | .error files => .error { p with files }
    | .ok files => .ok { p with files }
  else .ok p

/-! ### What becomes of the process -/

def reopenFailures (limit : ℕ) (calls : DaemonCalls) : List (Option ℕ) :=
  [failure calls.openDevNull, if 0 < limit then none else some emfile,
    if 1 < limit then none else some ebadf, if 2 < limit then none else some ebadf]

/-- `open` gets the descriptor 0, since it has just been closed. -/
theorem reopenStdFds_meets (devNull : F) (p : Files F) (calls : DaemonCalls) :
    Meets (fun _ => True) (reopenFailures p.limit calls) (reopenStdFds devNull p calls)
      fun q => q.descriptors = fun fd => if fd ≤ 2 then some devNull else p.descriptors fd := by
  have hzero : (p.close 0 calls.closing).descriptors 0 = none := by simp [Files.close]
  have hfailures : newFailures (p.close 0 calls.closing) (calls.openDevNull.map fun _ => devNull) =
      [failure calls.openDevNull, if 0 < p.limit then none else some emfile] := by
    rw [newFailures, failure_map]
    rcases Nat.eq_zero_or_pos p.limit with hlimit | hlimit
    · have hnone : lowestFree (p.close 0 calls.closing).limit (p.close 0 calls.closing).descriptors =
          none := by
        simp [lowestFree, Files.close, hlimit]
      simp [hnone, hlimit]
    · have hlowest : lowestFree (p.close 0 calls.closing).limit (p.close 0 calls.closing).descriptors =
          some 0 := lowestFree_zero hzero hlimit
      simp [hlowest, hlimit]
  have hopen : Meets (fun _ => True) _ ((p.close 0 calls.closing).new _) _ :=
    .new trivial (calls.openDevNull.map fun _ => devNull)
  rw [hfailures] at hopen
  refine hopen.bind ?_
  rintro ⟨fd, q⟩ ⟨file, hfile, hopened⟩
  obtain ⟨-, rfl⟩ := map_const_eq_ok hfile
  obtain rfl : fd = 0 := eq_zero_of_lowestFree hzero hopened.lowest
  have hq : q.descriptors = Function.update p.descriptors 0 (some file) := by
    rw [hopened.descriptors, Files.close, Function.update_idem]
  have hlimit : q.limit = p.limit := hopened.limit
  dsimp only
  rw [← hlimit, if_neg (not_not_intro rfl)]
  refine .cons (.dup2 trivial (by rw [hq, Function.update_self]) 1) ?_
  rintro r ⟨hlimit', hr⟩
  rw [← hlimit']
  have hfile' : r.descriptors 0 = some file := by simp [hr, hq]
  refine (Meets.dup2 trivial hfile' 2).mono fun s hs => ?_
  rw [hs.2, hr, hq]
  funext fd
  simp only [Function.update_apply]
  split_ifs <;> first | rfl | omega

/-- What the flags let `becomeDaemon` do to the descriptors. -/
def daemonDescriptors (devNull : F) (flags : ℕ) (calls : DaemonCalls) (descriptors : ℕ → Option F)
    (fd : ℕ) : Option F :=
  if flags &&& bdNoReopenStdFds = 0 ∧ fd ≤ 2 then some devNull
  else if flags &&& bdNoCloseFiles = 0 ∧ fd < calls.openMax.getD bdMaxClose then none
  else descriptors fd

/-- A process that has become a daemon. -/
structure Detached (devNull : F) (flags : ℕ) (p : Daemon F) (calls : DaemonCalls)
    (d : Daemon F) : Prop where
  /-- the first child leads the session, and the second returns -/
  session : calls.firstFork = .ok d.sid ∧ d.pgid = d.sid
  member : calls.secondFork = .ok d.pid ∧ d.pid ≠ d.sid
  ended : d.ended = p.ended ++ [p.pid, d.sid]
  umask : d.umask = if flags &&& bdNoUmask0 = 0 then 0 else p.umask
  cwd : d.cwd = if flags &&& bdNoChdir = 0 ∧ failure calls.chdir = none then "/" else p.cwd
  descriptors : d.files.descriptors = daemonDescriptors devNull flags calls p.files.descriptors

/-- `setsid` does not fail, since the first child leads no group. -/
theorem detach_cases {p : Daemon F} {calls : DaemonCalls}
    (hfirst : ∀ pid, calls.firstFork = .ok pid → pid ≠ p.pgid) :
    (∃ errno d, [failure calls.firstFork, failure calls.secondFork].findSome? id = some errno ∧
      p.detach calls = .error d ∧ d.files.errno = errno) ∨
    ∃ leader pid, calls.firstFork = .ok leader ∧ calls.secondFork = .ok pid ∧
      p.detach calls = .ok { p with
        pid := pid, pgid := leader, sid := leader, ended := p.ended ++ [p.pid, leader] } := by
  cases hfork : calls.firstFork with
  | error errno =>
    refine .inl ⟨errno, { p with files := { p.files with errno } }, rfl, ?_, rfl⟩
    rw [Daemon.detach, hfork]
    rfl
  | ok leader =>
    have hsetsid : (Daemon.setsid { p with pid := leader, ended := p.ended ++ [p.pid] }) =
        .ok { p with pid := leader, ended := p.ended ++ [p.pid], pgid := leader, sid := leader } :=
      if_neg (Ne.symm (hfirst leader hfork))
    have hdetach : p.detach calls = Daemon.fork { p with
        pid := leader, ended := p.ended ++ [p.pid], pgid := leader, sid := leader } calls.secondFork := by
      rw [Daemon.detach, hfork]
      simp only [Daemon.fork, bind, Except.bind, hsetsid]
    rw [hdetach]
    cases hfork' : calls.secondFork with
    | error errno => exact .inl ⟨errno, _, rfl, rfl, rfl⟩
    | ok pid => exact .inr ⟨leader, pid, rfl, rfl, by simp [Daemon.fork]⟩

/-- The last child with its own umask, directory and open files. -/
structure Settled (p : Daemon F) (flags : ℕ) (calls : DaemonCalls) (d : Daemon F) : Prop where
  process : d.pid = p.pid ∧ d.pgid = p.pgid ∧ d.sid = p.sid ∧ d.ended = p.ended
  umask : d.umask = if flags &&& bdNoUmask0 = 0 then 0 else p.umask
  cwd : d.cwd = if flags &&& bdNoChdir = 0 ∧ failure calls.chdir = none then "/" else p.cwd
  limit : d.files.limit = p.files.limit
  descriptors : d.files.descriptors =
    if flags &&& bdNoCloseFiles = 0 then
      closeBelow p.files.descriptors (calls.openMax.getD bdMaxClose)
    else p.files.descriptors

theorem settle_settled (p : Daemon F) (flags : ℕ) (calls : DaemonCalls) :
    Settled p flags calls (p.settle flags calls) := by
  rw [Daemon.settle]
  cases hchdir : calls.chdir <;> constructor <;> split_ifs <;>
    simp_all [Daemon.chdir, Daemon.closeFiles]

/-- With the descriptors that it has in the end, the last child is a daemon. -/
theorem Settled.detached {devNull : F} {flags leader pid : ℕ} {p d : Daemon F} {calls : DaemonCalls}
    (h : Settled { p with
      pid := pid, pgid := leader, sid := leader, ended := p.ended ++ [p.pid, leader] } flags calls d)
    (hfork : calls.firstFork = .ok leader) (hfork' : calls.secondFork = .ok pid) (hne : pid ≠ leader)
    {files : Files F}
    (hfiles : files.descriptors = daemonDescriptors devNull flags calls p.files.descriptors) :
    Detached devNull flags p calls { d with files := files } := by
  obtain ⟨hpid, hpgid, hsid, hended⟩ := h.process
  exact {
    session := ⟨hsid ▸ hfork, hpgid.trans hsid.symm⟩
    member := ⟨hpid ▸ hfork', hpid ▸ hsid ▸ hne⟩
    ended := by simp [hended, hsid]
    umask := h.umask
    cwd := h.cwd
    descriptors := hfiles }

/-- `becomeDaemon` fails with the number of the first `fork`, `open` or `dup2` that fails: `setsid`
never does. Otherwise the process that returns is not the one that leads its new session, the
other two have ended, and its umask, its directory and its descriptors are what the flags say. -/
theorem become_daemon (devNull : F) (flags : ℕ) (p : Daemon F) (calls : DaemonCalls)
    (hfirst : ∀ pid, calls.firstFork = .ok pid → pid ≠ p.pgid)
    (hsecond : ∀ pid pid', calls.firstFork = .ok pid → calls.secondFork = .ok pid' → pid' ≠ pid) :
    match ([failure calls.firstFork, failure calls.secondFork] ++
        if flags &&& bdNoReopenStdFds = 0 then reopenFailures p.files.limit calls else []).findSome? id with
    | some errno => ∃ d, becomeDaemon devNull flags p calls = .error d ∧ d.files.errno = errno
    | none => ∃ d, becomeDaemon devNull flags p calls = .ok d ∧ Detached devNull flags p calls d := by
  rw [List.findSome?_append]
  rcases detach_cases hfirst with ⟨errno, d, hfailure, hdetach, herrno⟩ | ⟨leader, pid, hfork, hfork', hdetach⟩
  · rw [hfailure]
    refine ⟨d, ?_, herrno⟩
    rw [becomeDaemon, hdetach]
    rfl
  · have hnone : [failure calls.firstFork, failure calls.secondFork].findSome? id = none := by
      rw [hfork, hfork']
      rfl
    have hsettled := settle_settled { p with
      pid := pid, pgid := leader, sid := leader, ended := p.ended ++ [p.pid, leader] } flags calls
    rw [hnone, Option.none_or, becomeDaemon, hdetach]
    set d := Daemon.settle { p with
      pid := pid, pgid := leader, sid := leader, ended := p.ended ++ [p.pid, leader] } flags calls
    have hdetached : ∀ files : Files F,
        files.descriptors = daemonDescriptors devNull flags calls p.files.descriptors →
          Detached devNull flags p calls { d with files := files } := fun files hfiles =>
      hsettled.detached hfork hfork' (hsecond leader pid hfork hfork') hfiles
    by_cases hreopen : flags &&& bdNoReopenStdFds = 0
    · rw [if_pos hreopen]
      have hmeets := reopenStdFds_meets devNull d.files calls
      rw [hsettled.limit] at hmeets
      cases hfiles : reopenStdFds devNull d.files calls with
      | error files =>
        rw [(hmeets.fails files hfiles).1]
        refine ⟨{ d with files := files }, ?_, rfl⟩
        simp only [bind, Except.bind, d, if_pos hreopen, hfiles]
      | ok files =>
        obtain ⟨hok, hdescriptors⟩ := hmeets.returns files hfiles
        rw [hok]
        refine ⟨{ d with files := files }, ?_, hdetached files ?_⟩
        · simp only [bind, Except.bind, d, if_pos hreopen, hfiles]
        · rw [hdescriptors, hsettled.descriptors]
          funext fd
          simp only [daemonDescriptors, hreopen, true_and]
          split_ifs <;> simp_all [closeBelow_apply]
    · rw [if_neg hreopen]
      refine ⟨d, ?_, hdetached d.files ?_⟩
      · simp only [bind, Except.bind, d, if_neg hreopen]
      · rw [hsettled.descriptors]
        funext fd
        simp only [daemonDescriptors, hreopen, false_and, if_false]
        split_ifs <;> simp_all [closeBelow_apply]

/-- A process of a shell, which has its standard descriptors and one more open. -/
def shellProcess : Daemon ℕ where
  pid := 10
  pgid := 10
  sid := 5
  umask := 18
  cwd := "/home"
  files := { limit := 8, descriptors := fun fd => if fd ≤ 2 ∨ fd = 6 then some 1 else none, errno := 0 }
  ended := []

def forkCalls : DaemonCalls where
  firstFork := .ok 11
  secondFork := .ok 12
  chdir := .ok ()
  openMax := some 8
  openDevNull := .ok ()
  closing := some ebadf

theorem become_daemon_shell : ∃ d, becomeDaemon 0 0 shellProcess forkCalls = .ok d ∧
    d.pid = 12 ∧ d.sid = 11 ∧ d.cwd = "/" ∧ d.files.descriptors 1 = some 0 ∧
    d.files.descriptors 6 = none := by
  have hdaemon := become_daemon 0 0 shellProcess forkCalls
    (by rintro pid ⟨⟩; decide) (by rintro pid pid' ⟨⟩ ⟨⟩; decide)
  obtain ⟨d, hreturns, hdetached⟩ := hdaemon
  refine ⟨d, hreturns, ?_, ?_, hdetached.cwd, ?_, ?_⟩
  · exact (Except.ok.inj hdetached.member.1).symm
  · exact (Except.ok.inj hdetached.session.1).symm
  · rw [hdetached.descriptors]
    rfl
  · rw [hdetached.descriptors]
    rfl

end OsProgramming.Tlpi
