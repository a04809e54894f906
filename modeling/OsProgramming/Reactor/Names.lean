import OsProgramming.Library.Format
import OsProgramming.Reactor.Socket

/-! The names of connections and of event loop threads. Both are written by `sprintf` into
a block of 16 bytes: a label, a number and a `NUL`. -/

namespace OsProgramming.Reactor

open Library

/-- The block that a name gets. -/
def nameSize : ℕ := 16

def connectionFormat : String := "connection-%d\x00"

def threadFormat : String := "S-Thread-%d\x00"

/-- The name that `tcp_connection_new` generates. -/
def connectionName (answer : Alloc Byte) (connectionFd : ℤ) : Result (List Byte) :=
  sprintf (malloc nameSize answer) connectionFormat [connectionFd]

/-- The name that `event_loop_thread_init` generates. -/
def threadName (answer : Alloc Byte) (counter : ℤ) : Result (List Byte) :=
  sprintf (malloc nameSize answer) threadFormat [wrapInt (counter + 1)]

theorem rendered_connectionFormat (x : ℤ) :
    rendered connectionFormat.toList [x] = "connection-".toList ++ decimal x := by
  simp [connectionFormat, rendered]

theorem rendered_threadFormat (x : ℤ) :
    rendered threadFormat.toList [x] = "S-Thread-".toList ++ decimal x := by
  simp [threadFormat, rendered]

/-- Four digits fit behind the label. -/
theorem connectionName_fits_iff {connectionFd : ℤ} (h0 : 0 ≤ connectionFd) :
    (written connectionFormat [connectionFd]).length ≤ nameSize ↔ connectionFd ≤ 9999 := by
  have hlen := length_written_le_iff h0 (k := 4) (by decide) (rendered_connectionFormat connectionFd)
  rw [show "connection-".toList.length = 11 by decide] at hlen
  rw [nameSize, hlen]
  omega

/-- Six digits fit behind the label. -/
theorem threadName_fits_iff {counter : ℤ} (h0 : 0 ≤ counter) (hmax : counter < intMax) :
    (written threadFormat [wrapInt (counter + 1)]).length ≤ nameSize ↔ counter < 999999 := by
  rw [wrapInt_of_le (by omega) (by omega)]
  have hlen := length_written_le_iff (x := counter + 1) (by omega) (k := 6) (by decide)
    (rendered_threadFormat _)
  rw [show "S-Thread-".toList.length = 9 by decide] at hlen
  rw [nameSize, hlen]
  omega

/-- With its `NUL`, the name of a connection is at most 16 bytes long exactly for the
descriptors up to 9999, and that of a thread for the counters below 999999. For all others
`sprintf` writes behind the block. -/
theorem names_fit_iff (fill : ℕ → Byte) :
    (∀ connectionFd, 0 ≤ connectionFd → connectionFd ≤ intMax →
      ((written connectionFormat [connectionFd]).length ≤ nameSize ↔ connectionFd ≤ 9999) ∧
        ((∃ name, connectionName (some fill) connectionFd = .ok name) ↔ connectionFd ≤ 9999)) ∧
      ∀ counter, 0 ≤ counter → counter < intMax →
        ((written threadFormat [wrapInt (counter + 1)]).length ≤ nameSize ↔ counter < 999999) ∧
          ((∃ name, threadName (some fill) counter = .ok name) ↔ counter < 999999) := by
  constructor
  · intro connectionFd h0 _
    have hfits := connectionName_fits_iff h0
    refine ⟨hfits, ?_⟩
    rw [connectionName, sprintf_returns_iff, length_malloc, hfits]
  · intro counter h0 hmax
    have hfits := threadName_fits_iff h0 hmax
    refine ⟨hfits, ?_⟩
    rw [threadName, sprintf_returns_iff, length_malloc, hfits]

/-- The last names that fit. -/
theorem names_fit_iff_last :
    (∃ name, connectionName (some fun _ => 170) 9999 = .ok name) ∧
      ∃ name, threadName (some fun _ => 170) 999998 = .ok name :=
  ⟨((names_fit_iff _).1 9999 (by decide) (by decide)).2.mpr (by decide),
    ((names_fit_iff _).2 999998 (by decide) (by decide)).2.mpr (by decide)⟩

/-- The first names that do not: 17 bytes each. -/
theorem names_overflow :
    ((written connectionFormat [10000]).length = 17 ∧
        connectionName (some fun _ => 170) 10000 = .error .outOfBounds) ∧
      (written threadFormat [wrapInt (999999 + 1)]).length = 17 ∧
        threadName (some fun _ => 170) 999999 = .error .outOfBounds := by
  refine ⟨⟨by decide, rfl⟩, by decide, rfl⟩

end OsProgramming.Reactor
