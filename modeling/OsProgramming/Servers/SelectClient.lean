import OsProgramming.Library.Progress
import OsProgramming.Servers.Greeting

/-! `select_client.c`, which waits for its input and for its connection at once. `select` looks at
what the kernel has of the input, and not at what `fgets` has read ahead; and its `write` waits
where the connection is full. -/

namespace OsProgramming.Servers.SelectClient

open Library

open Greeting (maxLine)

inductive Phase where
  | select
  /-- the connection is readable, and the input too where it says so -/
  | read (input : Bool)
  /-- in `fgets`, with the beginning of a line -/
  | fgets (line : List UInt8)
  /-- in `write`, with so much of the line still to send; `begun` where some of it has been sent -/
  | write (bytes : List UInt8) (begun : Bool)
  | exited
  | faulted (fault : Fault)
  deriving DecidableEq

structure Connection where
  /-- what the user will still type -/
  untyped : List UInt8
  /-- what the kernel has of the input -/
  input : List UInt8
  inputEnded : Bool
  /-- what `fgets` has read ahead -/
  stdin : List UInt8
  phase : Phase
  /-- how often `select` has reported the input -/
  reports : ℕ
  /-- what the kernel has taken of the client, and what the connection holds of it -/
  sent : List UInt8
  toServer : List UInt8
  /-- all that the server has sent -/
  answers : List UInt8
  toClient : List UInt8
  serverEnded : Bool
  reset : Bool
  /-- the chunks that have been read, and what has been printed of them -/
  received : List (List UInt8)
  printed : List (List UInt8)

inductive Action where
  | type (count : ℕ)
  | endInput
  | answer (bytes : List UInt8)
  | endServer
  | reset
  /-- the server reads -/
  | take (count : ℕ)
  | select
  | read (arrived : ℕ)
  /-- `fgets` takes of what it has read ahead -/
  | scan
  /-- `fgets` reads so much ahead -/
  | refill (arrived : ℕ)
  | write (count : ℕ)

namespace Connection

def init (text : List UInt8) : Connection where
  untyped := text
  input := []
  inputEnded := false
  stdin := []
  phase := .select
  reports := 0
  sent := []
  toServer := []
  answers := []
  toClient := []
  serverEnded := false
  reset := false
  received := []
  printed := []

variable (room : ℕ)

/-- `fgets` has returned a line. -/
def send (s : Connection) (line : List UInt8) : Connection :=
  match message line with
  | .ok bytes => { s with phase := .write bytes false }
  | .error fault => { s with phase := .faulted fault }

/-- The connection holds `room` bytes. -/
def step (s : Connection) : Action → Option Connection
  | .type count =>
    some { s with untyped := s.untyped.drop count, input := s.input ++ s.untyped.take count }
  | .endInput => if s.untyped = [] then some { s with inputEnded := true } else none
  | .answer bytes =>
    if s.serverEnded then none
    else some { s with answers := s.answers ++ bytes, toClient := s.toClient ++ bytes }
  | .endServer => some { s with serverEnded := true }
  | .reset => some { s with serverEnded := true, reset := true }
  | .take count => some { s with toServer := s.toServer.drop count }
  | .select =>
    match s.phase with
    | .select =>
      let input : Bool := s.input ≠ [] ∨ s.inputEnded
      if s.toClient ≠ [] ∨ s.serverEnded then
        some { s with phase := .read input, reports := s.reports + input.toNat }
      else if input then some { s with phase := .fgets [], reports := s.reports + 1 }
      else none
    | _ => none
  | .read arrived =>
    match s.phase with
    | .read input =>
      if s.toClient = [] then if s.serverEnded then some { s with phase := .exited } else none
      -- ECONNRESET
      else if arrived = 0 then if s.reset then some { s with phase := .exited } else none
      else
        some { s with
          toClient := s.toClient.drop (min arrived maxLine)
          received := s.received ++ [s.toClient.take (min arrived maxLine)]
          printed := s.printed ++ [cString 0 (s.toClient.take (min arrived maxLine))]
          phase := if input then .fgets [] else .select }
    | _ => none
  | .scan =>
    match s.phase with
    | .fgets line =>
      if s.stdin = [] then none
      else
        let (chunk, stdin) := fgets newline (maxLine - 1 - line.length) s.stdin
        if chunk.getLast? = some newline ∨ (line ++ chunk).length = maxLine - 1 then
          some ({ s with stdin }.send (cString 0 (line ++ chunk)))
        else some { s with stdin, phase := .fgets (line ++ chunk) }
    | _ => none
  | .refill arrived =>
    match s.phase with
    | .fgets line =>
      if s.stdin ≠ [] then none
      else if s.input ≠ [] then
        if arrived = 0 then none
        else some { s with stdin := s.input.take arrived, input := s.input.drop arrived }
      else if s.inputEnded then
        -- the end of the input is NULL, and `continue`, only where no line has begun
        if line = [] then some { s with phase := .select } else some (s.send (cString 0 line))
      else none
    | _ => none
  | .write count =>
    match s.phase with
    | .write bytes begun =>
      -- where a part of the line has been sent, `write` returns its length
      if s.reset then some { s with phase := if begun then .select else .exited }
      else if bytes.take count = [] ∨ room < (s.toServer ++ bytes.take count).length then none
      else
        some { s with
          sent := s.sent ++ bytes.take count
          toServer := s.toServer ++ bytes.take count
          phase := if bytes.drop count = [] then .select else .write (bytes.drop count) true }
    | _ => none

/-- All that a step can do. -/
inductive Moves (s : Connection) : Action → Connection → Prop where
  | types (count : ℕ) : Moves s (.type count)
    { s with untyped := s.untyped.drop count, input := s.input ++ s.untyped.take count }
  | endsInput (hall : s.untyped = []) : Moves s .endInput { s with inputEnded := true }
  | answers (bytes : List UInt8) : Moves s (.answer bytes)
    { s with answers := s.answers ++ bytes, toClient := s.toClient ++ bytes }
  | endsServer : Moves s .endServer { s with serverEnded := true }
  | resets : Moves s .reset { s with serverEnded := true, reset := true }
  | takes (count : ℕ) : Moves s (.take count) { s with toServer := s.toServer.drop count }
  | reportsBoth (hphase : s.phase = .select) (hready : s.toClient ≠ [] ∨ s.serverEnded = true) :
    Moves s .select { s with
      phase := .read (decide (s.input ≠ [] ∨ s.inputEnded = true))
      reports := s.reports + (decide (s.input ≠ [] ∨ s.inputEnded = true)).toNat }
  | reportsInput (hphase : s.phase = .select) :
    Moves s .select { s with phase := .fgets [], reports := s.reports + 1 }
  | exits (arrived : ℕ) (input : Bool) (hphase : s.phase = .read input) :
    Moves s (.read arrived) { s with phase := .exited }
  | reads (arrived : ℕ) (input : Bool) (hphase : s.phase = .read input) :
    Moves s (.read arrived) { s with
      toClient := s.toClient.drop (min arrived maxLine)
      received := s.received ++ [s.toClient.take (min arrived maxLine)]
      printed := s.printed ++ [cString 0 (s.toClient.take (min arrived maxLine))]
      phase := if input then .fgets [] else .select }
  | scans (line : List UInt8) (s' : Connection) (hphase : s.phase = .fgets line) (hstdin : s.stdin ≠ [])
    (hscan : step room s .scan = some s') : Moves s .scan s'
  | refills (arrived : ℕ) (line : List UInt8) (hphase : s.phase = .fgets line) (hstdin : s.stdin = [])
    (hinput : s.input ≠ []) (harrived : arrived ≠ 0) :
    Moves s (.refill arrived) { s with stdin := s.input.take arrived, input := s.input.drop arrived }
  | finds (arrived : ℕ) (line : List UInt8) (hphase : s.phase = .fgets line) (hstdin : s.stdin = [])
    (hinput : s.input = []) (hended : s.inputEnded = true) : Moves s (.refill arrived)
      (if line = [] then { s with phase := .select } else s.send (cString 0 line))
  | fails (count : ℕ) (bytes : List UInt8) (begun : Bool) (hphase : s.phase = .write bytes begun)
    (hreset : s.reset = true) :
    Moves s (.write count) { s with phase := if begun then .select else .exited }
  | writes (count : ℕ) (bytes : List UInt8) (begun : Bool) (hphase : s.phase = .write bytes begun)
    (hreset : s.reset = false) (hcount : bytes.take count ≠ []) : Moves s (.write count) { s with
      sent := s.sent ++ bytes.take count
      toServer := s.toServer ++ bytes.take count
      phase := if bytes.drop count = [] then .select else .write (bytes.drop count) true }

variable {room : ℕ}

theorem step_moves {s s' : Connection} {action : Action} (h : step room s action = some s') :
    Moves room s action s' := by
  cases action with
  | type count =>
    cases h
    exact .types count
  | endInput =>
    simp only [step] at h
    split_ifs at h with hall
    cases h
    exact .endsInput hall
  | answer bytes =>
    simp only [step] at h
    split_ifs at h
    cases h
    exact .answers bytes
  | endServer =>
    cases h
    exact .endsServer
  | reset =>
    cases h
    exact .resets
  | take count =>
    cases h
    exact .takes count
  | select =>
    simp only [step] at h
    split at h <;> try cases h
    split_ifs at h with hready <;> cases h
    · exact .reportsBoth ‹_› hready
    · exact .reportsInput ‹_›
  | read arrived =>
    simp only [step] at h
    split at h <;> try cases h
    rename_i input hphase
    by_cases hempty : s.toClient = []
    · rw [if_pos hempty] at h
      split_ifs at h
      cases h
      exact .exits arrived input hphase
    · rw [if_neg hempty] at h
      by_cases harrived : arrived = 0
      · rw [if_pos harrived] at h
        split_ifs at h
        cases h
        exact .exits arrived input hphase
      · rw [if_neg harrived] at h
        cases h
        exact .reads arrived input hphase
  | scan =>
    have hscan := h
    simp only [step] at h
    split at h <;> try cases h
    by_cases hstdin : s.stdin = []
    · rw [if_pos hstdin] at h
      cases h
    · exact .scans _ s' ‹_› hstdin hscan
  | refill arrived =>
    simp only [step] at h
    split at h <;> try cases h
    rename_i line hphase
    split_ifs at h with hstdin hinput harrived hended hline <;> cases h
    · exact .refills arrived line hphase (not_not.mp hstdin) hinput harrived
    · have hfinds : Moves room s .. :=
        .finds arrived line hphase (not_not.mp hstdin) (not_not.mp hinput) hended
      rwa [if_pos hline] at hfinds
    · have hfinds : Moves room s .. :=
        .finds arrived line hphase (not_not.mp hstdin) (not_not.mp hinput) hended
      rwa [if_neg hline] at hfinds
  | write count =>
    simp only [step] at h
    split at h <;> try cases h
    rename_i bytes begun hphase
    by_cases hreset : s.reset = true
    · rw [if_pos hreset] at h
      cases h
      exact .fails count bytes begun hphase hreset
    · rw [if_neg hreset] at h
      by_cases hfull : bytes.take count = [] ∨ room < (s.toServer ++ bytes.take count).length
      · rw [if_pos hfull] at h
        cases h
      · rw [if_neg hfull] at h
        cases h
        exact .writes count bytes begun hphase (Bool.not_eq_true _ ▸ hreset) (not_or.mp hfull).1

end Connection

/-! ### What `fgets` has to do -/

theorem split_joined {xs ys : List UInt8} {lines : List (List UInt8)}
    (h : xs ++ ys = joined newline lines) (hxs : newline ∉ xs) :
    xs ++ ys = [] ∨ ∃ line lines', lines = (xs ++ line) :: lines' ∧
      ys = line ++ newline :: joined newline lines' := by
  cases lines with
  | nil => exact .inl h
  | cons first lines' =>
    right
    rw [joined_cons, List.append_eq_append_iff] at h
    rcases h with ⟨line, rfl, hys⟩ | ⟨line, rfl, hrest⟩
    · exact ⟨line, lines', rfl, hys⟩
    · cases line with
      | nil => exact ⟨[], lines', by simp, hrest.symm⟩
      | cons c line =>
        obtain ⟨rfl, -⟩ := List.cons.inj hrest
        exact absurd (List.mem_append_right _ List.mem_cons_self) hxs

/-- A chunk that ends before the line does, or behind it. -/
theorem split_line {xs ys line rest : List UInt8} (h : xs ++ ys = line ++ newline :: rest) :
    (∃ line', line = xs ++ line' ∧ ys = line' ++ newline :: rest) ∨
      ∃ xs', xs = line ++ newline :: xs' ∧ rest = xs' ++ ys := by
  rcases List.append_eq_append_iff.mp h with ⟨line', hline, hys⟩ | ⟨xs', hxs, hrest⟩
  · exact .inl ⟨line', hline, hys⟩
  · cases xs' with
    | nil => exact .inl ⟨[], by rw [hxs, List.append_nil, List.append_nil], hrest.symm⟩
    | cons c xs' =>
      obtain ⟨rfl, htail⟩ := List.cons.inj hrest
      exact .inr ⟨xs', hxs, htail⟩

/-- Where the line does not end, `fgets` takes all. -/
theorem fgets_middle {room : ℕ} {text : List UInt8} (htext : newline ∉ text)
    (hroom : text.length ≤ room) : fgets newline room text = (text, []) := by
  rcases hroom.lt_or_eq with hlt | rfl
  · induction text generalizing room with
    | nil => cases room <;> rfl
    | cons c text ih =>
      obtain ⟨room, rfl⟩ := Nat.exists_eq_succ_of_ne_zero (Nat.ne_zero_of_lt hlt)
      rw [List.mem_cons, not_or] at htext
      rw [List.length_cons, Nat.succ_lt_succ_iff] at hlt
      rw [fgets, if_neg (Ne.symm htext.1), ih htext.2 hlt.le hlt]
  · have hpiece := fgets_piece htext le_rfl []
    rwa [List.append_nil, List.take_length, List.drop_length, List.append_nil] at hpiece

/-! ### Runs -/

def Phase.line : Phase → List UInt8
  | .fgets line => line
  | .select | .read _ | .write .. | .exited | .faulted _ => []

def Phase.unsent : Phase → List UInt8
  | .write bytes _ => bytes
  | .select | .read _ | .fgets _ | .exited | .faulted _ => []

/-- The calls of `fgets` that are still to return. -/
def Phase.asked : Phase → ℕ
  | .fgets _ | .read true => 1
  | .select | .read false | .write .. | .exited | .faulted _ => 0

namespace Connection

/-- What `fgets` has not returned. -/
def left (s : Connection) : List UInt8 := s.phase.line ++ (s.stdin ++ (s.input ++ s.untyped))

/-- Some lines have been sent, or are in `write`, and the others have not been returned; each report
of `select` is good for one. -/
structure Inv (lines : List (List UInt8)) (s : Connection) : Prop where
  text : ∃ done rest, lines = done ++ rest ∧ s.left = joined newline rest ∧ s.sent <+: joined 0 done ∧
    (s.reset = false → s.sent ++ s.phase.unsent = joined 0 done) ∧
    (s.inputEnded = false → s.phase ≠ .exited → s.reports = done.length + s.phase.asked)
  line : newline ∉ s.phase.line
  untyped : s.inputEnded = true → s.untyped = []
  server : ∀ fault, s.phase ≠ .faulted fault
  answers : s.received.flatten ++ s.toClient = s.answers
  printed : s.printed = s.received.map (cString 0)
  reads : ∀ input, s.phase = .read input → s.toClient ≠ [] ∨ s.serverEnded = true
  writes : ∀ bytes begun, s.phase = .write bytes begun → bytes ≠ []

variable {lines : List (List UInt8)} {s s' : Connection} {action : Action} {line : List UInt8}

theorem inv_init : Inv lines (init (joined newline lines)) :=
  ⟨⟨[], lines, rfl, rfl, List.prefix_rfl, fun _ => rfl, fun _ _ => rfl⟩, List.not_mem_nil, nofun, nofun,
    rfl, rfl, nofun, nofun⟩

/-- The client goes on to another call, with the same bytes before it. -/
theorem Inv.goes (h : Inv lines s) (hleft : s'.left = s.left) (hsent : s'.sent <+: s.sent ++ s.phase.unsent)
    (hkept : s.reset = true → s'.sent = s.sent)
    (hunsent : s'.reset = false → s.reset = false ∧ s'.sent ++ s'.phase.unsent = s.sent ++ s.phase.unsent)
    (hreports : s'.inputEnded = false → s'.phase ≠ .exited → s.inputEnded = false ∧ s.phase ≠ .exited ∧
      s'.reports + s.phase.asked = s.reports + s'.phase.asked)
    (hline : newline ∉ s'.phase.line) (huntyped : s'.inputEnded = true → s'.untyped = [])
    (hserver : ∀ fault, s'.phase ≠ .faulted fault)
    (hanswers : s'.received.flatten ++ s'.toClient = s'.answers)
    (hprinted : s'.printed = s'.received.map (cString 0))
    (hreads : ∀ input, s'.phase = .read input → s'.toClient ≠ [] ∨ s'.serverEnded = true)
    (hwrites : ∀ bytes begun, s'.phase = .write bytes begun → bytes ≠ []) : Inv lines s' := by
  obtain ⟨done, rest, hlines, hrest, hdone, hsame, hcount⟩ := h.text
  refine ⟨⟨done, rest, hlines, hleft.trans hrest, ?_, fun hreset => ?_, fun hended hexited => ?_⟩, hline,
    huntyped, hserver, hanswers, hprinted, hreads, hwrites⟩
  · cases hreset : s.reset with
    | false => exact hsame hreset ▸ hsent
    | true => exact hkept hreset ▸ hdone
  · obtain ⟨hbefore, heq⟩ := hunsent hreset
    rw [heq, hsame hbefore]
  · obtain ⟨hended', hexited', heq⟩ := hreports hended hexited
    have hbefore := hcount hended' hexited'
    omega

/-- The rest of a line has come, and is in `write`. -/
theorem Inv.sends (h : Inv lines s) (hfits : ∀ line ∈ lines, Fits line) (hphase : s.phase = .fgets line)
    {line' stdin : List UInt8} (hnew : newline ∉ line')
    (hstdin : s.stdin = line' ++ newline :: stdin) :
    Fits (line ++ line') ∧
      Inv lines { s with stdin := stdin, phase := .write (line ++ line' ++ [0]) false } := by
  obtain ⟨done, rest, hlines, hrest, hdone, hsame, hcount⟩ := h.text
  have hline : newline ∉ line ++ line' := by
    have hold := h.line
    rw [hphase, Phase.line] at hold
    rw [List.mem_append, not_or]
    exact ⟨hold, hnew⟩
  have hleft : (line ++ line') ++ (newline :: (stdin ++ (s.input ++ s.untyped))) = joined newline rest := by
    rw [← hrest, left, hphase, Phase.line, hstdin]
    simp
  rcases split_joined hleft hline with hnil | ⟨more, rest', rfl, hmore⟩
  · simp at hnil
  have hempty : more = [] := by
    cases more with
    | nil => rfl
    | cons c more =>
      obtain ⟨rfl, -⟩ := List.cons.inj hmore
      have hmem : newline ∈ line ++ line' ++ newline :: more := by simp
      exact absurd hmem (hfits _ (hlines ▸ by simp)).newline
  subst hempty
  rw [List.nil_append] at hmore
  rw [List.append_nil] at hlines
  have hjoined : joined 0 (done ++ [line ++ line']) = joined 0 done ++ (line ++ line' ++ [0]) := by
    rw [joined_append]
    simp [joined]
  refine ⟨hfits _ (hlines ▸ by simp), ⟨done ++ [line ++ line'], rest', by simp [hlines], ?_, ?_, ?_, ?_⟩,
    ?_, h.untyped, by simp, h.answers, h.printed, by simp, by simp⟩
  · exact (List.cons.inj hmore).2
  · rw [hjoined]
    exact hdone.trans (List.prefix_append ..)
  · intro hreset
    have hbefore := hsame hreset
    rw [hphase, Phase.unsent, List.append_nil] at hbefore
    rw [hjoined, ← hbefore, Phase.unsent]
  · intro hended _
    have hbefore := hcount hended (by simp [hphase])
    rw [hphase] at hbefore
    simp only [Phase.asked, List.length_append, List.length_singleton] at hbefore ⊢
    omega
  · exact List.not_mem_nil

variable (room) in
/-- `fgets` finds the end of a line in what it has read ahead, or needs all of it. -/
theorem Inv.scan_cases (h : Inv lines s) (hfits : ∀ line ∈ lines, Fits line)
    (hphase : s.phase = .fgets line) (hstdin : s.stdin ≠ []) :
    (newline ∉ s.stdin ∧
      step room s .scan = some { s with stdin := [], phase := .fgets (line ++ s.stdin) }) ∨
    ∃ line' stdin, newline ∉ line' ∧ s.stdin = line' ++ newline :: stdin ∧
      step room s .scan =
        some { s with stdin := stdin, phase := .write (line ++ line' ++ [0]) false } := by
  obtain ⟨done, rest, hlines, hrest, -⟩ := h.text
  have hline : newline ∉ line := by
    have hold := h.line
    rwa [hphase, Phase.line] at hold
  rw [left, hphase, Phase.line] at hrest
  rcases split_joined hrest hline with hnil | ⟨line', rest', rfl, hmore⟩
  · simp [hstdin] at hnil
  have hfit : Fits (line ++ line') := hfits _ (hlines ▸ by simp)
  have hnew : newline ∉ line' := fun hmem => hfit.newline (List.mem_append_right _ hmem)
  have hlength : line.length + line'.length < maxLine - 1 := by
    rw [← List.length_append]
    exact hfit.length
  rcases split_line hmore with ⟨more, rfl, -⟩ | ⟨stdin, heq, -⟩
  · have hmiddle : newline ∉ s.stdin := fun hmem => hnew (List.mem_append_left _ hmem)
    rw [List.length_append] at hlength
    have hlast : ¬ (s.stdin.getLast? = some newline ∨ (line ++ s.stdin).length = maxLine - 1) := by
      rintro (hlast | hfull)
      · exact hmiddle (List.mem_of_getLast? hlast)
      · rw [List.length_append] at hfull
        omega
    refine .inl ⟨hmiddle, ?_⟩
    have hroom : s.stdin.length ≤ maxLine - 1 - line.length := by omega
    simp only [step, hphase, if_neg hstdin, fgets_middle hmiddle hroom, if_neg hlast]
  · refine .inr ⟨line', stdin, hnew, heq, ?_⟩
    have hroom : line'.length < maxLine - 1 - line.length := by omega
    have hplain : 0 ∉ line ++ line' ++ [newline] := by
      rw [List.mem_append, not_or]
      exact ⟨hfit.nul, by decide⟩
    have hscan : fgets newline (maxLine - 1 - line.length) s.stdin = (line' ++ [newline], stdin) := by
      rw [heq, fgets_line hnew hroom]
    have hlast : (line' ++ [newline]).getLast? = some newline := List.getLast?_concat
    simp only [step, hphase, if_neg hstdin, hscan, hlast, true_or, if_true, ← List.append_assoc,
      cString_eq_self hplain, send, message_line]

/-- At the end of the input no line has begun. -/
theorem Inv.line_eq_nil (h : Inv lines s) (hphase : s.phase = .fgets line) (hstdin : s.stdin = [])
    (hinput : s.input = []) (hended : s.inputEnded = true) : line = [] := by
  obtain ⟨done, rest, -, hrest, -⟩ := h.text
  have hline := h.line
  rw [hphase, Phase.line] at hline
  rw [left, hphase, hstdin, hinput, h.untyped hended, Phase.line] at hrest
  rcases split_joined hrest hline with hnil | ⟨line', rest', -, hmore⟩
  · simpa using hnil
  · simp at hmore

theorem Inv.scan (h : Inv lines s) (hfits : ∀ line ∈ lines, Fits line)
    (hphase : s.phase = .fgets line) (hstdin : s.stdin ≠ []) (hstep : step room s .scan = some s') :
    Inv lines s' := by
  have hline := h.line
  rw [hphase, Phase.line] at hline
  rcases h.scan_cases room hfits hphase hstdin with ⟨hmiddle, heq⟩ | ⟨line', stdin, hnew, hstdin', heq⟩
  · cases hstep.symm.trans heq
    refine h.goes ?_ (List.prefix_append ..) (fun _ => rfl) (fun hreset => ⟨hreset, by rw [hphase]; rfl⟩)
      (fun hended _ => ⟨hended, by rw [hphase]; nofun, by rw [hphase]; rfl⟩) ?_ h.untyped nofun h.answers
      h.printed nofun nofun
    · rw [left, left, hphase]
      simp [Phase.line]
    · rw [Phase.line, List.mem_append, not_or]
      exact ⟨hline, hmiddle⟩
  · cases hstep.symm.trans heq
    exact (h.sends hfits hphase hnew hstdin').2

/-- The client leaves a call that has taken nothing of its lines. -/
theorem Inv.moves (h : Inv lines s) {phase : Phase} {toClient : List UInt8}
    {received printed : List (List UInt8)} {reports : ℕ} (hline : s.phase.line = [])
    (hunsent : s.phase.unsent = []) (hexited : s.phase ≠ .exited)
    (hline' : phase.line = []) (hunsent' : phase.unsent = [])
    (hreports : s.inputEnded = false → phase ≠ .exited →
      reports + s.phase.asked = s.reports + phase.asked)
    (hserver : ∀ fault, phase ≠ .faulted fault)
    (hanswers : received.flatten ++ toClient = s.answers)
    (hprinted : printed = received.map (cString 0))
    (hreads : ∀ input, phase = .read input → toClient ≠ [] ∨ s.serverEnded = true)
    (hwrites : ∀ bytes begun, phase ≠ .write bytes begun) :
    Inv lines { s with phase, toClient, received, printed, reports } := by
  refine h.goes ?_ (List.prefix_append ..) (fun _ => rfl) (fun hreset => ⟨hreset, ?_⟩)
    (fun hopen hexited' => ⟨hopen, hexited, hreports hopen hexited'⟩) ?_ h.untyped hserver hanswers
    hprinted hreads ?_
  · rw [left, left, hline, hline']
  · rw [hunsent, hunsent']
  · rw [hline']
    exact List.not_mem_nil
  · exact fun bytes begun hwrite => absurd hwrite (hwrites bytes begun)

/-- `write` has sent some more, and goes on or returns. -/
theorem Inv.writes_some (h : Inv lines s) {bytes : List UInt8} {begun : Bool}
    (hphase : s.phase = .write bytes begun) (hreset : s.reset = false) (count : ℕ) :
    Inv lines { s with
      sent := s.sent ++ bytes.take count
      toServer := s.toServer ++ bytes.take count
      phase := if bytes.drop count = [] then .select else .write (bytes.drop count) true } := by
  have hunsent : s.phase.unsent = bytes := by rw [hphase, Phase.unsent]
  have hunsent' : (if bytes.drop count = [] then Phase.select
      else .write (bytes.drop count) true).unsent = bytes.drop count := by
    split_ifs with hnil
    · exact hnil.symm
    · rfl
  have hline : (if bytes.drop count = [] then Phase.select
      else .write (bytes.drop count) true).line = [] := by
    split_ifs <;> rfl
  refine h.goes ?_ ?_ (fun hbefore => ?_) (fun _ => ⟨hreset, ?_⟩) (fun hopen _ => ?_) ?_ h.untyped ?_
    h.answers h.printed ?_ ?_
  · rw [left, left, hline, hphase, Phase.line]
  · rw [hunsent]
    exact (List.prefix_append_right_inj _).mpr (List.take_prefix ..)
  · rw [hreset] at hbefore
    cases hbefore
  · rw [hunsent', hunsent, List.append_assoc, List.take_append_drop]
  · refine ⟨hopen, by rw [hphase]; nofun, ?_⟩
    rw [hphase]
    dsimp only
    split_ifs <;> rfl
  · rw [hline]
    exact List.not_mem_nil
  · intro fault
    dsimp only
    split_ifs <;> nofun
  · intro input hread
    dsimp only at hread
    split_ifs at hread
  · intro bytes' begun' hwrite
    dsimp only at hwrite
    split_ifs at hwrite with hnil
    cases hwrite
    exact hnil

/-- The server has reset the connection, and `write` says so or returns what it has sent. -/
theorem Inv.write_fails (h : Inv lines s) {bytes : List UInt8} {begun : Bool}
    (hphase : s.phase = .write bytes begun) (hreset : s.reset = true) :
    Inv lines { s with phase := if begun then .select else .exited } := by
  have hopen : s.reset = false → False := by simp [hreset]
  cases begun with
  | false =>
    exact h.goes (by rw [left, left, hphase]; rfl) (List.prefix_append ..) (fun _ => rfl)
      (fun hbefore => (hopen hbefore).elim) (fun _ hexited => absurd rfl hexited) List.not_mem_nil
      h.untyped nofun h.answers h.printed nofun nofun
  | true =>
    exact h.goes (by rw [left, left, hphase]; rfl) (List.prefix_append ..) (fun _ => rfl)
      (fun hbefore => (hopen hbefore).elim)
      (fun hended _ => ⟨hended, by rw [hphase]; nofun, by rw [hphase]; rfl⟩) List.not_mem_nil
      h.untyped nofun h.answers h.printed nofun nofun

theorem Inv.step (h : Inv lines s) (hfits : ∀ line ∈ lines, Fits line)
    (hstep : step room s action = some s') : Inv lines s' := by
  have hsame : s.inputEnded = false → s.phase ≠ .exited →
      s.inputEnded = false ∧ s.phase ≠ .exited ∧
        s.reports + s.phase.asked = s.reports + s.phase.asked := fun hended hexited =>
    ⟨hended, hexited, rfl⟩
  have hsent : s.sent <+: s.sent ++ s.phase.unsent := List.prefix_append ..
  cases step_moves hstep with
  | types count =>
    refine h.goes ?_ hsent (fun _ => rfl) (⟨·, rfl⟩) hsame h.line (fun hended => ?_) h.server h.answers
      h.printed h.reads h.writes
    · rw [left, left, List.append_assoc, List.take_append_drop]
    · rw [h.untyped hended, List.drop_nil]
  | endsInput hall =>
    exact h.goes rfl hsent (fun _ => rfl) (⟨·, rfl⟩) nofun h.line (fun _ => hall) h.server h.answers
      h.printed h.reads h.writes
  | answers bytes =>
    refine h.goes rfl hsent (fun _ => rfl) (⟨·, rfl⟩) hsame h.line h.untyped h.server ?_ h.printed
      (fun input hread => ?_) h.writes
    · rw [← List.append_assoc, h.answers]
    · refine (h.reads input hread).imp_left fun hne => ?_
      simp [hne]
  | endsServer =>
    exact h.goes rfl hsent (fun _ => rfl) (⟨·, rfl⟩) hsame h.line h.untyped h.server h.answers h.printed
      (fun _ _ => .inr rfl) h.writes
  | resets =>
    exact h.goes rfl hsent (fun _ => rfl) nofun hsame h.line h.untyped h.server h.answers h.printed
      (fun _ _ => .inr rfl) h.writes
  | takes count =>
    exact h.goes rfl hsent (fun _ => rfl) (⟨·, rfl⟩) hsame h.line h.untyped h.server h.answers h.printed
      h.reads h.writes
  | reportsBoth hphase hready =>
    refine h.moves (by rw [hphase]; rfl) (by rw [hphase]; rfl) (by rw [hphase]; nofun) rfl rfl
      (fun _ _ => ?_) nofun h.answers h.printed (fun _ _ => hready) nofun
    rw [hphase]
    cases decide (s.input ≠ [] ∨ s.inputEnded = true) <;> rfl
  | reportsInput hphase =>
    exact h.moves (by rw [hphase]; rfl) (by rw [hphase]; rfl) (by rw [hphase]; nofun) rfl rfl
      (fun _ _ => by rw [hphase]; rfl) nofun h.answers h.printed nofun nofun
  | exits arrived input hphase =>
    exact h.moves (by rw [hphase]; rfl) (by rw [hphase]; rfl) (by rw [hphase]; nofun) rfl rfl
      (fun _ hexited => absurd rfl hexited) nofun h.answers h.printed nofun nofun
  | reads arrived input hphase =>
    have hanswers : (s.received ++ [s.toClient.take (min arrived maxLine)]).flatten ++
        s.toClient.drop (min arrived maxLine) = s.answers := by
      rw [List.flatten_append, List.flatten_singleton, List.append_assoc, List.take_append_drop,
        h.answers]
    have hprinted : s.printed ++ [cString 0 (s.toClient.take (min arrived maxLine))] =
        (s.received ++ [s.toClient.take (min arrived maxLine)]).map (cString 0) := by
      rw [List.map_append, h.printed, List.map_singleton]
    cases input <;> exact h.moves (by rw [hphase]; rfl) (by rw [hphase]; rfl) (by rw [hphase]; nofun) rfl
      rfl (fun _ _ => by rw [hphase]; rfl) nofun hanswers hprinted nofun nofun
  | scans line _ hphase hstdin hscan => exact h.scan hfits hphase hstdin hscan
  | refills arrived line hphase hstdin =>
    refine h.goes ?_ hsent (fun _ => rfl) (⟨·, rfl⟩) hsame h.line h.untyped h.server h.answers h.printed
      h.reads h.writes
    rw [left, left, hstdin, List.nil_append, ← List.append_assoc (s.input.take arrived),
      List.take_append_drop]
  | finds arrived line hphase hstdin hinput hended =>
    obtain rfl := h.line_eq_nil hphase hstdin hinput hended
    rw [if_pos rfl]
    exact h.moves (by rw [hphase]; rfl) (by rw [hphase]; rfl) (by rw [hphase]; nofun) rfl rfl
      (fun hopen => by rw [hended] at hopen; cases hopen) nofun h.answers h.printed nofun nofun
  | fails count bytes begun hphase hreset => exact h.write_fails hphase hreset
  | writes count bytes begun hphase hreset => exact h.writes_some hphase hreset count

theorem inv_of_reaches (hfits : ∀ line ∈ lines, Fits line)
    (h : Reaches (step room) (init (joined newline lines)) s) : Inv lines s :=
  h.invariant (Inv lines) inv_init fun _ _ _ hinv hstep => hinv.step hfits hstep

/-- What the user, the server and the network do. -/
def External : Action → Prop
  | .type _ | .endInput | .answer _ | .endServer | .reset | .take _ => True
  | .select | .read _ | .scan | .refill _ | .write _ => False

instance : DecidablePred External := fun action => by
  cases action <;> unfold External <;> infer_instance

/-- The connection has no room for what is in `write`. -/
def WaitsToWrite (room : ℕ) (s : Connection) : Prop :=
  ∃ bytes begun, s.phase = .write bytes begun ∧ s.reset = false ∧ room ≤ s.toServer.length

/-- The client waits in `write` for the server to read. -/
theorem Inv.write_eq_none_iff (h : Inv lines s) {bytes : List UInt8} {begun : Bool}
    (hphase : s.phase = .write bytes begun) :
    (∀ count, Connection.step room s (.write count) = none) ↔
      s.reset = false ∧ room ≤ s.toServer.length := by
  simp only [Connection.step, hphase]
  constructor
  · intro hblocked
    have hwrite := hblocked 1
    split_ifs at hwrite with hreset hfull
    refine ⟨Bool.not_eq_true _ ▸ hreset, ?_⟩
    obtain ⟨b, bytes, rfl⟩ := List.exists_cons_of_ne_nil (h.writes bytes begun hphase)
    simpa [Nat.lt_succ_iff] using hfull
  · rintro ⟨hreset, hfull⟩ count
    rw [hreset, if_neg Bool.false_ne_true, if_pos]
    refine or_iff_not_imp_left.mpr fun hne => ?_
    have hpos := List.length_pos_iff.mpr hne
    rw [List.length_append]
    omega

/-- The client waits in `select` for what neither the input nor the connection has, in `fgets` for
the rest of a line, or in `write`. -/
theorem Inv.blocked_iff (h : Inv lines s) (hfits : ∀ line ∈ lines, Fits line) :
    (∀ action, ¬ External action → Connection.step room s action = none) ↔
      s.phase = .exited ∨ WaitsToWrite room s ∨ s.inputEnded = false ∧ s.input = [] ∧
        (s.phase = .select ∧ s.toClient = [] ∧ s.serverEnded = false ∨
          ∃ line, s.phase = .fgets line ∧ s.stdin = []) := by
  constructor
  · intro hblocked
    cases hphase : s.phase with
    | select =>
      have hselect := hblocked .select id
      simp only [Connection.step, hphase] at hselect
      split_ifs at hselect with hready hinput
      simp only [not_or, not_not, Bool.not_eq_true] at hready
      simp only [decide_eq_true_eq, not_or, not_not, Bool.not_eq_true] at hinput
      exact .inr (.inr ⟨hinput.2, hinput.1, .inl ⟨rfl, hready⟩⟩)
    | read input =>
      have hread := hblocked (.read 1) id
      simp only [Connection.step, hphase, one_ne_zero, if_false] at hread
      split_ifs at hread with hempty hended
      rcases h.reads input hphase with hne | hends
      · exact absurd hempty hne
      · exact absurd hends hended
    | fgets line =>
      by_cases hstdin : s.stdin = []
      · have hrefill := hblocked (.refill 1) id
        simp only [Connection.step, hphase, hstdin, ne_eq, not_true, one_ne_zero, if_false] at hrefill
        split_ifs at hrefill with hinput hended
        exact .inr (.inr ⟨by simpa using hended, hinput, .inr ⟨line, rfl, hstdin⟩⟩)
      · have hscan := hblocked .scan id
        rcases h.scan_cases room hfits hphase hstdin with ⟨-, heq⟩ | ⟨_, _, -, -, heq⟩ <;>
          cases hscan.symm.trans heq
    | write bytes begun =>
      have hfull := (h.write_eq_none_iff hphase).mp fun count => hblocked (.write count) id
      exact .inr (.inl ⟨bytes, begun, hphase, hfull⟩)
    | exited => exact .inl rfl
    | faulted fault => exact absurd hphase (h.server fault)
  · rintro (hexited | ⟨bytes, begun, hphase, hfull⟩ | ⟨hended, hinput,
      ⟨hphase, hempty, hopen⟩ | ⟨line, hphase, hstdin⟩⟩) action hown
    · cases action <;> first | exact absurd trivial hown | simp only [Connection.step, hexited]
    · have hblocked := (h.write_eq_none_iff hphase).mpr hfull
      cases action <;> first
        | exact absurd trivial hown
        | exact hblocked _
        | simp only [Connection.step, hphase]
    · cases action <;> first
        | exact absurd trivial hown
        | simp [Connection.step, hphase, hended, hinput, hempty, hopen]
    · cases action <;> first
        | exact absurd trivial hown
        | simp [Connection.step, hphase, hended, hinput, hstdin]

/-- The client sends one line each time that `select` reports its input, and prints the strings that
are in what the server sends. The rest of its input is in the hands of `fgets` or of the kernel, and
when the client waits in `select`, all of it is in those of `fgets`, however many lines it is. -/
theorem select_client (hfits : ∀ line ∈ lines, Fits line)
    (h : Reaches (step room) (init (joined newline lines)) s) :
    (∀ fault, s.phase ≠ .faulted fault) ∧ s.received.flatten <+: s.answers ∧
      s.printed = s.received.map (cString 0) ∧
      (∃ done rest, lines = done ++ rest ∧ s.left = joined newline rest ∧ s.sent <+: joined 0 done ∧
        (s.reset = false → s.sent ++ s.phase.unsent = joined 0 done) ∧
        (s.inputEnded = false → s.phase ≠ .exited → s.reports = done.length + s.phase.asked)) ∧
      ((∀ action, ¬ External action → step room s action = none) ↔
        s.phase = .exited ∨ WaitsToWrite room s ∨ s.inputEnded = false ∧ s.input = [] ∧
          (s.phase = .select ∧ s.toClient = [] ∧ s.serverEnded = false ∨
            ∃ line, s.phase = .fgets line ∧ s.stdin = [])) := by
  have hinv := inv_of_reaches hfits h
  exact ⟨hinv.server, hinv.answers ▸ List.prefix_append .., hinv.printed, hinv.text,
    hinv.blocked_iff hfits⟩

def twoLines : List (List UInt8) := [[97], [98]]

theorem fits_twoLines : ∀ line ∈ twoLines, Fits line := by
  intro line hline
  simp only [twoLines, List.mem_cons, List.not_mem_nil, or_false] at hline
  rcases hline with rfl | rfl <;> exact ⟨by decide, by decide, by decide⟩

/-- Two lines that come at once. -/
def typeTwo : List Action := [.type 4, .select, .refill 4, .scan]

/-- The second of two lines stays where it is, and what is behind a null byte is not printed. -/
theorem select_client_two : ∃ s,
    (typeTwo ++ [Action.write 2, .answer [99, 0, 100], .select, .read 3]).foldlM (step 2)
      (init (joined newline twoLines)) = some s ∧
      s.sent = [97, 0] ∧ s.stdin = [98, newline] ∧ s.printed = [[99]] ∧
      s.printed = s.received.map (cString 0) ∧
      ∀ action, ¬ External action → step 2 s action = none := by
  have hany : ((typeTwo ++ [Action.write 2, .answer [99, 0, 100], .select, .read 3]).foldlM (step 2)
      (init (joined newline twoLines))).any (fun s =>
        (s.sent = [97, 0] ∧ s.stdin = [98, newline] ∧ s.printed = [[99]]) ∧
          s.inputEnded = false ∧ s.input = [] ∧ s.phase = .select ∧ s.toClient = [] ∧
            s.serverEnded = false) = true := by
    decide +kernel
  obtain ⟨s, hrun, hs⟩ := (Option.any_eq_true ..).mp hany
  obtain ⟨⟨hsent, hstdin, hprinted⟩, hended, hinput, hphase⟩ := of_decide_eq_true hs
  obtain ⟨-, -, hall, -, hblocked⟩ := select_client fits_twoLines (.of_foldlM hrun)
  exact ⟨s, hrun, hsent, hstdin, hprinted, hall, hblocked.mpr (.inr (.inr ⟨hended, hinput, .inl hphase⟩))⟩

/-! ### The end of the input -/

/-- The calls that are left of this turn; a `write` may send its bytes one by one. -/
def phaseRank : Phase → ℕ
  | .read false => 4
  | .select => 3
  | .read true => 2
  | .fgets line => line.length + 1
  | .write bytes _ => bytes.length + 3
  | .exited | .faulted _ => 0

/-- The calls until all has been sent, at most. -/
def rank (s : Connection) : ℕ := 4 * s.stdin.length + 5 * s.input.length + phaseRank s.phase

/-- All has been sent, or the client has ended because of the server. -/
def Finished (s : Connection) : Prop := s.left = [] ∧ s.phase.unsent = [] ∨ s.phase = .exited

theorem left_eq_nil_iff : s.left = [] ↔
    s.phase.line = [] ∧ s.stdin = [] ∧ s.input = [] ∧ s.untyped = [] := by
  simp only [left, List.append_eq_nil_iff]

theorem Finished.step (h : Finished s) (hinv : Inv lines s) (hstep : step room s action = some s') :
    Finished s' := by
  have hopen : ∀ phase, s.phase = phase → phase ≠ .exited → s.left = [] ∧ s.phase.unsent = [] := by
    rintro phase rfl hexited
    exact h.resolve_right hexited
  cases step_moves hstep with
  | types count =>
    refine h.imp_left fun ⟨hleft, hunsent⟩ => ⟨?_, hunsent⟩
    obtain ⟨hline, hstdin, hinput, huntyped⟩ := left_eq_nil_iff.mp hleft
    exact left_eq_nil_iff.mpr ⟨hline, hstdin, by simp [hinput, huntyped], by simp [huntyped]⟩
  | endsInput | answers | endsServer | resets | takes => exact h
  | reportsBoth hphase | reportsInput hphase | reads _ _ hphase =>
    obtain ⟨hleft, -⟩ := hopen _ hphase nofun
    obtain ⟨-, hrest⟩ := left_eq_nil_iff.mp hleft
    refine .inl ⟨left_eq_nil_iff.mpr ⟨?_, hrest⟩, ?_⟩ <;>
      first | rfl | (dsimp only; split_ifs <;> rfl)
  | exits => exact .inr rfl
  | scans _ _ hphase hstdin =>
    exact absurd (left_eq_nil_iff.mp (hopen _ hphase nofun).1).2.1 hstdin
  | refills _ _ hphase _ hinput =>
    exact absurd (left_eq_nil_iff.mp (hopen _ hphase nofun).1).2.2.1 hinput
  | finds arrived line hphase hstdin hinput hended =>
    obtain ⟨hleft, -⟩ := hopen _ hphase nofun
    obtain ⟨-, hrest⟩ := left_eq_nil_iff.mp hleft
    rw [if_pos (hinv.line_eq_nil hphase hstdin hinput hended)]
    exact .inl ⟨left_eq_nil_iff.mpr ⟨rfl, hrest⟩, rfl⟩
  | fails _ bytes begun hphase | writes _ bytes begun hphase =>
    obtain ⟨-, hunsent⟩ := hopen _ hphase nofun
    rw [hphase, Phase.unsent] at hunsent
    exact absurd hunsent (hinv.writes bytes begun hphase)

/-- Every call of the client brings the end of its lines nearer, and nothing else puts it off. -/
theorem Inv.works (h : Inv lines s) (hfits : ∀ line ∈ lines, Fits line) (hended : s.inputEnded = true)
    (hstep : Connection.step room s action = some s') :
    s'.inputEnded = true ∧ (External action → rank s' ≤ rank s) ∧
      (¬ External action → Finished s' ∨ rank s' < rank s) := by
  cases step_moves hstep with
  | types count =>
    exact ⟨hended, fun _ => by simp [rank, h.untyped hended], fun hown => absurd trivial hown⟩
  | endsInput => exact ⟨rfl, fun _ => le_rfl, fun hown => absurd trivial hown⟩
  | answers | endsServer | resets | takes =>
    exact ⟨hended, fun _ => le_rfl, fun hown => absurd trivial hown⟩
  | reportsBoth hphase | reportsInput hphase =>
    exact ⟨hended, False.elim, fun _ => .inr (by simp [rank, phaseRank, hphase, hended])⟩
  | exits => exact ⟨hended, False.elim, fun _ => .inl (.inr rfl)⟩
  | reads arrived input hphase =>
    refine ⟨hended, False.elim, fun _ => .inr ?_⟩
    cases input <;> simp [rank, phaseRank, hphase]
  | scans line _ hphase hstdin hscan =>
    have hpos := List.length_pos_iff.mpr hstdin
    rcases h.scan_cases room hfits hphase hstdin with ⟨-, heq⟩ | ⟨line', stdin, -, hstdin', heq⟩
    · cases hscan.symm.trans heq
      refine ⟨hended, False.elim, fun _ => .inr ?_⟩
      simp only [rank, phaseRank, hphase, List.length_nil, List.length_append]
      omega
    · cases hscan.symm.trans heq
      refine ⟨hended, False.elim, fun _ => .inr ?_⟩
      simp only [rank, phaseRank, hphase, hstdin', List.length_append, List.length_cons,
        List.length_nil]
      omega
  | refills arrived line hphase hstdin hinput harrived =>
    have hpos := List.length_pos_iff.mpr hinput
    refine ⟨hended, False.elim, fun _ => .inr ?_⟩
    simp only [rank, hphase, List.length_take, List.length_drop, hstdin, List.length_nil]
    omega
  | finds arrived line hphase hstdin hinput =>
    rw [if_pos (h.line_eq_nil hphase hstdin hinput hended)]
    exact ⟨hended, False.elim, fun _ =>
      .inl (.inl ⟨left_eq_nil_iff.mpr ⟨rfl, hstdin, hinput, h.untyped hended⟩, rfl⟩)⟩
  | fails _ bytes begun hphase =>
    refine ⟨hended, False.elim, fun _ => ?_⟩
    have hpos := List.length_pos_iff.mpr (h.writes bytes begun hphase)
    cases begun with
    | false => exact .inl (.inr rfl)
    | true =>
      right
      simp only [rank, phaseRank, hphase, if_true]
      omega
  | writes count bytes begun hphase hreset hcount =>
    refine ⟨hended, False.elim, fun _ => .inr ?_⟩
    have hpos := List.length_pos_iff.mpr (h.writes bytes begun hphase)
    have hless := List.length_pos_iff.mpr hcount
    rw [List.length_take] at hless
    simp only [rank, hphase]
    split_ifs with hnil
    · simp only [phaseRank]
      omega
    · simp only [phaseRank, List.length_drop]
      omega

theorem phaseRank_le (phase : Phase) :
    phaseRank phase ≤ phase.line.length + phase.unsent.length + 4 := by
  cases phase with
  | read input => cases input <;> simp [phaseRank]
  | _ => simp [phaseRank, Phase.line, Phase.unsent]

/-- When the input has ended, the client waits only in `write`: all that `fgets` has read ahead, and
the rest, is sent after a bounded number of its calls, unless the server ends or resets the
connection first. -/
theorem select_client_ends (hfits : ∀ line ∈ lines, Fits line)
    (h : Reaches (step room) (init (joined newline lines)) s) (hended : s.inputEnded = true)
    {actions : List Action} (hpath : actions.foldlM (step room) s = some s')
    (hopen : s'.phase ≠ .exited) :
    ((∀ action, ¬ External action → step room s' action = none) ↔ WaitsToWrite room s') ∧
      (s'.reset = true ∨ s'.sent = joined 0 lines ∨ actions.countP (¬ External ·) ≤
        4 * s.stdin.length + 5 * s.input.length + s.phase.line.length + s.phase.unsent.length + 4) := by
  have hs : Inv lines s ∧ s.inputEnded = true := ⟨inv_of_reaches hfits h, hended⟩
  have hkeeps : ∀ s action s', Inv lines s ∧ s.inputEnded = true → step room s action = some s' →
      Inv lines s' ∧ s'.inputEnded = true := by
    intro s action s' hs hstep
    exact ⟨hs.1.step hfits hstep, (hs.1.works hfits hs.2 hstep).1⟩
  have hs' := foldlM_invariant hkeeps hs hpath
  constructor
  · rw [hs'.1.blocked_iff hfits]
    constructor
    · rintro (hexited | hwaits | ⟨hopen', -⟩)
      · exact absurd hexited hopen
      · exact hwaits
      · rw [hs'.2] at hopen'
        cases hopen'
    · exact fun hwaits => .inr (.inl hwaits)
  · rcases rank_path_until (k := 0) hkeeps (fun _ _ _ hs hfinished => hfinished.step hs.1)
      (fun _ _ _ hs hstep => (hs.1.works hfits hs.2 hstep).2.2)
      (fun _ _ _ hs hstep => (hs.1.works hfits hs.2 hstep).2.1) hs hpath with
      (⟨hleft, hunsent⟩ | hexited) | hrank
    · obtain ⟨done, rest, hlines, hrest, -, hsent, -⟩ := hs'.1.text
      rw [hleft] at hrest
      cases hreset : s'.reset with
      | true => exact .inl rfl
      | false =>
        have hall := hsent hreset
        rw [hunsent, List.append_nil] at hall
        cases rest with
        | nil => exact .inr (.inl (by rw [hall, hlines, List.append_nil]))
        | cons line rest => simp at hrest
    · exact absurd hexited hopen
    · have hphase := phaseRank_le s.phase
      simp only [rank] at hrank
      exact .inr (.inr (by omega))

/-- The end of the input brings the second line out, but the connection is full: the client waits
for the server to read. -/
theorem select_client_ends_two : ∃ s s',
    (typeTwo ++ [Action.write 2, .endInput]).foldlM (step 3) (init (joined newline twoLines)) = some s ∧
      [Action.select, .scan, .write 1].foldlM (step 3) s = some s' ∧ s'.sent = [97, 0, 98] ∧
      (∀ action, ¬ External action → step 3 s' action = none) ∧
      ∃ s'', [Action.select, .scan, .write 1, .take 1, .write 1].foldlM (step 3) s = some s'' ∧
        s''.sent = joined 0 twoLines ∧
        ¬ ∀ action, ¬ External action → step 3 s'' action = none := by
  have hany : ((typeTwo ++ [Action.write 2, .endInput]).foldlM (step 3)
      (init (joined newline twoLines))).any (fun s => s.inputEnded = true ∧
        ([Action.select, .scan, .write 1].foldlM (step 3) s).any (fun s' => s'.sent = [97, 0, 98] ∧
          s'.phase = .write [0] true ∧ s'.reset = false ∧ 3 ≤ s'.toServer.length) = true ∧
        ([Action.select, .scan, .write 1, .take 1, .write 1].foldlM (step 3) s).any (fun s'' =>
          s''.sent = joined 0 twoLines ∧ s''.phase = .select) = true) = true := by
    decide +kernel
  obtain ⟨s, hrun, hs⟩ := (Option.any_eq_true ..).mp hany
  obtain ⟨hended, hwaits, hlater⟩ := of_decide_eq_true hs
  obtain ⟨s', hrun', hs'⟩ := (Option.any_eq_true ..).mp hwaits
  obtain ⟨hsent, hphase, hreset, hfull⟩ := of_decide_eq_true hs'
  obtain ⟨s'', hrun'', hs''⟩ := (Option.any_eq_true ..).mp hlater
  obtain ⟨hsent'', hphase''⟩ := of_decide_eq_true hs''
  have hopen : s'.phase ≠ .exited := by rw [hphase]; nofun
  have hopen'' : s''.phase ≠ .exited := by rw [hphase'']; nofun
  have hends := (select_client_ends fits_twoLines (.of_foldlM hrun) hended hrun' hopen).1
  have hends'' := (select_client_ends fits_twoLines (.of_foldlM hrun) hended hrun'' hopen'').1
  refine ⟨s, s', hrun, hrun', hsent, hends.mpr ⟨[0], true, hphase, hreset, hfull⟩, s'', hrun'', hsent'',
    fun hblocked => ?_⟩
  obtain ⟨bytes, begun, hwrite, -⟩ := hends''.mp hblocked
  rw [hphase''] at hwrite
  cases hwrite

end Connection

end OsProgramming.Servers.SelectClient
