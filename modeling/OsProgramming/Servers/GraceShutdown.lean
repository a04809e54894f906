import OsProgramming.Library.Progress
import OsProgramming.Servers.Greeting

/-! `grace_client.c` and `grace_server.c` with the connection between them. The client ends
its half of the connection by `shutdown`, or all of it by `close`; the server answers what each
`read` gives it. An interrupt ends the server at once, and the runs here are those before it. -/

namespace OsProgramming.Servers.GraceShutdown

open Library

open Greeting (maxLine)

inductive Client where
  | connected
  /-- after its `shutdown` -/
  | halfClosed
  /-- after its `close`, before its `exit` -/
  | closed
  /-- it has ended because of the server -/
  | terminated
  | faulted (fault : Fault)
  deriving DecidableEq

/-- The next call of the server. -/
inductive Server where
  | read
  | write (bytes : List UInt8)
  | exited
  | faulted (fault : Fault)
  deriving DecidableEq

/-- What the server's kernel knows of a connection that the client has closed as a whole. -/
inductive Link where
  | up
  /-- the next `read` fails -/
  | reset
  | down
  deriving DecidableEq

/-- `toServer` and `toClient` are the bytes on their way, `sent` is all that the client has
written, and `received` what each `read` of the server has put into its buffer. -/
structure Connection where
  input : List UInt8
  client : Client
  sent : List UInt8
  toServer : List UInt8
  link : Link
  server : Server
  received : List (List UInt8)
  count : ℕ
  toClient : List UInt8
  printed : List (List UInt8)

inductive Action where
  /-- the client reads a line of its input -/
  | clientInput
  /-- a `read` finds so many bytes that have arrived -/
  | clientRead (arrived : ℕ)
  | serverRead (arrived : ℕ)
  | serverWrite
  /-- the server's kernel is told that the client reads no more -/
  | reset
  deriving DecidableEq

/-- What the server writes for what it has read. -/
def answer (chunk : List UInt8) : Result (List UInt8) := do
  let receiveBuffer ← store (List.replicate bufferSize 0) 0 chunk
  if 0 ∈ receiveBuffer then greet receiveBuffer else .error .outOfBounds

namespace Connection

def init (input : List UInt8) : Connection where
  input := input
  client := .connected
  sent := []
  toServer := []
  link := .up
  server := .read
  received := []
  count := 0
  toClient := []
  printed := []

def clientInput (s : Connection) (line input : List UInt8) : Connection :=
  if (literal "shutdown").isPrefixOf line then { s with input := input, client := .halfClosed }
  else if (literal "close").isPrefixOf line then { s with input := input, client := .closed }
  else
    match message line with
    | .ok bytes =>
      { s with input := input, sent := s.sent ++ bytes, toServer := s.toServer ++ bytes }
    | .error fault => { s with input := input, client := .faulted fault }

/-- The server has read so much, and counts it. -/
def receive (s : Connection) (chunk : List UInt8) : Connection :=
  { s with
    received := s.received ++ [chunk]
    count := s.count + 1
    server :=
      match answer chunk with
      | .ok bytes => .write bytes
      | .error fault => .faulted fault }

def step (s : Connection) : Action → Option Connection
  | .clientInput =>
    match s.client with
    | .connected =>
      -- `select` reports the end of the input again and again
      if s.input = [] then some s
      else
        let (line, input) := fgets newline (maxLine - 1) s.input
        some (s.clientInput (cString 0 line) input)
    | _ => none
  | .clientRead arrived =>
    match s.client with
    | .connected | .halfClosed =>
      if s.toClient = [] then
        if s.server = .exited then some { s with client := .terminated } else none
      else if arrived = 0 then none
      else
        some { s with
          toClient := s.toClient.drop (min arrived maxLine)
          printed := s.printed ++ [cString 0 (s.toClient.take (min arrived maxLine))] }
    | _ => none
  | .serverRead arrived =>
    match s.server, s.link with
    -- the result of `read` is a `size_t`, and -1 is not below 0
    | .read, .reset => some (receive { s with link := .down } [])
    | .read, _ =>
      if s.toServer = [] then
        match s.client with
        | .connected | .faulted _ => none
        | _ => some { s with server := .exited }
      else if arrived = 0 then none
      else
        some (receive { s with toServer := s.toServer.drop (min arrived maxLine) }
          (s.toServer.take (min arrived maxLine)))
    | _, _ => none
  | .serverWrite =>
    match s.server with
    | .write bytes => some { s with server := .read, toClient := s.toClient ++ bytes }
    | _ => none
  | .reset =>
    match s.client, s.link with
    | .closed, .up => some { s with link := .reset, toServer := [] }
    | _, _ => none

end Connection

/-! ### What one call sends -/

/-- The line is not sent but obeyed. -/
def command (line : List UInt8) : Bool :=
  (literal "shutdown").isPrefixOf (line ++ [newline]) || (literal "close").isPrefixOf (line ++ [newline])

/-- The answer is made inside the buffers, if what it is made of ends in the first of them. -/
theorem answer_eq {chunk : List UInt8} (hle : chunk.length ≤ bufferSize)
    (hends : chunk.length < bufferSize ∨ 0 ∈ chunk) : answer chunk = .ok (reply chunk) := by
  have hread : store (List.replicate bufferSize 0) 0 chunk =
      .ok (chunk ++ List.replicate (bufferSize - chunk.length) 0) := by
    rw [store_start (by simpa using hle), List.drop_replicate]
  have hmem : 0 ∈ chunk ++ List.replicate (bufferSize - chunk.length) (0 : UInt8) := by
    rw [List.mem_append, List.mem_replicate]
    rcases hends with hlt | hmem
    · exact .inr ⟨Nat.sub_ne_zero_of_lt hlt, rfl⟩
    · exact .inl hmem
  rw [answer, hread, ok_bind, if_pos hmem, greet_eq, reply_padded]
  simp only [List.length_append, List.length_replicate]
  omega

/-! ### What the connection carries -/

/-- What the server is about to write. -/
def Server.pending : Server → List UInt8
  | .write bytes => bytes
  | .read | .exited | .faulted _ => []

namespace Connection

structure Inv (lines : List (List UInt8)) (s : Connection) : Prop where
  sent : ∃ done rest, lines = done ++ rest ∧ (∀ line ∈ done, command line = false) ∧
    s.sent = joined 0 done ∧ (s.client = .connected → s.input = joined newline rest) ∧
    (s.client ≠ .connected → ∃ line ∈ rest.head?, command line = true)
  toServer : ∃ texts, s.toServer = joined 0 texts ∧ ∀ text ∈ texts, text.length < maxLine
  received : s.received.flatten <+: s.sent
  inOrder : s.link = .up → s.received.flatten ++ s.toServer = s.sent
  answered : s.printed.flatten ++ s.toClient ++ s.server.pending = (s.received.map reply).flatten
  count : s.count = s.received.length
  client : ∀ fault, s.client ≠ .faulted fault
  server : ∀ fault, s.server ≠ .faulted fault
  link : s.link ≠ .up → s.client = .closed ∧ s.toServer = []
  exited : s.server = .exited → s.client ≠ .connected ∧ (s.link = .up → s.toServer = [])
  terminated : s.client = .terminated → s.server = .exited ∧ s.toClient = []
  chunks : s.client ≠ .closed → ∀ chunk ∈ s.received, chunk ≠ []

variable {lines : List (List UInt8)} {s s' : Connection} {action : Action}

theorem inv_init : Inv lines (init (joined newline lines)) := by
  constructor <;> simp [init, Server.pending]
  · exact ⟨[], lines, rfl, nofun, rfl, rfl⟩
  · exact ⟨[], rfl, nofun⟩

/-- The client obeys a command that ends its half, or the whole. -/
theorem Inv.setClient (h : Inv lines s) (client : Client) (input : List UInt8)
    (hhere : s.client = .connected) (hclient : client = .halfClosed ∨ client = .closed)
    {done rest : List (List UInt8)} {line : List UInt8} (hlines : lines = done ++ line :: rest)
    (hdone : ∀ line ∈ done, command line = false) (hsent : s.sent = joined 0 done)
    (hline : command line = true) : Inv lines { s with input := input, client := client } := by
  have hup : s.link = .up := by
    by_contra hdown
    cases hhere.symm.trans (h.link hdown).1
  have hchunks := h.chunks (by simp [hhere])
  have hcommand : ∃ line' ∈ (line :: rest).head?, command line' = true := ⟨line, rfl, hline⟩
  rcases hclient with rfl | rfl
  · exact ⟨⟨done, _, hlines, hdone, hsent, nofun, fun _ => hcommand⟩, h.toServer, h.received, h.inOrder,
      h.answered, h.count, nofun, h.server, fun hdown => absurd hup hdown,
      fun hexited => absurd hhere (h.exited hexited).1, nofun, fun _ => hchunks⟩
  · exact ⟨⟨done, _, hlines, hdone, hsent, nofun, fun _ => hcommand⟩, h.toServer, h.received, h.inOrder,
      h.answered, h.count, nofun, h.server, fun hdown => absurd hup hdown,
      fun hexited => absurd hhere (h.exited hexited).1, nofun, fun _ => hchunks⟩

/-- The client writes a line. -/
theorem Inv.sends (h : Inv lines s) (hhere : s.client = .connected) {done rest : List (List UInt8)}
    {line : List UInt8} (hlines : lines = done ++ line :: rest)
    (hdone : ∀ line ∈ done, command line = false) (hsent : s.sent = joined 0 done) (hfits : Fits line)
    (hline : command line = false) :
    Inv lines { s with
      input := joined newline rest
      sent := s.sent ++ (line ++ [0])
      toServer := s.toServer ++ (line ++ [0]) } := by
  obtain ⟨texts, htexts, hall⟩ := h.toServer
  have hone : joined 0 [line] = line ++ [0] := by simp
  refine ⟨⟨done ++ [line], rest, by simp [hlines], ?_, ?_, fun _ => rfl, fun hopen => absurd hhere hopen⟩,
    ⟨texts ++ [line], ?_, ?_⟩, h.received.trans (List.prefix_append ..), fun hup => ?_, h.answered,
    h.count, h.client, h.server, fun hdown => ?_, fun hexited => absurd hhere (h.exited hexited).1, ?_,
    h.chunks⟩
  · rw [List.forall_mem_append, List.forall_mem_singleton]
    exact ⟨hdone, hline⟩
  · rw [hsent, joined_append, hone]
  · rw [htexts, joined_append, hone]
  · rw [List.forall_mem_append, List.forall_mem_singleton]
    exact ⟨hall, hfits.length.trans_le (Nat.sub_le ..)⟩
  · rw [← List.append_assoc, h.inOrder hup]
  · cases hhere.symm.trans (h.link hdown).1
  · intro hended
    cases hhere.symm.trans hended

theorem Inv.clientInput (h : Inv lines s) (hfits : ∀ line ∈ lines, Fits line)
    (hhere : s.client = .connected) (hinput : s.input ≠ []) :
    Inv lines (s.clientInput (cString 0 (fgets newline (maxLine - 1) s.input).1)
      (fgets newline (maxLine - 1) s.input).2) := by
  obtain ⟨done, rest, hlines, hdone, hsent, hrest, -⟩ := h.sent
  rw [hrest hhere] at hinput ⊢
  cases rest with
  | nil => exact absurd rfl hinput
  | cons line rest =>
    have hline : Fits line := hfits line (by simp [hlines])
    have hplain : 0 ∉ line ++ [newline] := by
      rw [List.mem_append, not_or]
      exact ⟨hline.nul, by decide⟩
    rw [joined_cons, fgets_line hline.newline hline.length, cString_eq_self hplain,
      Connection.clientInput]
    split_ifs with hshutdown hclose
    · exact h.setClient .halfClosed _ hhere (.inl rfl) hlines hdone hsent (by simp [command, hshutdown])
    · exact h.setClient .closed _ hhere (.inr rfl) hlines hdone hsent (by simp [command, hclose])
    · rw [message_line]
      exact h.sends hhere hlines hdone hsent hline (by simp [command, hshutdown, hclose])

theorem Inv.not_mem_toClient (h : Inv lines s) : 0 ∉ s.toClient := by
  intro hmem
  have hall : 0 ∈ (s.received.map reply).flatten := by
    rw [← h.answered]
    simp [hmem]
  obtain ⟨text, htext, hzero⟩ := List.mem_flatten.mp hall
  obtain ⟨chunk, -, rfl⟩ := List.mem_map.mp htext
  exact not_mem_reply chunk hzero

/-- The client prints all that it reads. -/
theorem Inv.prints (h : Inv lines s) (n : ℕ) :
    Inv lines { s with
      toClient := s.toClient.drop n
      printed := s.printed ++ [cString 0 (s.toClient.take n)] } := by
  have hplain : cString 0 (s.toClient.take n) = s.toClient.take n :=
    cString_eq_self fun hmem => h.not_mem_toClient (List.mem_of_mem_take hmem)
  have hflow : (s.printed ++ [s.toClient.take n]).flatten ++ s.toClient.drop n =
      s.printed.flatten ++ s.toClient := by
    rw [List.flatten_append, List.flatten_singleton, List.append_assoc, List.take_append_drop]
  rw [hplain]
  refine ⟨h.sent, h.toServer, h.received, h.inOrder, ?_, h.count, h.client, h.server, h.link,
    h.exited, fun hended => ⟨(h.terminated hended).1, ?_⟩, h.chunks⟩
  · rw [hflow, h.answered]
  · rw [(h.terminated hended).2, List.drop_nil]

/-- The client has read all answers. -/
theorem Inv.terminates (h : Inv lines s) (hhere : s.client ≠ .closed) (hexited : s.server = .exited)
    (hempty : s.toClient = []) : Inv lines { s with client := .terminated } := by
  obtain ⟨done, rest, hlines, hdone, hsent, -, hcommand⟩ := h.sent
  have hopen := (h.exited hexited).1
  have hup : s.link = .up := by
    by_contra hdown
    exact hhere (h.link hdown).1
  exact ⟨⟨done, rest, hlines, hdone, hsent, nofun, fun _ => hcommand hopen⟩, h.toServer, h.received,
    h.inOrder, h.answered, h.count, nofun, h.server, fun hdown => absurd hup hdown, fun _ => ⟨nofun, (h.exited hexited).2⟩,
    fun _ => ⟨hexited, hempty⟩, fun _ => h.chunks hhere⟩

/-- The server has read a chunk, of which it makes an answer. -/
theorem Inv.receives (h : Inv lines s) (hhere : s.server = .read) {link : Link} {chunk rest : List UInt8}
    (hanswer : answer chunk = .ok (reply chunk))
    (hrest : ∃ texts, rest = joined 0 texts ∧ ∀ text ∈ texts, text.length < maxLine)
    (hreceived : (s.received ++ [chunk]).flatten <+: s.sent)
    (hup : link = .up → (s.received ++ [chunk]).flatten ++ rest = s.sent)
    (hlink : link ≠ .up → s.client = .closed ∧ rest = []) (hchunk : s.client ≠ .closed → chunk ≠ []) :
    Inv lines (receive { s with link := link, toServer := rest } chunk) := by
  have hserver : (receive { s with link := link, toServer := rest } chunk).server =
      .write (reply chunk) := by
    simp only [receive, hanswer]
  have hanswered := h.answered
  rw [hhere, Server.pending, List.append_nil] at hanswered
  refine ⟨h.sent, hrest, hreceived, hup, ?_, ?_, h.client, ?_, hlink, ?_, ?_, ?_⟩
  · rw [hserver]
    simp only [receive, Server.pending, hanswered]
    simp
  · simp [receive, h.count]
  · intro fault
    rw [hserver]
    nofun
  · intro hexited
    cases hserver.symm.trans hexited
  · intro hended
    cases hhere.symm.trans (h.terminated hended).1
  · intro hclient piece hpiece
    rcases List.mem_append.mp hpiece with hpiece | hpiece
    · exact h.chunks hclient piece hpiece
    · rw [List.mem_singleton.mp hpiece]
      exact hchunk hclient

/-- Whatever a `read` takes of what is on its way to the server ends in the buffer. -/
theorem Inv.answer_take (h : Inv lines s) (hempty : s.toServer ≠ []) (arrived : ℕ) :
    answer (s.toServer.take (min arrived maxLine)) =
      .ok (reply (s.toServer.take (min arrived maxLine))) := by
  obtain ⟨texts, htexts, hall⟩ := h.toServer
  have hle : (s.toServer.take (min arrived maxLine)).length ≤ bufferSize :=
    (List.length_take_le ..).trans (Nat.min_le_right arrived maxLine)
  refine answer_eq hle ?_
  rcases Nat.lt_or_ge arrived maxLine with hfew | hmany
  · refine .inl ((List.length_take_le ..).trans_lt ?_)
    rwa [min_eq_left hfew.le]
  · right
    rw [min_eq_right hmany, htexts]
    apply mem_take_joined _ hall
    rintro rfl
    exact hempty htexts

/-- The server reads some of what is on its way to it. -/
theorem Inv.reads (h : Inv lines s) (hhere : s.server = .read) (hempty : s.toServer ≠ [])
    {arrived : ℕ} (harrived : arrived ≠ 0) :
    Inv lines (receive { s with toServer := s.toServer.drop (min arrived maxLine) }
      (s.toServer.take (min arrived maxLine))) := by
  obtain ⟨texts, htexts, hall⟩ := h.toServer
  have hup : s.link = .up := by
    by_contra hdown
    exact hempty (h.link hdown).2
  have hrest := drop_joined 0 (P := fun text => text.length < maxLine)
    (fun text k hlt => (by simp : (text.drop k).length ≤ text.length).trans_lt hlt) hall (min arrived maxLine)
  rw [← htexts] at hrest
  have hpos : 0 < min arrived maxLine := lt_min (Nat.pos_of_ne_zero harrived) (by decide)
  have hchunk : s.toServer.take (min arrived maxLine) ≠ [] := by
    rw [ne_eq, List.take_eq_nil_iff, not_or]
    exact ⟨hpos.ne', hempty⟩
  have hsent : (s.received ++ [s.toServer.take (min arrived maxLine)]).flatten ++
      s.toServer.drop (min arrived maxLine) = s.sent := by
    rw [List.flatten_append, List.flatten_singleton, List.append_assoc, List.take_append_drop,
      h.inOrder hup]
  exact h.receives hhere (h.answer_take hempty arrived) hrest ⟨_, hsent⟩ (fun _ => hsent)
    (fun hdown => absurd hup hdown) fun _ => hchunk

/-- The `read` of the server fails. -/
theorem Inv.readFails (h : Inv lines s) (hhere : s.server = .read) (hreset : s.link = .reset) :
    Inv lines (receive { s with link := .down } []) := by
  obtain ⟨hclosed, hempty⟩ := h.link (by simp [hreset])
  have hreceived : (s.received ++ [[]]).flatten <+: s.sent := by simpa using h.received
  have hanswer : answer [] = .ok (reply []) := answer_eq (Nat.zero_le _) (.inl (by decide))
  have hsame : ({ s with link := .down } : Connection) = { s with link := .down, toServer := [] } := by
    rw [hempty]
  rw [hsame]
  exact h.receives hhere hanswer ⟨[], rfl, nofun⟩ hreceived nofun (fun _ => ⟨hclosed, rfl⟩)
    fun hopen => absurd hclosed hopen

/-- The server has read to the end. -/
theorem Inv.exits (h : Inv lines s) (hhere : s.server = .read) (hempty : s.toServer = [])
    (hclient : s.client ≠ .connected) : Inv lines { s with server := .exited } := by
  have hanswered := h.answered
  rw [hhere] at hanswered
  exact ⟨h.sent, h.toServer, h.received, h.inOrder, hanswered, h.count, h.client, nofun, h.link,
    fun _ => ⟨hclient, fun _ => hempty⟩, fun hended => ⟨rfl, (h.terminated hended).2⟩, h.chunks⟩

theorem Inv.answers (h : Inv lines s) {bytes : List UInt8} (hhere : s.server = .write bytes) :
    Inv lines { s with server := .read, toClient := s.toClient ++ bytes } := by
  have hanswered := h.answered
  rw [hhere, Server.pending, List.append_assoc] at hanswered
  refine ⟨h.sent, h.toServer, h.received, h.inOrder, ?_, h.count, h.client, nofun, h.link, nofun,
    fun hended => ?_, h.chunks⟩
  · rw [Server.pending, List.append_nil, hanswered]
  · cases hhere.symm.trans (h.terminated hended).1

/-- What is on its way is lost. -/
theorem Inv.resets (h : Inv lines s) (hhere : s.client = .closed) :
    Inv lines { s with link := .reset, toServer := [] } :=
  ⟨h.sent, ⟨[], rfl, nofun⟩, h.received, nofun, h.answered, h.count, h.client, h.server,
    fun _ => ⟨hhere, rfl⟩, fun hexited => ⟨(h.exited hexited).1, nofun⟩, h.terminated, h.chunks⟩

theorem Inv.step (h : Inv lines s) (hfits : ∀ line ∈ lines, Fits line)
    (hstep : step s action = some s') : Inv lines s' := by
  cases action with
  | clientInput =>
    simp only [Connection.step] at hstep
    split at hstep <;> try cases hstep
    next hhere =>
      split_ifs at hstep with hinput <;> cases hstep
      · exact h
      · exact h.clientInput hfits hhere hinput
  | clientRead arrived =>
    have hreads : (if s.toClient = [] then
        if s.server = .exited then some { s with client := .terminated } else none
      else if arrived = 0 then none
      else
        some { s with
          toClient := s.toClient.drop (min arrived maxLine)
          printed := s.printed ++ [cString 0 (s.toClient.take (min arrived maxLine))] }) = some s' →
        s.client ≠ .closed → Inv lines s' := by
      intro hread hopen
      split_ifs at hread with hempty hexited harrived <;> cases hread
      · exact h.terminates hopen hexited hempty
      · exact h.prints _
    simp only [Connection.step] at hstep
    split at hstep
    next hhere => exact hreads hstep (by simp [hhere])
    next hhere => exact hreads hstep (by simp [hhere])
    next => cases hstep
  | serverRead arrived =>
    simp only [Connection.step] at hstep
    split at hstep
    next hhere hreset =>
      cases hstep
      exact h.readFails hhere hreset
    next hhere hreset =>
      split_ifs at hstep with hempty harrived
      · split at hstep <;> cases hstep
        next hconnected _ => exact h.exits hhere hempty hconnected
      · cases hstep
        exact h.reads hhere hempty harrived
    next => cases hstep
  | serverWrite =>
    simp only [Connection.step] at hstep
    split at hstep <;> cases hstep
    next hhere => exact h.answers hhere
  | reset =>
    simp only [Connection.step] at hstep
    split at hstep <;> cases hstep
    next hhere _ => exact h.resets hhere

theorem inv_of_reaches (hfits : ∀ line ∈ lines, Fits line)
    (h : Reaches step (init (joined newline lines)) s) : Inv lines s :=
  h.invariant (Inv lines) inv_init fun _ _ _ hinv hstep => hinv.step hfits hstep

/-- The lines before the first command. -/
def before (lines : List (List UInt8)) : List (List UInt8) := lines.takeWhile fun line => !command line

theorem Inv.sent_before (h : Inv lines s) : s.sent <+: joined 0 (before lines) ∧
    (s.client ≠ .connected → s.sent = joined 0 (before lines)) := by
  obtain ⟨done, rest, rfl, hdone, hsent, -, hcommand⟩ := h.sent
  have hbefore : before (done ++ rest) = done ++ before rest :=
    List.takeWhile_append_of_pos fun line hline => by simp [hdone line hline]
  rw [hbefore, hsent, joined_append]
  refine ⟨List.prefix_append .., fun hopen => ?_⟩
  obtain ⟨line, hline, hline_command⟩ := hcommand hopen
  obtain ⟨rest, rfl⟩ := List.head?_eq_some_iff.mp hline
  simp [before, hline_command]

def serverRank : Server → ℕ
  | .read => 1
  | .write bytes => bytes.length + 2
  | .exited | .faulted _ => 0

def clientRank : Client → ℕ
  | .terminated => 0
  | .connected | .halfClosed | .closed | .faulted _ => 1

/-- The calls that are still to come, at most. -/
def rank (s : Connection) : ℕ :=
  7 * s.toServer.length + s.toClient.length + serverRank s.server + clientRank s.client

/-- The client has ended its half. -/
structure Ending (lines : List (List UInt8)) (s : Connection) : Prop where
  inv : Inv lines s
  client : s.client = .halfClosed ∨ s.client = .terminated

theorem Ending.link (h : Ending lines s) : s.link = .up := by
  by_contra hdown
  rcases h.client with hhere | hhere <;> cases hhere.symm.trans (h.inv.link hdown).1

/-- Every call brings the end nearer. -/
theorem Ending.step (h : Ending lines s) (hfits : ∀ line ∈ lines, Fits line)
    (hstep : step s action = some s') : Ending lines s' ∧ s'.rank < s.rank := by
  have hinv := h.inv.step hfits hstep
  have hup := h.link
  cases action with
  | clientInput =>
    rcases h.client with hhere | hhere <;> simp only [Connection.step, hhere] at hstep <;> cases hstep
  | clientRead arrived =>
    rcases h.client with hhere | hhere <;> simp only [Connection.step, hhere] at hstep
    · split_ifs at hstep with hempty hexited harrived <;> cases hstep
      · exact ⟨⟨hinv, .inr rfl⟩, by simp [rank, hhere, clientRank]⟩
      · have hpos := List.length_pos_iff.mpr hempty
        have hread : 0 < min arrived maxLine := lt_min (Nat.pos_of_ne_zero harrived) (by decide)
        refine ⟨⟨hinv, .inl rfl⟩, ?_⟩
        simp only [rank, hhere, List.length_drop]
        omega
    · cases hstep
  | serverRead arrived =>
    cases hserver : s.server with
    | read =>
      simp only [Connection.step, hserver, hup] at hstep
      split_ifs at hstep with hempty harrived
      · rcases h.client with hhere | hhere <;> simp only [hhere] at hstep <;> cases hstep <;>
          exact ⟨⟨hinv, by simp⟩, by simp [rank, hserver, serverRank, hhere]⟩
      · cases hstep
        have hpos := List.length_pos_iff.mpr hempty
        have hread : 0 < min arrived maxLine := lt_min (Nat.pos_of_ne_zero harrived) (by decide)
        have hreply := length_reply_le (s.toServer.take (min arrived maxLine))
        refine ⟨⟨hinv, h.client⟩, ?_⟩
        simp only [rank, receive, h.inv.answer_take hempty, hserver, serverRank, List.length_drop]
        rw [List.length_take] at hreply
        omega
    | write | exited | faulted => simp only [Connection.step, hserver] at hstep; cases hstep
  | serverWrite =>
    cases hserver : s.server with
    | write bytes =>
      simp only [Connection.step, hserver] at hstep
      cases hstep
      refine ⟨⟨hinv, h.client⟩, ?_⟩
      simp only [rank, hserver, serverRank, List.length_append]
      omega
    | read | exited | faulted => simp only [Connection.step, hserver] at hstep; cases hstep
  | reset =>
    rcases h.client with hhere | hhere <;> simp only [Connection.step, hhere] at hstep <;> cases hstep

/-- Nothing is left to do only when the client has ended. -/
theorem Ending.stuck_iff (h : Ending lines s) :
    (∀ action, Connection.step s action = none) ↔ s.client = .terminated := by
  constructor
  · intro hstuck
    have hup := h.link
    refine h.client.resolve_left fun hhere => ?_
    cases hserver : s.server with
    | read =>
      by_cases hempty : s.toServer = []
      · have hread := hstuck (.serverRead 0)
        simp [Connection.step, hserver, hup, hempty, hhere] at hread
      · have hread := hstuck (.serverRead 1)
        simp [Connection.step, hserver, hup, hempty] at hread
    | write bytes =>
      have hwrite := hstuck .serverWrite
      simp [Connection.step, hserver] at hwrite
    | exited =>
      by_cases hempty : s.toClient = []
      · have hread := hstuck (.clientRead 0)
        simp [Connection.step, hserver, hempty, hhere] at hread
      · have hread := hstuck (.clientRead 1)
        simp [Connection.step, hempty, hhere] at hread
    | faulted fault => exact h.inv.server fault hserver
  · intro hended action
    have hexited := (h.inv.terminated hended).1
    cases action <;> simp [Connection.step, hended, hexited]

/-- The answers are not much longer than what they answer. -/
theorem length_replies_le {chunks : List (List UInt8)} (hchunks : ∀ chunk ∈ chunks, chunk ≠ []) :
    (chunks.map reply).flatten.length ≤ 5 * chunks.flatten.length := by
  induction chunks with
  | nil => simp
  | cons chunk chunks ih =>
    obtain ⟨hchunk, hrest⟩ := List.forall_mem_cons.mp hchunks
    have hreply := length_reply_le chunk
    have hpos := List.length_pos_iff.mpr hchunk
    have hchunks := ih hrest
    rw [List.map_cons, List.flatten_cons, List.flatten_cons, List.length_append, List.length_append]
    omega

theorem Ending.rank_le (h : Ending lines s) : s.rank ≤ 7 * s.sent.length + 3 := by
  have hopen : s.client ≠ .closed := by
    rcases h.client with hhere | hhere <;> simp [hhere]
  have hreplies := length_replies_le (h.inv.chunks hopen)
  have hsent := congrArg List.length (h.inv.inOrder h.link)
  have hanswered := congrArg List.length h.inv.answered
  have hclient : clientRank s.client ≤ 1 := by
    cases s.client <;> simp [clientRank]
  have hserver : serverRank s.server ≤ s.server.pending.length + 2 := by
    cases s.server <;> simp [serverRank, Server.pending]
  simp only [List.length_append] at hsent hanswered
  rw [rank]
  omega

/-- After its `shutdown` the client ends, after a bounded number of calls of the two, in
whichever order they make them and however little each `read` finds. -/
theorem grace_shutdown_ends (hfits : ∀ line ∈ lines, Fits line)
    (h : Reaches step (init (joined newline lines)) s) (hhalf : s.client = .halfClosed)
    {actions : List Action} (hpath : actions.foldlM step s = some s') :
    actions.length ≤ 7 * s.sent.length + 3 ∧
      ((∀ action, step s' action = none) ↔ s'.client = .terminated) := by
  have hending : Ending lines s := ⟨inv_of_reaches hfits h, .inl hhalf⟩
  have hkeeps : ∀ s action s', Ending lines s → step s action = some s' → Ending lines s' :=
    fun _ _ _ h hstep => (h.step hfits hstep).1
  have hworks : ∀ s action s', Ending lines s → step s action = some s' → ¬ False → rank s' < rank s :=
    fun _ _ _ h hstep _ => (h.step hfits hstep).2
  have hrank := rank_path (k := 0) hkeeps hworks (fun _ _ _ _ _ => False.elim) hending hpath
  simp only [not_false_eq_true, decide_true, List.countP_true, Nat.zero_mul] at hrank
  have hle := hending.rank_le
  exact ⟨by omega, (foldlM_invariant hkeeps hending hpath).stuck_iff⟩

/-- Two lines, and the end of the client's half. -/
def twoLines : List (List UInt8) := [literal "a", literal "bc", literal "shutdown"]

theorem fits_twoLines : ∀ line ∈ twoLines, Fits line := by
  intro line hline
  simp only [twoLines, List.mem_cons, List.not_mem_nil, or_false] at hline
  rcases hline with rfl | rfl | rfl <;> exact ⟨by decide, by decide, by decide⟩

/-- The second call of the server finds the end of the client's half. -/
theorem grace_shutdown_ends_two : ∃ s s',
    [Action.clientInput, .clientInput, .clientInput].foldlM step (init (joined newline twoLines)) =
      some s ∧
      [Action.serverRead 5, .serverWrite, .serverRead 0, .clientRead 9].foldlM step s = some s' ∧
      4 ≤ 7 * s.sent.length + 3 ∧ ∃ action s'', step s' action = some s'' := by
  have hany : ([Action.clientInput, .clientInput, .clientInput].foldlM step
      (init (joined newline twoLines))).any (fun s => s.client = .halfClosed ∧
        ([Action.serverRead 5, .serverWrite, .serverRead 0, .clientRead 9].foldlM step s).any
          (fun s' => s'.client = .halfClosed) = true) = true := by
    decide +kernel
  obtain ⟨s, hrun, hs⟩ := (Option.any_eq_true ..).mp hany
  obtain ⟨hhalf, hrest⟩ := of_decide_eq_true hs
  obtain ⟨s', hpath, hs'⟩ := (Option.any_eq_true ..).mp hrest
  obtain ⟨hlength, hstuck⟩ := grace_shutdown_ends fits_twoLines (.of_foldlM hrun) hhalf hpath
  refine ⟨s, s', hrun, hpath, hlength, ?_⟩
  by_contra hnone
  push Not at hnone
  have hended := hstuck.mp fun action => Option.eq_none_iff_forall_ne_some.mpr (hnone action)
  cases (of_decide_eq_true hs').symm.trans hended

end Connection

end OsProgramming.Servers.GraceShutdown
