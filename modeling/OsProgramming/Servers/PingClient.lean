import OsProgramming.Library.Runs
import OsProgramming.Servers.PingServer
import Mathlib.Data.List.DropRight

/-! `ping_client.c`: a PING for each timeout, and the server is dead when too many of them in a
row stay without an answer. `read` and `send` return into a `size_t`, so a failure of either is
not seen. -/

namespace OsProgramming.Servers.PingClient

open Library Reactor
open PingServer (MessageObject ping messageSize maxLine length_bytes)

def keepAliveTime : ℕ := 10
def keepAliveInterval : ℕ := 3
def keepAliveProbeTimes : ℕ := 3

/-- A `timeval` is a number of microseconds. An assignment to `tv_sec` leaves `tv_usec`. -/
def setSec (timeout sec : ℕ) : ℕ := sec * 1000000 + timeout % 1000000

/-- The return of `select`. `client_fd` is readable or only the standard input is, and `left`
of the timeout is left. -/
inductive SelectAnswer where
  | failed
  | timeout
  | ready (client : Bool) (left : ℕ)
  deriving DecidableEq, Repr

/-- One turn of the loop: what `select`, `read` and `send` return. -/
structure Turn where
  select : SelectAnswer
  read : ReadAnswer
  send : WriteAnswer

/-- The calls of `error` in the loop. -/
inductive Exit where
  | selectError
  | serverDead
  | sendError
  | readError
  | serverTerminated
  deriving DecidableEq, Repr

structure Client where
  heartbeatCount : ℕ
  timeout : ℕ
  sent : List Byte
  exit : Option Exit

namespace Client

variable (stack : Vector Byte 1024) (client : Client)

def start : Client := ⟨0, keepAliveTime * 1000000, [], none⟩

/-- `size_sent` is never less than 0. Nothing sets the data of `messageObject`. -/
def sendPing (answer : WriteAnswer) : Client :=
  let message := (ping stack).bytes
  let sizeSent := toSizeT (answer.result message)
  if sizeSent < 0 then { client with exit := some .sendError }
  else
    { client with
      sent := client.sent ++ answer.taken message
      timeout := setSec client.timeout keepAliveInterval }

/-- Nor is `size_read`. -/
def readServer (answer : ReadAnswer) : Client :=
  let sizeRead :=
    match answer with
    | .failed _ => toSizeT (-1)
    | .offered bytes => (bytes.take maxLine).length
  if sizeRead < 0 then { client with exit := some .readError }
  else if sizeRead = 0 then { client with exit := some .serverTerminated }
  else { client with timeout := setSec client.timeout keepAliveTime, heartbeatCount := 0 }

/-- `select` writes what is left of the timeout. -/
def step (turn : Turn) : Client :=
  if client.exit.isSome then client
  else
    match turn.select with
    | .failed => { client with exit := some .selectError }
    | .timeout =>
      let heartbeatCount := client.heartbeatCount + 1
      let client := { client with heartbeatCount, timeout := 0 }
      if heartbeatCount > keepAliveProbeTimes then { client with exit := some .serverDead }
      else client.sendPing stack turn.send
    | .ready readable left =>
      let client := { client with timeout := min left client.timeout }
      if readable then client.readServer turn.read else client

end Client

/-! ### What is counted -/

/-- At least one byte is received. -/
def Turn.receives (turn : Turn) : Bool :=
  match turn.select, turn.read with
  | .ready true _, .offered bytes => bytes ≠ []
  | _, _ => false

def Turn.failsToRead (turn : Turn) : Bool :=
  match turn.select, turn.read with
  | .ready true _, .failed _ => true
  | _, _ => false

def timeouts (turns : List Turn) : ℕ := turns.countP fun turn => turn.select = .timeout

/-- The timeouts since the last byte was received. -/
def silence (turns : List Turn) : ℕ := timeouts (turns.rtakeWhile fun turn => !turn.receives)

variable {turns : List Turn} {turn : Turn}

theorem timeouts_concat : timeouts (turns ++ [turn]) =
    timeouts turns + if turn.select = .timeout then 1 else 0 := by
  rw [timeouts, List.countP_append, List.countP_singleton, timeouts]
  simp only [decide_eq_true_eq]

theorem silence_concat : silence (turns ++ [turn]) =
    if turn.receives then 0 else silence turns + if turn.select = .timeout then 1 else 0 := by
  rw [silence, List.rtakeWhile_concat]
  cases turn.receives with
  | true => rfl
  | false => exact timeouts_concat

/-- The turns so far, and where they have led to. -/
structure Run where
  turns : List Turn
  client : Client

namespace Run

variable (stack : Vector Byte 1024) (r : Run)

def start : Run := ⟨[], .start⟩

def next (turn : Turn) : Run := ⟨r.turns ++ [turn], r.client.step stack turn⟩

def step (turn : Turn) : Result Run := .ok (r.next stack turn)

/-- The counter at the head of the loop, and what has been sent. -/
structure Counted : Prop where
  count : r.client.heartbeatCount = silence r.turns
  le : r.client.heartbeatCount ≤ keepAliveProbeTimes
  sent : r.client.sent = (List.replicate (timeouts r.turns) (ping stack).bytes).flatten

/-- The accounting before a turn and after it, and the exits. -/
structure Accounts (turn : Turn) : Prop where
  before : r.client.exit = none → r.Counted stack
  after : (r.next stack turn).client.exit = none → (r.next stack turn).Counted stack
  dead : r.client.exit = none → ((r.next stack turn).client.exit = some .serverDead ↔
    silence (r.turns ++ [turn]) = keepAliveProbeTimes + 1)
  failed : r.client.exit = none → turn.failsToRead = true →
    (r.next stack turn).client.exit.isSome = true

/-- No read fails, and a PING is sent whole. -/
def Delivers (turn : Turn) : Prop :=
  r.client.exit = none → turn.failsToRead = false ∧
    (turn.select = .timeout → r.client.heartbeatCount < keepAliveProbeTimes →
      ∃ room, turn.send = .accepts room ∧ messageSize ≤ room)

end Run

namespace Client

variable {stack : Vector Byte 1024} {client : Client}

/-- A `size_t` is not negative, so `send` succeeds. -/
theorem sendPing_eq (answer : WriteAnswer) : client.sendPing stack answer =
    { client with
      sent := client.sent ++ answer.taken (ping stack).bytes
      timeout := setSec client.timeout keepAliveInterval } := by
  simp only [sendPing, Nat.not_lt_zero, if_false]

/-- A failed `read` is taken for a message. -/
theorem readServer_failed (errno : Errno) : client.readServer (.failed errno) =
    { client with timeout := setSec client.timeout keepAliveTime, heartbeatCount := 0 } := by
  have hminus : toSizeT (-1) ≠ 0 := by decide
  simp [readServer, hminus]

theorem readServer_offered {bytes : List Byte} (h : bytes ≠ []) :
    client.readServer (.offered bytes) =
      { client with timeout := setSec client.timeout keepAliveTime, heartbeatCount := 0 } := by
  have hne : (bytes.take maxLine).length ≠ 0 := by simpa [maxLine] using h
  simp only [readServer, Nat.not_lt_zero, if_false, if_neg hne]

theorem readServer_ended :
    client.readServer (.offered []) = { client with exit := some .serverTerminated } := by
  simp [readServer]

theorem step_of_exited (h : client.exit ≠ none) : client.step stack turn = client :=
  if_pos (Option.isSome_iff_ne_none.mpr h)

theorem step_selectError (h : client.exit = none) (hselect : turn.select = .failed) :
    client.step stack turn = { client with exit := some .selectError } := by
  rw [step, h, hselect]
  rfl

theorem step_dead (h : client.exit = none) (hselect : turn.select = .timeout)
    (hcount : keepAliveProbeTimes ≤ client.heartbeatCount) :
    client.step stack turn =
      ⟨client.heartbeatCount + 1, 0, client.sent, some .serverDead⟩ := by
  simp only [step, h, hselect, Option.isSome_none, Bool.false_eq_true, if_false]
  rw [if_pos (Nat.lt_succ_of_le hcount)]

theorem step_ping (h : client.exit = none) (hselect : turn.select = .timeout)
    (hcount : client.heartbeatCount < keepAliveProbeTimes) :
    client.step stack turn = ⟨client.heartbeatCount + 1, setSec 0 keepAliveInterval,
      client.sent ++ turn.send.taken (ping stack).bytes, none⟩ := by
  simp only [step, h, hselect, Option.isSome_none, Bool.false_eq_true, if_false, sendPing_eq]
  rw [if_neg (Nat.not_lt.mpr hcount)]

theorem step_ready (h : client.exit = none) {readable : Bool} {left : ℕ}
    (hselect : turn.select = .ready readable left) : client.step stack turn =
      if readable then readServer { client with timeout := min left client.timeout } turn.read
      else { client with timeout := min left client.timeout } := by
  simp only [step, h, hselect, Option.isSome_none, Bool.false_eq_true, if_false]

/-- After a failed `read` the client goes on with the counter cleared. -/
theorem step_readFailed (h : client.exit = none) {left : ℕ}
    (hselect : turn.select = .ready true left) {errno : Errno}
    (hread : turn.read = .failed errno) : client.step stack turn =
      ⟨0, setSec (min left client.timeout) keepAliveTime, client.sent, none⟩ := by
  rw [step_ready h hselect, if_pos rfl, hread, readServer_failed, h]

end Client

namespace Run

variable {stack : Vector Byte 1024} {r : Run}

theorem counted_start : start.Counted stack := ⟨rfl, Nat.zero_le _, rfl⟩

/-- A PING that is not sent whole leaves less than a message. -/
theorem taken_eq_iff (answer : WriteAnswer) : answer.taken (ping stack).bytes = (ping stack).bytes ↔
    ∃ room, answer = .accepts room ∧ messageSize ≤ room := by
  cases answer with
  | failed errno =>
    have hne : (ping stack).bytes ≠ [] :=
      List.ne_nil_of_length_pos (by rw [length_bytes]; decide)
    simp [WriteAnswer.taken, hne.symm]
  | accepts room => simp [WriteAnswer.taken]

/-- The PING of one timeout more. -/
theorem sent_concat (h : r.Counted stack) (hselect : turn.select = .timeout) (bytes : List Byte) :
    r.client.sent ++ bytes =
      (List.replicate (timeouts (r.turns ++ [turn])) (ping stack).bytes).flatten ↔
      bytes = (ping stack).bytes := by
  rw [timeouts_concat, if_pos hselect, h.sent, List.replicate_succ', List.flatten_append,
    List.flatten_singleton, List.append_cancel_left_eq]

theorem Counted.not_dead (h : r.Counted stack) (hselect : turn.select ≠ .timeout) :
    silence (r.turns ++ [turn]) ≠ keepAliveProbeTimes + 1 := by
  rw [silence_concat, if_neg hselect]
  have hle := h.count ▸ h.le
  split_ifs <;> omega

theorem Counted.silence_timeout (h : r.Counted stack) (hselect : turn.select = .timeout) :
    silence (r.turns ++ [turn]) = r.client.heartbeatCount + 1 := by
  have hreceives : turn.receives = false := by rw [Turn.receives, hselect]
  rw [silence_concat, hreceives, if_pos hselect, h.count]
  rfl

/-- Where nothing is sent, the counter is kept or, if something is received, cleared. -/
theorem Counted.of_not_timeout (h : r.Counted stack) (hselect : turn.select ≠ .timeout)
    (hcount : (r.client.step stack turn).heartbeatCount =
      if turn.receives then 0 else r.client.heartbeatCount)
    (hsent : (r.client.step stack turn).sent = r.client.sent) :
    (r.next stack turn).Counted stack := by
  constructor
  · rw [next, hcount, silence_concat, if_neg hselect, h.count]
    rfl
  · rw [next, hcount]
    split_ifs
    · exact Nat.zero_le _
    · exact h.le
  · rw [next, hsent, timeouts_concat, if_neg hselect, h.sent]
    rfl

/-- A turn without a timeout that does not fail to read. -/
theorem accounts_of_not_timeout (h : r.Counted stack) (hselect : turn.select ≠ .timeout)
    (hreads : turn.failsToRead = false)
    (halive : (r.client.step stack turn).exit ≠ some .serverDead)
    (hafter : (r.client.step stack turn).exit = none → (r.next stack turn).Counted stack) :
    r.Accounts stack turn ↔ r.Delivers turn := by
  refine iff_of_true ⟨fun _ => h, hafter, fun _ => ?_, fun _ hfails => ?_⟩
    fun _ => ⟨hreads, fun htimeout => absurd htimeout hselect⟩
  · exact iff_of_false halive (h.not_dead hselect)
  · rw [hreads] at hfails
    cases hfails

/-- A turn that ends the program for another reason than a dead server. -/
theorem accounts_of_exited (h : r.Counted stack) (hselect : turn.select ≠ .timeout)
    (hreads : turn.failsToRead = false) {exit : Exit}
    (hexit : (r.client.step stack turn).exit = some exit) (hne : exit ≠ .serverDead) :
    r.Accounts stack turn ↔ r.Delivers turn := by
  refine accounts_of_not_timeout h hselect hreads ?_ fun hafter => ?_
  · rw [hexit]
    exact fun heq => hne (Option.some.inj heq)
  · rw [hexit] at hafter
    cases hafter

theorem accounts_iff_of_timeout (hrunning : r.client.exit = none) (h : r.Counted stack)
    (hselect : turn.select = .timeout) : r.Accounts stack turn ↔ r.Delivers turn := by
  have hreads : turn.failsToRead = false := by rw [Turn.failsToRead, hselect]
  have hsilence := h.silence_timeout hselect
  rcases Nat.lt_or_ge r.client.heartbeatCount keepAliveProbeTimes with hlt | hge
  · have hstep : r.client.step stack turn = _ := Client.step_ping hrunning hselect hlt
    have hdelivers : r.Delivers turn ↔
        turn.send.taken (ping stack).bytes = (ping stack).bytes := by
      rw [taken_eq_iff, Delivers]
      exact ⟨fun hdelivers => (hdelivers hrunning).2 hselect hlt,
        fun hsend _ => ⟨hreads, fun _ _ => hsend⟩⟩
    rw [hdelivers, ← sent_concat h hselect]
    constructor
    · intro haccounts
      have hsent := (haccounts.after (by rw [next, hstep])).sent
      rwa [next, hstep] at hsent
    · intro hsent
      refine ⟨fun _ => h, fun _ => ?_, fun _ => ?_, fun _ hfails => ?_⟩
      · rw [next, hstep]
        exact ⟨hsilence.symm, hlt, hsent⟩
      · rw [next, hstep, hsilence]
        exact iff_of_false nofun (by omega)
      · rw [hreads] at hfails
        cases hfails
  · have hstep : r.client.step stack turn = _ := Client.step_dead hrunning hselect hge
    refine iff_of_true ⟨fun _ => h, fun hafter => ?_, fun _ => ?_, fun _ _ => ?_⟩
      fun _ => ⟨hreads, fun _ hlt => absurd hlt (Nat.not_lt.mpr hge)⟩
    · rw [next, hstep] at hafter
      cases hafter
    · rw [next, hstep, hsilence]
      exact iff_of_true rfl (by rw [le_antisymm h.le hge])
    · rw [next, hstep]
      rfl

theorem accounts_iff_of_ready (hrunning : r.client.exit = none) (h : r.Counted stack)
    {readable : Bool} {left : ℕ} (hselect : turn.select = .ready readable left) :
    r.Accounts stack turn ↔ r.Delivers turn := by
  have htimeout : turn.select ≠ .timeout := by
    rw [hselect]
    nofun
  have hstep : r.client.step stack turn = _ := Client.step_ready hrunning hselect
  cases readable with
  | false =>
    rw [if_neg Bool.false_ne_true] at hstep
    refine accounts_of_not_timeout h htimeout ?_ ?_ fun _ => ?_
    · simp [Turn.failsToRead, hselect]
    · rw [hstep, hrunning]
      nofun
    · refine h.of_not_timeout htimeout ?_ ?_
      · simp [hstep, Turn.receives, hselect]
      · rw [hstep]
  | true =>
    rw [if_pos rfl] at hstep
    cases hread : turn.read with
    | failed errno =>
      have hfails : turn.failsToRead = true := by simp [Turn.failsToRead, hselect, hread]
      refine iff_of_false (fun haccounts => ?_) fun hdelivers => ?_
      · have hexit := haccounts.failed hrunning hfails
        rw [next, Client.step_readFailed hrunning hselect hread] at hexit
        cases hexit
      · rw [(hdelivers hrunning).1] at hfails
        cases hfails
    | offered bytes =>
      have hreads : turn.failsToRead = false := by simp [Turn.failsToRead, hselect, hread]
      rw [hread] at hstep
      by_cases hbytes : bytes = []
      · rw [hbytes, Client.readServer_ended] at hstep
        exact accounts_of_exited h htimeout hreads (congrArg Client.exit hstep) nofun
      · rw [Client.readServer_offered hbytes] at hstep
        refine accounts_of_not_timeout h htimeout hreads ?_ fun _ => h.of_not_timeout htimeout ?_ ?_
        · rw [hstep, hrunning]
          nofun
        · simp [hstep, Turn.receives, hselect, hread, hbytes]
        · rw [hstep]

theorem accounts_iff (h : r.client.exit = none → r.Counted stack) :
    r.Accounts stack turn ↔ r.Delivers turn := by
  by_cases hrunning : r.client.exit = none
  · cases hselect : turn.select with
    | failed =>
      have hstep : r.client.step stack turn = _ := Client.step_selectError hrunning hselect
      refine accounts_of_exited (h hrunning) ?_ ?_ (congrArg Client.exit hstep) nofun
      · rw [hselect]
        nofun
      · rw [Turn.failsToRead, hselect]
    | timeout => exact accounts_iff_of_timeout hrunning (h hrunning) hselect
    | ready readable left => exact accounts_iff_of_ready hrunning (h hrunning) hselect
  · have hstep : (r.next stack turn).client = r.client := Client.step_of_exited hrunning
    refine iff_of_true ⟨fun hnone => absurd hnone hrunning, fun hafter => ?_,
      fun hnone => absurd hnone hrunning, fun hnone => absurd hnone hrunning⟩
      fun hnone => absurd hnone hrunning
    rw [hstep] at hafter
    exact absurd hafter hrunning

/-- The counter, the PINGs and the exits are right in the runs in which no read fails and every
PING is sent whole, and in no others. -/
theorem accounts_iff_delivers (stack : Vector Byte 1024) (turns : List Turn) :
    Admissible (Run.step stack) (Accounts stack) start turns ↔
      Admissible (Run.step stack) Delivers start turns := by
  have hstep : ∀ (r : Run) turn r', (r.client.exit = none → r.Counted stack) →
      r.Accounts stack turn → r.step stack turn = .ok r' →
      r'.client.exit = none → r'.Counted stack := by
    intro r turn r' h haccounts hret
    cases hret
    exact haccounts.after
  exact admissible_iff_of_inv hstep (fun r turn h => accounts_iff h) fun _ => counted_start

/-- A timeout, and a `read` that fails. -/
def failedRead : List Turn :=
  [⟨.timeout, .offered [], .accepts messageSize⟩,
    ⟨.ready true 0, .failed .econnreset, .accepts messageSize⟩]

/-- The failed `read` clears the counter, and a failed `send` is counted as a PING. -/
theorem failed_read_clears :
    (∃ r, failedRead.foldlM (Run.step PingServer.blank) start = .ok r ∧
      r.client.exit = none ∧ r.client.heartbeatCount = 0 ∧ silence r.turns = 1) ∧
    ∃ r, [⟨.timeout, .offered [], .failed .econnreset⟩].foldlM (Run.step PingServer.blank) start =
        .ok r ∧ r.client.exit = none ∧ r.client.heartbeatCount = 1 ∧ r.client.sent = [] := by
  have hping : ∀ send, Client.start.step PingServer.blank ⟨.timeout, .offered [], send⟩ =
      ⟨1, setSec 0 keepAliveInterval, send.taken (ping PingServer.blank).bytes, none⟩ :=
    fun send => Client.step_ping rfl rfl (by decide)
  constructor
  · have hfailed : ∀ client : Client, client.exit = none → client.step PingServer.blank
        ⟨.ready true 0, .failed .econnreset, .accepts messageSize⟩ = _ :=
      fun client hrunning => Client.step_readFailed hrunning rfl rfl
    refine ⟨_, rfl, ?_, ?_, rfl⟩
    · rw [next, next, start, hping, hfailed _ rfl]
    · rw [next, next, start, hping, hfailed _ rfl]
  · refine ⟨_, rfl, ?_, ?_, ?_⟩
    · rw [next, start, hping]
    · rw [next, start, hping]
    · rw [next, start, hping]
      rfl

end Run

end OsProgramming.Servers.PingClient
