import OsProgramming.Stream.Message

/-! `ping_server.c`: a message is what one `read` returns. The server is a machine with
one step for each turn of its loop; in the end the connection is idle. -/

namespace OsProgramming.Servers.PingServer

open Library Reactor OsProgramming.Stream

def msgPing : UInt32 := 1
def msgPong : UInt32 := 2
def msgType1 : UInt32 := 11
def msgType2 : UInt32 := 21

def maxLine : ℕ := 4096

structure MessageObject where
  type : UInt32
  data : Vector Byte 1024

/-- `sizeof(messageObject)` -/
def messageSize : ℕ := 1028

/-- The type goes through `htonl`. -/
def MessageObject.bytes (message : MessageObject) : List Byte :=
  htonl message.type.toNat ++ message.data.toList

/-- What `ping_client` sends. It does not set `data`. -/
def ping (data : Vector Byte 1024) : MessageObject := ⟨msgPing, data⟩

/-- The calls of `error` in the loop. -/
inductive Exit where
  | readError
  | clientClosed
  | sendFailure
  | unknownType
  deriving DecidableEq, Repr

/-- `handled` are the types of the messages that have been handled. -/
structure Server where
  count : ℤ
  handled : List UInt32
  sent : List Byte
  exit : Option Exit

def Server.start : Server := ⟨0, [], [], none⟩

/-- One turn of the loop: what `read` and `send` return, and what is on the stack where
`pong_message.data` is. -/
structure Turn where
  read : ReadAnswer
  stack : Vector Byte 1024
  send : WriteAnswer

/-- `read` into the message, which has been set to zeros. -/
def readMessage (answer : ReadAnswer) : Result (ℕ × List Byte) :=
  let message := List.replicate messageSize 0
  match answer with
  | .failed _ => .ok (toSizeT (-1), message)
  | .offered bytes => do
    let message ← store message 0 (bytes.take maxLine)
    .ok ((bytes.take maxLine).length, message)

/-- `ntohl(message.type)` -/
def messageType (message : List Byte) : UInt32 := .ofNat (ntohl (message.take 4))

/-- The `switch`. -/
def Server.handle (server : Server) (type : UInt32) (turn : Turn) : Server :=
  if type = msgPing then
    let pongMessage : MessageObject := ⟨msgPong, turn.stack⟩
    if turn.send.result pongMessage.bytes < 0 then { server with exit := some .sendFailure }
    else
      { server with
        handled := server.handled ++ [type]
        sent := server.sent ++ turn.send.taken pongMessage.bytes }
  else if type = msgType1 ∨ type = msgType2 then
    { server with handled := server.handled ++ [type] }
  else { server with exit := some .unknownType }

/-- `size_read` is a `size_t`, so it is never less than 0. -/
def Server.step (server : Server) (turn : Turn) : Result Server :=
  if server.exit.isSome then .ok server
  else do
    let (sizeRead, message) ← readMessage turn.read
    if sizeRead < 0 then .ok { server with exit := some .readError }
    else if sizeRead = 0 then .ok { server with exit := some .clientClosed }
    else
      let server := { server with count := wrapInt (server.count + 1) }
      .ok (server.handle (messageType message) turn)

/-! ### One turn -/

@[simp] theorem length_bytes (message : MessageObject) : message.bytes.length = messageSize := by
  simp [MessageObject.bytes, messageSize]

@[simp] theorem messageType_bytes (message : MessageObject) :
    messageType message.bytes = message.type := by
  have htake : message.bytes.take 4 = htonl message.type.toNat := rfl
  rw [messageType, htake, ntohl_htonl message.type.toNat_lt, UInt32.ofNat_toNat]

/-- A read that stays in the message leaves zeros behind its bytes. -/
theorem readMessage_fits {bytes : List Byte} (h : bytes.length ≤ messageSize) :
    readMessage (.offered bytes) =
      .ok (bytes.length, bytes ++ List.replicate (messageSize - bytes.length) 0) := by
  have htake : bytes.take maxLine = bytes :=
    List.take_of_length_le (h.trans (by decide))
  have hstore : store (List.replicate messageSize 0) (0 : ℕ) bytes = _ :=
    store_natCast _ (by rw [List.length_replicate]; omega)
  rw [Nat.cast_zero] at hstore
  simp only [readMessage, htake, hstore, ok_bind, List.take_zero, List.nil_append, Nat.zero_add,
    List.drop_replicate]

/-- A longer one does not stay in it. -/
theorem readMessage_spills {bytes : List Byte} (h : messageSize < bytes.length) :
    readMessage (.offered bytes) = .error .outOfBounds := by
  have hlt : messageSize < maxLine := by decide
  have hstore : store (List.replicate messageSize 0) (0 : ℕ) (bytes.take maxLine) = _ :=
    store_of_length_lt (by
      rw [List.length_replicate, List.length_take]
      omega)
  rw [Nat.cast_zero] at hstore
  simp only [readMessage, hstore]
  rfl

theorem step_offered {server : Server} (hrunning : server.exit = none) {turn : Turn}
    {chunk : List Byte} (hread : turn.read = .offered chunk) (hne : chunk ≠ [])
    (hfits : chunk.length ≤ messageSize) :
    server.step turn = .ok ({ server with count := wrapInt (server.count + 1) }.handle
      (messageType (chunk ++ List.replicate (messageSize - chunk.length) 0)) turn) := by
  have hpos : ¬ chunk.length = 0 := mt List.length_eq_zero_iff.mp hne
  simp only [Server.step, hrunning, Option.isSome_none, Bool.false_eq_true, ↓reduceIte, hread,
    readMessage_fits hfits, ok_bind, Nat.not_lt_zero, hpos]

/-- One whole PING is handled, and answered if the answer can be sent. -/
theorem step_ping {server : Server} (hrunning : server.exit = none) {turn : Turn}
    {data : Vector Byte 1024} (hread : turn.read = .offered (ping data).bytes) {room : ℕ}
    (hsend : turn.send = .accepts room) (hroom : messageSize ≤ room) :
    server.step turn = .ok { server with
      count := wrapInt (server.count + 1)
      handled := server.handled ++ [msgPing]
      sent := server.sent ++ (⟨msgPong, turn.stack⟩ : MessageObject).bytes } := by
  have hne : (ping data).bytes ≠ [] := List.ne_nil_of_length_pos (by simp [messageSize])
  have hpong : (⟨msgPong, turn.stack⟩ : MessageObject).bytes.take room =
      (⟨msgPong, turn.stack⟩ : MessageObject).bytes :=
    List.take_of_length_le (by rwa [length_bytes])
  have hnonneg : ¬ (messageSize : ℤ) < 0 := by decide
  rw [step_offered hrunning hread hne (length_bytes _).le, length_bytes, Nat.sub_self,
    List.replicate_zero, List.append_nil, messageType_bytes]
  simp only [Server.handle, ping, ↓reduceIte, hsend, WriteAnswer.result, WriteAnswer.taken, hpong,
    length_bytes, hnonneg]

theorem length_handled {server : Server} {type : UInt32} {turn : Turn}
    (hrunning : (server.handle type turn).exit = none) :
    (server.handle type turn).handled.length = server.handled.length + 1 := by
  simp only [Server.handle] at hrunning ⊢
  split_ifs at hrunning ⊢
  · exact List.length_append
  · exact List.length_append

/-- A server that still runs after a read has stayed in the message, and has handled one
message more. -/
theorem step_running {server server' : Server} {turn : Turn} {chunk : List Byte}
    (hread : turn.read = .offered chunk) (hne : chunk ≠ [])
    (hstep : server.step turn = .ok server') (hrunning : server'.exit = none) :
    server.exit = none ∧ chunk.length ≤ messageSize ∧
      server'.handled.length = server.handled.length + 1 := by
  cases hexit : server.exit with
  | some exit =>
    rw [Server.step, hexit] at hstep
    cases hstep
    rw [hexit] at hrunning
    cases hrunning
  | none =>
    rcases Nat.lt_or_ge messageSize chunk.length with hspills | hfits
    · simp only [Server.step, hexit, Option.isSome_none, Bool.false_eq_true, ↓reduceIte, hread,
        readMessage_spills hspills] at hstep
      cases hstep
    rw [step_offered hexit hread hne hfits] at hstep
    cases hstep
    exact ⟨rfl, hfits, length_handled hrunning⟩

/-! ### The run -/

/-- The server handles, counts and answers one whole PING after the other. -/
theorem run_pings {turns : List Turn} {pings : List (Vector Byte 1024)} {server : Server}
    (hrunning : server.exit = none) (hcount : server.count = wrapInt server.handled.length)
    (hreads : turns.map Turn.read = pings.map fun data => .offered (ping data).bytes)
    (hsend : ∀ turn ∈ turns, ∃ room, turn.send = .accepts room ∧ messageSize ≤ room) :
    ∃ server', turns.foldlM Server.step server = .ok server' ∧ server'.exit = none ∧
      server'.count = wrapInt server'.handled.length ∧
      server'.handled = server.handled ++ List.replicate pings.length msgPing ∧
      server'.sent = server.sent ++
        (turns.map fun turn => (⟨msgPong, turn.stack⟩ : MessageObject).bytes).flatten := by
  induction turns generalizing pings server with
  | nil =>
    obtain rfl := List.map_eq_nil_iff.mp hreads.symm
    exact ⟨server, rfl, hrunning, hcount, by simp, by simp⟩
  | cons turn turns ih =>
    match pings with
    | data :: pings =>
      obtain ⟨hread, hreads⟩ := List.cons.inj hreads
      obtain ⟨room, haccepts, hroom⟩ := hsend turn List.mem_cons_self
      have hcount' : wrapInt (server.count + 1) =
          wrapInt (server.handled ++ [msgPing]).length := by
        rw [hcount, List.length_append, List.length_singleton]
        exact Int.bmod_add_bmod
      rw [List.foldlM_cons, step_ping hrunning hread haccepts hroom, ok_bind]
      obtain ⟨server', hrun, hrunning', hcount', hhandled, hsent⟩ := @ih pings
        ⟨_, server.handled ++ [msgPing], _, server.exit⟩ hrunning hcount' hreads
        (fun turn' hmem => hsend turn' (List.mem_cons_of_mem _ hmem))
      refine ⟨server', hrun, hrunning', hcount', ?_, ?_⟩
      · rw [hhandled, List.length_cons, List.replicate_succ, List.append_assoc,
          List.singleton_append]
      · rw [hsent, List.map_cons, List.flatten_cons, List.append_assoc]

/-- A server that still runs has handled a message for each read, and each has stayed in
the message. -/
theorem run_running {turns : List Turn} {chunks : List (List Byte)} {server server' : Server}
    (hreads : turns.map Turn.read = chunks.map .offered) (hchunks : [] ∉ chunks)
    (hrun : turns.foldlM Server.step server = .ok server') (hrunning : server'.exit = none) :
    server.exit = none ∧ (∀ chunk ∈ chunks, chunk.length ≤ messageSize) ∧
      server'.handled.length = server.handled.length + chunks.length := by
  induction turns generalizing chunks server with
  | nil =>
    obtain rfl := List.map_eq_nil_iff.mp hreads.symm
    cases hrun
    exact ⟨hrunning, by simp, rfl⟩
  | cons turn turns ih =>
    match chunks with
    | chunk :: chunks =>
      obtain ⟨hread, hreads⟩ := List.cons.inj hreads
      rw [List.mem_cons, not_or] at hchunks
      rw [List.foldlM_cons, bind_eq_ok] at hrun
      obtain ⟨server₁, hstep, hrun⟩ := hrun
      obtain ⟨hrunning₁, hfits, hhandled⟩ := ih hreads hchunks.2 hrun
      obtain ⟨hexit, hfit, hone⟩ := step_running hread (Ne.symm hchunks.1) hstep hrunning₁
      refine ⟨hexit, List.forall_mem_cons.mpr ⟨hfit, hfits⟩, ?_⟩
      rw [hhandled, hone, List.length_cons]
      omega

theorem length_flatten_le {chunks : List (List Byte)}
    (hfits : ∀ chunk ∈ chunks, chunk.length ≤ messageSize) :
    chunks.flatten.length ≤ messageSize * chunks.length := by
  induction chunks with
  | nil => exact le_rfl
  | cons chunk chunks ih =>
    obtain ⟨hfit, hfits⟩ := List.forall_mem_cons.mp hfits
    have hle := ih hfits
    rw [List.flatten_cons, List.length_append, List.length_cons, Nat.mul_succ]
    omega

/-- Reads that stay in the message, and are as many as the messages, return one each. -/
theorem length_eq_of_le {chunks : List (List Byte)}
    (hfits : ∀ chunk ∈ chunks, chunk.length ≤ messageSize)
    (htotal : messageSize * chunks.length ≤ chunks.flatten.length) :
    ∀ chunk ∈ chunks, chunk.length = messageSize := by
  induction chunks with
  | nil => simp
  | cons chunk chunks ih =>
    obtain ⟨hfit, hfits⟩ := List.forall_mem_cons.mp hfits
    have hle := length_flatten_le hfits
    rw [List.flatten_cons, List.length_append, List.length_cons, Nat.mul_succ] at htotal
    exact List.forall_mem_cons.mpr ⟨by omega, ih hfits (by omega)⟩

theorem map_length_bytes (pings : List (Vector Byte 1024)) :
    (pings.map fun data => (ping data).bytes).map List.length =
      List.replicate pings.length messageSize := by
  simp [Function.comp_def, List.map_const']

theorem length_flatten_bytes (pings : List (Vector Byte 1024)) :
    (pings.map fun data => (ping data).bytes).flatten.length = pings.length * messageSize := by
  rw [List.length_flatten, map_length_bytes, List.sum_replicate_nat]

/-- However the PINGs arrive, the server handles and answers each of them exactly when
each read returns one whole message. -/
theorem ping_server_iff {pings : List (Vector Byte 1024)} {chunks : List (List Byte)}
    {turns : List Turn}
    (hbytes : chunks.flatten = (pings.map fun data => (ping data).bytes).flatten)
    (hchunks : ∀ chunk ∈ chunks, chunk ≠ [] ∧ chunk.length ≤ maxLine)
    (hreads : turns.map Turn.read = chunks.map .offered)
    (hsend : ∀ turn ∈ turns, ∃ room, turn.send = .accepts room ∧ messageSize ≤ room) :
    (∃ (server : Server) (pongs : List MessageObject),
      turns.foldlM Server.step .start = .ok server ∧ server.exit = none ∧
      server.handled = List.replicate pings.length msgPing ∧
      server.count = wrapInt pings.length ∧ (∀ pong ∈ pongs, pong.type = msgPong) ∧
      pongs.length = pings.length ∧ server.sent = (pongs.map MessageObject.bytes).flatten) ↔
      ∀ chunk ∈ chunks, chunk.length = messageSize := by
  have htotal := length_flatten_bytes pings
  rw [← hbytes] at htotal
  constructor
  · rintro ⟨server, pongs, hrun, hrunning, hhandled, -⟩
    have hne : [] ∉ chunks := fun hmem => (hchunks [] hmem).1 rfl
    obtain ⟨-, hfits, hlength⟩ := run_running hreads hne hrun hrunning
    rw [hhandled, List.length_replicate] at hlength
    -- there are as many reads as messages, and none returns more than one
    have hcount : pings.length = chunks.length := hlength.trans (Nat.zero_add _)
    rw [hcount, Nat.mul_comm] at htotal
    exact length_eq_of_le hfits htotal.ge
  · intro hwhole
    have hlengths : chunks.map List.length = List.replicate chunks.length messageSize :=
      List.map_eq_replicate_iff.mpr hwhole
    have hcount : chunks.length = pings.length := by
      have hsum : chunks.flatten.length = chunks.length * messageSize := by
        rw [List.length_flatten, hlengths, List.sum_replicate_nat]
      have hpos : 0 < messageSize := by decide
      exact Nat.eq_of_mul_eq_mul_right hpos (hsum.symm.trans htotal)
    obtain rfl : chunks = pings.map fun data => (ping data).bytes := by
      refine List.eq_iff_flatten_eq.mpr ⟨hbytes, ?_⟩
      rw [hlengths, hcount, map_length_bytes]
    rw [List.map_map] at hreads
    have hstart : Server.start.count = wrapInt Server.start.handled.length := by decide
    obtain ⟨server, hrun, hrunning, hserver, hhandled, hsent⟩ :=
      run_pings rfl hstart hreads hsend
    rw [Server.start, List.nil_append] at hhandled hsent
    have hturns : turns.length = pings.length := by
      have := congrArg List.length hreads
      rwa [List.length_map, List.length_map] at this
    refine ⟨server, turns.map fun turn => ⟨msgPong, turn.stack⟩, hrun, hrunning, hhandled, ?_, ?_,
      ?_, ?_⟩
    · rw [hserver, hhandled, List.length_replicate]
    · simp
    · rw [List.length_map, hturns]
    · rw [hsent, List.map_map]
      rfl

def blank : Vector Byte 1024 := .replicate 1024 0

/-- A read of `chunk`, and an answer that can be sent. -/
def Turn.of (chunk : List Byte) : Turn := ⟨.offered chunk, blank, .accepts messageSize⟩

theorem bytes_blank : (ping blank).bytes = 0 :: 0 :: 0 :: 1 :: List.replicate 1024 0 := by
  rw [MessageObject.bytes, ping, blank, Vector.toList_replicate]
  rfl

/-- A PING that arrives in two parts is of no type, and two that arrive together are
stored behind the message. -/
theorem ping_server_splits :
    ([[0, 0], 0 :: 1 :: List.replicate 1024 0].flatten = (ping blank).bytes ∧
      ∃ server, ([[0, 0], 0 :: 1 :: List.replicate 1024 0].map Turn.of).foldlM Server.step .start =
          .ok server ∧ server.exit = some .unknownType ∧ server.handled = []) ∧
    ([(ping blank).bytes ++ (ping blank).bytes].map Turn.of).foldlM Server.step .start =
      .error .outOfBounds := by
  refine ⟨⟨?_, ?_⟩, ?_⟩
  · rw [bytes_blank, List.flatten_cons, List.flatten_singleton]
    rfl
  · have hrunning : Server.start.exit = none := rfl
    have hfits : ([0, 0] : List Byte).length ≤ messageSize := by decide
    have htype : messageType ([0, 0] ++ List.replicate (messageSize - 2) 0) = 0 := rfl
    have hstep : Server.start.step (Turn.of [0, 0]) = _ :=
      step_offered hrunning rfl (List.cons_ne_nil _ _) hfits
    rw [List.map_cons, List.foldlM_cons, hstep, List.length_cons, List.length_singleton, htype]
    exact ⟨_, rfl, rfl, rfl⟩
  · have hspills : messageSize < ((ping blank).bytes ++ (ping blank).bytes).length := by
      rw [List.length_append, length_bytes]
      decide
    rw [List.map_singleton, List.foldlM_cons, Server.step]
    simp only [Server.start, Option.isSome_none, Bool.false_eq_true, ↓reduceIte, Turn.of,
      readMessage_spills hspills]
    rfl

/-- Two PINGs, each in one read. -/
theorem ping_server_iff_two :
    ∃ (server : Server) (pongs : List MessageObject),
      ([(ping blank).bytes, (ping blank).bytes].map Turn.of).foldlM Server.step .start =
        .ok server ∧ server.exit = none ∧ server.handled = [msgPing, msgPing] ∧
      server.count = wrapInt 2 ∧ (∀ pong ∈ pongs, pong.type = msgPong) ∧
      pongs.length = 2 ∧ server.sent = (pongs.map MessageObject.bytes).flatten := by
  have hle : messageSize ≤ maxLine := by decide
  have hne : (ping blank).bytes ≠ [] := List.ne_nil_of_length_pos (by simp [messageSize])
  refine (@ping_server_iff [blank, blank] [(ping blank).bytes, (ping blank).bytes] _ rfl ?_ rfl
    ?_).mpr (by simp)
  · simp [hne, hle]
  · intro turn hturn
    obtain ⟨chunk, -, rfl⟩ := List.mem_map.mp hturn
    exact ⟨messageSize, rfl, le_rfl⟩

end OsProgramming.Servers.PingServer
