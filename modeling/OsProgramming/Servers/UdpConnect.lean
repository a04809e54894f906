import OsProgramming.Servers.UdpEcho
import Mathlib.Data.List.Perm.Subperm

/-! `udp_connect_server.c`, which connects its socket to the first client from which it hears, and
any number of processes that run `udp_connect_client1.c` or `udp_connect_client2.c`, over a network
like that of `udp_server.c`. A datagram that a socket does not accept is refused, and the next call of
its sender fails. -/

namespace OsProgramming.Servers.UdpConnect

open Library

open Greeting (maxLine)

open UdpEcho (Datagram shown)

variable {T : Type}

/-- The next call of a client. -/
inductive Client where
  | fgets
  | recv
  | exited
  | failed
  | faulted (fault : Fault)
  deriving DecidableEq

/-- The next call of the server, and the client that it is connected to. -/
inductive Server (T : Type) where
  | recvfrom
  | send (client : T) (payload : List UInt8)
  | recv (client : T)
  | exited (client : T)
  | failed (client : T)
  | faulted (fault : Fault)
  deriving DecidableEq

structure Session (T : Type) where
  input : T → List UInt8
  clients : T → Client
  printed : T → List (List UInt8)
  /-- the clients whose next call fails -/
  refused : T → Bool
  network : List (Datagram T)
  /-- what the socket of the server has accepted -/
  queue : List (T × List UInt8)
  server : Server T
  serverRefused : Bool
  /-- the strings that the server has printed -/
  received : List (List UInt8)

inductive Action (T : Type) where
  /-- a client reads a line and sends it -/
  | clientSend (client : T)
  | clientReceive (client : T) (payload : List UInt8)
  | clientFails (client : T)
  /-- a datagram comes to the socket of the server -/
  | arrive (client : T) (payload : List UInt8)
  /-- an answer comes to a client that has ended -/
  | answerRefused (client : T) (payload : List UInt8)
  | serverReceive
  | serverSend
  | lose (datagram : Datagram T)
  | duplicate (datagram : Datagram T)

def Server.peer : Server T → Option T
  | .recvfrom | .faulted _ => none
  | .send client _ | .recv client | .exited client | .failed client => some client

def Server.accepts [DecidableEq T] (client : T) : Server T → Bool
  | .recvfrom => true
  | .send other _ | .recv other => other = client
  | .exited _ | .failed _ | .faulted _ => false

def Client.ended : Client → Bool
  | .exited | .failed | .faulted _ => true
  | .fgets | .recv => false

/-- The comparison that ends the loop of the server. -/
def Goodbye (text : List UInt8) : Prop := text.take 7 = literal "goodbye"

instance : DecidablePred Goodbye := fun text => inferInstanceAs (Decidable (text.take 7 = _))

/-- The buffer of the server with a datagram, or with its beginning. -/
def receive (payload : List UInt8) : Result (List UInt8) := do
  let receiveBuffer ← store (List.replicate bufferSize 0) 0 (payload.take bufferSize)
  store receiveBuffer ((bufferSize : ℤ) - 1) [0]

/-- The string that the server prints for a datagram, and what it does next. -/
def serve (client : T) (payload : List UInt8) : Result (List UInt8 × Server T) := do
  let receiveBuffer ← receive payload
  let text := cString 0 receiveBuffer
  if Goodbye text then .ok (text, .exited client)
  else
    let bytes ← greet receiveBuffer
    .ok (text, .send client bytes)

namespace Session

def init (input : T → List UInt8) : Session T where
  input := input
  clients := fun _ => .fgets
  printed := fun _ => []
  refused := fun _ => false
  network := []
  queue := []
  server := .recvfrom
  serverRefused := false
  received := []

/-- The server reads the first datagram of its queue. -/
def read (s : Session T) (client : T) (payload : List UInt8) (queue : List (T × List UInt8)) :
    Session T :=
  match serve client payload with
  | .ok (text, server) => { s with queue, server, received := s.received ++ [text] }
  | .error fault => { s with queue, server := .faulted fault }

variable [DecidableEq T]

/-- The client has read a line, and all that is left. -/
def send (s : Session T) (client : T) (line input : List UInt8) : Session T :=
  match message line with
  | .ok payload =>
    if s.refused client then
      { s with
        input := Function.update s.input client input
        clients := Function.update s.clients client .failed }
    else
      { s with
        input := Function.update s.input client input
        clients := Function.update s.clients client .recv
        network := s.network ++ [.request client payload] }
  | .error fault => { s with clients := Function.update s.clients client (.faulted fault) }

/-- `duplicates` tells if the network delivers datagrams twice. -/
def step (duplicates : Bool) (s : Session T) : Action T → Option (Session T)
  | .clientSend client =>
    match s.clients client with
    | .fgets =>
      if s.input client = [] then some { s with clients := Function.update s.clients client .exited }
      else
        let (line, input) := fgets newline (maxLine - 1) (s.input client)
        some (s.send client (cString 0 line) input)
    | _ => none
  | .clientReceive client payload =>
    match s.clients client with
    | .recv =>
      if s.refused client = false ∧ .answer client payload ∈ s.network then
        some { s with
          clients := Function.update s.clients client .fgets
          printed := Function.update s.printed client
            (s.printed client ++ [cString 0 (payload.take maxLine)])
          network := s.network.erase (.answer client payload) }
      else none
    | _ => none
  | .clientFails client =>
    match s.clients client with
    | .recv =>
      if s.refused client then some { s with clients := Function.update s.clients client .failed }
      else none
    | _ => none
  | .arrive client payload =>
    if .request client payload ∈ s.network then
      if s.server.accepts client then
        some { s with
          network := s.network.erase (.request client payload)
          queue := s.queue ++ [(client, payload)] }
      else
        some { s with
          network := s.network.erase (.request client payload)
          refused := Function.update s.refused client true }
    else none
  | .answerRefused client payload =>
    if (s.clients client).ended ∧ .answer client payload ∈ s.network then
      some { s with
        network := s.network.erase (.answer client payload)
        serverRefused := true }
    else none
  | .serverReceive =>
    match s.server, s.queue with
    | .recvfrom, (client, payload) :: queue => some (s.read client payload queue)
    | .recv client, queue =>
      if s.serverRefused then some { s with server := .failed client }
      else
        match queue with
        | (_, payload) :: queue => some (s.read client payload queue)
        | [] => none
    | _, _ => none
  | .serverSend =>
    match s.server with
    | .send client payload =>
      if s.serverRefused then some { s with server := .failed client }
      else
        some { s with
          network := s.network ++ [.answer client payload]
          server := .recv client }
    | _ => none
  | .lose datagram =>
    if datagram ∈ s.network then some { s with network := s.network.erase datagram } else none
  | .duplicate datagram =>
    if duplicates ∧ datagram ∈ s.network then some { s with network := s.network ++ [datagram] }
    else none

/-- All that a step can do. -/
inductive Moves (duplicates : Bool) (s : Session T) : Session T → Prop where
  | exits (client : T) (hphase : s.clients client = .fgets) (hinput : s.input client = []) :
    Moves duplicates s { s with clients := Function.update s.clients client .exited }
  | sends (client : T) (hphase : s.clients client = .fgets) (hinput : s.input client ≠ []) :
    Moves duplicates s (s.send client (cString 0 (fgets newline (maxLine - 1) (s.input client)).1)
      (fgets newline (maxLine - 1) (s.input client)).2)
  | prints (client : T) (payload : List UInt8) (hphase : s.clients client = .recv)
    (hmem : .answer client payload ∈ s.network) :
    Moves duplicates s { s with
      clients := Function.update s.clients client .fgets
      printed := Function.update s.printed client
        (s.printed client ++ [cString 0 (payload.take maxLine)])
      network := s.network.erase (.answer client payload) }
  | clientFails (client : T) (hrefused : s.refused client = true) :
    Moves duplicates s { s with clients := Function.update s.clients client .failed }
  | arrives (client : T) (payload : List UInt8) (hmem : .request client payload ∈ s.network)
    (haccepts : s.server.accepts client = true) :
    Moves duplicates s { s with
      network := s.network.erase (.request client payload)
      queue := s.queue ++ [(client, payload)] }
  | refuses (client : T) (payload : List UInt8) (hmem : .request client payload ∈ s.network)
    (haccepts : s.server.accepts client = false) :
    Moves duplicates s { s with
      network := s.network.erase (.request client payload)
      refused := Function.update s.refused client true }
  | answerRefused (client : T) (payload : List UInt8) (hended : (s.clients client).ended = true)
    (hmem : .answer client payload ∈ s.network) :
    Moves duplicates s { s with network := s.network.erase (.answer client payload), serverRefused := true }
  | connects (client : T) (payload : List UInt8) (queue : List (T × List UInt8))
    (hserver : s.server = .recvfrom) (hqueue : s.queue = (client, payload) :: queue) :
    Moves duplicates s (s.read client payload queue)
  | reads (client other : T) (payload : List UInt8) (queue : List (T × List UInt8))
    (hserver : s.server = .recv client) (hqueue : s.queue = (other, payload) :: queue) :
    Moves duplicates s (s.read client payload queue)
  | replies (client : T) (payload : List UInt8) (hserver : s.server = .send client payload) :
    Moves duplicates s { s with network := s.network ++ [.answer client payload], server := .recv client }
  | serverFails (client : T) (hpeer : s.server.peer = some client)
    (hserver : s.server ≠ .exited client) (hrefused : s.serverRefused = true) :
    Moves duplicates s { s with server := .failed client }
  | loses (datagram : Datagram T) (hmem : datagram ∈ s.network) :
    Moves duplicates s { s with network := s.network.erase datagram }
  | duplicates (datagram : Datagram T) (hduplicates : duplicates = true)
    (hmem : datagram ∈ s.network) :
    Moves duplicates s { s with network := s.network ++ [datagram] }

theorem step_moves {duplicates : Bool} {s s' : Session T} {action : Action T}
    (h : step duplicates s action = some s') : Moves duplicates s s' := by
  cases action with
  | clientSend client =>
    simp only [step] at h
    split at h <;> try cases h
    split_ifs at h with hinput <;> cases h
    · exact .exits client ‹_› hinput
    · exact .sends client ‹_› hinput
  | clientReceive client payload =>
    simp only [step] at h
    split at h <;> try cases h
    split_ifs at h with hmem
    cases h
    exact .prints client payload ‹_› hmem.2
  | clientFails client =>
    simp only [step] at h
    split at h <;> try cases h
    split_ifs at h with hrefused
    cases h
    exact .clientFails client hrefused
  | arrive client payload =>
    simp only [step] at h
    split_ifs at h with hmem haccepts <;> cases h
    · exact .arrives client payload hmem haccepts
    · exact .refuses client payload hmem (Bool.eq_false_iff.mpr haccepts)
  | answerRefused client payload =>
    simp only [step] at h
    split_ifs at h with hmem
    cases h
    exact .answerRefused client payload hmem.1 hmem.2
  | serverReceive =>
    simp only [step] at h
    split at h
    · cases h
      exact .connects _ _ _ ‹_› ‹_›
    · rename_i queue client hserver
      split_ifs at h with hrefused
      · cases h
        exact .serverFails client (by rw [hserver]; rfl) (by rw [hserver]; nofun) hrefused
      · split at h <;> cases h
        exact .reads client _ _ _ hserver ‹_›
    · cases h
  | serverSend =>
    simp only [step] at h
    split at h <;> try cases h
    rename_i client payload hserver
    split_ifs at h with hrefused <;> cases h
    · exact .serverFails client (by rw [hserver]; rfl) (by rw [hserver]; nofun) hrefused
    · exact .replies client payload hserver
  | lose datagram =>
    simp only [step] at h
    split_ifs at h with hmem
    cases h
    exact .loses datagram hmem
  | duplicate datagram =>
    simp only [step] at h
    split_ifs at h with hmem
    cases h
    exact .duplicates datagram hmem.1 hmem.2

end Session

/-! ### What the server does with a datagram -/

/-- The string of a datagram. -/
def textOf (payload : List UInt8) : List UInt8 := cString 0 (payload.take (bufferSize - 1))

theorem receive_eq (payload : List UInt8) :
    ∃ k, (payload.take (bufferSize - 1)).length + k ≤ bufferSize ∧
      receive payload = .ok (payload.take (bufferSize - 1) ++ List.replicate k 0) := by
  have hlength : (payload.take bufferSize ++
      List.replicate (bufferSize - (payload.take bufferSize).length) (0 : UInt8)).length = bufferSize := by
    rw [List.length_append, List.length_replicate]
    exact Nat.add_sub_cancel' (List.length_take_le _ _)
  have hindex : (bufferSize : ℤ) - 1 = (bufferSize - 1 : ℕ) := by decide
  have hlast : bufferSize - 1 < bufferSize := by decide
  have hend : bufferSize - 1 + 1 = bufferSize := by decide
  rw [receive, store_datagram, ok_bind, hindex, store_one _ (hlength.symm ▸ hlast),
    List.set_eq_take_append_cons_drop, if_pos (hlength.symm ▸ hlast), hend,
    List.drop_of_length_le hlength.le, List.take_append, List.take_take, List.take_replicate]
  refine ⟨min (bufferSize - 1 - (payload.take bufferSize).length)
    (bufferSize - (payload.take bufferSize).length) + 1, ?_, ?_⟩
  · simp only [List.length_take]
    omega
  · rw [List.replicate_succ', List.append_assoc, min_eq_left (Nat.sub_le _ _)]

theorem reply_textOf (payload : List UInt8) :
    reply (textOf payload) = reply (payload.take (bufferSize - 1)) := by
  rw [reply, reply, textOf, cString_eq_self (not_mem_cString 0 _)]

/-- The server stays within its buffers, whatever it has received. -/
theorem serve_eq (client : T) (payload : List UInt8) :
    serve client payload = .ok (textOf payload,
      if Goodbye (textOf payload) then .exited client else .send client (reply (textOf payload))) := by
  obtain ⟨k, hk, hreceive⟩ := receive_eq payload
  have hgreet : greet (payload.take (bufferSize - 1) ++ List.replicate k 0) =
      .ok (reply (payload.take (bufferSize - 1))) := by
    rw [greet_eq (by simpa using hk), reply_padded]
  rw [serve, hreceive, ok_bind, hgreet, cString_padded, ← textOf, reply_textOf]
  dsimp only
  split_ifs <;> rfl

/-! ### What holds whoever sends -/

/-- What a client prints of a datagram. -/
def shownTo [DecidableEq T] (client : T) : Datagram T → Option (List UInt8)
  | .answer other payload => if other = client then some (cString 0 (payload.take maxLine)) else none
  | .request .. => none

/-- What a client prints of the answer that the server is about to send. -/
def Server.due [DecidableEq T] (client : T) : Server T → List (List UInt8)
  | .send other payload => if other = client then [cString 0 (payload.take maxLine)] else []
  | .recvfrom | .recv _ | .exited _ | .failed _ | .faulted _ => []

namespace Session

variable [DecidableEq T]

/-- What a client has printed, and what it may print. -/
def outputs (s : Session T) (client : T) : List (List UInt8) :=
  s.printed client ++ s.network.filterMap (shownTo client) ++ s.server.due client

/-- The last string of the server, and no other, ends its loop. -/
def SaidGoodbye (s : Session T) : Prop :=
  ∃ before text, s.received = before ++ [text] ∧ Goodbye text ∧ ∀ text ∈ before, ¬ Goodbye text

structure Inv (duplicates : Bool) (s : Session T) : Prop where
  server : ∀ fault, s.server ≠ .faulted fault
  answers : ∀ client payload, .answer client payload ∈ s.network → s.server.peer = some client
  strangers : ∀ client, s.server.peer ≠ some client → s.printed client = []
  loop : (∃ client, s.server = .exited client) ∧ s.SaidGoodbye ∨
    (∀ client, s.server ≠ .exited client) ∧ ∀ text ∈ s.received, ¬ Goodbye text
  once : duplicates = false → ∀ client, (s.outputs client).Subperm (s.received.map shown)

variable {duplicates : Bool} {s s' : Session T} {action : Action T} {client : T}

theorem inv_init (input : T → List UInt8) : Inv duplicates (init input) where
  server := nofun
  answers := nofun
  strangers := fun _ _ => rfl
  loop := .inr ⟨nofun, nofun⟩
  once := fun _ _ => List.nil_subperm

/-- Where neither the server nor a client has got a datagram, and the network has no new answer. -/
theorem Inv.of_network (h : Inv duplicates s) (hserver : s'.server = s.server) (hreceived : s'.received = s.received)
    (hprinted : s'.printed = s.printed)
    (hanswers : ∀ client payload, .answer client payload ∈ s'.network →
      .answer client payload ∈ s.network)
    (hshown : duplicates = false → ∀ client, (s'.network.filterMap (shownTo client)).Subperm
      (s.network.filterMap (shownTo client))) : Inv duplicates s' := by
  refine ⟨hserver ▸ h.server, fun client payload hmem => ?_, ?_, ?_, fun hnone client => ?_⟩
  · rw [hserver]
    exact h.answers client payload (hanswers client payload hmem)
  · rw [hserver, hprinted]
    exact h.strangers
  · rw [SaidGoodbye, hserver, hreceived]
    exact h.loop
  · rw [hreceived]
    refine List.Subperm.trans ?_ (h.once hnone client)
    rw [outputs, outputs, hserver, hprinted]
    exact (List.subperm_append_right _).mpr ((List.subperm_append_left _).mpr (hshown hnone client))

theorem shownTo_erase (datagram : Datagram T) (network : List (Datagram T)) (client : T) :
    ((network.erase datagram).filterMap (shownTo client)).Subperm
      (network.filterMap (shownTo client)) :=
  ((List.erase_sublist ..).filterMap _).subperm

theorem Inv.of_erase (h : Inv duplicates s) {datagram : Datagram T} (hserver : s'.server = s.server)
    (hreceived : s'.received = s.received) (hprinted : s'.printed = s.printed)
    (hnetwork : s'.network = s.network.erase datagram) : Inv duplicates s' :=
  h.of_network hserver hreceived hprinted
    (fun _ _ hmem => List.mem_of_mem_erase (hnetwork ▸ hmem))
    (fun _ client => hnetwork ▸ shownTo_erase datagram s.network client)

/-- A client sends a line, or fails in it. -/
theorem Inv.sends (h : Inv duplicates s) (client : T) (line input : List UInt8) :
    Inv duplicates (s.send client line input) := by
  rw [send]
  split
  · split_ifs
    · exact h.of_network rfl rfl rfl (fun _ _ => id) fun _ _ => List.Subperm.refl _
    · refine h.of_network rfl rfl rfl (fun client payload hmem => ?_) fun _ client => ?_
      · simpa using hmem
      · rw [List.filterMap_append]
        exact (List.Perm.of_eq (List.append_nil _)).subperm
  · exact h.of_network rfl rfl rfl (fun _ _ => id) fun _ _ => List.Subperm.refl _

/-- A client prints an answer. -/
theorem Inv.prints (h : Inv duplicates s) {payload : List UInt8} (hmem : .answer client payload ∈ s.network) :
    Inv duplicates { s with
      clients := Function.update s.clients client .fgets
      printed := Function.update s.printed client
        (s.printed client ++ [cString 0 (payload.take maxLine)])
      network := s.network.erase (.answer client payload) } := by
  have hpeer := h.answers client payload hmem
  refine ⟨h.server, fun other bytes hother => h.answers other bytes (List.mem_of_mem_erase hother),
    fun other hother => ?_, h.loop, fun hnone other => ?_⟩
  · have hne : other ≠ client := by
      rintro rfl
      exact hother hpeer
    exact (Function.update_of_ne hne ..).trans (h.strangers other hother)
  · refine List.Subperm.trans (List.Perm.subperm ?_) (h.once hnone other)
    have hperm := (List.perm_cons_erase hmem).filterMap (shownTo other)
    by_cases hother : other = client
    · subst hother
      rw [List.filterMap_cons_some (by rw [shownTo, if_pos rfl])] at hperm
      simp only [outputs, Function.update_self, List.append_assoc, List.singleton_append]
      exact (hperm.symm.append_right _).append_left _
    · rw [List.filterMap_cons_none (by rw [shownTo, if_neg (Ne.symm hother)])] at hperm
      simp only [outputs, Function.update_of_ne hother]
      exact (hperm.symm.append_left _).append_right _

/-- The server reads a datagram of the client that it is connected to, or connects to. -/
theorem Inv.reads (h : Inv duplicates s) {payload : List UInt8} {queue : List (T × List UInt8)}
    (hserver : s.server = .recvfrom ∨ s.server = .recv client) :
    Inv duplicates (s.read client payload queue) := by
  have hpeer : ∀ other, s.server.peer = some other → other = client := by
    intro other hother
    rcases hserver with hserver | hserver <;> rw [hserver] at hother <;> cases hother
    rfl
  have hdue : ∀ other, s.server.due other = [] := by
    intro other
    rcases hserver with hserver | hserver <;> rw [hserver] <;> rfl
  have hloop : ∀ text ∈ s.received, ¬ Goodbye text := by
    rcases h.loop with ⟨⟨other, hexited⟩, -⟩ | ⟨-, hloop⟩
    · rcases hserver with hserver | hserver <;> cases hserver.symm.trans hexited
    · exact hloop
  have hprinted : s.server = .recvfrom → ∀ other, s.printed other = [] := by
    intro hfree other
    exact h.strangers other (by rw [hfree]; nofun)
  rw [read, serve_eq]
  dsimp only
  have hpeer' : (if Goodbye (textOf payload) then Server.exited client
      else .send client (reply (textOf payload))).peer = some client := by
    split_ifs <;> rfl
  refine ⟨?_, fun other bytes hmem => ?_, fun other hother => ?_, ?_, fun hnone other => ?_⟩
  · split_ifs <;> nofun
  · obtain rfl := hpeer other (h.answers other bytes hmem)
    exact hpeer'
  · refine h.strangers other fun hthis => hother ?_
    obtain rfl := hpeer other hthis
    exact hpeer'
  · split_ifs with hgoodbye
    · exact .inl ⟨⟨client, rfl⟩, s.received, textOf payload, rfl, hgoodbye, hloop⟩
    · refine .inr ⟨nofun, fun text hmem => ?_⟩
      rcases List.mem_append.mp hmem with hmem | hmem
      · exact hloop text hmem
      · rwa [List.mem_singleton.mp hmem]
  · have hbefore := h.once hnone other
    rw [outputs, hdue, List.append_nil] at hbefore
    rw [List.map_append]
    refine hbefore.append ?_
    split_ifs
    · exact List.nil_subperm
    · rw [Server.due]
      split_ifs
      · rw [cString_eq_self fun hzero => not_mem_reply _ (List.mem_of_mem_take hzero)]
        exact List.Subperm.refl _
      · exact List.nil_subperm

/-- The server sends its answer. -/
theorem Inv.answers_sent (h : Inv duplicates s) {payload : List UInt8} (hserver : s.server = .send client payload) :
    Inv duplicates
      { s with network := s.network ++ [.answer client payload], server := .recv client } := by
  have hpeer : s.server.peer = some client := by rw [hserver]; rfl
  have hloop : ∀ text ∈ s.received, ¬ Goodbye text := by
    rcases h.loop with ⟨⟨other, hexited⟩, -⟩ | ⟨-, hloop⟩
    · cases hserver.symm.trans hexited
    · exact hloop
  refine ⟨nofun, fun other bytes hmem => ?_, fun other hother => ?_, .inr ⟨nofun, hloop⟩,
    fun hnone other => ?_⟩
  · rcases List.mem_append.mp hmem with hmem | hmem
    · exact hpeer.symm.trans (h.answers other bytes hmem)
    · cases List.mem_singleton.mp hmem
      rfl
  · exact h.strangers other fun hthis => hother (hpeer.symm.trans hthis)
  · have hbefore := h.once hnone other
    have hsent : [Datagram.answer client payload].filterMap (shownTo other) = s.server.due other := by
      rw [hserver, Server.due]
      split_ifs with hother <;> simp [shownTo, hother]
    rw [outputs, ← hsent, List.append_assoc, ← List.filterMap_append] at hbefore
    rwa [outputs, Server.due, List.append_nil]

/-- A call of the server fails. -/
theorem Inv.fails (h : Inv duplicates s) (hpeer : s.server.peer = some client)
    (hserver : s.server ≠ .exited client) : Inv duplicates { s with server := .failed client } := by
  have hloop : ∀ text ∈ s.received, ¬ Goodbye text := by
    rcases h.loop with ⟨⟨other, hexited⟩, -⟩ | ⟨-, hloop⟩
    · rw [hexited] at hpeer hserver
      cases hpeer
      exact absurd rfl hserver
    · exact hloop
  refine ⟨nofun, fun other bytes hmem => hpeer.symm.trans (h.answers other bytes hmem),
    fun other hother => h.strangers other fun hthis => hother (hpeer.symm.trans hthis),
    .inr ⟨nofun, hloop⟩, fun hnone other => List.Subperm.trans ?_ (h.once hnone other)⟩
  rw [outputs, outputs, Server.due, List.append_nil]
  exact (List.sublist_append_left ..).subperm

theorem Inv.step (h : Inv duplicates s) (hstep : step duplicates s action = some s') :
    Inv duplicates s' := by
  cases step_moves hstep with
  | exits client | clientFails client =>
    exact h.of_network rfl rfl rfl (fun _ _ => id) fun _ _ => List.Subperm.refl _
  | sends client => exact h.sends client _ _
  | prints client payload _ hmem => exact h.prints hmem
  | arrives client payload | refuses client payload | answerRefused client payload | loses datagram =>
    exact h.of_erase rfl rfl rfl rfl
  | connects client payload queue hserver => exact h.reads (.inl hserver)
  | reads client other payload queue hserver => exact h.reads (.inr hserver)
  | replies client payload hserver => exact h.answers_sent hserver
  | serverFails client hpeer hserver => exact h.fails hpeer hserver
  | duplicates datagram hduplicates hmem =>
    refine h.of_network rfl rfl rfl (fun client payload hanswer => ?_) fun hnone => ?_
    · rcases List.mem_append.mp hanswer with hanswer | hanswer
      · exact hanswer
      · exact List.mem_singleton.mp hanswer ▸ hmem
    · rw [hduplicates] at hnone
      cases hnone

theorem inv_of_reaches {input : T → List UInt8} (h : Reaches (step duplicates) (init input) s) :
    Inv duplicates s :=
  h.invariant (Inv duplicates) (inv_init input) fun _ _ _ hinv hstep => hinv.step hstep

/-! ### What the connection changes -/

/-- The datagrams of others that the server will still read. -/
def foreign (s : Session T) (client : T) : List (T × List UInt8) :=
  s.queue.filter fun datagram => datagram.1 ≠ client

omit [DecidableEq T] in
theorem peer_read (client : T) (payload : List UInt8) (queue : List (T × List UInt8)) :
    (s.read client payload queue).server.peer = some client := by
  rw [read, serve_eq]
  dsimp only
  split_ifs <;> rfl

omit [DecidableEq T] in
theorem queue_read (client : T) (payload : List UInt8) (queue : List (T × List UInt8)) :
    (s.read client payload queue).queue = queue := by
  rw [read, serve_eq]

theorem eq_of_accepts {other : T} (hpeer : s.server.peer = some client)
    (haccepts : s.server.accepts other = true) : other = client := by
  cases hserver : s.server with
  | send peer payload =>
    rw [hserver] at hpeer haccepts
    cases hpeer
    exact (of_decide_eq_true haccepts).symm
  | recv peer =>
    rw [hserver] at hpeer haccepts
    cases hpeer
    exact (of_decide_eq_true haccepts).symm
  | _ => simp_all [Server.peer, Server.accepts]

theorem queue_send (client : T) (line input : List UInt8) :
    (s.send client line input).server = s.server ∧ (s.send client line input).queue = s.queue := by
  rw [send]
  split
  · split_ifs <;> exact ⟨rfl, rfl⟩
  · exact ⟨rfl, rfl⟩

/-- Nothing of another client is accepted any more. -/
theorem connected_step (hpeer : s.server.peer = some client)
    (hstep : step duplicates s action = some s') :
    s'.server.peer = some client ∧ s'.foreign client <:+ s.foreign client := by
  cases step_moves hstep with
  | exits | prints | clientFails | refuses | answerRefused | loses | duplicates => exact ⟨hpeer, List.suffix_rfl⟩
  | sends other =>
    obtain ⟨hserver, hqueue⟩ := queue_send (s := s) other _ _
    rw [foreign, hserver, hqueue]
    exact ⟨hpeer, List.suffix_rfl⟩
  | arrives other payload _ haccepts =>
    obtain rfl := eq_of_accepts hpeer haccepts
    exact ⟨hpeer, by simp [foreign]⟩
  | connects other payload queue hserver =>
    rw [hserver] at hpeer
    cases hpeer
  | reads peer other payload queue hserver hqueue =>
    rw [hserver] at hpeer
    cases hpeer
    refine ⟨peer_read .., ?_⟩
    rw [foreign, foreign, queue_read, hqueue]
    exact (List.suffix_cons ..).filter _
  | replies peer payload hserver =>
    rw [hserver] at hpeer
    cases hpeer
    exact ⟨rfl, List.suffix_rfl⟩
  | serverFails peer hpeer' => exact ⟨hpeer'.symm.trans hpeer, List.suffix_rfl⟩

theorem connected_of_reaches (hpeer : s.server.peer = some client) (h : Reaches (step duplicates) s s') :
    s'.server.peer = some client ∧ s'.foreign client <:+ s.foreign client := by
  refine h.invariant (fun later => later.server.peer = some client ∧
    later.foreign client <:+ s.foreign client) ⟨hpeer, List.suffix_rfl⟩ ?_
  intro later action later' hlater hstep
  obtain ⟨hpeer', hforeign⟩ := connected_step hlater.1 hstep
  exact ⟨hpeer', hforeign.trans hlater.2⟩

/-- Whatever the clients send, the server stays within its buffers and answers nobody but the client
that it is connected to, each datagram that it has read once at most where the network delivers none
twice; the first that begins with goodbye ends it, whoever has sent it, and nothing else that it
reads. When it is connected, it stays so, and of the datagrams of others it reads those only that
have come before. -/
theorem udp_connect {input : T → List UInt8} (h : Reaches (step duplicates) (init input) s) :
    (∀ fault, s.server ≠ .faulted fault) ∧
      (∀ client, s.server.peer ≠ some client → s.printed client = []) ∧
      (duplicates = false → ∀ client, (s.printed client).Subperm (s.received.map shown)) ∧
      ((∃ client, s.server = .exited client) ∧ s.SaidGoodbye ∨
        (∀ client, s.server ≠ .exited client) ∧ ∀ text ∈ s.received, ¬ Goodbye text) ∧
      ∀ client, s.server.peer = some client → ∀ later, Reaches (step duplicates) s later →
        later.server.peer = some client ∧ later.foreign client <:+ s.foreign client := by
  have hinv := inv_of_reaches h
  refine ⟨hinv.server, hinv.strangers, fun hnone client => ?_, hinv.loop,
    fun client hpeer later hlater => connected_of_reaches hpeer hlater⟩
  refine List.Subperm.trans (List.Sublist.subperm ?_) (hinv.once hnone client)
  rw [outputs, List.append_assoc]
  exact List.sublist_append_left ..

/-- A datagram that was there before the connection is answered to the other client. -/
theorem udp_connect_foreign : ∃ s,
    [Action.clientSend false, .clientSend true, .arrive false [97, 0], .arrive true [99, 0],
      .serverReceive, .serverSend, .serverReceive, .serverSend, .lose (.answer false (literal "Hi, a")),
      .clientReceive false (literal "Hi, c")].foldlM (step false)
        (init fun client => joined newline (UdpEcho.Exchange.twoClients client)) = some s ∧
      s.printed false = [literal "Hi, c"] ∧ (s.printed false).Subperm (s.received.map shown) ∧
      ∀ later, Reaches (step false) s later →
        later.server.peer = some false ∧ later.foreign false = [] := by
  have hany : ([Action.clientSend false, .clientSend true, .arrive false [97, 0], .arrive true [99, 0],
      .serverReceive, .serverSend, .serverReceive, .serverSend, .lose (.answer false (literal "Hi, a")),
      .clientReceive false (literal "Hi, c")].foldlM (step false)
        (init fun client => joined newline (UdpEcho.Exchange.twoClients client))).any
          (fun s => s.printed false = [literal "Hi, c"] ∧ s.server.peer = some false ∧
            s.foreign false = []) = true := by
    decide +kernel
  obtain ⟨s, hrun, hs⟩ := (Option.any_eq_true ..).mp hany
  obtain ⟨hprinted, hpeer, hforeign⟩ := of_decide_eq_true hs
  obtain ⟨-, -, honce, -, hconnected⟩ := udp_connect (.of_foldlM hrun)
  refine ⟨s, hrun, hprinted, honce rfl false, fun later hlater => ?_⟩
  obtain ⟨hpeer', hsuffix⟩ := hconnected false hpeer later hlater
  exact ⟨hpeer', List.suffix_nil.mp (hforeign ▸ hsuffix)⟩

/-- A goodbye that another client has sent before the connection ends the server too. -/
example : ([Action.clientSend false, .clientSend true, .arrive false [97, 0],
    .arrive true (literal "goodbye!" ++ [0]), .serverReceive, .serverSend, .serverReceive].foldlM
      (step false) (init fun client : Bool => if client then literal "goodbye!" ++ [newline]
        else [97, newline])).any (fun s => s.server = .exited false) = true := by
  decide +kernel

end Session

end OsProgramming.Servers.UdpConnect
