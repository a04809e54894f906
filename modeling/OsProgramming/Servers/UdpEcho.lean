import OsProgramming.Library.Runs
import OsProgramming.Servers.Greeting
import Mathlib.Logic.Function.Basic

/-! `udp_server.c` and any number of processes that run `udp_client.c`. The network loses
datagrams, delivers them in any order, and may deliver some of them twice. -/

namespace OsProgramming.Servers.UdpEcho

open Library

open Greeting (maxLine)

variable {T : Type}

/-- A datagram from a client, or to it. -/
inductive Datagram (T : Type) where
  | request (client : T) (payload : List UInt8)
  | answer (client : T) (payload : List UInt8)
  deriving DecidableEq

instance [DecidableEq T] : LawfulBEq (Datagram T) := inferInstance

def Datagram.client : Datagram T → T
  | .request client _ | .answer client _ => client

@[simp] theorem Datagram.client_request (client : T) (payload : List UInt8) :
    (Datagram.request client payload).client = client := rfl

@[simp] theorem Datagram.client_answer (client : T) (payload : List UInt8) :
    (Datagram.answer client payload).client = client := rfl

/-- The next call of a client. -/
inductive Client where
  | fgets
  | recvfrom
  | exited
  | faulted (fault : Fault)
  deriving DecidableEq

inductive Server (T : Type) where
  | recvfrom
  | sendto (client : T) (payload : List UInt8)
  | faulted (fault : Fault)

structure Exchange (T : Type) where
  input : T → List UInt8
  clients : T → Client
  printed : T → List (List UInt8)
  network : List (Datagram T)
  server : Server T
  count : ℕ

inductive Action (T : Type) where
  /-- a client reads a line and sends it -/
  | clientSend (client : T)
  | clientReceive (client : T) (payload : List UInt8)
  | serverReceive (client : T) (payload : List UInt8)
  | serverSend
  | lose (datagram : Datagram T)
  | duplicate (datagram : Datagram T)

/-- What the server sends for a datagram, of which its buffer holds the beginning. -/
def answer (payload : List UInt8) : Result (List UInt8) := do
  let readSize := (payload.take bufferSize).length
  let receiveBuffer ← store (List.replicate bufferSize 0) 0 (payload.take bufferSize)
  let receiveBuffer ← (if readSize = bufferSize then store receiveBuffer ((readSize : ℤ) - 1) [0]
    else store receiveBuffer readSize [0])
  greet receiveBuffer

namespace Exchange

def init (input : T → List UInt8) : Exchange T where
  input := input
  clients := fun _ => .fgets
  printed := fun _ => []
  network := []
  server := .recvfrom
  count := 0

variable [DecidableEq T]

/-- The client has read a line, and all that is left. -/
def send (s : Exchange T) (client : T) (line input : List UInt8) : Exchange T :=
  match message line with
  | .ok payload =>
    { s with
      input := Function.update s.input client input
      clients := Function.update s.clients client .recvfrom
      network := s.network ++ [.request client payload] }
  | .error fault => { s with clients := Function.update s.clients client (.faulted fault) }

/-- `duplicates` tells if the network delivers datagrams twice. -/
def step (duplicates : Bool) (s : Exchange T) : Action T → Option (Exchange T)
  | .clientSend client =>
    match s.clients client with
    | .fgets =>
      if s.input client = [] then some { s with clients := Function.update s.clients client .exited }
      else
        let (line, input) := fgets newline (maxLine - 1) (s.input client)
        some (s.send client (cString 0 line) input)
    | _ => none
  | .clientReceive client payload =>
    match s.clients client with
    | .recvfrom =>
      if .answer client payload ∈ s.network then
        some { s with
          clients := Function.update s.clients client .fgets
          printed := Function.update s.printed client
            (s.printed client ++ [cString 0 (payload.take maxLine)])
          network := s.network.erase (.answer client payload) }
      else none
    | _ => none
  | .serverReceive client payload =>
    match s.server with
    | .recvfrom =>
      if .request client payload ∈ s.network then
        some { s with
          network := s.network.erase (.request client payload)
          server :=
            match answer payload with
            | .ok bytes => .sendto client bytes
            | .error fault => .faulted fault }
      else none
    | _ => none
  | .serverSend =>
    match s.server with
    | .sendto client payload =>
      some { s with
        network := s.network ++ [.answer client payload]
        server := .recvfrom
        count := s.count + 1 }
    | _ => none
  | .lose datagram =>
    if datagram ∈ s.network then some { s with network := s.network.erase datagram } else none
  | .duplicate datagram =>
    if duplicates ∧ datagram ∈ s.network then some { s with network := s.network ++ [datagram] }
    else none

/-- All that a step can do where no datagram is delivered twice. -/
inductive Moves (s : Exchange T) : Exchange T → Prop where
  | exits (client : T) (hphase : s.clients client = .fgets) (hinput : s.input client = []) :
    Moves s { s with clients := Function.update s.clients client .exited }
  | sends (client : T) (hphase : s.clients client = .fgets) (hinput : s.input client ≠ []) :
    Moves s (s.send client (cString 0 (fgets newline (maxLine - 1) (s.input client)).1)
      (fgets newline (maxLine - 1) (s.input client)).2)
  | prints (client : T) (payload : List UInt8) (hmem : .answer client payload ∈ s.network) :
    Moves s { s with
      clients := Function.update s.clients client .fgets
      printed := Function.update s.printed client
        (s.printed client ++ [cString 0 (payload.take maxLine)])
      network := s.network.erase (.answer client payload) }
  | receives (client : T) (payload : List UInt8) (hserver : s.server = .recvfrom)
    (hmem : .request client payload ∈ s.network) :
    Moves s { s with
      network := s.network.erase (.request client payload)
      server := match answer payload with
        | .ok bytes => .sendto client bytes
        | .error fault => .faulted fault }
  | replies (client : T) (payload : List UInt8) (hserver : s.server = .sendto client payload) :
    Moves s { s with
      network := s.network ++ [.answer client payload]
      server := .recvfrom
      count := s.count + 1 }
  | loses (datagram : Datagram T) (hmem : datagram ∈ s.network) :
    Moves s { s with network := s.network.erase datagram }

theorem step_moves {s s' : Exchange T} {action : Action T} (h : step false s action = some s') :
    Moves s s' := by
  cases action with
  | clientSend client =>
    simp only [step] at h
    split at h <;> try cases h
    split_ifs at h with hinput <;> cases h
    · exact .exits client ‹_› hinput
    · exact .sends client ‹_› hinput
  | clientReceive client payload =>
    simp only [step] at h
    split at h <;> try cases h
    split_ifs at h with hmem
    cases h
    exact .prints client payload hmem
  | serverReceive client payload =>
    simp only [step] at h
    split at h <;> try cases h
    split_ifs at h with hmem
    cases h
    exact .receives client payload ‹_› hmem
  | serverSend =>
    simp only [step] at h
    split at h <;> cases h
    exact .replies _ _ ‹_›
  | lose datagram =>
    simp only [step] at h
    split_ifs at h with hmem
    cases h
    exact .loses datagram hmem
  | duplicate datagram =>
    simp only [step, Bool.false_eq_true, false_and, if_false] at h
    cases h

end Exchange

/-! ### The answer of the server -/

/-- The server answers every datagram, whoever has sent it, from within its buffers. -/
theorem answer_eq (payload : List UInt8) :
    answer payload = .ok (reply (payload.take (bufferSize - 1))) := by
  rcases Nat.lt_or_ge payload.length bufferSize with hshort | hlong
  · have htake : payload.take bufferSize = payload := List.take_of_length_le hshort.le
    have htake' : payload.take (bufferSize - 1) = payload :=
      List.take_of_length_le (Nat.le_sub_one_of_lt hshort)
    obtain ⟨k, hk⟩ := Nat.exists_eq_add_of_lt hshort
    have hrest : bufferSize - payload.length = k + 1 := by omega
    have hset : (payload ++ List.replicate (k + 1) 0).set payload.length 0 =
        payload ++ List.replicate (k + 1) 0 := by simp [List.replicate_succ]
    have hlength : payload.length < (payload ++ List.replicate (k + 1) (0 : UInt8)).length := by simp
    rw [answer, store_datagram, ok_bind, htake, htake', if_neg hshort.ne, hrest, store_one _ hlength, hset,
      ok_bind, greet_eq, reply_padded]
    simp only [List.length_append, List.length_replicate]
    omega
  · have hfull : (payload.take bufferSize).length = bufferSize := by simpa using hlong
    have hindex : (bufferSize : ℤ) - 1 = (bufferSize - 1 : ℕ) := by decide
    have hlast : (payload.take (bufferSize - 1)).length = bufferSize - 1 := by
      rw [List.length_take]
      omega
    have hsplit : payload.take bufferSize = payload.take (bufferSize - 1) ++ [payload[bufferSize - 1]] :=
      List.take_succ_eq_append_getElem _
    have hset : (payload.take bufferSize).set (bufferSize - 1) 0 = payload.take (bufferSize - 1) ++ [0] := by
      rw [hsplit, List.set_append_right _ _ hlast.le, hlast, Nat.sub_self, List.set_cons_zero]
    have hlength : bufferSize - 1 < (payload.take bufferSize).length := by
      rw [hfull]
      decide
    rw [answer, store_datagram, ok_bind, hfull, if_pos rfl, Nat.sub_self, List.replicate_zero, List.append_nil,
      hindex, store_one _ hlength, hset, ok_bind, greet_eq]
    · exact congrArg Except.ok (reply_padded _ 1)
    · rw [List.length_append, hlast, List.length_singleton]
      decide

/-- A line that fits is answered as a whole. -/
theorem answer_line {line : List UInt8} (hline : Fits line) :
    answer (line ++ [0]) = .ok (reply line) := by
  have hlength : (line ++ [0]).length ≤ bufferSize - 1 := by
    rw [List.length_append, List.length_singleton]
    exact hline.length
  rw [answer_eq, List.take_of_length_le hlength]
  exact congrArg Except.ok (reply_padded line 1)

/-- What a client prints for a line: its buffer may hold only the beginning of the answer. -/
def shown (line : List UInt8) : List UInt8 := (reply line).take maxLine

/-! ### What is on its way -/

def Server.pending : Server T → List (Datagram T)
  | .sendto client payload => [.answer client payload]
  | .recvfrom | .faulted _ => []

namespace Exchange

/-- The datagrams in the network, and the answer that the server is about to send. -/
def datagrams (s : Exchange T) : List (Datagram T) := s.network ++ s.server.pending

variable [DecidableEq T]

/-- Those from a client, or to it. -/
def own (s : Exchange T) (client : T) : List (Datagram T) :=
  s.datagrams.filter fun datagram => datagram.client = client

/-- What a client has printed, and what is on its way for the line that it has sent. -/
inductive Follows (lines : List (List UInt8)) (s : Exchange T) (client : T) : Prop where
  | between (done rest : List (List UInt8)) : s.clients client = .fgets ∨ s.clients client = .exited →
    lines = done ++ rest → s.input client = joined newline rest → s.printed client = done.map shown →
    s.own client = [] → Follows lines s client
  | waiting (done : List (List UInt8)) (line : List UInt8) (rest : List (List UInt8)) :
    s.clients client = .recvfrom → lines = done ++ line :: rest →
    s.input client = joined newline rest → s.printed client = done.map shown →
    s.own client = [] ∨ s.own client = [.request client (line ++ [0])] ∨
      s.own client = [.answer client (reply line)] → Follows lines s client

structure Inv (lines : T → List (List UInt8)) (s : Exchange T) : Prop where
  follows : ∀ client, Follows (lines client) s client
  server : ∀ fault, s.server ≠ .faulted fault

variable {lines : T → List (List UInt8)} {s s' : Exchange T} {action : Action T} {client : T}
  {datagram : Datagram T}

theorem inv_init : Inv lines (init fun client => joined newline (lines client)) :=
  ⟨fun client => .between [] (lines client) (.inl rfl) rfl rfl rfl rfl, nofun⟩

theorem own_of_cons (h : s'.datagrams.Perm (datagram :: s.datagrams)) :
    (s'.own datagram.client).Perm (datagram :: s.own datagram.client) ∧
      ∀ client, client ≠ datagram.client → (s'.own client).Perm (s.own client) := by
  constructor
  · have hown := h.filter fun other => other.client = datagram.client
    rwa [List.filter_cons_of_pos (by simp)] at hown
  · intro client hne
    have hown := h.filter fun other => other.client = client
    rwa [List.filter_cons_of_neg (by simpa using Ne.symm hne)] at hown

/-- Where nothing but the order of its datagrams has changed for a client. -/
theorem Follows.of_perm {lines : List (List UInt8)} (h : Follows lines s client)
    (hclients : s'.clients client = s.clients client) (hinput : s'.input client = s.input client)
    (hprinted : s'.printed client = s.printed client) (hown : (s'.own client).Perm (s.own client)) :
    Follows lines s' client := by
  cases h with
  | between done rest hphase hlines hrest hdone hempty =>
    rw [hempty, List.perm_nil] at hown
    exact .between done rest (hclients ▸ hphase) hlines (hinput ▸ hrest) (hprinted ▸ hdone) hown
  | waiting done line rest hphase hlines hrest hdone hone =>
    refine .waiting done line rest (hclients ▸ hphase) hlines (hinput ▸ hrest) (hprinted ▸ hdone) ?_
    rcases hone with hone | hone | hone
    · rw [hone, List.perm_nil] at hown
      exact .inl hown
    · rw [hone, List.perm_singleton] at hown
      exact .inr (.inl hown)
    · rw [hone, List.perm_singleton] at hown
      exact .inr (.inr hown)

/-- The only datagram of a client is taken out of the network, or lost. -/
theorem Follows.takes {lines : List (List UInt8)} (h : Follows lines s datagram.client)
    (hperm : s.datagrams.Perm (datagram :: s'.datagrams)) :
    ∃ (done : List (List UInt8)) (line : List UInt8) (rest : List (List UInt8)),
      s.clients datagram.client = .recvfrom ∧ lines = done ++ line :: rest ∧
      s.input datagram.client = joined newline rest ∧ s.printed datagram.client = done.map shown ∧
      (datagram = .request datagram.client (line ++ [0]) ∨
        datagram = .answer datagram.client (reply line)) ∧ s'.own datagram.client = [] := by
  have hown := (own_of_cons hperm).1
  cases h with
  | between done rest hphase hlines hrest hdone hempty =>
    rw [hempty] at hown
    exact absurd hown.symm (by simp)
  | waiting done line rest hphase hlines hrest hdone hone =>
    refine ⟨done, line, rest, hphase, hlines, hrest, hdone, ?_⟩
    rcases hone with hone | hone | hone <;> rw [hone] at hown
    · exact absurd hown.symm (by simp)
    · obtain ⟨heq, hempty⟩ := List.cons.inj (List.perm_singleton.mp hown.symm)
      exact ⟨.inl heq, hempty⟩
    · obtain ⟨heq, hempty⟩ := List.cons.inj (List.perm_singleton.mp hown.symm)
      exact ⟨.inr heq, hempty⟩

/-- A client has nothing more to send. -/
theorem Inv.exits (h : Inv lines s) (hphase : s.clients client = .fgets) :
    Inv lines { s with clients := Function.update s.clients client .exited } := by
  refine ⟨fun other => ?_, h.server⟩
  by_cases hother : other = client
  · subst hother
    cases h.follows other with
    | between done rest _ hlines hrest hdone hempty =>
      exact .between done rest (.inr (Function.update_self ..)) hlines hrest hdone hempty
    | waiting done line rest hwaits => cases hphase.symm.trans hwaits
  · exact (h.follows other).of_perm (Function.update_of_ne hother ..) rfl rfl (List.Perm.refl _)

/-- A client sends its next line. -/
theorem Inv.sends (h : Inv lines s) (hfits : ∀ client, ∀ line ∈ lines client, Fits line)
    (hphase : s.clients client = .fgets) (hinput : s.input client ≠ []) :
    Inv lines (s.send client (cString 0 (fgets newline (maxLine - 1) (s.input client)).1)
      (fgets newline (maxLine - 1) (s.input client)).2) := by
  cases h.follows client with
  | waiting done line rest hwaits => cases hphase.symm.trans hwaits
  | between done rest _ hlines hrest hdone hempty =>
    rw [hrest] at hinput ⊢
    cases rest with
    | nil => exact absurd rfl hinput
    | cons line rest =>
      have hline : Fits line := hfits client line (by simp [hlines])
      have hplain : 0 ∉ line ++ [newline] := by
        rw [List.mem_append, not_or]
        exact ⟨hline.nul, by decide⟩
      have hsend : s.send client (line ++ [newline]) (joined newline rest) = { s with
          input := Function.update s.input client (joined newline rest)
          clients := Function.update s.clients client .recvfrom
          network := s.network ++ [.request client (line ++ [0])] } := by
        rw [send, message_line]
      rw [joined_cons, fgets_line hline.newline hline.length, cString_eq_self hplain, hsend]
      have hperm : (datagrams { s with
          input := Function.update s.input client (joined newline rest)
          clients := Function.update s.clients client .recvfrom
          network := s.network ++ [.request client (line ++ [0])] }).Perm
            (Datagram.request client (line ++ [0]) :: s.datagrams) := by
        rw [datagrams, List.append_assoc, List.singleton_append]
        exact List.perm_middle
      obtain ⟨hself, hothers⟩ := own_of_cons hperm
      refine ⟨fun other => ?_, h.server⟩
      by_cases hother : other = client
      · subst hother
        refine .waiting done line rest (Function.update_self ..) hlines (Function.update_self ..) hdone ?_
        rw [Datagram.client_request, hempty, List.perm_singleton] at hself
        exact .inr (.inl hself)
      · exact (h.follows other).of_perm (Function.update_of_ne hother ..) (Function.update_of_ne hother ..)
          rfl (hothers other hother)

/-- A client prints an answer. -/
theorem Inv.prints (h : Inv lines s) {payload : List UInt8}
    (hmem : .answer client payload ∈ s.network) :
    Inv lines { s with
      clients := Function.update s.clients client .fgets
      printed := Function.update s.printed client
        (s.printed client ++ [cString 0 (payload.take maxLine)])
      network := s.network.erase (.answer client payload) } := by
  have hperm : s.datagrams.Perm (Datagram.answer client payload :: datagrams { s with
      clients := Function.update s.clients client .fgets
      printed := Function.update s.printed client
        (s.printed client ++ [cString 0 (payload.take maxLine)])
      network := s.network.erase (.answer client payload) }) :=
    (List.perm_cons_erase hmem).append_right _
  obtain ⟨done, line, rest, -, hlines, hrest, hdone, heq, hempty⟩ := (h.follows client).takes hperm
  obtain rfl : payload = reply line := by simpa using heq
  have hshown : cString 0 ((reply line).take maxLine) = shown line :=
    cString_eq_self fun hzero => not_mem_reply line (List.mem_of_mem_take hzero)
  refine ⟨fun other => ?_, h.server⟩
  by_cases hother : other = client
  · subst hother
    refine .between (done ++ [line]) rest (.inl (Function.update_self ..)) (by simp [hlines]) hrest ?_ hempty
    rw [Datagram.client_answer] at hdone
    simp only [Function.update_self, hshown, hdone, List.map_append, List.map_singleton]
  · exact (h.follows other).of_perm (Function.update_of_ne hother ..) rfl
      (Function.update_of_ne hother ..) ((own_of_cons hperm).2 other hother).symm

/-- The server makes an answer of a line. -/
theorem Inv.receives (h : Inv lines s) (hfits : ∀ client, ∀ line ∈ lines client, Fits line)
    (hserver : s.server = .recvfrom) {payload : List UInt8}
    (hmem : .request client payload ∈ s.network) :
    Inv lines { s with
      network := s.network.erase (.request client payload)
      server := match answer payload with
        | .ok bytes => .sendto client bytes
        | .error fault => .faulted fault } := by
  have hpending : s.server.pending = [] := by rw [hserver, Server.pending]
  have htaken : s.datagrams.Perm (Datagram.request client payload ::
      datagrams { s with network := s.network.erase (.request client payload) }) :=
    (List.perm_cons_erase hmem).append_right _
  obtain ⟨done, line, rest, hphase, hlines, hrest, hdone, heq, hempty⟩ := (h.follows client).takes htaken
  obtain rfl : payload = line ++ [0] := by simpa using heq
  have hline : Fits line := hfits client line (by simp [hlines])
  rw [answer_line hline]
  have hmade : (datagrams { s with
      network := s.network.erase (.request client (line ++ [0]))
      server := .sendto client (reply line) }).Perm (Datagram.answer client (reply line) ::
        datagrams { s with network := s.network.erase (.request client (line ++ [0])) }) := by
    rw [datagrams, datagrams, Server.pending, hpending, List.append_nil]
    exact List.perm_append_singleton _ _
  refine ⟨fun other => ?_, nofun⟩
  by_cases hother : other = client
  · subst hother
    have hself := (own_of_cons hmade).1
    rw [Datagram.client_request] at hempty
    rw [Datagram.client_answer, hempty, List.perm_singleton] at hself
    exact .waiting done line rest hphase hlines hrest hdone (.inr (.inr hself))
  · have hthere := (own_of_cons htaken).2 other hother
    have hhere := (own_of_cons hmade).2 other hother
    exact (h.follows other).of_perm rfl rfl rfl (hhere.trans hthere.symm)

/-- A datagram is lost. -/
theorem Inv.loses (h : Inv lines s) (hmem : datagram ∈ s.network) :
    Inv lines { s with network := s.network.erase datagram } := by
  have hperm : s.datagrams.Perm (datagram :: datagrams { s with network := s.network.erase datagram }) :=
    (List.perm_cons_erase hmem).append_right _
  obtain ⟨done, line, rest, hphase, hlines, hrest, hdone, -, hempty⟩ :=
    (h.follows datagram.client).takes hperm
  refine ⟨fun other => ?_, h.server⟩
  by_cases hother : other = datagram.client
  · subst hother
    exact .waiting done line rest hphase hlines hrest hdone (.inl hempty)
  · exact (h.follows other).of_perm rfl rfl rfl ((own_of_cons hperm).2 other hother).symm

/-- The server sends its answer. -/
theorem Inv.replies (h : Inv lines s) {payload : List UInt8} (hserver : s.server = .sendto client payload) :
    Inv lines { s with
      network := s.network ++ [.answer client payload]
      server := .recvfrom
      count := s.count + 1 } := by
  have hsame : ∀ other, own { s with
      network := s.network ++ [.answer client payload]
      server := .recvfrom
      count := s.count + 1 } other = s.own other := by
    intro other
    simp [own, datagrams, hserver, Server.pending]
  exact ⟨fun other => (h.follows other).of_perm rfl rfl rfl (.of_eq (hsame other)), nofun⟩

theorem Inv.step (h : Inv lines s) (hfits : ∀ client, ∀ line ∈ lines client, Fits line)
    (hstep : step false s action = some s') : Inv lines s' := by
  cases step_moves hstep with
  | exits client hphase => exact h.exits hphase
  | sends client hphase hinput => exact h.sends hfits hphase hinput
  | prints client payload hmem => exact h.prints hmem
  | receives client payload hserver hmem => exact h.receives hfits hserver hmem
  | replies client payload hserver => exact h.replies hserver
  | loses datagram hmem => exact h.loses hmem

theorem inv_of_reaches (hfits : ∀ client, ∀ line ∈ lines client, Fits line)
    (h : Reaches (step false) (init fun client => joined newline (lines client)) s) : Inv lines s :=
  h.invariant (Inv lines) inv_init fun _ _ _ hinv hstep => hinv.step hfits hstep

/-- A client that waits, with nothing on its way for it. -/
structure Stranded (client : T) (printed : List (List UInt8)) (s : Exchange T) : Prop where
  waits : s.clients client = .recvfrom
  printed : s.printed client = printed
  alone : ∀ datagram ∈ s.datagrams, datagram.client ≠ client

variable {printed : List (List UInt8)}

/-- Another client sends a line. -/
theorem Stranded.sends (h : Stranded client printed s) {other : T} (hother : client ≠ other)
    (line input : List UInt8) : Stranded client printed (s.send other line input) := by
  have hwaits : ∀ phase, Function.update s.clients other phase client = .recvfrom := fun phase =>
    (Function.update_of_ne hother ..).trans h.waits
  rw [send]
  split
  · refine ⟨hwaits _, h.printed, fun datagram hmem => ?_⟩
    rw [datagrams, List.append_assoc, List.mem_append, List.mem_append, List.mem_singleton] at hmem
    rcases hmem with hmem | rfl | hmem
    · exact h.alone datagram (List.mem_append_left _ hmem)
    · exact hother.symm
    · exact h.alone datagram (List.mem_append_right _ hmem)
  · exact ⟨hwaits _, h.printed, h.alone⟩

/-- Nobody else sends it anything. -/
theorem Stranded.step (h : Stranded client printed s) (hstep : step false s action = some s') :
    Stranded client printed s' := by
  have hnetwork : ∀ datagram ∈ s.network, datagram.client ≠ client := fun datagram hmem =>
    h.alone datagram (List.mem_append_left _ hmem)
  have herase : ∀ datagram, ∀ other ∈ s.network.erase datagram ++ s.server.pending,
      other.client ≠ client := by
    intro datagram other hmem
    rcases List.mem_append.mp hmem with hmem | hmem
    · exact hnetwork other (List.mem_of_mem_erase hmem)
    · exact h.alone other (List.mem_append_right _ hmem)
  have hreads : ∀ other, s.clients other = .fgets → client ≠ other := by
    rintro other hphase rfl
    cases h.waits.symm.trans hphase
  cases step_moves hstep with
  | exits other hphase =>
    exact ⟨(Function.update_of_ne (hreads other hphase) ..).trans h.waits, h.printed, h.alone⟩
  | sends other hphase => exact h.sends (hreads other hphase) _ _
  | prints other payload hmem =>
    have hother : client ≠ other := (hnetwork _ hmem).symm
    exact ⟨(Function.update_of_ne hother ..).trans h.waits,
      (Function.update_of_ne hother ..).trans h.printed, herase _⟩
  | receives other payload hserver hmem =>
    have hother : other ≠ client := hnetwork _ hmem
    refine ⟨h.waits, h.printed, fun datagram hmem' => ?_⟩
    rcases List.mem_append.mp hmem' with hmem' | hmem'
    · exact hnetwork datagram (List.mem_of_mem_erase hmem')
    · rw [answer_eq, Server.pending, List.mem_singleton] at hmem'
      rw [hmem']
      exact hother
  | replies other payload hserver =>
    refine ⟨h.waits, h.printed, fun datagram hmem => h.alone datagram ?_⟩
    rw [datagrams, hserver]
    simpa [datagrams, Server.pending] using hmem
  | loses datagram hmem => exact ⟨h.waits, h.printed, herase datagram⟩

/-- As long as the network delivers no datagram twice, each client prints the answers to its own
lines, in their order, and at most one datagram is on its way for it. If that one is lost, the
client waits for ever. -/
theorem udp_echo (hfits : ∀ client, ∀ line ∈ lines client, Fits line)
    (h : Reaches (step false) (init fun client => joined newline (lines client)) s) :
    (∀ fault, s.server ≠ .faulted fault ∧ ∀ client, s.clients client ≠ .faulted fault) ∧
      ∀ client, (∃ done, done <+: lines client ∧ s.printed client = done.map shown) ∧
        (s.own client).length ≤ 1 ∧
        (s.clients client = .recvfrom → s.own client = [] → ∀ later, Reaches (step false) s later →
          later.clients client = .recvfrom ∧ later.printed client = s.printed client) := by
  have hinv := inv_of_reaches hfits h
  refine ⟨fun fault => ⟨hinv.server fault, fun client hfault => ?_⟩, fun client => ⟨?_, ?_, ?_⟩⟩
  · cases hinv.follows client with
    | between done rest hphase => rcases hphase with hphase | hphase <;> cases hphase.symm.trans hfault
    | waiting done line rest hphase => cases hphase.symm.trans hfault
  · cases hinv.follows client with
    | between done rest _ hlines _ hdone => exact ⟨done, hlines ▸ List.prefix_append .., hdone⟩
    | waiting done line rest _ hlines _ hdone => exact ⟨done, hlines ▸ List.prefix_append .., hdone⟩
  · cases hinv.follows client with
    | between done rest _ _ _ _ hempty => simp [hempty]
    | waiting done line rest _ _ _ _ hone => rcases hone with hone | hone | hone <;> simp [hone]
  · intro hwaits hempty later hlater
    have hstranded : Stranded client (s.printed client) s := by
      refine ⟨hwaits, rfl, fun datagram hmem => ?_⟩
      simpa using List.filter_eq_nil_iff.mp hempty datagram hmem
    have hlater' := hlater.invariant (Stranded client (s.printed client)) hstranded
      fun _ _ _ hs hstep => hs.step hstep
    exact ⟨hlater'.waits, hlater'.printed⟩

/-- Two clients, of which the first has two lines. -/
def twoClients : Bool → List (List UInt8)
  | false => [[97], [98]]
  | true => [[99]]

theorem fits_twoClients : ∀ client, ∀ line ∈ twoClients client, Fits line := by
  intro client line hline
  cases client <;> simp only [twoClients, List.mem_cons, List.not_mem_nil, or_false] at hline
  · rcases hline with rfl | rfl <;> exact ⟨by decide, by decide, by decide⟩
  · subst hline
    exact ⟨by decide, by decide, by decide⟩

/-- The first client never gets over the loss of its line, the second is served. -/
theorem udp_echo_lost : ∃ s,
    [Action.clientSend false, .clientSend true, .serverReceive true [99, 0], .serverSend,
      .lose (.request false [97, 0]), .clientReceive true (literal "Hi, c")].foldlM (step false)
        (init fun client => joined newline (twoClients client)) = some s ∧
      s.printed true = [literal "Hi, c"] ∧
      ∀ later, Reaches (step false) s later → later.printed false = [] := by
  have hany : ([Action.clientSend false, .clientSend true, .serverReceive true [99, 0], .serverSend,
      .lose (.request false [97, 0]), .clientReceive true (literal "Hi, c")].foldlM (step false)
        (init fun client => joined newline (twoClients client))).any
          (fun s => s.printed true = [literal "Hi, c"] ∧ s.printed false = [] ∧
            s.clients false = .recvfrom ∧ s.own false = []) = true := by
    decide +kernel
  obtain ⟨s, hrun, hs⟩ := (Option.any_eq_true ..).mp hany
  obtain ⟨hserved, hnone, hwaits, hempty⟩ := of_decide_eq_true hs
  refine ⟨s, hrun, hserved, fun later hlater => ?_⟩
  obtain ⟨-, -, hforever⟩ := (udp_echo fits_twoClients (.of_foldlM hrun)).2 false
  exact (hforever hwaits hempty later hlater).2.trans hnone

/-- With a datagram that arrives twice, the answer to the first line is taken for that to the
second. -/
example : ([Action.clientSend false, .duplicate (.request false [97, 0]),
    .serverReceive false [97, 0], .serverSend, .clientReceive false (literal "Hi, a"),
    .serverReceive false [97, 0], .serverSend, .clientSend false,
    .clientReceive false (literal "Hi, a")].foldlM (step true)
      (init fun client => joined newline (twoClients client))).any
        (fun s => s.printed false = [literal "Hi, a", literal "Hi, a"]) = true := by
  decide +kernel

end Exchange

end OsProgramming.Servers.UdpEcho
