import OsProgramming.Library.Runs
import OsProgramming.Library.Text
import Mathlib.Data.List.Forall2

/-! `sysv_msg_sender.c` and `sysv_msg_receiver.c`. The sender cuts its input into the lines
that `fgets` reads, and removes the queue when it is through; the receiver prints what is in
its buffer, of which a message may be only the beginning. -/

namespace OsProgramming.Ipc

open Library

def msgLength : ℕ := 1024

def newline : UInt8 := 10

/-- The next statement of the sender. -/
inductive Sender where
  | fgets
  | msgsnd (bytes : List UInt8)
  /-- `msgctl` with `IPC_RMID` -/
  | remove
  | exited
  | faulted (fault : Fault)
  deriving DecidableEq

inductive Receiver where
  | msgrcv
  | exited
  | faulted (fault : Fault)

/-- `queue` is gone once it is removed. The two contents are the buffers of the processes. -/
structure MessageQueue where
  input : List UInt8
  sender : Sender
  sent : List UInt8
  queue : Option (List (List UInt8))
  receiver : Receiver
  received : List UInt8
  printed : List (List UInt8)

inductive MessageAction where
  | fgets
  /-- `msgsnd` succeeds where there is room, or is refused -/
  | msgsnd (succeeds : Bool)
  | remove
  | msgrcv
  deriving DecidableEq

namespace MessageQueue

def init (input : List UInt8) : MessageQueue where
  input := input
  sender := .fgets
  sent := List.replicate msgLength 0
  queue := some []
  receiver := .msgrcv
  received := List.replicate msgLength 0
  printed := []

/-- What the sender does with a chunk that `fgets` has read: its buffer, and the bytes of the
message, unless it leaves the loop. -/
def prepare (content chunk : List UInt8) : Result (List UInt8 × Option (List UInt8)) := do
  let content ← store content 0 (chunk ++ [0])
  let length := (cString 0 content).length
  if length = 1 then .ok (content, none)
  else do
    let last ← load content ((length : ℤ) - 1)
    let content ← (if last = newline then store content ((length : ℤ) - 1) [0] else .ok content)
    let bytes ← fetch content 0 length
    .ok (content, some bytes)

/-- What the receiver does with a message: its buffer, and what it prints unless it leaves the
loop. -/
def display (content bytes : List UInt8) : Result (List UInt8 × Option (List UInt8)) := do
  let content ← store content 0 bytes
  if bytes.length = 0 then .ok (content, none)
  else if 0 ∈ content then .ok (content, some (cString 0 content))
  else .error .outOfBounds

/-- `capacity` is what the queue may hold, in bytes. -/
def step (capacity : ℕ) (s : MessageQueue) : MessageAction → Option MessageQueue
  | .fgets =>
    match s.sender with
    | .fgets =>
      if s.input = [] then some { s with sender := .remove }
      else
        let (chunk, input) := fgets newline (msgLength - 1) s.input
        match prepare s.sent chunk with
        | .error fault => some { s with sender := .faulted fault }
        | .ok (content, none) => some { s with input := input, sent := content, sender := .remove }
        | .ok (content, some bytes) =>
          some { s with input := input, sent := content, sender := .msgsnd bytes }
    | _ => none
  | .msgsnd succeeds =>
    match s.sender, s.queue with
    | .msgsnd bytes, some queue =>
      if succeeds then
        if queue.flatten.length + bytes.length ≤ capacity then
          some { s with queue := some (queue ++ [bytes]), sender := .fgets }
        else none
      else some { s with sender := .fgets }
    | _, _ => none
  | .remove =>
    match s.sender with
    | .remove => some { s with queue := none, sender := .exited }
    | _ => none
  | .msgrcv =>
    match s.receiver, s.queue with
    | .msgrcv, some (bytes :: queue) =>
      match display s.received bytes with
      | .error fault => some { s with queue := some queue, receiver := .faulted fault }
      | .ok (content, none) =>
        some { s with queue := some queue, received := content, receiver := .exited }
      | .ok (content, some text) =>
        some { s with queue := some queue, received := content, printed := s.printed ++ [text] }
    | .msgrcv, none => some { s with receiver := .exited }
    | _, _ => none

/-! ### What becomes of the lines -/

/-- What the sender has still to send where the rest of a line is `line`. A line ends the
session if nothing of it is left behind its last whole piece. -/
def textsFrom (line : List UInt8) (texts : List (List UInt8)) : List (List UInt8) :=
  pieces (msgLength - 1) line ++ if (msgLength - 1) ∣ line.length then [] else texts

def sentTexts : List (List UInt8) → List (List UInt8)
  | [] => []
  | line :: lines => textsFrom line (sentTexts lines)

/-- No `NUL`, and no end of a line. -/
def Plain (text : List UInt8) : Prop := 0 ∉ text ∧ newline ∉ text

/-- The message from which a text is printed. -/
structure Carries (bytes text : List UInt8) : Prop where
  nonempty : text ≠ []
  plain : 0 ∉ text
  bytes_eq : (bytes = text ++ [0] ∧ text.length < msgLength - 1) ∨
    (bytes = text ∧ text.length = msgLength - 1)

variable {content bytes text line chunk : List UInt8} {lines texts : List (List UInt8)}

/-- What `fgets` leaves in the buffer. -/
theorem store_chunk (chunk : List UInt8) (hcontent : content.length = msgLength) (hchunk : chunk.length < msgLength) :
    ∃ rest, store content 0 (chunk ++ [0]) = .ok (chunk ++ 0 :: rest) ∧
      (chunk ++ 0 :: rest).length = msgLength := by
  have hfit : (chunk ++ [0]).length ≤ content.length := by
    rw [hcontent, List.length_append, List.length_singleton]
    omega
  have hstore := store_start hfit
  rw [List.append_assoc, List.singleton_append] at hstore
  refine ⟨_, hstore, ?_⟩
  have hlength := length_store hstore
  rwa [hcontent] at hlength

theorem prepare_end (hcontent : content.length = msgLength) :
    ∃ content', prepare content [newline] = .ok (content', none) ∧ content'.length = msgLength := by
  obtain ⟨rest, hstore, hlength⟩ := store_chunk [newline] hcontent (by decide)
  refine ⟨_, ?_, hlength⟩
  rw [prepare, hstore, ok_bind, cString_append (by decide)]
  rfl

theorem fetch_chunk (chunk rest : List UInt8) :
    fetch (chunk ++ rest) 0 chunk.length = .ok chunk := by
  have hfetch : fetch (chunk ++ rest) (0 : ℕ) chunk.length = .ok _ :=
    fetch_natCast (chunk ++ rest) (by simp)
  rwa [List.drop_zero, List.take_left, Nat.cast_zero] at hfetch

/-- The last symbol of a chunk becomes a `NUL` if it is the end of a line. -/
theorem prepare_eq (body : List UInt8) (c : UInt8) (hcontent : content.length = msgLength)
    (hplain : 0 ∉ body ++ [c]) (hbody : body ≠ []) (hfit : (body ++ [c]).length < msgLength) :
    ∃ content', prepare content (body ++ [c]) =
        .ok (content', some (body ++ [if c = newline then 0 else c])) ∧
      content'.length = msgLength := by
  obtain ⟨rest, hstore, hlength⟩ := store_chunk (body ++ [c]) hcontent hfit
  have hlen : (body ++ [c]).length = body.length + 1 := by simp
  have hone : body.length + 1 ≠ 1 := by simpa using hbody
  have hindex : ((body.length + 1 : ℕ) : ℤ) - 1 = (body.length : ℕ) := by push_cast; omega
  have hlt : body.length < (body ++ [c] ++ 0 :: rest).length := by simp
  have hload : load (body ++ [c] ++ 0 :: rest) body.length = .ok c := by
    rw [load_natCast _ hlt]
    simp
  rw [prepare, hstore, ok_bind, cString_append hplain, hlen, if_neg hone, hindex, hload, ok_bind]
  split_ifs with hc
  · have hset : (body ++ [c] ++ 0 :: rest).set body.length 0 = body ++ [0] ++ 0 :: rest := by simp
    have hfetch := fetch_chunk (body ++ [0]) (0 :: rest)
    rw [List.length_append, List.length_singleton] at hfetch
    rw [store_one _ hlt, hset, ok_bind, hfetch, ok_bind]
    refine ⟨_, rfl, ?_⟩
    rw [← hset, List.length_set, hlength]
  · have hfetch := fetch_chunk (body ++ [c]) (0 :: rest)
    rw [List.length_append, List.length_singleton] at hfetch
    rw [ok_bind, hfetch, ok_bind]
    exact ⟨_, rfl, hlength⟩

theorem prepare_line (hcontent : content.length = msgLength) (hline : Plain line)
    (hne : line ≠ []) (hshort : line.length < msgLength - 1) :
    ∃ content', prepare content (line ++ [newline]) = .ok (content', some (line ++ [0])) ∧
      content'.length = msgLength := by
  apply prepare_eq line newline hcontent ?_ hne ?_
  · simp [hline.1, newline]
  · rw [List.length_append, List.length_singleton]
    omega

theorem prepare_piece (hcontent : content.length = msgLength) (htext : Plain text)
    (hlong : text.length = msgLength - 1) :
    ∃ content', prepare content text = .ok (content', some text) ∧ content'.length = msgLength := by
  have hne : text ≠ [] := by
    rintro rfl
    cases hlong
  have hsplit := List.dropLast_concat_getLast hne
  have hlast : text.getLast hne ≠ newline := fun heq => htext.2 (heq ▸ List.getLast_mem hne)
  have hbody : text.dropLast ≠ [] := by
    rw [ne_eq, ← List.length_eq_zero_iff, List.length_dropLast, hlong]
    decide
  have hprepare := prepare_eq text.dropLast (text.getLast hne) hcontent
    (by rw [hsplit]; exact htext.1) hbody (by rw [hsplit, hlong]; decide)
  rwa [hsplit, if_neg hlast, hsplit] at hprepare

theorem display_carries (hcontent : content.length = msgLength)
    (hlast : content[msgLength - 1]? = some 0) (h : Carries bytes text) :
    ∃ content', display content bytes = .ok (content', some text) ∧ content'.length = msgLength ∧
      content'[msgLength - 1]? = some 0 := by
  have hpos := List.length_pos_iff.mpr h.nonempty
  have hle : bytes.length ≤ msgLength - 1 ∧ bytes.length ≠ 0 := by
    rcases h.bytes_eq with ⟨rfl, hlen⟩ | ⟨rfl, hlen⟩
    · rw [List.length_append, List.length_singleton]
      omega
    · omega
  have hstore : store content 0 bytes = .ok _ := store_start (by rw [hcontent]; omega)
  have hlength := length_store hstore
  have hkept : (bytes ++ content.drop bytes.length)[msgLength - 1]? = some 0 := by
    rw [List.getElem?_append_right hle.1, List.getElem?_drop, Nat.add_sub_cancel' hle.1, hlast]
  have hstring : cString 0 (bytes ++ content.drop bytes.length) = text := by
    rcases h.bytes_eq with ⟨rfl, hlen⟩ | ⟨rfl, hlen⟩
    · rw [List.append_assoc, List.singleton_append, cString_append h.plain]
    · obtain ⟨hlt, hzero⟩ := List.getElem?_eq_some_iff.mp hlast
      rw [hlen, List.drop_eq_getElem_cons hlt, hzero, cString_append h.plain]
  rw [display, hstore, ok_bind, if_neg hle.2, if_pos (List.mem_of_getElem? hkept), hstring]
  exact ⟨_, rfl, hlength.trans hcontent, hkept⟩

theorem textsFrom_nil (texts : List (List UInt8)) : textsFrom [] texts = [] := by
  simp [textsFrom]

theorem textsFrom_short (hne : line ≠ []) (hshort : line.length < msgLength - 1) :
    textsFrom line texts = line :: texts := by
  have hpos := List.length_pos_iff.mpr hne
  rw [textsFrom, pieces_of_le hne hshort.le, if_neg (Nat.not_dvd_of_pos_of_lt hpos hshort),
    List.singleton_append]

theorem textsFrom_long (hlong : msgLength - 1 ≤ line.length) :
    textsFrom line texts =
      line.take (msgLength - 1) :: textsFrom (line.drop (msgLength - 1)) texts := by
  have hne : line ≠ [] := by
    rintro rfl
    exact absurd hlong (by decide)
  have hdvd : (msgLength - 1) ∣ line.length - (msgLength - 1) ↔ (msgLength - 1) ∣ line.length := by
    rw [Nat.dvd_sub_iff_left hlong (dvd_refl _)]
  rw [textsFrom, pieces_cons hne (by decide), textsFrom, List.length_drop, List.cons_append]
  simp only [hdvd]

/-! ### The queue as a channel -/

/-- The texts that have been printed, those in the queue, and those that are still to be sent. -/
structure Flow where
  delivered : List (List UInt8)
  waiting : List (List UInt8)
  unsent : List (List UInt8)
  removed : Bool

def Flow.all (f : Flow) : List (List UInt8) := f.delivered ++ f.waiting ++ f.unsent

/-- What an action does to a channel that keeps the order. -/
inductive Flow.Moves : MessageAction → Flow → Flow → Prop where
  | fgets (f : Flow) : Moves .fgets f f
  | send (d w u : List (List UInt8)) (text : List UInt8) :
    Moves (.msgsnd true) ⟨d, w, text :: u, false⟩ ⟨d, w ++ [text], u, false⟩
  | refuse (d w u : List (List UInt8)) (text : List UInt8) :
    Moves (.msgsnd false) ⟨d, w, text :: u, false⟩ ⟨d, w, u, false⟩
  | remove (d w : List (List UInt8)) : Moves .remove ⟨d, w, [], false⟩ ⟨d, [], [], true⟩
  | deliver (d w u : List (List UInt8)) (text : List UInt8) :
    Moves .msgrcv ⟨d, text :: w, u, false⟩ ⟨d ++ [text], w, u, false⟩
  | stop (d : List (List UInt8)) : Moves .msgrcv ⟨d, [], [], true⟩ ⟨d, [], [], true⟩

/-- What a sender with this input has still to send. -/
inductive Pending : Sender → List UInt8 → List (List UInt8) → Prop where
  | lines {line : List UInt8} {lines : List (List UInt8)} : Plain line → (∀ line ∈ lines, Plain line) →
    Pending .fgets (line ++ newline :: joined newline lines) (textsFrom line (sentTexts lines))
  | through : Pending .fgets [] []
  | message {bytes text input : List UInt8} {texts : List (List UInt8)} :
    Carries bytes text → Pending .fgets input texts → Pending (.msgsnd bytes) input (text :: texts)
  | remove (input : List UInt8) : Pending .remove input []
  | exited (input : List UInt8) : Pending .exited input []

/-- The queue that carries the texts. -/
def Queued (queue : Option (List (List UInt8))) (f : Flow) : Prop :=
  match queue with
  | some queue => List.Forall₂ Carries queue f.waiting ∧ f.removed = false
  | none => f.waiting = [] ∧ f.unsent = [] ∧ f.removed = true

structure Refines (s : MessageQueue) (f : Flow) : Prop where
  sender : Pending s.sender s.input f.unsent
  sent : s.sent.length = msgLength
  queue : Queued s.queue f
  removed : s.queue = none → s.sender = .exited
  receiver : s.receiver = .msgrcv ∨ s.receiver = .exited
  received : s.received.length = msgLength ∧ s.received[msgLength - 1]? = some 0
  printed : s.printed = f.delivered

variable {s s' : MessageQueue} {f f' : Flow} {input : List UInt8} {action : MessageAction}
  {capacity : ℕ}

theorem pending_joined (hlines : ∀ line ∈ lines, Plain line) :
    Pending .fgets (joined newline lines) (sentTexts lines) := by
  cases lines with
  | nil => exact .through
  | cons line lines =>
    obtain ⟨hline, hlines⟩ := List.forall_mem_cons.mp hlines
    rw [joined_cons]
    exact .lines hline hlines

/-- The next chunk of a sender that has something to read. -/
theorem Pending.fgets (h : Pending .fgets input texts) (hne : input ≠ [])
    (hcontent : content.length = msgLength) :
    ∃ content', content'.length = msgLength ∧
      ((prepare content (Library.fgets newline (msgLength - 1) input).1 = .ok (content', none) ∧ texts = []) ∨
      ∃ bytes, prepare content (Library.fgets newline (msgLength - 1) input).1 = .ok (content', some bytes) ∧
        Pending (.msgsnd bytes) (Library.fgets newline (msgLength - 1) input).2 texts) := by
  cases h with
  | through => exact absurd rfl hne
  | @lines line lines hline hlines =>
    rcases lt_or_ge line.length (msgLength - 1) with hshort | hlong
    · rw [fgets_line hline.2 hshort]
      by_cases hempty : line = []
      · subst hempty
        obtain ⟨content', hprepare, hlength⟩ := prepare_end hcontent
        exact ⟨content', hlength, .inl ⟨hprepare, textsFrom_nil _⟩⟩
      · obtain ⟨content', hprepare, hlength⟩ := prepare_line hcontent hline hempty hshort
        refine ⟨content', hlength, .inr ⟨_, hprepare, ?_⟩⟩
        rw [textsFrom_short hempty hshort]
        exact .message ⟨hempty, hline.1, .inl ⟨rfl, hshort⟩⟩ (pending_joined hlines)
    · have hplain : ∀ part : List UInt8, part ⊆ line → Plain part :=
        fun part hpart => ⟨fun h => hline.1 (hpart h), fun h => hline.2 (hpart h)⟩
      have hlength : (line.take (msgLength - 1)).length = msgLength - 1 := by
        rw [List.length_take, min_eq_left hlong]
      have hpiece := hplain _ (List.take_subset (msgLength - 1) line)
      obtain ⟨content', hprepare, hlength'⟩ := prepare_piece hcontent hpiece hlength
      rw [fgets_piece hline.2 hlong, textsFrom_long hlong]
      refine ⟨content', hlength', .inr ⟨_, hprepare, ?_⟩⟩
      apply Pending.message ⟨?_, hpiece.1, .inr ⟨rfl, hlength⟩⟩
      · exact .lines (hplain _ (List.drop_subset ..)) hlines
      · intro hempty
        rw [hempty] at hlength
        cases hlength

theorem Pending.through_eq (h : Pending .fgets [] texts) : texts = [] := by
  generalize hinput : ([] : List UInt8) = input at h
  cases h with
  | lines => exact absurd hinput.symm (by simp)
  | through => rfl

theorem Refines.step (h : Refines s f) (hstep : step capacity s action = some s') :
    ∃ f', Flow.Moves action f f' ∧ Refines s' f' := by
  obtain ⟨hsender, hsent, hqueue, hremoved, hreceiver, hreceived, hprinted⟩ := h
  obtain ⟨delivered, waiting, unsent, removed⟩ := f
  cases action with
  | fgets =>
    simp only [MessageQueue.step] at hstep
    split at hstep <;> try cases hstep
    next hfgets =>
      rw [hfgets] at hsender hremoved
      have hopen : ∀ sender, s.queue = none → sender = Sender.exited :=
        fun _ hgone => by cases hremoved hgone
      refine ⟨_, .fgets _, ?_⟩
      split_ifs at hstep with hinput
      · cases hstep
        rw [hinput] at hsender
        obtain rfl := hsender.through_eq
        exact ⟨.remove _, hsent, hqueue, hopen _, hreceiver, hreceived, hprinted⟩
      · obtain ⟨content', hlength, ⟨hprepare, hnone⟩ | ⟨bytes, hprepare, hpending⟩⟩ :=
          hsender.fgets hinput hsent
        · simp only [hprepare] at hstep
          cases hstep
          exact ⟨hnone ▸ .remove _, hlength, hqueue, hopen _, hreceiver, hreceived, hprinted⟩
        · simp only [hprepare] at hstep
          cases hstep
          exact ⟨hpending, hlength, hqueue, hopen _, hreceiver, hreceived, hprinted⟩
  | msgsnd succeeds =>
    simp only [MessageQueue.step] at hstep
    split at hstep <;> try cases hstep
    next bytes queue hmessage hsome =>
      rw [hmessage] at hsender
      rw [hsome] at hqueue
      obtain ⟨hcarried, hkept⟩ := hqueue
      cases hsender with
      | message hcarries hrest =>
        cases hkept
        cases succeeds
        · cases hstep
          have hopen : s.queue ≠ none := by simp [hsome]
          refine ⟨_, .refuse .., hrest, hsent, ?_, fun hgone => absurd hgone hopen, hreceiver,
            hreceived, hprinted⟩
          rw [hsome]
          exact ⟨hcarried, rfl⟩
        · simp only [if_true] at hstep
          split_ifs at hstep
          cases hstep
          refine ⟨_, .send .., hrest, hsent, ⟨?_, rfl⟩, nofun, hreceiver, hreceived, hprinted⟩
          exact List.rel_append hcarried (.cons hcarries .nil)
  | remove =>
    simp only [MessageQueue.step] at hstep
    split at hstep <;> cases hstep
    next hremove =>
      rw [hremove] at hsender hremoved
      cases hsender
      cases hqueue' : s.queue with
      | none => cases hremoved hqueue'
      | some queue =>
        rw [hqueue'] at hqueue
        cases hqueue.2
        exact ⟨_, .remove .., .exited _, hsent, ⟨rfl, rfl, rfl⟩, fun _ => rfl, hreceiver, hreceived, hprinted⟩
  | msgrcv =>
    simp only [MessageQueue.step] at hstep
    split at hstep <;> try cases hstep
    next bytes queue hmsgrcv hsome =>
      rw [hsome] at hqueue
      obtain ⟨hcarried, hkept⟩ := hqueue
      cases hkept
      cases hcarried with
      | cons hcarries hrest =>
        obtain ⟨content', hdisplay, hlength, hlast⟩ := display_carries hreceived.1 hreceived.2 hcarries
        simp only [hdisplay] at hstep
        cases hstep
        refine ⟨_, .deliver .., hsender, hsent, ⟨hrest, rfl⟩, nofun, hreceiver, ⟨hlength, hlast⟩, ?_⟩
        rw [hprinted]
    next hmsgrcv hnone =>
      rw [hnone] at hqueue
      obtain ⟨hwaiting, hunsent, hgone⟩ := hqueue
      cases hwaiting
      cases hunsent
      cases hgone
      exact ⟨_, .stop .., hsender, hsent, by rw [hnone]; exact ⟨rfl, rfl, rfl⟩, hremoved, .inr rfl, hreceived, hprinted⟩

/-! ### Runs -/

/-- Nothing is lost before the queue is removed. -/
def Lossless (all : List (List UInt8)) (f : Flow) : Prop :=
  (f.removed = false → f.all = all) ∧ (f.removed = true → f.waiting = [] ∧ f.unsent = []) ∧
    f.delivered <+: all

theorem Flow.Moves.sublist (h : Flow.Moves action f f') : f'.all.Sublist f.all := by
  cases h with
  | fgets | stop => exact .refl _
  | send d w u text | deliver d w u text => simp [Flow.all]
  | refuse d w u text => simp [Flow.all]
  | remove d w => simp [Flow.all]

theorem Flow.Moves.lossless (h : Flow.Moves action f f') (hsent : action ≠ .msgsnd false)
    (hall : Lossless texts f) : Lossless texts f' := by
  obtain ⟨hkept, hgone, hprefix⟩ := hall
  cases h with
  | fgets => exact ⟨hkept, hgone, hprefix⟩
  | stop => exact ⟨hkept, hgone, hprefix⟩
  | send d w u text =>
    refine ⟨fun _ => ?_, nofun, hprefix⟩
    rw [← hkept rfl]
    simp [Flow.all]
  | refuse => exact absurd rfl hsent
  | remove d w => exact ⟨nofun, fun _ => ⟨rfl, rfl⟩, hprefix⟩
  | deliver d w u text =>
    refine ⟨fun _ => ?_, nofun, ?_⟩
    · rw [← hkept rfl]
      simp [Flow.all]
    · rw [← hkept rfl]
      exact ⟨w ++ u, by simp [Flow.all]⟩

theorem refines_init (hlines : ∀ line ∈ lines, Plain line) :
    Refines (init (joined newline lines)) ⟨[], [], sentTexts lines, false⟩ where
  sender := pending_joined hlines
  sent := List.length_replicate
  queue := ⟨.nil, rfl⟩
  removed := nofun
  receiver := .inl rfl
  received := ⟨List.length_replicate, List.getElem?_replicate_of_lt (by decide)⟩
  printed := rfl

theorem Refines.run {actions : List MessageAction} (h : Refines s f) (hlost : f.all.Sublist texts)
    (hpath : actions.foldlM (MessageQueue.step capacity) s = some s') :
    ∃ f', Refines s' f' ∧ f'.all.Sublist texts ∧
      ((∀ action ∈ actions, action ≠ .msgsnd false) → Lossless texts f → Lossless texts f') := by
  induction actions generalizing s f with
  | nil =>
    cases hpath
    exact ⟨f, h, hlost, fun _ => id⟩
  | cons action actions ih =>
    rw [List.foldlM_cons, Option.bind_eq_bind, Option.bind_eq_some_iff] at hpath
    obtain ⟨s₁, hstep, hrest⟩ := hpath
    obtain ⟨f₁, hmoves, h₁⟩ := h.step hstep
    obtain ⟨f', h', hlost', hlossless⟩ := ih h₁ (hmoves.sublist.trans hlost) hrest
    refine ⟨f', h', hlost', fun hsent hall => ?_⟩
    obtain ⟨haction, hactions⟩ := List.forall_mem_cons.mp hsent
    exact hlossless hactions (hmoves.lossless haction hall)

end MessageQueue

end OsProgramming.Ipc
