import OsProgramming.Reactor.AfterClose
import Mathlib.Data.Set.Card

/-! Who closes the descriptors of the clients. `handle_connection_closed` takes the channel
out of its loop and tells the application, and neither of them closes the descriptor; the
error branch of `epoll_dispatch` closes it and tells nobody. -/

namespace OsProgramming.Reactor

open Library

/-- What a step does to the descriptors of the clients and to their connections. -/
inductive Outcome where
  | quiet
  /-- `accept` returns the descriptor -/
  | accepts (fd : ℤ)
  /-- `handle_connection_closed` -/
  | closes (id : ConnectionId)
  /-- the error branch of `epoll_dispatch` -/
  | drops (fd : ℤ)
  deriving DecidableEq

structure Descriptors where
  isOpen : ℤ → Bool
  clients : ℤ → Bool
  accepted : List ConnectionId
  closed : List ConnectionId

/-- The next connection to be created is `id`. -/
def Descriptors.after (d : Descriptors) (id : ConnectionId) : Outcome → Descriptors
  | .quiet => d
  | .accepts fd => { d with
      isOpen := Function.update d.isOpen fd true
      clients := Function.update d.clients fd true
      accepted := d.accepted ++ [id] }
  | .closes id => { d with closed := d.closed ++ [id] }
  | .drops fd => { d with
      isOpen := Function.update d.isOpen fd false
      clients := Function.update d.clients fd false }

namespace Descriptors

/-- A connection that was accepted and that `handle_connection_closed` has not run for. -/
def Live (d : Descriptors) (id : ConnectionId) : Prop := id ∈ d.accepted ∧ id ∉ d.closed

/-- The open descriptors of clients are those of the live connections. -/
def Conserved (d : Descriptors) (fd : ConnectionId → ℤ) : Prop :=
  ∀ x, d.clients x = true ↔ ∃ id, d.Live id ∧ fd id = x

/-- `accept` does not return a descriptor that is open. -/
def Admits (d : Descriptors) : Outcome → Prop
  | .accepts fd => d.isOpen fd = false
  | _ => True

/-- No connection of a client is closed, and no descriptor of one. -/
def Keeps (d : Descriptors) : Outcome → Prop
  | .closes id => id ∉ d.accepted
  | .drops fd => d.clients fd = false
  | _ => True

instance (d : Descriptors) : (outcome : Outcome) → Decidable (d.Admits outcome)
  | .accepts fd => inferInstanceAs (Decidable (d.isOpen fd = false))
  | .quiet => .isTrue trivial
  | .closes _ => .isTrue trivial
  | .drops _ => .isTrue trivial

instance (d : Descriptors) : (outcome : Outcome) → Decidable (d.Keeps outcome)
  | .closes id => inferInstanceAs (Decidable (id ∉ d.accepted))
  | .drops fd => inferInstanceAs (Decidable (d.clients fd = false))
  | .quiet => .isTrue trivial
  | .accepts _ => .isTrue trivial

/-- As long as no client's connection is closed, each has a descriptor of its own. -/
structure Inv (d : Descriptors) (fd : ConnectionId → ℤ) (created : ℕ) : Prop where
  conserved : d.Conserved fd
  unique : ∀ id ∈ d.accepted, ∀ id' ∈ d.accepted, fd id = fd id' → id = id'
  accepted_lt : ∀ id ∈ d.accepted, id < created
  closed_lt : ∀ id ∈ d.closed, id < created
  closed_foreign : ∀ id ∈ d.closed, id ∉ d.accepted
  clients_open : ∀ x, d.clients x = true → d.isOpen x = true

section

variable {d : Descriptors} {fd fd' : ConnectionId → ℤ} {created created' : ℕ} {id : ConnectionId}
  {outcome : Outcome} {x : ℤ}

theorem Inv.live (h : d.Inv fd created) (hid : id ∈ d.accepted) : d.Live id :=
  ⟨hid, fun hclosed => h.closed_foreign id hclosed hid⟩

/-- The connections keep their descriptors. -/
theorem Inv.grow (h : d.Inv fd created) (hle : created ≤ created')
    (hfd : ∀ id, id < created → fd' id = fd id) : d.Inv fd' created' := by
  refine ⟨?_, ?_, fun id hid => (h.accepted_lt id hid).trans_le hle,
    fun id hid => (h.closed_lt id hid).trans_le hle, h.closed_foreign, h.clients_open⟩
  · intro x
    rw [h.conserved x]
    refine exists_congr fun id => and_congr_right fun hlive => ?_
    rw [hfd id (h.accepted_lt id hlive.1)]
  · intro id hid id' hid' heq
    rw [hfd id (h.accepted_lt id hid), hfd id' (h.accepted_lt id' hid')] at heq
    exact h.unique id hid id' hid' heq

theorem Inv.accepts (h : d.Inv fd created) (hclosed : d.isOpen x = false)
    (hle : created < created') (hfd : ∀ id, id < created → fd' id = fd id)
    (hnew : fd' created = x) : (d.after created (.accepts x)).Inv fd' created' := by
  have hold := h.grow hle.le hfd
  have hfree : d.clients x = false := by
    by_contra htrue
    rw [h.clients_open x (by simpa using htrue)] at hclosed
    cases hclosed
  have hother : ∀ id ∈ d.accepted, fd' id ≠ x := by
    rintro id hid rfl
    rw [(hold.conserved (fd' id)).mpr ⟨id, hold.live hid, rfl⟩] at hfree
    cases hfree
  have hcreated : created ∉ d.closed := fun hmem => (h.closed_lt created hmem).false
  refine ⟨?_, ?_, ?_, hold.closed_lt, ?_, ?_⟩
  · intro y
    simp only [after, Live, List.mem_append, List.mem_singleton, Function.update_apply]
    by_cases hy : y = x
    · subst hy
      exact iff_of_true (if_pos rfl) ⟨created, ⟨.inr rfl, hcreated⟩, hnew⟩
    · rw [if_neg hy, hold.conserved y]
      constructor
      · rintro ⟨id, hlive, hid⟩
        exact ⟨id, ⟨.inl hlive.1, hlive.2⟩, hid⟩
      · rintro ⟨id, ⟨hid | rfl, hlive⟩, heq⟩
        · exact ⟨id, ⟨hid, hlive⟩, heq⟩
        · exact absurd (heq.symm.trans hnew) hy
  · intro id hid id' hid' heq
    rcases List.mem_append.mp hid with hid | hid <;>
      rcases List.mem_append.mp hid' with hid' | hid'
    · exact hold.unique id hid id' hid' heq
    · rw [List.mem_singleton.mp hid', hnew] at heq
      exact absurd heq (hother id hid)
    · rw [List.mem_singleton.mp hid, hnew] at heq
      exact absurd heq.symm (hother id' hid')
    · rw [List.mem_singleton.mp hid, List.mem_singleton.mp hid']
  · intro id hid
    rcases List.mem_append.mp hid with hid | hid
    · exact hold.accepted_lt id hid
    · rw [List.mem_singleton.mp hid]
      exact hle
  · intro id hid hmem
    rcases List.mem_append.mp hmem with hmem | hmem
    · exact h.closed_foreign id hid hmem
    · obtain rfl := List.mem_singleton.mp hmem
      exact hcreated hid
  · intro y
    simp only [after, Function.update_apply]
    split_ifs
    · exact fun _ => rfl
    · exact h.clients_open y

theorem Inv.closes (h : d.Inv fd created) (hid : id ∉ d.accepted) (hlt : id < created) :
    (d.after created (.closes id)).Inv fd created := by
  have hlive : ∀ id', (d.after created (.closes id)).Live id' ↔ d.Live id' := by
    intro id'
    simp only [after, Live, List.mem_append, List.mem_singleton]
    refine and_congr_right fun hmem => ?_
    rw [or_iff_left]
    rintro rfl
    exact hid hmem
  refine ⟨?_, h.unique, h.accepted_lt, ?_, ?_, h.clients_open⟩
  · intro x
    simp only [hlive]
    exact h.conserved x
  · intro id' hmem
    rcases List.mem_append.mp hmem with hmem | hmem
    · exact h.closed_lt id' hmem
    · rwa [List.mem_singleton.mp hmem]
  · intro id' hmem
    rcases List.mem_append.mp hmem with hmem | hmem
    · exact h.closed_foreign id' hmem
    · rwa [List.mem_singleton.mp hmem]

theorem Inv.drops (h : d.Inv fd created) (hx : d.clients x = false) :
    (d.after created (.drops x)).Inv fd created := by
  have hclients : Function.update d.clients x false = d.clients :=
    Function.update_eq_self_iff.mpr hx.symm
  refine ⟨?_, h.unique, h.accepted_lt, h.closed_lt, h.closed_foreign, ?_⟩
  · intro y
    simp only [after, hclients]
    exact h.conserved y
  · intro y hy
    simp only [after, hclients] at hy
    simp only [after, Function.update_apply]
    split_ifs with heq
    · rw [heq, hx] at hy
      cases hy
    · exact h.clients_open y hy

/-- What the step of the process knows of its outcome. -/
structure Grows (created created' : ℕ) (fd fd' : ConnectionId → ℤ) (outcome : Outcome) : Prop where
  le : created ≤ created'
  fd_eq : ∀ id, id < created → fd' id = fd id
  accepts : ∀ x, outcome = .accepts x → created < created' ∧ fd' created = x
  closes : ∀ id, outcome = .closes id → id < created

theorem Inv.after (h : d.Inv fd created) (hgrows : Grows created created' fd fd' outcome)
    (hadmits : d.Admits outcome) (hkeeps : d.Keeps outcome) :
    (d.after created outcome).Inv fd' created' := by
  cases outcome with
  | quiet => exact h.grow hgrows.le hgrows.fd_eq
  | accepts x =>
    obtain ⟨hlt, hnew⟩ := hgrows.accepts x rfl
    exact h.accepts hadmits hlt hgrows.fd_eq hnew
  | closes id => exact (h.closes hkeeps (hgrows.closes id rfl)).grow hgrows.le hgrows.fd_eq
  | drops x => exact (h.drops hkeeps).grow hgrows.le hgrows.fd_eq

/-- A connection of a client that is closed leaves its descriptor open, and a descriptor
that is closed leaves its connection. -/
theorem Inv.not_conserved (h : d.Inv fd created) (hgrows : Grows created created' fd fd' outcome)
    (hkeeps : ¬ d.Keeps outcome) : ¬ (d.after created outcome).Conserved fd' := by
  have hold := h.grow hgrows.le hgrows.fd_eq
  intro hconserved
  cases outcome with
  | quiet => exact hkeeps trivial
  | accepts x => exact hkeeps trivial
  | closes id =>
    have hid : id ∈ d.accepted := not_not.mp hkeeps
    obtain ⟨id', ⟨hid', hlive⟩, heq⟩ := (hconserved (fd' id)).mp
      ((hold.conserved (fd' id)).mpr ⟨id, hold.live hid, rfl⟩)
    obtain rfl := hold.unique id' hid' id hid heq
    exact hlive (List.mem_append_right d.closed (List.mem_singleton_self _))
  | drops x =>
    have hx : d.clients x = true := by simpa [Keeps] using hkeeps
    obtain ⟨id, hlive, heq⟩ := (hold.conserved x).mp hx
    have hclients := (hconserved x).mpr ⟨id, hlive, heq⟩
    simp [Descriptors.after] at hclients

end

end Descriptors

namespace View

variable {t : LoopId} {v v' : View}

/-- Connections are only created, and keep their descriptors. -/
theorem Moves.kept (h : Moves t v v') :
    v.created ≤ v'.created ∧ ∀ id, id < v.created → v'.fd id = v.fd id := by
  cases h with
  | connects =>
    refine ⟨Nat.le_succ _, ?_⟩
    intro id hlt
    exact Function.update_of_ne hlt.ne _ _
  | _ => exact ⟨le_rfl, fun _ _ => rfl⟩

end View

namespace Process

variable {δ π ρ : Type} {S : Server δ π ρ} {s s' : Process δ π} {t : LoopId} {id : ConnectionId}
  {stage : ConnectionId → Stage} {work : List Instr} {a : Answers ρ} {fd : ℤ}

def descriptors (s : Process δ π) : Descriptors := ⟨s.isOpen, s.clients, s.accepted, s.closed⟩

variable (S) in
/-- The next entry of the pass that the thread is in. -/
def passOutcome (s : Process δ π) (t : LoopId) : Outcome :=
  match (s.threads t).pass with
  | none => .quiet
  | some pass =>
    match S.backend.next pass (s.threads t).loop.dispatcherData with
    | .ok (some (.close fd, _)) => .drops fd
    | _ => .quiet

/-- What the function that a handler calls is going to do. -/
def handlerOutcome (handler : Handler) (a : Answers ρ) : Outcome :=
  match handler with
  | .readable .acceptor => if 0 ≤ a.accept then .accepts a.accept else .quiet
  | .readable (.connection id) => if a.read.Ends then .closes id else .quiet
  | _ => .quiet

variable (S) in
/-- What the next step of the thread is going to do. -/
def outcome (s : Process δ π) (event : LoopId × Answers ρ) : Outcome :=
  let (t, a) := event
  match (s.threads t).work, (s.threads t).handler with
  | _ :: _, _ => .quiet
  | [], some handler => handlerOutcome handler a
  | [], none => s.passOutcome S t

/-- The open descriptors of clients are those of the connections that were accepted and that
`handle_connection_closed` has not run for. -/
def Conserved (s : Process δ π) : Prop :=
  s.descriptors.Conserved fun id => (s.connections id).channel.fd

def liveConnections (s : Process δ π) : List ConnectionId := s.accepted.filter (· ∉ s.closed)

/-- There are no more of the one than of the other. -/
theorem Conserved.encard_le (h : s.Conserved) :
    {fd | s.clients fd = true}.encard ≤ s.liveConnections.length := by
  have hsub : {fd | s.clients fd = true} ⊆
      ((s.liveConnections.map fun id => (s.connections id).channel.fd).toFinset : Set ℤ) := by
    intro fd hfd
    obtain ⟨id, ⟨haccepted, hclosed⟩, rfl⟩ := (h fd).mp hfd
    simp only [List.coe_toFinset, Set.mem_ofPred_eq, List.mem_map]
    exact ⟨id, List.mem_filter.mpr ⟨haccepted, decide_eq_true hclosed⟩, rfl⟩
  refine (Set.encard_le_encard hsub).trans ?_
  rw [Set.encard_coe_eq_coe_finsetCard]
  have hcard := List.toFinset_card_le (s.liveConnections.map fun id => (s.connections id).channel.fd)
  rw [List.length_map] at hcard
  exact_mod_cast hcard

/-! ### What a step does to the descriptors -/

theorem newConnection_descriptors {loop : LoopId} {callbacks : Callbacks} {instrs : List Instr}
    (hret : s.newConnection fd loop callbacks a = .ok (s', instrs)) :
    s'.descriptors = s.descriptors := by
  unfold newConnection at hret
  split at hret
  · cases hret
  · cases hret
    rfl

theorem apiCall_descriptors {call : ApiCall} {instrs : List Instr}
    (hret : s.apiCall S a call = .ok (s', instrs)) : s'.descriptors = s.descriptors := by
  rcases apiCall_cases hret with ⟨fd, loop, callbacks, hnew⟩ | ⟨id, connection, -, -, rfl, -⟩
  · exact newConnection_descriptors hnew
  · rfl

theorem perform_descriptors {instr : Instr} (hret : s.perform S t instr work a = .ok s') :
    s'.descriptors = s.descriptors := by
  cases instr with
  | call call =>
    obtain ⟨⟨s₁, instrs⟩, hcall, hret⟩ := bind_eq_ok.mp hret
    cases hret
    have hsame : s₁.descriptors = s.descriptors := apiCall_descriptors hcall
    exact hsame
  | onNewConnection id =>
    cases hret
    rfl
  | doChannelEvent loop op =>
    cases hret
    rw [doChannelEvent]
    split_ifs <;> rfl
  | handlePendingChannel =>
    unfold perform handlePendingChannel at hret
    dsimp only at hret
    split at hret
    · cases hret
      rfl
    split at hret
    · cases hret
      rfl
    · obtain ⟨loop, -, hret⟩ := bind_eq_ok.mp hret
      cases hret
      rfl

theorem handleRead_closes {c : TcpConnection} {answer : ReadAnswer} {space : Alloc Byte}
    {effect : Effect} (hread : handleRead c answer space = .ok effect) :
    effect.Closes ↔ answer.Ends := by
  have hcases := (handleRead_cases hread).2
  split_ifs at hcases with hends
  · refine iff_of_true ?_ hends
    rw [hcases]
    exact ⟨_, List.mem_singleton_self _, rfl⟩
  · refine iff_of_false ?_ hends
    rintro ⟨post, hmem, -⟩
    rw [hcases.1] at hmem
    cases hmem

theorem handleWrite_not_closes {cast : ChannelData → Result LoopId} {c : TcpConnection}
    {answer : WriteAnswer} {effect : Effect} (hwrite : handleWrite cast c answer = .ok effect) :
    ¬ effect.Closes := by
  rintro ⟨post, hmem, hop⟩
  rw [(handleWrite_cases hwrite).2.1 post hmem] at hop
  cases hop

theorem applyEffect_descriptors (s : Process δ π) (id : ConnectionId) (effect : Effect) :
    (s.applyEffect id effect).descriptors =
      s.descriptors.after s.created (if effect.Closes then .closes id else .quiet) := by
  unfold applyEffect
  split_ifs <;> rfl

theorem onChannelReadable_descriptors (h : s.Sound) (hinv : s.view.Inv stage) {channel : ChannelId}
    (hhandler : (s.threads t).handler = some (.readable channel))
    (hret : s.onChannelReadable S t channel a = .ok s') :
    s'.descriptors = s.descriptors.after s.created (handlerOutcome (.readable channel) a) := by
  rw [onChannelReadable] at hret
  cases channel with
  | wakeup =>
    cases hret
    rfl
  | acceptor =>
    obtain ⟨⟨s₁, instrs⟩, haccept, hret⟩ := bind_eq_ok.mp hret
    cases hret
    have hnew : s₁.descriptors = (s.accept a.accept).descriptors :=
      newConnection_descriptors haccept
    rw [handlerOutcome]
    refine Eq.trans hnew ?_
    unfold accept
    split_ifs <;> rfl
  | connection id =>
    obtain ⟨honread, -, hdata⟩ := h.channels id (hinv.lt_created hhandler rfl)
    rw [channels, honread, hdata] at hret
    obtain ⟨effect, hread, hret⟩ := bind_eq_ok.mp hret
    cases hret
    refine (applyEffect_descriptors s id effect).trans ?_
    rw [handlerOutcome]
    simp only [handleRead_closes hread]

theorem onChannelWriteable_descriptors (h : s.Sound) (hinv : s.view.Inv stage) {channel : ChannelId}
    (hhandler : (s.threads t).handler = some (.writeable channel))
    (hret : s.onChannelWriteable S t channel a = .ok s') : s'.descriptors = s.descriptors := by
  rw [onChannelWriteable] at hret
  cases channel with
  | wakeup =>
    cases hret
    rfl
  | acceptor =>
    cases hret
    rfl
  | connection id =>
    obtain ⟨-, honwrite, hdata⟩ := h.channels id (hinv.lt_created hhandler rfl)
    rw [channels, honwrite, hdata] at hret
    obtain ⟨effect, hwrite, hret⟩ := bind_eq_ok.mp hret
    cases hret
    refine (applyEffect_descriptors s id effect).trans ?_
    rw [if_neg (handleWrite_not_closes hwrite)]
    rfl

theorem run_descriptors (h : s.Sound) (hinv : s.view.Inv stage) {handler : Handler}
    (hhandler : (s.threads t).handler = some handler) (hret : s.run S t handler a = .ok s') :
    s'.descriptors = s.descriptors.after s.created (handlerOutcome handler a) := by
  cases handler with
  | readable channel => exact onChannelReadable_descriptors h hinv hhandler hret
  | writeable channel => exact onChannelWriteable_descriptors h hinv hhandler hret
  | invoke id callback =>
    cases hret
    rfl

theorem eventLoopRun_descriptors (hret : s.eventLoopRun S t a = .ok s') :
    s'.descriptors = s.descriptors.after s.created (s.passOutcome S t) := by
  unfold eventLoopRun at hret
  unfold passOutcome
  dsimp only at hret
  cases hpass : (s.threads t).pass with
  | none =>
    rw [hpass] at hret
    cases hret
    rfl
  | some pass =>
    rw [hpass] at hret
    obtain ⟨next, hnext, hret⟩ := bind_eq_ok.mp hret
    dsimp only
    rw [hnext]
    cases next with
    | none =>
      cases hret
      rfl
    | some next =>
      obtain ⟨report, pass'⟩ := next
      cases report with
      | active fd ready =>
        obtain ⟨handler, -, hret⟩ := bind_eq_ok.mp hret
        cases hret
        rfl
      | close fd =>
        cases hret
        rfl
      | nothing =>
        cases hret
        rfl

theorem step_descriptors (h : s.Sound) (hinv : s.view.Inv stage)
    (hret : s.step S (t, a) = .ok s') :
    s'.descriptors = s.descriptors.after s.created (s.outcome S (t, a)) := by
  unfold step at hret
  unfold outcome
  dsimp only at hret ⊢
  cases hwork : (s.threads t).work with
  | cons instr work =>
    rw [hwork] at hret
    exact perform_descriptors hret
  | nil =>
    rw [hwork] at hret
    cases hhandler : (s.threads t).handler with
    | some handler =>
      rw [hhandler] at hret
      exact run_descriptors h hinv hhandler hret
    | none =>
      rw [hhandler] at hret
      exact eventLoopRun_descriptors hret

/-! ### Runs -/

theorem passOutcome_cases (s : Process δ π) (t : LoopId) :
    s.passOutcome S t = .quiet ∨ ∃ fd, s.passOutcome S t = .drops fd := by
  unfold passOutcome
  split
  · exact .inl rfl
  split
  · exact .inr ⟨_, rfl⟩
  · exact .inl rfl

/-- The outcome is that of a handler, if it is not one of the pass. -/
theorem outcome_handler {outcome : Outcome} (h : s.outcome S (t, a) = outcome)
    (hquiet : outcome ≠ .quiet) (hdrops : ∀ fd, outcome ≠ .drops fd) :
    (s.threads t).work = [] ∧ ∃ handler, (s.threads t).handler = some handler ∧
      handlerOutcome handler a = outcome := by
  unfold Process.outcome at h
  dsimp only at h
  split at h
  · exact absurd h.symm hquiet
  · exact ⟨‹_›, _, ‹_›, h⟩
  · rcases passOutcome_cases (S := S) s t with heq | ⟨fd, heq⟩
    · exact absurd (h.symm.trans heq) hquiet
    · exact absurd (h.symm.trans heq) (hdrops fd)

theorem outcome_accepts (h : s.outcome S (t, a) = .accepts fd) :
    (s.threads t).work = [] ∧ (s.threads t).handler = some (.readable .acceptor) ∧
      fd = a.accept := by
  obtain ⟨hwork, handler, hhandler, houtcome⟩ := outcome_handler h nofun nofun
  refine ⟨hwork, ?_⟩
  unfold handlerOutcome at houtcome
  split at houtcome
  · split_ifs at houtcome
    cases houtcome
    exact ⟨hhandler, rfl⟩
  · split_ifs at houtcome
  · cases houtcome

theorem outcome_closes (h : s.outcome S (t, a) = .closes id) :
    (s.threads t).handler = some (.readable (.connection id)) := by
  obtain ⟨-, handler, hhandler, houtcome⟩ := outcome_handler h nofun nofun
  unfold handlerOutcome at houtcome
  split at houtcome
  · split_ifs at houtcome
  · split_ifs at houtcome
    cases houtcome
    exact hhandler
  · cases houtcome

theorem step_accepts (h : s.Sound) (hwork : (s.threads t).work = [])
    (hhandler : (s.threads t).handler = some (.readable .acceptor))
    (hret : s.step S (t, a) = .ok s') : s'.created = s.created + 1 ∧
      s'.view.fd = Function.update s.view.fd s.created a.accept := by
  unfold step at hret
  simp only [hwork, hhandler] at hret
  obtain ⟨⟨s₁, instrs⟩, haccept, hret⟩ := bind_eq_ok.mp hret
  cases hret
  obtain ⟨hview, -⟩ := handleConnectionEstablished_view h haccept
  exact ⟨congrArg View.created hview, congrArg View.fd hview⟩

theorem step_grows (h : s.Sound) (hinv : s.view.Inv stage) (hret : s.step S (t, a) = .ok s') :
    Descriptors.Grows s.created s'.created s.view.fd s'.view.fd (s.outcome S (t, a)) := by
  obtain ⟨hle, hfd⟩ := (step_moves h hinv hret).1.kept
  refine ⟨hle, hfd, ?_, ?_⟩
  · intro x hx
    obtain ⟨hwork, hhandler, rfl⟩ := outcome_accepts hx
    obtain ⟨hcreated, hnew⟩ := step_accepts h hwork hhandler hret
    rw [hcreated, hnew]
    exact ⟨Nat.lt_succ_self _, Function.update_self ..⟩
  · intro id hid
    exact hinv.lt_created (outcome_closes hid) rfl

/-- The state of a run in which no client's connection has been closed. -/
structure Accounted (s : Process δ π) : Prop where
  regular : s.Regular
  inv : s.descriptors.Inv s.view.fd s.created

variable (S) in
/-- `accept` does not return a descriptor that is open. -/
def Admits (s : Process δ π) (event : LoopId × Answers ρ) : Prop :=
  s.descriptors.Admits (s.outcome S event)

variable (S) in
/-- The step does not close the connection of a client, nor its descriptor. -/
def Keeps (s : Process δ π) (event : LoopId × Answers ρ) : Prop :=
  s.descriptors.Keeps (s.outcome S event)

instance (event : LoopId × Answers ρ) : Decidable (s.Admits S event) :=
  inferInstanceAs (Decidable (Descriptors.Admits _ _))

instance (event : LoopId × Answers ρ) : Decidable (s.Keeps S event) :=
  inferInstanceAs (Decidable (Descriptors.Keeps _ _))

theorem accounted_init (data : LoopId → δ) (connections : ConnectionId → TcpConnection)
    (isOpen : ℤ → Bool) : (init data connections isOpen : Process δ π).Accounted := by
  refine ⟨regular_init data connections isOpen, ⟨?_, nofun, nofun, nofun, nofun, nofun⟩⟩
  intro x
  refine iff_of_false nofun ?_
  rintro ⟨id, ⟨hid, -⟩, -⟩
  cases hid

theorem Accounted.step {event : LoopId × Answers ρ} (h : s.Accounted) (hadmits : s.Admits S event)
    (hkeeps : s.Keeps S event) (hret : s.step S event = .ok s') : s'.Accounted := by
  obtain ⟨t, a⟩ := event
  obtain ⟨hsound, stage, hinv⟩ := h.regular
  refine ⟨h.regular.step hret, ?_⟩
  rw [step_descriptors hsound hinv hret]
  exact h.inv.after (step_grows hsound hinv hret) hadmits hkeeps

theorem Accounted.conserved_iff {event : LoopId × Answers ρ} (h : s.Accounted)
    (hadmits : s.Admits S event) (hret : s.step S event = .ok s') :
    s'.Conserved ↔ s.Keeps S event := by
  constructor
  · intro hconserved
    by_contra hkeeps
    obtain ⟨t, a⟩ := event
    obtain ⟨hsound, stage, hinv⟩ := h.regular
    rw [Conserved, step_descriptors hsound hinv hret] at hconserved
    exact h.inv.not_conserved (step_grows hsound hinv hret) hkeeps hconserved
  · exact fun hkeeps => (h.step hadmits hkeeps hret).inv.conserved

/-- The client descriptors that are open are those of the live connections in every state of a
run if and only if no step closes the connection or the descriptor of a client. -/
theorem descriptors_conserved_iff (S : Server δ π ρ) (data : LoopId → δ)
    (connections : ConnectionId → TcpConnection) (isOpen : ℤ → Bool)
    {events : List (LoopId × Answers ρ)}
    (hadmits : Admissible (step S) (Admits S) (init data connections isOpen) events)
    (hrun : events.foldlM (step S) (init data connections isOpen) = .ok s) :
    EachStep (step S) (fun _ _ s' => s'.Conserved ∧
        {fd | s'.clients fd = true}.encard ≤ s'.liveConnections.length)
      (init data connections isOpen) events ↔
    Admissible (step S) (Keeps S) (init data connections isOpen) events := by
  refine eachStep_iff_of_admissible (fun _ _ _ hs hadmits hkeeps => hs.step hadmits hkeeps)
    (fun _ _ _ hs hadmits hret => ?_) (accounted_init data connections isOpen) hadmits hrun
  rw [← hs.conserved_iff hadmits hret, and_iff_left_of_imp Conserved.encard_le]

/-- A client is accepted for the descriptor 5, and ends its stream: the descriptor is reported, and
the read finds nothing. -/
def endedRun : List (LoopId × Answers (List EpollEvent)) :=
  acceptRun ++ (0, { resetAnswers [⟨epollIn, 5⟩] [] with read := .offered [] }) ::
    List.replicate 8 (0, { resetAnswers [] [] with read := .offered [] })

/-- After the pass the descriptor is still open, and no connection is left. -/
theorem descriptor_left_open :
    Admissible (step singleLoop) (Admits singleLoop) singleInit endedRun ∧
    ∃ s, endedRun.foldlM (step singleLoop) singleInit = .ok s ∧
      (s.threads 0).pass.isNone ∧ s.clients 5 = true ∧ s.liveConnections = [] ∧ ¬ s.Conserved := by
  have hrun : ∃ s, endedRun.foldlM (step singleLoop) singleInit = .ok s ∧
      (s.threads 0).pass.isNone ∧ s.clients 5 = true ∧ s.liveConnections = [] :=
    exists_ok_of_any (by decide +kernel)
  obtain ⟨s, hs, hpass, hclients, hlive⟩ := hrun
  refine ⟨by decide +kernel, s, hs, hpass, hclients, hlive, ?_⟩
  intro hconserved
  obtain ⟨id, ⟨haccepted, hclosed⟩, -⟩ := (hconserved 5).mp hclients
  have hmem : id ∈ s.liveConnections := List.mem_filter.mpr ⟨haccepted, decide_eq_true hclosed⟩
  rw [hlive] at hmem
  cases hmem

theorem descriptors_conserved_iff_accepted :
    EachStep (step singleLoop) (fun _ _ s' => s'.Conserved ∧
        {fd | s'.clients fd = true}.encard ≤ s'.liveConnections.length) singleInit acceptRun := by
  have hrun : ∃ s, acceptRun.foldlM (step singleLoop) singleInit = .ok s ∧ s.clients 5 = true :=
    exists_ok_of_any (by decide +kernel)
  obtain ⟨s, hs, -⟩ := hrun
  exact (descriptors_conserved_iff singleLoop (fun _ _ => none) (fun _ => noConnection)
    (fun fd => decide (fd = 3 ∨ fd = 4)) (by decide +kernel) hs).mpr (by decide +kernel)

end Process

end OsProgramming.Reactor
