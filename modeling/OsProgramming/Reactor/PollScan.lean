import OsProgramming.Reactor.PollPass
import OsProgramming.Reactor.Process
import OsProgramming.Reactor.StaleOperations

/-! A pass of `poll_dispatch` while callbacks change the slots. The pass is a machine
that takes one step for each slot and one for each call of `event_loop_active`; what the
callback of a call does is given to the step. -/

namespace OsProgramming.Reactor

open Library

variable {κ : Type}

/-- Beside the loop and the pass: the registrations that have been there since `poll`
returned, the slots that `poll_add` has filled since, the descriptors that the pass has
found in the slots, and what it has called for each. -/
structure PollScan (κ : Type) where
  run : PollRun κ
  pass : PollPass
  kept : ℤ → Bool
  filled : ℕ → Bool
  found : ℕ → Option ℤ
  calls : ℕ → List Report

def isFree (data : List PollFd) (i : ℕ) : Bool := data[i]?.any (·.fd < 0)

def Ready.hasCallback : Ready → Channel → Bool
  | .read, channel => channel.onChannelReadable.isSome
  | .write, channel => channel.onChannelWriteable.isSome

namespace PollScan

/-- `poll` has returned. -/
def start (run : PollRun κ) (revents : ℕ → BitVec 15) : PollScan κ :=
  let (dispatcherData, pass) := pollBackend.start revents run.loop.dispatcherData
  { run := { run with loop := { run.loop with dispatcherData } }
    pass
    kept := fun fd => (run.loop.channelMap.entry fd).isSome
    filled := fun _ => false
    found := fun _ => none
    calls := fun _ => [] }

/-- The pass comes to its next slot. -/
def visit (s : PollScan κ) (pass : PollPass) : PollScan κ :=
  { s with
    pass
    found := Function.update s.found s.pass.index
      (s.run.loop.dispatcherData[s.pass.index]?.map PollFd.fd) }

/-- It makes a call for the slot that it has come to. -/
def call (s : PollScan κ) (report : Report) (pass : PollPass) : PollScan κ :=
  { s with
    pass
    calls := Function.update s.calls (s.pass.index - 1) (s.calls (s.pass.index - 1) ++ [report]) }

theorem calls_call_self (s : PollScan κ) (report : Report) (pass : PollPass) :
    (s.call report pass).calls (s.pass.index - 1) = s.calls (s.pass.index - 1) ++ [report] :=
  Function.update_self ..

theorem calls_call_of_ne (s : PollScan κ) (report : Report) (pass : PollPass) {i : ℕ}
    (h : i ≠ s.pass.index - 1) : (s.call report pass).calls i = s.calls i :=
  Function.update_of_ne h ..

theorem found_visit_self (s : PollScan κ) (pass : PollPass) :
    (s.visit pass).found s.pass.index = s.run.loop.dispatcherData[s.pass.index]?.map PollFd.fd :=
  Function.update_self ..

theorem found_visit_of_ne (s : PollScan κ) (pass : PollPass) {i : ℕ} (h : i ≠ s.pass.index) :
    (s.visit pass).found i = s.found i :=
  Function.update_of_ne h ..

variable [DecidableEq κ]

/-- One operation of a callback, which is handled at once. -/
def perform (s : PollScan κ) (event : PollEvent κ) : Result (PollScan κ) := do
  let run ← s.run.step event
  .ok { s with
    run
    kept := fun fd => s.kept fd && (run.loop.channelMap.entry fd).isSome
    filled := fun i => s.filled i ||
      isFree s.run.loop.dispatcherData i && !isFree run.loop.dispatcherData i }

def eventLoopActive (s : PollScan κ) (fd : ℤ) (ready : Ready) (callback : List (PollEvent κ)) :
    Result (PollScan κ) := do
  let registered ← registeredChannel s.run.channels s.run.loop fd
  match registered with
  | none => .ok s
  | some channel =>
    if ready.hasCallback (s.run.channels channel) then callback.foldlM perform s else .ok s

/-- A pass that is over stays as it is. -/
def step (s : PollScan κ) (callback : List (PollEvent κ)) : Result (PollScan κ) := do
  let next ← pollNext s.pass s.run.loop.dispatcherData
  match next with
  | none => .ok s
  | some (.active fd ready, pass) =>
    (s.call (.active fd ready) pass).eventLoopActive fd ready callback
  | some (_, pass) => .ok (s.visit pass)

end PollScan

/-! ### One operation -/

/-- What an operation makes of the slots: those of the registered descriptors stay, and a
descriptor that is new in a slot has not been registered. -/
structure PollRun.Changes (s s' : PollRun κ) : Prop where
  slots : SlotsMatch s'.loop.dispatcherData s'.loop.channelMap.entry
  kept : SlotsKept (fun fd => s'.loop.channelMap.entry fd = none) s.loop.dispatcherData
    s'.loop.dispatcherData
  origin : ∀ (i : ℕ) (a' : PollFd), s'.loop.dispatcherData[i]? = some a' → 0 ≤ a'.fd →
    ∃ a : PollFd, s.loop.dispatcherData[i]? = some a ∧
      (a.fd = a'.fd ∨ a.fd < 0 ∧ s.loop.channelMap.entry a'.fd = none)

theorem PollRun.Changes.refl {s : PollRun κ}
    (h : SlotsMatch s.loop.dispatcherData s.loop.channelMap.entry) : s.Changes s :=
  ⟨h, .refl _ _, fun _ a ha _ => ⟨a, ha, .inl rfl⟩⟩

section

variable {channels : κ → Channel} {loop loop' : EventLoop κ (List PollFd)} {op : PendingOp κ}
  {answer : Alloc (Option κ)} {result : ℤ}

theorem handlePending_changes (h : loop.Keyed channels)
    (hslots : SlotsMatch loop.dispatcherData loop.channelMap.entry)
    (hret : handlePending pollEventDispatcher channels loop op answer = .ok (loop', result)) :
    PollRun.Changes ⟨channels, loop⟩ ⟨channels, loop'⟩ := by
  obtain ⟨type, channel⟩ := op
  cases type with
  | add =>
    rcases handlePendingAdd_cases h.wellFormed hret with
      ⟨rfl, -⟩ | ⟨map', data', r, h0, hnone, hlt, hext, hadd, rfl⟩
    · exact .refl hslots
    obtain ⟨hmatch, hkept⟩ := hslots.add hnone hadd (hext.entry_set h0 hlt _)
    refine ⟨hmatch, hkept.mono fun _ => False.elim, ?_⟩
    intro i a' ha' _
    cases hadd
    obtain ⟨a, ha, rfl | ⟨hfree, rfl⟩⟩ := getElem?_modifyFirst_cases ha'
    · exact ⟨_, ha, .inl rfl⟩
    · exact ⟨a, ha, .inr ⟨of_decide_eq_true hfree, hnone⟩⟩
  | delete =>
    rcases handlePendingRemove_cases h.wellFormed hret with
      ⟨rfl, -⟩ | ⟨c, data', hentry, hdelete, rfl⟩
    · exact .refl hslots
    obtain ⟨h0, hlt⟩ := h.wellFormed.lt_of_entry hentry
    have hset := h.wellFormed.entry_set h0 hlt none
    obtain ⟨hmatch, hkept⟩ := hslots.delete (h.channel_fd _ c hentry) hdelete hset
    refine ⟨hmatch, hkept.mono ?_, ?_⟩
    · rintro fd rfl
      exact (hset _).trans (if_pos rfl)
    · intro i a' ha' h0'
      cases hdelete
      obtain ⟨a, ha, rfl | ⟨-, rfl⟩⟩ := getElem?_modifyFirst_cases ha'
      · exact ⟨_, ha, .inl rfl⟩
      · exact absurd h0' (show ¬ (0 : ℤ) ≤ -1 by decide)
  | update =>
    rcases handlePendingUpdate_cases h.wellFormed hret with rfl | ⟨c, data', -, hupdate, rfl⟩
    · exact .refl hslots
    obtain ⟨hmatch, hkept⟩ := hslots.update hupdate
    refine ⟨hmatch, hkept.mono fun _ => False.elim, ?_⟩
    intro i a' ha' _
    cases hupdate
    obtain ⟨a, ha, rfl | ⟨-, rfl⟩⟩ := getElem?_modifyFirst_cases ha'
    · exact ⟨_, ha, .inl rfl⟩
    · exact ⟨a, ha, .inl rfl⟩

end

/-- What holds of a loop between any two operations. -/
structure PollRun.Sound (s : PollRun κ) : Prop where
  keyed : s.loop.Keyed s.channels
  slots : SlotsMatch s.loop.dispatcherData s.loop.channelMap.entry
  length_eq : s.loop.dispatcherData.length = initPollSize

theorem PollRun.sound_init (channels : κ → Channel) (fill : ℕ → PollFd) :
    (PollRun.init channels fill).Sound := by
  have hfree := pollInit_free fill
  have hlen := (pollInit_spec fill).1
  unfold PollRun.init
  generalize pollInit fill = data at hfree hlen ⊢
  refine ⟨EventLoop.keyed_init channels data, ⟨?_, ?_⟩, hlen⟩
  · intro i j a b ha _ h0
    rw [hfree a (List.mem_of_getElem? ha)] at h0
    exact absurd h0 (by decide)
  · intro i a ha h0
    rw [hfree a (List.mem_of_getElem? ha)] at h0
    exact absurd h0 (by decide)

section

variable [DecidableEq κ]

theorem PollRun.Sound.changes {s s' : PollRun κ} {event : PollEvent κ} (h : s.Sound)
    (hret : s.step event = .ok s') : s.Changes s' := by
  cases event with
  | handle op answer =>
    obtain ⟨⟨loop', result⟩, hop, hret⟩ := bind_eq_ok.mp hret
    cases hret
    obtain ⟨hmatch, hkept, horigin⟩ := handlePending_changes h.keyed h.slots hop
    exact ⟨hmatch, hkept, horigin⟩
  | setEvents channel events =>
    cases hret
    obtain ⟨hmatch, hkept, horigin⟩ := PollRun.Changes.refl h.slots
    exact ⟨hmatch, hkept, horigin⟩

theorem PollRun.Sound.step (s : PollRun κ) (event : PollEvent κ) (s' : PollRun κ) (h : s.Sound)
    (hret : s.step event = .ok s') : s'.Sound :=
  ⟨s.keyed_step event s' h.keyed hret, (h.changes hret).slots,
    (h.changes hret).kept.length_eq.trans h.length_eq⟩

end

/-! ### The tables of a pass -/

namespace PollScan

/-- The slots, beside those that `poll` has filled in: a slot holds what it held then, or
has been filled, with a registration that is new. -/
structure Tables (polled : List PollFd) (s : PollScan κ) : Prop where
  sound : s.run.Sound
  revents_eq : s.run.loop.dispatcherData.map PollFd.revents = polled.map PollFd.revents
  registered : ∀ fd, s.kept fd = true → s.run.loop.channelMap.entry fd ≠ none
  original : ∀ (i : ℕ) (a : PollFd), s.run.loop.dispatcherData[i]? = some a → 0 ≤ a.fd →
    s.filled i = false → s.kept a.fd = true ∧ ∃ b : PollFd, polled[i]? = some b ∧ b.fd = a.fd
  refilled : ∀ (i : ℕ) (a : PollFd), s.run.loop.dispatcherData[i]? = some a → 0 ≤ a.fd →
    s.filled i = true → s.kept a.fd = false

/-- If the registration of the descriptor is still the same, so is the slot. -/
def Holds (s : PollScan κ) (i : ℕ) (fd : ℤ) : Prop :=
  s.kept fd = true → s.filled i = false ∧
    ∃ a : PollFd, s.run.loop.dispatcherData[i]? = some a ∧ a.fd = fd

/-- What a callback leaves as it is. -/
structure Keeps (s s' : PollScan κ) : Prop where
  pass_eq : s'.pass = s.pass
  found_eq : s'.found = s.found
  calls_eq : s'.calls = s.calls
  holds : ∀ i fd, s.Holds i fd → s'.Holds i fd

theorem Keeps.refl (s : PollScan κ) : s.Keeps s := ⟨rfl, rfl, rfl, fun _ _ => id⟩

theorem Keeps.trans {s s' s'' : PollScan κ} (h : s.Keeps s') (h' : s'.Keeps s'') : s.Keeps s'' :=
  ⟨h'.pass_eq.trans h.pass_eq, h'.found_eq.trans h.found_eq, h'.calls_eq.trans h.calls_eq,
    fun i fd hholds => h'.holds i fd (h.holds i fd hholds)⟩

theorem isFree_of_nonneg {data : List PollFd} {i : ℕ} {a : PollFd} (ha : data[i]? = some a)
    (h0 : 0 ≤ a.fd) : isFree data i = false := by
  simp [isFree, ha, h0]

theorem isFree_of_neg {data : List PollFd} {i : ℕ} {a : PollFd} (ha : data[i]? = some a)
    (hneg : a.fd < 0) : isFree data i = true := by
  simp [isFree, ha, hneg]

variable {polled : List PollFd} {s s' : PollScan κ}

theorem Tables.polled_at (h : s.Tables polled) {i : ℕ} {pollFd : PollFd}
    (hload : s.run.loop.dispatcherData[i]? = some pollFd) :
    ∃ a : PollFd, polled[i]? = some a ∧ a.revents = pollFd.revents := by
  have hmap := congrArg (fun revents => revents[i]?) h.revents_eq
  simp only [List.getElem?_map, hload, Option.map_some] at hmap
  exact Option.map_eq_some_iff.mp hmap.symm

/-! ### The pass -/

/-- How the pass comes to its next slot. -/
inductive Visits (s : PollScan κ) : PollFd → PollPass → Prop where
  | skipped {pollFd : PollFd} (h : pollFd.fd < 0 ∨ pollFd.revents.toInt ≤ 0) :
    Visits s pollFd ⟨s.pass.index + 1, s.pass.readyNumber, []⟩
  | reported {pollFd : PollFd} (h0 : 0 ≤ pollFd.fd) (h : 0 < pollFd.revents.toInt) :
    Visits s pollFd ⟨s.pass.index + 1, s.pass.readyNumber - 1, pollReports pollFd⟩

def Over (s : PollScan κ) : Prop :=
  s.pass.reports = [] ∧ (s.pass.readyNumber ≤ 0 ∨ initPollSize ≤ s.pass.index)

theorem mem_pollReports {pollFd : PollFd} {report : Report} (h : report ∈ pollReports pollFd) :
    ∃ ready, report = .active pollFd.fd ready := by
  unfold pollReports at h
  split_ifs at h <;> simp at h
  · exact h.elim (fun h => ⟨_, h⟩) fun h => ⟨_, h⟩
  · exact ⟨_, h⟩
  · exact ⟨_, h⟩

theorem length_pollReports_le (pollFd : PollFd) : (pollReports pollFd).length ≤ 2 := by
  unfold pollReports
  split_ifs <;> simp

theorem pollReports_congr {a b : PollFd} (hfd : a.fd = b.fd) (hrevents : a.revents = b.revents) :
    pollReports a = pollReports b := by
  rw [pollReports, pollReports, hfd, hrevents]

theorem pollReports_of_zero {a : PollFd} (h : a.revents = 0) : pollReports a = [] := by
  simp [pollReports, h]

/-- What holds in every state of a pass. -/
structure Inv (polled : List PollFd) (s : PollScan κ) : Prop where
  tables : s.Tables polled
  ready : (LoopState.reportedFrom (polled.map PollFd.revents) s.pass.index : ℤ) ≤ s.pass.readyNumber
  /-- the calls that are to come for the last slot -/
  pending : ∀ report ∈ s.pass.reports, ∃ fd ready, report = .active fd ready ∧
    0 < s.pass.index ∧ s.Holds (s.pass.index - 1) fd ∧
    ∃ a, polled[s.pass.index - 1]? = some a ∧ report ∈ pollReports { a with fd }
  visited : ∀ (i : ℕ) (a : PollFd), i < s.pass.index → polled[i]? = some a →
    ∃ fd, s.found i = some fd ∧ (0 ≤ fd →
      s.calls i ++ (if i + 1 = s.pass.index then s.pass.reports else []) =
        pollReports { a with fd })
  unvisited : ∀ i, s.pass.index ≤ i → s.calls i = []

/-- A call for the slot that the pass has come to. -/
theorem Inv.call {fd : ℤ} {ready : Ready} {reports : List Report} (h : s.Inv polled)
    (hreports : s.pass.reports = .active fd ready :: reports) :
    (s.call (.active fd ready) { s.pass with reports }).Inv polled := by
  obtain ⟨fd', ready', -, hpos, -⟩ := h.pending _ (hreports ▸ List.mem_cons_self)
  refine ⟨⟨h.tables.sound, h.tables.revents_eq, h.tables.registered, h.tables.original,
    h.tables.refilled⟩, h.ready, ?_, ?_, ?_⟩
  · intro report hmem
    exact h.pending report (hreports ▸ List.mem_cons_of_mem _ hmem)
  · intro i a hi ha
    obtain ⟨fd, hfound, hcalls⟩ := h.visited i a hi ha
    refine ⟨fd, hfound, fun h0 => ?_⟩
    rw [← hcalls h0, hreports]
    by_cases hlast : i + 1 = s.pass.index
    · obtain rfl : i = s.pass.index - 1 := by omega
      rw [calls_call_self, if_pos hlast, List.append_assoc, List.singleton_append]
      exact congrArg _ (congrArg _ (if_pos hlast))
    · rw [calls_call_of_ne _ _ _ (by omega), if_neg hlast]
      exact congrArg _ (if_neg hlast)
  · intro i hi
    have hi : s.pass.index ≤ i := hi
    rw [calls_call_of_ne _ _ _ (by omega)]
    exact h.unvisited i hi

/-- What a callback keeps. -/
theorem Inv.keeps (h : s.Inv polled) (htables : s'.Tables polled) (hkeeps : s.Keeps s') :
    s'.Inv polled := by
  obtain ⟨hpass, hfound, hcalls, hholds⟩ := hkeeps
  refine ⟨htables, ?_, ?_, ?_, ?_⟩ <;> rw [hpass]
  · exact h.ready
  · intro report hmem
    obtain ⟨fd, ready, heq, hpos, hold, hpolled⟩ := h.pending report hmem
    exact ⟨fd, ready, heq, hpos, hholds _ _ hold, hpolled⟩
  · rw [hfound, hcalls]
    exact h.visited
  · rw [hcalls]
    exact h.unvisited

/-! ### The next slot -/

section

variable {pollFd : PollFd} {pass : PollPass}

theorem Visits.index_eq (h : s.Visits pollFd pass) : pass.index = s.pass.index + 1 := by
  cases h <;> rfl

/-- Only a slot that is not free is reported. -/
theorem Visits.nonneg (h : s.Visits pollFd pass) {report : Report}
    (hmem : report ∈ pass.reports) : 0 ≤ pollFd.fd := by
  cases h with
  | skipped => cases hmem
  | reported h0 => exact h0

theorem Visits.reports_eq (h : s.Visits pollFd pass)
    (hpositive : pollFd.revents ≠ 0 → 0 < pollFd.revents.toInt) (h0 : 0 ≤ pollFd.fd) :
    pass.reports = pollReports pollFd := by
  cases h with
  | skipped hskip =>
    -- a report is positive as a `short`, so nothing was reported for the slot
    have hzero : pollFd.revents = 0 := by
      by_contra hne
      have hpos := hpositive hne
      omega
    exact (pollReports_of_zero hzero).symm
  | reported => rfl

/-- The slots with a report that are still to come are counted. -/
theorem Visits.le_readyNumber (h : s.Visits pollFd pass) {n : ℕ}
    (hready : ((n + if pollFd.revents ≠ 0 then 1 else 0 : ℕ) : ℤ) ≤ s.pass.readyNumber) :
    (n : ℤ) ≤ pass.readyNumber := by
  cases h with
  | skipped => exact le_trans (Int.ofNat_le.mpr (Nat.le_add_right _ _)) hready
  | reported h0 hpos =>
    rw [if_pos (LoopState.ne_zero_of_toInt_pos hpos)] at hready
    show (n : ℤ) ≤ s.pass.readyNumber - 1
    omega

theorem Tables.holds (h : s.Tables polled) {i : ℕ}
    (hload : s.run.loop.dispatcherData[i]? = some pollFd) (h0 : 0 ≤ pollFd.fd) :
    s.Holds i pollFd.fd := by
  intro hkept
  refine ⟨Bool.eq_false_iff.mpr fun hfilled => ?_, pollFd, hload, rfl⟩
  have hnew := h.refilled i pollFd hload h0 hfilled
  rw [hkept] at hnew
  cases hnew

theorem Inv.visit (hpositive : ∀ a ∈ polled, a.revents ≠ 0 → 0 < a.revents.toInt)
    (h : s.Inv polled) (hreports : s.pass.reports = [])
    (hload : s.run.loop.dispatcherData[s.pass.index]? = some pollFd)
    (hvisits : s.Visits pollFd pass) : (s.visit pass).Inv polled := by
  obtain ⟨a, ha, hrevents⟩ := h.tables.polled_at hload
  have hindex := hvisits.index_eq
  have hlast : (s.visit pass).pass.index - 1 = s.pass.index := by
    simp [PollScan.visit, hindex]
  have hsame : pollReports { a with fd := pollFd.fd } = pollReports pollFd :=
    pollReports_congr rfl hrevents
  have hpass := hvisits.reports_eq (hrevents ▸ hpositive a (List.mem_of_getElem? ha))
  refine ⟨⟨h.tables.sound, h.tables.revents_eq, h.tables.registered, h.tables.original,
    h.tables.refilled⟩, ?_, ?_, ?_, ?_⟩
  · have hstep : LoopState.reportedFrom (polled.map PollFd.revents) s.pass.index = _ :=
      LoopState.reportedFrom_step (r := a.revents) (by rw [List.getElem?_map, ha]; rfl)
    have hready := h.ready
    rw [hstep, hrevents, ← hindex] at hready
    exact hvisits.le_readyNumber hready
  · intro report hmem
    have h0 := hvisits.nonneg hmem
    have hmem : report ∈ pollReports pollFd := hpass h0 ▸ hmem
    obtain ⟨ready, rfl⟩ := mem_pollReports hmem
    rw [hlast]
    exact ⟨pollFd.fd, ready, rfl, by simp [PollScan.visit, hindex], h.tables.holds hload h0, a, ha,
      hsame ▸ hmem⟩
  · intro i b hi hb
    have hi : i < s.pass.index + 1 := hindex ▸ hi
    rcases Nat.lt_succ_iff_lt_or_eq.mp hi with hlt | rfl
    · obtain ⟨fd, hfound, hcalls⟩ := h.visited i b hlt hb
      have hne : i ≠ s.pass.index := by omega
      refine ⟨fd, ?_, fun h0 => ?_⟩
      · rw [found_visit_of_ne _ _ hne]
        exact hfound
      · rw [← hcalls h0, hreports]
        simp [PollScan.visit, hindex, hne]
    · obtain rfl : a = b := Option.some.inj (ha.symm.trans hb)
      refine ⟨pollFd.fd, by rw [found_visit_self, hload]; rfl, fun h0 => ?_⟩
      rw [hsame, ← hpass h0]
      simp [PollScan.visit, hindex, h.unvisited _ le_rfl]
  · intro i hi
    have hi : s.pass.index + 1 ≤ i := hindex ▸ hi
    exact h.unvisited i (by omega)

end

/-! ### The steps -/

variable [DecidableEq κ]

theorem perform_spec {event : PollEvent κ} (hret : s.perform event = .ok s') :
    s.run.step event = .ok s'.run ∧
      (∀ fd, s'.kept fd = true ↔ s.kept fd = true ∧ s'.run.loop.channelMap.entry fd ≠ none) ∧
      (∀ i, s'.filled i = true ↔ s.filled i = true ∨
        isFree s.run.loop.dispatcherData i = true ∧ isFree s'.run.loop.dispatcherData i = false) ∧
      s'.pass = s.pass ∧ s'.found = s.found ∧ s'.calls = s.calls := by
  obtain ⟨run, hstep, hret⟩ := bind_eq_ok.mp hret
  cases hret
  refine ⟨hstep, ?_, ?_, rfl, rfl, rfl⟩
  · simp [Option.isSome_iff_ne_none]
  · simp

theorem Tables.perform {event : PollEvent κ} (h : s.Tables polled)
    (hret : s.perform event = .ok s') : s'.Tables polled := by
  obtain ⟨hstep, hkept, hfilled, -⟩ := perform_spec hret
  obtain ⟨hmatch, hslots, horigin⟩ := h.sound.changes hstep
  refine ⟨h.sound.step _ _ _ hstep, hslots.revents.trans h.revents_eq,
    fun fd hfd => ((hkept fd).mp hfd).2, ?_, ?_⟩
  · intro i a' ha' h0 hunfilled
    have hold : ¬ (s.filled i = true ∨ _ ∧ _) := mt (hfilled i).mpr (by rw [hunfilled]; decide)
    rw [not_or, Bool.not_eq_true] at hold
    obtain ⟨a, ha, heq | ⟨hneg, -⟩⟩ := horigin i a' ha' h0
    · obtain ⟨hold, hpolled⟩ := h.original i a ha (heq ▸ h0) hold.1
      rw [heq] at hold hpolled
      exact ⟨(hkept _).mpr ⟨hold, hmatch.watched i a' ha' h0⟩, hpolled⟩
    · exact absurd ⟨isFree_of_neg ha hneg, isFree_of_nonneg ha' h0⟩ hold.2
  · intro i a' ha' h0 hfill
    refine Bool.eq_false_iff.mpr fun hfd => ?_
    -- the slot had been filled before, or `poll_add` has filled it with a new registration
    have hfd := ((hkept _).mp hfd).1
    obtain ⟨a, ha, heq | ⟨-, hnone⟩⟩ := horigin i a' ha' h0
    · have hbusy := isFree_of_nonneg ha (heq ▸ h0)
      rcases (hfilled i).mp hfill with hold | ⟨hfree, -⟩
      · rw [← heq, h.refilled i a ha (heq ▸ h0) hold] at hfd
        cases hfd
      · rw [hbusy] at hfree
        cases hfree
    · exact h.registered _ hfd hnone

theorem Tables.keeps_perform {event : PollEvent κ} (h : s.Tables polled)
    (hret : s.perform event = .ok s') : s.Keeps s' := by
  obtain ⟨hstep, hkept, hfilled, hpass, hfound, hcalls⟩ := perform_spec hret
  obtain ⟨-, hslots, -⟩ := h.sound.changes hstep
  refine ⟨hpass, hfound, hcalls, ?_⟩
  intro i fd hholds hfd
  obtain ⟨hold, hentry⟩ := (hkept fd).mp hfd
  obtain ⟨hunfilled, a, ha, rfl⟩ := hholds hold
  obtain ⟨c, hc⟩ := Option.ne_none_iff_exists'.mp (h.registered _ hold)
  have h0 := (h.sound.keyed.wellFormed.lt_of_entry hc).1
  refine ⟨Bool.eq_false_iff.mpr fun hfill => ?_, hslots.slot i a ha h0 hentry⟩
  rcases (hfilled i).mp hfill with hfill | ⟨hfree, -⟩
  · rw [hunfilled] at hfill
    cases hfill
  · rw [isFree_of_nonneg ha h0] at hfree
    cases hfree

theorem Tables.eventLoopActive {fd : ℤ} {ready : Ready} {callback : List (PollEvent κ)}
    (h : s.Tables polled) (hret : s.eventLoopActive fd ready callback = .ok s') :
    s'.Tables polled ∧ s.Keeps s' := by
  obtain ⟨registered, -, hret⟩ := bind_eq_ok.mp hret
  have hdone : s.Tables polled ∧ s.Keeps s := ⟨h, .refl s⟩
  split at hret
  · cases hret
    exact hdone
  split_ifs at hret
  · have hkeep : ∀ (s₁ : PollScan κ) event s₂, s₁.Tables polled ∧ s.Keeps s₁ →
        s₁.perform event = .ok s₂ → s₂.Tables polled ∧ s.Keeps s₂ := by
      intro s₁ event s₂ h₁ hperform
      exact ⟨h₁.1.perform hperform, h₁.2.trans (h₁.1.keeps_perform hperform)⟩
    exact foldlM_keeps hkeep hdone hret
  · cases hret
    exact hdone

theorem step_of_over (h : s.Over) (callback : List (PollEvent κ)) : s.step callback = .ok s := by
  have hnext : pollNext s.pass s.run.loop.dispatcherData = .ok none := by
    simp only [pollNext, h.1, if_pos h.2]
  simp only [step, hnext, ok_bind]

theorem step_of_reports {callback : List (PollEvent κ)} {fd : ℤ} {ready : Ready}
    {reports : List Report} (h : s.pass.reports = .active fd ready :: reports) :
    s.step callback =
      (s.call (.active fd ready) { s.pass with reports }).eventLoopActive fd ready callback := by
  have hnext : pollNext s.pass s.run.loop.dispatcherData =
      .ok (some (.active fd ready, { s.pass with reports })) := by
    simp only [pollNext, h]
  simp only [step, hnext, ok_bind]

theorem step_of_visits {callback : List (PollEvent κ)} (hreports : s.pass.reports = [])
    (hover : ¬ s.Over) (hret : s.step callback = .ok s') :
    ∃ pollFd pass, s.pass.index < initPollSize ∧
      s.run.loop.dispatcherData[s.pass.index]? = some pollFd ∧ s.Visits pollFd pass ∧
      s' = s.visit pass := by
  have hgo : ¬ (s.pass.readyNumber ≤ 0 ∨ initPollSize ≤ s.pass.index) :=
    fun h => hover ⟨hreports, h⟩
  obtain ⟨next, hnext, hret⟩ := bind_eq_ok.mp hret
  simp only [pollNext, hreports, if_neg hgo] at hnext
  obtain ⟨pollFd, hload, hnext⟩ := bind_eq_ok.mp hnext
  rw [not_or, not_le] at hgo
  refine ⟨pollFd, ?_⟩
  split_ifs at hnext with hfree hreported
  · cases hnext
    cases hret
    exact ⟨_, not_le.mp hgo.2, LoopState.load_eq_some hload, .skipped (.inl hfree), rfl⟩
  · cases hnext
    cases hret
    exact ⟨_, not_le.mp hgo.2, LoopState.load_eq_some hload,
      .reported (not_lt.mp hfree) hreported, rfl⟩
  · cases hnext
    cases hret
    exact ⟨_, not_le.mp hgo.2, LoopState.load_eq_some hload, .skipped (.inr (not_lt.mp hreported)),
      rfl⟩

theorem Inv.step (hpositive : ∀ a ∈ polled, a.revents ≠ 0 → 0 < a.revents.toInt)
    {callback : List (PollEvent κ)} (h : s.Inv polled) (hret : s.step callback = .ok s') :
    s'.Inv polled := by
  by_cases hover : s.Over
  · rw [step_of_over hover] at hret
    cases hret
    exact h
  cases hreports : s.pass.reports with
  | nil =>
    obtain ⟨pollFd, pass, -, hload, hvisits, rfl⟩ := step_of_visits hreports hover hret
    exact h.visit hpositive hreports hload hvisits
  | cons report reports =>
    obtain ⟨fd, ready, rfl, -⟩ := h.pending report (hreports ▸ List.mem_cons_self)
    rw [step_of_reports hreports] at hret
    have hcall := h.call hreports
    obtain ⟨htables, hkeeps⟩ := hcall.tables.eventLoopActive hret
    exact hcall.keeps htables hkeeps

end PollScan

end OsProgramming.Reactor
