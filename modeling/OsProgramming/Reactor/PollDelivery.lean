import OsProgramming.Reactor.PollScan

/-! What a pass of `poll_dispatch` delivers. No slot with a report is missed, but a slot
that has been freed and filled again keeps the report of the descriptor before. -/

namespace OsProgramming.Reactor

open Library

variable {κ : Type}

/-- The descriptor that a report is for. -/
def Report.fd : Report → ℤ
  | .active fd _ => fd
  | .close fd => fd
  | .nothing => -1

namespace PollScan

/-- The call that comes next is for a registration that was there when `poll` returned,
and was reported for it, unless nothing is registered. -/
def Delivers (polled : List PollFd) (s : PollScan κ) (_ : List (PollEvent κ)) (_ : PollScan κ) :
    Prop :=
  ∀ report ∈ s.pass.reports.head?, s.run.loop.channelMap.entry report.fd ≠ none →
    s.kept report.fd = true ∧ ∃ slot ∈ polled, report ∈ pollReports slot

/-- It is for a descriptor that still has the slot which the pass has come to, and
`poll_add` has not filled the slot since `poll` returned, unless nothing is registered. -/
def Undisturbed (s : PollScan κ) (_ : List (PollEvent κ)) : Prop :=
  ∀ report ∈ s.pass.reports.head?, s.run.loop.channelMap.entry report.fd ≠ none →
    s.filled (s.pass.index - 1) = false ∧
      ∃ slot ∈ s.run.loop.dispatcherData[s.pass.index - 1]?, slot.fd = report.fd

variable {polled : List PollFd} {s s' : PollScan κ}

theorem Inv.delivers_iff (h : s.Inv polled) (callback : List (PollEvent κ)) :
    s.Delivers polled callback s' ↔ s.Undisturbed callback := by
  refine forall₂_congr fun report hhead => ?_
  obtain ⟨fd, ready, rfl, -, hholds, a, ha, hmem⟩ := h.pending report (List.mem_of_mem_head? hhead)
  refine imp_congr_right fun hentry => ⟨fun hdelivers => hholds hdelivers.1, ?_⟩
  rintro ⟨hunfilled, slot, hslot, rfl : slot.fd = fd⟩
  obtain ⟨c, hc⟩ := Option.ne_none_iff_exists'.mp hentry
  have h0 := (h.tables.sound.keyed.wellFormed.lt_of_entry hc).1
  -- a slot that has not been filled holds what it held when `poll` returned
  obtain ⟨hkept, b, hb, hfd⟩ := h.tables.original _ slot hslot h0 hunfilled
  obtain rfl : a = b := Option.some.inj (ha.symm.trans hb)
  rw [← hfd] at hmem
  exact ⟨hkept, a, List.mem_of_getElem? ha, hfd ▸ hmem⟩

/-! ### The end of the pass -/

/-- Every slot with a report has been visited. -/
theorem Inv.calls_of_over (h : s.Inv polled) (hlength : polled.length = initPollSize)
    (hover : s.Over) {i : ℕ} {slot : PollFd} (hslot : polled[i]? = some slot)
    (hreported : slot.revents ≠ 0) :
    ∃ fd, s.found i = some fd ∧ (fd = slot.fd → 0 ≤ fd → s.calls i = pollReports slot) := by
  obtain ⟨hreports, hend⟩ := hover
  have hi : i < initPollSize := hlength ▸ (List.getElem?_eq_some_iff.mp hslot).1
  have hlt : i < s.pass.index := by
    by_contra hle
    have hrevents : (polled.map PollFd.revents)[i]? = some slot.revents := by
      rw [List.getElem?_map, hslot]
      rfl
    have hpos := LoopState.reportedFrom_pos hrevents hreported (not_lt.mp hle)
    have hready := h.ready
    omega
  obtain ⟨fd, hfound, hcalls⟩ := h.visited i slot hlt hslot
  refine ⟨fd, hfound, ?_⟩
  rintro rfl h0
  rw [← hcalls h0, hreports, ite_self, List.append_nil]

/-- The number of steps that are left at most. -/
def remaining (s : PollScan κ) : ℕ :=
  3 * (initPollSize - s.pass.index) + s.pass.reports.length

theorem over_of_remaining (h : s.remaining = 0) : s.Over := by
  unfold remaining at h
  exact ⟨List.length_eq_zero_iff.mp (by omega), .inr (by omega)⟩

theorem Visits.remaining_lt {pollFd : PollFd} {pass : PollPass} (h : s.Visits pollFd pass)
    (hreports : s.pass.reports = []) (hlt : s.pass.index < initPollSize) :
    (s.visit pass).remaining < s.remaining := by
  have htwo := length_pollReports_le pollFd
  have hnone : s.pass.reports.length = 0 := by rw [hreports]; rfl
  cases h with
  | skipped =>
    simp only [remaining, visit, List.length_nil]
    omega
  | reported =>
    simp only [remaining, visit]
    omega

variable [DecidableEq κ]

theorem Inv.remaining_lt {callback : List (PollEvent κ)} (h : s.Inv polled) (hover : ¬ s.Over)
    (hret : s.step callback = .ok s') : s'.remaining < s.remaining := by
  cases hreports : s.pass.reports with
  | nil =>
    obtain ⟨pollFd, pass, hlt, -, hvisits, rfl⟩ := step_of_visits hreports hover hret
    exact hvisits.remaining_lt hreports hlt
  | cons report reports =>
    obtain ⟨fd, ready, rfl, -⟩ := h.pending report (hreports ▸ List.mem_cons_self)
    rw [step_of_reports hreports] at hret
    obtain ⟨-, hkeeps⟩ := (h.call hreports).tables.eventLoopActive hret
    have hpass : s'.pass = { s.pass with reports } := hkeeps.pass_eq
    simp only [remaining, hpass, hreports, List.length_cons]
    omega

theorem Over.of_run {callbacks : List (List (PollEvent κ))} (h : s.Over)
    (hrun : callbacks.foldlM step s = .ok s') : s'.Over := by
  have hkeep : ∀ (s₁ : PollScan κ) callback s₂, s₁.Over → s₁.step callback = .ok s₂ → s₂.Over := by
    intro s₁ callback s₂ h₁ hstep
    rw [step_of_over h₁] at hstep
    cases hstep
    exact h₁
  exact foldlM_keeps hkeep h hrun

theorem Inv.over_of_run {callbacks : List (List (PollEvent κ))}
    (hpositive : ∀ a ∈ polled, a.revents ≠ 0 → 0 < a.revents.toInt) (h : s.Inv polled)
    (hrun : callbacks.foldlM PollScan.step s = .ok s') (hlength : s.remaining ≤ callbacks.length) :
    s'.Over := by
  induction callbacks generalizing s with
  | nil =>
    cases hrun
    exact over_of_remaining (Nat.le_zero.mp hlength)
  | cons callback callbacks ih =>
    by_cases hover : s.Over
    · exact hover.of_run hrun
    rw [List.foldlM_cons, bind_eq_ok] at hrun
    obtain ⟨s₁, hstep, hrun⟩ := hrun
    have hlt := h.remaining_lt hover hstep
    rw [List.length_cons] at hlength
    exact ih (h.step hpositive hstep) hrun (by omega)

/-! ### The start -/

omit [DecidableEq κ] in
theorem start_inv {run : PollRun κ} (h : run.Sound) (revents : ℕ → BitVec 15) :
    (start run revents).Inv (LoopState.pollReturns revents run.loop.dispatcherData) := by
  have hslots := LoopState.slotsMatch_pollReturns h.slots revents
  have hkept : ∀ (i : ℕ) (a : PollFd),
      (LoopState.pollReturns revents run.loop.dispatcherData)[i]? = some a → 0 ≤ a.fd →
      (start run revents).kept a.fd = true :=
    fun i a ha h0 => Option.isSome_iff_ne_none.mpr (hslots.watched i a ha h0)
  refine ⟨⟨⟨⟨h.keyed.wellFormed, h.keyed.channel_fd⟩, hslots,
      (LoopState.length_pollReturns _ _).trans h.length_eq⟩, rfl, ?_, ?_, nofun⟩, ?_, nofun, nofun,
    fun _ _ => rfl⟩
  · intro fd hfd
    exact Option.isSome_iff_ne_none.mp hfd
  · intro i a ha h0 _
    exact ⟨hkept i a ha h0, a, ha, rfl⟩
  · exact Int.ofNat_le.mpr (LoopState.pollReady_eq _).ge

/-- What `poll` can report. -/
theorem pollReturns_reported {revents : ℕ → BitVec 15} {data : List PollFd} {slot : PollFd}
    (hslot : slot ∈ LoopState.pollReturns revents data) (hreported : slot.revents ≠ 0) :
    0 ≤ slot.fd ∧ 0 < slot.revents.toInt := by
  obtain ⟨i, hi⟩ := List.mem_iff_getElem?.mp hslot
  rw [LoopState.getElem?_pollReturns] at hi
  obtain ⟨a, -, rfl⟩ := Option.map_eq_some_iff.mp hi
  split_ifs at hreported with hneg
  · exact absurd rfl hreported
  · refine ⟨not_lt.mp hneg, ?_⟩
    rw [if_neg hneg]
    apply LoopState.setWidth_toInt_pos
    rintro heq
    rw [heq] at hreported
    exact hreported rfl

/-- A pass ends. Every slot with a report is visited, and if the descriptor is still in
it, it is called for exactly its reports. No call is for a new registration or for an
event that was not reported if and only if each finds its slot undisturbed. -/
theorem poll_delivery_iff {channels : κ → Channel} {fill : ℕ → PollFd}
    {events : List (PollEvent κ)} {run : PollRun κ}
    (hrun : events.foldlM PollRun.step (.init channels fill) = .ok run)
    {revents : ℕ → BitVec 15} {callbacks : List (List (PollEvent κ))} {s : PollScan κ}
    (hscan : callbacks.foldlM step (start run revents) = .ok s) :
    (3 * initPollSize ≤ callbacks.length → s.Over) ∧
    (s.Over → ∀ (i : ℕ) (slot : PollFd),
      (LoopState.pollReturns revents run.loop.dispatcherData)[i]? = some slot →
      slot.revents ≠ 0 →
      ∃ fd, s.found i = some fd ∧ (fd = slot.fd → s.calls i = pollReports slot)) ∧
    (EachStep step (Delivers (LoopState.pollReturns revents run.loop.dispatcherData))
        (start run revents) callbacks ↔
      Admissible step Undisturbed (start run revents) callbacks) := by
  have hsound : run.Sound := foldlM_keeps PollRun.Sound.step (PollRun.sound_init channels fill) hrun
  have hstart := start_inv hsound revents
  have hlength := (LoopState.length_pollReturns revents _).trans hsound.length_eq
  generalize hpolled : LoopState.pollReturns revents run.loop.dispatcherData = polled at *
  have hreports : ∀ slot ∈ polled, slot.revents ≠ 0 → 0 ≤ slot.fd ∧ 0 < slot.revents.toInt :=
    fun slot hslot => pollReturns_reported (hpolled ▸ hslot)
  have hpositive := fun slot hslot hne => (hreports slot hslot hne).2
  have hstep : ∀ (s : PollScan κ) callback s', s.Inv polled → s.step callback = .ok s' →
      s'.Inv polled := fun _ _ _ hs => hs.step hpositive
  have hs : s.Inv polled := foldlM_keeps hstep hstart hscan
  refine ⟨fun hlen => hstart.over_of_run hpositive hscan hlen, ?_, ?_⟩
  · intro hover i slot hslot hne
    obtain ⟨fd, hfound, hcalls⟩ := hs.calls_of_over hlength hover hslot hne
    refine ⟨fd, hfound, ?_⟩
    rintro rfl
    exact hcalls rfl (hreports slot (List.mem_of_getElem? hslot) hne).1
  · exact eachStep_iff (fun s callback s' hinv _ => hstep s callback s' hinv)
      (fun s callback s' hinv _ => hinv.delivers_iff callback) hstart hscan

instance (s : PollScan κ) : Decidable s.Over := inferInstanceAs (Decidable (_ ∧ _))

instance (polled : List PollFd) (s : PollScan κ) (callback : List (PollEvent κ))
    (s' : PollScan κ) : Decidable (s.Delivers polled callback s') :=
  inferInstanceAs (Decidable (∀ _ ∈ _, _ → _ ∧ _))

instance (s : PollScan κ) (callback : List (PollEvent κ)) : Decidable (s.Undisturbed callback) :=
  inferInstanceAs (Decidable (∀ _ ∈ _, _ → _ ∧ _))

/-- The connections have the descriptors from 5 on. -/
def fromFive (id : ConnectionId) : Channel :=
  channelNew (5 + id) eventRead (some .handleRead) (some .handleWrite) (.tcpConnection id)

/-- The connections 0 and 1 are ready to be read; the callback of the first removes the
second, and adds connection 2. -/
def twoReadable (i : ℕ) : BitVec 15 := if i < 2 then 0x0040 else 0
def removing : List (List (PollEvent ConnectionId)) :=
  [[], [.handle ⟨.delete, 1⟩ none, .handle ⟨.add, 2⟩ (some fun _ => none)], []]

/-- Connection 2 is called for what was reported for connection 1. -/
theorem poll_delivers_stale :
    ∃ (run : PollRun ConnectionId) (s : PollScan ConnectionId),
      [.handle ⟨.add, 0⟩ (some fun _ => none), .handle ⟨.add, 1⟩ none].foldlM PollRun.step
        (.init fromFive fun _ => ⟨0, 0, 0⟩) = .ok run ∧
      removing.foldlM step (start run twoReadable) = .ok s ∧
      (s.run.loop.channelMap.entry 7 = some 2 ∧ s.pass.reports = [.active 7 .read] ∧
        run.loop.channelMap.entry 7 = none) ∧
      ¬ s.Delivers (LoopState.pollReturns twoReadable run.loop.dispatcherData) [] s := by
  obtain ⟨run, hrun, hscan⟩ := exists_ok_of_any
    (m := [.handle ⟨.add, 0⟩ (some fun _ => none), .handle ⟨.add, 1⟩ none].foldlM PollRun.step
      (.init fromFive fun _ => ⟨0, 0, 0⟩))
    (p := fun run => (removing.foldlM step (start run twoReadable)).toOption.any (fun s =>
      (s.run.loop.channelMap.entry 7 = some 2 ∧ s.pass.reports = [.active 7 .read] ∧
        run.loop.channelMap.entry 7 = none) ∧
      ¬ s.Delivers (LoopState.pollReturns twoReadable run.loop.dispatcherData) [] s) = true)
    (by decide +kernel)
  obtain ⟨s, hs, hstale⟩ := exists_ok_of_any hscan
  exact ⟨run, s, hrun, hs, hstale⟩

/-- Connection 0 is ready to be read and written, and its callbacks do nothing. -/
theorem poll_delivery_iff_both :
    ∃ (run : PollRun ConnectionId) (s : PollScan ConnectionId),
      [.handle ⟨.add, 0⟩ (some fun _ => none)].foldlM PollRun.step
        (.init fromFive fun _ => ⟨0, 0, 0⟩) = .ok run ∧
      (∃ fd, s.found 0 = some fd ∧ (fd = 5 → s.calls 0 = [.active 5 .read, .active 5 .write])) ∧
      EachStep step (Delivers (LoopState.pollReturns (fun _ => 0x0140) run.loop.dispatcherData))
        (start run fun _ => 0x0140) [[], [], []] := by
  obtain ⟨run, hrun, hslot, hadm, hscan⟩ := exists_ok_of_any
    (m := [.handle ⟨.add, 0⟩ (some fun _ => none)].foldlM PollRun.step
      (.init fromFive fun _ => ⟨0, 0, 0⟩))
    (p := fun run =>
      (LoopState.pollReturns (fun _ => 0x0140) run.loop.dispatcherData)[0]? =
          some ⟨5, pollRdNorm, 0x0140⟩ ∧
        Admissible step Undisturbed (start run fun _ => 0x0140) [[], [], []] ∧
        ([[], [], []].foldlM step (start run fun _ => 0x0140)).toOption.any
          (fun s => s.Over) = true)
    (by decide +kernel)
  obtain ⟨s, hs, hover⟩ := exists_ok_of_any hscan
  obtain ⟨-, hcalls, hiff⟩ := poll_delivery_iff hrun hs
  exact ⟨run, s, hrun, hcalls hover 0 _ hslot (by decide), hiff.mpr hadm⟩

end PollScan

end OsProgramming.Reactor
