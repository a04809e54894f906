import OsProgramming.Reactor.PollSlots
import OsProgramming.Reactor.TearDown

/-! A pass of `poll_dispatch` over the slots, followed for one connection: no callback
before its slot changes what was reported for it, the count of ready slots does not end
the pass before, and no slot behind it has its descriptor. -/

namespace OsProgramming.Reactor

open Library

namespace LoopState

variable {loopId : LoopId} {cast : ChannelData → Result LoopId}
  {s₀ s s' : LoopState (List PollFd)} {id : ConnectionId}

/-- The slots of the loop. -/
abbrev SlotsOk (s : LoopState (List PollFd)) : Prop :=
  SlotsMatch s.loop.dispatcherData s.loop.channelMap.entry

theorem Move.slots (hs : Sane (pollSetting loopId cast) s) (hslots : s.SlotsOk)
    (h : Move (pollSetting loopId cast) s s') :
    s'.SlotsOk ∧ SlotsKept (fun _ => False) s.loop.dispatcherData s'.loop.dispatcherData := by
  cases h with
  | connection hfixed => exact ⟨hslots, .refl _ _⟩
  | accept fd => exact ⟨hslots, .refl _ _⟩
  | close fd => exact ⟨hslots, .refl _ _⟩
  | @add handled channel answer hnew hserved hadd =>
    rcases handle_add hs.wellFormed hadd with heq | ⟨-, hnone, -, hentry, result, hpoll⟩
    · show handled.SlotsOk ∧ SlotsKept _ _ handled.loop.dispatcherData
      rw [SlotsOk, heq]
      exact ⟨hslots, .refl _ _⟩
    · exact hslots.add hnone hpoll hentry
  | update hupdate =>
    rcases handle_update hs.wellFormed hupdate with heq | ⟨hmap, result, hpoll⟩
    · rw [SlotsOk, heq]
      exact ⟨hslots, .refl _ _⟩
    · rw [SlotsOk, hmap]
      exact hslots.update hpoll

theorem Removes.slots (hs : Sane (pollSetting loopId cast) s) (hslots : s.SlotsOk)
    (h : Removes (pollSetting loopId cast) id s s') :
    s'.SlotsOk ∧ SlotsKept (· = (s.connections id).channel.fd) s.loop.dispatcherData
      s'.loop.dispatcherData := by
  obtain ⟨removed, hdelete, hloop⟩ := h.handled
  rw [SlotsOk, hloop]
  rcases handle_delete hs.wellFormed hdelete with ⟨heq, -⟩ | ⟨-, hentry, c, result, hc, hpoll⟩
  · rw [heq]
    exact ⟨hslots, .refl _ _⟩
  · exact hslots.delete (hs.channel_fd _ c hc) hpoll hentry

/-- What holds between passes. -/
structure PollInv (loopId : LoopId) (cast : ChannelData → Result LoopId)
    (s : LoopState (List PollFd)) : Prop where
  sane : Sane (pollSetting loopId cast) s
  slots : s.SlotsOk
  length_eq : s.loop.dispatcherData.length = initPollSize

theorem PollInv.move (h : PollInv loopId cast s) (hmove : Move (pollSetting loopId cast) s s') :
    PollInv loopId cast s' := by
  obtain ⟨hslots, hkept⟩ := hmove.slots h.sane h.slots
  exact ⟨h.sane.move hmove, hslots, hkept.length_eq.trans h.length_eq⟩

theorem PollInv.removes (h : PollInv loopId cast s)
    (hremoves : Removes (pollSetting loopId cast) id s s') : PollInv loopId cast s' := by
  obtain ⟨hslots, hkept⟩ := hremoves.slots h.sane h.slots
  exact ⟨h.sane.removes hremoves, hslots, hkept.length_eq.trans h.length_eq⟩

theorem PollInv.activeIf (h : PollInv loopId cast s) {reported : Prop} [Decidable reported] {fd : ℤ}
    {events : Events} (hevents : events = eventRead ∨ events = eventWrite) {script : CallScript}
    (hret : s.activeIf (pollSetting loopId cast) reported fd events script = .ok s') :
    PollInv loopId cast s' :=
  activeIf_keeps (fun _ hs => hs.sane) (fun _ _ => move)
    (fun _ _ _ (_ : True) hs => hs.removes) hevents h (fun _ _ => trivial) hret

theorem PollInv.pollActive (h : PollInv loopId cast s) {pollFd : PollFd} {script : PassScript}
    (hret : s.pollActive (pollSetting loopId cast) pollFd script = .ok s') :
    PollInv loopId cast s' := by
  obtain ⟨s₁, hread, hwrite⟩ := bind_eq_ok.mp hret
  exact (h.activeIf (.inl rfl) hread).activeIf (.inr rfl) hwrite

/-! ### A connection that is reported -/

/-- A connection that holds its entry, with its slot `i` and all that was reported. -/
structure Tracked (loopId : LoopId) (cast : ChannelData → Result LoopId)
    (s₀ : LoopState (List PollFd)) (id : ConnectionId) (i : ℕ) (revents : List (BitVec 16))
    (s : LoopState (List PollFd)) : Prop where
  holding : Holding (pollSetting loopId cast) s₀ id s
  slots : s.SlotsOk
  slot : ∃ slot, s.loop.dispatcherData[i]? = some slot ∧ slot.fd = (s₀.connections id).channel.fd
  revents_eq : s.loop.dispatcherData.map PollFd.revents = revents

namespace Tracked

variable {i : ℕ} {revents : List (BitVec 16)}

theorem fd_nonneg (h : Tracked loopId cast s₀ id i revents s) :
    0 ≤ (s₀.connections id).channel.fd :=
  (h.holding.sane.wellFormed.lt_of_entry h.holding.entry).1

theorem move (h : Tracked loopId cast s₀ id i revents s)
    (hmove : Move (pollSetting loopId cast) s s') : Tracked loopId cast s₀ id i revents s' := by
  obtain ⟨hslots, hkept⟩ := hmove.slots h.holding.sane h.slots
  obtain ⟨slot, hslot, hfd⟩ := h.slot
  obtain ⟨slot', hslot', hfd'⟩ := hkept.slot i slot hslot (hfd ▸ h.fd_nonneg) not_false
  exact ⟨h.holding.move hmove, hslots, ⟨slot', hslot', hfd'.trans hfd⟩,
    hkept.revents.trans h.revents_eq⟩

theorem removes (h : Tracked loopId cast s₀ id i revents s) {id' : ConnectionId}
    (hne : (s₀.connections id').channel.fd ≠ (s₀.connections id).channel.fd)
    (hremoves : Removes (pollSetting loopId cast) id' s s') :
    Tracked loopId cast s₀ id i revents s' := by
  obtain ⟨hslots, hkept⟩ := hremoves.slots h.holding.sane h.slots
  obtain ⟨slot, hslot, hfd⟩ := h.slot
  have hfd' : (s.connections id').channel.fd = (s₀.connections id').channel.fd :=
    h.holding.fixed.channel_fd (.connection id')
  obtain ⟨slot', hslot', hslotfd⟩ := hkept.slot i slot hslot (hfd ▸ h.fd_nonneg)
    fun heq => hne (hfd'.symm.trans (heq.symm.trans hfd))
  exact ⟨h.holding.removes hne hremoves, hslots, ⟨slot', hslot', hslotfd.trans hfd⟩,
    hkept.revents.trans h.revents_eq⟩

theorem moves (h : Tracked loopId cast s₀ id i revents s)
    (hmoves : Moves (pollSetting loopId cast) s s') : Tracked loopId cast s₀ id i revents s' :=
  hmoves.keeps (fun _ _ => move) h

theorem activeIf (h : Tracked loopId cast s₀ id i revents s) {reported : Prop} [Decidable reported]
    {fd : ℤ} (hne : fd ≠ (s₀.connections id).channel.fd) {events : Events}
    (hevents : events = eventRead ∨ events = eventWrite) {script : CallScript}
    (hret : s.activeIf (pollSetting loopId cast) reported fd events script = .ok s') :
    Tracked loopId cast s₀ id i revents s' :=
  activeIf_keeps (fun _ hs => hs.holding.sane) (fun _ _ => move)
    (fun _ _ _ hne hs => hs.removes hne) hevents h
    (fun _ hentry => h.holding.reported hentry ▸ hne) hret

/-- A slot that is visited and is not that of the connection. -/
theorem pollActive (h : Tracked loopId cast s₀ id i revents s) {j : ℕ} (hj : j ≠ i)
    {pollFd : PollFd} (hload : s.loop.dispatcherData[j]? = some pollFd) (h0 : 0 ≤ pollFd.fd)
    {script : PassScript}
    (hret : s.pollActive (pollSetting loopId cast) pollFd script = .ok s') :
    Tracked loopId cast s₀ id i revents s' := by
  obtain ⟨slot, hslot, hfd⟩ := h.slot
  have hne : pollFd.fd ≠ (s₀.connections id).channel.fd := fun heq =>
    hj (h.slots.unique j i pollFd slot hload hslot h0 (heq.trans hfd.symm))
  obtain ⟨s₁, hread, hwrite⟩ := bind_eq_ok.mp hret
  exact (h.activeIf hne (.inl rfl) hread).activeIf hne (.inr rfl) hwrite

/-- The slot of the connection: the connection is closed if the pass reads from it and
the read ends it. -/
theorem pollActive_self (h : Tracked loopId cast s₀ id i revents s) {pollFd : PollFd}
    (hfd : pollFd.fd = (s₀.connections id).channel.fd) {script : PassScript}
    (hret : s.pollActive (pollSetting loopId cast) pollFd script = .ok s') :
    if pollFd.revents &&& pollRdNorm ≠ 0 ∧ script.read.read.Ends then
      Gone (pollSetting loopId cast) id (s₀.closed.count id +
        if (s₀.connections id).callbacks.onConnectionClosed then 1 else 0) s'
    else Tracked loopId cast s₀ id i revents s' := by
  obtain ⟨s₁, hread, hwrite⟩ := bind_eq_ok.mp hret
  have hafter : ∀ s₁, Tracked loopId cast s₀ id i revents s₁ →
      s₁.activeIf (pollSetting loopId cast) (pollFd.revents &&& pollWrNorm ≠ 0) pollFd.fd eventWrite
        script.write = .ok s' → Tracked loopId cast s₀ id i revents s' := by
    intro s₁ h₁ hwrite
    unfold LoopState.activeIf at hwrite
    split_ifs at hwrite
    · exact h₁.moves (active_write h₁.holding.sane hwrite)
    · cases hwrite
      exact h₁
  by_cases hreported : pollFd.revents &&& pollRdNorm ≠ 0
  · rw [LoopState.activeIf, if_pos hreported, hfd] at hread
    rcases active_read h.holding.sane hread with ⟨id', hentry, hends, hcloses⟩ | ⟨hno, hmoves⟩
    · rw [if_pos ⟨hreported, hends⟩]
      obtain rfl : id' = id := by simpa using hentry.symm.trans h.holding.entry
      exact (h.holding.closes hcloses).activeIf (.inr rfl) hwrite
    · rw [if_neg fun hboth => hno id h.holding.entry hboth.2]
      exact hafter s₁ (h.moves hmoves) hwrite
  · rw [if_neg fun hboth => hreported hboth.1]
    rw [LoopState.activeIf, if_neg hreported] at hread
    cases hread
    exact hafter s h hwrite

end Tracked

/-! ### The scan -/

theorem load_eq_some {α : Type} {block : List α} {i : ℕ} {x : α} (h : load block (i : ℤ) = .ok x) :
    block[i]? = some x := by
  have hlt := lt_length_of_load h
  rw [Int.toNat_natCast] at hlt
  rw [load_natCast block hlt] at h
  rw [List.getElem?_eq_getElem hlt, Except.ok.inj h]

/-- What every visited slot from `i` on keeps, the rest of the pass keeps. -/
theorem pollScan_keeps {S : Setting (List PollFd)} {scripts : ℕ → PassScript}
    {Q : LoopState (List PollFd) → Prop} {n i : ℕ} {readyNumber : ℤ}
    (hslot : ∀ s s' j pollFd, i ≤ j → Q s → s.loop.dispatcherData[j]? = some pollFd →
      0 ≤ pollFd.fd → s.pollActive S pollFd (scripts j) = .ok s' → Q s')
    (hs : Q s) (h : pollScan S scripts n i readyNumber s = .ok s') : Q s' := by
  induction n generalizing i readyNumber s with
  | zero => cases h; exact hs
  | succ n ih =>
    have hrest := fun s s' j pollFd (hj : i + 1 ≤ j) => hslot s s' j pollFd (by omega)
    obtain ⟨pollFd, hload, h⟩ := bind_eq_ok.mp h
    split at h
    · exact ih hrest hs h
    split at h
    · obtain ⟨s₁, hactive, h⟩ := bind_eq_ok.mp h
      have hs₁ := hslot s s₁ i pollFd le_rfl hs (load_eq_some hload) (by omega) hactive
      split at h
      · cases h
        exact hs₁
      · exact ih hrest hs₁ h
    · exact ih hrest hs h

/-- What is positive as a `short` is a report. -/
theorem ne_zero_of_toInt_pos {revents : BitVec 16} (h : 0 < revents.toInt) : revents ≠ 0 := by
  rintro rfl
  exact absurd h (by decide)

/-- The number of slots from `i` on that something is reported for. -/
def reportedFrom (revents : List (BitVec 16)) (i : ℕ) : ℕ :=
  (revents.drop i).countP (· ≠ 0)

theorem reportedFrom_step {revents : List (BitVec 16)} {i : ℕ} {r : BitVec 16}
    (h : revents[i]? = some r) :
    reportedFrom revents i = reportedFrom revents (i + 1) + if r ≠ 0 then 1 else 0 := by
  obtain ⟨hlt, rfl⟩ := List.getElem?_eq_some_iff.mp h
  simp only [reportedFrom, List.drop_eq_getElem_cons hlt, List.countP_cons, decide_eq_true_eq]

theorem reportedFrom_pos {revents : List (BitVec 16)} {i j : ℕ} {r : BitVec 16}
    (h : revents[i]? = some r) (hr : r ≠ 0) (hj : j ≤ i) : 0 < reportedFrom revents j := by
  refine List.countP_pos_iff.mpr ⟨r, ?_, decide_eq_true hr⟩
  refine List.mem_of_getElem? (i := i - j) ?_
  rw [List.getElem?_drop, ← h]
  congr 1
  omega

theorem Tracked.revents_at {i : ℕ} {revents : List (BitVec 16)}
    (h : Tracked loopId cast s₀ id i revents s) {j : ℕ} {pollFd : PollFd}
    (hload : s.loop.dispatcherData[j]? = some pollFd) : revents[j]? = some pollFd.revents := by
  rw [← h.revents_eq, List.getElem?_map, hload]
  rfl

/-- The pass gets to the slot of the connection. -/
theorem Tracked.reaches {i : ℕ} {revents : List (BitVec 16)} {scripts : ℕ → PassScript}
    {r : BitVec 16} (hr : revents[i]? = some r) (hne : r ≠ 0) {n j : ℕ} {readyNumber : ℤ}
    (h : Tracked loopId cast s₀ id i revents s) (hj : j ≤ i) (hi : i < j + n)
    (hready : (reportedFrom revents j : ℤ) ≤ readyNumber)
    (hret : pollScan (pollSetting loopId cast) scripts n j readyNumber s = .ok s') :
    ∃ s₁ n₁ ready₁, Tracked loopId cast s₀ id i revents s₁ ∧
      pollScan (pollSetting loopId cast) scripts (n₁ + 1) i ready₁ s₁ = .ok s' := by
  induction n generalizing j readyNumber s with
  | zero => omega
  | succ n ih =>
    rcases hj.eq_or_lt with rfl | hlt
    · exact ⟨s, n, readyNumber, h, hret⟩
    obtain ⟨pollFd, hload, hret⟩ := bind_eq_ok.mp hret
    have hload := load_eq_some hload
    have hstep := reportedFrom_step (h.revents_at hload)
    -- the slot of the connection is still to come
    have hnext : j + 1 ≤ i := hlt
    have hpos := reportedFrom_pos hr hne hnext
    have hready' : (reportedFrom revents (j + 1) : ℤ) ≤ readyNumber := by
      split_ifs at hstep <;> omega
    have hcounted : 0 < pollFd.revents.toInt →
        (reportedFrom revents (j + 1) : ℤ) ≤ readyNumber - 1 := by
      intro hreported
      rw [if_pos (ne_zero_of_toInt_pos hreported)] at hstep
      omega
    split_ifs at hret with hfree hreported hbreak
    · exact ih h hnext (by omega) hready' hret
    · have := hcounted hreported
      omega
    · obtain ⟨s₁, hactive, hret⟩ := bind_eq_ok.mp hret
      have h₁ := h.pollActive hlt.ne hload (by omega) hactive
      exact ih h₁ hnext (by omega) (hcounted hreported) hret
    · exact ih h hnext (by omega) hready' hret

/-- The rest of the pass from the slot of the connection on. -/
theorem Tracked.visits {i : ℕ} {revents : List (BitVec 16)} {scripts : ℕ → PassScript}
    {r : BitVec 16} (h : Tracked loopId cast s₀ id i revents s) (hr : revents[i]? = some r)
    (hpos : 0 < r.toInt) {n : ℕ} {readyNumber : ℤ}
    (hret : pollScan (pollSetting loopId cast) scripts (n + 1) i readyNumber s = .ok s') :
    if r &&& pollRdNorm ≠ 0 ∧ (scripts i).read.read.Ends then
      Gone (pollSetting loopId cast) id (s₀.closed.count id +
        if (s₀.connections id).callbacks.onConnectionClosed then 1 else 0) s'
    else Holding (pollSetting loopId cast) s₀ id s' := by
  obtain ⟨pollFd, hload, hret⟩ := bind_eq_ok.mp hret
  have hload := load_eq_some hload
  obtain ⟨slot, hslot, hfd⟩ := h.slot
  obtain rfl : slot = pollFd := Option.some.inj (hslot.symm.trans hload)
  obtain rfl : r = slot.revents := Option.some.inj (hr.symm.trans (h.revents_at hload))
  have h0 := hfd ▸ h.fd_nonneg
  rw [if_neg (not_lt.mpr h0), if_pos hpos] at hret
  obtain ⟨s₁, hactive, hret⟩ := bind_eq_ok.mp hret
  have hself := h.pollActive_self hfd hactive
  by_cases hends : slot.revents &&& pollRdNorm ≠ 0 ∧ (scripts i).read.read.Ends
  · rw [if_pos hends] at hself ⊢
    -- the connection is gone, and stays so whatever the other slots report
    split_ifs at hret
    · cases hret
      exact hself
    · refine pollScan_keeps ?_ hself hret
      intro s s' j pollFd _ hs _ _ hactive
      obtain ⟨s₁, hread, hwrite⟩ := bind_eq_ok.mp hactive
      exact (hs.activeIf (.inl rfl) hread).activeIf (.inr rfl) hwrite
  · rw [if_neg hends] at hself ⊢
    split_ifs at hret
    · cases hret
      exact hself.holding
    · exact (pollScan_keeps (fun s s' j pollFd hj hs hload h0 hactive =>
        hs.pollActive (by omega) hload h0 hactive) hself hret).holding

/-! ### The pass -/

/-- The flags are positive as a `short`. -/
theorem setWidth_toInt_pos {x : BitVec 15} (h : x ≠ 0) : 0 < (x.setWidth 16).toInt := by
  have hlt := x.isLt
  have hpos : x.toNat ≠ 0 := fun heq => h (BitVec.eq_of_toNat_eq heq)
  rw [BitVec.toInt_eq_toNat_of_lt] <;> rw [BitVec.toNat_setWidth, Nat.mod_eq_of_lt] <;> omega

theorem getElem?_pollReturns (revents : ℕ → BitVec 15) (data : List PollFd) (i : ℕ) :
    (pollReturns revents data)[i]? = data[i]?.map fun slot =>
      { slot with revents := if slot.fd < 0 then 0 else (revents i).setWidth 16 } := by
  simp only [pollReturns, List.getElem?_map, List.getElem?_zipIdx, Option.map_map, zero_add]
  rfl

theorem length_pollReturns (revents : ℕ → BitVec 15) (data : List PollFd) :
    (pollReturns revents data).length = data.length := by
  simp [pollReturns]

/-- `poll` changes no descriptor. -/
theorem slotsMatch_pollReturns {κ : Type} {data : List PollFd} {channels : ℤ → Option κ}
    (h : SlotsMatch data channels) (revents : ℕ → BitVec 15) :
    SlotsMatch (pollReturns revents data) channels := by
  have hcell : ∀ (i : ℕ) (a : PollFd), (pollReturns revents data)[i]? = some a →
      ∃ b : PollFd, data[i]? = some b ∧ b.fd = a.fd := by
    intro i a ha
    rw [getElem?_pollReturns] at ha
    obtain ⟨b, hb, rfl⟩ := Option.map_eq_some_iff.mp ha
    exact ⟨b, hb, rfl⟩
  constructor
  · intro i j a b ha hb h0 heq
    obtain ⟨a', ha', hafd⟩ := hcell i a ha
    obtain ⟨b', hb', hbfd⟩ := hcell j b hb
    exact h.unique i j a' b' ha' hb' (hafd ▸ h0) (hafd.trans (heq.trans hbfd.symm))
  · intro i a ha h0
    obtain ⟨a', ha', hafd⟩ := hcell i a ha
    rw [← hafd]
    exact h.watched i a' ha' (hafd ▸ h0)

/-- The result of `poll` is the number of slots with a report. -/
theorem pollReady_eq (data : List PollFd) :
    pollReady data = reportedFrom (data.map PollFd.revents) 0 := by
  simp only [pollReady, reportedFrom, List.drop_zero, List.countP_map]
  rfl

theorem PollInv.polled (h : PollInv loopId cast s) (revents : ℕ → BitVec 15) :
    PollInv loopId cast (s.polled revents) :=
  ⟨h.sane.of_entries ⟨fun _ => rfl, rfl, rfl⟩ h.sane.wellFormed (fun _ hc => hc)
    (fun _ _ => .inl), slotsMatch_pollReturns h.slots revents,
    (length_pollReturns revents _).trans h.length_eq⟩

theorem PollInv.pollDispatch (h : PollInv loopId cast s) {revents : ℕ → BitVec 15}
    {scripts : ℕ → PassScript}
    (hret : s.pollDispatch (pollSetting loopId cast) revents scripts = .ok s') :
    PollInv loopId cast s' := by
  unfold LoopState.pollDispatch at hret
  dsimp only at hret
  split at hret
  · cases hret
    exact h.polled revents
  · exact pollScan_keeps (fun _ _ _ _ _ hs _ _ => hs.pollActive) (h.polled revents) hret

/-- A registered connection with a slot for which anything is reported. -/
theorem PollInv.pass (h : PollInv loopId cast s)
    (hentry : s.loop.channelMap.entry (s.connections id).channel.fd = some (.connection id)) {i : ℕ}
    {slot : PollFd} (hslot : s.loop.dispatcherData[i]? = some slot)
    (hfd : slot.fd = (s.connections id).channel.fd) {revents : ℕ → BitVec 15}
    (hreported : revents i ≠ 0) {scripts : ℕ → PassScript}
    (hret : s.pollDispatch (pollSetting loopId cast) revents scripts = .ok s') :
    if (revents i).setWidth 16 &&& pollRdNorm ≠ 0 ∧ (scripts i).read.read.Ends then
      Gone (pollSetting loopId cast) id (s.closed.count id +
        if (s.connections id).callbacks.onConnectionClosed then 1 else 0) s'
    else Holding (pollSetting loopId cast) s id s' := by
  have h0 : 0 ≤ slot.fd := hfd ▸ (h.sane.wellFormed.lt_of_entry hentry).1
  have hpolled := h.polled revents
  have hcell : (s.polled revents).loop.dispatcherData[i]? =
      some { slot with revents := (revents i).setWidth 16 } := by
    rw [LoopState.polled, getElem?_pollReturns, hslot, Option.map_some, if_neg (not_lt.mpr h0)]
  have htracked : Tracked loopId cast s id i
      ((s.polled revents).loop.dispatcherData.map PollFd.revents) (s.polled revents) :=
    ⟨⟨hpolled.sane, ⟨fun _ => rfl, rfl, rfl⟩, hentry, rfl⟩, hpolled.slots, ⟨_, hcell, hfd⟩, rfl⟩
  have hrevents := htracked.revents_at hcell
  have hpositive := setWidth_toInt_pos hreported
  have hnonzero := ne_zero_of_toInt_pos hpositive
  have hready := pollReady_eq (s.polled revents).loop.dispatcherData
  have hpos := reportedFrom_pos hrevents hnonzero (Nat.zero_le i)
  have hi : i < initPollSize := by
    rw [← h.length_eq]
    exact (List.getElem?_eq_some_iff.mp hslot).1
  unfold LoopState.pollDispatch at hret
  dsimp only at hret
  rw [hready, if_neg (by omega)] at hret
  obtain ⟨s₁, n₁, ready₁, h₁, hret⟩ :=
    htracked.reaches hrevents hnonzero (Nat.zero_le i) (by omega) le_rfl hret
  exact h₁.visits hrevents hpositive hret

end LoopState

end OsProgramming.Reactor
