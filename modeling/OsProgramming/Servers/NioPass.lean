import OsProgramming.Library.Runs
import OsProgramming.Servers.NioServer

/-! The client pass of `nio_server.c`. One variable, which has no initialiser, takes the
return values of the two handlers of a client, and the client is closed if it is not 0 in
the end. -/

namespace OsProgramming.Servers.NioServer

open Library Reactor

/-- The return values of the handlers that are called for a client. -/
def handlerReturns (buffer : Buffer) (inRead inWrite : Bool) (turn : Turn) : Result (List ℤ) := do
  let (buffer, _, readResult) ← serveRead buffer inRead turn
  let (_, _, writeResult) ← serveWrite buffer inWrite turn readResult
  .ok ((if inRead && turn.readable then [readResult] else []) ++
    if inWrite && turn.writable then [writeResult] else [])

/-- The handlers that are called for a client in a pass that starts in `s`. -/
def passReturns (s : Server) (pass : Pass) (buffer : Buffer) : Result (List ℤ) :=
  handlerReturns buffer (buffer.connectFd ∈ readSet s.buffers)
    (buffer.connectFd ∈ writeSet s.buffers) (pass.turn buffer.connectFd)

/-- The slot of the client of a descriptor, after `accept`. -/
structure IsClient (serverFd : ℤ) (s : Server) (pass : Pass) (i : ℕ) (buffer : Buffer) : Prop where
  slot : ∃ s₁, acceptClient s pass.accepted = .ok s₁ ∧ s₁.buffers[i]? = some buffer
  connected : 0 ≤ buffer.connectFd
  notServer : buffer.connectFd ≠ serverFd

/-- A client is closed if and only if one of its handlers has returned non-zero. -/
def DisconnectsExactly (serverFd : ℤ) (s : Server) (pass : Pass) (s' : Server) : Prop :=
  ∀ i buffer, IsClient serverFd s pass i buffer →
    ((∃ buffer', s'.buffers[i]? = some buffer' ∧ buffer'.connectFd = -1) ↔
      ∃ returns, passReturns s pass buffer = .ok returns ∧ ∃ r ∈ returns, r ≠ 0)

/-- The last descriptor of the loop over the clients. -/
def maxFd (serverFd : ℤ) (s : Server) : ℤ := (readSet s.buffers).foldl max serverFd

/-- If no handler is called, the variable holds 0; if the readable one ends the client and the
other one is called too, that one ends it as well. -/
def Settles (result : ℤ) (returns : List ℤ) : Prop :=
  (returns = [] → result = 0) ∧ ∀ r w, returns = [r, w] → r ≠ 0 → w ≠ 0

/-- So it is for every client that the loop comes to. -/
def SettlesAll (serverFd : ℤ) (s : Server) (pass : Pass) : Prop :=
  ∀ i buffer, IsClient serverFd s pass i buffer → i < (maxFd serverFd s + 1).toNat →
    ∀ returns, passReturns s pass buffer = .ok returns →
      Settles (pass.turn buffer.connectFd).result returns

/-! ### The variable -/

section

variable {buffer buffer' : Buffer} {received sent : List Byte} {result : ℤ} {turn : Turn}

/-- What is left in the variable. -/
inductive Left (result : ℤ) : List ℤ → ℤ → Prop
  | none : Left result [] result
  | one (r : ℤ) : Left result [r] r
  | both (r w : ℤ) : Left result [r, w] w

theorem serve_left {inRead inWrite : Bool}
    (h : serve buffer inRead inWrite turn = .ok (buffer', received, sent, result)) :
    ∃ returns, handlerReturns buffer inRead inWrite turn = .ok returns ∧
      Left turn.result returns result := by
  obtain ⟨⟨buffer₁, received₁, readResult⟩, hread, h⟩ := bind_eq_ok.mp h
  obtain ⟨⟨buffer₂, sent₂, writeResult⟩, hwrite, h⟩ := bind_eq_ok.mp h
  cases h
  have hreturns : handlerReturns buffer inRead inWrite turn = .ok
      ((if inRead && turn.readable then [readResult] else []) ++
        if inWrite && turn.writable then [result] else []) := by
    simp only [handlerReturns, hread, ok_bind, hwrite]
  refine ⟨_, hreturns, ?_⟩
  cases hr : inRead && turn.readable
  all_goals cases hw : inWrite && turn.writable
  all_goals simp only [serveRead, serveWrite, hr, hw] at hread hwrite ⊢
  · cases hread
    cases hwrite
    exact .none
  · exact .one result
  · cases hwrite
    exact .one result
  · exact .both readResult result

theorem Left.settles_iff {initial : ℤ} {returns : List ℤ} (h : Left initial returns result) :
    (result ≠ 0 ↔ ∃ r ∈ returns, r ≠ 0) ↔ Settles initial returns := by
  cases h with
  | none => simp [Settles]
  | one r => simp [Settles]
  | both r =>
    simp only [Settles, List.mem_cons, List.not_mem_nil, or_false, exists_eq_or_imp,
      exists_eq_left, List.cons.injEq, and_true]
    constructor
    · intro hiff
      refine ⟨nofun, ?_⟩
      rintro r' w' ⟨rfl, rfl⟩ hne
      exact hiff.mpr (.inl hne)
    · intro hsettles
      exact ⟨.inr, fun hor => hor.elim (hsettles.2 r result ⟨rfl, rfl⟩) id⟩

/-! ### The descriptor stays in its slot -/

theorem keepByte_connectFd {c : Byte} (h : keepByte buffer c = .ok buffer') :
    buffer'.connectFd = buffer.connectFd := by
  obtain ⟨buffer₁, hput, h⟩ := bind_eq_ok.mp h
  cases h
  have hmark : (markReadable buffer₁ c).connectFd = buffer₁.connectFd := by
    rw [markReadable]
    split_ifs <;> rfl
  rw [hmark]
  rw [putByte] at hput
  split_ifs at hput
  · obtain ⟨block, -, hput⟩ := bind_eq_ok.mp hput
    cases hput
    rfl
  · cases hput
    rfl

theorem onSocketReadable_connectFd {answers : List ReadAnswer}
    (h : onSocketReadable buffer answers = .ok (buffer', received, result)) :
    buffer'.connectFd = buffer.connectFd := by
  induction answers generalizing buffer received with
  | nil => cases h; rfl
  | cons answer answers ih =>
    cases answer with
    | failed errno => cases h; rfl
    | offered bytes =>
      rw [onSocketReadable] at h
      split_ifs at h
      · cases h
        rfl
      · obtain ⟨buffer₁, hkeep, h⟩ := bind_eq_ok.mp h
        obtain ⟨⟨buffer₂, received₂, result₂⟩, hrest, h⟩ := bind_eq_ok.mp h
        cases h
        rw [ih hrest]
        exact foldlM_keeps (fun b _ b' (hb : b.connectFd = buffer.connectFd) hkeep =>
          (keepByte_connectFd hkeep).trans hb) rfl hkeep

theorem writtenAll_connectFd (buffer : Buffer) :
    (writtenAll buffer).connectFd = buffer.connectFd := by
  rw [writtenAll]
  split_ifs <;> rfl

theorem onSocketWriteable_connectFd {answers : List WriteAnswer}
    (h : onSocketWriteable buffer answers = .ok (buffer', sent, result)) :
    buffer'.connectFd = buffer.connectFd := by
  induction answers generalizing buffer sent with
  | nil =>
    cases h
    split_ifs
    · rfl
    · exact writtenAll_connectFd buffer
  | cons answer answers ih =>
    simp only [onSocketWriteable] at h
    split_ifs at h
    · cases answer with
      | failed errno => cases h; rfl
      | accepts room =>
        obtain ⟨bytes, -, h⟩ := bind_eq_ok.mp h
        obtain ⟨⟨buffer₂, sent₂, result₂⟩, hrest, h⟩ := bind_eq_ok.mp h
        cases h
        rw [ih hrest]
    · cases h
      exact writtenAll_connectFd buffer

theorem serve_connectFd {inRead inWrite : Bool}
    (h : serve buffer inRead inWrite turn = .ok (buffer', received, sent, result)) :
    buffer'.connectFd = buffer.connectFd := by
  obtain ⟨⟨buffer₁, received₁, readResult⟩, hread, h⟩ := bind_eq_ok.mp h
  obtain ⟨⟨buffer₂, sent₂, writeResult⟩, hwrite, h⟩ := bind_eq_ok.mp h
  cases h
  have hread' : buffer₁.connectFd = buffer.connectFd := by
    rw [serveRead] at hread
    split_ifs at hread
    · exact onSocketReadable_connectFd hread
    · cases hread
      rfl
  rw [serveWrite] at hwrite
  split_ifs at hwrite
  · exact (onSocketWriteable_connectFd hwrite).trans hread'
  · cases hwrite
    exact hread'

end

/-! ### The pass -/

section

variable {serverFd : ℤ} {s s' : Server} {pass : Pass} {reads writes : List ℤ}

/-- What a round of the loop over the clients does to the slot of its index. -/
def Visited (serverFd : ℤ) (reads writes : List ℤ) (pass : Pass) (_ : ℕ) :
    Option Buffer → Option Buffer → Prop
  | none, _ => False
  | some buffer, slot =>
    if buffer.connectFd < 0 ∨ buffer.connectFd = serverFd then slot = some buffer
    else ∃ buffer' received sent result, serve buffer (buffer.connectFd ∈ reads)
        (buffer.connectFd ∈ writes) (pass.turn buffer.connectFd) =
          .ok (buffer', received, sent, result) ∧
      slot = some (if result ≠ 0 then { buffer' with connectFd := -1 } else buffer')

theorem handleClient_visited {i : ℕ} (h : handleClient serverFd reads writes pass s i = .ok s') :
    Visited serverFd reads writes pass i s.buffers[i]? s'.buffers[i]? ∧
      ∀ j, j ≠ i → s'.buffers[j]? = s.buffers[j]? := by
  obtain ⟨buffer, hload, h⟩ := bind_eq_ok.mp h
  have hget := getElem?_of_load hload
  have hlt := (List.getElem?_eq_some_iff.mp hget).1
  rw [hget, Visited]
  dsimp only at h
  split_ifs at h ⊢ with hskip
  · cases h
    exact ⟨hget, fun _ _ => rfl⟩
  · obtain ⟨⟨buffer', received, sent, result⟩, hserve, h⟩ := bind_eq_ok.mp h
    dsimp only at h
    rw [store_one _ hlt, ok_bind] at h
    cases h
    exact ⟨⟨buffer', received, sent, result, hserve, List.getElem?_set_self hlt⟩,
      fun j hj => List.getElem?_set_ne (Ne.symm hj)⟩

/-- A slot that is in use is that of its descriptor. -/
def Slots (s : Server) : Prop :=
  ∀ (i : ℕ) buffer, s.buffers[i]? = some buffer → 0 ≤ buffer.connectFd → buffer.connectFd = i

theorem slots_init (fill : ℕ → ℕ → Byte) : Slots (init fill) := by
  intro i buffer hget hfd
  obtain ⟨j, -, rfl⟩ := List.mem_map.mp (List.mem_of_getElem? hget)
  exact absurd hfd (show ¬ (0 : ℤ) ≤ -1 by decide)

theorem Slots.acceptClient (h : Slots s) {accepted : Option ℤ}
    (hret : acceptClient s accepted = .ok s') : Slots s' := by
  cases accepted with
  | none =>
    cases hret
    exact h
  | some fd =>
    rw [NioServer.acceptClient] at hret
    split_ifs at hret with hneg
    obtain ⟨i, rfl⟩ := Int.eq_ofNat_of_zero_le (not_lt.mp hneg)
    obtain ⟨buffer, hload, hret⟩ := bind_eq_ok.mp hret
    have hlt := (List.getElem?_eq_some_iff.mp (getElem?_of_load hload)).1
    split_ifs at hret
    rw [store_one _ hlt, ok_bind] at hret
    cases hret
    intro j buffer' hget hfd
    by_cases hj : j = i
    · subst hj
      rw [List.getElem?_set_self hlt] at hget
      cases hget
      rfl
    · rw [List.getElem?_set_ne (Ne.symm hj)] at hget
      exact h j buffer' hget hfd

theorem Slots.visited (h : Slots s) (hothers : ∀ i : ℕ, s'.buffers[i]? = s.buffers[i]? ∨
    Visited serverFd reads writes pass i s.buffers[i]? s'.buffers[i]?) : Slots s' := by
  intro i buffer' hget hfd
  rcases hothers i with heq | hvisited
  · exact h i buffer' (heq ▸ hget) hfd
  · cases hslot : s.buffers[i]? with
    | none =>
      rw [hslot] at hvisited
      exact hvisited.elim
    | some buffer =>
      rw [hslot, hget, Visited] at hvisited
      split_ifs at hvisited
      · cases hvisited
        exact h i _ hslot hfd
      · obtain ⟨buffer₁, received, sent, result, hserve, heq⟩ := hvisited
        cases heq
        have hkept := serve_connectFd hserve
        split_ifs at hfd ⊢
        · exact absurd hfd (show ¬ (0 : ℤ) ≤ -1 by decide)
        · rw [hkept] at hfd ⊢
          exact h i buffer hslot hfd

/-- One round of the loop of `main` is an `accept`, and a visit of each slot of the loop. -/
theorem step_cases (hret : step serverFd s pass = .ok s') :
    ∃ s₁, acceptClient s pass.accepted = .ok s₁ ∧ ∀ i,
      (i < (maxFd serverFd s + 1).toNat → Visited serverFd (readSet s.buffers) (writeSet s.buffers)
        pass i s₁.buffers[i]? s'.buffers[i]?) ∧
      (¬ i < (maxFd serverFd s + 1).toNat → s'.buffers[i]? = s₁.buffers[i]?) := by
  simp only [NioServer.step] at hret
  split_ifs at hret
  obtain ⟨s₁, hs₁, hret⟩ := bind_eq_ok.mp hret
  refine ⟨s₁, hs₁, fun i => ?_⟩
  have hvisits : (i ∈ List.range _ → Visited _ _ _ _ i s₁.buffers[i]? s'.buffers[i]?) ∧
      (i ∉ List.range _ → s'.buffers[i]? = s₁.buffers[i]?) :=
    foldlM_entries (fun _ _ _ => handleClient_visited) List.nodup_range hret i
  rwa [List.mem_range] at hvisits

theorem Slots.step (h : Slots s) (hret : step serverFd s pass = .ok s') : Slots s' := by
  obtain ⟨s₁, hs₁, hvisits⟩ := step_cases hret
  refine (h.acceptClient hs₁).visited (fun i => ?_ : ∀ i : ℕ, s'.buffers[i]? = s₁.buffers[i]? ∨
    Visited serverFd (readSet s.buffers) (writeSet s.buffers) pass i s₁.buffers[i]? s'.buffers[i]?)
  by_cases hi : i < (maxFd serverFd s + 1).toNat
  · exact .inr ((hvisits i).1 hi)
  · exact .inl ((hvisits i).2 hi)

theorem le_maxFd {fd : ℤ} (h : fd ∈ readSet s.buffers) : fd ≤ maxFd serverFd s :=
  (List.max?_eq_some_iff.mp List.max?_cons').2 fd (List.mem_cons_of_mem _ h)

theorem mem_readSet_of_mem_writeSet {buffers : List Buffer} {fd : ℤ} (h : fd ∈ writeSet buffers) :
    fd ∈ readSet buffers := by
  simp only [readSet, writeSet, List.mem_map, List.mem_filter, decide_eq_true_eq] at h ⊢
  obtain ⟨buffer, ⟨hmem, hfd, -⟩, heq⟩ := h
  exact ⟨buffer, ⟨hmem, hfd⟩, heq⟩

/-- A descriptor behind the last one of the loop is in neither set. -/
theorem passReturns_of_maxFd_lt {buffer : Buffer} (h : maxFd serverFd s < buffer.connectFd) :
    passReturns s pass buffer = .ok [] := by
  have hread : buffer.connectFd ∉ readSet s.buffers := fun hmem =>
    not_lt.mpr (le_maxFd hmem) h
  have hwrite : buffer.connectFd ∉ writeSet s.buffers := fun hmem =>
    hread (mem_readSet_of_mem_writeSet hmem)
  simp [passReturns, handlerReturns, serveRead, serveWrite, hread, hwrite]

/-- A client that the loop comes to is closed for the right reason if and only if its variable
settles. -/
theorem Visited.closed_iff {i : ℕ} {buffer : Buffer} {slot : Option Buffer}
    (h : Visited serverFd reads writes pass i (some buffer) slot) (hfd : 0 ≤ buffer.connectFd)
    (hserver : buffer.connectFd ≠ serverFd) :
    ∃ returns, handlerReturns buffer (buffer.connectFd ∈ reads) (buffer.connectFd ∈ writes)
        (pass.turn buffer.connectFd) = .ok returns ∧
      (((∃ buffer', slot = some buffer' ∧ buffer'.connectFd = -1) ↔ ∃ r ∈ returns, r ≠ 0) ↔
        Settles (pass.turn buffer.connectFd).result returns) := by
  rw [Visited, if_neg (not_or.mpr ⟨not_lt.mpr hfd, hserver⟩)] at h
  obtain ⟨buffer', received, sent, result, hserve, rfl⟩ := h
  obtain ⟨returns, hreturns, hleft⟩ := serve_left hserve
  refine ⟨returns, hreturns, ?_⟩
  rw [← hleft.settles_iff]
  have hopen : buffer'.connectFd ≠ -1 := by
    rw [serve_connectFd hserve]
    omega
  have hclosed : (∃ buffer'', some (if result ≠ 0 then { buffer' with connectFd := -1 }
      else buffer') = some buffer'' ∧ buffer''.connectFd = -1) ↔ result ≠ 0 := by
    split_ifs with hresult <;> simp [hresult, hopen]
  rw [hclosed]

/-- A pass closes the clients that have asked for it if and only if the variable settles for
every client that the loop comes to. -/
theorem disconnectsExactly_iff (hslots : Slots s) (hret : step serverFd s pass = .ok s') :
    DisconnectsExactly serverFd s pass s' ↔ SettlesAll serverFd s pass := by
  obtain ⟨s₁, hs₁, hvisits⟩ := step_cases hret
  refine forall₂_congr fun i buffer => forall_congr' fun hclient => ?_
  obtain ⟨s₂, hs₂, hslot⟩ := hclient.slot
  cases hs₁.symm.trans hs₂
  by_cases hi : i < (maxFd serverFd s + 1).toNat
  · have hvisited := (hvisits i).1 hi
    rw [hslot] at hvisited
    obtain ⟨returns, hreturns, hiff⟩ := hvisited.closed_iff hclient.connected hclient.notServer
    have hpass : passReturns s pass buffer = .ok returns := hreturns
    simp only [hpass, Except.ok.injEq, exists_eq_left', forall_eq', hiff, hi, forall_const]
  · have hfd : buffer.connectFd = i := hslots.acceptClient hs₁ i buffer hslot hclient.connected
    have hlt : maxFd serverFd s < buffer.connectFd := by omega
    have hpass : passReturns s pass buffer = .ok [] := passReturns_of_maxFd_lt hlt
    have hopen : buffer.connectFd ≠ -1 := by omega
    simp [hpass, (hvisits i).2 hi, hslot, hi, hopen]

/-- A client whose variable does not settle. -/
theorem not_disconnectsExactly {i : ℕ} {buffer : Buffer} {returns : List ℤ} (hslots : Slots s)
    (hret : step serverFd s pass = .ok s') (hclient : IsClient serverFd s pass i buffer)
    (hi : i < (maxFd serverFd s + 1).toNat) (hreturns : passReturns s pass buffer = .ok returns)
    (hunsettled : ¬ Settles (pass.turn buffer.connectFd).result returns) :
    ¬ DisconnectsExactly serverFd s pass s' := by
  rw [disconnectsExactly_iff hslots hret]
  exact fun hall => hunsettled (hall i buffer hclient hi returns hreturns)

/-- In every pass of every run. -/
theorem clients_disconnected_iff (fill : ℕ → ℕ → Byte) (serverFd : ℤ) (passes : List Pass)
    (pass : Pass) (s s' : Server)
    (hrun : passes.foldlM (NioServer.step serverFd) (init fill) = .ok s)
    (hret : NioServer.step serverFd s pass = .ok s') :
    DisconnectsExactly serverFd s pass s' ↔ SettlesAll serverFd s pass :=
  disconnectsExactly_iff (foldlM_keeps (fun _ _ _ => Slots.step) (slots_init fill) hrun) hret

end

/-- A turn of a client that sends one line. -/
def lineTurn : Turn := ⟨true, [.offered [97, 10], .failed .ewouldblock], false, [], 0⟩

/-- A turn of a client that is not ready. -/
def quietTurn (result : ℤ) : Turn := ⟨false, [], false, [], result⟩

/-- A turn of a client that has closed its end. -/
def lastTurn (writable : Bool) : Turn := ⟨true, [.offered []], writable, [.accepts maxLine], 0⟩

/-- A client is accepted and sends a line. -/
def lineRun : List Pass :=
  [⟨false, some 4, fun _ => quietTurn 0⟩, ⟨false, none, fun _ => lineTurn⟩]

/-- A client that is not ready is closed for what an earlier one has left in the variable, and
a client that has closed its end stays where the answer to its line can be sent. -/
theorem disconnects_wrong_clients :
    ∃ s, lineRun.foldlM (step 3) (init fun _ _ => 0) = .ok s ∧
      (∃ s', step 3 s ⟨false, none, fun _ => quietTurn 1⟩ = .ok s' ∧
        ¬ DisconnectsExactly 3 s ⟨false, none, fun _ => quietTurn 1⟩ s') ∧
      ∃ s', step 3 s ⟨false, none, fun _ => lastTurn true⟩ = .ok s' ∧
        ¬ DisconnectsExactly 3 s ⟨false, none, fun _ => lastTurn true⟩ s' := by
  obtain ⟨s, hrun, hmax, hclient, hquiet, hlast⟩ :
      ∃ s, lineRun.foldlM (step 3) (init fun _ _ => 0) = .ok s ∧ maxFd 3 s = 4 ∧
        s.buffers[4]?.any (fun buffer => buffer.connectFd = 4 ∧
          (passReturns s ⟨false, none, fun _ => quietTurn 1⟩ buffer).toOption.any (· = []) = true ∧
          (passReturns s ⟨false, none, fun _ => lastTurn true⟩ buffer).toOption.any
            (· = [1, 0]) = true) = true ∧
        (step 3 s ⟨false, none, fun _ => quietTurn 1⟩).toOption.any (fun _ => True) = true ∧
        (step 3 s ⟨false, none, fun _ => lastTurn true⟩).toOption.any (fun _ => True) = true :=
    exists_ok_of_any (by decide +kernel)
  have hslots : Slots s := foldlM_keeps (fun _ _ _ => Slots.step) (slots_init _) hrun
  obtain ⟨buffer, hget, hclient⟩ := (Option.any_eq_true _ _).mp hclient
  obtain ⟨hfd, hidle, hended⟩ := of_decide_eq_true hclient
  have isClient (turn : ℤ → Turn) : IsClient 3 s ⟨false, none, turn⟩ 4 buffer :=
    ⟨⟨s, rfl, hget⟩, by omega, by omega⟩
  have hlt : 4 < (maxFd 3 s + 1).toNat := by omega
  obtain ⟨s₁, hs₁, -⟩ := exists_ok_of_any hquiet
  obtain ⟨s₂, hs₂, -⟩ := exists_ok_of_any hlast
  obtain ⟨_, hidle, rfl⟩ := exists_ok_of_any hidle
  obtain ⟨_, hended, rfl⟩ := exists_ok_of_any hended
  refine ⟨s, hrun, ⟨s₁, hs₁, ?_⟩, s₂, hs₂, ?_⟩
  · exact not_disconnectsExactly hslots hs₁ (isClient _) hlt hidle (by simp [Settles, quietTurn])
  · exact not_disconnectsExactly hslots hs₂ (isClient _) hlt hended (by simp [Settles])

/-- A client that has closed its end and is sent nothing. -/
theorem clients_disconnected_last :
    ∃ s s', lineRun.foldlM (step 3) (init fun _ _ => 0) = .ok s ∧
      step 3 s ⟨false, none, fun _ => lastTurn false⟩ = .ok s' ∧
      s'.buffers[4]?.map Buffer.connectFd = some (-1) ∧
      DisconnectsExactly 3 s ⟨false, none, fun _ => lastTurn false⟩ s' := by
  obtain ⟨s, hrun, hlast⟩ :
      ∃ s, lineRun.foldlM (step 3) (init fun _ _ => 0) = .ok s ∧
        (step 3 s ⟨false, none, fun _ => lastTurn false⟩).toOption.any (fun s' =>
          s'.buffers[4]?.map Buffer.connectFd = some (-1)) = true :=
    exists_ok_of_any (by decide +kernel)
  obtain ⟨s', hs', hclosed⟩ := exists_ok_of_any hlast
  refine ⟨s, s', hrun, hs', hclosed, (clients_disconnected_iff _ _ _ _ s s' hrun hs').mpr ?_⟩
  intro i buffer _ _ returns hreturns
  refine ⟨fun _ => rfl, fun r w hboth => ?_⟩
  subst hboth
  obtain ⟨⟨_, _, _⟩, _, hreturns⟩ := bind_eq_ok.mp hreturns
  obtain ⟨⟨_, _, _⟩, _, hreturns⟩ := bind_eq_ok.mp hreturns
  simp only [lastTurn, Bool.and_true, Bool.and_false, Bool.false_eq_true, if_false, List.append_nil,
    decide_eq_true_eq, Except.ok.injEq] at hreturns
  split_ifs at hreturns
  all_goals cases hreturns

end OsProgramming.Servers.NioServer
