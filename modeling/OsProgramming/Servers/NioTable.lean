import OsProgramming.Servers.Isolation
import OsProgramming.Servers.NioPass

/-! The client table of `nio_server.c`. Descriptors are its indices. The test of the
accepted descriptor lets the size of the table pass, and the loop over the clients goes
up to the listening descriptor, which is not tested. -/

namespace OsProgramming.Servers.NioServer

open Library Reactor

/-! ### Serving a client -/

/-- The bytes of the buffer are those of some client. -/
def Buffer.Sound (buffer : Buffer) : Prop :=
  ∃ client : Client, buffer.Holds client ∧ client.Inv ∧ client.Tidy

variable {buffer : Buffer}

theorem newBuffer_sound (fill : ℕ → Byte) : (newBuffer fill).Sound :=
  ⟨.new, newBuffer_holds fill, .new, .new⟩

theorem Buffer.Sound.withFd (h : buffer.Sound) (fd : ℤ) :
    { buffer with connectFd := fd }.Sound := by
  obtain ⟨client, ⟨hlength, hwrite, htake, hread, hreadable⟩, hinv⟩ := h
  exact ⟨client, ⟨hlength, hwrite, htake, hread, hreadable⟩, hinv⟩

/-- No access of the handlers is out of bounds, whatever `select` and the calls say. -/
theorem Buffer.Sound.serve (h : buffer.Sound) (inRead inWrite : Bool) (turn : Turn) :
    ∃ buffer' received sent result, serve buffer inRead inWrite turn =
        .ok (buffer', received, sent, result) ∧ buffer'.Sound := by
  obtain ⟨client, hholds, hinv⟩ := h
  have hread : ∃ buffer₁ received result, serveRead buffer inRead turn =
      .ok (buffer₁, received, result) ∧ buffer₁.Sound := by
    obtain ⟨buffer₁, received, hserve, hholds₁, -, -, -, -⟩ := serveRead_ok hholds hinv inRead turn
    refine ⟨buffer₁, received, _, hserve, (client.read inRead turn).1, hholds₁, ?_⟩
    rw [Client.read]
    split_ifs
    · exact Client.receive_inv hinv turn.reads
    · exact hinv
  obtain ⟨buffer₁, received, result, hserve, client₁, hholds₁, hinv₁⟩ := hread
  simp only [NioServer.serve, hserve, ok_bind, serveWrite]
  split_ifs
  · obtain ⟨buffer', sent, hwrite, hholds', -⟩ :=
      onSocketWriteable_ok hholds₁ hinv₁.1 turn.writes
    exact ⟨buffer', received, sent, _, by rw [hwrite, ok_bind], _, hholds',
      Client.transmit_inv hinv₁.1 turn.writes⟩
  · exact ⟨buffer₁, received, [], result, rfl, client₁, hholds₁, hinv₁⟩

/-! ### The table -/

/-- The table has its size, and each of its buffers is sound. -/
structure Table (s : Server) : Prop where
  length_eq : s.buffers.length = fdInitSize
  sound : ∀ buffer ∈ s.buffers, buffer.Sound

variable {s s' : Server} {serverFd : ℤ} {pass : Pass} {reads writes : List ℤ}

theorem table_init (fill : ℕ → ℕ → Byte) : Table (init fill) := by
  refine ⟨by rw [init, List.length_map, List.length_range], fun buffer hmem => ?_⟩
  obtain ⟨i, -, rfl⟩ := List.mem_map.mp hmem
  exact newBuffer_sound (fill i)

theorem Table.set (h : Table s) (i : ℕ) (hbuffer : buffer.Sound) (log : ℕ → Log) :
    Table ⟨s.buffers.set i buffer, log⟩ := by
  refine ⟨(List.length_set ..).trans h.length_eq, fun buffer' hmem => ?_⟩
  rcases List.mem_or_eq_of_mem_set hmem with hmem | rfl
  · exact h.sound buffer' hmem
  · exact hbuffer

theorem Table.load (h : Table s) {i : ℕ} (hi : i < fdInitSize) :
    ∃ buffer, Library.load s.buffers i = .ok buffer ∧ s.buffers[i]? = some buffer ∧
      buffer.Sound := by
  have hlt : i < s.buffers.length := h.length_eq ▸ hi
  exact ⟨s.buffers[i], load_natCast _ hlt, List.getElem?_eq_getElem hlt,
    h.sound _ (List.getElem_mem hlt)⟩

theorem Table.load_error (h : Table s) {i : ℕ} (hi : fdInitSize ≤ i) :
    Library.load s.buffers i = .error .outOfBounds :=
  load_of_length_le (h.length_eq ▸ hi)

/-- A descriptor that the accept branch ends the process for: a failure, one beyond the
size, or one whose slot is in use. -/
def Refuses (s : Server) (accepted : Option ℤ) : Prop :=
  ∃ fd, accepted = some fd ∧ (fd < 0 ∨ 128 < fd ∨
    ∃ buffer, s.buffers[fd.toNat]? = some buffer ∧ 0 ≤ buffer.connectFd)

/-- A descriptor that passes the two tests is a slot, or the size of the table. -/
theorem slot_of_tests {fd : ℤ} (hneg : ¬ fd < 0) (hmany : ¬ (fdInitSize : ℤ) < fd)
    (hne : some fd ≠ some 128) : ∃ i : ℕ, fd = i ∧ i < fdInitSize := by
  have h128 : fd ≠ 128 := fun heq => hne (congrArg some heq)
  unfold fdInitSize at hmany ⊢
  exact ⟨fd.toNat, by omega, by omega⟩

theorem Table.acceptClient_full (h : Table s) :
    acceptClient s (some 128) = .error .outOfBounds := by
  have hload : Library.load s.buffers (128 : ℕ) = .error .outOfBounds := h.load_error le_rfl
  rw [Nat.cast_ofNat] at hload
  simp [acceptClient, fdInitSize, hload]

theorem Table.acceptClient_refused (h : Table s) {accepted : Option ℤ} (hne : accepted ≠ some 128)
    (hrefuses : Refuses s accepted) : acceptClient s accepted = .error .exitFailure := by
  obtain ⟨fd, rfl, hfd⟩ := hrefuses
  rw [acceptClient]
  split_ifs with hneg hmany
  · rfl
  · rfl
  obtain ⟨i, rfl, hi⟩ := slot_of_tests hneg hmany hne
  obtain ⟨buffer, hload, hget, -⟩ := h.load hi
  have hused : 0 ≤ buffer.connectFd := by
    rcases hfd with hlow | hhigh | ⟨buffer', hget', hused⟩
    · exact absurd hlow hneg
    · exact absurd hhigh hmany
    · rw [Int.toNat_natCast, hget] at hget'
      cases hget'
      exact hused
  rw [hload, ok_bind, if_neg hused.not_gt]

theorem Table.acceptClient_ok (h : Table s) {accepted : Option ℤ} (hne : accepted ≠ some 128)
    (hrefuses : ¬ Refuses s accepted) : ∃ s', acceptClient s accepted = .ok s' ∧ Table s' := by
  cases accepted with
  | none => exact ⟨s, rfl, h⟩
  | some fd =>
    have hneg : ¬ fd < 0 := fun hlow => hrefuses ⟨fd, rfl, .inl hlow⟩
    have hmany : ¬ (fdInitSize : ℤ) < fd := fun hhigh => hrefuses ⟨fd, rfl, .inr (.inl hhigh)⟩
    obtain ⟨i, rfl, hi⟩ := slot_of_tests hneg hmany hne
    obtain ⟨buffer, hload, hget, hsound⟩ := h.load hi
    have hfree : buffer.connectFd < 0 := by
      by_contra hused
      exact hrefuses ⟨i, rfl, .inr (.inr ⟨buffer, hget, not_lt.mp hused⟩)⟩
    rw [acceptClient, if_neg hneg, if_neg hmany, hload, ok_bind, if_pos hfree,
      store_one _ (h.length_eq ▸ hi), ok_bind]
    exact ⟨_, rfl, h.set i (hsound.withFd i) _⟩

theorem Table.handleClient (h : Table s) {i : ℕ} (hi : i < fdInitSize) :
    ∃ s', handleClient serverFd reads writes pass s i = .ok s' ∧ Table s' := by
  obtain ⟨buffer, hload, -, hsound⟩ := h.load hi
  simp only [NioServer.handleClient, hload, ok_bind]
  split_ifs
  · exact ⟨s, rfl, h⟩
  obtain ⟨buffer', received, sent, result, hserve, hsound'⟩ :=
    hsound.serve (buffer.connectFd ∈ reads) (buffer.connectFd ∈ writes) (pass.turn buffer.connectFd)
  rw [hserve, ok_bind]
  simp only [store_one _ (h.length_eq ▸ hi : i < s.buffers.length), ok_bind]
  refine ⟨_, rfl, h.set i ?_ _⟩
  split_ifs
  · exact hsound'.withFd (-1)
  · exact hsound'

theorem Table.handleClient_error (h : Table s) {i : ℕ} (hi : ¬ i < fdInitSize) :
    NioServer.handleClient serverFd reads writes pass s i = .error .outOfBounds := by
  rw [NioServer.handleClient, h.load_error (not_lt.mp hi), error_bind]

theorem Table.handleClients (h : Table s) (serverFd : ℤ) (reads writes : List ℤ) (pass : Pass)
    {n : ℕ} (hn : n ≤ fdInitSize) :
    ∃ s', (List.range n).foldlM (NioServer.handleClient serverFd reads writes pass) s = .ok s' ∧
      Table s' := by
  have hrange : Admissible (NioServer.handleClient serverFd reads writes pass)
      (fun _ i => i < fdInitSize) s (List.range n) :=
    .of_forall fun _ hi _ => (List.mem_range.mp hi).trans_le hn
  exact foldlM_ok (fun _ _ hs hi => hs.handleClient hi) h hrange

/-- A loop that goes beyond the table gets there. -/
theorem Table.handleClients_error (h : Table s) (serverFd : ℤ) (reads writes : List ℤ) (pass : Pass)
    {n : ℕ} (hn : fdInitSize < n) :
    (List.range n).foldlM (NioServer.handleClient serverFd reads writes pass) s =
      .error .outOfBounds := by
  obtain ⟨m, rfl⟩ := Nat.exists_eq_add_of_lt hn
  obtain ⟨s₁, hs₁, h₁⟩ := h.handleClients serverFd reads writes pass le_rfl
  rw [Nat.add_assoc, List.range_add, List.foldlM_append, hs₁, ok_bind, List.range_succ_eq_map,
    List.map_cons, List.foldlM_cons, h₁.handleClient_error (by omega), error_bind]

/-- Only the listening descriptor can be beyond the table. -/
theorem Table.maxFd_lt_iff (h : Table s) (hslots : Slots s) :
    maxFd serverFd s < 128 ↔ serverFd < 128 := by
  have hmax : ((serverFd :: readSet s.buffers).max? : Option ℤ) = some (maxFd serverFd s) :=
    List.max?_cons'
  obtain ⟨hmem, hle⟩ := List.max?_eq_some_iff.mp hmax
  constructor
  · exact (hle serverFd List.mem_cons_self).trans_lt
  · intro hserver
    rcases List.mem_cons.mp hmem with heq | hmem
    · exact heq.trans_lt hserver
    · obtain ⟨buffer, hbuffer, heq⟩ := List.mem_map.mp hmem
      obtain ⟨hin, hfd⟩ := List.mem_filter.mp hbuffer
      obtain ⟨i, hget⟩ := List.mem_iff_getElem?.mp hin
      have hi := (List.getElem?_eq_some_iff.mp hget).1
      rw [h.length_eq, fdInitSize] at hi
      rw [← heq, hslots i buffer hget (of_decide_eq_true hfd)]
      omega

theorem Table.step (h : Table s) (hret : step serverFd s pass = .ok s') : Table s' := by
  simp only [NioServer.step] at hret
  split_ifs at hret
  obtain ⟨s₁, hs₁, hclients⟩ := bind_eq_ok.mp hret
  have h₁ : Table s₁ := by
    by_cases hfull : pass.accepted = some 128
    · rw [hfull, h.acceptClient_full] at hs₁
      cases hs₁
    by_cases hrefuses : Refuses s pass.accepted
    · rw [h.acceptClient_refused hfull hrefuses] at hs₁
      cases hs₁
    · obtain ⟨s₂, hs₂, h₂⟩ := h.acceptClient_ok hfull hrefuses
      cases hs₁.symm.trans hs₂
      exact h₂
  refine foldlM_keeps (fun s i s' hs hi => ?_) h₁ hclients
  by_cases hlt : i < fdInitSize
  · obtain ⟨s₂, hs₂, h₂⟩ := hs.handleClient hlt
    cases hi.symm.trans hs₂
    exact h₂
  · rw [hs.handleClient_error hlt] at hi
    cases hi

/-! ### Passes -/

/-- No access to the table is out of bounds, and a descriptor that has no slot is refused
without one: whatever the table is. -/
def TableSafe (serverFd : ℤ) (s : Server) (pass : Pass) : Prop :=
  NioServer.step serverFd s pass ≠ .error .outOfBounds ∧
    (pass.failed = false → ∀ fd, pass.accepted = some fd → fdInitSize ≤ fd →
      ∀ table, acceptClient table (some fd) = .error .exitFailure)

/-- `accept` does not return the size of the table, and the listening descriptor is below
it where the pass gets beyond `accept`. -/
def TableFits (serverFd : ℤ) (s : Server) (pass : Pass) : Prop :=
  pass.failed = true ∨
    pass.accepted ≠ some 128 ∧ (serverFd < 128 ∨ Refuses s pass.accepted)

theorem step_of_selected (hfailed : pass.failed = false) :
    NioServer.step serverFd s pass = acceptClient s pass.accepted >>=
      (List.range (maxFd serverFd s + 1).toNat).foldlM
        (NioServer.handleClient serverFd (readSet s.buffers) (writeSet s.buffers) pass) := by
  simp only [NioServer.step, hfailed, Bool.false_eq_true, ↓reduceIte]
  rfl

/-- What a pass does with the table. -/
theorem Table.step_fault_iff (h : Table s) (hslots : Slots s) :
    NioServer.step serverFd s pass = .error .outOfBounds ↔ ¬ TableFits serverFd s pass := by
  cases hfailed : pass.failed with
  | true =>
    rw [NioServer.step, if_pos hfailed]
    exact iff_of_false (by simp) (not_not.mpr (.inl hfailed))
  | false =>
    have hselected : ¬ pass.failed = true := by rw [hfailed]; exact Bool.false_ne_true
    rw [step_of_selected hfailed, TableFits, or_iff_right hselected]
    by_cases hfull : pass.accepted = some 128
    · rw [hfull, h.acceptClient_full, error_bind]
      exact iff_of_true rfl fun hfits => hfits.1 rfl
    by_cases hrefuses : Refuses s pass.accepted
    · rw [h.acceptClient_refused hfull hrefuses, error_bind]
      exact iff_of_false (by simp) (not_not.mpr ⟨hfull, .inr hrefuses⟩)
    obtain ⟨s₁, hs₁, h₁⟩ := h.acceptClient_ok hfull hrefuses
    have hmax : maxFd serverFd s < 128 ↔ serverFd < 128 := h.maxFd_lt_iff hslots
    rw [hs₁, ok_bind]
    by_cases hserver : serverFd < 128
    · have hlt := hmax.mpr hserver
      have hn : (maxFd serverFd s + 1).toNat ≤ fdInitSize := by unfold fdInitSize; omega
      obtain ⟨s', hs', -⟩ := h₁.handleClients serverFd (readSet s.buffers) (writeSet s.buffers) pass hn
      rw [hs']
      exact iff_of_false (by simp) (not_not.mpr ⟨hfull, .inl hserver⟩)
    · have hge := mt hmax.mp hserver
      rw [h₁.handleClients_error _ _ _ _ (by unfold fdInitSize; omega)]
      exact iff_of_true rfl fun hfits => hfits.2.elim hserver hrefuses

theorem Table.safe_iff (h : Table s) (hslots : Slots s) :
    TableSafe serverFd s pass ↔ TableFits serverFd s pass := by
  rw [TableSafe, ne_eq, h.step_fault_iff hslots, not_not]
  refine and_iff_left_of_imp fun hfits hselected fd haccepted hfd table => ?_
  rcases hfits with hfailed | ⟨hfull, -⟩
  · rw [hselected] at hfailed
    cases hfailed
  have h128 : fd ≠ 128 := fun heq => hfull (haccepted.trans (congrArg some heq))
  rw [fdInitSize] at hfd
  rw [acceptClient, if_neg (by omega), if_pos (by unfold fdInitSize; omega)]

/-- In every run, for every listening descriptor and all that `accept` returns. -/
theorem table_safe_iff (fill : ℕ → ℕ → Byte) (serverFd : ℤ) (passes : List Pass) :
    Admissible (step serverFd) (TableSafe serverFd) (init fill) passes ↔
      Admissible (step serverFd) (TableFits serverFd) (init fill) passes := by
  have hstep : ∀ s pass s', Table s ∧ Slots s → TableSafe serverFd s pass →
      NioServer.step serverFd s pass = .ok s' → Table s' ∧ Slots s' :=
    fun _ _ _ hs _ hret => ⟨hs.1.step hret, hs.2.step hret⟩
  exact admissible_iff_of_inv hstep (fun _ _ hs => hs.1.safe_iff hs.2)
    ⟨table_init fill, slots_init fill⟩

/-- A client whose descriptor is the size of the table, and a listening descriptor of
that size. -/
theorem not_table_safe :
    ¬ Admissible (step 3) (TableSafe 3) (init fun _ _ => 0)
        [⟨false, some 128, fun _ => quietTurn 0⟩] ∧
      ¬ Admissible (step 128) (TableSafe 128) (init fun _ _ => 0)
        [⟨false, none, fun _ => quietTurn 0⟩] := by
  have hiff {serverFd : ℤ} {pass : Pass} : TableSafe serverFd (init fun _ _ => 0) pass ↔
      TableFits serverFd (init fun _ _ => 0) pass :=
    (table_init _).safe_iff (slots_init _)
  constructor
  · rintro ⟨hsafe, -⟩
    rcases hiff.mp hsafe with hfailed | ⟨hne, -⟩
    · cases hfailed
    · exact hne rfl
  · rintro ⟨hsafe, -⟩
    rcases hiff.mp hsafe with hfailed | ⟨-, hserver | ⟨fd, haccepted, -⟩⟩
    · cases hfailed
    · exact absurd hserver (by decide)
    · cases haccepted

end OsProgramming.Servers.NioServer
