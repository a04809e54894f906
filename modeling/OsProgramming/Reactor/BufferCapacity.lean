import OsProgramming.Reactor.BufferQueue

/-! The capacity of a buffer against its backlog. `make_room` grows the block
only when the whole of it, compacted, would be too small, so the block it grows
to is less than twice the backlog that the request leads to. The same inequality
keeps every `int` sum of the appends below `INT_MAX`. -/

namespace OsProgramming.Reactor

open Library Buffer

/-! ### Growth -/

theorem makeRoom_total {b b' : Buffer} {size : ℤ} {answer : Alloc Byte}
    (hret : makeRoom b size answer = .ok b') :
    b'.totalSize = b.totalSize ∨
      (Reallocates b size ∧ b'.totalSize = wrapInt (b.totalSize + size)) := by
  unfold makeRoom at hret
  split_ifs at hret with hfits hspare
  · cases hret; exact .inl rfl
  · obtain ⟨data, -, hret⟩ := bind_eq_ok.mp hret
    cases hret; exact .inl rfl
  · split at hret
    · cases hret; exact .inl rfl
    · cases hret; exact .inr ⟨⟨not_le.mp hfits, not_le.mp hspare⟩, rfl⟩

/-- The buffer `b'` holds `n` bytes more than `b`, and where its block is larger it
is less than twice the new backlog. -/
structure Extends (b b' : Buffer) (n : ℕ) : Prop where
  wellFormed : b'.WellFormed
  readable : b'.readable.length = b.readable.length + n
  total : b'.totalSize ≤ max b.totalSize (2 * b'.readable.length)

theorem Extends.zero {b : Buffer} (hb : b.WellFormed) : Extends b b 0 :=
  ⟨hb, rfl, le_max_left _ _⟩

theorem Extends.add {b b₁ b₂ : Buffer} {m n : ℕ} (h₁ : Extends b b₁ m) (h₂ : Extends b₁ b₂ n) :
    Extends b b₂ (m + n) := by
  have hread := h₂.readable
  refine ⟨h₂.wellFormed, by rw [hread, h₁.readable, Nat.add_assoc], ?_⟩
  calc b₂.totalSize ≤ max b₁.totalSize (2 * b₂.readable.length) := h₂.total
    _ ≤ max b.totalSize (2 * b₂.readable.length) := by have := h₁.total; omega

theorem bufferAppend_extends {b b' : Buffer} {source : List Byte} {n : ℕ} {answer : Alloc Byte}
    {r : Bool} (hb : b.WellFormed) (h0 : 0 < n) (hn : (n : ℤ) ≤ intMax)
    (hsource : n ≤ source.length)
    (hret : bufferAppend b (some source) n answer = .ok (b', r)) : Extends b b' n := by
  obtain ⟨b₁, happend, hwf, hread⟩ :=
    bufferAppend_ok source hb h0 hn hsource (bufferAppend_served hb h0 hret)
  have hlen : b'.readable.length = b.readable.length + n := by
    cases happend.symm.trans hret
    rw [hread, List.length_append, List.length_take, min_eq_left hsource]
  refine ⟨by cases happend.symm.trans hret; exact hwf, hlen, ?_⟩
  have hpos : ¬ (n : ℤ) ≤ 0 := by omega
  simp only [bufferAppend, hpos, ↓reduceIte] at hret
  obtain ⟨b₂, hroom, hret⟩ := bind_eq_ok.mp hret
  obtain ⟨bytes, -, hret⟩ := bind_eq_ok.mp hret
  obtain ⟨data, -, hret⟩ := bind_eq_ok.mp hret
  have htotal : b'.totalSize = b₂.totalSize := by cases hret; rfl
  rw [htotal]
  rcases makeRoom_total hroom with hsame | ⟨hr, hgrown⟩
  · rw [hsame]
    exact le_max_left _ _
  · have hwrap : wrapInt (b.totalSize + n) ≤ b.totalSize + n :=
      wrapInt_le (by have := hb.total_eq_length; omega)
    have hlt := hr.total_lt hb
    omega

theorem bufferAppendChar_extends {b b' : Buffer} {c : Byte} {answer : Alloc Byte} {r : Bool}
    (hb : b.WellFormed) (hret : bufferAppendChar b c answer = .ok (b', r)) : Extends b b' 1 := by
  rw [bufferAppendChar_eq] at hret
  exact bufferAppend_extends (n := 1) hb one_pos (by simp [intMax]) le_rfl hret

/-- The bytes that `buffer_append` adds. -/
def appendedSize : Option (List Byte) → ℤ → ℕ
  | none, _ => 0
  | some _, size => size.toNat

/-- The caller's promise to `buffer_append`: the data is as long as its size says. -/
def DataCovers (data : Option (List Byte)) (size : ℤ) : Prop :=
  ∀ source, data = some source → 0 < size → size ≤ source.length ∧ size ≤ intMax

/-- `buffer_append` rejects its arguments and adds nothing, or takes `n` bytes. -/
theorem DataCovers.cases {data : Option (List Byte)} {size : ℤ} (h : DataCovers data size) :
    ((data = none ∨ size ≤ 0) ∧ appendedSize data size = 0) ∨
      ∃ source, ∃ n : ℕ, data = some source ∧ size = n ∧ 0 < n ∧ (n : ℤ) ≤ intMax ∧
        n ≤ source.length ∧ appendedSize data size = n := by
  cases data with
  | none => exact .inl ⟨.inl rfl, rfl⟩
  | some source =>
    by_cases hsize : size ≤ 0
    · exact .inl ⟨.inr hsize, Int.toNat_of_nonpos hsize⟩
    · obtain ⟨hsource, hmax⟩ := h source rfl (not_le.mp hsize)
      refine .inr ⟨source, size.toNat, rfl, ?_, ?_, ?_, ?_, rfl⟩ <;> omega

theorem append_extends {b b' : Buffer} {data : Option (List Byte)} {size : ℤ} {answer : Alloc Byte}
    {r : Bool} (hb : b.WellFormed) (hdata : DataCovers data size)
    (hret : bufferAppend b data size answer = .ok (b', r)) :
    Extends b b' (appendedSize data size) := by
  rcases hdata.cases with ⟨hreject, hadded⟩ | ⟨source, n, rfl, rfl, h0, hn, hsource, hadded⟩
  · rw [bufferAppend_rejects b data size answer hreject] at hret
    cases hret
    rw [hadded]
    exact .zero hb
  · rw [hadded]
    exact bufferAppend_extends hb h0 hn hsource hret

theorem strlen_covers {block : List Byte} {length : ℕ} (h : strlen block = .ok length) :
    length = (block.takeWhile (· ≠ 0)).length ∧ DataCovers (some block) (wrapInt length) := by
  unfold strlen at h
  split_ifs at h
  obtain rfl := Except.ok.inj h
  refine ⟨rfl, ?_⟩
  rintro _ ⟨⟩ -
  have hle := (List.takeWhile_prefix (l := block) fun c => decide (c ≠ 0)).length_le
  have hwrap := wrapInt_le (x := ((block.takeWhile (· ≠ 0)).length : ℤ)) (by omega)
  exact ⟨by omega, (wrapInt_bounds _).2⟩

theorem bufferAppendString_extends {b b' : Buffer} {block : List Byte} {answer : Alloc Byte}
    {r : Bool} (hb : b.WellFormed)
    (hret : bufferAppendString b (some block) answer = .ok (b', r)) :
    Extends b b' (wrapInt (block.takeWhile (· ≠ 0)).length).toNat := by
  obtain ⟨length, hlen, hret⟩ := bind_eq_ok.mp hret
  obtain ⟨⟨b₁, r₁⟩, happend, hret⟩ := bind_eq_ok.mp hret
  cases hret
  obtain ⟨hlength, hcovers⟩ := strlen_covers hlen
  have hextends := append_extends hb hcovers happend
  rwa [appendedSize, hlength] at hextends

theorem tailFilled_extends {b : Buffer} (hb : b.WellFormed) (bytes : List Byte) :
    Extends b (b.tailFilled (bytes.take (bufferWriteableSize b).toNat))
      (bytes.take (bufferWriteableSize b).toNat).length := by
  obtain ⟨hwf, hread⟩ := hb.tailFilled bytes
  exact ⟨hwf, by rw [hread, List.length_append], le_max_left _ _⟩

theorem bufferSocketRead_extends {b b' : Buffer} {socket : ReadAnswer} {answer : Alloc Byte} {n : ℤ}
    (hb : b.WellFormed) (hret : bufferSocketRead b socket answer = .ok (b', n)) :
    Extends b b' (readvDelivers b socket).length := by
  cases socket with
  | failed errno =>
    cases hret
    rw [readvDelivers, List.length_nil]
    exact .zero hb
  | offered offered =>
    have htail := tailFilled_extends hb (readvDelivers b (.offered offered))
    by_cases hfits : (readvDelivers b (.offered offered)).length ≤ (bufferWriteableSize b).toNat
    · rw [bufferSocketRead_fits answer hb hfits] at hret
      cases hret
      rwa [List.take_of_length_le hfits] at htail
    · have hspill := not_le.mp hfits
      have hbound : (readvDelivers b (.offered offered)).length ≤
          (bufferWriteableSize b).toNat + initBufferSize := List.length_take_le _ _
      rw [bufferSocketRead_spills answer hb hspill] at hret
      obtain ⟨⟨b₁, r₁⟩, happend, hret⟩ := bind_eq_ok.mp hret
      cases hret
      have hrest := bufferAppend_extends htail.wellFormed (Nat.sub_pos_of_lt hspill)
        (by unfold initBufferSize at hbound; unfold intMax; omega) List.length_drop.ge happend
      have hsum := htail.add hrest
      rwa [List.length_take, min_eq_left hspill.le, Nat.add_sub_cancel' hspill.le] at hsum

/-! ### Sums -/

/-- The sums that `make_room` evaluates. -/
def makeRoomSums (b : Buffer) (size : ℤ) : List ℤ :=
  if size ≤ bufferWriteableSize b then []
  else (bufferFrontSpareSize b + bufferWriteableSize b) ::
    if size ≤ bufferFrontSpareSize b + bufferWriteableSize b then [] else [b.totalSize + size]

/-- The sums that `buffer_append` evaluates, `make_room` included. -/
def appendSums (b : Buffer) (data : Option (List Byte)) (size : ℤ) (answer : Alloc Byte) : List ℤ :=
  match data with
  | none => []
  | some _ =>
    if size ≤ 0 then []
    else makeRoomSums b size ++ match makeRoom b size answer with
      | .ok buffer => [buffer.writeIndex + size]
      | .error _ => []

/-- The sums that `buffer_socket_read` evaluates, the append of the rest included. -/
def socketReadSums (b : Buffer) (socket : ReadAnswer) (answer : Alloc Byte) : List ℤ :=
  match socket with
  | .failed _ => []
  | .offered _ =>
    let bytes := readvDelivers b socket
    let tail := (bufferWriteableSize b).toNat
    if bytes.length ≤ tail then [b.writeIndex + bytes.length]
    else appendSums (b.tailFilled (bytes.take tail)) (some (bytes.drop tail))
      ((bytes.length - tail : ℕ) : ℤ) answer

theorem makeRoomSums_le {b : Buffer} {n : ℕ} (hb : b.WellFormed)
    (hlow : b.readable.length + n < 2 ^ 30) : ∀ x ∈ makeRoomSums b n, x ≤ intMax := by
  have hspare := hb.spare_add_readable
  have hmax := hb.total_le_max
  have hle : bufferFrontSpareSize b + bufferWriteableSize b ≤ intMax := by omega
  unfold makeRoomSums
  by_cases hfits : (n : ℤ) ≤ bufferWriteableSize b
  · simp [hfits]
  by_cases hroom : (n : ℤ) ≤ bufferFrontSpareSize b + bufferWriteableSize b
  · simpa [hfits, hroom] using hle
  · have hlt := Reallocates.total_lt hb ⟨not_le.mp hfits, not_le.mp hroom⟩
    have hgrown : b.totalSize + n ≤ intMax := by unfold intMax; omega
    simpa [hfits, hroom] using ⟨hle, hgrown⟩

theorem bufferAppend_returns {b : Buffer} {data : Option (List Byte)} {size : ℤ}
    {answer : Alloc Byte} (hb : b.WellFormed) (hdata : DataCovers data size)
    (hanswer : answer.isSome) (hlow : b.readable.length + appendedSize data size < 2 ^ 30) :
    (∃ r, bufferAppend b data size answer = .ok r) ∧
      ∀ x ∈ appendSums b data size answer, x ≤ intMax := by
  rcases hdata.cases with ⟨hreject, -⟩ | ⟨source, n, rfl, rfl, h0, hn, hsource, hadded⟩
  · refine ⟨⟨_, bufferAppend_rejects b data size answer hreject⟩, ?_⟩
    rcases hreject with rfl | hsize
    · simp [appendSums]
    · cases data <;> simp [appendSums, hsize]
  · rw [hadded] at hlow
    have hserved := roomServed_of_backlog hb hanswer hlow
    obtain ⟨b', happend, -⟩ := bufferAppend_ok source hb h0 hn hsource hserved
    obtain ⟨w, hroom, hmax, hfits, -⟩ := makeRoom_ok hb hn hserved
    refine ⟨⟨_, happend⟩, ?_⟩
    have hpos : ¬ (n : ℤ) ≤ 0 := by omega
    have hlast : (ofWindow w).writeIndex + n ≤ intMax := by simp only [ofWindow]; omega
    simp only [appendSums, hpos, ↓reduceIte, hroom, List.mem_append, List.mem_singleton]
    rintro x (hx | rfl)
    · exact makeRoomSums_le hb hlow x hx
    · exact hlast

theorem bufferSocketRead_returns {b : Buffer} {socket : ReadAnswer} {answer : Alloc Byte}
    (hb : b.WellFormed) (hanswer : answer.isSome)
    (hlow : b.readable.length + (readvDelivers b socket).length < 2 ^ 30) :
    (∃ r, bufferSocketRead b socket answer = .ok r) ∧
      ∀ x ∈ socketReadSums b socket answer, x ≤ intMax := by
  cases socket with
  | failed errno => exact ⟨⟨_, rfl⟩, by simp [socketReadSums]⟩
  | offered offered =>
    have htail := tailFilled_extends hb (readvDelivers b (.offered offered))
    set bytes := readvDelivers b (.offered offered) with hbytes
    by_cases hfits : bytes.length ≤ (bufferWriteableSize b).toNat
    · refine ⟨⟨_, bufferSocketRead_fits answer hb hfits⟩, ?_⟩
      have hlast : b.writeIndex + bytes.length ≤ intMax := by
        have hmax := hb.total_le_max
        have hle := hb.write_le_total
        unfold bufferWriteableSize at hfits
        omega
      simpa [socketReadSums, ← hbytes, hfits] using hlast
    · have hspill := not_le.mp hfits
      have hlen : (bytes.take (bufferWriteableSize b).toNat).length =
          (bufferWriteableSize b).toNat := by rw [List.length_take, min_eq_left hspill.le]
      have hrest : DataCovers (some (bytes.drop (bufferWriteableSize b).toNat))
          ((bytes.length - (bufferWriteableSize b).toNat : ℕ) : ℤ) := by
        rintro _ ⟨⟩ -
        rw [List.length_drop]
        unfold intMax
        omega
      obtain ⟨⟨⟨b', r⟩, happend⟩, hsums⟩ := bufferAppend_returns
        htail.wellFormed hrest hanswer
        (by rw [htail.readable, hlen, appendedSize, Int.toNat_natCast]; omega)
      refine ⟨⟨(b', bytes.length), ?_⟩, ?_⟩
      · rw [bufferSocketRead_spills answer hb hspill, happend]
        rfl
      · simpa [socketReadSums, ← hbytes, hfits] using hsums

/-! ### Runs -/

/-- The bytes that an operation adds to the readable ones. -/
def BufferOp.added (s : BufferRun) : BufferOp → ℕ
  | .append data size _ => appendedSize data size
  | .appendChar _ _ => 1
  | .appendString none _ => 0
  | .appendString (some block) _ => (wrapInt (block.takeWhile (· ≠ 0)).length).toNat
  | .socketRead socket _ => (readvDelivers s.buffer socket).length
  | .readChar => 0
  | .consume _ => 0

/-- The sums that an operation evaluates. A character is a block of one byte. -/
def BufferOp.sums (s : BufferRun) : BufferOp → List ℤ
  | .append data size answer => appendSums s.buffer data size answer
  | .appendChar data answer => appendSums s.buffer (some [data]) 1 answer
  | .appendString none _ => []
  | .appendString (some block) answer =>
    appendSums s.buffer (some block) (wrapInt (block.takeWhile (· ≠ 0)).length) answer
  | .socketRead socket answer => socketReadSums s.buffer socket answer
  | .readChar => []
  | .consume _ => []

/-- What callers promise: data as long as its size says, a `NUL` in a string, and to
consume readable bytes only. -/
def BufferOp.Called (s : BufferRun) : BufferOp → Prop
  | .append data size _ => DataCovers data size
  | .appendChar _ _ => True
  | .appendString str _ => ∀ block, str = some block → 0 ∈ block
  | .socketRead _ _ => True
  | .readChar => 0 < bufferReadableSize s.buffer
  | .consume k => 0 ≤ k ∧ k ≤ bufferReadableSize s.buffer

/-- The backlog that an operation leads to. -/
def BufferOp.backlog (s : BufferRun) (op : BufferOp) : ℕ := s.buffer.readable.length + op.added s

theorem consume_backlog {b : Buffer} {k : ℤ} (hb : b.WellFormed) (h0 : 0 ≤ k)
    (h : k ≤ bufferReadableSize b) :
    (b.advance k).WellFormed ∧ (b.advance k).readable.length ≤ b.readable.length := by
  obtain ⟨n, rfl⟩ : ∃ n : ℕ, k = n := ⟨k.toNat, by omega⟩
  rw [hb.readableSize_eq] at h
  obtain ⟨hwf, hread⟩ := advance_ok hb (k := n) (by omega)
  rw [hread, List.length_drop]
  exact ⟨hwf, Nat.sub_le _ _⟩

/-- A step that returns adds at most the bytes of its operation, and a block that it
has grown is less than twice the backlog. -/
theorem BufferRun.step_backlog {s s' : BufferRun} {op : BufferOp} (hb : s.buffer.WellFormed)
    (hcall : op.Called s) (hstep : s.step op = .ok s') :
    s'.buffer.WellFormed ∧ s'.buffer.readable.length ≤ op.backlog s ∧
      s'.buffer.totalSize ≤ max s.buffer.totalSize (2 * s'.buffer.readable.length) := by
  cases op with
  | append data size answer =>
    obtain ⟨⟨b', r⟩, hret, hstep⟩ := bind_eq_ok.mp hstep
    cases hstep
    have h := append_extends hb hcall hret
    exact ⟨h.wellFormed, h.readable.le, h.total⟩
  | appendChar data answer =>
    obtain ⟨⟨b', r⟩, hret, hstep⟩ := bind_eq_ok.mp hstep
    cases hstep
    have h := bufferAppendChar_extends hb hret
    exact ⟨h.wellFormed, h.readable.le, h.total⟩
  | appendString str answer =>
    obtain ⟨⟨b', r⟩, hret, hstep⟩ := bind_eq_ok.mp hstep
    cases hstep
    cases str with
    | none =>
      cases hret
      exact ⟨hb, le_rfl, le_max_left _ _⟩
    | some block =>
      have h := bufferAppendString_extends hb hret
      exact ⟨h.wellFormed, h.readable.le, h.total⟩
  | socketRead socket answer =>
    obtain ⟨⟨b', n⟩, hret, hstep⟩ := bind_eq_ok.mp hstep
    cases hstep
    have h := bufferSocketRead_extends hb hret
    exact ⟨h.wellFormed, h.readable.le, h.total⟩
  | readChar =>
    obtain ⟨⟨b', c⟩, hret, hstep⟩ := bind_eq_ok.mp hstep
    cases hstep
    obtain ⟨x, -, hret⟩ := bind_eq_ok.mp hret
    cases hret
    obtain ⟨hwf, hread⟩ := consume_backlog hb zero_le_one hcall
    exact ⟨hwf, hread, le_max_left _ _⟩
  | consume k =>
    cases hstep
    obtain ⟨hwf, hread⟩ := consume_backlog hb hcall.1 hcall.2
    exact ⟨hwf, hread, le_max_left _ _⟩

/-- A step that keeps the backlog below `2 ^ 30` returns, and its sums are `int`s. -/
theorem BufferRun.step_returns {s : BufferRun} {op : BufferOp} (hb : s.buffer.WellFormed)
    (hcall : op.Called s) (hserved : op.Served) (hlow : op.backlog s < 2 ^ 30) :
    (∃ s', s.step op = .ok s') ∧ ∀ x ∈ op.sums s, x ≤ intMax := by
  cases op with
  | append data size answer =>
    obtain ⟨⟨r, hret⟩, hsums⟩ := bufferAppend_returns hb hcall hserved hlow
    exact ⟨⟨{ s with buffer := r.1 }, by simp [BufferRun.step, hret]⟩, hsums⟩
  | appendChar data answer =>
    have hcovers : DataCovers (some [data]) 1 := by
      rintro _ ⟨⟩ -
      simp [intMax]
    obtain ⟨⟨r, hret⟩, hsums⟩ := bufferAppend_returns hb hcovers hserved hlow
    rw [← bufferAppendChar_eq] at hret
    exact ⟨⟨{ s with buffer := r.1 }, by simp [BufferRun.step, hret]⟩, hsums⟩
  | appendString str answer =>
    cases str with
    | none => exact ⟨⟨s, rfl⟩, by simp [BufferOp.sums]⟩
    | some block =>
      have hlen : strlen block = .ok (block.takeWhile (· ≠ 0)).length := by
        simp [strlen, hcall block rfl]
      obtain ⟨⟨r, hret⟩, hsums⟩ := bufferAppend_returns hb (strlen_covers hlen).2 hserved hlow
      exact ⟨⟨{ s with buffer := r.1 },
        by simp only [BufferRun.step, bufferAppendString, hlen, hret, ok_bind]⟩, hsums⟩
  | socketRead socket answer =>
    obtain ⟨⟨r, hret⟩, hsums⟩ := bufferSocketRead_returns hb hserved hlow
    exact ⟨⟨{ s with buffer := r.1 }, by simp [BufferRun.step, hret]⟩, hsums⟩
  | readChar =>
    obtain ⟨b', c, hret, -⟩ := bufferReadChar_ok hb hcall
    exact ⟨⟨⟨b', s.output ++ [c]⟩, by simp [BufferRun.step, hret]⟩, by simp [BufferOp.sums]⟩
  | consume k => exact ⟨⟨{ s with buffer := s.buffer.advance k }, rfl⟩, by simp [BufferOp.sums]⟩

/-- A run of a buffer and the largest readable size that it has reached. -/
structure PeakRun where
  run : BufferRun
  peak : ℕ

def PeakRun.step (s : PeakRun) (op : BufferOp) : Result PeakRun := do
  let run ← s.run.step op
  .ok ⟨run, max s.peak run.buffer.readable.length⟩

structure PeakRun.Bounded (s : PeakRun) : Prop where
  wellFormed : s.run.buffer.WellFormed
  total : s.run.buffer.totalSize ≤ max (initBufferSize : ℤ) (2 * s.peak)

theorem PeakRun.Bounded.step {s s' : PeakRun} {op : BufferOp} (h : s.Bounded)
    (hcall : op.Called s.run) (hstep : s.step op = .ok s') : s'.Bounded := by
  obtain ⟨run, hrun, hstep⟩ := bind_eq_ok.mp hstep
  cases hstep
  obtain ⟨hwf, -, htotal⟩ := BufferRun.step_backlog h.wellFormed hcall hrun
  refine ⟨hwf, ?_⟩
  have hbefore := h.total
  push_cast
  omega

theorem PeakRun.Bounded.step_returns (s : PeakRun) (op : BufferOp) (h : s.Bounded)
    (hguard : (op.Called s.run ∧ op.Served) ∧ op.backlog s.run < 2 ^ 30) :
    ∃ s', s.step op = .ok s' ∧ s'.Bounded := by
  obtain ⟨⟨hcall, hserved⟩, hlow⟩ := hguard
  obtain ⟨⟨run, hrun⟩, -⟩ := BufferRun.step_returns h.wellFormed hcall hserved hlow
  have hstep : s.step op = .ok ⟨run, max s.peak run.buffer.readable.length⟩ := by
    simp [PeakRun.step, hrun]
  exact ⟨_, hstep, h.step hcall hstep⟩

open PeakRun in
/-- In every run from `buffer_new` the block is at most twice the largest backlog, and
while that stays below `2 ^ 30` the run returns and no sum leaves the `int`s. -/
theorem capacity_bounded (fill : ℕ → Byte) (b : Buffer) (ops : List BufferOp)
    (hnew : bufferNew true (some fill) = some b)
    (hadm : Admissible PeakRun.step (fun s op => op.Called s.run ∧ op.Served) ⟨⟨b, []⟩, 0⟩ ops) :
    (∀ s, ops.foldlM PeakRun.step ⟨⟨b, []⟩, 0⟩ = .ok s →
      s.run.buffer.totalSize ≤ max (initBufferSize : ℤ) (2 * s.peak)) ∧
    (Admissible PeakRun.step (fun s op => op.backlog s.run < 2 ^ 30) ⟨⟨b, []⟩, 0⟩ ops →
      (∃ s, ops.foldlM PeakRun.step ⟨⟨b, []⟩, 0⟩ = .ok s) ∧
      Admissible PeakRun.step (fun s op => ∀ x ∈ op.sums s.run, x ≤ intMax) ⟨⟨b, []⟩, 0⟩ ops) := by
  obtain ⟨b', hb', hwf, -, -⟩ := bufferNew_readable fill
  obtain rfl : b' = b := Option.some.inj (hb'.symm.trans hnew)
  have htotal : b'.totalSize = initBufferSize := by
    simp only [bufferNew, ↓reduceIte, Option.some.injEq] at hb'
    rw [← hb']
  have hinit : (⟨⟨b', []⟩, 0⟩ : PeakRun).Bounded := ⟨hwf, by rw [htotal]; exact le_max_left _ _⟩
  refine ⟨fun s hrun => ?_, fun hlow => ⟨?_, ?_⟩⟩
  · have hbounded := foldlM_inv (fun s op s' h hguard hstep => Bounded.step h hguard.1 hstep)
      hinit hadm hrun
    exact hbounded.total
  · obtain ⟨s, hrun, -⟩ := foldlM_ok Bounded.step_returns hinit (hadm.and hlow)
    exact ⟨s, hrun⟩
  · refine Admissible.mono_of_inv ?_ ?_ hinit (hadm.and hlow)
    · exact fun s op s' h hguard hstep => h.step hguard.1.1 hstep
    · exact fun s op h hguard => 
        (BufferRun.step_returns h.wellFormed hguard.1.1 hguard.1.2 hguard.2).2

/-- What the queue admits keeps the backlog below `2 ^ 30`. -/
theorem BufferRun.Represents.called {s : BufferRun} {q : ByteQueue} (h : s.Represents q) {op : BufferOp}
    (hop : op.AdmittedBy q) : op.Called s ∧ op.backlog s < 2 ^ 30 := by
  have hadm := h.admitted hop
  obtain ⟨-, hread, -⟩ := h
  have hlow := hop.low
  rw [BufferOp.backlog, hread]
  cases op with
  | append data size answer =>
    refine ⟨fun source hdata h0 => ?_, ?_⟩
    · obtain ⟨hsource, hmax, -⟩ := hadm source hdata h0
      exact ⟨hsource, hmax⟩
    · cases data <;> exact hlow
  | appendChar data answer => exact ⟨trivial, hlow⟩
  | appendString str answer =>
    cases str with
    | none => exact ⟨nofun, hlow⟩
    | some block =>
      have hwrap := wrapInt_le (x := ((block.takeWhile (· ≠ 0)).length : ℤ)) (by omega)
      simp only [BufferOp.offered] at hlow
      exact ⟨fun block hblock => (hadm block hblock).1, by simp only [BufferOp.added]; omega⟩
  | socketRead socket answer =>
    refine ⟨trivial, ?_⟩
    cases socket with
    | failed errno => exact hlow
    | offered bytes =>
      have hdelivers : (readvDelivers s.buffer (.offered bytes)).length ≤ bytes.length :=
        List.length_take_le' _ _
      simp only [BufferOp.offered, BufferOp.added] at hlow ⊢
      omega
  | readChar => exact ⟨hadm, hlow⟩
  | consume k => exact ⟨hadm, hlow⟩

theorem PeakRun.admissible_of_queue {s : PeakRun} {q : ByteQueue} (h : s.run.Represents q)
    {ops : List BufferOp}
    (hops : Admissible (fun q op => .ok (ByteQueue.step q op)) (fun q op => op.AdmittedBy q) q ops) :
    Admissible PeakRun.step
      (fun s op => (op.Called s.run ∧ op.Served) ∧ op.backlog s.run < 2 ^ 30) s ops := by
  refine .of_simulates (R := fun s q => s.run.Represents q) (fun s q op hrep hop => ?_)
    (fun s q op hrep hop => ?_) h hops
  · obtain ⟨run, hrun, hrep'⟩ := BufferRun.step_represents s.run q op hrep (hrep.admitted hop)
    exact ⟨⟨run, max s.peak run.buffer.readable.length⟩, by simp [PeakRun.step, hrun], hrep'⟩
  · obtain ⟨hcalled, hlow⟩ := hrep.called hop
    exact ⟨⟨hcalled, hop.served⟩, hlow⟩

/-- The block is compacted for the second append, and grows for what the `readv` spills. -/
theorem capacity_bounded_spill :
    ∃ b s, bufferNew true (some fun _ => 0) = some b ∧
      (spillingRun (List.replicate 60000 1) (List.replicate 65000 2) (List.replicate 1000 3)).foldlM
        PeakRun.step ⟨⟨b, []⟩, 0⟩ = .ok s ∧
      s.run.buffer.totalSize ≤ max (initBufferSize : ℤ) (2 * s.peak) := by
  obtain ⟨b, hb, hwf, hread, -⟩ := bufferNew_readable fun _ => 0
  have hinit : (⟨b, []⟩ : BufferRun).Represents ⟨[], []⟩ := ⟨hwf, hread, rfl⟩
  have hadm := PeakRun.admissible_of_queue (s := ⟨⟨b, []⟩, 0⟩) hinit
    (spillingRun_admissible (List.replicate 60000 1) (List.replicate 65000 2) (List.replicate 1000 3)
      (by simp only [List.length_replicate]; omega) (by simp only [List.length_replicate]; omega)
      (by simp only [List.length_replicate]; unfold initBufferSize; omega))
  obtain ⟨htotal, hreturns⟩ := capacity_bounded (fun _ => 0) b _ hb (hadm.mono fun _ _ => And.left)
  obtain ⟨⟨s, hs⟩, -⟩ := hreturns (hadm.mono fun _ _ => And.right)
  exact ⟨b, s, hb, hs, htotal s hs⟩

end OsProgramming.Reactor
