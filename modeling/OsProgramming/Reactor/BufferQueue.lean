import OsProgramming.Library.Runs
import OsProgramming.Reactor.Buffer

/-! The buffer refines a queue of bytes. A well-formed buffer is a window over
its block; `make_room` leaves the window alone, compacts it or grows its block,
and what every operation does to the readable bytes follows from that. -/

namespace OsProgramming.Reactor

open Library

namespace Buffer

/-- The indices are ordered and the block is as long as `total_size` says. -/
structure WellFormed (b : Buffer) : Prop where
  zero_le_read : 0 ≤ b.readIndex
  read_le_write : b.readIndex ≤ b.writeIndex
  write_le_total : b.writeIndex ≤ b.totalSize
  total_eq_length : b.totalSize = b.data.length
  total_le_max : b.totalSize ≤ intMax

/-- The bytes `data[read_index .. write_index)`. -/
def readable (b : Buffer) : List Byte := (b.data.take b.writeIndex.toNat).drop b.readIndex.toNat

/-- The buffer whose block and indices are those of a window. -/
def ofWindow (w : Window Byte) : Buffer := ⟨w.cells, w.lo, w.hi, w.cells.length⟩

@[simp] theorem readable_ofWindow (w : Window Byte) : (ofWindow w).readable = w.contents := rfl

theorem wellFormed_ofWindow {w : Window Byte} (h : (w.cells.length : ℤ) ≤ intMax) :
    (ofWindow w).WellFormed where
  zero_le_read := by simp [ofWindow]
  read_le_write := by have := w.lo_le_hi; simp [ofWindow]; omega
  write_le_total := by have := w.hi_le_length; simp [ofWindow]; omega
  total_eq_length := rfl
  total_le_max := h

theorem WellFormed.exists_window {b : Buffer} (h : b.WellFormed) :
    ∃ w : Window Byte, b = ofWindow w ∧ (w.cells.length : ℤ) ≤ intMax := by
  obtain ⟨data, r, wr, total⟩ := b
  obtain ⟨h0, hrw, hwt, htl, hmax⟩ := h
  simp only at h0 hrw hwt htl hmax
  refine ⟨⟨data, r.toNat, wr.toNat, by omega, by omega⟩, ?_, by simpa [← htl] using hmax⟩
  simp only [ofWindow, Buffer.mk.injEq, true_and]
  omega

@[simp] theorem writeableSize_ofWindow (w : Window Byte) :
    bufferWriteableSize (ofWindow w) = w.cells.length - w.hi := rfl

@[simp] theorem readableSize_ofWindow (w : Window Byte) :
    bufferReadableSize (ofWindow w) = w.hi - w.lo := rfl

@[simp] theorem frontSpareSize_ofWindow (w : Window Byte) :
    bufferFrontSpareSize (ofWindow w) = w.lo := rfl

theorem WellFormed.readableSize_eq {b : Buffer} (h : b.WellFormed) :
    bufferReadableSize b = b.readable.length := by
  obtain ⟨w, rfl, -⟩ := h.exists_window
  have := w.lo_le_hi
  rw [readableSize_ofWindow, readable_ofWindow, Window.length_contents]
  omega

theorem WellFormed.readableSize_eq_zero {b : Buffer} (h : b.WellFormed) :
    bufferReadableSize b = 0 ↔ b.readable = [] := by
  rw [h.readableSize_eq, ← List.length_eq_zero_iff]
  omega

end Buffer

open Buffer

/-! ### Room -/

/-- `make_room` can neither leave the block alone nor compact it. -/
def Reallocates (b : Buffer) (size : ℤ) : Prop :=
  bufferWriteableSize b < size ∧ bufferFrontSpareSize b + bufferWriteableSize b < size

instance (b : Buffer) (size : ℤ) : Decidable (Reallocates b size) :=
  inferInstanceAs (Decidable (_ ∧ _))

/-- The call of `realloc` that `make_room` makes, if it makes one, succeeds. -/
def RoomServed (b : Buffer) (size : ℤ) (answer : Alloc Byte) : Prop :=
  Reallocates b size →
    (realloc b.data (toSizeT (wrapInt (b.totalSize + size))) answer).isSome

theorem roomServed_of_le {b : Buffer} {size : ℤ} (answer : Alloc Byte)
    (h : size ≤ bufferWriteableSize b) : RoomServed b size answer :=
  fun hr => absurd hr.1 (not_lt.mpr h)

theorem Buffer.WellFormed.spare_add_readable {b : Buffer} (hb : b.WellFormed) :
    bufferFrontSpareSize b + bufferWriteableSize b + b.readable.length = b.totalSize := by
  rw [← hb.readableSize_eq]
  unfold bufferFrontSpareSize bufferWriteableSize bufferReadableSize
  omega

/-- The block grows only for a backlog larger than itself. -/
theorem Reallocates.total_lt {b : Buffer} {size : ℤ} (hb : b.WellFormed)
    (h : Reallocates b size) : b.totalSize < b.readable.length + size := by
  have hspare := hb.spare_add_readable
  have hlt := h.2
  omega

/-- An allocator that does not answer `NULL` serves every request that keeps the
backlog below `2 ^ 30`. -/
theorem roomServed_of_backlog {b : Buffer} {n : ℕ} {answer : Alloc Byte} (hb : b.WellFormed)
    (hanswer : answer.isSome) (hlow : b.readable.length + n < 2 ^ 30) : RoomServed b n answer := by
  intro hr
  have hlt := hr.total_lt hb
  have htotal := hb.total_eq_length
  obtain ⟨fill, rfl⟩ := Option.isSome_iff_exists.mp hanswer
  have hsum : b.totalSize + n = ((b.data.length + n : ℕ) : ℤ) := by push_cast; omega
  have hfit : ((b.data.length + n : ℕ) : ℤ) ≤ intMax := by unfold intMax; omega
  rw [hsum, wrapInt_of_le (by omega) hfit, toSizeT_natCast hfit,
    realloc_grow fill (by unfold intMax at hfit; unfold ptrdiffMax; omega)]
  rfl

theorem makeRoom_fits {b : Buffer} {size : ℤ} (answer : Alloc Byte)
    (h : size ≤ bufferWriteableSize b) : makeRoom b size answer = .ok b := by
  simp [makeRoom, h]

theorem makeRoom_compact {w : Window Byte} {size : ℤ} (answer : Alloc Byte)
    (hfull : ¬ size ≤ (w.cells.length : ℤ) - w.hi)
    (h : size ≤ (w.lo : ℤ) + ((w.cells.length : ℤ) - w.hi)) :
    makeRoom (ofWindow w) size answer = .ok (ofWindow w.compact) := by
  have hlo := w.lo_le_hi
  have hhi := w.hi_le_length
  have hcopy := copyForward_natCast w.lo (w.hi - w.lo) 0 w.cells (by omega)
  simp only [Nat.add_zero, Nat.zero_add, List.take_zero, List.nil_append, Nat.cast_zero] at hcopy
  have hn : ((w.hi : ℤ) - w.lo).toNat = w.hi - w.lo := by omega
  have hlen := w.length_compact
  simp only [makeRoom, writeableSize_ofWindow, frontSpareSize_ofWindow, readableSize_ofWindow,
    hfull, h, hn, ↓reduceIte]
  simp only [ofWindow, hcopy, ok_bind, hlen]
  congr 2
  · exact congrArg (· ++ _) w.contents_eq_take_drop.symm
  · simp only [Window.compact]; omega

theorem makeRoom_grow {w : Window Byte} {n : ℕ} {answer : Alloc Byte}
    (hfull : ¬ (n : ℤ) ≤ (w.cells.length : ℤ) - w.hi)
    (hspare : ¬ (n : ℤ) ≤ (w.lo : ℤ) + ((w.cells.length : ℤ) - w.hi))
    (hmax : (w.cells.length : ℤ) ≤ intMax) (hn : (n : ℤ) ≤ intMax)
    (hserved : (realloc w.cells (toSizeT (wrapInt ((w.cells.length : ℤ) + n))) answer).isSome) :
    ∃ more : List Byte, more.length = n ∧ ((w.cells.length + n : ℕ) : ℤ) ≤ intMax ∧
      makeRoom (ofWindow w) n answer = .ok (ofWindow (w.grow more)) := by
  have hfit : ((w.cells.length + n : ℕ) : ℤ) ≤ intMax := by
    by_contra hbig
    rw [realloc_of_lt answer (lt_toSizeT_wrapInt (by omega) (by omega))] at hserved
    simp at hserved
  have hsum : (w.cells.length : ℤ) + n = ((w.cells.length + n : ℕ) : ℤ) := by push_cast; rfl
  have hwrap : wrapInt ((w.cells.length : ℤ) + n) = ((w.cells.length + n : ℕ) : ℤ) := by
    rw [hsum]; exact wrapInt_of_le (by omega) hfit
  rw [hwrap, toSizeT_natCast hfit] at hserved
  cases answer with
  | none => simp [realloc] at hserved
  | some fill =>
    refine ⟨(List.range n).map fill, by simp, hfit, ?_⟩
    have hrealloc : realloc w.cells (w.cells.length + n) (some fill) = _ :=
      realloc_grow fill (by unfold intMax at hfit; unfold ptrdiffMax; omega)
    simp only [makeRoom, writeableSize_ofWindow, frontSpareSize_ofWindow, hfull, hspare, ↓reduceIte]
    simp only [ofWindow, hwrap, toSizeT_natCast hfit, hrealloc, Window.grow]
    simp

/-- Room is made and the readable bytes stay. -/
theorem makeRoom_ok {b : Buffer} {n : ℕ} {answer : Alloc Byte} (hb : b.WellFormed)
    (hn : (n : ℤ) ≤ intMax) (hserved : RoomServed b n answer) :
    ∃ w : Window Byte, makeRoom b n answer = .ok (ofWindow w) ∧
      (w.cells.length : ℤ) ≤ intMax ∧ w.hi + n ≤ w.cells.length ∧ w.contents = b.readable := by
  obtain ⟨w, rfl, hmax⟩ := hb.exists_window
  have hlo := w.lo_le_hi
  have hhi := w.hi_le_length
  by_cases hfull : (n : ℤ) ≤ (w.cells.length : ℤ) - w.hi
  · exact ⟨w, makeRoom_fits answer hfull, hmax, by omega, rfl⟩
  by_cases hspare : (n : ℤ) ≤ (w.lo : ℤ) + ((w.cells.length : ℤ) - w.hi)
  · refine ⟨w.compact, makeRoom_compact answer hfull hspare, by simpa using hmax, ?_, by simp⟩
    rw [Window.length_compact]
    simp only [Window.compact]
    omega
  · obtain ⟨more, hlen, hfit, hroom⟩ := makeRoom_grow hfull hspare hmax hn
      (hserved ⟨not_le.mp hfull, not_le.mp hspare⟩)
    refine ⟨w.grow more, hroom, ?_, ?_, by simp⟩
    · simpa [Window.grow, hlen] using hfit
    · simp only [Window.grow, List.length_append, hlen]; omega

/-- A request that is refused leaves the buffer with too little room. -/
theorem makeRoom_unserved {b : Buffer} {size : ℤ} {answer : Alloc Byte}
    (h : ¬ RoomServed b size answer) :
    makeRoom b size answer = .ok b ∧ bufferWriteableSize b < size := by
  rw [RoomServed, Classical.not_imp, Option.not_isSome_iff_eq_none] at h
  obtain ⟨hr, hnone⟩ := h
  refine ⟨?_, hr.1⟩
  simp only [makeRoom, not_le.mpr hr.1, not_le.mpr hr.2, ↓reduceIte, hnone]

/-! ### Operations on the readable bytes -/

theorem bufferNew_readable (fill : ℕ → Byte) :
    ∃ b, bufferNew true (some fill) = some b ∧ b.WellFormed ∧ b.readable = [] ∧
      bufferWriteableSize b = initBufferSize := by
  refine ⟨_, rfl, ⟨le_rfl, le_rfl, Int.natCast_nonneg _, ?_, ?_⟩, by simp [readable], sub_zero _⟩
  · rw [length_malloc]
  · show ((initBufferSize : ℕ) : ℤ) ≤ intMax
    unfold initBufferSize intMax; omega

/-- Bytes written behind the writing position of a window. -/
theorem store_ofWindow {w : Window Byte} {xs : List Byte} (h : w.hi + xs.length ≤ w.cells.length) :
    store (ofWindow w).data (ofWindow w).writeIndex xs = .ok (w.push xs h).cells :=
  store_natCast w.cells h

/-- More bytes than there is room for end behind the block. -/
theorem store_full {b : Buffer} {xs : List Byte} (hb : b.WellFormed)
    (h : bufferWriteableSize b < xs.length) :
    store b.data b.writeIndex xs = .error .outOfBounds := by
  obtain ⟨w, rfl, -⟩ := hb.exists_window
  rw [writeableSize_ofWindow] at h
  have hlt : w.cells.length < w.hi + xs.length := by omega
  exact store_of_length_lt hlt

theorem ofWindow_push {w : Window Byte} {xs : List Byte} (h : w.hi + xs.length ≤ w.cells.length) :
    (⟨(w.push xs h).cells, w.lo, (w.hi : ℤ) + xs.length, w.cells.length⟩ : Buffer) =
      ofWindow (w.push xs h) := by
  have hlen := w.length_push xs h
  simp only [ofWindow, hlen]
  simp [Window.push]

theorem bufferAppend_rejects (b : Buffer) (data : Option (List Byte)) (size : ℤ)
    (answer : Alloc Byte) (h : data = none ∨ size ≤ 0) :
    bufferAppend b data size answer = .ok (b, false) := by
  unfold bufferAppend
  rcases h with rfl | h
  · rfl
  · cases data <;> simp [h]

/-- An append writes behind the window that `make_room` leaves. -/
theorem bufferAppend_of_makeRoom {b : Buffer} {w : Window Byte} (source : List Byte) {n : ℕ}
    {answer : Alloc Byte} (hroom : makeRoom b n answer = .ok (ofWindow w)) (h0 : 0 < n)
    (hsource : n ≤ source.length) (hfits : w.hi + (source.take n).length ≤ w.cells.length) :
    bufferAppend b (some source) n answer = .ok (ofWindow (w.push (source.take n) hfits), true) := by
  have hlen : (source.take n).length = n := by simp [hsource]
  have hfetch : fetch source 0 n = .ok (source.take n) := by
    simpa using fetch_natCast source (i := 0) (n := n) (by omega)
  have hpos : ¬ (n : ℤ) ≤ 0 := by omega
  simp only [bufferAppend, hpos, ↓reduceIte, hroom, ok_bind, hfetch, store_ofWindow hfits]
  rw [← ofWindow_push hfits, hlen]
  rfl

theorem bufferAppend_ok {b : Buffer} (source : List Byte) {n : ℕ} {answer : Alloc Byte}
    (hb : b.WellFormed) (h0 : 0 < n) (hn : (n : ℤ) ≤ intMax) (hsource : n ≤ source.length)
    (hserved : RoomServed b n answer) :
    ∃ b', bufferAppend b (some source) n answer = .ok (b', true) ∧ b'.WellFormed ∧
      b'.readable = b.readable ++ source.take n := by
  obtain ⟨w, hroom, hmax, hfits, hcontents⟩ := makeRoom_ok hb hn hserved
  have hpush : w.hi + (source.take n).length ≤ w.cells.length := by
    rw [List.length_take]
    omega
  refine ⟨_, bufferAppend_of_makeRoom source hroom h0 hsource hpush,
    wellFormed_ofWindow (by simpa using hmax), ?_⟩
  rw [readable_ofWindow, Window.contents_push, hcontents]

/-- Refused memory is not noticed: the bytes are stored behind the block. -/
theorem bufferAppend_unserved {b : Buffer} (source : List Byte) {n : ℕ} {answer : Alloc Byte}
    (hb : b.WellFormed) (h0 : 0 < n) (hserved : ¬ RoomServed b n answer) :
    bufferAppend b (some source) n answer = .error .outOfBounds := by
  obtain ⟨hroom, hfull⟩ := makeRoom_unserved hserved
  have hpos : ¬ (n : ℤ) ≤ 0 := by omega
  simp only [bufferAppend, hpos, ↓reduceIte, hroom, ok_bind]
  by_cases hsource : n ≤ source.length
  · have hfetch : fetch source 0 n = .ok (source.take n) := by
      simpa using fetch_natCast source (i := 0) (n := n) (by omega)
    have hlen : (source.take n).length = n := by simp [hsource]
    rw [hfetch, ok_bind, store_full hb (by rw [hlen]; exact hfull), error_bind]
  · have hfetch : fetch source 0 n = .error .outOfBounds := by
      simp only [fetch, ite_eq_right_iff]
      intro h
      omega
    rw [hfetch, error_bind]

/-- An append that returns has found room. -/
theorem bufferAppend_served {b : Buffer} {source : List Byte} {n : ℕ} {answer : Alloc Byte}
    {r : Buffer × Bool} (hb : b.WellFormed) (h0 : 0 < n)
    (hret : bufferAppend b (some source) n answer = .ok r) : RoomServed b n answer := by
  by_contra hserved
  rw [bufferAppend_unserved source hb h0 hserved] at hret
  cases hret

/-- A character is a block of one byte. -/
theorem bufferAppendChar_eq (b : Buffer) (c : Byte) (answer : Alloc Byte) :
    bufferAppendChar b c answer = bufferAppend b (some [c]) 1 answer := by
  have hfetch : fetch [c] 0 1 = .ok [c] := fetch_natCast [c] (i := 0) (n := 1) le_rfl
  simp only [bufferAppend, bufferAppendChar, hfetch, ok_bind]
  rfl

theorem bufferAppendChar_ok {b : Buffer} {c : Byte} {answer : Alloc Byte} (hb : b.WellFormed)
    (hserved : RoomServed b 1 answer) :
    ∃ b', bufferAppendChar b c answer = .ok (b', true) ∧ b'.WellFormed ∧
      b'.readable = b.readable ++ [c] := by
  rw [bufferAppendChar_eq]
  exact bufferAppend_ok (n := 1) [c] hb one_pos (by simp [intMax]) le_rfl hserved

theorem bufferAppendString_ok {b : Buffer} {str : List Byte} {answer : Alloc Byte}
    (hb : b.WellFormed) (hnul : 0 ∈ str)
    (hlen : ((str.takeWhile (· ≠ 0)).length : ℤ) ≤ intMax)
    (hserved : RoomServed b (str.takeWhile (· ≠ 0)).length answer) :
    ∃ b', bufferAppendString b (some str) answer = .ok (b', true) ∧ b'.WellFormed ∧
      b'.readable = b.readable ++ str.takeWhile (· ≠ 0) := by
  set n := (str.takeWhile (· ≠ 0)).length with hn
  have hprefix : str.take n = str.takeWhile (· ≠ 0) :=
    (List.prefix_iff_eq_take.mp (List.takeWhile_prefix _)).symm
  have hwrap : wrapInt (n : ℤ) = n := wrapInt_of_le (by omega) hlen
  have hstrlen : strlen str = .ok n := by simp [strlen, hnul, hn]
  rcases Nat.eq_zero_or_pos n with h0 | hpos
  · refine ⟨b, ?_, hb, ?_⟩
    · have hrejects := bufferAppend_rejects b (some str) n answer (.inr (by omega))
      simp only [bufferAppendString, hstrlen, ok_bind, hwrap, hrejects]
    · rw [List.length_eq_zero_iff.mp (hn.symm.trans h0), List.append_nil]
  · obtain ⟨b', hb', hwf, hread⟩ := bufferAppend_ok str hb hpos hlen
      (by rw [hn]; exact (List.takeWhile_prefix _).length_le) hserved
    refine ⟨b', ?_, hwf, by rw [hread, hprefix]⟩
    simp only [bufferAppendString, hstrlen, ok_bind, hwrap, hb']

theorem bufferSocketRead_failed (b : Buffer) (errno : Errno) (answer : Alloc Byte) :
    bufferSocketRead b (.failed errno) answer = .ok (b, -1) := rfl

/-- The buffer once `readv` has filled the tail of its block. -/
def Buffer.tailFilled (b : Buffer) (xs : List Byte) : Buffer :=
  { b with
    data := b.data.take b.writeIndex.toNat ++ xs ++ b.data.drop (b.writeIndex.toNat + xs.length)
    writeIndex := b.writeIndex + xs.length }

theorem tailFilled_ofWindow {w : Window Byte} {xs : List Byte}
    (h : w.hi + xs.length ≤ w.cells.length) :
    (ofWindow w).tailFilled xs = ofWindow (w.push xs h) := by
  rw [← ofWindow_push h]
  simp [tailFilled, ofWindow, Window.push]

/-- The append of what did not fit in the tail finds the room it needs. -/
def SpillServed (b : Buffer) (socket : ReadAnswer) (answer : Alloc Byte) : Prop :=
  let bytes := readvDelivers b socket
  let tail := (bufferWriteableSize b).toNat
  tail < bytes.length →
    RoomServed (b.tailFilled (bytes.take tail)) ((bytes.length - tail : ℕ) : ℤ) answer

theorem Buffer.WellFormed.tailFilled {b : Buffer} (hb : b.WellFormed) (bytes : List Byte) :
    (b.tailFilled (bytes.take (bufferWriteableSize b).toNat)).WellFormed ∧
      (b.tailFilled (bytes.take (bufferWriteableSize b).toNat)).readable =
        b.readable ++ bytes.take (bufferWriteableSize b).toNat := by
  obtain ⟨w, rfl, hmax⟩ := hb.exists_window
  have hhi := w.hi_le_length
  rw [writeableSize_ofWindow]
  have hpush : w.hi + (bytes.take ((w.cells.length : ℤ) - w.hi).toNat).length ≤ w.cells.length := by
    rw [List.length_take]; omega
  rw [tailFilled_ofWindow hpush]
  exact ⟨wellFormed_ofWindow (by simpa using hmax), by simp⟩

/-- What fits in the tail is stored there. -/
theorem store_tail {b : Buffer} (hb : b.WellFormed) (bytes : List Byte) :
    store b.data b.writeIndex (bytes.take (bufferWriteableSize b).toNat) =
      .ok (b.tailFilled (bytes.take (bufferWriteableSize b).toNat)).data := by
  obtain ⟨w, rfl, -⟩ := hb.exists_window
  have hhi := w.hi_le_length
  rw [writeableSize_ofWindow]
  have hpush : w.hi + (bytes.take ((w.cells.length : ℤ) - w.hi).toNat).length ≤ w.cells.length := by
    rw [List.length_take]; omega
  rw [tailFilled_ofWindow hpush, store_ofWindow hpush]
  rfl

/-- A read that fits in the tail fills it. -/
theorem bufferSocketRead_fits {b : Buffer} {offered : List Byte} (answer : Alloc Byte)
    (hb : b.WellFormed)
    (hfits : (readvDelivers b (.offered offered)).length ≤ (bufferWriteableSize b).toNat) :
    bufferSocketRead b (.offered offered) answer =
      .ok (b.tailFilled (readvDelivers b (.offered offered)),
        ((readvDelivers b (.offered offered)).length : ℤ)) := by
  have hstore := store_tail hb (readvDelivers b (.offered offered))
  have hall := List.take_of_length_le hfits
  have hroom : 0 ≤ bufferWriteableSize b := sub_nonneg.mpr hb.write_le_total
  have hle : ((readvDelivers b (.offered offered)).length : ℤ) ≤ bufferWriteableSize b := by omega
  rw [hall] at hstore
  simp only [bufferSocketRead]
  rw [hall, hstore, ok_bind, if_pos hle]
  rfl

/-- A read that does not fit in the tail fills it and appends the rest. -/
theorem bufferSocketRead_spills {b : Buffer} {offered : List Byte} (answer : Alloc Byte)
    (hb : b.WellFormed)
    (hspill : (bufferWriteableSize b).toNat < (readvDelivers b (.offered offered)).length) :
    bufferSocketRead b (.offered offered) answer =
      (do
        let (buffer, _) ← bufferAppend
          (b.tailFilled ((readvDelivers b (.offered offered)).take (bufferWriteableSize b).toNat))
          (some ((readvDelivers b (.offered offered)).drop (bufferWriteableSize b).toNat))
          (((readvDelivers b (.offered offered)).length - (bufferWriteableSize b).toNat : ℕ) : ℤ)
          answer
        .ok (buffer, ((readvDelivers b (.offered offered)).length : ℤ))) := by
  have hstore := store_tail hb (readvDelivers b (.offered offered))
  set bytes := readvDelivers b (.offered offered) with hbytes
  have hroom : 0 ≤ bufferWriteableSize b := sub_nonneg.mpr hb.write_le_total
  have hlt : ¬ (bytes.length : ℤ) ≤ bufferWriteableSize b := by omega
  have hsize : (bytes.length : ℤ) - bufferWriteableSize b =
      ((bytes.length - (bufferWriteableSize b).toNat : ℕ) : ℤ) := by omega
  have hlast : b.writeIndex + (bytes.take (bufferWriteableSize b).toNat).length = b.totalSize := by
    rw [List.length_take, min_eq_left hspill.le]
    unfold bufferWriteableSize at hroom ⊢
    omega
  have hbuf : ({ b with
      data := (b.tailFilled (bytes.take (bufferWriteableSize b).toNat)).data,
      writeIndex := b.totalSize } : Buffer) =
        b.tailFilled (bytes.take (bufferWriteableSize b).toNat) := by
    rw [tailFilled, hlast]
  simp only [bufferSocketRead, ← hbytes]
  rw [hstore, ok_bind, if_neg hlt, hsize, hbuf]

theorem bufferSocketRead_ok {b : Buffer} {offered : List Byte} {answer : Alloc Byte}
    (hb : b.WellFormed) (hserved : SpillServed b (.offered offered) answer) :
    ∃ b', bufferSocketRead b (.offered offered) answer =
        .ok (b', ((readvDelivers b (.offered offered)).length : ℤ)) ∧ b'.WellFormed ∧
      b'.readable = b.readable ++ readvDelivers b (.offered offered) := by
  obtain ⟨hwf, hread⟩ := hb.tailFilled (readvDelivers b (.offered offered))
  have hbound : (readvDelivers b (.offered offered)).length ≤
      (bufferWriteableSize b).toNat + initBufferSize := List.length_take_le _ _
  by_cases hfits : (readvDelivers b (.offered offered)).length ≤ (bufferWriteableSize b).toNat
  · rw [List.take_of_length_le hfits] at hwf hread
    exact ⟨_, bufferSocketRead_fits answer hb hfits, hwf, hread⟩
  · have hspill := not_le.mp hfits
    obtain ⟨b', happend, hwf', hread'⟩ :=
      bufferAppend_ok ((readvDelivers b (.offered offered)).drop (bufferWriteableSize b).toNat)
        hwf (Nat.sub_pos_of_lt hspill)
        (by unfold initBufferSize at hbound; unfold intMax; omega) List.length_drop.ge
        (hserved hspill)
    refine ⟨b', ?_, hwf', ?_⟩
    · rw [bufferSocketRead_spills answer hb hspill, happend]
      rfl
    · rw [hread', hread, ← List.length_drop, List.take_length, List.append_assoc,
        List.take_append_drop]

theorem bufferReadChar_ok {b : Buffer} (hb : b.WellFormed) (h : 0 < bufferReadableSize b) :
    ∃ b' c, bufferReadChar b = .ok (b', c) ∧ b'.WellFormed ∧ b.readable = c :: b'.readable := by
  obtain ⟨w, rfl, hmax⟩ := hb.exists_window
  have hhi := w.hi_le_length
  have hlt : w.lo < w.hi := by rw [readableSize_ofWindow] at h; omega
  refine ⟨ofWindow (w.skip 1 (by omega)), w.cells[w.lo], ?_, wellFormed_ofWindow hmax, ?_⟩
  · have hload := load_natCast w.cells (i := w.lo) (by omega)
    simp only [bufferReadChar, ofWindow, hload, ok_bind, Window.skip]
    push_cast
    rfl
  · rw [readable_ofWindow, readable_ofWindow, Window.contents_skip]
    exact w.contents_eq_cons hlt (by omega)

/-- A consumer moves the reading position over `k` readable bytes. -/
def Buffer.advance (b : Buffer) (k : ℤ) : Buffer := { b with readIndex := b.readIndex + k }

theorem advance_ok {b : Buffer} {k : ℕ} (hb : b.WellFormed) (h : k ≤ b.readable.length) :
    (b.advance k).WellFormed ∧ (b.advance k).readable = b.readable.drop k := by
  obtain ⟨w, rfl, hmax⟩ := hb.exists_window
  rw [readable_ofWindow, Window.length_contents] at h
  have heq : (ofWindow w).advance k = ofWindow (w.skip k h) := by
    simp [advance, ofWindow, Window.skip]
  rw [heq]
  exact ⟨wellFormed_ofWindow hmax, by simp⟩

theorem bufferSocketRead_nothing {b : Buffer} (answer : Alloc Byte) (hb : b.WellFormed) :
    bufferSocketRead b (.offered []) answer = .ok (b, 0) := by
  obtain ⟨w, rfl, -⟩ := hb.exists_window
  have hhi := w.hi_le_length
  have hstore : store (ofWindow w).data (ofWindow w).writeIndex [] = .ok (ofWindow w).data := by
    have h : store w.cells (w.hi : ℤ) [] = _ := store_natCast w.cells (by simpa using hhi)
    simpa [ofWindow] using h
  simp [bufferSocketRead, readvDelivers, hstore, Nat.not_lt.mpr hhi]

/-- The bytes offered fit in the tail of the block and the additional buffer. -/
theorem readvDelivers_offered {b : Buffer} {bytes : List Byte}
    (h : (bytes.length : ℤ) ≤ bufferWriteableSize b + initBufferSize) :
    readvDelivers b (.offered bytes) = bytes :=
  List.take_of_length_le (by omega)

/-! ### Runs -/

inductive BufferOp where
  | append (data : Option (List Byte)) (size : ℤ) (answer : Alloc Byte)
  | appendChar (data : Byte) (answer : Alloc Byte)
  | appendString (str : Option (List Byte)) (answer : Alloc Byte)
  | socketRead (socket : ReadAnswer) (answer : Alloc Byte)
  | readChar
  | consume (k : ℤ)

/-- A buffer and the bytes that `buffer_read_char` has returned. -/
structure BufferRun where
  buffer : Buffer
  output : List Byte

def BufferRun.step (s : BufferRun) : BufferOp → Result BufferRun
  | .append data size answer => do
    let (buffer, _) ← bufferAppend s.buffer data size answer
    .ok { s with buffer }
  | .appendChar data answer => do
    let (buffer, _) ← bufferAppendChar s.buffer data answer
    .ok { s with buffer }
  | .appendString str answer => do
    let (buffer, _) ← bufferAppendString s.buffer str answer
    .ok { s with buffer }
  | .socketRead socket answer => do
    let (buffer, _) ← bufferSocketRead s.buffer socket answer
    .ok { s with buffer }
  | .readChar => do
    let (buffer, c) ← bufferReadChar s.buffer
    .ok ⟨buffer, s.output ++ [c]⟩
  | .consume k => .ok { s with buffer := s.buffer.advance k }

/-- What callers and the kernel promise: the data is as long as its size says, a
string ends in `NUL`, a read delivers at most what its two vectors hold, and only
readable bytes are consumed. Sizes are `int`s and `realloc` succeeds. -/
def BufferOp.Admitted (s : BufferRun) : BufferOp → Prop
  | .append data size answer => ∀ source, data = some source → 0 < size →
      size ≤ source.length ∧ size ≤ intMax ∧ RoomServed s.buffer size answer
  | .appendChar _ answer => RoomServed s.buffer 1 answer
  | .appendString str answer => ∀ block, str = some block →
      0 ∈ block ∧ ((block.takeWhile (· ≠ 0)).length : ℤ) ≤ intMax ∧
        RoomServed s.buffer (block.takeWhile (· ≠ 0)).length answer
  | .socketRead socket answer => ∀ bytes, socket = .offered bytes →
      (bytes.length : ℤ) ≤ bufferWriteableSize s.buffer + initBufferSize ∧
        SpillServed s.buffer socket answer
  | .readChar => 0 < bufferReadableSize s.buffer
  | .consume k => 0 ≤ k ∧ k ≤ bufferReadableSize s.buffer

/-- The abstract buffer: a queue, and the bytes read from its front. -/
structure ByteQueue where
  queue : List Byte
  output : List Byte

def ByteQueue.step (q : ByteQueue) : BufferOp → ByteQueue
  | .append none _ _ => q
  | .append (some source) size _ => { q with queue := q.queue ++ source.take size.toNat }
  | .appendChar data _ => { q with queue := q.queue ++ [data] }
  | .appendString none _ => q
  | .appendString (some block) _ => { q with queue := q.queue ++ block.takeWhile (· ≠ 0) }
  | .socketRead (.failed _) _ => q
  | .socketRead (.offered bytes) _ => { q with queue := q.queue ++ bytes }
  | .readChar => ⟨q.queue.tail, q.output ++ q.queue.take 1⟩
  | .consume k => { q with queue := q.queue.drop k.toNat }

/-- The buffer is well formed and its readable bytes are the queue. -/
structure BufferRun.Represents (s : BufferRun) (q : ByteQueue) : Prop where
  wellFormed : s.buffer.WellFormed
  readable : s.buffer.readable = q.queue
  output : s.output = q.output

/-- A rejected `buffer_append` changes nothing, and the others queue their bytes. -/
theorem BufferRun.append_represents {s : BufferRun} {q : ByteQueue} (h : s.Represents q)
    {data : Option (List Byte)} {size : ℤ} {answer : Alloc Byte}
    (hadm : (BufferOp.append data size answer).Admitted s) :
    ∃ s', s.step (.append data size answer) = .ok s' ∧
      s'.Represents (q.step (.append data size answer)) := by
  obtain ⟨hwf, hread, hout⟩ := h
  by_cases hrej : data = none ∨ size ≤ 0
  · have hstep : s.step (.append data size answer) = .ok s := by
      simp [BufferRun.step, bufferAppend_rejects s.buffer data size answer hrej]
    refine ⟨s, hstep, hwf, ?_, ?_⟩
    · cases data with
      | none => exact hread
      | some source =>
        have h0 : size.toNat = 0 := by
          have hle := hrej.resolve_left nofun
          omega
        simp [ByteQueue.step, h0, hread]
    · cases data <;> exact hout
  · rw [not_or, not_le] at hrej
    obtain ⟨source, rfl⟩ := Option.ne_none_iff_exists'.mp hrej.1
    obtain ⟨hsource, hmax, hserved⟩ := hadm source rfl hrej.2
    obtain ⟨n, rfl⟩ : ∃ n : ℕ, size = n := ⟨size.toNat, by omega⟩
    obtain ⟨b', hb', hwf', hread'⟩ := bufferAppend_ok source hwf (by omega) hmax
      (by omega : n ≤ source.length) hserved
    exact ⟨{ s with buffer := b' }, by simp [BufferRun.step, hb'], hwf',
      by simp [ByteQueue.step, hread', hread], hout⟩

/-- One operation, a case for each. -/
theorem BufferRun.step_represents (s : BufferRun) (q : ByteQueue) (op : BufferOp)
    (h : s.Represents q) (hadm : op.Admitted s) :
    ∃ s', s.step op = .ok s' ∧ s'.Represents (q.step op) := by
  obtain ⟨hwf, hread, hout⟩ := h
  cases op with
  | append data size answer => exact append_represents ⟨hwf, hread, hout⟩ hadm
  | appendChar data answer =>
    obtain ⟨b', hb', hwf', hread'⟩ := bufferAppendChar_ok (c := data) hwf hadm
    exact ⟨{ s with buffer := b' }, by simp [BufferRun.step, hb'], hwf',
      by simp [ByteQueue.step, hread', hread], hout⟩
  | appendString str answer =>
    cases str with
    | none => exact ⟨s, rfl, hwf, hread, hout⟩
    | some block =>
      obtain ⟨hnul, hlen, hserved⟩ := hadm block rfl
      obtain ⟨b', hb', hwf', hread'⟩ := bufferAppendString_ok hwf hnul hlen hserved
      refine ⟨{ s with buffer := b' }, by simp [BufferRun.step, hb'], hwf', ?_, hout⟩
      show b'.readable = q.queue ++ _
      rw [hread', hread]
  | socketRead socket answer =>
    cases socket with
    | failed errno => exact ⟨s, rfl, hwf, hread, hout⟩
    | offered bytes =>
      obtain ⟨hfits, hserved⟩ := hadm bytes rfl
      obtain ⟨b', hb', hwf', hread'⟩ := bufferSocketRead_ok hwf hserved
      rw [readvDelivers_offered hfits] at hb' hread'
      exact ⟨{ s with buffer := b' }, by simp [BufferRun.step, hb'], hwf',
        by simp [ByteQueue.step, hread', hread], hout⟩
  | readChar =>
    obtain ⟨b', c, hb', hwf', hread'⟩ := bufferReadChar_ok hwf hadm
    refine ⟨⟨b', s.output ++ [c]⟩, by simp [BufferRun.step, hb'], hwf', ?_, ?_⟩
    · simp [ByteQueue.step, ← hread, hread']
    · simp [ByteQueue.step, ← hread, hread', hout]
  | consume k =>
    obtain ⟨n, rfl⟩ : ∃ n : ℕ, k = n := ⟨k.toNat, by have := hadm.1; omega⟩
    have hle := hadm.2
    rw [hwf.readableSize_eq] at hle
    obtain ⟨hwf', hread'⟩ := advance_ok hwf (k := n) (by omega)
    exact ⟨{ s with buffer := s.buffer.advance n }, rfl, hwf',
      by simp [ByteQueue.step, hread', hread], hout⟩

/-- Every run from `buffer_new` is a run of the queue: no access leaves the block,
the indices stay ordered, and a read that fails or returns nothing changes nothing. -/
theorem buffer_refines_queue (fill : ℕ → Byte) (b : Buffer) (ops : List BufferOp)
    (hnew : bufferNew true (some fill) = some b)
    (hadm : Admissible BufferRun.step (fun s op => op.Admitted s) ⟨b, []⟩ ops) :
    ∃ s, ops.foldlM BufferRun.step ⟨b, []⟩ = .ok s ∧
      s.Represents (ops.foldl ByteQueue.step ⟨[], []⟩) ∧
      (∀ errno answer, bufferSocketRead s.buffer (.failed errno) answer = .ok (s.buffer, -1)) ∧
      (∀ answer, bufferSocketRead s.buffer (.offered []) answer = .ok (s.buffer, 0)) := by
  obtain ⟨b', hb', hwf, hread, -⟩ := bufferNew_readable fill
  obtain rfl : b' = b := Option.some.inj (hb'.symm.trans hnew)
  obtain ⟨s, hs, hrep⟩ := foldlM_simulates BufferRun.step_represents
    (t := ⟨[], []⟩) ⟨hwf, hread, rfl⟩ hadm
  exact ⟨s, hs, hrep, bufferSocketRead_failed s.buffer,
    fun answer => bufferSocketRead_nothing answer hrep.wellFormed⟩

/-- The allocator serves every request that it can. -/
def BufferOp.Served : BufferOp → Prop
  | .append _ _ answer => answer.isSome
  | .appendChar _ answer => answer.isSome
  | .appendString _ answer => answer.isSome
  | .socketRead _ answer => answer.isSome
  | .readChar => True
  | .consume _ => True

/-- The bytes that an operation would add to the queue. -/
def BufferOp.offered : BufferOp → ℕ
  | .append none _ _ => 0
  | .append (some _) size _ => size.toNat
  | .appendChar _ _ => 1
  | .appendString none _ => 0
  | .appendString (some block) _ => (block.takeWhile (· ≠ 0)).length
  | .socketRead (.failed _) _ => 0
  | .socketRead (.offered bytes) _ => bytes.length
  | .readChar => 0
  | .consume _ => 0

/-- What callers and the kernel promise, said of the queue: a read delivers no more than the second
of its vectors holds. -/
def BufferOp.CalledBy (q : ByteQueue) : BufferOp → Prop
  | .append data size _ => ∀ source, data = some source → size ≤ source.length
  | .appendChar _ _ => True
  | .appendString str _ => ∀ block, str = some block → 0 ∈ block
  | .socketRead socket answer => (BufferOp.socketRead socket answer).offered ≤ initBufferSize
  | .readChar => q.queue ≠ []
  | .consume k => 0 ≤ k ∧ k ≤ q.queue.length

/-- The queue stays below `2 ^ 30` bytes. -/
structure BufferOp.AdmittedBy (q : ByteQueue) (op : BufferOp) : Prop where
  called : op.CalledBy q
  served : op.Served
  low : q.queue.length + op.offered < 2 ^ 30

/-- The queue tells what is admitted, wherever its bytes are in the block. -/
theorem BufferRun.Represents.admitted {s : BufferRun} {q : ByteQueue} (h : s.Represents q)
    {op : BufferOp} (hop : op.AdmittedBy q) : op.Admitted s := by
  obtain ⟨hwf, hread, -⟩ := h
  obtain ⟨hcalled, hserved, hlow⟩ := hop
  have hsize : bufferReadableSize s.buffer = q.queue.length := by rw [hwf.readableSize_eq, hread]
  have hroom : ∀ n : ℕ, ∀ answer : Alloc Byte, answer.isSome → q.queue.length + n < 2 ^ 30 →
      RoomServed s.buffer n answer := fun n answer hanswer hlow =>
    roomServed_of_backlog hwf hanswer (by rwa [hread])
  cases op with
  | append data size answer =>
    rintro source rfl h0
    obtain ⟨n, rfl⟩ : ∃ n : ℕ, size = n := ⟨size.toNat, by omega⟩
    rw [BufferOp.offered, Int.toNat_natCast] at hlow
    exact ⟨hcalled source rfl, by unfold intMax; omega, hroom n answer hserved hlow⟩
  | appendChar data answer => exact hroom 1 answer hserved hlow
  | appendString str answer =>
    rintro block rfl
    rw [BufferOp.offered] at hlow
    exact ⟨hcalled block rfl, by unfold intMax; omega, hroom _ answer hserved hlow⟩
  | socketRead socket answer =>
    rintro bytes rfl
    have hwriteable : 0 ≤ bufferWriteableSize s.buffer := by
      have hle := hwf.write_le_total
      unfold bufferWriteableSize
      omega
    simp only [BufferOp.CalledBy, BufferOp.offered] at hcalled hlow
    refine ⟨by omega, fun hspill => ?_⟩
    obtain ⟨hwf', hread'⟩ := hwf.tailFilled (readvDelivers s.buffer (.offered bytes))
    have hdelivers : (readvDelivers s.buffer (.offered bytes)).length ≤ bytes.length :=
      List.length_take_le' _ _
    refine roomServed_of_backlog hwf' hserved ?_
    rw [hread', hread, List.length_append, List.length_take]
    omega
  | readChar =>
    show 0 < bufferReadableSize s.buffer
    rw [hsize]
    exact_mod_cast List.length_pos_iff.mpr hcalled
  | consume k => exact ⟨hcalled.1, hsize ▸ hcalled.2⟩

theorem BufferRun.Represents.admissible {s : BufferRun} {q : ByteQueue} (h : s.Represents q)
    {ops : List BufferOp}
    (hops : Admissible (fun q op => .ok (ByteQueue.step q op)) (fun q op => op.AdmittedBy q) q ops) :
    Admissible BufferRun.step (fun s op => op.Admitted s) s ops :=
  .of_simulates (fun s q op hrep hop => BufferRun.step_represents s q op hrep (hrep.admitted hop))
    (fun _ _ _ hrep hop => hrep.admitted hop) h hops

/-- A block full of bytes that have been read takes as many new ones, a `readv` gives some that do
not fit, and one is read. -/
def spillingRun (first second third : List Byte) : List BufferOp :=
  [.append (some first) first.length (some fun _ => 0), .consume (first.length - 1),
    .append (some second) second.length (some fun _ => 0),
    .socketRead (.offered third) (some fun _ => 0), .readChar]

theorem spillingRun_queue (first second third : List Byte) :
    (spillingRun first second third).foldl ByteQueue.step ⟨[], []⟩ =
      ⟨(first.drop (first.length - 1) ++ second ++ third).tail,
        (first.drop (first.length - 1) ++ second ++ third).take 1⟩ := by
  have hpred : ((first.length : ℤ) - 1).toNat = first.length - 1 := by omega
  simp [spillingRun, ByteQueue.step, hpred]

theorem spillingRun_admissible (first second third : List Byte) (hpos : 0 < first.length)
    (hlow : first.length + second.length + third.length < 2 ^ 30)
    (hthird : third.length ≤ initBufferSize) :
    Admissible (fun q op => .ok (ByteQueue.step q op)) (fun q op => op.AdmittedBy q) ⟨[], []⟩
      (spillingRun first second third) := by
  refine ⟨⟨?_, rfl, ?_⟩, fun q hq => ?_⟩
  · rintro _ ⟨⟩
    exact le_rfl
  · simp only [BufferOp.offered, List.length_nil, Int.toNat_natCast]
    omega
  cases hq
  refine ⟨⟨⟨by omega, by simp [ByteQueue.step]⟩, trivial, ?_⟩, fun q hq => ?_⟩
  · simp only [ByteQueue.step, BufferOp.offered, List.nil_append, List.length_take]
    omega
  cases hq
  refine ⟨⟨?_, rfl, ?_⟩, fun q hq => ?_⟩
  · rintro _ ⟨⟩
    exact le_rfl
  · simp only [ByteQueue.step, BufferOp.offered, List.nil_append, List.length_drop, List.length_take,
      Int.toNat_natCast]
    omega
  cases hq
  refine ⟨⟨hthird, rfl, ?_⟩, fun q hq => ?_⟩
  · simp only [ByteQueue.step, BufferOp.offered, List.nil_append, List.length_append, List.length_drop,
      List.length_take]
    omega
  cases hq
  refine ⟨⟨fun hempty => ?_, trivial, ?_⟩, fun _ _ => trivial⟩
  · have hlength := congrArg List.length hempty
    simp only [ByteQueue.step, List.nil_append, List.length_append, List.length_drop,
      List.length_take, List.length_nil] at hlength
    omega
  · simp only [ByteQueue.step, BufferOp.offered, List.nil_append, List.length_append,
      List.length_drop, List.length_take]
    omega

/-- The second append moves what is left to the front, and the rest of the `readv` makes the block
grow. -/
theorem buffer_refines_queue_spill :
    ∃ b s, bufferNew true (some fun _ => 0) = some b ∧
      (spillingRun (List.replicate 60000 1) (List.replicate 65000 2) (List.replicate 1000 3)).foldlM
        BufferRun.step ⟨b, []⟩ = .ok s ∧
      s.buffer.readable = List.replicate 65000 2 ++ List.replicate 1000 3 ∧ s.output = [1] := by
  obtain ⟨b, hb, hwf, hread, -⟩ := bufferNew_readable fun _ => 0
  have hinit : (⟨b, []⟩ : BufferRun).Represents ⟨[], []⟩ := ⟨hwf, hread, rfl⟩
  obtain ⟨s, hs, hrep, -⟩ := buffer_refines_queue (fun _ => 0) b _ hb
    (hinit.admissible (spillingRun_admissible (List.replicate 60000 1) (List.replicate 65000 2)
      (List.replicate 1000 3) (by simp only [List.length_replicate]; omega)
      (by simp only [List.length_replicate]; omega)
      (by simp only [List.length_replicate]; unfold initBufferSize; omega)))
  rw [spillingRun_queue] at hrep
  have hrest : (List.replicate 60000 (1 : Byte)).drop ((List.replicate 60000 (1 : Byte)).length - 1) =
      [1] := by
    simp only [List.length_replicate, List.drop_replicate]
    rfl
  rw [hrest] at hrep
  exact ⟨b, s, hb, hs, hrep.readable, hrep.output⟩

end OsProgramming.Reactor
