import OsProgramming.Reactor.BufferCapacity

/-! The search for a line end. `buffer_find_CRLF` hands the block to `strstr`, which
knows nothing of the two indices: it starts at `read_index` and goes on to a match
or a `NUL`, over whatever the block holds there. -/

namespace OsProgramming.Reactor

open Library Buffer

/-- The string `CRLF` of the source. -/
def crlf : List Byte := [13, 10]

/-- `strstr` over the cells of a block from index `i` on: it looks at them one after
the other, up to a match or the `NUL`. -/
def strstr (needle : List Byte) : ℕ → List Byte → Result (Option ℕ)
  | _, [] => .error .outOfBounds
  | i, c :: rest =>
    if needle <+: c :: rest then .ok (some i)
    else if c = 0 then .ok none
    else strstr needle (i + 1) rest

/-- The index in the block that the result points to, or `none` for `NULL`. -/
def bufferFindCRLF (buffer : Buffer) : Result (Option ℕ) :=
  if 0 ≤ buffer.readIndex then
    strstr crlf buffer.readIndex.toNat (buffer.data.drop buffer.readIndex.toNat)
  else .error .outOfBounds

/-- The cells hold CR LF from position `m` on. -/
def CrlfAt (cells : List Byte) (m : ℕ) : Prop := cells[m]? = some 13 ∧ cells[m + 1]? = some 10

theorem crlfAt_zero (c : Byte) (rest : List Byte) : CrlfAt (c :: rest) 0 ↔ crlf <+: c :: rest := by
  cases rest <;> simp [CrlfAt, crlf, eq_comm]

theorem crlfAt_succ (c : Byte) (rest : List Byte) (m : ℕ) :
    CrlfAt (c :: rest) (m + 1) ↔ CrlfAt rest m := Iff.rfl

/-- The search finds the first match and no `NUL` before it, or a `NUL` and no match
up to it, or it leaves a block that holds neither. -/
theorem strstr_cases (cells : List Byte) (i : ℕ) :
    (∃ k, strstr crlf i cells = .ok (some (i + k)) ∧ CrlfAt cells k ∧
      ∀ m < k, cells[m]? ≠ some 0 ∧ ¬ CrlfAt cells m) ∨
    (∃ k, strstr crlf i cells = .ok none ∧ cells[k]? = some 0 ∧ ∀ m ≤ k, ¬ CrlfAt cells m) ∨
    (strstr crlf i cells = .error .outOfBounds ∧ ∀ m, cells[m]? ≠ some 0 ∧ ¬ CrlfAt cells m) := by
  induction cells generalizing i with
  | nil => exact .inr (.inr ⟨rfl, fun m => by simp [CrlfAt]⟩)
  | cons c rest ih =>
    by_cases hmatch : crlf <+: c :: rest
    · exact .inl ⟨0, by simp [strstr, hmatch], (crlfAt_zero c rest).mpr hmatch,
        fun m hm => absurd hm (Nat.not_lt_zero m)⟩
    have hfirst : ¬ CrlfAt (c :: rest) 0 := fun h => hmatch ((crlfAt_zero c rest).mp h)
    by_cases hc : c = 0
    · refine .inr (.inl ⟨0, by rw [strstr, if_neg hmatch, if_pos hc], by simp [hc], ?_⟩)
      intro m hm
      rwa [Nat.le_zero.mp hm]
    have hstep : strstr crlf i (c :: rest) = strstr crlf (i + 1) rest := by
      simp [strstr, hmatch, hc]
    have hnul : (c :: rest)[0]? ≠ some 0 := by simpa using hc
    rw [hstep]
    rcases ih (i + 1) with ⟨k, hres, hk, hbefore⟩ | ⟨k, hres, hk, hbefore⟩ | ⟨hres, hnone⟩
    · refine .inl ⟨k + 1, by rw [hres]; congr 2; omega, (crlfAt_succ c rest k).mpr hk, ?_⟩
      intro m hm
      cases m with
      | zero => exact ⟨hnul, hfirst⟩
      | succ m => exact hbefore m (Nat.lt_of_succ_lt_succ hm)
    · refine .inr (.inl ⟨k + 1, hres, hk, ?_⟩)
      intro m hm
      cases m with
      | zero => exact hfirst
      | succ m => exact hbefore m (Nat.le_of_succ_le_succ hm)
    · refine .inr (.inr ⟨hres, ?_⟩)
      intro m
      cases m with
      | zero => exact ⟨hnul, hfirst⟩
      | succ m => exact hnone m

/-! ### The readable bytes -/

/-- CR LF at index `i`, within the readable bytes. -/
def ReadableCrlf (b : Buffer) (i : ℕ) : Prop :=
  b.readIndex ≤ i ∧ (i : ℤ) + 2 ≤ b.writeIndex ∧ CrlfAt b.data i

/-- The result is the first CR LF of the readable bytes, or `NULL` if they hold none. -/
def IsFirstCrlf (b : Buffer) : Option ℕ → Prop
  | some i => ReadableCrlf b i ∧ ∀ j, ReadableCrlf b j → i ≤ j
  | none => ∀ i, ¬ ReadableCrlf b i

/-- A CR LF among the readable bytes stands before every `NUL`; or there is none, and
the block from `read_index` on holds a `NUL` before every CR LF. -/
def Searchable (b : Buffer) : Prop :=
  (∃ i, ReadableCrlf b i ∧ ∀ j : ℕ, b.readIndex ≤ j → j < i → b.data[j]? ≠ some 0) ∨
    ((∀ i, ¬ ReadableCrlf b i) ∧
      ∃ k : ℕ, b.readIndex ≤ k ∧ b.data[k]? = some 0 ∧
        ∀ j : ℕ, b.readIndex ≤ j → j < k → ¬ CrlfAt b.data j)

theorem crlfAt_drop (cells : List Byte) (i m : ℕ) :
    CrlfAt (cells.drop i) m ↔ CrlfAt cells (i + m) := by
  simp only [CrlfAt, List.getElem?_drop]
  rfl

/-- The three ways in which the search ends, by indices of the block. -/
theorem bufferFindCRLF_cases {b : Buffer} (h0 : 0 ≤ b.readIndex) :
    (∃ i : ℕ, bufferFindCRLF b = .ok (some i) ∧ b.readIndex ≤ i ∧ CrlfAt b.data i ∧
      ∀ j : ℕ, b.readIndex ≤ j → j < i → b.data[j]? ≠ some 0 ∧ ¬ CrlfAt b.data j) ∨
    (∃ k : ℕ, bufferFindCRLF b = .ok none ∧ b.readIndex ≤ k ∧ b.data[k]? = some 0 ∧
      ∀ j : ℕ, b.readIndex ≤ j → j ≤ k → ¬ CrlfAt b.data j) ∨
    (bufferFindCRLF b = .error .outOfBounds ∧
      ∀ j : ℕ, b.readIndex ≤ j → b.data[j]? ≠ some 0 ∧ ¬ CrlfAt b.data j) := by
  obtain ⟨r, hr⟩ : ∃ r : ℕ, b.readIndex = r := ⟨b.readIndex.toNat, by omega⟩
  have hfind : bufferFindCRLF b = strstr crlf r (b.data.drop r) := by
    rw [bufferFindCRLF, if_pos h0, hr, Int.toNat_natCast]
  rw [hfind, hr]
  have hcases := strstr_cases (b.data.drop r) r
  simp only [crlfAt_drop, List.getElem?_drop] at hcases
  -- position `m` of what is searched is index `r + m` of the block
  have hindex (j : ℕ) (hj : (r : ℤ) ≤ j) : r + (j - r) = j := by omega
  rcases hcases with ⟨k, hres, hk, hbefore⟩ | ⟨k, hres, hk, hbefore⟩ | ⟨hres, hnone⟩
  · refine .inl ⟨r + k, hres, by omega, hk, fun j hj hlt => ?_⟩
    have h := hbefore (j - r) (by omega)
    rwa [hindex j hj] at h
  · refine .inr (.inl ⟨r + k, hres, by omega, hk, fun j hj hle => ?_⟩)
    have h := hbefore (j - r) (by omega)
    rwa [hindex j hj] at h
  · refine .inr (.inr ⟨hres, fun j hj => ?_⟩)
    have h := hnone (j - r)
    rwa [hindex j hj] at h

theorem not_crlfAt_of_nul {cells : List Byte} {m : ℕ} (h : cells[m]? = some 0) :
    ¬ CrlfAt cells m := by
  rintro ⟨hcr, -⟩
  rw [h] at hcr
  exact absurd (Option.some.inj hcr) (by decide)

/-- The search returns the first CR LF of the readable bytes exactly when no `NUL` and
no byte outside of them misleads it. -/
theorem bufferFindCRLF_iff {b : Buffer} (h0 : 0 ≤ b.readIndex) :
    (∃ result, bufferFindCRLF b = .ok result ∧ IsFirstCrlf b result) ↔ Searchable b := by
  rcases bufferFindCRLF_cases h0 with ⟨i, hres, hi, hcrlf, hbefore⟩ | ⟨k, hres, hk, hnul, hbefore⟩ |
      ⟨hres, hnone⟩
  · -- a match at `i`
    constructor
    · rintro ⟨result, hres', hfirst⟩
      obtain rfl : some i = result := Except.ok.inj (hres.symm.trans hres')
      exact .inl ⟨i, hfirst.1, fun j hj hlt => (hbefore j hj hlt).1⟩
    · intro hsearch
      refine ⟨some i, hres, ?_⟩
      have hleast (j : ℕ) (hj : ReadableCrlf b j) : i ≤ j := by
        by_contra hlt
        exact (hbefore j hj.1 (not_le.mp hlt)).2 hj.2.2
      rcases hsearch with ⟨j, hj, -⟩ | ⟨-, k, hk, hnul, hno⟩
      · have hle := hleast j hj
        exact ⟨⟨hi, by have := hj.2.1; omega, hcrlf⟩, hleast⟩
      · -- the `NUL` is neither before, nor at, nor behind the match
        rcases lt_trichotomy k i with hlt | rfl | hlt
        · exact absurd hnul (hbefore k hk hlt).1
        · exact absurd hcrlf (not_crlfAt_of_nul hnul)
        · exact absurd hcrlf (hno i hi hlt)
  · -- a `NUL` at `k`
    constructor
    · rintro ⟨result, hres', hfirst⟩
      obtain rfl : none = result := Except.ok.inj (hres.symm.trans hres')
      exact .inr ⟨hfirst, k, hk, hnul, fun j hj hlt => hbefore j hj hlt.le⟩
    · intro hsearch
      refine ⟨none, hres, ?_⟩
      rcases hsearch with ⟨i, hi, hno⟩ | ⟨hnone, -⟩
      · rcases le_or_gt i k with hle | hlt
        · exact absurd hi.2.2 (hbefore i hi.1 hle)
        · exact absurd hnul (hno k hk hlt)
      · exact hnone
  · -- the end of the block
    constructor
    · rintro ⟨result, hres', -⟩
      rw [hres] at hres'
      cases hres'
    · rintro (⟨i, hi, -⟩ | ⟨-, k, hk, hnul, -⟩)
      · exact absurd hi.2.2 (hnone i hi.1).2
      · exact absurd hnul (hnone k hk).1

/-- At the end of every run from `buffer_new`. -/
theorem find_CRLF_iff_searchable (fill : ℕ → Byte) (b : Buffer) (ops : List BufferOp)
    (hnew : bufferNew true (some fill) = some b)
    (hadm : Admissible BufferRun.step (fun s op => op.Called s) ⟨b, []⟩ ops) (s : BufferRun)
    (hrun : ops.foldlM BufferRun.step ⟨b, []⟩ = .ok s) :
    (∃ result, bufferFindCRLF s.buffer = .ok result ∧ IsFirstCrlf s.buffer result) ↔
      Searchable s.buffer := by
  obtain ⟨b', hb', hwf, -, -⟩ := bufferNew_readable fill
  obtain rfl : b' = b := Option.some.inj (hb'.symm.trans hnew)
  have hkeeps (s : BufferRun) (op : BufferOp) (s' : BufferRun) (hb : s.buffer.WellFormed)
      (hcall : op.Called s) (hstep : s.step op = .ok s') : s'.buffer.WellFormed :=
    (BufferRun.step_backlog hb hcall hstep).1
  have hinv := foldlM_inv hkeeps hwf hadm hrun
  exact bufferFindCRLF_iff hinv.zero_le_read

/-- Bytes received into a new buffer are the first ones of its block. -/
theorem bufferNew_received (bytes : List Byte) (h : bytes.length ≤ initBufferSize) :
    ∃ b s rest, bufferNew true (some fun _ => 0) = some b ∧
      [.socketRead (.offered bytes) none].foldlM BufferRun.step ⟨b, []⟩ = .ok s ∧
      s.buffer.readIndex = 0 ∧ s.buffer.writeIndex = bytes.length ∧
      s.buffer.data = bytes ++ rest := by
  obtain ⟨b, hb, hwf, -, hroom⟩ := bufferNew_readable fun _ => 0
  have hindices : b.readIndex = 0 ∧ b.writeIndex = 0 := by
    simp only [bufferNew, ↓reduceIte, Option.some.injEq] at hb
    simp [← hb]
  have hall : readvDelivers b (.offered bytes) = bytes :=
    readvDelivers_offered (by rw [hroom]; omega)
  have hfits := bufferSocketRead_fits none hwf (by rw [hall, hroom]; omega)
  rw [hall] at hfits
  refine ⟨b, ⟨b.tailFilled bytes, []⟩, b.data.drop bytes.length, hb, ?_, hindices.1, ?_, ?_⟩
  · simp [BufferRun.step, hfits]
  · simp [tailFilled, hindices.2]
  · simp [tailFilled, hindices.2]

/-- A line end behind a `NUL` in the received bytes is not found. -/
theorem find_CRLF_misses :
    ∃ b s, bufferNew true (some fun _ => 0) = some b ∧
      [.socketRead (.offered [0, 13, 10]) none].foldlM BufferRun.step ⟨b, []⟩ = .ok s ∧
      bufferFindCRLF s.buffer = .ok none ∧ ReadableCrlf s.buffer 1 := by
  obtain ⟨b, s, rest, hb, hrun, hread, hwrite, hdata⟩ :=
    bufferNew_received [0, 13, 10] (by decide)
  refine ⟨b, s, hb, hrun, ?_, ?_⟩
  · simp [bufferFindCRLF, hread, hdata, strstr, crlf]
  · simp [ReadableCrlf, CrlfAt, hread, hwrite, hdata]

/-- A line end that no `NUL` precedes is. -/
theorem find_CRLF_iff_searchable_line :
    ∃ b s result, bufferNew true (some fun _ => 0) = some b ∧
      [.socketRead (.offered [13, 10]) none].foldlM BufferRun.step ⟨b, []⟩ = .ok s ∧
      bufferFindCRLF s.buffer = .ok result ∧ IsFirstCrlf s.buffer result := by
  obtain ⟨b, s, rest, hb, hrun, hread, hwrite, hdata⟩ := bufferNew_received [13, 10] (by decide)
  have hcrlf : ReadableCrlf s.buffer 0 := by
    simp [ReadableCrlf, CrlfAt, hread, hwrite, hdata]
  obtain ⟨result, hfind, hfirst⟩ := (find_CRLF_iff_searchable (fun _ => 0) b
    [.socketRead (.offered [13, 10]) none] hb ⟨trivial, fun _ _ => trivial⟩ s hrun).mpr
    (.inl ⟨0, hcrlf, fun j _ hj => absurd hj (Nat.not_lt_zero j)⟩)
  exact ⟨b, s, result, hb, hrun, hfind, hfirst⟩

end OsProgramming.Reactor
