import OsProgramming.Library.Memory

/-! Text in C. A format is rendered up to its first `NUL`, and what `sprintf` writes
into a block ends with one more. -/

namespace OsProgramming.Library

/-- The conversion `%d`. -/
def decimal (x : ℤ) : List Char :=
  if x < 0 then '-' :: Nat.toDigits 10 x.natAbs else Nat.toDigits 10 x.natAbs

/-- The text of a format in which `%d` is the only conversion. -/
def rendered : List Char → List ℤ → List Char
  | [], _ => []
  | '\x00' :: _, _ => []
  | '%' :: 'd' :: format, x :: args => decimal x ++ rendered format args
  | c :: format, args => c :: rendered format args

/-- The bytes that `sprintf` writes, with the `NUL`. -/
def written (format : String) (args : List ℤ) : List UInt8 :=
  (rendered format.toList args).map Char.toUInt8 ++ [0]

def sprintf (block : List UInt8) (format : String) (args : List ℤ) : Result (List UInt8) :=
  store block 0 (written format args)

theorem length_decimal_le_iff {x : ℤ} (h0 : 0 ≤ x) {k : ℕ} (hk : 0 < k) :
    (decimal x).length ≤ k ↔ x < 10 ^ k := by
  obtain ⟨n, rfl⟩ := Int.eq_ofNat_of_zero_le h0
  rw [decimal, if_neg h0.not_gt, Int.natAbs_natCast, Nat.length_toDigits_le_iff (by decide) hk]
  norm_cast

theorem length_written (format : String) (args : List ℤ) :
    (written format args).length = (rendered format.toList args).length + 1 := by
  rw [written, List.length_append, List.length_map, List.length_singleton]

/-- A number behind a label. -/
theorem length_written_le_iff {format : String} {label : List Char} {x : ℤ} {k : ℕ} (h0 : 0 ≤ x)
    (hk : 0 < k) (hformat : rendered format.toList [x] = label ++ decimal x) :
    (written format [x]).length ≤ label.length + k + 1 ↔ x < 10 ^ k := by
  rw [length_written, hformat, List.length_append, ← length_decimal_le_iff h0 hk]
  omega

theorem sprintf_returns_iff {block : List UInt8} {format : String} {args : List ℤ} :
    (∃ block', sprintf block format args = .ok block') ↔
      (written format args).length ≤ block.length := by
  rcases le_or_gt (written format args).length block.length with hfit | hlong
  · have hstore : store block (0 : ℕ) (written format args) = .ok _ :=
      store_natCast block (by rwa [Nat.zero_add])
    exact iff_of_true ⟨_, hstore⟩ hfit
  · have hstore : store block (0 : ℕ) (written format args) = .error .outOfBounds :=
      store_of_length_lt (by rwa [Nat.zero_add])
    refine iff_of_false ?_ hlong.not_ge
    rintro ⟨block', hblock'⟩
    cases hstore.symm.trans hblock'

end OsProgramming.Library
