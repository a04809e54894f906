import Mathlib.Data.Int.ConditionallyCompleteOrder
import OsProgramming.Library.Growth
import OsProgramming.Library.Runs
import OsProgramming.Reactor.ChannelMap

/-! Growth of the channel map over whole runs. The lengths double from 32, and a
length that has wrapped is not above any slot, so the doubling loop ends exactly
for the slots below `2 ^ 30`. The byte counts wrap earlier. -/

namespace OsProgramming.Reactor

open Library

/-! ### The doubling loop -/

/-- `length <<= 1` -/
def doubled (length : ℤ) : ℤ := wrapInt (2 * length)

/-- The lengths of a map that is not empty. -/
def mapLength (k : ℕ) : ℤ := 32 * 2 ^ k

theorem mapLength_strictMono : StrictMono mapLength := by
  intro j k hjk
  have := Int.pow_lt_pow_of_lt (show (1 : ℤ) < 2 by decide) hjk
  unfold mapLength
  omega

theorem mapLength_succ (k : ℕ) : mapLength (k + 1) = 2 * mapLength k := by
  unfold mapLength
  rw [pow_succ]
  omega

theorem mapLength_pos (k : ℕ) : 0 < mapLength k :=
  (show 0 < mapLength 0 by decide).trans_le (mapLength_strictMono.monotone (Nat.zero_le k))

theorem wrapInt_mapLength {k : ℕ} (h : k ≤ 25) : wrapInt (mapLength k) = mapLength k :=
  wrapInt_of_le (mapLength_pos k).le
    ((mapLength_strictMono.monotone h).trans (show mapLength 25 ≤ intMax by decide))

/-- `2 ^ 31` wraps to the least `int`, and the powers after it to 0. -/
theorem wrapInt_mapLength_nonpos {k : ℕ} (h : 25 < k) : wrapInt (mapLength k) ≤ 0 := by
  rcases (show k = 26 ∨ 27 ≤ k by omega) with rfl | hk
  · decide
  · obtain ⟨m, rfl⟩ := Nat.exists_eq_add_of_le hk
    have hmul : mapLength (27 + m) = 4294967296 * 2 ^ m := by
      unfold mapLength
      rw [pow_add]
      omega
    rw [hmul, wrapInt]
    exact (Int.mul_bmod_right 4294967296 (2 ^ m)).le

theorem doubled_iterate {j : ℕ} (hj : j ≤ 25) (n : ℕ) :
    doubled^[n] (mapLength j) = wrapInt (mapLength (j + n)) := by
  induction n with
  | zero => exact (wrapInt_mapLength hj).symm
  | succ n ih =>
    rw [Function.iterate_succ_apply', ih, ← Nat.add_assoc, mapLength_succ, doubled, wrapInt, wrapInt,
      wrapInt, Int.mul_bmod_bmod]

variable {slot : ℤ}

/-- The loop never leaves the lengths that have not wrapped. -/
theorem exit_unwrapped {j n : ℕ} (hj : j ≤ 25) (h0 : 0 ≤ slot)
    (h : LoopExit (· ≤ slot) doubled (mapLength j) n) :
    j + n ≤ 25 ∧ ∀ m ≤ n, doubled^[m] (mapLength j) = mapLength (j + m) := by
  have hends := h.ends
  rw [doubled_iterate hj] at hends
  have hle : j + n ≤ 25 := by
    by_contra hgt
    exact hends ((wrapInt_mapLength_nonpos (by omega)).trans h0)
  refine ⟨hle, fun m hm => ?_⟩
  rw [doubled_iterate hj, wrapInt_mapLength (by omega)]

theorem doubleLength_eq_ok {fuel : ℕ} {length r : ℤ} :
    doubleLength slot fuel length = .ok r ↔
      ∃ n < fuel, LoopExit (· ≤ slot) doubled length n ∧ r = doubled^[n] length := by
  induction fuel generalizing length with
  | zero => simp [doubleLength]
  | succ fuel ih =>
    rw [doubleLength]
    split_ifs with hle
    · rw [ih]
      constructor
      · rintro ⟨n, hn, hexit, rfl⟩
        exact ⟨n + 1, by omega, loopExit_succ.mpr ⟨hle, hexit⟩, rfl⟩
      · rintro ⟨n, hn, hexit, rfl⟩
        cases n with
        | zero => exact (hexit.ends hle).elim
        | succ n => exact ⟨n, by omega, (loopExit_succ.mp hexit).2, rfl⟩
    · constructor
      · rintro h
        cases h
        exact ⟨0, by omega, loopExit_zero.mpr hle, rfl⟩
      · rintro ⟨n, -, hexit, rfl⟩
        cases n with
        | zero => rfl
        | succ n => exact absurd (loopExit_succ.mp hexit).1 hle

/-! ### Lengths of a map -/

variable {κ : Type} {map map' : ChannelMap κ} {answer : Alloc (Option κ)} {result : Bool}

/-- Where the doubling starts. -/
def startLength (map : ChannelMap κ) : ℤ := if map.length = 0 then 32 else map.length

/-- The map is empty, or its length is one that has not wrapped. -/
def ChannelMap.Sized (map : ChannelMap κ) : Prop :=
  map.length = 0 ∨ ∃ k ≤ 25, map.length = mapLength k

theorem sized_init : (channelMapInit : ChannelMap κ).Sized := .inl rfl

theorem ChannelMap.Sized.start (h : map.Sized) (hle : map.length ≤ slot) :
    ∃ j ≤ 25, startLength map = mapLength j ∧ (j = 0 ∨ mapLength j ≤ slot) := by
  unfold startLength
  rcases h with hzero | ⟨j, hj, hlength⟩
  · exact ⟨0, by omega, by rw [if_pos hzero]; rfl, .inl rfl⟩
  · have hpos := mapLength_pos j
    exact ⟨j, hj, by rw [if_neg (by omega), hlength], .inr (hlength ▸ hle)⟩

/-- The loop ends at the least length above the slot, and within the rounds that the
function allows. -/
theorem ChannelMap.Sized.exit {n : ℕ} (h : map.Sized) (h0 : 0 ≤ slot) (hle : map.length ≤ slot)
    (hexit : LoopExit (· ≤ slot) doubled (startLength map) n) :
    ∃ k ≤ 25, doubled^[n] (startLength map) = mapLength k ∧
      doubleLength slot 33 (startLength map) = .ok (mapLength k) ∧
      IsLeast {length ∈ Set.range mapLength | slot < length} (mapLength k) := by
  obtain ⟨j, hj, hstart, hbase⟩ := h.start hle
  rw [hstart] at hexit ⊢
  obtain ⟨hmax, hiterate⟩ := exit_unwrapped hj h0 hexit
  have hend := hiterate n le_rfl
  exact ⟨j + n, hmax, hend, doubleLength_eq_ok.mpr ⟨n, by omega, hexit, hend.symm⟩,
    hexit.isLeast mapLength_strictMono hiterate hbase⟩

theorem ChannelMap.Sized.makeSpace (h : map.Sized) (h0 : 0 ≤ slot) (hle : map.length ≤ slot)
    (hret : channelMapMakeSpace map slot channelPointerSize answer = .ok (map', result)) :
    ∃ k ≤ 25, map'.length = mapLength k ∧
      IsLeast {length ∈ Set.range mapLength | slot < length} (mapLength k) := by
  obtain ⟨length, temp, hdouble, -, hlength, -⟩ := makeSpace_inv hle hret
  obtain ⟨n, -, hexit, hiterate⟩ := doubleLength_eq_ok.mp hdouble
  obtain ⟨k, hk, hend, -, hleast⟩ := h.exit h0 hle hexit
  exact ⟨k, hk, hlength.trans (hiterate.trans hend), hleast⟩

/-! ### Runs of calls -/

/-- What the event loop does with its map. To clear an entry is to assign `none`. -/
inductive MapCall (κ : Type) where
  | makeSpace (slot : ℤ) (answer : Alloc (Option κ))
  | assign (fd : ℤ) (entry : Option κ)

def mapStep (map : ChannelMap κ) : MapCall κ → Result (ChannelMap κ)
  | .makeSpace slot answer => do
    let (map, _) ← channelMapMakeSpace map slot channelPointerSize answer
    .ok map
  | .assign fd entry => do
    let entities ← store map.entities fd [entry]
    .ok { map with entities := entities }

/-- The slots lie below a bound, and the assignments below the length. -/
def MapCall.Within (bound : ℤ) (map : ChannelMap κ) : MapCall κ → Prop
  | .makeSpace slot _ => 0 ≤ slot ∧ slot < bound
  | .assign fd _ => 0 ≤ fd ∧ fd < map.length

instance MapCall.decidableWithin (bound : ℤ) (map : ChannelMap κ) :
    (call : MapCall κ) → Decidable (call.Within bound map)
  | .makeSpace slot _ => inferInstanceAs (Decidable (0 ≤ slot ∧ slot < bound))
  | .assign fd _ => inferInstanceAs (Decidable (0 ≤ fd ∧ fd < map.length))

/-- The allocator serves the call. -/
def MapCall.Served : MapCall κ → Prop
  | .makeSpace _ answer => answer.isSome
  | .assign _ _ => True

theorem mapStep_makeSpace :
    mapStep map (.makeSpace slot answer) = .ok map' ↔
      ∃ result, channelMapMakeSpace map slot channelPointerSize answer = .ok (map', result) := by
  rw [mapStep, bind_eq_ok]
  constructor
  · rintro ⟨⟨map₁, result⟩, hspace, hret⟩
    cases hret
    exact ⟨result, hspace⟩
  · rintro ⟨result, hspace⟩
    exact ⟨(map', result), hspace, rfl⟩

theorem mapStep_assign {fd : ℤ} (hmap : map.WellFormed) (h0 : 0 ≤ fd) (hlt : fd < map.length)
    (entry : Option κ) : mapStep map (.assign fd entry) = .ok (map.set fd entry) := by
  rw [mapStep, hmap.store h0 hlt, ok_bind]
  rfl

theorem ChannelMap.Sized.step {bound : ℤ} {call : MapCall κ} (h : map.Sized)
    (hwithin : call.Within bound map) (hstep : mapStep map call = .ok map') : map'.Sized := by
  cases call with
  | makeSpace slot answer =>
    obtain ⟨result, hspace⟩ := mapStep_makeSpace.mp hstep
    by_cases hle : map.length ≤ slot
    · obtain ⟨k, hk, hlength, -⟩ := h.makeSpace hwithin.1 hle hspace
      exact .inr ⟨k, hk, hlength⟩
    · rw [makeSpace_of_lt answer (by omega)] at hspace
      cases hspace
      exact h
  | assign fd entry =>
    obtain ⟨entities, -, hret⟩ := bind_eq_ok.mp hstep
    cases hret
    exact h

/-! ### The map as a table -/

/-- What the map is for: the slots it was asked for so far, and for each descriptor
the channel last assigned to it. -/
structure SlotTable (κ : Type) where
  slots : List ℤ
  entry : ℤ → Option κ

def SlotTable.empty : SlotTable κ := ⟨[], fun _ => none⟩

def SlotTable.step (table : SlotTable κ) : MapCall κ → SlotTable κ
  | .makeSpace slot _ => { table with slots := slot :: table.slots }
  | .assign fd entry => { table with entry := Function.update table.entry fd entry }

/-- The map holds the entries of the table and nothing else, in an array that is no
longer than the slots have called for. -/
structure ChannelMap.Represents (map : ChannelMap κ) (table : SlotTable κ) : Prop where
  wellFormed : map.WellFormed
  entry_eq : ∀ fd, map.entry fd = table.entry fd
  empty : table.slots = [] → map.length = 0
  least : table.slots ≠ [] →
    IsLeast {length ∈ Set.range mapLength | ∀ slot ∈ table.slots, slot < length} map.length

variable {table : SlotTable κ}

theorem represents_empty : (channelMapInit : ChannelMap κ).Represents SlotTable.empty :=
  ⟨ChannelMap.wellFormed_init, ChannelMap.entry_init, fun _ => rfl, fun h => (h rfl).elim⟩

theorem ChannelMap.Represents.covers (h : map.Represents table) {slot : ℤ}
    (hslot : slot ∈ table.slots) : slot < map.length :=
  (h.least (List.ne_nil_of_mem hslot)).1.2 slot hslot

/-- A call that returns has found the space, whatever the allocator left in it. -/
theorem makeSpace_extends (hmap : map.WellFormed) (h0 : 0 ≤ slot) (hslot : slot < 134217728)
    (hret : channelMapMakeSpace map slot channelPointerSize answer = .ok (map', result)) :
    map'.Extends map := by
  cases answer with
  | some fill =>
    obtain ⟨map₁, hspace, -, hext⟩ := makeSpace_ok fill hmap h0 hslot
    cases hret.symm.trans hspace
    exact hext
  | none =>
    by_cases hle : map.length ≤ slot
    · obtain ⟨length, temp, -, htemp, -⟩ := makeSpace_inv hle hret
      simp [reallocCells] at htemp
    · rw [makeSpace_of_lt none (by omega)] at hret
      cases hret
      exact ⟨hmap, fun _ => rfl, rfl⟩

theorem ChannelMap.Represents.makeSpace (h : map.Represents table) (hsized : map.Sized)
    (h0 : 0 ≤ slot) (hslot : slot < 134217728)
    (hret : channelMapMakeSpace map slot channelPointerSize answer = .ok (map', result)) :
    map'.Represents (table.step (.makeSpace slot answer)) := by
  have hext := makeSpace_extends h.wellFormed h0 hslot hret
  refine ⟨hext.wellFormed, fun fd => (hext.entry_eq fd).trans (h.entry_eq fd), nofun, fun _ => ?_⟩
  by_cases hle : map.length ≤ slot
  · obtain ⟨k, -, hlength, hleast⟩ := hsized.makeSpace h0 hle hret
    rw [hlength]
    exact isLeast_above_cons_of_le (fun slot' hslot' => (h.covers hslot').le.trans hle) hleast
  · rw [makeSpace_of_lt answer (by omega)] at hret
    cases hret
    have hne : table.slots ≠ [] := by
      intro hnil
      have := h.empty hnil
      omega
    exact isLeast_above_cons (h.least hne) (by omega)

theorem ChannelMap.Represents.assign (h : map.Represents table) {fd : ℤ} (h0 : 0 ≤ fd)
    (hlt : fd < map.length) (entry : Option κ) :
    (map.set fd entry).Represents (table.step (.assign fd entry)) := by
  refine ⟨h.wellFormed.set fd entry, fun fd' => ?_, h.empty, h.least⟩
  rw [h.wellFormed.entry_set_eq h0 hlt, show map.entry = table.entry from funext h.entry_eq]
  rfl

theorem ChannelMap.Represents.step (h : map.Represents table) (hsized : map.Sized)
    (call : MapCall κ) (hwithin : call.Within 134217728 map)
    (hstep : mapStep map call = .ok map') : map'.Represents (table.step call) := by
  cases call with
  | makeSpace slot answer =>
    obtain ⟨result, hspace⟩ := mapStep_makeSpace.mp hstep
    exact h.makeSpace hsized hwithin.1 hwithin.2 hspace
  | assign fd entry =>
    rw [mapStep_assign h.wellFormed hwithin.1 hwithin.2] at hstep
    cases hstep
    exact h.assign hwithin.1 hwithin.2 entry

/-- A call returns if the allocator serves it. -/
theorem mapStep_ok (hmap : map.WellFormed) {call : MapCall κ}
    (hwithin : call.Within 134217728 map) (hserved : call.Served) :
    ∃ map', mapStep map call = .ok map' := by
  cases call with
  | makeSpace slot answer =>
    obtain ⟨fill, rfl⟩ := Option.isSome_iff_exists.mp hserved
    obtain ⟨map', hspace, -⟩ := makeSpace_ok fill hmap hwithin.1 hwithin.2
    exact ⟨map', mapStep_makeSpace.mpr ⟨true, hspace⟩⟩
  | assign fd entry => exact ⟨_, mapStep_assign hmap hwithin.1 hwithin.2 entry⟩

/-- Over every run of calls with slots below `2 ^ 27`, the map is the table: it covers
every slot it was asked for, is no longer than they need, and reads back what was
assigned last, however often it has grown since. It returns if the allocator does. -/
theorem map_represents {calls : List (MapCall κ)}
    (hwithin : Admissible mapStep (MapCall.Within 134217728) channelMapInit calls) :
    ((∀ call ∈ calls, call.Served) → ∃ map, calls.foldlM mapStep channelMapInit = .ok map) ∧
      ∀ map : ChannelMap κ, calls.foldlM mapStep channelMapInit = .ok map →
        map.Represents (calls.foldl SlotTable.step .empty) ∧
        (∀ slot ∈ (calls.foldl SlotTable.step .empty).slots, slot < map.length) ∧
        ∀ fd, 0 ≤ fd → fd < map.length →
          load map.entities fd = .ok ((calls.foldl SlotTable.step .empty).entry fd) := by
  have hstep : ∀ (map : ChannelMap κ) table call map', map.Represents table ∧ map.Sized →
      call.Within 134217728 map → mapStep map call = .ok map' →
      map'.Represents (table.step call) ∧ map'.Sized :=
    fun map table call map' h hcall hret =>
      ⟨h.1.step h.2 call hcall hret, h.2.step hcall hret⟩
  constructor
  · intro hserved
    have hok : ∀ (map : ChannelMap κ) call, (∃ table, map.Represents table ∧ map.Sized) →
        call.Within 134217728 map ∧ call.Served →
        ∃ map', mapStep map call = .ok map' ∧ ∃ table, map'.Represents table ∧ map'.Sized := by
      rintro map call ⟨table, h⟩ ⟨hcall, hserved⟩
      obtain ⟨map', hret⟩ := mapStep_ok h.1.wellFormed hcall hserved
      exact ⟨map', hret, _, hstep map table call map' h hcall hret⟩
    obtain ⟨map, hrun, -⟩ := foldlM_ok hok ⟨_, represents_empty, sized_init⟩
      (hwithin.and (.of_forall fun call hcall _ => hserved call hcall))
    exact ⟨map, hrun⟩
  · intro map hrun
    obtain ⟨h, -⟩ := foldlM_follows (R := fun map table => map.Represents table ∧ map.Sized)
      hstep ⟨represents_empty, sized_init⟩ hwithin hrun
    refine ⟨h, fun slot hslot => h.covers hslot, fun fd h0 hlt => ?_⟩
    rw [h.wellFormed.load h0 hlt, h.entry_eq]

/-- The array grows twice over cells that the allocator leaves dirty. -/
def dirtyRun : List (MapCall ℕ) :=
  [.makeSpace 3 (some fun _ => some 9), .assign 3 (some 5), .makeSpace 40 (some fun _ => some 9),
    .assign 40 (some 6), .assign 3 none, .makeSpace 100 (some fun _ => some 9)]

theorem map_represents_grown :
    ∃ map : ChannelMap ℕ, dirtyRun.foldlM mapStep channelMapInit = .ok map ∧
      100 < map.length ∧ load map.entities 40 = .ok (some 6) ∧ load map.entities 3 = .ok none ∧
      load map.entities 41 = .ok none := by
  have hwithin : Admissible mapStep (MapCall.Within 134217728) channelMapInit dirtyRun := by
    decide +kernel
  obtain ⟨hreturns, hmap⟩ := map_represents hwithin
  obtain ⟨map, hrun⟩ := hreturns (by simp [dirtyRun, MapCall.Served])
  obtain ⟨-, hcovers, hreads⟩ := hmap map hrun
  have hlong : 100 < map.length := hcovers 100 (List.mem_cons_self ..)
  exact ⟨map, hrun, hlong, hreads 40 (by omega) (by omega), hreads 3 (by omega) (by omega),
    hreads 41 (by omega) (by omega)⟩

/-! ### Slots beyond `2 ^ 27` -/

/-- If the array has to grow for the slot, the doubling ends above it, as the function
has it, and the byte counts that `realloc` and `memset` get are the true products. -/
def GrowsSoundly (map : ChannelMap κ) (slot : ℤ) : Prop :=
  map.length ≤ slot → ∃ n length, LoopExit (· ≤ slot) doubled (startLength map) n ∧
    length = doubled^[n] (startLength map) ∧ slot < length ∧
    doubleLength slot 33 (startLength map) = .ok length ∧
    (toSizeT (wrapInt (length * channelPointerSize)) : ℤ) = length * channelPointerSize ∧
    (toSizeT (wrapInt (wrapInt (length - map.length) * channelPointerSize)) : ℤ) =
      (length - map.length) * channelPointerSize

/-- The loop ends exactly for the slots below the largest power of two. -/
theorem ChannelMap.Sized.exists_exit_iff (h : map.Sized) (h0 : 0 ≤ slot) (hle : map.length ≤ slot) :
    (∃ n, LoopExit (· ≤ slot) doubled (startLength map) n) ↔ slot < 1073741824 := by
  constructor
  · rintro ⟨n, hexit⟩
    obtain ⟨k, hk, -, -, hleast⟩ := h.exit h0 hle hexit
    exact hleast.1.2.trans_le (mapLength_strictMono.monotone hk)
  · intro hslot
    obtain ⟨j, -, hstart, -⟩ := h.start hle
    have hpos : 0 < startLength map := hstart ▸ mapLength_pos j
    obtain ⟨length, hdouble⟩ := doubleLength_ok slot hslot 32 hpos (by omega)
    obtain ⟨n, -, hexit, -⟩ := doubleLength_eq_ok.mp hdouble
    exact ⟨n, hexit⟩

theorem doubleLength_error {fuel : ℕ} {length : ℤ} {e : Fault}
    (h : doubleLength slot fuel length = .error e) : e = .divergence := by
  induction fuel generalizing length with
  | zero =>
    cases h
    rfl
  | succ fuel ih =>
    rw [doubleLength] at h
    split_ifs at h
    exact ih h

/-- So does the call, whatever the allocator answers. -/
theorem ChannelMap.Sized.makeSpace_diverges_iff (h : map.Sized) (h0 : 0 ≤ slot)
    (hle : map.length ≤ slot) (answer : Alloc (Option κ)) :
    channelMapMakeSpace map slot channelPointerSize answer = .error .divergence ↔
      1073741824 ≤ slot := by
  rw [← not_lt, ← h.exists_exit_iff h0 hle, channelMapMakeSpace, if_pos hle]
  constructor
  · rintro hcall ⟨n, hexit⟩
    obtain ⟨k, -, -, hdouble, -⟩ := h.exit h0 hle hexit
    rw [startLength] at hdouble
    rw [hdouble, ok_bind] at hcall
    split at hcall
    · cases hcall
    rcases bind_eq_error.mp hcall with hstore | ⟨entities, -, hret⟩
    · cases store_error hstore
    · cases hret
  · intro hnone
    cases hdouble : doubleLength slot 33 (if map.length = 0 then 32 else map.length) with
    | ok length =>
      obtain ⟨n, -, hexit, -⟩ := doubleLength_eq_ok.mp hdouble
      exact absurd ⟨n, hexit⟩ hnone
    | error e => rw [doubleLength_error hdouble, error_bind]

theorem ChannelMap.Sized.length_nonneg (h : map.Sized) : 0 ≤ map.length := by
  rcases h with hzero | ⟨k, -, hlength⟩
  · exact hzero.ge
  · exact hlength ▸ (mapLength_pos k).le

/-- The byte counts wrap from `2 ^ 28` on, which is the length after `2 ^ 27`. -/
theorem ChannelMap.Sized.soundly_iff (h : map.Sized) (h0 : 0 ≤ slot) :
    GrowsSoundly map slot ↔ slot < map.length ∨ slot < 134217728 := by
  by_cases hle : map.length ≤ slot
  swap
  · exact iff_of_true (fun hle' => absurd hle' hle) (.inl (by omega))
  have hnonneg := h.length_nonneg
  constructor
  · intro hsound
    obtain ⟨n, length, hexit, rfl, hlt, -, hbytes, -⟩ := hsound hle
    obtain ⟨k, hk, hlength, -⟩ := h.exit h0 hle hexit
    rw [hlength] at hlt hbytes
    have hmax : mapLength k ≤ 1073741824 := mapLength_strictMono.monotone hk
    have hbytes' : mapLength k * 8 ≤ intMax :=
      (toSizeT_wrapInt_eq_iff (by omega) (by unfold ptrdiffMax; omega)).mp hbytes
    have hk22 : k < 23 := by
      refine mapLength_strictMono.lt_iff_lt.mp ?_
      rw [show mapLength 23 = 268435456 by decide]
      unfold intMax at hbytes'
      omega
    exact .inr (hlt.trans_le (mapLength_strictMono.monotone (Nat.le_of_lt_succ hk22)))
  · rintro (hlt | hslot) -
    · omega
    obtain ⟨n, hexit⟩ := (h.exists_exit_iff h0 hle).mpr (by omega)
    obtain ⟨k, hk, hlength, hdouble, hleast⟩ := h.exit h0 hle hexit
    have hlt : slot < mapLength k := hleast.1.2
    have hmax : mapLength k ≤ 134217728 := hleast.2 ⟨⟨22, rfl⟩, hslot⟩
    have htrue : ∀ x : ℤ, 0 ≤ x → x ≤ 134217728 → (toSizeT (wrapInt (x * 8)) : ℤ) = x * 8 :=
      fun x hx0 hx => (toSizeT_wrapInt_eq_iff (by omega) (by unfold ptrdiffMax; omega)).mpr
        (by unfold intMax; omega)
    refine ⟨n, mapLength k, hexit, hlength.symm, hlt, hdouble, htrue _ (by omega) hmax, ?_⟩
    rw [wrapInt_of_le (x := mapLength k - map.length) (by omega) (by unfold intMax; omega)]
    exact htrue _ (by omega) (by omega)

/-- In every map that calls with any slots lead to, the array grows as it should for
exactly the slots below `2 ^ 27`, and for those that need no growth. -/
theorem growsSoundly_iff {calls : List (MapCall κ)} {map : ChannelMap κ}
    (hwithin : Admissible mapStep (MapCall.Within (intMax + 1)) channelMapInit calls)
    (hrun : calls.foldlM mapStep channelMapInit = .ok map) {slot : ℤ}
    (h0 : 0 ≤ slot) : GrowsSoundly map slot ↔ slot < map.length ∨ slot < 134217728 :=
  have hsized : map.Sized :=
    foldlM_inv (fun _ _ _ hs hcall hret => hs.step hcall hret) sized_init hwithin hrun
  hsized.soundly_iff h0

/-- A map of 64 slots. -/
theorem growsSoundly_iff_grown :
    ∃ map : ChannelMap ℕ, GrowsSoundly map 134217727 ∧ ¬ GrowsSoundly map 134217728 := by
  have hwithin : Admissible mapStep (MapCall.Within (intMax + 1)) channelMapInit
      (dirtyRun.take 5) := by
    decide +kernel
  have hrun : (dirtyRun.take 5).foldlM mapStep channelMapInit =
      .ok ⟨(List.replicate 64 none).set 40 (some 6), 64⟩ := rfl
  exact ⟨_, (growsSoundly_iff hwithin hrun (by decide)).mpr (.inr (by decide)),
    fun h => absurd ((growsSoundly_iff hwithin hrun (by decide)).mp h) (by decide)⟩

/-- From `2 ^ 27` on the byte count wraps, and from `2 ^ 30` on the loop never ends. -/
theorem not_growsSoundly :
    (¬ GrowsSoundly (channelMapInit : ChannelMap ℕ) 134217728 ∧
        channelMapMakeSpace (channelMapInit : ChannelMap ℕ) 134217728 channelPointerSize
          (some fun _ => none) = .error .exitFailure) ∧
      (∀ n, ¬ LoopExit (· ≤ 1073741824) doubled (startLength (channelMapInit : ChannelMap ℕ)) n) ∧
        channelMapMakeSpace (channelMapInit : ChannelMap ℕ) 1073741824 channelPointerSize
          (some fun _ => none) = .error .divergence := by
  refine ⟨⟨fun h => ?_, rfl⟩, fun n hexit => ?_, rfl⟩
  · exact absurd ((sized_init.soundly_iff (by decide)).mp h) (by decide)
  · exact absurd ((sized_init.exists_exit_iff (by decide) (by decide)).mp ⟨n, hexit⟩) (by decide)

end OsProgramming.Reactor
