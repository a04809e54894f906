import OsProgramming.Library.Memory

/-! The channel map of `channel_map.c`: an array of channel pointers, `κ`, whose index
is the descriptor. It grows by doubling, in `int`s that wrap and with byte counts
that are `int` products. -/

namespace OsProgramming.Reactor

open Library

structure ChannelMap (κ : Type) where
  entities : List (Option κ)
  length : ℤ

def channelMapInit {κ : Type} : ChannelMap κ := ⟨[], 0⟩

/-- `while (length <= slot) length <<= 1`. A length that has been doubled 32 times is
0, and if the loop has not ended by then it never does. -/
def doubleLength (slot : ℤ) : ℕ → ℤ → Result ℤ
  | 0, _ => .error .divergence
  | n + 1, length =>
    if length ≤ slot then doubleLength slot n (wrapInt (2 * length)) else .ok length

/-- The map is not `NULL` here. The new cells are cleared by `memset`. -/
def channelMapMakeSpace {κ : Type} (map : ChannelMap κ) (slot size : ℤ)
    (answer : Alloc (Option κ)) :
    Result (ChannelMap κ × Bool) :=
  if map.length ≤ slot then do
    let length ← doubleLength slot 33 (if map.length = 0 then 32 else map.length)
    match reallocCells size.toNat map.entities (toSizeT (wrapInt (length * size))) answer with
    | none => .error .exitFailure
    | some temp => do
      let cleared := toSizeT (wrapInt (wrapInt (length - map.length) * size)) / size.toNat
      let entities ← store temp map.length (List.replicate cleared none)
      .ok (⟨entities, length⟩, true)
  else .ok (map, true)

/-- `sizeof(struct channel *)` -/
def channelPointerSize : ℤ := 8

/-! ### Growth -/

theorem wrapInt_double {length slot : ℤ} (h0 : 0 < length) (hle : length ≤ slot)
    (hslot : slot < 1073741824) : wrapInt (2 * length) = 2 * length :=
  wrapInt_of_le (by omega) (by unfold intMax; omega)

theorem doubleLength_ok (slot : ℤ) (hslot : slot < 1073741824) (n : ℕ) {length : ℤ}
    (h0 : 0 < length) (hn : slot < length * 2 ^ n) :
    ∃ r, doubleLength slot (n + 1) length = .ok r := by
  induction n generalizing length with
  | zero => exact ⟨length, by rw [doubleLength, if_neg (by omega)]⟩
  | succ n ih =>
    rw [doubleLength]
    split_ifs with hle
    · rw [wrapInt_double h0 hle hslot]
      exact ih (by omega) (by rw [pow_succ] at hn; linarith)
    · exact ⟨length, rfl⟩

theorem doubleLength_bounds {slot : ℤ} (hslot : slot < 1073741824) {n : ℕ} {length r : ℤ}
    (h0 : 0 < length) (h : doubleLength slot n length = .ok r) :
    slot < r ∧ (r = length ∨ r ≤ 2 * slot) ∧ length ≤ r := by
  induction n generalizing length with
  | zero => cases h
  | succ n ih =>
    rw [doubleLength] at h
    split_ifs at h with hle
    · rw [wrapInt_double h0 hle hslot] at h
      obtain ⟨hlt, hr, hlen⟩ := ih (by omega) h
      exact ⟨hlt, by omega, by omega⟩
    · cases h
      exact ⟨by omega, .inl rfl, le_rfl⟩

namespace ChannelMap

variable {κ : Type}

/-- The array is as long as `length` says. -/
structure WellFormed (map : ChannelMap κ) : Prop where
  length_eq : map.length = map.entities.length

/-- The channel that is registered for a descriptor. -/
def entry (map : ChannelMap κ) (fd : ℤ) : Option κ :=
  if 0 ≤ fd then map.entities[fd.toNat]?.join else none

/-- The number of registered descriptors. -/
def registered (map : ChannelMap κ) : ℕ := map.entities.countP Option.isSome

theorem wellFormed_init : (channelMapInit : ChannelMap κ).WellFormed := ⟨rfl⟩

theorem entry_init (fd : ℤ) : (channelMapInit : ChannelMap κ).entry fd = none := by
  simp [channelMapInit, entry]

/-- New cells hold no channel. -/
theorem entry_append_none (map : ChannelMap κ) (n : ℕ) (length fd : ℤ) :
    (⟨map.entities ++ List.replicate n none, length⟩ : ChannelMap κ).entry fd = map.entry fd := by
  unfold entry
  split_ifs with h0
  · simp only [List.getElem?_append]
    split_ifs with hlt
    · rfl
    · rw [List.getElem?_eq_none (by omega : map.entities.length ≤ fd.toNat),
        List.getElem?_replicate]
      split_ifs <;> rfl
  · rfl

/-- The map has grown, and holds the channels that it held. -/
structure Extends (map' map : ChannelMap κ) : Prop where
  wellFormed : map'.WellFormed
  entry_eq : ∀ fd, map'.entry fd = map.entry fd
  registered_eq : map'.registered = map.registered

theorem extends_append_none (map : ChannelMap κ) {n : ℕ} {length : ℤ}
    (h : length = ((map.entities ++ List.replicate n none).length : ℕ)) :
    (⟨map.entities ++ List.replicate n none, length⟩ : ChannelMap κ).Extends map := by
  refine ⟨⟨h⟩, map.entry_append_none n length, ?_⟩
  simp [registered, List.countP_append, List.countP_replicate]

/-- `entities[fd] = e` -/
def set (map : ChannelMap κ) (fd : ℤ) (e : Option κ) : ChannelMap κ :=
  { map with entities := map.entities.set fd.toNat e }

variable {map : ChannelMap κ} {fd : ℤ}

theorem WellFormed.load (h : map.WellFormed) (h0 : 0 ≤ fd) (hlt : fd < map.length) :
    load map.entities fd = .ok (map.entry fd) := by
  have hlen := h.length_eq
  have hcell : fd.toNat < map.entities.length := by omega
  have hfd : fd = (fd.toNat : ℤ) := by omega
  rw [entry, if_pos h0, List.getElem?_eq_getElem hcell]
  nth_rewrite 1 [hfd]
  rw [load_natCast map.entities hcell]
  rfl

theorem WellFormed.store (h : map.WellFormed) (h0 : 0 ≤ fd) (hlt : fd < map.length)
    (e : Option κ) : store map.entities fd [e] = .ok (map.set fd e).entities := by
  have hlen := h.length_eq
  have hcell : fd.toNat < map.entities.length := by omega
  have hfd : fd = (fd.toNat : ℤ) := by omega
  nth_rewrite 1 [hfd]
  exact store_one map.entities hcell e

theorem WellFormed.set (h : map.WellFormed) (fd : ℤ) (e : Option κ) : (map.set fd e).WellFormed :=
  ⟨by rw [ChannelMap.set, List.length_set]; exact h.length_eq⟩

theorem WellFormed.entry_set (h : map.WellFormed) (h0 : 0 ≤ fd) (hlt : fd < map.length)
    (e : Option κ) (fd' : ℤ) :
    (map.set fd e).entry fd' = if fd' = fd then e else map.entry fd' := by
  have hlen := h.length_eq
  unfold entry ChannelMap.set
  by_cases heq : fd' = fd
  · subst heq
    rw [if_pos h0, if_pos rfl, List.getElem?_set_self (by omega)]
    rfl
  · rw [if_neg heq]
    split_ifs with h0'
    · rw [List.getElem?_set_ne (by omega)]
    · rfl

/-- The entries after a new one in a map that has got space for it. -/
theorem Extends.entry_set {map' : ChannelMap κ} (h : map'.Extends map) (h0 : 0 ≤ fd)
    (hlt : fd < map'.length) (e : Option κ) (fd' : ℤ) :
    (map'.set fd e).entry fd' = if fd' = fd then e else map.entry fd' := by
  rw [h.wellFormed.entry_set h0 hlt, h.entry_eq]

theorem Extends.entry_set_eq {map' : ChannelMap κ} (h : map'.Extends map) (h0 : 0 ≤ fd)
    (hlt : fd < map'.length) (e : Option κ) :
    (map'.set fd e).entry = Function.update map.entry fd e := by
  funext fd'
  rw [h.entry_set h0 hlt, Function.update_apply]

theorem WellFormed.entry_set_eq (h : map.WellFormed) (h0 : 0 ≤ fd) (hlt : fd < map.length)
    (e : Option κ) : (map.set fd e).entry = Function.update map.entry fd e :=
  Extends.entry_set_eq ⟨h, fun _ => rfl, rfl⟩ h0 hlt e

theorem WellFormed.lt_of_entry (h : map.WellFormed) {c : κ} (he : map.entry fd = some c) :
    0 ≤ fd ∧ fd < map.length := by
  have hlen := h.length_eq
  unfold entry at he
  split_ifs at he with h0
  refine ⟨h0, ?_⟩
  by_contra hge
  rw [List.getElem?_eq_none (by omega)] at he
  cases he

/-- A registration is one descriptor more. -/
theorem WellFormed.registered_set_some (h : map.WellFormed) (h0 : 0 ≤ fd) (hlt : fd < map.length)
    (he : map.entry fd = none) (c : κ) : (map.set fd (some c)).registered = map.registered + 1 := by
  have hlen := h.length_eq
  have hcell : fd.toNat < map.entities.length := by omega
  rw [entry, if_pos h0, List.getElem?_eq_getElem hcell] at he
  have hnone : map.entities[fd.toNat] = none := he
  simp only [registered, ChannelMap.set, List.countP_set hcell, hnone, Option.isSome_none,
    Option.isSome_some, Bool.false_eq_true, ↓reduceIte, Nat.sub_zero]

theorem WellFormed.registered_set_none (h : map.WellFormed) {c : κ} (he : map.entry fd = some c) :
    (map.set fd none).registered + 1 = map.registered := by
  obtain ⟨h0, hlt⟩ := h.lt_of_entry he
  have hlen := h.length_eq
  have hcell : fd.toNat < map.entities.length := by omega
  rw [entry, if_pos h0, List.getElem?_eq_getElem hcell] at he
  have hsome : map.entities[fd.toNat] = some c := he
  have hpos : 0 < map.entities.countP Option.isSome :=
    List.countP_pos_iff.mpr ⟨some c, hsome ▸ List.getElem_mem hcell, rfl⟩
  simp only [registered, ChannelMap.set, List.countP_set hcell, hsome, Option.isSome_none,
    Option.isSome_some, Bool.false_eq_true, ↓reduceIte, Nat.add_zero]
  omega

end ChannelMap

open ChannelMap

section

variable {κ : Type} {map map' : ChannelMap κ} {slot : ℤ} {answer : Alloc (Option κ)} {result : Bool}

theorem makeSpace_of_lt (answer : Alloc (Option κ)) (h : slot < map.length) :
    channelMapMakeSpace map slot channelPointerSize answer = .ok (map, true) := by
  rw [channelMapMakeSpace, if_neg (by omega)]

/-- What a growth that returns has done. -/
theorem makeSpace_inv (hle : map.length ≤ slot)
    (hret : channelMapMakeSpace map slot channelPointerSize answer = .ok (map', result)) :
    ∃ length temp, doubleLength slot 33 (if map.length = 0 then 32 else map.length) = .ok length ∧
      reallocCells 8 map.entities (toSizeT (wrapInt (length * 8))) answer = some temp ∧
      map'.length = length ∧ map'.entities.length = temp.length ∧ result = true := by
  rw [channelMapMakeSpace, if_pos hle, bind_eq_ok] at hret
  obtain ⟨length, hdouble, hret⟩ := hret
  split at hret
  · cases hret
  rename_i temp htemp
  obtain ⟨entities, hstore, hret⟩ := bind_eq_ok.mp hret
  cases hret
  exact ⟨length, temp, hdouble, htemp, rfl, length_store hstore, rfl⟩

theorem makeSpace_result
    (hret : channelMapMakeSpace map slot channelPointerSize answer = .ok (map', result)) :
    result = true := by
  by_cases hle : map.length ≤ slot
  · obtain ⟨-, -, -, -, -, -, hresult⟩ := makeSpace_inv hle hret
    exact hresult
  · rw [makeSpace_of_lt answer (by omega)] at hret
    cases hret
    rfl

/-- The byte counts are the true products when the new length is below `2 ^ 28`. -/
theorem makeSpace_grows (answer : Alloc (Option κ)) {length : ℤ} {temp : List (Option κ)}
    (hmap : map.WellFormed) (hle : map.length ≤ slot) (hlen : map.length ≤ length)
    (hlt : slot < length) (hmax : length < 268435456)
    (hdouble : doubleLength slot 33 (if map.length = 0 then 32 else map.length) = .ok length)
    (htemp : reallocCells 8 map.entities (toSizeT (wrapInt (length * 8))) answer = some temp) :
    channelMapMakeSpace map slot channelPointerSize answer =
      .ok (⟨map.entities ++ List.replicate (length - map.length).toNat none, length⟩, true) ∧
    length = ((map.entities ++ List.replicate (length - map.length).toNat none).length : ℕ) := by
  have hmaplen := hmap.length_eq
  have hbytes : wrapInt (length * 8) = ((length.toNat * 8 : ℕ) : ℤ) := by
    rw [wrapInt_of_le (by omega) (by unfold intMax; omega)]
    omega
  have hcells : toSizeT (wrapInt (length * 8)) / 8 = length.toNat := by
    rw [hbytes, toSizeT_natCast (by unfold intMax; omega), Nat.mul_div_cancel _ (by omega)]
  have hclear : toSizeT (wrapInt (wrapInt (length - map.length) * 8)) / 8 =
      (length - map.length).toNat := by
    rw [wrapInt_of_le (x := length - map.length) (by omega) (by unfold intMax; omega),
      wrapInt_of_le (by omega) (by unfold intMax; omega),
      show (length - map.length) * 8 = (((length - map.length).toNat * 8 : ℕ) : ℤ) by omega,
      toSizeT_natCast (by unfold intMax; omega), Nat.mul_div_cancel _ (by omega)]
  have htemplen : temp.length = length.toNat := by
    rw [(length_reallocCells htemp).1, hcells]
  have hkept : temp.take map.entities.length = map.entities :=
    take_reallocCells htemp (by rw [hcells]; omega)
  have hstore : store temp map.length (List.replicate (length - map.length).toNat none) =
      .ok (map.entities ++ List.replicate (length - map.length).toNat none) := by
    rw [hmaplen, store_natCast temp (by rw [List.length_replicate]; omega), hkept,
      List.drop_of_length_le (by rw [List.length_replicate]; omega), List.append_nil]
  refine ⟨?_, by simp; omega⟩
  simp only [channelMapMakeSpace, channelPointerSize, if_pos hle, hdouble, ok_bind,
    show (8 : ℤ).toNat = 8 from rfl, htemp, hclear, hstore]

/-- Where the doubling starts. -/
theorem start_pos (hmap : map.WellFormed) :
    0 < (if map.length = 0 then 32 else map.length) ∧
      map.length ≤ (if map.length = 0 then 32 else map.length) := by
  have := hmap.length_eq
  split_ifs <;> omega

/-- Descriptors below `2 ^ 27` find space if the allocator serves it. -/
theorem makeSpace_ok (fill : ℕ → Option κ) (hmap : map.WellFormed) (h0 : 0 ≤ slot)
    (hslot : slot < 134217728) :
    ∃ map', channelMapMakeSpace map slot channelPointerSize (some fill) = .ok (map', true) ∧
      slot < map'.length ∧ map'.Extends map := by
  by_cases hle : map.length ≤ slot
  · obtain ⟨hstart, hge⟩ := start_pos hmap
    obtain ⟨length, hdouble⟩ := doubleLength_ok slot (by omega) 32 hstart (by omega)
    obtain ⟨hlt, hbound, hlen⟩ := doubleLength_bounds (by omega) hstart hdouble
    have hmax : length < 268435456 := by split_ifs at hbound hlen <;> omega
    have hmaplen := hmap.length_eq
    have hserved : toSizeT (wrapInt (length * 8)) ≤ ptrdiffMax := by
      rw [wrapInt_of_le (by omega) (by unfold intMax; omega),
        show length * 8 = ((length.toNat * 8 : ℕ) : ℤ) by omega,
        toSizeT_natCast (by unfold intMax; omega)]
      unfold ptrdiffMax; omega
    obtain ⟨htotal, hlength⟩ := makeSpace_grows (some fill) hmap hle (hge.trans hlen) hlt hmax
      hdouble (if_pos hserved)
    exact ⟨_, htotal, hlt, extends_append_none map hlength⟩
  · exact ⟨map, makeSpace_of_lt _ (by omega), by omega, hmap, fun _ => rfl, rfl⟩

/-- If the call returns and the slot is a cell of the array, it has grown as it
should: from `2 ^ 27` on the byte count wraps to one that the allocator refuses, or to
one that is too small for the slot. -/
theorem makeSpace_returns (hmap : map.WellFormed) (h0 : 0 ≤ slot)
    (hret : channelMapMakeSpace map slot channelPointerSize answer = .ok (map', result))
    (hcell : slot.toNat < map'.entities.length) :
    slot < map'.length ∧ map'.Extends map := by
  by_cases hle : map.length ≤ slot
  · obtain ⟨hstart, hge⟩ := start_pos hmap
    obtain ⟨length, temp, hdouble, htemp, -, hlength, -⟩ := makeSpace_inv hle hret
    obtain ⟨htemplen, hserved⟩ := length_reallocCells htemp
    rw [hlength, htemplen] at hcell
    have hbytes := natCast_toSizeT_wrapInt hserved
    have hwrap := (wrapInt_bounds (length * 8)).2
    -- the slot is a cell, so it is small, and the byte count has not wrapped
    have hsmall : slot < 268435456 := by unfold intMax at hwrap; omega
    obtain ⟨hlt, hbound, hlen⟩ := doubleLength_bounds (by omega) hstart hdouble
    have htrue : wrapInt (length * 8) = length * 8 :=
      wrapInt_of_nonneg (by omega) (by split_ifs at hbound hlen <;> omega) (by omega)
    have hmax : length < 268435456 := by
      rw [htrue] at hwrap
      unfold intMax at hwrap
      omega
    obtain ⟨htotal, heq⟩ := makeSpace_grows answer hmap hle (hge.trans hlen) hlt hmax
      hdouble htemp
    cases hret.symm.trans htotal
    exact ⟨hlt, extends_append_none map heq⟩
  · rw [makeSpace_of_lt answer (by omega)] at hret
    cases hret
    exact ⟨by omega, hmap, fun _ => rfl, rfl⟩

end

end OsProgramming.Reactor
