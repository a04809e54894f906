import OsProgramming.Reactor.PollDispatcher

/-! The slots of the poll dispatcher beside the channels that are registered, and what
the three operations keep of them. Nothing is assumed about free slots. -/

namespace OsProgramming.Reactor

open Library

variable {κ : Type} {data data' : List PollFd} {channels : ℤ → Option κ}

/-- No two slots have one descriptor, and only registered descriptors have one. -/
structure SlotsMatch (data : List PollFd) (channels : ℤ → Option κ) : Prop where
  unique : ∀ (i j : ℕ) (a b : PollFd), data[i]? = some a → data[j]? = some b → 0 ≤ a.fd →
    a.fd = b.fd → i = j
  watched : ∀ (i : ℕ) (a : PollFd), data[i]? = some a → 0 ≤ a.fd → channels a.fd ≠ none

/-- What was reported is kept, and so is every slot but those of a descriptor that is
removed. -/
structure SlotsKept (removed : ℤ → Prop) (data data' : List PollFd) : Prop where
  revents : data'.map PollFd.revents = data.map PollFd.revents
  slot : ∀ (i : ℕ) (a : PollFd), data[i]? = some a → 0 ≤ a.fd → ¬ removed a.fd →
    ∃ a' : PollFd, data'[i]? = some a' ∧ a'.fd = a.fd

theorem SlotsKept.refl (removed : ℤ → Prop) (data : List PollFd) : SlotsKept removed data data :=
  ⟨rfl, fun _ a ha _ _ => ⟨a, ha, rfl⟩⟩

theorem SlotsKept.length_eq {removed : ℤ → Prop} (h : SlotsKept removed data data') :
    data'.length = data.length := by
  simpa using congrArg List.length h.revents

theorem SlotsKept.mono {removed removed' : ℤ → Prop} (h : SlotsKept removed data data')
    (hle : ∀ fd, removed fd → removed' fd) : SlotsKept removed' data data' :=
  ⟨h.revents, fun i a ha h0 hkept => h.slot i a ha h0 fun hremoved => hkept (hle a.fd hremoved)⟩

theorem getElem?_set_cases {k j : ℕ} {x a : PollFd} (h : (data.set k x)[j]? = some a) :
    (j = k ∧ a = x) ∨ (j ≠ k ∧ data[j]? = some a) := by
  rw [List.getElem?_set] at h
  split_ifs at h with heq hlt
  · exact .inl ⟨heq.symm, (Option.some.inj h).symm⟩
  · exact .inr ⟨Ne.symm heq, h⟩

theorem SlotsKept.set {removed : ℤ → Prop} {k : ℕ} {x x' : PollFd} (hk : data[k]? = some x)
    (hrevents : x'.revents = x.revents) (hfd : 0 ≤ x.fd → ¬ removed x.fd → x'.fd = x.fd) :
    SlotsKept removed data (data.set k x') := by
  obtain ⟨hlt, hx⟩ := List.getElem?_eq_some_iff.mp hk
  constructor
  · rw [List.map_set, hrevents, ← hx]
    exact List.ext_getElem (by simp) fun i h₁ h₂ => by
      rw [List.getElem_set]
      split_ifs with heq
      · simp [heq]
      · rfl
  · intro i a ha h0 hkept
    rw [List.getElem?_set]
    split_ifs with heq
    · subst heq
      obtain rfl : x = a := Option.some.inj (hk.symm.trans ha)
      exact ⟨x', rfl, hfd h0 hkept⟩
    · exact ⟨a, ha, rfl⟩

theorem SlotsMatch.set (h : SlotsMatch data channels) {k : ℕ} {x' : PollFd}
    {channels' : ℤ → Option κ}
    (hnew : 0 ≤ x'.fd → channels' x'.fd ≠ none ∧
      ∀ (j : ℕ) (a : PollFd), j ≠ k → data[j]? = some a → a.fd ≠ x'.fd)
    (hold : ∀ (j : ℕ) (a : PollFd), j ≠ k → data[j]? = some a → 0 ≤ a.fd → channels' a.fd ≠ none) :
    SlotsMatch (data.set k x') channels' := by
  constructor
  · intro i j a b ha hb h0 heq
    rcases getElem?_set_cases ha with ⟨rfl, rfl⟩ | ⟨hi, ha'⟩ <;>
      rcases getElem?_set_cases hb with ⟨rfl, rfl⟩ | ⟨hj, hb'⟩
    · rfl
    · exact absurd heq.symm ((hnew h0).2 j b hj hb')
    · exact absurd heq ((hnew (heq ▸ h0)).2 i a hi ha')
    · exact h.unique i j a b ha' hb' h0 heq
  · intro i a ha h0
    rcases getElem?_set_cases ha with ⟨rfl, rfl⟩ | ⟨hi, ha⟩
    · exact (hnew h0).1
    · exact hold i a hi ha h0

variable {channel : Channel} {result : ℤ}

theorem SlotsMatch.add (h : SlotsMatch data channels) {c : κ}
    (hnone : channels channel.fd = none) (hadd : pollAdd data channel = .ok (data', result))
    {channels' : ℤ → Option κ}
    (hentry : ∀ fd, channels' fd = if fd = channel.fd then some c else channels fd) :
    SlotsMatch data' channels' ∧ SlotsKept (fun _ => False) data data' := by
  have hwatched : ∀ (j : ℕ) (a : PollFd), data[j]? = some a → 0 ≤ a.fd → channels' a.fd ≠ none := by
    intro j a ha h0
    rw [hentry]
    split_ifs
    · nofun
    · exact h.watched j a ha h0
  cases hadd
  rcases modifyFirst_eq_set (fun slot : PollFd => decide (slot.fd < 0))
    (fun slot : PollFd => { slot with fd := channel.fd, events := pollInterest channel }) data with
    ⟨hsame, -⟩ | ⟨k, x, hk, hfree, hset⟩
  · rw [hsame]
    exact ⟨⟨h.unique, hwatched⟩, .refl _ data⟩
  · rw [hset]
    refine ⟨h.set (fun h0 => ⟨?_, ?_⟩) fun j a _ => hwatched j a,
      .set hk rfl ?_⟩
    · rw [hentry, if_pos rfl]
      nofun
    · intro j a _ ha heq
      -- a slot of the descriptor would mean that it is registered
      exact h.watched j a ha (heq ▸ h0) (heq ▸ hnone)
    · intro h0
      exact absurd h0 (not_le.mpr (of_decide_eq_true hfree))

theorem SlotsMatch.delete (h : SlotsMatch data channels) {fd : ℤ} (hfd : channel.fd = fd)
    (hdelete : pollDelete data channel = .ok (data', result)) {channels' : ℤ → Option κ}
    (hentry : ∀ fd', channels' fd' = if fd' = fd then none else channels fd') :
    SlotsMatch data' channels' ∧ SlotsKept (· = fd) data data' := by
  subst hfd
  have hwatched : ∀ (j : ℕ) (a : PollFd), data[j]? = some a → 0 ≤ a.fd → a.fd ≠ channel.fd →
      channels' a.fd ≠ none := by
    intro j a ha h0 hne
    rw [hentry, if_neg hne]
    exact h.watched j a ha h0
  cases hdelete
  rcases modifyFirst_eq_set (fun slot : PollFd => decide (slot.fd = channel.fd))
    (fun slot : PollFd => { slot with fd := -1 }) data with
    ⟨hsame, hno⟩ | ⟨k, x, hk, hfd, hset⟩
  · rw [hsame]
    refine ⟨⟨h.unique, fun j a ha h0 => hwatched j a ha h0 ?_⟩, .refl _ data⟩
    exact of_decide_eq_false (hno a (List.mem_of_getElem? ha))
  · rw [hset]
    have hfd : x.fd = channel.fd := of_decide_eq_true hfd
    refine ⟨h.set (fun h0 => absurd h0 (show ¬ (0 : ℤ) ≤ -1 by decide)) ?_,
      .set hk rfl fun _ hkept => absurd hfd hkept⟩
    intro j a hj ha h0
    exact hwatched j a ha h0 fun heq => hj (h.unique j k a x ha hk h0 (heq.trans hfd.symm))

theorem SlotsMatch.update (h : SlotsMatch data channels)
    (hupdate : pollUpdate data channel = .ok (data', result)) :
    SlotsMatch data' channels ∧ SlotsKept (fun _ => False) data data' := by
  cases hupdate
  rcases modifyFirst_eq_set (fun slot : PollFd => decide (slot.fd = channel.fd))
    (fun slot : PollFd => { slot with events := pollInterest channel }) data with
    ⟨hsame, -⟩ | ⟨k, x, hk, -, hset⟩
  · rw [hsame]
    exact ⟨h, .refl _ data⟩
  · rw [hset]
    refine ⟨h.set (fun h0 => ⟨h.watched k x hk h0, ?_⟩) fun j a _ =>
      h.watched j a, .set hk rfl fun _ _ => rfl⟩
    intro j a hj ha heq
    exact hj (h.unique j k a x ha hk (heq ▸ h0) heq)

end OsProgramming.Reactor
