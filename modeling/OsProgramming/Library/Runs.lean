import OsProgramming.Library.Memory
import Mathlib.Logic.Relation

/-! Runs. A machine consumes events by a step function, and a run is its fold
over a list of events; a system of threads moves by labelled steps that need
not be enabled, and a run is a path. For both, what one step preserves a run
preserves. -/

namespace OsProgramming.Library

universe u

section Machines

variable {S E T : Type u} {step : S → E → Result S} {guard : S → E → Prop} {inv : S → Prop}

/-- Every event is admissible in the state in which the machine consumes it. -/
def Admissible (step : S → E → Result S) (guard : S → E → Prop) : S → List E → Prop
  | _, [] => True
  | s, e :: es => guard s e ∧ ∀ s', step s e = .ok s' → Admissible step guard s' es

instance Admissible.decidable [∀ s e, Decidable (guard s e)] :
    (s : S) → (es : List E) → Decidable (Admissible step guard s es)
  | _, [] => .isTrue trivial
  | s, e :: es =>
    match h : step s e with
    | .error _ => decidable_of_iff (guard s e) (by simp [Admissible, h])
    | .ok s' =>
      have : Decidable (Admissible step guard s' es) := Admissible.decidable s' es
      decidable_of_iff (guard s e ∧ Admissible step guard s' es) (by simp [Admissible, h])

/-- The guard holds of the events, whatever the states are. -/
theorem Admissible.of_forall {s : S} {es : List E} (h : ∀ e ∈ es, ∀ s, guard s e) :
    Admissible step guard s es := by
  induction es generalizing s with
  | nil => trivial
  | cons e es ih =>
    obtain ⟨he, hes⟩ := List.forall_mem_cons.mp h
    exact ⟨he s, fun s' _ => ih hes⟩

theorem admissible_true (s : S) (es : List E) : Admissible step (fun _ _ => True) s es :=
  .of_forall fun _ _ _ => trivial

theorem Admissible.and {guard' : S → E → Prop} {s : S} {es : List E}
    (h : Admissible step guard s es) (h' : Admissible step guard' s es) :
    Admissible step (fun s e => guard s e ∧ guard' s e) s es := by
  induction es generalizing s with
  | nil => trivial
  | cons e es ih => exact ⟨⟨h.1, h'.1⟩, fun s' hs' => ih (h.2 s' hs') (h'.2 s' hs')⟩

/-- Under an invariant that admissible steps keep, a condition that follows from the
guard holds at every event. -/
theorem Admissible.mono_of_inv {meets : S → E → Prop}
    (hstep : ∀ s e s', inv s → guard s e → step s e = .ok s' → inv s')
    (hmeets : ∀ s e, inv s → guard s e → meets s e) {s : S} {es : List E} (hs : inv s)
    (hadm : Admissible step guard s es) : Admissible step meets s es := by
  induction es generalizing s with
  | nil => trivial
  | cons e es ih =>
    exact ⟨hmeets s e hs hadm.1, fun s' hs' => ih (hstep s e s' hs hadm.1 hs') (hadm.2 s' hs')⟩

/-- Under an invariant that admissible steps keep, a condition that agrees with the guard
admits the same events. -/
theorem admissible_iff_of_inv {meets : S → E → Prop}
    (hstep : ∀ s e s', inv s → guard s e → step s e = .ok s' → inv s')
    (hiff : ∀ s e, inv s → (guard s e ↔ meets s e)) {s : S} {es : List E} (hs : inv s) :
    Admissible step guard s es ↔ Admissible step meets s es :=
  have hstep' : ∀ s e s', inv s → meets s e → step s e = .ok s' → inv s' :=
    fun s e s' hinv hmeets => hstep s e s' hinv ((hiff s e hinv).mpr hmeets)
  ⟨Admissible.mono_of_inv hstep (fun s e hinv => (hiff s e hinv).mp) hs,
    Admissible.mono_of_inv hstep' (fun s e hinv => (hiff s e hinv).mpr) hs⟩

/-- A machine whose admissible steps return and follow an abstract step follows
the abstract run on every admissible list of events. -/
theorem foldlM_simulates {R : S → T → Prop} {f : T → E → T}
    (hstep : ∀ s t e, R s t → guard s e → ∃ s', step s e = .ok s' ∧ R s' (f t e))
    {s : S} {t : T} {es : List E} (hs : R s t) (hadm : Admissible step guard s es) :
    ∃ s', es.foldlM step s = .ok s' ∧ R s' (es.foldl f t) := by
  induction es generalizing s t with
  | nil => exact ⟨s, rfl, hs⟩
  | cons e es ih =>
    obtain ⟨s', hs', hrel⟩ := hstep s t e hs hadm.1
    rw [List.foldlM_cons, hs', ok_bind]
    exact ih hrel (hadm.2 s' hs')

/-- What the abstract step admits, the machine admits. -/
theorem Admissible.of_simulates {R : S → T → Prop} {f : T → E → T} {guard' : T → E → Prop}
    (hstep : ∀ s t e, R s t → guard' t e → ∃ s', step s e = .ok s' ∧ R s' (f t e))
    (hguard : ∀ s t e, R s t → guard' t e → guard s e) {s : S} {t : T} {es : List E} (hs : R s t)
    (hadm : Admissible (fun t e => .ok (f t e)) guard' t es) : Admissible step guard s es := by
  induction es generalizing s t with
  | nil => trivial
  | cons e es ih =>
    obtain ⟨s₁, hs₁, hrel⟩ := hstep s t e hs hadm.1
    refine ⟨hguard s t e hs hadm.1, fun s' hs' => ?_⟩
    obtain rfl := Except.ok.inj (hs₁.symm.trans hs')
    exact ih hrel (hadm.2 _ rfl)

/-- Guards may be weakened. -/
theorem Admissible.mono {meets : S → E → Prop} (h : ∀ s e, guard s e → meets s e) {s : S} {es : List E}
    (hadm : Admissible step guard s es) : Admissible step meets s es := by
  induction es generalizing s with
  | nil => trivial
  | cons e es ih => exact ⟨h s e hadm.1, fun s' hs' => ih (hadm.2 s' hs')⟩

/-- A machine whose admissible steps return and keep an invariant returns from
every admissible run, and the invariant holds at its end. -/
theorem foldlM_ok (hstep : ∀ s e, inv s → guard s e → ∃ s', step s e = .ok s' ∧ inv s')
    {s : S} {es : List E} (hs : inv s) (hadm : Admissible step guard s es) :
    ∃ s', es.foldlM step s = .ok s' ∧ inv s' :=
  foldlM_simulates (R := fun s (_ : PUnit) => inv s) (f := fun t _ => t)
    (fun s _ e => hstep s e) (t := .unit) hs hadm

/-- A machine whose steps return while a condition holds and fail otherwise returns
from exactly the runs whose events all meet the condition. -/
theorem foldlM_ok_or_error {meets : S → E → Prop} {fault : Fault}
    (hok : ∀ s e, inv s → guard s e → meets s e → ∃ s', step s e = .ok s' ∧ inv s')
    (hfail : ∀ s e, inv s → guard s e → ¬ meets s e → step s e = .error fault)
    {s : S} {es : List E} (hs : inv s) (hadm : Admissible step guard s es) :
    (Admissible step meets s es ∧ ∃ s', es.foldlM step s = .ok s' ∧ inv s') ∨
      (¬ Admissible step meets s es ∧ es.foldlM step s = .error fault) := by
  induction es generalizing s with
  | nil => exact .inl ⟨trivial, s, rfl, hs⟩
  | cons e es ih =>
    by_cases hmeets : meets s e
    · obtain ⟨s₁, hstep, hs₁⟩ := hok s e hs hadm.1 hmeets
      have hrest : Admissible step meets s (e :: es) ↔ Admissible step meets s₁ es := by
        simp only [Admissible, hmeets, true_and, hstep, Except.ok.injEq, forall_eq']
      rw [hrest, List.foldlM_cons, hstep, ok_bind]
      exact ih hs₁ (hadm.2 s₁ hstep)
    · refine .inr ⟨fun h => hmeets h.1, ?_⟩
      rw [List.foldlM_cons, hfail s e hs hadm.1 hmeets, error_bind]

/-- If the admissible steps that return follow an abstract step, an admissible run
that returns follows the abstract run. -/
theorem foldlM_follows {R : S → T → Prop} {f : T → E → T}
    (hstep : ∀ s t e s', R s t → guard s e → step s e = .ok s' → R s' (f t e))
    {s s' : S} {t : T} {es : List E} (hs : R s t) (hadm : Admissible step guard s es)
    (hrun : es.foldlM step s = .ok s') : R s' (es.foldl f t) := by
  induction es generalizing s t with
  | nil => cases hrun; exact hs
  | cons e es ih =>
    rw [List.foldlM_cons, bind_eq_ok] at hrun
    obtain ⟨s₁, hs₁, hrest⟩ := hrun
    exact ih (hstep s t e s₁ hs hadm.1 hs₁) (hadm.2 s₁ hs₁) hrest

/-- An admissible run that returns keeps what its steps keep. -/
theorem foldlM_inv (hstep : ∀ s e s', inv s → guard s e → step s e = .ok s' → inv s')
    {s s' : S} {es : List E} (hs : inv s) (hadm : Admissible step guard s es)
    (hrun : es.foldlM step s = .ok s') : inv s' :=
  foldlM_follows (R := fun s (_ : PUnit) => inv s) (f := fun t _ => t)
    (fun s _ e s' => hstep s e s') (t := .unit) hs hadm hrun

/-- A run that returns keeps what every step that returns keeps. -/
theorem foldlM_keeps (hstep : ∀ s e s', inv s → step s e = .ok s' → inv s') {s s' : S} {es : List E}
    (hs : inv s) (hrun : es.foldlM step s = .ok s') : inv s' := by
  induction es generalizing s with
  | nil => cases hrun; exact hs
  | cons e es ih =>
    rw [List.foldlM_cons, bind_eq_ok] at hrun
    obtain ⟨s₁, hs₁, hrest⟩ := hrun
    exact ih (hstep s e s₁ hs hs₁) hrest

/-- A loop over indices without duplicates, each of whose rounds changes only the entry of
its index, changes each of these entries once. -/
theorem foldlM_entries {B : Type*} {get : S → E → B} {visited : E → B → B → Prop}
    (hstep : ∀ s e s', step s e = .ok s' →
      visited e (get s e) (get s' e) ∧ ∀ e', e' ≠ e → get s' e' = get s e')
    {s s' : S} {es : List E} (hnodup : es.Nodup) (hrun : es.foldlM step s = .ok s') (e : E) :
    (e ∈ es → visited e (get s e) (get s' e)) ∧ (e ∉ es → get s' e = get s e) := by
  induction es generalizing s with
  | nil =>
    cases hrun
    exact ⟨nofun, fun _ => rfl⟩
  | cons e₀ es ih =>
    obtain ⟨he₀, hes⟩ := List.nodup_cons.mp hnodup
    rw [List.foldlM_cons, bind_eq_ok] at hrun
    obtain ⟨s₁, hs₁, hrest⟩ := hrun
    obtain ⟨hvisited, hothers⟩ := hstep s e₀ s₁ hs₁
    constructor
    · intro hmem
      rcases List.mem_cons.mp hmem with rfl | hmem
      · rwa [(ih hes hrest).2 he₀]
      · have hne : e ≠ e₀ := ne_of_mem_of_not_mem hmem he₀
        rw [← hothers e hne]
        exact (ih hes hrest).1 hmem
    · intro hmem
      rw [List.mem_cons, not_or] at hmem
      rw [(ih hes hrest).2 hmem.2, hothers e hmem.1]

/-- Every step of the run has the property. -/
def EachStep (step : S → E → Result S) (property : S → E → S → Prop) : S → List E → Prop :=
  Admissible step fun s e => ∀ s', step s e = .ok s' → property s e s'

/-- If the admissible steps have a property exactly when their event meets a condition,
and such steps keep an invariant, then the steps of an admissible run that returns all
have the property exactly when its events all meet the condition. -/
theorem eachStep_iff_of_admissible {property : S → E → S → Prop} {meets : S → E → Prop}
    (hstep : ∀ s e s', inv s → guard s e → meets s e → step s e = .ok s' → inv s')
    (hiff : ∀ s e s', inv s → guard s e → step s e = .ok s' → (property s e s' ↔ meets s e))
    {s s' : S} {es : List E} (hs : inv s) (hadm : Admissible step guard s es)
    (hrun : es.foldlM step s = .ok s') :
    EachStep step property s es ↔ Admissible step meets s es := by
  induction es generalizing s with
  | nil => exact Iff.rfl
  | cons e es ih =>
    obtain ⟨hguard, hrest⟩ := hadm
    rw [List.foldlM_cons, bind_eq_ok] at hrun
    obtain ⟨s₁, hs₁, hrun'⟩ := hrun
    simp only [EachStep, Admissible, hs₁, Except.ok.injEq, forall_eq',
      hiff s e s₁ hs hguard hs₁]
    apply and_congr_right
    intro hmeets
    exact ih (hstep s e s₁ hs hguard hmeets hs₁) (hrest s₁ hs₁) hrun'

theorem eachStep_iff {property : S → E → S → Prop} {meets : S → E → Prop}
    (hstep : ∀ s e s', inv s → meets s e → step s e = .ok s' → inv s')
    (hiff : ∀ s e s', inv s → step s e = .ok s' → (property s e s' ↔ meets s e))
    {s s' : S} {es : List E} (hs : inv s) (hrun : es.foldlM step s = .ok s') :
    EachStep step property s es ↔ Admissible step meets s es :=
  eachStep_iff_of_admissible (fun s e s' hinv _ => hstep s e s' hinv)
    (fun s e s' hinv _ => hiff s e s' hinv) hs (admissible_true s es) hrun

/-- If the steps of a run keep an invariant while a condition holds, and the first one
that does not meet it breaks something for good, then the end of the run tells whether
its events have all met the condition. -/
theorem foldlM_inv_or_broken {meets : S → E → Prop} {broken : S → Prop}
    (hkeep : ∀ s e s', inv s → guard s e → meets s e → step s e = .ok s' → inv s')
    (hbreak : ∀ s e s', inv s → guard s e → ¬ meets s e → step s e = .ok s' → broken s')
    (hbroken : ∀ s e s', broken s → guard s e → step s e = .ok s' → broken s')
    {s s' : S} {es : List E} (hs : inv s) (hadm : Admissible step guard s es)
    (hrun : es.foldlM step s = .ok s') :
    (Admissible step meets s es ∧ inv s') ∨ (¬ Admissible step meets s es ∧ broken s') := by
  induction es generalizing s with
  | nil => cases hrun; exact .inl ⟨trivial, hs⟩
  | cons e es ih =>
    obtain ⟨hguard, hadm'⟩ := hadm
    rw [List.foldlM_cons, bind_eq_ok] at hrun
    obtain ⟨s₁, hs₁, hrun'⟩ := hrun
    by_cases hmeets : meets s e
    · have hrest : Admissible step meets s (e :: es) ↔ Admissible step meets s₁ es := by
        simp only [Admissible, hmeets, true_and, hs₁, Except.ok.injEq, forall_eq']
      rw [hrest]
      exact ih (hkeep s e s₁ hs hguard hmeets hs₁) (hadm' s₁ hs₁) hrun'
    · exact .inr ⟨fun h => hmeets h.1, foldlM_inv hbroken (hbreak s e s₁ hs hguard hmeets hs₁)
        (hadm' s₁ hs₁) hrun'⟩

end Machines

section Threads

variable {S A : Type*} {step : S → A → Option S}

/-- The states that a path of enabled steps leads to. -/
def Reaches (step : S → A → Option S) : S → S → Prop :=
  Relation.ReflTransGen fun s s' => ∃ a, step s a = some s'

/-- A list of actions, each enabled in turn, is a path. -/
theorem Reaches.of_foldlM {s₀ s : S} {actions : List A} (h : actions.foldlM step s₀ = some s) :
    Reaches step s₀ s := by
  induction actions generalizing s₀ with
  | nil => cases h; exact .refl
  | cons a actions ih =>
    rw [List.foldlM_cons, Option.bind_eq_bind, Option.bind_eq_some_iff] at h
    obtain ⟨s₁, hstep, hrest⟩ := h
    exact (ih hrest).head ⟨a, hstep⟩

theorem Reaches.invariant {s₀ s : S} (inv : S → Prop) (h : Reaches step s₀ s) (hinit : inv s₀)
    (hstep : ∀ s a s', inv s → step s a = some s' → inv s') : inv s := by
  induction h with
  | refl => exact hinit
  | tail _ hlast ih =>
    obtain ⟨a, ha⟩ := hlast
    exact hstep _ a _ ih ha

end Threads

end OsProgramming.Library
