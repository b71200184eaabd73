import KernelIsa.Proofs.Build.Ending
import Mathlib.Data.Set.Insert

/-!
# Proofs/Build/Confined — actions that keep to some places

A state is seen through the contents of places.  An action is confined, from a state on, to the
places that it reads and those that it writes, if in every state that agrees with the first one on
these places it gives the same answer, leaves the same contents at the places it writes, and leaves
all others alone (`Confined`).  The parts of a sequence are judged where they run
(`Confined.bind`), so that what is written may depend on what was read.
-/

namespace KernelIsa

variable {σ L C α β : Type} {content : σ → L → C} {reads writes reads' writes' : Set L}
  {s s₀ : σ}

/-- From the state `s` the action does what it does from `s₀`, and writes to some places only. -/
structure Mirrors (content : σ → L → C) (writes : Set L) (x : StateM σ α) (s₀ s : σ) : Prop where
  answer : (x.run s : α × σ).1 = (x.run s₀ : α × σ).1
  written : ∀ l ∈ writes, content (x.run s : α × σ).2 l = content (x.run s₀ : α × σ).2 l
  kept : ∀ l ∉ writes, content (x.run s : α × σ).2 l = content s l

/-- From the state `s₀` on, the action depends on the places that it reads and writes, and changes
those that it writes. -/
def Confined (content : σ → L → C) (reads writes : Set L) (s₀ : σ) (x : StateM σ α) : Prop :=
  ∀ s, (∀ l, l ∈ reads ∨ l ∈ writes → content s l = content s₀ l) → Mirrors content writes x s₀ s

namespace Confined

theorem pure (a : α) : Confined content reads writes s₀ (pure a) :=
  fun _ hs => ⟨rfl, fun l hl => hs l (.inr hl), fun _ _ => rfl⟩

/-- **A sequence is confined as its parts are, each where it runs.** -/
theorem bind {x : StateM σ α} {f : α → StateM σ β} (hx : Confined content reads writes s₀ x)
    (hf : Confined content reads writes (x.run s₀ : α × σ).2 (f (x.run s₀ : α × σ).1)) :
    Confined content reads writes s₀ (x >>= f) := by
  intro s hs
  have hx₀ := hx s₀ fun _ _ => rfl
  obtain ⟨hanswer, hwritten, hkept⟩ := hx s hs
  have hagree : ∀ l, l ∈ reads ∨ l ∈ writes →
      content (x.run s : α × σ).2 l = content (x.run s₀ : α × σ).2 l := by
    intro l hl
    -- both runs leave what the first part does not write as they found it
    by_cases hw : l ∈ writes
    · exact hwritten l hw
    · rw [hkept l hw, hs l hl, hx₀.kept l hw]
  have hrun : ((x >>= f).run s : β × σ)
      = (f (x.run s₀ : α × σ).1).run (x.run s : α × σ).2 := by
    rw [← hanswer]
    rfl
  have hrest := hf _ hagree
  refine ⟨?_, fun l hl => ?_, fun l hl => ?_⟩
  · rw [hrun]
    exact hrest.answer
  · rw [hrun]
    exact hrest.written l hl
  · rw [hrun, hrest.kept l hl, hkept l hl]

/-- An action may be seen as one that reads and writes more. -/
theorem mono {x : StateM σ α} (hx : Confined content reads writes s₀ x)
    (hreads : ∀ l ∈ reads, l ∈ reads' ∨ l ∈ writes') (hwrites : ∀ l ∈ writes, l ∈ writes') :
    Confined content reads' writes' s₀ x := by
  intro s hs
  have hx₀ := hx s₀ fun _ _ => rfl
  obtain ⟨hanswer, hwritten, hkept⟩ := hx s fun l hl =>
    hs l (hl.elim (hreads l) fun h => .inr (hwrites l h))
  refine ⟨hanswer, fun l hl => ?_, fun l hl => hkept l fun h => hl (hwrites l h)⟩
  by_cases hw : l ∈ writes
  · exact hwritten l hw
  · rw [hkept l hw, hs l (.inr hl), hx₀.kept l hw]

/-- An action beside another state is confined as it is. -/
theorem beside {τ : Type} {x : StateM σ α} (hx : Confined content reads writes s₀ x) (other : τ) :
    Confined (fun s : σ × τ => content s.1) reads writes (s₀, other) (KernelIsa.beside x) := by
  intro s hs
  obtain ⟨hanswer, hwritten, hkept⟩ := hx s.1 hs
  exact ⟨hanswer, hwritten, hkept⟩

end Confined

/-! ## Actions that an overflow may stop -/

section Checked

/-- What an action gives and leaves is what it gives and leaves elsewhere. -/
theorem Mirrors.exists_ends {x : Checked (StateM σ) α} {a : α} {t : σ}
    (h : Mirrors content writes x.run s₀ s) (hx : Ends x s a t) :
    ∃ u, Ends x s₀ a u ∧ (∀ l ∈ writes, content t l = content u l) ∧
      ∀ l ∉ writes, content t l = content s l := by
  obtain ⟨hanswer, hwritten, hkept⟩ := h
  rw [hx] at hanswer hwritten hkept
  exact ⟨(x.run.run s₀ : Except Overflow α × σ).2, Prod.ext hanswer.symm rfl, hwritten, hkept⟩

/-- An action that gives something elsewhere gives it here. -/
theorem Mirrors.ends {x : Checked (StateM σ) α} {a : α} {u : σ}
    (h : Mirrors content writes x.run s₀ s) (hx : Ends x s₀ a u) : ∃ t, Ends x s a t := by
  have hanswer := h.answer
  rw [hx] at hanswer
  exact ⟨(x.run.run s : Except Overflow α × σ).2, Prod.ext hanswer rfl⟩

theorem confined_run_pure (a : α) :
    Confined content reads writes s₀ (pure a : Checked (StateM σ) α).run := Confined.pure _

theorem confined_run_lift {y : StateM σ α} (h : Confined content reads writes s₀ y) :
    Confined content reads writes s₀ (liftM y : Checked (StateM σ) α).run :=
  h.bind (f := fun a => pure (Except.ok a)) (Confined.pure _)

theorem confined_run_bind {x : Checked (StateM σ) α} {f : α → Checked (StateM σ) β}
    (hx : Confined content reads writes s₀ x.run)
    (hf : ∀ a t, Ends x s₀ a t → Confined content reads writes t (f a).run) :
    Confined content reads writes s₀ (x >>= f).run := by
  rw [ExceptT.run_bind]
  refine hx.bind ?_
  split
  · next a ha => exact hf a _ (Prod.ext ha rfl)
  · exact Confined.pure _

end Checked

/-! ## Steps -/

section Step

theorem confined_step_pure (a : α) :
    Confined content reads writes s₀ (pure a : Step (StateM σ) α).run.run := Confined.pure _

theorem confined_step_throw (fault : Fault) :
    Confined content reads writes s₀ (throw fault : Step (StateM σ) α).run.run := Confined.pure _

theorem confined_step_lift {x : Checked (StateM σ) α} (h : Confined content reads writes s₀ x.run) :
    Confined content reads writes s₀ (ExceptT.lift x : Step (StateM σ) α).run.run := by
  rw [ExceptT.run_lift, map_eq_pure_bind]
  exact confined_run_bind h fun _ _ _ => confined_run_pure _

theorem confined_step_ask {y : StateM σ (Except Fault α)}
    (h : Confined content reads writes s₀ y) :
    Confined content reads writes s₀ (Step.ask y).run.run := confined_run_lift h

theorem confined_step_ofExcept (result : Except Fault α) :
    Confined content reads writes s₀ (Step.ofExcept result : Step (StateM σ) α).run.run :=
  Confined.pure _

theorem confined_step_ofChecked (result : Except Overflow α) :
    Confined content reads writes s₀ (Step.ofChecked result : Step (StateM σ) α).run.run :=
  confined_step_lift (Confined.pure _)

theorem confined_step_bind {x : Step (StateM σ) α} {f : α → Step (StateM σ) β}
    (hx : Confined content reads writes s₀ x.run.run)
    (hf : ∀ a t, Ends x.run s₀ (.ok a) t → Confined content reads writes t (f a).run.run) :
    Confined content reads writes s₀ (x >>= f).run.run := by
  rw [ExceptT.run_bind]
  refine confined_run_bind hx fun result t h => ?_
  cases result with
  | ok a => exact hf a t h
  | error fault => exact confined_run_pure _

end Step

end KernelIsa
