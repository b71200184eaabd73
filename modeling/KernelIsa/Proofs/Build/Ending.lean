import KernelIsa.Build.Services

/-!
# Proofs/Build/Ending — how an action ends

Over a state of any kind, `Ends x s a t` says that the action `x`, started in the state `s`, gives
`a` and leaves the state `t`, and `Stops x s overflow t` that an overflow stops it there.  Sequences
end as their parts do (`ends_bind_iff`), so that a run is taken apart into the runs of its steps.
An action may also be run beside another state (`beside`), as may be all that a host or services do
(`Host.along`, `Services.along`).
-/

namespace KernelIsa

variable {σ α β : Type} {s t u : σ} {a a' : α} {b : β}

/-- From the state `s` the action ends with `a` in the state `t`; no overflow stops it. -/
def Ends (x : Checked (StateM σ) α) (s : σ) (a : α) (t : σ) : Prop :=
  (x.run.run s : Except Overflow α × σ) = (.ok a, t)

theorem run_pure (a : α) (s : σ) :
    ((pure a : Checked (StateM σ) α).run.run s : Except Overflow α × σ) = (.ok a, s) := rfl

/-- A sequence runs its second part where the first one ended, unless an overflow stopped it. -/
theorem run_bind (x : Checked (StateM σ) α) (f : α → Checked (StateM σ) β) (s : σ) :
    ((x >>= f).run.run s : Except Overflow β × σ) = match (x.run.run s : Except Overflow α × σ) with
      | (.ok a, t) => (f a).run.run t
      | (.error overflow, t) => (.error overflow, t) := by
  rw [ExceptT.run_bind, StateT.run_bind]
  generalize x.run.run s = p
  obtain ⟨result, t⟩ := p
  cases result <;> rfl

theorem run_lift (y : StateM σ α) (s : σ) :
    ((liftM y : Checked (StateM σ) α).run.run s : Except Overflow α × σ)
      = (.ok (y.run s : α × σ).1, (y.run s : α × σ).2) := rfl

theorem ends_pure_iff : Ends (pure a) s a' t ↔ a = a' ∧ s = t := by
  rw [Ends, run_pure, Prod.mk.injEq, Except.ok.injEq]

/-- **A sequence ends as its second part does, from where the first one ended.** -/
theorem ends_bind_iff {x : Checked (StateM σ) α} {f : α → Checked (StateM σ) β} :
    Ends (x >>= f) s b u ↔ ∃ a t, Ends x s a t ∧ Ends (f a) t b u := by
  rw [Ends, run_bind]
  constructor
  · intro h
    split at h
    · next a t hx => exact ⟨a, t, hx, h⟩
    · cases (Prod.mk.inj h).1
  · rintro ⟨a, t, hx, hf⟩
    rw [hx]
    exact hf

theorem ends_lift_iff {y : StateM σ α} : Ends (liftM y) s a t ↔ (y.run s : α × σ) = (a, t) := by
  rw [Ends, run_lift, Prod.mk.injEq, Except.ok.injEq, Prod.ext_iff]

/-- An action that ends, ends in one way. -/
theorem Ends.unique {x : Checked (StateM σ) α} (h : Ends x s a t) (h' : Ends x s a' u) :
    a = a' ∧ t = u := by
  have hpair : (Except.ok a, t) = (Except.ok (ε := Overflow) a', u) := h.symm.trans h'
  exact ⟨Except.ok.inj (Prod.mk.inj hpair).1, (Prod.mk.inj hpair).2⟩

/-- From the state `s` the action is stopped by an overflow in the state `t`. -/
def Stops (x : Checked (StateM σ) α) (s : σ) (overflow : Overflow) (t : σ) : Prop :=
  (x.run.run s : Except Overflow α × σ) = (.error overflow, t)

/-- An action ends or is stopped. -/
theorem ends_or_stops (x : Checked (StateM σ) α) (s : σ) :
    (∃ a t, Ends x s a t) ∨ ∃ overflow t, Stops x s overflow t := by
  cases hresult : (x.run.run s : Except Overflow α × σ).1 with
  | ok a => exact .inl ⟨a, _, Prod.ext hresult rfl⟩
  | error overflow => exact .inr ⟨overflow, _, Prod.ext hresult rfl⟩

/-- **A sequence is stopped where one of its parts is.** -/
theorem stops_bind_iff {x : Checked (StateM σ) α} {f : α → Checked (StateM σ) β}
    {overflow : Overflow} : Stops (x >>= f) s overflow u ↔
      Stops x s overflow u ∨ ∃ a t, Ends x s a t ∧ Stops (f a) t overflow u := by
  rw [Stops, run_bind]
  constructor
  · intro h
    split at h
    · next a t hx => exact .inr ⟨a, t, hx, h⟩
    · next hx =>
      obtain ⟨herror, rfl⟩ := Prod.mk.inj h
      exact .inl (Except.error.inj herror ▸ hx)
  · rintro (hx | ⟨a, t, hx, hf⟩)
    · rw [hx]
    · rw [hx]
      exact hf

theorem not_stops_pure {overflow : Overflow} :
    ¬ Stops (pure a : Checked (StateM σ) α) s overflow t :=
  fun h => nomatch (Prod.mk.inj h).1

theorem not_stops_lift {y : StateM σ α} {overflow : Overflow} :
    ¬ Stops (liftM y : Checked (StateM σ) α) s overflow t :=
  fun h => nomatch (Prod.mk.inj h).1

/-- Whether an action gives a value, neither a fault nor an overflow. -/
def gives (x : Checked (StateM σ) (Except Fault α)) (s : σ) : Bool :=
  match (x.run.run s : Except Overflow (Except Fault α) × σ).1 with
  | .ok (.ok _) => true
  | _ => false

theorem Ends.gives_eq {x : Checked (StateM σ) (Except Fault α)} {result : Except Fault α}
    (h : Ends x s result t) : gives x s = result.isOk := by
  rw [gives, h]
  cases result <;> rfl

theorem exists_ends_of_gives {x : Checked (StateM σ) (Except Fault α)} (h : gives x s) :
    ∃ a t, Ends x s (.ok a) t := by
  rw [gives] at h
  split at h
  · next a ha => exact ⟨a, _, Prod.ext ha rfl⟩
  · cases h

/-- Whether an action gives a value that passes a test. -/
def givesSome (p : α → Bool) (x : Checked (StateM σ) α) (s : σ) : Bool :=
  match (x.run.run s : Except Overflow α × σ).1 with
  | .ok a => p a
  | .error _ => false

theorem exists_ends_of_givesSome {p : α → Bool} {x : Checked (StateM σ) α} (h : givesSome p x s) :
    ∃ a t, Ends x s a t ∧ p a := by
  rw [givesSome] at h
  split at h
  · next a ha => exact ⟨a, _, Prod.ext ha rfl, h⟩
  · cases h

/-- Whether an action gives a value, and one that passes a test. -/
theorem exists_ends_ok_of_givesSome {p : α → Bool} {x : Checked (StateM σ) (Except Fault α)}
    (h : givesSome (fun result => result.toOption.any p) x s) : ∃ a t, Ends x s (.ok a) t ∧ p a := by
  obtain ⟨result, t, hends, htest⟩ := exists_ends_of_givesSome h
  cases result with
  | error fault => cases htest
  | ok a => exact ⟨a, t, hends, htest⟩

/-! ## Steps -/

section Steps

variable {overflow : Overflow}

/-- A sequence of steps gives an answer if both of its parts do. -/
theorem ends_step_bind_iff {x : Step (StateM σ) α} {f : α → Step (StateM σ) β} :
    Ends (x >>= f).run s (.ok b) u ↔ ∃ a t, Ends x.run s (.ok a) t ∧ Ends (f a).run t (.ok b) u := by
  rw [ExceptT.run_bind, ends_bind_iff]
  constructor
  · rintro ⟨result, t, hx, hf⟩
    cases result with
    | ok a => exact ⟨a, t, hx, hf⟩
    | error fault => cases (ends_pure_iff.mp hf).1
  · rintro ⟨a, t, hx, hf⟩
    exact ⟨.ok a, t, hx, hf⟩

theorem ends_step_lift_iff {x : Checked (StateM σ) α} :
    Ends (ExceptT.lift x : Step (StateM σ) α).run s (.ok a) t ↔ Ends x s a t := by
  rw [ExceptT.run_lift, map_eq_pure_bind, ends_bind_iff]
  constructor
  · rintro ⟨a', u, hx, h⟩
    obtain ⟨heq, rfl⟩ := ends_pure_iff.mp h
    exact Except.ok.inj heq ▸ hx
  · exact fun hx => ⟨a, t, hx, ends_pure_iff.mpr ⟨rfl, rfl⟩⟩

theorem ends_step_ask_iff {y : StateM σ (Except Fault α)} {result : Except Fault α} :
    Ends (Step.ask y).run s result t ↔ (y.run s : Except Fault α × σ) = (result, t) :=
  ends_lift_iff

/-- A sequence of steps is stopped where one of its parts is. -/
theorem stops_step_bind_iff {x : Step (StateM σ) α} {f : α → Step (StateM σ) β} :
    Stops (x >>= f).run s overflow u ↔ Stops x.run s overflow u ∨
      ∃ a t, Ends x.run s (.ok a) t ∧ Stops (f a).run t overflow u := by
  rw [ExceptT.run_bind, stops_bind_iff]
  refine or_congr_right ⟨?_, fun ⟨a, t, hx, hf⟩ => ⟨.ok a, t, hx, hf⟩⟩
  rintro ⟨result, t, hx, hf⟩
  cases result with
  | ok a => exact ⟨a, t, hx, hf⟩
  | error fault => exact absurd hf not_stops_pure

theorem not_stops_step_ask {y : StateM σ (Except Fault α)} :
    ¬ Stops (Step.ask y).run s overflow t := not_stops_lift

theorem not_stops_step_ofExcept {result : Except Fault α} :
    ¬ Stops (Step.ofExcept result : Step (StateM σ) α).run s overflow t := not_stops_pure

theorem not_stops_step_throw {fault : Fault} :
    ¬ Stops (throw fault : Step (StateM σ) α).run s overflow t := not_stops_pure

theorem not_stops_step_pure {a : α} : ¬ Stops (pure a : Step (StateM σ) α).run s overflow t :=
  not_stops_pure

theorem ends_step_ofChecked_iff {result : Except Overflow α} :
    Ends (Step.ofChecked result : Step (StateM σ) α).run s (.ok a) t ↔ result = .ok a ∧ s = t := by
  rw [Step.ofChecked, ends_step_lift_iff]
  exact Prod.mk.injEq .. |>.to_iff

theorem stops_step_ofChecked_iff {result : Except Overflow α} :
    Stops (Step.ofChecked result : Step (StateM σ) α).run s overflow t ↔
      result = .error overflow ∧ s = t := by
  cases result with
  | ok a => exact iff_of_false (fun h => nomatch (Prod.mk.inj h).1) fun h => nomatch h.1
  | error first =>
    refine (Prod.mk.injEq ..).to_iff.trans (and_congr_left' ?_)
    rw [Except.error.injEq, Except.error.injEq]

end Steps

/-! ## Beside another state -/

section Beside

variable {τ : Type} {m n : Type → Type}

/-- An action beside another state, which it leaves as it is. -/
def beside (y : StateM σ α) : StateM (σ × τ) α :=
  fun s => ((y.run s.1 : α × σ).1, ((y.run s.1 : α × σ).2, s.2))

theorem run_beside {y : StateM σ α} (h : (y.run s : α × σ) = (a, t)) (other : τ) :
    ((beside y).run (s, other) : α × (σ × τ)) = (a, (t, other)) := by
  change ((y.run s : α × σ).1, ((y.run s : α × σ).2, other)) = _
  rw [h]

/-- A host with its actions done in another way. -/
def Host.along (lift : ∀ {α}, m α → n α) (host : Host m) : Host n where
  files :=
    { read := fun p => lift (host.files.read p)
      write := fun p content => lift (host.files.write p content)
      remove := fun p => lift (host.files.remove p)
      isPresent := fun p => lift (host.files.isPresent p) }
  tell notice := lift (host.tell notice)
  isCancelled := lift host.isCancelled

/-- Services done in another way. -/
def Services.along (lift : ∀ {α}, m α → n α) (services : Services m) : Services n where
  compile device options sources output := lift (services.compile device options sources output)
  compileIntermediate device options source output :=
    lift (services.compileIntermediate device options source output)
  disassemble binary device lineNumbers := lift (services.disassemble binary device lineNumbers)
  kernelNames binary := lift (services.kernelNames binary)
  codeSize binary kernel := lift (services.codeSize binary kernel)
  notes binary := lift (services.notes binary)
  analyzer := services.analyzer.map fun analyzer =>
    { liveRegisters := fun listing device kind report =>
        lift (analyzer.liveRegisters listing device kind report)
      graph := fun listing device granularity report =>
        lift (analyzer.graph listing device granularity report) }

end Beside

end KernelIsa
