import KernelIsa.Proofs.Text.Tokens
import Mathlib

/-!
# Proofs/Text/Spelling — small letters and trimmed names

Making capitals small changes letters only and no blank (`isBlank_toLower`), so that it may be done
before or behind trimming (`trim_lower`).  Both change nothing the second time, and the same holds
of the two together (`lower_trim_lower_trim`).
-/

namespace KernelIsa.Text

variable {t : Text} {c : Char}

/-! ## Small letters -/

theorem range_of_isAlpha (h : c.isAlpha) : 65 ≤ c.toNat ∧ c.toNat ≤ 122 := by
  simp only [Char.isAlpha, Char.isUpper, Char.isLower, Bool.or_eq_true, Bool.and_eq_true,
    decide_eq_true_eq, ge_iff_le, UInt32.le_iff_toNat_le, Char.toNat_val, UInt32.reduceToNat,
    Char.reduceVal] at h
  omega

theorem isBlank_eq_false_of_isAlpha (h : c.isAlpha) : isBlank c = false := by
  obtain ⟨hlow, hhigh⟩ := range_of_isAlpha h
  rw [Bool.eq_false_iff, isBlank]
  simp only [Bool.or_eq_true, Bool.and_eq_true, decide_eq_true_eq, beq_iff_eq, ne_eq]
  omega

theorem isBlank_toLower (c : Char) : isBlank c.toLower = isBlank c := by
  by_cases h : c.isAlpha
  · have hletter : c.toLower.isAlpha := by rwa [Char.isAlpha_toLower_eq_isAlpha]
    rw [isBlank_eq_false_of_isAlpha h, isBlank_eq_false_of_isAlpha hletter]
  · rw [Char.toLower_eq_of_not_isUpper fun hcapital => h (by rw [Char.isAlpha, hcapital]; rfl)]

@[simp] theorem lower_lower (t : Text) : lower (lower t) = lower t := by
  rw [lower, lower, List.map_map]
  exact List.map_congr_left fun c _ => Char.toLower_toLower_eq_toLower c

/-! ## Trimming -/

theorem dropEndWhile_map (p : Char → Bool) (f : Char → Char) (t : Text) :
    dropEndWhile p (t.map f) = (dropEndWhile (p ∘ f) t).map f := by
  rw [dropEndWhile, dropEndWhile, ← List.map_reverse, List.dropWhile_map, List.map_reverse]

/-- **Making capitals small and trimming may be done in either order.** -/
theorem trim_lower (t : Text) : trim (lower t) = lower (trim t) := by
  have hblank : isBlank ∘ Char.toLower = isBlank := funext isBlank_toLower
  rw [trim, trimStart, lower, List.dropWhile_map, hblank, trimEnd, dropEndWhile_map, hblank]
  rfl

theorem not_isBlank_getLast_trim (t : Text) : ∀ c ∈ (trim t).getLast?, ¬ isBlank c := by
  intro c hc
  rw [trim, trimEnd, dropEndWhile, List.getLast?_reverse] at hc
  have hdrop := List.head?_dropWhile_not isBlank (trimStart t).reverse
  rw [Option.mem_def.mp hc] at hdrop
  simpa using hdrop

@[simp] theorem trim_trim (t : Text) : trim (trim t) = trim t :=
  trim_eq_self (not_isBlank_head_trim t) (not_isBlank_getLast_trim t)

/-- A trimmed name in small letters stays as it is. -/
theorem lower_trim_lower_trim (t : Text) : lower (trim (lower (trim t))) = lower (trim t) := by
  rw [trim_lower, trim_trim, lower_lower]

end KernelIsa.Text
