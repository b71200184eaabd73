import KernelIsa.Text.Utf8
import Mathlib

/-!
# Proofs/Text/Utf8 — the separators in encoded and in decoded texts

A byte below 0x80 is an ASCII character, before and after: an encoded text has it where the text has
the character (`mem_encode_iff`), and decoding brings none that was not there
(`mem_of_mem_decodeLossy`).  It belongs to no longer sequence, so that decoding goes on behind it
anew (`decodeLossy_append_cons`).  Both follow by induction from what reading one byte gives
(`exists_reads`).
-/

namespace KernelIsa.Utf8

variable {b : UInt8} {bytes : Bytes} {pending : Option Pending} {p : Pending} {t : Text} {c : Char}

/-! ## Encoding -/

/-- A byte below 0x80 stands for the character of that number and is part of no other one. -/
theorem mem_utf8EncodeChar_iff (hb : b.toNat < 0x80) :
    b ∈ String.utf8EncodeChar c ↔ c.toNat = b.toNat := by
  have hc : c.val.toNat = c.toNat := rfl
  have hlimit : c.toNat < 0x110000 := by
    rcases c.valid with h | h <;> omega
  rw [String.utf8EncodeChar]
  simp only [hc]
  split
  · next h =>
    rw [List.mem_singleton, ← UInt8.toNat_inj, UInt8.toNat_ofNat']
    omega
  · next h =>
    refine iff_of_false (fun hmem => ?_) (by omega)
    split at hmem
    · simp only [List.mem_cons, List.not_mem_nil, or_false, ← UInt8.toNat_inj,
        UInt8.toNat_ofNat'] at hmem
      omega
    · split at hmem
      · simp only [List.mem_cons, List.not_mem_nil, or_false, ← UInt8.toNat_inj,
          UInt8.toNat_ofNat'] at hmem
        omega
      · simp only [List.mem_cons, List.not_mem_nil, or_false, ← UInt8.toNat_inj,
          UInt8.toNat_ofNat'] at hmem
        omega

/-- **An encoded text has an ASCII byte where the text has its character.** -/
theorem mem_encode_iff (hb : b.toNat < 0x80) : b ∈ encode t ↔ Char.ofNat b.toNat ∈ t := by
  have hvalid : b.toNat.isValidChar := .inl (by omega)
  rw [encode, List.mem_flatMap]
  constructor
  · rintro ⟨c, hc, hmem⟩
    rwa [← (mem_utf8EncodeChar_iff hb).mp hmem, Char.ofNat_toNat]
  · intro hmem
    refine ⟨_, hmem, (mem_utf8EncodeChar_iff hb).mpr ?_⟩
    rw [Char.toNat_ofNat, if_pos hvalid]

/-! ## Decoding -/

theorem scan_cons (b : UInt8) (bytes : Bytes) : scan none (b :: bytes) = match lead b with
    | some (.inl c) => some c :: scan none bytes
    | some (.inr p) => scan (some p) bytes
    | none => none :: scan none bytes := rfl

/-- Inside a character a byte goes on with it or ends it by a fault. -/
theorem scan_pending_cons (p : Pending) (b : UInt8) (bytes : Bytes) :
    scan (some p) (b :: bytes) = if p.low ≤ b && b ≤ p.high then
        match p.missing with
        | 0 => some (Char.ofNat (p.value * 64 + (b.toNat - 0x80))) :: scan none bytes
        | missing + 1 => scan (some ⟨missing, p.value * 64 + (b.toNat - 0x80), 0x80, 0xBF⟩) bytes
      else none :: scan none (b :: bytes) := by
  rfl

/-- A character begun that goes on with bytes from 0x80 on and comes to 0x80 at least. -/
structure Pending.Sound (p : Pending) : Prop where
  low : 0x80 ≤ p.low.toNat
  value : 0x80 ≤ (p.value * 64 + (p.low.toNat - 0x80)) * 64 ^ p.missing

theorem Pending.Sound.ofLow {missing value : Nat} {high : UInt8}
    (h : 0x80 ≤ value * 64 * 64 ^ missing) : (⟨missing, value, 0x80, high⟩ : Pending).Sound := by
  have hlow : (0x80 : UInt8).toNat = 0x80 := rfl
  exact ⟨Nat.le_of_eq hlow.symm, by rwa [hlow, Nat.sub_self, Nat.add_zero]⟩

/-- **A lead byte** is an ASCII character, a fault, or begins a sound character. -/
theorem lead_cases (b : UInt8) :
    (b.toNat < 0x80 ∧ lead b = some (.inl (Char.ofNat b.toNat))) ∨ lead b = none ∨
      ∃ p, lead b = some (.inr p) ∧ p.Sound := by
  rw [lead]
  generalize b.toNat = n
  by_cases hascii : n < 0x80
  · exact .inl ⟨hascii, if_pos hascii⟩
  rw [if_neg hascii]
  by_cases hstray : n < 0xC2
  · exact .inr (.inl (if_pos hstray))
  rw [if_neg hstray]
  by_cases htwo : n < 0xE0
  · exact .inr (.inr ⟨_, if_pos htwo, .ofLow (by omega)⟩)
  rw [if_neg htwo]
  by_cases hE0 : n = 0xE0
  · exact .inr (.inr ⟨_, if_pos hE0, by decide, by decide⟩)
  rw [if_neg hE0]
  by_cases hED : n = 0xED
  · exact .inr (.inr ⟨_, if_pos hED, by decide, by decide⟩)
  rw [if_neg hED]
  by_cases hthree : n < 0xF0
  · exact .inr (.inr ⟨_, if_pos hthree, .ofLow (by omega)⟩)
  rw [if_neg hthree]
  by_cases hF0 : n = 0xF0
  · exact .inr (.inr ⟨_, if_pos hF0, by decide, by decide⟩)
  rw [if_neg hF0]
  by_cases hfour : n < 0xF4
  · exact .inr (.inr ⟨_, if_pos hfour, .ofLow (by omega)⟩)
  rw [if_neg hfour]
  by_cases hF4 : n = 0xF4
  · exact .inr (.inr ⟨_, if_pos hF4, by decide, by decide⟩)
  · exact .inr (.inl (if_neg hF4))

theorem Pending.Sound.next {missing : Nat} (h : p.Sound) (hmissing : p.missing = missing + 1)
    (hb : p.low ≤ b) :
    (⟨missing, p.value * 64 + (b.toNat - 0x80), 0x80, 0xBF⟩ : Pending).Sound := by
  have hlow : p.low.toNat ≤ b.toNat := UInt8.le_iff_toNat_le.mp hb
  have hvalue := h.value
  rw [hmissing, Nat.pow_succ', ← Nat.mul_assoc] at hvalue
  exact .ofLow (Nat.le_trans hvalue (Nat.mul_le_mul_right _ (by omega)))

/-- What ends in 0x80 at least is no ASCII character. -/
theorem Pending.Sound.ne {c : Char} (h : p.Sound) (hmissing : p.missing = 0) (hb : p.low ≤ b)
    (hc : 0 < c.toNat ∧ c.toNat < 0x80) : Char.ofNat (p.value * 64 + (b.toNat - 0x80)) ≠ c := by
  rintro rfl
  have hlow : p.low.toNat ≤ b.toNat := UInt8.le_iff_toNat_le.mp hb
  have hvalue := h.value
  rw [hmissing, Nat.pow_zero, Nat.mul_one] at hvalue
  rw [Char.toNat_ofNat] at hc
  split at hc <;> omega

theorem lead_of_ascii (hb : b.toNat < 0x80) : lead b = some (.inl (Char.ofNat b.toNat)) := by
  simp only [lead, if_pos hb]

theorem of_lead_eq_inl (h : lead b = some (.inl c)) :
    b.toNat < 0x80 ∧ c = Char.ofNat b.toNat := by
  obtain ⟨hb, hlead⟩ | hlead | ⟨p, hlead, -⟩ := lead_cases b
  · exact ⟨hb, Sum.inl.inj (Option.some.inj (h.symm.trans hlead))⟩
  · cases hlead.symm.trans h
  · cases hlead.symm.trans h

/-- Reading a byte gives some characters, and what is begun behind it is sound. -/
structure Reads (pending : Option Pending) (b : UInt8) (read : List (Option Char))
    (next : Option Pending) : Prop where
  scan_cons : ∀ bytes, scan pending (b :: bytes) = read ++ scan next bytes
  sound : ∀ p ∈ next, p.Sound
  /-- An ASCII character is read at its byte only. -/
  ascii : ∀ c, some c ∈ read → 0 < c.toNat ∧ c.toNat < 0x80 → c.toNat = b.toNat

/-- A byte that begins a character. -/
theorem exists_reads_none (b : UInt8) : ∃ read next, Reads none b read next := by
  obtain ⟨hb, hlead⟩ | hlead | ⟨p, hlead, hsound⟩ := lead_cases b
  · refine ⟨[some (Char.ofNat b.toNat)], none, fun bytes => by rw [scan_cons, hlead]; rfl, nofun,
      fun c hc _ => ?_⟩
    rw [Option.some.inj (List.mem_singleton.mp hc), Char.toNat_ofNat, if_pos (.inl (by omega))]
  · exact ⟨[none], none, fun bytes => by rw [scan_cons, hlead]; rfl, nofun, by simp⟩
  · refine ⟨[], some p, fun bytes => by rw [scan_cons, hlead]; rfl, fun q hq => ?_, by simp⟩
    exact Option.some.inj hq ▸ hsound

/-- **Every byte is read**, whatever was begun in front of it. -/
theorem exists_reads (hpending : ∀ p ∈ pending, p.Sound) (b : UInt8) :
    ∃ read next, Reads pending b read next := by
  cases pending with
  | none => exact exists_reads_none b
  | some p =>
    have hp := hpending p rfl
    by_cases hin : p.low ≤ b && b ≤ p.high
    · have hlow : p.low ≤ b := by simpa using (Bool.and_eq_true_iff.mp hin).1
      cases hmissing : p.missing with
      | zero =>
        refine ⟨[some (Char.ofNat (p.value * 64 + (b.toNat - 0x80)))], none, fun bytes => ?_, nofun,
          fun c hc hascii => ?_⟩
        · rw [scan_pending_cons, if_pos hin, hmissing]
          rfl
        · have hread := Option.some.inj (List.mem_singleton.mp hc)
          exact absurd hread.symm (hp.ne hmissing hlow hascii)
      | succ missing =>
        refine ⟨[], some ⟨missing, p.value * 64 + (b.toNat - 0x80), 0x80, 0xBF⟩, fun bytes => ?_,
          fun q hq => ?_, by simp⟩
        · rw [scan_pending_cons, if_pos hin, hmissing]
          rfl
        · exact Option.some.inj hq ▸ hp.next hmissing hlow
    · -- the character begun is a fault, and the byte begins another one
      obtain ⟨read, next, hreads⟩ := exists_reads_none b
      refine ⟨none :: read, next, fun bytes => ?_, hreads.sound, fun c hc => ?_⟩
      · rw [scan_pending_cons, if_neg hin, hreads.scan_cons]
        rfl
      · exact hreads.ascii c ((List.mem_cons.mp hc).resolve_left (Option.some_ne_none c))

/-- An ASCII character read was there as its byte. -/
theorem mem_of_mem_scan (hb : 0 < b.toNat ∧ b.toNat < 0x80) (hpending : ∀ p ∈ pending, p.Sound)
    (h : some (Char.ofNat b.toNat) ∈ scan pending bytes) : b ∈ bytes := by
  have hchar : (Char.ofNat b.toNat).toNat = b.toNat := by
    rw [Char.toNat_ofNat, if_pos (.inl (by omega))]
  induction bytes generalizing pending with
  | nil => cases pending <;> simp [scan] at h
  | cons x bytes ih =>
    obtain ⟨read, next, hreads⟩ := exists_reads hpending x
    rw [hreads.scan_cons] at h
    rcases List.mem_append.mp h with h | h
    · have hx := hreads.ascii _ h (hchar.symm ▸ hb)
      exact List.mem_cons.mpr (.inl (UInt8.toNat_inj.mp (hchar.symm.trans hx)))
    · exact List.mem_cons_of_mem _ (ih hreads.sound h)

/-- **Decoding brings no ASCII character that was not there.** -/
theorem mem_of_mem_decodeLossy (hb : 0 < b.toNat ∧ b.toNat < 0x80)
    (h : Char.ofNat b.toNat ∈ decodeLossy bytes) : b ∈ bytes := by
  obtain ⟨c, hc, heq⟩ := List.mem_map.mp h
  cases c with
  | some c =>
    obtain rfl : c = Char.ofNat b.toNat := heq
    exact mem_of_mem_scan hb (by simp) hc
  | none =>
    have hnat := congrArg Char.toNat heq
    rw [Char.toNat_ofNat, if_pos (.inl (by omega))] at hnat
    have hfault : ((none : Option Char).getD '\uFFFD').toNat = 0xFFFD := rfl
    omega

/-- Behind an ASCII byte reading starts anew. -/
theorem scan_append_cons (hb : b.toNat < 0x80) (hpending : ∀ p ∈ pending, p.Sound)
    (bytes rest : Bytes) : scan pending (bytes ++ b :: rest)
      = scan pending bytes ++ some (Char.ofNat b.toNat) :: scan none rest := by
  induction bytes generalizing pending with
  | nil =>
    have hfresh : scan none (b :: rest) = some (Char.ofNat b.toNat) :: scan none rest := by
      rw [scan_cons, lead_of_ascii hb]
    cases pending with
    | none => exact hfresh
    | some p =>
      have hlow : ¬ (p.low ≤ b && b ≤ p.high) = true := by
        have := (hpending p rfl).low
        simp only [Bool.and_eq_true, decide_eq_true_eq, UInt8.le_iff_toNat_le]
        omega
      rw [List.nil_append, scan_pending_cons, if_neg hlow, hfresh]
      rfl
  | cons x bytes ih =>
    obtain ⟨read, next, hreads⟩ := exists_reads hpending x
    rw [List.cons_append, hreads.scan_cons, hreads.scan_cons, ih hreads.sound, List.append_assoc]

/-- **Decoding goes on anew behind an ASCII byte.** -/
theorem decodeLossy_append_cons (hb : b.toNat < 0x80) (bytes rest : Bytes) :
    decodeLossy (bytes ++ b :: rest)
      = decodeLossy bytes ++ Char.ofNat b.toNat :: decodeLossy rest := by
  rw [decodeLossy, scan_append_cons hb (by simp), List.map_append]
  rfl

end KernelIsa.Utf8
