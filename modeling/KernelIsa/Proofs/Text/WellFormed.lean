import KernelIsa.Proofs.Text.Utf8

/-!
# Proofs/Text/WellFormed — bytes are well-formed where they are those of a text

A character beyond ASCII is a lead byte and continuation bytes of six bits each (`tail`).  What a
lead byte begins takes just the characters that are written with this lead byte (`exists_begins`,
`leadOf_of_takes`), and reading on from there takes their continuation bytes and no others
(`scan_tail`, `exists_tail_of_scan`).  So decoding without a fault gives the text whose bytes were
read (`decode?_eq_some_iff`).
-/

namespace KernelIsa

namespace Utf8

variable {b : UInt8} {bytes rest : Bytes} {p : Pending} {t : Text} {c : Char} {v : Nat}

/-! ## Continuation bytes -/

/-- The last `k` bytes of the character with number `v`. -/
def tail (v : Nat) : Nat → Bytes
  | 0 => []
  | k + 1 => UInt8.ofNat (v / 64 ^ k % 64 + 0x80) :: tail v k

/-- The character with number `v` may be the one begun. -/
structure Pending.Takes (p : Pending) (v : Nat) : Prop where
  begun : v / 64 ^ (p.missing + 1) = p.value
  low : p.low.toNat ≤ v / 64 ^ p.missing % 64 + 0x80
  high : v / 64 ^ p.missing % 64 + 0x80 ≤ p.high.toNat

theorem toNat_continuation (v k : Nat) :
    (UInt8.ofNat (v / 64 ^ k % 64 + 0x80)).toNat = v / 64 ^ k % 64 + 0x80 := by
  have hbits : v / 64 ^ k % 64 < 64 := Nat.mod_lt _ (by omega)
  exact UInt8.toNat_ofNat_of_lt' (show _ < 256 by omega)

/-- Six more bits of a number. -/
theorem bits_succ (v k : Nat) : v / 64 ^ (k + 1) * 64 + v / 64 ^ k % 64 = v / 64 ^ k := by
  rw [Nat.pow_succ, ← Nat.div_div_eq_div_mul]
  exact Nat.div_add_mod' _ _

/-- The first byte of a character that may be the one begun. -/
theorem scan_cons_of_takes (h : p.Takes v) (bytes : Bytes) :
    scan (some p) (UInt8.ofNat (v / 64 ^ p.missing % 64 + 0x80) :: bytes) = match p.missing with
      | 0 => some (Char.ofNat (v / 64 ^ p.missing)) :: scan none bytes
      | missing + 1 => scan (some ⟨missing, v / 64 ^ p.missing, 0x80, 0xBF⟩) bytes := by
  have hlow := h.low
  have hhigh := h.high
  rw [← toNat_continuation, ← UInt8.le_iff_toNat_le] at hlow hhigh
  have hvalue : p.value * 64 + (v / 64 ^ p.missing % 64 + 0x80 - 0x80) = v / 64 ^ p.missing := by
    rw [← h.begun, Nat.add_sub_cancel, bits_succ]
  rewrite [scan_pending_cons, if_pos (by simp only [hlow, hhigh, decide_true, Bool.and_self]),
    toNat_continuation, hvalue]
  rfl

/-- Behind its first byte a character may go on with any continuation byte. -/
theorem takes_next (v missing : Nat) :
    (⟨missing, v / 64 ^ (missing + 1), 0x80, 0xBF⟩ : Pending).Takes v where
  begun := rfl
  low := Nat.le_add_left _ _
  high := Nat.add_le_add_right (Nat.le_of_lt_succ (Nat.mod_lt _ (by omega))) _

/-- **The bytes of a character that may be the one begun are read as it.** -/
theorem scan_tail (h : p.Takes v) (rest : Bytes) :
    scan (some p) (tail v (p.missing + 1) ++ rest) = some (Char.ofNat v) :: scan none rest := by
  obtain ⟨missing, value, low, high⟩ := p
  rw [tail, List.cons_append, scan_cons_of_takes h]
  induction missing generalizing value low high with
  | zero => rw [Nat.pow_zero, Nat.div_one]; rfl
  | succ missing ih =>
    have hnext := takes_next v missing
    refine Eq.trans ?_ (ih _ _ _ hnext)
    exact scan_cons_of_takes hnext _

/-- A byte in the range of the next one tells six bits of a character that may be the one begun. -/
theorem takes_of_begun (hlow : 0x80 ≤ p.low.toNat) (hhigh : p.high.toNat ≤ 0xBF)
    (hb : p.low ≤ b && b ≤ p.high)
    (h : v / 64 ^ p.missing = p.value * 64 + (b.toNat - 0x80)) :
    p.Takes v ∧ UInt8.ofNat (v / 64 ^ p.missing % 64 + 0x80) = b := by
  simp only [Bool.and_eq_true, decide_eq_true_eq, UInt8.le_iff_toNat_le] at hb
  have hbits : v / 64 ^ p.missing % 64 + 0x80 = b.toNat := by omega
  refine ⟨⟨?_, by omega, by omega⟩, ?_⟩
  · rw [Nat.pow_succ, ← Nat.div_div_eq_div_mul]
    omega
  · rw [hbits, UInt8.ofNat_toNat]

/-- What is read without a fault behind a lead byte starts with a byte in the range of the next
one. -/
theorem exists_cons_of_scan (h : none ∉ scan (some p) bytes) :
    ∃ b rest, bytes = b :: rest ∧ (p.low ≤ b && b ≤ p.high) ∧
      ∀ missing, p.missing = missing + 1 →
        none ∉ scan (some ⟨missing, p.value * 64 + (b.toNat - 0x80), 0x80, 0xBF⟩) rest := by
  cases bytes with
  | nil => exact absurd (List.mem_singleton.mpr rfl) h
  | cons b rest =>
    rw [scan_pending_cons] at h
    split at h
    · next hb =>
      refine ⟨b, rest, rfl, hb, fun missing hmissing => ?_⟩
      rwa [hmissing] at h
    · exact absurd List.mem_cons_self h

/-- **What is read without a fault behind a lead byte is a character that may be the one begun.** -/
theorem exists_tail_of_scan (hlow : 0x80 ≤ p.low.toNat) (hhigh : p.high.toNat ≤ 0xBF)
    (h : none ∉ scan (some p) bytes) :
    ∃ v rest, p.Takes v ∧ bytes = tail v (p.missing + 1) ++ rest := by
  obtain ⟨missing, value, low, high⟩ := p
  induction missing generalizing bytes value low high with
  | zero =>
    obtain ⟨b, rest, rfl, hb, -⟩ := exists_cons_of_scan h
    obtain ⟨htakes, hbyte⟩ := takes_of_begun hlow hhigh hb (Nat.div_one _)
    exact ⟨_, rest, htakes, congrArg (· :: rest) hbyte.symm⟩
  | succ missing ih =>
    obtain ⟨b, bytes, rfl, hb, hbytes⟩ := exists_cons_of_scan h
    obtain ⟨v, rest, hnext, rfl⟩ :=
      ih _ _ _ (Nat.le_refl _) (Nat.le_refl _) (hbytes missing rfl)
    obtain ⟨htakes, rfl⟩ := takes_of_begun hlow hhigh hb hnext.begun
    exact ⟨v, rest, htakes, rfl⟩

/-! ## Lead bytes -/

/-- What the byte of a number begins: how many bytes follow the next one, which bits are told, and
which bytes may be next. -/
inductive Begins (n : Nat) : Pending → Prop
  | two (h : 0xC2 ≤ n) (h' : n < 0xE0) : Begins n ⟨0, n - 0xC0, 0x80, 0xBF⟩
  /-- The next byte keeps off the characters that need two bytes only. -/
  | threeLow (h : n = 0xE0) : Begins n ⟨1, 0, 0xA0, 0xBF⟩
  /-- The next byte keeps off the surrogates. -/
  | threeSurrogate (h : n = 0xED) : Begins n ⟨1, 0xD, 0x80, 0x9F⟩
  | three (h : 0xE0 < n) (h' : n < 0xF0) (hsurrogate : n ≠ 0xED) :
      Begins n ⟨1, n - 0xE0, 0x80, 0xBF⟩
  /-- The next byte keeps off the characters that need three bytes only. -/
  | fourLow (h : n = 0xF0) : Begins n ⟨2, 0, 0x90, 0xBF⟩
  | four (h : 0xF0 < n) (h' : n < 0xF4) : Begins n ⟨2, n - 0xF0, 0x80, 0xBF⟩
  /-- The next byte keeps off the numbers above all characters. -/
  | fourHigh (h : n = 0xF4) : Begins n ⟨2, 4, 0x80, 0x8F⟩

theorem lead_eq_inr_iff : lead b = some (.inr p) ↔ Begins b.toNat p := by
  rw [lead]
  generalize b.toNat = n
  constructor
  · intro h
    grind [Begins]
  · rintro (⟨h, h'⟩ | ⟨rfl⟩ | ⟨rfl⟩ | ⟨h, h', hsurrogate⟩ | ⟨rfl⟩ | ⟨h, h'⟩ | ⟨rfl⟩) <;> grind

/-- The number of the lead byte of a character, and how many bytes follow the next one. -/
def leadOf (v : Nat) : Nat × Nat :=
  if v < 0x800 then (v / 64 + 0xC0, 0)
  else if v < 0x10000 then (v / 4096 + 0xE0, 1)
  else (v / 262144 + 0xF0, 2)

/-- **A character beyond ASCII is written with its lead byte.** -/
theorem utf8EncodeChar_eq {k : Nat} (hvalid : v.isValidChar) (h : 0x80 ≤ v)
    (hlead : leadOf v = (b.toNat, k)) :
    String.utf8EncodeChar (Char.ofNat v) = b :: tail v (k + 1) := by
  have hv : (Char.ofNat v).val.toNat = v := by
    have htoNat := Char.toNat_ofNat v
    rwa [if_pos hvalid] at htoNat
  have hlimit : v < 0x110000 := by
    rcases hvalid with h | h <;> omega
  have hbyte (n : Nat) (hn : b.toNat = n) : UInt8.ofNat n = b := by
    rw [← hn, UInt8.ofNat_toNat]
  rw [String.utf8EncodeChar]
  simp only [hv]
  rw [if_neg (by omega)]
  rw [leadOf] at hlead
  split at hlead
  · obtain ⟨hb, rfl⟩ := Prod.mk.inj hlead
    rw [if_pos (by omega), hbyte _ (by omega)]
    simp [tail]
  · rw [if_neg (by omega)]
    split at hlead
    · obtain ⟨hb, rfl⟩ := Prod.mk.inj hlead
      rw [if_pos (by omega), hbyte _ (by omega)]
      simp [tail]
    · obtain ⟨hb, rfl⟩ := Prod.mk.inj hlead
      rw [if_neg (by omega), hbyte _ (by omega)]
      simp [tail]

/-- A character that may be the one begun has a number, and its lead byte began it. -/
theorem leadOf_of_takes {n : Nat} (hbegins : Begins n p) (h : p.Takes v) :
    v.isValidChar ∧ 0x80 ≤ v ∧ leadOf v = (n, p.missing) := by
  obtain ⟨hbegun, hlow, hhigh⟩ := h
  rw [leadOf, Nat.isValidChar]
  -- the bits that are told and the range of the next ones bound the number on both sides
  cases hbegins <;> simp at hbegun hlow hhigh <;> split_ifs <;> simp <;> omega

/-- **Every character beyond ASCII may be the one begun by its lead byte.** -/
theorem exists_begins (hvalid : v.isValidChar) (h : 0x80 ≤ v) :
    ∃ p, Begins (leadOf v).1 p ∧ p.Takes v := by
  have hlimit : v < 0xD800 ∨ 0xDFFF < v ∧ v < 0x110000 := hvalid
  rw [leadOf]
  split_ifs with htwo hthree
  · exact ⟨_, .two (by omega) (by omega), by constructor <;> simp; omega⟩
  · by_cases hlow : v < 0x1000
    · exact ⟨_, .threeLow (by omega), by constructor <;> simp <;> omega⟩
    by_cases hsurrogate : v / 0x1000 = 0xD
    · exact ⟨_, .threeSurrogate (by omega), by constructor <;> simp <;> omega⟩
    · exact ⟨_, .three (by omega) (by omega) (by omega), by constructor <;> simp; omega⟩
  · by_cases hlow : v < 0x40000
    · exact ⟨_, .fourLow (by omega), by constructor <;> simp <;> omega⟩
    by_cases hhigh : 0x100000 ≤ v
    · exact ⟨_, .fourHigh (by omega), by constructor <;> simp <;> omega⟩
    · exact ⟨_, .four (by omega) (by omega), by constructor <;> simp; omega⟩

theorem Begins.lt {n : Nat} (h : Begins n p) : n < 256 := by
  cases h <;> omega

/-- The next byte is a continuation byte. -/
theorem Begins.range {n : Nat} (h : Begins n p) : 0x80 ≤ p.low.toNat ∧ p.high.toNat ≤ 0xBF := by
  cases h <;> simp

/-! ## Characters -/

theorem utf8EncodeChar_ascii (hb : b.toNat < 0x80) :
    String.utf8EncodeChar (Char.ofNat b.toNat) = [b] := by
  have hchar : (Char.ofNat b.toNat).toNat = b.toNat := by
    rw [Char.toNat_ofNat, if_pos (.inl (by omega))]
  have hwritten : String.utf8EncodeChar (Char.ofNat b.toNat)
      = [UInt8.ofNat (Char.ofNat b.toNat).toNat] :=
    if_pos (show (Char.ofNat b.toNat).toNat ≤ 0x7F by omega)
  rw [hwritten, hchar, UInt8.ofNat_toNat]

/-- **A written character is read.** -/
theorem scan_utf8EncodeChar (c : Char) (rest : Bytes) :
    scan none (String.utf8EncodeChar c ++ rest) = some c :: scan none rest := by
  by_cases hascii : c.toNat < 0x80
  · have hbyte : (UInt8.ofNat c.toNat).toNat = c.toNat :=
      UInt8.toNat_ofNat_of_lt' (show _ < 256 by omega)
    have hb : (UInt8.ofNat c.toNat).toNat < 0x80 := by rwa [hbyte]
    have hwritten := utf8EncodeChar_ascii hb
    rw [hbyte, Char.ofNat_toNat] at hwritten
    rw [hwritten, List.singleton_append, scan_cons, lead_of_ascii hb, hbyte, Char.ofNat_toNat]
  · obtain ⟨p, hbegins, htakes⟩ := exists_begins (v := c.toNat) c.valid (Nat.le_of_not_lt hascii)
    have hbyte : (UInt8.ofNat (leadOf c.toNat).1).toNat = (leadOf c.toNat).1 :=
      UInt8.toNat_ofNat_of_lt' hbegins.lt
    rw [← hbyte] at hbegins
    obtain ⟨hvalid, hle, hlead⟩ := leadOf_of_takes hbegins htakes
    have hwritten := utf8EncodeChar_eq hvalid hle hlead
    have hread := scan_tail htakes rest
    rw [Char.ofNat_toNat] at hwritten hread
    rw [hwritten, List.cons_append, scan_cons, lead_eq_inr_iff.mpr hbegins]
    exact hread

/-- **What is read without a fault begins with a written character.** -/
theorem exists_utf8EncodeChar (hne : bytes ≠ []) (h : none ∉ scan none bytes) :
    ∃ c rest, bytes = String.utf8EncodeChar c ++ rest := by
  obtain ⟨b, bytes, rfl⟩ := List.exists_cons_of_ne_nil hne
  rw [scan_cons] at h
  split at h
  · next c hlead =>
    obtain ⟨hb, rfl⟩ := of_lead_eq_inl hlead
    exact ⟨Char.ofNat b.toNat, bytes, by rw [utf8EncodeChar_ascii hb]; rfl⟩
  · next p hlead =>
    have hbegins := lead_eq_inr_iff.mp hlead
    obtain ⟨v, rest, htakes, rfl⟩ := exists_tail_of_scan hbegins.range.1 hbegins.range.2 h
    obtain ⟨hvalid, hle, hlead⟩ := leadOf_of_takes hbegins htakes
    exact ⟨Char.ofNat v, rest, by rw [utf8EncodeChar_eq hvalid hle hlead]; rfl⟩
  · exact absurd List.mem_cons_self h

/-! ## Texts -/

theorem encode_cons (c : Char) (t : Text) : encode (c :: t) = String.utf8EncodeChar c ++ encode t :=
  List.flatMap_cons

theorem scan_encode (t : Text) : scan none (encode t) = t.map some := by
  induction t with
  | nil => rfl
  | cons c t ih => rw [encode_cons, scan_utf8EncodeChar, List.map_cons, ih]

/-- **Bytes that are read without a fault are those of a text.** -/
theorem exists_encode (h : none ∉ scan none bytes) : ∃ t, encode t = bytes := by
  induction hlength : bytes.length using Nat.strongRecOn generalizing bytes with
  | ind n ih =>
    by_cases hne : bytes = []
    · exact ⟨[], hne.symm⟩
    · obtain ⟨c, rest, rfl⟩ := exists_utf8EncodeChar hne h
      rw [scan_utf8EncodeChar] at h
      have hshorter : rest.length < n := by
        have := String.length_utf8EncodeChar c
        have := Char.utf8Size_pos c
        rw [← hlength, List.length_append]
        omega
      obtain ⟨t, rfl⟩ := ih _ hshorter (List.not_mem_of_not_mem_cons h) rfl
      exact ⟨c :: t, encode_cons c t⟩

/-- Bytes are decoded where none of their characters is a fault. -/
theorem mapM_id_eq_some_iff {cs : List (Option Char)} : cs.mapM id = some t ↔ cs = t.map some := by
  induction cs generalizing t with
  | nil => simp
  | cons c cs ih =>
    cases t with
    | nil => simp [List.mapM_cons, Option.bind_eq_some_iff]
    | cons c' t => simp [List.mapM_cons, Option.bind_eq_some_iff, ← ih]

/-- **Decoding gives the text whose bytes are read**, and no other one. -/
theorem decode?_eq_some_iff : decode? bytes = some t ↔ encode t = bytes := by
  rw [decode?, mapM_id_eq_some_iff]
  constructor
  · intro h
    obtain ⟨t', rfl⟩ : ∃ t', encode t' = bytes := exists_encode (h ▸ by simp)
    rw [scan_encode] at h
    rw [List.map_injective_iff.mpr (Option.some_injective _) h]
  · rintro rfl
    exact scan_encode t

end Utf8

end KernelIsa
