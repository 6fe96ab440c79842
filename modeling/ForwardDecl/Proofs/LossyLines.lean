import ForwardDecl.Text.Lossy

/-! # Bytes and the characters that they show

The characters of a line are read off its bytes.  Where a byte is below 128, it is a character of
its own (`lossyChars_ascii`).  Every other byte belongs to a character that is not below 128, or to
none, and so does each byte up to the next character (`lossyChars_wide`).  A search for one of the
characters below 128 can therefore go from byte to byte, without regard to where characters begin.
-/
namespace ForwardDecl

/-- The bytes from a position on. -/
def bytesFrom (bytes : ByteArray) (i : Nat) : List UInt8 := bytes.data.toList.drop i

section
variable {bytes : ByteArray} {i : Nat} {b : UInt8} {c : Char} {xs : List UInt8}

theorem length_bytesFrom (bytes : ByteArray) (i : Nat) :
    (bytesFrom bytes i).length = bytes.size - i := by
  rw [bytesFrom, List.length_drop]
  rfl

theorem lt_size_of_bytesFrom (h : bytesFrom bytes i = b :: xs) : i < bytes.size := by
  have hlength := length_bytesFrom bytes i
  rw [h, List.length_cons] at hlength
  omega

theorem size_le_of_bytesFrom (h : bytesFrom bytes i = []) : bytes.size ≤ i := by
  have hlength := length_bytesFrom bytes i
  rw [h, List.length_nil] at hlength
  omega

theorem bytesFrom_add (bytes : ByteArray) (i n : Nat) :
    bytesFrom bytes (i + n) = (bytesFrom bytes i).drop n := by
  rw [bytesFrom, bytesFrom, List.drop_drop]

theorem bytesFrom_extract (bytes : ByteArray) (i : Nat) :
    (bytes.extract i bytes.size).data.toList = bytesFrom bytes i := by
  rw [ByteArray.data_extract, Array.toList_extract, bytesFrom, List.extract_eq_take_drop]
  exact List.take_of_length_le (Nat.le_of_eq (length_bytesFrom bytes i))

/-- A character can be read where its code stands. -/
theorem utf8DecodeChar?_eq_some_iff :
    bytes.utf8DecodeChar? i = some c ↔ String.utf8EncodeChar c <+: bytesFrom bytes i := by
  rw [ByteArray.utf8DecodeChar?_eq_utf8DecodeChar?_extract, ← bytesFrom_extract]
  generalize bytes.extract i bytes.size = rest
  constructor
  · intro h
    obtain ⟨l, rfl⟩ := ByteArray.exists_of_utf8DecodeChar?_eq_some h
    exact ⟨l.data.toList, by simp⟩
  · rintro ⟨l, hl⟩
    have hrest : rest = (String.utf8EncodeChar c).toByteArray ++ l.toByteArray := by
      apply ByteArray.ext
      apply Array.toList_inj.mp
      simp [← hl]
    rw [hrest]
    exact ByteArray.utf8DecodeChar?_utf8EncodeChar_append

/-! ## Codes -/

theorem utf8EncodeChar_ofUInt8 (h : b < 128) : String.utf8EncodeChar (Char.ofUInt8 b) = [b] := by
  have hlt : b.toNat < 128 := UInt8.lt_iff_toNat_lt.mp h
  have hval : (Char.ofUInt8 b).val.toNat = b.toNat := UInt8.toNat_toUInt32 b
  rw [String.utf8EncodeChar]
  simp only [hval]
  rw [if_pos (by omega), UInt8.ofNat_toNat]

/-- The code of a character that is not below 128 has no byte below 128. -/
theorem utf8EncodeChar_wide (h : 128 ≤ c.toNat) : ∀ b ∈ String.utf8EncodeChar c, 128 ≤ b := by
  have hlow : ¬c.val.toNat ≤ 127 := Nat.not_le.mpr h
  have hbyte : ∀ n, 128 ≤ n → n < 256 → 128 ≤ UInt8.ofNat n := by
    intro n hn hmax
    rw [UInt8.le_iff_toNat_le, UInt8.toNat_ofNat_of_lt' hmax]
    exact hn
  simp only [String.utf8EncodeChar, if_neg hlow]
  split
  · simp only [List.forall_mem_cons]
    exact ⟨hbyte _ (by omega) (by omega), hbyte _ (by omega) (by omega), nofun⟩
  · split
    · simp only [List.forall_mem_cons]
      exact ⟨hbyte _ (by omega) (by omega), hbyte _ (by omega) (by omega),
        hbyte _ (by omega) (by omega), nofun⟩
    · simp only [List.forall_mem_cons]
      exact ⟨hbyte _ (by omega) (by omega), hbyte _ (by omega) (by omega),
        hbyte _ (by omega) (by omega), hbyte _ (by omega) (by omega), nofun⟩

/-- A character below 128 has no other byte in its code. -/
theorem toNat_of_utf8EncodeChar (hb : 128 ≤ b) (h : b ∈ String.utf8EncodeChar c) :
    128 ≤ c.toNat := by
  apply Nat.le_of_not_lt
  intro hlow
  have hsmall : c.val.toNat < 128 := hlow
  rw [String.utf8EncodeChar] at h
  simp only [if_pos (Nat.le_of_lt_succ hsmall), List.mem_singleton] at h
  subst h
  have hsize : c.val.toNat < UInt8.size := Nat.lt_of_lt_of_le hsmall (by decide)
  rw [UInt8.le_iff_toNat_le, UInt8.toNat_ofNat_of_lt' hsize] at hb
  exact absurd hb (Nat.not_le.mpr hsmall)

/-! ## One character -/

theorem lossyChars_of_le (h : bytes.size ≤ i) : lossyChars bytes i = [] := by
  rw [lossyChars, dif_neg (Nat.not_lt.mpr h)]

theorem lossyChars_eq_nil_iff : lossyChars bytes i = [] ↔ bytes.size ≤ i := by
  refine ⟨fun h => Nat.le_of_not_lt fun hlt => ?_, lossyChars_of_le⟩
  rw [lossyChars, dif_pos hlt] at h
  split at h <;> cases h

theorem lossyChars_of_code (h : String.utf8EncodeChar c <+: bytesFrom bytes i) :
    lossyChars bytes i = c :: lossyChars bytes (i + c.utf8Size) := by
  have hdecode := utf8DecodeChar?_eq_some_iff.mpr h
  have hlt : i < bytes.size := ByteArray.lt_size_of_isSome_utf8DecodeChar? (by rw [hdecode]; rfl)
  rw [lossyChars, dif_pos hlt, hdecode]

/-- Only the replacement character is shown where its code does not stand. -/
theorem code_of_lossyChars {cs : List Char} (h : lossyChars bytes i = c :: cs)
    (hc : c ≠ replacement) : String.utf8EncodeChar c <+: bytesFrom bytes i := by
  rw [lossyChars] at h
  split at h
  · split at h
    · rename_i c' hdecode
      obtain ⟨rfl, -⟩ := List.cons.inj h
      exact utf8DecodeChar?_eq_some_iff.mp hdecode
    · exact absurd (List.cons.inj h).1.symm hc
  · cases h

/-- **A byte below 128 is a character.** -/
theorem lossyChars_ascii (h : bytesFrom bytes i = b :: xs) (hb : b < 128) :
    lossyChars bytes i = Char.ofUInt8 b :: lossyChars bytes (i + 1) := by
  have hcode := utf8EncodeChar_ofUInt8 hb
  have hsize : (Char.ofUInt8 b).utf8Size = 1 := by
    rw [← String.length_utf8EncodeChar, hcode]
    rfl
  rw [lossyChars_of_code (c := Char.ofUInt8 b), hsize]
  rw [hcode, h]
  exact ⟨xs, rfl⟩

/-- **Any other byte begins a stretch of such bytes,** for which there is a character that is not
below 128. -/
theorem lossyChars_wide (h : bytesFrom bytes i = b :: xs) (hb : 128 ≤ b) :
    ∃ c ys, 128 ≤ c.toNat ∧ ys ≠ [] ∧ (∀ y ∈ ys, 128 ≤ y) ∧ ys <+: bytesFrom bytes i ∧
      lossyChars bytes i = c :: lossyChars bytes (i + ys.length) := by
  have hlt := lt_size_of_bytesFrom h
  cases hdecode : bytes.utf8DecodeChar? i with
  | none =>
    refine ⟨replacement, [b], by decide, List.cons_ne_nil _ _, ?_, ?_, ?_⟩
    · exact List.forall_mem_singleton.mpr hb
    · rw [h]
      exact ⟨xs, rfl⟩
    · rw [lossyChars, dif_pos hlt, hdecode]
      rfl
  | some c =>
    have hcode := utf8DecodeChar?_eq_some_iff.mp hdecode
    have hmem : b ∈ String.utf8EncodeChar c := by
      obtain ⟨rest, hrest⟩ := hcode
      rw [h] at hrest
      cases hc : String.utf8EncodeChar c with
      | nil => exact absurd hc (by simp)
      | cons d ds =>
        rw [hc] at hrest
        rw [(List.cons.inj hrest).1]
        exact List.mem_cons_self
    have hwide : 128 ≤ c.toNat := toNat_of_utf8EncodeChar hb hmem
    refine ⟨c, String.utf8EncodeChar c, hwide, by simp, utf8EncodeChar_wide hwide, hcode, ?_⟩
    rw [lossyChars_of_code hcode, String.length_utf8EncodeChar]

theorem ofUInt8_eq_iff {a : Char} (ha : a.toNat < 128) : Char.ofUInt8 b = a ↔ b = a.toUInt8 := by
  have hval : (Char.ofUInt8 b).toNat = b.toNat := UInt8.toNat_toUInt32 b
  have hbyte : a.toUInt8.toNat = a.toNat := by
    show a.val.toUInt8.toNat = a.val.toNat
    rw [UInt32.toNat_toUInt8]
    exact Nat.mod_eq_of_lt (Nat.lt_of_lt_of_le ha (by decide))
  rw [← Char.toNat_inj, ← UInt8.toNat_inj, hval, hbyte]

/-- **At a position there is a character below 128 where there is such a byte.** -/
theorem lossyChars_head (h : bytesFrom bytes i = b :: xs) :
    ∃ c cs, lossyChars bytes i = c :: cs ∧
      (∀ a : Char, a.toNat < 128 → (c = a ↔ b = a.toUInt8)) ∧
      (b < 128 → cs = lossyChars bytes (i + 1)) := by
  by_cases hb : b < 128
  · exact ⟨_, _, lossyChars_ascii h hb, fun a ha => ofUInt8_eq_iff ha, fun _ => rfl⟩
  · obtain ⟨c, ys, hc, -, -, -, hchars⟩ := lossyChars_wide h (UInt8.not_lt.mp hb)
    refine ⟨c, _, hchars, fun a ha => iff_of_false ?_ ?_, fun hlt => absurd hlt hb⟩
    · rintro rfl
      exact absurd hc (Nat.not_le.mpr ha)
    · intro hba
      obtain rfl := (ofUInt8_eq_iff ha).mpr hba
      exact hb (UInt8.lt_iff_toNat_lt.mpr ha)

/-- The characters of a text are shown by its bytes. -/
theorem lossyChars_of_codes {cs : List Char}
    (h : bytesFrom bytes i = cs.flatMap String.utf8EncodeChar) : lossyChars bytes i = cs := by
  induction cs generalizing i with
  | nil => exact lossyChars_of_le (size_le_of_bytesFrom h)
  | cons c cs ih =>
    rw [List.flatMap_cons] at h
    have hcode : String.utf8EncodeChar c <+: bytesFrom bytes i := ⟨_, h.symm⟩
    rw [lossyChars_of_code hcode, ih]
    rw [← String.length_utf8EncodeChar, bytesFrom_add, h, List.drop_left]

theorem lossyChars_utf8Encode (cs : List Char) : lossyChars cs.utf8Encode 0 = cs := by
  apply lossyChars_of_codes
  simp [bytesFrom, List.utf8Encode]

end
end ForwardDecl
