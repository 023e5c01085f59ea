import Mathlib.Tactic.SplitIfs
import EventCodegen.Text.Utf8

/-! Texts as bytes and back. The reader takes a character's bytes one at a time: the first says how
many are owed and bounds the second, the last completes the character. So the bytes of a character
bring the reader exactly one character further (`decodeFrom_encodeChar`), and every text is read
back from its bytes (`decode_encode`). The other way round, between two characters the reader only
goes on if the bytes of a character come next (`exists_char`), so bytes are read exactly if they are
those of a text (`decode_eq_ok_iff`). -/
namespace EventCodegen.Text

variable {position : Nat} {read : List Char} {rest : List UInt8}

/-! ## One byte -/

theorem toNat_byte {b : Nat} (h : b < 256) : (UInt8.ofNat b).toNat = b :=
  UInt8.toNat_ofNat_of_lt' h

/-- A byte below 80 is a character. -/
theorem decodeFrom_ascii {b : Nat} (h : b < 0x80) :
    decodeFrom position read none (.ofNat b :: rest) =
      decodeFrom (position + 1) (Char.ofNat b :: read) none rest := by
  rw [decodeFrom, toNat_byte (by omega), if_pos h]

/-- A first byte that announces more. -/
theorem decodeFrom_first {b : Nat} {p : Pending} (hlow : 0x80 ≤ b) (hhigh : b < 256)
    (hp : Pending.ofFirst b = some p) :
    decodeFrom position read none (.ofNat b :: rest) =
      decodeFrom (position + 1) read (some p) rest := by
  rw [decodeFrom, toNat_byte hhigh, if_neg (by omega), hp]

/-- A byte of a character that is not its last. -/
theorem decodeFrom_inner {p : Pending} {b : Nat} (hlow : p.low ≤ b) (hhigh : b ≤ p.high)
    (hb : b < 256) (howed : 1 < p.owed) :
    decodeFrom position read (some p) (.ofNat b :: rest) =
      decodeFrom (position + 1) read
        (some ⟨p.first, p.got + 1, p.owed - 1, 0x80, 0xBF, p.value * 64 + (b - 0x80)⟩) rest := by
  rw [decodeFrom, toNat_byte hb, if_pos ⟨hlow, hhigh⟩, if_neg (by omega)]

/-- The last byte of a character. -/
theorem decodeFrom_last (n : Nat) {p : Pending} {b : Nat} (hlow : p.low ≤ b) (hhigh : b ≤ p.high)
    (hb : b < 256) (howed : p.owed = 1) (hn : p.value * 64 + (b - 0x80) = n) :
    decodeFrom position read (some p) (.ofNat b :: rest) =
      decodeFrom (position + 1) (Char.ofNat n :: read) none rest := by
  rw [decodeFrom, toNat_byte hb, if_pos ⟨hlow, hhigh⟩, if_pos (by omega), hn]

/-! ## One character -/

/-- No character is a surrogate. -/
theorem toNat_valid (c : Char) : c.toNat < 0xD800 ∨ 0xE000 ≤ c.toNat ∧ c.toNat < 0x110000 := by
  have h := c.valid
  simp only [UInt32.isValidChar, Nat.isValidChar] at h
  change c.toNat < 0xD800 ∨ 0xDFFF < c.toNat ∧ c.toNat < 0x110000 at h
  omega

/-- What the first byte of two announces. -/
theorem ofFirst_two {k : Nat} (hlow : 2 ≤ k) (hhigh : k < 32) :
    Pending.ofFirst (0xC0 + k) = some ⟨0xC0 + k, 1, 1, 0x80, 0xBF, k⟩ := by
  rw [Pending.ofFirst, if_neg (by omega), if_pos (by omega), Nat.add_sub_cancel_left]

/-- What the first byte of three announces. -/
theorem ofFirst_three {k : Nat} (h : k < 16) :
    Pending.ofFirst (0xE0 + k) = some ⟨0xE0 + k, 1, 2, if 0xE0 + k = 0xE0 then 0xA0 else 0x80,
      if 0xE0 + k = 0xED then 0x9F else 0xBF, k⟩ := by
  rw [Pending.ofFirst, if_neg (by omega), if_neg (by omega), if_pos (by omega),
    Nat.add_sub_cancel_left]

/-- What the first byte of four announces. -/
theorem ofFirst_four {k : Nat} (h : k < 5) :
    Pending.ofFirst (0xF0 + k) = some ⟨0xF0 + k, 1, 3, if 0xF0 + k = 0xF0 then 0x90 else 0x80,
      if 0xF0 + k = 0xF4 then 0x8F else 0xBF, k⟩ := by
  rw [Pending.ofFirst, if_neg (by omega), if_neg (by omega), if_neg (by omega),
    if_pos (by omega), Nat.add_sub_cancel_left]

/-- The bytes of a character bring the reader one character further. -/
theorem decodeFrom_encodeChar (c : Char) :
    decodeFrom position read none (encodeChar c ++ rest) =
      decodeFrom (position + (encodeChar c).length) (c :: read) none rest := by
  have hvalid := toNat_valid c
  have hc : Char.ofNat c.toNat = c := Char.ofNat_toNat c
  simp only [encodeChar]
  generalize c.toNat = n at hvalid hc
  subst hc
  -- one case for each number of bytes; the values that a first byte rules out for the second are
  -- those of longer forms, of surrogates and of numbers that are too large
  split_ifs with h1 h2 h3 <;> simp only [List.cons_append, List.nil_append]
  · exact decodeFrom_ascii h1
  · rw [decodeFrom_first (by omega) (by omega) (ofFirst_two (by omega) (by omega)),
      decodeFrom_last n (by simp) (by simp; omega) (by omega) rfl (by simp; omega)]
    rfl
  · rw [decodeFrom_first (by omega) (by omega) (ofFirst_three (by omega)),
      decodeFrom_inner (by dsimp only; split <;> omega) (by dsimp only; split <;> omega) (by omega)
        (by simp),
      decodeFrom_last n (by simp) (by simp; omega) (by omega) rfl (by simp; omega)]
    rfl
  · rw [decodeFrom_first (by omega) (by omega) (ofFirst_four (by omega)),
      decodeFrom_inner (by dsimp only; split <;> omega) (by dsimp only; split <;> omega) (by omega)
        (by simp),
      decodeFrom_inner (by simp) (by simp; omega) (by omega) (by simp),
      decodeFrom_last n (by simp) (by simp; omega) (by omega) rfl (by simp; omega)]
    rfl

/-- A text is read up to its end, whatever was read before. -/
theorem decodeFrom_encode (s : List Char) :
    ∀ (position : Nat) (read : List Char),
      decodeFrom position read none (encode s) = .ok (read.reverse ++ s) := by
  induction s with
  | nil =>
    intro position read
    rw [List.append_nil]
    rfl
  | cons c rest ih =>
    intro position read
    rw [encode, List.flatMap_cons, decodeFrom_encodeChar]
    change decodeFrom _ (c :: read) none (encode rest) = _
    rw [ih, List.reverse_cons, List.append_assoc, List.singleton_append]

/-- Every text is read back from its bytes. -/
theorem decode_encode (s : List Char) : decode (encode s) = .ok s :=
  decodeFrom_encode s 0 []

/-! ## Bytes that are a text -/

variable {s : List Char} {bytes : List UInt8}

theorem toNat_ofNat_of_valid {n : Nat} (h : n < 0xD800 ∨ 0xE000 ≤ n ∧ n < 0x110000) :
    (Char.ofNat n).toNat = n := by
  have hvalid : n.isValidChar := by
    unfold Nat.isValidChar
    omega
  rw [Char.ofNat, dif_pos hvalid]
  rfl

theorem encodeChar_one {n : Nat} (h : n < 0x80) : encodeChar (Char.ofNat n) = [.ofNat n] := by
  simp only [encodeChar, toNat_ofNat_of_valid (n := n) (by omega), if_pos h]

theorem encodeChar_two {k i : Nat} (hlow : 2 ≤ k) (hhigh : k < 32) (hi : i < 64) :
    encodeChar (Char.ofNat (k * 64 + i)) = [.ofNat (0xC0 + k), .ofNat (0x80 + i)] := by
  have hk : (k * 64 + i) / 64 = k := by omega
  have hi' : (k * 64 + i) % 64 = i := by omega
  simp only [encodeChar, toNat_ofNat_of_valid (n := k * 64 + i) (by omega), hk, hi']
  rw [if_neg (by omega), if_pos (by omega)]

theorem encodeChar_three {k i j : Nat} (hk : k < 16) (hi : i < 64) (hj : j < 64)
    (hlong : k = 0 → 32 ≤ i) (hvalid : k = 13 → i < 32) :
    encodeChar (Char.ofNat ((k * 64 + i) * 64 + j)) =
      [.ofNat (0xE0 + k), .ofNat (0x80 + i), .ofNat (0x80 + j)] := by
  have hk' : ((k * 64 + i) * 64 + j) / 4096 = k := by omega
  have hi' : ((k * 64 + i) * 64 + j) / 64 % 64 = i := by omega
  have hj' : ((k * 64 + i) * 64 + j) % 64 = j := by omega
  simp only [encodeChar, toNat_ofNat_of_valid (n := (k * 64 + i) * 64 + j) (by omega), hk', hi',
    hj']
  rw [if_neg (by omega), if_neg (by omega), if_pos (by omega)]

theorem encodeChar_four {k h i j : Nat} (hk : k < 5) (hh : h < 64) (hi : i < 64) (hj : j < 64)
    (hlong : k = 0 → 16 ≤ h) (hvalid : k = 4 → h < 16) :
    encodeChar (Char.ofNat (((k * 64 + h) * 64 + i) * 64 + j)) =
      [.ofNat (0xF0 + k), .ofNat (0x80 + h), .ofNat (0x80 + i), .ofNat (0x80 + j)] := by
  have hk' : (((k * 64 + h) * 64 + i) * 64 + j) / 262144 = k := by omega
  have hh' : (((k * 64 + h) * 64 + i) * 64 + j) / 4096 % 64 = h := by omega
  have hi' : (((k * 64 + h) * 64 + i) * 64 + j) / 64 % 64 = i := by omega
  have hj' : (((k * 64 + h) * 64 + i) * 64 + j) % 64 = j := by omega
  simp only [encodeChar, toNat_ofNat_of_valid (n := ((k * 64 + h) * 64 + i) * 64 + j) (by omega),
    hk', hh', hi', hj']
  rw [if_neg (by omega), if_neg (by omega), if_neg (by omega)]

variable {first got owed low high value : Nat}

/-- Inside a character a byte between the bounds comes next. -/
theorem exists_byte (hlow : 0x80 ≤ low) (hhigh : high ≤ 0xBF)
    (h : decodeFrom position read (some ⟨first, got, owed, low, high, value⟩) bytes = .ok s) :
    ∃ i rest, bytes = .ofNat (0x80 + i) :: rest ∧ i < 64 ∧ low ≤ 0x80 + i ∧ 0x80 + i ≤ high ∧
      (if owed ≤ 1 then decodeFrom (position + 1) (Char.ofNat (value * 64 + i) :: read) none rest
        else decodeFrom (position + 1) read
          (some ⟨first, got + 1, owed - 1, 0x80, 0xBF, value * 64 + i⟩) rest) = .ok s := by
  cases bytes with
  | nil => cases h
  | cons b rest =>
    rw [decodeFrom] at h
    split at h
    · next hb =>
      dsimp only at hb
      obtain ⟨i, hi⟩ := Nat.exists_eq_add_of_le (Nat.le_trans hlow hb.1)
      rw [hi, Nat.add_sub_cancel_left] at h
      refine ⟨i, rest, ?_, by omega, by omega, by omega, h⟩
      rw [← hi, UInt8.ofNat_toNat]
    · cases h

/-- What a first byte announces that is none of a text in ASCII. -/
theorem ofFirst_eq_some {b : Nat} {p : Pending} (h : Pending.ofFirst b = some p) :
    (∃ k, b = 0xC0 + k ∧ 2 ≤ k ∧ k < 32 ∧ p = ⟨b, 1, 1, 0x80, 0xBF, k⟩) ∨
    (∃ k low high, b = 0xE0 + k ∧ k < 16 ∧ 0x80 ≤ low ∧ high ≤ 0xBF ∧ (k = 0 → low = 0xA0) ∧
      (k = 13 → high = 0x9F) ∧ p = ⟨b, 1, 2, low, high, k⟩) ∨
    (∃ k low high, b = 0xF0 + k ∧ k < 5 ∧ 0x80 ≤ low ∧ high ≤ 0xBF ∧ (k = 0 → low = 0x90) ∧
      (k = 4 → high = 0x8F) ∧ p = ⟨b, 1, 3, low, high, k⟩) := by
  unfold Pending.ofFirst at h
  split at h
  · cases h
  split at h
  · cases h
    exact Or.inl ⟨b - 0xC0, by omega, by omega, by omega, rfl⟩
  split at h
  · cases h
    refine Or.inr (Or.inl ⟨b - 0xE0, _, _, by omega, by omega, ?_, ?_, ?_, ?_, rfl⟩)
    · split <;> omega
    · split <;> omega
    · intro hk
      exact if_pos (by omega)
    · intro hk
      exact if_pos (by omega)
  split at h
  · cases h
    refine Or.inr (Or.inr ⟨b - 0xF0, _, _, by omega, by omega, ?_, ?_, ?_, ?_, rfl⟩)
    · split <;> omega
    · split <;> omega
    · intro hk
      exact if_pos (by omega)
    · intro hk
      exact if_pos (by omega)
  · cases h

/-- Between characters the bytes of a character come next, if anything does. -/
theorem exists_char {b : Nat} (hb : b < 256)
    (h : decodeFrom position read none (.ofNat b :: rest) = .ok s) :
    ∃ c position' more, .ofNat b :: rest = encodeChar c ++ more ∧
      decodeFrom position' (c :: read) none more = .ok s := by
  rw [decodeFrom, toNat_byte hb] at h
  split at h
  · next hascii =>
    refine ⟨Char.ofNat b, _, rest, ?_, h⟩
    rw [encodeChar_one hascii]
    rfl
  split at h
  · next p hp =>
    rcases ofFirst_eq_some hp with ⟨k, rfl, hk, hk', rfl⟩ |
      ⟨k, low, high, rfl, hk, hlow, hhigh, hlong, hvalid, rfl⟩ |
      ⟨k, low, high, rfl, hk, hlow, hhigh, hlong, hvalid, rfl⟩
    · obtain ⟨i, more, rfl, hi, _, _, h⟩ := exists_byte (by omega) (by omega) h
      refine ⟨_, _, more, ?_, h⟩
      rw [encodeChar_two hk hk' hi]
      rfl
    · obtain ⟨i, more, rfl, hi, hi₁, hi₂, h⟩ := exists_byte hlow hhigh h
      obtain ⟨j, more, rfl, hj, _, _, h⟩ := exists_byte (by omega) (by omega) h
      refine ⟨_, _, more, ?_, h⟩
      rw [encodeChar_three hk hi hj (by omega) (by omega)]
      rfl
    · obtain ⟨i, more, rfl, hi, hi₁, hi₂, h⟩ := exists_byte hlow hhigh h
      obtain ⟨j, more, rfl, hj, _, _, h⟩ := exists_byte (by omega) (by omega) h
      obtain ⟨l, more, rfl, hl, _, _, h⟩ := exists_byte (by omega) (by omega) h
      refine ⟨_, _, more, ?_, h⟩
      rw [encodeChar_four hk hi hj hl (by omega) (by omega)]
      rfl
  · cases h

theorem length_encodeChar_pos (c : Char) : 0 < (encodeChar c).length := by
  unfold encodeChar
  dsimp only
  split_ifs <;> simp

theorem encode_of_decodeFrom (h : decodeFrom position read none bytes = .ok s) :
    ∃ t, bytes = encode t ∧ s = read.reverse ++ t := by
  -- each round takes the bytes of one character
  induction hlength : bytes.length using Nat.strongRecOn generalizing position read bytes with
  | _ n ih =>
    cases bytes with
    | nil =>
      cases h
      exact ⟨[], rfl, (List.append_nil _).symm⟩
    | cons b rest =>
      rw [← UInt8.ofNat_toNat (x := b)] at h hlength ⊢
      obtain ⟨c, position', more, hsplit, hmore⟩ := exists_char b.toNat_lt h
      have hless : more.length < n := by
        have hpos := length_encodeChar_pos c
        rw [← hlength, hsplit, List.length_append]
        omega
      obtain ⟨t, rfl, rfl⟩ := ih _ hless hmore rfl
      refine ⟨c :: t, hsplit, ?_⟩
      rw [List.reverse_cons, List.append_assoc, List.singleton_append]

theorem encode_injective {s t : List Char} (h : encode s = encode t) : s = t := by
  have hs := decode_encode s
  rw [h, decode_encode] at hs
  exact (Except.ok.inj hs).symm

/-- Bytes are read as the text that they are the bytes of, and as none if there is no such text. -/
theorem decode_eq_ok_iff : decode bytes = .ok s ↔ bytes = encode s := by
  constructor
  · intro h
    obtain ⟨t, hbytes, hs⟩ := encode_of_decodeFrom h
    rw [hbytes, hs]
    rfl
  · intro h
    rw [h, decode_encode]

end EventCodegen.Text
