import ExprLang.Text.Utf8

/-! Texts as bytes.

    A text is written one part behind the other, so the bytes of a beginning of a text are a
    beginning of its bytes, and they are fewer if it is a proper one. The characters of ASCII are
    bytes by themselves. -/

namespace ExprLang.Text.Utf8

/-! ### Writing -/

/-- The bytes of a text are those of its parts. -/
theorem encode_append (s t : String) : encode (s ++ t) = encode s ++ encode t := by
  simp [encode, String.toByteArray_append, ByteArray.data_append]

theorem encode_ne_nil {s : String} (h : s ≠ "") : encode s ≠ [] := by
  intro hnil
  rw [encode, Array.toList_eq_nil_iff] at hnil
  exact h (String.toByteArray_eq_empty_iff.mp (ByteArray.ext hnil))

/-! ### Reading -/

theorem leads_of_lt {b : Nat} (h : b < 0x80) : leads b = some (b, []) := if_pos h

theorem decodeFrom_ascii (offset : Nat) {cs : List Char} (h : ∀ c ∈ cs, c.toNat < 0x80) :
    decodeFrom offset none (cs.map fun c => c.toNat.toUInt8) = .ok cs := by
  induction cs generalizing offset with
  | nil => rfl
  | cons c cs ih =>
    obtain ⟨hc, hcs⟩ := List.forall_mem_cons.mp h
    have hbyte : c.toNat.toUInt8.toNat = c.toNat := by
      rw [Nat.toUInt8, UInt8.toNat_ofNat', Nat.mod_eq_of_lt (by omega)]
    rw [List.map_cons, decodeFrom, hbyte, leads_of_lt hc]
    dsimp only
    rw [ih (offset + 1) hcs, Char.ofNat_toNat]
    rfl

/-- Bytes of ASCII are read as the characters that they are. -/
theorem decode_ascii {cs : List Char} (h : ∀ c ∈ cs, c.toNat < 0x80) :
    decode (cs.map fun c => c.toNat.toUInt8) = .ok cs := decodeFrom_ascii 0 h

end ExprLang.Text.Utf8
