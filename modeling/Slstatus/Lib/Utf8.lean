import Mathlib.Data.List.Basic

/-! Valid UTF-8 in lists of bytes: how it splits into characters, and where a valid text
can be cut. -/

namespace Utf8

def Valid (s : List UInt8) : Prop := s.toByteArray.IsValidUTF8

/-- No character of a valid text has bytes on both sides of position `n`. -/
def Boundary (s : List UInt8) (n : Nat) : Prop := ∀ b ∈ s[n]?, b.IsUTF8FirstByte

instance (s : List UInt8) (n : Nat) : Decidable (Boundary s n) :=
  inferInstanceAs (Decidable (∀ b ∈ s[n]?, _))

variable {s t : List UInt8} {c : Char}

theorem valid_iff_chars : Valid s ↔ ∃ cs : List Char, s = cs.flatMap String.utf8EncodeChar := by
  constructor
  · intro h
    obtain ⟨cs, hcs⟩ := h
    exact ⟨cs, List.toByteArray_inj.mp hcs⟩
  · intro hex
    obtain ⟨cs, rfl⟩ := hex
    exact ⟨cs, rfl⟩

theorem valid_nil : Valid [] := ByteArray.isValidUTF8_empty

theorem Valid.append (hs : Valid s) (ht : Valid t) : Valid (s ++ t) := by
  rw [Valid, List.toByteArray_append]
  exact ByteArray.IsValidUTF8.append hs ht

theorem valid_flatten {l : List (List UInt8)} (h : ∀ s ∈ l, Valid s) : Valid l.flatten := by
  induction l with
  | nil => exact valid_nil
  | cons s l ih =>
    obtain ⟨hs, hl⟩ := List.forall_mem_cons.mp h
    rw [List.flatten_cons]
    exact hs.append (ih hl)

theorem valid_encodeChar_append : Valid (String.utf8EncodeChar c ++ s) ↔ Valid s := by
  rw [Valid, List.toByteArray_append, ← List.utf8Encode_singleton,
    ByteArray.isValidUTF8_utf8Encode_singleton_append_iff]
  rfl

theorem valid_append_iff (hs : Valid s) : Valid (s ++ t) ↔ Valid t := by
  obtain ⟨cs, rfl⟩ := valid_iff_chars.mp hs
  clear hs
  induction cs with
  | nil => rfl
  | cons c cs ih => rw [List.flatMap_cons, List.append_assoc, valid_encodeChar_append, ih]

theorem boundary_encodeChar {n : Nat} (h : n < (String.utf8EncodeChar c).length) :
    Boundary (String.utf8EncodeChar c ++ s) n ↔ n = 0 := by
  rw [Boundary, List.getElem?_append_left h, List.getElem?_eq_getElem h]
  simp only [Option.mem_def, Option.some.injEq, forall_eq']
  exact UInt8.isUTF8FirstByte_getElem_utf8EncodeChar

theorem boundary_append {n : Nat} (h : s.length ≤ n) :
    Boundary (s ++ t) n ↔ Boundary t (n - s.length) := by
  rw [Boundary, List.getElem?_append_right h, Boundary]

theorem Valid.boundary_zero (hs : Valid s) : Boundary s 0 := by
  obtain ⟨cs, rfl⟩ := valid_iff_chars.mp hs
  cases cs with
  | nil => simp [Boundary]
  | cons c cs =>
    rw [List.flatMap_cons]
    apply (boundary_encodeChar _).mpr rfl
    exact List.length_pos_iff.mpr String.utf8EncodeChar_ne_nil

/-- A valid text cut at `n` bytes is valid exactly when the cut is between characters. -/
theorem valid_take_iff (hs : Valid s) (n : Nat) : Valid (s.take n) ↔ Boundary s n := by
  constructor
  · intro htake
    have hdrop : Valid (s.drop n) := by
      rw [← valid_append_iff htake, List.take_append_drop]
      exact hs
    have hzero := hdrop.boundary_zero
    rwa [Boundary, List.getElem?_drop, Nat.add_zero] at hzero
  · intro hcut
    obtain ⟨cs, rfl⟩ := valid_iff_chars.mp hs
    clear hs
    induction cs generalizing n with
    | nil =>
      rw [List.flatMap_nil, List.take_nil]
      exact valid_nil
    | cons c cs ih =>
      rw [List.flatMap_cons] at hcut ⊢
      by_cases hn : n < (String.utf8EncodeChar c).length
      · obtain rfl := (boundary_encodeChar hn).mp hcut
        exact valid_nil
      · have hle := Nat.le_of_not_lt hn
        rw [List.take_append, List.take_of_length_le hle, valid_encodeChar_append]
        apply ih
        exact (boundary_append hle).mp hcut

theorem encodeChar_cases (c : Char) :
    (∃ b, String.utf8EncodeChar c = [b]) ∨ ∀ b ∈ String.utf8EncodeChar c, 0x80 ≤ b := by
  have hhigh : ∀ m k : Nat, 0x80 ≤ k → m + k < 256 → 0x80 ≤ UInt8.ofNat (m + k) := by
    intro m k hk hlt
    rw [UInt8.le_iff_toNat_le, UInt8.toNat_ofNat', Nat.mod_eq_of_lt hlt]
    exact Nat.le_trans hk (Nat.le_add_left k m)
  have hnext : ∀ v : Nat, 0x80 ≤ UInt8.ofNat (v % 0x40 + 0x80) :=
    fun v => hhigh _ _ (Nat.le_refl _) (by omega)
  have hnil : ∀ b ∈ ([] : List UInt8), 0x80 ≤ b := by simp
  rw [String.utf8EncodeChar]
  by_cases h₁ : c.val.toNat ≤ 0x7f
  · exact .inl ⟨_, if_pos h₁⟩
  · rw [if_neg h₁]
    right
    split_ifs
    · exact List.forall_mem_cons.mpr ⟨hhigh _ _ (by decide) (by omega),
        List.forall_mem_cons.mpr ⟨hnext _, hnil⟩⟩
    · exact List.forall_mem_cons.mpr ⟨hhigh _ _ (by decide) (by omega),
        List.forall_mem_cons.mpr ⟨hnext _, List.forall_mem_cons.mpr ⟨hnext _, hnil⟩⟩⟩
    · exact List.forall_mem_cons.mpr ⟨hhigh _ _ (by decide) (by omega),
        List.forall_mem_cons.mpr ⟨hnext _,
          List.forall_mem_cons.mpr ⟨hnext _, List.forall_mem_cons.mpr ⟨hnext _, hnil⟩⟩⟩⟩

end Utf8
