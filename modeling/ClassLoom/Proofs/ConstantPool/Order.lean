import ClassLoom.Constant

/-!
# Constants as keys

The order of constants tells all constants apart: the text and the number that it goes by say
everything about a constant. That is what the index of a pool rests on.
-/

namespace ClassLoom.Constant

/-- Two 16-bit fields can be told from their number. -/
theorem pair_inj {a b c d : UInt16} (h : pair a b = pair c d) : a = c ∧ b = d := by
  have ha := a.toNat_lt
  have hb := b.toNat_lt
  have hc := c.toNat_lt
  have hd := d.toNat_lt
  unfold pair at h
  constructor
  · exact UInt16.toNat_inj.1 (by omega)
  · exact UInt16.toNat_inj.1 (by omega)

theorem word_inj {a b : UInt16} {tag : Nat} (h : tag + 32 * a.toNat = tag + 32 * b.toNat) :
    a = b :=
  UInt16.toNat_inj.1 (by omega)

theorem words_inj {a b c d : UInt16} {tag : Nat}
    (h : tag + 32 * pair a b = tag + 32 * pair c d) : a = c ∧ b = d :=
  pair_inj (by omega)

/-- The text and the number of a constant say which one it is. The index of a pool is sound for this
reason: its keys do not mix constants up. -/
theorem eq_of_key {a b : Constant} (htext : a.keyText = b.keyText)
    (hnumber : a.keyNumber = b.keyNumber) : a = b := by
  -- Numbers of constants of different kinds differ already in what is left by 32.
  cases a <;> cases b <;> simp only [keyText, keyNumber] at htext hnumber <;>
    first
    | rfl
    | (exfalso; omega)
    | skip
  case utf8.utf8 => rw [htext]
  case integer.integer a b =>
    have h : a.toUInt32 = b.toUInt32 := UInt32.toNat_inj.1 (by omega)
    rw [← a.toInt32_toUInt32, h, b.toInt32_toUInt32]
  case float.float a b =>
    have h : a = b := UInt32.toNat_inj.1 (by omega)
    rw [h]
  case long.long a b =>
    have h : a.toUInt64 = b.toUInt64 := UInt64.toNat_inj.1 (by omega)
    rw [← a.toInt64_toUInt64, h, b.toInt64_toUInt64]
  case double.double a b =>
    have h : a = b := UInt64.toNat_inj.1 (by omega)
    rw [h]
  case methodHandle.methodHandle a b c d =>
    have hb := b.toNat_lt
    have hd := d.toNat_lt
    have hkind : a = c := UInt8.toNat_inj.1 (by omega)
    have href : b = d := UInt16.toNat_inj.1 (by omega)
    rw [hkind, href]
  all_goals
    first
    | rw [word_inj hnumber]
    | rw [(words_inj hnumber).1, (words_inj hnumber).2]

/-- Only equal constants have the same place in the order. -/
instance : Std.LawfulEqOrd Constant where
  compare_self {a} := by
    show (compareOn keyText a a).then (compareOn keyNumber a a) = .eq
    simp [compareOn]
  eq_of_compare {a b} h := by
    have h' : (compareOn keyText a b).then (compareOn keyNumber a b) = .eq := h
    rw [Ordering.then_eq_eq] at h'
    exact eq_of_key (Std.LawfulEqOrd.eq_of_compare h'.1) (Std.LawfulEqOrd.eq_of_compare h'.2)

instance : Std.TransOrd Constant :=
  inferInstanceAs (Std.TransCmp (compareLex (compareOn keyText) (compareOn keyNumber)))

end ClassLoom.Constant
