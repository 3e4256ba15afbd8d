import Mathlib.Data.Nat.Digits.Lemmas
import Mathlib.Data.UInt

/-!
# Decimal numerals as bytes

`value` reads a run of digits, leading zeros included, and `ofNat` writes the numeral without leading
zeros. The two are inverse to each other on the numerals without leading zeros.
-/

namespace Afterglow.Decimal

/-- The bytes `0` to `9`. -/
def isDigit (c : UInt8) : Bool := 48 ≤ c.toNat ∧ c.toNat ≤ 57

theorem isDigit_iff {c : UInt8} : isDigit c = true ↔ 48 ≤ c.toNat ∧ c.toNat ≤ 57 := by
  simp [isDigit]

def digitOf (d : ℕ) : UInt8 := UInt8.ofNat (48 + d)

theorem toNat_digitOf {d : ℕ} (hd : d < 10) : (digitOf d).toNat = 48 + d := by
  rw [digitOf, UInt8.toNat_ofNat']
  omega

theorem digitOf_sub {c : UInt8} (hc : isDigit c = true) : digitOf (c.toNat - 48) = c := by
  have hlt := isDigit_iff.mp hc
  apply UInt8.toNat_inj.mp
  rw [toNat_digitOf (by omega)]
  omega

/-- The number that a run of digits stands for. -/
def value (w : List UInt8) : ℕ := w.foldl (fun n c => 10 * n + (c.toNat - 48)) 0

/-- The numeral of a number. -/
def ofNat (n : ℕ) : List UInt8 := if n = 0 then [48] else (Nat.digits 10 n).reverse.map digitOf

theorem ofNat_of_ne_zero {n : ℕ} (hn : n ≠ 0) : ofNat n = (Nat.digits 10 n).reverse.map digitOf := if_neg hn

theorem value_eq_ofDigits (w : List UInt8) :
    value w = Nat.ofDigits 10 (w.reverse.map fun c => c.toNat - 48) := by
  induction w using List.reverseRecOn with
  | nil => rfl
  | append_singleton w c ih =>
    have hstep : value (w ++ [c]) = 10 * value w + (c.toNat - 48) := by simp [value]
    rw [hstep, List.reverse_append, List.reverse_singleton, List.singleton_append, List.map_cons,
      Nat.ofDigits_cons, ih]
    simp [Nat.add_comm]

/-- What is written is read back. -/
theorem value_ofNat (n : ℕ) : value (ofNat n) = n := by
  by_cases hn : n = 0
  · subst hn
    rfl
  have hdigits : (((Nat.digits 10 n).reverse.map digitOf).reverse.map fun c => c.toNat - 48)
      = Nat.digits 10 n := by
    rw [← List.map_reverse, List.reverse_reverse, List.map_map]
    refine (List.map_congr_left ?_).trans (List.map_id _)
    intro d hd
    have hlt : d < 10 := Nat.digits_lt_base (by omega) hd
    rw [Function.comp_apply, toNat_digitOf hlt, id]
    omega
  rw [ofNat_of_ne_zero hn, value_eq_ofDigits, hdigits, Nat.ofDigits_digits]

theorem isDigit_of_mem_ofNat {n : ℕ} {c : UInt8} (hc : c ∈ ofNat n) : isDigit c = true := by
  by_cases hn : n = 0
  · subst hn
    rw [List.mem_singleton.mp hc]
    decide
  · rw [ofNat_of_ne_zero hn, List.mem_map] at hc
    obtain ⟨d, hd, rfl⟩ := hc
    have hlt : d < 10 := Nat.digits_lt_base (by omega) (List.mem_reverse.mp hd)
    rw [isDigit_iff, toNat_digitOf hlt]
    omega

theorem ofNat_ne_nil (n : ℕ) : ofNat n ≠ [] := by
  by_cases hn : n = 0
  · simp [ofNat, hn]
  · simp [ofNat_of_ne_zero hn, Nat.digits_ne_nil_iff_ne_zero.mpr hn]

/-- There are no leading zeros. -/
theorem head?_ofNat {n : ℕ} (hn : n ≠ 0) : (ofNat n).head? ≠ some 48 := by
  have hnil : Nat.digits 10 n ≠ [] := Nat.digits_ne_nil_iff_ne_zero.mpr hn
  have hlast := Nat.getLast_digit_ne_zero 10 hn
  have hlt : (Nat.digits 10 n).getLast hnil < 10 :=
    Nat.digits_lt_base (by omega) (List.getLast_mem hnil)
  rw [ofNat_of_ne_zero hn, List.head?_map, List.head?_reverse, List.getLast?_eq_getLast_of_ne_nil hnil,
    Option.map_some, ne_eq, Option.some.injEq]
  intro hzero
  have := toNat_digitOf hlt
  rw [hzero] at this
  simp at this
  omega

/-- A run of digits without leading zeros is the numeral of its value. -/
theorem ofNat_value {w : List UInt8} (hdigit : ∀ c ∈ w, isDigit c = true) (hnil : w ≠ [])
    (hzero : w.head? = some 48 → w = [48]) : ofNat (value w) = w := by
  by_cases hw : w = [48]
  · subst hw
    rfl
  have hdigits : Nat.digits 10 (value w) = w.reverse.map fun c => c.toNat - 48 := by
    rw [value_eq_ofDigits]
    apply Nat.digits_ofDigits 10 (by omega)
    · intro d hd
      obtain ⟨c, hc, rfl⟩ := List.mem_map.mp hd
      have := isDigit_iff.mp (hdigit c (List.mem_reverse.mp hc))
      omega
    · intro hne
      obtain ⟨c, w', rfl⟩ := List.exists_cons_of_ne_nil hnil
      have hc := isDigit_iff.mp (hdigit c List.mem_cons_self)
      simp only [List.reverse_cons, List.map_append, List.map_cons, List.map_nil, List.getLast_append_singleton]
      intro hsub
      apply hw
      apply hzero
      have hnat : c.toNat = (48 : UInt8).toNat := by
        rw [show (48 : UInt8).toNat = 48 by decide]
        omega
      rw [List.head?_cons, UInt8.toNat_inj.mp hnat]
  have hne : value w ≠ 0 := by
    apply Nat.digits_ne_nil_iff_ne_zero.mp
    rw [hdigits]
    simpa using hnil
  rw [ofNat_of_ne_zero hne, hdigits, List.map_reverse, List.map_map, ← List.map_reverse, List.reverse_reverse]
  refine (List.map_congr_left ?_).trans (List.map_id _)
  intro c hc
  exact digitOf_sub (hdigit c hc)

theorem length_ofNat_le {n k : ℕ} (hn : n < 10 ^ k) (hk : 0 < k) : (ofNat n).length ≤ k := by
  by_cases hzero : n = 0
  · subst hzero
    exact hk
  · rw [ofNat_of_ne_zero hzero, List.length_map, List.length_reverse]
    exact (Nat.digits_length_le_iff (by omega) n).mpr hn

/-- The numeral of an integer. -/
def ofInt (v : ℤ) : List UInt8 := if v < 0 then 45 :: ofNat v.natAbs else ofNat v.natAbs

theorem ofInt_natCast (n : ℕ) : ofInt n = ofNat n := by
  rw [ofInt, if_neg (by omega), Int.natAbs_natCast]

theorem ofInt_neg {n : ℕ} (hn : n ≠ 0) : ofInt (-n) = 45 :: ofNat n := by
  rw [ofInt, if_pos (by omega), Int.natAbs_neg, Int.natAbs_natCast]

theorem ofInt_injective : Function.Injective ofInt := by
  have hminus : ∀ n m : ℕ, 45 :: ofNat n ≠ ofNat m := by
    intro n m h
    have : isDigit 45 = true := isDigit_of_mem_ofNat (n := m) (by rw [← h]; exact List.mem_cons_self)
    exact absurd this (by decide)
  have hinj : ∀ n m : ℕ, ofNat n = ofNat m → n = m := by
    intro n m h
    rw [← value_ofNat n, h, value_ofNat]
  intro v u h
  unfold ofInt at h
  split_ifs at h with hv hu hu
  · have := hinj _ _ (List.cons.inj h).2
    omega
  · exact absurd h (hminus _ _)
  · exact absurd h.symm (hminus _ _)
  · have := hinj _ _ h
    omega

end Afterglow.Decimal
