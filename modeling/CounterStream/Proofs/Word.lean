import Mathlib.Tactic.Ring
import CounterStream.Word

/-! # Words as numbers -/

namespace CounterStream.Word

/-! ## Sums -/

theorem addCarry_sum (a b : UInt32) (carry : Bool) :
    (addCarry a b carry).1.toNat + 2 ^ 32 * (addCarry a b carry).2.toNat =
      a.toNat + b.toNat + carry.toNat := by
  have ha := a.toNat_lt
  have hb := b.toNat_lt
  have hc := carry.toNat_le
  -- Two words and a carry fit into 64 bits.
  have hsum : (a.toUInt64 + b.toUInt64 + (if carry then 1 else 0)).toNat =
      a.toNat + b.toNat + carry.toNat := by
    cases carry <;> simp [UInt64.toNat_add] <;> omega
  simp only [addCarry, UInt64.toNat_toUInt32, hsum, UInt32.size]
  by_cases h : 4294967296 ≤ a.toNat + b.toNat + carry.toNat
  · simp only [h, decide_true, Bool.toNat_true]
    omega
  · simp only [h, decide_false, Bool.toNat_false]
    omega

theorem toNat_succ (w : UInt32) : (w + 1).toNat = (w.toNat + 1) % 2 ^ 32 := by
  rw [UInt32.toNat_add]; rfl

theorem succ_eq_zero (w : UInt32) : w + 1 = 0 ↔ w.toNat = 2 ^ 32 - 1 := by
  have := w.toNat_lt
  rw [← UInt32.toNat_inj, toNat_succ, UInt32.toNat_zero]
  omega

/-! ## Halves -/

theorem toNat_low (d : UInt64) : (low d).toNat = d.toNat % 2 ^ 32 := UInt64.toNat_toUInt32 d

theorem toNat_high (d : UInt64) : (high d).toNat = d.toNat / 2 ^ 32 := by
  have := d.toNat_lt
  rw [high, UInt64.toNat_toUInt32, UInt64.toNat_shiftRight, Nat.shiftRight_eq_div_pow,
    show UInt64.toNat 32 % 64 = 32 from rfl]
  omega

theorem low_add_high (d : UInt64) : (low d).toNat + 2 ^ 32 * (high d).toNat = d.toNat := by
  rw [toNat_low, toNat_high, Nat.mod_add_div]

/-! ## Bytes -/

theorem length_listOfBytes (bytes : List UInt8) :
    (listOfBytes bytes).length = bytes.length / 4 := by
  fun_induction listOfBytes bytes with
  | case1 a b c d rest ih =>
    simp only [List.length_cons, ih]
    omega
  | case2 bytes hshort =>
    have hlt : bytes.length < 4 := by
      match bytes, hshort with
      | [], _ | [_], _ | [_, _], _ | [_, _, _], _ => simp
      | a :: b :: c :: d :: rest, h => exact (h a b c d rest rfl).elim
    rw [List.length_nil, Nat.div_eq_of_lt hlt]

theorem or_mul_pow (a b i : Nat) (h : a < 2 ^ i) : a ||| b * 2 ^ i = a + b * 2 ^ i := by
  rw [Nat.or_comm, Nat.mul_comm, ← Nat.two_pow_add_eq_or_of_lt h, Nat.add_comm]

theorem toNat_shiftLeft_byte (b : UInt8) (i : UInt32) (h : i.toNat ≤ 24) :
    (b.toUInt32 <<< i).toNat = b.toNat * 2 ^ i.toNat := by
  have hb := b.toNat_lt
  have hpow : 2 ^ i.toNat ≤ 2 ^ 24 := Nat.pow_le_pow_right (by decide) h
  have hlt : b.toNat * 2 ^ i.toNat < 2 ^ 32 := by
    have := Nat.mul_lt_mul_of_lt_of_le hb hpow (by decide)
    omega
  rw [UInt32.toNat_shiftLeft, UInt8.toNat_toUInt32, Nat.mod_eq_of_lt (by omega : i.toNat < 32),
    Nat.shiftLeft_eq, Nat.mod_eq_of_lt hlt]

theorem toNat_ofBytes (a b c d : UInt8) :
    (ofBytes a b c d).toNat = a.toNat + b.toNat * 2 ^ 8 + c.toNat * 2 ^ 16 + d.toNat * 2 ^ 24 := by
  have ha := a.toNat_lt
  have hb := b.toNat_lt
  have hc := c.toNat_lt
  simp only [ofBytes, UInt32.toNat_or, UInt8.toNat_toUInt32,
    toNat_shiftLeft_byte _ 8 (by decide), toNat_shiftLeft_byte _ 16 (by decide),
    toNat_shiftLeft_byte _ 24 (by decide), show UInt32.toNat 8 = 8 from rfl,
    show UInt32.toNat 16 = 16 from rfl, show UInt32.toNat 24 = 24 from rfl]
  rw [or_mul_pow _ _ 8 (by omega), or_mul_pow _ _ 16 (by omega), or_mul_pow _ _ 24 (by omega)]

theorem ofBytes_toUInt8 (w : UInt32) :
    ofBytes w.toUInt8 (w >>> 8).toUInt8 (w >>> 16).toUInt8 (w >>> 24).toUInt8 = w := by
  have hw := w.toNat_lt
  apply UInt32.toNat_inj.mp
  simp only [toNat_ofBytes, UInt32.toNat_toUInt8, UInt32.toNat_shiftRight,
    Nat.shiftRight_eq_div_pow, show UInt32.toNat 8 % 32 = 8 from rfl,
    show UInt32.toNat 16 % 32 = 16 from rfl, show UInt32.toNat 24 % 32 = 24 from rfl]
  omega

theorem bytes_ofBytes (a b c d : UInt8) : bytes (ofBytes a b c d) = [a, b, c, d] := by
  have ha := a.toNat_lt
  have hb := b.toNat_lt
  have hc := c.toNat_lt
  have hd := d.toNat_lt
  simp only [bytes, List.cons.injEq, and_true, ← UInt8.toNat_inj, UInt32.toNat_toUInt8,
    UInt32.toNat_shiftRight, Nat.shiftRight_eq_div_pow, toNat_ofBytes,
    show UInt32.toNat 8 % 32 = 8 from rfl, show UInt32.toNat 16 % 32 = 16 from rfl,
    show UInt32.toNat 24 % 32 = 24 from rfl]
  omega

theorem listOfBytes_bytes (w : UInt32) (rest : List UInt8) :
    listOfBytes (bytes w ++ rest) = w :: listOfBytes rest := by
  show ofBytes _ _ _ _ :: listOfBytes rest = _
  rw [ofBytes_toUInt8]

theorem listOfBytes_flatMap (words : List UInt32) :
    listOfBytes (words.flatMap bytes) = words := by
  induction words with
  | nil => rfl
  | cons w rest ih => rw [List.flatMap_cons, listOfBytes_bytes, ih]

theorem flatMap_listOfBytes (bytes : List UInt8) (h : 4 ∣ bytes.length) :
    (listOfBytes bytes).flatMap Word.bytes = bytes := by
  fun_induction listOfBytes bytes with
  | case1 a b c d rest ih =>
    simp only [List.length_cons] at h
    rw [List.flatMap_cons, ih (by omega), bytes_ofBytes]
    rfl
  | case2 bytes hshort =>
    match bytes, hshort with
    | [], _ => rfl
    | [_], _ | [_, _], _ | [_, _, _], _ => simp at h
    | a :: b :: c :: d :: rest, hlong => exact (hlong a b c d rest rfl).elim

end CounterStream.Word
