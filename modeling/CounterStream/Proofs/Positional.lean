import Mathlib.Data.List.TakeWhile
import CounterStream.Decimal.Reader
import CounterStream.Proofs.Decimal
import CounterStream.Proofs.Text

/-!
# Digits read back

A positional text is digits with at most one point among them. Its value is that of the decimal it
was written for, so reading it gives the same binary number.
-/

namespace CounterStream

/-! ## Runs of digits -/

theorem isDigit_of_mem_toDigits (n : Nat) : ∀ c ∈ Nat.toDigits 10 n, c.isDigit :=
  fun _ => Nat.isDigit_of_mem_toDigits (by decide) (by decide)

theorem head_toDigits_ne_zero (n : Nat) (hn : 0 < n) : (Nat.toDigits 10 n).head? ≠ some '0' := by
  induction n using Nat.strong_induction_on with
  | _ n ih =>
    rw [Nat.toDigits_eq_if (by decide)]
    split_ifs with h
    · simp only [List.head?_cons, ne_eq, Option.some.injEq, Nat.digitChar_eq_zero]
      omega
    · rw [List.head?_append_of_ne_nil _ Nat.toDigits_ne_nil]
      exact ih (n / 10) (by omega) (by omega)

theorem head_toDigits (n : Nat) (h : 1 < (Nat.toDigits 10 n).length) :
    (Nat.toDigits 10 n).head? ≠ some '0' := by
  apply head_toDigits_ne_zero
  by_contra hn
  obtain rfl : n = 0 := by omega
  simp at h

namespace Decimal

/-! ## Whole numbers -/

theorem natural?_toDigits (n : Nat) : natural? (Nat.toDigits 10 n) = some n := by
  rw [natural?, if_pos, ofDigits, Nat.ofDigitChars_ten_toDigits]
  exact ⟨Nat.toDigits_ne_nil, List.all_eq_true.mpr (isDigit_of_mem_toDigits n)⟩

theorem integer?_of_digit (c : Char) (cs : List Char) (hc : c.isDigit) :
    integer? (c :: cs) = (natural? (c :: cs)).map Int.ofNat := by
  unfold integer?
  split
  case h_1 heq => simp_all
  case h_2 heq => simp_all
  case h_3 => rfl

theorem integer?_toDigits (n : Nat) : integer? (Nat.toDigits 10 n) = some (n : Int) := by
  obtain ⟨c, cs, hcs⟩ := List.exists_cons_of_ne_nil (Nat.toDigits_ne_nil (n := n) (b := 10))
  have hc : c.isDigit := isDigit_of_mem_toDigits n c (hcs ▸ List.mem_cons_self)
  rw [hcs, integer?_of_digit c cs hc, ← hcs, natural?_toDigits]
  rfl

theorem toList_toString (n : Int) : (toString n).toList =
    if 0 ≤ n then Nat.toDigits 10 n.natAbs else '-' :: Nat.toDigits 10 n.natAbs := by
  rw [Int.toString_eq_repr, Int.repr_eq_if]
  split_ifs with h
  · rw [Nat.toList_repr, show n.toNat = n.natAbs by omega]
  · rw [String.toList_append, Nat.toList_repr, show (-n).toNat = n.natAbs by omega]
    rfl

theorem integer?_toString (n : Int) : integer? (toString n).toList = some n := by
  rw [toList_toString]
  split_ifs with h
  · rw [integer?_toDigits]
    congr 1
    omega
  · rw [integer?, natural?_toDigits]
    show some (-(n.natAbs : Int)) = some n
    congr 1
    omega

/-! ## Numbers with a point -/

/-- Digits before and after a point that stand for `d`. A zero leads them only if it is alone. -/
structure Spells (d : Decimal) (whole fraction : List Char) : Prop where
  whole_ne_nil : whole ≠ []
  whole_digits : ∀ c ∈ whole, c.isDigit
  fraction_digits : ∀ c ∈ fraction, c.isDigit
  leading : 1 < whole.length → whole.head? ≠ some '0'
  value_eq : (Decimal.mk (ofDigits (whole ++ fraction)) (-fraction.length)).value = d.value

theorem ofDigits_zeros (n : Nat) (ds : List Char) :
    ofDigits (List.replicate n '0' ++ ds) = ofDigits ds := by
  rw [ofDigits, Nat.ofDigitChars_append, Nat.ofDigitChars_replicate_zero, Nat.mul_zero]
  rfl

theorem ofDigits_append_zeros (n : Nat) (ds : List Char) :
    ofDigits (ds ++ List.replicate n '0') = ofDigits ds * 10 ^ n := by
  rw [ofDigits, Nat.ofDigitChars_append, Nat.ofDigitChars_replicate_zero, Nat.mul_comm]
  rfl

theorem digits_ne_nil (d : Decimal) : d.digits ≠ [] := Nat.toDigits_ne_nil

theorem ofDigits_digits (d : Decimal) : ofDigits d.digits = d.coefficient :=
  Nat.ofDigitChars_ten_toDigits

variable {d : Decimal}

theorem spells_positional (e : Nat) (he : d.exponent = e) : d.Spells d.positional [] := by
  have hpositional : d.positional =
      d.digits ++ List.replicate (if d.coefficient = 0 then 0 else e) '0' := by
    rw [positional, he]
  rw [hpositional]
  refine ⟨?_, ?_, by simp, ?_, ?_⟩
  · simp [d.digits_ne_nil]
  · intro c hc
    rcases List.mem_append.mp hc with hc | hc
    · exact isDigit_of_mem_toDigits _ c hc
    · rw [List.eq_of_mem_replicate hc]
      rfl
  · intro hlength
    rw [List.head?_append_of_ne_nil _ d.digits_ne_nil]
    by_cases h0 : d.coefficient = 0
    · simp [h0, digits] at hlength
    · exact head_toDigits_ne_zero _ (Nat.pos_of_ne_zero h0)
  · rw [List.append_nil, ofDigits_append_zeros, ofDigits_digits, value, value, he]
    split_ifs with h0
    · simp [h0]
    · push_cast
      simp

theorem spells_toDigits (n : Nat) : (Decimal.mk n 0).Spells (Nat.toDigits 10 n) [] := by
  have htext : (Decimal.mk n 0).positional = Nat.toDigits 10 n := by
    show Nat.toDigits 10 n ++ List.replicate (if n = 0 then 0 else 0) '0' = _
    rw [ite_self, List.replicate_zero, List.append_nil]
  exact htext ▸ spells_positional 0 rfl

theorem spells_positional_point (e : Nat) (he : d.exponent = Int.negSucc e) :
    ∃ whole fraction, fraction.length = e + 1 ∧ d.positional = whole ++ '.' :: fraction ∧
      d.Spells whole fraction ∧ ofDigits (whole ++ fraction) = d.coefficient := by
  have hdigits := isDigit_of_mem_toDigits d.coefficient
  set padded := List.replicate (e + 2 - d.digits.length) '0' ++ d.digits with hpadded
  have hlength : e + 2 ≤ padded.length := by
    rw [hpadded, List.length_append, List.length_replicate]
    omega
  have hall : ∀ c ∈ padded, c.isDigit := by
    intro c hc
    rcases List.mem_append.mp hc with hc | hc
    · rw [List.eq_of_mem_replicate hc]
      rfl
    · exact hdigits c hc
  have hfraction : (padded.drop (padded.length - (e + 1))).length = e + 1 := by
    rw [List.length_drop]
    omega
  have hvalue : ofDigits (padded.take (padded.length - (e + 1)) ++
      padded.drop (padded.length - (e + 1))) = d.coefficient := by
    rw [List.take_append_drop, hpadded, ofDigits_zeros, ofDigits_digits]
  refine ⟨padded.take (padded.length - (e + 1)), padded.drop (padded.length - (e + 1)),
    hfraction, ?_, ⟨?_, ?_, ?_, ?_, ?_⟩, hvalue⟩
  · rw [positional, he]
  · apply List.ne_nil_of_length_pos
    rw [List.length_take]
    omega
  · exact fun c hc => hall c (List.mem_of_mem_take hc)
  · exact fun c hc => hall c (List.mem_of_mem_drop hc)
  · intro hlong
    -- With two digits before the point nothing was padded.
    rw [List.length_take, hpadded, List.length_append, List.length_replicate] at hlong
    have hunpadded : padded = d.digits := by
      rw [hpadded, show e + 2 - d.digits.length = 0 by omega]
      rfl
    rw [List.head?_take, if_neg (by omega), hunpadded]
    exact head_toDigits _ (by
      change 1 < d.digits.length
      omega)
  · rw [hvalue, hfraction, value, value, he, Int.negSucc_eq]
    rfl

theorem Spells.point_zero {whole : List Char} (h : d.Spells whole []) : d.Spells whole ['0'] where
  whole_ne_nil := h.whole_ne_nil
  whole_digits := h.whole_digits
  fraction_digits := by simp
  leading := h.leading
  value_eq := by
    rw [← h.value_eq, List.append_nil, value, value]
    have hzero := ofDigits_append_zeros 1 whole
    rw [List.replicate_one] at hzero
    rw [hzero]
    push_cast
    simp

theorem unsigned?_whole {whole : List Char} (h : d.Spells whole []) :
    ∃ c, unsigned? whole = some c ∧ c.value = d.value := by
  refine ⟨_, ?_, h.value_eq⟩
  have htake : whole.takeWhile Char.isDigit = whole := List.takeWhile_eq_self_iff.mpr h.whole_digits
  have hdrop : whole.dropWhile Char.isDigit = [] := List.dropWhile_eq_nil_iff.mpr h.whole_digits
  simp [unsigned?, htake, hdrop, h.whole_ne_nil]

theorem unsigned?_point {whole fraction : List Char} (h : d.Spells whole fraction) :
    ∃ c, unsigned? (whole ++ '.' :: fraction) = some c ∧ c.value = d.value := by
  refine ⟨_, ?_, h.value_eq⟩
  have hpoint : ∀ c ∈ ('.' :: fraction).head?, ¬ c.isDigit := by simp
  have htake : fraction.takeWhile Char.isDigit = fraction :=
    List.takeWhile_eq_self_iff.mpr h.fraction_digits
  have hdrop : fraction.dropWhile Char.isDigit = [] :=
    List.dropWhile_eq_nil_iff.mpr h.fraction_digits
  simp [unsigned?, Text.takeWhile_run Char.isDigit whole _ h.whole_digits hpoint,
    Text.dropWhile_run Char.isDigit whole _ h.whole_digits hpoint, htake, hdrop, h.whole_ne_nil]

theorem spells_cases (d : Decimal) :
    (0 ≤ d.exponent ∧ d.Spells d.positional []) ∨
      (d.exponent < 0 ∧ ∃ whole fraction, fraction ≠ [] ∧
        d.positional = whole ++ '.' :: fraction ∧ d.Spells whole fraction) := by
  cases he : d.exponent with
  | ofNat e => exact Or.inl ⟨Int.natCast_nonneg e, spells_positional e he⟩
  | negSucc e =>
    obtain ⟨whole, fraction, hlength, hp, h, -⟩ := spells_positional_point e he
    exact Or.inr ⟨Int.negSucc_lt_zero e, whole, fraction,
      List.ne_nil_of_length_pos (by omega), hp, h⟩

theorem Spells.cons {whole fraction : List Char} (h : d.Spells whole fraction) :
    ∃ c cs, whole = c :: cs ∧ c.isDigit := by
  obtain ⟨c, cs, rfl⟩ := List.exists_cons_of_ne_nil h.whole_ne_nil
  exact ⟨c, cs, rfl, h.whole_digits c List.mem_cons_self⟩

theorem positional_cons (d : Decimal) : ∃ c cs, d.positional = c :: cs ∧ c.isDigit := by
  rcases d.spells_cases with ⟨-, h⟩ | ⟨-, whole, fraction, -, hp, h⟩
  · exact h.cons
  · obtain ⟨c, cs, rfl, hc⟩ := h.cons
    exact ⟨c, cs ++ '.' :: fraction, hp, hc⟩

theorem isDigit_or_point_of_mem_positional (d : Decimal) :
    ∀ c ∈ d.positional, c.isDigit ∨ c = '.' := by
  intro c hc
  rcases d.spells_cases with ⟨-, h⟩ | ⟨-, whole, fraction, -, hp, h⟩
  · exact Or.inl (h.whole_digits c hc)
  · rw [hp, List.mem_append, List.mem_cons] at hc
    rcases hc with hc | rfl | hc
    · exact Or.inl (h.whole_digits c hc)
    · exact Or.inr rfl
    · exact Or.inl (h.fraction_digits c hc)

theorem unsigned?_positional (d : Decimal) :
    ∃ c, unsigned? d.positional = some c ∧ c.value = d.value := by
  rcases d.spells_cases with ⟨-, h⟩ | ⟨-, whole, fraction, -, hp, h⟩
  · exact unsigned?_whole h
  · rw [hp]
    exact unsigned?_point h

end Decimal

/-! ## Binary numbers -/

namespace Binary

variable {F : Format}

theorem unsigned?_of_digit (negative : Bool) (c : Char) (cs : List Char) (hc : c.isDigit) :
    unsigned? F negative (c :: cs) =
      (Decimal.unsigned? (c :: cs)).map (·.toBinary F negative) := by
  have hword (s : String) (hs : ∀ w ∈ s.toList.head?, ¬ w.isDigit) :
      String.ofList ((c :: cs).map Char.toLower) ≠ s := by
    rintro rfl
    apply hs c _ hc
    simp [Text.toLower_of_isDigit c hc]
  rw [unsigned?, if_neg, if_neg]
  · exact hword _ (by simp)
  · rintro (h | h)
    · exact hword _ (by simp) h
    · exact hword _ (by simp) h

theorem isNaN_eq_false (x : Binary F) (hx : x.isFinite) : x.isNaN = false := by
  rw [isFinite_iff] at hx
  simp [isNaN, hx.le]

theorem isInfinite_eq_false (x : Binary F) (hx : x.isFinite) : x.isInfinite = false := by
  rw [isFinite_iff] at hx
  simp [isInfinite, hx.ne]

theorem toList_write (L : Layout) (x : Binary F) (hx : x.isFinite) :
    (L.write x).toList =
      if x.negative then '-' :: L.decimal (x.shortest L.tie) else L.decimal (x.shortest L.tie) := by
  rw [Layout.write, isNaN_eq_false x hx, isInfinite_eq_false x hx, if_neg (by decide),
    if_neg (by decide), String.toList_ofList]

theorem toList_text (x : Binary F) (hx : x.isFinite) :
    x.text.toList = if x.negative then '-' :: (x.shortest .larger).positional
      else (x.shortest .larger).positional := by
  have hplain (d : Decimal) : Layout.plain.decimal d = d.positional := by
    simp [Layout.decimal, Layout.plain]
  rw [text, toList_write _ x hx, hplain]
  rfl

theorem unsigned?_positional (hF : F.Moderate) (x : Binary F) (d : Decimal)
    (h : d.toBinary F x.negative = x) : unsigned? F x.negative d.positional = some x := by
  obtain ⟨c, cs, hcs, hc⟩ := d.positional_cons
  obtain ⟨e, he, hvalue⟩ := d.unsigned?_positional
  rw [hcs, unsigned?_of_digit _ c cs hc, ← hcs, he, Option.map_some,
    Decimal.toBinary_congr hF _ e d hvalue, h]

theorem read?_text (hF : F.Moderate) (x : Binary F) (hx : x.isFinite) :
    read? F x.text.toList = some x := by
  have hread := unsigned?_positional hF x _ (toBinary_shortest hF .larger x hx)
  rw [toList_text x hx]
  split_ifs with hneg
  · rwa [hneg] at hread
  · obtain ⟨c, cs, hcs, hc⟩ := (x.shortest .larger).positional_cons
    rw [Bool.not_eq_true] at hneg
    rw [hneg, hcs] at hread
    rw [hcs, read?]
    · exact hread
    · intro cs' h
      obtain ⟨rfl, -⟩ := List.cons_eq_cons.mp h
      simp at hc
    · intro cs' h
      obtain ⟨rfl, -⟩ := List.cons_eq_cons.mp h
      simp at hc

end Binary

end CounterStream
