import CounterStream.Proofs.JsonText
import CounterStream.Proofs.Narrowing

/-!
# Reals in JSON

A finite single is written in JSON with a point or an exponent, so that it is read as a real number:
its shortest digits as a whole number, multiplied or divided by a power of ten, and then rounded to
a single. What is read is the single that was written.
-/

namespace CounterStream

namespace Literal

/-! ## Literals read as doubles -/

theorem le_ofDigitChars (cs : List Char) (n : Nat) : n ≤ Nat.ofDigitChars 10 cs n := by
  induction cs generalizing n with
  | nil => exact le_rfl
  | cons c cs ih =>
    rw [Nat.ofDigitChars_cons]
    exact le_trans (by omega) (ih _)

theorem absorb_eq (cs : List Char) (n : Nat) (h : Nat.ofDigitChars 10 cs n < UInt64.size) :
    absorb n cs = (Nat.ofDigitChars 10 cs n, 0) := by
  induction cs generalizing n with
  | nil => rfl
  | cons c cs ih =>
    rw [Nat.ofDigitChars_cons] at h ⊢
    exact (if_pos ((le_ofDigitChars cs _).trans_lt h)).trans (ih _ h)

variable {d : Decimal} {whole fraction : List Char}

/-- The digits after a point. -/
def fractionOf (rest : List Char) : List Char :=
  match rest with
  | '.' :: cs => cs.takeWhile Char.isDigit
  | _ => []

/-- The exponent that follows the digits. -/
def exponentOf (rest : List Char) : Int :=
  match rest.dropWhile fun c => c ≠ 'e' ∧ c ≠ 'E' with
  | _ :: cs => (Decimal.integer? cs).getD 0
  | [] => 0

theorem head_exponentText (exponent : Option Int) :
    ∀ c ∈ (exponentText exponent).head?, ¬ c.isDigit := by
  have h := Json.head_exponentText exponent [] Json.ends_nil
  rw [List.append_nil] at h
  exact fun c hc => (h c hc).1

theorem fractionOf_text (hfraction : ∀ c ∈ fraction, c.isDigit) (exponent : Option Int) :
    fractionOf (pointed fraction ++ exponentText exponent) = fraction := by
  cases fraction with
  | nil =>
    cases exponent with
    | none => rfl
    | some e => rfl
  | cons c cs => exact Text.takeWhile_run _ (c :: cs) _ hfraction (head_exponentText exponent)

theorem dropWhile_pointed (hfraction : ∀ c ∈ fraction, c.isDigit) (exponent : Option Int) :
    ((pointed fraction ++ exponentText exponent).dropWhile fun c => c ≠ 'e' ∧ c ≠ 'E') =
      exponentText exponent := by
  apply Text.dropWhile_run
  · cases fraction with
    | nil => simp [pointed]
    | cons c cs =>
      refine List.forall_mem_cons.mpr ⟨by decide, fun c hc => decide_eq_true ?_⟩
      constructor <;> rintro rfl <;> exact absurd (hfraction _ hc) (by decide)
  · cases exponent with
    | none => simp [exponentText]
    | some e =>
      rintro c ⟨⟩
      decide

theorem exponentOf_text (hfraction : ∀ c ∈ fraction, c.isDigit) (exponent : Option Int) :
    exponentOf (pointed fraction ++ exponentText exponent) = exponent.getD 0 := by
  rw [exponentOf, dropWhile_pointed hfraction]
  cases exponent with
  | none => rfl
  | some e =>
    have hminus :
        Decimal.integer? ('-' :: Nat.toDigits 10 e.natAbs) = some (-(e.natAbs : Int)) := by
      rw [Decimal.integer?, Decimal.natural?_toDigits]
      rfl
    have hplus : Decimal.integer? ('+' :: Nat.toDigits 10 e.natAbs) = some (e.natAbs : Int) := by
      rw [Decimal.integer?, Decimal.natural?_toDigits]
      rfl
    rw [exponentText, Option.getD_some]
    split_ifs with h
    · simp only [hminus, Option.getD_some]
      omega
    · simp only [hplus, Option.getD_some]
      omega

theorem unsignedDouble?_text (h : d.Spells whole fraction) (exponent : Option Int)
    (hsize : Decimal.ofDigits (whole ++ fraction) < UInt64.size) :
    unsignedDouble? (text whole fraction exponent) =
      scale (Binary.ofNat (Decimal.ofDigits (whole ++ fraction)))
        (exponent.getD 0 - fraction.length) := by
  have hrest := Json.head_pointed fraction _ (head_exponentText exponent)
  rw [Decimal.ofDigits, Nat.ofDigitChars_append] at hsize ⊢
  have hwhole := absorb_eq whole 0 ((le_ofDigitChars fraction _).trans_lt hsize)
  have hfraction := absorb_eq fraction _ hsize
  have hunsigned (literal : List Char) : unsignedDouble? literal =
      let rest := literal.dropWhile Char.isDigit
      let read := absorb 0 (literal.takeWhile Char.isDigit)
      let all := absorb read.1 (fractionOf rest)
      scale (Binary.ofNat all.1)
        (exponentOf rest + read.2 - ((fractionOf rest).length - all.2 : Nat)) := rfl
  rw [hunsigned, text, Text.takeWhile_run _ _ _ h.whole_digits hrest,
    Text.dropWhile_run _ _ _ h.whole_digits hrest]
  simp only [hwhole, fractionOf_text h.fraction_digits, exponentOf_text h.fraction_digits,
    hfraction, Nat.cast_zero, add_zero, Nat.sub_zero]

end Literal

/-! ## The texts of decimals -/

namespace Decimal

theorem spells_scientific (d : Decimal) :
    (Decimal.mk d.coefficient (-(d.digits.drop 1).length)).Spells (d.digits.take 1)
      (d.digits.drop 1) where
  whole_ne_nil := by simp [d.digits_ne_nil]
  whole_digits c hc := isDigit_of_mem_toDigits _ c (List.mem_of_mem_take hc)
  fraction_digits c hc := isDigit_of_mem_toDigits _ c (List.mem_of_mem_drop hc)
  leading h := by
    rw [List.length_take] at h
    omega
  value_eq := by rw [List.take_append_drop, ofDigits_digits]

theorem scientific_eq (d : Decimal) :
    d.scientific = Literal.text (d.digits.take 1) (d.digits.drop 1) (some d.leading) := by
  obtain ⟨c, cs, hcs⟩ := List.exists_cons_of_ne_nil d.digits_ne_nil
  rw [scientific, Literal.text, Literal.exponentText, hcs]
  cases cs with
  | nil => rfl
  | cons c' cs => simp [Literal.pointed]

theorem lt_of_leading (d : Decimal) (e : Nat) (he : d.exponent = e) (h : d.leading ≤ 12) :
    d.coefficient * 10 ^ (e + 1) < 10 ^ 14 := by
  have hlength : 0 < d.digits.length := Nat.length_toDigits_pos
  have hcoefficient : d.coefficient < 10 ^ d.digits.length :=
    (Nat.length_toDigits_le_iff (by decide) hlength).mp le_rfl
  have hplaces : d.digits.length + (e + 1) ≤ 14 := by
    rw [leading, he] at h
    omega
  calc d.coefficient * 10 ^ (e + 1) < 10 ^ d.digits.length * 10 ^ (e + 1) :=
        Nat.mul_lt_mul_of_pos_right hcoefficient (Nat.pow_pos (by decide))
    _ = 10 ^ (d.digits.length + (e + 1)) := (pow_add _ _ _).symm
    _ ≤ 10 ^ 14 := Nat.pow_le_pow_right (by decide) hplaces

theorem exists_text (low high : Int) (d : Decimal) :
    ∃ whole fraction exponent, (∃ d' : Decimal, d'.Spells whole fraction) ∧
      (Layout.bounded low high).decimal d = Literal.text whole fraction exponent ∧
      (fraction ≠ [] ∨ exponent.isSome) ∧
      (ofDigits (whole ++ fraction) = d.coefficient ∧
          exponent.getD 0 - fraction.length = d.exponent ∨
        ∃ e : Nat, d.exponent = e ∧ d.leading ≤ high ∧
          ofDigits (whole ++ fraction) = d.coefficient * 10 ^ (e + 1) ∧
          exponent.getD 0 - fraction.length = -1) := by
  by_cases hbounded : low ≤ d.leading ∧ d.leading ≤ high
  · have hpositional : (Layout.bounded low high).decimal d =
        d.positional ++ if 0 ≤ d.exponent then ['.', '0'] else [] := by
      simp [Layout.decimal, Layout.bounded, hbounded]
    cases he : d.exponent with
    | ofNat e =>
      have hspells := (spells_positional e he).point_zero
      refine ⟨_, _, none, ⟨d, hspells⟩, ?_, Or.inl (by simp), Or.inr ⟨e, rfl, hbounded.2, ?_, rfl⟩⟩
      · rw [hpositional, he]
        rfl
      · have hvalue := hspells.value_eq
        rw [value, value, he, Int.ofNat_eq_natCast, zpow_natCast, List.length_singleton,
          Nat.cast_one, zpow_neg_one] at hvalue
        have hdigits : (ofDigits (d.positional ++ ['0']) : ℚ) = d.coefficient * 10 ^ (e + 1) := by
          rw [pow_succ]
          linarith
        exact_mod_cast hdigits
    | negSucc e =>
      obtain ⟨whole, fraction, hlength, htext, hspells, hvalue⟩ := spells_positional_point e he
      obtain ⟨c, cs, rfl⟩ := List.exists_cons_of_length_eq_add_one hlength
      refine ⟨whole, c :: cs, none, ⟨d, hspells⟩, ?_, Or.inl (by simp), Or.inl ⟨hvalue, ?_⟩⟩
      · rw [hpositional, he, htext]
        simp [Literal.text, Literal.pointed, Literal.exponentText]
      · rw [hlength, Int.negSucc_eq]
        simp
  · have hscientific : (Layout.bounded low high).decimal d = d.scientific := by
      simp [Layout.decimal, Layout.bounded, hbounded]
    refine ⟨_, _, some d.leading, ⟨_, d.spells_scientific⟩, hscientific.trans d.scientific_eq,
      Or.inr rfl, Or.inl ⟨?_, ?_⟩⟩
    · rw [List.take_append_drop, ofDigits_digits]
    · rw [Option.getD_some, leading, List.length_drop]
      omega

end Decimal

/-! ## Singles read back -/

namespace Literal

theorem ordinal_ofNat_ne_zero (c : Nat) (hpos : 0 < c) (hc : c < 2 ^ 53) :
    (Binary.ofNat c : Double).ordinal ≠ 0 := by
  intro h0
  have hzero := magnitude_ofNat c hc
  rw [Binary.magnitude, h0, Format.units_zero, Nat.cast_zero, zero_div] at hzero
  exact hpos.ne (by exact_mod_cast hzero)

theorem timesPower_whole (c e : Nat) (hpos : 0 < c) (he : e ≤ 22) (hc : c * 10 ^ (e + 1) < 2 ^ 53) :
    timesPower (Binary.ofNat (c * 10 ^ (e + 1))) (-1) = timesPower (Binary.ofNat c) e := by
  have hten : 0 < 10 ^ (e + 1) := Nat.pow_pos (by decide)
  obtain ⟨hsign, hnear⟩ :=
    timesPower_isNearest (c * 10 ^ (e + 1)) (Nat.mul_pos hpos hten) hc (-1) (by decide)
  obtain ⟨hsign', hnear'⟩ := timesPower_isNearest c hpos
    ((Nat.le_mul_of_pos_right c hten).trans_lt hc) e (by omega)
  rw [power_eq _ (by decide)] at hnear
  rw [power_eq _ (by omega)] at hnear'
  have hvalue : ((c * 10 ^ (e + 1) : Nat) : ℚ) * 10 ^ (-1 : Int) = c * 10 ^ (e : Int) := by
    rw [zpow_neg_one, zpow_natCast]
    push_cast
    rw [pow_succ]
    ring
  rw [hvalue] at hnear
  exact Binary.eq_of_ordinal (hsign.trans hsign'.symm) (hnear.unique hnear')

theorem isSome_scale_ofNat (n : Nat) (hn : n < 2 ^ 64) : (scale (Binary.ofNat n) 0).isSome := by
  by_cases h0 : (Binary.ofNat n : Double).ordinal = 0
  · rw [scale, if_pos h0]
    rfl
  · have hpos : 0 < n := by
      by_contra hzero
      obtain rfl : n = 0 := by omega
      exact h0 (by decide +kernel)
    obtain ⟨hn', hagree⟩ := ofNat_agree n hpos hn
    have hdouble := hagree.symm.le_two_mul (Binary.magnitude_nonneg _)
    have hbits : (n : ℚ) ≤ 2 ^ 64 := by exact_mod_cast hn.le
    have hfinite : (timesPower (Binary.ofNat n) 0).isFinite := by
      have hnear := (Binary.mul_isNearest (by decide) (Binary.ofNat n) (powerOfTen 0) hn'
        (powerOfTen_agree 0 (by decide)).1).2
      rw [magnitude_powerOfTen 0 (by decide), pow_zero, mul_one] at hnear
      rw [timesPower, if_pos le_rfl, Int.toNat_zero]
      exact (Binary.isFinite_iff _).mpr
        (Format.double_covers.lt_infinity hnear (by push_cast; linarith))
    rw [scale_of_isFinite _ _ (by decide) hfinite h0]
    rfl

end Literal

namespace Binary

theorem unsignedDouble?_decimal (x : Single) (hx : x.isFinite) :
    ∃ y, Literal.unsignedDouble? ((Layout.bounded (-6) 12).decimal (x.shortest .even)) = some y ∧
      (y.convert : Single) = { x with negative := false } := by
  obtain ⟨whole, fraction, exponent, ⟨d', hspells⟩, htext, -, hdigits⟩ :=
    Decimal.exists_text (-6) 12 (x.shortest .even)
  rw [htext]
  by_cases hpos : x.ordinal = 0
  · have hzero : Decimal.ofDigits (whole ++ fraction) = 0 := by
      rw [shortest_of_zero .even x hpos] at hdigits
      rcases hdigits with ⟨h, -⟩ | ⟨e, -, -, h, -⟩
      · exact h
      · rw [h, Nat.zero_mul]
    have hordinal : (ofNat 0 : Double).ordinal = 0 := by decide +kernel
    have hconvert : ((ofNat 0 : Double).convert : Single) = zero false := by decide +kernel
    refine ⟨ofNat 0, ?_, ?_⟩
    · rw [Literal.unsignedDouble?_text hspells exponent (by rw [hzero]; decide), hzero,
        Literal.scale, if_pos hordinal]
    · exact hconvert.trans (eq_of_ordinal rfl hpos.symm)
  · obtain ⟨hfinite, hconvert⟩ := convert_timesPower .even x hx hpos
    obtain ⟨hbits, hlow, hhigh⟩ := shortest_bounds .even x hx hpos
    have hcoefficient := shortest_coefficient_pos Format.single_moderate .even x hx hpos
    refine ⟨_, ?_, hconvert⟩
    have hsize : 2 ^ 53 < UInt64.size := by decide
    rcases hdigits with ⟨hdigits, hexponent⟩ | ⟨e, he, hleading, hdigits, hexponent⟩
    · rw [Literal.unsignedDouble?_text hspells exponent (by omega), hdigits, hexponent]
      exact Literal.scale_of_isFinite _ _ (by omega) hfinite
        (Literal.ordinal_ofNat_ne_zero _ hcoefficient hbits)
    · -- The zero after the point is read as a digit, and is divided out again.
      have hwhole := Decimal.lt_of_leading _ e he hleading
      have he' : e ≤ 22 := by
        rw [Decimal.leading] at hleading
        omega
      have hlong : (x.shortest .even).coefficient * 10 ^ (e + 1) < 2 ^ 53 :=
        hwhole.trans (by norm_num)
      have hsame := Literal.timesPower_whole _ e hcoefficient he' hlong
      rw [he, ← hsame] at hfinite
      rw [Literal.unsignedDouble?_text hspells exponent (by omega), hdigits, hexponent, he, ← hsame]
      exact Literal.scale_of_isFinite _ _ (by decide +kernel) hfinite
        (Literal.ordinal_ofNat_ne_zero _ (Nat.mul_pos hcoefficient (Nat.pow_pos (by decide))) hlong)

theorem convert_neg {F G : Format} (x : Binary F) :
    (x.neg.convert : Binary G) = (x.convert : Binary G).neg := by
  have hnan : x.neg.isNaN = x.isNaN := rfl
  have hinfinite : x.neg.isInfinite = x.isInfinite := rfl
  rw [convert, convert, hnan, hinfinite]
  split_ifs <;> rfl

end Binary

namespace Json

variable {d : Decimal} {whole fraction : List Char}

theorem natural?_text {exponent : Option Int} (h : fraction ≠ [] ∨ exponent.isSome) :
    Decimal.natural? (Literal.text whole fraction exponent) = none := by
  rw [Decimal.natural?, if_neg]
  rintro ⟨-, hall⟩
  rw [List.all_eq_true] at hall
  rcases h with hfraction | hexponent
  · obtain ⟨c, cs, rfl⟩ := List.exists_cons_of_ne_nil hfraction
    exact absurd (hall '.' (by simp [Literal.text, Literal.pointed])) (by decide)
  · obtain ⟨e, rfl⟩ := Option.isSome_iff_exists.mp hexponent
    exact absurd (hall 'e' (by simp [Literal.text, Literal.exponentText])) (by decide)

theorem integer?_of_natural? {cs : List Char} (h : Decimal.natural? cs = none)
    (hhead : ∃ c rest, cs = c :: rest ∧ c.isDigit) :
    Literal.integer? cs = none ∧ Literal.integer? ('-' :: cs) = none := by
  obtain ⟨c, rest, rfl, hc⟩ := hhead
  have hunsigned : Decimal.integer? (c :: rest) = none := by
    rw [Decimal.integer?_of_digit c rest hc, h]
    rfl
  have hsigned : Decimal.integer? ('-' :: c :: rest) = none := by
    rw [Decimal.integer?, h]
    rfl
  rw [Literal.integer?, Literal.integer?, hunsigned, hsigned]
  constructor <;> split_ifs <;> rfl

theorem double?_of_digit {c : Char} (cs : List Char) (hc : c.isDigit) :
    Literal.double? (c :: cs) = Literal.unsignedDouble? (c :: cs) := by
  unfold Literal.double?
  split
  · rename_i heq
    obtain ⟨rfl, -⟩ := List.cons_eq_cons.mp heq
    exact absurd hc (by decide)
  · rfl

theorem exists_literal (x : Single) (hx : x.isFinite) :
    ∃ literal, single x = number literal ∧ IsLiteral literal ∧ Literal.integer? literal = none ∧
      ∃ y, Literal.double? literal = some y ∧ (y.convert : Single) = x := by
  obtain ⟨whole, fraction, exponent, ⟨d, hspells⟩, htext, hreal, -⟩ :=
    Decimal.exists_text (-6) 12 (x.shortest .even)
  obtain ⟨y, hy, hconvert⟩ := x.unsignedDouble?_decimal hx
  obtain ⟨c, cs, hcs, hc⟩ := hspells.cons
  have hhead : Literal.text whole fraction exponent =
      c :: (cs ++ (Literal.pointed fraction ++ Literal.exponentText exponent)) := by
    rw [Literal.text, hcs]
    rfl
  have hnatural : Decimal.natural? (Literal.text whole fraction exponent) = none :=
    natural?_text hreal
  have hinteger := integer?_of_natural? hnatural ⟨c, _, hhead, hc⟩
  have hwrite : single x = number (if x.negative
      then '-' :: Literal.text whole fraction exponent
      else Literal.text whole fraction exponent) := by
    rw [single, real, if_pos hx, Binary.toList_write _ x hx,
      show (Layout.bounded (-6) 12).tie = .even from rfl, htext]
  rw [htext] at hy
  cases hnegative : x.negative with
  | true =>
    rw [hnegative, if_pos rfl] at hwrite
    refine ⟨_, hwrite, isLiteral_minus hspells exponent, hinteger.2, y.neg, ?_, ?_⟩
    · rw [Literal.double?, hy, Option.map_some]
    · rw [Binary.convert_neg, hconvert]
      exact Binary.eq_of_ordinal hnegative.symm rfl
  | false =>
    rw [hnegative, if_neg (by decide)] at hwrite
    refine ⟨_, hwrite, isLiteral_text hspells exponent, hinteger.1, y, ?_, ?_⟩
    · rw [hhead] at hy ⊢
      rw [double?_of_digit _ hc, hy]
    · rw [hconvert]
      exact Binary.eq_of_ordinal hnegative.symm rfl

/-! ## Whole numbers -/

theorem isLiteral_toString (n : Int) : IsLiteral (toString n).toList := by
  rw [Decimal.toList_toString]
  split_ifs
  · exact isLiteral_toDigits n.natAbs
  · have h := isLiteral_minus (Decimal.spells_toDigits n.natAbs) none
    rwa [Literal.text_whole] at h

theorem isSome_double?_toString (n : Int) (hn : n.natAbs < 2 ^ 64) :
    (Literal.double? (toString n).toList).isSome := by
  have hunsigned : (Literal.unsignedDouble? (Nat.toDigits 10 n.natAbs)).isSome := by
    have hspells := Decimal.spells_toDigits n.natAbs
    have h := Literal.unsignedDouble?_text hspells none
      (by rw [List.append_nil, Decimal.ofDigits, Nat.ofDigitChars_ten_toDigits]; exact hn)
    rw [Literal.text_whole, List.append_nil, Decimal.ofDigits,
      Nat.ofDigitChars_ten_toDigits] at h
    rw [h]
    exact Literal.isSome_scale_ofNat n.natAbs hn
  obtain ⟨c, cs, hcs⟩ := List.exists_cons_of_ne_nil (Nat.toDigits_ne_nil (n := n.natAbs) (b := 10))
  have hc : c.isDigit := isDigit_of_mem_toDigits n.natAbs c (hcs ▸ List.mem_cons_self)
  rw [Decimal.toList_toString]
  split_ifs
  · rw [hcs] at hunsigned ⊢
    rwa [double?_of_digit cs hc]
  · rw [Literal.double?, Option.isSome_map]
    exact hunsigned

end Json

end CounterStream
