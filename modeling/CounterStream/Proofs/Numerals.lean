import CounterStream.Proofs.JsonNumber

/-!
# Two numerals of one number

A finite number is written in its shortest digits, in a report always positionally and in a document
sometimes with an exponent. Both texts are read back as the number. As decimals they are equal
unless the number lies halfway between two shortest decimals, of which a report takes the larger and
a document the even one.
-/

namespace CounterStream

namespace Decimal

/-! ## The number that a text denotes -/

/-- The exact value of a decimal text, which may have a minus before it. -/
def denoted? : List Char → Option ℚ
  | '-' :: cs => (unsigned? cs).map fun d => -d.value
  | cs => (unsigned? cs).map value

/-- An unsigned text of the value of a decimal. -/
structure Stands (cs : List Char) (d : Decimal) : Prop where
  head : ∃ c rest, cs = c :: rest ∧ c.isDigit
  value : ∃ e, unsigned? cs = some e ∧ e.value = d.value

theorem Stands.denoted? {cs : List Char} {d : Decimal} (h : Stands cs d) (negative : Bool) :
    denoted? (if negative then '-' :: cs else cs) = some (if negative then -d.value else d.value) := by
  obtain ⟨c, rest, rfl, hc⟩ := h.head
  obtain ⟨e, he, hvalue⟩ := h.value
  cases negative with
  | true => simp only [if_pos, Decimal.denoted?, he, Option.map_some, hvalue]
  | false =>
    have hminus : ∀ cs, c :: rest ≠ '-' :: cs := by
      intro cs heq
      obtain ⟨rfl, -⟩ := List.cons_eq_cons.mp heq
      exact absurd hc (by decide)
    simp only [Bool.false_eq_true, if_false, Decimal.denoted?, he, Option.map_some, hvalue]

theorem stands_positional (d : Decimal) : Stands d.positional d :=
  ⟨d.positional_cons, d.unsigned?_positional⟩

theorem denoted?_toDigits (n : Nat) : denoted? (Nat.toDigits 10 n) = some (n : ℚ) ∧
    denoted? ('-' :: Nat.toDigits 10 n) = some (-n : ℚ) := by
  have hstands : Stands (Nat.toDigits 10 n) ⟨n, 0⟩ :=
    ⟨(spells_toDigits n).cons, unsigned?_whole (spells_toDigits n)⟩
  have hvalue : (Decimal.mk n 0).value = n := by rw [value, zpow_zero, mul_one]
  exact ⟨hvalue ▸ hstands.denoted? false, hvalue ▸ hstands.denoted? true⟩

theorem denoted?_toString (n : Int) : denoted? (toString n).toList = some (n : ℚ) := by
  obtain ⟨hplain, hminus⟩ := denoted?_toDigits n.natAbs
  rw [toList_toString]
  split_ifs with h
  · rw [hplain, Nat.cast_natAbs, abs_of_nonneg h]
  · rw [hminus, Nat.cast_natAbs, abs_of_neg (not_le.mp h), Int.cast_neg, neg_neg]

/-! ## Exponents -/

theorem foldl_exponent (ds : List Char) (e : Nat) (h : Nat.ofDigitChars 10 ds e < 655360) :
    ds.foldl (fun e c => if e < 65536 then 10 * e + (c.toNat - 48) else e) e =
      Nat.ofDigitChars 10 ds e := by
  induction ds generalizing e with
  | nil => rfl
  | cons c cs ih =>
    rw [Nat.ofDigitChars_cons] at h ⊢
    have hnext := Literal.le_ofDigitChars cs (10 * e + (c.toNat - '0'.toNat))
    rw [List.foldl_cons, if_pos (by omega)]
    exact ih _ h

theorem exponent?_text (e : Int) (h : e.natAbs < 655360) :
    exponent? ((if e < 0 then '-' else '+') :: Nat.toDigits 10 e.natAbs) = some e := by
  have hdigits : exponentOfDigits (Nat.toDigits 10 e.natAbs) = e.natAbs := by
    have hfold := foldl_exponent (Nat.toDigits 10 e.natAbs) 0
    rw [Nat.ofDigitChars_ten_toDigits] at hfold
    exact hfold h
  split_ifs with hneg
  · rw [exponent?, natural?_toDigits, hdigits, Option.map_some]
    congr 1
    omega
  · rw [exponent?, natural?_toDigits, hdigits, Option.map_some]
    congr 1
    omega

variable {d : Decimal} {whole fraction : List Char}

theorem unsigned?_text (h : d.Spells whole fraction) (exponent : Option Int)
    (hexponent : (exponent.getD 0).natAbs < 655360) :
    unsigned? (Literal.text whole fraction exponent) =
      some ⟨ofDigits (whole ++ fraction), exponent.getD 0 - fraction.length⟩ := by
  have hrest := Json.head_pointed fraction _ (Literal.head_exponentText exponent)
  have htake := Text.takeWhile_run _ _ _ h.whole_digits hrest
  have hdrop := Text.dropWhile_run _ _ _ h.whole_digits hrest
  have hfractionTake := Text.takeWhile_run _ _ _ h.fraction_digits
    (Literal.head_exponentText exponent)
  have hfractionDrop := Text.dropWhile_run _ _ _ h.fraction_digits
    (Literal.head_exponentText exponent)
  have hne := h.whole_ne_nil
  rw [unsigned?, Literal.text, htake, hdrop]
  cases fraction with
  | nil =>
    cases exponent with
    | none => simp [Literal.pointed, Literal.exponentText, hne]
    | some e => simp [Literal.pointed, Literal.exponentText, hne, exponent?_text e hexponent]
  | cons c cs =>
    simp only [Literal.pointed, List.cons_append] at hfractionTake hfractionDrop ⊢
    rw [hfractionTake, hfractionDrop]
    cases exponent with
    | none => simp [Literal.exponentText, hne]
    | some e => simp [Literal.exponentText, hne, exponent?_text e hexponent]

theorem Spells.stands_text (h : d.Spells whole fraction) (exponent : Option Int)
    (hexponent : (exponent.getD 0).natAbs < 655360) {e : Decimal}
    (hvalue : (Decimal.mk (ofDigits (whole ++ fraction))
      (exponent.getD 0 - fraction.length)).value = e.value) :
    Stands (Literal.text whole fraction exponent) e := by
  obtain ⟨c, cs, hcs, hc⟩ := h.cons
  exact ⟨⟨c, _, by rw [Literal.text, hcs]; rfl, hc⟩, _, unsigned?_text h exponent hexponent, hvalue⟩

theorem stands_bounded (low high : Int) (d : Decimal) (h : d.leading.natAbs < 655360) :
    Stands ((Layout.bounded low high).decimal d) d := by
  by_cases hbounded : low ≤ d.leading ∧ d.leading ≤ high
  · have hpositional : (Layout.bounded low high).decimal d =
        d.positional ++ if 0 ≤ d.exponent then ['.', '0'] else [] := by
      simp [Layout.decimal, Layout.bounded, hbounded]
    rw [hpositional]
    split_ifs with hwhole
    · obtain ⟨e, he⟩ := Int.eq_ofNat_of_zero_le hwhole
      obtain ⟨c, cs, hcs, hc⟩ := d.positional_cons
      exact ⟨⟨c, cs ++ ['.', '0'], by rw [hcs]; rfl, hc⟩,
        unsigned?_point (spells_positional e he).point_zero⟩
    · rw [List.append_nil]
      exact d.stands_positional
  · have hscientific : (Layout.bounded low high).decimal d = d.scientific := by
      simp [Layout.decimal, Layout.bounded, hbounded]
    rw [hscientific, scientific_eq]
    refine d.spells_scientific.stands_text (some d.leading) h ?_
    rw [value, List.take_append_drop, ofDigits_digits, value, Option.getD_some, List.length_drop,
      leading, Int.add_sub_cancel]

/-! ## Leading digits -/

theorem ten_pow_leading_le (d : Decimal) (h : 0 < d.coefficient) : 10 ^ d.leading ≤ d.value := by
  have hlength : 0 < d.digits.length := Nat.length_toDigits_pos
  have hcoefficient : 10 ^ (d.digits.length - 1) ≤ d.coefficient := by
    by_contra hlt
    by_cases hone : d.digits.length = 1
    · rw [hone] at hlt
      omega
    · have hle := (Nat.length_toDigits_le_iff (by decide) (by omega)).mpr (not_le.mp hlt)
      have : d.digits.length ≤ d.digits.length - 1 := hle
      omega
  have hcast : (10 : ℚ) ^ (d.digits.length - 1) ≤ d.coefficient := by exact_mod_cast hcoefficient
  rw [leading, value, zpow_add₀ (by norm_num), mul_comm, zpow_natCast]
  gcongr

end Decimal

namespace Tie

variable {c : Nat}

theorem takesLower_even (h : c % 2 = 0) (step : Nat) : even.takesLower step step c = true := by
  simp [takesLower, h]

theorem takesLower_larger (step c : Nat) : larger.takesLower step step c = false := by
  simp [takesLower]

theorem takesLower_eq {distance step : Nat} (h : ¬ (distance = step ∧ c % 2 = 0)) :
    even.takesLower distance step c = larger.takesLower distance step c := by
  by_cases heq : distance = step
  · have hodd : ¬ c % 2 = 0 := fun heven => h ⟨heq, heven⟩
    simp [takesLower, heq, hodd]
  · have hne : (distance == step) = false := beq_eq_false_iff_ne.mpr heq
    simp [takesLower, hne]

end Tie

namespace Format

variable {F : Format}

theorem Moderate.places_lt (hF : F.Moderate) : F.places < 1600 := by
  have htwo := hF.two_one_le
  rw [one_eq, ← pow_succ'] at htwo
  have hlt : 2 ^ (F.places + 1) < 2 ^ 1600 := htwo.trans_lt (by decide +kernel)
  have := (Nat.pow_lt_pow_iff_right (by decide)).mp hlt
  omega

/-! ## Two ways to settle a tie -/

/-- The search finds the same decimal, or the value is halfway between two neighbours and one of
them is found each way. -/
theorem shortestFrom_tie (F : Format) (n place : Nat) :
    F.shortestFrom .even n place = F.shortestFrom .larger n place ∨
      ∃ c p, F.shortestFrom .even n place = (c, p) ∧ F.shortestFrom .larger n place = (c + 1, p) ∧
        2 * F.scaled n = (2 * c + 1) * 10 ^ p := by
  induction place with
  | zero => exact Or.inl rfl
  | succ place ih =>
    have hdiv := Nat.div_add_mod' (F.scaled n) (10 ^ (place + 1))
    simp only [shortestFrom, Nat.pow_eq]
    generalize F.scaled n / 10 ^ (place + 1) = c at *
    generalize F.scaled n % 10 ^ (place + 1) = rest at *
    generalize (F.nearestScaled (c * 10 ^ (place + 1)) == n) = below
    generalize (F.nearestScaled ((c + 1) * 10 ^ (place + 1)) == n) = above
    by_cases htie : 2 * rest = 10 ^ (place + 1) ∧ c % 2 = 0
    · obtain ⟨hrest, heven⟩ := htie
      simp only [hrest, Tie.takesLower_even heven, Tie.takesLower_larger]
      cases below <;> cases above
      -- Only if both neighbours are read back do the two searches part.
      case true.true =>
        refine Or.inr ⟨c, place + 1, rfl, rfl, ?_⟩
        rw [← hdiv, Nat.mul_add, hrest]
        ring
      case false.false => exact ih
      all_goals exact Or.inl rfl
    · rw [Tie.takesLower_eq htie]
      split_ifs
      · exact Or.inl rfl
      · exact Or.inl rfl
      · exact ih

end Format

namespace Binary

variable {F : Format}

/-! ## One number -/

/-- The value of a finite number. -/
def toRat (x : Binary F) : ℚ := if x.negative then -x.magnitude else x.magnitude

theorem shortest_exponent_ge (hF : F.Moderate) (tie : Tie) (x : Binary F) (hx : x.isFinite)
    (hpos : x.ordinal ≠ 0) : -(F.places : Int) ≤ (x.shortest tie).exponent := by
  obtain ⟨c, place, heq, -⟩ := shortest_found hF tie x hx hpos
  have htrim := Decimal.trim_exponent_le ⟨c, place - F.places⟩
  rw [heq]
  refine le_trans ?_ htrim
  dsimp only
  omega

theorem leading_shortest_lt (hF : F.Moderate) (tie : Tie) (x : Binary F) (hx : x.isFinite)
    (hpos : x.ordinal ≠ 0) (digits : Nat) (h : F.units F.infinity ≤ 10 ^ digits * F.one) :
    (x.shortest tie).leading < digits := by
  by_contra hge
  have hpow : (10 : ℚ) ^ (digits : Int) ≤ (x.shortest tie).value :=
    (zpow_le_zpow_right₀ (by norm_num) (not_lt.mp hge)).trans
      (Decimal.ten_pow_leading_le _ (shortest_coefficient_pos hF tie x hx hpos))
  rw [zpow_natCast] at hpow
  have hlarge : (F.units F.infinity : ℚ) ≤ (x.shortest tie).value * F.one :=
    calc (F.units F.infinity : ℚ) ≤ 10 ^ digits * F.one := by exact_mod_cast h
      _ ≤ (x.shortest tie).value * F.one := by gcongr
  have hinfinity := (shortest_isNearest hF tie x hx).ge_of_ge le_rfl hlarge
  exact absurd ((isFinite_iff x).mp hx) (by omega)

theorem natAbs_leading_shortest (hF : F.Moderate) (tie : Tie) (x : Binary F) (hx : x.isFinite) :
    (x.shortest tie).leading.natAbs < 655360 := by
  by_cases hpos : x.ordinal = 0
  · rw [shortest_of_zero tie x hpos]
    decide
  · have hplaces := hF.places_lt
    have hlow := shortest_exponent_ge hF tie x hx hpos
    have hhigh := leading_shortest_lt hF tie x hx hpos 400 hF.units_infinity_le
    rw [Decimal.leading] at hhigh ⊢
    omega

theorem shortest_tie (F : Format) (x : Binary F) :
    (x.shortest .larger).value = (x.shortest .even).value ∨
      (x.shortest .larger).value + (x.shortest .even).value = 2 * x.magnitude := by
  have hone : (F.one : ℚ) ≠ 0 := (Nat.cast_pos.mpr F.one_pos).ne'
  rw [shortest, shortest]
  split_ifs with hzero
  · exact Or.inl rfl
  · rcases F.shortestFrom_tie x.ordinal ((F.scaled x.ordinal).log2 * 1234 / 4096 + 1) with
      hsame | ⟨c, p, heven, hlarger, hmiddle⟩
    · exact Or.inl (by rw [hsame])
    · right
      rw [heven, hlarger]
      dsimp only
      rw [Decimal.trim_value, Decimal.trim_value]
      apply mul_right_cancel₀ hone
      rw [add_mul, value_scaled, value_scaled, mul_assoc, magnitude_mul_one, ← add_div,
        div_eq_iff (by positivity)]
      have hscaled : 2 * (F.units x.ordinal * 5 ^ F.places : Nat) = (2 * c + 1) * 10 ^ p := hmiddle
      have hcast : (2 * (F.units x.ordinal * 5 ^ F.places) : ℚ) = (2 * c + 1) * 10 ^ p := by
        exact_mod_cast hscaled
      push_cast
      linarith

/-! ## Two texts -/

/-- A number with the sign of `x`. -/
def signed (x : Binary F) (q : ℚ) : ℚ := if x.negative then -q else q

theorem signed_tie (x : Binary F) {p q : ℚ} (h : p = q ∨ p + q = 2 * x.magnitude) :
    x.signed p = x.signed q ∨ x.signed p + x.signed q = 2 * x.toRat := by
  simp only [signed, toRat]
  split_ifs
  · exact h.imp (congrArg Neg.neg) fun hsum => by linarith
  · exact h

theorem read?_of_digit {c : Char} (cs : List Char) (hc : c.isDigit) :
    read? F (c :: cs) = unsigned? F false (c :: cs) := by
  unfold read?
  split
  · rename_i heq
    obtain ⟨rfl, -⟩ := List.cons_eq_cons.mp heq
    exact absurd hc (by decide)
  · rename_i heq
    obtain ⟨rfl, -⟩ := List.cons_eq_cons.mp heq
    exact absurd hc (by decide)
  · rfl

theorem read?_of_stands (hF : F.Moderate) (tie : Tie) (x : Binary F) (hx : x.isFinite)
    {cs : List Char} (h : Decimal.Stands cs (x.shortest tie)) :
    read? F (if x.negative then '-' :: cs else cs) = some x := by
  obtain ⟨c, rest, rfl, hc⟩ := h.head
  obtain ⟨e, he, hvalue⟩ := h.value
  have hread : unsigned? F x.negative (c :: rest) = some x := by
    rw [unsigned?_of_digit _ c rest hc, he, Option.map_some,
      Decimal.toBinary_congr hF _ e _ hvalue, toBinary_shortest hF tie x hx]
  cases hnegative : x.negative with
  | true => rwa [hnegative] at hread
  | false =>
    rw [hnegative] at hread
    rwa [if_neg (by decide), read?_of_digit rest hc]

theorem isLiteral_bounded (low high : Int) (d : Decimal) (negative : Bool) :
    Json.IsLiteral (if negative then '-' :: (Layout.bounded low high).decimal d
      else (Layout.bounded low high).decimal d) := by
  obtain ⟨whole, fraction, exponent, ⟨d', hspells⟩, htext, -⟩ := Decimal.exists_text low high d
  rw [htext]
  cases negative with
  | true => exact Json.isLiteral_minus hspells exponent
  | false => exact Json.isLiteral_text hspells exponent

/-- A finite number as a line of a report and as a literal of a document. Each is read back as the
number, and they denote the same value unless the number is halfway between the two. -/
theorem numerals_agree (hF : F.Moderate) (low high : Int) (x : Binary F) (hx : x.isFinite) :
    ∃ literal q r, Json.real (Layout.bounded low high) x = .number literal ∧
      Json.IsLiteral literal ∧ read? F x.text.toList = some x ∧ read? F literal = some x ∧
      Decimal.denoted? x.text.toList = some q ∧ Decimal.denoted? literal = some r ∧
      (q = r ∨ q + r = 2 * x.toRat) := by
  have hbounded := Decimal.stands_bounded low high _ (natAbs_leading_shortest hF .even x hx)
  have hplain := (x.shortest .larger).stands_positional
  have hjson : Json.real (Layout.bounded low high) x =
      .number (if x.negative then '-' :: (Layout.bounded low high).decimal (x.shortest .even)
        else (Layout.bounded low high).decimal (x.shortest .even)) := by
    rw [Json.real, if_pos hx, toList_write _ x hx]
    rfl
  refine ⟨_, x.signed (x.shortest .larger).value, x.signed (x.shortest .even).value, hjson,
    isLiteral_bounded low high _ x.negative, read?_text hF x hx,
    read?_of_stands hF .even x hx hbounded, ?_, hbounded.denoted? x.negative,
    x.signed_tie (shortest_tie F x)⟩
  rw [toList_text x hx]
  exact hplain.denoted? x.negative

end Binary

end CounterStream
