import CounterStream.Proofs.Name
import CounterStream.Toml.Printer
import CounterStream.Toml.Reader

/-!
# TOML values read back

The text of a plain string, a whole number or a finite real number is read as that value up to the
end of its line. The rules for words are tried in turn, so the text of a number must be none of what
is tried before it.
-/

namespace CounterStream.Toml

/-! ## Digits -/

theorem digits?_of_digits (ds : List Char) (hne : ds ≠ []) (h : ∀ c ∈ ds, c.isDigit) :
    digits? Char.isDigit ds = some ds := by
  induction ds with
  | nil => exact absurd rfl hne
  | cons c ds ih =>
    have hc := h c List.mem_cons_self
    cases ds with
    | nil => rw [digits?, if_pos hc]
    | cons d ds =>
      have hd := h d (List.mem_cons_of_mem c List.mem_cons_self)
      have hds : ∀ e ∈ d :: ds, e.isDigit := fun e he => h e (List.mem_cons_of_mem c he)
      rw [digits?, if_pos hc, ih (List.cons_ne_nil d ds) hds, Option.map_some]
      · simp
      · rintro rest heq
        obtain ⟨rfl, -⟩ := List.cons_eq_cons.mp heq
        exact absurd hd (by decide)

theorem digits?_of_mem (isDigit : Char → Bool) (c : Char) (hc : isDigit c = false) (hbar : c ≠ '_')
    (cs : List Char) (h : c ∈ cs) : digits? isDigit cs = none := by
  fun_induction digits? isDigit cs with
  | case1 => simp at h
  | case2 d hd =>
    obtain rfl := List.mem_singleton.mp h
    simp [hc] at hd
  | case3 => rfl
  | case4 d rest hd ih =>
    rcases List.mem_cons.mp h with rfl | h
    · simp [hc] at hd
    · rw [ih ((List.mem_cons.mp h).resolve_left hbar), Option.map_none]
  | case5 => rfl
  | case6 d rest _ _ hd ih =>
    rcases List.mem_cons.mp h with rfl | h
    · simp [hc] at hd
    · rw [ih h, Option.map_none]
  | case7 => rfl

theorem wholeDigits?_of_digits (ds : List Char) (hne : ds ≠ []) (h : ∀ c ∈ ds, c.isDigit)
    (hleading : 1 < ds.length → ds.head? ≠ some '0') : wholeDigits? ds = some ds := by
  rw [wholeDigits?, if_neg, digits?_of_digits ds hne h]
  exact fun hzero => hleading hzero.2 hzero.1

theorem wholeDigits?_of_mem (c : Char) (hc : c.isDigit = false) (hbar : c ≠ '_') (cs : List Char)
    (h : c ∈ cs) : wholeDigits? cs = none := by
  rw [wholeDigits?]
  split_ifs
  · rfl
  · exact digits?_of_mem _ c hc hbar cs h

/-! ## Words that are numbers -/

/-- A sign or a digit, and then digits and points. -/
def IsNumeral (cs : List Char) : Prop :=
  ∃ c body, cs = c :: body ∧ (c.isDigit ∨ c = '-') ∧ ∀ d ∈ body, d.isDigit ∨ d = '.'

theorem IsNumeral.areWordChars {cs : List Char} (h : IsNumeral cs) : ∀ c ∈ cs, isWordChar c := by
  obtain ⟨c, body, rfl, hc, hbody⟩ := h
  have hdigit (d : Char) (hd : d.isDigit) : isWordChar d := by
    simp [isWordChar, Char.isAlphanum, hd]
  intro d hd
  rcases List.mem_cons.mp hd with rfl | hd
  · rcases hc with hc | rfl
    · exact hdigit d hc
    · rfl
  · rcases hbody d hd with hd | rfl
    · exact hdigit d hd
    · rfl

theorem afterDate?_of_not_mem (cs : List Char) (h : '-' ∉ cs.tail) : afterDate? cs = none := by
  unfold afterDate?
  split
  · simp at h
  · rfl

theorem afterTime?_of_not_mem (cs : List Char) (h : ':' ∉ cs) : afterTime? cs = none := by
  unfold afterTime?
  split
  · simp at h
  · rfl

theorem IsNumeral.afterDate?_eq {cs : List Char} (h : IsNumeral cs) : afterDate? cs = none := by
  obtain ⟨c, body, rfl, -, hbody⟩ := h
  apply afterDate?_of_not_mem
  intro hminus
  exact absurd (hbody _ hminus) (by decide)

theorem IsNumeral.isDatetime_eq {cs : List Char} (h : IsNumeral cs) : isDatetime cs = false := by
  have hdate := h.afterDate?_eq
  obtain ⟨c, body, rfl, hc, hbody⟩ := h
  have htime : afterTime? (c :: body) = none := by
    apply afterTime?_of_not_mem
    intro hcolon
    rcases List.mem_cons.mp hcolon with rfl | hcolon
    · exact absurd hc (by decide)
    · exact absurd (hbody _ hcolon) (by decide)
  rw [isDatetime, htime, hdate]
  rfl

theorem IsNumeral.ofWord?_eq {cs : List Char} (h : IsNumeral cs) :
    ofWord? cs = match integer? cs with
      | some n => some (integer n)
      | none => (real? cs).map float := by
  have hdatetime := h.isDatetime_eq
  obtain ⟨c, body, rfl, hc, -⟩ := h
  have hword (s : String) (d : Char) (rest : List Char) (hs : s.toList = d :: rest)
      (hd : ¬ (d.isDigit ∨ d = '-')) : c :: body ≠ s.toList := by
    intro heq
    exact hd ((List.cons_eq_cons.mp (heq.trans hs)).1 ▸ hc)
  rw [ofWord?, if_neg (hword "true" 't' _ rfl (by decide)),
    if_neg (hword "false" 'f' _ rfl (by decide)), hdatetime]
  exact if_neg (by decide)

theorem IsNumeral.integer?_eq {cs : List Char} (h : IsNumeral cs) :
    integer? cs = ((wholeDigits? (splitSign cs).2).map fun ds =>
      if (splitSign cs).1 then -(Decimal.ofDigits ds : Int) else Decimal.ofDigits ds).filter
        fun n => (CounterStream.int64? n).isSome := by
  obtain ⟨c, body, rfl, -, hbody⟩ := h
  have hbase (d : Char) (hd : ¬ (d.isDigit ∨ d = '.')) (rest : List Char) :
      c :: body ≠ '0' :: d :: rest := by
    intro heq
    obtain ⟨-, rfl⟩ := List.cons_eq_cons.mp heq
    exact hd (hbody d List.mem_cons_self)
  rw [integer?]
  · exact hbase 'x' (by decide)
  · exact hbase 'o' (by decide)
  · exact hbase 'b' (by decide)

/-! ## Signs -/

def sign (negative : Bool) : List Char := if negative then ['-'] else []

theorem splitSign_sign (negative : Bool) (c : Char) (cs : List Char) (hc : c.isDigit) :
    splitSign (sign negative ++ c :: cs) = (negative, c :: cs) := by
  cases negative with
  | true => rfl
  | false =>
    show splitSign (c :: cs) = _
    unfold splitSign
    split
    · rename_i heq
      obtain ⟨rfl, -⟩ := List.cons_eq_cons.mp heq
      exact absurd hc (by decide)
    · rename_i heq
      obtain ⟨rfl, -⟩ := List.cons_eq_cons.mp heq
      exact absurd hc (by decide)
    · rfl

theorem isNumeral_sign (negative : Bool) (c : Char) (cs : List Char) (hc : c.isDigit)
    (hcs : ∀ d ∈ cs, d.isDigit ∨ d = '.') : IsNumeral (sign negative ++ c :: cs) := by
  cases negative with
  | true => exact ⟨'-', c :: cs, rfl, Or.inr rfl, List.forall_mem_cons.mpr ⟨Or.inl hc, hcs⟩⟩
  | false => exact ⟨c, cs, rfl, Or.inl hc, hcs⟩

/-! ## Whole numbers -/

theorem ofWord?_toString (n : Int) (h : (CounterStream.int64? n).isSome) :
    IsNumeral (toString n).toList ∧ ofWord? (toString n).toList = some (integer n) := by
  have hdigits := isDigit_of_mem_toDigits n.natAbs
  have hwhole := wholeDigits?_of_digits _ Nat.toDigits_ne_nil hdigits (head_toDigits n.natAbs)
  have hvalue : Decimal.ofDigits (Nat.toDigits 10 n.natAbs) = n.natAbs :=
    Nat.ofDigitChars_ten_toDigits
  have htext : (toString n).toList = sign (n < 0) ++ Nat.toDigits 10 n.natAbs := by
    rw [Decimal.toList_toString]
    by_cases hn : 0 ≤ n
    · rw [if_pos hn, decide_eq_false (by omega)]
      rfl
    · rw [if_neg hn, decide_eq_true (by omega)]
      rfl
  obtain ⟨c, cs, hcs⟩ := List.exists_cons_of_ne_nil (Nat.toDigits_ne_nil (n := n.natAbs) (b := 10))
  rw [htext]
  rw [hcs] at hdigits hwhole hvalue ⊢
  have hc := hdigits c List.mem_cons_self
  have hnumeral := isNumeral_sign (n < 0) c cs hc
    fun d hd => Or.inl (hdigits d (List.mem_cons_of_mem c hd))
  refine ⟨hnumeral, ?_⟩
  have hn : (if decide (n < 0) then -(n.natAbs : Int) else n.natAbs) = n := by
    simp only [decide_eq_true_eq]
    split_ifs <;> omega
  rw [hnumeral.ofWord?_eq, hnumeral.integer?_eq, splitSign_sign _ c cs hc, hwhole]
  simp only [Option.map_some, hvalue, hn, Option.filter_some, h, if_pos]

/-! ## Real numbers -/

theorem pointedPlain_decimal (d : Decimal) :
    ∃ whole fraction, fraction ≠ [] ∧
      Layout.pointedPlain.decimal d = whole ++ '.' :: fraction ∧ d.Spells whole fraction := by
  rcases d.spells_cases with ⟨he, h⟩ | ⟨he, whole, fraction, hne, hp, h⟩
  · refine ⟨d.positional, ['0'], by simp, ?_, h.point_zero⟩
    simp [Layout.decimal, Layout.pointedPlain, he]
  · refine ⟨whole, fraction, hne, ?_, h⟩
    simp [Layout.decimal, Layout.pointedPlain, he, hp]

theorem realDigits?_point (d : Decimal) (whole fraction : List Char) (hne : fraction ≠ [])
    (h : d.Spells whole fraction) :
    realDigits? (whole ++ '.' :: fraction) = some (whole ++ '.' :: fraction) := by
  have hother (mark : Char) (hmark : mark.isDigit = false) (c : Char) (hc : c.isDigit) :
      c ≠ mark := by
    rintro rfl
    simp [hmark] at hc
  have hmark (c : Char) (hc : c.isDigit) : (!isExponentMark c) = true := by
    simp [isExponentMark, hother 'e' (by decide) c hc, hother 'E' (by decide) c hc]
  have hmarks : ∀ c ∈ whole ++ '.' :: fraction, (!isExponentMark c) = true := by
    intro c hc
    rw [List.mem_append, List.mem_cons] at hc
    rcases hc with hc | rfl | hc
    · exact hmark c (h.whole_digits c hc)
    · rfl
    · exact hmark c (h.fraction_digits c hc)
  have hpoint : ∀ c ∈ whole, decide (c ≠ '.') = true := fun c hc =>
    decide_eq_true (hother '.' (by decide) c (h.whole_digits c hc))
  have hend : ∀ c ∈ ('.' :: fraction).head?, ¬ decide (c ≠ '.') = true := by simp
  have hbody : (whole ++ '.' :: fraction).takeWhile (fun c => !isExponentMark c) =
      whole ++ '.' :: fraction := List.takeWhile_eq_self_iff.mpr hmarks
  have hexponent : (whole ++ '.' :: fraction).dropWhile (fun c => !isExponentMark c) = [] :=
    List.dropWhile_eq_nil_iff.mpr hmarks
  have hwhole := Text.takeWhile_run (fun c => decide (c ≠ '.')) whole _ hpoint hend
  have hfraction := Text.dropWhile_run (fun c => decide (c ≠ '.')) whole _ hpoint hend
  rw [realDigits?]
  simp only [hbody, hexponent, hwhole, hfraction,
    wholeDigits?_of_digits whole h.whole_ne_nil h.whole_digits h.leading,
    digits?_of_digits fraction hne h.fraction_digits]
  rfl

theorem real?_point (x : Double) (hx : x.isFinite) (d : Decimal) (whole fraction : List Char)
    (hne : fraction ≠ []) (h : d.Spells whole fraction)
    (hd : d.toBinary Format.double x.negative = x) :
    real? (sign x.negative ++ (whole ++ '.' :: fraction)) = some x := by
  have hdigits := realDigits?_point d whole fraction hne h
  obtain ⟨e, he, hvalue⟩ := Decimal.unsigned?_point h
  obtain ⟨c, cs, rfl, hc⟩ := h.cons
  rw [List.cons_append] at *
  have hread : Binary.unsigned? Format.double x.negative (c :: (cs ++ '.' :: fraction)) =
      some x := by
    rw [Binary.unsigned?_of_digit _ c _ hc, he, Option.map_some,
      Decimal.toBinary_congr Format.double_moderate _ e d hvalue, hd]
  have hword (d : Char) (rest : List Char) (hd : d.isDigit = false) :
      c :: (cs ++ '.' :: fraction) ≠ d :: rest := by
    intro heq
    obtain ⟨rfl, -⟩ := List.cons_eq_cons.mp heq
    simp [hd] at hc
  rw [real?, splitSign_sign _ c _ hc]
  dsimp only
  rw [if_neg (hword 'i' _ (by decide)), if_neg (hword 'n' _ (by decide)), hdigits,
    Option.bind_some, hread]
  simp [Binary.isInfinite_eq_false x hx]

theorem ofWord?_write (x : Double) (hx : x.isFinite) :
    IsNumeral (Layout.pointedPlain.write x).toList ∧
      ofWord? (Layout.pointedPlain.write x).toList = some (float x) := by
  obtain ⟨whole, fraction, hne, hdecimal, h⟩ := pointedPlain_decimal (x.shortest .larger)
  have htext : (Layout.pointedPlain.write x).toList =
      sign x.negative ++ (whole ++ '.' :: fraction) := by
    rw [Binary.toList_write _ x hx]
    show (if x.negative then '-' :: Layout.pointedPlain.decimal (x.shortest .larger)
      else Layout.pointedPlain.decimal (x.shortest .larger)) = _
    rw [hdecimal]
    cases x.negative <;> rfl
  have hreal := real?_point x hx _ whole fraction hne h
    (Binary.toBinary_shortest Format.double_moderate .larger x hx)
  have hfraction := h.fraction_digits
  have hwhole := h.whole_digits
  obtain ⟨c, cs, rfl, hc⟩ := h.cons
  rw [htext]
  rw [List.cons_append] at hreal ⊢
  have hnumeral := isNumeral_sign x.negative c (cs ++ '.' :: fraction) hc fun d hd => by
    rw [List.mem_append, List.mem_cons] at hd
    rcases hd with hd | rfl | hd
    · exact Or.inl (hwhole d (List.mem_cons_of_mem c hd))
    · exact Or.inr rfl
    · exact Or.inl (hfraction d hd)
  -- A point is no digit of a whole number.
  have hinteger := wholeDigits?_of_mem '.' (by decide) (by decide) (c :: (cs ++ '.' :: fraction))
    (by simp)
  refine ⟨hnumeral, ?_⟩
  rw [hnumeral.ofWord?_eq, hnumeral.integer?_eq, splitSign_sign _ c _ hc, hinteger, hreal]
  rfl

/-! ## Values up to the end of a line -/

/-- A text with no blank before it that is read as the value when a line ends after it. -/
structure ReadsAs (text : List Char) (value : Toml) : Prop where
  head : ∀ c ∈ text.head?, isBlank c = false
  value : ∀ fuel depth rest, value? (fuel + 1) depth (text ++ '\n' :: rest) =
    some (value, '\n' :: rest)

theorem IsNumeral.word? {cs : List Char} (h : IsNumeral cs) {value : Toml}
    (hvalue : ofWord? cs = some value) (rest : List Char) :
    word? (cs ++ '\n' :: rest) = some (value, '\n' :: rest) := by
  have hend : ∀ c ∈ ('\n' :: rest).head?, ¬ isWordChar c := by
    rintro c ⟨⟩
    decide
  have htake := Text.takeWhile_run isWordChar cs _ h.areWordChars hend
  have hdrop := Text.dropWhile_run isWordChar cs _ h.areWordChars hend
  rw [Toml.word?]
  simp only [htake, hdrop, h.afterDate?_eq, hvalue]
  rfl

theorem IsNumeral.readsAs {cs : List Char} (h : IsNumeral cs) {value : Toml}
    (hvalue : Toml.ofWord? cs = some value) : ReadsAs cs value := by
  have hword := h.word? hvalue
  obtain ⟨c, body, rfl, hc, -⟩ := h
  have hother (d : Char) (hd : ¬ (d.isDigit ∨ d = '-')) : c ≠ d := by
    rintro rfl
    exact hd hc
  refine ⟨?_, fun fuel depth rest => ?_⟩
  · rintro d ⟨⟩
    simp [isBlank, hother ' ' (by decide), hother '\t' (by decide)]
  · rw [List.cons_append, value?, ← List.cons_append, hword]
    · exact fun cs heq => hother '[' (by decide) (List.cons_eq_cons.mp heq).1
    · exact fun cs heq => hother '\x7b' (by decide) (List.cons_eq_cons.mp heq).1
    · exact fun cs heq => hother '"' (by decide) (List.cons_eq_cons.mp heq).1
    · exact fun cs heq => hother '\'' (by decide) (List.cons_eq_cons.mp heq).1

/-- A character that stands for itself between quotes. -/
def IsPlainChar (c : Char) : Prop := isTextChar c ∧ c ≠ '"' ∧ c ≠ '\\'

instance : DecidablePred IsPlainChar := fun c =>
  inferInstanceAs (Decidable (isTextChar c ∧ c ≠ '"' ∧ c ≠ '\\'))

theorem basic?_of_isPlainChar (cs rest : List Char) (h : ∀ c ∈ cs, IsPlainChar c) :
    basic? (cs ++ '"' :: rest) = some (cs, rest) := by
  induction cs with
  | nil => rfl
  | cons c cs ih =>
    obtain ⟨htext, hquote, hbackslash⟩ := h c List.mem_cons_self
    have hrest := ih fun d hd => h d (List.mem_cons_of_mem c hd)
    rw [List.cons_append, basic?, hrest, if_pos ⟨htext, hbackslash⟩]
    · rfl
    · exact hquote
    · exact fun _ _ _ _ _ hc => absurd hc hbackslash
    · exact fun _ _ _ _ _ _ _ _ _ hc => absurd hc hbackslash
    · exact fun _ _ hc => absurd hc hbackslash

theorem readsAs_string (s : String) (h : ∀ c ∈ s.toList, IsPlainChar c) :
    ReadsAs ('"' :: s.toList ++ ['"']) (string s) := by
  refine ⟨by rintro d ⟨⟩; rfl, fun fuel depth rest => ?_⟩
  have htext : '"' :: s.toList ++ ['"'] ++ '\n' :: rest =
      '"' :: (s.toList ++ '"' :: '\n' :: rest) := by simp
  have hstring : string? ('"' :: (s.toList ++ '"' :: '\n' :: rest)) = some (s, '\n' :: rest) := by
    rw [string?, basic?_of_isPlainChar _ _ h]
    · simp
    -- No string begins with three quotes here, since none begins with one.
    intro rest' heq
    cases hs : s.toList with
    | nil => simp [hs] at heq
    | cons c cs =>
      rw [hs] at h heq
      exact (h c List.mem_cons_self).2.1 (List.cons_eq_cons.mp heq).1
  rw [htext, value?, hstring]
  rfl

/-! ## Scalars -/

/-- A value that is written on one line and read back from it. -/
inductive IsPlain : Toml → Prop
  | string (s : String) (h : ∀ c ∈ s.toList, IsPlainChar c) : IsPlain (.string s)
  | integer (n : Int) : IsPlain (.integer n)
  | float (x : Double) (h : x.isFinite) : IsPlain (.float x)

theorem IsPlain.readsAs {value : Toml} (h : IsPlain value) {text : List Char}
    (htext : scalar? value = some text) : ReadsAs text value := by
  cases h with
  | string s h =>
    obtain rfl := Option.some_inj.mp htext
    exact readsAs_string s h
  | integer n =>
    rw [scalar?] at htext
    split_ifs at htext with hn
    obtain rfl := Option.some_inj.mp htext
    obtain ⟨hnumeral, hword⟩ := ofWord?_toString n hn
    exact hnumeral.readsAs hword
  | float x h =>
    obtain rfl := Option.some_inj.mp htext
    obtain ⟨hnumeral, hword⟩ := ofWord?_write x h
    exact hnumeral.readsAs hword

end CounterStream.Toml
