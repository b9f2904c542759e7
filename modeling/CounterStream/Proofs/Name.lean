import CounterStream.Distribution.Name
import CounterStream.Proofs.Positional

/-!
# Names read back

The text of a distribution holds nothing that trimming, lower case or splitting could change, and
each number in it is read back bit for bit.
-/

namespace CounterStream

/-! ## Texts of parameters -/

/-- The characters that numbers are written with. -/
def IsNumberChar (c : Char) : Prop := c.isDigit ∨ c = '.' ∨ c = '-'

theorem IsNumberChar.isSettled {c : Char} (h : IsNumberChar c) : Text.isSettled c := by
  rcases h with h | rfl | rfl
  · exact Text.isSettled_of_isDigit c h
  · decide
  · decide

theorem not_isNumberChar_comma : ¬ IsNumberChar ',' := by
  simp [IsNumberChar]

theorem Binary.isNumberChar_of_mem_text {F : Format} (x : Binary F) (hx : x.isFinite) :
    ∀ c ∈ x.text.toList, IsNumberChar c := by
  have hpositional := (x.shortest .larger).isDigit_or_point_of_mem_positional
  intro c hc
  rw [toList_text x hx] at hc
  split_ifs at hc
  · rcases List.mem_cons.mp hc with rfl | hc
    · exact Or.inr (Or.inr rfl)
    · exact (hpositional c hc).imp_right Or.inl
  · exact (hpositional c hc).imp_right Or.inl

theorem isNumberChar_of_mem_toString (n : Int) : ∀ c ∈ (toString n).toList, IsNumberChar c := by
  have hdigits := isDigit_of_mem_toDigits n.natAbs
  intro c hc
  rw [Decimal.toList_toString] at hc
  split_ifs at hc
  · exact Or.inl (hdigits c hc)
  · rcases List.mem_cons.mp hc with rfl | hc
    · exact Or.inr (Or.inr rfl)
    · exact Or.inl (hdigits c hc)

theorem int64?_toInt (n : Int64) : int64? n.toInt = some n := by
  rw [int64?, if_pos ⟨n.minValue_le_toInt, n.toInt_le⟩, Int64.ofInt_toInt]

namespace Distribution

theorem real_text (x : Single) (hx : x.isFinite) : real x.text.toList = .ok x := by
  rw [real, Binary.read?_text Format.single_moderate x hx]

theorem integer_toString (n : Int64) : integer (toString n.toInt).toList = .ok n := by
  rw [integer, readInt64?, Decimal.integer?_toString, Option.bind_some, int64?_toInt]

/-! ## Distributions with numbers that can be written -/

/-- Every parameter is a number. -/
def IsFinite : Distribution → Prop
  | uniformRange low high => low.isFinite ∧ high.isFinite
  | normal mean deviation => mean.isFinite ∧ deviation.isFinite
  | exponential rate => rate.isFinite
  | _ => True

theorem isFinite_of_check (d : Distribution) (h : d.check = .ok ()) : d.IsFinite := by
  unfold check at h
  split at h
  · split_ifs at h with h1 h2
    simp only [Bool.or_eq_true, Bool.not_eq_true', not_or, Bool.not_eq_false] at h1
    exact h1.1
  · trivial
  · split_ifs at h with h1
    simp only [Bool.or_eq_true, Bool.not_eq_true', not_or, Bool.not_eq_false] at h1
    exact h1.1
  · split_ifs at h with h1
    simp only [Bool.or_eq_true, Bool.not_eq_true', not_or, Bool.not_eq_false] at h1
    exact h1.1
  · unfold IsFinite
    split <;> simp_all

theorem isNumberChar_of_mem_parameters (d : Distribution) (h : d.IsFinite) :
    ∀ p ∈ d.parameters, ∀ c ∈ p.toList, IsNumberChar c := by
  cases d with
  | uniformRange low high =>
    simp only [parameters, List.forall_mem_cons, List.not_mem_nil, false_implies, implies_true]
    exact ⟨low.isNumberChar_of_mem_text h.1, high.isNumberChar_of_mem_text h.2, trivial⟩
  | uniformInteger low high =>
    simp only [parameters, List.forall_mem_cons, List.not_mem_nil, false_implies, implies_true]
    exact ⟨isNumberChar_of_mem_toString _, isNumberChar_of_mem_toString _, trivial⟩
  | normal mean deviation =>
    simp only [parameters, List.forall_mem_cons, List.not_mem_nil, false_implies, implies_true]
    exact ⟨mean.isNumberChar_of_mem_text h.1, deviation.isNumberChar_of_mem_text h.2, trivial⟩
  | exponential rate =>
    simp only [parameters, List.forall_mem_cons, List.not_mem_nil, false_implies, implies_true]
    exact ⟨rate.isNumberChar_of_mem_text h, trivial⟩
  | _ => simp [parameters]

theorem ofParts_parameters (d : Distribution) (h : d.IsFinite) (whole : String) :
    ofParts whole d.name (d.parameters.map String.toList) = .ok d := by
  cases d with
  | uniformRange low high =>
    simp only [name, parameters, List.map_cons, List.map_nil, ofParts, real_text low h.1,
      real_text high h.2]
    rfl
  | uniformInteger low high =>
    simp only [name, parameters, List.map_cons, List.map_nil, ofParts, integer_toString]
    rfl
  | normal mean deviation =>
    simp only [name, parameters, List.map_cons, List.map_nil, ofParts, real_text mean h.1,
      real_text deviation h.2]
    rfl
  | exponential rate =>
    simp only [name, parameters, List.map_cons, List.map_nil, ofParts, real_text rate h]
    rfl
  | _ => rfl

/-! ## Splitting -/

theorem name_settled (d : Distribution) :
    ∀ c ∈ d.name.toList, Text.isSettled c ∧ c ≠ ':' := by
  apply Text.forall_mem_of_all
  cases d <;> simp only [name] <;> decide

theorem toList_text_nil (d : Distribution) (h : d.parameters = []) :
    d.text.toList = d.name.toList := by
  rw [text, h]

theorem toList_text_cons (d : Distribution) (p : String) (ps : List String)
    (h : d.parameters = p :: ps) :
    d.text.toList = d.name.toList ++ ':' :: [','].intercalate ((p :: ps).map String.toList) := by
  rw [text, h]
  simp

theorem splitName_of_not_mem (cs : List Char) (h : ':' ∉ cs) : splitName cs = (cs, []) := by
  have hdrop : cs.dropWhile (· ≠ ':') = [] := by
    rw [List.dropWhile_eq_nil_iff]
    intro c hc
    simp only [ne_eq, decide_not, Bool.not_eq_true', decide_eq_false_iff_not]
    rintro rfl
    exact h hc
  rw [splitName, hdrop]

theorem splitName_append (cs rest : List Char) (h : ':' ∉ cs) :
    splitName (cs ++ ':' :: rest) = (cs, (Text.split ',' rest).map Text.trim) := by
  have hcs : ∀ c ∈ cs, decide (c ≠ ':') = true := by
    intro c hc
    simp only [ne_eq, decide_not, Bool.not_eq_true', decide_eq_false_iff_not]
    rintro rfl
    exact h hc
  rw [splitName, List.dropWhile_append_of_pos hcs, List.dropWhile_cons_of_neg (by simp),
    List.takeWhile_append_of_pos hcs, List.takeWhile_cons_of_neg (by simp), List.append_nil]

theorem split_intercalate (p : List Char) (ps : List (List Char))
    (h : ∀ q ∈ p :: ps, ',' ∉ q) : Text.split ',' ([','].intercalate (p :: ps)) = p :: ps := by
  induction ps generalizing p with
  | nil =>
    rw [List.intercalate_singleton]
    exact Text.split_of_not_mem ',' p (h p List.mem_cons_self)
  | cons q ps ih =>
    rw [List.intercalate_cons_cons, List.append_assoc, List.singleton_append,
      Text.split_append ',' p _ (h p List.mem_cons_self),
      ih q fun r hr => h r (List.mem_cons_of_mem p hr)]

theorem splitName_text (d : Distribution) (h : d.IsFinite) :
    (∀ c ∈ d.text.toList, Text.isSettled c) ∧
      splitName d.text.toList = (d.name.toList, d.parameters.map String.toList) := by
  have hname : ':' ∉ d.name.toList := fun hc => (d.name_settled _ hc).2 rfl
  have hnumbers := d.isNumberChar_of_mem_parameters h
  cases hparameters : d.parameters with
  | nil =>
    rw [toList_text_nil d hparameters, splitName_of_not_mem _ hname]
    exact ⟨fun c hc => (d.name_settled c hc).1, rfl⟩
  | cons p ps =>
    rw [hparameters] at hnumbers
    have hparts : ∀ q ∈ (p :: ps).map String.toList, ∀ c ∈ q, IsNumberChar c := by
      intro q hq
      obtain ⟨r, hr, rfl⟩ := List.mem_map.mp hq
      exact hnumbers r hr
    have hsplit := split_intercalate p.toList (ps.map String.toList)
      fun q hq hc => not_isNumberChar_comma (hparts q hq _ hc)
    have hsettled : ∀ q ∈ (p :: ps).map String.toList, ∀ c ∈ q, Text.isSettled c :=
      fun q hq c hc => (hparts q hq c hc).isSettled
    have htrim : ((p :: ps).map String.toList).map Text.trim = (p :: ps).map String.toList :=
      (List.map_congr_left fun q hq => Text.trim_of_isSettled q (hsettled q hq)).trans
        (List.map_id _)
    rw [toList_text_cons d p ps hparameters, splitName_append _ _ hname]
    refine ⟨?_, ?_⟩
    · intro c hc
      rcases List.mem_append.mp hc with hc | hc
      · exact (d.name_settled c hc).1
      · rcases List.mem_cons.mp hc with rfl | hc
        · decide
        · exact Text.forall_mem_intercalate (by decide) _ hsettled c hc
    · rw [List.map_cons, hsplit, ← List.map_cons (f := String.toList), htrim]

theorem read_text_of_isFinite (d : Distribution) (h : d.IsFinite) (hcheck : d.check = .ok ()) :
    read d.text = .ok d := by
  obtain ⟨hsettled, hsplit⟩ := d.splitName_text h
  rw [read, Text.trim_of_isSettled _ hsettled, Text.lower_of_isSettled _ hsettled]
  simp only [hsplit, String.ofList_toList, d.ofParts_parameters h]
  show (do d.check; return d) = _
  rw [hcheck]
  rfl

theorem check_of_read (s : String) (d : Distribution) (h : read s = .ok d) :
    d.check = .ok () := by
  unfold read at h
  simp only [bind, Except.bind] at h
  split at h
  · cases h
  · split at h
    · cases h
    · rename_i hcheck
      cases h
      exact hcheck

/-- A distribution whose parameters are accepted is read back from its text, and only such a one is
ever read. The text of a number is its sign and the fewest digits that are read back as it, with no
exponent, and digits are read as the nearest number. -/
theorem read_inverts_text :
    (∀ d : Distribution, d.check = .ok () → read d.text = .ok d) ∧
    (∀ (s : String) (d : Distribution), read s = .ok d →
      d.check = .ok () ∧ read d.text = .ok d) ∧
    (∀ x : Single, x.isFinite →
      x.text = String.ofList
        (if x.negative then '-' :: (x.shortest .larger).positional
          else (x.shortest .larger).positional) ∧
      (∀ c ∈ x.text.toList, IsNumberChar c) ∧
      Binary.read? Format.single x.text.toList = some x ∧
      ∀ d : Decimal, d.toBinary Format.single x.negative = x →
        (x.shortest .larger).digits.length ≤ d.digits.length) ∧
    ∀ (negative : Bool) (d : Decimal),
      (d.toBinary Format.single negative).negative = negative ∧
      Format.single.IsNearest (d.value * Format.single.one)
        (d.toBinary Format.single negative).ordinal := by
  have hF := Format.single_moderate
  have hback (d : Distribution) (h : d.check = .ok ()) : read d.text = .ok d :=
    d.read_text_of_isFinite (d.isFinite_of_check h) h
  refine ⟨hback, ?_, ?_, ?_⟩
  · intro s d h
    have hcheck := check_of_read s d h
    exact ⟨hcheck, hback d hcheck⟩
  · intro x hx
    refine ⟨?_, x.isNumberChar_of_mem_text hx, x.read?_text hF hx,
      x.shortest_digits_le hF .larger hx⟩
    rw [← x.toList_text hx, String.ofList_toList]
  · intro negative d
    exact ⟨d.toBinary_negative negative, d.toBinary_isNearest hF negative⟩

theorem read_inverts_text_at_zero :
    let least : Single := ⟨false, 1, by decide⟩
    let d := normal (Binary.zero true) least
    d.check = .ok () ∧ read " NORMAL: -0 ,\t1.4e-45" = .ok d ∧ read d.text = .ok d ∧
    least.isFinite ∧ (Decimal.mk 1 (-45)).toBinary Format.single false = least ∧
    (least.shortest .larger).digits.length ≤ (Decimal.mk 1 (-45)).digits.length := by
  intro least d
  have hread : read " NORMAL: -0 ,\t1.4e-45" = .ok d := by decide +kernel
  have hdecimal : (Decimal.mk 1 (-45)).toBinary Format.single false = least := by decide +kernel
  obtain ⟨hcheck, -⟩ := read_inverts_text.2.1 _ _ hread
  have hback := read_inverts_text.1 d hcheck
  obtain ⟨-, -, -, hdigits⟩ := read_inverts_text.2.2.1 least (by decide +kernel)
  exact ⟨hcheck, hread, hback, by decide +kernel, hdecimal, hdigits _ hdecimal⟩

end Distribution

end CounterStream
