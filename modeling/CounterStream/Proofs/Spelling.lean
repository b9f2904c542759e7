import Mathlib.Logic.Relation
import CounterStream.Proofs.Folding
import CounterStream.Proofs.Name

/-!
# Spellings of a name

A name may be written with letters of either case, and with blanks around the whole, after the colon
and around the commas. A change of the case or of the blanks can turn a sigma into a final one, but
only in a text that names nothing in either spelling.
-/

namespace CounterStream

/-! ## Names and numbers are written in ASCII -/

def IsAscii (cs : List Char) : Prop := ∀ c ∈ cs, c.toNat < 128

theorem isAscii_cons {c : Char} {cs : List Char} :
    IsAscii (c :: cs) ↔ c.toNat < 128 ∧ IsAscii cs := List.forall_mem_cons

theorem isAscii_of_isDigit {c : Char} (h : c.isDigit) : c.toNat < 128 := by
  have hdigit := Text.toNat_of_isDigit c h
  omega

theorem isAscii_of_dropWhile {cs : List Char} (h : IsAscii (cs.dropWhile Char.isDigit)) :
    IsAscii cs := by
  intro c hc
  rw [← List.takeWhile_append_dropWhile (p := Char.isDigit) (l := cs), List.mem_append] at hc
  rcases hc with hc | hc
  · exact isAscii_of_isDigit (List.mem_takeWhile_imp hc)
  · exact h c hc

namespace Decimal

theorem isAscii_of_natural? {cs : List Char} (h : natural? cs ≠ none) : IsAscii cs := by
  unfold natural? at h
  split_ifs at h with hdigits
  · intro c hc
    exact isAscii_of_isDigit (List.all_eq_true.mp hdigits.2 c hc)
  · exact absurd rfl h

theorem isAscii_of_integer? {cs : List Char} (h : integer? cs ≠ none) : IsAscii cs := by
  unfold integer? at h
  split at h
  · refine isAscii_cons.mpr ⟨by decide, isAscii_of_natural? fun hnone => h ?_⟩
    simp [hnone]
  · refine isAscii_cons.mpr ⟨by decide, isAscii_of_natural? fun hnone => h ?_⟩
    simp [hnone]
  · refine isAscii_of_natural? fun hnone => h ?_
    simp [hnone]

theorem isAscii_of_exponent? {cs : List Char} (h : exponent? cs ≠ none) : IsAscii cs := by
  unfold exponent? at h
  split at h
  · exact isAscii_cons.mpr ⟨by decide, isAscii_of_natural? fun hnone => h (by simp [hnone])⟩
  · exact isAscii_cons.mpr ⟨by decide, isAscii_of_natural? fun hnone => h (by simp [hnone])⟩
  · exact isAscii_of_natural? fun hnone => h (by simp [hnone])

theorem isAscii_of_ending {g : Int → Decimal} {cs : List Char}
    (h : ∀ c rest, cs = c :: rest →
      (if c = 'e' ∨ c = 'E' then (exponent? rest).map g else none) ≠ none) : IsAscii cs := by
  cases cs with
  | nil => simp [IsAscii]
  | cons c rest =>
    have hexponent := h c rest rfl
    split_ifs at hexponent with hletter
    · refine isAscii_cons.mpr ⟨?_, isAscii_of_exponent? fun hnone => hexponent (by simp [hnone])⟩
      rcases hletter with rfl | rfl <;> decide
    · exact absurd rfl hexponent

theorem isAscii_of_unsigned? {cs : List Char} (h : unsigned? cs ≠ none) : IsAscii cs := by
  apply isAscii_of_dropWhile
  unfold unsigned? at h
  simp only at h
  generalize cs.dropWhile Char.isDigit = rest at h ⊢
  split at h
  · split_ifs at h
    · exact absurd rfl h
    · refine isAscii_cons.mpr ⟨by decide, isAscii_of_dropWhile ?_⟩
      apply isAscii_of_ending
      intro c tail htail
      simp only [htail] at h
      exact h
  · split_ifs at h
    · exact absurd rfl h
    · apply isAscii_of_ending
      intro c tail htail
      simp only [htail] at h
      exact h

end Decimal

namespace Binary

variable {F : Format}

theorem isAscii_of_unsigned? {negative : Bool} {cs : List Char}
    (h : unsigned? F negative cs ≠ none) : IsAscii cs := by
  have hword {word : String} (hall : word.toList.all (·.toNat < 128))
      (heq : String.ofList (cs.map Char.toLower) = word) : IsAscii cs := by
    intro c hc
    have hmem : c.toLower ∈ word.toList := by
      rw [← heq, String.toList_ofList]
      exact List.mem_map_of_mem hc
    have hlower : c.toLower.toNat < 128 := by simpa using List.all_eq_true.mp hall _ hmem
    rcases Text.toLower_cases c with h | ⟨-, hhigh, -⟩
    · rwa [h] at hlower
    · omega
  unfold unsigned? at h
  simp only at h
  split_ifs at h with hinfinite hnan
  · rcases hinfinite with heq | heq
    · exact hword (by decide) heq
    · exact hword (by decide) heq
  · exact hword (by decide) hnan
  · exact Decimal.isAscii_of_unsigned? fun hnone => h (by simp [hnone])

theorem isAscii_of_read? {cs : List Char} (h : read? F cs ≠ none) : IsAscii cs := by
  unfold read? at h
  split at h
  · exact isAscii_cons.mpr ⟨by decide, isAscii_of_unsigned? h⟩
  · exact isAscii_cons.mpr ⟨by decide, isAscii_of_unsigned? h⟩
  · exact isAscii_of_unsigned? h

end Binary

namespace Distribution

theorem isAscii_of_real {cs : List Char} {x : Single} (h : real cs = .ok x) : IsAscii cs := by
  apply Binary.isAscii_of_read? (F := Format.single)
  intro hnone
  rw [real, hnone] at h
  cases h

theorem isAscii_of_integer {cs : List Char} {n : Int64} (h : integer cs = .ok n) : IsAscii cs := by
  apply Decimal.isAscii_of_integer?
  intro hnone
  rw [integer, readInt64?, hnone] at h
  cases h

theorem isAscii_of_two {α : Type} {f : List Char → Except ParameterError α}
    (hf : ∀ {cs : List Char} {x : α}, f cs = .ok x → IsAscii cs) {g : α → α → Distribution}
    {p q : List Char} {d : Distribution}
    (h : (do return g (← f p) (← f q)) = Except.ok (ε := ParameterError) d) :
    ∀ r ∈ [p, q], IsAscii r := by
  cases hp : f p with
  | error cause =>
    rw [hp] at h
    cases h
  | ok x =>
    cases hq : f q with
    | error cause =>
      rw [hp, hq] at h
      cases h
    | ok y => simp [hf hp, hf hq]

theorem isAscii_of_ofParts {whole name : String} {params : List (List Char)} {d : Distribution}
    (h : ofParts whole name params = .ok d) :
    IsAscii name.toList ∧ ∀ p ∈ params, IsAscii p := by
  unfold ofParts at h
  split at h
  case h_15 => cases h
  all_goals refine ⟨Text.forall_mem_of_all (by decide), ?_⟩
  -- The names with parameters; the others have none to check.
  case h_11 => exact isAscii_of_two isAscii_of_real h
  case h_12 => exact isAscii_of_two isAscii_of_integer h
  case h_13 => exact isAscii_of_two isAscii_of_real h
  case h_14 rate =>
    cases hrate : real rate with
    | error cause =>
      rw [hrate] at h
      cases h
    | ok x => simp [isAscii_of_real hrate]
  all_goals simp

/-! ## Reading without regard to errors -/

/-- The distribution of a name and its parameters, if they are accepted. -/
def ofPieces? (pieces : List Char × List (List Char)) : Option Distribution :=
  match ofParts "" (String.ofList pieces.1) pieces.2 with
  | .ok d => if d.check = .ok () then some d else none
  | .error _ => none

theorem toOption_ofParts (whole whole' name : String) (params : List (List Char)) :
    (ofParts whole name params).toOption = (ofParts whole' name params).toOption := by
  unfold ofParts
  split <;> rfl

theorem read_eq_ok_iff (s : String) (d : Distribution) :
    read s = .ok d ↔ ofPieces? (splitName (Text.lower (Text.trim s.toList))) = some d := by
  unfold read ofPieces?
  generalize Text.lower (Text.trim s.toList) = cs
  have hwhole := toOption_ofParts (String.ofList cs) "" (String.ofList (splitName cs).1)
    (splitName cs).2
  show (do
    let d ← ofParts (String.ofList cs) (String.ofList (splitName cs).1) (splitName cs).2
    d.check
    return d) = _ ↔ _
  cases hparts : ofParts (String.ofList cs) (String.ofList (splitName cs).1) (splitName cs).2 with
  | error cause =>
    cases hparts' : ofParts "" (String.ofList (splitName cs).1) (splitName cs).2 with
    | error cause' => simp [bind, Except.bind]
    | ok d' => simp [hparts, hparts', Except.toOption] at hwhole
  | ok d' =>
    cases hparts' : ofParts "" (String.ofList (splitName cs).1) (splitName cs).2 with
    | error cause' => simp [hparts, hparts', Except.toOption] at hwhole
    | ok d'' =>
      obtain rfl : d' = d'' := by simpa [hparts, hparts', Except.toOption] using hwhole
      cases hcheck : d'.check with
      | error cause => simp [bind, Except.bind, hcheck]
      | ok => simp [bind, Except.bind, hcheck, pure, Except.pure]

/-! ## Sigmas -/

theorem ofPieces?_eq_none {pieces : List Char × List (List Char)}
    (h : ¬ (IsAscii pieces.1 ∧ ∀ p ∈ pieces.2, IsAscii p)) : ofPieces? pieces = none := by
  unfold ofPieces?
  split
  · rename_i d hparts
    have hascii := isAscii_of_ofParts hparts
    rw [String.toList_ofList] at hascii
    exact absurd hascii h
  · rfl

theorem isAscii_map_plainSigma {cs : List Char} :
    IsAscii (cs.map Text.plainSigma) ↔ IsAscii cs := by
  have hchar (c : Char) : (Text.plainSigma c).toNat < 128 ↔ c.toNat < 128 := by
    unfold Text.plainSigma
    split_ifs with hc
    · subst hc
      decide
    · rfl
  unfold IsAscii
  rw [List.forall_mem_map]
  exact forall₂_congr fun c _ => hchar c

theorem map_plainSigma_of_isAscii {cs : List Char} (h : IsAscii cs) :
    cs.map Text.plainSigma = cs := by
  have hself : ∀ c ∈ cs, Text.plainSigma c = c := by
    intro c hc
    refine if_neg ?_
    rintro rfl
    exact absurd (h _ hc) (by decide)
  exact (List.map_congr_left hself).trans (List.map_id _)

/-- A text with a sigma names nothing, however the sigma is written. -/
theorem ofPieces?_map_plainSigma (pieces : List Char × List (List Char)) :
    ofPieces? (pieces.1.map Text.plainSigma, pieces.2.map (List.map Text.plainSigma)) =
      ofPieces? pieces := by
  by_cases h : IsAscii pieces.1 ∧ ∀ p ∈ pieces.2, IsAscii p
  · have hparams : pieces.2.map (List.map Text.plainSigma) = pieces.2 :=
      (List.map_congr_left fun p hp => map_plainSigma_of_isAscii (h.2 p hp)).trans (List.map_id _)
    rw [map_plainSigma_of_isAscii h.1, hparams]
  · rw [ofPieces?_eq_none h, ofPieces?_eq_none]
    rwa [isAscii_map_plainSigma, List.forall_mem_map, forall₂_congr fun p _ => isAscii_map_plainSigma]

theorem splitName_map_plainSigma (cs : List Char) :
    splitName (cs.map Text.plainSigma) =
      ((splitName cs).1.map Text.plainSigma,
        (splitName cs).2.map (List.map Text.plainSigma)) := by
  have hcolon (c : Char) : Text.plainSigma c = ':' ↔ c = ':' :=
    Text.plainSigma_eq_iff (by decide) (by decide)
  have hcomma (c : Char) : Text.plainSigma c = ',' ↔ c = ',' :=
    Text.plainSigma_eq_iff (by decide) (by decide)
  have hpred : (fun c : Char => decide (c ≠ ':')) ∘ Text.plainSigma = fun c => decide (c ≠ ':') := by
    funext c
    simp [hcolon]
  unfold splitName
  rw [List.dropWhile_map, List.takeWhile_map, hpred]
  cases cs.dropWhile fun c => decide (c ≠ ':') with
  | nil => rfl
  | cons c rest =>
    simp only [List.map_cons, Text.split_map ',' _ hcomma, List.map_map]
    congr 1
    apply List.map_congr_left
    intro p _
    exact Text.trim_map _ Text.isBlank_plainSigma p

/-! ## Spellings -/

/-- The name and the parameters that a text is made of, whatever its case and its blanks. -/
def pieces (cs : List Char) : List Char × List (List Char) := splitName (Text.fold (Text.trim cs))

theorem read_eq_ok_iff_pieces (s : String) (d : Distribution) :
    read s = .ok d ↔ ofPieces? (pieces s.toList) = some d := by
  rw [read_eq_ok_iff, pieces, ← Text.map_plainSigma_lower, splitName_map_plainSigma,
    ofPieces?_map_plainSigma]

theorem pieces_append_colon {name : List Char} (h : ':' ∉ name) (rest : List Char) :
    pieces (name ++ ':' :: rest) =
      (Text.fold (name.dropWhile Text.isBlank), Text.fields (Text.fold rest)) := by
  have hname : ':' ∉ Text.fold (name.dropWhile Text.isBlank) :=
    Text.colon_not_mem_fold fun hmem => h (List.dropWhile_subset _ hmem)
  have hcolon (cs : List Char) : Text.fold (':' :: cs) = ':' :: Text.fold cs := rfl
  rw [pieces, Text.trim_append_cons (by decide), Text.fold_append, hcolon, splitName_append _ _ hname]
  exact congrArg _ (Text.fields_fold_trimEnd rest)

/-- One change of a spelling: of the case of ASCII letters, or by a blank at either end, after the
first colon, or next to a comma behind it. -/
inductive Respelled : List Char → List Char → Prop
  | case (cs ds : List Char) (h : cs.map Char.toLower = ds.map Char.toLower) : Respelled cs ds
  | atStart (cs : List Char) (b : Char) (hb : Text.isBlank b) : Respelled cs (b :: cs)
  | atEnd (cs : List Char) (b : Char) (hb : Text.isBlank b) : Respelled cs (cs ++ [b])
  | afterColon (name rest : List Char) (b : Char) (hname : ':' ∉ name) (hb : Text.isBlank b) :
      Respelled (name ++ ':' :: rest) (name ++ ':' :: b :: rest)
  | beforeComma (name before after : List Char) (b : Char) (hname : ':' ∉ name)
      (hb : Text.isBlank b) :
      Respelled (name ++ ':' :: (before ++ ',' :: after))
        (name ++ ':' :: (before ++ b :: ',' :: after))
  | afterComma (name before after : List Char) (b : Char) (hname : ':' ∉ name)
      (hb : Text.isBlank b) :
      Respelled (name ++ ':' :: (before ++ ',' :: after))
        (name ++ ':' :: (before ++ ',' :: b :: after))

theorem pieces_of_respelled {cs ds : List Char} (h : Respelled cs ds) : pieces cs = pieces ds := by
  have hcomma (cs : List Char) : Text.fold (',' :: cs) = ',' :: Text.fold cs := rfl
  cases h with
  | case _ _ h =>
    unfold pieces
    rw [← Text.fold_map_toLower (Text.trim cs), ← Text.fold_map_toLower (Text.trim ds),
      ← Text.trim_map _ Text.isBlank_toLower, ← Text.trim_map _ Text.isBlank_toLower, h]
  | atStart _ _ hb => rw [pieces, pieces, Text.trim_cons_blank hb]
  | atEnd _ _ hb => rw [pieces, pieces, Text.trim_append_blank hb]
  | afterColon name rest b hname hb =>
    rw [pieces_append_colon hname, pieces_append_colon hname, Text.fold_cons_blank hb,
      Text.fields_cons_blank hb]
  | beforeComma name before after b hname hb =>
    rw [pieces_append_colon hname, pieces_append_colon hname, Text.fold_append, Text.fold_append,
      Text.fold_cons_blank hb, hcomma, List.append_cons (Text.fold before) b, Text.fields_append_comma,
      Text.fields_append_comma, Text.fields_append_blank hb]
  | afterComma name before after b hname hb =>
    rw [pieces_append_colon hname, pieces_append_colon hname, Text.fold_append, Text.fold_append,
      hcomma, hcomma, Text.fold_cons_blank hb, Text.fields_append_comma, Text.fields_append_comma,
      Text.fields_cons_blank hb]

theorem pieces_of_spelled {cs ds : List Char} (h : Relation.ReflTransGen Respelled cs ds) :
    pieces cs = pieces ds := by
  induction h with
  | refl => rfl
  | tail _ hstep ih => exact ih.trans (pieces_of_respelled hstep)

/-- Two spellings that differ in the case of letters and in blanks that do not count name the same
distribution, bit for bit, or both name none. -/
theorem spelling_does_not_matter (s t : String)
    (h : Relation.ReflTransGen Respelled s.toList t.toList) (d : Distribution) :
    read s = .ok d ↔ read t = .ok d := by
  rw [read_eq_ok_iff_pieces, read_eq_ok_iff_pieces, pieces_of_spelled h]

theorem spelling_does_not_matter_for_normal :
    let s := "normal:-0,2.5E1"
    let t := "\u00a0Normal:\t-0 ,\u20032.5e1"
    let d := normal (Binary.zero true) (Binary.ofNat 25)
    Relation.ReflTransGen Respelled s.toList t.toList ∧ read s = .ok d ∧ read t = .ok d ∧
    Relation.ReflTransGen Respelled "aΣ:b".toList "aΣ: b".toList ∧
    Text.lower "aΣ:b".toList ≠ (Text.lower "aΣ: b".toList).filter (· ≠ ' ') ∧
    (read "aΣ:b" = .ok d ↔ read "aΣ: b" = .ok d) := by
  intro s t d
  have hcase : Respelled s.toList "Normal:-0,2.5e1".toList := .case _ _ (by decide)
  have hcolon : Respelled "Normal:-0,2.5e1".toList "Normal:\t-0,2.5e1".toList :=
    .afterColon "Normal".toList "-0,2.5e1".toList '\t' (by decide) (by decide)
  have hbefore : Respelled "Normal:\t-0,2.5e1".toList "Normal:\t-0 ,2.5e1".toList :=
    .beforeComma "Normal".toList "\t-0".toList "2.5e1".toList ' ' (by decide) (by decide)
  have hafter : Respelled "Normal:\t-0 ,2.5e1".toList "Normal:\t-0 ,\u20032.5e1".toList :=
    .afterComma "Normal".toList "\t-0 ".toList "2.5e1".toList '\u2003' (by decide) (by decide)
  have hstart : Respelled "Normal:\t-0 ,\u20032.5e1".toList
      "\u00a0Normal:\t-0 ,\u20032.5e1".toList :=
    .atStart "Normal:\t-0 ,\u20032.5e1".toList '\u00a0' (by decide)
  have hspelled : Relation.ReflTransGen Respelled s.toList t.toList :=
    ((((Relation.ReflTransGen.single hcase).tail hcolon).tail hbefore).tail hafter).tail hstart
  have hread : read s = .ok d := by decide +kernel
  have hsigma : Relation.ReflTransGen Respelled "aΣ:b".toList "aΣ: b".toList :=
    .single (.afterColon "aΣ".toList "b".toList ' ' (by decide) (by decide))
  exact ⟨hspelled, hread, (spelling_does_not_matter s t hspelled d).mp hread, hsigma,
    by decide +kernel, spelling_does_not_matter _ _ hsigma d⟩

end Distribution

end CounterStream
