import CounterStream.Proofs.Text

/-!
# Texts with case and blanks left out of account

Folding is lower case without the one rule that looks at a letter's place: every sigma is written
alike. So a folded text is the folded forms of its characters one after another, which cannot be
said of lower case itself. The fields of a text are its parts between commas without the blanks
around them.
-/

namespace CounterStream.Text

/-! ## Blanks at the ends -/

section

variable {b c : Char}

theorem trimEnd_append_cons (hc : ¬ isBlank c) (cs ds : List Char) :
    trimEnd (cs ++ c :: ds) = cs ++ c :: trimEnd ds := by
  have hfront (front : List Char) : (front ++ c :: cs.reverse).dropWhile isBlank =
      front.dropWhile isBlank ++ c :: cs.reverse := by
    rw [List.dropWhile_append, List.dropWhile_cons_of_neg hc]
    split_ifs with hempty
    · rw [List.isEmpty_iff.mp hempty, List.nil_append]
    · rfl
  unfold trimEnd
  simp [hfront]

theorem trimEnd_append_blank (hb : isBlank b) (cs : List Char) :
    trimEnd (cs ++ [b]) = trimEnd cs := by
  unfold trimEnd
  simp [hb]

theorem exists_trimEnd_append (cs : List Char) :
    ∃ blanks, (∀ b ∈ blanks, isBlank b) ∧ cs = trimEnd cs ++ blanks := by
  refine ⟨(cs.reverse.takeWhile isBlank).reverse, ?_, ?_⟩
  · intro b hb
    exact List.mem_takeWhile_imp (List.mem_reverse.mp hb)
  · unfold trimEnd
    rw [← List.reverse_append, List.takeWhile_append_dropWhile, List.reverse_reverse]

theorem trim_cons_blank (hb : isBlank b) (cs : List Char) : trim (b :: cs) = trim cs := by
  unfold trim
  rw [List.dropWhile_cons_of_pos hb]

theorem trim_append_blank (hb : isBlank b) (cs : List Char) : trim (cs ++ [b]) = trim cs := by
  unfold trim
  rw [List.dropWhile_append]
  split_ifs with hempty
  · rw [List.isEmpty_iff.mp hempty, List.dropWhile_cons_of_pos hb, List.dropWhile_nil]
  · exact trimEnd_append_blank hb _

theorem trim_append_cons (hc : ¬ isBlank c) (cs ds : List Char) :
    trim (cs ++ c :: ds) = cs.dropWhile isBlank ++ c :: trimEnd ds := by
  unfold trim
  rw [List.dropWhile_append, List.dropWhile_cons_of_neg hc]
  split_ifs with hempty
  · rw [List.isEmpty_iff.mp hempty]
    exact trimEnd_append_cons hc [] ds
  · exact trimEnd_append_cons hc _ ds

theorem trim_map (f : Char → Char) (hf : ∀ c, isBlank (f c) = isBlank c) (cs : List Char) :
    trim (cs.map f) = (trim cs).map f := by
  have hblank : isBlank ∘ f = isBlank := funext hf
  unfold trim trimEnd
  rw [List.dropWhile_map, hblank, ← List.map_reverse, List.dropWhile_map, hblank, ← List.map_reverse]

end

/-! ## Fields -/

theorem split_map (separator : Char) (f : Char → Char) (hf : ∀ c, f c = separator ↔ c = separator)
    (cs : List Char) : split separator (cs.map f) = (split separator cs).map (List.map f) := by
  induction cs with
  | nil => rfl
  | cons c cs ih =>
    simp only [List.map_cons, split, hf, ih]
    split_ifs
    · rfl
    · cases split separator cs <;> rfl

theorem split_ne_nil (separator : Char) (cs : List Char) : split separator cs ≠ [] := by
  cases cs with
  | nil => simp [split]
  | cons c cs =>
    unfold split
    split_ifs
    · simp
    · split <;> simp

theorem split_append_separator (separator : Char) (cs ds : List Char) :
    split separator (cs ++ separator :: ds) = split separator cs ++ split separator ds := by
  induction cs with
  | nil => simp [split]
  | cons c cs ih =>
    simp only [List.cons_append, split, ih]
    split_ifs
    · rfl
    · cases hparts : split separator cs with
      | nil => exact absurd hparts (split_ne_nil separator cs)
      | cons part parts => rfl

def fields (cs : List Char) : List (List Char) := (split ',' cs).map trim

theorem fields_append_comma (cs ds : List Char) :
    fields (cs ++ ',' :: ds) = fields cs ++ fields ds := by
  unfold fields
  rw [split_append_separator, List.map_append]

theorem fields_of_not_mem {cs : List Char} (h : ',' ∉ cs) : fields cs = [trim cs] := by
  unfold fields
  rw [split_of_not_mem ',' cs h, List.map_singleton]

section

variable {b : Char} (hb : isBlank b)

include hb

theorem comma_ne_blank : ',' ≠ b := by
  rintro rfl
  exact absurd hb (by decide)

theorem fields_cons_blank (cs : List Char) : fields (b :: cs) = fields cs := by
  unfold fields
  rw [split, if_neg (comma_ne_blank hb).symm]
  cases hparts : split ',' cs with
  | nil => exact absurd hparts (split_ne_nil ',' cs)
  | cons part parts => simp only [List.map_cons, trim_cons_blank hb]

theorem fields_append_blank (cs : List Char) : fields (cs ++ [b]) = fields cs := by
  induction hn : cs.length using Nat.strong_induction_on generalizing cs with
  | _ n ih =>
    by_cases hcomma : ',' ∈ cs
    · -- The blank stands in the part behind the comma, or in one behind a later comma.
      obtain ⟨front, rest, rfl⟩ := List.append_of_mem hcomma
      rw [List.append_assoc, List.cons_append, fields_append_comma, fields_append_comma,
        ih rest.length (by simp at hn; omega) rest rfl]
    · have hboth : ',' ∉ cs ++ [b] := by simp [hcomma, comma_ne_blank hb]
      rw [fields_of_not_mem hboth, fields_of_not_mem hcomma, trim_append_blank hb]

end

theorem fields_append_blanks (cs : List Char) {blanks : List Char} (h : ∀ b ∈ blanks, isBlank b) :
    fields (cs ++ blanks) = fields cs := by
  induction blanks generalizing cs with
  | nil => rw [List.append_nil]
  | cons b blanks ih =>
    rw [List.append_cons, ih _ fun d hd => h d (List.mem_cons_of_mem b hd),
      fields_append_blank (h b List.mem_cons_self)]

/-! ## Folding -/

/-- A sigma as it is written inside a word. -/
def plainSigma (c : Char) : Char := if c = 'ς' then 'σ' else c

def foldChar (c : Char) : List Char := if c = 'Σ' then ['σ'] else (lowerChar c).map plainSigma

def fold (cs : List Char) : List Char := cs.flatMap foldChar

theorem fold_append (cs ds : List Char) : fold (cs ++ ds) = fold cs ++ fold ds := by
  simp [fold]

/-- Lower case is folding but for the sigmas at the ends of words. -/
theorem map_plainSigma_lower (cs : List Char) : (lower cs).map plainSigma = fold cs := by
  suffices hall : ∀ before, (lowerAfter before cs).map plainSigma = fold cs from hall []
  intro before
  induction cs generalizing before with
  | nil => rfl
  | cons c cs ih =>
    unfold lowerAfter fold foldChar
    rw [List.map_append, ih, List.flatMap_cons]
    congr 1
    split_ifs <;> rfl

/-! ### Letters -/

theorem toLower_cases (c : Char) :
    c.toLower = c ∨ 65 ≤ c.toNat ∧ c.toNat ≤ 90 ∧ c.toLower.toNat = c.toNat + 32 := by
  by_cases hc : c.isUpper
  · obtain ⟨hlow, hhigh⟩ := of_decide_eq_true hc
    have hlow' : 65 ≤ c.toNat := UInt32.le_iff_toNat_le.mp hlow
    have hhigh' : c.toNat ≤ 90 := UInt32.le_iff_toNat_le.mp hhigh
    refine Or.inr ⟨hlow', hhigh', ?_⟩
    have hlower : c.toLower.val = c.val + 32 := by
      unfold Char.toLower
      rw [dif_pos ⟨hlow, hhigh⟩]
      rfl
    show c.toLower.val.toNat = c.val.toNat + 32
    rw [hlower, UInt32.toNat_add]
    change c.val.toNat ≤ 90 at hhigh'
    exact Nat.mod_eq_of_lt (by change c.val.toNat + 32 < 2 ^ 32; omega)
  · exact Or.inl (toLower_of_not_isUpper c hc)

theorem isBlank_toLower (c : Char) : isBlank c.toLower = isBlank c := by
  rcases toLower_cases c with h | ⟨hlow, hhigh, h⟩
  · rw [h]
  · have hneither (d : Char) (hd : 65 ≤ d.toNat) (hd' : d.toNat ≤ 122) : isBlank d = false := by
      simp only [isBlank, Bool.or_eq_false_iff, Bool.and_eq_false_iff, decide_eq_false_iff_not,
        beq_eq_false_iff_ne]
      omega
    rw [hneither c hlow (by omega), hneither c.toLower (by omega) (by omega)]

theorem foldChar_toLower (c : Char) : foldChar c.toLower = foldChar c := by
  rcases toLower_cases c with h | ⟨hlow, hhigh, h⟩
  · rw [h]
  · have hsigma (d : Char) (hd : d.toNat < 128) : d ≠ 'Σ' := by
      rintro rfl
      exact absurd hd (by decide)
    have htwice : c.toLower.toLower = c.toLower := by
      rcases toLower_cases c.toLower with h' | ⟨-, hhigh', -⟩
      · exact h'
      · omega
    unfold foldChar lowerChar
    rw [if_neg (hsigma _ (by omega)), if_neg (hsigma _ (by omega)), if_pos (by omega),
      if_pos (by omega), htwice]

theorem fold_map_toLower (cs : List Char) : fold (cs.map Char.toLower) = fold cs := by
  unfold fold
  rw [List.flatMap_map]
  simp only [foldChar_toLower]

/-! ### Blanks and colons -/

/-- The code points of the blanks. -/
def blankCodes : List Nat :=
  List.range' 9 5 ++ [0x20, 0x85, 0xa0, 0x1680] ++ List.range' 0x2000 11 ++
    [0x2028, 0x2029, 0x202f, 0x205f, 0x3000]

theorem foldChar_of_isBlank {b : Char} (hb : isBlank b) : foldChar b = [b] := by
  have hcode : b.toNat ∈ blankCodes := by
    simp only [isBlank, Bool.or_eq_true, Bool.and_eq_true, decide_eq_true_eq, beq_iff_eq] at hb
    simp only [blankCodes, List.mem_append, List.mem_range'_1, List.mem_cons, List.not_mem_nil]
    omega
  have hall : ∀ n ∈ blankCodes, foldChar (Char.ofNat n) = [Char.ofNat n] := by decide
  have hself := hall _ hcode
  rwa [Char.ofNat_toNat] at hself

theorem fold_cons_blank {b : Char} (hb : isBlank b) (cs : List Char) :
    fold (b :: cs) = b :: fold cs := by
  rw [fold, List.flatMap_cons, foldChar_of_isBlank hb]
  rfl

theorem fold_of_isBlank {blanks : List Char} (h : ∀ b ∈ blanks, isBlank b) :
    fold blanks = blanks := by
  induction blanks with
  | nil => rfl
  | cons b blanks ih =>
    rw [fold_cons_blank (h b List.mem_cons_self), ih fun d hd => h d (List.mem_cons_of_mem b hd)]

theorem fields_fold_trimEnd (cs : List Char) : fields (fold (trimEnd cs)) = fields (fold cs) := by
  obtain ⟨blanks, hblanks, hcs⟩ := exists_trimEnd_append cs
  conv => rhs; rw [hcs, fold_append, fold_of_isBlank hblanks, fields_append_blanks _ hblanks]

theorem plainSigma_eq_iff {c d : Char} (hd : d ≠ 'ς') (hd' : d ≠ 'σ') :
    plainSigma c = d ↔ c = d := by
  unfold plainSigma
  split_ifs with hc
  · exact iff_of_false (Ne.symm hd') fun h => hd (h.symm.trans hc)
  · rfl

theorem toNat_ofNat_cases (n : Nat) : (Char.ofNat n).toNat = n ∨ (Char.ofNat n).toNat = 0 := by
  by_cases h : n.isValidChar
  · have hchar : Char.ofNat n = Char.ofNatAux n h := dif_pos h
    exact Or.inl (congrArg Char.toNat hchar)
  · have hchar : Char.ofNat n = '\x00' := dif_neg h
    exact Or.inr (congrArg Char.toNat hchar)

theorem ofNat_ne_colon {n : Nat} (hn : 59 ≤ n) : Char.ofNat n ≠ ':' := by
  intro h
  have hcode : (Char.ofNat n).toNat = 58 := h ▸ rfl
  have hcases := toNat_ofNat_cases n
  omega

theorem colon_not_mem_lowerChar {c : Char} (hc : c ≠ ':') : ':' ∉ lowerChar c := by
  have hruns : ∀ r ∈ lowerRuns, 59 ≤ r.lower := by
    have hall : lowerRuns.all (59 ≤ ·.lower) := by decide +kernel
    simpa using hall
  unfold lowerChar
  split_ifs with hascii hdotted
  · rw [List.mem_singleton]
    rcases toLower_cases c with h | ⟨hlow, -, h⟩
    · rw [h]
      exact hc.symm
    · intro heq
      rw [← heq] at h
      have hcolon : ':'.toNat = 58 := rfl
      omega
  · decide
  · split
    · rename_i r hr
      have hlower := hruns r (List.mem_of_find?_eq_some hr)
      rw [List.mem_singleton]
      exact (ofNat_ne_colon (by omega)).symm
    · rw [List.mem_singleton]
      exact hc.symm

theorem colon_not_mem_fold {cs : List Char} (h : ':' ∉ cs) : ':' ∉ fold cs := by
  unfold fold
  rw [List.mem_flatMap]
  rintro ⟨c, hc, hcolon⟩
  unfold foldChar at hcolon
  split_ifs at hcolon
  · exact absurd hcolon (by decide)
  · obtain ⟨d, hd, hplain⟩ := List.mem_map.mp hcolon
    rw [plainSigma_eq_iff (by decide) (by decide)] at hplain
    subst hplain
    exact colon_not_mem_lowerChar (fun heq => h (heq ▸ hc)) hd

theorem isBlank_plainSigma (c : Char) : isBlank (plainSigma c) = isBlank c := by
  unfold plainSigma
  split_ifs with hc
  · subst hc
    rfl
  · rfl

end CounterStream.Text
