import Mathlib.Data.List.TakeWhile
import CounterStream.Text.Basic

/-! # Texts that reading leaves as they are -/

namespace CounterStream.Text

/-- Neither a blank nor a capital letter, and one byte long. -/
def isSettled (c : Char) : Bool := c.toNat < 128 && !c.isUpper && !isBlank c

theorem toLower_of_not_isUpper (c : Char) (h : ¬ c.isUpper) : c.toLower = c :=
  dif_neg fun hc => h (decide_eq_true hc)

theorem toNat_of_isDigit (c : Char) (h : c.isDigit) : 48 ≤ c.toNat ∧ c.toNat ≤ 57 := by
  simp only [Char.isDigit, Bool.and_eq_true, decide_eq_true_eq, UInt32.le_iff_toNat_le, ge_iff_le]
    at h
  exact h

theorem isSettled_of_isDigit (c : Char) (h : c.isDigit) : isSettled c := by
  obtain ⟨hlow, hhigh⟩ := toNat_of_isDigit c h
  have hupper : c.isUpper = false := decide_eq_false fun hc => by
    have hletter : 65 ≤ c.toNat := UInt32.le_iff_toNat_le.mp hc.1
    omega
  have hblank : isBlank c = false := by
    simp only [isBlank, Bool.or_eq_false_iff, Bool.and_eq_false_iff, decide_eq_false_iff_not,
      beq_eq_false_iff_ne]
    omega
  rw [isSettled, hupper, hblank, decide_eq_true (show c.toNat < 128 by omega)]
  rfl

theorem toLower_of_isDigit (c : Char) (h : c.isDigit) : c.toLower = c := by
  have hc := isSettled_of_isDigit c h
  simp only [isSettled, Bool.and_eq_true, Bool.not_eq_true'] at hc
  exact toLower_of_not_isUpper c (by simp [hc.1.2])

theorem lowerChar_of_isSettled (c : Char) (h : isSettled c) : lowerChar c = [c] := by
  simp only [isSettled, Bool.and_eq_true, decide_eq_true_eq, Bool.not_eq_true'] at h
  rw [lowerChar, if_pos h.1.1, toLower_of_not_isUpper c (by simp [h.1.2])]

theorem lower_of_isSettled (cs : List Char) (h : ∀ c ∈ cs, isSettled c) : lower cs = cs := by
  suffices hall : ∀ before, lowerAfter before cs = cs from hall []
  intro before
  induction cs generalizing before with
  | nil => rfl
  | cons c rest ih =>
    have hc := h c List.mem_cons_self
    have hsigma : c ≠ 'Σ' := by
      rintro rfl
      exact absurd hc (by decide)
    simp only [lowerAfter, if_neg hsigma, lowerChar_of_isSettled c hc,
      ih (fun d hd => h d (List.mem_cons_of_mem c hd)), List.cons_append, List.nil_append]

theorem dropWhile_isBlank (cs : List Char) (h : ∀ c ∈ cs, isSettled c) :
    cs.dropWhile isBlank = cs := by
  cases cs with
  | nil => rfl
  | cons c rest =>
    have hc := h c List.mem_cons_self
    simp only [isSettled, Bool.and_eq_true, Bool.not_eq_true'] at hc
    rw [List.dropWhile_cons_of_neg (by simp [hc.2])]

theorem trim_of_isSettled (cs : List Char) (h : ∀ c ∈ cs, isSettled c) : trim cs = cs := by
  rw [trim, dropWhile_isBlank cs h, trimEnd, dropWhile_isBlank cs.reverse, List.reverse_reverse]
  exact fun c hc => h c (List.mem_reverse.mp hc)

theorem forall_mem_intercalate {P : Char → Prop} {separator : Char} (hseparator : P separator)
    (ps : List (List Char)) (h : ∀ p ∈ ps, ∀ c ∈ p, P c) :
    ∀ c ∈ [separator].intercalate ps, P c := by
  induction ps with
  | nil => simp
  | cons p ps ih =>
    have hp := h p List.mem_cons_self
    have hrest := ih fun q hq => h q (List.mem_cons_of_mem p hq)
    cases ps with
    | nil => rwa [List.intercalate_singleton]
    | cons q ps =>
      intro c hc
      rw [List.intercalate_cons_cons, List.mem_append, List.mem_append, List.mem_singleton] at hc
      rcases hc with (hc | rfl) | hc
      · exact hp c hc
      · exact hseparator
      · exact hrest c hc

theorem split_of_not_mem (separator : Char) (cs : List Char) (h : separator ∉ cs) :
    split separator cs = [cs] := by
  induction cs with
  | nil => rfl
  | cons c rest ih =>
    rw [List.mem_cons, not_or] at h
    rw [split, if_neg (Ne.symm h.1), ih h.2]

theorem split_append (separator : Char) (cs rest : List Char) (h : separator ∉ cs) :
    split separator (cs ++ separator :: rest) = cs :: split separator rest := by
  induction cs with
  | nil => rw [List.nil_append, split, if_pos rfl]
  | cons c cs ih =>
    rw [List.mem_cons, not_or] at h
    rw [List.cons_append, split, if_neg (Ne.symm h.1), ih h.2]

/-! ## Runs of characters -/

/-- Left to itself, `decide` would go through all characters there are. -/
theorem forall_mem_of_all {P : Char → Prop} [DecidablePred P] {cs : List Char}
    (h : cs.all (P ·)) : ∀ c ∈ cs, P c := by
  simpa using h

theorem takeWhile_run (p : Char → Bool) (run rest : List Char) (hrun : ∀ c ∈ run, p c)
    (hrest : ∀ c ∈ rest.head?, ¬ p c) : (run ++ rest).takeWhile p = run := by
  rw [List.takeWhile_append_of_pos hrun]
  cases rest with
  | nil => rw [List.takeWhile_nil, List.append_nil]
  | cons c rest => rw [List.takeWhile_cons_of_neg (hrest c rfl), List.append_nil]

theorem dropWhile_run (p : Char → Bool) (run rest : List Char) (hrun : ∀ c ∈ run, p c)
    (hrest : ∀ c ∈ rest.head?, ¬ p c) : (run ++ rest).dropWhile p = rest := by
  rw [List.dropWhile_append_of_pos hrun]
  cases rest with
  | nil => rfl
  | cons c rest => rw [List.dropWhile_cons_of_neg (hrest c rfl)]

/-! ## Texts of one byte for each character -/

theorem toList_loop (bytes : ByteArray) (i : Nat) (read : List UInt8) (hi : i ≤ bytes.size) :
    ByteArray.toList.loop bytes i read = read.reverse ++ bytes.data.toList.drop i := by
  induction hn : bytes.size - i generalizing i read with
  | zero =>
    have hlength : bytes.data.toList.length ≤ i := by
      rw [Array.length_toList]
      change bytes.size ≤ i
      omega
    rw [ByteArray.toList.loop, if_neg (by omega), List.drop_eq_nil_of_le hlength, List.append_nil]
  | succ n ih =>
    have hlt : i < bytes.data.toList.length := by
      rw [Array.length_toList]
      change i < bytes.size
      omega
    rw [ByteArray.toList.loop, if_pos (by omega), ih (i + 1) _ (by omega) (by omega),
      List.drop_eq_getElem_cons hlt, List.reverse_cons, List.append_assoc]
    have hget : bytes.get! i = bytes.data.toList[i] := by
      show bytes.data[i]! = _
      rw [getElem!_pos bytes.data i (by simpa using hlt), Array.getElem_toList]
    rw [hget]
    rfl

theorem toList_eq (bytes : ByteArray) : bytes.toList = bytes.data.toList := by
  rw [ByteArray.toList, toList_loop bytes 0 [] (Nat.zero_le _), List.drop_zero]
  rfl

theorem utf8EncodeChar_of_lt (c : Char) (h : c.toNat < 128) :
    String.utf8EncodeChar c = [c.toUInt8] := by
  rw [String.utf8EncodeChar_eq_singleton]
  · rfl
  · rw [Char.utf8Size_eq_one_iff, UInt32.le_iff_toNat_le]
    exact Nat.le_of_lt_succ h

theorem flatMap_utf8EncodeChar (cs : List Char) (h : ∀ c ∈ cs, c.toNat < 128) :
    cs.flatMap String.utf8EncodeChar = cs.map Char.toUInt8 := by
  induction cs with
  | nil => rfl
  | cons c cs ih =>
    rw [List.flatMap_cons, utf8EncodeChar_of_lt c (h c List.mem_cons_self),
      ih fun d hd => h d (List.mem_cons_of_mem c hd)]
    rfl

theorem toList_toUTF8 (s : String) (h : ∀ c ∈ s.toList, c.toNat < 128) :
    s.toUTF8.toList = s.toList.map Char.toUInt8 := by
  have hbytes : s.toUTF8 = (s.toList.flatMap String.utf8EncodeChar).toByteArray :=
    String.utf8Encode_toList.symm
  rw [toList_eq, hbytes, List.toList_data_toByteArray, flatMap_utf8EncodeChar s.toList h]

theorem fromUTF8?_of_ascii (s : String) (h : ∀ c ∈ s.toList, c.toNat < 128) :
    String.fromUTF8? ⟨(s.toList.map Char.toUInt8).toArray⟩ = some s := by
  have hbytes : ByteArray.mk (s.toList.map Char.toUInt8).toArray = s.toByteArray := by
    rw [← flatMap_utf8EncodeChar s.toList h, ← String.utf8Encode_toList]
    apply ByteArray.ext
    rw [List.utf8Encode, List.data_toByteArray]
  rw [hbytes, String.fromUTF8?, dif_pos s.isValidUTF8]
  rfl

theorem ofNat_toUInt8 (c : Char) (h : c.toNat < 128) : Char.ofNat c.toUInt8.toNat = c := by
  have hc : c.toUInt8.toNat = c.toNat := by
    show c.val.toUInt8.toNat = _
    rw [UInt32.toNat_toUInt8]
    exact Nat.mod_eq_of_lt (by change c.toNat < 256; omega)
  rw [hc, Char.ofNat_toNat]

end CounterStream.Text
