import Mathlib.Data.List.Basic
import CounterStream.Json.Reader

/-!
# How short a JSON text can be

Whatever the layout, a text holds every literal and the bytes of every string it stands for, and a
mark after every item and member. So a value has a least length, and the reader takes at least as
much of the text as that.
-/

namespace CounterStream.Json

/-! ## Least lengths -/

/-- The quotes and the bytes between them. -/
def quotedLength (text : Option String) : Nat := (text.getD "").utf8ByteSize + 2

mutual

/-- No text of the value is shorter. -/
def leastLength : Json → Nat
  | number literal => literal.length
  | string text => quotedLength text
  | array items => 1 + leastItems items
  | object members => 1 + leastMembers members
  | _ => 4

/-- Every item has a mark after it, the last one that of the array. -/
def leastItems : List Json → Nat
  | [] => 0
  | item :: items => leastLength item + 1 + leastItems items

def leastMembers : List (Option String × Json) → Nat
  | [] => 0
  | (name, value) :: members =>
    quotedLength name + 1 + leastLength value + 1 + leastMembers members

end

theorem leastMembers_filter (members : List (Option String × Json)) {a b : String} (h : a ≠ b) :
    leastMembers (members.filter (·.1 = some a)) +
      leastMembers (members.filter (·.1 = some b)) ≤ leastMembers members := by
  induction members with
  | nil => exact Nat.le_refl _
  | cons member members ih =>
    simp only [List.filter_cons, decide_eq_true_eq]
    split_ifs with ha hb
    · exact absurd (Option.some.inj (ha.symm.trans hb)) h
    all_goals
      simp only [leastMembers]
      omega

theorem length_skipBlanks (cs : List Char) : (skipBlanks cs).length ≤ cs.length :=
  (List.dropWhile_sublist isBlank).length_le

/-! ## Numbers -/

section

variable {cs literal rest : List Char}

theorem digits?_append (h : digits? cs = some (literal, rest)) : literal ++ rest = cs := by
  unfold digits? at h
  split at h
  · cases h
  · cases h
    exact List.takeWhile_append_dropWhile

theorem wholePart?_append (h : wholePart? cs = some (literal, rest)) : literal ++ rest = cs := by
  unfold wholePart? at h
  split at h
  · split at h
    · split_ifs at h
      cases h
      rfl
    · cases h
      rfl
  · exact digits?_append h

theorem fractionPart?_append (h : fractionPart? cs = some (literal, rest)) :
    literal ++ rest = cs := by
  unfold fractionPart? at h
  split at h
  · obtain ⟨⟨digits, after⟩, hdigits, heq⟩ := Option.map_eq_some_iff.mp h
    cases heq
    rw [List.cons_append, digits?_append hdigits]
  · cases h
    rfl

theorem exponentPart?_append (h : exponentPart? cs = some (literal, rest)) :
    literal ++ rest = cs := by
  unfold exponentPart? at h
  split at h
  · cases h
    rfl
  · split_ifs at h
    · split at h
      all_goals
        obtain ⟨⟨digits, after⟩, hdigits, heq⟩ := Option.map_eq_some_iff.mp h
        cases heq
        simp only [List.cons_append, digits?_append hdigits]
    · cases h
      rfl

theorem unsigned?_append (h : unsigned? cs = some (literal, rest)) : literal ++ rest = cs := by
  simp only [unsigned?, Option.bind_eq_bind, Option.bind_eq_some_iff] at h
  obtain ⟨⟨whole, r⟩, hwhole, ⟨fraction, s⟩, hfraction, ⟨exponent, t⟩, hexponent, heq⟩ := h
  cases heq
  rw [List.append_assoc, exponentPart?_append hexponent, List.append_assoc,
    fractionPart?_append hfraction, wholePart?_append hwhole]

theorem number?_append (h : number? cs = some (literal, rest)) : literal ++ rest = cs := by
  unfold number? at h
  split at h
  · obtain ⟨⟨unsigned, after⟩, hunsigned, heq⟩ := Option.map_eq_some_iff.mp h
    cases heq
    rw [List.cons_append, unsigned?_append hunsigned]
  · exact unsigned?_append h

end

/-! ## Strings -/

/-- The least text of units: a byte, or six for a unit that is given by its number. -/
def unitsLength : List (UInt8 ⊕ Nat) → Nat
  | [] => 0
  | .inl _ :: units => 1 + unitsLength units
  | .inr _ :: units => 6 + unitsLength units

theorem length_units? {cs rest : List Char} {units : List (UInt8 ⊕ Nat)}
    (h : units? cs = some (units, rest)) :
    unitsLength units + 1 + rest.length ≤ cs.length := by
  fun_induction units? cs generalizing units rest with
  | case1 => cases h
  | case2 after =>
    cases h
    simp only [unitsLength, List.length_cons]
    omega
  | case3 a b c d after ih =>
    simp only [Option.bind_eq_bind, Option.bind_eq_some_iff] at h
    obtain ⟨n, -, ⟨later, r⟩, hlater, heq⟩ := h
    cases heq
    have hle := ih hlater
    simp only [unitsLength, List.length_cons]
    omega
  | case4 c after _ ih =>
    simp only [Option.bind_eq_bind, Option.bind_eq_some_iff] at h
    obtain ⟨e, -, ⟨later, r⟩, hlater, heq⟩ := h
    cases heq
    have hle := ih hlater
    simp only [unitsLength, List.length_cons]
    omega
  | case5 => cases h
  | case6 c after _ _ _ _ ih =>
    obtain ⟨⟨later, r⟩, hlater, heq⟩ := Option.map_eq_some_iff.mp h
    cases heq
    have hle := ih hlater
    simp only [unitsLength, List.length_cons]
    omega

theorem length_bytesOfUnits {units : List (UInt8 ⊕ Nat)} {bytes : List UInt8}
    (h : bytesOfUnits units = some bytes) : bytes.length ≤ unitsLength units := by
  have hchar (c : Char) : (String.utf8EncodeChar c).length ≤ 4 := by
    rw [String.length_utf8EncodeChar]
    exact c.utf8Size_le_four
  fun_induction bytesOfUnits units generalizing bytes with
  | case1 =>
    cases h
    exact Nat.zero_le _
  | case2 byte units ih =>
    obtain ⟨later, hlater, rfl⟩ := Option.map_eq_some_iff.mp h
    have hle := ih hlater
    simp only [unitsLength, List.length_cons]
    omega
  | case3 high low units _ _ c =>
    rename_i ih
    obtain ⟨later, hlater, rfl⟩ := Option.map_eq_some_iff.mp h
    have hle := ih hlater
    have hc := hchar c
    simp only [unitsLength, List.length_append]
    omega
  | case4 | case5 | case7 => cases h
  | case6 high low units _ _ ih =>
    obtain ⟨later, hlater, rfl⟩ := Option.map_eq_some_iff.mp h
    have hle := ih hlater
    have hc := hchar (Char.ofNat high)
    simp only [unitsLength, List.length_append] at hle ⊢
    omega
  | case8 n units _ _ ih =>
    obtain ⟨later, hlater, rfl⟩ := Option.map_eq_some_iff.mp h
    have hle := ih hlater
    have hc := hchar (Char.ofNat n)
    simp only [unitsLength, List.length_append]
    omega

theorem size_of_fromUTF8? {bytes : List UInt8} {s : String}
    (h : String.fromUTF8? ⟨bytes.toArray⟩ = some s) : s.utf8ByteSize = bytes.length := by
  unfold String.fromUTF8? at h
  split_ifs at h
  cases h
  rfl

theorem length_string? {cs rest : List Char} {text : Option String}
    (h : string? cs = some (text, rest)) : quotedLength text + rest.length ≤ cs.length + 1 := by
  obtain ⟨⟨units, after⟩, hunits, heq⟩ := Option.map_eq_some_iff.mp h
  cases heq
  have hle := length_units? hunits
  cases htext : textOfUnits units with
  | none =>
    have hempty : quotedLength none = 2 := rfl
    omega
  | some s =>
    simp only [textOfUnits, Option.bind_eq_bind, Option.bind_eq_some_iff] at htext
    obtain ⟨bytes, hbytes, hs⟩ := htext
    have hsize := size_of_fromUTF8? hs
    have hfits := length_bytesOfUnits hbytes
    simp only [quotedLength, Option.getD_some]
    omega

/-! ## Values -/

/-- With so many steps, every reader takes at least as much as is needed for what it gives. -/
structure Spends (fuel : Nat) : Prop where
  value {cs rest : List Char} {j : Json} :
    value? fuel cs = some (j, rest) → j.leastLength + rest.length ≤ cs.length
  items {cs rest : List Char} {items : List Json} :
    items? fuel cs = some (items, rest) → leastItems items + rest.length ≤ cs.length
  members {cs rest : List Char} {members : List (Option String × Json)} :
    members? fuel cs = some (members, rest) → leastMembers members + rest.length ≤ cs.length

namespace Spends

variable {fuel : Nat} {cs rest : List Char}

theorem value_succ (hfuel : Spends fuel) {j : Json} (h : value? (fuel + 1) cs = some (j, rest)) :
    j.leastLength + rest.length ≤ cs.length := by
  have hblanks := length_skipBlanks cs
  rw [value?] at h
  generalize skipBlanks cs = ds at h hblanks
  split at h
  case h_1 | h_2 | h_3 =>
    cases h
    simp only [leastLength, List.length_cons] at hblanks ⊢
    omega
  case h_4 after =>
    obtain ⟨⟨text, r⟩, htext, heq⟩ := Option.map_eq_some_iff.mp h
    cases heq
    have hle := length_string? htext
    simp only [leastLength, List.length_cons] at hblanks ⊢
    omega
  case h_5 after =>
    have hafter := length_skipBlanks after
    generalize skipBlanks after = es at h hafter
    split at h
    · cases h
      simp only [leastLength, leastItems, List.length_cons] at hblanks hafter ⊢
      omega
    · obtain ⟨⟨items, r⟩, hitems, heq⟩ := Option.map_eq_some_iff.mp h
      cases heq
      have hle := hfuel.items hitems
      simp only [leastLength, List.length_cons] at hblanks ⊢
      omega
  case h_6 after =>
    have hafter := length_skipBlanks after
    generalize skipBlanks after = es at h hafter
    split at h
    · cases h
      simp only [leastLength, leastMembers, List.length_cons] at hblanks hafter ⊢
      omega
    · obtain ⟨⟨members, r⟩, hmembers, heq⟩ := Option.map_eq_some_iff.mp h
      cases heq
      have hle := hfuel.members hmembers
      simp only [leastLength, List.length_cons] at hblanks ⊢
      omega
  case h_7 =>
    obtain ⟨⟨literal, r⟩, hliteral, heq⟩ := Option.map_eq_some_iff.mp h
    cases heq
    have happend := congrArg List.length (number?_append hliteral)
    rw [List.length_append] at happend
    simp only [leastLength]
    omega

theorem items_succ (hfuel : Spends fuel) {items : List Json}
    (h : items? (fuel + 1) cs = some (items, rest)) :
    leastItems items + rest.length ≤ cs.length := by
  simp only [items?, Option.bind_eq_bind, Option.bind_eq_some_iff] at h
  obtain ⟨⟨item, r⟩, hitem, h⟩ := h
  have hle := hfuel.value hitem
  have hblanks := length_skipBlanks r
  generalize skipBlanks r = ds at h hblanks
  split at h
  · cases h
    simp only [leastItems, List.length_cons] at hblanks ⊢
    omega
  · simp only [Option.bind_eq_some_iff] at h
    obtain ⟨⟨later, t⟩, hlater, heq⟩ := h
    cases heq
    have hrest := hfuel.items hlater
    simp only [leastItems, List.length_cons] at hblanks ⊢
    omega
  · cases h

theorem members_succ (hfuel : Spends fuel) {members : List (Option String × Json)}
    (h : members? (fuel + 1) cs = some (members, rest)) :
    leastMembers members + rest.length ≤ cs.length := by
  have hblanks := length_skipBlanks cs
  rw [members?] at h
  generalize skipBlanks cs = ds at h hblanks
  split at h
  · simp only [Option.bind_eq_bind, Option.bind_eq_some_iff] at h
    obtain ⟨⟨name, r⟩, hname, h⟩ := h
    have hstring := length_string? hname
    have hcolon := length_skipBlanks r
    generalize skipBlanks r = es at h hcolon
    split at h
    · simp only [Option.bind_eq_some_iff] at h
      obtain ⟨⟨value, t⟩, hvalue, h⟩ := h
      have hle := hfuel.value hvalue
      have hmark := length_skipBlanks t
      generalize skipBlanks t = fs at h hmark
      split at h
      · cases h
        simp only [leastMembers, List.length_cons] at hblanks hcolon hmark ⊢
        omega
      · simp only [Option.bind_eq_some_iff] at h
        obtain ⟨⟨later, u⟩, hlater, heq⟩ := h
        cases heq
        have hrest := hfuel.members hlater
        simp only [leastMembers, List.length_cons] at hblanks hcolon hmark ⊢
        omega
      · cases h
    · cases h
  · cases h

end Spends

theorem spends (fuel : Nat) : Spends fuel := by
  induction fuel with
  | zero => exact ⟨by simp [value?], by simp [items?], by simp [members?]⟩
  | succ fuel ih => exact ⟨ih.value_succ, ih.items_succ, ih.members_succ⟩

theorem leastLength_le {bytes : List UInt8} {j : Json} (h : ofBytes? bytes = some j) :
    j.leastLength ≤ bytes.length := by
  simp only [ofBytes?, Option.bind_eq_bind, Option.bind_eq_some_iff] at h
  obtain ⟨⟨value, rest⟩, hvalue, h⟩ := h
  have hle := (spends _).value hvalue
  split_ifs at h
  cases h
  rw [List.length_map] at hle
  exact Nat.le_trans (Nat.le_add_right _ _) hle

end CounterStream.Json
