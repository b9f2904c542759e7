import Mathlib.Data.List.DropRight
import CounterStream.Json.Printer
import CounterStream.Json.Reader
import CounterStream.Proofs.Positional

/-!
# JSON read back

A text is *read as* a value when the reader takes exactly the text and leaves whatever follows it.
That is kept by every way of putting texts together, with blanks between them or not, so the texts
of values that hold only plain strings and whole literals are read back.
-/

namespace CounterStream

namespace Literal

/-- Digits with a point before them, if there are any. -/
def pointed : List Char → List Char
  | [] => []
  | c :: cs => '.' :: c :: cs

/-- A signed exponent, if there is one. -/
def exponentText : Option Int → List Char
  | none => []
  | some e => 'e' :: (if e < 0 then '-' else '+') :: Nat.toDigits 10 e.natAbs

/-- An unsigned literal of digits before and after the point and an exponent. -/
def text (whole fraction : List Char) (exponent : Option Int) : List Char :=
  whole ++ (pointed fraction ++ exponentText exponent)

theorem text_whole (whole : List Char) : text whole [] none = whole := by
  simp [text, pointed, exponentText]

end Literal

namespace Json

/-! ## Blanks and ends -/

def AreBlank (cs : List Char) : Prop := ∀ c ∈ cs, isBlank c

/-- What may follow a number: nothing that would go on with it. -/
def Ends (rest : List Char) : Prop :=
  ∀ c ∈ rest.head?, ¬ c.isDigit ∧ c ≠ '.' ∧ c ≠ 'e' ∧ c ≠ 'E'

theorem areBlank_newline (depth : Nat) : AreBlank (newline depth) := by
  intro c hc
  rcases List.mem_cons.mp hc with rfl | hc
  · rfl
  · rw [List.eq_of_mem_replicate hc]
    rfl

theorem AreBlank.ascii {b : List Char} (h : AreBlank b) : ∀ c ∈ b, c.toNat < 128 := by
  intro c hc
  have hblank := h c hc
  simp only [isBlank, Bool.or_eq_true, decide_eq_true_eq] at hblank
  rcases hblank with ((rfl | rfl) | rfl) | rfl <;> decide

theorem AreBlank.ends {b : List Char} (h : AreBlank b) {rest : List Char} (hrest : Ends rest) :
    Ends (b ++ rest) := by
  cases b with
  | nil => exact hrest
  | cons c b =>
    rintro d ⟨⟩
    have hc := h c List.mem_cons_self
    simp only [isBlank, Bool.or_eq_true, decide_eq_true_eq] at hc
    rcases hc with ((rfl | rfl) | rfl) | rfl <;> decide

theorem ends_nil : Ends [] := by simp [Ends]

theorem ends_comma (rest : List Char) : Ends (',' :: rest) := by simp [Ends]

theorem ends_bracket (rest : List Char) : Ends (']' :: rest) := by simp [Ends]

theorem ends_brace (rest : List Char) : Ends ('\x7d' :: rest) := by simp [Ends]

theorem AreBlank.skipBlanks {b : List Char} (h : AreBlank b) (cs : List Char) :
    skipBlanks (b ++ cs) = skipBlanks cs := List.dropWhile_append_of_pos h

theorem skipBlanks_cons (c : Char) (cs : List Char) (hc : isBlank c = false) :
    skipBlanks (c :: cs) = c :: cs := List.dropWhile_cons_of_neg (by simp [hc])

theorem skipBlanks_skipBlanks (cs : List Char) : skipBlanks (skipBlanks cs) = skipBlanks cs :=
  List.dropWhile_idempotent isBlank cs

/-! ## Texts and their values -/

/-- The text is read as the value, whatever follows it. -/
structure Reads (cs : List Char) (j : Json) : Prop where
  ascii : ∀ c ∈ cs, c.toNat < 128
  value : ∀ fuel rest, cs.length < fuel → Ends rest → value? fuel (cs ++ rest) = some (j, rest)

/-- The text is read as the items of an array, with its end and perhaps blanks before that. -/
structure ReadsItems (cs : List Char) (items : List Json) : Prop where
  ascii : ∀ c ∈ cs, c.toNat < 128
  value : ∀ fuel b rest, cs.length + 1 < fuel → AreBlank b →
    items? fuel (cs ++ (b ++ ']' :: rest)) = some (items, rest)

/-- The text is read as the members of an object, with its end and perhaps blanks before that. -/
structure ReadsMembers (cs : List Char) (members : List (Option String × Json)) : Prop where
  ascii : ∀ c ∈ cs, c.toNat < 128
  value : ∀ fuel b rest, cs.length + 1 < fuel → AreBlank b →
    members? fuel (cs ++ (b ++ '\x7d' :: rest)) = some (members, rest)

/-- Between its quotes the text is read as the string. -/
structure ReadsString (cs : List Char) (text : Option String) : Prop where
  ascii : ∀ c ∈ cs, c.toNat < 128
  value : ∀ rest, string? (cs ++ '"' :: rest) = some (text, rest)

/-- A literal that is read to its end. -/
structure IsLiteral (literal : List Char) : Prop where
  ascii : ∀ c ∈ literal, c.toNat < 128
  head : ∃ c ∈ literal.head?, c.isDigit ∨ c = '-'
  value : ∀ rest, Ends rest → number? (literal ++ rest) = some (literal, rest)

theorem ascii_append {a b : List Char} (ha : ∀ c ∈ a, c.toNat < 128)
    (hb : ∀ c ∈ b, c.toNat < 128) : ∀ c ∈ a ++ b, c.toNat < 128 := by
  intro c hc
  exact (List.mem_append.mp hc).elim (ha c) (hb c)

theorem ascii_cons {a : Char} {b : List Char} (ha : a.toNat < 128)
    (hb : ∀ c ∈ b, c.toNat < 128) : ∀ c ∈ a :: b, c.toNat < 128 := List.forall_mem_cons.mpr ⟨ha, hb⟩

/-! ## Values -/

theorem value?_skipBlanks (fuel : Nat) (cs : List Char) :
    value? fuel (skipBlanks cs) = value? fuel cs := by
  cases fuel with
  | zero => simp only [value?]
  | succ fuel => simp only [value?, skipBlanks_skipBlanks]

theorem value?_blanks {b : List Char} (hb : AreBlank b) (fuel : Nat) (cs : List Char) :
    value? fuel (b ++ cs) = value? fuel cs := by
  rw [← value?_skipBlanks, hb.skipBlanks, value?_skipBlanks]

theorem Reads.blanks {b cs : List Char} {j : Json} (hb : AreBlank b) (h : Reads cs j) :
    Reads (b ++ cs) j where
  ascii := ascii_append hb.ascii h.ascii
  value fuel rest hfuel hrest := by
    rw [List.length_append] at hfuel
    rw [List.append_assoc, value?_blanks hb, h.value fuel rest (by omega) hrest]

theorem reads_number {literal : List Char} (h : IsLiteral literal) :
    Reads literal (number literal) where
  ascii := h.ascii
  value fuel rest hfuel hrest := by
    obtain ⟨fuel, rfl⟩ : ∃ n, fuel = n + 1 := ⟨fuel - 1, by omega⟩
    obtain ⟨c, hc, hhead⟩ := h.head
    obtain ⟨cs, rfl⟩ : ∃ cs, literal = c :: cs := ⟨literal.tail, (List.cons_head?_tail hc).symm⟩
    have hnumber := h.value rest hrest
    -- A digit or a minus sign begins nothing but a number.
    have hother (d : Char) (hd : ¬ d.isDigit ∧ d ≠ '-') : c ≠ d := by
      rintro rfl
      exact hhead.elim hd.1 hd.2
    have hskip : skipBlanks (c :: cs ++ rest) = c :: cs ++ rest := by
      apply skipBlanks_cons
      simp only [isBlank, Bool.or_eq_false_iff, decide_eq_false_iff_not]
      exact ⟨⟨⟨hother _ (by decide), hother _ (by decide)⟩, hother _ (by decide)⟩,
        hother _ (by decide)⟩
    rw [value?, hskip]
    split
    case h_7 => rw [hnumber, Option.map_some]
    all_goals
      rename_i heq
      obtain ⟨rfl, -⟩ := List.cons_eq_cons.mp heq
      exact absurd hhead (by decide)

theorem reads_string {cs : List Char} {text : Option String} (h : ReadsString cs text) :
    Reads ('"' :: cs ++ ['"']) (string text) where
  ascii := ascii_append (ascii_cons (by decide) h.ascii) (by simp)
  value fuel rest hfuel _ := by
    obtain ⟨fuel, rfl⟩ : ∃ n, fuel = n + 1 := ⟨fuel - 1, by omega⟩
    rw [List.append_assoc, List.cons_append, value?, skipBlanks_cons _ _ rfl]
    show (string? (cs ++ '"' :: rest)).map _ = _
    rw [h.value, Option.map_some]

theorem reads_null : Reads "null".toList null where
  ascii := Text.forall_mem_of_all (by decide)
  value fuel rest hfuel _ := by
    obtain ⟨fuel, rfl⟩ : ∃ n, fuel = n + 1 := ⟨fuel - 1, by omega⟩
    rfl

theorem reads_bool (b : Bool) : Reads (scalar (bool b)) (bool b) where
  ascii := Text.forall_mem_of_all (by cases b <;> decide)
  value fuel rest hfuel _ := by
    obtain ⟨fuel, rfl⟩ : ∃ n, fuel = n + 1 := ⟨fuel - 1, by omega⟩
    cases b <;> rfl

/-! ## Arrays -/

theorem reads_array_nil : Reads ['[', ']'] (array []) where
  ascii := Text.forall_mem_of_all (by decide)
  value fuel rest hfuel _ := by
    obtain ⟨fuel, rfl⟩ : ∃ n, fuel = n + 1 := ⟨fuel - 1, by omega⟩
    rfl

theorem ReadsItems.single {cs : List Char} {j : Json} (h : Reads cs j) : ReadsItems cs [j] where
  ascii := h.ascii
  value fuel b rest hfuel hb := by
    obtain ⟨fuel, rfl⟩ : ∃ n, fuel = n + 1 := ⟨fuel - 1, by omega⟩
    rw [items?, h.value fuel _ (by omega) (hb.ends (ends_bracket rest))]
    simp [hb.skipBlanks, skipBlanks_cons ']' rest rfl]

theorem Reads.cons {cs ds : List Char} {j : Json} {items : List Json} (h : Reads cs j)
    (hitems : ReadsItems ds items) : ReadsItems (cs ++ ',' :: ds) (j :: items) where
  ascii := ascii_append h.ascii (ascii_cons (by decide) hitems.ascii)
  value fuel b rest hfuel hb := by
    obtain ⟨fuel, rfl⟩ : ∃ n, fuel = n + 1 := ⟨fuel - 1, by omega⟩
    rw [List.length_append, List.length_cons] at hfuel
    rw [List.append_assoc, List.cons_append, items?, h.value fuel _ (by omega) (ends_comma _)]
    simp [skipBlanks_cons ',' _ rfl, hitems.value fuel b rest (by omega) hb]

theorem items?_skipBlanks (fuel : Nat) (cs : List Char) :
    items? fuel (skipBlanks cs) = items? fuel cs := by
  cases fuel with
  | zero => simp only [items?]
  | succ fuel => simp only [items?, value?_skipBlanks]

theorem items?_bracket (fuel : Nat) (cs rest : List Char) (h : skipBlanks cs = ']' :: rest) :
    items? fuel cs = none := by
  match fuel with
  | 0 => rw [items?]
  | 1 => rw [items?, value?]; rfl
  | fuel + 2 => rw [items?, value?, h]; rfl

theorem value?_array {fuel : Nat} {cs rest : List Char} {items : List Json}
    (h : items? fuel cs = some (items, rest)) :
    value? (fuel + 1) ('[' :: cs) = some (array items, rest) := by
  have hblanks := skipBlanks_cons '[' cs rfl
  simp only [value?, hblanks]
  split
  · rename_i hbracket
    rw [items?_bracket fuel cs _ hbracket] at h
    exact absurd h (by simp)
  · rw [items?_skipBlanks, h, Option.map_some]

theorem reads_array {b cs : List Char} {items : List Json} (h : ReadsItems cs items)
    (hb : AreBlank b) : Reads ('[' :: cs ++ (b ++ [']'])) (array items) where
  ascii := ascii_append (ascii_cons (by decide) h.ascii) (ascii_append hb.ascii (by simp))
  value fuel rest hfuel _ := by
    simp only [List.length_append, List.length_cons] at hfuel
    obtain ⟨fuel, rfl⟩ : ∃ n, fuel = n + 1 := ⟨fuel - 1, by omega⟩
    have hitems := h.value fuel b rest (by omega) hb
    have htext : '[' :: cs ++ (b ++ [']']) ++ rest = '[' :: (cs ++ (b ++ ']' :: rest)) := by simp
    rw [htext, value?_array hitems]

/-! ## Objects -/

theorem reads_object_nil : Reads ['\x7b', '\x7d'] (object []) where
  ascii := Text.forall_mem_of_all (by decide)
  value fuel rest hfuel _ := by
    obtain ⟨fuel, rfl⟩ : ∃ n, fuel = n + 1 := ⟨fuel - 1, by omega⟩
    rfl

/-- The text is read as one member, whose value ends where the reader of members goes on. -/
structure ReadsMember (cs : List Char) (member : Option String × Json) : Prop where
  ascii : ∀ c ∈ cs, c.toNat < 128
  value : ∀ fuel rest, cs.length < fuel → Ends rest →
    members? (fuel + 1) (cs ++ rest) =
      match skipBlanks rest with
      | '\x7d' :: rest => some ([member], rest)
      | ',' :: rest => do
        let (members, rest) ← members? fuel rest
        return (member :: members, rest)
      | _ => none

theorem readsMember {b name gap cs : List Char} {text : Option String} {j : Json}
    (hb : AreBlank b) (hname : ReadsString name text) (hgap : AreBlank gap) (h : Reads cs j) :
    ReadsMember (b ++ '"' :: name ++ '"' :: ':' :: gap ++ cs) (text, j) where
  ascii := by
    have hquoted := ascii_append hname.ascii (ascii_cons (a := '"') (by decide)
      (ascii_cons (a := ':') (by decide) (ascii_append hgap.ascii h.ascii)))
    simpa using ascii_append hb.ascii (ascii_cons (a := '"') (by decide) hquoted)
  value fuel rest hfuel hrest := by
    simp only [List.length_append, List.length_cons] at hfuel
    have htext : b ++ '"' :: name ++ '"' :: ':' :: gap ++ cs ++ rest =
        b ++ '"' :: (name ++ '"' :: ':' :: (gap ++ (cs ++ rest))) := by simp
    rw [htext, members?, hb.skipBlanks, skipBlanks_cons '"' _ rfl]
    simp only [hname.value, skipBlanks_cons ':' _ rfl, value?_blanks hgap,
      h.value fuel rest (by omega) hrest, Option.bind_eq_bind, Option.bind_some]
    rfl

theorem ReadsMembers.single {cs : List Char} {member : Option String × Json}
    (h : ReadsMember cs member) : ReadsMembers cs [member] where
  ascii := h.ascii
  value fuel b rest hfuel hb := by
    obtain ⟨fuel, rfl⟩ : ∃ n, fuel = n + 1 := ⟨fuel - 1, by omega⟩
    rw [h.value fuel _ (by omega) (hb.ends (ends_brace rest)), hb.skipBlanks,
      skipBlanks_cons _ rest rfl]
    rfl

theorem ReadsMember.cons {cs ds : List Char} {member : Option String × Json}
    {members : List (Option String × Json)} (h : ReadsMember cs member)
    (hmembers : ReadsMembers ds members) : ReadsMembers (cs ++ ',' :: ds) (member :: members) where
  ascii := ascii_append h.ascii (ascii_cons (by decide) hmembers.ascii)
  value fuel b rest hfuel hb := by
    obtain ⟨fuel, rfl⟩ : ∃ n, fuel = n + 1 := ⟨fuel - 1, by omega⟩
    rw [List.length_append, List.length_cons] at hfuel
    rw [List.append_assoc, List.cons_append, h.value fuel _ (by omega) (ends_comma _),
      skipBlanks_cons ',' _ rfl]
    simp [hmembers.value fuel b rest (by omega) hb]

theorem members?_skipBlanks (fuel : Nat) (cs : List Char) :
    members? fuel (skipBlanks cs) = members? fuel cs := by
  cases fuel with
  | zero => simp only [members?]
  | succ fuel => simp only [members?, skipBlanks_skipBlanks]

theorem members?_brace (fuel : Nat) (cs rest : List Char) (h : skipBlanks cs = '\x7d' :: rest) :
    members? fuel cs = none := by
  cases fuel with
  | zero => rw [members?]
  | succ fuel => rw [members?, h]; rfl

theorem value?_object {fuel : Nat} {cs rest : List Char} {members : List (Option String × Json)}
    (h : members? fuel cs = some (members, rest)) :
    value? (fuel + 1) ('\x7b' :: cs) = some (object members, rest) := by
  have hblanks := skipBlanks_cons '\x7b' cs rfl
  simp only [value?, hblanks]
  split
  · rename_i hbrace
    rw [members?_brace fuel cs _ hbrace] at h
    exact absurd h (by simp)
  · rw [members?_skipBlanks, h, Option.map_some]

theorem reads_object {b cs : List Char} {members : List (Option String × Json)}
    (h : ReadsMembers cs members) (hb : AreBlank b) :
    Reads ('\x7b' :: cs ++ (b ++ ['\x7d'])) (object members) where
  ascii := ascii_append (ascii_cons (by decide) h.ascii) (ascii_append hb.ascii (by simp))
  value fuel rest hfuel _ := by
    simp only [List.length_append, List.length_cons] at hfuel
    obtain ⟨fuel, rfl⟩ : ∃ n, fuel = n + 1 := ⟨fuel - 1, by omega⟩
    have hmembers := h.value fuel b rest (by omega) hb
    have htext : '\x7b' :: cs ++ (b ++ ['\x7d']) ++ rest =
        '\x7b' :: (cs ++ (b ++ '\x7d' :: rest)) := by simp
    rw [htext, value?_object hmembers]

/-! ## Literals -/

theorem digits?_run (run rest : List Char) (hne : run ≠ []) (hrun : ∀ c ∈ run, c.isDigit)
    (hrest : ∀ c ∈ rest.head?, ¬ c.isDigit) : digits? (run ++ rest) = some (run, rest) := by
  obtain ⟨c, cs, rfl⟩ := List.exists_cons_of_ne_nil hne
  rw [digits?, Text.takeWhile_run _ _ rest hrun hrest, Text.dropWhile_run _ _ rest hrun hrest]

theorem wholePart?_run (run rest : List Char) (hne : run ≠ []) (hrun : ∀ c ∈ run, c.isDigit)
    (hleading : 1 < run.length → run.head? ≠ some '0') (hrest : ∀ c ∈ rest.head?, ¬ c.isDigit) :
    wholePart? (run ++ rest) = some (run, rest) := by
  obtain ⟨c, cs, rfl⟩ := List.exists_cons_of_ne_nil hne
  by_cases hc : c = '0'
  · -- A zero that leads is the only digit.
    have hnil : cs = [] := by
      by_contra hne
      have hpos := List.length_pos_of_ne_nil hne
      exact hleading (by rw [List.length_cons]; omega) (by rw [hc, List.head?_cons])
    subst hc hnil
    cases rest with
    | nil => rfl
    | cons d rest =>
      show (if d.isDigit then none else _) = _
      rw [if_neg (hrest d rfl)]
      rfl
  · rw [List.cons_append, wholePart?, ← List.cons_append, digits?_run _ rest hne hrun hrest]
    exact fun _ heq => hc (List.cons_eq_cons.mp heq).1

theorem fractionPart?_pointed (fraction rest : List Char) (hdigits : ∀ c ∈ fraction, c.isDigit)
    (hrest : ∀ c ∈ rest.head?, ¬ c.isDigit ∧ c ≠ '.') :
    fractionPart? (Literal.pointed fraction ++ rest) = some (Literal.pointed fraction, rest) := by
  cases fraction with
  | nil =>
    show fractionPart? rest = some ([], rest)
    unfold fractionPart?
    split
    · exact absurd rfl (hrest '.' rfl).2
    · rfl
  | cons c cs =>
    show (digits? (c :: cs ++ rest)).map _ = _
    rw [digits?_run _ rest (List.cons_ne_nil c cs) hdigits fun c hc => (hrest c hc).1]
    rfl

theorem exponentPart?_text (exponent : Option Int) (rest : List Char) (hrest : Ends rest) :
    exponentPart? (Literal.exponentText exponent ++ rest) =
      some (Literal.exponentText exponent, rest) := by
  cases exponent with
  | none =>
    cases rest with
    | nil => rfl
    | cons c rest =>
      have hc := hrest c rfl
      show exponentPart? (c :: rest) = some ([], c :: rest)
      unfold exponentPart?
      exact if_neg (not_or.mpr hc.2.2)
  | some e =>
    have hdigits := digits?_run (Nat.toDigits 10 e.natAbs) rest Nat.toDigits_ne_nil
      (isDigit_of_mem_toDigits e.natAbs) fun c hc => (hrest c hc).1
    rw [Literal.exponentText]
    split_ifs
    · show (digits? (Nat.toDigits 10 e.natAbs ++ rest)).map _ = _
      rw [hdigits]
      rfl
    · show (digits? (Nat.toDigits 10 e.natAbs ++ rest)).map _ = _
      rw [hdigits]
      rfl

theorem head_exponentText (exponent : Option Int) (rest : List Char) (hrest : Ends rest) :
    ∀ c ∈ (Literal.exponentText exponent ++ rest).head?, ¬ c.isDigit ∧ c ≠ '.' := by
  cases exponent with
  | none => exact fun c hc => ⟨(hrest c hc).1, (hrest c hc).2.1⟩
  | some e =>
    rintro c ⟨⟩
    decide

theorem head_pointed (fraction rest : List Char) (hrest : ∀ c ∈ rest.head?, ¬ c.isDigit) :
    ∀ c ∈ (Literal.pointed fraction ++ rest).head?, ¬ c.isDigit := by
  cases fraction with
  | nil => exact hrest
  | cons c cs =>
    rintro d ⟨⟩
    decide

variable {d : Decimal} {whole fraction : List Char}

theorem unsigned?_text (h : d.Spells whole fraction) (exponent : Option Int) (rest : List Char)
    (hrest : Ends rest) :
    unsigned? (Literal.text whole fraction exponent ++ rest) =
      some (Literal.text whole fraction exponent, rest) := by
  have hexponent := head_exponentText exponent rest hrest
  have hwhole := wholePart?_run whole _ h.whole_ne_nil h.whole_digits h.leading
    (head_pointed fraction _ fun c hc => (hexponent c hc).1)
  have hfraction := fractionPart?_pointed fraction _ h.fraction_digits hexponent
  rw [Literal.text, List.append_assoc, List.append_assoc, unsigned?, hwhole]
  simp [hfraction, exponentPart?_text exponent rest hrest]

theorem ascii_of_isDigit {cs : List Char} (h : ∀ c ∈ cs, c.isDigit) : ∀ c ∈ cs, c.toNat < 128 := by
  intro c hc
  have := Text.toNat_of_isDigit c (h c hc)
  omega

theorem ascii_text (h : d.Spells whole fraction) (exponent : Option Int) :
    ∀ c ∈ Literal.text whole fraction exponent, c.toNat < 128 := by
  apply ascii_append (ascii_of_isDigit h.whole_digits)
  apply ascii_append
  · cases fraction with
    | nil => simp [Literal.pointed]
    | cons c cs => exact ascii_cons (by decide) (ascii_of_isDigit h.fraction_digits)
  · cases exponent with
    | none => simp [Literal.exponentText]
    | some e =>
      have hdigits := ascii_of_isDigit (isDigit_of_mem_toDigits e.natAbs)
      rw [Literal.exponentText]
      split_ifs
      · exact ascii_cons (by decide) (ascii_cons (by decide) hdigits)
      · exact ascii_cons (by decide) (ascii_cons (by decide) hdigits)

theorem isLiteral_text (h : d.Spells whole fraction) (exponent : Option Int) :
    IsLiteral (Literal.text whole fraction exponent) := by
  obtain ⟨c, cs, hcs, hc⟩ := h.cons
  refine ⟨ascii_text h exponent, ⟨c, by rw [Literal.text, hcs]; rfl, Or.inl hc⟩, ?_⟩
  intro rest hrest
  have hunsigned := unsigned?_text h exponent rest hrest
  rw [Literal.text, hcs, List.cons_append] at hunsigned ⊢
  rw [List.cons_append, number?, ← List.cons_append, hunsigned]
  rintro cs' heq
  obtain ⟨rfl, -⟩ := List.cons_eq_cons.mp heq
  exact absurd hc (by decide)

theorem isLiteral_minus (h : d.Spells whole fraction) (exponent : Option Int) :
    IsLiteral ('-' :: Literal.text whole fraction exponent) := by
  refine ⟨ascii_cons (by decide) (ascii_text h exponent), ⟨'-', rfl, Or.inr rfl⟩, ?_⟩
  intro rest hrest
  rw [List.cons_append, number?, unsigned?_text h exponent rest hrest]
  rfl

theorem isLiteral_toDigits (n : Nat) : IsLiteral (Nat.toDigits 10 n) := by
  have h := isLiteral_text (Decimal.spells_toDigits n) none
  rwa [Literal.text_whole] at h

theorem integer?_natural (n : Nat) (h : n < UInt64.size) :
    (natural n).integer? = some (n : Int) := by
  have hminus : Nat.toDigits 10 n ≠ ['-', '0'] := by
    intro heq
    exact absurd (isDigit_of_mem_toDigits n '-' (by rw [heq]; simp)) (by decide)
  have hsize : Int64.minValue.toInt ≤ (n : Int) ∧ (n : Int) < UInt64.size := by
    have hmin : Int64.minValue.toInt ≤ 0 := by decide
    omega
  show Literal.integer? (Nat.toDigits 10 n) = _
  rw [Literal.integer?, if_neg hminus, Decimal.integer?_toDigits, Option.filter_some, if_pos]
  simpa using hsize

theorem natural?_natural (limit n : Nat) (hlimit : limit ≤ UInt64.size) (h : n < limit) :
    (natural n).natural? limit = some n := by
  rw [natural?, integer?_natural n (by omega), Option.bind_some, if_pos (by omega)]
  rfl

/-! ## Plain values -/

/-- A character that stands for itself in a string. -/
def IsPlainChar (c : Char) : Prop := 32 ≤ c.toNat ∧ c.toNat < 128 ∧ c ≠ '"' ∧ c ≠ '\\'

instance : DecidablePred IsPlainChar := fun c =>
  inferInstanceAs (Decidable (32 ≤ c.toNat ∧ c.toNat < 128 ∧ c ≠ '"' ∧ c ≠ '\\'))

theorem escape_of_isPlainChar (c : Char) (h : IsPlainChar c) : escape c = [c] := by
  obtain ⟨hlow, -, hquote, hbackslash⟩ := h
  have hother (d : Char) (hd : d.toNat < 32) : c ≠ d := by
    rintro rfl
    omega
  unfold escape
  split
  · exact absurd rfl hquote
  · exact absurd rfl hbackslash
  · exact absurd rfl (hother '\n' (by decide))
  · exact absurd rfl (hother '\r' (by decide))
  · exact absurd rfl (hother '\t' (by decide))
  · rw [if_neg (by omega), if_neg (by omega), if_neg (by omega)]

theorem units?_of_isPlainChar (cs rest : List Char) (h : ∀ c ∈ cs, IsPlainChar c) :
    units? (cs ++ '"' :: rest) = some (cs.map fun c => .inl c.toUInt8, rest) := by
  induction cs with
  | nil => rfl
  | cons c cs ih =>
    obtain ⟨hlow, -, hquote, hbackslash⟩ := h c List.mem_cons_self
    have hrest := ih fun d hd => h d (List.mem_cons_of_mem c hd)
    rw [List.cons_append, units?, hrest, if_neg (not_or.mpr ⟨by omega, hbackslash⟩)]
    · rfl
    · exact hquote
    · exact fun _ _ _ _ _ hc => absurd hc hbackslash
    · exact fun _ _ hc => absurd hc hbackslash

theorem bytesOfUnits_inl (bytes : List UInt8) : bytesOfUnits (bytes.map .inl) = some bytes := by
  induction bytes with
  | nil => rfl
  | cons byte bytes ih => rw [List.map_cons, bytesOfUnits, ih, Option.map_some]

theorem readsString_of_isPlainChar (s : String) (h : ∀ c ∈ s.toList, IsPlainChar c) :
    ReadsString s.toList (some s) where
  ascii c hc := (h c hc).2.1
  value rest := by
    have hascii : ∀ c ∈ s.toList, c.toNat < 128 := fun c hc => (h c hc).2.1
    have hunits : textOfUnits (s.toList.map fun c => .inl c.toUInt8) = some s := by
      have hbytes := bytesOfUnits_inl (s.toList.map Char.toUInt8)
      rw [List.map_map] at hbytes
      rw [textOfUnits]
      show (bytesOfUnits (s.toList.map (Sum.inl ∘ Char.toUInt8))).bind _ = _
      rw [hbytes, Option.bind_some, Text.fromUTF8?_of_ascii s hascii]
    rw [string?, units?_of_isPlainChar _ rest h, Option.map_some]
    exact congrArg (fun text => some (text, rest)) hunits

theorem quoted_of_isPlainChar (s : String) (h : ∀ c ∈ s.toList, IsPlainChar c) :
    quoted (some s) = '"' :: s.toList ++ ['"'] := by
  have hescape : s.toList.flatMap escape = s.toList := by
    generalize s.toList = cs at h
    induction cs with
    | nil => rfl
    | cons c cs ih =>
      rw [List.flatMap_cons, escape_of_isPlainChar c (h c List.mem_cons_self),
        ih fun d hd => h d (List.mem_cons_of_mem c hd)]
      rfl
  rw [quoted, Option.getD_some, hescape]

def IsPlainString (text : Option String) : Prop :=
  ∃ s, text = some s ∧ ∀ c ∈ s.toList, IsPlainChar c

theorem IsPlainString.quoted {text : Option String} (h : IsPlainString text) :
    ∃ cs, quoted text = '"' :: cs ++ ['"'] ∧ ReadsString cs text := by
  obtain ⟨s, rfl, hs⟩ := h
  exact ⟨s.toList, quoted_of_isPlainChar s hs, readsString_of_isPlainChar s hs⟩

mutual

/-- Every string in the value is plain and every number is a literal. -/
def IsPlain : Json → Prop
  | number literal => IsLiteral literal
  | string text => IsPlainString text
  | array items => ArePlain items
  | object members => MembersArePlain members
  | _ => True

def ArePlain : List Json → Prop
  | [] => True
  | item :: items => IsPlain item ∧ ArePlain items

def MembersArePlain : List (Option String × Json) → Prop
  | [] => True
  | (name, value) :: members => IsPlainString name ∧ IsPlain value ∧ MembersArePlain members

end

mutual

theorem reads_pretty (depth : Nat) (j : Json) (h : j.IsPlain) : Reads (pretty depth j) j := by
  match j with
  | null => exact reads_null
  | bool b => exact reads_bool b
  | number literal => exact reads_number h
  | string text =>
    obtain ⟨cs, hcs, hread⟩ := IsPlainString.quoted h
    show Reads (quoted text) _
    rw [hcs]
    exact reads_string hread
  | array [] => exact reads_array_nil
  | array (item :: items) =>
    have hitems := readsItems_pretty (depth + 1) (item :: items) (List.cons_ne_nil item items) h
    rw [pretty, List.append_assoc]
    · exact reads_array hitems (areBlank_newline depth)
    · simp
  | object [] => exact reads_object_nil
  | object (member :: members) =>
    have hmembers :=
      readsMembers_pretty (depth + 1) (member :: members) (List.cons_ne_nil member members) h
    rw [pretty, List.append_assoc]
    · exact reads_object hmembers (areBlank_newline depth)
    · simp

theorem readsItems_pretty (depth : Nat) (items : List Json) (hne : items ≠ [])
    (h : ArePlain items) : ReadsItems (prettyItems depth items) items := by
  match items with
  | [] => exact absurd rfl hne
  | [item] =>
    rw [prettyItems]
    exact ReadsItems.single ((reads_pretty depth item h.1).blanks (areBlank_newline depth))
  | item :: next :: items =>
    have hitem := (reads_pretty depth item h.1).blanks (areBlank_newline depth)
    have hitems := readsItems_pretty depth (next :: items) (List.cons_ne_nil next items) h.2
    rw [prettyItems]
    · exact hitem.cons hitems
    · simp

theorem readsMembers_pretty (depth : Nat) (members : List (Option String × Json))
    (hne : members ≠ []) (h : MembersArePlain members) :
    ReadsMembers (prettyMembers depth members) members := by
  have hgap : AreBlank [' '] := by simp [AreBlank, isBlank]
  match members with
  | [] => exact absurd rfl hne
  | [(name, value)] =>
    obtain ⟨cs, hcs, hname⟩ := h.1.quoted
    have hmember :=
      readsMember (areBlank_newline depth) hname hgap (reads_pretty depth value h.2.1)
    rw [prettyMembers, hcs]
    simpa using ReadsMembers.single hmember
  | (name, value) :: next :: members =>
    obtain ⟨cs, hcs, hname⟩ := h.1.quoted
    have hmember :=
      readsMember (areBlank_newline depth) hname hgap (reads_pretty depth value h.2.1)
    have hmembers :=
      readsMembers_pretty depth (next :: members) (List.cons_ne_nil next members) h.2.2
    rw [prettyMembers, hcs]
    · simpa using hmember.cons hmembers
    · simp

end

mutual

theorem reads_compact (j : Json) (h : j.IsPlain) : Reads (compact j) j := by
  match j with
  | null => exact reads_null
  | bool b => exact reads_bool b
  | number literal => exact reads_number h
  | string text =>
    obtain ⟨cs, hcs, hread⟩ := IsPlainString.quoted h
    show Reads (quoted text) _
    rw [hcs]
    exact reads_string hread
  | array [] => exact reads_array_nil
  | array (item :: items) =>
    have hitems := readsItems_compact (item :: items) (List.cons_ne_nil item items) h
    exact reads_array hitems (b := []) (by simp [AreBlank])
  | object [] => exact reads_object_nil
  | object (member :: members) =>
    have hmembers := readsMembers_compact (member :: members) (List.cons_ne_nil member members) h
    exact reads_object hmembers (b := []) (by simp [AreBlank])

theorem readsItems_compact (items : List Json) (hne : items ≠ []) (h : ArePlain items) :
    ReadsItems (compactItems items) items := by
  match items with
  | [] => exact absurd rfl hne
  | [item] =>
    rw [compactItems]
    exact ReadsItems.single (reads_compact item h.1)
  | item :: next :: items =>
    have hitems := readsItems_compact (next :: items) (List.cons_ne_nil next items) h.2
    rw [compactItems]
    · exact (reads_compact item h.1).cons hitems
    · simp

theorem readsMembers_compact (members : List (Option String × Json)) (hne : members ≠ [])
    (h : MembersArePlain members) : ReadsMembers (compactMembers members) members := by
  have hnone : AreBlank [] := by simp [AreBlank]
  match members with
  | [] => exact absurd rfl hne
  | [(name, value)] =>
    obtain ⟨cs, hcs, hname⟩ := h.1.quoted
    have hmember := readsMember hnone hname hnone (reads_compact value h.2.1)
    rw [compactMembers, hcs]
    simpa using ReadsMembers.single hmember
  | (name, value) :: next :: members =>
    obtain ⟨cs, hcs, hname⟩ := h.1.quoted
    have hmember := readsMember hnone hname hnone (reads_compact value h.2.1)
    have hmembers := readsMembers_compact (next :: members) (List.cons_ne_nil next members) h.2.2
    rw [compactMembers, hcs]
    · simpa using hmember.cons hmembers
    · simp

end

/-! ## Whole texts -/

theorem Reads.ofText? {cs b : List Char} {j : Json} (h : Reads cs j) (hb : AreBlank b) :
    ofText? (String.ofList (cs ++ b)) = some j := by
  have hascii := ascii_append h.ascii hb.ascii
  have hchars : ((cs ++ b).map Char.toUInt8).map (fun byte => Char.ofNat byte.toNat) =
      cs ++ b := by
    rw [List.map_map]
    exact (List.map_congr_left fun c hc => Text.ofNat_toUInt8 c (hascii c hc)).trans
      (List.map_id _)
  have hskip : skipBlanks b = [] := by
    have hblanks := hb.skipBlanks []
    rwa [List.append_nil] at hblanks
  have hends : Ends b := by simpa using hb.ends ends_nil
  rw [Json.ofText?, Text.toList_toUTF8 _ (by simpa using hascii), String.toList_ofList, ofBytes?]
  simp only [hchars]
  rw [h.value _ b (by rw [List.length_append]; omega) hends]
  simp [hskip]

theorem ofText?_prettyText (j : Json) (h : j.IsPlain) (b : List Char) (hb : AreBlank b) :
    ofText? (j.prettyText ++ String.ofList b) = some j := by
  rw [prettyText, ← String.ofList_append]
  exact (reads_pretty 0 j h).ofText? hb

theorem ofText?_compactText (j : Json) (h : j.IsPlain) : ofText? j.compactText = some j := by
  have hread := (reads_compact j h).ofText? (b := []) (by simp [AreBlank])
  rwa [List.append_nil] at hread

end Json

end CounterStream
