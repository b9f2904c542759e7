import CounterStream.Proofs.TomlFit
import CounterStream.Proofs.TomlScalar

/-!
# TOML documents read back

A printed document is keys with plain values and then tables of such keys. Each line adds to the
entries read so far exactly what it was printed for, so the whole document is read back.
-/

namespace CounterStream.Toml

/-! ## Keys -/

/-- A name that is written as a key without quotes. -/
def IsBareKey (key : String) : Prop := key.toList ≠ [] ∧ ∀ c ∈ key.toList, isBareChar c

instance : DecidablePred IsBareKey := fun key =>
  decidable_of_iff (key.toList ≠ [] ∧ key.toList.all isBareChar) (by simp [IsBareKey])

theorem ne_of_isBareChar {c d : Char} (hc : isBareChar c) (hd : isBareChar d = false) : c ≠ d := by
  rintro rfl
  simp [hc] at hd

theorem IsBareKey.cons {key : String} (h : IsBareKey key) :
    ∃ c cs, key.toList = c :: cs ∧ isBareChar c := by
  obtain ⟨c, cs, hcs⟩ := List.exists_cons_of_ne_nil h.1
  exact ⟨c, cs, hcs, h.2 c (hcs ▸ List.mem_cons_self)⟩

theorem skipBlanks_of_isBareChar {c : Char} (hc : isBareChar c) (cs : List Char) :
    skipBlanks (c :: cs) = c :: cs := by
  apply List.dropWhile_cons_of_neg
  simp [isBlank, ne_of_isBareChar hc (d := ' ') rfl, ne_of_isBareChar hc (d := '\t') rfl]

theorem keyPart?_bare {key : String} (h : IsBareKey key) (rest : List Char)
    (hrest : ∀ c ∈ rest.head?, ¬ isBareChar c) :
    keyPart? (key.toList ++ rest) = some (key, rest) := by
  have htake := Text.takeWhile_run isBareChar key.toList rest h.2 hrest
  have hdrop := Text.dropWhile_run isBareChar key.toList rest h.2 hrest
  obtain ⟨c, cs, hcs, hc⟩ := h.cons
  rw [keyPart?]
  · simp only [htake, hdrop, if_neg h.1, String.ofList_toList]
  · rw [hcs]
    exact fun rest' heq => ne_of_isBareChar hc rfl (List.cons_eq_cons.mp heq).1
  · rw [hcs]
    exact fun rest' heq => ne_of_isBareChar hc rfl (List.cons_eq_cons.mp heq).1

theorem key?_bare {key : String} (h : IsBareKey key) (rest : List Char)
    (hrest : ∀ c ∈ rest.head?, ¬ isBareChar c) (hpoint : (skipBlanks rest).head? ≠ some '.') :
    key? (key.toList ++ rest) = some ([key], skipBlanks rest) := by
  have hpart := keyPart?_bare h rest hrest
  obtain ⟨c, cs, hcs, hc⟩ := h.cons
  rw [hcs, List.cons_append] at hpart ⊢
  show keyParts? 79 _ = _
  rw [keyParts?, skipBlanks_of_isBareChar hc, hpart]
  simp only [Option.bind_eq_bind, Option.bind_some]
  split
  · rename_i heq
    exact absurd (by rw [heq]; rfl) hpoint
  · rfl

/-! ## Lines -/

theorem skipBlanks_line {text : List Char} {value : Toml} (h : ReadsAs text value)
    (rest : List Char) : skipBlanks (text ++ '\n' :: rest) = text ++ '\n' :: rest := by
  have hhead := h.head
  cases text with
  | nil => rfl
  | cons c text => exact List.dropWhile_cons_of_neg (by simp [hhead c rfl])

theorem keyValue?_line {key : String} (h : IsBareKey key) {text : List Char} {value : Toml}
    (htext : ReadsAs text value) (rest : List Char) :
    keyValue? (key.toList ++ ' ' :: '=' :: ' ' :: (text ++ '\n' :: rest)) =
      some ([key], value, rest) := by
  have hkey := key?_bare h (' ' :: '=' :: ' ' :: (text ++ '\n' :: rest)) (by simp [isBareChar])
    (by simp [skipBlanks, isBlank])
  rw [keyValue?, hkey]
  show ((value? _ 0 (skipBlanks (text ++ '\n' :: rest))).bind _) = _
  rw [skipBlanks_line htext, htext.value]
  rfl

theorem lines?_keyValue {fuel : Nat} {current : List String} {root root' : Entries} {c : Char}
    (hc : isBareChar c) {cs rest : List Char} {path : List String} {value : Toml}
    (hline : keyValue? (c :: cs) = some (path, value, rest))
    (hput : extend false (put path value) current .header root = some root') :
    lines? (fuel + 1) current root (c :: cs) = lines? fuel current root' rest := by
  rw [lines?, skipBlanks_of_isBareChar hc]
  split
  case h_7 =>
    rw [hline]
    show ((extend false (put path value) current .header root).bind _) = _
    rw [hput]
    rfl
  case h_1 heq => cases heq
  all_goals
    rename_i heq
    exact absurd (List.cons_eq_cons.mp heq).1 (ne_of_isBareChar hc rfl)

theorem lines?_newline (fuel : Nat) (current : List String) (root : Entries) (rest : List Char) :
    lines? (fuel + 1) current root ('\n' :: rest) = lines? fuel current root rest := rfl

theorem lines?_header {fuel : Nat} {current : List String} {root root' : Entries} {name : String}
    (hname : IsBareKey name) (hopen : openPath openTable [name] root = some root')
    (rest : List Char) :
    lines? (fuel + 1) current root ('[' :: (name.toList ++ ']' :: '\n' :: rest)) =
      lines? fuel [name] root' rest := by
  have hkey := key?_bare hname (']' :: '\n' :: rest) (by simp [isBareChar])
    (by simp [skipBlanks, isBlank])
  obtain ⟨c, cs, hcs, hc⟩ := hname.cons
  have hbracket : ∀ rest', name.toList ++ ']' :: '\n' :: rest ≠ '[' :: rest' := by
    rw [hcs]
    exact fun rest' heq => ne_of_isBareChar hc rfl (List.cons_eq_cons.mp heq).1
  have hskip : skipBlanks ('[' :: (name.toList ++ ']' :: '\n' :: rest)) =
      '[' :: (name.toList ++ ']' :: '\n' :: rest) := rfl
  rw [lines?, hskip]
  split
  case h_5 heq => exact absurd (List.cons_eq_cons.mp heq).2 (hbracket _)
  case h_6 heq =>
    obtain ⟨-, rfl⟩ := List.cons_eq_cons.mp heq
    rw [hkey]
    show ((openPath openTable [name] root).bind _) = _
    rw [hopen]
    rfl
  case h_7 hother => exact absurd rfl (hother _)
  all_goals
    rename_i heq
    cases heq

/-! ## Tables -/

theorem find?_eq_none {key : String} {entries : Entries} (h : key ∉ entries.map Prod.fst) :
    find? key entries = none := by
  rw [find?, Option.map_eq_none_iff, List.find?_eq_none]
  intro entry hentry
  rw [decide_eq_true_eq]
  rintro rfl
  exact h (List.mem_map_of_mem hentry)

theorem find?_append {key : String} {before : Entries} (h : key ∉ before.map Prod.fst)
    (value : Toml) : find? key (before ++ [(key, value)]) = some value := by
  have hnone := find?_eq_none h
  rw [find?, Option.map_eq_none_iff] at hnone
  rw [find?, List.find?_append, hnone]
  simp

theorem replace_append {key : String} {before : Entries} (h : key ∉ before.map Prod.fst)
    (old value : Toml) : replace key value (before ++ [(key, old)]) = before ++ [(key, value)] := by
  have hbefore : replace key value before = before := by
    rw [replace]
    conv_rhs => rw [← List.map_id before]
    apply List.map_congr_left
    intro entry hentry
    rw [if_neg]
    · rfl
    · rintro rfl
      exact h (List.mem_map_of_mem hentry)
  rw [replace, List.map_append, ← replace, hbefore]
  simp

theorem put_single {key : String} {entries : Entries} (h : key ∉ entries.map Prod.fst)
    (value : Toml) : put [key] value .header entries = some (entries ++ [(key, value)]) := by
  show insert true key value .header entries = _
  rw [insert, if_neg (by decide), find?_eq_none h]
  rfl

theorem openTable_single {name : String} {entries : Entries} (h : name ∉ entries.map Prod.fst) :
    openPath openTable [name] entries = some (entries ++ [(name, table .header [])]) := by
  show openTable name .header entries = _
  rw [openTable, find?_eq_none h]

/-- The document around the table at the end of a path, to which lines are being added. -/
structure Around (current : List String) (around : Entries → Entries) : Prop where
  extend_eq : ∀ f inner inner', f .header inner = some inner' →
    extend false f current .header (around inner) = some (around inner')

theorem around_root : Around [] id where
  extend_eq f inner inner' h := by rw [extend]; exact h

theorem around_table {name : String} {before : Entries} (h : name ∉ before.map Prod.fst) :
    Around [name] fun inner => before ++ [(name, table .header inner)] where
  extend_eq f inner inner' hf := by
    rw [extend, find?_append h]
    simp [extend, hf, replace_append h]

/-! ## Whole documents -/

/-- Keys that may stand without quotes, none of them twice, and values that stand on one line. -/
structure IsSection (entries : Entries) : Prop where
  keys : ∀ entry ∈ entries, IsBareKey entry.1
  values : ∀ entry ∈ entries, IsPlain entry.2
  nodup : (entries.map Prod.fst).Nodup

theorem isSection_nil : IsSection [] := ⟨by simp, by simp, by simp⟩

theorem IsSection.cons {entries : Entries} (h : IsSection entries) {key : String} {value : Toml}
    (hkey : IsBareKey key) (hvalue : IsPlain value) (hnew : key ∉ entries.map Prod.fst) :
    IsSection ((key, value) :: entries) where
  keys := List.forall_mem_cons.mpr ⟨hkey, h.keys⟩
  values := List.forall_mem_cons.mpr ⟨hvalue, h.values⟩
  nodup := List.nodup_cons.mpr ⟨hnew, h.nodup⟩

theorem entryLines?_cons {key : String} {value : Toml} {entries : Entries} {text : List Char}
    (h : entryLines? ((key, value) :: entries) = some text) :
    ∃ shown more, scalar? value = some shown ∧ entryLines? entries = some more ∧
      text = key.toList ++ ' ' :: '=' :: ' ' :: (shown ++ '\n' :: more) := by
  rw [entryLines?, entryLine?] at h
  cases hshown : scalar? value with
  | none => simp [hshown] at h
  | some shown =>
    cases hmore : entryLines? entries with
    | none => simp [hshown, hmore] at h
    | some more =>
      refine ⟨shown, more, rfl, rfl, ?_⟩
      simpa [hshown, hmore, eq_comm] using h

/-- The lines of entries add them to the table that is open. Each line costs one step, and the text
is longer than it has lines. -/
theorem lines?_entries {current : List String} {around : Entries → Entries}
    (haround : Around current around) (entries done : Entries)
    (hkeys : ∀ entry ∈ entries, IsBareKey entry.1) (hvalues : ∀ entry ∈ entries, IsPlain entry.2)
    (hnodup : ((done ++ entries).map Prod.fst).Nodup) (text : List Char)
    (htext : entryLines? entries = some text) (rest : List Char) (fuel : Nat)
    (hfuel : (text ++ rest).length < fuel) :
    ∃ fuel', rest.length < fuel' ∧ lines? fuel current (around done) (text ++ rest) =
      lines? fuel' current (around (done ++ entries)) rest := by
  induction entries generalizing done text fuel with
  | nil =>
    obtain rfl := Option.some_inj.mp htext
    exact ⟨fuel, hfuel, by rw [List.append_nil, List.nil_append]⟩
  | cons entry entries ih =>
    obtain ⟨key, value⟩ := entry
    obtain ⟨shown, more, hshown, hmore, rfl⟩ := entryLines?_cons htext
    have hkey : IsBareKey key := hkeys (key, value) List.mem_cons_self
    have hread := (hvalues (key, value) List.mem_cons_self).readsAs hshown
    have hnew : key ∉ done.map Prod.fst := by
      rw [List.map_append, List.nodup_append] at hnodup
      exact fun hmem => hnodup.2.2 key hmem key List.mem_cons_self rfl
    have hput := haround.extend_eq (put [key] value) done _ (put_single hnew value)
    have hline := keyValue?_line hkey hread (more ++ rest)
    have hsplit : key.toList ++ ' ' :: '=' :: ' ' :: (shown ++ '\n' :: more) ++ rest =
        key.toList ++ ' ' :: '=' :: ' ' :: (shown ++ '\n' :: (more ++ rest)) := by simp
    rw [hsplit] at hfuel ⊢
    simp only [List.length_append, List.length_cons] at hfuel
    obtain ⟨fuel, rfl⟩ : ∃ n, fuel = n + 1 := ⟨fuel - 1, by omega⟩
    obtain ⟨fuel', hlt, hrest⟩ := ih (done ++ [(key, value)])
      (fun e he => hkeys e (List.mem_cons_of_mem _ he))
      (fun e he => hvalues e (List.mem_cons_of_mem _ he)) (by simpa using hnodup) more hmore fuel
      (by rw [List.length_append]; omega)
    refine ⟨fuel', hlt, ?_⟩
    obtain ⟨c, cs, hcs, hc⟩ := hkey.cons
    rw [hcs, List.cons_append] at hline ⊢
    rw [lines?_keyValue hc hline hput, hrest, List.append_assoc]
    rfl

theorem lines?_nil (fuel : Nat) (h : 0 < fuel) (current : List String) (root : Entries) :
    lines? fuel current root [] = some root := by
  obtain ⟨fuel, rfl⟩ : ∃ n, fuel = n + 1 := ⟨fuel - 1, by omega⟩
  rfl

/-- The lines of a table: an empty one, a header and the keys. -/
def sectionLines? (part : String × Entries) : Option (List Char) :=
  (entryLines? part.2).map fun lines => '\n' :: '[' :: part.1.toList ++ ']' :: '\n' :: lines

theorem write?_eq (keys : Entries) (sections : List (String × Entries)) :
    write? keys sections = do
      let lines ← entryLines? keys
      let parts ← sections.mapM sectionLines?
      return (String.ofList (lines ++ parts.flatten)) := by
  have hbody : sectionLines? = fun part => do
      return '\n' :: '[' :: part.1.toList ++ ']' :: '\n' :: (← entryLines? part.2) := by
    funext part
    rw [sectionLines?]
    cases entryLines? part.2 <;> rfl
  rw [write?, hbody]

theorem mapM_sectionLines?_cons {part : String × Entries} {sections : List (String × Entries)}
    {parts : List (List Char)} (h : (part :: sections).mapM sectionLines? = some parts) :
    ∃ text more, entryLines? part.2 = some text ∧ sections.mapM sectionLines? = some more ∧
      parts = ('\n' :: '[' :: part.1.toList ++ ']' :: '\n' :: text) :: more := by
  rw [List.mapM_cons, sectionLines?] at h
  cases htext : entryLines? part.2 with
  | none => simp [htext] at h
  | some text =>
    cases hmore : sections.mapM sectionLines? with
    | none => simp [hmore] at h
    | some more =>
      refine ⟨text, more, rfl, rfl, ?_⟩
      simpa [htext, hmore, eq_comm] using h

theorem lines?_sections (sections : List (String × Entries)) (current : List String)
    (root : Entries) (hnames : ∀ part ∈ sections, IsBareKey part.1)
    (hsections : ∀ part ∈ sections, IsSection part.2)
    (hnodup : (root.map Prod.fst ++ sections.map Prod.fst).Nodup) (parts : List (List Char))
    (hparts : sections.mapM sectionLines? = some parts) (fuel : Nat)
    (hfuel : parts.flatten.length < fuel) :
    lines? fuel current root parts.flatten =
      some (root ++ sections.map fun part => (part.1, table .header part.2)) := by
  induction sections generalizing current root parts fuel with
  | nil =>
    obtain rfl := Option.some_inj.mp hparts
    rw [List.map_nil, List.append_nil]
    exact lines?_nil fuel (by omega) current root
  | cons part sections ih =>
    obtain ⟨name, entries⟩ := part
    obtain ⟨text, more, htext, hmore, rfl⟩ := mapM_sectionLines?_cons hparts
    have hnew : name ∉ root.map Prod.fst := by
      rw [List.nodup_append] at hnodup
      exact fun hmem => hnodup.2.2 name hmem name List.mem_cons_self rfl
    have hsection := hsections (name, entries) List.mem_cons_self
    have hsplit : (('\n' :: '[' :: name.toList ++ ']' :: '\n' :: text) :: more).flatten =
        '\n' :: '[' :: (name.toList ++ ']' :: '\n' :: (text ++ more.flatten)) := by simp
    rw [hsplit] at hfuel ⊢
    simp only [List.length_append, List.length_cons] at hfuel
    obtain ⟨fuel, rfl⟩ : ∃ n, fuel = n + 2 := ⟨fuel - 2, by omega⟩
    obtain ⟨fuel', hlt, hlines⟩ := lines?_entries (around_table hnew) entries [] hsection.keys
      hsection.values hsection.nodup text htext more.flatten fuel
      (by rw [List.length_append]; omega)
    have hrest := ih [name] (root ++ [(name, table .header entries)])
      (fun e he => hnames e (List.mem_cons_of_mem _ he))
      (fun e he => hsections e (List.mem_cons_of_mem _ he)) (by simpa using hnodup) more hmore
      fuel' hlt
    rw [lines?_newline, lines?_header (hnames _ List.mem_cons_self) (openTable_single hnew), hlines,
      List.nil_append, hrest]
    simp

theorem document?_of_head (cs : List Char) (h : ∀ c ∈ cs.head?, c ≠ '\ufeff') :
    document? (String.ofList cs) = lines? (cs.length + 1) [] [] cs := by
  rw [document?, String.toList_ofList]
  split
  · exact absurd rfl (h _ rfl)
  · rfl

theorem head_document {keys : Entries} (hkeys : ∀ entry ∈ keys, IsBareKey entry.1)
    {text : List Char} (htext : entryLines? keys = some text) {sections : List (String × Entries)}
    {parts : List (List Char)} (hparts : sections.mapM sectionLines? = some parts) :
    ∀ c ∈ (text ++ parts.flatten).head?, isBareChar c ∨ c = '\n' := by
  cases keys with
  | cons entry keys =>
    obtain ⟨shown, more, -, -, rfl⟩ := entryLines?_cons htext
    obtain ⟨c, cs, hcs, hc⟩ := (hkeys entry List.mem_cons_self).cons
    rw [hcs]
    rintro d ⟨⟩
    exact Or.inl hc
  | nil =>
    obtain rfl := Option.some_inj.mp htext
    cases sections with
    | nil =>
      obtain rfl := Option.some_inj.mp hparts
      simp
    | cons part sections =>
      obtain ⟨lines, more, -, -, rfl⟩ := mapM_sectionLines?_cons hparts
      rintro d ⟨⟩
      exact Or.inr rfl

theorem document?_write? {keys : Entries} {sections : List (String × Entries)} {s : String}
    (hkeys : IsSection keys) (hnames : ∀ part ∈ sections, IsBareKey part.1)
    (hsections : ∀ part ∈ sections, IsSection part.2)
    (hnodup : (keys.map Prod.fst ++ sections.map Prod.fst).Nodup)
    (h : write? keys sections = some s) :
    document? s = some (keys ++ sections.map fun part => (part.1, table .header part.2)) := by
  rw [write?_eq] at h
  cases htext : entryLines? keys with
  | none => simp [htext] at h
  | some text =>
    cases hparts : sections.mapM sectionLines? with
    | none => simp [hparts] at h
    | some parts =>
      simp only [htext, hparts, Option.bind_eq_bind, Option.bind_some, Option.pure_def,
        Option.some.injEq] at h
      subst h
      obtain ⟨fuel', hlt, hlines⟩ := lines?_entries around_root keys [] hkeys.keys hkeys.values
        hkeys.nodup text htext parts.flatten _ (Nat.lt_succ_self _)
      have hsecs := lines?_sections sections [] keys hnames hsections hnodup parts hparts fuel' hlt
      rw [document?_of_head]
      · exact hlines.trans hsecs
      · intro c hc
        rcases head_document hkeys.keys htext hparts c hc with hbare | rfl
        · exact ne_of_isBareChar hbare (by decide)
        · decide

/-! ## Documents that can be written -/

theorem IsPlain.scalar?_isSome_iff {value : Toml} (h : IsPlain value) :
    (scalar? value).isSome ↔ Fits value := by
  cases h with
  | integer n => simp [scalar?]
  | _ => simp [scalar?]

theorem entryLines?_isSome_iff (entries : Entries) (hvalues : ∀ entry ∈ entries, IsPlain entry.2) :
    (entryLines? entries).isSome ↔ EntriesFit entries := by
  induction entries with
  | nil => exact iff_of_true rfl entriesFit_nil
  | cons entry entries ih =>
    rw [List.forall_mem_cons] at hvalues
    rw [entriesFit_cons, ← hvalues.1.scalar?_isSome_iff, ← ih hvalues.2, entryLines?, entryLine?]
    cases scalar? entry.2 <;> cases entryLines? entries <;> simp

theorem mapM_sectionLines?_isSome_iff (sections : List (String × Entries))
    (hsections : ∀ part ∈ sections, IsSection part.2) :
    (sections.mapM sectionLines?).isSome ↔ ∀ part ∈ sections, EntriesFit part.2 := by
  induction sections with
  | nil => simp
  | cons part sections ih =>
    rw [List.forall_mem_cons] at hsections
    rw [List.forall_mem_cons, ← entryLines?_isSome_iff _ hsections.1.values, ← ih hsections.2,
      List.mapM_cons, sectionLines?]
    cases entryLines? part.2 <;> cases sections.mapM sectionLines? <;> simp

theorem write?_isSome_iff {keys : Entries} {sections : List (String × Entries)}
    (hkeys : IsSection keys) (hsections : ∀ part ∈ sections, IsSection part.2) :
    (write? keys sections).isSome ↔
      EntriesFit keys ∧ ∀ part ∈ sections, EntriesFit part.2 := by
  rw [← entryLines?_isSome_iff keys hkeys.values, ← mapM_sectionLines?_isSome_iff _ hsections,
    write?_eq]
  cases entryLines? keys <;> cases sections.mapM sectionLines? <;> simp

end CounterStream.Toml
