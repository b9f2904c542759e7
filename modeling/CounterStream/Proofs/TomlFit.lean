import Mathlib.Data.List.Basic
import CounterStream.Toml.Reader

/-!
# Whole numbers of a document

A whole number is read only if 64 bits with a sign hold it, and reading a document moves values into
tables without changing them. So every whole number in a document that is read fits.
-/

namespace CounterStream.Toml

/-- Every whole number in the value fits 64 bits with a sign. -/
inductive Fits : Toml → Prop
  | string (text : String) : Fits (string text)
  | integer (n : Int) (h : (CounterStream.int64? n).isSome) : Fits (integer n)
  | float (x : Double) : Fits (float x)
  | boolean (b : Bool) : Fits (boolean b)
  | datetime (literal : List Char) : Fits (datetime literal)
  | array (items : List Toml) (h : ∀ item ∈ items, Fits item) : Fits (array items)
  | table (origin : TableOrigin) (entries : Entries) (h : ∀ entry ∈ entries, Fits entry.2) :
    Fits (table origin entries)
  | tables (items : List Entries) (h : ∀ entries ∈ items, ∀ entry ∈ entries, Fits entry.2) :
    Fits (tables items)

@[simp] theorem fits_string (text : String) : Fits (string text) := .string text

@[simp] theorem fits_float (x : Double) : Fits (float x) := .float x

@[simp] theorem fits_integer_iff (n : Int) : Fits (integer n) ↔ (CounterStream.int64? n).isSome :=
  ⟨fun | .integer _ h => h, .integer n⟩

def EntriesFit (entries : Entries) : Prop := ∀ entry ∈ entries, Fits entry.2

@[simp] theorem entriesFit_nil : EntriesFit [] := by simp [EntriesFit]

@[simp] theorem entriesFit_cons (entry : String × Toml) (entries : Entries) :
    EntriesFit (entry :: entries) ↔ Fits entry.2 ∧ EntriesFit entries :=
  List.forall_mem_cons

theorem EntriesFit.append {entries : Entries} (h : EntriesFit entries) (key : String) {value : Toml}
    (hvalue : Fits value) : EntriesFit (entries ++ [(key, value)]) := by
  intro entry hentry
  rcases List.mem_append.mp hentry with hentry | hentry
  · exact h entry hentry
  · obtain rfl := List.mem_singleton.mp hentry
    exact hvalue

theorem EntriesFit.replace {entries : Entries} (h : EntriesFit entries) (key : String)
    {value : Toml} (hvalue : Fits value) : EntriesFit (replace key value entries) := by
  intro entry hentry
  obtain ⟨old, hold, rfl⟩ := List.mem_map.mp hentry
  split_ifs
  · exact hvalue
  · exact h old hold

theorem EntriesFit.find? {entries : Entries} (h : EntriesFit entries) {key : String} {value : Toml}
    (hvalue : find? key entries = some value) : Fits value := by
  obtain ⟨entry, hentry, rfl⟩ := Option.map_eq_some_iff.mp hvalue
  exact h entry (List.mem_of_find?_eq_some hentry)

/-! ## Adding to tables -/

/-- A change of a table that keeps whole numbers fitting. -/
def Keeps (f : TableOrigin → Entries → Option Entries) : Prop :=
  ∀ origin entries entries', EntriesFit entries → f origin entries = some entries' →
    EntriesFit entries'

theorem Keeps.extend {f : TableOrigin → Entries → Option Entries} (hf : Keeps f) (dotted : Bool)
    (path : List String) : Keeps (extend dotted f path) := by
  induction path with
  | nil => exact hf
  | cons key path ih =>
    intro origin entries entries' hentries h
    rw [Toml.extend] at h
    split at h
    · -- A missing table is made and filled.
      obtain ⟨inner, hinner, h⟩ := Option.bind_eq_some_iff.mp h
      obtain rfl := Option.some_inj.mp h
      exact hentries.append key (.table _ _ (ih _ _ _ entriesFit_nil hinner))
    · rename_i origin' old hold
      split_ifs at h
      obtain ⟨inner, hinner, h⟩ := Option.bind_eq_some_iff.mp h
      obtain rfl := Option.some_inj.mp h
      cases hentries.find? hold with
      | table _ _ hfit => exact hentries.replace key (.table _ _ (ih _ _ _ hfit hinner))
    · rename_i items hitems
      split at h
      · cases h
      · rename_i last hlast
        obtain ⟨inner, hinner, h⟩ := Option.bind_eq_some_iff.mp h
        obtain rfl := Option.some_inj.mp h
        cases hentries.find? hitems with
        | tables _ hfit =>
          have hinnerFit := ih _ _ _ (hfit last (List.mem_of_getLast? hlast)) hinner
          refine hentries.replace key (.tables _ fun table htable => ?_)
          rcases List.mem_append.mp htable with htable | htable
          · exact hfit table ((List.dropLast_sublist items).mem htable)
          · obtain rfl := List.mem_singleton.mp htable
            exact hinnerFit
    · cases h

theorem keeps_insert (direct : Bool) (key : String) {value : Toml} (hvalue : Fits value) :
    Keeps (insert direct key value) := by
  intro origin entries entries' hentries h
  rw [insert] at h
  split_ifs at h
  obtain rfl := Option.some_inj.mp h
  exact hentries.append key hvalue

theorem keeps_put (path : List String) {value : Toml} (hvalue : Fits value) :
    Keeps (put path value) := by
  intro origin entries entries' hentries h
  rw [put] at h
  split at h
  · cases h
  · exact (keeps_insert _ _ hvalue).extend true _ origin entries entries' hentries h

theorem keeps_openTable (key : String) : Keeps (openTable key) := by
  intro origin entries entries' hentries h
  rw [openTable] at h
  split at h
  · obtain rfl := Option.some_inj.mp h
    exact hentries.append key (.table _ _ entriesFit_nil)
  · rename_i inner hinner
    obtain rfl := Option.some_inj.mp h
    cases hentries.find? hinner with
    | table _ _ hfit => exact hentries.replace key (.table _ _ hfit)
  · cases h

theorem keeps_openNext (key : String) : Keeps (openNext key) := by
  intro origin entries entries' hentries h
  rw [openNext] at h
  split at h
  · obtain rfl := Option.some_inj.mp h
    refine hentries.append key (.tables _ fun table htable => ?_)
    obtain rfl := List.mem_singleton.mp htable
    exact entriesFit_nil
  · rename_i items hitems
    obtain rfl := Option.some_inj.mp h
    cases hentries.find? hitems with
    | tables _ hfit =>
      refine hentries.replace key (.tables _ fun table htable => ?_)
      rcases List.mem_append.mp htable with htable | htable
      · exact hfit table htable
      · obtain rfl := List.mem_singleton.mp htable
        exact entriesFit_nil
  · cases h

theorem keeps_openPath {f : String → TableOrigin → Entries → Option Entries}
    (hf : ∀ key, Keeps (f key)) {path : List String} {root root' : Entries}
    (hroot : EntriesFit root) (h : openPath f path root = some root') : EntriesFit root' := by
  rw [openPath] at h
  split at h
  · cases h
  · exact (hf _).extend false _ _ root root' hroot h

/-! ## Values -/

theorem fits_ofWord? {cs : List Char} {value : Toml} (h : ofWord? cs = some value) :
    Fits value := by
  rw [ofWord?] at h
  split_ifs at h
  · obtain rfl := Option.some_inj.mp h
    exact .boolean true
  · obtain rfl := Option.some_inj.mp h
    exact .boolean false
  · obtain rfl := Option.some_inj.mp h
    exact .datetime cs
  · split at h
    · rename_i n hn
      obtain rfl := Option.some_inj.mp h
      unfold integer? at hn
      exact .integer n (Option.filter_eq_some_iff.mp hn).2
    · obtain ⟨x, -, rfl⟩ := Option.map_eq_some_iff.mp h
      exact .float x

theorem fits_word? {cs rest : List Char} {value : Toml} (h : word? cs = some (value, rest)) :
    Fits value := by
  rw [word?] at h
  split_ifs at h
  · obtain ⟨rfl, -⟩ := Prod.mk.inj (Option.some_inj.mp h)
    exact .datetime _
  · obtain ⟨word, hword, h⟩ := Option.bind_eq_some_iff.mp h
    obtain ⟨rfl, -⟩ := Prod.mk.inj (Option.some_inj.mp h)
    exact fits_ofWord? hword

/-- What the three readers of values find in so many steps. -/
structure StepsFit (fuel : Nat) : Prop where
  value : ∀ depth cs value rest, value? fuel depth cs = some (value, rest) → Fits value
  items : ∀ depth cs items rest, items? fuel depth cs = some (items, rest) →
    ∀ item ∈ items, Fits item
  pairs : ∀ depth entries cs value rest, EntriesFit entries →
    pairs? fuel depth entries cs = some (value, rest) → Fits value

variable {fuel : Nat}

theorem StepsFit.value_succ (ih : StepsFit fuel) (depth : Nat) (cs : List Char) (value : Toml)
    (rest : List Char) (h : value? (fuel + 1) depth cs = some (value, rest)) : Fits value := by
  rw [value?.eq_def] at h
  dsimp only at h
  split at h
  · split_ifs at h
    obtain ⟨⟨items, rest'⟩, hitems, h⟩ := Option.map_eq_some_iff.mp h
    obtain ⟨rfl, -⟩ := Prod.mk.inj h
    exact .array items (ih.items _ _ _ _ hitems)
  · split_ifs at h
    split at h
    · obtain ⟨rfl, -⟩ := Prod.mk.inj (Option.some_inj.mp h)
      exact .table _ _ entriesFit_nil
    · exact ih.pairs _ _ _ _ _ entriesFit_nil h
  · obtain ⟨⟨text, rest'⟩, -, h⟩ := Option.map_eq_some_iff.mp h
    obtain ⟨rfl, -⟩ := Prod.mk.inj h
    exact .string text
  · obtain ⟨⟨text, rest'⟩, -, h⟩ := Option.map_eq_some_iff.mp h
    obtain ⟨rfl, -⟩ := Prod.mk.inj h
    exact .string text
  · exact fits_word? h

theorem StepsFit.items_succ (ih : StepsFit fuel) (depth : Nat) (cs : List Char) (items : List Toml)
    (rest : List Char) (h : items? (fuel + 1) depth cs = some (items, rest)) :
    ∀ item ∈ items, Fits item := by
  rw [items?] at h
  split at h
  · obtain ⟨rfl, -⟩ := Prod.mk.inj (Option.some_inj.mp h)
    simp
  · obtain ⟨⟨item, rest'⟩, hitem, h⟩ := Option.bind_eq_some_iff.mp h
    have hfit := ih.value _ _ _ _ hitem
    dsimp only at h
    split at h
    · obtain ⟨rfl, -⟩ := Prod.mk.inj (Option.some_inj.mp h)
      exact List.forall_mem_singleton.mpr hfit
    · obtain ⟨⟨items', rest''⟩, hitems, h⟩ := Option.bind_eq_some_iff.mp h
      obtain ⟨rfl, -⟩ := Prod.mk.inj (Option.some_inj.mp h)
      exact List.forall_mem_cons.mpr ⟨hfit, ih.items _ _ _ _ hitems⟩
    · cases h

theorem StepsFit.pairs_succ (ih : StepsFit fuel) (depth : Nat) (entries : Entries) (cs : List Char)
    (value : Toml) (rest : List Char) (hentries : EntriesFit entries)
    (h : pairs? (fuel + 1) depth entries cs = some (value, rest)) : Fits value := by
  rw [pairs?] at h
  obtain ⟨⟨path, rest'⟩, -, h⟩ := Option.bind_eq_some_iff.mp h
  dsimp only at h
  split at h
  · obtain ⟨⟨inner, rest''⟩, hinner, h⟩ := Option.bind_eq_some_iff.mp h
    obtain ⟨entries', hput, h⟩ := Option.bind_eq_some_iff.mp h
    have hfit := keeps_put path (ih.value _ _ _ _ hinner) _ _ _ hentries hput
    split at h
    · obtain ⟨rfl, -⟩ := Prod.mk.inj (Option.some_inj.mp h)
      exact .table _ _ hfit
    · exact ih.pairs _ _ _ _ _ hfit h
    · cases h
  · cases h

/-- The readers call each other with one step less, so one induction on the steps serves them
all. -/
theorem stepsFit (fuel : Nat) : StepsFit fuel := by
  induction fuel with
  | zero => constructor <;> simp [value?, items?, pairs?]
  | succ fuel ih => exact ⟨ih.value_succ, ih.items_succ, ih.pairs_succ⟩

/-! ## Documents -/

theorem fits_keyValue? {cs rest : List Char} {path : List String} {value : Toml}
    (h : keyValue? cs = some (path, value, rest)) : Fits value := by
  rw [keyValue?] at h
  obtain ⟨⟨path', rest'⟩, -, h⟩ := Option.bind_eq_some_iff.mp h
  dsimp only at h
  split at h
  · obtain ⟨⟨value', rest''⟩, hvalue, h⟩ := Option.bind_eq_some_iff.mp h
    obtain ⟨end', -, h⟩ := Option.bind_eq_some_iff.mp h
    obtain ⟨-, rfl, -⟩ := Prod.mk.inj (Option.some_inj.mp h)
    exact (stepsFit _).value _ _ _ _ hvalue
  · cases h

theorem entriesFit_lines? (fuel : Nat) (current : List String) (root : Entries) (cs : List Char)
    (entries : Entries) (hroot : EntriesFit root) (h : lines? fuel current root cs = some entries) :
    EntriesFit entries := by
  induction fuel generalizing current root cs with
  | zero => cases h
  | succ fuel ih =>
    rw [lines?] at h
    split at h
    · obtain rfl := Option.some_inj.mp h
      exact hroot
    · exact ih _ _ _ hroot h
    · obtain ⟨rest, -, h⟩ := Option.bind_eq_some_iff.mp h
      exact ih _ _ _ hroot h
    · obtain ⟨rest, -, h⟩ := Option.bind_eq_some_iff.mp h
      exact ih _ _ _ hroot h
    · obtain ⟨⟨path, rest⟩, -, h⟩ := Option.bind_eq_some_iff.mp h
      dsimp only at h
      split at h
      · obtain ⟨root', hopen, h⟩ := Option.bind_eq_some_iff.mp h
        obtain ⟨rest', -, h⟩ := Option.bind_eq_some_iff.mp h
        exact ih _ _ _ (keeps_openPath keeps_openNext hroot hopen) h
      · cases h
    · obtain ⟨⟨path, rest⟩, -, h⟩ := Option.bind_eq_some_iff.mp h
      dsimp only at h
      split at h
      · obtain ⟨root', hopen, h⟩ := Option.bind_eq_some_iff.mp h
        obtain ⟨rest', -, h⟩ := Option.bind_eq_some_iff.mp h
        exact ih _ _ _ (keeps_openPath keeps_openTable hroot hopen) h
      · cases h
    · obtain ⟨⟨path, value, rest⟩, hline, h⟩ := Option.bind_eq_some_iff.mp h
      obtain ⟨root', hput, h⟩ := Option.bind_eq_some_iff.mp h
      have hvalue := fits_keyValue? hline
      exact ih _ _ _ ((keeps_put path hvalue).extend false current _ _ _ hroot hput) h

theorem entriesFit_document? {s : String} {entries : Entries} (h : document? s = some entries) :
    EntriesFit entries := by
  rw [document?] at h
  exact entriesFit_lines? _ _ _ _ _ entriesFit_nil h

end CounterStream.Toml
