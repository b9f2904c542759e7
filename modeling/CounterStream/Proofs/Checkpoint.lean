import CounterStream.Checkpoint
import CounterStream.Proofs.JsonLength
import CounterStream.Proofs.JsonText
import CounterStream.Proofs.Word

/-!
# Stored engines read back

Both ways of storing an engine are undone by reading, which also finds out which of the two it was:
the text of a record is never as short as the bytes, whoever wrote it.
-/

namespace CounterStream

theorem Json.filter_of_once? {name : String} {members : List (Option String × Json)} {value : Json}
    (h : once? name members = some value) :
    members.filter (·.1 = some name) = [(some name, value)] := by
  unfold once? at h
  split at h
  · rename_i found _ heq
    cases h
    have hmem : (found, value) ∈ members.filter (·.1 = some name) := by simp [heq]
    obtain rfl : found = some name := of_decide_eq_true (List.mem_filter.mp hmem).2
    exact heq
  · cases h

namespace Engine

/-! ## Bytes -/

theorem length_toBytes (e : Engine) : e.toBytes.length = 24 := rfl

theorem ofBytes_toBytes (e : Engine) : ofBytes e.toBytes = .ok e := by
  rw [ofBytes, if_pos e.length_toBytes, toBytes, Word.listOfBytes_flatMap]
  rfl

theorem ofBytes_of_length {bytes : List UInt8} (h : bytes.length ≠ 24) :
    ofBytes bytes = .error ⟨bytes.length⟩ := if_neg h

theorem exists_ofBytes {bytes : List UInt8} (h : bytes.length = 24) :
    ∃ e, ofBytes bytes = .ok e ∧ e.toBytes = bytes := by
  have hlength : (Word.listOfBytes bytes).length = 6 := by rw [Word.length_listOfBytes, h]
  have hbytes := Word.flatMap_listOfBytes bytes ⟨6, h⟩
  match hwords : Word.listOfBytes bytes, hlength with
  | [w0, w1, w2, w3, low, high], _ =>
    refine ⟨⟨⟨w0, w1, w2, w3⟩, ⟨low, high⟩⟩, ?_, ?_⟩
    · rw [ofBytes, if_pos h, hwords]
    · rw [hwords] at hbytes
      exact hbytes

/-! ## JSON -/

theorem isPlain_toJson (e : Engine) : e.toJson.IsPlain := by
  have hnumber (w : UInt32) : (Json.natural w.toNat).IsPlain := Json.isLiteral_toDigits w.toNat
  exact ⟨⟨"counter", rfl, Text.forall_mem_of_all (by decide)⟩,
    ⟨hnumber _, hnumber _, hnumber _, hnumber _, trivial⟩,
    ⟨"key", rfl, Text.forall_mem_of_all (by decide)⟩, ⟨hnumber _, hnumber _, trivial⟩, trivial⟩

theorem word?_natural (w : UInt32) : word? (Json.natural w.toNat) = some w := by
  rw [word?, Json.natural?_natural _ _ (by decide) w.toNat_lt, Option.map_some, UInt32.ofNat_toNat]

theorem ofJson?_toJson (e : Engine) : ofJson? e.toJson = some e := by
  have hcounter : counter? (.array (e.counter.words.map fun w => Json.natural w.toNat)) =
      some e.counter := by
    simp [counter?, Block.words, word?_natural]
  have hkey : key? (.array [Json.natural e.key.low.toNat, Json.natural e.key.high.toNat]) =
      some e.key := by
    simp [key?, word?_natural]
  simp [ofJson?, toJson, Json.record, Json.once?, hcounter, hkey]

/-! ## Least lengths -/

theorem length_of_word? {j : Json} {w : UInt32} (h : word? j = some w) : 1 ≤ j.leastLength := by
  obtain ⟨n, hn, -⟩ := Option.map_eq_some_iff.mp h
  obtain ⟨k, hk, -⟩ := Option.bind_eq_some_iff.mp hn
  unfold Json.integer? at hk
  split at hk
  · rename_i literal
    have hne : literal ≠ [] := by
      rintro rfl
      cases hk
    exact List.length_pos_of_ne_nil hne
  · cases hk

theorem length_of_counter? {j : Json} {c : Counter} (h : counter? j = some c) :
    9 ≤ j.leastLength := by
  unfold counter? at h
  split at h
  · simp only [Option.bind_eq_bind, Option.bind_eq_some_iff] at h
    obtain ⟨w0, h0, w1, h1, w2, h2, w3, h3, -⟩ := h
    have := length_of_word? h0
    have := length_of_word? h1
    have := length_of_word? h2
    have := length_of_word? h3
    simp only [Json.leastLength, Json.leastItems]
    omega
  · cases h

theorem length_of_key? {j : Json} {k : Key} (h : key? j = some k) : 5 ≤ j.leastLength := by
  unfold key? at h
  split at h
  · simp only [Option.bind_eq_bind, Option.bind_eq_some_iff] at h
    obtain ⟨low, hlow, high, hhigh, -⟩ := h
    have := length_of_word? hlow
    have := length_of_word? hhigh
    simp only [Json.leastLength, Json.leastItems]
    omega
  · cases h

theorem length_of_ofJson?_object {members : List (Option String × Json)} {e : Engine}
    (h : ofJson? (.object members) = some e) : 33 ≤ (Json.object members).leastLength := by
  simp only [ofJson?] at h
  split_ifs at h
  simp only [Option.bind_eq_bind, Option.bind_eq_some_iff] at h
  obtain ⟨counter, hcounter, c, hc, key, hkey, k, hk, -⟩ := h
  have hboth := Json.leastMembers_filter members (a := "counter") (b := "key") (by decide)
  have hcounterLength := length_of_counter? hc
  have hkeyLength := length_of_key? hk
  rw [Json.filter_of_once? hcounter, Json.filter_of_once? hkey] at hboth
  have hnames : Json.quotedLength (some "counter") = 9 ∧ Json.quotedLength (some "key") = 5 := by
    decide
  simp only [Json.leastMembers, hnames] at hboth
  simp only [Json.leastLength]
  omega

/-- Only the list of the two values can be as short as the bytes. -/
theorem exists_array_of_length {j : Json} {e : Engine} (h : ofJson? j = some e)
    (hlength : j.leastLength ≤ 24) : ∃ counter key, j = .array [counter, key] := by
  match j with
  | .object members =>
    have hlong := length_of_ofJson?_object h
    omega
  | .array [counter, key] => exact ⟨counter, key, rfl⟩
  | .array [] | .array [_] | .array (_ :: _ :: _ :: _) => cases h
  | .null | .bool _ | .number _ | .string _ => cases h

end Engine

/-! ## Files -/

namespace Checkpoint

theorem areBlank_lineEnd : Json.AreBlank ['\n'] := by simp [Json.AreBlank, Json.isBlank]

theorem ofBytes?_write (e : Engine) : Json.ofBytes? (write .json e) = some e.toJson :=
  Json.ofText?_prettyText e.toJson e.isPlain_toJson ['\n'] areBlank_lineEnd

theorem length_write (e : Engine) : 33 ≤ (write .json e).length :=
  (Engine.length_of_ofJson?_object e.ofJson?_toJson).trans (Json.leastLength_le (ofBytes?_write e))

variable {bytes : List UInt8}

theorem read?_of_length (h : bytes.length = 24) :
    ∃ e, read? bytes = some (e, .binary) ∧ e.toBytes = bytes := by
  obtain ⟨e, he, hbytes⟩ := Engine.exists_ofBytes h
  refine ⟨e, ?_, hbytes⟩
  rw [read?, if_pos h, he]
  rfl

theorem read?_of_json {value : Json} {e : Engine} (hvalue : Json.ofBytes? bytes = some value)
    (he : Engine.ofJson? value = some e) (h : bytes.length ≠ 24) :
    read? bytes = some (e, .json) := by
  rw [read?, if_neg h, hvalue]
  show (Engine.ofJson? value).bind _ = _
  rw [he]
  rfl

theorem read?_write (encoding : Encoding) (e : Engine) :
    read? (write encoding e) = some (e, encoding) := by
  cases encoding with
  | binary =>
    show read? e.toBytes = _
    rw [read?, if_pos e.length_toBytes, e.ofBytes_toBytes]
    rfl
  | json =>
    have hlength := length_write e
    exact read?_of_json (ofBytes?_write e) e.ofJson?_toJson (by omega)

end Checkpoint

end CounterStream
