import CounterStream.Command.Basic
import CounterStream.Proofs.Checkpoint
import CounterStream.Proofs.Directory

/-!
# Files of stored engines

What a file holds is told by its length alone. No record is as short as the bytes of an engine, in
whatever layout it is written, but a list of the two values can be, and is then taken for bytes.
-/

namespace CounterStream.Checkpoint

variable {read : FileReader} {path : String} {bytes : List UInt8}

theorem load_of_read? {stored : Engine × Encoding} (hread : read path = .ok bytes)
    (hstored : read? bytes = some stored) : load read path = .ok stored := by
  rw [load, hread]
  dsimp only [bind, Except.bind, Except.mapError]
  rw [hstored]
  rfl

theorem load_of_length (hread : read path = .ok bytes) (h : bytes.length = 24) :
    ∃ raw, load read path = .ok (raw, .binary) ∧ write .binary raw = bytes := by
  obtain ⟨raw, hraw, hbytes⟩ := read?_of_length h
  exact ⟨raw, load_of_read? hread hraw, hbytes⟩

/-- What is stored in a file is loaded from it, in the encoding it was stored in. A file of 24 bytes
is always loaded as bytes, and the engine it gives is stored as those bytes; no other number of
bytes is an engine. Both layouts of the record of an engine are read as that engine. -/
theorem files_decode (e : Engine) (encoding : Encoding) (d : Directory) (read : FileReader)
    (path : String) (bytes : List UInt8) :
    (∀ d', d.write path (write encoding e) = .ok d' → load d'.read path = .ok (e, encoding)) ∧
    (read path = .ok bytes → bytes.length = 24 →
      ∃ raw, load read path = .ok (raw, .binary) ∧ write .binary raw = bytes) ∧
    (bytes.length ≠ 24 → Engine.ofBytes bytes = .error ⟨bytes.length⟩) ∧
    (Json.ofText? e.toJson.compactText).bind Engine.ofJson? = some e ∧
    (Json.ofText? e.toJson.prettyText).bind Engine.ofJson? = some e := by
  have hplain := e.isPlain_toJson
  refine ⟨?_, load_of_length, Engine.ofBytes_of_length, ?_, ?_⟩
  · intro d' hwrite
    exact load_of_read? (Directory.read_of_write hwrite) (read?_write encoding e)
  · rw [Json.ofText?_compactText _ hplain, Option.bind_some, e.ofJson?_toJson]
  · have hpretty := Json.ofText?_prettyText _ hplain [] (by simp [Json.AreBlank])
    rw [String.ofList_nil, String.append_empty] at hpretty
    rw [hpretty, Option.bind_some, e.ofJson?_toJson]

/-- A list of the two values that is as long as the bytes of an engine. -/
def shortList : List UInt8 := "[[10,11,12,13],[14,200]]".toUTF8.toList

theorem files_decode_like_json :
    let e : Engine := ⟨⟨0x7B20, 0, 0, 0⟩, ⟨7, 8⟩⟩
    shortList.length = 24 ∧ ([] : List UInt8).length ≠ 24 ∧
    (∃ d, Directory.empty.write "space.bin" (write .binary e) = .ok d ∧
      load d.read "space.bin" = .ok (e, .binary)) ∧
    (∃ raw, load (fun _ => .ok shortList) "list.json" = .ok (raw, .binary) ∧
      write .binary raw = shortList) ∧
    Engine.ofBytes [] = .error ⟨0⟩ ∧
    (Json.ofText? e.toJson.compactText).bind Engine.ofJson? = some e := by
  intro e
  have hshort : shortList.length = 24 := by decide +kernel
  -- the bytes of the engine begin as JSON does, with a blank and a brace
  obtain ⟨hload, -, hrefused, hcompact, -⟩ :=
    files_decode e .binary Directory.empty (fun _ => .ok shortList) "space.bin" []
  obtain ⟨-, hraw, -⟩ :=
    files_decode e .binary Directory.empty (fun _ => .ok shortList) "list.json" shortList
  exact ⟨hshort, by decide, ⟨_, rfl, hload _ rfl⟩, hraw rfl hshort, hrefused (by decide), hcompact⟩

/-- Whatever JSON stands for an engine, a file of it is loaded as that engine and as JSON, unless it
has 24 bytes. Then it is a list of two values and is loaded as bytes. A record is always longer. -/
theorem json_loads_unless_list_of_24_bytes (read : FileReader) (path : String) (bytes : List UInt8)
    (value : Json) (e : Engine) (hread : read path = .ok bytes)
    (hvalue : Json.ofBytes? bytes = some value) (he : Engine.ofJson? value = some e) :
    (load read path = .ok (e, .json) ↔ bytes.length ≠ 24) ∧
    (bytes.length = 24 → (∃ counter key, value = .array [counter, key]) ∧
      ∃ raw, load read path = .ok (raw, .binary) ∧ write .binary raw = bytes) ∧
    ∀ members, value = .object members →
      33 ≤ bytes.length ∧ load read path = .ok (e, .json) := by
  have hleast := Json.leastLength_le hvalue
  have hjson (h : bytes.length ≠ 24) : load read path = .ok (e, .json) :=
    load_of_read? hread (read?_of_json hvalue he h)
  refine ⟨⟨?_, hjson⟩, ?_, ?_⟩
  · intro hload h
    obtain ⟨raw, hloaded, -⟩ := load_of_length hread h
    rw [hload] at hloaded
    cases hloaded
  · intro h
    exact ⟨Engine.exists_array_of_length he (by omega), load_of_length hread h⟩
  · rintro members rfl
    have hlong := Engine.length_of_ofJson?_object he
    exact ⟨by omega, hjson (by omega)⟩

theorem json_loads_shortest_record :
    let bytes := "\x7b\"key\":[0,0],\"counter\":[0,0,0,0]\x7d".toUTF8.toList
    (Json.ofBytes? bytes).bind Engine.ofJson? = some Engine.zero ∧ bytes.length = 33 ∧
    load (fun _ => .ok bytes) "zero.json" = .ok (Engine.zero, .json) := by
  intro bytes
  have hlength : bytes.length = 33 := by decide +kernel
  have hjson : (Json.ofBytes? bytes).bind Engine.ofJson? = some Engine.zero := by decide +kernel
  obtain ⟨value, hvalue, he⟩ := Option.bind_eq_some_iff.mp hjson
  obtain ⟨hload, -, -⟩ := json_loads_unless_list_of_24_bytes (fun _ => .ok bytes) "zero.json" bytes
    value Engine.zero rfl hvalue he
  exact ⟨hjson, hlength, hload.mpr (by omega)⟩

theorem short_list_loads_as_bytes :
    ¬ ∀ (read : FileReader) (path : String) (bytes : List UInt8) (e : Engine),
      read path = .ok bytes → (Json.ofBytes? bytes).bind Engine.ofJson? = some e →
        load read path = .ok (e, .json) := by
  intro hall
  have hjson : (Json.ofBytes? shortList).bind Engine.ofJson? =
      some ⟨⟨10, 11, 12, 13⟩, ⟨14, 200⟩⟩ := by decide +kernel
  have hload := hall (fun _ => .ok shortList) "list.json" shortList _ rfl hjson
  revert hload
  decide +kernel

end CounterStream.Checkpoint
