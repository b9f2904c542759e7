import CounterStream.Command.Directory

/-!
# Files read after they are written

A path that leads to a file for writing leads to it for reading as well, whatever the rules of paths
are. So what is written at a path is read from it, and can be written over.
-/

namespace CounterStream.Directory

variable {d d' : Directory} {path name : String} {bytes : List UInt8}

/-! ## One file is replaced -/

@[simp]
theorem find?_put (d : Directory) (name : String) (bytes : List UInt8) :
    (d.put name bytes).find? name = some bytes := by
  simp [find?, put]

theorem find?_put_of_ne (d : Directory) {name other : String} (h : other ≠ name)
    (bytes : List UInt8) : (d.put name bytes).find? other = d.find? other := by
  simp only [find?, put, List.find?_cons, h.symm, decide_false, List.find?_filter]
  congr 2
  funext file
  by_cases hfile : file.1 = other <;> simp [hfile, h]

theorem resolve_put (h : d.resolve true path = .ok name) (other : String) (bytes : List UInt8)
    (writing : Bool) : (d.put other bytes).resolve writing path = .ok name :=
  d.paths.resolve_of_writing h _ writing

/-! ## Reading what was written -/

/-- The path leads to a file for writing, and the file holds the bytes. -/
def Holds (d : Directory) (path : String) (bytes : List UInt8) : Prop :=
  ∃ name, d.resolve true path = .ok name ∧ d.find? name = some bytes

theorem Holds.read (h : d.Holds path bytes) : d.read path = .ok bytes := by
  obtain ⟨name, hpath, hfile⟩ := h
  have hreading : d.resolve false path = .ok name := d.paths.resolve_of_writing hpath _ false
  rw [Directory.read, hreading]
  simp only [bind, Except.bind, hfile]
  rfl

theorem write_eq (h : d.resolve true path = .ok name) (bytes : List UInt8) :
    d.write path bytes = .ok (d.put name bytes) := by
  rw [write, h]
  rfl

theorem holds_put (h : d.resolve true path = .ok name) (bytes : List UInt8) :
    (d.put name bytes).Holds path bytes :=
  ⟨name, resolve_put h name bytes true, find?_put d name bytes⟩

theorem exists_eq_put_of_write (h : d.write path bytes = .ok d') :
    ∃ name, d.resolve true path = .ok name ∧ d' = d.put name bytes := by
  cases hname : d.resolve true path with
  | error e =>
    rw [write, hname] at h
    cases h
  | ok name =>
    rw [write_eq hname] at h
    exact ⟨name, rfl, (Except.ok.inj h).symm⟩

theorem read_of_write (h : d.write path bytes = .ok d') : d'.read path = .ok bytes := by
  obtain ⟨name, hname, rfl⟩ := exists_eq_put_of_write h
  exact (holds_put hname bytes).read

end CounterStream.Directory
