/-
What overwriting a file does to a file system.

Contents and directory names are looked at by address (`content?`, `names?`). Writing
over a file changes what is at its address and nothing else (`content?_write`,
`names?_write`); as paths are followed by directory names alone, they lead where they
led (`locate?_store`). The second of two writes to one file counts (`store_store`), and
writes to two files can be exchanged (`store_comm`). Reading and writing succeed under
conditions that are said once (`read_eq_ok_iff`, `write_eq_ok_iff`), so that both come down
to `content?` and `store`. A write that fails has either not opened the file, and then
nothing has changed, or it breaks off (`BreaksOff`), and leaves the beginning of what was
to be stored (`exec_write`).
-/
import YieldLint.FileSystem.Program

namespace YieldLint

/-- The second of two writes of an entry counts. -/
theorem putEntry_putEntry {κ α : Type} [DecidableEq κ] (k : κ) (v w : α) (l : List (κ × α)) :
    putEntry k v (putEntry k w l) = putEntry k v l := by
  induction l with
  | nil => simp [putEntry]
  | cons e l ih =>
    obtain ⟨k', v'⟩ := e
    by_cases h : k' = k
    · simp [putEntry, h]
    · simp [putEntry, h, ih]

/-- Writes of two entries, one of which is there, can be exchanged. -/
theorem putEntry_comm {κ α : Type} [DecidableEq κ] {k k' : κ} (h : k ≠ k') (v w : α)
    {l : List (κ × α)} (hk : k ∈ l.map (·.1)) :
    putEntry k v (putEntry k' w l) = putEntry k' w (putEntry k v l) := by
  induction l with
  | nil => cases hk
  | cons e l ih =>
    obtain ⟨k₁, v₁⟩ := e
    by_cases h₁ : k₁ = k
    · subst h₁
      simp [putEntry, h]
    · have hrest : k ∈ l.map (·.1) := by simpa [Ne.symm h₁] using hk
      by_cases h₂ : k₁ = k'
      · subst h₂
        simp [putEntry, h₁]
      · simp [putEntry, h₁, h₂, ih hrest]

namespace Entry

/-! ## One address in a tree -/

/-- The contents of the file at an address. -/
def content? (e : Entry) (location : Location) : Option Bytes :=
  match e.get? location with
  | some (file content) => some content
  | _ => none

/-- The names in the directory at an address. -/
def names? (e : Entry) (location : Location) : Option (List String) :=
  match e.get? location with
  | some (dir es) => some (es.map (·.1))
  | _ => none

theorem content?_eq_some_iff {e : Entry} {location : Location} {content : Bytes} :
    e.content? location = some content ↔ e.get? location = some (file content) := by
  rw [content?]
  split
  · rename_i content' h
    simp [h]
  · rename_i h
    exact iff_of_false nofun fun hfile => h content hfile

theorem content?_cons (e : Entry) (name : String) (rest : Location) :
    e.content? (name :: rest) = (e.child? name).bind (·.content? rest) := by
  rw [content?, get?]
  cases e.child? name with
  | none => rfl
  | some child => rfl

theorem names?_cons (e : Entry) (name : String) (rest : Location) :
    e.names? (name :: rest) = (e.child? name).bind (·.names? rest) := by
  rw [names?, get?]
  cases e.child? name with
  | none => rfl
  | some child => rfl

/-- A file below another entry is a file below one of its children. -/
theorem exists_child_of_content? {e : Entry} {name : String} {rest : Location} {content : Bytes}
    (h : e.content? (name :: rest) = some content) :
    ∃ es child, e = dir es ∧ es.lookup name = some child ∧ child.content? rest = some content := by
  rw [content?_cons] at h
  cases e with
  | file c => cases h
  | dir es =>
    obtain ⟨child, hchild, hrest⟩ := Option.bind_eq_some_iff.1 h
    exact ⟨es, child, rfl, hchild, hrest⟩

/-! ## Writing over a file -/

theorem write_dir {es : List (String × Entry)} {name : String} {child : Entry}
    (h : es.lookup name = some child) (rest : Location) (new : Bytes) :
    (dir es).write (name :: rest) new = dir (putEntry name (child.write rest new) es) := by
  rw [write, place, h]
  rfl

theorem child?_write_dir {es : List (String × Entry)} {name : String} {child : Entry}
    (h : es.lookup name = some child) (rest : Location) (new : Bytes) (other : String) :
    ((dir es).write (name :: rest) new).child? other =
      if other = name then some (child.write rest new) else (dir es).child? other := by
  rw [write_dir h]
  exact lookup_putEntry name other _ es

/-- Writing over a file changes its contents, and those of no other. -/
theorem content?_write : ∀ {location : Location} {e : Entry} {old : Bytes},
    e.content? location = some old → ∀ (new : Bytes) (other : Location),
      (e.write location new).content? other =
        if other = location then some new else e.content? other
  | [], e, old, h, new, other => by
    obtain rfl : e = file old := Option.some.inj (content?_eq_some_iff.1 h)
    cases other with
    | nil => rfl
    | cons name rest => simp [write, place, content?_cons, child?]
  | name :: rest, e, old, h, new, other => by
    obtain ⟨es, child, rfl, hchild, hrest⟩ := exists_child_of_content? h
    cases other with
    | nil => simp [write_dir hchild, content?, get?]
    | cons name' rest' =>
      rw [content?_cons, content?_cons, child?_write_dir hchild]
      by_cases hname : name' = name
      · subst hname
        simpa [child?, hchild] using content?_write hrest new rest'
      · simp [hname]

/-- Writing over a file changes the names in no directory. -/
theorem names?_write : ∀ {location : Location} {e : Entry} {old : Bytes},
    e.content? location = some old → ∀ (new : Bytes) (other : Location),
      (e.write location new).names? other = e.names? other
  | [], e, old, h, new, other => by
    obtain rfl : e = file old := Option.some.inj (content?_eq_some_iff.1 h)
    cases other with
    | nil => rfl
    | cons name rest => simp [write, place, names?_cons, child?]
  | name :: rest, e, old, h, new, other => by
    obtain ⟨es, child, rfl, hchild, hrest⟩ := exists_child_of_content? h
    cases other with
    | nil =>
      have hmem : name ∈ es.map (·.1) := isSome_lookup_iff.1 (by rw [hchild]; rfl)
      rw [write_dir hchild, names?, names?, get?, get?]
      simp only [map_fst_putEntry, if_pos hmem]
    | cons name' rest' =>
      rw [names?_cons, names?_cons, child?_write_dir hchild]
      by_cases hname : name' = name
      · subst hname
        simpa [child?, hchild] using names?_write hrest new rest'
      · simp [hname]

/-- The second of two writes to a file counts. -/
theorem write_write : ∀ {location : Location} {e : Entry} {old : Bytes},
    e.content? location = some old → ∀ (between new : Bytes),
      (e.write location between).write location new = e.write location new
  | [], _, _, _, _, _ => rfl
  | name :: rest, e, old, h, between, new => by
    obtain ⟨es, child, rfl, hchild, hrest⟩ := exists_child_of_content? h
    have hagain : (putEntry name (child.write rest between) es).lookup name =
        some (child.write rest between) := by
      rw [lookup_putEntry, if_pos rfl]
    rw [write_dir hchild, write_dir hchild, write_dir hagain, write_write hrest,
      putEntry_putEntry]

/-- Writes to two files can be exchanged. -/
theorem write_comm : ∀ {a b : Location} {e : Entry} {x y : Bytes},
    e.content? a = some x → e.content? b = some y → a ≠ b → ∀ (u v : Bytes),
      (e.write a u).write b v = (e.write b v).write a u
  | [], b, e, x, y, ha, hb, hab, u, v => by
    obtain rfl : e = file x := Option.some.inj (content?_eq_some_iff.1 ha)
    cases b with
    | nil => exact absurd rfl hab
    | cons name rest => simp [content?_cons, child?] at hb
  | name :: rest, [], e, x, y, ha, hb, _, u, v => by
    obtain ⟨es, child, rfl, -, -⟩ := exists_child_of_content? ha
    cases hb
  | name :: rest, name' :: rest', e, x, y, ha, hb, hab, u, v => by
    obtain ⟨es, child, rfl, hchild, hrest⟩ := exists_child_of_content? ha
    obtain ⟨es', child', hes, hchild', hrest'⟩ := exists_child_of_content? hb
    cases hes
    rw [write_dir hchild, write_dir hchild']
    by_cases hname : name = name'
    · subst hname
      cases hchild.symm.trans hchild'
      have hne : rest ≠ rest' := fun h => hab (by rw [h])
      have hlookup : ∀ new, (putEntry name new es).lookup name = some new := fun new => by
        rw [lookup_putEntry, if_pos rfl]
      rw [write_dir (hlookup _), write_dir (hlookup _), putEntry_putEntry, putEntry_putEntry,
        write_comm hrest hrest' hne u v]
    · have hother : (putEntry name (child.write rest u) es).lookup name' = some child' := by
        rw [lookup_putEntry, if_neg (Ne.symm hname), hchild']
      have hother' : (putEntry name' (child'.write rest' v) es).lookup name = some child := by
        rw [lookup_putEntry, if_neg hname, hchild]
      have hmem : name' ∈ es.map (·.1) := isSome_lookup_iff.1 (by rw [hchild']; rfl)
      rw [write_dir hother, write_dir hother', putEntry_comm (Ne.symm hname) _ _ hmem]

/-- Something is at an address just when a file or a directory is. -/
theorem isSome_get? (e : Entry) (location : Location) :
    (e.get? location).isSome = ((e.content? location).isSome || (e.names? location).isSome) := by
  rw [content?, names?]
  cases e.get? location with
  | none => rfl
  | some entry => cases entry <;> rfl

end Entry

namespace FileSystem

/-! ## Paths -/

/-- A path is followed by the names in directories. -/
theorem follow_cons (root : Entry) (here : Location) (name : String) (rest : List String) :
    follow root here (name :: rest) =
      match root.names? here with
      | some names =>
        if name = "" ∨ name = "." then follow root here rest
        else if name = ".." then follow root here.dropLast rest
        else if name ∈ names then follow root (here ++ [name]) rest
        else none
      | none => none := by
  rw [follow, Entry.names?]
  cases root.get? here with
  | none => rfl
  | some e =>
    cases e with
    | file content => rfl
    | dir es => simp only [isSome_lookup_iff]

theorem follow_congr {root root' : Entry}
    (h : ∀ location, root'.names? location = root.names? location) :
    ∀ (names : List String) (here : Location), follow root' here names = follow root here names
  | [], _ => rfl
  | name :: rest, here => by
    rw [follow_cons, follow_cons, h here]
    simp only [follow_congr h rest]

/-! ## Reading and writing -/

/-- The contents of the file at an address. -/
def content? (fs : FileSystem) (location : Location) : Option Bytes := fs.root.content? location

theorem read_eq (fs : FileSystem) (path : String) :
    fs.read path = match fs.locate? path with
      | none => .error (.fileNotFound path)
      | some location =>
        if fs.unreadable.contains location then .error (.permissionDenied (.opening path))
        else match fs.content? location with
          | some content => .ok content
          | none => .error (.isADirectory path) := by
  rw [read]
  cases fs.locate? path with
  | none => rfl
  | some location =>
    simp only [content?, Entry.content?]
    cases fs.root.get? location with
    | none => rfl
    | some e => cases e <;> rfl

theorem read_eq_ok_iff {fs : FileSystem} {path : String} {content : Bytes} :
    fs.read path = .ok content ↔ ∃ location, fs.locate? path = some location ∧
      location ∉ fs.unreadable ∧ fs.content? location = some content := by
  rw [read_eq]
  cases fs.locate? path with
  | none => exact iff_of_false nofun fun ⟨_, h, _⟩ => nomatch h
  | some location =>
    simp only [Option.some.injEq, List.contains_iff_mem, exists_eq_left']
    split
    · rename_i hdenied
      exact iff_of_false nofun fun h => h.1 hdenied
    · rename_i hallowed
      cases fs.content? location with
      | none => simp
      | some content' => simp [hallowed]

theorem hasPath_of_content {fs : FileSystem} {path : String} {location : Location}
    {content : Bytes} (hleads : fs.locate? path = some location)
    (hholds : fs.content? location = some content) : fs.hasPath path = true := by
  rw [hasPath, entry?, hleads, Option.bind_some, Entry.content?_eq_some_iff.1 hholds]
  rfl

theorem hasPath_of_read {fs : FileSystem} {path : String} {content : Bytes}
    (h : fs.read path = .ok content) : fs.hasPath path = true := by
  obtain ⟨location, hleads, -, hcontent⟩ := read_eq_ok_iff.1 h
  exact hasPath_of_content hleads hcontent

theorem writable_eq (fs : FileSystem) (path : String) :
    fs.writable path = match fs.locate? path with
      | none => .error (.fileNotFound path)
      | some location =>
        if fs.unwritable.contains location then .error (.permissionDenied (.opening path))
        else match fs.content? location with
          | some _ => .ok location
          | none => .error (.isADirectory path) := by
  rw [writable]
  cases fs.locate? path with
  | none => rfl
  | some location =>
    simp only [content?, Entry.content?]
    cases fs.root.get? location with
    | none => rfl
    | some e => cases e <;> rfl

theorem writable_eq_ok_iff {fs : FileSystem} {path : String} {location : Location} :
    fs.writable path = .ok location ↔ fs.locate? path = some location ∧
      location ∉ fs.unwritable ∧ ∃ old, fs.content? location = some old := by
  rw [writable_eq]
  cases fs.locate? path with
  | none => exact iff_of_false nofun fun h => nomatch h.1
  | some location' =>
    simp only [Option.some.injEq, List.contains_iff_mem]
    constructor
    · intro h
      split at h
      · cases h
      rename_i hallowed
      cases hold : fs.content? location' with
      | none => simp [hold] at h
      | some old =>
        rw [hold] at h
        obtain rfl := Except.ok.inj h
        exact ⟨rfl, hallowed, old, hold⟩
    · rintro ⟨rfl, hallowed, old, hold⟩
      rw [if_neg hallowed, hold]

section Store

variable {fs : FileSystem} {location : Location} {old : Bytes}

theorem content?_store (h : fs.content? location = some old) (new : Bytes) (other : Location) :
    (fs.store location new).content? other =
      if other = location then some new else fs.content? other :=
  Entry.content?_write h new other

/-- Storing into a file leaves paths to lead where they led. -/
theorem locate?_store (h : fs.content? location = some old) (new : Bytes) (path : String) :
    (fs.store location new).locate? path = fs.locate? path := by
  rw [locate?, locate?]
  split
  · rfl
  · exact follow_congr (Entry.names?_write h new) _ _

theorem store_store (h : fs.content? location = some old) (between new : Bytes) :
    (fs.store location between).store location new = fs.store location new := by
  rw [store, store, store, Entry.write_write h]

/-- Storing into a file makes nothing appear or vanish. -/
theorem hasPath_store (h : fs.content? location = some old) (new : Bytes) (path : String) :
    (fs.store location new).hasPath path = fs.hasPath path := by
  rw [hasPath, hasPath, entry?, entry?, locate?_store h]
  cases fs.locate? path with
  | none => rfl
  | some other =>
    have hcontent := content?_store h new other
    have hnames : (fs.store location new).root.names? other = fs.root.names? other :=
      Entry.names?_write h new other
    rw [Option.bind_some, Option.bind_some, Entry.isSome_get?, Entry.isSome_get?, hnames]
    rw [content?, content?] at hcontent
    rw [hcontent]
    split
    · rename_i hsame
      rw [content?, ← hsame] at h
      rw [h]
      rfl
    · rfl

theorem store_comm {a b : Location} {x y : Bytes} (ha : fs.content? a = some x)
    (hb : fs.content? b = some y) (hab : a ≠ b) (u v : Bytes) :
    (fs.store a u).store b v = (fs.store b v).store a u := by
  rw [store, store, store, store, Entry.write_comm ha hb hab]

end Store

/-! ## Writing -/

/-- What is written to a path reaches a file that cannot store all of it. -/
structure BreaksOff (fs : FileSystem) (path : String) (location : Location) (fault : Fault) :
    Prop where
  opens : fs.writable path = .ok location
  fails : fs.fault? location = some fault

/-- A file that cannot be opened is left as it is, one that takes what is written holds
that, and one that does not holds its beginning. -/
theorem exec_write (path : String) (new : Bytes) (fs : FileSystem) :
    (FileProgram.write path new).exec fs =
      match fs.writable path with
      | .error e => (.error e, fs)
      | .ok location =>
        match fs.fault? location with
        | none => (.ok (), fs.store location new)
        | some fault => (.error fault.failure, fs.store location (new.take fault.stored)) := by
  rw [FileProgram.write, Program.exec_bind, FileProgram.exec_openEmptied]
  cases hopens : fs.writable path with
  | error e => rfl
  | ok location =>
  obtain ⟨-, -, old, hold⟩ := writable_eq_ok_iff.1 hopens
  have hfault (content : Bytes) : (fs.store location content).fault? location =
      fs.fault? location := rfl
  dsimp only
  rw [Program.exec_bind]
  cases hfails : fs.fault? location with
  | none =>
    rw [FileProgram.exec_put_of_none ((hfault _).trans hfails), store_store hold]
    exact FileProgram.exec_close_of_none ((hfault _).trans hfails)
  | some fault =>
    rw [FileProgram.exec_put_of_some ((hfault _).trans hfails), store_store hold]
    by_cases hcut : fault.stored < new.length
    · rw [if_pos hcut]
    · rw [if_neg hcut]
      exact FileProgram.exec_close_of_some ((hfault _).trans hfails)

theorem exec_write_of_none {fs : FileSystem} {path : String} {location : Location}
    (hopens : fs.writable path = .ok location) (hsound : fs.fault? location = none)
    (new : Bytes) : (FileProgram.write path new).exec fs = (.ok (), fs.store location new) := by
  rw [exec_write, hopens]
  simp only [hsound]

theorem BreaksOff.exec_write {fs : FileSystem} {path : String} {location : Location}
    {fault : Fault} (h : fs.BreaksOff path location fault) (new : Bytes) :
    (FileProgram.write path new).exec fs =
      (.error fault.failure, fs.store location (new.take fault.stored)) := by
  rw [FileSystem.exec_write, h.opens]
  simp only [h.fails]

theorem write_eq_ok_iff {fs fs' : FileSystem} {path : String} {new : Bytes} :
    fs.write path new = .ok fs' ↔ ∃ location, fs.writable path = .ok location ∧
      fs.fault? location = none ∧ fs' = fs.store location new := by
  rw [write, Program.result, exec_write]
  cases fs.writable path with
  | error e => simp [Except.map]
  | ok location =>
    simp only [Except.ok.injEq, exists_eq_left']
    cases fs.fault? location with
    | none => simp [Except.map, eq_comm]
    | some fault => simp [Except.map]

theorem BreaksOff.write_ne_ok {fs : FileSystem} {path : String} {location : Location}
    {fault : Fault} (h : fs.BreaksOff path location fault) (new : Bytes) (fs' : FileSystem) :
    fs.write path new ≠ .ok fs' := by
  intro hwrite
  obtain ⟨location', hopens, hsound, -⟩ := write_eq_ok_iff.1 hwrite
  obtain rfl := Except.ok.inj (h.opens.symm.trans hopens)
  cases h.fails.symm.trans hsound

/-- The second file system is the first with other contents in one file. -/
structure Overwritten (location : Location) (old new : Bytes) (fs fs' : FileSystem) : Prop where
  held : fs.content? location = some old
  holds : fs'.content? location = some new
  elsewhere : ∀ other, other ≠ location → fs'.content? other = fs.content? other
  paths : ∀ path, fs'.locate? path = fs.locate? path

theorem Overwritten.of_store {fs : FileSystem} {location : Location} {old : Bytes}
    (hold : fs.content? location = some old) (new : Bytes) :
    Overwritten location old new fs (fs.store location new) where
  held := hold
  holds := by rw [content?_store hold, if_pos rfl]
  elsewhere other hother := by rw [content?_store hold, if_neg hother]
  paths := locate?_store hold new

/-- What is written to a file that was read stands where that was, and all else as it
was. -/
theorem overwritten_of_write {fs fs' : FileSystem} {path : String} {old new : Bytes}
    (hread : fs.read path = .ok old) (hwrite : fs.write path new = .ok fs') :
    ∃ location, fs.locate? path = some location ∧ Overwritten location old new fs fs' := by
  obtain ⟨location, hlocation, -, hold⟩ := read_eq_ok_iff.1 hread
  obtain ⟨location', hopens, -, rfl⟩ := write_eq_ok_iff.1 hwrite
  obtain rfl : location = location' :=
    Option.some.inj (hlocation.symm.trans (writable_eq_ok_iff.1 hopens).1)
  exact ⟨location, hlocation, .of_store hold new⟩

/-! ## A file to read and write -/

/-- A path leads to a file with these contents, which may be read and written, and takes
what is written to it. -/
structure Holds (fs : FileSystem) (path : String) (location : Location) (content : Bytes) :
    Prop where
  leads : fs.locate? path = some location
  readable : location ∉ fs.unreadable
  writable : location ∉ fs.unwritable
  sound : fs.fault? location = none
  holds : fs.content? location = some content

theorem exists_holds {fs fs' : FileSystem} {path : String} {content new : Bytes}
    (hread : fs.read path = .ok content) (hwrite : fs.write path new = .ok fs') :
    ∃ location, fs.Holds path location content := by
  obtain ⟨location, hleads, hreadable, hholds⟩ := read_eq_ok_iff.1 hread
  obtain ⟨location', hopens, hsound, -⟩ := write_eq_ok_iff.1 hwrite
  obtain ⟨hleads', hwritable, -⟩ := writable_eq_ok_iff.1 hopens
  obtain rfl : location = location' := Option.some.inj (hleads.symm.trans hleads')
  exact ⟨location, hleads, hreadable, hwritable, hsound, hholds⟩

namespace Holds

variable {fs : FileSystem} {path : String} {location : Location} {content : Bytes}

theorem read (h : fs.Holds path location content) : fs.read path = .ok content :=
  read_eq_ok_iff.2 ⟨location, h.leads, h.readable, h.holds⟩

theorem opens (h : fs.Holds path location content) : fs.writable path = .ok location :=
  writable_eq_ok_iff.2 ⟨h.leads, h.writable, content, h.holds⟩

theorem write (h : fs.Holds path location content) (new : Bytes) :
    fs.write path new = .ok (fs.store location new) :=
  write_eq_ok_iff.2 ⟨location, h.opens, h.sound, rfl⟩

theorem isFile (h : fs.Holds path location content) : fs.isFile path = true := by
  rw [FileSystem.isFile, entry?, h.leads, Option.bind_some,
    Entry.content?_eq_some_iff.1 h.holds]
  rfl

theorem hasPath (h : fs.Holds path location content) : fs.hasPath path = true :=
  hasPath_of_read h.read

theorem store (h : fs.Holds path location content) (new : Bytes) :
    (fs.store location new).Holds path location new where
  leads := by rw [locate?_store h.holds, h.leads]
  readable := h.readable
  writable := h.writable
  sound := h.sound
  holds := by rw [content?_store h.holds, if_pos rfl]

end Holds

end FileSystem

end YieldLint
