import Federation.FileSystem.Basic
import Federation.Proofs.Outcome

/-!
# Writing and reading files

Writing changes what stands in one place, which is no folder before. So the way to that place, which
leads through folders only, is the same afterwards, and at its end is what was written. A file that
cannot be written leaves everything as it is.
-/

namespace Federation

/-- A text by which something can be named in a folder. -/
structure Path.IsName (name : String) : Prop where
  moves : staysHere name = false
  ne_dots : name ≠ ".."
  noSlash : '/' ∉ name.toList
  noNull : '\x00' ∉ name.toList
  short : name.utf8ByteSize ≤ maxNameSize

namespace FileSystem

variable {f : FileSystem} {names : List String}

/-! ### What a text in a place leaves alone -/

theorem lookup?_cons (name : String) (rest : List String) :
    f.lookup? (name :: rest) = f.entries.get? (key (name :: rest)) :=
  rfl

theorem lookup?_put_self (hne : names ≠ []) (content : String) :
    (f.put names content).lookup? names = some (.text content) := by
  obtain ⟨name, rest, rfl⟩ := List.exists_cons_of_ne_nil hne
  exact Table.get?_insert_self _ _ _

/-- A text that is not put in the place of a folder leaves all folders where they are. -/
theorem lookup?_put_of_folder (hplace : f.lookup? names ≠ some .folder) (content : String)
    {place : List String} (h : f.lookup? place = some .folder) :
    (f.put names content).lookup? place = some .folder := by
  cases place with
  | nil => rfl
  | cons name rest =>
    have hkey : key (name :: rest) ≠ key names := by
      intro hkey
      refine hplace ?_
      cases names with
      | nil => rfl
      | cons first more => rw [lookup?_cons, ← hkey, ← lookup?_cons, h]
    rw [lookup?_cons, put, Table.get?_insert, if_neg (by simpa using hkey), ← lookup?_cons, h]

section Walk

variable (hplace : f.lookup? names ≠ some .folder) (content : String)
include hplace

theorem step_put {place next : List String} {part : String} (h : f.step place part = .ok next) :
    (f.put names content).step place part = .ok next := by
  unfold step at h
  split at h
  · rename_i hfolder
    rw [step, lookup?_put_of_folder hplace content hfolder]
    exact h
  · cases h
  · cases h

/-- The way to a place is the same after writing. -/
theorem walk_put {place last : List String} {parts : List String}
    (h : f.walk place parts = .ok last) : (f.put names content).walk place parts = .ok last := by
  induction parts generalizing place with
  | nil => exact h
  | cons part rest ih =>
    rw [walk, List.foldlM_cons] at h ⊢
    obtain ⟨next, hstep, hrest⟩ := Outcome.bind_eq_ok_iff.1 h
    rw [step_put hplace content hstep]
    exact ih hrest

end Walk

theorem origin?_eq {path : String} (named : path.contains '\x00' = false) (nonempty : path ≠ "")
    (short : path.utf8ByteSize ≤ Path.maxSize) :
    f.origin? path = .ok (if Path.isAbsolute path then [] else f.current) := by
  simp [origin?, named, nonempty, short]

theorem target_eq_walk {path : String} {start : List String} (hstart : f.origin? path = .ok start)
    (file : Path.endsWithSlash path = false) : f.target path = f.walk start (Path.parts path) := by
  rw [target, hstart]
  exact if_neg (Bool.eq_false_iff.1 file)

theorem walk_of_target {path : String} {place : List String} (h : f.target path = .ok place) :
    ∃ start, f.origin? path = .ok start ∧ f.walk start (Path.parts path) = .ok place := by
  obtain ⟨start, hstart, h⟩ := Outcome.bind_eq_ok_iff.1 h
  split at h
  · obtain ⟨_, _, herror⟩ := Outcome.bind_eq_ok_iff.1 h
    cases herror
  · exact ⟨start, hstart, h⟩

theorem read_of_walk {path content : String} {start place : List String}
    (hstart : f.origin? path = .ok start) (hwalk : f.walk start (Path.parts path) = .ok place)
    (hplace : f.lookup? place = some (.text content)) : f.read path = .ok content := by
  refine Outcome.bind_eq_ok_iff.2 ⟨start, hstart, Outcome.bind_eq_ok_iff.2 ⟨place, hwalk, ?_⟩⟩
  rw [hplace]

/-! ### Writing -/

section Write

variable {path content : String} {f' : FileSystem}

theorem run_write : (write path content).run f =
    (ofExcept (f.target path) >>= fun names =>
      match f.lookup? names with
      | some .folder => throw .isFolder
      | _ => set (f.put names content) : EStateM FileError FileSystem Unit).run f :=
  rfl

/-- What is written is a text in the place that the path leads to, and there is no folder. -/
theorem write_eq_ok_iff : (write path content).run f = .ok () f' ↔
    ∃ names, f.target path = .ok names ∧ f.lookup? names ≠ some .folder ∧
      f' = f.put names content := by
  rw [run_write, Outcome.run_ofExcept_bind_eq_ok_iff]
  refine exists_congr fun names => and_congr_right fun _ => ?_
  split
  · rename_i hfolder
    constructor
    · intro h
      cases h
    · exact fun h => absurd hfolder h.1
  · rename_i hplace
    constructor
    · intro h
      cases h
      exact ⟨hplace, rfl⟩
    · rintro ⟨-, rfl⟩
      rfl

/-- A file that is not written leaves all files as they are. -/
theorem eq_of_write_eq_error {e : FileError} (h : (write path content).run f = .error e f') :
    f' = f := by
  rw [run_write, Outcome.run_ofExcept_bind_eq_error_iff] at h
  rcases h with ⟨-, rfl⟩ | ⟨names, -, h⟩
  · rfl
  · split at h <;> cases h
    rfl

end Write

/-- Some text can be written at a path. -/
def Writable (f : FileSystem) (path : String) : Prop :=
  ∃ content f', (write path content).run f = .ok () f'

/-- A path can be written at if it leads through folders to a place where no folder is. -/
theorem writable_iff {path : String} : f.Writable path ↔
    ∃ names, f.target path = .ok names ∧ f.lookup? names ≠ some .folder := by
  constructor
  · rintro ⟨_, _, hwrite⟩
    obtain ⟨names, htarget, hplace, -⟩ := write_eq_ok_iff.1 hwrite
    exact ⟨names, htarget, hplace⟩
  · rintro ⟨names, htarget, hplace⟩
    exact ⟨"", _, write_eq_ok_iff.2 ⟨names, htarget, hplace, rfl⟩⟩

theorem writable_of_walk {path : String} {start : List String} (hstart : f.origin? path = .ok start)
    (file : Path.endsWithSlash path = false) (walk : f.walk start (Path.parts path) = .ok names)
    (place : f.lookup? names ≠ some .folder) : f.Writable path :=
  writable_iff.2 ⟨names, (target_eq_walk hstart file).trans walk, place⟩

/-- Where some text can be written, every text can be written, and it is read afterwards. -/
theorem exists_write {path : String} (h : f.Writable path) (content : String) :
    ∃ f', (write path content).run f = .ok () f' ∧ f'.read path = .ok content := by
  obtain ⟨names, htarget, hplace⟩ := writable_iff.1 h
  refine ⟨_, write_eq_ok_iff.2 ⟨names, htarget, hplace, rfl⟩, ?_⟩
  obtain ⟨start, hstart, hwalk⟩ := walk_of_target htarget
  have hne : names ≠ [] := by
    rintro rfl
    exact hplace rfl
  have hstart' : (f.put names content).origin? path = .ok start := hstart
  exact read_of_walk hstart' (walk_put hplace content hwalk) (lookup?_put_self hne content)

/-! ### Paths from the root -/

theorem mem_intercalate {α : Type} {x c : α} {ls : List (List α)} (h : c ∈ [x].intercalate ls) :
    c = x ∨ ∃ l ∈ ls, c ∈ l := by
  induction ls with
  | nil => cases h
  | cons l rest ih =>
    cases rest with
    | nil =>
      rw [List.intercalate_singleton] at h
      exact Or.inr ⟨l, List.mem_cons_self, h⟩
    | cons l' more =>
      rw [List.intercalate_cons_cons, List.mem_append, List.mem_append, List.mem_singleton] at h
      rcases h with (hl | hx) | hrest
      · exact Or.inr ⟨l, List.mem_cons_self, hl⟩
      · exact Or.inl hx
      · rcases ih hrest with hx | ⟨l'', hmem, hc⟩
        · exact Or.inl hx
        · exact Or.inr ⟨l'', List.mem_cons_of_mem _ hmem, hc⟩

/-- What ends with a slash has an empty last part. -/
theorem exists_parts_of_endsWithSlash {path : String} (h : Path.endsWithSlash path = true) :
    ∃ before, Path.parts path = before ++ [""] := by
  rw [Path.endsWithSlash, ← String.endsWith_toSlice, String.Slice.endsWith_string_iff,
    String.copy_toSlice] at h
  obtain ⟨before, hpath⟩ := h
  have hsplit : path.toList.splitOn '/' = before.splitOn '/' ++ [[]] := by
    rw [← hpath]
    exact List.splitOn_append_cons_self before []
  exact ⟨(before.splitOn '/').map String.ofList, by rw [Path.parts, hsplit, List.map_append]; rfl⟩

section Absolute

variable (hne : names ≠ []) (named : ∀ name ∈ names, Path.IsName name)
include hne

theorem toList_absolute : ("/" ++ key names).toList =
    ['/'].intercalate (([] : List Char) :: names.reverse.map String.toList) := by
  rw [String.toList_append, key, String.toList_intercalate]
  cases hnames : names.reverse with
  | nil => exact absurd (List.reverse_eq_nil_iff.1 hnames) hne
  | cons first rest => rfl

include named

theorem null_absolute : ("/" ++ key names).contains '\x00' = false := by
  rw [String.contains_char_eq, decide_eq_false_iff_not, toList_absolute hne]
  intro h
  rcases mem_intercalate h with hslash | ⟨l, hl, hnull⟩
  · cases hslash
  · rcases List.mem_cons.1 hl with rfl | hl
    · cases hnull
    · obtain ⟨name, hname, rfl⟩ := List.mem_map.1 hl
      exact (named name (List.mem_reverse.1 hname)).noNull hnull

theorem parts_absolute : Path.parts ("/" ++ key names) = "" :: names.reverse := by
  have hslash : ∀ l ∈ ([] : List Char) :: names.reverse.map String.toList, '/' ∉ l := by
    intro l hl
    rcases List.mem_cons.1 hl with rfl | hl
    · exact List.not_mem_nil
    · obtain ⟨name, hname, rfl⟩ := List.mem_map.1 hl
      exact (named name (List.mem_reverse.1 hname)).noSlash
  rw [Path.parts, toList_absolute hne, List.splitOn_intercalate '/' hslash (List.cons_ne_nil _ _),
    List.map_cons, List.map_map]
  have hback : String.ofList ∘ String.toList = id := funext fun _ => String.ofList_toList
  rw [hback, List.map_id]

theorem file_absolute : Path.endsWithSlash ("/" ++ key names) = false := by
  rw [Bool.eq_false_iff]
  intro h
  obtain ⟨before, hparts⟩ := exists_parts_of_endsWithSlash h
  obtain ⟨name, rest, rfl⟩ := List.exists_cons_of_ne_nil hne
  rw [parts_absolute hne named, List.reverse_cons, ← List.cons_append] at hparts
  obtain ⟨-, hlast⟩ := List.append_inj' hparts rfl
  have hmoves := (named name List.mem_cons_self).moves
  rw [(List.cons.inj hlast).1] at hmoves
  cases hmoves

end Absolute

theorem enter_of_isName (place : List String) {name : String} (h : Path.IsName name) :
    enter place name = .ok (name :: place) := by
  simp [enter, h.moves, h.ne_dots, h.short]

/-- The names on the way to a place lead to it if what they lead through is folders. -/
theorem walk_reverse (named : ∀ name ∈ names, Path.IsName name)
    (folders : ∀ n, f.lookup? (names.drop (n + 1)) = some .folder) :
    f.walk [] names.reverse = .ok names := by
  induction names with
  | nil => rfl
  | cons name rest ih =>
    have hrest := ih (fun other hother => named other (List.mem_cons_of_mem _ hother))
      (fun n => folders (n + 1))
    rw [walk, List.reverse_cons, List.foldlM_append]
    refine Outcome.bind_eq_ok_iff.2 ⟨rest, hrest, ?_⟩
    have hfolder : f.lookup? rest = some .folder := folders 0
    rw [List.foldlM_cons, step, hfolder]
    exact congrArg (· >>= _) (enter_of_isName rest (named name List.mem_cons_self))

/-- Whatever the current folder is, a file can be written by its path from the root wherever there
is no folder and what leads there is folders. -/
theorem writable_absolute (hne : names ≠ []) (named : ∀ name ∈ names, Path.IsName name)
    (folders : ∀ n, f.lookup? (names.drop (n + 1)) = some .folder)
    (place : f.lookup? names ≠ some .folder)
    (short : ("/" ++ key names).utf8ByteSize ≤ Path.maxSize) : f.Writable ("/" ++ key names) := by
  have absolute : Path.isAbsolute ("/" ++ key names) = true := by
    rw [Path.isAbsolute, String.startsWith_string_iff, String.toList_append]
    exact List.prefix_append _ _
  have nonempty : "/" ++ key names ≠ "" := by simp
  have start : f.origin? ("/" ++ key names) = .ok [] := by
    rw [origin?_eq (null_absolute hne named) nonempty short, if_pos absolute]
  refine writable_of_walk start (file_absolute hne named) ?_ place
  rw [parts_absolute hne named, walk, List.foldlM_cons]
  exact walk_reverse named folders

end FileSystem

end Federation
