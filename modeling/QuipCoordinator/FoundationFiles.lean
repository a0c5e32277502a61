import Mathlib.Data.List.Infix
import Mathlib.Logic.Function.Basic

/-!
# Files and directories

A path is told by its names, up to the slashes and single dots of its text. Links,
double dots and the working directory are not resolved. What stands at a path is a
file or a directory, and the missing directories of a path are made from the
outermost one inwards.
-/

namespace Files

structure Path where
  absolute : Bool
  names : List (List Char)
deriving DecidableEq

namespace Path

def ofString (s : String) : Path where
  absolute := s.toList.head? == some '/'
  names := (s.toList.splitOnP (· == '/')).filter fun name => name != [] && name != ['.']

def parents (p : Path) : List Path :=
  p.names.dropLast.inits.tail.map fun names => ⟨p.absolute, names⟩

end Path

inductive Entry
  | file (text : Except String String)
  | directory

def Entry.read : Entry → Except String String
  | .file text => text
  | .directory => .error "Is a directory (os error 21)"

abbrev Disk := Path → Option Entry

/-- The text ends in a slash or a dot, so it can only stand for a directory. -/
def endsOpen (s : String) : Bool :=
  match (s.toList.splitOnP (· == '/')).getLast? with
  | some [] | some ['.'] => true
  | _ => false

def Disk.find (disk : Disk) (s : String) : Option Entry :=
  match disk (.ofString s) with
  | some (.file text) => if endsOpen s then none else some (.file text)
  | some .directory => if s = "" then none else some .directory
  | none => none

theorem Disk.find_of_file {disk : Disk} {s : String} {text : Except String String}
    (h : disk (.ofString s) = some (.file text)) (hs : endsOpen s = false) :
    disk.find s = some (.file text) := by
  simp [find, h, hs]

/-- Makes those directories that are missing. `mkdir` is asked for each. -/
def createDirAll (mkdir : Path → Except String Unit) : List Path → Disk → Disk × Except String Unit
  | [], disk => (disk, .ok ())
  | dir :: dirs, disk =>
    match disk dir with
    | some .directory => createDirAll mkdir dirs disk
    | some (.file _) =>
      (disk, .error (if dirs.isEmpty then "File exists (os error 17)"
        else "Not a directory (os error 20)"))
    | none =>
      match mkdir dir with
      | .error e => (disk, .error e)
      | .ok () => createDirAll mkdir dirs (Function.update disk dir (some .directory))

/-- Whatever is there stays, and what is new is a directory of the list. -/
theorem createDirAll_apply (mkdir : Path → Except String Unit) (dirs : List Path) (disk : Disk)
    (path : Path) : (createDirAll mkdir dirs disk).1 path = disk path ∨
      disk path = none ∧ path ∈ dirs ∧
        (createDirAll mkdir dirs disk).1 path = some .directory := by
  induction dirs generalizing disk with
  | nil => exact .inl rfl
  | cons dir dirs ih =>
    have hlater := fun d : Disk => (ih d).imp_right fun h =>
      (⟨h.1, List.mem_cons_of_mem dir h.2.1, h.2.2⟩ : _ ∧ _ ∧ _)
    rw [createDirAll]
    cases hdir : disk dir with
    | none =>
      cases mkdir dir with
      | error e => exact .inl rfl
      | ok u =>
        dsimp only
        rcases hlater (Function.update disk dir (some .directory)) with hsame | hnew
        · by_cases hpath : path = dir
          · rw [hpath, Function.update_self] at hsame
            subst hpath
            exact .inr ⟨hdir, List.mem_cons_self, hsame⟩
          · rw [Function.update_of_ne hpath] at hsame
            exact .inl hsame
        · by_cases hpath : path = dir
          · have hnone := hnew.1
            rw [hpath, Function.update_self] at hnone
            cases hnone
          · rw [Function.update_of_ne hpath] at hnew
            exact .inr hnew
    | some entry =>
      cases entry with
      | file text => exact .inl rfl
      | directory => exact hlater disk

theorem createDirAll_directory (mkdir : Path → Except String Unit) (dirs : List Path) {disk : Disk}
    {path : Path} (h : disk path = some .directory) :
    (createDirAll mkdir dirs disk).1 path = some .directory := by
  rcases createDirAll_apply mkdir dirs disk path with hsame | hnew
  · exact hsame.trans h
  · exact hnew.2.2

theorem createDirAll_eq_ok {mkdir : Path → Except String Unit} {dirs : List Path} {disk : Disk}
    (h : (createDirAll mkdir dirs disk).2 = .ok ()) {dir : Path} (hdir : dir ∈ dirs) :
    (createDirAll mkdir dirs disk).1 dir = some .directory := by
  induction dirs generalizing disk with
  | nil => exact absurd hdir List.not_mem_nil
  | cons first dirs ih =>
    rw [createDirAll] at h ⊢
    cases hfirst : disk first with
    | none =>
      cases hmk : mkdir first with
      | error e =>
        rw [hfirst, hmk] at h
        cases h
      | ok u =>
        rw [hfirst, hmk] at h
        dsimp only at h ⊢
        rcases List.mem_cons.mp hdir with rfl | hdir
        · exact createDirAll_directory mkdir dirs (Function.update_self ..)
        · exact ih h hdir
    | some entry =>
      cases entry with
      | file text =>
        rw [hfirst] at h
        cases h
      | directory =>
        rw [hfirst] at h
        dsimp only at h ⊢
        rcases List.mem_cons.mp hdir with rfl | hdir
        · exact createDirAll_directory mkdir dirs hfirst
        · exact ih h hdir

end Files
