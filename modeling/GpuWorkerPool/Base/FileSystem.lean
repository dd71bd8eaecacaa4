import GpuWorkerPool.Base.PosixPath
import Mathlib.Logic.Function.Basic

/-!
A file system without links: what stands at each place. An operation returns the state it leaves
behind also when it fails.
-/

namespace Base

inductive Entry where
  | directory
  | file (content : ByteArray)

/-- The bytes of a file; a directory has none. -/
def Entry.content? : Entry → Option (Array UInt8)
  | directory => none
  | file content => some content.data

theorem Entry.content?_inj {a b : Entry} : a.content? = b.content? ↔ a = b := by
  cases a <;> cases b <;> simp [content?, ByteArray.ext_iff]

instance : DecidableEq Entry := fun _ _ => decidable_of_iff _ Entry.content?_inj

inductive OsError where
  | fileExists
  | fileNotFound
  | notADirectory
  | isADirectory
  deriving DecidableEq, Repr

abbrev FileSystem := Location → Option Entry

namespace FileSystem

def put (fs : FileSystem) (place : Location) (entry : Entry) : FileSystem :=
  Function.update fs place (some entry)

/-- Makes each directory that is missing, in order. -/
def makeMissing : List Location → FileSystem → FileSystem × Except OsError Unit
  | [], fs => (fs, .ok ())
  | place :: rest, fs =>
      match fs place with
      | some (.file _) => (fs, .error .notADirectory)
      | some .directory => makeMissing rest fs
      | none => makeMissing rest (fs.put place .directory)

/-- The places of a path and of the paths above it, from the top. -/
def placesTo (cwd : Location) (path : PosixPath) : List Location :=
  path.parts.inits.map (·.foldl PosixPath.enter (if path.absolute then [] else cwd))

/-- `path.mkdir(parents=True)` -/
def mkdir (cwd : Location) (path : PosixPath) (fs : FileSystem) :
    FileSystem × Except OsError Unit :=
  if (fs (path.resolve cwd)).isSome then (fs, .error .fileExists)
  else fs.makeMissing (placesTo cwd path)

/-- `path.mkdir(parents=True, exist_ok=True)` -/
def ensureDirectory (cwd : Location) (path : PosixPath) (fs : FileSystem) :
    FileSystem × Except OsError Unit :=
  if fs (path.resolve cwd) = some .directory then (fs, .ok ()) else fs.mkdir cwd path

/-- `shutil.rmtree(path, ignore_errors=True)`. A last component `..` cannot be removed itself. The
real call needs directories on the way and removes nothing past a place that is missing; here `..`
is resolved by name, and what it names is removed. -/
def rmtree (cwd : Location) (path : PosixPath) (fs : FileSystem) : FileSystem :=
  let top := path.resolve cwd
  if fs top = some .directory then
    fun place =>
      if top <+: place ∧ (place = top → path.parts.getLast? ≠ some "..") then none else fs place
  else fs

/-- `path.open("wb")` and what is then written. -/
def writeFile (cwd : Location) (path : PosixPath) (content : ByteArray) (fs : FileSystem) :
    FileSystem × Except OsError Unit :=
  let place := path.resolve cwd
  if fs place = some .directory then (fs, .error .isADirectory)
  else
    match fs place.dropLast with
    | none => (fs, .error .fileNotFound)
    | some (.file _) => (fs, .error .notADirectory)
    | some .directory => (fs.put place (.file content), .ok ())

/-- Nothing that stands in `fs` at one of the places is gone from `fs'`. -/
def Keeps (places : Location → Prop) (fs fs' : FileSystem) : Prop :=
  ∀ place, places place → (fs place).isSome → (fs' place).isSome

theorem Keeps.refl (places : Location → Prop) (fs : FileSystem) : Keeps places fs fs :=
  fun _ _ h => h

theorem Keeps.trans {places : Location → Prop} {fs fs' fs'' : FileSystem}
    (h : Keeps places fs fs') (h' : Keeps places fs' fs'') : Keeps places fs fs'' :=
  fun place hplace hsome => h' place hplace (h place hplace hsome)

theorem put_keeps (places : Location → Prop) (fs : FileSystem) (place : Location) (entry : Entry) :
    Keeps places fs (fs.put place entry) := by
  intro other _ hsome
  rw [put, Function.update_apply]
  split
  · rfl
  · exact hsome

theorem makeMissing_eq_of_isSome (places : List Location) (fs : FileSystem) {place : Location}
    {entry : Entry} (h : fs place = some entry) : (fs.makeMissing places).1 place = some entry := by
  induction places generalizing fs with
  | nil => exact h
  | cons first rest ih =>
      rw [makeMissing]
      cases hfirst : fs first with
      | some found =>
          cases found with
          | file content => exact h
          | directory => exact ih fs h
      | none =>
          have hne : place ≠ first := by
            rintro rfl
            rw [h] at hfirst
            exact absurd hfirst (by simp)
          exact ih _ ((Function.update_of_ne hne _ fs).trans h)

/-- Making directories leaves what stands as it is. -/
theorem mkdir_eq_of_isSome (cwd : Location) (path : PosixPath) (fs : FileSystem) {place : Location}
    {entry : Entry} (h : fs place = some entry) : (fs.mkdir cwd path).1 place = some entry := by
  rw [mkdir]
  split
  · exact h
  · exact makeMissing_eq_of_isSome _ fs h

theorem ensureDirectory_eq_of_isSome (cwd : Location) (path : PosixPath) (fs : FileSystem)
    {place : Location} {entry : Entry} (h : fs place = some entry) :
    (fs.ensureDirectory cwd path).1 place = some entry := by
  rw [ensureDirectory]
  split
  · exact h
  · exact mkdir_eq_of_isSome cwd path fs h

/-- What keeps every entry keeps those at some places. -/
theorem keeps_of_frame {places : Location → Prop} {fs fs' : FileSystem}
    (h : ∀ place entry, fs place = some entry → fs' place = some entry) :
    Keeps places fs fs' := by
  intro place _ hsome
  obtain ⟨entry, hentry⟩ := Option.isSome_iff_exists.mp hsome
  rw [h place entry hentry]
  rfl

theorem mkdir_keeps (places : Location → Prop) (cwd : Location) (path : PosixPath)
    (fs : FileSystem) : Keeps places fs (fs.mkdir cwd path).1 :=
  keeps_of_frame fun place entry => mkdir_eq_of_isSome cwd path fs

theorem put_eq_of_ne (fs : FileSystem) {place other : Location} (entry : Entry)
    (h : other ≠ place) : fs.put place entry other = fs other :=
  Function.update_of_ne h _ fs

/-- A file is written where nothing but a file stood, and nothing else changes. -/
theorem writeFile_cases (cwd : Location) (path : PosixPath) (content : ByteArray)
    (fs : FileSystem) :
    (∃ error, fs.writeFile cwd path content = (fs, .error error)) ∨
      fs (path.resolve cwd) ≠ some .directory ∧
        fs.writeFile cwd path content = (fs.put (path.resolve cwd) (.file content), .ok ()) := by
  rw [writeFile]
  split
  · exact Or.inl ⟨_, rfl⟩
  · rename_i hfile
    cases fs (path.resolve cwd).dropLast with
    | none => exact Or.inl ⟨_, rfl⟩
    | some parent =>
        cases parent with
        | file _ => exact Or.inl ⟨_, rfl⟩
        | directory => exact Or.inr ⟨hfile, rfl⟩

/-- A removal is noticed only at the place of its path and below. -/
theorem rmtree_eq_of_not_below (cwd : Location) (path : PosixPath) (fs : FileSystem)
    {place : Location} (h : ¬ path.resolve cwd <+: place) :
    fs.rmtree cwd path place = fs place := by
  rw [rmtree]
  split
  · exact if_neg fun hbelow => h hbelow.1
  · rfl

theorem rmtree_keeps {places : Location → Prop} {cwd : Location} {path : PosixPath}
    (h : ∀ place, places place → ¬ path.resolve cwd <+: place) (fs : FileSystem) :
    Keeps places fs (fs.rmtree cwd path) := by
  intro place hplace hsome
  rwa [rmtree_eq_of_not_below cwd path fs (h place hplace)]

/-- Everything strictly below the removed directory is gone. -/
theorem rmtree_below {cwd : Location} {path : PosixPath} (fs : FileSystem)
    (hdir : fs (path.resolve cwd) = some .directory) {place : Location}
    (hbelow : path.resolve cwd <+: place) (hne : place ≠ path.resolve cwd) :
    fs.rmtree cwd path place = none := by
  rw [rmtree]
  rw [if_pos hdir]
  exact if_pos ⟨hbelow, fun h => absurd h hne⟩

end FileSystem

end Base
