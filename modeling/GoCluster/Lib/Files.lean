import GoCluster.Lib.Map
import GoCluster.Lib.Strings
/-!
# Files

A path is the list of its components, as `filepath.Join` leaves them. A file
system has directories and files; a file can be written iff its directory is
there, and a directory can always be made.
-/

namespace Golib

abbrev Path := List Str

/-- One component more, as `filepath.Clean` takes it. -/
def Path.push (p : Path) (component : Str) : Path :=
  if component = [] ∨ component = ascii "." then p
  else if component = ascii ".." then if p = [] ∨ p.getLast? = some (ascii "..") then p ++ [component] else p.dropLast
  else p ++ [component]

def Path.join (dir : Path) (name : Str) : Path := (name.splitOn 47).foldl Path.push dir

theorem Path.join_eq {dir : Path} {name : Str}
    (h : ∀ component ∈ name.splitOn 47, component ≠ [] ∧ component ≠ ascii "." ∧ component ≠ ascii "..") :
    Path.join dir name = dir ++ name.splitOn 47 := by
  have hp : ∀ (components : List Str) (p : Path),
      (∀ component ∈ components, component ≠ [] ∧ component ≠ ascii "." ∧ component ≠ ascii "..") →
      components.foldl Path.push p = p ++ components := by
    intro components
    induction components with
    | nil => exact fun p _ => (List.append_nil p).symm
    | cons component components ih =>
      intro p ha
      rw [List.forall_mem_cons] at ha
      obtain ⟨⟨hne, hdo, hd⟩, ha⟩ := ha
      rw [List.foldl_cons, Path.push, if_neg (by simp [hne, hdo]), if_neg hd, ih _ ha, List.append_assoc]
      rfl
  exact hp _ _ h

/-- Every file is in a directory. -/
structure FileSystem (α : Type) where
  dirs : List Path
  files : Map Path α
  parents : ∀ p ∈ files, p.dropLast ∈ dirs

namespace FileSystem
variable {α : Type} {fs : FileSystem α} {p q : Path}

def put (fs : FileSystem α) (p : Path) (content : α) (h : p.dropLast ∈ fs.dirs) : FileSystem α where
  dirs := fs.dirs
  files := fs.files.insert p content
  parents q hq := by
    rcases AList.mem_insert _ |>.1 hq with rfl | hq
    · exact h
    · exact fs.parents q hq

def mkdirAll (fs : FileSystem α) (p : Path) : FileSystem α where
  dirs := p.inits ++ fs.dirs
  files := fs.files
  parents q hq := List.mem_append_right _ (fs.parents q hq)

def writeFile (fs : FileSystem α) (p : Path) (content : α) : Option (FileSystem α) :=
  if h : p.dropLast ∈ fs.dirs then some (fs.put p content h) else none

def readFile (fs : FileSystem α) (p : Path) : Option α := fs.files.lookup p

theorem readFile_put (fs : FileSystem α) (content : α) (h : p.dropLast ∈ fs.dirs) (q : Path) :
    (fs.put p content h).readFile q = if q = p then some content else fs.readFile q :=
  Map.lookup_insert_if fs.files p q content

theorem readFile_eq_none (h : p.dropLast ∉ fs.dirs) : fs.readFile p = none :=
  AList.lookup_eq_none.2 fun hp => h (fs.parents p hp)

theorem mem_dirs_mkdirAll : q ∈ (fs.mkdirAll p).dirs ↔ q <+: p ∨ q ∈ fs.dirs := by
  rw [mkdirAll, List.mem_append, List.mem_inits]

end FileSystem

end Golib
