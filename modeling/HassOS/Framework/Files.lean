import Mathlib.Data.List.Basic
import Mathlib.Logic.Function.Basic

/-!
# File trees

The tree of one partition: a path is the list of its names from the root, and
holds a regular file or a directory, or nothing. The commands of a script act
on it: on one path (`write`, `touch`, `unlink`, `rename`), or on everything
below one (`removeTree`, `graft`, `moveTree`: `rm -r`, `cp -r` and `mv` of a
directory). A command that fails changes nothing; a test (`isFile`, `isDir`)
tells whether it does.

Each command comes with its frame: which paths it leaves as they are.
-/

namespace HassOS.Framework

/-- What a path holds: a regular file with its content, or a directory. -/
inductive Node (β : Type) where
  | file (content : β)
  | dir
  deriving DecidableEq

/-- The tree of one partition. -/
abbrev Fs (ν β : Type) := List ν → Option (Node β)

namespace Fs

variable {ν β : Type}

/-- `[ -f p ]` -/
def isFile (fs : Fs ν β) (p : List ν) : Bool :=
  match fs p with
  | some (.file _) => true
  | _ => false

/-- `[ -d p ]`; the root is a directory. -/
def isDir (fs : Fs ν β) (p : List ν) : Bool :=
  match fs p with
  | some .dir => true
  | _ => p.isEmpty

/-- The content of a regular file. -/
def read (fs : Fs ν β) (p : List ν) : Option β :=
  match fs p with
  | some (.file b) => some b
  | _ => none

section

variable {fs : Fs ν β} {p : List ν} {b : β}

@[simp] theorem isDir_nil : fs.isDir [] = true := by
  unfold isDir
  split <;> rfl

theorem isFile_iff : fs.isFile p = true ↔ ∃ b, fs p = some (.file b) := by
  unfold isFile
  split
  · rename_i b h
    simp [h]
  · rename_i h
    simpa using h

theorem read_eq_some : fs.read p = some b ↔ fs p = some (.file b) := by
  unfold read
  split
  · rename_i c h
    simp [h]
  · rename_i h
    simpa using h b

theorem isFile_eq : fs.isFile p = (fs.read p).isSome := by
  unfold isFile read
  rcases fs p with _ | (_ | _) <;> rfl

theorem read_of_isDir (h : fs.isDir p = true) (hp : p ≠ []) : fs.read p = none := by
  unfold isDir at h
  unfold read
  split at h
  · rename_i hd
    rw [hd]
  · exact absurd (List.isEmpty_iff.mp h) hp

theorem isDir_eq_false (hp : p ≠ []) : fs.isDir p = false ↔ fs p ≠ some .dir := by
  unfold isDir
  split
  · rename_i h
    simp [h]
  · rename_i h
    exact iff_of_true (by simpa using hp) h

theorem not_isDir_of_file (h : fs p = some (.file b)) (hp : p ≠ []) : fs.isDir p = false := by
  simp [isDir, h, hp]

theorem not_isDir_of_none (h : fs p = none) (hp : p ≠ []) : fs.isDir p = false := by
  simp [isDir, h, hp]

end

variable [DecidableEq ν]

/-- `> p`: write a file into an existing directory. -/
def write (fs : Fs ν β) (p : List ν) (b : β) : Fs ν β :=
  if fs.isDir p.dropLast && !fs.isDir p then Function.update fs p (some (.file b)) else fs

/-- `touch p`: a new file holds `empty`. -/
def touch (fs : Fs ν β) (p : List ν) (empty : β) : Fs ν β :=
  if fs.isFile p then fs else fs.write p empty

/-- `rm p` of a regular file. -/
def unlink (fs : Fs ν β) (p : List ν) : Fs ν β :=
  if fs.isFile p then Function.update fs p none else fs

/-- `mv p q` of a regular file over a path that is not a directory. -/
def rename (fs : Fs ν β) (p q : List ν) : Fs ν β :=
  match fs.read p with
  | some b =>
    if fs.isDir q.dropLast && !fs.isDir q then
      Function.update (Function.update fs p none) q (some (.file b))
    else fs
  | none => fs

/-- `rm -r p`: nothing is left at `p` or below. -/
def removeTree (fs : Fs ν β) (p : List ν) : Fs ν β :=
  fun q => if p.isPrefixOf q then none else fs q

/-- The tree at `q` becomes that of `src` at `p`. -/
def graft (src : Fs ν β) (p : List ν) (fs : Fs ν β) (q : List ν) : Fs ν β :=
  fun r => if q.isPrefixOf r then src (p ++ r.drop q.length) else fs r

/-- `mv p q` of a directory to a path that does not exist. -/
def moveTree (fs : Fs ν β) (p q : List ν) : Fs ν β := (graft fs p fs q).removeTree p

/-! ## One path -/

section

variable {fs : Fs ν β} {p q : List ν} {b : β}

theorem write_self (hd : fs.isDir p.dropLast = true) (hp : fs.isDir p = false) :
    fs.write p b p = some (.file b) := by
  simp [write, hd, hp]

theorem write_at : fs.write p b p =
    if fs.isDir p.dropLast && !fs.isDir p then some (.file b) else fs p := by
  unfold write
  split
  · exact Function.update_self ..
  · rfl

theorem write_ne (h : q ≠ p) : fs.write p b q = fs q := by
  unfold write
  split
  · exact Function.update_of_ne h _ _
  · rfl

/-- After `> p` the file is there iff it could be written, or was there before. -/
theorem write_eq_file (hp : p ≠ []) : fs.write p b p = some (.file b) ↔
    fs.isDir p.dropLast = true ∧ fs p ≠ some .dir ∨ fs p = some (.file b) := by
  unfold write
  by_cases h : fs.isDir p.dropLast = true ∧ fs p ≠ some .dir
  · rw [if_pos (by simpa [isDir_eq_false hp] using h), Function.update_self]
    exact iff_of_true rfl (.inl h)
  · rw [if_neg (by simpa [isDir_eq_false hp] using h)]
    exact (or_iff_right h).symm

theorem touch_ne (h : q ≠ p) : fs.touch p b q = fs q := by
  unfold touch
  split
  · rfl
  · exact write_ne h

theorem unlink_ne (h : q ≠ p) : fs.unlink p q = fs q := by
  unfold unlink
  split
  · exact Function.update_of_ne h _ _
  · rfl

theorem unlink_isFile : (fs.unlink p).isFile p = false := by
  unfold unlink
  split
  · simp [isFile]
  · rename_i h
    simpa using h

/-- `rm` of a regular file leaves nothing there. -/
theorem unlink_self (h : fs p = some (.file b)) : fs.unlink p p = none := by
  simp [unlink, isFile_iff.mpr ⟨b, h⟩]

theorem rename_apply (h : fs p = some (.file b)) (hd : fs.isDir q.dropLast = true)
    (hq : fs.isDir q = false) :
    fs.rename p q = Function.update (Function.update fs p none) q (some (.file b)) := by
  simp [rename, read_eq_some.mpr h, hd, hq]

theorem rename_ne {r : List ν} (hp : r ≠ p) (hq : r ≠ q) : fs.rename p q r = fs r := by
  unfold rename
  cases fs.read p with
  | none => rfl
  | some b =>
    simp only
    split
    · rw [Function.update_of_ne hq, Function.update_of_ne hp]
    · rfl

end

/-! ## Trees -/

section

variable {fs src : Fs ν β} {p q r : List ν}

theorem not_below {n m : ν} (h : n ≠ m) (p r : List ν) : (m :: p).isPrefixOf (n :: r) = false := by
  rw [List.isPrefixOf_cons_cons, Bool.and_eq_false_iff, beq_eq_false_iff_ne]
  exact .inl (Ne.symm h)

theorem removeTree_below (h : p.isPrefixOf q = true) : fs.removeTree p q = none := by
  simp [removeTree, h]

theorem removeTree_append (p r : List ν) : fs.removeTree p (p ++ r) = none :=
  removeTree_below (List.isPrefixOf_iff_prefix.mpr (List.prefix_append p r))

theorem removeTree_outside (h : p.isPrefixOf q = false) : fs.removeTree p q = fs q := by
  simp [removeTree, h]

theorem graft_below (r : List ν) : graft src p fs q (q ++ r) = src (p ++ r) := by
  simp [graft, List.isPrefixOf_iff_prefix]

theorem graft_outside (h : q.isPrefixOf r = false) : graft src p fs q r = fs r := by
  simp [graft, h]

theorem moveTree_outside (hp : p.isPrefixOf r = false) (hq : q.isPrefixOf r = false) :
    fs.moveTree p q r = fs r := by
  rw [moveTree, removeTree_outside hp, graft_outside hq]

theorem moveTree_dst (h : p.isPrefixOf (q ++ r) = false) : fs.moveTree p q (q ++ r) = fs (p ++ r) := by
  rw [moveTree, removeTree_outside h, graft_below]

end

end Fs

end HassOS.Framework
