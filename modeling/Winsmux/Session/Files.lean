import Winsmux.Json

/-!
# The session directory

Every server keeps its files in one directory, each named by the server's base and a
suffix of its kind.
-/
namespace Winsmux.Session
open Json

/-- The contents of each file by its name. -/
abbrev Files := Text → Option Text

namespace Files

def empty : Files := fun _ => none

def write (name contents : Text) (files : Files) : Files := Function.update files name (some contents)

def removeFile (name : Text) (files : Files) : Files := Function.update files name none

/-- A file under another name; what was there is replaced. -/
def rename (source target : Text) (files : Files) : Files :=
  match files source with
  | some contents => (files.removeFile source).write target contents
  | none => files

end Files

def portFile (base : Text) : Text := base ++ utf8 ".port"

def keyFile (base : Text) : Text := base ++ utf8 ".key"

def sessionRegistryPath (base : Text) : Text := base ++ utf8 ".registry.json"

def registryTmpPath (base : Text) : Text := base ++ utf8 ".registry.json.tmp"

def removeSessionRegistryFiles (base : Text) (files : Files) : Files :=
  (files.removeFile (sessionRegistryPath base)).removeFile (registryTmpPath base)

/-- The record is written aside and then put in place. -/
def writeSessionRegistry (base record : Text) (files : Files) : Files :=
  (files.write (registryTmpPath base) record).rename (registryTmpPath base) (sessionRegistryPath base)

theorem append_ne_of_getLast {a b suffix suffix' : Text} {x y : UInt8} (hx : suffix.getLast? = some x)
    (hy : suffix'.getLast? = some y) (hne : x ≠ y) : a ++ suffix ≠ b ++ suffix' := by
  intro h
  have hlast := congrArg List.getLast? h
  rw [List.getLast?_append, List.getLast?_append, hx, hy] at hlast
  exact hne (Option.some.inj hlast)

theorem portFile_ne_keyFile (b c : Text) : portFile b ≠ keyFile c :=
  append_ne_of_getLast (x := 0x74) (y := 0x79) (by decide) (by decide) (by decide)

theorem portFile_ne_registry (b c : Text) : portFile b ≠ sessionRegistryPath c :=
  append_ne_of_getLast (x := 0x74) (y := 0x6e) (by decide) (by decide) (by decide)

theorem portFile_ne_tmp (b c : Text) : portFile b ≠ registryTmpPath c :=
  append_ne_of_getLast (x := 0x74) (y := 0x70) (by decide) (by decide) (by decide)

theorem keyFile_ne_registry (b c : Text) : keyFile b ≠ sessionRegistryPath c :=
  append_ne_of_getLast (x := 0x79) (y := 0x6e) (by decide) (by decide) (by decide)

theorem keyFile_ne_tmp (b c : Text) : keyFile b ≠ registryTmpPath c :=
  append_ne_of_getLast (x := 0x79) (y := 0x70) (by decide) (by decide) (by decide)

@[simp] theorem portFile_inj {b c : Text} : portFile b = portFile c ↔ b = c := List.append_left_inj _

@[simp] theorem keyFile_inj {b c : Text} : keyFile b = keyFile c ↔ b = c := List.append_left_inj _

namespace Files
variable {files : Files} {name other contents : Text}

theorem write_apply : files.write name contents other = if other = name then some contents else files other :=
  Function.update_apply ..

theorem removeFile_apply : files.removeFile name other = if other = name then none else files other :=
  Function.update_apply ..

theorem rename_apply_of_ne {source target : Text} (hs : other ≠ source) (ht : other ≠ target) :
    files.rename source target other = files other := by
  rw [rename.eq_def]
  cases files source with
  | some contents =>
    dsimp only
    rw [write_apply, if_neg ht, removeFile_apply, if_neg hs]
  | none => rfl

end Files

/-- The registry files of a server are no other files. -/
theorem removeSessionRegistryFiles_apply {base name : Text} {files : Files}
    (hr : name ≠ sessionRegistryPath base) (ht : name ≠ registryTmpPath base) :
    removeSessionRegistryFiles base files name = files name := by
  rw [removeSessionRegistryFiles, Files.removeFile_apply, if_neg ht, Files.removeFile_apply, if_neg hr]

theorem writeSessionRegistry_apply {base record name : Text} {files : Files}
    (hr : name ≠ sessionRegistryPath base) (ht : name ≠ registryTmpPath base) :
    writeSessionRegistry base record files name = files name := by
  rw [writeSessionRegistry, Files.rename_apply_of_ne ht hr, Files.write_apply, if_neg ht]

end Winsmux.Session
