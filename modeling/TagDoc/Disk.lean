import TagDoc.FileSystem

/-!
# Disks

Stores and commands reach files through a `Disk`, whose operations may fail
one by one.  A file system is a disk, and any disk can keep a trace of how it
was changed.
-/

namespace TagDoc

/-- The operations on files, over disks of a type `δ`. -/
structure Disk (δ : Type) where
  createDirectories : String → δ → Except FileError Unit × δ
  isFile : String → δ → Bool
  read : String → δ → Except FileError String
  write : String → String → δ → Except FileError Unit × δ

def FileSystem.disk : Disk FileSystem where
  createDirectories := FileSystem.createDirectories
  isFile path files := files.isFile path
  read path files := files.read path
  write path text files :=
    match files.write path text with
    | .ok files => (.ok (), files)
    | .error error => (.error error, files)

/-- How a disk was changed: the paths at which something was to be put, and
the directories and texts that were put there. -/
structure Trace where
  touched : List String := []
  created : List String := []
  written : Assoc String := []
deriving DecidableEq, Repr

namespace Trace

/-- The trace after an attempt to create a directory. -/
def create (trace : Trace) (path : String) (succeeded : Bool) : Trace :=
  { trace with
    touched := trace.touched.insert path
    created := if succeeded then trace.created.insert path else trace.created }

/-- The trace after an attempt to write a text.  Of several texts written to a
path the last one stays. -/
def write (trace : Trace) (path text : String) (succeeded : Bool) : Trace :=
  { trace with
    touched := trace.touched.insert path
    written := if succeeded then trace.written.put path text else trace.written }

end Trace

/-- A disk that keeps a trace of its changes. -/
def Disk.traced {δ : Type} (disk : Disk δ) : Disk (δ × Trace) where
  createDirectories path := fun (files, trace) =>
    let (result, files) := disk.createDirectories path files
    (result, (files, trace.create path result.isOk))
  isFile path := fun (files, _) => disk.isFile path files
  read path := fun (files, _) => disk.read path files
  write path text := fun (files, trace) =>
    let (result, files) := disk.write path text files
    (result, (files, trace.write path text result.isOk))

end TagDoc
