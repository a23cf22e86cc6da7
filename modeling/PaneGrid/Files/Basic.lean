import PaneGrid.Files.Path

/-! What a command needs of a file system. Every request that fails gives the reason in words. -/

namespace PaneGrid

structure Files (m : Type → Type) where
  read : String → m (Except String ByteArray)
  /-- Something has this path, whatever it is. -/
  isPresent : String → m Bool
  /-- Makes a folder and the missing ones above it. -/
  makeFolders : String → m (Except String Unit)
  /-- Creates or replaces a file. -/
  write : String → ByteArray → m (Except String Unit)

namespace Files

variable {m : Type → Type} [Monad m]

def readText (files : Files m) (path : String) : m (Except String String) := do
  match ← files.read path with
  | .error reason => return .error reason
  | .ok bytes =>
    match String.fromUTF8? bytes with
    | some text => return .ok text
    | none => return .error "stream did not contain valid UTF-8"

def writeText (files : Files m) (path text : String) : m (Except String Unit) :=
  files.write path text.toUTF8

end Files

end PaneGrid
