import SoundArchive.CommandLine.Failure

/-!
# Hosts

What a command needs from where it runs: files, and someone to talk to.
-/

namespace SoundArchive

structure Host (m : Type → Type) where
  read : (path : String) → m (Except FileFault Bytes)
  /-- Makes a file of these contents, and the folders that it is to be in. -/
  write : (path : String) → Bytes → m (Except FileFault Unit)
  isThere : (path : String) → m Bool
  /-- What is at a path, if anything, and what is in it: all of it, or one level. -/
  contents : (path : String) → (recursive : Bool) → m (List String)
  say : String → m Unit
  answer : m (Option String)

abbrev CommandM (m : Type → Type) (α : Type) := ExceptT Failure m α

end SoundArchive
