import NextEdit.CommandLine.Host
import NextEdit.Console
import NextEdit.Settings

/-! What a command sees of the world around it: the environment, standard input, what stands behind a
path, and the host that it runs on. -/
namespace NextEdit.CommandLine

inductive Entry
  | missing
  | file (content : Octets)
  | directory

structure World where
  environment : Environment
  stdin : Octets
  lookup : Text → Entry
  host : Host := .lenient

namespace World

/-- A message as it arrives at a stream: only terminals get control sequences. -/
def echo (world : World) (stream : Stream) (message : Text) : Text :=
  if world.host.isTerminal stream then message else Console.written message

/-- What a shell that completes a command line instructs the parser to do. -/
def instruction? (world : World) : Option Text :=
  if world.host.offersCompletion then
    (world.environment.get? "_EDITPROMPT_COMPLETE".toList).filter (!·.isEmpty)
  else none

end World

/-- A working directory: the files in it, and directories that need not hold any. -/
structure FileTree where
  files : List (Text × Octets)
  directories : List Text

namespace FileTree

/-- The components of a path; empty ones and `.` lead nowhere. -/
def components (path : Text) : List Text :=
  (Text.splitAtChar '/' path).filter fun part => !part.isEmpty && part != ['.']

def isDirectory (tree : FileTree) (place : List Text) : Bool :=
  place.isEmpty || tree.directories.any (fun path => place.isPrefixOf (components path)) ||
    tree.files.any fun (path, _) =>
      place.isPrefixOf (components path) && place != components path

/-- Follows components from a directory of the tree, given from the innermost outwards. -/
def follow (tree : FileTree) : (place : List Text) → List Text → Entry
  | _, [] => .directory
  | place, part :: rest =>
    if part = "..".toList then
      match place with
      | [] => if rest.isEmpty then .directory else .missing
      | _ :: outer => follow tree outer rest
    else
      let next := (part :: place).reverse
      if tree.isDirectory next then follow tree (part :: place) rest
      else
        match tree.files.find? fun (path, _) => components path == next with
        | some (_, content) => if rest.isEmpty then .file content else .missing
        | none => .missing

/-- What stands behind a path; outside the tree, nothing but the root is known. -/
def lookup (tree : FileTree) (path : Text) : Entry :=
  if path.head? = some '/' then if (components path).isEmpty then .directory else .missing
  else tree.follow [] (components path)

end FileTree

end NextEdit.CommandLine
