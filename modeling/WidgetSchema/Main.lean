-- The program: runs over the files of the machine.
import WidgetSchema.Command.Run
namespace WidgetSchema.Machine

/-- The answer to a question, if there is one. -/
def ask? {α : Type} (question : IO α) : IO (Option α) := do
  try
    return some (← question)
  catch _ =>
    return none

/-- Whether an order could be carried out. -/
def carryOut (order : IO Unit) : IO Bool := return (← ask? order).isSome

def kind? (path : String) : IO (Option EntryKind) := do
  match ← ask? (do (← IO.FS.realPath path).metadata) with
  | none => return none
  | some data => return if data.type == .dir then some .directory else some .file

def namesIn (path : String) : IO (List String) := do
  return ((← (← IO.FS.realPath path).readDir).map (·.fileName)).toList

def fileSystem : FileSystem IO where
  kind? := kind?
  read? path := ask? (IO.FS.readFile path)
  names? path := ask? (namesIn path)
  canonical? path := ask? (do return (← IO.FS.realPath path).toString)
  write path text := carryOut (IO.FS.writeFile path text)
  createDirectories path := if path = "" then return true else carryOut (IO.FS.createDirAll path)

/-- Shows how a run ends. -/
def report (result : ProgramResult) : IO UInt32 := do
  IO.print result.printed
  match result.failure with
  | some message => IO.eprintln ("Error: " ++ message)
  | none => pure ()
  return UInt32.ofNat result.exit

end WidgetSchema.Machine

open WidgetSchema in
def main (args : List String) : IO UInt32 := do
  let url ← IO.getEnv "TOOLDRAWER_ASSET_BASE_URL"
  Machine.report (← ProgramResult.ofArguments Machine.fileSystem url args)
