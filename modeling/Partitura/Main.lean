import Partitura.Command.Run
import Partitura.Number.Binary64

/-!
# The command line

Reads variables, files and the standard input, runs the command on them, writes
its files and prints what it says. All decisions are made by the command itself.
-/

namespace Partitura.CommandLine

def faultOf : IO.Error → FileFault
  | .noFileOrDirectory .. => .missing
  | .inappropriateType .. => .isDirectory
  | e => .other (toString e)

def readFile (path : String) : IO (Except FileFault String) := do
  try
    let bytes ← IO.FS.readBinFile path
    return textOfBytes bytes.toList
  catch e => return .error (faultOf e)

def readStandardInput : IO (Except FileFault String) := do
  let bytes ← (← IO.getStdin).readBinToEnd
  return textOfBytes bytes.toList

def contentBytes : Content → ByteArray
  | .bytes b => ⟨b.toArray⟩
  | .text s => s.toUTF8

def writeFile (o : OutputFile) : IO (Option FileFault) := do
  try
    IO.FS.writeBinFile o.path (contentBytes o.content)
    return none
  catch e => return some (faultOf e)

def variableNames : List String :=
  ["XDG_CONFIG_HOME", "HOME"]
    ++ (Settings.overrides : List (Settings.Override Float)).map Settings.Override.name

def inputOf : Task → Option String
  | .normalize input | .validate input | .convert input _ => some input
  | .settings => none

def look (c : Command) : IO Surroundings := do
  let found ← variableNames.mapM fun name => return (name, ← IO.getEnv name)
  let environment := fun name => (found.find? fun e => e.1 == name).bind Prod.snd
  let input := inputOf c.task
  let paths := settingsPaths environment c.config ++ (input.filter (· != "-")).toList
  let files ← paths.mapM fun path => return (path, ← readFile path)
  let standardInput ← if input == some "-" then readStandardInput else pure (.error .missing)
  return ⟨environment, fun path =>
    ((files.find? fun e => e.1 == path).map Prod.snd).getD (.error .missing), standardInput⟩

def finish (ending : Ending) : IO UInt32 := do
  IO.print ending.printed
  IO.eprint ending.warned
  return ending.code.toUInt32

def run (arguments : List String) : IO UInt32 := do
  match Request.parse? arguments with
  | none => finish usageEnding
  | some .version => finish versionEnding
  | some (.run c) => finish (← c.run Float writeFile (← look c))

end Partitura.CommandLine

def main (arguments : List String) : IO UInt32 := Partitura.CommandLine.run arguments
