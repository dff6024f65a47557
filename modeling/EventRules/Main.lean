/-
# The executable

Looks up the files that the arguments name, works out the plan of the command, and carries it out.
-/

import EventRules.CommandLine.Run

namespace EventRules.CommandLine

/-- The system's code for the refusal to open a directory as a file. -/
def isADirectoryCode : UInt32 := 21

/-- The system's code for the refusal of a name that is too long. -/
def nameTooLongCode : UInt32 := 36

/-- What a path leads to in the file system. -/
def probe (path : Text) : IO (Except PathFault Node) := do
  try
    let octets ← IO.FS.readBinFile (String.ofList path)
    return .ok (.file octets.toList)
  catch
    | .inappropriateType _ code _ =>
      return if code = isADirectoryCode then .ok .directory else .error .notADirectory
    | .invalidArgument _ code _ =>
      return .error (if code = nameTooLongCode then .nameTooLong else .missing)
    | _ => return .error .missing

/-- Why the file system refused to write a file. -/
def writeFaultOf : IO.Error → WriteFault
  | .noFileOrDirectory .. => .noSuchDirectory
  | .inappropriateType _ code _ => if code = isADirectoryCode then .isADirectory else .notADirectory
  | .invalidArgument _ code _ => if code = nameTooLongCode then .nameTooLong else .notADirectory
  | .permissionDenied .. => .denied
  | _ => .notADirectory

/-- Prints what a command has to say. -/
def Finished.print (f : Finished) : IO UInt32 := do
  (← IO.getStdout).putStr (String.ofList f.output)
  (← IO.getStderr).putStr (String.ofList f.errors)
  return f.exitCode.toUInt32

end EventRules.CommandLine

open EventRules.CommandLine in
def main (arguments : List String) : IO UInt32 := do
  let arguments := arguments.map String.toList
  let paths := (sort arguments).toOption.elim [] (·.paths)
  let nodes ← paths.mapM fun path => do return (path, ← probe path)
  match plan (fun path => (nodes.lookup path).getD (.error .missing)) arguments with
  | .finish f => f.print
  | .write path text written refused =>
    try
      IO.FS.writeFile (String.ofList path) (String.ofList text)
      written.print
    catch e => (refused (writeFaultOf e)).print
