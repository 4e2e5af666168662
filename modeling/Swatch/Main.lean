import Swatch.CommandLine

/-!
# The program

The command line on the files of the machine.
-/

namespace Swatch

/-- Why writing a file failed, from the code that the system gave. -/
def writeFault (error : IO.Error) : WriteFault :=
  match error with
  | .noFileOrDirectory .. => .missing
  | .inappropriateType _ code _ => if code = 21 then .isDirectory else .notDirectory
  | _ => .other error.toString.toList

/-- The files of the machine. -/
def machineFiles : Storage IO where
  read path := do
    try
      let bytes ← IO.FS.readBinFile (String.ofList path)
      return some bytes.toList
    catch _ => return none
  write path bytes := do
    try
      IO.FS.writeBinFile (String.ofList path) bytes.toByteArray
      return none
    catch error => return some (writeFault error)

end Swatch

def main (arguments : List String) : IO UInt32 := do
  let execution ← Swatch.execute Swatch.machineFiles (arguments.map String.toList)
  IO.eprint (String.ofList execution.errors)
  IO.print (String.ofList execution.output)
  return execution.code.toUInt32
