import RichDoc.CommandLine

/-! # The program

Reads files, prints what `CommandLine.run` says, and ends with its code. -/

namespace RichDoc

/-- What there is at a path. -/
def readFile (path : String) : IO File := do
  try return .bytes (← IO.FS.readBinFile path)
  catch
    | .noFileOrDirectory .. => return .missing
    | _ => return .unreadable

end RichDoc

open RichDoc in
def main (args : List String) : IO UInt32 := do
  let home := (← IO.getEnv "HOME").getD ""
  let program := (← IO.appPath).toString
  let values ← (args.flatMap Path.variableNames).mapM fun n => do return (n, ← IO.getEnv n)
  let o ← CommandLine.run readFile (fun n => (values.lookup n).join) program home args
  IO.print o.out
  for line in o.err do IO.eprintln line
  return UInt32.ofNat o.code
