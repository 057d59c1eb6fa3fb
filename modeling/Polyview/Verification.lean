import Polyview.Error
import Polyview.Script.EarlyError
import Polyview.Text.Replace

/-! # Verification

A written file is checked before it is handed out: its script has to parse and must have no early error. In
a file with several blocks, the script is the first script block. -/

namespace Polyview

open Text

def Target.isScript : Target → Bool
  | .react => true
  | .lit => true
  | .vue => false
  | .svelte => false

def Target.usesJsx : Target → Bool
  | .react => true
  | _ => false

/-- The text between the first tag that opens a script block and the tag that closes it. -/
def scriptBlock? (code : List Char) : Option (List Char) := do
  let (_, block) ← splitAtFirst? "<script".toList code
  let (_, inside) ← splitAtFirst? ['>'] block
  let (script, _) ← splitAtFirst? "</script>".toList (inside.drop 1)
  return script

def scriptOf (target : Target) (code : String) : Except Error (List Char) :=
  if target.isScript then .ok code.toList
  else
    match scriptBlock? code.toList with
    | some script => .ok script
    | none => .error (.invalidOutput target .missingScript)

def verifyScript (target : Target) (script : List Char) : Except Error Unit :=
  if Script.isSound target.usesJsx script then .ok () else .error (.invalidOutput target .script)

def verifyFile (target : Target) (code : String) : Except Error Unit := do
  verifyScript target (← scriptOf target code)

/-- Checks a file that is a script whatever the target, as those of providers are. -/
def verifyModule (target : Target) (code : String) : Except Error Unit := verifyScript target code.toList

/-- Checks a file that is a script as a whole and takes any other as it is. The layout is kept: what this
decides is whether a script has a normal layout at all, which is the case for every sound one. -/
def normalizeFile (target : Target) (code : String) : Except Error String := do
  if target.isScript then verifyModule target code
  return code

end Polyview
