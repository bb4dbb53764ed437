import Flowline.Data.Record

/-! The languages that sandboxed code is written in, and the programs that run it. -/
namespace Flowline

inductive Language where
  | python
  | javaScript
deriving DecidableEq, Inhabited

namespace Language

def name : Language → String
  | python => "python"
  | javaScript => "javascript"

def ofName? : String → Option Language
  | "python" => some python
  | "javascript" | "js" | "node" => some javaScript
  | _ => none

/-- The extension of script files. -/
def extension : Language → String
  | python => "py"
  | javaScript => "js"

def toValue (l : Language) : Value := .str l.name

def decode : Decoder Language := fun v => (Decode.variant v).bind ofName?

end Language

/-- The programs that run scripts. -/
structure Interpreters where
  python : String := "python3"
  javaScript : String := "node"
deriving Inhabited

namespace Interpreters

def program (i : Interpreters) : Language → String
  | .python => i.python
  | .javaScript => i.javaScript

def toValue (i : Interpreters) : Value :=
  .map [("python", .str i.python), ("javascript", .str i.javaScript)]

def decode : Decoder Interpreters := fun v => do
  match ← slots [["python"], ["javascript"]] v with
  | [python, javaScript] =>
    return ⟨← python.withDefault "python3" Decode.text,
      ← javaScript.withDefault "node" Decode.text⟩
  | _ => none

end Interpreters

end Flowline
