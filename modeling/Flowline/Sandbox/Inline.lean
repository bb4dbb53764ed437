import Flowline.Json.Printer
import Flowline.Sandbox.Language
import Flowline.Text.Scan

/-! Inline code made into a script: before it stands its data as a literal, after it the line that
prints its result behind a marker. -/
namespace Flowline.Inline

/-- Where the literal of the data goes. -/
def payloadSlot : String := "__XP_PAYLOAD__"

/-- Where the literal of the marker goes. -/
def markerSlot : String := "__XP_MARKER__"

/-- The template of what stands before the code. -/
def opening : Language → String
  | .python => "def _xp_load():\n    import json\n    return json.loads(__XP_PAYLOAD__)\n"
      ++ "_xp_payload = _xp_load()\ndel _xp_load\n"
      ++ "params = _xp_payload.get(\"params\", \x7b\x7d)\n"
      ++ "inputs = _xp_payload.get(\"inputs\", \x7b\x7d)\n"
      ++ "context = _xp_payload.get(\"context\", \x7b\x7d)\n"
      ++ "del _xp_payload\nresult = None\n"
  | .javaScript => "const __xp_payload = JSON.parse(__XP_PAYLOAD__);\n"
      ++ "const params = __xp_payload.params || \x7b\x7d;\n"
      ++ "const inputs = __xp_payload.inputs || \x7b\x7d;\n"
      ++ "const context = __xp_payload.context || \x7b\x7d;\n"
      ++ "let result = null;\n"

/-- The template of what follows the code. -/
def closing : Language → String
  | .python => "\ndef _xp_emit(value):\n    import json\n    print(__XP_MARKER__"
      ++ " + json.dumps(\x7b\"success\": True, \"result\": value\x7d, default=str), flush=True)\n"
      ++ "_xp_emit(result)\n"
  | .javaScript => "\nconsole.log(__XP_MARKER__"
      ++ " + JSON.stringify(\x7b success: true, result \x7d));\n"

/-- The code itself stays as it is; its last line is ended. A JSON text is a literal in each of the
languages. -/
def wrap (l : Language) (code : String) (payload : Value) (marker : String) : String :=
  Text.fill payloadSlot (Json.quote (Json.compact payload)) (opening l)
    ++ code ++ (if code.endsWith "\n" then "" else "\n")
    ++ Text.fill markerSlot (Json.quote marker) (closing l)

end Flowline.Inline
