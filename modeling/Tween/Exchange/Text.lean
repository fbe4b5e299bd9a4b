import Tween.Exchange.Command
import Tween.Exchange.Settings
import Tween.Json.Reader
import Tween.Json.Writer

/-! Scripts and settings as texts. -/

namespace Tween

namespace Config

/-- Settings from a text, if they can be used. -/
def ofText (text : String) : Except (Problem Float) (Config Float) :=
  match Json.ofText? text >>= ofJson? with
  | some config => config.checked
  | none => .error (.serialization "not a configuration")

end Config

namespace Script

/-- Two blanks for each level. -/
def toText (script : Script Float) : String := script.toJson.text (.indented 2)

def ofText (text : String) : Except (Problem Float) (Script Float) :=
  match Json.ofText? text >>= ofJson? with
  | some script => .ok script
  | none => .error (.serialization "not a script")

end Script
end Tween
