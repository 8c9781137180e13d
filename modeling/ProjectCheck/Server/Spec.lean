import ProjectCheck.Files.Path
import ProjectCheck.Text.LetterCase
import ProjectCheck.Validation

/-!
Language servers as they are known before they run: how one is started and which files it is for.
-/
namespace ProjectCheck

structure ServerSpec where
  key : LooseText
  name : LooseText
  command : LooseText
  args : List LooseText := []
  extensions : List LooseText := []
  installHint : LooseText := []
  deriving Repr, DecidableEq

namespace ServerSpec

def modelName : String := "LSPServerSpec"

def ofFields (fields : Members Json) : Checked ServerSpec :=
  ((fields.required "key" .string).map mk
    |>.ap (fields.required "name" .string)
    |>.ap (fields.required "command" .string)
    |>.ap (fields.withDefault "args" (.tuple .string) [])
    |>.ap (fields.withDefault "extensions" (.tuple .string) [])
    |>.ap (fields.withDefault "install_hint" .string []))

def launchCommand (spec : ServerSpec) (executable : Option LooseText) : List LooseText :=
  let command := match executable with
    | some path => if path = [] then spec.command else path
    | none => spec.command
  command :: spec.args

end ServerSpec

def Path.extension (path : Path) : LooseText := Text.lower path.suffix

def languageIds : List (LooseText × LooseText) := [
  (".js", "javascript"), (".mjs", "javascript"), (".cjs", "javascript"),
  (".jsx", "javascriptreact"), (".tsx", "typescriptreact"), (".cpp", "cpp"), (".cc", "cpp"),
  (".cxx", "cpp"), (".hpp", "cpp"), (".hxx", "cpp"), (".scss", "scss"), (".less", "less"),
  (".sh", "shellscript"), (".bash", "shellscript"), (".zsh", "shellscript")]

def ServerSpec.languageId (spec : ServerSpec) (path : Path) : LooseText :=
  (languageIds.lookup path.extension).getD spec.key

structure ServerOverride where
  name : LooseText
  command : LooseText := []
  args : List LooseText := []
  extensions : List LooseText := []
  installHint : LooseText := []
  enabled : Bool := true
  deriving Repr, DecidableEq

namespace ServerOverride

def modelName : String := "LSPServerConfig"

def normalizeExtension (extension : LooseText) : LooseText :=
  let body := Text.lower extension
  if extension.head? = some (.char '.') then body else .char '.' :: body

def ofFields (fields : Members Json) : Checked ServerOverride :=
  ((fields.required "name" .string).map mk
    |>.ap (fields.withDefault "command" .string [])
    |>.ap (fields.withDefault "args" (.list .string) [])
    |>.ap ((fields.withDefault "extensions" (.list .string) []).map (·.map normalizeExtension))
    |>.ap (fields.withDefault "install_hint" .string [])
    |>.ap (fields.withDefault "enabled" .bool true))

end ServerOverride

end ProjectCheck
