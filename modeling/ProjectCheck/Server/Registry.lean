import ProjectCheck.Server.Builtin

/-!
Registries of language servers. Each key has one server; a server that is registered again keeps its
place, and the first server that lists an extension has the files with it.
-/
namespace ProjectCheck

structure Registry where
  entries : Members ServerSpec LooseText
  deriving Repr

namespace Registry

def empty : Registry := ⟨[]⟩

def register (registry : Registry) (spec : ServerSpec) : Registry :=
  ⟨registry.entries.set spec.key spec⟩

def unregister (registry : Registry) (key : LooseText) : Registry :=
  ⟨registry.entries.erase key⟩

def get? (registry : Registry) (key : LooseText) : Option ServerSpec :=
  registry.entries.get? key

def ofSpecs (specs : List ServerSpec) : Registry := specs.foldl register empty

def builtin : Registry := ofSpecs builtinServers

def servers (registry : Registry) : List ServerSpec := registry.entries.map Prod.snd

def keys (registry : Registry) : List LooseText := registry.servers.map (·.key)

/-- What an entry makes of the server that its key has so far. Fields that it leaves empty are kept;
the name is always kept. -/
def overridden (entry : ServerOverride) (current : Option ServerSpec) : ServerSpec :=
  match current with
  | none => {
      key := entry.name
      name := entry.name
      command := if entry.command = [] then entry.name else entry.command
      args := entry.args
      extensions := entry.extensions
      installHint := entry.installHint }
  | some server => {
      key := entry.name
      name := server.name
      command := if entry.command ≠ [] then entry.command else server.command
      args := if entry.args.isEmpty then server.args else entry.args
      extensions := if entry.extensions.isEmpty then server.extensions else entry.extensions
      installHint := if entry.installHint = [] then server.installHint else entry.installHint }

def applyOverride (registry : Registry) (entry : ServerOverride) : Registry :=
  if entry.enabled then registry.register (overridden entry (registry.get? entry.name))
  else registry.unregister entry.name

def ofOverrides (entries : List ServerOverride) : Registry :=
  entries.foldl applyOverride builtin

def forFile? (registry : Registry) (path : Path) : Option ServerSpec :=
  let extension := path.extension
  if extension = [] then none
  else registry.servers.find? fun spec => spec.extensions.contains extension

def forLanguage? (registry : Registry) (language : LooseText) : Option ServerSpec :=
  ((Text.lower language).string?.bind fun name => languageAliases.lookup name).bind
    fun key => registry.get? key

def extensions (registry : Registry) : List LooseText :=
  (registry.servers.flatMap (·.extensions)).eraseDups

end Registry

end ProjectCheck
