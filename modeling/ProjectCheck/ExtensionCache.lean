import ProjectCheck.Failure

/-!
The file extensions that some language server handles, asked for once and kept until they are given
up. A source that fails is asked again the next time.
-/
namespace ProjectCheck

structure ExtensionCache where
  kept : Option (List LooseText) := none
  deriving Repr, DecidableEq

namespace ExtensionCache

def isPopulated (cache : ExtensionCache) : Bool := cache.kept.isSome

def invalidate (_ : ExtensionCache) : ExtensionCache := {}

structure Reading where
  result : Except Failure (List LooseText)
  cache : ExtensionCache
  asked : Bool

def read (cache : ExtensionCache) (source : Except Failure (List LooseText)) : Reading :=
  match cache.kept with
  | some extensions => ⟨.ok extensions, cache, false⟩
  | none =>
    match source with
    | .ok said => ⟨.ok said.eraseDups, ⟨some said.eraseDups⟩, true⟩
    | .error failure => ⟨.error failure, cache, true⟩

def Reading.logText? (reading : Reading) : Option String :=
  match reading.asked, reading.result with
  | true, .ok extensions => some s!"Cached {extensions.length} LSP file extensions"
  | _, _ => none

end ExtensionCache

end ProjectCheck
