import StateFlow.Files.Tree
import StateFlow.Manifest.Basic

/-!
# Manifests in files

A manifest that is read from a file knows the directory that the file lies in; the programs of
handlers run there.
-/

namespace StateFlow

/-- Why a file holds no manifest. -/
inductive LoadError where
  | unreadable (path : String) (fault : FileFault)
  | manifest (path : String) (error : ManifestError)
deriving DecidableEq, Repr, Inhabited

namespace LoadError

/-- The texts of an error, from the outermost to its cause. -/
def chain : LoadError → List String
  | unreadable path fault => [s!"failed to read manifest {path}", fault.message]
  | manifest path error => s!"failed to load manifest {path}" :: error.chain

end LoadError

namespace Manifest

/-- The path of the manifest where nobody names one. -/
def standardPath : String := "serverless.yml"

/-- The variable of the environment that may name the path of the manifest. -/
def pathVariable : String := "SFSIM_CONFIG"

/-- The path of the manifest: one that is given, or that of the environment, or the standard one. -/
def path (given? environment? : Option String) : String :=
  (given? <|> environment?).getD standardPath

/-- The directory that a manifest under a path lies in. -/
def directoryOf? (path : String) : Option String :=
  (Location.parent? path).map fun parent => if parent = "" then "." else parent

/-- The manifest of a file. -/
def load (path : String) (text : Except FileFault String) : Except LoadError Manifest := do
  let text ← text.mapError (.unreadable path)
  let m ← (read text).mapError (.manifest path)
  return { m with baseDir? := directoryOf? path }

end Manifest

end StateFlow
