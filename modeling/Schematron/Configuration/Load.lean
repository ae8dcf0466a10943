import Schematron.Configuration.Layers
import Schematron.Configuration.Reader

/-!
# Loading the configuration

The file of settings is the one that the command line names, else the first one that is found in the
current directory or among the user's settings.
-/
namespace Schematron.Configuration

/-- The names of files of settings, in the order in which they are looked for. -/
def fileNames : List String :=
  ["schemanon.toml", "schemanon.json", ".schemanon.toml", ".schemanon.json"]

/-- Where a file of settings may be. -/
def candidates (env : Environment) : List String :=
  fileNames ++ match env.configDirectory? with
    | some d => fileNames.map (Path.join d)
    | none => []

/-- The file of settings, if there is one. -/
def filePath? (fs : FileSystem) (directory : String) (env : Environment) (a : Arguments) :
    Option String :=
  a.config.or ((candidates env).find? (fs.pathExists directory))

def load (fs : FileSystem) (directory : String) (env : Environment) (a : Arguments) :
    Except ConfigurationError Configuration := do
  let standard := standard env.cacheDirectory
  let file ← (filePath? fs directory env a).mapM (ofFile fs directory standard)
  layered standard file (← env.overrides) a

end Schematron.Configuration
