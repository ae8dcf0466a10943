import Schematron.Proofs.Batch.Scheduling
import Schematron.Main
import Schematron.Proofs.Execution.Scoping
import Schematron.Proofs.Execution.Independence
import Schematron.Proofs.Report.Saved
import Schematron.Proofs.Engine.Verdict
import Schematron.Proofs.Compilation.Validators
import Schematron.Proofs.Execution.Firing
import Schematron.Proofs.Execution.FailedAssertions
import Schematron.Proofs.Compilation.Phases
import Schematron.Proofs.Compilation.Completeness
import Schematron.Proofs.Execution.Phases
import Schematron.Proofs.Expansion.Interference
import Schematron.Proofs.Expansion.Substitution
import Schematron.Proofs.Expansion.NormalForm
import Schematron.Proofs.Inclusion.Composition
import Schematron.Proofs.Embedded.Standalone
import Schematron.Proofs.Engine.Preparation
import Schematron.Proofs.Engine.Admission
import Schematron.Proofs.Engine.Sessions
import Schematron.Proofs.Cache.Tiers
import Schematron.Proofs.Cache.Provenance
import Schematron.Proofs.Cache.Expiry
import Schematron.Proofs.Program.Setup
import Schematron.Proofs.Xml.Scanned
import Schematron.Proofs.Xml.Scopes
import Schematron.Proofs.Xml.Outline
import Schematron.Proofs.Xml.Parsed
import Schematron.Proofs.Xml.Rewriting
import Schematron.Proofs.Selection.Branches
import Schematron.Proofs.Inclusion.Fragments
import Schematron.Proofs.Cache.Lifetimes
import Schematron.Proofs.Cache.Purging
import Schematron.Proofs.Configuration.Layering
import Schematron.Proofs.Files.InputList
import Schematron.Proofs.Batch.JsonLines
import Schematron.Proofs.Network.Requests
import Schematron.Proofs.Network.Backoff
import Schematron.Proofs.Xml.Edits
