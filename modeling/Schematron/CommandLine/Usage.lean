import Schematron.CommandLine.Parser

/-!
# Usage

What the program says instead of running.
-/
namespace Schematron.CommandLine

def version : String := "schemanon 0.3.0"

def usage : String := "\n".intercalate [
  "Usage: schemanon [OPTIONS] <SCHEMA> [INPUT] [EXTENSIONS]...",
  "",
  "Arguments:",
  "  <SCHEMA>         URL or path of the schema",
  "  [INPUT]          File or directory to validate; else a list of files is read",
  "  [EXTENSIONS]...  Endings of the files to validate in a directory",
  "",
  "Options:",
  "  -p, --phase <PHASE>                    Phase of the rules",
  "  -s, --svrl                             Save the report of each document",
  "  -q, --quiet                            No output for documents",
  "  -i, --progress                         Count the documents",
  "  -t, --threads <THREADS>                Number of documents at a time",
  "  -v, --verbose                          Context and test of each message",
  "      --format <human|json>              Format of the results",
  "      --config <CONFIG>                  File of settings",
  "      --cache-dir <CACHE_DIR>            Directory for downloads",
  "      --cache-ttl <CACHE_TTL>            Hours for which downloads are kept",
  "      --no-cache                         Keep no downloads",
  "      --timeout <TIMEOUT>                Seconds to wait for an answer",
  "      --retry-attempts <RETRY_ATTEMPTS>  Number of retries of a download",
  "      --exclude <PATTERN>                Leave out what matches a pattern",
  "  -h, --help                             Print help",
  "  -V, --version                          Print version"]

namespace Refusal

def message : Refusal → String
  | .help => usage
  | .version => CommandLine.version
  | .unknownArgument => "error: unexpected argument"
  | .invalidValue => "error: invalid or missing value"
  | .malformedValue => "error: malformed value"
  | .tooManyValues => "error: unexpected value of a flag"
  | .conflict => "error: arguments that cannot be used together"
  | .missingArgument => "error: the schema is missing"

def isAnswer : Refusal → Bool
  | .help | .version => true
  | _ => false

def exitCode (r : Refusal) : Nat := if r.isAnswer then 0 else 2

end Refusal

end Schematron.CommandLine
