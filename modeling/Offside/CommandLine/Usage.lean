import Offside.Config
import Offside.Scanner
/-!
# The options of the command line

Which options there are, how each is written, and the texts that tell a user about them.
-/
namespace Offside
namespace CommandLine

inductive Flag where
  | help
  | variant
  | policy
  | indentUnit
  | tree
  | verbose
deriving DecidableEq, Repr

namespace Flag

def spellings : List (String × Flag) :=
  [("-h", .help), ("--help", .help), ("--variant", .variant), ("--policy", .policy),
   ("--indent-unit", .indentUnit), ("--tree", .tree), ("-v", .verbose), ("--verbose", .verbose)]

def ofSpelling? (s : String) : Option Flag :=
  spellings.lookup s

def takesValue : Flag → Bool
  | .variant | .policy | .indentUnit => true
  | .help | .tree | .verbose => false

/-- The name of an option in a report: every way to write it. -/
def label (f : Flag) : String :=
  String.intercalate "/" ((spellings.filter (fun p => p.2 == f)).map Prod.fst)

end Flag

/-- The variants' names in the order of the alphabet. -/
def variantNames : List String :=
  ["ignore", "space", "spaces"]

def policyNames : List String :=
  Policy.all.map Policy.name

def usageText : String :=
  "usage: dentlark [-h] [--variant \x7bignore,space,spaces\x7d]\n" ++
  "                [--policy \x7bbefore,after,skip\x7d] [--indent-unit INDENT_UNIT]\n" ++
  "                [--tree] [-v]\n" ++
  "                input_file\n"

def helpText : String :=
  usageText ++
  "\n" ++
  "Print the token stream of a file with INDENT/DEDENT tokens added.\n" ++
  "\n" ++
  "positional arguments:\n" ++
  "  input_file            Path to the input file\n" ++
  "\n" ++
  "options:\n" ++
  "  -h, --help            show this help message and exit\n" ++
  "  --variant \x7bignore,space,spaces\x7d\n" ++
  "                        Built-in scanner used to lex the file (default: space)\n" ++
  "  --policy \x7bbefore,after,skip\x7d\n" ++
  "                        Placement of whitespace tokens relative to\n" ++
  "                        INDENT/DEDENT (default: after)\n" ++
  "  --indent-unit INDENT_UNIT\n" ++
  "                        Columns per indentation level (default: inferred from\n" ++
  "                        the first indent)\n" ++
  "  --tree                Parse the file as an outline and print its entries\n" ++
  "  -v, --verbose         Show debug logging and tracebacks on errors\n" ++
  "\n" ++
  "Examples:\n" ++
  "  dentlark notes.txt                   # Token stream, one WS token per blank run\n" ++
  "  dentlark notes.txt --variant ignore  # Whitespace dropped, indents from columns\n" ++
  "  dentlark notes.txt --policy skip     # Drop whitespace tokens from the output\n" ++
  "  dentlark notes.txt --indent-unit 4   # Require multiples of 4 columns\n" ++
  "  dentlark notes.txt --tree            # Print the parsed outline instead\n" ++
  "        \n"

end CommandLine
end Offside
