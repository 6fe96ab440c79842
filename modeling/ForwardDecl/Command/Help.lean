/-! # Help

The text that explains the program to a person.
-/
namespace ForwardDecl

def helpLines : List String :=
  [
    "forward-edit - Add or remove forward class declarations in Python sources",
    "",
    "Converts",
    "",
    "    class Foo(Base):",
    "        a = 3",
    "",
    "into",
    "",
    "    @forward()",
    "    class Foo(Base):",
    "        ...",
    "    @continue_(Foo)",
    "    class _____:",
    "        a = 3",
    "",
    "and back. By default the direction is toggled: the first class declaration",
    "or \"from forward import *\" line found decides it.",
    "",
    "Usage:",
    "  forward-edit [OPTIONS] COMMAND [ARGS...]",
    "  forward-edit --mcp           Run as MCP server",
    "",
    "Options:",
    "  -h, --help           Show this help message",
    "  -v, --verbose        Trace every file and state change on stderr",
    "  --dry-run            Preview changes without modifying files",
    "  --config FILE        Path to configuration file",
    "  --mcp                Run as MCP server",
    "",
    "Commands:",
    "  file       Edit individual Python files",
    "  tree       Edit every Python file under one or more directories",
    "  checkout   Edit the configured subdirectory of a pinned source checkout",
    "  detect     Report which direction toggle would pick for files",
    "",
    "Mode flags (file, tree, checkout):",
    "  -a, --add            Add @forward() to class declarations that lack it",
    "  -r, --remove         Remove @forward() declarations",
    "  -t, --toggle         Detect the current state and flip it (default)",
    "",
    "Examples:",
    "  forward-edit file -a -i 12 -i Enum enum.py",
    "  forward-edit tree -t -d test -f lib2to3/tests/data/crlf.py -i enum.py:Enum Lib",
    "  forward-edit --dry-run tree --diff -r Lib",
    "  forward-edit checkout ~/src/cpython",
    "  forward-edit detect --json enum.py",
    "",
    "A file containing the line \"# hey, forward.tools.editor! ignore this file!\" is never modified.",
    "",
    "For more information, visit: https://github.com/thrawn01/forward-edit"
  ]

/-- The help text. -/
def helpText : String :=
  String.join (helpLines.map (· ++ "\n"))

end ForwardDecl
