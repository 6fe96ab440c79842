import ForwardDecl.Edit.Desk

/-! # The support module

Declared classes need two decorators at run time.  The module that defines them
is put into the root of a tree, unless one is there already; its text is built
in, or taken from a template file with its permissions and times.
-/
namespace ForwardDecl
namespace SupportModule

/-- Where the module lives, relative to the root of a tree. -/
def path : String := "forward/__init__.py"

/-- The directory of the module, relative to the root of a tree. -/
def directory : String := "forward"

/-- The lines of the built-in module. -/
def templateLines : List String :=
  [
    "\"\"\"",
    "Runtime support for the forward declaration form written by forward-edit.",
    "",
    "    @forward()",
    "    class Foo(Base):",
    "        ...",
    "",
    "    @continue_(Foo)",
    "    class _____:",
    "        def method(self): ...",
    "",
    "forward() marks a class as forward-declared: instantiating it raises",
    "TypeError until a continue_() block has completed it. continue_() copies",
    "the members of the continuation block onto the forward-declared class.",
    "\"\"\"",
    "",
    "__version__ = \"1.0\"",
    "",
    "",
    "class _plain:",
    "    pass",
    "",
    "",
    "class _with_metaclass(_plain, metaclass=type):",
    "    pass",
    "",
    "",
    "_implicit_members = set(_plain.__dict__) | set(_with_metaclass.__dict__)",
    "_never_copied = \x7b\"__module__\", \"__qualname__\"\x7d",
    "",
    "",
    "def forward():",
    "    def forward(cls):",
    "        message = f\"\x7bcls.__name__\x7d is a forward-declared class\"",
    "",
    "        def __init__(self, *args, **kwargs):",
    "            raise TypeError(message)",
    "",
    "        cls.__forward__ = True",
    "        cls.__forward_original_init__ = cls.__dict__.get(\"__init__\")",
    "        cls.__forward_placeholder_init__ = __init__",
    "        cls.__init__ = __init__",
    "        return cls",
    "    return forward",
    "",
    "",
    "def _retarget_super(function, continuation, target):",
    "    # Zero-argument super() closes over __class__; point it at the real class.",
    "    closure = getattr(function, \"__closure__\", None)",
    "    freevars = getattr(getattr(function, \"__code__\", None), \"co_freevars\", ())",
    "    if not closure or \"__class__\" not in freevars:",
    "        return",
    "    cell = closure[freevars.index(\"__class__\")]",
    "    if cell.cell_contents is continuation:",
    "        cell.cell_contents = target",
    "",
    "",
    "def continue_(forward_cls):",
    "    if not (isinstance(forward_cls, type) and getattr(forward_cls, \"__forward__\", False)):",
    "        raise TypeError(f\"\x7bgetattr(forward_cls, '__name__', forward_cls)!r\x7d is not a forward-declared class\")",
    "",
    "    def continue_(continuation):",
    "        if not isinstance(continuation, type):",
    "            raise TypeError(f\"\x7bcontinuation!r\x7d is not a class\")",
    "        if continuation.__dict__.get(\"__forward__\"):",
    "            raise TypeError(f\"\x7bcontinuation.__name__\x7d must not be a forward-declared class\")",
    "",
    "        del forward_cls.__forward__",
    "        if forward_cls.__dict__.get(\"__init__\") is forward_cls.__forward_placeholder_init__:",
    "            original = forward_cls.__forward_original_init__",
    "            if original is None:",
    "                del forward_cls.__init__",
    "            else:",
    "                forward_cls.__init__ = original",
    "        del forward_cls.__forward_original_init__",
    "        del forward_cls.__forward_placeholder_init__",
    "",
    "        for name, value in continuation.__dict__.items():",
    "            if name == \"__doc__\" and not value:",
    "                continue",
    "            if name == \"__annotations__\":",
    "                existing = forward_cls.__dict__.get(\"__annotations__\")",
    "                if existing:",
    "                    existing.update(value)",
    "                    continue",
    "            elif name in _never_copied or name in _implicit_members:",
    "                continue",
    "            for candidate in (value, getattr(value, \"__func__\", None), getattr(value, \"fget\", None)):",
    "                if candidate is not None:",
    "                    _retarget_super(candidate, continuation, forward_cls)",
    "            setattr(forward_cls, name, value)",
    "",
    "        return forward_cls",
    "    return continue_",
    "",
    "",
    "__all__ = [\"forward\", \"continue_\"]"
  ]

/-- The text of the built-in module. -/
def template : String :=
  String.join (templateLines.map (· ++ "\n"))

/-- The bytes and permissions of a module to install: the built-in ones, or
those of the template file at a path. -/
def source (templatePath : String) : Edit (ByteArray × Nat) := do
  if templatePath = "" then return (template.toUTF8, defaultPerm)
  let node ← Edit.fileCall "runtime template" ((← Edit.files).stat templatePath)
  let bytes ← Edit.readIn "runtime template" templatePath
  return (bytes, node.perm)

/-- Install the module below a root, and say whether it was missing.  A dry run
only says so. -/
def install (root templatePath : String) (dryRun : Bool) : Edit Bool := do
  let target := Path.join root path
  if let .ok node := (← Edit.files).stat target then
    if !node.isDir then return false
  let (bytes, perm) ← source templatePath
  if dryRun then return true
  let context := "install runtime module"
  Edit.setFiles (← Edit.fileCall context ((← Edit.files).makeDirs (Path.join root directory)))
  Edit.setFiles (← Edit.fileCall context ((← Edit.files).write target bytes perm))
  if templatePath ≠ "" then
    if let .ok (accessed, modified) := (← Edit.files).times templatePath then
      Edit.setFiles ((← Edit.files).setTimes target accessed modified)
  return true

end SupportModule
end ForwardDecl
