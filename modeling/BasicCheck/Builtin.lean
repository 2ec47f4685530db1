import BasicCheck.Text.LetterCase

/-!
# Built-in names

The names that every procedure knows without declaring them: system variables, which open with an
`@`, and intrinsic functions. Both are known without regard to case.
-/

namespace BasicCheck.Builtin

/-- The system variables, in small letters. -/
def systemVariables : List String :=
  ["@account", "@ans", "@appid", "@cursors", "@date", "@dict", "@environ.set", "@file.error",
    "@file_error", "@files", "@fm", "@id", "@language", "@list.active", "@lower.case", "@lptr",
    "@mdiactive", "@mdiframe", "@mv", "@page", "@pri.file", "@query_dict", "@reccount", "@record",
    "@rm", "@rn.counter", "@station", "@stm", "@svm", "@tables", "@time", "@tm", "@upper.case",
    "@user0", "@user1", "@user2", "@user3", "@user4", "@username", "@vm", "@window"]

/-- The functions that need no declaration, in small letters. -/
def intrinsics : List String :=
  ["abs", "alpha", "ansi_unicode", "assigned", "atan", "bitand", "bitnot", "bitor", "bitxor",
    "char", "checksum", "col1", "col2", "convert", "cos", "count", "date", "dcount", "delete",
    "dquote", "exp", "extract", "field", "fieldstore", "fmt", "get_property", "iconv", "index",
    "indexc", "inlist", "insert", "int", "isevent", "lcase", "len", "lower", "mod", "not", "num",
    "oconv", "quote", "raise", "rem", "remove", "replace", "retstack", "rnd", "send_message", "seq",
    "serial", "set_property", "sin", "space", "sqrt", "squote", "str", "sum", "swap", "tan", "time",
    "timedate", "trim", "trimb", "trimf", "ucase", "unassigned", "unicode_ansi", "xlate"]

/-- Whether a name, the `@` included, is a system variable. -/
def isSystemVariable (name : String) : Bool :=
  systemVariables.contains (Text.fold name)

/-- Whether a name is that of an intrinsic function. -/
def isIntrinsic (name : String) : Bool :=
  intrinsics.contains (Text.fold name)

end BasicCheck.Builtin
