import RexxEditing.Text.Character

/-! # Vocabularies

The words that a REXX program gives a meaning to, in small letters and in alphabetical order, and
the three lists of them that a symbol is looked up in. REXX reserves no word; a word of the keyword
list is shown as a keyword wherever it stands. The case of ASCII letters does not matter.
-/

namespace RexxEditing

/-! ## Words -/

namespace Vocabulary

/-- The instruction keywords and their sub-keywords. -/
def keywordList : List String := [
  "address", "arg", "by", "call", "digits", "do", "drop", "else", "end", "engineering", "exit",
  "expose", "for", "forever", "form", "fuzz", "if", "interpret", "iterate", "leave", "loop",
  "nop", "numeric", "off", "on", "options", "otherwise", "parse", "procedure", "pull", "push",
  "queue", "return", "say", "scientific", "select", "signal", "source", "then", "to", "trace",
  "until", "upper", "value", "var", "version", "when", "while", "with"]

/-- The names of the built-in functions. -/
def builtinList : List String := [
  "abbrev", "abs", "address", "arg", "b2x", "bitand", "bitor", "bitxor", "c2d", "c2x", "center",
  "centre", "changestr", "charin", "charout", "chars", "compare", "condition", "copies",
  "countstr", "d2c", "d2x", "datatype", "date", "delstr", "delword", "digits", "errortext",
  "externals", "find", "form", "format", "fuzz", "index", "insert", "justify", "lastpos", "left",
  "length", "linein", "lineout", "lines", "linesize", "max", "min", "overlay", "pos", "queued",
  "random", "reverse", "right", "sign", "sourceline", "space", "storage", "stream", "strip",
  "substr", "subword", "symbol", "time", "trace", "translate", "trunc", "userid", "value",
  "verify", "word", "wordindex", "wordlength", "wordpos", "words", "x2b", "x2c", "x2d", "xrange"]

/-- The names of the stages of CMS Pipelines. -/
def stageList : List String := [
  "abbrev", "addpipe", "addrdw", "aggrc", "all", "append", "asmcont", "asmfind", "asmnfind",
  "asmxpnd", "beat", "between", "block", "buffer", "casei", "change", "chop", "cms", "collate",
  "combine", "command", "console", "copy", "count", "cp", "deal", "deblock", "delay", "diskback",
  "diskrandom", "diskslow", "diskupdate", "drop", "duplicate", "elastic", "emsg", "eofback",
  "escape", "fanin", "faninany", "fanintwo", "fanout", "fanoutwo", "fblock", "fileback",
  "filedescriptor", "filelist", "filerandom", "fileslow", "filetoken", "fileupdate", "fillup",
  "find", "fitting", "fmtfst", "frlabel", "frtarget", "fullscr", "gate", "gather", "getfiles",
  "help", "hole", "hostbyaddr", "hostbyname", "hostid", "immcmd", "insert", "inside", "instore",
  "join", "juxtapose", "literal", "locate", "lookup", "maclib", "mdiskblk", "merge", "nfind",
  "nlocate", "noeofback", "not", "notinside", "outside", "outstore", "overlay", "overstr", "pack",
  "pad", "parcel", "pick", "pipcmd", "pipestop", "polish", "predselect", "preface", "qsam",
  "query", "random", "reader", "retab", "reverse", "rexx", "rexxvars", "scm", "sfsback",
  "sfsrandom", "sfsupdate", "snake", "sort", "space", "specs", "spill", "split", "stack",
  "starmsg", "state", "stem", "strfind", "strip", "strliteral", "strnfind", "strtolabel",
  "strwhilelabel", "subcom", "substring", "synchronise", "synchronize", "take", "tcpclient",
  "tcpdata", "tcplisten", "timestamp", "tokenise", "tokenize", "trfread", "udp", "unique",
  "unpack", "untab", "update", "var", "vardrop", "varfetch", "varload", "varset", "vchar",
  "whilelabel", "xedit", "xlate", "xpndhi", "xrange", "zone"]

end Vocabulary

/-! ## Word lists -/

/-- One of the word lists. -/
inductive Vocabulary where
  | keywords
  | builtins
  | stages
  deriving DecidableEq, Repr

namespace Vocabulary

/-- The vocabularies in the order in which they are listed. -/
def all : List Vocabulary := [keywords, builtins, stages]

/-- The words of the vocabulary, in small letters and alphabetical order. -/
def words : Vocabulary → List String
  | keywords => keywordList
  | builtins => builtinList
  | stages => stageList

/-- The name under which the vocabulary is listed. -/
def name : Vocabulary → String
  | keywords => "keywords"
  | builtins => "builtins"
  | stages => "stages"

/-! ## Looking up words -/

/-- The keywords as texts. -/
def keywordTexts : List Text := keywordList.map String.toList

/-- The built-in functions as texts. -/
def builtinTexts : List Text := builtinList.map String.toList

/-- The pipeline stages as texts. -/
def stageTexts : List Text := stageList.map String.toList

/-- The words of the vocabulary as texts. -/
def texts : Vocabulary → List Text
  | keywords => keywordTexts
  | builtins => builtinTexts
  | stages => stageTexts

/-- Whether the word is in the vocabulary, in any case of its ASCII letters. -/
def contains (v : Vocabulary) (word : Text) : Bool := v.texts.contains word.lower

/-! ## Naming vocabularies -/

/-- A name that no vocabulary has. -/
structure UnknownName where
  name : String
  deriving DecidableEq, Repr

/-- What to tell about an unknown name. -/
def UnknownName.message (e : UnknownName) : String :=
  s!"unknown vocabulary '{e.name}' (expected keywords, builtins or stages)"

/-- The vocabulary of a name, in the plural or the singular and in any case of its ASCII letters. -/
def ofName (name : String) : Except UnknownName Vocabulary :=
  let small := name.map Char.toLower
  if small = "keywords" ∨ small = "keyword" then .ok keywords
  else if small = "builtins" ∨ small = "builtin" then .ok builtins
  else if small = "stages" ∨ small = "stage" then .ok stages
  else .error ⟨name⟩

end Vocabulary

end RexxEditing
