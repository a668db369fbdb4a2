import RowStore.Sizing

/-!
# The Command Line

What a run of the workload is told, and how it is told on the command line.

An argument that starts with two dashes names an option in full, one that starts
with a single dash names options by their letters. The value of an option is
what follows it at once, after an equals sign or, for a letter, without one; else
it is the next argument, which must not start with a dash unless it is only a
dash. An option that takes no value must not be given one, and no option may be
given twice. Arguments that belong to no option are refused.

The arguments are read from left to right. Whatever first keeps the run from
starting decides: a request for help or for the version, or a mistake.

## Main definitions

* `Options`: What a run is told.
* `Setting`: The options by name.
* `Word`: What an argument looks like.
* `Options.parse`: Reading the arguments.
* `Stop`: Why no run is started.
-/

namespace RowStore

/-- What a run of the workload is told. -/
structure Options where
  dataDir : String := "./rowstore_data"
  sizing : Sizing := {}
  rowWidth : Nat := 64
  workers : Nat := 4
  transactions : Nat := 100
  rowsPerTxn : Nat := 8
  abortPercent : Nat := 10
  seed : Nat := 42
  debug : Bool := false
  deriving DecidableEq, Repr

/-- What an option is about. -/
inductive Setting
  | dataDir
  | poolPages
  | pageSize
  | rowWidth
  | threads
  | transactions
  | rowsPerTxn
  | abortPercent
  | seed
  | debug
  | help
  | version
  deriving DecidableEq, Repr

namespace Setting

/-- All settings, in the order in which the help lists them. -/
def all : List Setting :=
  [.dataDir, .poolPages, .pageSize, .rowWidth, .threads, .transactions, .rowsPerTxn, .abortPercent,
    .seed, .debug, .help, .version]

/-- The name after two dashes. -/
def name : Setting → String
  | .dataDir => "data-dir"
  | .poolPages => "pool-pages"
  | .pageSize => "page-size"
  | .rowWidth => "row-width"
  | .threads => "threads"
  | .transactions => "transactions"
  | .rowsPerTxn => "rows-per-txn"
  | .abortPercent => "abort-percent"
  | .seed => "seed"
  | .debug => "debug"
  | .help => "help"
  | .version => "version"

/-- The letter after a single dash, if there is one. -/
def letter : Setting → Option Char
  | .dataDir => some 'D'
  | .poolPages => some 'p'
  | .rowWidth => some 'r'
  | .threads => some 't'
  | .transactions => some 'n'
  | .debug => some 'd'
  | .help => some 'h'
  | .version => some 'V'
  | .pageSize | .rowsPerTxn | .abortPercent | .seed => none

/-- Whether a value goes with it. -/
def takesValue : Setting → Bool
  | .debug | .help | .version => false
  | _ => true

/-- What it sets, for the help. -/
def purpose : Setting → String
  | .dataDir => "Data directory"
  | .poolPages => "Pages kept in memory"
  | .pageSize => "Page size in bytes"
  | .rowWidth => "Row width in bytes"
  | .threads => "Workers at a time"
  | .transactions => "Transactions per worker"
  | .rowsPerTxn => "Rows inserted by each transaction"
  | .abortPercent => "Chance, in percent, that a transaction is rolled back"
  | .seed => "Seed of the random choices"
  | .debug => "Report the size of the table before the run"
  | .help => "Show this help"
  | .version => "Show the version"

/-- The setting of a name. -/
def ofName? (text : String) : Option Setting := all.find? fun s => s.name = text

/-- The setting of a letter. -/
def ofLetter? (c : Char) : Option Setting := all.find? fun s => s.letter = some c

theorem ofName?_name (s : Setting) : ofName? s.name = some s := by
  cases s <;> decide

end Setting

/-- Mistakes on a command line. -/
inductive UsageError
  | unknown (option : String)
  | unexpected (argument : String)
  | valueMissing (setting : Setting)
  | valueRefused (setting : Setting) (text : String)
  | valueNeedless (setting : Setting) (text : String)
  | givenTwice (setting : Setting)
  deriving DecidableEq, Repr

/-- How a mistake reads. -/
def UsageError.message : UsageError → String
  | .unknown option => s!"unknown option '{option}'"
  | .unexpected argument => s!"unexpected argument '{argument}'"
  | .valueMissing s => s!"a value is missing for --{s.name}"
  | .valueRefused s text => s!"the value '{text}' makes no sense for --{s.name}"
  | .valueNeedless s text => s!"--{s.name} takes no value but was given '{text}'"
  | .givenTwice s => s!"--{s.name} was given twice"

/-- Why no run is started. -/
inductive Stop
  | help
  | version
  | misused (cause : UsageError)
  deriving DecidableEq, Repr

/-- The exit status of a program that starts no run. -/
def Stop.status : Stop → Nat
  | .help | .version => 0
  | .misused _ => 2

/-- What an argument looks like. -/
inductive Word
  /-- Two dashes alone. No option follows. -/
  | divider
  | named (name : String) (value : Option String)
  | letters (letters : List Char)
  | plain (text : String)
  deriving DecidableEq, Repr

namespace Word

/-- Read two dashes and what follows them as a name and its value. -/
def ofName (text : List Char) : Word :=
  match text.dropWhile (· ≠ '=') with
  | [] => .named (String.ofList text) none
  | _ :: value => .named (String.ofList (text.takeWhile (· ≠ '='))) (some (String.ofList value))

/-- What an argument looks like. -/
def ofArgument (text : String) : Word :=
  match text.toList with
  | ['-', '-'] => .divider
  | '-' :: '-' :: rest => ofName rest
  | '-' :: c :: rest => .letters (c :: rest)
  | _ => .plain text

end Word

/-! ## Numbers -/

/-- The number that some decimal digits stand for. -/
def digits? (text : List Char) : Option Nat :=
  if text.isEmpty then none
  else if text.all fun c => '0' ≤ c && c ≤ '9' then
    some (text.foldl (fun n c => 10 * n + (c.toNat - '0'.toNat)) 0)
  else none

/-- A number of 64 bits. A plus sign may stand before it. -/
def word? (text : List Char) : Option Nat :=
  (digits? (if text.head? = some '+' then text.tail else text)).filter (· < UInt64.size)

/-- A number up to a hundred. Either sign may stand before it, so that zero can be negative. -/
def percent? (text : List Char) : Option Nat :=
  if text.head? = some '-' then (digits? text.tail).filter (· = 0)
  else (word? text).filter (· ≤ 100)

namespace Options

/-- The options with one of them set, if the value makes sense. -/
def set? (o : Options) (s : Setting) (text : String) : Option Options :=
  let word := word? text.toList
  match s with
  | .dataDir => if text.isEmpty then none else some { o with dataDir := text }
  | .poolPages => word.map fun n => { o with sizing := { o.sizing with frames := n } }
  | .pageSize => word.map fun n => { o with sizing := { o.sizing with pageSize := n } }
  | .rowWidth => word.map fun n => { o with rowWidth := n }
  | .threads => word.map fun n => { o with workers := n }
  | .transactions => word.map fun n => { o with transactions := n }
  | .rowsPerTxn => word.map fun n => { o with rowsPerTxn := n }
  | .abortPercent => (percent? text.toList).map fun n => { o with abortPercent := n }
  | .seed => word.map fun n => { o with seed := n }
  | .debug | .help | .version => none

/-- The options read so far, those that were given, and the one that waits for its value. -/
structure Reading where
  options : Options := {}
  given : List Setting := []
  awaiting : Option Setting := none

namespace Reading

/-- Take note that a setting was given. -/
def note (r : Reading) (s : Setting) : Except Stop Reading :=
  if r.given.contains s then .error (.misused (.givenTwice s))
  else .ok { r with given := s :: r.given, awaiting := none }

/-- A setting was given with a value. -/
def give (r : Reading) (s : Setting) (text : String) : Except Stop Reading := do
  let r ← r.note s
  match r.options.set? s text with
  | some options => .ok { r with options }
  | none => .error (.misused (.valueRefused s text))

/-- A setting was given that takes no value. -/
def mark (r : Reading) : Setting → Except Stop Reading
  | .help => .error .help
  | .version => .error .version
  | s => do
    let r ← r.note s
    .ok { r with options := { r.options with debug := true } }

/-- Settings given by a name. -/
def readName (r : Reading) (name : String) (value : Option String) : Except Stop Reading :=
  match Setting.ofName? name, value with
  | none, _ => .error (.misused (.unknown s!"--{name}"))
  | some s, none => if s.takesValue then .ok { r with awaiting := some s } else r.mark s
  | some s, some text =>
    if s.takesValue then r.give s text else .error (.misused (.valueNeedless s text))

/-- Settings given by letters. What follows the letter of one that takes a value is the value. -/
def readLetters (r : Reading) : List Char → Except Stop Reading
  | [] => .ok r
  | c :: rest =>
    match Setting.ofLetter? c with
    | none => .error (.misused (.unknown s!"-{c}"))
    | some s =>
      if s.takesValue then
        -- The rest of the argument is no letters any more.
        match rest with
        | [] => .ok { r with awaiting := some s }
        | '=' :: value => r.give s (String.ofList value)
        | value => r.give s (String.ofList value)
      else do (← r.mark s).readLetters rest

/-- The options, after all arguments. -/
def finish (r : Reading) : Except Stop Options :=
  match r.awaiting with
  | some s => .error (.misused (.valueMissing s))
  | none => .ok r.options

/-- Read the arguments one after the other. -/
def readAll (r : Reading) : List String → Except Stop Options
  | [] => r.finish
  | argument :: rest =>
    match r.awaiting, Word.ofArgument argument with
    | some s, .plain text => do (← r.give s text).readAll rest
    | some s, _ => .error (.misused (.valueMissing s))
    | none, .plain text => .error (.misused (.unexpected text))
    | none, .divider =>
      match rest with
      | [] => r.finish
      | text :: _ => .error (.misused (.unexpected text))
    | none, .named name value => do (← r.readName name value).readAll rest
    | none, .letters letters => do (← r.readLetters letters).readAll rest

end Reading

/-- Read the arguments of a command line. -/
def parse (arguments : List String) : Except Stop Options := Reading.readAll {} arguments

/-- The help for one setting. -/
def helpLine (s : Setting) : String :=
  let short := match s.letter with
    | some c => s!"-{c}, "
    | none => "    "
  let value := if s.takesValue then " <VALUE>" else ""
  let call := s!"  {short}--{s.name}{value}"
  call.pushn ' ' (32 - call.length) ++ s.purpose

/-- The help. -/
def help : String :=
  "\n".intercalate ("Runs concurrent transactions against one table\n" :: Setting.all.map helpLine)

end Options

end RowStore
