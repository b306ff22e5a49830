/-!
# Command lines

A command line names one of five commands and gives its options and at most one
operand. It is read from left to right: first into tokens, which know which
options carry a value, then against what the command takes. Asking for help or
for the version counts as soon as it is met; whatever stands in front of it has
to be in order, and what follows is not looked at.

An option is written with two dashes, its value after an equals sign or as the
next word, and at most once at each level. After two dashes alone every word is
an operand. The option that names the settings may also stand in front of the
command; the one behind the command wins.

A value that is a word of its own is checked late: when the next option is met,
or at the end. In between there can be a command, so help about the command is
given even if the option right before it is not in order.
-/

namespace FilterTree.Command

/-! ## What can be asked for -/

/-- A command. -/
inductive Task where
  | list
  | describe
  | preflight
  | run
  | importLegacy
deriving DecidableEq, Repr

/-- An operand: its name, what it is, and whether it is the path of a file. -/
structure Operand where
  name : String
  about : String
  isPath : Bool
deriving DecidableEq, Repr

namespace Task

/-- Every command in order. -/
def all : List Task := [list, describe, preflight, run, importLegacy]

/-- Name of a command. -/
def name : Task → String
  | list => "list"
  | describe => "describe"
  | preflight => "preflight"
  | run => "run"
  | importLegacy => "import-legacy"

/-- What a command does. -/
def about : Task → String
  | list => "List the built-in filters"
  | describe => "Show a filter's parameters"
  | preflight => "Validate a pipeline against an empty data structure"
  | run => "Execute a pipeline and print the resulting data structure"
  | importLegacy => "Convert legacy filter parameters to current arguments"

/-- The operand of a command. -/
def operand? : Task → Option Operand
  | list => none
  | describe => some ⟨"filter", "Filter uuid or name", false⟩
  | preflight | run => some ⟨"pipeline", "Pipeline document (JSON)", true⟩
  | importLegacy => some ⟨"input", "Legacy parameter JSON object", true⟩

/-- Whether a command needs the option that names a filter. -/
def needsFilter (t : Task) : Bool := t == importLegacy

/-- The command with a name. -/
def ofName? (name : String) : Option Task := all.find? fun t => t.name == name

end Task

/-- What has been given to a command. -/
structure Given where
  config : Option String := none
  filter : Option String := none
  operand : Option String := none
  json : Bool := false
deriving DecidableEq, Repr

/-- What help is asked about. -/
inductive Topic where
  | program
  | task (task : Task)
  | help
deriving DecidableEq, Repr

/-- What a command line asks for. -/
inductive Request where
  | perform (task : Task) (given : Given)
  | showHelp (topic : Topic)
  | showVersion
  | misuse
deriving DecidableEq, Repr

/-! ## Tokens -/

/-- A piece of a command line. -/
inductive Token where
  | word (text : String)
  | operand (text : String)
  | flag (name : String)
  /-- An option with its value, which is attached to it or the next word. -/
  | setting (name value : String) (attached : Bool)
  /-- Two dashes alone. -/
  | separator
  | unreadable
deriving DecidableEq, Repr

/-- Whether a word can only be an option. -/
def isOption (word : String) : Bool := "-".toList.isPrefixOf word.toList && word != "-"

/-- Names of the options that carry a value. -/
def valued : List String := ["config", "filter"]

/-- Name and attached value of a long option. -/
def splitOption? (word : String) : Option (String × Option String) :=
  match word.toList with
  | '-' :: '-' :: cs =>
    let name := String.ofList (cs.takeWhile (· ≠ '='))
    match cs.dropWhile (· ≠ '=') with
    | [] => some (name, none)
    | _ :: value => some (name, some (String.ofList value))
  | _ => none

/-- The flag that a word with one dash begins with. -/
def shortFlag (word : String) : Token :=
  match word.toList with
  | '-' :: 'h' :: _ => .flag "help"
  | '-' :: 'V' :: _ => .flag "version"
  | _ => .unreadable

/-- An option that has its value attached, or carries none. -/
def optionToken : String × Option String → Token
  | (name, some value) => if valued.contains name then .setting name value true else .unreadable
  | (name, none) => if valued.contains name then .unreadable else .flag name

/-- Cut a command line into tokens. -/
def tokens : List String → List Token
  | [] => []
  | "--" :: rest => .separator :: rest.map .operand
  | word :: rest =>
    if !isOption word then .word word :: tokens rest
    else match splitOption? word with
      | none => shortFlag word :: tokens rest
      | some (name, none) =>
        if valued.contains name then
          match rest with
          | value :: rest =>
            (if isOption value then .unreadable else .setting name value false) :: tokens rest
          | [] => [.unreadable]
        else .flag name :: tokens rest
      | some option => optionToken option :: tokens rest

/-! ## Reading -/

/-- Take an operand; there is room for one, and a path is not empty. -/
def Given.takeOperand? (g : Given) (task : Task) (text : String) : Option Given :=
  match task.operand?, g.operand with
  | some operand, none =>
    if operand.isPath && text.isEmpty then none else some { g with operand := some text }
  | _, _ => none

/-- Take the path of the settings; it may be given once and is not empty. -/
def Given.takeConfig? (g : Given) (path : String) : Option Given :=
  if g.config.isSome || path.isEmpty then none else some { g with config := some path }

/-- Take an option with a value; each may be given once. -/
def Given.takeSetting? (g : Given) (task : Task) (name value : String) : Option Given :=
  match name with
  | "config" => g.takeConfig? value
  | "filter" =>
    if g.filter.isSome || !task.needsFilter then none else some { g with filter := some value }
  | _ => none

/-- Whether a command was given all that it needs. -/
def Given.isComplete (g : Given) (task : Task) : Bool :=
  (task.operand?.isNone || g.operand.isSome) && (!task.needsFilter || g.filter.isSome)

/-- Read what follows the name of a command. -/
def readTask (task : Task) : Given → List Token → Request
  | g, [] => if g.isComplete task then .perform task g else .misuse
  | g, .word text :: rest | g, .operand text :: rest =>
    match g.takeOperand? task text with
    | some g => readTask task g rest
    | none => .misuse
  | g, .setting name value _ :: rest =>
    match g.takeSetting? task name value with
    | some g => readTask task g rest
    | none => .misuse
  | g, .flag name :: rest =>
    if name = "help" then .showHelp (.task task)
    else if name = "json" && !g.json then readTask task { g with json := true } rest
    else .misuse
  | g, .separator :: rest => readTask task g rest
  | _, .unreadable :: _ => .misuse

/-- Read what follows the word that asks for help. -/
def readTopic : List Token → Request
  | [] => .showHelp .program
  | [.word "help"] => .showHelp .help
  | [.word name] =>
    match Task.ofName? name with
    | some task => .showHelp (.task task)
    | none => .misuse
  | _ => .misuse

/--
A request behind what was given in front of the command. Settings given there count
where none are given behind it; if they are not in order, nothing can be carried out.
-/
def Request.behind (outer : Option Given) : Request → Request
  | perform task g =>
    match outer with
    | some o => perform task { g with config := g.config.or o.config }
    | none => misuse
  | r => r

/--
Read a command line from the name of the command on or from an option in front of it.
What was given so far is `none` if the last value turned out not to be in order and is
yet to be checked.
-/
def readLine : Option Given → List Token → Request
  | _, [] => .misuse
  | _, .word "help" :: rest => readTopic rest
  | outer, .word name :: rest =>
    match Task.ofName? name with
    | some task => (readTask task {} rest).behind outer
    | none => .misuse
  | some g, .setting "config" value attached :: rest =>
    let outer := g.takeConfig? value
    if attached && outer.isNone then .misuse else readLine outer rest
  | some _, .flag name :: _ =>
    if name = "help" then .showHelp .program
    else if name = "version" then .showVersion
    else .misuse
  | _, _ => .misuse

/-- What a command line asks for. -/
def Request.ofArguments (arguments : List String) : Request := readLine (some {}) (tokens arguments)

/-! ## Help -/

/-- Name of the program. -/
def programName : String := "strata"

/-- What the program says about its version. -/
def versionText : String := programName ++ " 0.1.0\n"

/-- A block of lines in two columns under a heading. -/
def helpBlock (heading : String) (rows : List (String × String)) : String :=
  let width := rows.foldl (fun w row => max w row.1.length) 0
  let line (row : String × String) : String :=
    "  " ++ row.1 ++ String.ofList (List.replicate (width + 2 - row.1.length) ' ') ++ row.2 ++ "\n"
  "\n" ++ heading ++ ":\n" ++ String.join (rows.map line)

/-- The option that names the settings. -/
def configRow : String × String := ("    --config <config>", "Runner configuration (TOML)")

/-- The option that asks for help. -/
def helpRow : String × String := ("-h, --help", "Print help")

/-- What the word that asks for help does. -/
def helpAbout : String := "Print this message or the help of the given subcommand(s)"

/-- Help about the whole program. -/
def programHelp : String :=
  "Preflight and execute Strata filter pipelines\n\nUsage: " ++ programName
    ++ " [OPTIONS] <COMMAND>\n"
    ++ helpBlock "Commands" (Task.all.map (fun t => (t.name, t.about)) ++ [("help", helpAbout)])
    ++ helpBlock "Options" [configRow, helpRow, ("-V, --version", "Print version")]

/-- Help about a command. -/
def taskHelp (t : Task) : String :=
  let operand := t.operand?.toList
  let filter := if t.needsFilter then " --filter <filter>" else ""
  let filterRow := if t.needsFilter then [("    --filter <filter>", "Filter uuid or name")] else []
  let bracketed (o : Operand) : String := "<" ++ o.name ++ ">"
  t.about ++ "\n\nUsage: " ++ programName ++ " " ++ t.name ++ " [OPTIONS]" ++ filter
    ++ String.join (operand.map fun o => " " ++ bracketed o) ++ "\n"
    ++ String.join (operand.map fun o => helpBlock "Arguments" [(bracketed o, o.about)])
    ++ helpBlock "Options" (configRow :: filterRow ++ [("    --json", "Output as JSON"), helpRow])

/-- The help about a topic. -/
def Topic.text : Topic → String
  | program => programHelp
  | task t => taskHelp t
  | help =>
    helpAbout ++ "\n\nUsage: " ++ programName ++ " help [COMMAND]...\n"
      ++ helpBlock "Arguments" [("[COMMAND]...", "Print help for the subcommand(s)")]

end FilterTree.Command
