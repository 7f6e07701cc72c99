import Reckoner.Text.Digit
import Reckoner.Text.Quoted

/-!
# Command line options

Arguments are options and at most one source. Long options may be shortened to any unambiguous
beginning, and a double hyphen ends the options. Short options may be joined behind one hyphen,
where an equals sign may follow the first of them. No option takes a value. A word that starts with
a hyphen is no option if it is a lone hyphen, looks like a negative number, or holds a blank and
is not the beginning of an option.
-/

namespace Reckoner.Command

/-- The options. -/
inductive Flag
  | help
  | string
  | tokens
  | ast
  | pretty
  | repl
  | verbose
  deriving DecidableEq, Repr

namespace Flag

/-- All options in the order in which they are listed. -/
def all : List Flag :=
  [.help, .string, .tokens, .ast, .pretty, .repl, .verbose]

/-- The short letter of an option. -/
def letter? : Flag → Option Char
  | .help => some 'h'
  | .string => some 's'
  | .pretty => some 'p'
  | _ => none

/-- The long form of an option. -/
def long : Flag → String
  | .help => "--help"
  | .string => "--string"
  | .tokens => "--tokens"
  | .ast => "--ast"
  | .pretty => "--pretty"
  | .repl => "--repl"
  | .verbose => "--verbose"

/-- The name of an option in messages: its short and its long form. -/
def label (flag : Flag) : String :=
  match flag.letter? with
  | some letter => "-" ++ String.singleton letter ++ "/" ++ flag.long
  | none => flag.long

/-- The option with the given letter. -/
def ofLetter? (letter : Char) : Option Flag :=
  all.find? fun flag => flag.letter? == some letter

/-- The options whose long form starts with the given text. -/
def startingWith (beginning : List Char) : List Flag :=
  all.filter fun flag => beginning.isPrefixOf flag.long.toList

end Flag

/-- Why arguments are refused. -/
inductive UsageError
  /-- An argument shortens more than one option. -/
  | ambiguous (argument : String) (flags : List Flag)
  /-- An option was given a value and takes none. -/
  | ignoredValue (flag : Flag) (value : String)
  /-- Two options exclude each other. -/
  | conflict (flag earlier : Flag)
  /-- Arguments are left over. -/
  | unrecognized (arguments : List String)
  deriving DecidableEq, Repr

/-- The wording of an error. -/
def UsageError.message : UsageError → String
  | .ambiguous argument flags =>
    "ambiguous option: " ++ argument ++ " could match " ++ ", ".intercalate (flags.map Flag.long)
  | .ignoredValue flag value =>
    "argument " ++ flag.label ++ ": ignored explicit argument " ++ Text.quoted value
  | .conflict flag earlier =>
    "argument " ++ flag.label ++ ": not allowed with argument " ++ earlier.label
  | .unrecognized arguments => "unrecognized arguments: " ++ " ".intercalate arguments

/-! ## Single arguments -/

/-- What an argument before the end of the options is. -/
inductive Argument
  /-- Not an option. -/
  | plain (text : String)
  /-- A long option, perhaps with a value. -/
  | long (flag : Flag) (value? : Option String)
  /-- A short option, perhaps with what is joined to it. -/
  | short (flag : Flag) (joined? : Option (List Char))
  /-- An option that does not exist. -/
  | unknown (text : String)
  deriving DecidableEq, Repr

/-- Whether a list is one or more decimal digits. -/
def isDigits (cs : List Char) : Bool :=
  !cs.isEmpty && cs.all Text.isDecimal

/-- Whether a word looks like a negative number; one newline may follow it. -/
def looksNegative : List Char → Bool
  | '-' :: rest =>
    let body := if rest.getLast? == some '\n' then rest.dropLast else rest
    isDigits body ||
      match body.span Text.isDecimal with
      | (_, '.' :: fraction) => isDigits fraction
      | _ => false
  | _ => false

/-- Splits a word at its first equals sign. -/
def splitValue (word : List Char) : List Char × Option String :=
  match word.span (· != '=') with
  | (name, []) => (name, none)
  | (name, _ :: value) => (name, some (String.ofList value))

/-- An argument that shortens no option: some words with a hyphen are no options after all. -/
def withoutOption (word : List Char) : Argument :=
  let text := String.ofList word
  if looksNegative word || word.contains ' ' then .plain text else .unknown text

/-- What the characters after a short option join to it. An equals sign right after the option is
not part of that, so behind such a sign the joined text may be empty. -/
def joined? : List Char → Option (List Char)
  | [] => none
  | '=' :: rest => some rest
  | rest => some rest

/-- What an argument is. -/
def Argument.ofWord (word : List Char) : Except UsageError Argument :=
  match word with
  | '-' :: '-' :: _ =>
    let (name, value?) := splitValue word
    match Flag.all.find? fun flag => flag.long.toList == name with
    | some flag => .ok (.long flag value?)
    | none =>
      match Flag.startingWith name with
      | [] => .ok (withoutOption word)
      | [flag] => .ok (.long flag value?)
      | flags => .error (.ambiguous (String.ofList word) flags)
  | '-' :: letter :: joined =>
    match Flag.ofLetter? letter with
    | some flag => .ok (.short flag (joined? joined))
    | none => .ok (withoutOption word)
  | _ => .ok (.plain (String.ofList word))

/-- The options that the letters of a text stand for, the given option first. The text has to
consist of letters of options: from the first other character on it is a value, which the option
before that character does not take. -/
def cluster (flag : Flag) : List Char → Except UsageError (List Flag)
  | [] => .ok [flag]
  | letter :: rest =>
    match Flag.ofLetter? letter with
    | none => .error (.ignoredValue flag (String.ofList (letter :: rest)))
    | some next => (cluster next rest).map (flag :: ·)

/-! ## All arguments -/

/-- The choices made on a command line. -/
structure Options where
  string : Bool
  tokens : Bool
  ast : Bool
  pretty : Bool
  repl : Bool
  verbose : Bool
  source? : Option String
  deriving DecidableEq, Repr

/-- The choices when nothing is given. -/
def Options.default : Options :=
  ⟨false, false, false, false, false, false, none⟩

/-- What a command line asks for. -/
inductive Request
  | help
  | options (options : Options)
  deriving DecidableEq, Repr

/-- Why reading arguments stops early. -/
inductive Halt
  | help
  | usage (error : UsageError)

/-- The arguments read so far. -/
structure Progress where
  options : Options
  /-- Arguments that could not be used. -/
  extras : List String
  /-- Whether the source was the last argument. -/
  fresh : Bool

namespace Progress

/-- Adds an option. -/
def set (p : Progress) (flag : Flag) : Except Halt Progress :=
  let o := p.options
  match flag with
  | .help => .error .help
  | .string => .ok { p with options := { o with string := true } }
  | .tokens =>
    if o.ast then .error (.usage (.conflict .tokens .ast))
    else .ok { p with options := { o with tokens := true } }
  | .ast =>
    if o.tokens then .error (.usage (.conflict .ast .tokens))
    else .ok { p with options := { o with ast := true } }
  | .pretty => .ok { p with options := { o with pretty := true } }
  | .repl => .ok { p with options := { o with repl := true } }
  | .verbose => .ok { p with options := { o with verbose := true } }

/-- Adds options in order. -/
def setAll (p : Progress) : List Flag → Except Halt Progress
  | [] => .ok p
  | flag :: flags =>
    match p.set flag with
    | .ok q => q.setAll flags
    | .error halt => .error halt

/-- Adds an argument that is no option: the first is the source. -/
def addPlain (p : Progress) (text : String) : Progress :=
  match p.options.source? with
  | none => { p with options := { p.options with source? := some text }, fresh := true }
  | some _ => { p with extras := p.extras ++ [text], fresh := false }

/-- Adds an argument. -/
def add (p : Progress) : Argument → Except Halt Progress
  | .plain text => .ok (p.addPlain text)
  | .unknown text => .ok { p with extras := p.extras ++ [text], fresh := false }
  | .long flag (some value) => .error (.usage (.ignoredValue flag value))
  | .long flag none => { p with fresh := false }.setAll [flag]
  | .short flag none => { p with fresh := false }.setAll [flag]
  | .short flag (some []) => .error (.usage (.ignoredValue flag ""))
  | .short flag (some joined) =>
    match cluster flag joined with
    | .ok flags => { p with fresh := false }.setAll flags
    | .error e => .error (.usage e)

/-- Adds arguments in order. -/
def addAll (p : Progress) : List Argument → Except Halt Progress
  | [] => .ok p
  | argument :: arguments =>
    match p.add argument with
    | .ok q => q.addAll arguments
    | .error halt => .error halt

/-- Adds the arguments after the end of the options. The double hyphen itself is left over if the
source was given earlier than right before it. -/
def addRest (p : Progress) (rest : List String) : Progress :=
  if p.options.source?.isNone || p.fresh then rest.foldl addPlain p
  else { p with extras := p.extras ++ "--" :: rest }

end Progress

/-- Reads single arguments. -/
def classify : List String → Except UsageError (List Argument)
  | [] => .ok []
  | word :: words =>
    match Argument.ofWord word.toList with
    | .error e => .error e
    | .ok argument =>
      match classify words with
      | .ok arguments => .ok (argument :: arguments)
      | .error e => .error e

/-- Reads the arguments of a command. -/
def Request.ofArguments (words : List String) : Except UsageError Request :=
  let before := words.takeWhile (· != "--")
  let rest? := (words.dropWhile (· != "--")).tail?
  match classify before with
  | .error e => .error e
  | .ok arguments =>
    match (⟨Options.default, [], false⟩ : Progress).addAll arguments with
    | .error .help => .ok .help
    | .error (.usage e) => .error e
    | .ok p =>
      let p :=
        match rest? with
        | some rest => p.addRest rest
        | none => p
      if p.extras.isEmpty then .ok (.options p.options) else .error (.unrecognized p.extras)

/-! ## Texts -/

/-- How the command is used, in one line. -/
def usage : String :=
  "usage: tally [-h] [-s] [--tokens | --ast] [-p] [--repl] [--verbose] [source]\n"

/-- The text that the help option shows. -/
def helpText : String :=
  usage ++
  "\n" ++
  "positional arguments:\n" ++
  "  source        Filename or raw source (with -s)\n" ++
  "\n" ++
  "options:\n" ++
  "  -h, --help    show this help message and exit\n" ++
  "  -s, --string  Interpret source as literal string\n" ++
  "  --tokens      Print the token stream and exit\n" ++
  "  --ast         Print the parsed AST as JSON and exit\n" ++
  "  -p, --pretty  Show output with banners\n" ++
  "  --repl        Launch interactive REPL instead of running a program\n" ++
  "  --verbose     Enable debug logging\n"

/-- What is shown for arguments that are refused. -/
def UsageError.report (e : UsageError) : String :=
  usage ++ "tally: error: " ++ e.message ++ "\n"

end Reckoner.Command
