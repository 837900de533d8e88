import ExprLang.Text.Decimal
import ExprLang.Text.Quoted

/-! Options on a command line.

    Each argument is first taken by itself. An argument that begins with a dash is an option if it
    is spelled like one, if it is spelled like one up to an equals sign, or if exactly one long
    option goes on from it; a short option may be followed by anything. A dash alone, a
    negative number, a text with a blank in it and every argument behind `--` are no options. -/

namespace ExprLang.CommandLine

/-- What is to be done with a source. -/
inductive Mode where
  | scan | parse | eval
  deriving DecidableEq, Repr

/-- The options. -/
inductive Opt where
  | help
  | mode (m : Mode)
  | dumpAst
  | viz
  | vizFormat
  | verbose
  deriving DecidableEq, Repr

namespace Opt

/-- The spellings of the options. -/
def spellings : List (String × Opt) :=
  [("-h", help), ("--help", help), ("--scan", mode .scan), ("--parse", mode .parse),
   ("--eval", mode .eval), ("--dump-ast", dumpAst), ("--viz", viz), ("--viz-format", vizFormat),
   ("--verbose", verbose), ("-v", verbose)]

/-- The option that is spelled so. -/
def ofSpelling? (s : String) : Option Opt := spellings.lookup s

/-- An option as the messages name it. -/
def title (o : Opt) : String :=
  "/".intercalate ((spellings.filter fun s => s.2 == o).map Prod.fst)

/-- An option that is followed by a value. -/
def takesValue : Opt → Bool
  | dumpAst | viz | vizFormat => true
  | help | mode _ | verbose => false

end Opt

/-- What is wrong with a command line. -/
inductive UsageError where
  | ambiguous (argument : String) (candidates : List String)
  | missingFile
  | unrecognized (arguments : List String)
  | conflict (option earlier : Opt)
  | missingValue (option : Opt)
  | unexpectedValue (option : Opt) (value : String)
  | requiresParse
  deriving DecidableEq, Repr

/-- The wording of what is wrong with a command line. -/
def UsageError.message : UsageError → String
  | ambiguous a cs => "ambiguous option: " ++ a ++ " could match " ++ ", ".intercalate cs
  | missingFile => "the following arguments are required: file"
  | unrecognized as => "unrecognized arguments: " ++ " ".intercalate as
  | conflict o e => "argument " ++ o.title ++ ": not allowed with argument " ++ e.title
  | missingValue o => "argument " ++ o.title ++ ": expected one argument"
  | unexpectedValue o v => "argument " ++ o.title ++ ": ignored explicit argument " ++ Text.quoted v
  | requiresParse => "--dump-ast and --viz require --parse"

/-- How an option is spelled: behind one dash with a letter, or behind two with a word. -/
inductive Form where
  | short
  | long
  deriving DecidableEq, Repr

/-- An argument taken by itself. A text may be attached to an option: behind an equals sign, or
    right behind a short spelling. -/
inductive Argument where
  | plain (text : String)
  | marker
  | option (o : Opt) (form : Form) (attached : Option String)
  | unknown (text : String)
  deriving DecidableEq, Repr

namespace Argument

/-- How an argument that begins with a dash is spelled if it is an option. -/
def formOf (s : String) : Form := if "--".isPrefixOf s then .long else .short

/-- A text cut at its first equals sign. -/
def cutAtEquals (s : String) : String × Option String :=
  let cs := s.toList
  match cs.dropWhile (· != '=') with
  | [] => (s, none)
  | _ :: value => (String.ofList (cs.takeWhile (· != '=')), some (String.ofList value))

/-- Digits behind a minus sign, with or without a point in front of some of them. One newline may
    follow. -/
def isNegativeNumber (s : String) : Bool :=
  let digits := fun (cs : List Char) => !cs.isEmpty && cs.all Text.isDecimalDigit
  let number := fun (cs : List Char) =>
    match cs with
    | '-' :: cs =>
      digits cs ||
        match cs.dropWhile Text.isDecimalDigit with
        | '.' :: fraction => digits fraction
        | _ => false
    | _ => false
  let cs := s.toList
  number cs || (cs.getLast? == some '\n' && number cs.dropLast)

/-- The options that an argument may be meant for when it is none as it is: the long ones that go
    on from it, or the short one that it begins with. -/
def candidates (s : String) : List (String × Argument) :=
  match formOf s with
  | .long =>
    let (start, attached) := cutAtEquals s
    (Opt.spellings.filter fun p => start.isPrefixOf p.1).map fun p =>
      (p.1, .option p.2 .long attached)
  | .short =>
    let letter := String.ofList (s.toList.take 2)
    match Opt.ofSpelling? letter with
    | some o => [(letter, .option o .short (some (String.ofList (s.toList.drop 2))))]
    | none => []

/-- An argument that begins with a dash and is not spelled like an option. -/
def guess (s : String) : Except UsageError Argument :=
  match candidates s with
  | [c] => .ok c.2
  | [] => .ok (if isNegativeNumber s || s.toList.contains ' ' then .plain s else .unknown s)
  | cs => .error (.ambiguous s (cs.map Prod.fst))

/-- What an argument is by itself. -/
def ofText (s : String) : Except UsageError Argument :=
  if s.toList.head? != some '-' then .ok (.plain s)
  else
    match Opt.ofSpelling? s with
    | some o => .ok (.option o (formOf s) none)
    | none =>
      if s = "-" then .ok (.plain s)
      else
        let (spelling, attached) := cutAtEquals s
        match Opt.ofSpelling? spelling with
        | some o => .ok (.option o (formOf s) attached)
        | none => guess s

/-- What the arguments are, each by itself. -/
def ofTexts : List String → Except UsageError (List Argument)
  | [] => .ok []
  | s :: ss =>
    if s = "--" then .ok (.marker :: ss.map plain)
    else do
      let a ← ofText s
      let as ← ofTexts ss
      pure (a :: as)

end Argument
end ExprLang.CommandLine
