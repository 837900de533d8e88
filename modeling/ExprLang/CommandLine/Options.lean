import ExprLang.CommandLine.Argument

/-! Command lines.

    The first argument that is no option and no value of one names the file. Options come in any
    order, before it and after it, and the last of two values counts. Two modes exclude each other.
    What could not be used is refused once all is read and the file is known; what is attached to an
    option that has no use for it is refused at once. -/

namespace ExprLang.CommandLine

/-- What a command line asks for. An empty path asks for no output, and without a format nothing can
    be drawn. -/
structure Options where
  file : String
  mode : Mode
  dumpAst : String
  viz : String
  vizFormat : Option String
  verbose : Bool
  deriving DecidableEq, Repr

/-- A command line as far as it was read. -/
structure Reading where
  file : Option String
  mode : Option Mode
  dumpAst : String
  viz : String
  vizFormat : Option String
  verbose : Bool
  unused : List String
  deriving DecidableEq, Repr

/-- A command line of which nothing was read. -/
def Reading.start : Reading := ⟨none, none, "", "", some "svg", false, []⟩

/-- What ends the reading of a command line before its end. -/
inductive Stop where
  | help
  | misuse (error : UsageError)
  deriving DecidableEq, Repr

namespace Reading

/-- A mode is chosen. -/
def choose (r : Reading) (m : Mode) : Except Stop Reading :=
  match r.mode with
  | some earlier =>
    if earlier = m then .ok r else .error (.misuse (.conflict (.mode m) (.mode earlier)))
  | none => .ok { r with mode := some m }

/-- An option without a value is met. -/
def raise (r : Reading) : Opt → Except Stop Reading
  | .help => .error .help
  | .mode m => r.choose m
  | .verbose => .ok { r with verbose := true }
  | o => .error (.misuse (.missingValue o))

/-- The value that a text gives to an option. Two dashes are never a value. -/
def valueOf (s : String) : Option String := if s = "--" then none else some s

/-- An option with a value is met. -/
def assign (r : Reading) (o : Opt) (s : String) : Except Stop Reading :=
  match o with
  | .dumpAst => .ok { r with dumpAst := (valueOf s).getD "" }
  | .viz => .ok { r with viz := (valueOf s).getD "" }
  | .vizFormat => .ok { r with vizFormat := valueOf s }
  | o => .error (.misuse (.unexpectedValue o s))

/-- An argument could not be used. -/
def leave (r : Reading) (s : String) : Reading := { r with unused := r.unused ++ [s] }

/-- The options that a short option and the letters attached to it spell. What spells none is
    refused as a value of the option in front of it. -/
def cluster (o : Opt) : List Char → Except UsageError (List Opt)
  | [] => .ok [o]
  | c :: cs =>
    match Opt.ofSpelling? (String.ofList ['-', c]) with
    | some next => (cluster next cs).map (o :: ·)
    | none => .error (.unexpectedValue o (String.ofList (c :: cs)))

/-- An option without a value is met with a text attached to it. -/
def raiseWith (r : Reading) (o : Opt) (form : Form) (s : String) : Except Stop Reading :=
  if form = .long ∨ s = "" then .error (.misuse (.unexpectedValue o s))
  else
    match cluster o s.toList with
    | .error e => .error (.misuse e)
    | .ok os => os.foldlM raise r

/-- Reads the arguments that are left. -/
def readAll (r : Reading) : List Argument → Except Stop Reading
  | [] => .ok r
  | .plain s :: rest =>
    match r.file, rest with
    | none, .marker :: rest => readAll { r with file := some s } rest
    | none, rest => readAll { r with file := some s } rest
    | some _, rest => readAll (r.leave s) rest
  | .marker :: rest =>
    match r.file, rest with
    | none, .plain s :: rest => readAll { r with file := some s } rest
    | _, rest => readAll (r.leave "--") rest
  | .unknown s :: rest => readAll (r.leave s) rest
  | .option o form (some s) :: rest =>
    if o.takesValue then do readAll (← r.assign o s) rest
    else do readAll (← r.raiseWith o form s) rest
  | .option o _ none :: rest =>
    if o.takesValue then
      match rest with
      | .plain s :: rest => do readAll (← r.assign o s) rest
      | _ => .error (.misuse (.missingValue o))
    else do readAll (← r.raise o) rest

/-- The options of a command line that was read to its end. -/
def finish (r : Reading) : Except Stop Options :=
  match r.file with
  | none => .error (.misuse .missingFile)
  | some file =>
    if r.unused.isEmpty then
      .ok ⟨file, r.mode.getD .parse, r.dumpAst, r.viz, r.vizFormat, r.verbose⟩
    else .error (.misuse (.unrecognized r.unused))

end Reading

/-- The options of a command line. -/
def Options.ofArguments (args : List String) : Except Stop Options :=
  match Argument.ofTexts args with
  | .error e => .error (.misuse e)
  | .ok as => do
    let r ← Reading.start.readAll as
    r.finish

/-- The tree is to be written to a file. -/
def Options.wantsFiles (o : Options) : Bool := o.dumpAst != "" || o.viz != ""

/-- The lines that say how a command line is written. -/
def usage : String :=
  "usage: simplang [-h] [--scan | --parse | --eval] [--dump-ast DUMP_AST]\n" ++
  "                [--viz VIZ] [--viz-format VIZ_FORMAT] [--verbose]\n" ++
  "                file\n"

/-- The usage and what the arguments mean. -/
def help : String :=
  usage ++
  "\nScan, parse or evaluate a simplang source file\n" ++
  "\npositional arguments:\n" ++
  "  file                  Path to source file to process\n" ++
  "\noptions:\n" ++
  "  -h, --help            show this help message and exit\n" ++
  "  --scan                Print one line per token\n" ++
  "  --parse               Print the parsed tree (default)\n" ++
  "  --eval                Print the value of the expression\n" ++
  "  --dump-ast DUMP_AST   Path to write the parsed tree as JSON\n" ++
  "  --viz VIZ             Path (without extension) to write a Graphviz rendering\n" ++
  "                        of the tree\n" ++
  "  --viz-format VIZ_FORMAT\n" ++
  "                        Format for Graphviz output (svg, png, pdf, etc)\n" ++
  "  --verbose, -v         Verbose logging\n"

/-- What is written about a command line that is refused. -/
def misuseText (e : UsageError) : String := usage ++ "simplang: error: " ++ e.message ++ "\n"

end ExprLang.CommandLine
