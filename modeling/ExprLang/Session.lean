import ExprLang.CommandLine.Options
import ExprLang.Dot.SourceOnly
import ExprLang.Expr.Dot
import ExprLang.Expr.Json
import ExprLang.Expr.Outline
import ExprLang.Expr.Surface
import ExprLang.Source

/-! Sessions.

    A session carries out a command line on a disk: it reads the source, prints its tokens, its
    tree or its value, and if asked to writes the tree to a file and has a renderer draw it. What it
    prints and logs is collected in two texts, and it ends with a status or, for the few failures
    that it does not answer, with the failure itself. -/

namespace ExprLang

/-- How a session ends. -/
inductive Ending where
  | status (code : Nat)
  | raised (failure : Failure)
  deriving DecidableEq, Repr

/-- What a session has printed and what it has logged. -/
structure Console where
  out : String
  err : String
  deriving DecidableEq, Repr

/-- What a session leaves besides files. -/
structure Report where
  ending : Ending
  console : Console
  deriving DecidableEq, Repr

/-- An action of a session, which may end it. -/
abbrev Session (m : Type → Type) := ExceptT Ending (StateT Console m)

namespace Session

variable {m : Type → Type} [Monad m]

/-- Prints a text. -/
def print (s : String) : Session m Unit := modify fun c => { c with out := c.out ++ s }

/-- Logs a text. -/
def printError (s : String) : Session m Unit := modify fun c => { c with err := c.err ++ s }

/-- Logs a line that is of interest to someone who asked for details. -/
def detail (o : CommandLine.Options) (level text : String) : Session m Unit :=
  if o.verbose then printError (level ++ " " ++ text ++ "\n") else pure ()

/-- Does something on a disk. -/
def onDisk {α : Type} (x : m α) : Session m α := ExceptT.lift (StateT.lift x)

/-- Ends with status one behind a line in the log. -/
def giveUp {α : Type} (line : String) : Session m α := do
  printError (line ++ "\n")
  throw (.status 1)

/-- Ends on account of a failure. A fault of a file comes from what was to be written. -/
def fail {α : Type} : Failure → Session m α
  | .reported d => giveUp d.line
  | .tooDeep => giveUp ("Error: " ++ Failure.tooDeep.message)
  | .file fault =>
    if fault.isAnswered then giveUp ("ERROR Failed to write output: " ++ fault.message)
    else throw (.raised (.file fault))
  | f => throw (.raised f)

/-- Goes on with a result, or ends on account of a failure. -/
def orFail {α : Type} : Except Failure α → Session m α
  | .ok a => pure a
  | .error f => fail f

/-- The tree on one line. -/
def surfaceOf (e : Expr) : Session m String :=
  match e.surfaceText? with
  | some s => pure s
  | none => fail .missingOperand

/-- Prints the tokens of a source, one on a line, up to the first that cannot be read. -/
def scan (o : CommandLine.Options) (source : Source) : Session m Unit := do
  let r := Lexer.run (Cursor.ofText source.text)
  let ts := r.tokens.filter fun t => t.kind != .endOfInput
  print (String.join (ts.map fun t => t.listing ++ "\n"))
  match r.error? with
  | some e => fail e.failure
  | none => detail o "DEBUG" ("Scanned " ++ toString ts.length ++ " tokens")

/-- Writes the tree as a structured value. The file keeps what was written before the writing
    stopped, be it that the tree is too deep or that the file takes no more. -/
def dump (disk : Files.Disk m) (o : CommandLine.Options) (e : Expr) : Session m Unit := do
  match e.json? with
  | none => fail .missingOperand
  | some value =>
    let (text, whole) := Json.render .indented value
    orFail ((← onDisk (disk.writeFile o.dumpAst text)).mapError .file)
    if whole then detail o "INFO" ("Wrote AST JSON to " ++ o.dumpAst) else fail .tooDeep

/-- Has the graph of the tree drawn. -/
def draw (renderer : Renderer m) (o : CommandLine.Options) (e : Expr) : Session m Unit := do
  let path ← orFail (← onDisk (renderer.draw (e.dotStatements "") o.viz o.vizFormat))
  detail o "INFO" ("Wrote AST visualization to " ++ path)

/-- Prints the outline of the tree and writes the files that are asked for. -/
def parse (disk : Files.Disk m) (renderer : Renderer m) (o : CommandLine.Options)
    (source : Source) : Session m Unit := do
  let e ← orFail ((ExprLang.parse source.text).mapError ParseError.failure)
  if o.verbose then detail o "DEBUG" ("Parsed " ++ (← surfaceOf e))
  print (e.outline 0 ++ "\n")
  if o.dumpAst != "" then dump disk o e
  if o.viz != "" then draw renderer o e

/-- Prints the value of the tree. -/
def eval (o : CommandLine.Options) (source : Source) : Session m Unit := do
  let e ← orFail ((ExprLang.parse source.text).mapError ParseError.failure)
  if o.verbose then detail o "DEBUG" ("Evaluating " ++ (← surfaceOf e))
  let v ← orFail ((Evaluation.evaluate e).mapError EvalError.failure)
  print (v.plain ++ "\n")

/-- Ends because of a command line that is refused. -/
def refuse {α : Type} (e : CommandLine.UsageError) : Session m α := do
  printError (CommandLine.misuseText e)
  throw (.status 2)

/-- Carries out the options of a command line. -/
def perform (disk : Files.Disk m) (renderer : Renderer m) (o : CommandLine.Options) :
    Session m Unit := do
  detail o "DEBUG" "Verbose mode enabled"
  if o.mode != .parse && o.wantsFiles then refuse .requiresParse
  let source ← orFail (← onDisk (Source.read disk o.file))
  detail o "DEBUG"
    ("Read " ++ toString source.text.length ++ " characters from " ++ source.path)
  match o.mode with
  | .scan => scan o source
  | .parse => parse disk renderer o source
  | .eval => eval o source

/-- Carries out a command line. -/
def start (disk : Files.Disk m) (renderer : Renderer m) (args : List String) : Session m Unit :=
  match CommandLine.Options.ofArguments args with
  | .ok o => perform disk renderer o
  | .error (.misuse e) => refuse e
  | .error .help => do
    print CommandLine.help
    throw (.status 0)

/-- What a command line leaves besides files. -/
def run (disk : Files.Disk m) (renderer : Renderer m) (args : List String) : m Report := do
  let (result, console) ← StateT.run (ExceptT.run (start disk renderer args)) ⟨"", ""⟩
  match result with
  | .ok _ => pure ⟨.status 0, console⟩
  | .error ending => pure ⟨ending, console⟩

end Session

/-- What a command line leaves besides files, and the store that it leaves behind. -/
def runWith (renderer : Renderer (StateM Files.Store)) (store : Files.Store) (args : List String) :
    Report × Files.Store := (Session.run Files.Disk.ofStore renderer args).run store

/-- What a command line leaves on a machine that has no program for drawing. -/
def runOn (store : Files.Store) (args : List String) : Report × Files.Store :=
  runWith (.sourceOnly Files.Disk.ofStore) store args

end ExprLang
