import FieldMap.Project

/-!
The command line: `generate` writes the stylesheet of a project file, and `validate` checks a
stylesheet. Options may stand anywhere after the command, as `--name value`, `--name=value`, `-n value`,
`-nvalue` or `-n=value`; each is given at most once. After `--` nothing is an option.
-/

namespace FieldMap

inductive Command where
  | generate (project : Text) (format delimiter output : Option Text) (check : Bool)
  | validate (stylesheet : Text) (format : Option Text)
deriving DecidableEq

namespace Command

inductive Flag where
  | format
  | delimiter
  | output
  | noValidate
  | verbose
deriving DecidableEq

inductive Kind where
  | generate
  | validate
deriving DecidableEq

def Kind.ofName? (name : Text) : Option Kind :=
  if name = "generate" then some .generate
  else if name = "validate" then some .validate
  else none

def Kind.long? (kind : Kind) (name : Text) : Option Flag :=
  if name = "format" then some .format
  else if name = "verbose" then some .verbose
  else if kind = .generate then
    if name = "delimiter" then some .delimiter
    else if name = "output" then some .output
    else if name = "no-validate" then some .noValidate
    else none
  else none

def Kind.short? (kind : Kind) (letter : Char) : Option Flag :=
  if letter = 'f' then some .format
  else if letter = 'v' then some .verbose
  else if kind = .generate then
    if letter = 'd' then some .delimiter
    else if letter = 'o' then some .output
    else none
  else none

def Flag.takesValue : Flag → Bool
  | .format | .delimiter | .output => true
  | .noValidate | .verbose => false

/-- Arguments taken apart: file names, options with a value, and options without one. -/
structure Parts where
  files : List Text := []
  values : List (Flag × Text) := []
  flags : List Flag := []

def Parts.addValue? (p : Parts) (option : Flag) (value : Text) : Option Parts :=
  if p.values.any (·.1 = option) then none
  else some { p with values := p.values ++ [(option, value)] }

/-- Adds an option without a value; only verbosity adds up. -/
def Parts.addFlag? (p : Parts) (option : Flag) : Option Parts :=
  if option ≠ .verbose && p.flags.contains option then none
  else some { p with flags := p.flags ++ [option] }

def Parts.addFile (p : Parts) (name : Text) : Parts :=
  { p with files := p.files ++ [name] }

/-- Letters after one hyphen: options without a value, and at last one with a value, which follows at
once or is the next argument. The second result is the option that still needs its value. -/
def letters? (kind : Kind) (p : Parts) : Text → Option (Parts × Option Flag)
  | [] => some (p, none)
  | c :: rest =>
    match kind.short? c with
    | none => none
    | some option =>
      if option.takesValue then
        match rest with
        | [] => some (p, some option)
        | '=' :: value => (p.addValue? option value).map (·, none)
        | _ => (p.addValue? option rest).map (·, none)
      else
        match p.addFlag? option with
        | some next => letters? kind next rest
        | none => none

/-- A name after two hyphens, with the value after an equals sign if there is one. -/
def longName? (kind : Kind) (p : Parts) (name : Text) (value : Option Text) :
    Option (Parts × Option Flag) :=
  match kind.long? name with
  | none => none
  | some option =>
    match option.takesValue, value with
    | true, some value => (p.addValue? option value).map (·, none)
    | true, none => some (p, some option)
    | false, none => (p.addFlag? option).map (·, none)
    | false, some _ => none

inductive Shape where
  | ending
  | long (name : Text) (value : Option Text)
  | short (letters : Text)
  | plain (text : Text)

/-- A single hyphen is plain text. -/
def Shape.of (arg : Text) : Shape :=
  match arg with
  | ['-', '-'] => .ending
  | '-' :: '-' :: rest =>
    match rest.dropWhile (· ≠ '=') with
    | [] => .long rest none
    | _ :: value => .long (rest.takeWhile (· ≠ '=')) (some value)
  | '-' :: c :: rest => .short (c :: rest)
  | _ => .plain arg

/-- Takes the arguments after the command apart. `pending` is an option that needs the next argument
as its value; only plain text can be one. -/
def parts? (kind : Kind) : (p : Parts) → (pending : Option Flag) → List Text → Option Parts
  | p, none, [] => some p
  | _, some _, [] => none
  | p, pending, arg :: args =>
    match Shape.of arg, pending with
    | .plain text, some option =>
      match p.addValue? option text with
      | some next => parts? kind next none args
      | none => none
    | .plain text, none => parts? kind (p.addFile text) none args
    | _, some _ => none
    | .ending, none => some (args.foldl Parts.addFile p)
    | .long name value, none =>
      match longName? kind p name value with
      | some (next, pending) => parts? kind next pending args
      | none => none
    | .short letters, none =>
      match letters? kind p letters with
      | some (next, pending) => parts? kind next pending args
      | none => none

def Parts.value? (p : Parts) (option : Flag) : Option Text :=
  (p.values.find? (·.1 = option)).map (·.2)

/-- The command that the parts stand for: it has one file, and no name of a file is empty. -/
def ofParts? (kind : Kind) (p : Parts) : Option Command :=
  match p.files with
  | [file] =>
    if file = [] || p.value? .output = some [] then none
    else
      match kind with
      | .generate =>
        some (.generate file (p.value? .format) (p.value? .delimiter) (p.value? .output)
          (!p.flags.contains .noValidate))
      | .validate => some (.validate file (p.value? .format))
  | _ => none

def isVerbosity (arg : Text) : Bool :=
  match Shape.of arg with
  | .long name none => name = "verbose".toList
  | .short letters => letters.all (· = 'v')
  | _ => false

def parse? (args : List Text) : Option Command :=
  match args.dropWhile isVerbosity with
  | [] => none
  | name :: rest =>
    match Kind.ofName? name with
    | some kind => (parts? kind {} none rest).bind (ofParts? kind)
    | none => none

inductive Failure where
  /-- A file cannot be read as text, or not be written. -/
  | file
  | config (fault : Json.Fault)
  | run (fault : Project.RunFault)

def Failure.message : Failure → Text
  | .file => "file cannot be read or written"
  | .config fault => "invalid project file: " ++ fault.message
  | .run fault => fault.message

inductive Outcome where
  | shown (text : Text) (diagnostics : List Diagnostic)
  | written (path text : Text) (diagnostics : List Diagnostic)
  | checked (fault : Option Validation.Fault)
  | failed (failure : Failure)

def checkReport (fault : Option Validation.Fault) : Json :=
  .obj [("valid", .bool fault.isNone),
    ("error", match fault with
      | some f => .str f.message
      | none => .null)]

/-- Runs a command on files given by what reading them yields. Files are read before names of formats
are looked at, and nothing is shown or written unless the stylesheet passes its check. -/
def execute (read : Text → Option Text) : Command → Outcome
  | .generate path format delimiter output check =>
    match read path with
    | none => .failed .file
    | some text =>
      match Project.parse text with
      | .error fault => .failed (.config fault)
      | .ok project =>
        match project.run format delimiter check with
        | .error fault => .failed (.run fault)
        | .ok report =>
          match output with
          | some out => .written out report.stylesheet report.diagnostics
          | none => .shown report.stylesheet report.diagnostics
  | .validate path format =>
    match read path with
    | none => .failed .file
    | some text =>
      match format with
      | none => .checked (Validation.fault? none text)
      | some name =>
        match OutputFormat.ofName? name with
        | some format => .checked (Validation.fault? (some format) text)
        | none => .failed (.run (.unsupported name))

end Command

/-- A folder of files without folders in it. A file that is not text has no content. -/
structure Folder where
  files : List (Text × Option Text)

namespace Folder

def locate? (path : Text) : Option Text :=
  match (List.splitOn '/' path).reverse with
  | name :: above =>
    let inside := path.head? ≠ some '/' && above.all fun s => s = [] || s = ['.']
    if inside && name ≠ [] && name ≠ ['.'] && name ≠ ['.', '.'] then some name else none
  | [] => none

def read? (folder : Folder) (path : Text) : Option Text :=
  (locate? path).bind fun name => (folder.files.find? (·.1 = name)).bind (·.2)

def write? (folder : Folder) (path text : Text) : Option Folder :=
  (locate? path).map fun name => ⟨(name, some text) :: folder.files.filter (·.1 ≠ name)⟩

end Folder

/-- What a run of the command line leaves behind. -/
structure Run where
  failure : Option Command.Failure
  shown : Text
  folder : Folder
  success : Bool

def Command.runIn (folder : Folder) (command : Command) : Run :=
  match command.execute folder.read? with
  | .shown text _ => ⟨none, text, folder, true⟩
  | .checked fault => ⟨none, (checkReport fault).pretty 0 ++ "\n", folder, fault.isNone⟩
  | .failed failure => ⟨some failure, [], folder, false⟩
  | .written path text _ =>
    match folder.write? path text with
    | some after => ⟨none, [], after, true⟩
    | none => ⟨some .file, [], folder, false⟩

end FieldMap
