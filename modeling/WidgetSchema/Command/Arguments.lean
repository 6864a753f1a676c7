-- Reading the arguments of the program. Options start with dashes, and none may come twice.
-- The options of the program stand before the name of the command, and those of the command
-- behind it.
import WidgetSchema.Command.Basic
import WidgetSchema.Text.Search
namespace WidgetSchema.Arguments

/-! ## Options -/

/-- An option by its long name, its letter if it has one, and whether it has a value. -/
structure OptionForm where
  long : String
  letter : Option Char := none
  hasValue : Bool := true

/-- The arguments that are understood in one place. -/
structure Form where
  options : List OptionForm
  /-- How many arguments may stand without a dash. -/
  maxPlain : Nat := 0
  /-- Words that end the reading. -/
  commands : List String := []
  /-- Whether the version can be asked for. -/
  hasVersion : Bool := false

/-- The arguments that have been read: options by their long names, and plain arguments. -/
structure Found where
  options : List (String × String) := []
  plain : List String := []

/-- Why reading stops early. -/
inductive Stop where
  | version
  | help
  | misuse
  deriving DecidableEq

abbrev Reading := Except Stop

namespace Found

def option? (f : Found) (long : String) : Option String :=
  (f.options.find? (·.1 == long)).map (·.2)

def has (f : Found) (long : String) : Bool := (f.option? long).isSome

/-- An option that has to be there. -/
def required (f : Found) (long : String) : Reading String :=
  match f.option? long with
  | some v => .ok v
  | none => .error .misuse

/-- The arguments with another option, which may not be there yet. -/
def add (f : Found) (long value : String) : Reading Found :=
  if f.has long then .error .misuse else .ok { f with options := f.options ++ [(long, value)] }

def addPlain (f : Found) (form : Form) (arg : String) : Reading Found :=
  if f.plain.length < form.maxPlain then .ok { f with plain := f.plain ++ [arg] }
  else .error .misuse

end Found

/-- An option that still waits for its value, which is the next argument. -/
abbrev Waiting := Option String

/-- Whether an argument can be the value of an option. -/
def isValue (arg : String) : Bool := arg = "-" || arg.toList.head? ≠ some '-'

/-- Reads an option by its long name, with a value behind an equals sign if there is one. -/
def readLong (form : Form) (found : Found) (text : List Char) : Reading (Found × Waiting) :=
  let name := String.ofList (text.takeWhile (· ≠ '='))
  let value : Option String :=
    match text.dropWhile (· ≠ '=') with
    | _ :: value => some (String.ofList value)
    | [] => none
  match form.options.find? (·.long == name), value with
  | some o, some v =>
    if o.hasValue then (found.add name v).map (·, none) else .error .misuse
  | some o, none =>
    if !o.hasValue then (found.add name "").map (·, none)
    else if found.has name then .error .misuse
    else .ok (found, some name)
  | none, none =>
    if name = "help" then .error .help
    else if name = "version" && form.hasVersion then .error .version
    else .error .misuse
  | none, some _ => .error .misuse

/-- Reads options by their letters. What stands behind the letter of an option with a value is
the value. -/
def readLetters (form : Form) (found : Found) : List Char → Reading (Found × Waiting)
  | [] => .ok (found, none)
  | c :: cs =>
    match form.options.find? (·.letter == some c), cs with
    | some o, [] =>
      if !o.hasValue then (found.add o.long "").map (·, none)
      else if found.has o.long then .error .misuse
      else .ok (found, some o.long)
    | some o, d :: ds =>
      if o.hasValue then
        (found.add o.long (String.ofList (if d = '=' then ds else d :: ds))).map (·, none)
      else do
        let found ← found.add o.long ""
        readLetters form found (d :: ds)
    | none, _ =>
      if c = 'h' then .error .help
      else if c = 'V' && form.hasVersion then .error .version
      else .error .misuse

/-- Reads arguments up to a command, and gives those from the command on. -/
def read (form : Form) (found : Found) (waiting : Waiting) :
    List String → Reading (Found × List String)
  | [] => if waiting.isSome then .error .misuse else .ok (found, [])
  | arg :: rest =>
    match waiting with
    | some name =>
      if isValue arg then do
        let found ← found.add name arg
        read form found none rest
      else .error .misuse
    | none =>
      match arg.toList with
      | ['-', '-'] => do
        let found ← rest.foldlM (fun (f : Found) arg => f.addPlain form arg) found
        return (found, [])
      | '-' :: '-' :: text => do
        let (found, waiting) ← readLong form found text
        read form found waiting rest
      | '-' :: c :: cs => do
        let (found, waiting) ← readLetters form found (c :: cs)
        read form found waiting rest
      | _ =>
        if form.commands.contains arg then .ok (found, arg :: rest)
        else do
          let found ← found.addPlain form arg
          read form found none rest

/-! ## Commands -/

def commandNames : List String := ["init", "compile", "apply", "validate", "overlay", "inspect"]

def programForm : Form where
  options := [⟨"config", some 'c', true⟩, ⟨"verbose", some 'v', false⟩,
    ⟨"asset-base-url", none, true⟩]
  commands := "help" :: commandNames
  hasVersion := true

def widgetOption : OptionForm := ⟨"widget", some 'w', true⟩

def dataOption : OptionForm := ⟨"data", some 'd', true⟩

def opsOption : OptionForm := ⟨"ops", some 'o', true⟩

def commandForm : (name : String) → Form
  | "init" => { options := [⟨"name", some 'n', true⟩], maxPlain := 1 }
  | "compile" => { options := [widgetOption, ⟨"force", none, false⟩] }
  | "apply" =>
    { options := [widgetOption, dataOption, opsOption, ⟨"permissive", none, false⟩,
        ⟨"defer-validation", none, false⟩] }
  | "validate" => { options := [widgetOption, dataOption] }
  | "overlay" => { options := [dataOption, opsOption, ⟨"allowlist", some 'a', true⟩] }
  | "inspect" => { options := [widgetOption, ⟨"path", some 'p', true⟩] }
  | _ => { options := [] }

/-- The command with a name and the arguments found for it. -/
def commandOf (name : String) (f : Found) : Reading Command :=
  match name with
  | "init" => return .init (f.plain.head?.getD ".") (f.option? "name")
  | "compile" => return .compile (f.option? "widget") (f.has "force")
  | "apply" => do
    let widget ← f.required "widget"
    let data ← f.required "data"
    let ops ← f.required "ops"
    return .apply widget data ops (f.has "permissive") (f.has "defer-validation")
  | "validate" => return .validate (← f.required "widget") (← f.required "data")
  | "overlay" => do
    let data ← f.required "data"
    let ops ← f.required "ops"
    let allowlist ← f.required "allowlist"
    return .overlay data ops allowlist
  | "inspect" => return .inspect (← f.required "widget") (f.option? "path")
  | _ => .error .misuse

/-- Help may be asked for one command. -/
def helpStop : List String → Stop
  | [] => .help
  | [name] => if programForm.commands.contains name then .help else .misuse
  | _ => .misuse

/-- The invocation that the arguments of the program ask for. An address in the environment
counts where none is among the arguments. -/
def parse (environmentUrl : Option String) (args : List String) : Reading Invocation := do
  let (found, rest) ← read programForm {} none args
  match rest with
  | [] => .error .misuse
  | "help" :: names => .error (helpStop names)
  | name :: rest =>
    let (own, _) ← read (commandForm name) {} none rest
    let command ← commandOf name own
    let defaults : Invocation := { command }
    return { defaults with
      config := (found.option? "config").getD defaults.config
      assetBaseUrl := (found.option? "asset-base-url").or environmentUrl }

end WidgetSchema.Arguments
