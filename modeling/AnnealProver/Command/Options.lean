import AnnealProver.Decimal.Reading
import AnnealProver.Table
import AnnealProver.Text.Cut
import AnnealProver.Text.Digit

/-!
# Options on a command line

A command line is a list of **options**, some of which take a value.  A long option may be shortened
as long as it stays unambiguous; its value may follow an equals sign.  Flags of one letter may be
run together.  A text that looks like a negative number, or that has a space in it, is a value even
if it begins with a dash.  Nothing but options and their values is accepted.
-/

namespace AnnealProver.Command

/-- What an option takes. -/
inductive Kind where
  | flag
  | word
  | choice (words : List String)
  | whole
  | real
  | help
deriving DecidableEq

/-- An option under its names; the first one identifies it. -/
structure OptionSpec where
  names : List String
  kind : Kind
  required : Bool := false
deriving DecidableEq

/-- What an option was given. -/
inductive Value where
  | flag
  | word (text : String)
  | whole (n : Int)
  | real (x : Float)

/-- How the reading of options can end early. -/
inductive Exit where
  /-- The options are not acceptable. -/
  | rejected
  /-- Help was asked for. -/
  | helped

/-- The exit code that goes with it. -/
def Exit.code : Exit → Int
  | rejected => 2
  | helped => 0

/-- A text that is attached to an option, after an equals sign or directly. -/
structure Attached where
  afterEquals : Bool
  text : String

/-- What a part of a command line is. -/
inductive Mark where
  | argument
  /-- The double dash, after which there are no options. -/
  | divider
  | unknown
  | option (spec : OptionSpec) (name : String) (attached : Option Attached)

namespace OptionSpec

/-- The name that identifies the option. -/
def key (o : OptionSpec) : String :=
  o.names.headD ""

/-- Whether the option takes a value. -/
def takesValue (o : OptionSpec) : Bool :=
  match o.kind with
  | .flag | .help => false
  | _ => true

end OptionSpec

/-- The option that asks for help. -/
def helpOption : OptionSpec :=
  ⟨["-h", "--help"], .help, false⟩

/-- The options with all their names. -/
def namesOf (specs : List OptionSpec) : List (String × OptionSpec) :=
  specs.flatMap fun o => o.names.map fun name => (name, o)

/-- The option of exactly this name. -/
def ofName? (specs : List OptionSpec) (name : String) : Option OptionSpec :=
  ((namesOf specs).find? fun n => n.1 == name).map (·.2)

/-- A text before its first equals sign and after it. -/
def atEquals? (text : String) : Option (String × String) :=
  match Text.split "=" text with
  | first :: second :: rest => some (first, String.intercalate "=" (second :: rest))
  | _ => none

/-- The options that a text may be short for. -/
def candidates (specs : List OptionSpec) (text : String) : List Mark :=
  if Text.begins "--" text then
    let (start, attached) := match atEquals? text with
      | some (start, value) => (start, some ⟨true, value⟩)
      | none => (text, none)
    (namesOf specs).filterMap fun (name, o) =>
      if Text.begins start name then some (.option o name attached) else none
  else
    (namesOf specs).filterMap fun (name, o) =>
      if name == Text.left 2 text then some (.option o name (some ⟨false, Text.afterFirst 2 text⟩))
      else if Text.begins text name then some (.option o name none)
      else none

/-- Whether all characters are decimal digits, and there is one. -/
def areDigits (cs : List Char) : Bool :=
  !cs.isEmpty && cs.all fun c => (Text.digit? c).isSome

/-- Whether a text looks like a negative number without an exponent. -/
def isNegativeNumber (text : String) : Bool :=
  let cs := match text.toList.getLast? with
    | some '\n' => text.toList.dropLast
    | _ => text.toList
  match cs with
  | '-' :: rest =>
    areDigits rest ||
      match rest.dropWhile fun c => (Text.digit? c).isSome with
      | '.' :: fraction => areDigits fraction
      | _ => false
  | _ => false

/-- What a text before any double dash is, unless it is ambiguous. -/
def markOf? (specs : List OptionSpec) (text : String) : Option Mark :=
  let exact (name : String) (attached : Option Attached) : Option Mark :=
    (ofName? specs name).map fun o => .option o name attached
  if !Text.begins "-" text then some .argument
  else
    match exact text none with
    | some mark => some mark
    | none =>
      if text.length == 1 then some .argument
      else
        match (atEquals? text).bind fun (name, value) => exact name (some ⟨true, value⟩) with
        | some mark => some mark
        | none =>
          match candidates specs text with
          | [mark] => some mark
          | _ :: _ => none
          | [] =>
            if isNegativeNumber text || Text.occurs " " text then some .argument
            else some .unknown

/-- What the parts of a command line are, unless one is ambiguous. -/
def marks? (specs : List OptionSpec) : List String → Option (List (String × Mark))
  | [] => some []
  | text :: rest =>
    if text == "--" then some ((text, .divider) :: rest.map fun a => (a, .argument))
    else
      match markOf? specs text, marks? specs rest with
      | some mark, some marks => some ((text, mark) :: marks)
      | _, _ => none

/-- Options that are run together: flags, and after them an option with what is attached to it.  In
place of the latter there may be something that is no option. -/
structure Cluster where
  flags : List OptionSpec
  last : Option (OptionSpec × Option String)

/-- The options that are run together in an option with something attached to it.  A flag takes
nothing; what is attached to it directly are more options of one letter. -/
def cluster? (specs : List OptionSpec) (o : OptionSpec) (name : String) (afterEquals : Bool) :
    List Char → Option Cluster
  | [] => if o.takesValue then some ⟨[], some (o, some "")⟩ else none
  | c :: rest =>
    let next := "-" ++ c.toString
    if o.takesValue then some ⟨[], some (o, some (String.ofList (c :: rest)))⟩
    else if afterEquals || c == '-' || Text.begins "--" name then none
    else
      match ofName? specs next, rest with
      | none, _ => some ⟨[o], none⟩
      | some last, [] => some ⟨[o], some (last, none)⟩
      | some o', '=' :: text =>
        (cluster? specs o' next true text).map fun k => ⟨o :: k.flags, k.last⟩
      | some o', text =>
        (cluster? specs o' next false text).map fun k => ⟨o :: k.flags, k.last⟩

/-- Values of options by identifying name. -/
abbrev Values := NameTable Value

/-- Gives an option its value. -/
def setOption (o : OptionSpec) (text : Option String) (values : Values) : Except Exit Values :=
  match o.kind, text with
  | .help, _ => .error .helped
  | .flag, _ => .ok (values.insert o.key .flag)
  | .word, some s => .ok (values.insert o.key (.word s))
  | .choice words, some s =>
    if words.contains s then .ok (values.insert o.key (.word s)) else .error .rejected
  | .whole, some s =>
    match Decimal.readInt? s with
    | some n => .ok (values.insert o.key (.whole n))
    | none => .error .rejected
  | .real, some s =>
    match Decimal.readReal? s with
    | some x => .ok (values.insert o.key (.real x))
    | none => .error .rejected
  | _, none => .error .rejected

/-- Sets flags one after the other. -/
def setFlags (flags : List OptionSpec) (values : Values) : Except Exit Values :=
  flags.foldlM (fun values o => setOption o none values) values

/-- Takes the options from left to right.  The result also says whether anything was left over. -/
def take (specs : List OptionSpec) :
    List (String × Mark) → Values → (left : Bool) → Except Exit (Values × Bool)
  | [], values, left => .ok (values, left)
  | (_, .option o name attached) :: rest, values, left =>
    let cluster := match attached with
      | some a => cluster? specs o name a.afterEquals a.text.toList
      | none => some ⟨[], some (o, none)⟩
    match cluster with
    | none => .error .rejected
    | some ⟨flags, none⟩ => do
      let values ← setFlags flags values
      take specs rest values true
    | some ⟨flags, some (last, text)⟩ =>
      if last.takesValue && text.isNone then
        match rest with
        | (argument, .argument) :: rest => do
          let values ← setFlags flags values
          let values ← setOption last (some argument) values
          take specs rest values left
        | _ => .error .rejected
      else do
        let values ← setFlags flags values
        let values ← setOption last text values
        take specs rest values left
  | _ :: rest, values, _ => take specs rest values true

/-- Reads a command line. -/
def readOptions (specs : List OptionSpec) (arguments : List String) : Except Exit Values :=
  let specs := helpOption :: specs
  match marks? specs arguments with
  | none => .error .rejected
  | some marks => do
    let (values, left) ← take specs marks ∅ false
    if left || specs.any fun o => o.required && !values.contains o.key then .error .rejected
    else return values

namespace Values

/-- Whether an option was given. -/
def has (v : Values) (name : String) : Bool :=
  v.contains name

/-- The word of an option, or a usual one. -/
def word (v : Values) (name : String) (usual : String) : String :=
  match v.get? name with
  | some (.word s) => s
  | _ => usual

/-- The whole number of an option, or a usual one. -/
def whole (v : Values) (name : String) (usual : Int) : Int :=
  match v.get? name with
  | some (.whole n) => n
  | _ => usual

/-- The real number of an option, or a usual one. -/
def real (v : Values) (name : String) (usual : Float) : Float :=
  match v.get? name with
  | some (.real x) => x
  | _ => usual

end Values

end AnnealProver.Command
