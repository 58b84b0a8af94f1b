import Propositional.Text.Decimal
import Propositional.Command.Path

/-!
# Options

The options of the command line and how they are read.

* A long option may be cut short as long as only one option begins that way.
* A value is the next word, or is attached to the option: after an equals sign or, for a short
  option, without one.
* Short options may be run together: what is attached to a short option that takes no value is read
  as more of them, and the first that takes a value takes the rest of the word.
* A word that starts with a hyphen and is no option is still a value if it looks like a negative
  number or holds a space.
* An attached double hyphen stands for no value at all: the option is used, but has none.
* A repeated option counts with its last use.

`Settings.ofWords` reads a list of words.

These are the options of `create_argument_parser`, read as the library does that `main` has its
words parsed by. Out of scope: the texts about usage, and files with more words.
-/

namespace Propositional.Command

/-- An option. -/
inductive Flag where
  | help
  | expression
  | transformation
  | compare
  | showTable
  | visualize
  | format
  | verbose
  | debug
  deriving DecidableEq, Repr

/-- The option stands before a value. -/
def Flag.takesValue : Flag → Bool
  | .help | .showTable | .verbose | .debug => false
  | .expression | .transformation | .compare | .visualize | .format => true

/-- The spellings of the options. -/
def spellings : List (String × Flag) :=
  [("-h", .help), ("--help", .help), ("-e", .expression), ("--expression", .expression),
    ("-t", .transformation), ("--transformation", .transformation), ("--compare", .compare),
    ("--show-table", .showTable), ("--visualize", .visualize), ("--format", .format),
    ("-v", .verbose), ("--verbose", .verbose), ("--debug", .debug)]

/-- The option with a given spelling. -/
def flag? (spelling : List Char) : Option Flag :=
  spellings.lookup (String.ofList spelling)

/-- The formats that drawings are rendered in. -/
inductive ImageFormat where
  | png
  | svg
  | pdf
  deriving DecidableEq, Repr

/-- The name of a format, which is also the ending of its files. -/
def ImageFormat.name : ImageFormat → String
  | .png => "png"
  | .svg => "svg"
  | .pdf => "pdf"

/-- The format with a given name. -/
def ImageFormat.ofName? (name : String) : Option ImageFormat :=
  [ImageFormat.png, .svg, .pdf].find? (·.name = name)

/-- Why the words of a command line cannot be read. -/
inductive UsageError where
  /-- More than one option begins like this. -/
  | ambiguous (word : String)
  /-- The word is neither an option nor the value of one. -/
  | unrecognized (word : String)
  | missingValue (flag : Flag)
  /-- A value is attached to an option that takes none. -/
  | unexpectedValue (flag : Flag)
  | unknownFormat (name : String)
  /-- No formula is given. -/
  | missingExpression
  deriving DecidableEq, Repr

/-! ## Words -/

/-- An option as a word spells it. -/
structure Spelled where
  flag : Flag
  /-- It is spelled with a single letter. -/
  short : Bool
  /-- The text in the same word, without the equals sign after the spelling. -/
  attached : Option (List Char)
  deriving DecidableEq, Repr

/-- What one word of the command line is. -/
inductive Word where
  | value (text : String)
  | option (spelled : Spelled)
  | unknown (text : String)
  deriving DecidableEq, Repr

/-- A text cut at its first equals sign. -/
def splitAtEquals (text : List Char) : Option (List Char × List Char) :=
  match text.dropWhile (· ≠ '=') with
  | '=' :: rest => some (text.takeWhile (· ≠ '='), rest)
  | _ => none

/-- A hyphen and decimal digits, with or without a point among or before them. One line feed may
follow. -/
def looksNegative (text : List Char) : Bool :=
  let body := if text.getLast? = some '\n' then text.dropLast else text
  match body with
  | '-' :: digits =>
    match digits.dropWhile Text.isDecimal with
    | [] => !digits.isEmpty
    | '.' :: fraction => !fraction.isEmpty && fraction.all Text.isDecimal
    | _ => false
  | _ => false

/-- The option that is spelled exactly, with what is attached to it. -/
def spelled? (spelling : List Char) (attached : Option (List Char)) : Option Spelled :=
  (flag? spelling).map fun flag => ⟨flag, spelling.length = 2, attached⟩

/-- The options that a word which spells none exactly may stand for. -/
def candidates (text : List Char) : List Spelled :=
  match text with
  | '-' :: '-' :: _ =>
    let (start, attached) : List Char × Option (List Char) :=
      match splitAtEquals text with
      | some (start, value) => (start, some value)
      | none => (text, none)
    (spellings.filter fun (spelling, _) => start.isPrefixOf spelling.toList).map
      fun (_, flag) => ⟨flag, false, attached⟩
  | '-' :: letter :: rest => (spelled? ['-', letter] (some rest)).toList
  | _ => []

/-- What a word is, unless it is ambiguous. -/
def classify (word : String) : Except UsageError Word :=
  let text := word.toList
  match text with
  | '-' :: _ :: _ =>
    match spelled? text none with
    | some spelled => .ok (.option spelled)
    | none =>
      match (splitAtEquals text).bind fun (start, value) => spelled? start (some value) with
      | some spelled => .ok (.option spelled)
      | none =>
        match candidates text with
        | [spelled] => .ok (.option spelled)
        | _ :: _ :: _ => .error (.ambiguous word)
        | [] =>
          if looksNegative text || ' ' ∈ text then .ok (.value word) else .ok (.unknown word)
  | _ => .ok (.value word)

/-- What the words are. After a double hyphen there are no options. -/
def classifyAll : List String → Except UsageError (List Word)
  | [] => .ok []
  | "--" :: rest => .ok (.unknown "--" :: rest.map .value)
  | word :: rest => do return (← classify word) :: (← classifyAll rest)

/-! ## Settings -/

/-- An option with its value, if it has one. -/
structure Use where
  flag : Flag
  value : Option String
  deriving DecidableEq, Repr

/-- The value that an attached text stands for. -/
def valueOf (text : List Char) : Option String :=
  if text = ['-', '-'] then none else some (String.ofList text)

/-- What a word with options says: the options that are complete, and one that still needs a
value. -/
structure Uses where
  complete : List Use
  pending : Option Flag
  deriving DecidableEq, Repr

/-- An option on its own. -/
def Uses.single (flag : Flag) : Uses :=
  if flag.takesValue then ⟨[], some flag⟩ else ⟨[⟨flag, none⟩], none⟩

/-- The options in a short option and the text attached to it. -/
def unroll (flag : Flag) (text : List Char) : Except UsageError Uses :=
  if flag.takesValue then .ok ⟨[⟨flag, valueOf text⟩], none⟩
  else
    match text with
    | [] => .error (.unexpectedValue flag)
    | letter :: rest =>
      match flag? ['-', letter] with
      | none => .error (.unexpectedValue flag)
      | some next =>
        (if rest.isEmpty then .ok (Uses.single next) else unroll next rest).map fun uses =>
          { uses with complete := ⟨flag, none⟩ :: uses.complete }

/-- The options in one word. -/
def Spelled.uses (spelled : Spelled) : Except UsageError Uses :=
  match spelled.attached with
  | none => .ok (Uses.single spelled.flag)
  | some text =>
    if spelled.short || spelled.flag.takesValue then unroll spelled.flag text
    else .error (.unexpectedValue spelled.flag)

/-- The options in words, in order. -/
def usesOfWords : List Word → Except UsageError (List Use)
  | [] => .ok []
  | .value text :: _ => .error (.unrecognized text)
  | .unknown text :: _ => .error (.unrecognized text)
  | .option spelled :: rest =>
    match spelled.uses with
    | .error error => .error error
    | .ok ⟨complete, none⟩ => (usesOfWords rest).map (complete ++ ·)
    | .ok ⟨complete, some flag⟩ =>
      match rest with
      | .value text :: rest => (usesOfWords rest).map (complete ++ ⟨flag, some text⟩ :: ·)
      | _ => .error (.missingValue flag)

/-- What a command line asks for. Where an option was used without its value, there is none. -/
structure Settings where
  /-- The file with the formula. -/
  expression : Option Path
  transformation : Option String
  /-- A file with a formula to compare with. -/
  compare : Option Path
  showTable : Bool
  /-- The name of the drawings. -/
  visualize : Option String
  format : Option ImageFormat
  verbose : Bool
  debug : Bool
  /-- Only the usage is asked for. -/
  help : Bool
  deriving DecidableEq, Repr

/-- The settings before any option. -/
def Settings.initial : Settings :=
  ⟨none, some "DNF", none, false, none, some .png, false, false, false⟩

/-- The settings after one more option. -/
def Settings.apply (settings : Settings) (use : Use) : Except UsageError Settings :=
  match use.flag with
  | .help => .ok { settings with help := true }
  | .expression => .ok { settings with expression := use.value.map Path.ofText }
  | .transformation => .ok { settings with transformation := use.value }
  | .compare => .ok { settings with compare := use.value.map Path.ofText }
  | .showTable => .ok { settings with showTable := true }
  | .visualize => .ok { settings with visualize := use.value }
  | .format =>
    match use.value with
    | none => .ok { settings with format := none }
    | some name =>
      match ImageFormat.ofName? name with
      | some format => .ok { settings with format := some format }
      | none => .error (.unknownFormat name)
  | .verbose => .ok { settings with verbose := true }
  | .debug => .ok { settings with debug := true }

/-- The settings that the words of a command line ask for. -/
def Settings.ofWords (words : List String) : Except UsageError Settings := do
  let uses ← usesOfWords (← classifyAll words)
  let settings ← uses.foldlM Settings.apply Settings.initial
  if settings.help || uses.any (·.flag = .expression) then return settings
  else .error .missingExpression

end Propositional.Command
