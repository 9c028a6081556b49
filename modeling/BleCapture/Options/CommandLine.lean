import BleCapture.Options.Basic
import BleCapture.Time.Duration

/-!
# Command line

Arguments are taken from left to right. An option that is still without value,
or whose value is not yet checked, is settled when the next option begins or
the line ends; an argument that fits nowhere is refused before that.
-/

namespace BleCapture.CommandLine

inductive Error where
  | unknownArgument
  | missingValue
  | malformedValue
  /-- Options that exclude each other, or one given twice. -/
  | conflict
  | unexpectedValue
  | helpRequested
  | versionRequested
  deriving DecidableEq, Repr

inductive Key where
  | input
  | tag
  | output
  | fifo
  | json
  | csv
  | html
  | filterMac
  | filterName
  | minRssi
  | statusInterval
  | verbose
  | quiet
  | help
  | version
  deriving DecidableEq, Repr

namespace Key

def ofLong? (name : List Char) : Option Key :=
  [("input", .input), ("tag", .tag), ("output", .output), ("fifo", .fifo), ("json", .json),
   ("csv", .csv), ("html", .html), ("filter-mac", .filterMac), ("filter-name", .filterName),
   ("min-rssi", .minRssi), ("status-interval", .statusInterval), ("verbose", .verbose),
   ("quiet", .quiet), ("help", .help), ("version", Key.version)].lookup (String.ofList name)

def ofShort? (c : Char) : Option Key :=
  [('i', .input), ('o', .output), ('v', .verbose), ('q', .quiet), ('h', .help),
   ('V', Key.version)].lookup c

def takesValue : Key → Bool
  | .verbose | .quiet | .help | .version => false
  | _ => true

end Key

/-- Digits with at most one point and one exponent sign (an e of either case),
neither of them first and the exponent sign not last. What follows a minus sign in this form is a
number, not a group of flags. -/
def looksNumeric (first point exponent : Bool) : List Char → Bool
  | [] => true
  | c :: rest =>
    if c.isDigit then looksNumeric false point exponent rest
    else if c = '.' ∧ !first ∧ !point ∧ !exponent then looksNumeric false true exponent rest
    else if (c = 'e' ∨ c = 'E') ∧ !first ∧ !exponent then
      !rest.isEmpty && looksNumeric false point true rest
    else false

def path (value : String) : Except Error (Option String) :=
  if value = "" then .error .missingValue else .ok (some value)

def store (o : Options) (key : Key) (value : String) : Except Error Options :=
  match key with
  | .input => (path value).map fun p => { o with input := p }
  | .tag => .ok { o with tag := value }
  | .output => (path value).map fun p => { o with output := p }
  | .fifo => (path value).map fun p => { o with fifo := p }
  | .json => (path value).map fun p => { o with json := p }
  | .csv => (path value).map fun p => { o with csv := p }
  | .html => (path value).map fun p => { o with html := p }
  | .filterMac =>
    match Address.parse value with
    | .ok a => .ok { o with filterAddress := some a }
    | .error _ => .error .malformedValue
  | .filterName => .ok { o with filterName := some value }
  | .minRssi =>
    match Text.readSigned? 129 value.toList with
    | some n =>
      if -128 ≤ n ∧ n ≤ 127 then .ok { o with minRssi := some (Int8.ofInt n) }
      else .error .malformedValue
    | none => .error .malformedValue
  | .statusInterval =>
    match Duration.parse value with
    | .ok d => .ok { o with statusInterval := d }
    | .error _ => .error .malformedValue
  | .verbose => .ok { o with verbose := true }
  | .quiet => .ok { o with quiet := true }
  | .help => .error .helpRequested
  | .version => .error .versionRequested

inductive Pending where
  | nothing
  | awaiting (key : Key)
  | unchecked (key : Key) (value : String)

structure State where
  options : Options := {}
  given : List Key := []
  pending : Pending := .nothing
  /-- After a double dash nothing is an option any more. -/
  operandsOnly : Bool := false

namespace State

/-- Accepts an option with its value; no option may come twice. -/
def accept (s : State) (key : Key) (value : String) : Except Error State := do
  if key ∈ s.given then throw .conflict
  let options ← store s.options key value
  return { s with options, given := key :: s.given, pending := .nothing }

def settle (s : State) : Except Error State :=
  match s.pending with
  | .nothing => .ok s
  | .awaiting _ => .error .missingValue
  | .unchecked key value => s.accept key value

/-- Begins an option, with the value attached to it if there is one. -/
def start (s : State) (key : Key) (attached : Option String) : Except Error State := do
  let s ← s.settle
  if key.takesValue then
    match attached with
    | some value => s.accept key value
    | none => return { s with pending := .awaiting key }
  else s.accept key ""

/-- A group of one-letter options; the rest of the group after one that takes a
value is its value. -/
def group (s : State) : List Char → Except Error State
  | [] => .ok s
  | c :: rest =>
    match Key.ofShort? c with
    | none => .error .unknownArgument
    | some key =>
      if key.takesValue then
        match rest with
        | [] => s.start key none
        | '=' :: value => s.start key (some (String.ofList value))
        | value => s.start key (some (String.ofList value))
      else do
        let s ← s.start key none
        group s rest

def long (s : State) (arg : List Char) : Except Error State :=
  let name := arg.takeWhile (· ≠ '=')
  let attached := (arg.dropWhile (· ≠ '=')).tail?.map String.ofList
  match Key.ofLong? name, attached with
  | none, _ => .error .unknownArgument
  | some key, some _ =>
    if key.takesValue then s.start key attached else .error .unexpectedValue
  | some key, none => s.start key none

/-- An argument that begins no option: the value that is awaited, or nothing
the command line knows. -/
def operand (s : State) (arg : List Char) : Except Error State :=
  match s.pending, s.operandsOnly with
  | .awaiting key, false => .ok { s with pending := .unchecked key (String.ofList arg) }
  | _, _ => .error .unknownArgument

/-- Whether a group of characters after a dash is a negative number that is
awaited. -/
def awaitsNumber (s : State) (digits : List Char) : Bool :=
  match s.pending with
  | .awaiting .minRssi => looksNumeric true false false digits
  | _ => false

def argument (s : State) (arg : String) : Except Error State :=
  match s.operandsOnly, arg.toList with
  | false, ['-', '-'] => .ok { s with operandsOnly := true }
  | false, '-' :: '-' :: rest => s.long rest
  | false, '-' :: c :: rest =>
    if s.awaitsNumber (c :: rest) then s.operand arg.toList else s.group (c :: rest)
  | _, chars => s.operand chars

end State

/-- Reads all arguments. A capture cannot be both verbose and quiet. -/
def parse (args : List String) : Except Error Options := do
  let s ← args.foldlM State.argument {}
  let s ← s.settle
  if s.options.verbose && s.options.quiet then throw .conflict
  return s.options

end BleCapture.CommandLine
