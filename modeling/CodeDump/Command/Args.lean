import CodeDump.Codec.Ir
import CodeDump.Number.Radix

/-!
# Command lines

`ast FILE` prints a tree and `ir FILE` a module. Options are read from left to right: long
ones as `--name value` or `--name=value`, short ones as `-n value`, `-nvalue` or `-n=value`.
A separate value does not start with a dash, unless it is the dash alone. `--` ends the
options. Anything that does not fit is a usage error. Asking for the version answers at once,
without a look at what follows.
-/

namespace CodeDump.Command

inductive Opt
  | config | depth | step | output
  deriving DecidableEq, Repr

namespace Opt

def long : Opt → String
  | config => "config"
  | depth => "depth"
  | step => "for-step"
  | output => "output"

def short? : Opt → Option Char
  | depth => some 'd'
  | output => some 'o'
  | _ => none

end Opt

/-- What the words of a command line are, given the options that may occur. -/
inductive Token
  | word (s : String)
  | option (opt : Opt) (attached : Option String)
  /-- The end of the options, `--`. -/
  | stop
  | unknown
  deriving DecidableEq, Repr

def longToken (allowed : List Opt) (cs : List Char) : Token :=
  let name := String.ofList (cs.takeWhile (· != '='))
  match allowed.find? fun opt => opt.long == name, cs.dropWhile (· != '=') with
  | none, _ => .unknown
  | some opt, [] => .option opt none
  | some opt, _ :: value => .option opt (some (String.ofList value))

def shortToken (allowed : List Opt) (c : Char) (rest : List Char) : Token :=
  match allowed.find? fun opt => opt.short? == some c, rest with
  | none, _ => .unknown
  | some opt, [] => .option opt none
  | some opt, '=' :: value => .option opt (some (String.ofList value))
  | some opt, value => .option opt (some (String.ofList value))

def token (allowed : List Opt) (arg : String) : Token :=
  match arg.toList with
  | ['-', '-'] => .stop
  | '-' :: '-' :: rest => longToken allowed rest
  | '-' :: c :: rest => shortToken allowed c rest
  | _ => .word arg

/-- Whether a separate argument can be the value of the option before it. -/
def isValue (arg : String) : Bool :=
  match arg.toList with
  | '-' :: _ :: _ => false
  | _ => true

/-- Options with their values, and the other words, each in order. -/
structure Gathered where
  options : List (Opt × String)
  words : List String
  deriving DecidableEq, Repr

namespace Gathered

def withOption (opt : Opt) (value : String) (g : Gathered) : Gathered :=
  { g with options := (opt, value) :: g.options }

def withWord (s : String) (g : Gathered) : Gathered := { g with words := s :: g.words }

/-- No option is given twice. -/
def isSingle (g : Gathered) : Bool :=
  [Opt.config, .depth, .step, .output].all fun opt =>
    (g.options.filter fun o => o.1 == opt).length ≤ 1

def value? (g : Gathered) (opt : Opt) : Option String :=
  (g.options.find? fun o => o.1 == opt).map Prod.snd

end Gathered

def gather (allowed : List Opt) : List String → Option Gathered
  | [] => some ⟨[], []⟩
  | arg :: rest =>
      match token allowed arg with
      | .unknown => none
      | .stop => some ⟨[], rest⟩
      | .word s => (gather allowed rest).map (Gathered.withWord s)
      | .option opt (some value) => (gather allowed rest).map (Gathered.withOption opt value)
      | .option opt none =>
          match rest with
          | [] => none
          | value :: rest =>
              if isValue value then (gather allowed rest).map (Gathered.withOption opt value)
              else none

/-- A path has at least one character. -/
def path? (s : String) : Option String := if s = "" then none else some s

/-- Digits behind an optional sign, from zero to `2 ^ 32 - 1`. -/
def depth? (s : String) : Option UInt32 :=
  let bounded := fun (bound : Nat) (ds : List Char) =>
    ((Radix.value? 10 ds).filter (· < bound)).map UInt32.ofNat
  match s.toList with
  | '+' :: ds => bounded 4294967296 ds
  | '-' :: ds => bounded 1 ds
  | ds => bounded 4294967296 ds

/-- Reads the value of an option that may be missing. -/
def optional? {α : Type} (read : String → Option α) : Option String → Option (Option α)
  | none => some none
  | some s => (read s).map some

inductive Action
  | ast (file : String) (depth : UInt32) (step : Option LoopStep) (output : Option String)
  | ir (file : String) (output : Option String)
  deriving DecidableEq, Repr

end Command

structure Command where
  config : Option String
  action : Command.Action
  deriving DecidableEq, Repr

namespace Command

/-- What a command line asks for. -/
inductive Request
  | run (c : Command)
  | version
  | usage
  deriving DecidableEq, Repr

def defaultDepth : UInt32 := 3

/-- The words behind `ast`; an option given here wins over the one in front. -/
def ast? (config : Option String) (args : List String) : Option Command := do
  let g ← gather [.config, .depth, .step, .output] args
  guard g.isSingle
  let [file] := g.words | none
  let file ← path? file
  let depth ← optional? depth? (g.value? .depth)
  let step ← optional? LoopStep.ofTag? (g.value? .step)
  let output ← optional? path? (g.value? .output)
  let inner ← optional? path? (g.value? .config)
  return ⟨inner <|> config, .ast file (depth.getD defaultDepth) step output⟩

def ir? (config : Option String) (args : List String) : Option Command := do
  let g ← gather [.config, .output] args
  guard g.isSingle
  let [file] := g.words | none
  let file ← path? file
  let output ← optional? path? (g.value? .output)
  let inner ← optional? path? (g.value? .config)
  return ⟨inner <|> config, .ir file output⟩

def asksVersion (arg : String) : Bool :=
  arg == "--version" || "-V".toList.isPrefixOf arg.toList

def ofOption : Option Command → Request
  | some c => .run c
  | none => .usage

/-- The words in front of `ast` and `ir`, where only the configuration may be given. -/
def parseFrom (config : Option String) : List String → Request
  | [] => .usage
  | arg :: rest =>
      if asksVersion arg then .version
      else
        match token [.config] arg with
        | .word "ast" => ofOption (ast? config rest)
        | .word "ir" => ofOption (ir? config rest)
        | .option _ (some value) =>
            if config.isNone ∧ value ≠ "" then parseFrom (some value) rest else .usage
        | .option _ none =>
            match rest with
            | [] => .usage
            | value :: rest =>
                if config.isNone ∧ value ≠ "" ∧ isValue value then parseFrom (some value) rest
                else .usage
        | _ => .usage

def parse (args : List String) : Request := parseFrom none args

end CodeDump.Command
