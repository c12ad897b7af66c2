/-
# Options of a command

Reading the arguments of a command from the left.  An option is written `--name`, one with a
value `--name value` or `--name=value`; a value of its own does not begin with a dash, and
nothing may be given twice.
-/
namespace DiningRing.CommandLine

/-- An argument. -/
inductive Argument where
  | text (s : String)
  /-- Bytes that are no UTF-8. -/
  | undecodable (bytes : List UInt8)
deriving DecidableEq, Repr

/-- The argument that consists of some bytes. -/
def Argument.ofBytes (bytes : List UInt8) : Argument :=
  match String.fromUTF8? ⟨bytes.toArray⟩ with
  | some s => text s
  | none => undecodable bytes

/-- Why reading stops before any command is run. -/
inductive Stop where
  /-- The arguments make no sense. -/
  | usage
  /-- Only a text about the program was asked for. -/
  | about
deriving DecidableEq, Repr

/-- What an option does to the settings of its command. -/
inductive Effect (σ : Type) where
  | flag (apply : σ → σ)
  /-- Takes a value, which it may refuse. -/
  | value (apply : String → σ → Option σ)

/-- An option. -/
structure Opt (σ : Type) where
  name : String
  effect : Effect σ

/-- A long option in parts: its name, and its value if one is attached. -/
def split (text : String) : String × Option String :=
  let cs := text.toList.drop 2
  match cs.dropWhile (· != '=') with
  | _ :: value => (String.ofList (cs.takeWhile (· != '=')), some (String.ofList value))
  | [] => (String.ofList cs, none)

/-- Whether a text begins with some characters. -/
def begins (text : String) (cs : List Char) : Bool := cs.isPrefixOf text.toList

/-- Whether an argument can be the value of the option before it. -/
def isValue (text : String) : Bool := !begins text ['-'] || text == "-"

/-- The first of the letters after a dash, if an argument consists of them. -/
def Argument.short? : Argument → Option Char
  | text s =>
    match s.toList with
    | '-' :: c :: _ => if c = '-' then none else some c
    | _ => none
  | undecodable (45 :: b :: _) => if b < 128 ∧ b ≠ 45 then some (Char.ofNat b.toNat) else none
  | undecodable _ => none

/-- Why reading stops at an argument that is neither an option's name nor its value:
`requests` are the letters that ask for a text about the program. -/
def stopAt (requests : List Char) (a : Argument) : Stop :=
  if a.short?.any requests.contains then .about else .usage

/-- Reads the options of a command.  `seen` are the names given so far. -/
def readOptions {σ : Type} (options : List (Opt σ)) :
    List Argument → List String → σ → Except Stop σ
  | [], _, s => .ok s
  | .undecodable bytes :: _, _, _ => .error (stopAt ['h'] (.undecodable bytes))
  | .text text :: rest, seen, s =>
    if text = "--" then
      match rest with
      | [] => .ok s
      | _ :: _ => .error .usage
    else if !begins text ['-', '-'] then .error (stopAt ['h'] (.text text))
    else
      let (name, attached) := split text
      if name = "help" then .error (if attached.isNone then .about else .usage)
      else if seen.contains name then .error .usage
      else
        match (options.find? fun o => o.name == name).map Opt.effect with
        | none => .error .usage
        | some (.flag apply) =>
          if attached.isSome then .error .usage
          else readOptions options rest (name :: seen) (apply s)
        | some (.value apply) =>
          match attached, rest with
          | some value, rest =>
            match apply value s with
            | some s => readOptions options rest (name :: seen) s
            | none => .error .usage
          | none, .text value :: rest =>
            if isValue value then
              match apply value s with
              | some s => readOptions options rest (name :: seen) s
              | none => .error .usage
            else .error .usage
          | none, _ => .error .usage

end DiningRing.CommandLine
