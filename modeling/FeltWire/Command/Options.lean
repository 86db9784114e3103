/-!
# Command-line options

Options that each take a value. An option is given by its name behind two dashes
or by its letter behind one, its value in the next word or in the same one;
between a name and a value in one word stands `=`, between a letter and a value
it may.

## Main definitions

* `OptionSpec`: an option that is understood
* `Options.parse?`: the values that words give to options
-/

namespace FeltWire

/-- An option that is understood, by its long name or its letter. -/
structure OptionSpec where
  name : String
  letter : Char
  required : Bool
  /-- Whether an empty value is one. -/
  allowsEmpty : Bool
deriving DecidableEq, Repr

/-- The values given, by the `name` of each option. -/
abbrev Options := List (String × String)

namespace Options

/-- The value given to the option `name`, if it was given. -/
def get? (options : Options) (name : String) : Option String :=
  (options.find? fun entry => entry.1 = name).map fun entry => entry.2

/-- The option that a `word` names among `specs`, and the value in the same
word. A word that is no option has none. -/
def ofWord? (specs : List OptionSpec) (word : String) : Option (OptionSpec × Option String) :=
  match word.toList with
  | '-' :: '-' :: cs =>
    let name := cs.takeWhile (· ≠ '=')
    let value := match cs.dropWhile (· ≠ '=') with
      | _ :: rest => some (String.ofList rest)
      | [] => none
    (specs.find? fun spec => spec.name.toList = name).map fun spec => (spec, value)
  | '-' :: letter :: cs =>
    let value := match cs with
      | [] => none
      | '=' :: rest => some (String.ofList rest)
      | rest => some (String.ofList rest)
    (specs.find? fun spec => spec.letter = letter).map fun spec => (spec, value)
  | _ => none

/-- Whether `word` can be the value of the option in front of it: it does not
look like an option. A dash alone does not. -/
def isValue (word : String) : Bool :=
  match word.toList with
  | '-' :: _ :: _ => false
  | _ => true

/-- A `value` given to an option that has none yet; a second one is refused. -/
def give? (options : Options) (spec : OptionSpec) (value : String) : Option Options :=
  if (options.get? spec.name).isSome ∨ (value = "" ∧ ¬spec.allowsEmpty) then none
  else some (options ++ [(spec.name, value)])

/-- The values that words give to options, beside the `options` given before. -/
def collect? (specs : List OptionSpec) (options : Options) : List String → Option Options
  | [] => some options
  | ["--"] => some options
  | word :: words =>
    match ofWord? specs word, words with
    | some (spec, some value), words => do
      let options ← give? options spec value
      collect? specs options words
    | some (spec, none), value :: words => do
      guard (isValue value)
      let options ← give? options spec value
      collect? specs options words
    | _, _ => none

/-- **The values that words give to options.** Every word has to belong to one
of the `specs`, none may be given twice, and those that are required have to be
given. -/
def parse? (specs : List OptionSpec) (words : List String) : Option Options := do
  let options ← collect? specs [] words
  guard (specs.all fun spec => !spec.required || (options.get? spec.name).isSome)
  return options

end Options

end FeltWire
