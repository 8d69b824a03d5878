import Interview.Flows.LaunchForm
import Interview.Flows.TailForm
/-
The command line: runs one of the flows on a terminal and prints the answer.

Options come before the name of the flow, and each flow has options of its own. An option
takes its value from the same word, after an equals sign, or from the next word, which then
must not look like an option. Words that fit nothing are an error, and so is an option that
is given twice, unless it collects its values.

An answer is printed laid out, its parts in the order of their declaration. A user who
leaves is told so in one line, apart from the answers.
-/

set_option autoImplicit false

namespace Interview.Demo

/-! ## Command lines -/

/-- A flow with its options. -/
inductive Flow
  /-- A launch configuration, where some names exist already. -/
  | debug (existing : List String)
  /-- A log group. -/
  | logGroup
  /-- A live-tail request, perhaps with the log group given. -/
  | tail (preset : Option LogGroupChoice)
deriving DecidableEq, Repr

/-- A command line. -/
structure Command where
  plain : Bool
  /-- How long a lookup is made to take, in milliseconds. -/
  latency : Nat
  flow : Flow
deriving DecidableEq, Repr

/-- Whether a word looks like an option. A single hyphen does not. -/
def looksLikeOption (s : String) : Bool :=
  match s.toList with
  | '-' :: _ :: _ => true
  | _ => false

/-- The value that a word attaches to the option of the given name: `--name=value`. -/
def attached? (name word : String) : Option String :=
  let start := name.toList ++ ['=']
  if start.isPrefixOf word.toList then some (String.ofList (word.toList.drop start.length))
  else none

/-- The value of the option of the given name at the front of some words, and the words after
it. -/
def option? (name : String) : List String → Option (String × List String)
  | [] => none
  | word :: rest =>
    match attached? name word with
    | some v => some (v, rest)
    | none =>
      if word = name then
        match rest with
        | v :: rest => if looksLikeOption v then none else some (v, rest)
        | [] => none
      else none

/-- A number of milliseconds: decimal digits, perhaps after a plus sign, that fit 64 bits. -/
def milliseconds? (s : String) : Option Nat :=
  let digits :=
    match s.toList with
    | '+' :: ds => ds
    | ds => ds
  if digits.isEmpty || !digits.all Char.isDigit then none
  else
    let n := digits.foldl (fun n c => 10 * n + (c.toNat - 48)) 0
    if n < twoPow 64 then some n else none

/-- Whether nothing is left but perhaps the sign that ends the options. -/
def isEnd (words : List String) : Bool :=
  words = [] || words = ["--"]

/-- The names after the name of the first flow. -/
def existing? : Nat → List String → Option (List String)
  | 0, _ => none
  | n + 1, words =>
    if isEnd words then some []
    else do
      let (v, rest) ← option? "--existing" words
      let more ← existing? n rest
      return v :: more

/-- The region and the log group after the name of the last flow, each given at most once. -/
def preset? : Nat → Option String → Option String → List String →
    Option (Option String × Option String)
  | 0, _, _, _ => none
  | n + 1, region, group, words =>
    if isEnd words then some (region, group)
    else
      match option? "--region" words, option? "--log-group" words with
      | some (v, rest), _ => if region.isSome then none else preset? n (some v) group rest
      | none, some (v, rest) => if group.isSome then none else preset? n region (some v) rest
      | none, none => none

/-- The flow that some words name. -/
def flow? : List String → Option Flow
  | "debug" :: rest => (existing? (rest.length + 1) rest).map .debug
  | "log-group" :: rest => if isEnd rest then some .logGroup else none
  | "tail" :: rest =>
    match preset? (rest.length + 1) none none rest with
    | some (none, none) => some (.tail none)
    | some (some region, some group) => some (.tail (some ⟨region, group⟩))
    | _ => none
  | _ => none

/-- The command that some words are, with the options given so far. -/
def command? : Nat → Bool → Option Nat → List String → Option Command
  | 0, _, _, _ => none
  | n + 1, plain, latency, words =>
    match words with
    | "--plain" :: rest => if plain then none else command? n true latency rest
    | words =>
      match option? "--latency-ms" words with
      | some (v, rest) =>
        match latency, milliseconds? v with
        | none, some ms => command? n plain (some ms) rest
        | _, _ => none
      | none => (flow? words).map fun f => ⟨plain, latency.getD 400, f⟩

/-- The command that the words of a command line are. -/
def Command.parse? (words : List String) : Option Command :=
  command? (words.length + 1) false none words

/-! ## Running -/

/-- What a flow comes to. -/
inductive Result
  /-- An answer, to be printed. -/
  | answered (text : String)
  /-- The user left. -/
  | left
  /-- The flow failed. -/
  | failed (message : String)

/-- What a program run leaves behind. -/
structure Report where
  exitCode : Nat
  /-- What is printed as the answer. -/
  answer : String
  /-- The lines printed before the prompts. -/
  printed : List String
  /-- Whether the user was told of leaving. -/
  leftNotice : Bool
  /-- The prompt that found the user without moves, if one did. -/
  unanswered : Option Terminal

/-- What an outcome comes to, where answers are laid out as values. -/
def Result.ofOutcome : Outcome (Option Json) → Result
  | .done (some v) => .answered (v.pretty ++ "\n")
  | .done none => .left
  | .failed e => .failed e.message
  | .suspended => .failed "the flow waits for ever"
  | .exhausted => .failed "the flow takes too many turns"

/-- A flow on the terminal of a session, within a number of turns. -/
def Flow.run (n : Nat) (groups : LogGroups) (w : Session) : Flow → Result × Session
  | .debug existing =>
    let s := LaunchConfig.sitting .english existing .empty Options.default
    let (o, _, w) := s.conduct n (fun v => (LaunchConfig.ofJson? v).map LaunchConfig.toJson) w
    (.ofOutcome o, w)
  | .logGroup =>
    let (o, q, w) := (groups.question .english).ask n w
    let w := (q.dispose w).2
    let shown := o.map fun r => (r.value?.bind LogGroupChoice.ofJson?).map LogGroupChoice.toJson
    (.ofOutcome shown, w)
  | .tail preset =>
    match TailRequest.sitting .english groups FilterPattern.validator preset Options.default with
    | .error e => (.failed (RunError.draft e).message, w)
    | .ok s =>
      let (o, _, w) := s.conduct n (fun v => (TailRequest.ofJson? v).map TailRequest.toJson) w
      (.ofOutcome o, w)

/-- A program run on the words of a command line, with a user who makes the given moves. -/
def run (n : Nat) (words : List String) (moves : List Terminal.Move) : Report :=
  match Command.parse? words with
  | none => ⟨2, "", [], false, none⟩
  | some c =>
    let w := Session.new (.terminal (!c.plain) moves)
    match c.flow.run n .sample w with
    | (.answered text, w) => ⟨0, text, w.printed, false, w.unanswered⟩
    | (.left, w) => ⟨0, "", w.printed, true, w.unanswered⟩
    | (.failed _, w) => ⟨1, "", w.printed, false, w.unanswered⟩

end Interview.Demo
