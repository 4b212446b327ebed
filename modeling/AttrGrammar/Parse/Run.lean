import AttrGrammar.Peg.Domain
import AttrGrammar.Parse.Eval

/-! Whole parses: the skip rule, the start rule and the skip rule again have to consume the whole
input. -/

namespace AttrGrammar.Parse
open Text Scan Peg

variable {V W : Type}

/-- What a parse is given besides the text: the file it comes from, the inherited attributes of the
start rule, and the trace to write, if any. -/
structure Options (V : Type) where
  fileIndex : Nat := 0
  fileName : String := ""
  args : List V := []
  log : Option TraceLog := none

/-- What a parse leaves behind: its outcome, the trace it wrote, its notices and the client's world.
-/
structure Report (α W : Type) where
  outcome : Except Failure α
  log : Option TraceLog
  notices : List Notice
  world : W

/-- Runs the skip rule, the start rule, and after a hit the skip rule again. -/
def runStart (setting : Setting V W) (fuel : Nat) (start : RuleId) : Step V W Match := do
  .skip setting (evalRule setting fuel)
  let matched ← evalRule setting fuel start
  if matched.isHit then
    .skip setting (evalRule setting fuel)
  return matched

/-- Runs a step and then passes the trace on. An error of the step wins over a failure to do so. -/
def flushing (body : Step V W α) : Step V W α := do
  let result ← body
  if let some log := (← get).scanner.log then
    unless log.sink.flush do .fail .log
  return result

def runRule (setting : Setting V W) (fuel : Nat) (start : Rule V W) (args : List V) :
    Step V W (Option V) := do
  let file := setting.source.fileName
  .note (.parsing file start.fullName setting.source.text.size)
  args.forM .push
  let matched ← flushing (runStart setting fuel start.id)
  let cursor := (← get).scanner.cursor
  if matched.isHit && cursor.atEnd setting.source.text then
    .note (.parsed file)
    if start.hasValue then return (← get).stack.peek? else return none
  else
    .note (.stopped file cursor.farthest)
    .failExpecting setting start.info cursor.farthest cursor.farthest

/-- Parses with a grammar, once the input has been found short enough. -/
def runGrammar (d : Domain V W) (g : Grammar) (setting : Setting V W) (fuel : Nat) (args : List V) :
    Step V W (Option V) := do
  let length := setting.source.text.size
  if d.config.maxInputLength > 0 && d.config.maxInputLength < length then
    .fail (.inputTooLarge length d.config.maxInputLength)
  match g.startRule.bind d.rule? with
  | none =>
    .fail (.exception s!"grammar '{g.qualifiedName}' has no start rule"
      (setting.location (.emptyAt setting.source.fileIndex Position.start)))
  | some start =>
    if args.length = start.inherited.length then runRule setting fuel start args
    else .fail (.argumentCount start.fullName start.inherited.length args.length)

/-- Fuel for a parse. Under a limit no activation is nested deeper than the limit. Without one, a
grammar in which no rule calls itself before it has read something never nests deeper than the first
summand; the second leaves room for grammars in which arguments or actions end such calls. -/
def fuelFor (d : Domain V W) (length : Nat) : Nat :=
  if d.config.maxDepth > 0 then d.config.maxDepth + 1
  else (d.rules.size + 1) * (length + 2) + UInt32.size

/-- The setting in which a grammar parses a text. -/
def settingFor (d : Domain V W) (g : Grammar) (text : Buffer) (options : Options V) : Setting V W :=
  { rules := d.rules, skipRule := g.skipRule, maxDepth := d.config.maxDepth,
    source := ⟨text, options.fileIndex, options.fileName⟩ }

def State.start (log : Option TraceLog) (world : W) : State V W :=
  { scanner := .start log, depth := 0, stack := .empty, frame := .ofLocals [], notices := []
    world }

/-- Parses a text with a grammar of a domain, with fuel for a depth of nesting. -/
def parseWithin (fuel : Nat) (d : Domain V W) (g : Grammar) (text : Buffer) (options : Options V)
    (world : W) : Report (Option V) W :=
  let run := runGrammar d g (settingFor d g text options) fuel options.args
  match run (.start options.log world) with
  | .ok v s => ⟨.ok v, s.scanner.log, s.notices.reverse, s.world⟩
  | .error e s => ⟨.error e, s.scanner.log, s.notices.reverse, s.world⟩

def parse (d : Domain V W) (g : Grammar) (text : Buffer) (options : Options V) (world : W) :
    Report (Option V) W :=
  parseWithin (fuelFor d text.size) d g text options world

/-- The grammar of a qualified name, or the error that there is none. -/
def require (d : Domain V W) (name : String) : Except ParseError Grammar :=
  match d.grammar? name with
  | some g => .ok g
  | none => .error (.unknownGrammar name)

end AttrGrammar.Parse
