import AttrGrammar.Proofs.TraceSink

/-! What a trace takes where nothing bounds it: every line, whole, at the depth at which the trace
stands. What was written before stays in front of it. -/

namespace AttrGrammar.Scan
open Text

namespace TraceLog

/-- A line at a depth of nesting. -/
def lineAt (depth : Nat) (line : String) : String :=
  String.join (List.replicate depth "  ") ++ line ++ "\n"

/-- The escaped first code points of a text, as many as a line may show. -/
def echo (limit : Nat) (text : Slice) : String :=
  String.join ((text.toList.take limit).map traceEscape)

theorem shown_eq_echo (log : TraceLog) (text : Slice) :
    log.shown text = echo log.maxLineLength text := by
  rw [shown, Slice.firstChars_eq_take, echo]

/-- The lines with which an element begins: its name, and one level down the text that lies ahead.
-/
def openingText (limit depth : Nat) (name : String) (ahead : Slice) : String :=
  lineAt depth s!"<{name}>" ++ lineAt (depth + 1) s!"<try>{echo limit ahead}</try>"

/-- What an activation matched, or that it matched nothing. -/
def outcomeLine (limit : Nat) : Option Slice → String
  | some text => s!"<success>{echo limit text}</success>"
  | none => "<fail/>"

/-- The lines with which an element ends, seen from inside: what it matched, and one level up its
name. -/
def closingText (limit depth : Nat) (name : String) (matched : Option Slice) : String :=
  lineAt depth (outcomeLine limit matched) ++ lineAt (depth - 1) s!"</{name}>"

/-- The second trace is the first one, which nothing bounds, with some text behind it. -/
structure Adds (log : TraceLog) (text : String) (log' : TraceLog) : Prop where
  bytes : log'.sink.bytes = log.sink.bytes ++ text.toUTF8
  room : log'.sink.room = none
  maxLineLength : log'.maxLineLength = log.maxLineLength

variable {log log' log'' : TraceLog} {text text' : String}

theorem Adds.refl (h : log.sink.room = none) : log.Adds "" log :=
  ⟨ByteArray.append_empty.symm, h, rfl⟩

theorem Adds.trans (h : log.Adds text log') (h' : log'.Adds text' log'') :
    log.Adds (text ++ text') log'' := by
  refine ⟨?_, h'.room, h'.maxLineLength.trans h.maxLineLength⟩
  rw [h'.bytes, h.bytes, ByteArray.append_assoc]
  rfl

/-! ### Lines -/

/-- Without a bound, a way to write takes the trace to depth `depth`, with some text behind it. -/
structure Puts (write : TraceLog → Bool × TraceLog) (log : TraceLog) (text : String) (depth : Nat) :
    Prop where
  done : (write log).1 = true
  adds : log.Adds text (write log).2
  indent : (write log).2.indent = depth

theorem puts_line (h : log.sink.room = none) {write : TraceLog → Bool × TraceLog} {line : String}
    (hwrite : write log = log.writeLine line) :
    Puts write log (lineAt log.indent line) log.indent := by
  obtain ⟨hdone, hbytes, hroom, -⟩ := Sink.write_unlimited h (lineAt log.indent line)
  refine ⟨?_, ?_, ?_⟩ <;> rw [hwrite]
  · exact hdone
  · exact ⟨hbytes, hroom, rfl⟩
  · rfl

theorem puts_beginRule (h : log.sink.room = none) (name : String) :
    Puts (·.beginRule name) log (lineAt log.indent s!"<{name}>") (log.indent + 1) := by
  obtain ⟨hdone, hadds, hindent⟩ := @puts_line log h (·.writeLine s!"<{name}>") _ rfl
  refine ⟨?_, ?_, ?_⟩ <;> rw [beginRule_eq]
  · exact hdone
  · exact ⟨hadds.bytes, hadds.room, hadds.maxLineLength⟩
  · dsimp only at hdone hindent ⊢
    rw [hindent, hdone]
    rfl

theorem puts_endRule (h : log.sink.room = none) (name : String) :
    Puts (·.endRule name) log (lineAt (log.indent - 1) s!"</{name}>") (log.indent - 1) := by
  have hline := @puts_line { log with indent := log.indent - 1 } h (·.writeLine s!"</{name}>") _ rfl
  exact ⟨hline.done, ⟨hline.adds.bytes, hline.adds.room, hline.adds.maxLineLength⟩, hline.indent⟩

/-! ### Several lines -/

/-- Writes one thing after the other until something cannot be written. -/
def writeAll : List (TraceLog → Bool × TraceLog) → TraceLog → Bool × TraceLog
  | [], log => (true, log)
  | write :: rest, log => if (write log).1 then writeAll rest (write log).2 else write log

/-- The same where there may be no trace to write. -/
def tracing (writes : List (TraceLog → Bool × TraceLog)) (log : Option TraceLog) :
    Bool × Option TraceLog :=
  match log with
  | none => (true, none)
  | some log => ((writeAll writes log).1, some (writeAll writes log).2)

theorem tracing_pair {write write' : TraceLog → Bool × TraceLog} {depth depth' : Nat}
    (h : Puts write log text depth) (h' : Puts write' (write log).2 text' depth') :
    ∃ log', tracing [write, write'] (some log) = (true, some log') ∧
      log.Adds (text ++ text') log' ∧ log'.indent = depth' := by
  refine ⟨(write' (write log).2).2, ?_, h.adds.trans h'.adds, h'.indent⟩
  simp only [tracing, writeAll, h.done, h'.done, if_true]

theorem tracing_opening (h : log.sink.room = none) (name : String) (ahead : Slice) :
    ∃ log', tracing [(·.beginRule name), (·.tryInput ahead)] (some log) = (true, some log') ∧
      log.Adds (openingText log.maxLineLength log.indent name ahead) log' ∧
        log'.indent = log.indent + 1 := by
  have hbegin := puts_beginRule h name
  refine tracing_pair hbegin ?_
  have htry : Puts (·.tryInput ahead) (log.beginRule name).2 _ _ := puts_line hbegin.adds.room rfl
  rwa [shown_eq_echo, hbegin.indent, hbegin.adds.maxLineLength] at htry

theorem tracing_closing (h : log.sink.room = none) (name : String) (matched : Option Slice)
    {write : TraceLog → Bool × TraceLog}
    (hwrite : write log = log.writeLine (outcomeLine log.maxLineLength matched)) :
    ∃ log', tracing [write, (·.endRule name)] (some log) = (true, some log') ∧
      log.Adds (closingText log.maxLineLength log.indent name matched) log' ∧
        log'.indent = log.indent - 1 := by
  have hline := puts_line h hwrite
  have hend := puts_endRule hline.adds.room name
  rw [hline.indent] at hend
  exact tracing_pair hline hend

end TraceLog

end AttrGrammar.Scan
