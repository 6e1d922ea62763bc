import StackScript.Number.Decimal
import StackScript.Path
import StackScript.Text.Lines

/-!
# Places of errors

An error may carry the place it arose at: a line and a column, counted from one, with the file and
the text of the line where they are known. The place is printed before the message, with a caret
under the column.

## Main definitions

* `Context`: a place; `Context.location` and `Context.format` are its texts.
* `Source`: a script with the file it came from; `Source.context` gives a place in it.
* `describe`: a message after the place it belongs to.
-/

namespace StackScript

/-- Where an error arose. -/
structure Context where
  line : Int
  column : Int
  file : Option Path := none
  sourceLine : Option String := none
deriving DecidableEq

namespace Context

private def number (n : Int) : String := String.ofList (Number.intText n)

/-- The file, line and column in one line. -/
def location (ctx : Context) : String :=
  match ctx.file with
  | some file => file.text ++ ":" ++ number ctx.line ++ ":" ++ number ctx.column
  | none => "line " ++ number ctx.line ++ ", column " ++ number ctx.column

/-- The characters of a line before a column; a column below one counts from the end. -/
def beforeColumn (line : List Char) (column : Int) : List Char :=
  let stop := column - 1
  line.take (if 0 ≤ stop then stop.toNat else (stop + line.length).toNat)

/-- The blanks that move the caret under a column: tabs are kept, so that it lines up. -/
def padding (line : List Char) (column : Int) : List Char :=
  (beforeColumn line column).map fun c => if c == '\t' then '\t' else ' '

/-- The location, then the source line with a caret under the column. -/
def format (ctx : Context) : String :=
  match ctx.sourceLine with
  | none => ctx.location
  | some line =>
    let gutter := number ctx.line
    ctx.location ++ "\n " ++ gutter ++ " | " ++ line ++ "\n " ++
      String.ofList (List.replicate gutter.length ' ') ++ " | " ++
      String.ofList (padding line.toList ctx.column) ++ "^"

end Context

/-- A message after the place it belongs to. -/
def describe (place : Option Context) (message : String) : String :=
  match place with
  | some ctx => ctx.format ++ "\n" ++ message
  | none => message

/-- A script with the file it came from. -/
structure Source where
  text : List Char
  file : Option Path := none

/-- The place with the given line and column in a script. -/
def Source.context (source : Source) (line column : Nat) : Context :=
  { line, column, file := source.file
    sourceLine := (Text.lineAt source.text line).map String.ofList }

/-- The place of a statement that is known by its line only; line zero stands for no place. -/
def Context.ofLine? (line : Int) : Option Context :=
  if line = 0 then none else some { line, column := 1 }

end StackScript
