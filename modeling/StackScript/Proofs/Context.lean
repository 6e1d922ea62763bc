import StackScript.Context
import StackScript.Proofs.Text.Lines

/-!
# Places that are shown

A place that is given by the characters before it lies in a line of the script, and at most one
column after the end of that line. When it is shown, the caret stands under its column: tabs are
kept before it, and every other character gives a space.

## Main definitions

* `Context.LiesIn`: a place in a line of a text.
* `Context.PutsCaret`: a place that is shown with a caret under its column.

## Main results

* `Source.liesIn_context`: the place after some characters of a script lies in their last line.
* `Context.LiesIn.putsCaret`: a place in a line is shown with a caret under its column.
-/

namespace StackScript

open Text

namespace Context

variable {ctx : Context} {text row : List Char}

/-- A place in a line of a text, or right after it. The line is shown with the place. -/
structure LiesIn (ctx : Context) (text row : List Char) : Prop where
  one_le_line : 1 ≤ ctx.line
  line_le : ctx.line ≤ (lines text).length
  getElem : (lines text)[(ctx.line - 1).toNat]? = some row
  sourceLine : ctx.sourceLine = some (String.ofList row)
  one_le_column : 1 ≤ ctx.column
  column_le : ctx.column ≤ row.length + 1

/-- A place that is shown by a line and a caret below it. After the gutter, which holds the number
of the line, the caret comes after as many characters as there are columns before the place: a tab
under each tab of the line, and a space elsewhere. -/
structure PutsCaret (ctx : Context) (row pad : List Char) : Prop where
  format : ctx.format =
    ctx.location ++ "\n " ++ String.ofList (Number.intText ctx.line) ++ " | " ++
      String.ofList row ++ "\n " ++
      String.ofList (List.replicate (Number.intText ctx.line).length ' ') ++ " | " ++
      String.ofList pad ++ "^"
  length : (pad.length : Int) = ctx.column - 1
  tab : ∀ i < pad.length, row[i]? = some '\t' → pad[i]? = some '\t'
  space : ∀ i < pad.length, row[i]? ≠ some '\t' → pad[i]? = some ' '

theorem padding_eq (row : List Char) {column : Int} (h : 1 ≤ column) :
    padding row column =
      (row.take (column - 1).toNat).map fun c => if c == '\t' then '\t' else ' ' := by
  rw [padding, beforeColumn, if_pos (by omega)]

theorem format_eq (h : ctx.sourceLine = some (String.ofList row)) :
    ctx.format = ctx.location ++ "\n " ++ String.ofList (Number.intText ctx.line) ++ " | " ++
      String.ofList row ++ "\n " ++
      String.ofList (List.replicate (Number.intText ctx.line).length ' ') ++ " | " ++
      String.ofList (padding row ctx.column) ++ "^" := by
  have hlength : (String.ofList (Number.intText ctx.line)).length =
      (Number.intText ctx.line).length := String.length_ofList
  unfold format
  rw [h, ← hlength]
  dsimp only
  rw [String.toList_ofList]
  rfl

/-- A place in a line is shown with a caret under its column. -/
theorem LiesIn.putsCaret (h : ctx.LiesIn text row) :
    ctx.PutsCaret row (padding row ctx.column) := by
  have hpadding := padding_eq row h.one_le_column
  have hlength : (padding row ctx.column).length = (ctx.column - 1).toNat := by
    have hle := h.column_le
    rw [hpadding, List.length_map, List.length_take]
    omega
  have hpad (i : Nat) (hi : i < (padding row ctx.column).length) :
      (padding row ctx.column)[i]? = row[i]?.map fun c => if c == '\t' then '\t' else ' ' := by
    rw [hlength] at hi
    rw [hpadding, List.getElem?_map, List.getElem?_take_of_lt hi]
  have hone := h.one_le_column
  constructor
  · exact format_eq h.sourceLine
  · omega
  · intro i hi htab
    rw [hpad i hi, htab]
    rfl
  · intro i hi htab
    have hrow : i < row.length := by
      have hle := h.column_le
      omega
    rw [hpad i hi]
    rw [List.getElem?_eq_getElem hrow] at htab ⊢
    simpa using fun hc => htab (congrArg some hc)

end Context

/-- The place after some characters of a script lies in the line that they end in. -/
theorem Source.liesIn_context {source : Source} {before rest : List Char}
    (h : source.text = before ++ rest) :
    (source.context (lineAfter before) (columnAfter before)).LiesIn source.text
      (lastLine before ++ rest.takeWhile (· != '\n')) := by
  have hle : lineAfter before ≤ (lines source.text).length :=
    h ▸ lineAfter_le_length_lines before rest
  have hline : (lines source.text)[((lineAfter before : Int) - 1).toNat]? =
      some (lastLine before ++ rest.takeWhile (· != '\n')) := by
    rw [h, ← getElem?_lines]
    simp [lineAfter]
  have hone : 1 ≤ (lineAfter before : Int) := Int.ofNat_le.2 (Nat.succ_pos _)
  have hcolumn : columnAfter before ≤
      (lastLine before ++ rest.takeWhile (· != '\n')).length + 1 := by
    rw [columnAfter, List.length_append]
    omega
  constructor
  · exact hone
  · exact Int.ofNat_le.2 hle
  · exact hline
  · have hat : lineAt source.text (lineAfter before) =
        some (lastLine before ++ rest.takeWhile (· != '\n')) := by
      rw [lineAt, if_neg (Int.not_lt.2 hone), hline]
    rw [Source.context, hat]
    rfl
  · exact Int.ofNat_le.2 (Nat.succ_pos _)
  · exact Int.ofNat_le.2 hcolumn

end StackScript
