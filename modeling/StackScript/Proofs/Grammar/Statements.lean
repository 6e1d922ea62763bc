import StackScript.Proofs.Grammar.Declarations
import StackScript.Proofs.Grammar.Scripts

/-!
# The words of statements and scripts

A script whose statements stand on lines of their own is read statement by statement. What is read
is the template up to the lines that its statements start on.

## Main definitions

* `Reader.ReadsStatement`: the words of a statement.
* `Reader.ReadsScript`: the tokens of statements on lines of their own.

## Main results

* `parseScript_of_readsScript`: a script is read as the statements that its tokens spell.
-/

namespace StackScript

namespace Reader

variable {line limit : Nat}

/-- The words of a statement. -/
inductive ReadsStatement (line limit : Nat) : Statement → List Word → Prop
  | header {kind : Header} {value : Expr} {ws : List Word}
      (h : ReadsInside line limit limit ws value) (hfits : headerValueFits kind value = true) :
      ReadsStatement line limit (.header kind value) (.ident kind.keyword :: ws)
  | assign {name : String} {value : Expr} {start : Int} {key : Word} {ws : List Word}
      (hkey : key.kind = .identifier ∨ key.kind = .string) (hname : key.value = name)
      (h : Reads line (expressionAt limit limit) (EndsStatement line) ws value)
      (hd : value.isDeclaration = true) :
      ReadsStatement line limit (.assign name value start) (key :: .sign .equals :: ws)

theorem ReadsStatement.starts {st : Statement} {ws : List Word}
    (h : ReadsStatement line limit st ws) :
    ∃ w more, ws = w :: more ∧ (w.kind = .identifier ∨ w.kind = .string) := by
  cases h with
  | header => exact ⟨_, _, rfl, .inl rfl⟩
  | assign hkey => exact ⟨_, _, rfl, hkey⟩

/-- A statement starts with no level of nesting. -/
theorem run_expression {ws : List Word} {e : Expr} {next : Token → Prop}
    (h : Reads line (expressionAt limit limit) next ws e) {previous last : Token}
    {ts rest : List Token} (hprevious : previous.line = line) (hline : ∀ t ∈ ts, t.line = line)
    (hwords : ts.map Token.word = ws) (hrest : next (rest.headD last)) :
    ∃ previous', (expression limit).run.run (.before previous (ts ++ rest) last 0) =
      (.ok e, .before previous' rest last 0) := by
  obtain ⟨previous', -, hrun⟩ := h previous ts rest last 0 hprevious hline hwords hrest
  refine ⟨previous', ?_⟩
  unfold expression atLevel
  rw [run_bind_ok (run_get _)]
  exact hrun

private theorem run_header {kind : Header} {value : Expr} {ws : List Word}
    (h : ReadsInside line limit limit ws value) (hfits : headerValueFits kind value = true)
    (previous : Token) {t last : Token} {ts rest : List Token} (ht : t.kind = .identifier)
    (hline : ∀ t' ∈ t :: ts, t'.line = line) (hwords : ts.map Token.word = ws)
    (hrest : EndsStatement line (rest.headD last)) :
    ∃ previous', (header limit kind).run.run (.before previous (t :: ts ++ rest) last 0) =
      (.ok (.header kind value), .before previous' rest last 0) := by
  rw [List.forall_mem_cons] at hline
  obtain ⟨previous', hrun⟩ := run_expression h.reads hline.1 hline.2 hwords hrest.stops
  refine ⟨previous', ?_⟩
  unfold header
  rw [List.cons_append, run_bind_ok (run_advance_before (by rw [ht]; decide) ..),
    run_bind_ok (run_current _), run_bind_ok hrun, if_pos hfits]
  rfl

private theorem run_assignment {value : Expr} {ws : List Word}
    (h : Reads line (expressionAt limit limit) (EndsStatement line) ws value)
    (hd : value.isDeclaration = true) (previous : Token) {t last : Token} {ts rest : List Token}
    (ht : t.kind ≠ .eof) (hline : ∀ t' ∈ t :: ts, t'.line = line)
    (hwords : ts.map Token.word = .sign .equals :: ws)
    (hrest : EndsStatement line (rest.headD last)) :
    ∃ previous', (assignment limit).run.run (.before previous (t :: ts ++ rest) last 0) =
      (.ok (.assign t.value value t.line), .before previous' rest last 0) := by
  obtain ⟨sign, ts, rfl, hsign, hwords⟩ := List.map_eq_cons_iff.1 hwords
  simp only [List.forall_mem_cons] at hline
  obtain ⟨previous', hrun⟩ := run_expression h hline.2.1 hline.2.2 hwords hrest
  refine ⟨previous', ?_⟩
  have hkind : sign.kind = .equals := congrArg Word.kind hsign
  unfold assignment
  rw [List.cons_append, List.cons_append, run_bind_ok (run_advance_before ht ..),
    run_bind_ok (run_expect_before hkind (by decide) ..), run_bind_ok (run_current _),
    run_bind_ok hrun, if_pos hd]
  rfl

/-- The keyword of a header that no equals sign follows. -/
private theorem run_statement_header {s : ReaderState} {kind : Header} {next : Token}
    (hid : s.current.kind = .identifier) (hkeyword : Header.ofKeyword? s.current.value = some kind)
    (hhead : s.following.head = .ok next) (hnext : next.kind ≠ .equals) :
    (statement limit).run.run s = (header limit kind).run.run s := by
  have hpeek : peek.run.run s = (.ok next, s) := by
    rw [run_peek, hhead]
    rfl
  unfold statement
  rw [run_bind_ok (run_current s)]
  simp only [hid, if_true, hkeyword]
  rw [run_bind_ok hpeek, if_neg hnext]

/-- A name that an equals sign follows, be it the keyword of a header or not. -/
private theorem run_statement_assignment {s : ReaderState} {next : Token}
    (hname : s.current.kind = .identifier ∨ s.current.kind = .string)
    (hhead : s.following.head = .ok next) (hnext : next.kind = .equals) :
    (statement limit).run.run s = (assignment limit).run.run s := by
  have hpeek : peek.run.run s = (.ok next, s) := by
    rw [run_peek, hhead]
    rfl
  unfold statement
  rw [run_bind_ok (run_current s)]
  generalize (if s.current.kind = .identifier then Header.ofKeyword? s.current.value else none) =
    header?
  cases header? with
  | none => simp only [if_pos hname]
  | some kind =>
    dsimp only
    rw [run_bind_ok hpeek, if_pos hnext]

theorem run_statement {st : Statement} {ws : List Word} (h : ReadsStatement line limit st ws)
    (previous : Token) {ts rest : List Token} {last : Token} (hline : ∀ t ∈ ts, t.line = line)
    (hwords : ts.map Token.word = ws) (hrest : EndsStatement line (rest.headD last)) :
    ∃ st' previous', st'.withoutLine = st.withoutLine ∧
      (statement limit).run.run (.before previous (ts ++ rest) last 0) =
        (.ok st', .before previous' rest last 0) := by
  cases h with
  | @header kind value ws h hfits =>
    obtain ⟨t, ts, rfl, ht, hts⟩ := List.map_eq_cons_iff.1 hwords
    have hkind : t.kind = .identifier := congrArg Word.kind ht
    have hkeyword : Header.ofKeyword? t.value = some kind := by
      rw [show t.value = kind.keyword from congrArg Word.value ht]
      cases kind <;> rfl
    obtain ⟨previous', hrun⟩ := run_header h hfits previous hkind hline hts hrest
    -- The value of a header starts an expression, hence no equals sign comes next.
    obtain ⟨w, more, rfl, hw⟩ := h.starts
    obtain ⟨t', ts, rfl, ht', hts⟩ := List.map_eq_cons_iff.1 hts
    have hequals : t'.kind ≠ .equals := by
      rw [show t'.kind = w.kind from congrArg Word.kind ht']
      exact fun heq => absurd (heq ▸ hw) (by decide)
    exact ⟨_, previous', rfl, (run_statement_header hkind hkeyword rfl hequals).trans hrun⟩
  | @assign name value start key ws hkey hname h hd =>
    obtain ⟨t, ts, rfl, ht, hts⟩ := List.map_eq_cons_iff.1 hwords
    have hkind : t.kind = .identifier ∨ t.kind = .string := by
      rwa [show t.kind = key.kind from congrArg Word.kind ht]
    have heof : t.kind ≠ .eof := by
      rcases hkind with hkind | hkind <;> (rw [hkind]; decide)
    obtain ⟨previous', hrun⟩ := run_assignment h hd previous heof hline hts hrest
    obtain ⟨sign, ts, rfl, hsign, hts⟩ := List.map_eq_cons_iff.1 hts
    have hequals : sign.kind = .equals := congrArg Word.kind hsign
    refine ⟨_, previous', ?_, (run_statement_assignment hkind rfl hequals).trans hrun⟩
    exact congrArg (Statement.assign · value 0) ((congrArg Word.value ht).trans hname)

/-! ### Scripts -/

/-- The tokens of statements on lines of their own. -/
inductive ReadsScript (limit : Nat) : List Statement → List Token → Prop
  | nil : ReadsScript limit [] []
  | cons {line : Nat} {st : Statement} {sts : List Statement} {ts rest : List Token}
      (hline : ∀ t ∈ ts, t.line = line) (h : ReadsStatement line limit st (ts.map Token.word))
      (hrest : ∀ t ∈ rest.head?, t.line ≠ line) (hmore : ReadsScript limit sts rest) :
      ReadsScript limit (st :: sts) (ts ++ rest)

theorem ReadsScript.endsStatement {sts : List Statement} {ts : List Token}
    (h : ReadsScript limit sts ts) {last : Token} (hlast : last.kind = .eof)
    (hfirst : ∀ t ∈ ts.head?, t.line ≠ line) : EndsStatement line (ts.headD last) := by
  cases h with
  | nil => exact .inl hlast
  | cons _ h _ _ =>
    obtain ⟨w, more, hws, hw⟩ := h.starts
    obtain ⟨t, ts, rfl, ht, -⟩ := List.map_eq_cons_iff.1 hws
    refine .inr ⟨?_, hfirst t rfl⟩
    rwa [← ht] at hw

theorem run_statements {sts : List Statement} {ts : List Token} (h : ReadsScript limit sts ts)
    {last : Token} (hlast : last.kind = .eof) {seen : Seen}
    (hseen : ∀ st ∈ sts, ¬ seen.holds st.subject) (hnodup : (sts.map Statement.subject).Nodup)
    {bound : Nat} (hbound : sts.length < bound) (previous : Token) :
    ∃ sts' previous', sts'.map Statement.withoutLine = sts.map Statement.withoutLine ∧
      (statements limit seen bound).run.run (.before previous ts last 0) =
        (.ok sts', .before previous' [] last 0) := by
  induction h generalizing seen bound previous with
  | nil =>
    obtain ⟨bound, rfl⟩ := Nat.exists_eq_add_of_le' hbound
    refine ⟨[], previous, rfl, ?_⟩
    unfold statements
    rw [run_bind_ok (run_current _), if_pos]
    · rfl
    · exact hlast
  | @cons line st sts ts rest hline h hrest hmore ih =>
    obtain ⟨bound, rfl⟩ := Nat.exists_eq_add_of_le' (Nat.one_le_of_lt hbound)
    rw [List.forall_mem_cons] at hseen
    rw [List.map_cons, List.nodup_cons] at hnodup
    obtain ⟨st', previous', hst, hrun⟩ :=
      run_statement h previous hline rfl (hmore.endsStatement hlast hrest)
    have hsubject : st'.subject = st.subject := by
      rw [← st'.subject_withoutLine, hst, st.subject_withoutLine]
    have hnote : seen.note st' = seen.note st := by
      rw [← seen.note_withoutLine st', hst, seen.note_withoutLine st]
    have hnew (st'' : Statement) (hmem : st'' ∈ sts) : ¬ (seen.note st).holds st''.subject := by
      rw [seen.holds_note]
      rintro (heq | hold)
      · exact hnodup.1 (heq ▸ List.mem_map_of_mem hmem)
      · exact hseen.2 st'' hmem hold
    obtain ⟨sts', last', hsts, hruns⟩ :=
      ih hnew hnodup.2 (Nat.lt_of_succ_lt_succ hbound) previous'
    refine ⟨st' :: sts', last', by rw [List.map_cons, List.map_cons, hst, hsts], ?_⟩
    obtain ⟨w, more, hws, hw⟩ := h.starts
    obtain ⟨t, ts, rfl, ht, -⟩ := List.map_eq_cons_iff.1 hws
    have heof : t.kind ≠ .eof := by
      rw [show t.kind = w.kind from congrArg Word.kind ht]
      rcases hw with hw | hw <;> (rw [hw]; decide)
    unfold statements
    rw [run_bind_ok (run_current _), if_neg]
    · rw [run_bind_ok hrun, noteStatement_of_not_holds (hsubject ▸ hseen.1), hnote, pure_bind,
        run_bind_ok hruns]
      rfl
    · exact heof

theorem ReadsScript.length_le {sts : List Statement} {ts : List Token}
    (h : ReadsScript limit sts ts) : sts.length ≤ ts.length := by
  induction h with
  | nil => simp
  | cons _ h _ _ ih =>
    obtain ⟨w, more, hws, -⟩ := h.starts
    have hpos := congrArg List.length hws
    simp only [List.length_map, List.length_cons] at hpos
    rw [List.length_append, List.length_cons]
    omega

end Reader

/-- A script is read as the statements that its tokens spell, up to lines. -/
theorem parseScript_of_readsScript {limit : Nat} {text : List Char} {t : Template}
    {ts : List Token} {last : Token} (htext : TokenStream.ofText text = ⟨ts.map .ok, .ok last⟩)
    (hlast : last.kind = .eof) (h : Reader.ReadsScript limit t.statements ts)
    (hnodup : (t.statements.map Statement.subject).Nodup) :
    ∃ t', parseScript limit text = .ok t' ∧ t'.withoutLines = t.withoutLines := by
  have hbound : t.statements.length <
      (ReaderState.before (ts.headD last) ts last 0).remaining := by
    have := h.length_le
    simp only [ReaderState.remaining, ReaderState.before, List.length_map, List.length_tail]
    omega
  have hnew (st : Statement) (_ : st ∈ t.statements) : ¬ Reader.Seen.holds {} st.subject := by
    cases st <;> simp [Reader.Seen.holds, Statement.subject]
  obtain ⟨sts, previous, hsts, hrun⟩ :=
    Reader.run_statements h hlast hnew hnodup hbound (ts.headD last)
  refine ⟨⟨sts⟩, ?_, congrArg Template.mk hsts⟩
  unfold parseScript
  rw [ReaderState.start_of_ofText htext]
  unfold Reader.template
  simp only [Reader.run_bind_ok (Reader.run_get _), Reader.run_bind_ok hrun]
  rfl

end StackScript
