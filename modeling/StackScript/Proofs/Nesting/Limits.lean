import StackScript.Proofs.Nesting.Decompiler

/-!
# Higher nesting limits

A nesting limit only decides how deep a step may go. So two runs of the same step under different
limits go side by side, through the same states, until the lower limit is exceeded: a run that does
not nest too deep is the same run under every higher limit, also where it fails for another reason.
This carries over from single steps to scripts and documents.

## Main definitions

* `LevelCount.Agrees`: a step that does what another one does, unless that one nests too deep.

## Main results

* `LevelCount.Agrees.bind`: steps in a row.
* `Reader.agreement`: scripts under a higher limit.
* `Decompile.agreement`: documents under a higher limit.
* `raising_the_limit`: a higher limit changes nothing but errors of nesting.
-/

namespace StackScript

variable {ε σ α β : Type}

namespace LevelCount

/-- The result of a step is none of nesting too deep. -/
def Stays (count : LevelCount ε σ) (result : Except ε α) : Prop :=
  ∀ e, result = .error e → count.isTooDeep e = false

/-- The second step does what the first one does, unless the first one nests too deep. -/
def Agrees (count : LevelCount ε σ) (step step' : ExceptT ε (StateM σ) α) : Prop :=
  ∀ s, count.Stays (step.run.run s).1 → step'.run.run s = step.run.run s

variable {count : LevelCount ε σ}

namespace Agrees

variable {step step' : ExceptT ε (StateM σ) α} {f f' : α → ExceptT ε (StateM σ) β}

theorem refl (step : ExceptT ε (StateM σ) α) : count.Agrees step step := fun _ _ => rfl

/-- Steps in a row: if both together do not nest too deep, neither does the first one. -/
theorem bind (h : count.Agrees step step') (hf : ∀ a, count.Agrees (f a) (f' a)) :
    count.Agrees (step >>= f) (step' >>= f') := by
  intro s hstays
  cases hstep : step.run.run s with
  | mk r t =>
    have hsame := h s
    rw [hstep] at hsame
    cases r with
    | error e =>
      have hrun : (step >>= f).run.run s = (.error e, t) := by
        simp only [ExceptT.run_bind, StateT.run_bind, hstep]
        rfl
      rw [hrun] at hstays ⊢
      have hstep' := hsame fun e' he => hstays e' (by rw [Except.error.inj he])
      simp only [ExceptT.run_bind, StateT.run_bind, hstep']
      rfl
    | ok a =>
      have hrun : (step >>= f).run.run s = (f a).run.run t := by
        simp only [ExceptT.run_bind, StateT.run_bind, hstep]
        rfl
      rw [hrun] at hstays ⊢
      have hstep' := hsame fun e he => nomatch he
      rw [← hf a t hstays]
      simp only [ExceptT.run_bind, StateT.run_bind, hstep']
      rfl

/-- Steps one level further in. -/
theorem within (enter leave : σ → σ) (h : count.Agrees step step') :
    count.Agrees (α := α) (fun s => ((step (enter s)).1, leave (step (enter s)).2))
      fun s => ((step' (enter s)).1, leave (step' (enter s)).2) := by
  intro s hstays
  have hsame : step' (enter s) = step (enter s) := h (enter s) hstays
  change ((step' (enter s)).1, leave (step' (enter s)).2) = _
  rw [hsame]
  rfl

end Agrees

end LevelCount

/-! ### Scripts -/

namespace Reader

open LevelCount

/-- A step that is one level too deep says nothing about others. -/
theorem agrees_tooDeep {α : Type} (limit : Nat) (step : Reader α) :
    levels.Agrees (tooDeep limit) step :=
  fun _ hstays => nomatch hstays _ rfl

theorem agrees_within {α : Type} {step step' : Reader α} (h : levels.Agrees step step') :
    levels.Agrees (within step) (within step') :=
  h.within (fun s : ReaderState => { s with depth := s.depth + 1 })
    fun s => { s with depth := s.depth - 1 }

/-- That a step agrees with another one carries over to what is put together from them. -/
def agreement : Congruence where
  rel := levels.Agrees
  known _ := True
  pure _ := .refl _
  bind h hf := h.bind hf
  get := .refl _
  current hf := .bind (.refl _) fun t => hf t trivial
  advance hf := .bind (.refl _) fun t => hf t trivial
  peek := .refl _
  failAt _ _ := .refl _
  tooLong := .refl _
  within := agrees_within
  tooDeep := agrees_tooDeep

end Reader

/-! ### Documents -/

namespace Decompile

open LevelCount

/-- A step that is one level too deep says nothing about others. -/
theorem agrees_tooDeep {α : Type} (limit : Nat) (step : Decompile α) :
    levels.Agrees (tooDeep limit) step :=
  fun _ hstays => nomatch hstays _ rfl

theorem agrees_within {α : Type} {step step' : Decompile α} (h : levels.Agrees step step') :
    levels.Agrees (within step) (within step') :=
  h.within (fun s : DecompileState => { s with depth := s.depth + 1 })
    fun s => { s with depth := s.depth - 1 }

/-- That a step agrees with another one carries over to what is put together from them. -/
def agreement : WarningCongruence where
  rel := levels.Agrees
  pure _ := .refl _
  bind h hf := h.bind hf
  atDepth hf s := hf s.depth s
  warn _ := .refl _
  throw _ _ := .refl _
  within := agrees_within
  tooDeep := agrees_tooDeep

end Decompile

/-! ### Runs under two limits -/

/-- A script that does not nest too deep is read alike under every higher limit. -/
theorem parseScript_of_le {limit limit' : Nat} (hle : limit ≤ limit') {text : List Char}
    (h : ∀ e, parseScript limit text = .error e → e.isTooDeep = false) :
    parseScript limit' text = parseScript limit text := by
  unfold parseScript at h ⊢
  cases hstart : ReaderState.start text with
  | error e => rfl
  | ok state =>
    rw [hstart] at h
    exact congrArg Prod.fst (Reader.agreement.rel_template hle state h)

/-- A document that does not nest too deep is read alike under every higher limit, with the same
warnings. -/
theorem decompileTemplate_of_le {limit limit' : Nat} (hle : limit ≤ limit') {document : Value}
    (h : ∀ e, (decompileTemplate limit document).1 = .error e → e.isTooDeep = false) :
    decompileTemplate limit' document = decompileTemplate limit document := by
  revert h
  unfold decompileTemplate Decompile.Scope.ofDocument
  cases document.unfold with
  | map entries =>
    dsimp only
    cases SymbolTable.ofDocument? entries with
    | none => exact fun _ => rfl
    | some symbols =>
      intro h
      have hagrees : Decompile.levels.Agrees (Decompile.template ⟨limit, symbols, entries⟩)
          (Decompile.template ⟨limit', symbols, entries⟩) :=
        Decompile.agreement.rel_template hle rfl trivial rfl
      exact congrArg (fun r => (r.1, r.2.warnings)) (hagrees {} h)
  | _ => exact fun _ => rfl

/-- A higher nesting limit changes nothing but errors of nesting: a script or a document that is not
refused for its nesting gives the same result under every higher limit, be it the same template or
text or the same error in the same place, and the same warnings. -/
theorem raising_the_limit :
    (∀ limit limit' text, limit ≤ limit' →
      (∀ e, parseScript limit text = .error e → e.isTooDeep = false) →
      parseScript limit' text = parseScript limit text) ∧
    (∀ limit limit' document, limit ≤ limit' →
      (∀ e, (decompileTemplate limit document).1 = .error e → e.isTooDeep = false) →
      decompileTemplate limit' document = decompileTemplate limit document) ∧
    ∀ (settings settings' : Settings) document, settings.maxDepth ≤ settings'.maxDepth →
      settings'.indent = settings.indent →
      (∀ e, (decompile settings document).1 = .error e → e.isTooDeep = false) →
      decompile settings' document = decompile settings document := by
  refine ⟨fun _ _ _ hle => parseScript_of_le hle, fun _ _ _ hle => decompileTemplate_of_le hle, ?_⟩
  intro settings settings' document hle hindent h
  -- An error of reading the document is an error of the whole.
  have hread (e : DecompileError)
      (he : (decompileTemplate settings.maxDepth document).1 = .error e) : e.isTooDeep = false := by
    refine h e ?_
    unfold decompile
    dsimp only
    rw [he]
    rfl
  unfold decompile
  rw [decompileTemplate_of_le hle hread, hindent]

/-- A script with a list in a list, which are not closed. -/
private def openScript : List Char := "A = [[1".toList

/-- A document with a list in a list. -/
private def listDocument : Value :=
  .single "Outputs" (.single "A" (.single "Value" (.list [.list [.int 1]])))

/-- The script is refused for its nesting with two levels, but for its missing bracket with three
and with a hundred. The document can be read with three levels, so it can with a hundred. -/
theorem raising_the_limit_listDocument :
    (∃ e e', parseScript 2 openScript = .error e ∧ e.isTooDeep = true ∧
      parseScript 3 openScript = .error e' ∧ e'.isTooDeep = false ∧
      parseScript 100 openScript = .error e') ∧
    (∃ t, (decompileTemplate 3 listDocument).1 = .ok t ∧
      decompileTemplate 100 listDocument = decompileTemplate 3 listDocument) ∧
    ∃ text, (decompile { maxDepth := 3 } listDocument).1 = .ok text ∧
      decompile {} listDocument = decompile { maxDepth := 3 } listDocument := by
  refine ⟨?_, ?_, ?_⟩
  · have hfaults : (match parseScript 2 openScript, parseScript 3 openScript with
        | .error e, .error e' => e.isTooDeep && !e'.isTooDeep
        | _, _ => false) = true := by decide +kernel
    cases h : parseScript 2 openScript with
    | ok t => simp [h] at hfaults
    | error e =>
      cases h' : parseScript 3 openScript with
      | ok t => simp [h, h'] at hfaults
      | error e' =>
        simp only [h, h', Bool.and_eq_true, Bool.not_eq_true'] at hfaults
        have hsame := raising_the_limit.1 3 100 openScript (by decide) fun e he => by
          cases h'.symm.trans he
          exact hfaults.2
        exact ⟨e, e', rfl, hfaults.1, rfl, hfaults.2, hsame.trans h'⟩
  · have hread : (decompileTemplate 3 listDocument).1.toOption.isSome = true := by decide +kernel
    cases h : (decompileTemplate 3 listDocument).1 with
    | error e => simp [h, Except.toOption] at hread
    | ok t =>
      exact ⟨t, rfl, raising_the_limit.2.1 3 100 listDocument (by decide) fun e he =>
        nomatch h.symm.trans he⟩
  · have hread : (decompile { maxDepth := 3 } listDocument).1.toOption.isSome = true := by
      decide +kernel
    cases h : (decompile { maxDepth := 3 } listDocument).1 with
    | error e => simp [h, Except.toOption] at hread
    | ok text =>
      exact ⟨text, rfl, raising_the_limit.2.2 { maxDepth := 3 } {} listDocument (by decide) rfl
        fun e he => nomatch h.symm.trans he⟩

end StackScript
