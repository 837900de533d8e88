import ExprLang.Proofs.Evaluation.Soundness
import ExprLang.Proofs.Session.Ends
import ExprLang.Proofs.Token.DigitRun

/-! The status of a session.

    A command line is refused, or its session ends with status zero or one, or it ends with a failure
    that it does not answer. There are few of these (`Escapes`): a path with a NUL in it, a run of
    digits that is too long, and what a renderer fails with, unless this is a fault of the system or
    the lack of a program. One lemma for each stage of a session says which failures can come out of
    it, and `run_status` puts them together. -/

namespace ExprLang

open CommandLine Files Lexical Text

/-! ### What can go wrong with a text -/

/-- A failure that a text can cause: one that is answered, or a run of digits that is too long. -/
def Failure.OfText (s : String) (f : Failure) : Prop :=
  f.ending = .status 1 ∨ ∃ ds, ds <:+: s.toList ∧ IsDigits ds ∧ Lexer.maxDigits < ds.length ∧
    f = .tooManyDigits ds.length

section Texts

variable {s : String}

theorem ofText_of_run {e : LexError} (h : (Lexer.run (Cursor.ofText s)).error? = some e) :
    e.failure.OfText s := by
  rcases isLexical_or_tooManyDigits h with ⟨d, hd, -⟩ | ⟨ds, hinfix, hds, hlong, rfl⟩
  · rw [hd]
    exact .inl rfl
  · exact .inr ⟨ds, hinfix, hds, hlong, rfl⟩

theorem ofText_of_parse {err : ParseError} (h : parse s = .error err) : err.failure.OfText s := by
  cases err with
  | lexical l => exact ofText_of_run (run_of_parseWithin_lexical h).1
  | unexpected t production => exact .inl rfl
  | slotOccupied o => exact absurd h (parseWithin_ne_slotOccupied o)
  | tooDeep => exact .inl rfl

/-- All that can go wrong when the tree of a text is evaluated is answered. -/
theorem ending_of_evaluate {e : Expr} {err : EvalError} (h : parse s = .ok e)
    (herr : Evaluation.evaluate e = .error err) : err.failure.ending = .status 1 := by
  have hyields := Evaluation.evaluate_of_parseWithin h
  rw [herr] at hyields
  cases hyields with
  | undefined _ hundefined => cases hundefined <;> rfl
  | unbound => rfl

end Texts

/-- What is read of a source fails in a way that is answered, unless its path has a NUL. -/
theorem gives_read {σ : Type} {disk : Disk (StateM σ)} {path : String} {s : σ} :
    Disk.Gives (Source.read disk path) s fun r _ => ∀ f, r = .error f →
      f.ending = .status 1 ∨ Path.hasNul path = true ∧ f = .file .nul := by
  unfold Source.read
  refine .bind (Disk.accounted_readFile.mono fun r s' hr => ?_)
  split
  · refine Disk.gives_pure fun f hf => .inl ?_
    unfold Source.ofBytes at hf
    split at hf
    · cases hf
    · cases hf
      rfl
  · refine Disk.gives_pure fun f hf => .inl ?_
    cases hf
    rfl
  · rename_i fault _
    refine Disk.gives_pure fun f hf => ?_
    cases hf
    refine (hr fault rfl).imp (fun hanswered => if_pos hanswered) ?_
    rintro ⟨hnul, rfl⟩
    exact ⟨hnul, rfl⟩

/-! ### The failures that are not answered -/

section Escapes

variable {σ : Type}

/-- The failures that no session answers, for the options of a command line and what was read of the
    source. A renderer is given the graph of the tree, and what it fails with is its own affair. -/
inductive Escapes (renderer : Renderer (StateM σ)) (o : Options) (read : Except Failure Source) :
    Failure → Prop
  | file : Path.hasNul o.file = true → Escapes renderer o read (.file .nul)
  | digits {source : Source} {ds : List Char} : read = .ok source → ds <:+: source.text.toList →
    IsDigits ds → Lexer.maxDigits < ds.length → Escapes renderer o read (.tooManyDigits ds.length)
  | output : o.mode = .parse → Path.hasNul o.dumpAst = true → Escapes renderer o read (.file .nul)
  | drawing {source : Source} {e : Expr} {s s' : σ} {f : Failure} : o.mode = .parse → o.viz ≠ "" →
    read = .ok source → parse source.text = .ok e →
    (renderer.draw (e.dotStatements "") o.viz o.vizFormat).run s = (.error f, s') →
    f.ending = .raised f → Escapes renderer o read f

/-- A session ends with status one, or with a failure that no session answers. -/
def Closes (renderer : Renderer (StateM σ)) (o : Options) (read : Except Failure Source)
    (e : Ending) (_ : Console) (_ : σ) : Prop :=
  e = .status 1 ∨ ∃ f, e = .raised f ∧ Escapes renderer o read f

/-- A failure is answered or it ends the session as it is. -/
theorem Failure.ending_cases (f : Failure) : f.ending = .status 1 ∨ f.ending = .raised f := by
  cases f with
  | reported | tooDeep => exact .inl rfl
  | file fault =>
    cases hanswered : fault.isAnswered with
    | true => exact .inl (if_pos hanswered)
    | false => exact .inr (if_neg (by rw [hanswered]; decide))
  | _ => exact .inr rfl

end Escapes

namespace Session

variable {σ : Type} {disk : Disk (StateM σ)} {renderer : Renderer (StateM σ)} {o : Options}
  {read : Except Failure Source} {source : Source} {c : Console} {s : σ}

/-- Nothing is asked of where a session goes on. -/
def Anywhere {α : Type} (_ : α) (_ : Console) (_ : σ) : Prop := True

theorem closes_ending {f : Failure} (h : f.ending = .status 1 ∨ Escapes renderer o read f) :
    Closes renderer o read f.ending c s := by
  rcases h with h | h
  · exact .inl h
  · refine .inr ⟨f, ?_, h⟩
    cases h with
    | drawing _ _ _ _ _ hraised => exact hraised
    | _ => rfl

theorem closes_ofText {f : Failure} (hread : read = .ok source) (h : f.OfText source.text) :
    Closes renderer o read f.ending c s := by
  refine closes_ending (h.imp_right ?_)
  rintro ⟨ds, hinfix, hds, hlong, rfl⟩
  exact .digits hread hinfix hds hlong

theorem scan_closes (hread : read = .ok source) :
    Ends (scan o source) c s Anywhere (Closes renderer o read) := by
  refine .bind (ends_print ?_)
  split
  · rename_i e he
    exact ends_fail (closes_ofText hread (ofText_of_run he))
  · exact ends_detail fun _ _ => trivial

theorem eval_closes (hread : read = .ok source) :
    Ends (eval o source) c s Anywhere (Closes renderer o read) := by
  refine ends_tree (fun e err he _ => ?_) fun err herr => closes_ofText hread (ofText_of_parse herr)
  refine .bind (ends_orFail_mapError (fun v _ => ends_print trivial) fun error herror => ?_)
  exact closes_ending (.inl (ending_of_evaluate he herror))

/-- A tree that is too deep to be written is answered, and so is a file that takes no more. -/
theorem dump_closes (hmode : o.mode = .parse) (e : Expr) :
    Ends (dump disk o e) c s Anywhere (Closes renderer o read) := by
  refine ends_dump rfl (Disk.accounted_writeFile.mono fun r s' hr => ?_)
  cases r with
  | ok _ =>
    dsimp only
    split
    · exact fun _ => trivial
    · exact .inl rfl
  | error fault =>
    refine closes_ending ((hr fault rfl).imp (fun hanswered => if_pos hanswered) ?_)
    rintro ⟨hnul, rfl⟩
    exact .output hmode hnul

theorem draw_closes {e : Expr} (hmode : o.mode = .parse) (hviz : o.viz ≠ "")
    (hread : read = .ok source) (he : ExprLang.parse source.text = .ok e) :
    Ends (draw renderer o e) c s Anywhere (Closes renderer o read) := by
  refine ends_draw ((Disk.gives_run _ s).mono fun r s' hrun => ?_)
  cases r with
  | ok path => exact fun _ => trivial
  | error f =>
    rcases f.ending_cases with hstatus | hraised
    · exact .inl hstatus
    · exact closes_ending (.inr (.drawing hmode hviz hread he hrun hraised))

theorem parse_closes (hmode : o.mode = .parse) (hread : read = .ok source) :
    Ends (parse disk renderer o source) c s Anywhere (Closes renderer o read) := by
  refine ends_tree (fun e err he _ => ?_) fun err herr => closes_ofText hread (ofText_of_parse herr)
  refine .bind (ends_print ?_)
  dsimp only
  have hdraw (c' : Console) (s' : σ) :
      Ends (if o.viz != "" then draw renderer o e else pure ()) c' s' Anywhere
        (Closes renderer o read) := by
    split
    · rename_i hviz
      exact draw_closes hmode (bne_iff_ne.mp hviz) hread he
    · exact ends_pure trivial
  split
  · exact .bind ((dump_closes hmode e).mono (fun _ c' s' _ => hdraw c' s') fun _ _ _ h => h)
  · exact hdraw _ _

/-- The options of a command line are refused, or the session that carries them out closes. -/
theorem perform_closes (o : Options) (c : Console) (s : σ) : Ends (perform disk renderer o) c s
    (fun _ _ _ => ¬ (o.mode ≠ .parse ∧ o.wantsFiles = true)) fun e c' s' =>
      if o.mode ≠ .parse ∧ o.wantsFiles = true then e = .status 2
      else Closes renderer o ((Source.read disk o.file).run s).1 e c' s' := by
  refine ends_perform (P := fun _ => True) trivial (fun _ => trivial)
    (fun hr err => by rw [if_pos hr]) fun hr err s' _ _ => ?_
  simp only [if_neg hr]
  have hfail : Disk.Gives (Source.read disk o.file) s fun r _ => ∀ f, r = .error f →
      f.ending = .status 1 ∨ Path.hasNul o.file = true ∧ f = .file .nul := gives_read
  unfold Disk.Gives at hfail
  cases hread : ((Source.read disk o.file).run s).1 with
  | error f =>
    refine closes_ending ((hfail f hread).imp_right ?_)
    rintro ⟨hnul, rfl⟩
    exact .file hnul
  | ok source =>
    have hclose : ∀ x c' s', Ends (x : Session (StateM σ) Unit) c' s' Anywhere
        (Closes renderer o (.ok source)) → Ends x c' s' (fun _ _ _ => ¬ (o.mode ≠ .parse ∧
        o.wantsFiles = true)) (Closes renderer o (.ok source)) :=
      fun x c' s' h => h.mono (fun _ _ _ _ => hr) fun _ _ _ h => h
    refine hclose _ _ _ ?_
    cases hmode : o.mode with
    | scan => exact scan_closes rfl
    | parse => exact parse_closes hmode rfl
    | eval => exact eval_closes rfl

/-- The endings that a command line can have, given what is read of the source at each path. -/
def Possible (renderer : Renderer (StateM σ)) (args : List String)
    (read : String → Except Failure Source) (e : Ending) : Prop :=
  match Options.ofArguments args with
  | .error .help => e = .status 0
  | .error (.misuse _) => e = .status 2
  | .ok o =>
    if o.mode ≠ .parse ∧ o.wantsFiles = true then e = .status 2
    else e = .status 0 ∨ e = .status 1 ∨ ∃ f, e = .raised f ∧ Escapes renderer o (read o.file) f

/-- A command line is refused with status two, answered with help and status zero, or carried out
    and ends with status zero or one, unless it fails in one of the few ways that no session
    answers. So it is on every disk and with every renderer. -/
theorem run_status (disk : Disk (StateM σ)) (renderer : Renderer (StateM σ)) (args : List String)
    (s : σ) : Possible renderer args (fun path => ((Source.read disk path).run s).1)
      ((run disk renderer args).run s).1.ending := by
  refine run_of_ends (P := fun report _ => Possible renderer args _ report.ending) (ends_start ?_)
  unfold Possible
  match Options.ofArguments args with
  | .error .help => rfl
  | .error (.misuse e) => rfl
  | .ok o =>
    dsimp only
    refine (perform_closes o _ s).mono (fun _ c' s' hr => ?_) fun e c' s' he => ?_
    · rw [if_neg hr]
      exact .inl rfl
    · by_cases hr : o.mode ≠ .parse ∧ o.wantsFiles = true
      · rwa [if_pos hr] at he ⊢
      · rw [if_neg hr] at he ⊢
        exact .inr he

/-! ### Trees that are drawn -/

section Drawing

variable {args : List String} {e : Expr}

/-- How a session ends when the last thing it did was to have a tree drawn. -/
def drawnEnding : Except Failure String → Ending
  | .ok _ => .status 0
  | .error f => f.ending

/-- A session that has a tree drawn, and does not write it, ends with status zero if there is a
    drawing, and else on account of what the renderer fails with: with status one if a program is
    missing or the system has a reason, and with the failure itself if it is any other. -/
theorem run_drawing (ho : Options.ofArguments args = .ok o) (hmode : o.mode = .parse)
    (hdump : o.dumpAst = "") (hviz : o.viz ≠ "") (htree : HasTree disk s o e) : ∃ s',
      ((run disk renderer args).run s).1.ending =
        drawnEnding ((renderer.draw (e.dotStatements "") o.viz o.vizFormat).run s').1 := by
  obtain ⟨source, hread, he⟩ := htree
  refine run_of_ends (P := fun report _ => ∃ s', report.ending =
    drawnEnding ((renderer.draw (e.dotStatements "") o.viz o.vizFormat).run s').1) (ends_start ?_)
  rw [ho]
  refine ends_perform (P := fun _ => True) trivial (fun _ => trivial)
    (fun hrefused => absurd hmode hrefused.1) fun _ err s' _ _ => ?_
  rw [hread, hmode]
  refine ends_tree (fun e' err he' _ => .bind (ends_print ?_)) fun err herr => ?_
  · cases he.symm.trans he'
    dsimp only
    rw [if_neg (by simp [hdump]), if_pos (bne_iff_ne.mpr hviz)]
    refine ends_draw ((Disk.gives_run _ s').mono fun r _ hrun => ?_)
    cases r with
    | ok path => exact fun _ => ⟨s', by rw [hrun, drawnEnding]⟩
    | error f => exact ⟨s', by rw [hrun, drawnEnding]⟩
  · cases herr.symm.trans he

/-- A renderer refuses the formats that are not among these, in small letters, and does nothing. -/
def RefusesUnknown (renderer : Renderer (StateM σ)) (formats : List String) : Prop :=
  ∀ statements path name s, lowerCase name ∉ formats →
    (renderer.draw statements path (some name)).run s =
      (.error (.unknownFormat (lowerCase name) formats), s)

theorem refusesUnknown_sourceOnly (disk : Disk (StateM σ)) :
    RefusesUnknown (.sourceOnly disk) Dot.formats := by
  intro statements path name s hunknown
  have hcheck : Dot.checkFormat (some name) =
      .error (.unknownFormat (lowerCase name) Dot.formats) :=
    if_neg (by rwa [List.contains_iff_mem])
  unfold Renderer.sourceOnly
  dsimp only
  rw [hcheck]
  rfl

/-- Such a renderer ends the session without a status when the format does not exist. -/
theorem run_unknownFormat {formats : List String} {name : String}
    (hknown : RefusesUnknown renderer formats) (ho : Options.ofArguments args = .ok o)
    (hmode : o.mode = .parse) (hdump : o.dumpAst = "") (hviz : o.viz ≠ "")
    (hname : o.vizFormat = some name) (hunknown : lowerCase name ∉ formats)
    (htree : HasTree disk s o e) : ((run disk renderer args).run s).1.ending =
      .raised (.unknownFormat (lowerCase name) formats) := by
  obtain ⟨s', hending⟩ := run_drawing ho hmode hdump hviz htree
  rw [hending, hname, hknown _ _ _ _ hunknown]
  rfl

end Drawing

/-- With a format that does not exist, and with a NUL in the path of a file, a session ends without a
    status. -/
theorem runOn_raised :
    let store := Store.ofFiles [("a", [0x31])]
    RefusesUnknown (.sourceOnly Disk.ofStore) Dot.formats ∧
    (runOn store ["--viz", "t", "--viz-format", "bogus", "a"]).1.ending =
      .raised (.unknownFormat "bogus" Dot.formats) ∧
    (runOn store ["--dump-ast", "\x00", "a"]).1.ending = .raised (.file .nul) :=
  ⟨refusesUnknown_sourceOnly Disk.ofStore, by decide +kernel, by decide +kernel⟩

end Session
end ExprLang
