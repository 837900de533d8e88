import ExprLang.Proofs.OneLine
import ExprLang.Proofs.Session.Dump
import ExprLang.Proofs.Session.Status

/-! What a command line makes of a text.

    A session reads its source from a file, prints while it goes and ends at the first failure.
    Reading the tokens, the tree and the value of a text are functions that do nothing of the kind.
    Both come to the same (`runWith_agrees`): what is printed is what the functions give, and nothing
    is printed of a tree or a value where they fail, but the tokens in front of a failure are listed.
    Files are written only for a tree that is asked for (`runWith_keeps`). -/

namespace ExprLang

open CommandLine Files Lexical Text TokenStream

/-! ### Command lines of a mode and a file -/

namespace CommandLine

/-- The option that chooses a mode. -/
def Mode.flag : Mode → String
  | scan => "--scan"
  | parse => "--parse"
  | eval => "--eval"

/-- A mode and a file are all that is asked for. -/
theorem ofArguments_flag {file : String} (hfile : Argument.ofText file = .ok (.plain file))
    (m : Mode) : Options.ofArguments [m.flag, file] = .ok ⟨file, m, "", "", some "svg", false⟩ := by
  have hmarker : file ≠ "--" := by
    rintro rfl
    exact absurd (congrArg Except.toOption hfile) (by decide +kernel)
  have hflag : m.flag ≠ "--" := by cases m <;> decide
  have hmode : Argument.ofText m.flag = .ok (.option (.mode m) (Argument.formOf m.flag) none) := by
    cases m <;> rfl
  have htexts : Argument.ofTexts [m.flag, file] =
      .ok [.option (.mode m) (Argument.formOf m.flag) none, .plain file] := by
    rw [Argument.ofTexts, if_neg hflag, hmode, Argument.ofTexts, if_neg hmarker, hfile]
    rfl
  rw [Options.ofArguments, htexts]
  rfl

end CommandLine

namespace Session

variable {renderer : Renderer (StateM Store)} {store : Store} {o : Options} {source : Source}
  {c : Console} {text : String}

/-! ### What is reported -/

/-- A failure is answered behind what was printed before it. A diagnostic is logged as one line. -/
inductive Answers (out : String) : Failure → Report → Prop
  | reported {d : Diagnostic} : '\n' ∉ d.line.toList →
    Answers out (.reported d) ⟨.status 1, ⟨out, d.line ++ "\n"⟩⟩
  | tooDeep :
    Answers out .tooDeep ⟨.status 1, ⟨out, "Error: expression nested too deeply to process\n"⟩⟩

/-- A result is printed, with a newline behind it, or a failure is answered and nothing printed. -/
inductive Shows {α : Type} (print : α → String) : Except Failure α → Report → Prop
  | done (a : α) : Shows print (.ok a) ⟨.status 0, ⟨print a ++ "\n", ""⟩⟩
  | failed {f : Failure} {report : Report} : Answers "" f report → Shows print (.error f) report

/-- The lines for some tokens. -/
def listings (ts : List Token) : String := String.join (ts.map fun t => t.listing ++ "\n")

/-- The tokens of a text are listed, one on a line, as they are taken one by one: all of them, if the
    text has tokens, and else those in front of the failure, which is answered. -/
inductive Lists (text : String) : Report → Prop
  | whole {ts : List Token} {t : Token} {s s' : TokenStream} : Takes (ofText text) ts s →
    (∀ u ∈ ts, '\n' ∉ u.listing.toList) → next s = .ok t s' → t.kind = .endOfInput →
    tokensOf text = .ok (ts ++ [t]) → Lists text ⟨.status 0, ⟨listings ts, ""⟩⟩
  | front {ts : List Token} {e : LexError} {s s' : TokenStream} {report : Report} :
    Takes (ofText text) ts s → (∀ u ∈ ts, '\n' ∉ u.listing.toList) → next s = .error e s' →
    tokensOf text = .error e → Answers (listings ts) e.failure report → Lists text report

theorem Answers.of_reported {out : String} {f : Failure} {d : Diagnostic} (hf : f = .reported d)
    (hline : '\n' ∉ d.line.toList) : Answers out f ⟨f.ending, ⟨out, f.logged⟩⟩ := by
  subst hf
  exact .reported hline

section Failures

variable {out : String}

theorem isLexical_of_run {e : LexError} (hdigits : DigitRunsWithin Lexer.maxDigits text.toList)
    (h : (Lexer.run (Cursor.ofText text)).error? = some e) : IsLexical e := by
  rcases isLexical_or_tooManyDigits h with hlexical | ⟨ds, hinfix, hds, hlong, -⟩
  · exact hlexical
  · have := hdigits ds hinfix hds.2
    omega

theorem answers_of_run {e : LexError} (hdigits : DigitRunsWithin Lexer.maxDigits text.toList)
    (h : (Lexer.run (Cursor.ofText text)).error? = some e) :
    Answers out e.failure ⟨e.failure.ending, ⟨out, e.failure.logged⟩⟩ := by
  obtain ⟨d, hd, -⟩ := isLexical_of_run hdigits h
  exact .of_reported hd (newline_not_mem_of_run h hd)

theorem answers_of_parse {err : ParseError} (hdigits : DigitRunsWithin Lexer.maxDigits text.toList)
    (h : ExprLang.parse text = .error err) :
    Answers out err.failure ⟨err.failure.ending, ⟨out, err.failure.logged⟩⟩ := by
  cases err with
  | lexical l => exact answers_of_run hdigits (run_of_parseWithin_lexical h).1
  | unexpected t production => exact .of_reported rfl (newline_not_mem_of_parse h rfl)
  | slotOccupied o => exact absurd h (parseWithin_ne_slotOccupied o)
  | tooDeep => exact .tooDeep

theorem answers_of_evaluate {e : Expr} {err : EvalError} (he : ExprLang.parse text = .ok e)
    (h : Evaluation.evaluate e = .error err) :
    Answers out err.failure ⟨err.failure.ending, ⟨out, err.failure.logged⟩⟩ := by
  have hblames := Evaluation.evaluate_of_parseWithin he
  rw [h] at hblames
  have hd : ∃ d, err.failure = .reported d := by
    cases hblames with
    | undefined _ hundefined => cases hundefined <;> exact ⟨_, rfl⟩
    | unbound => exact ⟨_, rfl⟩
  obtain ⟨d, hd⟩ := hd
  exact .of_reported hd (newline_not_mem_of_blames he hblames hd)

end Failures

/-! ### What is printed -/

section Quiet

variable {s : TokenStream}

/-- A session has ended with this report and left the store as it was. -/
def Leaves (P : Report → Prop) (store : Store) (report : Report) (store' : Store) : Prop :=
  P report ∧ store' = store

/-- However an action ends the session, by itself or not, it leaves such a report and the store as
    it was. -/
def Reports (x : Session (StateM Store) Unit) (store : Store) (P : Report → Prop) : Prop :=
  Ends x ⟨"", ""⟩ store (fun _ c' store' => Leaves P store ⟨.status 0, c'⟩ store')
    fun ending c' store' => Leaves P store ⟨ending, c'⟩ store'

/-- The tokens that are listed are those that can be taken, without the end of the input. -/
theorem filter_tokens {ts : List Token} (h : Takes (ofText text) ts s) :
    ts.filter (fun t => t.kind != .endOfInput) = ts :=
  List.filter_eq_self.mpr fun t ht => bne_iff_ne.mpr (h.ne_endOfInput t ht)

theorem newline_not_mem_listing_of_takes {ts : List Token} (h : Takes (ofText text) ts s) :
    ∀ t ∈ ts, '\n' ∉ t.listing.toList := by
  intro t ht
  obtain ⟨c, -, htok, -⟩ := h.run rfl
  have hvalue := Token.newline_not_mem_of_mem_tokens (s := text) (t := t) (by simp [htok, ht])
  exact Token.newline_not_mem_listing (hvalue.resolve_left (h.ne_endOfInput t ht))

theorem scan_reports (hquiet : o.verbose = false)
    (hdigits : DigitRunsWithin Lexer.maxDigits source.text.toList) :
    Reports (scan o source) store (Lists source.text) := by
  obtain ⟨ts, s, htakes, hend⟩ := exists_takes_run (Cursor.ofText source.text)
  have hlines := newline_not_mem_listing_of_takes htakes
  have hfilter := filter_tokens htakes
  refine .bind (ends_print ?_)
  rcases hend with ⟨t, s', hnext, hk, htok, herr⟩ | ⟨e, s', hnext, htok, herr⟩
  · have hlisted : (Lexer.run (Cursor.ofText source.text)).tokens.filter
        (fun u => u.kind != .endOfInput) = ts := by
      rw [htok, List.filter_append, hfilter]
      simp [hk]
    have htokens : tokensOf source.text = .ok (ts ++ [t]) := tokensOf_eq_ok_iff.mpr ⟨htok, herr⟩
    rw [herr, hlisted]
    refine ends_detail fun err herr' => ?_
    rw [herr' hquiet]
    exact ⟨.whole htakes hlines hnext hk htokens, rfl⟩
  · have htokens : tokensOf source.text = .error e := tokensOf_eq_error_iff.mpr herr
    rw [herr, htok, hfilter]
    exact ends_fail ⟨.front htakes hlines hnext htokens (answers_of_run hdigits herr), rfl⟩

/-- The tree is printed, and nothing is written where that is not asked for. -/
theorem parse_reports (hquiet : o.verbose = false) (hdump : o.dumpAst = "") (hviz : o.viz = "")
    (hdigits : DigitRunsWithin Lexer.maxDigits source.text.toList) :
    Reports (parse Disk.ofStore renderer o source) store (Shows (fun e : Expr => e.outline 0)
      ((ExprLang.parse source.text).mapError ParseError.failure)) := by
  refine ends_tree (fun e err he herr => ?_) fun err herr => ?_
  · rw [he, herr hquiet, hdump, hviz]
    exact .bind (ends_print (.bind (ends_pure (ends_pure ⟨.done e, rfl⟩))))
  · rw [herr]
    exact ⟨.failed (answers_of_parse hdigits herr), rfl⟩

theorem eval_reports (hquiet : o.verbose = false)
    (hdigits : DigitRunsWithin Lexer.maxDigits source.text.toList) :
    Reports (eval o source) store (Shows Value.plain (evaluateText source.text)) := by
  refine ends_tree (fun e err he herr => ?_) fun err herr => ?_
  · rw [herr hquiet, evaluateText, evaluateTextWithin_of_ok he]
    refine .bind (ends_orFail_mapError (fun v hv => ?_) fun error herror => ?_)
    · rw [hv]
      exact ends_print ⟨.done v, rfl⟩
    · rw [herror]
      exact ⟨.failed (answers_of_evaluate he herror), rfl⟩
  · rw [evaluateText, evaluateTextWithin_of_error herr]
    exact ⟨.failed (answers_of_parse hdigits herr), rfl⟩

end Quiet

/-- The value of a text is a number. -/
theorem exists_number_of_evaluateText {v : Value} (h : evaluateText text = .ok v) :
    ∃ n, v = .number n := by
  cases hparse : parseWithin Parser.maxDepth text with
  | error err =>
    rw [evaluateText, evaluateTextWithin_of_error hparse] at h
    cases h
  | ok e =>
    have hyields := Evaluation.evaluate_of_parseWithin hparse
    rw [evaluateText, evaluateTextWithin_of_ok hparse] at h
    cases heval : Evaluation.evaluate e with
    | error err =>
      rw [heval] at h
      cases h
    | ok w =>
      rw [heval] at h hyields
      cases h
      obtain ⟨n, hn, -⟩ := hyields
      exact ⟨n, hn⟩

/-! ### What is written -/

section Written

/-- The store is as it was, unless the source has a tree that was to be written to a file. -/
def Keeps (store : Store) (o : Options) (store' : Store) : Prop := store' = store ∨
  o.mode = .parse ∧ (∃ e, HasTree Disk.ofStore store o e) ∧ (o.dumpAst ≠ "" ∨ o.viz ≠ "")

theorem parse_keeps (hmode : o.mode = .parse)
    (hread : ((Source.read Disk.ofStore o.file).run store).1 = .ok source) :
    Ends (parse Disk.ofStore renderer o source) c store (fun _ _ store' => Keeps store o store')
      fun _ _ store' => Keeps store o store' := by
  refine ends_tree (fun e err he _ => ?_) fun _ _ => .inl rfl
  by_cases hfiles : o.dumpAst ≠ "" ∨ o.viz ≠ ""
  · have hasked (store' : Store) : Keeps store o store' :=
      .inr ⟨hmode, ⟨e, source, hread, he⟩, hfiles⟩
    exact ends_of_forall (fun _ _ store' => hasked store') fun _ _ store' => hasked store'
  · rw [not_or, Decidable.not_not, Decidable.not_not] at hfiles
    rw [hfiles.1, hfiles.2]
    exact .bind (ends_print (.bind (ends_pure (ends_pure (.inl rfl)))))

theorem perform_keeps (o : Options) : Ends (perform Disk.ofStore renderer o) c store
    (fun _ _ store' => Keeps store o store') fun _ _ store' => Keeps store o store' := by
  refine ends_perform (P := fun store' => store' = store) rfl (fun _ => rfl)
    (fun _ _ => .inl rfl) fun _ err store' _ hsame => ?_
  rw [hsame]
  rcases hread : ((Source.read Disk.ofStore o.file).run store).1 with f | source
  · exact .inl rfl
  · dsimp only
    cases hmode : o.mode with
    | scan =>
      refine .bind (ends_print ?_)
      split
      · exact ends_fail (.inl rfl)
      · exact ends_detail fun _ _ => .inl rfl
    | parse => exact parse_keeps hmode hread
    | eval =>
      refine ends_tree (fun e err he _ => ?_) fun _ _ => .inl rfl
      exact .bind (ends_orFail_mapError (fun v _ => ends_print (.inl rfl)) fun _ _ => .inl rfl)

/-- Nothing is written for a command line that has no options. -/
theorem runWith_keeps (renderer : Renderer (StateM Store)) (store : Store) (args : List String) :
    (runWith renderer store args).2 = store ∨
      ∃ o, Options.ofArguments args = .ok o ∧ Keeps store o (runWith renderer store args).2 := by
  refine run_of_ends (P := fun _ store' => store' = store ∨
    ∃ o, Options.ofArguments args = .ok o ∧ Keeps store o store') (ends_start ?_)
  match Options.ofArguments args with
  | .error (.misuse e) => exact .inl rfl
  | .error .help => exact .inl rfl
  | .ok o =>
    exact (perform_keeps o).mono (fun _ _ _ h => .inr ⟨o, rfl, h⟩) fun _ _ _ h => .inr ⟨o, rfl, h⟩

end Written

/-! ### Sessions and functions -/

/-- In each mode, the session on a file is what the functions make of a text, and it leaves the store
    as it was. -/
structure Agrees (renderer : Renderer (StateM Store)) (store : Store) (file text : String) :
    Prop where
  scan : ∃ report, runWith renderer store ["--scan", file] = (report, store) ∧ Lists text report
  parse : ∃ report, runWith renderer store ["--parse", file] = (report, store) ∧
    Shows (fun e : Expr => e.outline 0) ((ExprLang.parse text).mapError ParseError.failure) report
  eval : ∃ report, runWith renderer store ["--eval", file] = (report, store) ∧
    Shows Value.plain (evaluateText text) report
  number : ∀ v, evaluateText text = .ok v → ∃ n, v = .number n

/-- A session on a file is known when it is known what is done with its text. -/
theorem runWith_flag (renderer : Renderer (StateM Store)) {file : String} {bytes : List UInt8}
    {P : Report → Prop} {m : Mode} (hfile : Argument.ofText file = .ok (.plain file))
    (hnul : Path.hasNul file = false)
    (hread : store.read file = .ok bytes) (hdecode : Utf8.decode bytes = .ok text.toList)
    (hreturn : '\r' ∉ text.toList)
    (h : ∀ o : Options, o.verbose = false → o.dumpAst = "" → o.viz = "" →
      Reports (match m with
        | .scan => scan o ⟨file, text⟩
        | .parse => Session.parse Disk.ofStore renderer o ⟨file, text⟩
        | .eval => eval o ⟨file, text⟩) store P) :
    ∃ report, runWith renderer store [m.flag, file] = (report, store) ∧ P report := by
  have hsource : ((Source.read Disk.ofStore file).run store).1 = .ok ⟨file, text⟩ := by
    rw [source_of_read hnul hread, Source.ofBytes, hdecode]
    dsimp only
    rw [normalizeNewlines_eq_self _ hreturn, String.ofList_toList]
  have hleaves : Leaves P store (runWith renderer store [m.flag, file]).1
      (runWith renderer store [m.flag, file]).2 := by
    refine run_of_ends (ends_start ?_)
    rw [ofArguments_flag hfile]
    refine ends_perform (P := fun store' => store' = store) rfl (fun _ => rfl)
      (fun hrefused => absurd hrefused.2 (by simp [Options.wantsFiles]))
      fun _ err store' hquiet hsame => ?_
    rw [hsource, hquiet rfl, hsame]
    exact h _ rfl rfl rfl
  exact ⟨_, Prod.ext rfl hleaves.2, hleaves.1⟩

/-- The command line agrees with the functions. If a file holds a text without carriage returns and
    without a run of digits that is too long, its tokens are listed up to the end or to the first
    failure, its tree or its value is printed if there is one, and each failure is answered on one
    line. No command line changes the store unless a tree was to be written to a file. So it is with
    every renderer. -/
theorem runWith_agrees {file : String} {bytes : List UInt8}
    (hfile : Argument.ofText file = .ok (.plain file)) (hnul : Path.hasNul file = false)
    (hread : store.read file = .ok bytes) (hdecode : Utf8.decode bytes = .ok text.toList)
    (hreturn : '\r' ∉ text.toList) (hdigits : DigitRunsWithin Lexer.maxDigits text.toList) :
    Agrees renderer store file text ∧ ∀ (store' : Store) (args : List String),
      (runWith renderer store' args).2 = store' ∨ ∃ o e, Options.ofArguments args = .ok o ∧
        o.mode = .parse ∧ HasTree Disk.ofStore store' o e ∧ (o.dumpAst ≠ "" ∨ o.viz ≠ "") := by
  have hrun {m : Mode} {P : Report → Prop} :=
    runWith_flag (P := P) (m := m) renderer hfile hnul hread hdecode hreturn
  constructor
  · exact {
      scan := hrun (m := .scan) fun o hquiet _ _ => scan_reports hquiet hdigits
      parse := hrun (m := .parse) fun o hquiet hdump hviz => parse_reports hquiet hdump hviz hdigits
      eval := hrun (m := .eval) fun o hquiet _ _ => eval_reports hquiet hdigits
      number := fun v hv => exists_number_of_evaluateText hv }
  · intro store' args
    rcases runWith_keeps renderer store' args with hsame | ⟨o, ho, hsame | ⟨hmode, ⟨e, htree⟩, hfiles⟩⟩
    · exact .inl hsame
    · exact .inl hsame
    · exact .inr ⟨o, e, ho, hmode, htree, hfiles⟩

/-- Behind a one, an `@` begins no token. A listing has a line for the one before this is reported,
    and where the value is asked for, nothing is printed. -/
theorem runWith_agrees_front :
    let bytes : List UInt8 := [0x31, 0x20, 0x40]
    let store : Store := ⟨[(["a"], bytes)], [], none⟩
    let log := "Lexical error: 1:3: unexpected character '@'\n"
    (Argument.ofText "a" = .ok (.plain "a") ∧ Path.hasNul "a" = false ∧
      store.read "a" = .ok bytes ∧ Utf8.decode bytes = .ok "1 @".toList ∧ '\r' ∉ "1 @".toList ∧
      DigitRunsWithin Lexer.maxDigits "1 @".toList) ∧
    runOn store ["--scan", "a"] = (⟨.status 1, ⟨"integer 1\n", log⟩⟩, store) ∧
    runOn store ["--eval", "a"] = (⟨.status 1, ⟨"", log⟩⟩, store) := by
  intro bytes store log
  have hfile : Argument.ofText "a" = .ok (.plain "a") := rfl
  have hread : store.read "a" = .ok bytes := rfl
  have hdecode : Utf8.decode bytes = .ok "1 @".toList := rfl
  have hdigits : DigitRunsWithin Lexer.maxDigits "1 @".toList :=
    digitRunsWithin_of_length_le (by decide)
  have hlog : (Diagnostic.mk (.unexpectedChar "@") ⟨1, 3⟩).line ++ "\n" = log := by decide +kernel
  have hparse : ExprLang.parse "1 @" = .error (.lexical (.unexpectedChar '@' ⟨1, 3⟩)) := by rfl
  have htokens : (Lexer.run (Cursor.ofText "1 @")).tokens = [⟨.integer, .number 1, ⟨1, 1⟩⟩] ∧
      (Lexer.run (Cursor.ofText "1 @")).error? = some (.unexpectedChar '@' ⟨1, 3⟩) := by
    decide +kernel
  obtain ⟨hagrees, -⟩ : Agrees (.sourceOnly Disk.ofStore) store "a" "1 @" ∧ _ :=
    runWith_agrees hfile rfl hread hdecode (by decide) hdigits
  refine ⟨⟨hfile, rfl, hread, hdecode, by decide, hdigits⟩, ?_, ?_⟩
  · obtain ⟨report, hrun, hlists⟩ := hagrees.scan
    rw [runOn, hrun]
    cases hlists with
    | whole _ _ _ _ hok => cases (tokensOf_eq_error_iff.mpr htokens.2).symm.trans hok
    | @front ts e s s' _ htakes _ hnext _ hanswers =>
      obtain ⟨hts, he⟩ := Sees.run_of_error ⟨s, htakes, peek_eq_error_iff.mpr hnext⟩
      obtain rfl : [_] = ts := htokens.1.symm.trans hts
      cases htokens.2.symm.trans he
      cases hanswers
      rw [← hlog]
      rfl
  · obtain ⟨report, hrun, hshows⟩ := hagrees.eval
    rw [evaluateText, evaluateTextWithin_of_error hparse] at hshows
    rw [runOn, hrun]
    cases hshows with
    | failed hanswers =>
      cases hanswers
      rw [← hlog]
      rfl

end Session
end ExprLang
