import ExprLang.Proofs.Expr.Assembly
import ExprLang.Proofs.Expr.Filling
import ExprLang.Proofs.Files.Disk
import ExprLang.Session

/-! Where a session can go.

    `Ends` says of an action with what result it goes on, and how it ends the session if it does not
    go on, each together with the console and the disk that it leaves. There is one rule for
    binding, one for each of the small actions of which a session is made, and one for each of its
    parts. -/

namespace ExprLang

namespace Failure

/-- How a session ends on account of a failure. -/
def ending : Failure → Ending
  | reported _ | tooDeep => .status 1
  | file fault => if fault.isAnswered then .status 1 else .raised (.file fault)
  | f => .raised f

/-- What a session logs about a failure. -/
def logged : Failure → String
  | reported d => d.line ++ "\n"
  | tooDeep => "Error: " ++ tooDeep.message ++ "\n"
  | file fault =>
    if fault.isAnswered then "ERROR Failed to write output: " ++ fault.message ++ "\n" else ""
  | _ => ""

end Failure

namespace Session

open Files.Disk (Gives)

variable {σ α β : Type}

/-- What becomes of an action, with the console and the disk that it leaves. -/
def outcome (x : Session (StateM σ) α) (c : Console) (s : σ) :
    (Except Ending α × Console) × σ := ((ExceptT.run x).run c).run s

/-- An action goes on in a way that `good` allows, or it ends the session in a way that `bad`
    allows. -/
inductive Ends (x : Session (StateM σ) α) (c : Console) (s : σ) (good : α → Console → σ → Prop)
    (bad : Ending → Console → σ → Prop) : Prop
  | goesOn {a : α} {c' : Console} {s' : σ} : outcome x c s = ((.ok a, c'), s') → good a c' s' →
    Ends x c s good bad
  | stops {e : Ending} {c' : Console} {s' : σ} : outcome x c s = ((.error e, c'), s') →
    bad e c' s' → Ends x c s good bad

variable {x : Session (StateM σ) α} {f : α → Session (StateM σ) β} {c : Console} {s : σ}
  {good : α → Console → σ → Prop} {bad : Ending → Console → σ → Prop}

theorem outcome_bind : outcome (x >>= f) c s = match outcome x c s with
    | ((.ok a, c'), s') => outcome (f a) c' s'
    | ((.error e, c'), s') => ((.error e, c'), s') := by
  unfold outcome
  rw [ExceptT.run_bind, StateT.run_bind, StateT.run_bind]
  rcases StateT.run (StateT.run (ExceptT.run x) c) s with ⟨⟨r, c'⟩, s'⟩
  cases r <;> rfl

theorem Ends.bind {good : β → Console → σ → Prop}
    (h : Ends x c s (fun a c' s' => Ends (f a) c' s' good bad) bad) :
    Ends (x >>= f) c s good bad := by
  cases h with
  | goesOn hx h =>
    cases h with
    | goesOn hf h => exact .goesOn (by rw [outcome_bind, hx]; exact hf) h
    | stops hf h => exact .stops (by rw [outcome_bind, hx]; exact hf) h
  | stops hx h => exact .stops (by rw [outcome_bind, hx]) h

theorem Ends.mono {good' : α → Console → σ → Prop} {bad' : Ending → Console → σ → Prop}
    (h : Ends x c s good' bad') (hg : ∀ a c' s', good' a c' s' → good a c' s')
    (hb : ∀ e c' s', bad' e c' s' → bad e c' s') : Ends x c s good bad := by
  cases h with
  | goesOn hx h => exact .goesOn hx (hg _ _ _ h)
  | stops hx h => exact .stops hx (hb _ _ _ h)

/-- An action goes on or it ends the session. -/
theorem ends_of_forall (hg : ∀ a c' s', good a c' s') (hb : ∀ e c' s', bad e c' s') :
    Ends x c s good bad := by
  rcases hx : outcome x c s with ⟨⟨e | a, c'⟩, s'⟩
  · exact .stops hx (hb e c' s')
  · exact .goesOn hx (hg a c' s')

theorem ends_pure {a : α} (h : good a c s) : Ends (pure a) c s good bad := .goesOn rfl h

theorem ends_throw {e : Ending} (h : bad e c s) :
    Ends (throw e : Session (StateM σ) α) c s good bad := .stops rfl h

theorem ends_print {good : Unit → Console → σ → Prop} {t : String}
    (h : good () ⟨c.out ++ t, c.err⟩ s) : Ends (print t) c s good bad := .goesOn rfl h

theorem ends_printError {good : Unit → Console → σ → Prop} {t : String}
    (h : good () ⟨c.out, c.err ++ t⟩ s) : Ends (printError t) c s good bad := .goesOn rfl h

/-- A line for someone who asked for details changes nothing but the log, and not even that where no
    one did. -/
theorem ends_detail {good : Unit → Console → σ → Prop} {o : CommandLine.Options}
    {level text : String} (h : ∀ err, (o.verbose = false → err = c.err) → good () ⟨c.out, err⟩ s) :
    Ends (detail o level text) c s good bad := by
  unfold detail
  split
  · rename_i hverbose
    exact ends_printError (h _ fun hquiet => by rw [hquiet] at hverbose; cases hverbose)
  · exact ends_pure (h _ fun _ => rfl)

/-- What is done on a disk leaves the console alone. -/
theorem ends_onDisk {y : StateM σ α} (h : Gives y s fun a s' => good a c s') :
    Ends (onDisk y) c s good bad := .goesOn rfl h

theorem ends_giveUp {line : String} (h : bad (.status 1) ⟨c.out, c.err ++ (line ++ "\n")⟩ s) :
    Ends (giveUp line : Session (StateM σ) α) c s good bad := .bind (ends_printError (ends_throw h))

theorem ends_fail {failure : Failure}
    (h : bad failure.ending ⟨c.out, c.err ++ failure.logged⟩ s) :
    Ends (fail failure : Session (StateM σ) α) c s good bad := by
  have hraised (hf : bad (.raised failure) ⟨c.out, c.err ++ ""⟩ s) :
      Ends (throw (.raised failure) : Session (StateM σ) α) c s good bad := by
    rw [String.append_empty] at hf
    exact ends_throw hf
  cases failure with
  | reported | tooDeep => exact ends_giveUp h
  | file fault =>
    rw [Failure.ending, Failure.logged] at h
    rw [fail]
    split
    · rename_i hanswered
      rw [if_pos hanswered, if_pos hanswered] at h
      exact ends_giveUp h
    · rename_i hescapes
      rw [if_neg hescapes, if_neg hescapes, String.append_empty] at h
      exact ends_throw h
  | _ => exact hraised h

theorem ends_orFail {r : Except Failure α} (hg : ∀ a, r = .ok a → good a c s)
    (hb : ∀ f, r = .error f → bad f.ending ⟨c.out, c.err ++ f.logged⟩ s) :
    Ends (orFail r) c s good bad := by
  cases r with
  | ok a => exact ends_pure (hg a rfl)
  | error f => exact ends_fail (hb f rfl)

theorem ends_orFail_mapError {ε : Type} {r : Except ε α} {failure : ε → Failure}
    (hg : ∀ a, r = .ok a → good a c s)
    (hb : ∀ e, r = .error e → bad (failure e).ending ⟨c.out, c.err ++ (failure e).logged⟩ s) :
    Ends (orFail (r.mapError failure)) c s good bad := by
  cases r with
  | ok a => exact ends_pure (hg a rfl)
  | error e => exact ends_fail (hb e rfl)

/-- Every tree has its text on one line. -/
theorem ends_surfaceOf {good : String → Console → σ → Prop} {e : Expr} (h : good e.surface c s) :
    Ends (surfaceOf e) c s good bad := by
  rw [surfaceOf, Expr.surfaceText?_eq]
  exact ends_pure h

/-! ### Parts of a session -/

section Parts

variable {disk : Files.Disk (StateM σ)} {renderer : Renderer (StateM σ)} {o : CommandLine.Options}
  {source : Source}

/-- The source that the options name can be read from a disk, and its tree is `e`. -/
def HasTree (disk : Files.Disk (StateM σ)) (s : σ) (o : CommandLine.Options) (e : Expr) : Prop :=
  ∃ source : Source, ((Source.read disk o.file).run s).1 = .ok source ∧
    ExprLang.parse source.text = .ok e

theorem HasTree.unique {e e' : Expr} (h : HasTree disk s o e) (h' : HasTree disk s o e') :
    e = e' := by
  obtain ⟨source, hread, he⟩ := h
  obtain ⟨source', hread', he'⟩ := h'
  cases hread.symm.trans hread'
  exact Except.ok.inj (he.symm.trans he')

/-- The tree of a source is read, and shown to someone who asked for details, before anything is
    done with it. -/
theorem ends_tree {f : Expr → Session (StateM σ) α} {level text : String}
    (hf : ∀ e err, ExprLang.parse source.text = .ok e → (o.verbose = false → err = c.err) →
      Ends (f e) ⟨c.out, err⟩ s good bad)
    (hb : ∀ err, ExprLang.parse source.text = .error err →
      bad err.failure.ending ⟨c.out, c.err ++ err.failure.logged⟩ s) :
    Ends (do
      let e ← orFail ((ExprLang.parse source.text).mapError ParseError.failure)
      if o.verbose then detail o level (text ++ (← surfaceOf e))
      f e) c s good bad := by
  refine .bind (ends_orFail_mapError (fun e he => ?_) hb)
  dsimp only
  split
  · exact .bind (ends_surfaceOf (.bind (ends_detail fun err hquiet => hf e err he hquiet)))
  · exact hf e c.err he fun _ => rfl

/-- What is written of a tree as a structured value is written at once; it is all of the value unless
    the tree is too deep. -/
theorem ends_dump {good : Unit → Console → σ → Prop} {e : Expr} {text : String} {whole : Bool}
    (hrender : Json.render .indented e.toJson = (text, whole))
    (hwrite : Gives (disk.writeFile o.dumpAst text) s fun r s' =>
      match r with
      | .ok _ =>
        if whole = true then ∀ err, good () ⟨c.out, err⟩ s'
        else bad (.status 1) ⟨c.out, c.err ++ Failure.tooDeep.logged⟩ s'
      | .error fault =>
        bad (Failure.file fault).ending ⟨c.out, c.err ++ (Failure.file fault).logged⟩ s') :
    Ends (dump disk o e) c s good bad := by
  rw [dump, Expr.json?_eq]
  dsimp only
  rw [hrender]
  refine .bind (ends_onDisk (hwrite.mono fun r s' hgive => .bind ?_))
  refine ends_orFail_mapError (fun _ hr => ?_) fun fault hr => ?_
  · subst hr
    cases whole with
    | true => exact ends_detail fun err _ => hgive err
    | false => exact ends_fail hgive
  · subst hr
    exact hgive

/-- What becomes of a graph that is to be drawn is up to the renderer. -/
theorem ends_draw {good : Unit → Console → σ → Prop} {e : Expr}
    (hdraw : Gives (renderer.draw (e.dotStatements "") o.viz o.vizFormat) s fun r s' =>
      match r with
      | .ok _ => ∀ err, good () ⟨c.out, err⟩ s'
      | .error f => bad f.ending ⟨c.out, c.err ++ f.logged⟩ s') :
    Ends (draw renderer o e) c s good bad := by
  refine .bind (ends_onDisk (hdraw.mono fun r s' hgive => .bind ?_))
  refine ends_orFail (fun path hr => ?_) fun f hr => ?_
  · subst hr
    exact ends_detail fun err _ => hgive err
  · subst hr
    exact hgive

/-- A disk is left in a state in which reading alone can leave it. -/
theorem gives_source {P : σ → Prop} {path : String} (hs : P s)
    (hread : ∀ path, P ((disk.read path).run s).2) :
    Gives (Source.read disk path) s fun _ s' => P s' := by
  unfold Source.read
  refine .bind ((Files.Disk.gives_readFile hs hread).mono fun r s' hs' => ?_)
  split <;> exact Files.Disk.gives_pure hs'

/-- The options are carried out on the source, once it is read. Until then no more is done to the disk
    than to read from it. -/
theorem ends_perform {P : σ → Prop} {good : Unit → Console → σ → Prop} (hs : P s)
    (hread : ∀ path, P ((disk.read path).run s).2)
    (hrefuse : o.mode ≠ .parse ∧ o.wantsFiles = true → ∀ err, bad (.status 2) ⟨c.out, err⟩ s)
    (hsource : ¬ (o.mode ≠ .parse ∧ o.wantsFiles = true) →
      ∀ err s', (o.verbose = false → err = c.err) → P s' →
        match ((Source.read disk o.file).run s).1 with
        | .ok source => Ends (match o.mode with
            | .scan => scan o source
            | .parse => parse disk renderer o source
            | .eval => eval o source) ⟨c.out, err⟩ s' good bad
        | .error f => bad f.ending ⟨c.out, err ++ f.logged⟩ s') :
    Ends (perform disk renderer o) c s good bad := by
  refine .bind (ends_detail fun err hquiet => ?_)
  dsimp only
  simp only [Bool.and_eq_true, bne_iff_ne]
  split
  · rename_i hr
    exact .bind (.bind (ends_printError (ends_throw (hrefuse hr _))))
  · rename_i hr
    have hgive : Gives (Source.read disk o.file) s fun r s' =>
        r = ((Source.read disk o.file).run s).1 ∧ P s' := ⟨rfl, gives_source hs hread⟩
    refine .bind (ends_onDisk (hgive.mono fun r s' hr' => ?_))
    obtain ⟨rfl, hs'⟩ := hr'
    refine .bind (ends_orFail (fun source hok => ?_) fun f herr => ?_)
    · refine .bind (ends_detail fun err' hquiet' => ?_)
      have hends := hsource hr err' s' (fun hoff => (hquiet' hoff).trans (hquiet hoff)) hs'
      rwa [hok] at hends
    · have hends := hsource hr err s' hquiet hs'
      rwa [herr] at hends

/-- A command line is refused, or asks for help, or has options that are carried out. -/
theorem ends_start {args : List String} {good : Unit → Console → σ → Prop}
    (h : match CommandLine.Options.ofArguments args with
      | .ok o => Ends (perform disk renderer o) c s good bad
      | .error (.misuse e) => bad (.status 2) ⟨c.out, c.err ++ CommandLine.misuseText e⟩ s
      | .error .help => bad (.status 0) ⟨c.out ++ CommandLine.help, c.err⟩ s) :
    Ends (start disk renderer args) c s good bad := by
  unfold start
  match ho : CommandLine.Options.ofArguments args with
  | .ok o => rwa [ho] at h
  | .error (.misuse e) =>
    rw [ho] at h
    exact .bind (ends_printError (ends_throw h))
  | .error .help =>
    rw [ho] at h
    exact .bind (ends_print (ends_throw h))

end Parts

/-- What a command line leaves is known when it is known how its session ends. -/
theorem run_of_ends {disk : Files.Disk (StateM σ)} {renderer : Renderer (StateM σ)}
    {args : List String} {s : σ} {P : Report → σ → Prop}
    (h : Ends (start disk renderer args) ⟨"", ""⟩ s
      (fun _ c s' => P ⟨.status 0, c⟩ s') (fun e c s' => P ⟨e, c⟩ s')) :
    P ((run disk renderer args).run s).1 ((run disk renderer args).run s).2 := by
  have hrun : (run disk renderer args).run s =
      match outcome (start disk renderer args) ⟨"", ""⟩ s with
      | ((.ok _, c), s') => (⟨.status 0, c⟩, s')
      | ((.error e, c), s') => (⟨e, c⟩, s') := by
    unfold run outcome
    rw [StateT.run_bind]
    rcases StateT.run (StateT.run (ExceptT.run (start disk renderer args)) ⟨"", ""⟩) s with
      ⟨⟨r, c⟩, s'⟩
    cases r <;> rfl
  rw [hrun]
  cases h with
  | goesOn hs h => rwa [hs]
  | stops hs h => rwa [hs]

end Session
end ExprLang
