import ExprLang.Proofs.Expr.Prefixes
import ExprLang.Proofs.Session.Ends
import ExprLang.Proofs.Text.Utf8

/-! What is left of the file that a tree is written to.

    A session that writes its tree to a file, and draws nothing, leaves the file as it was, or with
    the whole text of the tree, or with a beginning of it, and the last it reports (`run_dumped`).
    There is no more than a beginning if the disk stops taking bytes, and if the tree is too high for
    the writer. A tree can be that high without any nesting that its reader minds (`runOn_cut`). -/

namespace ExprLang

open CommandLine Files Text

namespace Session

section Dumped

variable {σ : Type} {disk : Disk (StateM σ)} {renderer : Renderer (StateM σ)}
  {contents : σ → String → Option (List UInt8)} {o : Options} {args : List String} {c : Console}
  {s s₁ : σ} {e : Expr}

/-- The bytes of the whole text of a tree. -/
def wholeBytes (e : Expr) : List UInt8 := Utf8.encode (Json.whole .indented 0 e.toJson)

/-- The lines that report a file which is cut off. -/
inductive CutLine : String → Prop
  | tooDeep : CutLine "Error: expression nested too deeply to process\n"
  | output (reason : String) : CutLine ("ERROR Failed to write output: " ++ reason ++ "\n")

/-- What a session leaves of the file that the tree is written to: what it held before; or the whole
    text of the tree; or a proper beginning of it, with a report that says so. It is the whole text
    if the session ends with status zero and was given a path. -/
inductive Dumped (disk : Disk (StateM σ)) (contents : σ → String → Option (List UInt8))
    (o : Options) (s : σ) (report : Report) (s' : σ) : Prop
  | untouched : contents s' o.dumpAst = contents s o.dumpAst →
    (report.ending = .status 0 → o.dumpAst = "") → Dumped disk contents o s report s'
  | whole {e : Expr} : HasTree disk s o e → contents s' o.dumpAst = some (wholeBytes e) →
    Dumped disk contents o s report s'
  | cut {e : Expr} {bytes : List UInt8} {log line : String} : HasTree disk s o e →
    bytes <+: wholeBytes e → bytes ≠ wholeBytes e → contents s' o.dumpAst = some bytes →
    report.ending = .status 1 → report.console.err = log ++ line → CutLine line →
    Dumped disk contents o s report s'

/-- No failure ends a session with status zero. -/
theorem ending_ne (f : Failure) : f.ending ≠ .status 0 := by
  cases f with
  | file fault =>
    rw [Failure.ending]
    split <;> simp
  | _ => simp [Failure.ending]

/-- A session that draws nothing ends without a tree, or it has one and goes on to write it if there
    is a path. Until then it has done no more to the disk than read from it. -/
theorem ends_written {P : σ → Prop} {good : Unit → Console → σ → Prop}
    {bad : Ending → Console → σ → Prop} (hs : P s) (hread : ∀ path, P ((disk.read path).run s).2)
    (ho : Options.ofArguments args = .ok o) (hmode : o.mode = .parse) (hviz : o.viz = "")
    (hnone : (∀ e, ¬ HasTree disk s o e) → ∀ ending c' s', P s' → ending ≠ .status 0 →
      bad ending c' s')
    (hempty : o.dumpAst = "" → ∀ c' s', P s' → good () c' s')
    (hdump : ∀ e c' s', HasTree disk s o e → P s' → Ends (dump disk o e) c' s' good bad) :
    Ends (start disk renderer args) c s good bad := by
  refine ends_start ?_
  rw [ho]
  refine ends_perform hs hread (fun hrefused => absurd hmode hrefused.1) fun _ err s' _ hsame => ?_
  rcases hsource : ((Source.read disk o.file).run s).1 with f | source
  · refine hnone ?_ _ _ _ hsame (ending_ne f)
    rintro e ⟨source, hsource', -⟩
    cases hsource.symm.trans hsource'
  · dsimp only
    rw [hmode]
    refine ends_tree (fun e err he _ => .bind (ends_print ?_)) fun err herr => ?_
    · dsimp only
      rw [hviz]
      split
      · exact .bind ((hdump e _ _ ⟨source, hsource, he⟩ hsame).mono
          (fun _ _ _ h => ends_pure h) fun _ _ _ h => h)
      · rename_i hpath
        exact ends_pure (hempty (by simpa using hpath) _ _ hsame)
    · refine hnone ?_ _ _ _ hsame (ending_ne _)
      rintro e ⟨source', hsource', he⟩
      cases hsource.symm.trans hsource'
      cases herr.symm.trans he

/-- A tree that is not too high is written as a whole. -/
theorem render_of_height (h : e.height ≤ Json.maxDepth) :
    Json.render .indented e.toJson = (Json.whole .indented 0 e.toJson, true) := by
  rcases Json.render_cases .indented e.toJson with ⟨-, heq⟩ | ⟨hdepth, -⟩
  · exact heq
  · rw [Expr.depth_toJson] at hdepth
    omega

/-- The writer has all of the text of a tree, unless the tree is too high. -/
theorem rendered {text : String} {whole : Bool}
    (h : Json.render .indented e.toJson = (text, whole)) :
    (whole = true ∧ e.height ≤ Json.maxDepth ∧ Utf8.encode text = wholeBytes e) ∨
    (whole = false ∧ Json.maxDepth < e.height ∧ Utf8.encode text <+: wholeBytes e ∧
      Utf8.encode text ≠ wholeBytes e) := by
  by_cases hheight : e.height ≤ Json.maxDepth
  · cases h.symm.trans (render_of_height hheight)
    exact .inl ⟨rfl, hheight, rfl⟩
  · rcases Json.render_cases .indented e.toJson with
      ⟨hdepth, -⟩ | ⟨hdepth, cut, rest, hwhole, hrest, heq⟩
    · rw [Expr.depth_toJson] at hdepth
      exact absurd hdepth hheight
    cases h.symm.trans heq
    -- What the file lacks is the bytes of the rest of the text, and there are some.
    have hbytes : wholeBytes e = Utf8.encode text ++ Utf8.encode rest := by
      rw [wholeBytes, hwhole, Utf8.encode_append]
    refine .inr ⟨rfl, Nat.lt_of_not_le hheight, hbytes ▸ List.prefix_append _ _, fun hall => ?_⟩
    rw [hbytes, List.self_eq_append_right] at hall
    exact Utf8.encode_ne_nil hrest hall

/-- The tree is written as far as the writer goes and the disk takes it. -/
theorem dump_dumps (hdisk : disk.WritesInOrder contents) (htree : HasTree disk s o e)
    (hs : contents s₁ = contents s) : Ends (dump disk o e) c s₁
      (fun _ c' s' => Dumped disk contents o s ⟨.status 0, c'⟩ s')
      fun ending c' s' => Dumped disk contents o s ⟨ending, c'⟩ s' := by
  rcases hrender : Json.render .indented e.toJson with ⟨text, whole⟩
  refine ends_dump hrender (hdisk.gives_writeFile.mono fun r s' hr => ?_)
  cases r with
  | ok _ =>
    rcases rendered hrender with ⟨rfl, -, heq⟩ | ⟨rfl, -, hprefix, hne⟩
    · exact fun err => .whole htree (heq ▸ hr)
    · exact .cut htree hprefix hne hr rfl rfl .tooDeep
  | error fault =>
    rcases hr with hsame | ⟨hanswered, kept, hkept, hread⟩
    · rw [hs] at hsame
      exact .untouched hsame fun hstatus => absurd hstatus (ending_ne (.file fault))
    · have hprefix : Utf8.encode text <+: wholeBytes e := by
        rcases rendered hrender with ⟨-, -, heq⟩ | ⟨-, -, hprefix, -⟩
        · exact heq ▸ List.prefix_refl _
        · exact hprefix
      by_cases hall : kept = wholeBytes e
      · exact .whole htree (hall ▸ hread)
      · have hending : (Failure.file fault).ending = .status 1 := if_pos hanswered
        have hlogged : (Failure.file fault).logged =
            "ERROR Failed to write output: " ++ fault.message ++ "\n" := if_pos hanswered
        exact .cut htree (hkept.trans hprefix) hall hread hending (congrArg (c.err ++ ·) hlogged)
          (.output fault.message)

/-- On every disk that writes in order, a session that writes the tree of its source to a file, and
    draws nothing, leaves the file as it was, or with the whole text of the tree, or with a proper
    beginning of the text and a report of this. -/
theorem run_dumped (hdisk : disk.WritesInOrder contents) (ho : Options.ofArguments args = .ok o)
    (hmode : o.mode = .parse) (hviz : o.viz = "") :
    Dumped disk contents o s ((run disk renderer args).run s).1
      ((run disk renderer args).run s).2 := by
  refine run_of_ends (ends_written (P := fun s' => contents s' = contents s) rfl
    (fun path => hdisk.read path s) ho hmode hviz ?_ ?_ ?_)
  · exact fun _ ending c' s' hs' hending =>
      .untouched (by rw [hs']) fun hstatus => absurd hstatus hending
  · exact fun hpath c' s' hs' => .untouched (by rw [hs']) fun _ => hpath
  · exact fun e c' s' htree hs' => dump_dumps hdisk htree hs'

end Dumped

/-! ### Trees in a store -/

section Store

variable {store store' : Store} {o : Options} {args : List String} {e : Expr}

/-- What a store holds behind a session is what was written of the tree, and the session ends with
    status zero if this was all of it. -/
theorem runWith_writes (renderer : Renderer (StateM Store)) {text : String} {whole : Bool}
    {r : Except Unwritten Unit} (ho : Options.ofArguments args = .ok o) (hmode : o.mode = .parse)
    (hviz : o.viz = "") (hpath : o.dumpAst ≠ "") (hnul : Path.hasNul o.dumpAst = false)
    (htree : HasTree Disk.ofStore store o e)
    (hrender : Json.render .indented e.toJson = (text, whole))
    (hwrite : store.write o.dumpAst (Utf8.encode text) = (r, store')) :
    (runWith renderer store args).2 = store' ∧
      (runWith renderer store args).1.ending = .status (if whole && r.isOk then 0 else 1) := by
  have hrun : (Disk.ofStore.writeFile o.dumpAst text).run store =
      (r.mapError (Unwritten.fault o.dumpAst), store') := by
    unfold Disk.writeFile
    rw [hnul]
    change ((store.write o.dumpAst (Utf8.encode text)).1.mapError (Unwritten.fault o.dumpAst),
      (store.write o.dumpAst (Utf8.encode text)).2) = _
    rw [hwrite]
  refine run_of_ends (P := fun report s' => s' = store' ∧
    report.ending = .status (if whole && r.isOk then 0 else 1)) (ends_written
    (P := fun s' => s' = store) rfl (fun _ => rfl) ho hmode hviz ?_ ?_ ?_)
  · exact fun hnone => absurd htree (hnone e)
  · exact fun hempty => absurd hempty hpath
  · rintro e' c' s' htree' rfl
    obtain rfl := htree'.unique htree
    refine ends_dump hrender ?_
    unfold Disk.Gives
    rw [hrun]
    cases r with
    | error unwritten => cases unwritten <;> cases whole <;> exact ⟨rfl, rfl⟩
    | ok _ =>
      cases whole with
      | true => exact fun _ => ⟨rfl, rfl⟩
      | false => exact ⟨rfl, rfl⟩

theorem source_of_read {path : String} {bytes : List UInt8} (hnul : Path.hasNul path = false)
    (hread : store.read path = .ok bytes) :
    ((Source.read Disk.ofStore path).run store).1 = Source.ofBytes path bytes := by
  have hfile : (Disk.ofStore.readFile path).run store = (.ok bytes, store) := by
    unfold Disk.readFile
    rw [hnul]
    change (Disk.faultOf path (store.read path), store) = _
    rw [hread]
    rfl
  unfold Source.read
  rw [StateT.run_bind, hfile]
  rfl

/-- A file of ASCII without carriage returns has the tree of its characters. -/
theorem hasTree_of_ascii {cs : List Char} (hnul : Path.hasNul o.file = false)
    (hread : store.read o.file = .ok (cs.map fun d => d.toNat.toUInt8))
    (hascii : ∀ d ∈ cs, d.toNat < 0x80) (hreturn : '\r' ∉ cs)
    (hparse : ExprLang.parse (String.ofList cs) = .ok e) : HasTree Disk.ofStore store o e := by
  refine ⟨⟨o.file, String.ofList cs⟩, ?_, hparse⟩
  rw [source_of_read hnul hread, Source.ofBytes, Utf8.decode_ascii hascii]
  dsimp only
  rw [normalizeNewlines_eq_self cs hreturn]

/-- The tree of a number behind minus signs is as high as there are signs, and one higher. -/
theorem exists_hasTree_minuses {k : Nat} (hnul : Path.hasNul o.file = false)
    (hread : store.read o.file = .ok (List.replicate k 0x2D ++ [0x31])) :
    ∃ e, HasTree Disk.ofStore store o e ∧ e.height = k + 1 := by
  have hone : Nat.toDigits 10 1 = ['1'] := rfl
  obtain ⟨e, hparse, hheight⟩ := parseWithin_minuses (n := 1) (by decide) 996 k
  rw [hone] at hparse
  have hbytes : (List.replicate k '-' ++ ['1']).map (fun d => d.toNat.toUInt8) =
      List.replicate k 0x2D ++ [0x31] := by simp
  have hascii : ∀ d ∈ List.replicate k '-' ++ ['1'], d.toNat < 0x80 := by
    intro d hd
    rcases List.mem_append.mp hd with hd | hd
    · rw [List.eq_of_mem_replicate hd]
      decide
    · rw [List.mem_singleton.mp hd]
      decide
  rw [← hbytes] at hread
  exact ⟨e, hasTree_of_ascii hnul hread hascii (by simp) hparse, hheight⟩

/-- A file can be written at a path, whatever it is to hold. -/
def Writable (store : Store) (path : String) : Prop :=
  Path.hasNul path = false ∧ ∀ bytes, ∃ store', store.write path bytes = (.ok (), store')

/-- So what is left of the tree is cut off wherever a file can be written, for all that the tree was
    read in little depth. -/
theorem runOn_minuses (ho : Options.ofArguments args = .ok o) (hmode : o.mode = .parse)
    (hviz : o.viz = "") (hpath : o.dumpAst ≠ "") {k : Nat} (hk : Json.maxDepth ≤ k)
    (hnul : Path.hasNul o.file = false)
    (hread : store.read o.file = .ok (List.replicate k 0x2D ++ [0x31]))
    (hwritable : Writable store o.dumpAst) : ∃ e bytes, HasTree Disk.ofStore store o e ∧
      (runOn store args).2.read o.dumpAst = .ok bytes ∧ bytes <+: wholeBytes e ∧
      bytes ≠ wholeBytes e := by
  obtain ⟨e, htree, hheight⟩ := exists_hasTree_minuses hnul hread
  rcases hrender : Json.render .indented e.toJson with ⟨text, whole⟩
  obtain ⟨store', hwrite⟩ := hwritable.2 (Utf8.encode text)
  obtain ⟨hstore, -⟩ := runWith_writes (.sourceOnly Disk.ofStore) ho hmode hviz hpath
    hwritable.1 htree hrender hwrite
  have hfile : store'.read o.dumpAst = .ok (Utf8.encode text) := by
    rcases store.write_cases o.dumpAst (Utf8.encode text) with ⟨_, heq, hfile⟩ | ⟨_, heq⟩ |
      ⟨_, _, _, heq, -⟩ <;> cases hwrite.symm.trans heq
    exact hfile
  rcases rendered hrender with ⟨-, hfits, -⟩ | ⟨-, -, hprefix, hne⟩
  · omega
  · exact ⟨e, _, htree, hstore ▸ hfile, hprefix, hne⟩

end Store

/-- A number has its whole text in the file. If there is room for nine bytes only, it has the first
    nine. -/
theorem run_dumped_number :
    let store : Store := ⟨[(["a"], [0x37])], [], none⟩
    let full : Store := { store with limit := some (9, .other 28 "No space left on device") }
    let contents := fun (s : Store) path => (s.read path).toOption
    let args := ["--dump-ast", "t", "a"]
    let o : Options := ⟨"a", .parse, "t", "", some "svg", false⟩
    let text := "\x7b\n  \"node_type\": \"INTEGER\",\n  \"line\": 1,\n" ++
      "  \"column\": 1,\n  \"value\": 7\n\x7d"
    (Disk.ofStore.WritesInOrder contents ∧ Options.ofArguments args = .ok o ∧ o.mode = .parse ∧
      o.viz = "") ∧ wholeBytes (.integer ⟨1, 1⟩ (.number 7)) = Utf8.encode text ∧
    (Dumped Disk.ofStore contents o store (runOn store args).1 (runOn store args).2 ∧
      (runOn store args).1.ending = .status 0 ∧
      contents (runOn store args).2 "t" = some (Utf8.encode text)) ∧
    Dumped Disk.ofStore contents o full (runOn full args).1 (runOn full args).2 ∧
      (runOn full args).1.ending = .status 1 ∧
      contents (runOn full args).2 "t" = some ((Utf8.encode text).take 9) := by
  intro store full contents args o text
  have hdisk : Disk.ofStore.WritesInOrder contents := Disk.writesInOrder_ofStore
  have ho : Options.ofArguments args = .ok o := rfl
  let seven : Expr := .integer ⟨1, 1⟩ (.number 7)
  have hwhole : Json.whole .indented 0 seven.toJson = text := by
    have hvalue : seven.toJson = .object [("node_type", .text "INTEGER"), ("line", .integer 1),
        ("column", .integer 1), ("value", .integer 7)] := rfl
    rw [hvalue]
    simp only [Json.whole, Json.wholeFields]
    decide +kernel
  have hrender : Json.render .indented seven.toJson = (text, true) := by
    rw [render_of_height (by decide), hwhole]
  have hbytes : ['7'].map (fun d => d.toNat.toUInt8) = [0x37] := by decide
  have hnul : Path.hasNul "a" = false := rfl
  have hnul' : Path.hasNul "t" = false := rfl
  have hsource (limit : Option (Nat × Reason)) :
      Store.read ⟨[(["a"], [0x37])], [], limit⟩ "a" = .ok [0x37] := rfl
  have hascii : ∀ d ∈ ['7'], d.toNat < 0x80 := by
    intro d hd
    rw [List.mem_singleton.mp hd]
    decide
  have hparse : ExprLang.parse (String.ofList ['7']) = .ok seven := rfl
  have htree (limit : Option (Nat × Reason)) :
      HasTree Disk.ofStore ⟨[(["a"], [0x37])], [], limit⟩ o seven :=
    hasTree_of_ascii hnul (hbytes ▸ hsource limit) hascii (by decide) hparse
  have htarget : store.target "t" = .ok ["t"] := rfl
  have htarget' : full.target "t" = .ok ["t"] := rfl
  have hlong : 9 < (Utf8.encode text).length := by decide +kernel
  have hwrite := Store.write_unlimited htarget rfl (Utf8.encode text)
  have hwrite' := Store.write_stopped htarget' rfl hlong
  obtain ⟨hstore, hending⟩ := runWith_writes (.sourceOnly Disk.ofStore) ho rfl rfl
    (by decide) hnul' (htree none) hrender hwrite
  obtain ⟨hstore', hending'⟩ := runWith_writes (.sourceOnly Disk.ofStore) ho rfl rfl
    (by decide) hnul' (htree full.limit) hrender hwrite'
  refine ⟨⟨hdisk, ho, rfl, rfl⟩, congrArg Utf8.encode hwhole,
    ⟨run_dumped hdisk ho rfl rfl, hending, ?_⟩, run_dumped hdisk ho rfl rfl, hending', ?_⟩
  · change contents (runWith _ store args).2 "t" = _
    rw [hstore]
    decide +kernel
  · change contents (runWith _ full args).2 "t" = _
    rw [hstore']
    decide +kernel

/-- Behind a thousand minus signs, the file is neither as it was nor has it the whole tree. -/
theorem runOn_cut :
    let store : Store := ⟨[(["prog.sl"], List.replicate 1000 0x2D ++ [0x31])], [], none⟩
    let args := ["--dump-ast", "out.json", "prog.sl"]
    let o : Options := ⟨"prog.sl", .parse, "out.json", "", some "svg", false⟩
    let store' := (runOn store args).2
    Options.ofArguments args = .ok o ∧ store'.read "out.json" ≠ store.read "out.json" ∧
      ∃ e, HasTree Disk.ofStore store o e ∧ store'.read "out.json" ≠ .ok (wholeBytes e) := by
  intro store args o store'
  have ho : Options.ofArguments args = .ok o := rfl
  have hnul : Path.hasNul "prog.sl" = false := rfl
  have hsource (bytes : List UInt8) :
      Store.read ⟨[(["prog.sl"], bytes)], [], none⟩ "prog.sl" = .ok bytes := rfl
  have hwritable : Writable store "out.json" := ⟨rfl, fun bytes => ⟨_, rfl⟩⟩
  obtain ⟨e, bytes, htree, hread, -, hne⟩ :=
    runOn_minuses ho rfl rfl (by decide) (by decide) hnul (hsource _) hwritable
  refine ⟨ho, ?_, e, htree, ?_⟩
  · intro hsame
    have hbefore : store.read "out.json" = .error .notFound := rfl
    cases hbefore.symm.trans (hsame.symm.trans hread)
  · intro hwhole
    cases hread.symm.trans hwhole
    exact hne rfl

end Session
end ExprLang
