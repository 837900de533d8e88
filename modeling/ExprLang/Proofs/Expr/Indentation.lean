import Mathlib
import ExprLang.Expr.Outline
import ExprLang.Proofs.Expr.Preorder
import ExprLang.Proofs.Expr.Relocation
import ExprLang.Proofs.Text.Lines

/-! Indentation shows the shape of a tree.

    The lines of an outline say how deep each node lies and what it says of itself (`levels`). They
    do not say what kind of node it is, and a minus sign may stand for a change of sign or for a
    difference. But the children of a node are what follows one level deeper, up to the first line
    that is not deeper than the node; so their number is seen, and with it the kind
    (`Regular.told`). An outline that is not moved to the left of the margin keeps the levels, and
    nothing that a regular tree says runs into the indentation. So such an outline determines the
    tree up to its positions (`outline_eq_iff`). -/

namespace ExprLang.Expr

/-! ### The lines of an outline -/

theorem newline_not_mem_label {e : Expr} (h : ∀ s, e.value = .text s → '\n' ∉ s.toList) :
    '\n' ∉ e.label.toList := by
  cases e with
  | conditional =>
    have hif : '\n' ∉ "if".toList := by decide
    exact hif
  | _ => exact Value.newline_not_mem_plain h

theorem newline_not_mem_indentation (level : Int) : '\n' ∉ (indentation level).toList := by
  rw [indentation, String.toList_ofList]
  intro h
  exact absurd (List.eq_of_mem_replicate h) (by decide)

/-- Where no name and no operator has a newline, the outline has a line for each node. -/
theorem lines_outline {e : Expr} (h : ∀ x ∈ e.nodes, ∀ s, x.value = .text s → '\n' ∉ s.toList)
    (indent : Int) : Text.lines (e.outline indent) = e.outlineLines indent := by
  have hne : e.outlineLines indent ≠ [] := by
    rw [outlineLines, preorder_eq]
    exact List.cons_ne_nil _ _
  refine Text.lines_intercalate hne fun l hl => ?_
  obtain ⟨v, hv, rfl⟩ := List.mem_map.mp hl
  exact Text.newline_not_mem_append.mpr
    ⟨newline_not_mem_indentation _, newline_not_mem_label (h v.node (mem_nodes_of_mem_preorder hv))⟩

/-! ### Levels -/

/-- The lines of an outline before they are indented: how deep each node lies, and what it says. -/
def levels (depth : Nat) : Expr → List (Nat × String)
  | integer p v => [(depth, (integer p v).label)]
  | identifier p n => [(depth, (identifier p n).label)]
  | conditional p c t e =>
    (depth, (conditional p c t e).label) ::
      (c.levels (depth + 1) ++ (t.levels (depth + 1) ++ e.levels (depth + 1)))
  | unary p op e => (depth, (unary p op e).label) :: e.levels (depth + 1)
  | binary p op l r =>
    (depth, (binary p op l r).label) :: (l.levels (depth + 1) ++ r.levels (depth + 1))

/-- A node comes in front of its children, which lie one level deeper. -/
theorem levels_eq (depth : Nat) (e : Expr) : e.levels depth =
    (depth, e.label) :: (e.children.map fun c => c.2).flatMap (levels (depth + 1)) := by
  cases e <;> simp [levels, children]

/-- What an outline shows of a node on its turn. -/
def Visit.level (v : Visit) : Nat × String := (v.depth, v.node.label)

/-- The walk from the top goes through the levels of some children if it does so for each. -/
theorem map_level_children {cs : List (Role × Expr)}
    (h : ∀ c ∈ cs, ∀ index depth parent,
      (visitAll index [⟨c.2, depth, parent⟩]).map Visit.level = c.2.levels depth)
    (index depth holder : Nat) :
    (visitAll index (cs.map fun c => ⟨c.2, depth, some (holder, c.1)⟩)).map Visit.level =
      (cs.map fun c => c.2).flatMap (levels depth) := by
  induction cs generalizing index with
  | nil => simp [visitAll_nil]
  | cons c cs ih =>
    obtain ⟨hc, hcs⟩ := List.forall_mem_cons.mp h
    rw [List.map_cons, ← List.singleton_append, visitAll_append, List.map_append, hc, ih hcs]
    rfl

/-- The walk from the top goes through the levels of a tree. -/
theorem map_level_visitAll (e : Expr) : ∀ index depth parent,
    (visitAll index [⟨e, depth, parent⟩]).map Visit.level = e.levels depth := by
  induction e using children_induction with
  | h e ih =>
    intro index depth parent
    rw [visitAll_cons, List.append_nil, List.map_cons, levels_eq]
    exact congrArg _ (map_level_children ih (index + 1) (depth + 1) index)

theorem outlineLines_eq (indent : Int) (e : Expr) :
    e.outlineLines indent = (e.levels 0).map fun l => indentation (indent + l.1) ++ l.2 := by
  rw [← e.map_level_visitAll 0 0 none, List.map_map]
  rfl

/-! ### Regular trees -/

section Regular

variable {fits : Int → Prop} {e e' x : Expr}

theorem Regular.child {c : Role × Expr} (h : e.Regular fits) (hc : c ∈ e.children) :
    c.2.Regular fits := by
  cases e <;> simp only [children, List.mem_cons, List.not_mem_nil, or_false] at hc
  · rcases hc with rfl | rfl | rfl
    · exact h.1
    · exact h.2.1
    · exact h.2.2
  · exact hc ▸ h.2
  · rcases hc with rfl | rfl
    · exact h.2.1
    · exact h.2.2

theorem Regular.of_mem_nodes (h : e.Regular fits) (hx : x ∈ e.nodes) : x.Regular fits := by
  induction e with
  | integer | identifier => exact List.mem_singleton.mp hx ▸ h
  | conditional _ _ _ _ ihc iht ihe =>
    simp only [nodes, List.mem_cons, List.mem_append] at hx
    rcases hx with rfl | (hx | hx) | hx
    · exact h
    · exact ihc h.1 hx
    · exact iht h.2.1 hx
    · exact ihe h.2.2 hx
  | unary _ _ _ ih =>
    rcases List.mem_cons.mp hx with rfl | hx
    · exact h
    · exact ih h.2 hx
  | binary _ _ _ _ ihl ihr =>
    simp only [nodes, List.mem_cons, List.mem_append] at hx
    rcases hx with rfl | hx | hx
    · exact h
    · exact ihl h.2.1 hx
    · exact ihr h.2.2 hx

theorem isBlank_of_mem_symbol {s : Symbol} {c : Char} (h : c ∈ s.text.toList) :
    Text.isBlank c = false := by
  have hall : (s.text.toList.all fun c => !Text.isBlank c) = true := by cases s <;> decide
  simpa using List.all_eq_true.mp hall c h

/-- What a node of a regular tree says has no blanks in it. -/
theorem Regular.isBlank_of_mem_label (h : e.Regular fits) {c : Char} (hc : c ∈ e.label.toList) :
    Text.isBlank c = false := by
  cases e with
  | integer p v =>
    obtain ⟨n, rfl, -⟩ := h
    rcases Text.isDigit_or_minus_of_mem_toString hc with hdigit | rfl
    · exact Text.isBlank_of_isIdentChar (Text.isIdentChar_of_isDigit hdigit)
    · decide
  | identifier p v =>
    obtain ⟨s, rfl, hs⟩ := h
    exact Text.isBlank_of_isIdentChar (hs.1.isIdentChar c hc)
  | conditional p c t e =>
    exact Text.isBlank_of_isIdentChar (Keyword.ifWord.isWord_text.isIdentChar _ hc)
  | unary p op e =>
    obtain ⟨⟨o, rfl⟩, -⟩ := h
    exact isBlank_of_mem_symbol (s := o.symbol) (o.text_symbol.symm ▸ hc)
  | binary p op l r =>
    obtain ⟨⟨o, rfl⟩, -⟩ := h
    exact isBlank_of_mem_symbol (s := o.symbol) (o.text_symbol.symm ▸ hc)

/-- What a number says is no name. -/
theorem label_ne {p q : Position} {n : Int} {s : String} (hs : Text.IsName s) :
    (integer p (.number n)).label ≠ (identifier q (.text s)).label := by
  intro heq
  have heq : toString n = s := heq
  obtain ⟨d, ds, hds, hd, -⟩ := hs.1
  have hmem : d ∈ (toString n).toList := by
    rw [heq, hds]
    exact List.mem_cons_self
  rcases Text.isDigit_or_minus_of_mem_toString hmem with hdigit | rfl
  · rw [Text.isDigit_of_isIdentStart hd] at hdigit
    cases hdigit
  · exact absurd hd (by decide)

/-- Nodes of regular trees that say the same and have the same children are the same. -/
theorem unplaced_eq_of_label (h : e.Regular fits) (h' : e'.Regular fits)
    (hlabel : e.label = e'.label)
    (hchildren : (e.children.map fun c => c.2).map unplaced =
      (e'.children.map fun c => c.2).map unplaced) : e.unplaced = e'.unplaced := by
  cases e with
  | integer p v =>
    obtain ⟨n, rfl, -⟩ := h
    cases e' with
    | integer q w =>
      obtain ⟨m, rfl, -⟩ := h'
      have htext : toString n = toString m := hlabel
      rw [Int.toString_eq_repr, Int.toString_eq_repr, Int.repr_inj] at htext
      rw [htext]
      rfl
    | identifier q w =>
      obtain ⟨s, rfl, hs⟩ := h'
      exact absurd hlabel (label_ne hs)
    | conditional | unary | binary => simp [children] at hchildren
  | identifier p v =>
    obtain ⟨s, rfl, hs⟩ := h
    cases e' with
    | integer q w =>
      obtain ⟨m, rfl, -⟩ := h'
      exact absurd hlabel.symm (label_ne hs)
    | identifier q w =>
      obtain ⟨s', rfl, hs'⟩ := h'
      have htext : s = s' := hlabel
      rw [htext]
      rfl
    | conditional | unary | binary => simp [children] at hchildren
  | conditional p c t e =>
    cases e' with
    | conditional q c' t' e' =>
      simp only [children, List.map_cons, List.map_nil, List.cons.injEq, and_true] at hchildren
      rw [unplaced, unplaced, hchildren.1, hchildren.2.1, hchildren.2.2]
    | integer | identifier | unary | binary => simp [children] at hchildren
  | unary p op e =>
    obtain ⟨⟨o, rfl⟩, -⟩ := h
    cases e' with
    | unary q op' e' =>
      obtain ⟨⟨o', rfl⟩, -⟩ := h'
      have htext : o.text = o'.text := hlabel
      simp only [children, List.map_cons, List.map_nil, List.cons.injEq, and_true] at hchildren
      rw [unplaced, unplaced, htext, hchildren]
    | integer | identifier | conditional | binary => simp [children] at hchildren
  | binary p op l r =>
    obtain ⟨⟨o, rfl⟩, -⟩ := h
    cases e' with
    | binary q op' l' r' =>
      obtain ⟨⟨o', rfl⟩, -⟩ := h'
      have htext : o.text = o'.text := hlabel
      simp only [children, List.map_cons, List.map_nil, List.cons.injEq, and_true] at hchildren
      rw [unplaced, unplaced, htext, hchildren.1, hchildren.2]
    | integer | identifier | conditional | unary => simp [children] at hchildren

/-! ### The shape of a tree -/

/-- The line that comes next, if there is one, does not lie below a node of this depth. -/
def Outside (depth : Nat) (ls : List (Nat × String)) : Prop := ∀ l, ls.head? = some l → l.1 ≤ depth

/-- No subtree begins where the lines below a node end. -/
theorem not_outside_levels {depth : Nat} {rest : List (Nat × String)} :
    ¬ Outside depth (e.levels (depth + 1) ++ rest) := by
  intro h
  have hle := h (depth + 1, e.label) (by rw [levels_eq]; rfl)
  exact Nat.not_succ_le_self depth hle

/-- What stands behind a child is another child, or it lies outside the parent too. -/
theorem Outside.flatMap_levels {depth : Nat} {rest : List (Nat × String)} (h : Outside depth rest)
    (cs : List Expr) : Outside (depth + 1) (cs.flatMap (levels (depth + 1)) ++ rest) := by
  intro l hl
  cases cs with
  | nil => exact Nat.le_succ_of_le (h l hl)
  | cons c cs =>
    rw [List.flatMap_cons, levels_eq] at hl
    obtain rfl := Option.some.inj hl
    exact Nat.le_refl _

/-- No other regular tree has the levels of this one in front of lines that lie outside. -/
def Told (fits : Int → Prop) (e : Expr) : Prop :=
  ∀ e' : Expr, e'.Regular fits → ∀ depth rest rest', Outside depth rest → Outside depth rest' →
    e.levels depth ++ rest = e'.levels depth ++ rest' → e.unplaced = e'.unplaced ∧ rest = rest'

/-- Children that are told by their levels are told one behind the other, and so is how many there
    are. -/
theorem told_children {cs cs' : List Expr} (h : ∀ c ∈ cs, Told fits c)
    (h' : ∀ c ∈ cs', c.Regular fits) {depth : Nat} {rest rest' : List (Nat × String)}
    (hrest : Outside depth rest) (hrest' : Outside depth rest')
    (heq : cs.flatMap (levels (depth + 1)) ++ rest = cs'.flatMap (levels (depth + 1)) ++ rest') :
    cs.map unplaced = cs'.map unplaced ∧ rest = rest' := by
  induction cs generalizing cs' with
  | nil =>
    cases cs' with
    | nil => exact ⟨rfl, heq⟩
    | cons c' cs' =>
      rw [List.flatMap_nil, List.nil_append, List.flatMap_cons, List.append_assoc] at heq
      exact absurd (heq ▸ hrest) not_outside_levels
  | cons c cs ih =>
    cases cs' with
    | nil =>
      rw [List.flatMap_nil, List.nil_append, List.flatMap_cons, List.append_assoc] at heq
      exact absurd (heq ▸ hrest') not_outside_levels
    | cons c' cs' =>
      obtain ⟨hc, hcs⟩ := List.forall_mem_cons.mp h
      obtain ⟨hc', hcs'⟩ := List.forall_mem_cons.mp h'
      rw [List.flatMap_cons, List.flatMap_cons, List.append_assoc, List.append_assoc] at heq
      obtain ⟨hfirst, hmore⟩ :=
        hc c' hc' _ _ _ (hrest.flatMap_levels cs) (hrest'.flatMap_levels cs') heq
      obtain ⟨hothers, hbehind⟩ := ih hcs hcs' hmore
      rw [List.map_cons, List.map_cons, hfirst, hothers]
      exact ⟨rfl, hbehind⟩

/-- Every regular tree is told by its levels. -/
theorem Regular.told (h : e.Regular fits) : Told fits e := by
  induction e using children_induction with
  | h e ih =>
    intro e' h' depth rest rest' hrest hrest' heq
    rw [levels_eq, levels_eq, List.cons_append, List.cons_append] at heq
    injection heq with hline heq
    have hlabel : e.label = e'.label := congrArg Prod.snd hline
    have hchildren : ∀ c ∈ e.children.map fun c => c.2, Told fits c := by
      intro x hx
      obtain ⟨c, hc, rfl⟩ := List.mem_map.mp hx
      exact ih c hc (h.child hc)
    have hchildren' : ∀ c ∈ e'.children.map fun c => c.2, c.Regular fits := by
      intro x hx
      obtain ⟨c, hc, rfl⟩ := List.mem_map.mp hx
      exact h'.child hc
    obtain ⟨hsame, hbehind⟩ := told_children hchildren hchildren' hrest hrest' heq
    exact ⟨unplaced_eq_of_label h h' hlabel hsame, hbehind⟩

/-! ### Reading the lines of an outline -/

/-- How deep the node on a line lies and what it says, in an outline whose first level is
    `indent`. -/
def readLine (indent : Int) (line : String) : Nat × String :=
  ((line.toList.takeWhile (· == ' ')).length / 2 - indent.toNat,
    String.ofList (line.toList.dropWhile (· == ' ')))

/-- From the margin on, every level is indented more than the one above, and what has no blanks in it
    ends the indentation. -/
theorem readLine_line {indent : Int} (hindent : 0 ≤ indent) (depth : Nat) {label : String}
    (hlabel : ∀ c ∈ label.toList, Text.isBlank c = false) :
    readLine indent (indentation (indent + depth) ++ label) = (depth, label) := by
  have hhead : ∀ c, label.toList.head? = some c → (c == ' ') = false := by
    intro c hc
    have hblank := hlabel c (List.mem_of_head? hc)
    rw [beq_eq_false_iff_ne]
    rintro rfl
    exact absurd hblank (by decide)
  have hblanks : ∀ c ∈ List.replicate (2 * (indent + depth).toNat) ' ', (c == ' ') = true := by
    intro c hc
    rw [List.eq_of_mem_replicate hc]
    rfl
  have htake := Text.takeWhile_append_eq hblanks hhead
  have hdrop := List.takeWhile_append_dropWhile (p := (· == ' '))
    (l := List.replicate (2 * (indent + depth).toNat) ' ' ++ label.toList)
  rw [htake, List.append_cancel_left_eq] at hdrop
  rw [readLine, indentation, String.toList_append, String.toList_ofList, htake, hdrop,
    List.length_replicate, String.ofList_toList]
  congr 1
  omega

/-- The levels of a regular tree are read from the lines of its outline. -/
theorem map_readLine_outlineLines (h : e.Regular fits) {indent : Int} (hindent : 0 ≤ indent) :
    (e.outlineLines indent).map (readLine indent) = e.levels 0 := by
  have hread : ∀ l ∈ e.levels 0, readLine indent (indentation (indent + l.1) ++ l.2) = l := by
    intro l hl
    rw [← e.map_level_visitAll 0 0 none] at hl
    obtain ⟨v, hv, rfl⟩ := List.mem_map.mp hl
    have hnode := h.of_mem_nodes (mem_nodes_of_mem_preorder hv)
    exact readLine_line hindent v.depth fun c hc => hnode.isBlank_of_mem_label hc
  rw [outlineLines_eq, List.map_map]
  exact (List.map_congr_left hread).trans (List.map_id _)

/-- No name and no operator of a regular tree has a newline. -/
theorem Regular.newline_not_mem (h : e.Regular fits) :
    ∀ x ∈ e.nodes, ∀ s, x.value = .text s → '\n' ∉ s.toList := by
  intro x hx s hs hmem
  have hlabel : x.label = s := by
    cases x with
    | conditional => cases hs
    | _ => exact congrArg Value.plain hs
  have hblank := (h.of_mem_nodes hx).isBlank_of_mem_label (hlabel.symm ▸ hmem)
  rw [Text.isBlank_newline] at hblank
  cases hblank

end Regular

/-- The outline determines the tree. Two trees of operators with a meaning, of names and of numbers of
    any size have the same outline from the margin or from some place to the right of it exactly if
    they differ in nothing but their positions. -/
theorem outline_eq_iff {e e' : Expr} (h : e.Regular fun _ => True) (h' : e'.Regular fun _ => True)
    {indent : Int} (hindent : 0 ≤ indent) :
    e.outline indent = e'.outline indent ↔ e.unplaced = e'.unplaced := by
  constructor
  · intro heq
    have hlines : e.outlineLines indent = e'.outlineLines indent := by
      rw [← lines_outline h.newline_not_mem, heq, lines_outline h'.newline_not_mem]
    have hlevels : e.levels 0 = e'.levels 0 := by
      rw [← map_readLine_outlineLines h hindent, hlines, map_readLine_outlineLines h' hindent]
    have hnil : Outside 0 [] := nofun
    exact (h.told e' h' 0 [] [] hnil hnil (by rw [hlevels])).1
  · intro heq
    rw [← e.outline_relocate (fun _ => .unknown), ← e'.outline_relocate (fun _ => .unknown),
      relocate_unknown, relocate_unknown, heq]

/-- A change of sign on the left of a difference and a difference under a change of sign say the same
    on each line, but the last line is not indented alike. -/
theorem outline_eq_iff_signs :
    let one : Expr := .integer ⟨1, 2⟩ (.number 1)
    let two : Expr := .integer ⟨1, 6⟩ (.number 2)
    let left : Expr := .binary ⟨1, 4⟩ (.text "-") (.unary ⟨1, 1⟩ (.text "-") one) two
    let above : Expr := .unary ⟨1, 1⟩ (.text "-") (.binary ⟨1, 4⟩ (.text "-") one two)
    left.outline 0 = "-\n  -\n    1\n  2" ∧ above.outline 0 = "-\n  -\n    1\n    2" ∧
      (left.outline 3 = above.outline 3 ↔ left.unplaced = above.unplaced) := by
  intro one two left above
  have hone : one.Regular fun _ => True := ⟨1, rfl, trivial⟩
  have htwo : two.Regular fun _ => True := ⟨2, rfl, trivial⟩
  have hleft : left.Regular fun _ => True :=
    ⟨⟨.arithmetic .subtract, rfl⟩, ⟨⟨.negate, rfl⟩, hone⟩, htwo⟩
  have habove : above.Regular fun _ => True :=
    ⟨⟨.negate, rfl⟩, ⟨.arithmetic .subtract, rfl⟩, hone, htwo⟩
  refine ⟨?_, ?_, outline_eq_iff hleft habove (by decide)⟩
  · rw [outline, outlineLines_eq]
    rfl
  · rw [outline, outlineLines_eq]
    rfl

end ExprLang.Expr
