import Mathlib.Data.List.Forall2
import ExprLang.Proofs.Expr.Assembly

/-! How a tree is written on one line.

    The rules of the text are `Written` and `WrittenWithin`: what a node looks like, and when it
    stands in parentheses as a part of another. They give every tree one text (`written_iff`). The
    walk that makes it keeps the texts of the parts on a stack. In every state that it comes to
    (`Reached`), the texts on top are those of the children of the node that is built next, in their
    order, and at the end one text is left (`surfaceText?_written`). -/

namespace ExprLang.Expr

/-! ### The states of a walk -/

section States

variable {β : Type} {f : Expr → List β → β} {g : Expr → β} {root : Expr} {work : List Task}
  {results : List β}

/-- The states that a walk over `root` comes to from the bottom up: the tasks that are still to be
    done, and the results on the stack. -/
inductive Reached (f : Expr → List β → β) (root : Expr) : List Task → List β → Prop
  | start : Reached f root [.enter root] []
  | unfold {e : Expr} {work : List Task} {results : List β} :
    Reached f root (.enter e :: work) results → Reached f root (Task.unfold e ++ work) results
  | build {e : Expr} {work : List Task} {new below : List β} :
    Reached f root (.build e :: work) (new ++ below) → new.length = e.children.length →
    Reached f root work (f e new.reverse :: below)

/-- Every state that a walk comes to finishes with the result for the whole tree. -/
theorem Reached.finishes (hg : ∀ e, g e = f e (e.children.map fun c => g c.2))
    (h : Reached f root work results) : Finishes g (g root) work results := by
  induction h with
  | start => exact rfl
  | unfold _ ih => exact ih.unfold
  | build _ hnew ih => exact ih.build hg hnew

end States

/-! ### The text -/

mutual

/-- The text of a tree. -/
inductive Written : Expr → String → Prop
  | integer {p : Position} {v : Value} : Written (.integer p v) v.plain
  | identifier {p : Position} {n : Value} : Written (.identifier p n) n.plain
  | unary {p : Position} {op : Value} {e : Expr} {s : String} :
    WrittenWithin e s → Written (.unary p op e) (op.plain ++ s)
  | binary {p : Position} {op : Value} {l r : Expr} {s t : String} :
    WrittenWithin l s → WrittenWithin r t →
    Written (.binary p op l r) (s ++ " " ++ op.plain ++ " " ++ t)
  | conditional {p : Position} {c t e : Expr} {sc st se : String} :
    WrittenWithin c sc → WrittenWithin t st → WrittenWithin e se →
    Written (.conditional p c t e) ("if " ++ sc ++ " then " ++ st ++ " else " ++ se ++ " end")

/-- The text of a tree that is a part of another one: choices and operators between operands stand in
    parentheses, and nothing else does. -/
inductive WrittenWithin : Expr → String → Prop
  | parenthesized {e : Expr} {s : String} : e.kind = .conditional ∨ e.kind = .binary →
    Written e s → WrittenWithin e ("(" ++ s ++ ")")
  | bare {e : Expr} {s : String} : e.kind ≠ .conditional → e.kind ≠ .binary →
    Written e s → WrittenWithin e s

end

variable {e : Expr} {s t : String}

theorem isCompound_iff : e.isCompound = true ↔ e.kind = .conditional ∨ e.kind = .binary := by
  cases e <;> simp [isCompound, kind]

theorem writtenWithin_iff : WrittenWithin e t ↔ ∃ s, Written e s ∧ t = wrapped e s := by
  constructor
  · intro h
    cases h with
    | parenthesized hkind h => exact ⟨_, h, (if_pos (isCompound_iff.mpr hkind)).symm⟩
    | bare hc hb h =>
      refine ⟨_, h, (if_neg fun hkind => ?_).symm⟩
      exact (isCompound_iff.mp hkind).elim hc hb
  · rintro ⟨s, h, rfl⟩
    unfold wrapped
    split
    · rename_i hkind
      exact .parenthesized (isCompound_iff.mp hkind) h
    · rename_i hkind
      rw [isCompound_iff, not_or] at hkind
      exact .bare hkind.1 hkind.2 h

theorem Written.within (h : Written e s) : WrittenWithin e (wrapped e s) :=
  writtenWithin_iff.mpr ⟨s, h, rfl⟩

/-- The text that the recursion gives follows the rules. -/
theorem written_surface (e : Expr) : Written e e.surface := by
  induction e with
  | integer => exact .integer
  | identifier => exact .identifier
  | conditional _ _ _ _ ihc iht ihe => exact .conditional ihc.within iht.within ihe.within
  | unary _ _ _ ih => exact .unary ih.within
  | binary _ _ _ _ ihl ihr => exact .binary ihl.within ihr.within

/-- The rules leave no other text. -/
theorem Written.eq_surface (h : Written e s) : s = e.surface := by
  have hpart {e : Expr} (ih : ∀ {s}, Written e s → s = e.surface) {s : String}
      (h : WrittenWithin e s) : s = wrapped e e.surface := by
    obtain ⟨t, ht, rfl⟩ := writtenWithin_iff.mp h
    rw [ih ht]
  induction e generalizing s with
  | integer | identifier =>
    cases h
    rfl
  | conditional _ _ _ _ ihc iht ihe =>
    cases h with
    | conditional hc ht he => rw [surface, hpart ihc hc, hpart iht ht, hpart ihe he]
  | unary _ _ _ ih =>
    cases h with
    | unary he => rw [surface, hpart ih he]
  | binary _ _ _ _ ihl ihr =>
    cases h with
    | binary hl hr => rw [surface, hpart ihl hl, hpart ihr hr]

theorem written_iff : Written e s ↔ s = e.surface :=
  ⟨Written.eq_surface, fun h => h ▸ written_surface e⟩

/-- The texts on the stack are those that the tasks ask for. A node that is built next finds the texts
    of its children on top, the last one first, and where no task is left there is the text `s`
    alone. -/
structure Supplied (s : String) (work : List Task) (texts : List String) : Prop where
  operands : ∀ x rest, work = .build x :: rest → ∃ parts below, texts = parts.reverse ++ below ∧
    List.Forall₂ (fun c t => Written c.2 t) x.children parts
  result : work = [] → texts = [s]

/-- Every tree is written on one line as the rules say, whatever its operators, names and numbers
    are. The walk that does it is never short of the texts of children, does not mix them up, and
    has the text of the tree alone on the stack when it ends. -/
theorem surfaceText?_written (e : Expr) : ∃ s, e.surfaceText? = some s ∧
    (∀ t, Written e t ↔ t = s) ∧
    ∀ work texts, Reached surfaceNode e work texts →
      assembleAll surfaceNode work texts = some [s] ∧ Supplied s work texts := by
  refine ⟨e.surface, surfaceText?_eq e, fun t => written_iff, fun work texts hreached => ?_⟩
  have hfinish := hreached.finishes surface_eq_surfaceNode
  refine ⟨assembleAll_of_finishes surface_eq_surfaceNode hfinish, ?_, ?_⟩
  · rintro x rest rfl
    obtain ⟨below, htexts, -⟩ := hfinish
    refine ⟨x.children.map fun c => c.2.surface, below, htexts, ?_⟩
    rw [List.forall₂_map_right_iff, List.forall₂_same]
    exact fun c _ => written_surface c.2
  · rintro rfl
    exact hfinish

end ExprLang.Expr
