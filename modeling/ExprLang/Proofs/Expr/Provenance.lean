import Mathlib.Data.List.Forall2
import ExprLang.Proofs.Expr.Reading
import ExprLang.Proofs.Expr.Regular
import ExprLang.Proofs.Token.Tokenization

/-! Where the nodes of a tree come from.

    Every node of the tree of a text is made of one token of the text, from the left to the right
    (`Derives.forall₂_madeOf`), and every token stands where its position says, with its lexeme
    behind that place. So a node has the position of a lexeme and carries what the lexeme means
    (`standsIn_of_parseWithin`). That the trees of texts are regular follows from what their single
    nodes are. -/

namespace ExprLang

open Grammar

/-! ### Nodes -/

/-- The nodes of a tree, a parent in front of its children. -/
def Expr.nodes : Expr → List Expr
  | .integer p v => [.integer p v]
  | .identifier p n => [.identifier p n]
  | .conditional p c t e => .conditional p c t e :: (c.nodes ++ t.nodes ++ e.nodes)
  | .unary p op e => .unary p op e :: e.nodes
  | .binary p op l r => .binary p op l r :: (l.nodes ++ r.nodes)

/-- The nodes of a tree in the order of the source: an operator stands between its operands or in
    front of its operand, and a choice in front of its parts. -/
def Expr.inOrder : Expr → List Expr
  | .integer p v => [.integer p v]
  | .identifier p n => [.identifier p n]
  | .conditional p c t e => .conditional p c t e :: (c.inOrder ++ t.inOrder ++ e.inOrder)
  | .unary p op e => .unary p op e :: e.inOrder
  | .binary p op l r => l.inOrder ++ .binary p op l r :: r.inOrder

namespace Expr

@[simp] theorem self_mem_nodes (e : Expr) : e ∈ e.nodes := by cases e <;> simp [nodes]

/-- The nodes of a subtree are nodes of the tree. -/
theorem nodes_subset {x e : Expr} (h : x ∈ e.nodes) : x.nodes ⊆ e.nodes := by
  induction e with
  | integer | identifier =>
    rw [nodes, List.mem_singleton] at h
    exact h ▸ List.Subset.refl _
  | conditional _ _ _ _ ihc iht ihe =>
    simp only [nodes, List.mem_cons, List.mem_append] at h
    intro y hy
    rcases h with rfl | (h | h) | h
    · exact hy
    · simp [nodes, ihc h hy]
    · simp [nodes, iht h hy]
    · simp [nodes, ihe h hy]
  | unary _ _ _ ih =>
    simp only [nodes, List.mem_cons] at h
    intro y hy
    rcases h with rfl | h
    · exact hy
    · simp [nodes, ih h hy]
  | binary _ _ _ _ ihl ihr =>
    simp only [nodes, List.mem_cons, List.mem_append] at h
    intro y hy
    rcases h with rfl | h | h
    · exact hy
    · simp [nodes, ihl h hy]
    · simp [nodes, ihr h hy]

/-- Every node is listed once. -/
theorem inOrder_perm_nodes (e : Expr) : e.inOrder.Perm e.nodes := by
  induction e with
  | integer | identifier => exact .refl _
  | conditional _ _ _ _ ihc iht ihe => exact ((ihc.append iht).append ihe).cons _
  | unary _ _ _ ih => exact ih.cons _
  | binary _ _ _ _ ihl ihr => exact List.perm_middle.trans ((ihl.append ihr).cons _)

end Expr

/-- A token that a node is made of. Parentheses, the inner words of a choice and the end of the
    input only hold a tree together. -/
def Token.isSignificant (t : Token) : Bool :=
  match t.kind with
  | .symbol .leftParen | .symbol .rightParen => false
  | .keyword .thenWord | .keyword .elseWord | .keyword .endWord => false
  | .endOfInput => false
  | _ => true

/-- What stands in a list that goes with another one goes with something there. -/
theorem exists_of_forall₂ {α β : Type} {R : α → β → Prop} {as : List α} {bs : List β} {b : β}
    (h : List.Forall₂ R as bs) (hb : b ∈ bs) : ∃ a ∈ as, R a b := by
  induction h with
  | nil => exact absurd hb List.not_mem_nil
  | cons hab _ ih =>
    rcases List.mem_cons.mp hb with rfl | hb
    · exact ⟨_, List.mem_cons_self, hab⟩
    · obtain ⟨a, ha, hr⟩ := ih hb
      exact ⟨a, List.mem_cons_of_mem _ ha, hr⟩

namespace Grammar

/-- A node is made of a token: it stands where the token does and carries what the token carries. -/
inductive MadeOf (t : Token) : Expr → Prop
  | integer : t.kind = .integer → MadeOf t (.integer t.position t.value)
  | identifier : t.kind = .identifier → MadeOf t (.identifier t.position t.value)
  | conditional {c x y : Expr} : t.kind = .keyword .ifWord →
    MadeOf t (.conditional t.position c x y)
  | unary {e : Expr} : Leading t → MadeOf t (.unary t.position t.value e)
  | binary {s : Symbol} {l r : Expr} : t.kind = .symbol s → s.precedence ≠ 0 →
    MadeOf t (.binary t.position t.value l r)

theorem MadeOf.position_eq {t : Token} {x : Expr} (h : MadeOf t x) : x.position = t.position := by
  cases h <;> rfl

theorem MadeOf.ne_endOfInput {t : Token} {x : Expr} (h : MadeOf t x) : t.kind ≠ .endOfInput := by
  intro hk
  cases h with
  | unary h => rcases h with h | h <;> simp [hk] at h
  | integer h | identifier h | conditional h | binary h => simp [hk] at h

theorem MadeOf.isSignificant {t : Token} {x : Expr} (h : MadeOf t x) : t.isSignificant = true := by
  cases h with
  | integer hk | identifier hk | conditional hk => simp [Token.isSignificant, hk]
  | unary hk => rcases hk with hk | hk <;> simp [Token.isSignificant, hk]
  | @binary s _ _ hk hp =>
    rw [Token.isSignificant, hk]
    cases s <;> first | rfl | exact absurd rfl hp

/-- A node goes with its token in front of nodes that go with significant tokens. -/
theorem MadeOf.forall₂_cons {t : Token} {x : Expr} {ts : List Token} {xs : List Expr}
    (h : MadeOf t x) (hrest : List.Forall₂ MadeOf (ts.filter Token.isSignificant) xs) :
    List.Forall₂ MadeOf ((t :: ts).filter Token.isSignificant) (x :: xs) := by
  rw [List.filter_cons_of_pos h.isSignificant]
  exact .cons h hrest

/-- The nodes of the tree of some tokens, from the left to the right, are made of the significant
    ones, one by one. -/
theorem Derives.forall₂_madeOf {c : Category} {ts : List Token} {e : Expr} (h : Derives c ts e) :
    List.Forall₂ MadeOf (ts.filter Token.isSignificant) e.inOrder := by
  induction h with
  | @binary c s t ls rs l r ht hs _ _ ihl ihr =>
    have hp : s.precedence ≠ 0 := by
      rw [Category.mem_operators_iff.mp hs]
      exact Nat.ne_of_gt c.rank_pos
    have hmade : MadeOf t (.binary t.position t.value l r) := .binary ht hp
    rw [List.filter_append]
    exact List.rel_append ihl (hmade.forall₂_cons ihr)
  | tighter _ _ ih => exact ih
  | prefixed ht _ ih => exact (MadeOf.unary ht).forall₂_cons ih
  | integer ht => exact (MadeOf.integer ht).forall₂_cons .nil
  | identifier ht => exact (MadeOf.identifier ht).forall₂_cons .nil
  | @parenthesized l r ts e hl _ hr ih =>
    have hleft : l.isSignificant = false := by simp [Token.isSignificant, hl]
    have hright : r.isSignificant = false := by simp [Token.isSignificant, hr]
    simpa [hleft, hright] using ih
  | @conditional i t f n cs ts es c x y hi _ ht _ hf _ hn ihc ihx ihy =>
    have hthen : t.isSignificant = false := by simp [Token.isSignificant, ht]
    have helse : f.isSignificant = false := by simp [Token.isSignificant, hf]
    have hend : n.isSignificant = false := by simp [Token.isSignificant, hn]
    have hparts := List.rel_append (List.rel_append ihc ihx) ihy
    refine (MadeOf.conditional hi).forall₂_cons ?_
    simpa [hthen, helse, hend] using hparts

/-- Every node of the tree of some tokens is made of one of them. -/
theorem Derives.exists_madeOf {c : Category} {ts : List Token} {e : Expr} (h : Derives c ts e) :
    ∀ x ∈ e.nodes, ∃ t ∈ ts, MadeOf t x := by
  intro x hx
  have hlisted : x ∈ e.inOrder := e.inOrder_perm_nodes.mem_iff.mpr hx
  obtain ⟨t, ht, hmade⟩ := exists_of_forall₂ h.forall₂_madeOf hlisted
  exact ⟨t, List.mem_of_mem_filter ht, hmade⟩

end Grammar

/-! ### Tokens in a text -/

/-- A text that is not empty stands at the front of some characters. -/
def Text.Opens (w : String) (rest : List Char) : Prop := w ≠ "" ∧ w.toList <+: rest

theorem Text.opens_append {w : String} {cs : List Char} (hw : w.toList = cs) (hcs : cs ≠ [])
    (rest : List Char) : Text.Opens w (cs ++ rest) := by
  refine ⟨?_, rest, by rw [hw]⟩
  rintro rfl
  exact hcs hw.symm

namespace Lexical

variable {cs : List Char} {kind : TokenKind} {value : Value}

/-- The lexeme of a text value is spelled by it. -/
theorem Lexeme.eq_toList {w : String} (h : Lexeme cs kind (.text w)) : cs = w.toList := by
  generalize hv : Value.text w = v at h
  cases h with
  | symbol | word =>
    cases hv
    rfl
  | number => cases hv

theorem Lexeme.value_of_symbol {s : Symbol} (h : Lexeme cs (.symbol s) value) :
    value = .text s.text := by
  generalize hk : TokenKind.symbol s = k at h
  cases h with
  | symbol =>
    cases hk
    rfl
  | @word w =>
    unfold TokenKind.ofWord at hk
    split at hk <;> cases hk
  | number => cases hk

theorem Lexeme.value_of_keyword {k : Keyword}
    (h : Lexeme cs (.keyword k) value) : value = .text k.text := by
  generalize hk : TokenKind.keyword k = kind at h
  cases h with
  | symbol | number => cases hk
  | @word w =>
    unfold TokenKind.ofWord at hk
    split at hk
    · rename_i l hl
      cases hk
      have htext := List.find?_some hl
      rw [beq_iff_eq] at htext
      rw [htext]
    · cases hk

theorem Lexeme.exists_name (h : Lexeme cs .identifier value) :
    ∃ w, value = .text w ∧ Text.IsName w := by
  generalize hk : TokenKind.identifier = k at h
  cases h with
  | symbol | number => cases hk
  | @word w hw =>
    refine ⟨w, rfl, hw, ?_⟩
    unfold TokenKind.ofWord at hk
    split at hk
    · cases hk
    · assumption

end Lexical

open Lexical

/-- A token stands in a text: its position is that of a place with its lexeme behind it. -/
def Token.StandsIn (text : List Char) (t : Token) : Prop :=
  ∃ before span rest, text = before ++ (span ++ rest) ∧ t.position = .behind before ∧
    Munch span rest t.kind t.value

theorem Lexical.Divides.standsIn {text before rest : List Char} {ts : List Token}
    (h : Divides text before ts rest) : ∀ t ∈ ts, t.StandsIn text := by
  induction h with
  | start => exact fun t ht => absurd ht List.not_mem_nil
  | @token before gap span rest ts kind value h _ hmunch ih =>
    intro t ht
    rcases List.mem_append.mp ht with ht | ht
    · exact ih t ht
    · rw [List.mem_singleton.mp ht]
      exact ⟨before ++ gap, span, rest, by rw [h.eq_append, List.append_assoc], rfl, hmunch⟩

/-- Every token that is read from a text stands in it, and the end of the input at its end. -/
theorem standsIn_of_mem_tokens {s : String} {t : Token}
    (h : t ∈ (Lexer.run (Cursor.ofText s)).tokens) :
    t.StandsIn s.toList ∨ (t.kind = .endOfInput ∧ t.position = .behind s.toList) := by
  obtain ⟨before, ts, last, gap, left, hdiv, -, hend, htok⟩ := exists_division s.toList
  rw [← Cursor.ofText_eq_between] at htok hend
  rw [htok, List.mem_append] at h
  rcases h with h | h
  · exact .inl (hdiv.standsIn t h)
  · generalize (Lexer.run (Cursor.ofText s)).error? = err at hend
    cases hend with
    | endOfInput =>
      rw [List.append_nil] at hdiv
      rw [List.mem_singleton.mp h, hdiv.eq_append]
      exact .inr ⟨rfl, rfl⟩
    | fault | tooManyDigits => exact absurd h List.not_mem_nil

/-! ### Nodes in a text -/

/-- A node is made of a token that stands in a text. -/
def Expr.StandsIn (text : List Char) (x : Expr) : Prop := ∃ t : Token, t.StandsIn text ∧ MadeOf t x

/-- Every node of the tree of a text is made of a token that stands in the text. -/
theorem standsIn_of_parseWithin {depth : Nat} {s : String} {e : Expr}
    (h : parseWithin depth s = .ok e) : ∀ x ∈ e.nodes, x.StandsIn s.toList := by
  intro x hx
  obtain ⟨ts, last, htok, -, -, hts⟩ := run_of_parseWithin_ok h
  obtain ⟨t, ht, hmade⟩ := hts.exists_madeOf x hx
  rcases standsIn_of_mem_tokens (s := s) (t := t) (by simp [htok, ht]) with hstands | ⟨hk, -⟩
  · exact ⟨t, hstands, hmade⟩
  · exact absurd hk hmade.ne_endOfInput

namespace Expr.StandsIn

variable {text : List Char} {x e : Expr} {p : Position} {v : Value}

theorem one_le_position (h : x.StandsIn text) : 1 ≤ x.position.line ∧ 1 ≤ x.position.column := by
  obtain ⟨t, ⟨before, span, rest, -, hpos, -⟩, hmade⟩ := h
  rw [hmade.position_eq, hpos]
  exact ⟨Position.one_le_line_behind before, Position.one_le_column_behind before⟩

theorem integer_le (h : (integer p v).StandsIn text) :
    ∃ n, v = .number n ∧ 0 ≤ n ∧ n ≤ Word64.maxValue := by
  obtain ⟨t, ⟨_, _, _, -, -, hmunch⟩, hmade⟩ := h
  cases hmade with
  | integer hk =>
    rw [hk] at hmunch
    obtain ⟨hv, -, hle⟩ := hmunch.number_le
    exact ⟨_, hv, Int.natCast_nonneg _, hle⟩

theorem exists_name (h : (identifier p v).StandsIn text) : ∃ w, v = .text w ∧ Text.IsName w := by
  obtain ⟨t, ⟨_, _, _, -, -, hmunch⟩, hmade⟩ := h
  cases hmade with
  | identifier hk =>
    rw [hk] at hmunch
    exact hmunch.lexeme.exists_name

theorem exists_unaryOp (h : (unary p v e).StandsIn text) : ∃ op : UnaryOp, v = .text op.text := by
  obtain ⟨t, ⟨_, _, _, -, -, hmunch⟩, hmade⟩ := h
  cases hmade with
  | unary hk =>
    rcases hk with hk | hk
    · rw [hk] at hmunch
      exact ⟨.negate, hmunch.lexeme.value_of_symbol⟩
    · rw [hk] at hmunch
      exact ⟨.invert, hmunch.lexeme.value_of_symbol⟩

theorem exists_binaryOp {l r : Expr} (h : (binary p v l r).StandsIn text) :
    ∃ op : BinaryOp, v = .text op.text := by
  obtain ⟨t, ⟨_, _, _, -, -, hmunch⟩, hmade⟩ := h
  cases hmade with
  | binary hk hp =>
    rw [hk] at hmunch
    obtain ⟨op, rfl⟩ := BinaryOp.exists_symbol_eq hp
    exact ⟨op, op.text_symbol ▸ hmunch.lexeme.value_of_symbol⟩

/-- A tree whose nodes stand in a text has operators with a meaning, names, and numbers that fit. -/
theorem regular (h : ∀ x ∈ e.nodes, x.StandsIn text) :
    e.Regular fun n => 0 ≤ n ∧ n ≤ Word64.maxValue := by
  induction e with
  | integer => exact (h _ (self_mem_nodes _)).integer_le
  | identifier => exact (h _ (self_mem_nodes _)).exists_name
  | conditional _ _ _ _ ihc iht ihe =>
    exact ⟨ihc fun x hx => h x (by simp [nodes, hx]), iht fun x hx => h x (by simp [nodes, hx]),
      ihe fun x hx => h x (by simp [nodes, hx])⟩
  | unary _ _ _ ih =>
    exact ⟨(h _ (self_mem_nodes _)).exists_unaryOp, ih fun x hx => h x (by simp [nodes, hx])⟩
  | binary _ _ _ _ ihl ihr =>
    exact ⟨(h _ (self_mem_nodes _)).exists_binaryOp, ihl fun x hx => h x (by simp [nodes, hx]),
      ihr fun x hx => h x (by simp [nodes, hx])⟩

/-- What a node says, if it is a text, stands where the node does. -/
theorem exists_place {w : String} (h : x.StandsIn text) (hv : x.value = .text w) :
    ∃ before rest, text = before ++ rest ∧ x.position = .behind before ∧ Text.Opens w rest := by
  obtain ⟨t, ⟨before, span, rest, rfl, hpos, hmunch⟩, hmade⟩ := h
  have hvalue : t.value = .text w := by
    cases hmade with
    | conditional => cases hv
    | _ => exact hv
  rw [hvalue] at hmunch
  have hspan := hmunch.lexeme.eq_toList
  exact ⟨before, span ++ rest, rfl, by rw [hmade.position_eq, hpos],
    Text.opens_append hspan.symm hmunch.lexeme.ne_nil rest⟩

end Expr.StandsIn
end ExprLang
