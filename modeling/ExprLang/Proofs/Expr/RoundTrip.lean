import ExprLang.Expr.Surface
import ExprLang.Proofs.Expr.Acceptance
import ExprLang.Proofs.Expr.Assembly
import ExprLang.Proofs.Expr.Regular
import ExprLang.Proofs.Token.Spelling

/-! The text of a tree has the tree.

    The text of a tree is read piece by piece, and its tokens derive what `spelled` says: the tree
    itself without its positions, except that a number below zero is spelled as a negation. Children
    are operands, because compound ones stand in parentheses, so precedences never decide how the
    text is grouped. Behind every piece follows a blank, a closing parenthesis or nothing, and
    behind an operator in front of an operand follows the beginning of an operand; none of these
    runs on with what is in front of it. -/

namespace ExprLang

/-- The tree that the text of a tree spells. -/
def Expr.spelled : Expr → Expr
  | .integer _ (.number n) =>
    if n < 0 then
      .unary .unknown (.text UnaryOp.negate.text) (.integer .unknown (.number (-n)))
    else .integer .unknown (.number n)
  | .integer _ v => .integer .unknown v
  | .identifier _ n => .identifier .unknown n
  | .conditional _ c t e => .conditional .unknown c.spelled t.spelled e.spelled
  | .unary _ op e => .unary .unknown op e.spelled
  | .binary _ op l r => .binary .unknown op l.spelled r.spelled

/-- A tree without numbers below zero is spelled as it is. -/
theorem Expr.spelled_eq_unplaced {fits : Int → Prop} (hfits : ∀ n, fits n → 0 ≤ n) {e : Expr}
    (h : e.Regular fits) : e.spelled = e.unplaced := by
  induction e with
  | integer p v =>
    obtain ⟨n, rfl, hn⟩ := h
    rw [spelled, if_neg (Int.not_lt.mpr (hfits n hn)), unplaced]
  | identifier p v => rfl
  | conditional p c t e ihc iht ihe =>
    rw [spelled, ihc h.1, iht h.2.1, ihe h.2.2, unplaced]
  | unary p op e ih => rw [spelled, ih h.2, unplaced]
  | binary p op l r ihl ihr => rw [spelled, ihl h.2.1, ihr h.2.2, unplaced]

namespace Grammar

open Lexer (Single)

variable {c : Category} {ts us vs : List Token} {shape left right : Expr} {v w : Value}

namespace DerivesShape

theorem loosen {d : Category} (h : DerivesShape d ts shape) (hcd : c.rank ≤ d.rank) :
    DerivesShape c ts shape := by
  obtain ⟨e, he, hshape⟩ := h
  exact ⟨e, he.loosen hcd, hshape⟩

theorem ne_nil : ¬ DerivesShape c [] shape := fun ⟨_, he, _⟩ => he.ne_nil rfl

theorem integer (h : Single .integer v ts) :
    DerivesShape .primary ts (.integer .unknown v) := by
  obtain ⟨p, rfl⟩ := h
  exact ⟨_, .integer rfl, rfl⟩

theorem identifier (h : Single .identifier v ts) :
    DerivesShape .primary ts (.identifier .unknown v) := by
  obtain ⟨p, rfl⟩ := h
  exact ⟨_, .identifier rfl, rfl⟩

theorem prefixed {op : UnaryOp} (ht : Single (.symbol op.symbol) v ts)
    (h : DerivesShape .operand us shape) :
    DerivesShape .operand (ts ++ us) (.unary .unknown v shape) := by
  obtain ⟨p, rfl⟩ := ht
  obtain ⟨e, he, rfl⟩ := h
  refine ⟨_, .prefixed ?_ he, rfl⟩
  cases op with
  | negate => exact .inl rfl
  | invert => exact .inr rfl

theorem parenthesized (hl : Single (.symbol .leftParen) v ts) (h : DerivesShape .disjunction us shape)
    (hr : Single (.symbol .rightParen) w vs) :
    DerivesShape .primary (ts ++ (us ++ vs)) shape := by
  obtain ⟨p, rfl⟩ := hl
  obtain ⟨q, rfl⟩ := hr
  obtain ⟨e, he, rfl⟩ := h
  exact ⟨_, .parenthesized rfl he rfl, rfl⟩

/-- Operands around an operator are an expression, whatever the operator is. -/
theorem binary {op : BinaryOp} (hl : DerivesShape .operand ts left)
    (ht : Single (.symbol op.symbol) v us) (hr : DerivesShape .operand vs right) :
    DerivesShape .disjunction (ts ++ (us ++ vs)) (.binary .unknown v left right) := by
  obtain ⟨p, rfl⟩ := ht
  obtain ⟨l, hl, rfl⟩ := hl
  obtain ⟨r, hr, rfl⟩ := hr
  obtain ⟨c, s, hk, hs, _, hrank⟩ :=
    Category.exists_mem_operators (t := ⟨.symbol op.symbol, v, p⟩) op.precedence_symbol_ne_zero
  have htighter := Category.rank_tighter (Category.ne_primary_of_mem hs)
  have hloose : c.rank ≤ Category.operand.rank := Nat.le_succ_of_le hrank
  have htight : c.tighter.rank ≤ Category.operand.rank := htighter ▸ Nat.succ_le_succ hrank
  exact ⟨_, (Derives.binary hk hs (hl.loosen hloose) (hr.loosen htight)).loosen c.rank_pos, rfl⟩

theorem conditional {is ns es ds cs xs ys : List Token} {cond cons alt : Expr}
    {vi vt ve vn : Value} (hi : Single (.keyword .ifWord) vi is)
    (hc : DerivesShape .disjunction cs cond) (ht : Single (.keyword .thenWord) vt ns)
    (hx : DerivesShape .disjunction xs cons) (he : Single (.keyword .elseWord) ve es)
    (hy : DerivesShape .disjunction ys alt) (hn : Single (.keyword .endWord) vn ds) :
    DerivesShape .primary (is ++ (cs ++ (ns ++ (xs ++ (es ++ (ys ++ ds))))))
      (.conditional .unknown cond cons alt) := by
  obtain ⟨_, rfl⟩ := hi
  obtain ⟨_, rfl⟩ := ht
  obtain ⟨_, rfl⟩ := he
  obtain ⟨_, rfl⟩ := hn
  obtain ⟨_, hc, rfl⟩ := hc
  obtain ⟨_, hx, rfl⟩ := hx
  obtain ⟨_, hy, rfl⟩ := hy
  exact ⟨_, .conditional rfl hc rfl hx rfl hy rfl, rfl⟩

end DerivesShape
end Grammar

/-! ### What stands beside a piece -/

/-- A blank, a closing parenthesis or nothing comes next. -/
def Text.Ends (rest : List Char) : Prop := ∀ d, rest.head? = some d → d = ' ' ∨ d = ')'

/-- The beginning of an operand comes next: it makes no other symbol of a sign in front of it. -/
def Text.Begins (cs : List Char) : Prop := ∃ d ds, cs = d :: ds ∧ d ≠ '=' ∧ d ≠ '/'

namespace Text

variable {cs rest : List Char}

theorem ends_nil : Ends [] := nofun

theorem ends_blank : Ends (' ' :: rest) := fun _ hd => .inl (Option.some.inj hd).symm

theorem ends_rightParen : Ends (')' :: rest) := fun _ hd => .inr (Option.some.inj hd).symm

theorem Ends.isIdentChar (h : Ends rest) (d : Char) (hd : rest.head? = some d) :
    isIdentChar d = false := by
  rcases h d hd with rfl | rfl <;> decide

theorem Ends.head_ne {d : Char} (h : Ends rest) (hd : d ≠ ' ') (hd' : d ≠ ')') :
    rest.head? ≠ some d := by
  intro hhead
  rcases h d hhead with h | h
  · exact hd h
  · exact hd' h

theorem Begins.append (h : Begins cs) (ds : List Char) : Begins (cs ++ ds) := by
  obtain ⟨d, es, rfl, hd⟩ := h
  exact ⟨d, es ++ ds, rfl, hd⟩

theorem Begins.head_ne_equal (h : Begins cs) : cs.head? ≠ some '=' := by
  obtain ⟨d, es, rfl, hd, _⟩ := h
  exact fun hhead => hd (Option.some.inj hhead)

theorem Begins.head_ne_slash (h : Begins cs) : cs.head? ≠ some '/' := by
  obtain ⟨d, es, rfl, _, hd⟩ := h
  exact fun hhead => hd (Option.some.inj hhead)

theorem Begins.of_isIdentChar {d : Char} {ds : List Char} (h : isIdentChar d = true) :
    Begins (d :: ds) := by
  refine ⟨d, ds, rfl, ?_, ?_⟩ <;> rintro rfl <;> exact absurd h (by decide)

theorem Begins.of_isWord {s : String} (h : IsWord s) : Begins s.toList := by
  obtain ⟨d, ds, hs, hd, _⟩ := h
  rw [hs]
  exact .of_isIdentChar (isIdentChar_of_isIdentStart hd)

theorem begins_toDigits (n : Nat) : Begins (Nat.toDigits 10 n) := by
  obtain ⟨d, ds, hds⟩ := List.exists_cons_of_ne_nil (Nat.toDigits_ne_nil (n := n) (b := 10))
  have hd : d.isDigit = true :=
    Nat.isDigit_of_mem_toDigits (by decide) (by decide) (hds ▸ List.mem_cons_self)
  rw [hds]
  exact .of_isIdentChar (isIdentChar_of_isDigit hd)

end Text

namespace Expr

open Lexer Text Grammar

/-! ### Reading the text of a tree -/

/-- Some characters are read as a tree of this shape, whatever ends them. -/
def ReadsAs (cs : List Char) (c : Category) (shape : Expr) : Prop :=
  ∀ rest, Ends rest → Reads cs rest fun ts => DerivesShape c ts shape

/-- What the text of a tree is read as: a compound one is no operand. -/
def category (e : Expr) : Category := if e.isCompound then .disjunction else .operand

theorem begins_wrapped {child : Expr} {text : String} (h : Begins text.toList) :
    Begins (wrapped child text).toList := by
  unfold wrapped
  split
  · rw [String.toList_append, String.toList_append]
    exact ⟨'(', _, rfl, by decide, by decide⟩
  · exact h

/-- A child is read as an operand. -/
theorem readsAs_wrapped {child shape : Expr} {text : String} (hb : Begins text.toList)
    (h : ReadsAs text.toList child.category shape) :
    ReadsAs (wrapped child text).toList .operand shape := by
  intro rest hrest
  unfold wrapped
  unfold category at h
  split
  · rename_i hchild
    rw [if_pos hchild] at h
    rw [String.toList_append, String.toList_append, List.append_assoc]
    have hopen := hb.append (")".toList ++ rest)
    rw [← List.append_assoc] at hopen
    refine (reads_symbol .leftParen hopen.head_ne_equal hopen.head_ne_slash).append fun ls hl => ?_
    refine (h _ ends_rightParen).append fun ts hts => ?_
    refine (reads_symbol .rightParen (hrest.head_ne (by decide) (by decide))
      (hrest.head_ne (by decide) (by decide))).mono fun rs hr => ?_
    exact (DerivesShape.parenthesized hl hts hr).loosen (by decide)
  · rename_i hchild
    rw [if_neg hchild] at h
    exact h rest hrest

/-- The digits of a number below zero stand behind a minus. -/
theorem readsAs_integer {n : Int} (hn : (n.natAbs : Int) ≤ Word64.maxValue) (p : Position) :
    ReadsAs (Value.number n).plain.toList .operand (spelled (.integer p (.number n))) := by
  intro rest hrest
  have hdigits := reads_number hn hrest.isIdentChar
  cases n with
  | ofNat m =>
    have htext : (Value.number (Int.ofNat m)).plain.toList = Nat.toDigits 10 m :=
      Value.toList_plain_natCast m
    rw [htext, spelled, if_neg (show ¬ Int.ofNat m < 0 by simp)]
    exact hdigits.mono fun ts hts => (DerivesShape.integer hts).loosen (by decide)
  | negSucc m =>
    have htext : (Value.number (Int.negSucc m)).plain.toList =
        UnaryOp.negate.symbol.text.toList ++ Nat.toDigits 10 (m + 1) := by
      rw [← Nat.toList_repr]
      exact String.toList_append
    have hbehind := (begins_toDigits (m + 1)).append rest
    rw [htext, spelled, if_pos (Int.negSucc_lt_zero m)]
    refine (reads_symbol _ hbehind.head_ne_equal hbehind.head_ne_slash).append fun ts ht => ?_
    exact hdigits.mono fun us hus => .prefixed ht ((DerivesShape.integer hus).loosen (by decide))

theorem readsAs_identifier {s : String} (hs : IsName s) :
    ReadsAs s.toList .operand (.identifier .unknown (.text s)) := by
  intro rest hrest
  refine (reads_word hs.1 hrest.isIdentChar).mono fun ts hts => ?_
  rw [hs.ofWord] at hts
  exact (DerivesShape.identifier hts).loosen (by decide)

theorem readsAs_unary (op : UnaryOp) {text : String} {shape : Expr} (hb : Begins text.toList)
    (h : ReadsAs text.toList .operand shape) :
    ReadsAs (op.text ++ text).toList .operand (.unary .unknown (.text op.text) shape) := by
  intro rest hrest
  rw [String.toList_append, ← op.text_symbol]
  have hbehind := hb.append rest
  refine (reads_symbol op.symbol hbehind.head_ne_equal hbehind.head_ne_slash).append fun ts ht => ?_
  exact (h rest hrest).mono fun us hus => .prefixed ht hus

theorem readsAs_binary (op : BinaryOp) {tl tr : String} {left right : Expr}
    (hl : ReadsAs tl.toList .operand left) (hr : ReadsAs tr.toList .operand right) :
    ReadsAs (tl ++ " " ++ op.text ++ " " ++ tr).toList .disjunction
      (.binary .unknown (.text op.text) left right) := by
  intro rest hrest
  have htext : (tl ++ " " ++ op.text ++ " " ++ tr).toList =
      tl.toList ++ ((' ' :: op.symbol.text.toList) ++ (' ' :: tr.toList)) := by
    rw [op.text_symbol]
    simp
  rw [htext, ← op.text_symbol]
  refine (hl _ ends_blank).append fun ts hts => ?_
  refine (Reads.blank rfl (reads_symbol op.symbol (ends_blank.head_ne (by decide) (by decide))
    (ends_blank.head_ne (by decide) (by decide))) Single.ne_nil).append fun us hus => ?_
  exact (Reads.blank rfl (hr rest hrest) DerivesShape.ne_nil).mono fun vs hvs => .binary hts hus hvs

theorem readsAs_conditional {tc tt te : String} {cond cons alt : Expr}
    (hc : ReadsAs tc.toList .operand cond) (ht : ReadsAs tt.toList .operand cons)
    (he : ReadsAs te.toList .operand alt) :
    ReadsAs ("if " ++ tc ++ " then " ++ tt ++ " else " ++ te ++ " end").toList .disjunction
      (.conditional .unknown cond cons alt) := by
  intro rest hrest
  have htext : ("if " ++ tc ++ " then " ++ tt ++ " else " ++ te ++ " end").toList =
      Keyword.ifWord.text.toList ++ ((' ' :: tc.toList) ++ ((' ' :: Keyword.thenWord.text.toList) ++
        ((' ' :: tt.toList) ++ ((' ' :: Keyword.elseWord.text.toList) ++ ((' ' :: te.toList) ++
          (' ' :: Keyword.endWord.text.toList)))))) := by
    simp [Keyword.text]
  rw [htext]
  refine (reads_keyword .ifWord ends_blank.isIdentChar).append fun is hi => ?_
  refine (Reads.blank rfl (hc _ ends_blank) DerivesShape.ne_nil).append fun cs hcs => ?_
  refine (Reads.blank rfl (reads_keyword .thenWord ends_blank.isIdentChar)
    Single.ne_nil).append fun ns hn => ?_
  refine (Reads.blank rfl (ht _ ends_blank) DerivesShape.ne_nil).append fun xs hxs => ?_
  refine (Reads.blank rfl (reads_keyword .elseWord ends_blank.isIdentChar)
    Single.ne_nil).append fun es hel => ?_
  refine (Reads.blank rfl (he _ ends_blank) DerivesShape.ne_nil).append fun ys hys => ?_
  refine (Reads.blank rfl (reads_keyword .endWord hrest.isIdentChar)
    Single.ne_nil).mono fun ds hd => ?_
  have loose : ∀ {ts shape}, DerivesShape .operand ts shape → DerivesShape .disjunction ts shape :=
    fun h => h.loosen (by decide)
  exact (DerivesShape.conditional hi (loose hcs) hn (loose hxs) hel (loose hys) hd).loosen
    (by decide)

theorem begins_surface {fits : Int → Prop} {e : Expr} (h : e.Regular fits) :
    Begins e.surface.toList := by
  induction e with
  | integer p v =>
    obtain ⟨n, rfl, _⟩ := h
    cases n with
    | ofNat m => exact Nat.toList_repr (n := m) ▸ begins_toDigits m
    | negSucc m =>
      rw [surface, Value.plain]
      exact String.toList_append ▸ ⟨'-', _, rfl, by decide, by decide⟩
  | identifier p v =>
    obtain ⟨s, rfl, hs⟩ := h
    exact .of_isWord hs.1
  | conditional p c t e _ _ _ =>
    simp only [surface, String.toList_append, List.append_assoc]
    exact ⟨'i', _, rfl, by decide, by decide⟩
  | unary p op e _ =>
    obtain ⟨⟨o, rfl⟩, _⟩ := h
    rw [surface, String.toList_append]
    cases o <;> exact ⟨_, _, rfl, by decide, by decide⟩
  | binary p op l r ihl _ =>
    simp only [surface, String.toList_append, List.append_assoc]
    exact (begins_wrapped (ihl h.2.1)).append _

/-- A child in its parent is read as an operand if its own text is read as the child. -/
theorem readsAs_child {fits : Int → Prop} {child : Expr} (h : child.Regular fits)
    (hread : ReadsAs child.surface.toList child.category child.spelled) :
    ReadsAs (wrapped child child.surface).toList .operand child.spelled :=
  readsAs_wrapped (begins_surface h) hread

/-- The text of a tree is read as the tree. -/
theorem readsAs_surface {e : Expr} (h : e.Regular fun n => (n.natAbs : Int) ≤ Word64.maxValue) :
    ReadsAs e.surface.toList e.category e.spelled := by
  induction e with
  | integer p v =>
    obtain ⟨n, rfl, hn⟩ := h
    exact readsAs_integer hn p
  | identifier p v =>
    obtain ⟨s, rfl, hs⟩ := h
    exact readsAs_identifier hs
  | conditional p c t e ihc iht ihe =>
    obtain ⟨hc, ht, he⟩ := h
    exact readsAs_conditional (readsAs_child hc (ihc hc)) (readsAs_child ht (iht ht))
      (readsAs_child he (ihe he))
  | unary p op e ih =>
    obtain ⟨⟨o, rfl⟩, he⟩ := h
    exact readsAs_unary o (begins_wrapped (begins_surface he)) (readsAs_child he (ih he))
  | binary p op l r ihl ihr =>
    obtain ⟨⟨o, rfl⟩, hl, hr⟩ := h
    exact readsAs_binary o (readsAs_child hl (ihl hl)) (readsAs_child hr (ihr hr))

/-- The tokens of the text of a tree are a sentence that has the tree. -/
theorem tokensOf_surface {e : Expr} (h : e.Regular fun n => (n.natAbs : Int) ≤ Word64.maxValue) :
    ∃ ts last, tokensOf e.surface = .ok (ts ++ [last]) ∧ last.kind = .endOfInput ∧
      Spells ts e.spelled := by
  obtain ⟨ts, last, htok, hlast, hts⟩ := (readsAs_surface h [] ends_nil).tokensOf
  refine ⟨ts, last, htok, hlast, hts.loosen ?_⟩
  unfold category
  split <;> decide

end Expr

open Grammar

/-- The text of a tree without numbers below zero has the tree, apart from its positions, with every
    budget that is deep enough for the text. -/
theorem parseWithin_surfaceText {e : Expr}
    (h : e.Regular fun n => 0 ≤ n ∧ n ≤ Word64.maxValue) :
    ∃ text, e.surfaceText? = some text ∧ ∀ depth, DeepEnough depth text →
      ∃ e', parseWithin depth text = .ok e' ∧ e'.unplaced = e.unplaced := by
  refine ⟨e.surface, Expr.assemble_eq Expr.surface_eq_surfaceNode e, fun depth hd => ?_⟩
  have hfits : e.Regular fun n => (n.natAbs : Int) ≤ Word64.maxValue :=
    h.mono fun n hn => by omega
  obtain ⟨ts, last, htok, hlast, e', hts, hshape⟩ := Expr.tokensOf_surface hfits
  refine ⟨e', parseWithin_of_sentence htok hlast hts hd.ne_tooDeep, ?_⟩
  rw [hshape, Expr.spelled_eq_unplaced (fun n hn => hn.1) h]

/-- Two operators in front of a name and a choice as an operand come back. -/
theorem parseWithin_surfaceText_nested :
    let x : Expr := .identifier ⟨2, 5⟩ (.text "x")
    let choice : Expr :=
      .conditional ⟨1, 1⟩ (.integer ⟨0, 0⟩ (.number 0)) x (.integer ⟨0, 0⟩ (.number 7))
    let tree : Expr := .binary ⟨3, 1⟩ (.text "-")
      (.unary ⟨0, 0⟩ (.text "-") (.unary ⟨0, 0⟩ (.text "!") x)) choice
    let text := "-!x - (if 0 then x else 7 end)"
    tree.surfaceText? = some text ∧ DeepEnough 30 text ∧
      ∃ e', parseWithin 30 text = .ok e' ∧ e'.unplaced = tree.unplaced := by
  intro x choice tree text
  have hx : Text.IsName "x" := ⟨⟨'x', [], rfl, by decide, by simp⟩, by decide⟩
  have hregular : tree.Regular fun n => 0 ≤ n ∧ n ≤ Word64.maxValue :=
    ⟨⟨.arithmetic .subtract, rfl⟩, ⟨⟨.negate, rfl⟩, ⟨.invert, rfl⟩, "x", rfl, hx⟩,
      ⟨0, rfl, by decide⟩, ⟨"x", rfl, hx⟩, 7, rfl, by decide⟩
  have htext : tree.surfaceText? = some text :=
    Expr.assemble_eq Expr.surface_eq_surfaceNode tree
  have hdeep : DeepEnough 30 text := by decide +kernel
  obtain ⟨text', hsome, hparse⟩ := parseWithin_surfaceText hregular
  obtain rfl : text' = text := Option.some.inj (hsome.symm.trans htext)
  exact ⟨htext, hdeep, hparse 30 hdeep⟩

end ExprLang
