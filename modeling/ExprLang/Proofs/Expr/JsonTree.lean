import ExprLang.Proofs.Expr.Filling

/-! The structured value of a tree has the tree.

    What a tree is exported as is said field by field (`Describes`): the kind of a node, its line, its
    column, its number, name or operator if it has one, and then its children under the names of
    their roles. A reader that knows nothing but these names finds all of it again
    (`Describes.tree?_eq`), so that the tree is not lost and no other has the same export
    (`json?_describes`). -/

namespace ExprLang

open Json in
/-- A structured value describes a tree: it has these fields in this order, and no more. -/
inductive Describes : Json → Expr → Prop
  | integer {p : Position} {v : Value} :
    Describes (object [("node_type", text "INTEGER"), ("line", integer p.line),
      ("column", integer p.column), ("value", ofValue v)]) (.integer p v)
  | identifier {p : Position} {n : Value} :
    Describes (object [("node_type", text "IDENTIFIER"), ("line", integer p.line),
      ("column", integer p.column), ("name", ofValue n)]) (.identifier p n)
  | conditional {p : Position} {c t e : Expr} {jc jt je : Json} :
    Describes jc c → Describes jt t → Describes je e →
    Describes (object [("node_type", text "IF"), ("line", integer p.line),
      ("column", integer p.column), ("condition", jc), ("consequent", jt), ("alternative", je)])
      (.conditional p c t e)
  | unary {p : Position} {op : Value} {e : Expr} {je : Json} : Describes je e →
    Describes (object [("node_type", text "UNARY"), ("line", integer p.line),
      ("column", integer p.column), ("operator", ofValue op), ("operand", je)]) (.unary p op e)
  | binary {p : Position} {op : Value} {l r : Expr} {jl jr : Json} :
    Describes jl l → Describes jr r →
    Describes (object [("node_type", text "BINARY"), ("line", integer p.line),
      ("column", integer p.column), ("operator", ofValue op), ("left", jl), ("right", jr)])
      (.binary p op l r)

namespace Json

/-! ### Reading a structured value -/

/-- What has been read from a structured value: a plain value or a tree. -/
inductive Content where
  | plain (v : Value)
  | tree (e : Expr)

namespace Content

variable (fields : List (String × Content)) (key : String)

/-- The plain value in a field. -/
def value? : Option Value :=
  match fields.lookup key with
  | some (plain v) => some v
  | _ => none

/-- The number in a field. -/
def number? : Option Int :=
  match fields.lookup key with
  | some (plain (.number n)) => some n
  | _ => none

/-- The tree in a field. -/
def tree? : Option Expr :=
  match fields.lookup key with
  | some (tree e) => some e
  | _ => none

/-- The node that some fields tell of. -/
def node? : Option Expr := do
  let position : Position := ⟨← number? fields "line", ← number? fields "column"⟩
  match ← value? fields "node_type" with
  | .text "INTEGER" => pure (.integer position (← value? fields "value"))
  | .text "IDENTIFIER" => pure (.identifier position (← value? fields "name"))
  | .text "IF" =>
    pure (.conditional position (← tree? fields "condition") (← tree? fields "consequent")
      (← tree? fields "alternative"))
  | .text "UNARY" =>
    pure (.unary position (← value? fields "operator") (← tree? fields "operand"))
  | .text "BINARY" =>
    pure (.binary position (← value? fields "operator") (← tree? fields "left")
      (← tree? fields "right"))
  | _ => none

end Content

mutual

/-- Reads a structured value. An object is the tree of its fields. -/
def content? : Json → Option Content
  | null => some (.plain .absent)
  | integer n => some (.plain (.number n))
  | text s => some (.plain (.text s))
  | object fields => do pure (.tree (← Content.node? (← contents? fields)))

/-- Reads some fields. -/
def contents? : List (String × Json) → Option (List (String × Content))
  | [] => some []
  | (key, value) :: rest => do pure ((key, ← content? value) :: (← contents? rest))

end

/-- The tree that a structured value tells of. -/
def tree? (value : Json) : Option Expr :=
  match value.content? with
  | some (.tree e) => some e
  | _ => none

theorem content?_ofValue (v : Value) : (ofValue v).content? = some (.plain v) := by
  cases v <;> rfl

end Json

namespace Describes

open Json Content

variable {value : Json} {e : Expr}

/-- The reader finds the tree: every field that it looks up stands in the object. -/
theorem content?_eq (h : Describes value e) : value.content? = some (.tree e) := by
  induction h with
  | integer | identifier =>
    simp [content?, contents?, content?_ofValue, node?, value?, number?, List.lookup_cons]
  | conditional _ _ _ ihc iht ihe =>
    simp [content?, contents?, ihc, iht, ihe, node?, value?, number?, Content.tree?,
      List.lookup_cons]
  | unary _ ih =>
    simp [content?, contents?, content?_ofValue, ih, node?, value?, number?, Content.tree?,
      List.lookup_cons]
  | binary _ _ ihl ihr =>
    simp [content?, contents?, content?_ofValue, ihl, ihr, node?, value?, number?, Content.tree?,
      List.lookup_cons]

theorem tree?_eq (h : Describes value e) : value.tree? = some e := by
  rw [Json.tree?, h.content?_eq]

/-- Nothing but the object that the recursion gives describes a tree. -/
theorem eq_toJson (h : Describes value e) : value = e.toJson := by
  induction h with
  | integer | identifier => rfl
  | conditional _ _ _ ihc iht ihe =>
    rw [ihc, iht, ihe]
    rfl
  | unary _ ih =>
    rw [ih]
    rfl
  | binary _ _ ihl ihr =>
    rw [ihl, ihr]
    rfl

end Describes

namespace Expr

theorem describes_toJson (e : Expr) : Describes e.toJson e := by
  induction e with
  | integer => exact .integer
  | identifier => exact .identifier
  | conditional _ _ _ _ ihc iht ihe => exact .conditional ihc iht ihe
  | unary _ _ _ ih => exact .unary ih
  | binary _ _ _ _ ihl ihr => exact .binary ihl ihr

/-- Every tree is exported, whatever its names, operators, numbers and positions are: as the one
    value that describes it field by field. The tree is read back from that value, and so no other
    tree is exported as the same. -/
theorem json?_describes (e : Expr) : ∃ value, e.json? = some value ∧
    (∀ v, Describes v e ↔ v = value) ∧ value.tree? = some e ∧
    ∀ e' : Expr, e'.json? = some value → e' = e := by
  have hread : e.toJson.tree? = some e := e.describes_toJson.tree?_eq
  refine ⟨e.toJson, e.json?_eq, fun v => ⟨Describes.eq_toJson, ?_⟩, hread, fun e' h => ?_⟩
  · rintro rfl
    exact e.describes_toJson
  · have hsame : e'.toJson = e.toJson := Option.some.inj (e'.json?_eq.symm.trans h)
    have hread' : e'.toJson.tree? = some e' := e'.describes_toJson.tree?_eq
    rw [hsame, hread] at hread'
    exact (Option.some.inj hread').symm

end Expr
end ExprLang
