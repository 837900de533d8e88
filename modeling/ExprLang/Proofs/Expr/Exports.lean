import Mathlib.Data.List.Basic
import ExprLang.Expr.Dot
import ExprLang.Proofs.Expr.Filling
import ExprLang.Proofs.Expr.Indentation
import ExprLang.Proofs.Json.Objects

/-! Three views of one tree.

    A tree has an outline, a structured value and a graph. What the objects of its value say of
    themselves, on a walk that knows nothing of the tree, is what the lines of its outline and the
    statements of its graph say (`Exported`). The objects have their turns as the nodes do
    (`entries_toJson`), and so it is enough to compare what is said of one node (`entry`). -/

namespace ExprLang

/-! ### What an object says -/

namespace Json.Entry

variable (x : Entry)

/-- The plain text of a field. -/
def plain? (key : String) : Option String := (x.fields.lookup key).bind Json.plain?

/-- An object says its number, its name or its operator, and a choice says that it is one. -/
def label? : Option String :=
  if x.plain? "node_type" = some "IF" then some "if"
  else ["value", "name", "operator"].findSome? x.plain?

/-- An object that holds no objects. -/
def isLeaf : Bool := x.fields.all fun f => !f.2.isObject

/-- An object holds another under the name and the number that the other keeps in mind, and comes
    before it, one level above. -/
def Holds (y x : Entry) : Prop := ∃ key, x.holder = some (y.index, key) ∧
  (key, .object x.fields) ∈ y.fields ∧ x.depth = y.depth + 1 ∧ y.index < x.index

/-- The line of an outline for an object: two blanks for each level, then what it says. -/
def line? : Option String :=
  x.label?.map (String.ofList (List.replicate (2 * x.depth) ' ') ++ ·)

/-- The statement of a graph for an object: it has the number and the label of the object, it is an
    ellipse for a leaf, and it shows where the object says that it stands. -/
def node? : Option Dot.Statement := do
  let label ← x.label?
  let line ← x.plain? "line"
  let column ← x.plain? "column"
  let shape := if x.isLeaf then "ellipse" else "box"
  pure (.node x.index label [("shape", shape), ("tooltip", line ++ ":" ++ column)])

/-- The label of an edge for each field that holds an object. -/
def edgeLabels : List (String × String) :=
  [("condition", "cond"), ("consequent", "then"), ("alternative", "else"), ("operand", ""),
    ("left", "left"), ("right", "right")]

/-- The statement of a graph for an object in another: an edge from that to it, labelled as the
    field says. -/
def edge? : Option Dot.Statement := do
  let (holder, key) ← x.holder
  let label ← edgeLabels.lookup key
  pure (.edge holder x.index label)

end Json.Entry

namespace Dot.Statement

/-- A statement for a node. -/
def isNode : Statement → Bool
  | node .. => true
  | _ => false

/-- A statement for an edge. -/
def isEdge : Statement → Bool
  | edge .. => true
  | _ => false

end Dot.Statement

/-- Objects, lines and statements that describe the same tree of `k` nodes. Objects are numbered on;
    each has a line and a node, and each but the first is in another and has an edge, in the order
    of the objects. There are no other lines, nodes and edges. -/
structure Exported (k : Nat) (objects : List Json.Entry) (lines : List String)
    (statements : List Dot.Statement) : Prop where
  count : objects.length = k ∧ lines.length = k ∧ (statements.filter Dot.Statement.isNode).length = k ∧
    (statements.filter Dot.Statement.isEdge).length + 1 = k
  index : objects.map Json.Entry.index = List.range k
  root : ∀ x ∈ objects.head?, x.depth = 0 ∧ x.holder = none
  holder : ∀ x ∈ objects.tail, ∃ y ∈ objects, y.Holds x
  line : lines.map some = objects.map Json.Entry.line?
  node : (statements.filter Dot.Statement.isNode).map some = objects.map Json.Entry.node?
  edge : (statements.filter Dot.Statement.isEdge).map some = objects.tail.map Json.Entry.edge?

namespace Expr

/-! ### The object of a node -/

theorem isObject_toJson (e : Expr) : e.toJson.isObject = true := by
  rw [toJson_eq_object, Json.isObject_object]

/-- The object of a node that has its turn. -/
def Visit.entry (v : Visit) : Json.Entry :=
  ⟨v.index, v.depth, v.parent.map fun p => (p.1, p.2.field), v.node.fields⟩

/-- What a node says of itself holds no objects. -/
theorem isObject_of_mem_ownFields (e : Expr) : ∀ f ∈ e.ownFields, f.2.isObject = false := by
  cases e <;> simp [ownFields, payload]

/-- The objects of some children have their turns as the children do, if this holds of each. -/
theorem fieldEntries_children {cs : List (Role × Expr)}
    (h : ∀ c ∈ cs, ∀ index depth parent, Json.entries index depth
      (Option.map (fun p : Nat × Role => (p.1, p.2.field)) parent) c.2.toJson =
        (visitAll index [⟨c.2, depth, parent⟩]).map Visit.entry) (index depth holder : Nat) :
    Json.fieldEntries index depth holder (cs.map fun c => (c.1.field, c.2.toJson)) =
      (visitAll index (cs.map fun c => ⟨c.2, depth, some (holder, c.1)⟩)).map Visit.entry := by
  induction cs generalizing index with
  | nil => rw [List.map_nil, List.map_nil, visitAll_nil, Json.fieldEntries, List.map_nil]
  | cons c cs ih =>
    obtain ⟨hc, hcs⟩ := List.forall_mem_cons.mp h
    have hfirst := hc index depth (some (holder, c.1))
    have hsplit := visitAll_append index [⟨c.2, depth, some (holder, c.1)⟩]
      (cs.map fun c => ⟨c.2, depth, some (holder, c.1)⟩)
    rw [List.singleton_append] at hsplit
    rw [Option.map_some] at hfirst
    rw [List.map_cons, List.map_cons, Json.fieldEntries, hfirst, List.length_map, length_visitAll,
      ih hcs, hsplit, List.map_append]

/-- The objects of a tree have their turns as its nodes do. -/
theorem entries_toJson (e : Expr) : ∀ index depth parent, Json.entries index depth
    (Option.map (fun p : Nat × Role => (p.1, p.2.field)) parent) e.toJson =
      (visitAll index [⟨e, depth, parent⟩]).map Visit.entry := by
  induction e using children_induction with
  | h e ih =>
    intro index depth parent
    rw [toJson_eq_object, Json.entries, visitAll_cons, List.append_nil, List.map_cons, fields,
      Json.fieldEntries_append _ _ _ e.isObject_of_mem_ownFields, fieldEntries_children ih]
    rfl

theorem objects_toJson (e : Expr) : e.toJson.objects = e.preorder.map Visit.entry :=
  e.entries_toJson 0 0 none

/-! ### One node -/

namespace Visit

variable (v : Visit)

theorem label?_entry : v.entry.label? = some v.node.label := by
  obtain ⟨⟨e, depth, parent⟩, index⟩ := v
  generalize hx : entry ⟨⟨e, depth, parent⟩, index⟩ = x
  have hkind : x.plain? "node_type" = some e.kind.name := hx ▸ rfl
  cases e with
  | conditional => exact if_pos hkind
  | integer p n =>
    have hvalue : x.plain? "value" = some n.plain := hx ▸ Json.plain?_ofValue n
    simp [Json.Entry.label?, hkind, hvalue, kind, NodeKind.name, label, value]
  | identifier p n =>
    have hvalue : x.plain? "value" = none := hx ▸ rfl
    have hname : x.plain? "name" = some n.plain := hx ▸ Json.plain?_ofValue n
    simp [Json.Entry.label?, hkind, hvalue, hname, kind, NodeKind.name, label, value]
  | unary p op | binary p op =>
    have hvalue : x.plain? "value" = none := hx ▸ rfl
    have hname : x.plain? "name" = none := hx ▸ rfl
    have hoperator : x.plain? "operator" = some op.plain := hx ▸ Json.plain?_ofValue op
    simp [Json.Entry.label?, hkind, hvalue, hname, hoperator, kind, NodeKind.name, label, value]

theorem isLeaf_entry : v.entry.isLeaf = v.node.isLeaf := by
  obtain ⟨⟨e, depth, parent⟩, index⟩ := v
  cases e <;> simp [entry, Json.Entry.isLeaf, fields, ownFields, payload, children, isLeaf,
    isObject_toJson]

theorem node?_entry : v.entry.node? = some (.node v.index v.node.label
    [("shape", v.node.shape), ("tooltip", v.node.position.text)]) := by
  have hline : v.entry.plain? "line" = some (toString v.node.position.line) := rfl
  have hcolumn : v.entry.plain? "column" = some (toString v.node.position.column) := rfl
  rw [Json.Entry.node?, label?_entry, hline, hcolumn, isLeaf_entry]
  rfl

theorem line?_entry : v.entry.line? = some (indentation (0 + v.depth) ++ v.node.label) := by
  rw [Json.Entry.line?, label?_entry, indentation, Int.zero_add]
  rfl

theorem edge?_entry {holder : Nat} {role : Role} (h : v.parent = some (holder, role)) :
    v.entry.edge? = some (.edge holder v.index role.edgeLabel) := by
  have hlabel : Json.Entry.edgeLabels.lookup role.field = some role.edgeLabel := by
    cases role <;> rfl
  rw [Json.Entry.edge?, entry, h]
  simp [hlabel]

/-- The object of a parent holds those of its children. -/
theorem holds_entry {u v : Visit} (h : v.toPlace ∈ u.below) (hlt : u.index < v.index) :
    u.entry.Holds v.entry := by
  obtain ⟨⟨x, depth, parent⟩, index⟩ := v
  obtain ⟨c, hc, hplace⟩ := mem_below.mp h
  obtain ⟨rfl, rfl, rfl⟩ := Place.mk.inj hplace
  refine ⟨c.1.field, rfl, ?_, rfl, hlt⟩
  refine List.mem_append_right _ (List.mem_map.mpr ⟨c, hc, ?_⟩)
  rw [toJson_eq_object]
  rfl

end Visit

/-! ### All nodes -/

section Statements

variable (title : String) (e : Expr)

theorem filter_isNode : (e.dotStatements title).filter Dot.Statement.isNode =
    e.preorder.map fun v => .node v.index v.node.label
      [("shape", v.node.shape), ("tooltip", v.node.position.text)] := by
  have hgraph : (graphStatements title).filter Dot.Statement.isNode = [] := by
    unfold graphStatements
    split <;> rfl
  have hone : ∀ v : Visit, v.statements.filter Dot.Statement.isNode = [.node v.index v.node.label
      [("shape", v.node.shape), ("tooltip", v.node.position.text)]] := by
    intro v
    unfold Visit.statements
    split <;> rfl
  rw [dotStatements, List.filter_append, hgraph, List.nil_append, List.filter_flatMap,
    List.map_eq_flatMap]
  exact congrArg (e.preorder.flatMap ·) (funext hone)

/-- There is one edge for each node but the root. -/
theorem filter_isEdge : ((e.dotStatements title).filter Dot.Statement.isEdge).map some =
    e.preorder.tail.map fun v => v.entry.edge? := by
  have hgraph : (graphStatements title).filter Dot.Statement.isEdge = [] := by
    unfold graphStatements
    split <;> rfl
  have hone : ∀ v ∈ e.preorder.tail,
      (v.statements.filter Dot.Statement.isEdge).map some = [v.entry.edge?] := by
    intro v hv
    obtain ⟨u, -, hbelow, -⟩ := exists_parent_of_mem_tail hv
    obtain ⟨c, -, hplace⟩ := Visit.mem_below.mp hbelow
    have hparent : v.parent = some (u.index, c.1) := congrArg Place.parent hplace
    rw [Visit.edge?_entry v hparent, Visit.statements, hparent]
    rfl
  rw [dotStatements, List.filter_append, hgraph, List.nil_append, List.filter_flatMap,
    List.map_flatMap, List.map_eq_flatMap]
  rw [preorder_eq] at hone ⊢
  exact List.flatMap_congr hone

end Statements

/-- The outline, the structured value and the graph of a tree describe the same tree. What the
    objects of the value say, how deep they lie and which of them holds which under what name, the
    lines of the outline and the nodes and edges of the graph say too, in the same order and
    nothing beyond it; provided that no name and no operator has a newline, which would break a
    line. -/
theorem exports_agree {e : Expr} (h : ∀ x ∈ e.nodes, ∀ s, x.value = .text s → '\n' ∉ s.toList)
    (title : String) : ∃ value, e.json? = some value ∧
      Exported e.size value.objects (Text.lines (e.outline 0)) (e.dotStatements title) := by
  have hobjects : e.toJson.objects.length = e.size := by
    rw [objects_toJson, List.length_map, length_preorder]
  have hlines : (e.outlineLines 0).map some = e.toJson.objects.map Json.Entry.line? := by
    rw [objects_toJson, outlineLines, List.map_map, List.map_map]
    exact List.map_congr_left fun v _ => v.line?_entry.symm
  have hnodes : ((e.dotStatements title).filter Dot.Statement.isNode).map some =
      e.toJson.objects.map Json.Entry.node? := by
    rw [objects_toJson, filter_isNode, List.map_map, List.map_map]
    exact List.map_congr_left fun v _ => v.node?_entry.symm
  have hedges : ((e.dotStatements title).filter Dot.Statement.isEdge).map some =
      e.toJson.objects.tail.map Json.Entry.edge? := by
    rw [objects_toJson, filter_isEdge, ← List.map_tail, List.map_map]
    rfl
  refine ⟨e.toJson, e.json?_eq, ?_⟩
  rw [lines_outline h]
  have hline := congrArg List.length hlines
  have hnode := congrArg List.length hnodes
  have hedge := congrArg List.length hedges
  simp only [List.length_map, List.length_tail, hobjects] at hline hnode hedge
  exact {
    count := ⟨hobjects, hline, hnode, by have := e.size_pos; omega⟩
    index := by rw [objects_toJson, List.map_map]; exact e.index_preorder
    root := by
      intro x hx
      rw [objects_toJson, preorder_eq, List.map_cons, List.head?_cons, Option.mem_some] at hx
      subst hx
      exact ⟨rfl, rfl⟩
    holder := by
      intro x hx
      rw [objects_toJson, ← List.map_tail] at hx
      obtain ⟨v, hv, rfl⟩ := List.mem_map.mp hx
      obtain ⟨u, hu, hbelow, hlt⟩ := exists_parent_of_mem_tail hv
      rw [objects_toJson]
      exact ⟨u.entry, List.mem_map_of_mem hu, Visit.holds_entry hbelow hlt⟩
    line := hlines
    node := hnodes
    edge := hedges }

/-- In the tree of `if a then -7 else b end`, under a title, every export speaks of the choice, its
    condition, the minus sign, the seven below it and the alternative. -/
theorem exports_agree_choice :
    let e : Expr := .conditional ⟨1, 1⟩ (.identifier ⟨1, 4⟩ (.text "a"))
      (.unary ⟨1, 11⟩ (.text "-") (.integer ⟨1, 12⟩ (.number 7))) (.identifier ⟨1, 19⟩ (.text "b"))
    (∀ x ∈ e.nodes, ∀ s, x.value = .text s → '\n' ∉ s.toList) ∧ ∃ value, e.json? = some value ∧
      Exported 5 value.objects (Text.lines (e.outline 0)) (e.dotStatements "choice") := by
  intro e
  have h : ∀ x ∈ e.nodes, ∀ s, x.value = .text s → '\n' ∉ s.toList := by
    intro x hx s hs
    simp only [e, nodes, List.mem_cons, List.mem_append, List.not_mem_nil, or_false] at hx
    rcases hx with rfl | (rfl | rfl | rfl) | rfl <;> cases hs <;> decide
  exact ⟨h, exports_agree h "choice"⟩

end Expr
end ExprLang
