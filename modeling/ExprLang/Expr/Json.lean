import ExprLang.Expr.Walk
import ExprLang.Json

/-! Trees as structured values.

    A node is an object: its kind, its line, its column, then its number, name or operator if it
    has one, then its children under the names of their roles. A walk from the top makes the objects.
    Each has the fields that its node has without its children, and is put into the object of its
    parent, which is filled by and by. Meanwhile objects go by their numbers. -/

namespace ExprLang

namespace Json

/-- What a field of an object that is being filled holds: a value, or the object with a number. -/
inductive Slot where
  | value (v : Json)
  | object (index : Nat)
  deriving Repr

/-- The fields of an object that is being filled. -/
abbrev Draft := List (String × Slot)

/-- Fills a field: a new one comes behind the others, and one that there is changes what it holds. -/
def Draft.put (key : String) (slot : Slot) : Draft → Draft
  | [] => [(key, slot)]
  | f :: rest => if f.1 = key then (key, slot) :: rest else f :: put key slot rest

/-- The value that a field holds. There are `count` objects, and the last of them are `done`, the
    very last one first. -/
def Slot.value? (count : Nat) (done : Array Json) : Slot → Option Json
  | value v => some v
  | object index => done[count - 1 - index]?

/-- Puts objects that hold only later ones into one another, from the last one on. -/
def finish (count : Nat) : List Draft → Array Json → Option (Array Json)
  | [], done => some done
  | draft :: earlier, done =>
    match draft.mapM fun f => (f.2.value? count done).map fun v => (f.1, v) with
    | none => none
    | some fields => finish count earlier (done.push (.object fields))

end Json

namespace Expr

/-- The field of a node that is neither its place nor a child. -/
def payload : Expr → List (String × Json)
  | integer _ v => [("value", .ofValue v)]
  | identifier _ n => [("name", .ofValue n)]
  | conditional .. => []
  | unary _ op _ | binary _ op _ _ => [("operator", .ofValue op)]

/-- The fields of a node in front of its children. -/
def ownFields (e : Expr) : List (String × Json) :=
  [("node_type", .text e.kind.name), ("line", .integer e.position.line),
   ("column", .integer e.position.column)] ++ e.payload

/-- The object of a node, given those of its children. -/
def jsonNode (e : Expr) (children : List Json) : Json :=
  .object (e.ownFields ++ (e.children.map fun c => c.1.field).zip children)

/-- The object of a tree, by recursion on it. -/
def toJson : Expr → Json
  | integer p v => jsonNode (.integer p v) []
  | identifier p n => jsonNode (.identifier p n) []
  | conditional p c t e => jsonNode (.conditional p c t e) [c.toJson, t.toJson, e.toJson]
  | unary p op e => jsonNode (.unary p op e) [e.toJson]
  | binary p op l r => jsonNode (.binary p op l r) [l.toJson, r.toJson]

/-- The object of a node as it is when its turn begins. -/
def draft (e : Expr) : Json.Draft := e.ownFields.map fun f => (f.1, .value f.2)

/-- The field that the object of a node goes into; that of the root goes into none. -/
def Place.key (p : Place) : String :=
  match p.parent with
  | none => ""
  | some (_, role) => role.field

/-- Makes the object of a node whose turn it is, and puts it into the object of the parent. -/
def Visit.enter (objects : Array Json.Draft) (v : Visit) : Array Json.Draft :=
  let attached :=
    match v.parent with
    | none => objects
    | some (parent, _) => objects.modify parent (Json.Draft.put v.key (.object v.index))
  attached.push v.node.draft

/-- The object of a tree, filled on a walk without recursion on it. -/
def json? (e : Expr) : Option Json :=
  let objects := e.preorder.foldl Visit.enter #[]
  (Json.finish objects.size objects.toList.reverse #[]).bind Array.back?

end Expr
end ExprLang
