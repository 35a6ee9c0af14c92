import Pseudocode.Proofs.JsonDraft
import Pseudocode.Proofs.Walk
import Pseudocode.Proofs.Written

/-! What is stored of an expression and what the walk through its operands comes
by. Both are the same nodes: each object with a tag is one node of the walk, and
no node of the walk lacks its object. -/

namespace Pseudocode

/-- What tells a stored expression from other objects: the tag of its instruction,
with its offset. -/
def stamp? (members : List (String × Json)) : Option (Json × Option Json) :=
  (members.lookup "inst").map fun tag => (tag, members.lookup "statement_index")

namespace Json

def stamps (v : Json) : List (Json × Option Json) := v.objects.filterMap stamp?

@[simp] theorem stamps_null : null.stamps = [] := rfl

@[simp] theorem stamps_bool (b : Bool) : (bool b).stamps = [] := rfl

@[simp] theorem stamps_int (i : Int) : (int i).stamps = [] := rfl

@[simp] theorem stamps_narrow (x : Binary32) : (narrow x).stamps = [] := rfl

@[simp] theorem stamps_wide (x : Binary64) : (wide x).stamps = [] := rfl

@[simp] theorem stamps_string (s : String) : (string s).stamps = [] := rfl

@[simp] theorem stamps_list (items : List Json) : (list items).stamps = items.flatMap stamps := by
  rw [stamps, objects, itemsObjects_eq, List.filterMap_flatMap]
  rfl

theorem stamps_object (members : List (String × Json)) :
    (object members).stamps = (stamp? members).toList ++ members.flatMap fun m => m.2.stamps := by
  rw [stamps, objects, membersObjects_eq, List.filterMap_cons, List.filterMap_flatMap]
  cases stamp? members <;> rfl

@[simp] theorem stamps_textOrNull (x : Option String) : (textOrNull x).stamps = [] := by
  cases x <;> rfl

end Json

@[simp] theorem ObjectRef.stamps_json : ∀ o : ObjectRef, o.json.stamps = []
  | ⟨_, _, none, none⟩ => by simp [json, Json.stamps_object, stamp?, List.lookup_cons]
  | ⟨_, _, some c, none⟩ => by
    simp [json, Json.stamps_object, stamp?, List.lookup_cons, c.stamps_json]
  | ⟨_, _, none, some o⟩ => by
    simp [json, Json.stamps_object, stamp?, List.lookup_cons, o.stamps_json]
  | ⟨_, _, some c, some o⟩ => by
    simp [json, Json.stamps_object, stamp?, List.lookup_cons, c.stamps_json, o.stamps_json]

@[simp] theorem PropertyPointer.stamps_json (p : PropertyPointer) : p.json.stamps = [] := by
  obtain ⟨path?, legacyName?, isInstanceMember⟩ := p
  cases path? <;> cases legacyName? <;>
    simp [json, Json.memberIfKnown, Json.stamps_object, stamp?, List.lookup_cons]

@[simp] theorem Vector.stamps_members (v : Vector) : (Json.object v.members).stamps = [] := by
  simp [members, Json.stamps_object, stamp?, List.lookup_cons]

@[simp] theorem Rotator.stamps_members (r : Rotator) : (Json.object r.members).stamps = [] := by
  simp [members, Json.stamps_object, stamp?, List.lookup_cons]

@[simp] theorem Transform.stamps_members (t : Transform) : (Json.object t.members).stamps = [] := by
  simp [members, Quat.members, Vector.members, Json.stamps_object, stamp?, List.lookup_cons]

@[simp] theorem stamps_exprsJson (es : List Expr) :
    (exprsJson es).flatMap Json.stamps = es.flatMap fun e => e.json.stamps := by
  rw [exprsJson_eq, List.flatMap_map]

theorem SwitchCase.stamps_json (c : SwitchCase Expr) :
    c.json.stamps = c.key.json.stamps ++ c.term.json.stamps := by
  simp [json, Json.stamps_object, stamp?, List.lookup_cons]

@[simp] theorem stamps_casesJson (cases : List (SwitchCase Expr)) :
    (casesJson cases).flatMap Json.stamps =
      (cases.flatMap fun c => [c.key, c.term]).flatMap fun e => e.json.stamps := by
  rw [casesJson_eq, List.flatMap_map, List.flatMap_assoc]
  exact List.flatMap_congr fun c _ => by simp [c.stamps_json]

/-- The stamps in the members of a node are those of its operands. Only a switch
stores its default in another place. -/
theorem Node.stamps_members (node : Node Expr) :
    (node.members.flatMap fun m => m.2.stamps).Perm (node.children.flatMap fun e =>
      e.json.stamps) := by
  cases node with
  | text source => cases source <;> simp [members, children]
  | fill kind target elements => cases kind <;> simp [members, children]
  | wrapper kind operand => cases kind <;> simp [members, children]
  | context kind object offset result member =>
    cases result <;> simp [members, children, Json.orNull]
  | switch endOffset index default_ cases =>
    have hmembers : ((switch endOffset index default_ cases).members.flatMap fun m => m.2.stamps) =
        index.json.stamps ++ (default_.json.stamps ++
          (cases.flatMap fun c => [c.key, c.term]).flatMap fun e => e.json.stamps) := by
      simp [members]
    have hchildren :
        ((switch endOffset index default_ cases).children.flatMap fun e => e.json.stamps) =
        index.json.stamps ++ (((cases.flatMap fun c => [c.key, c.term]).flatMap fun e =>
        e.json.stamps) ++ default_.json.stamps) := by
      simp [children]
    rw [hmembers, hchildren]
    exact List.perm_append_comm.append_left _
  | _ => simp [members, children]

theorem Expr.stamps_json (e : Expr) :
    e.json.stamps.Perm ((.string e.opcode.tag, some (.int e.index.toNat)) ::
      e.children.flatMap fun c => c.json.stamps) := by
  have hstamps : e.json.stamps = (.string e.opcode.tag, some (.int e.index.toNat)) ::
      e.node.members.flatMap fun m => m.2.stamps := by
    obtain ⟨index, node⟩ := e
    simp [json, opcode, Json.stamps_object, stamp?, List.lookup_cons]
  rw [hstamps]
  exact e.node.stamps_members.cons _

def Opcode.bareName (op : Opcode) : String := String.ofList (op.name.toList.drop 3)

theorem Opcode.bareName_eq (op : Opcode) : op.bareName = op.tag := by
  cases op <;> rfl

/-- The walk through an expression comes by each stored expression once, and by
nothing else. -/
theorem Expr.stamps_walk (e : Expr) :
    e.json.stamps.Perm (e.walk.map fun x =>
      (.string x.opcode.bareName, some (.int x.index.toNat))) := by
  induction e using Expr.induction with
  | h e ih =>
    rw [e.walk_eq, List.map_cons, List.map_flatMap, Opcode.bareName_eq]
    exact e.stamps_json.trans ((List.Perm.flatMap_left _ ih).cons _)

end Pseudocode
