import Mathlib.Data.List.DropRight
import Pseudocode.Proofs.NumeralText
import Pseudocode.Proofs.Walk

/-! The strings that a dump is given, and the values in a value. -/

namespace Pseudocode

mutual

def ObjectRef.strings : ObjectRef → List String
  | ⟨name, _, class?, outer?⟩ => name :: (referenceStrings class? ++ referenceStrings outer?)

def referenceStrings : Option ObjectRef → List String
  | none => []
  | some o => o.strings

end

def PropertyPointer.strings (p : PropertyPointer) : List String :=
  p.path?.getD [] ++ p.legacyName?.toList

/-- The strings of a node itself, without those of its operands. -/
def Node.strings {ε : Type} : Node ε → List String
  | var _ p | propertyConst p | bitField p _ | array p _ | set p _ | assign p _ _
  | persistentLet p _
  | memberOf p _ => p.strings
  | map key value _ => key.strings ++ value.strings
  | context _ _ _ result _ => (result.map PropertyPointer.strings).getD []
  | literal _ s | unicodeString s | delegateName s | virtualCall _ s _ | bindDelegate s _ _ => [s]
  | instrumentation _ eventName => eventName.toList
  | objectConst o | struct o _ _ | classCast _ o _ | finalCall _ o _ | callDelegate o _ _ =>
    o.strings
  | _ => []

def scriptStrings (script : List Expr) : List String := (scriptWalk script).flatMap (·.node.strings)

mutual

def PropertyDesc.strings : PropertyDesc → List String
  | ⟨name, _, kind⟩ => name :: kind.strings

def PropertyKind.strings : PropertyKind → List String
  | .basic _ => []
  | .object _ name | .class_ _ name | .interface name | .enumeration _ name | .struct name
  | .delegate _ name =>
    name.toList
  | .fieldPath name | .other name => [name]
  | .array inner => inner.strings
  | .set element => element.strings
  | .map key value => key.strings ++ value.strings

end

mutual

def PropertyValue.strings : PropertyValue → List String
  | .text _ s => [s]
  | .object path => path.toList
  | .struct value => value.strings
  | .array items => valuesStrings items
  | .map entries => entriesStrings entries
  | _ => []

def valuesStrings : List PropertyValue → List String
  | [] => []
  | v :: rest => v.strings ++ valuesStrings rest

def entriesStrings : List (PropertyValue × PropertyValue) → List String
  | [] => []
  | (key, value) :: rest => key.strings ++ value.strings ++ entriesStrings rest

def StructValue.strings : StructValue → List String
  | .softObjectPath s => [s]
  | .uniqueNetId s | .raw s => s.toList
  | .bag properties => tagsStrings properties
  | .tagContainer tags => tags
  | _ => []

def tagsStrings : List PropertyTag → List String
  | [] => []
  | ⟨name, none⟩ :: rest => name :: tagsStrings rest
  | ⟨name, some value⟩ :: rest => name :: value.strings ++ tagsStrings rest

end

namespace ScriptFunction

def strings (f : ScriptFunction) : List String :=
  f.name :: (f.returnProperty.toList ++ f.parameters).flatMap PropertyDesc.strings ++
    scriptStrings f.script

end ScriptFunction

namespace ClassProperty

def strings (p : ClassProperty) : List String :=
  p.property.strings ++ p.defaultValue.toList.flatMap PropertyValue.strings

end ClassProperty

namespace ScriptClass

def strings (c : ScriptClass) : List String :=
  c.name :: c.superClass.toList.flatMap ObjectRef.strings ++
    c.properties.flatMap ClassProperty.strings ++ c.functions.flatMap ScriptFunction.strings

end ScriptClass

namespace ScriptDump

def functions : ScriptDump → List ScriptFunction
  | class_ c => c.functions
  | function f => [f]

def strings : ScriptDump → List String
  | class_ c => c.strings
  | function f => f.strings

end ScriptDump

theorem valuesStrings_eq (items : List PropertyValue) :
    valuesStrings items = items.flatMap PropertyValue.strings := by
  induction items with
  | nil => rfl
  | cons v items ih => rw [valuesStrings, ih, List.flatMap_cons]

theorem entriesStrings_eq (entries : List (PropertyValue × PropertyValue)) :
    entriesStrings entries = entries.flatMap fun e => e.1.strings ++ e.2.strings := by
  induction entries with
  | nil => rfl
  | cons e entries ih => rw [entriesStrings, ih, List.flatMap_cons]

theorem tagsStrings_eq (tags : List PropertyTag) :
    tagsStrings tags = tags.flatMap fun t =>
      t.name :: t.value.toList.flatMap PropertyValue.strings := by
  induction tags with
  | nil => rfl
  | cons t tags ih =>
    obtain ⟨name, value⟩ := t
    cases value <;> simp [tagsStrings, ih]

/-- The values directly in a value. Those of a bag count as the values of the struct. -/
def PropertyValue.parts : PropertyValue → List PropertyValue
  | .array items => items
  | .map entries => entries.flatMap fun e => [e.1, e.2]
  | .struct (.bag tags) => tags.filterMap (·.value)
  | _ => []

theorem PropertyValue.strings_part {v w : PropertyValue} (h : w ∈ v.parts) :
    w.strings ⊆ v.strings := by
  intro s hs
  unfold parts at h
  split at h
  · simpa [strings, valuesStrings_eq] using ⟨w, h, hs⟩
  · obtain ⟨e, he, hw⟩ := List.mem_flatMap.mp h
    simp only [strings, entriesStrings_eq, List.mem_flatMap, List.mem_append]
    rcases List.mem_pair.mp hw with rfl | rfl
    · exact ⟨e, he, .inl hs⟩
    · exact ⟨e, he, .inr hs⟩
  · obtain ⟨t, ht, hw⟩ := List.mem_filterMap.mp h
    simp only [strings, StructValue.strings, tagsStrings_eq, List.mem_flatMap, List.mem_cons]
    exact ⟨t, ht, .inr ⟨w, by simp [hw], hs⟩⟩
  · cases h

theorem PropertyValue.sizeOf_part {v w : PropertyValue} (h : w ∈ v.parts) :
    sizeOf w < sizeOf v := by
  unfold parts at h
  split at h
  · have hlt := List.sizeOf_lt_of_mem h
    simp
    omega
  · obtain ⟨⟨key, value⟩, he, hw⟩ := List.mem_flatMap.mp h
    have hlt := List.sizeOf_lt_of_mem he
    rcases List.mem_pair.mp hw with rfl | rfl <;> simp at hlt ⊢ <;> omega
  · obtain ⟨⟨name, value⟩, ht, hw⟩ := List.mem_filterMap.mp h
    have hlt := List.sizeOf_lt_of_mem ht
    obtain rfl : value = some w := hw
    simp at hlt ⊢
    omega
  · cases h

theorem PropertyValue.induction {P : PropertyValue → Prop} (h : ∀ v, (∀ w ∈ v.parts, P w) → P v)
    (v : PropertyValue) : P v :=
  h v fun w _ => PropertyValue.induction h w
termination_by v
decreasing_by exact PropertyValue.sizeOf_part ‹_›

end Pseudocode
