import Pseudocode.Render.TypeName

/-! Flags of properties change the name of a type only by the stars behind the
elements of containers. More flags, at whatever depth they are set, only add
stars. -/

namespace Pseudocode

/-- Whether a text is what is left of another when some of its stars, or none, are
deleted. -/
inductive StarsDeleted : List Char → List Char → Prop
  | nil : StarsDeleted [] []
  | keep (c : Char) {cs ds : List Char} (h : StarsDeleted cs ds) : StarsDeleted (c :: cs) (c :: ds)
  | delete {cs ds : List Char} (h : StarsDeleted cs ds) : StarsDeleted cs ('*' :: ds)

namespace StarsDeleted

variable {cs ds cs' ds' : List Char}

theorem refl (cs : List Char) : StarsDeleted cs cs := by
  induction cs with
  | nil => exact .nil
  | cons c cs ih => exact .keep c ih

theorem append (h : StarsDeleted cs ds) (h' : StarsDeleted cs' ds') :
    StarsDeleted (cs ++ cs') (ds ++ ds') := by
  induction h with
  | nil => exact h'
  | keep c _ ih => exact .keep c ih
  | delete _ ih => exact .delete ih

theorem enclose (h : StarsDeleted cs ds) (front back : List Char) :
    StarsDeleted (front ++ cs ++ back) (front ++ ds ++ back) :=
  ((refl front).append h).append (refl back)

end StarsDeleted

def PropertyKind.isContainer : PropertyKind → Bool
  | array _ | set _ | map .. => true
  | _ => false

mutual

/-- Whether two properties differ in nothing but flags, at any depth, and the
second has all flags of the first. -/
inductive PropertyDesc.FlagsAdded : PropertyDesc → PropertyDesc → Prop
  | mk (name : String) {flags flags' : PropertyFlags} {kind kind' : PropertyKind}
    (hflags : flags'.contains flags = true) (hkind : kind.FlagsAdded kind') :
    PropertyDesc.FlagsAdded ⟨name, flags, kind⟩ ⟨name, flags', kind'⟩

inductive PropertyKind.FlagsAdded : PropertyKind → PropertyKind → Prop
  | leaf {kind : PropertyKind} (h : kind.isContainer = false) : PropertyKind.FlagsAdded kind kind
  | array {inner inner' : PropertyDesc} (h : inner.FlagsAdded inner') :
    PropertyKind.FlagsAdded (.array inner) (.array inner')
  | set {element element' : PropertyDesc} (h : element.FlagsAdded element') :
    PropertyKind.FlagsAdded (.set element) (.set element')
  | map {key key' value value' : PropertyDesc}
      (hkey : key.FlagsAdded key') (hvalue : value.FlagsAdded value') :
      PropertyKind.FlagsAdded (.map key value) (.map key' value')

end

theorem PropertyFlags.intersects_of_contains {a b : PropertyFlags} (hcontains : b.contains a = true)
    (wanted : PropertyFlags) (h : a.intersects wanted = true) : b.intersects wanted = true := by
  simp only [contains, intersects, decide_eq_true_eq] at *
  intro hnone
  rw [← hcontains, UInt64.and_comm b.bits, UInt64.and_assoc, hnone, UInt64.and_zero] at h
  exact h rfl

namespace PropertyKind

theorem FlagsAdded.isObjectValued_eq {kind kind' : PropertyKind} (h : kind.FlagsAdded kind') :
    kind'.isObjectValued = kind.isObjectValued := by
  cases h <;> rfl

/-- Only containers have elements, and only elements have stars. -/
theorem typeName_leaf {kind : PropertyKind} (h : kind.isContainer = false)
    (flags flags' : PropertyFlags) : kind.typeName flags = kind.typeName flags' := by
  cases kind with
  | array inner | set element | map key value => cases h
  | class_ link name | enumeration link name => cases link <;> rfl
  | _ => rfl

end PropertyKind

theorem ownershipMark_starsDeleted {flags flags' : PropertyFlags}
    (hflags : flags'.contains flags = true) {element element' : PropertyDesc}
    (h : element.FlagsAdded element') :
    StarsDeleted (ownershipMark flags element).toList (ownershipMark flags' element').toList := by
  cases h with
  | @mk name own own' kind kind' hown hkind =>
    have howned : flags.intersects .owning || own.intersects .owning || kind.isObjectValued →
        flags'.intersects .owning || own'.intersects .owning || kind'.isObjectValued := by
      have hcontainer := PropertyFlags.intersects_of_contains hflags .owning
      have helement := PropertyFlags.intersects_of_contains hown .owning
      simp only [hkind.isObjectValued_eq, Bool.or_eq_true]
      exact Or.imp_left (Or.imp hcontainer helement)
    unfold ownershipMark
    split
    · next h =>
      rw [if_pos (howned h)]
      exact .refl _
    · split
      · exact .delete .nil
      · exact .nil

mutual

theorem PropertyDesc.FlagsAdded.displayName {p p' : PropertyDesc} :
    p.FlagsAdded p' → StarsDeleted p.displayName.toList p'.displayName.toList
  | @PropertyDesc.FlagsAdded.mk name flags flags' kind kind' hflags hkind => by
    have htypeName := hkind.typeName hflags
    cases hkind with
    | leaf h =>
      rw [PropertyDesc.displayName, PropertyDesc.displayName,
        PropertyKind.typeName_leaf h flags flags']
      exact .refl _
    | array | set | map =>
      simpa [PropertyDesc.displayName, PropertyKind.structuralKind, StructuralKind.letter]
        using htypeName

theorem PropertyKind.FlagsAdded.typeName {flags flags' : PropertyFlags}
    (hflags : flags'.contains flags = true) {kind kind' : PropertyKind} :
    kind.FlagsAdded kind' → StarsDeleted (kind.typeName flags).toList (kind'.typeName flags').toList
  | .leaf h => by
    rw [PropertyKind.typeName_leaf h flags flags']
    exact .refl _
  | .array h => by
    have helement := h.displayName.append (ownershipMark_starsDeleted hflags h)
    simpa [PropertyKind.typeName] using helement.enclose "TArray<".toList ">".toList
  | .set h => by
    have helement := h.displayName.append (ownershipMark_starsDeleted hflags h)
    simpa [PropertyKind.typeName] using helement.enclose "TSet<".toList ">".toList
  | .map hkey hvalue => by
    have helement := hvalue.displayName.append (ownershipMark_starsDeleted hflags hvalue)
    have hparts := (hkey.displayName.append (.refl ", ".toList)).append helement
    simpa [PropertyKind.typeName] using hparts.enclose "TMap<".toList ">".toList

end

/-- With more flags a type has the same name but for stars that are added, with
its letter and without it. -/
theorem PropertyDesc.names_starsDeleted {p p' : PropertyDesc} (h : p.FlagsAdded p') :
    StarsDeleted p.typeName.toList p'.typeName.toList ∧
      StarsDeleted p.displayName.toList p'.displayName.toList := by
  refine ⟨?_, h.displayName⟩
  obtain ⟨name, hflags, hkind⟩ := h
  exact hkind.typeName hflags

theorem PropertyDesc.names_starsDeleted_nestedSets :
    let names (flags inner : PropertyFlags) : PropertyDesc :=
      ⟨"Names", .none, .array ⟨"Set", flags, .set ⟨"Name", inner, .basic .name⟩⟩⟩
    let p := names .parm .none
    let p' := names (.union .parm .referenceParm) .instancedReference
    p.typeName = "TArray<TSet<FName>>" ∧ p'.typeName = "TArray<TSet<FName*>*>" ∧
      StarsDeleted p.typeName.toList p'.typeName.toList := by
  intro names p p'
  have hname : PropertyKind.FlagsAdded (.basic .name) (.basic .name) := .leaf rfl
  have hset : PropertyDesc.FlagsAdded ⟨"Set", .parm, .set ⟨"Name", .none, .basic .name⟩⟩
      ⟨"Set", .union .parm .referenceParm, .set ⟨"Name", .instancedReference, .basic .name⟩⟩ :=
    .mk "Set" (by decide) (.set (.mk "Name" (by decide) hname))
  have h : p.FlagsAdded p' := .mk "Names" (by decide) (.array hset)
  exact ⟨by decide, by decide, (PropertyDesc.names_starsDeleted h).1⟩

end Pseudocode
