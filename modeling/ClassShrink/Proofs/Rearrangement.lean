import ClassShrink.Proofs.Correspondence
import ClassShrink.Proofs.Overriding
import ClassShrink.Proofs.Pass
import Mathlib.Data.List.Perm.Basic

/-! # Programs up to declaration order

Two programs that differ only in the order of their classes, of the members of a
class and of the references of a member have symbols with the same names, and
these need the same symbols. Only the static initializers of a class keep their
order, of which the first is the one that counts. -/

namespace ClassShrink

open ProgramGraph (ofProgram)

/-! ## Lists up to order -/

/-- Lists with corresponding elements, up to their order. -/
def UpToOrder {α β : Type} (relation : α → β → Prop) (left : List α) (right : List β) : Prop :=
  ∃ between, List.Forall₂ relation left between ∧ between.Perm right

namespace UpToOrder

variable {α β γ δ : Type} {relation : α → β → Prop} {left : List α} {right : List β}

theorem exists_right (upToOrder : UpToOrder relation left right) {element : α}
    (member : element ∈ left) : ∃ other ∈ right, relation element other := by
  rcases upToOrder with ⟨between, related, permuted⟩
  rcases List.mem_iff_getElem?.mp member with ⟨place, placed⟩
  rcases List.getElem?_eq_some_iff.mp placed with ⟨within, rfl⟩
  have otherWithin : place < between.length := related.length_eq ▸ within
  exact ⟨between[place], permuted.mem_iff.mp (List.getElem_mem otherWithin),
    related.get within otherWithin⟩

theorem symm {relation : α → α → Prop} {left right : List α}
    (symmetric : ∀ element other, relation element other → relation other element)
    (upToOrder : UpToOrder relation left right) : UpToOrder relation right left := by
  rcases upToOrder with ⟨between, related, permuted⟩
  have backward : List.Forall₂ relation between left :=
    (related.imp fun element other => symmetric element other).flip
  exact List.perm_comp_forall₂ permuted.symm backward

theorem map {image : γ → δ → Prop} {first : α → γ} {second : β → δ}
    (maps : ∀ element other, relation element other → image (first element) (second other))
    (upToOrder : UpToOrder relation left right) :
    UpToOrder image (left.map first) (right.map second) := by
  rcases upToOrder with ⟨between, related, permuted⟩
  refine ⟨between.map second, ?_, permuted.map second⟩
  rw [List.forall₂_map_left_iff, List.forall₂_map_right_iff]
  exact related.imp maps

theorem filter {keeps : α → Bool} {accepts : β → Bool}
    (agree : ∀ element other, relation element other → (keeps element ↔ accepts other))
    (upToOrder : UpToOrder relation left right) :
    UpToOrder relation (left.filter keeps) (right.filter accepts) := by
  rcases upToOrder with ⟨between, related, permuted⟩
  exact ⟨between.filter accepts, List.rel_filter (fun element other => agree element other) related,
    permuted.filter accepts⟩

theorem append {more : List α} {others : List β} (upToOrder : UpToOrder relation left right)
    (rest : UpToOrder relation more others) :
    UpToOrder relation (left ++ more) (right ++ others) := by
  rcases upToOrder with ⟨between, related, permuted⟩
  rcases rest with ⟨restBetween, restRelated, restPermuted⟩
  exact ⟨between ++ restBetween, List.rel_append related restRelated,
    permuted.append restPermuted⟩

theorem flatMap {image : γ → δ → Prop} {first : α → List γ} {second : β → List δ}
    (maps : ∀ element other, relation element other →
      UpToOrder image (first element) (second other))
    (upToOrder : UpToOrder relation left right) :
    UpToOrder image (left.flatMap first) (right.flatMap second) := by
  rcases upToOrder with ⟨between, related, permuted⟩
  have together : UpToOrder image (left.flatMap first) (between.flatMap second) := by
    clear permuted
    induction related with
    | nil => exact ⟨[], .nil, .nil⟩
    | cons here _ induction => exact (maps _ _ here).append induction
  rcases together with ⟨images, imagesRelated, imagesPermuted⟩
  exact ⟨images, imagesRelated, imagesPermuted.trans (permuted.flatMap_right second)⟩

theorem of_perm {left right : List α} (permuted : left.Perm right) :
    UpToOrder (· = ·) left right :=
  ⟨left, List.forall₂_eq_eq_eq ▸ rfl, permuted⟩

theorem perm {left right : List α} (upToOrder : UpToOrder (· = ·) left right) :
    left.Perm right := by
  rcases upToOrder with ⟨between, related, permuted⟩
  rw [List.forall₂_eq_eq_eq] at related
  exact related ▸ permuted

theorem length_eq (upToOrder : UpToOrder relation left right) : left.length = right.length := by
  rcases upToOrder with ⟨between, related, permuted⟩
  exact related.length_eq.trans permuted.length_eq

theorem countP_eq {keeps : α → Bool} {accepts : β → Bool}
    (agree : ∀ element other, relation element other → (keeps element ↔ accepts other))
    (upToOrder : UpToOrder relation left right) : left.countP keeps = right.countP accepts := by
  rw [List.countP_eq_length_filter, List.countP_eq_length_filter]
  exact (upToOrder.filter agree).length_eq

end UpToOrder

/-! ## Programs up to order -/

def Member.Rearranged (member other : Member) : Prop :=
  { other with references := member.references } = member ∧
    member.references.Perm other.references

/-- A class with its members in another order, which is the same among its static
initializers, and with members that are rearranged themselves. -/
structure ClassDecl.Rearranged (declaration other : ClassDecl) : Prop where
  rest : { other with members := declaration.members } = declaration
  members : UpToOrder Member.Rearranged declaration.members other.members
  initializers : List.Forall₂ Member.Rearranged
    (declaration.members.filter Member.isStaticInitializer)
    (other.members.filter Member.isStaticInitializer)

def Program.Rearranged (program other : Program) : Prop :=
  UpToOrder ClassDecl.Rearranged program.classes other.classes

theorem Member.Rearranged.refl (member : Member) : member.Rearranged member :=
  ⟨rfl, .refl _⟩

theorem ClassDecl.Rearranged.refl (declaration : ClassDecl) :
    declaration.Rearranged declaration where
  rest := rfl
  members := ⟨_, List.forall₂_same.mpr fun member _ => .refl member, .refl _⟩
  initializers := List.forall₂_same.mpr fun member _ => .refl member

namespace Member.Rearranged

variable {member other : Member} (rearranged : member.Rearranged other)

include rearranged

theorem symm : other.Rearranged member := by
  rcases rearranged with ⟨rest, references⟩
  refine ⟨?_, references.symm⟩
  rw [← rest]

theorem kind_eq : other.kind = member.kind :=
  (congrArg Member.kind rearranged.1 :)

theorem annotations_eq : other.annotations = member.annotations :=
  (congrArg Member.annotations rearranged.1 :)

theorem signature_eq : other.signature = member.signature :=
  (congrArg Member.signature rearranged.1 :)

theorem qualifiedName_eq (owner : String) :
    other.qualifiedName owner = member.qualifiedName owner :=
  (congrArg (Member.qualifiedName · owner) rearranged.1 :)

theorem isVirtual_eq : other.isVirtual = member.isVirtual :=
  (congrArg Member.isVirtual rearranged.1 :)

end Member.Rearranged

namespace ClassDecl.Rearranged

variable {declaration other : ClassDecl} (rearranged : declaration.Rearranged other)

include rearranged

theorem name_eq : other.name = declaration.name :=
  (congrArg ClassDecl.name rearranged.rest :)

theorem superclass_eq : other.superclass = declaration.superclass :=
  (congrArg ClassDecl.superclass rearranged.rest :)

theorem interfaces_eq : other.interfaces = declaration.interfaces :=
  (congrArg ClassDecl.interfaces rearranged.rest :)

theorem annotations_eq : other.annotations = declaration.annotations :=
  (congrArg ClassDecl.annotations rearranged.rest :)

theorem symm : other.Rearranged declaration where
  rest := by
    rw [← rearranged.rest]
  members := rearranged.members.symm fun _ _ member => member.symm
  initializers := (rearranged.initializers.imp fun _ _ member => member.symm).flip

theorem symbolNames : declaration.symbolNames.Perm other.symbolNames := by
  have names : (declaration.members.map (·.qualifiedName declaration.name)).Perm
      (other.members.map (·.qualifiedName declaration.name)) :=
    (rearranged.members.map fun _ _ member => (member.qualifiedName_eq _).symm).perm
  rw [ClassDecl.symbolNames, ClassDecl.symbolNames, rearranged.name_eq]
  exact names.cons _

theorem initializer {member : Member} (first : declaration.initializer? = some member) :
    ∃ partner, other.initializer? = some partner ∧ member.Rearranged partner := by
  have related := rearranged.initializers
  rw [ClassDecl.initializer?, ← List.head?_filter] at first
  rw [ClassDecl.initializer?, ← List.head?_filter]
  generalize declaration.members.filter Member.isStaticInitializer = initializers at first related
  generalize other.members.filter Member.isStaticInitializer = partners at related ⊢
  cases related with
  | nil => cases first
  | cons here _ =>
      cases first
      exact ⟨_, rfl, here⟩

end ClassDecl.Rearranged

/-- Two programs with distinct names that differ in the order of declarations. -/
structure Rearrangement (program other : Program) : Prop where
  distinct : program.symbolNames.Nodup
  classes : program.Rearranged other

theorem Program.Rearranged.symm {program other : Program} (rearranged : program.Rearranged other) :
    other.Rearranged program :=
  UpToOrder.symm (fun _ _ declaration => declaration.symm) rearranged

theorem Program.Rearranged.symbolNames {program other : Program}
    (rearranged : program.Rearranged other) :
    program.symbolNames.Perm other.symbolNames := by
  have names : UpToOrder (· = ·) program.symbolNames other.symbolNames :=
    UpToOrder.flatMap (fun _ _ declaration => .of_perm declaration.symbolNames) rearranged
  exact names.perm

def Program.SamePlace (program other : Program) (place otherPlace : MemberPosition) : Prop :=
  program.SameClass other place.owner otherPlace.owner ∧
    ∃ name, program.symbolNames[program.memberNode place]? = some name ∧
      other.symbolNames[other.memberNode otherPlace]? = some name

namespace Rearrangement

variable {program other : Program} (rearrangement : Rearrangement program other)
  {position otherPosition : Nat} {declaration : ClassDecl} {member : Member}
  {signature : Signature}

include rearrangement

theorem distinctOther : other.symbolNames.Nodup :=
  rearrangement.classes.symbolNames.nodup_iff.mp rearrangement.distinct

theorem symm : Rearrangement other program :=
  ⟨rearrangement.distinctOther, rearrangement.classes.symm⟩

theorem mem_symbolNames_iff (name : String) :
    name ∈ program.symbolNames ↔ name ∈ other.symbolNames :=
  rearrangement.classes.symbolNames.mem_iff

/-! ## Corresponding classes -/

theorem class_partner (isClass : declaration ∈ program.classes) :
    ∃ partner ∈ other.classes, declaration.Rearranged partner :=
  UpToOrder.exists_right rearrangement.classes isClass

theorem member_partner (isClass : declaration ∈ program.classes)
    (isMember : member ∈ declaration.members) :
    ∃ partner ∈ other.classes, ∃ partnerMember ∈ partner.members,
      declaration.Rearranged partner ∧ member.Rearranged partnerMember ∧
        partnerMember.qualifiedName partner.name = member.qualifiedName declaration.name := by
  rcases rearrangement.class_partner isClass with ⟨partner, isPartner, rearranged⟩
  rcases rearranged.members.exists_right isMember with
    ⟨partnerMember, isPartnerMember, memberRearranged⟩
  refine ⟨partner, isPartner, partnerMember, isPartnerMember, rearranged, memberRearranged, ?_⟩
  rw [rearranged.name_eq, memberRearranged.qualifiedName_eq]

theorem rearranged_of_sameClass (same : program.SameClass other position otherPosition) :
    ∃ declaration partner, program.classes[position]? = some declaration ∧
      other.classes[otherPosition]? = some partner ∧ declaration.Rearranged partner := by
  rcases same with ⟨declaration, partner, declared, otherDeclared, sameName⟩
  rcases rearrangement.class_partner (List.mem_of_getElem? declared) with
    ⟨found, isClass, rearranged⟩
  rcases List.mem_iff_getElem?.mp isClass with ⟨place, foundDeclared⟩
  obtain rfl : place = otherPosition := Program.class_unique rearrangement.distinctOther
    foundDeclared otherDeclared (rearranged.name_eq.trans sameName.symm)
  obtain rfl : found = partner := Option.some.inj (foundDeclared.symm.trans otherDeclared)
  exact ⟨declaration, found, declared, otherDeclared, rearranged⟩

theorem exists_namesake (declared : program.classes[position]? = some declaration) :
    ∃ otherPosition partner, other.classes[otherPosition]? = some partner ∧
      partner.name = declaration.name ∧ program.SameClass other position otherPosition := by
  rcases rearrangement.class_partner (List.mem_of_getElem? declared) with
    ⟨partner, isClass, rearranged⟩
  rcases List.mem_iff_getElem?.mp isClass with ⟨otherPosition, otherDeclared⟩
  exact ⟨otherPosition, partner, otherDeclared, rearranged.name_eq,
    declaration, partner, declared, otherDeclared, rearranged.name_eq⟩

theorem position?_related (name : String) :
    Option.Rel (program.SameClass other) (program.position? name) (other.position? name) := by
  apply optionRel_of_forward
  · intro position found
    rcases (Program.position?_eq_some_iff rearrangement.distinct name).mp found with
      ⟨declaration, declared, rfl⟩
    rcases rearrangement.exists_namesake declared with
      ⟨otherPosition, partner, otherDeclared, sameName, same⟩
    exact ⟨otherPosition, (Program.position?_eq_some_iff rearrangement.distinctOther _).mpr
      ⟨partner, otherDeclared, sameName⟩, same⟩
  · intro absent
    rw [Program.position?_eq_none_iff] at absent ⊢
    intro partner isClass
    rcases rearrangement.symm.class_partner isClass with ⟨declaration, isClass, rearranged⟩
    rw [← rearranged.name_eq]
    exact absent declaration isClass

theorem sameHierarchy : SameHierarchy program other where
  unique := Program.sameClass_biUnique rearrangement.distinct rearrangement.distinctOther
  superclassName same := by
    rcases rearrangement.rearranged_of_sameClass same with
      ⟨declaration, partner, declared, otherDeclared, rearranged⟩
    rw [Program.superclassName?_eq declared, Program.superclassName?_eq otherDeclared,
      rearranged.superclass_eq]
    exact List.forall₂_same.mpr fun name _ => ⟨rfl, rearrangement.position?_related name⟩
  interfaceNames same := by
    rcases rearrangement.rearranged_of_sameClass same with
      ⟨declaration, partner, declared, otherDeclared, rearranged⟩
    rw [Program.interfaceNames_eq declared, Program.interfaceNames_eq otherDeclared,
      rearranged.interfaces_eq]
    exact List.forall₂_same.mpr fun name _ => ⟨rfl, rearrangement.position?_related name⟩

/-! ## Corresponding members -/

/-- A member that is selected by anything but the order of its references has a
partner that is selected in the corresponding class. -/
theorem selected_partner {property : Member → Prop}
    (invariant : ∀ member partner, member.Rearranged partner → property member → property partner)
    (same : program.SameClass other position otherPosition)
    {selected otherSelected : Option MemberPosition}
    (selects : ∀ place, selected = some place ↔
      place.owner = position ∧ ∃ member, program.memberAt? place = some member ∧ property member)
    (otherSelects : ∀ place, otherSelected = some place ↔
      place.owner = otherPosition ∧
        ∃ member, other.memberAt? place = some member ∧ property member)
    {place : MemberPosition} (isSelected : selected = some place) :
    ∃ otherPlace, otherSelected = some otherPlace ∧ program.SamePlace other place otherPlace := by
  rcases (selects place).mp isSelected with ⟨rfl, member, present, holds⟩
  rcases rearrangement.rearranged_of_sameClass same with
    ⟨declaration, partner, declared, otherDeclared, rearranged⟩
  have has := Program.has_of_memberAt? present declared
  rcases rearranged.members.exists_right (List.mem_of_getElem? has) with
    ⟨partnerMember, isMember, memberRearranged⟩
  rcases List.mem_iff_getElem?.mp isMember with ⟨index, otherHas⟩
  have otherPresent : other.memberAt? ⟨otherPosition, index⟩ = some partnerMember :=
    Program.memberAt?_eq_some_iff.mpr ⟨partner, otherDeclared, otherHas⟩
  refine ⟨⟨otherPosition, index⟩, (otherSelects _).mpr ⟨rfl, partnerMember, otherPresent,
      invariant _ _ memberRearranged holds⟩, same, _,
    Program.symbolNames_memberNode declared has, ?_⟩
  rw [Program.symbolNames_memberNode otherDeclared otherHas, rearranged.name_eq,
    memberRearranged.qualifiedName_eq]

theorem selection_related {property : Member → Prop}
    (invariant : ∀ member partner, member.Rearranged partner → property member → property partner)
    (same : program.SameClass other position otherPosition)
    {selected otherSelected : Option MemberPosition}
    (selects : ∀ place, selected = some place ↔
      place.owner = position ∧ ∃ member, program.memberAt? place = some member ∧ property member)
    (otherSelects : ∀ place, otherSelected = some place ↔
      place.owner = otherPosition ∧
        ∃ member, other.memberAt? place = some member ∧ property member) :
    Option.Rel (program.SamePlace other) selected otherSelected := by
  apply optionRel_of_forward
  · intro place isSelected
    exact rearrangement.selected_partner invariant same selects otherSelects isSelected
  · intro absent
    rw [Option.eq_none_iff_forall_ne_some]
    intro otherPlace isSelected
    have ⟨declaration, partner, declared, otherDeclared, sameName⟩ := same
    rcases rearrangement.symm.selected_partner invariant
      ⟨partner, declaration, otherDeclared, declared, sameName.symm⟩ otherSelects selects
      isSelected with ⟨place, found, _⟩
    rw [found] at absent
    cases absent

theorem declared?_related (same : program.SameClass other position otherPosition) :
    Option.Rel (program.SamePlace other) (program.declared? signature position)
      (other.declared? signature otherPosition) :=
  rearrangement.selection_related
    (fun _ _ rearranged sameSignature => rearranged.signature_eq.trans sameSignature) same
    (fun _ => Program.declared?_eq_some_iff rearrangement.distinct)
    (fun _ => Program.declared?_eq_some_iff rearrangement.distinctOther)

theorem virtual?_related (same : program.SameClass other position otherPosition) :
    Option.Rel (program.SamePlace other) (program.virtual? signature position)
      (other.virtual? signature otherPosition) :=
  rearrangement.selection_related
    (fun _ _ rearranged holds =>
      ⟨rearranged.isVirtual_eq.trans holds.1, rearranged.signature_eq.trans holds.2⟩) same
    (fun _ => Program.virtual?_eq_some_iff rearrangement.distinct)
    (fun _ => Program.virtual?_eq_some_iff rearrangement.distinctOther)

theorem lookup_related (same : program.SameClass other position otherPosition) :
    Lookup.Same (program.SamePlace other) (program.lookup position signature)
      (other.lookup otherPosition signature) :=
  rearrangement.sameHierarchy.lookup same
    (findSome?_related (fun _ _ sameHere => rearrangement.declared?_related sameHere)
      (rearrangement.sameHierarchy.lookupPath same))

theorem dispatch?_related (same : program.SameClass other position otherPosition) :
    Option.Rel (program.SamePlace other) (program.dispatch? position signature)
      (other.dispatch? otherPosition signature) := by
  rw [Program.dispatch?_eq_findSome?, Program.dispatch?_eq_findSome?]
  exact findSome?_related (fun _ _ sameHere => rearrangement.virtual?_related sameHere)
    (rearrangement.sameHierarchy.chain same)

/-! ## What references denote -/

theorem referenceTarget_eq (reference : Reference) :
    program.targetName (program.referenceTarget reference) =
      other.targetName (other.referenceTarget reference) := by
  cases asks : reference.signature? with
  | none =>
      rw [Program.referenceTarget_eq_classTarget asks, Program.referenceTarget_eq_classTarget asks,
        Program.targetName_classTarget rearrangement.distinct,
        Program.targetName_classTarget rearrangement.distinctOther]
  | some signature =>
      -- Where no lookup finds a declaration, both stand for the name.
      have named (unbound : ∀ owner, program.position? reference.owner = some owner →
            ∀ method, program.lookup owner signature ≠ .found method)
          (otherUnbound : ∀ owner, other.position? reference.owner = some owner →
            ∀ method, other.lookup owner signature ≠ .found method) :
          program.targetName (program.referenceTarget reference) =
            other.targetName (other.referenceTarget reference) := by
        rw [Program.referenceTarget_eq_named asks unbound,
          Program.referenceTarget_eq_named asks otherUnbound]
        rfl
      rcases optionRel_cases (rearrangement.position?_related reference.owner) with
        ⟨absent, otherAbsent⟩ | ⟨owner, otherOwner, found, otherFound, same⟩
      · apply named
        · simp [absent]
        · simp [otherAbsent]
      · have answers : Lookup.Same _ (program.lookup owner signature) _ :=
          rearrangement.lookup_related same
        generalize binds : program.lookup owner signature = answer at answers
        generalize otherBinds : other.lookup otherOwner signature = otherAnswer at answers
        cases answers with
        | found samePlace =>
            rcases samePlace with ⟨_, name, placed, otherPlaced⟩
            rw [Program.referenceTarget_eq_node asks found binds,
              Program.referenceTarget_eq_node asks otherFound otherBinds, Program.targetName,
              Program.targetName, placed, otherPlaced]
        | maybeInherited =>
            apply named
            · simp [found, binds]
            · simp [otherFound, otherBinds]
        | missing =>
            apply named
            · simp [found, binds]
            · simp [otherFound, otherBinds]

theorem resolved (resolved : program.firstUnresolved? = none) : other.firstUnresolved? = none := by
  rw [Program.firstUnresolved?_eq_none_iff] at resolved ⊢
  intro partner isClass partnerMember isMember reference refers signature otherOwner asks otherFound
    otherMissing
  rcases rearrangement.symm.member_partner isClass isMember with
    ⟨declaration, isClass, member, isMember, _, memberRearranged, _⟩
  have refersHere := memberRearranged.2.mem_iff.mp refers
  rcases optionRel_cases (rearrangement.position?_related reference.owner) with
    ⟨_, otherAbsent⟩ | ⟨owner, _, found, sameFound, same⟩
  · rw [otherFound] at otherAbsent
    cases otherAbsent
  · obtain rfl : otherOwner = _ := Option.some.inj (otherFound.symm.trans sameFound)
    have resolves := resolved declaration isClass member isMember reference refersHere signature
      owner asks found
    have answers : Lookup.Same _ (program.lookup owner signature) _ :=
      rearrangement.lookup_related same
    rw [otherMissing] at answers
    generalize program.lookup owner signature = answer at answers resolves
    cases answers
    exact resolves rfl

/-! ## What symbols need -/

theorem mentions {source target : String} (mentions : program.Mentions source target) :
    other.Mentions source target := by
  cases mentions with
  | parent isClass parent =>
      rcases rearrangement.class_partner isClass with ⟨partner, isPartner, rearranged⟩
      rw [← rearranged.name_eq]
      refine .parent isPartner ?_
      rwa [rearranged.superclass_eq, rearranged.interfaces_eq]
  | owner isClass isMember =>
      rcases rearrangement.member_partner isClass isMember with
        ⟨partner, isPartner, member, isMember, rearranged, _, sameName⟩
      rw [← sameName, ← rearranged.name_eq]
      exact .owner isPartner isMember
  | reference isClass isMember refers =>
      rcases rearrangement.member_partner isClass isMember with
        ⟨partner, isPartner, member, isMember, _, memberRearranged, sameName⟩
      rw [← sameName, rearrangement.referenceTarget_eq]
      exact .reference isPartner isMember (memberRearranged.2.mem_iff.mp refers)
  | referenceOwner isClass isMember refers ofMember isTarget named =>
      rcases rearrangement.member_partner isClass isMember with
        ⟨partner, isPartner, member, isMember, _, memberRearranged, sameName⟩
      rcases rearrangement.class_partner isTarget with ⟨target, isTarget, targetRearranged⟩
      rw [← sameName, ← targetRearranged.name_eq]
      exact .referenceOwner isPartner isMember (memberRearranged.2.mem_iff.mp refers) ofMember
        isTarget (targetRearranged.name_eq.trans named)

theorem boundaryNames {name : String} (isBoundary : name ∈ program.boundaryNames) :
    name ∈ other.boundaryNames := by
  rw [Program.mem_boundaryNames_iff_mentions rearrangement.distinct] at isBoundary
  rw [Program.mem_boundaryNames_iff_mentions rearrangement.distinctOther,
    ← rearrangement.mem_symbolNames_iff]
  rcases isBoundary with ⟨undefined, source, mentions⟩
  exact ⟨undefined, source, rearrangement.mentions mentions⟩

theorem isSupertype {lower upper : String} (above : program.IsSupertype lower upper) :
    other.IsSupertype lower upper := by
  refine ⟨above.1, Relation.ReflTransGen.mono ?_ _ _ above.2⟩
  rintro _ _ ⟨declaration, isClass, rfl, parent⟩
  rcases rearrangement.class_partner isClass with ⟨partner, isPartner, rearranged⟩
  refine ⟨partner, isPartner, rearranged.name_eq, ?_⟩
  rwa [rearranged.superclass_eq, rearranged.interfaces_eq]

theorem runs {receiver declaring : String}
    (runs : program.Runs receiver signature declaring) :
    other.Runs receiver signature declaring := by
  rcases runs with ⟨position, declaration, owner, method, declared, rfl, runs, isOwner, rfl⟩
  rcases rearrangement.exists_namesake declared with
    ⟨otherPosition, partner, otherDeclared, sameName, same⟩
  have related : Option.Rel _ (program.dispatch? position signature) _ :=
    rearrangement.dispatch?_related same
  rw [runs] at related
  rcases optionRel_cases related with
    ⟨impossible, _⟩ | ⟨_, otherMethod, isMethod, otherRuns, samePlace⟩
  · cases impossible
  · cases isMethod
    rcases samePlace.1 with ⟨sameOwner, otherOwner, isSameOwner, isOtherOwner, sameOwnerName⟩
    rw [isOwner] at isSameOwner
    cases isSameOwner
    exact ⟨otherPosition, partner, otherOwner, otherMethod, otherDeclared, sameName, otherRuns,
      isOtherOwner, sameOwnerName⟩

theorem declaresVirtual {owner : String} (declares : program.DeclaresVirtual owner signature) :
    other.DeclaresVirtual owner signature := by
  rcases declares with ⟨declaration, isClass, rfl, member, isMember, isVirtual, rfl⟩
  rcases rearrangement.member_partner isClass isMember with
    ⟨partner, isPartner, partnerMember, isMember, rearranged, memberRearranged, _⟩
  exact ⟨partner, isPartner, rearranged.name_eq, partnerMember, isMember,
    memberRearranged.isVirtual_eq.trans isVirtual, memberRearranged.signature_eq⟩

theorem overrides {overrider overridden : String}
    (overrides : program.Overrides overrider overridden) :
    other.Overrides overrider overridden := by
  rw [Program.overrides_iff rearrangement.distinct] at overrides
  rw [Program.overrides_iff rearrangement.distinctOther]
  rcases overrides with ⟨receiver, overrides⟩
  refine ⟨receiver, ?_⟩
  cases overrides with
  | method runs above declares apart =>
      exact .method (rearrangement.runs runs) (rearrangement.isSupertype above)
        (rearrangement.declaresVirtual declares) apart
  | library runs above uses undefined =>
      have isBoundary := rearrangement.boundaryNames
        ((Program.mem_boundaryNames_iff_usesName rearrangement.distinct).mpr ⟨uses, undefined⟩)
      rcases (Program.mem_boundaryNames_iff_usesName rearrangement.distinctOther).mp isBoundary
        with ⟨otherUses, otherUndefined⟩
      exact .library (rearrangement.runs runs) (rearrangement.isSupertype above) otherUses
        otherUndefined

theorem needs {source target : String} (needs : program.Needs source target) :
    other.Needs source target := by
  cases needs with
  | mentioned mentions => exact .mentioned (rearrangement.mentions mentions)
  | overridden overrides => exact .overridden (rearrangement.overrides overrides)
  | overrider overrides => exact .overrider (rearrangement.overrides overrides)
  | initializer isClass first =>
      rcases rearrangement.class_partner isClass with ⟨partner, isPartner, rearranged⟩
      rcases rearranged.initializer first with ⟨member, otherFirst, memberRearranged⟩
      rw [← memberRearranged.qualifiedName_eq, ← rearranged.name_eq]
      exact .initializer isPartner otherFirst

/-! ## What is kept -/

theorem selects {config : Config} {name : String} (selects : config.Selects program name) :
    config.Selects other name := by
  cases selects with
  | named isClass isMember isMethod inConfig ends names =>
      rcases rearrangement.member_partner isClass isMember with
        ⟨partner, isPartner, member, isMember, rearranged, memberRearranged, sameName⟩
      rw [← sameName] at names ⊢
      exact .named isPartner isMember (memberRearranged.kind_eq.trans isMethod) inConfig
        (rearranged.name_eq ▸ ends) names
  | marked marks =>
      cases marks with
      | ofClass isClass inConfig carried =>
          rcases rearrangement.class_partner isClass with ⟨partner, isPartner, rearranged⟩
          rw [← rearranged.name_eq]
          exact .marked (.ofClass isPartner inConfig (rearranged.annotations_eq ▸ carried))
      | ofMember isClass isMember inConfig carried =>
          rcases rearrangement.member_partner isClass isMember with
            ⟨partner, isPartner, member, isMember, _, memberRearranged, sameName⟩
          rw [← sameName]
          exact .marked (.ofMember isPartner isMember inConfig
            (memberRearranged.annotations_eq ▸ carried))
  | enteredClass isClass entered =>
      rcases rearrangement.class_partner isClass with ⟨partner, isPartner, rearranged⟩
      rw [← rearranged.name_eq] at entered ⊢
      exact .enteredClass isPartner entered
  | enteredMember isClass isMember entered =>
      rcases rearrangement.member_partner isClass isMember with
        ⟨partner, isPartner, member, isMember, _, _, sameName⟩
      rw [← sameName] at entered ⊢
      exact .enteredMember isPartner isMember entered

theorem kept {config : Config} {name : String}
    (kept : program.Kept (config.Selects program) name) :
    other.Kept (config.Selects other) name := by
  induction kept with
  | selected selects => exact .selected (rearrangement.selects selects)
  | boundary isBoundary => exact .boundary (rearrangement.boundaryNames isBoundary)
  | needed _ needs induction => exact .needed induction (rearrangement.needs needs)

theorem kept_iff (config : Config) (name : String) :
    program.Kept (config.Selects program) name ↔ other.Kept (config.Selects other) name :=
  ⟨rearrangement.kept, rearrangement.symm.kept⟩

end Rearrangement

end ClassShrink
