import Mathlib.Data.List.Sort

/-! The path of members to an offset of an object, by the debug information of its type. -/

namespace OpenRace

inductive CompositeTag
  | structureType | classType | unionType | enumerationType
deriving DecidableEq

inductive ElementTag
  | member (isStatic : Bool)
  | inheritance (isVirtual : Bool)
  | other
deriving DecidableEq

mutual
/-- Pointers, qualified types and basic types are not looked into. -/
inductive DIType
  | other (name : String)
  | typedef (baseType : DIType)
  | array (baseType : DIType)
  | composite (DI : DICompositeType)
deriving DecidableEq

inductive DICompositeType
  | mk (tag : CompositeTag) (name : String) (sizeInBits : ℕ) (elements : DIElements)
deriving DecidableEq

inductive DIElements
  | nil
  | cons (tag : ElementTag) (name : String) (offsetInBits : ℕ) (baseType : DIType) (rest : DIElements)
deriving DecidableEq
end

structure DIMember where
  name : String
  offsetInBits : ℕ
  baseType : DIType
deriving DecidableEq

inductive PathNode
  | type (DI : DICompositeType)
  | member (member : DIMember)
deriving DecidableEq

/-- The sort of members by offset, which leaves those at one offset in any order. -/
structure MemberOrder where
  sort : List DIMember → List DIMember
  perm : ∀ members, (sort members).Perm members
  sorted : ∀ members, (sort members).Pairwise (·.offsetInBits ≤ ·.offsetInBits)

namespace DICompositeType

def sizeInBits : DICompositeType → ℕ
  | mk _ _ sizeInBits _ => sizeInBits

def elements : DICompositeType → DIElements
  | mk _ _ _ elements => elements

def isRecord : DICompositeType → Bool
  | mk tag _ _ _ => tag == .structureType || tag == .classType

end DICompositeType

def stripArrayAndTypeDefDI : DIType → DIType
  | .array baseType => stripArrayAndTypeDefDI baseType
  | .typedef baseType => stripArrayAndTypeDefDI baseType
  | type => type

def ElementTag.isCounted : ElementTag → Bool
  | .member isStatic => !isStatic
  | .inheritance isVirtual => !isVirtual
  | .other => false

def DIElements.dataMembers : DIElements → List DIMember
  | .nil => []
  | .cons tag name offsetInBits baseType rest =>
    if tag.isCounted then ⟨name, offsetInBits, baseType⟩ :: rest.dataMembers else rest.dataMembers

variable (order : MemberOrder)

def getNonStaticDataMember (DI : DICompositeType) : List DIMember := order.sort DI.elements.dataMembers

/-- The loop of `getFieldAccessPath`: a member reaches up to the next one, and the last one to the end. -/
def findMember (sizeInBits pOffset : ℕ) : List DIMember → Option DIMember
  | [] => none
  | member :: rest =>
    let nextOffset := (rest.head?.map DIMember.offsetInBits).getD sizeInBits
    if member.offsetInBits ≤ pOffset ∧ pOffset < nextOffset then some member else findMember sizeInBits pOffset rest

def memberAt (DI : DICompositeType) (pOffset : ℕ) : Option DIMember :=
  findMember DI.sizeInBits pOffset (getNonStaticDataMember order DI)

section Sizes

lemma sizeOf_strip_le (type : DIType) : sizeOf (stripArrayAndTypeDefDI type) ≤ sizeOf type := by
  induction type using stripArrayAndTypeDefDI.induct with
  | case1 baseType ih =>
    rw [stripArrayAndTypeDefDI, DIType.array.sizeOf_spec]
    omega
  | case2 baseType ih =>
    rw [stripArrayAndTypeDefDI, DIType.typedef.sizeOf_spec]
    omega
  | case3 type harray htypedef =>
    rw [stripArrayAndTypeDefDI]
    · exact harray
    · exact htypedef

lemma sizeOf_lt_of_dataMember {member : DIMember} : ∀ {elements : DIElements}, member ∈ elements.dataMembers →
    sizeOf member.baseType < sizeOf elements
  | .nil, h => absurd h List.not_mem_nil
  | .cons tag name offsetInBits baseType rest, h => by
    rw [DIElements.cons.sizeOf_spec]
    rw [DIElements.dataMembers] at h
    split at h
    · rcases List.mem_cons.mp h with rfl | h
      · dsimp only
        omega
      · have hlt := sizeOf_lt_of_dataMember h
        omega
    · have hlt := sizeOf_lt_of_dataMember h
      omega

variable {order} {DI inner : DICompositeType} {pOffset : ℕ} {member : DIMember}

lemma findMember_some {sizeInBits : ℕ} {members : List DIMember}
    (h : findMember sizeInBits pOffset members = some member) : member ∈ members ∧ member.offsetInBits ≤ pOffset := by
  induction members with
  | nil => cases h
  | cons head rest ih =>
    rw [findMember] at h
    split at h
    · rename_i hin
      cases h
      exact ⟨List.mem_cons_self, hin.1⟩
    · exact ⟨List.mem_cons_of_mem _ (ih h).1, (ih h).2⟩

lemma memberAt_some (h : memberAt order DI pOffset = some member) :
    member ∈ DI.elements.dataMembers ∧ member.offsetInBits ≤ pOffset := by
  obtain ⟨hmem, hle⟩ := findMember_some h
  exact ⟨(order.perm _).mem_iff.mp hmem, hle⟩

lemma sizeOf_lt_of_memberAt (h : memberAt order DI pOffset = some member)
    (hbase : stripArrayAndTypeDefDI member.baseType = .composite inner) : sizeOf inner < sizeOf DI := by
  have hlt := sizeOf_lt_of_dataMember (memberAt_some h).1
  have hle := sizeOf_strip_le member.baseType
  rw [hbase, DIType.composite.sizeOf_spec] at hle
  cases DI with
  | mk tag name sizeInBits elements =>
    rw [DICompositeType.mk.sizeOf_spec]
    rw [DICompositeType.elements] at hlt
    omega

end Sizes

/-- The offset is in bytes; a nested struct gets what remains of it in bits. As a `size_t`, eight times the offset is the
same as long as types have less than `2 ^ 61` bits. -/
def getFieldAccessPath (DI : DICompositeType) (offsetInByte : ℕ) (result : List PathNode) : List PathNode :=
  match _hmember : memberAt order DI (offsetInByte * 8) with
  | none => []
  | some member =>
    match hbase : stripArrayAndTypeDefDI member.baseType with
    | .composite compositeBase =>
      if compositeBase.isRecord then
        getFieldAccessPath compositeBase (offsetInByte * 8 - member.offsetInBits)
          (result ++ [.type DI, .member member])
      else result ++ [.type DI, .member member]
    | _ => if offsetInByte * 8 ≠ member.offsetInBits then [] else result ++ [.type DI, .member member]
termination_by DI
decreasing_by exact sizeOf_lt_of_memberAt _hmember hbase

/-- Members inside each other, with the sum of their offsets. Elements of an array after the first are at none. -/
inductive AccessPath : DICompositeType → ℕ → List PathNode → Prop
  | here {DI : DICompositeType} {member : DIMember} (hmember : member ∈ DI.elements.dataMembers) :
      AccessPath DI member.offsetInBits [.type DI, .member member]
  | inside {DI inner : DICompositeType} {member : DIMember} {bits : ℕ} {path : List PathNode}
      (hmember : member ∈ DI.elements.dataMembers)
      (hbase : stripArrayAndTypeDefDI member.baseType = .composite inner) (hrecord : inner.isRecord = true)
      (h : AccessPath inner bits path) :
      AccessPath DI (member.offsetInBits + bits) (.type DI :: .member member :: path)

/-- The member is no struct, or it has a first member of this kind. -/
inductive Headed : DIMember → Prop
  | plain {member : DIMember} (hplain : ∀ inner, stripArrayAndTypeDefDI member.baseType = .composite inner →
      inner.isRecord = false) : Headed member
  | record {member first : DIMember} {inner : DICompositeType}
      (hbase : stripArrayAndTypeDefDI member.baseType = .composite inner) (hrecord : inner.isRecord = true)
      (hfirst : memberAt order inner 0 = some first) (h : Headed first) : Headed member

/-- Looking up eight times what remains ends at a union or an enumeration that is what remains. -/
inductive Coincides : DICompositeType → ℕ → ℕ → Prop
  | ends {DI union : DICompositeType} {remaining : ℕ} {member : DIMember}
      (hmember : memberAt order DI (remaining * 8) = some member)
      (hbase : stripArrayAndTypeDefDI member.baseType = .composite union) (hunion : union.isRecord = false) :
      Coincides DI remaining member.offsetInBits
  | inside {DI inner : DICompositeType} {remaining bits : ℕ} {member : DIMember}
      (hmember : memberAt order DI (remaining * 8) = some member)
      (hbase : stripArrayAndTypeDefDI member.baseType = .composite inner) (hrecord : inner.isRecord = true)
      (h : Coincides inner (remaining * 8 - member.offsetInBits) bits) :
      Coincides DI remaining (member.offsetInBits + bits)

inductive Walks : DICompositeType → ℕ → List PathNode → Prop
  | plain {DI : DICompositeType} {offset : ℕ} {member : DIMember}
      (hmember : memberAt order DI (offset * 8) = some member)
      (hplain : ∀ inner, stripArrayAndTypeDefDI member.baseType ≠ .composite inner)
      (hoffset : offset * 8 = member.offsetInBits) : Walks DI offset [.type DI, .member member]
  | union {DI union : DICompositeType} {offset : ℕ} {member : DIMember}
      (hmember : memberAt order DI (offset * 8) = some member)
      (hbase : stripArrayAndTypeDefDI member.baseType = .composite union) (hunion : union.isRecord = false) :
      Walks DI offset [.type DI, .member member]
  | record {DI inner : DICompositeType} {offset : ℕ} {member : DIMember} {path : List PathNode}
      (hmember : memberAt order DI (offset * 8) = some member)
      (hbase : stripArrayAndTypeDefDI member.baseType = .composite inner) (hrecord : inner.isRecord = true)
      (h : Walks inner (offset * 8 - member.offsetInBits) path) : Walks DI offset (.type DI :: .member member :: path)

section Paths

variable {order} {DI inner : DICompositeType} {offset bits : ℕ} {member : DIMember} {path : List PathNode}

lemma Walks.ne_nil (h : Walks order DI offset path) : path ≠ [] := by
  cases h <;> simp

lemma AccessPath.ne_nil (h : AccessPath DI bits path) : path ≠ [] := by
  cases h <;> simp

lemma getFieldAccessPath_none (hmember : memberAt order DI (offset * 8) = none) (result : List PathNode) :
    getFieldAccessPath order DI offset result = [] := by
  rw [getFieldAccessPath]
  split
  · rfl
  · rename_i found hfound
    rw [hmember] at hfound
    cases hfound

lemma getFieldAccessPath_composite (hmember : memberAt order DI (offset * 8) = some member)
    (hbase : stripArrayAndTypeDefDI member.baseType = .composite inner) (result : List PathNode) :
    getFieldAccessPath order DI offset result =
      if inner.isRecord then
        getFieldAccessPath order inner (offset * 8 - member.offsetInBits) (result ++ [.type DI, .member member])
      else result ++ [.type DI, .member member] := by
  rw [getFieldAccessPath]
  split
  · rename_i hnone
    rw [hmember] at hnone
    cases hnone
  · rename_i found hfound
    obtain rfl := Option.some.inj (hmember.symm.trans hfound)
    split
    · rename_i inner' hinner
      rw [hbase] at hinner
      cases hinner
      rfl
    · rename_i hother
      exact absurd hbase (hother _)

lemma getFieldAccessPath_plain (hmember : memberAt order DI (offset * 8) = some member)
    (hplain : ∀ inner, stripArrayAndTypeDefDI member.baseType ≠ .composite inner) (result : List PathNode) :
    getFieldAccessPath order DI offset result =
      if offset * 8 ≠ member.offsetInBits then [] else result ++ [.type DI, .member member] := by
  rw [getFieldAccessPath]
  split
  · rename_i hnone
    rw [hmember] at hnone
    cases hnone
  · rename_i found hfound
    obtain rfl := Option.some.inj (hmember.symm.trans hfound)
    split
    · rename_i inner hinner
      exact absurd hinner (hplain inner)
    · rfl

lemma Walks.getFieldAccessPath (h : Walks order DI offset path) (result : List PathNode) :
    getFieldAccessPath order DI offset result = result ++ path := by
  induction h generalizing result with
  | plain hmember hplain hoffset =>
    rw [getFieldAccessPath_plain hmember hplain, if_neg (not_not.mpr hoffset)]
  | union hmember hbase hunion =>
    rw [getFieldAccessPath_composite hmember hbase, if_neg (by simp [hunion])]
  | record hmember hbase hrecord h ih =>
    rw [getFieldAccessPath_composite hmember hbase, if_pos hrecord, ih, List.append_assoc]
    rfl

lemma exists_walks (DI : DICompositeType) (offset : ℕ) (result : List PathNode)
    (h : getFieldAccessPath order DI offset result ≠ []) : ∃ path, Walks order DI offset path := by
  fun_induction getFieldAccessPath order DI offset result with
  | case1 => exact absurd rfl h
  | case2 DI offset result member hmember inner hbase hrecord ih =>
    obtain ⟨path, hpath⟩ := ih h
    exact ⟨_, .record hmember hbase hrecord hpath⟩
  | case3 DI offset result member hmember inner hbase hrecord =>
    exact ⟨_, .union hmember hbase (by simpa using hrecord)⟩
  | case4 => exact absurd rfl h
  | case5 DI offset result member hmember hoffset hplain =>
    exact ⟨_, .plain hmember hplain (not_not.mp hoffset)⟩

lemma accessPath_getFieldAccessPath_iff : AccessPath DI bits (getFieldAccessPath order DI offset []) ↔
    ∃ path, Walks order DI offset path ∧ AccessPath DI bits path := by
  constructor
  · intro h
    obtain ⟨path, hpath⟩ := exists_walks DI offset [] h.ne_nil
    rw [hpath.getFieldAccessPath, List.nil_append] at h
    exact ⟨path, hpath, h⟩
  · rintro ⟨path, hpath, h⟩
    rwa [hpath.getFieldAccessPath, List.nil_append]

lemma AccessPath.bits_eq (h : AccessPath DI bits [.type DI, .member member]) : bits = member.offsetInBits := by
  cases h with
  | here => rfl
  | inside _ _ _ h => exact absurd rfl h.ne_nil

lemma AccessPath.rest (h : AccessPath DI bits (.type DI :: .member member :: path)) (hpath : path ≠ []) :
    ∃ inner rest, stripArrayAndTypeDefDI member.baseType = .composite inner ∧ bits = member.offsetInBits + rest ∧
      AccessPath inner rest path := by
  cases h with
  | here => exact absurd rfl hpath
  | inside _ hbase _ h => exact ⟨_, _, hbase, rfl, h⟩

lemma Walks.headed (h : Walks order DI offset path) (hzero : offset = 0) :
    ∃ member, memberAt order DI 0 = some member ∧ Headed order member := by
  induction h with
  | @plain DI offset member hmember hplain =>
    subst hzero
    exact ⟨member, hmember, .plain fun inner hbase => absurd hbase (hplain inner)⟩
  | @union DI union offset member hmember hbase hunion =>
    subst hzero
    refine ⟨member, hmember, .plain fun inner hinner => ?_⟩
    rw [hbase] at hinner
    cases hinner
    exact hunion
  | @record DI inner offset member path hmember hbase hrecord _ ih =>
    subst hzero
    obtain ⟨first, hfirst, h⟩ := ih (by omega)
    exact ⟨member, hmember, .record hbase hrecord hfirst h⟩

lemma Headed.exists_walks (h : Headed order member) (hmember : memberAt order DI (offset * 8) = some member)
    (hstart : member.offsetInBits = offset * 8) :
    ∃ path, Walks order DI offset path ∧ AccessPath DI member.offsetInBits path := by
  have hmem := (memberAt_some hmember).1
  induction h generalizing DI offset with
  | @plain member hplain =>
    by_cases hbase : ∃ inner, stripArrayAndTypeDefDI member.baseType = .composite inner
    · obtain ⟨inner, hbase⟩ := hbase
      exact ⟨_, .union hmember hbase (hplain inner hbase), .here hmem⟩
    · exact ⟨_, .plain hmember (fun inner heq => hbase ⟨inner, heq⟩) hstart.symm, .here hmem⟩
  | @record member first inner hbase hrecord hfirst _ ih =>
    obtain ⟨hfirstMem, hle⟩ := memberAt_some hfirst
    have hzero := Nat.le_zero.mp hle
    obtain ⟨path, hwalks, hpath⟩ := @ih inner 0 hfirst hzero hfirstMem
    have hremains : offset * 8 - member.offsetInBits = 0 := by omega
    refine ⟨_, .record hmember hbase hrecord (hremains ▸ hwalks), ?_⟩
    have hinside := AccessPath.inside hmem hbase hrecord hpath
    rwa [hzero, Nat.add_zero] at hinside

/-- A walk that looks for more than remains can end at no member but a union or an enumeration. -/
lemma Walks.coincides (h : Walks order DI offset path) (hpath : AccessPath DI bits path) (hlt : bits < offset * 8) :
    Coincides order DI offset bits := by
  induction h generalizing bits with
  | plain _ _ hoffset =>
    rw [hpath.bits_eq] at hlt
    omega
  | union hmember hbase hunion =>
    rw [hpath.bits_eq]
    exact .ends hmember hbase hunion
  | record hmember hbase hrecord h ih =>
    obtain ⟨inner', rest, hinner, rfl, hrest⟩ := hpath.rest h.ne_nil
    rw [hbase] at hinner
    cases hinner
    exact .inside hmember hbase hrecord (ih hrest (by omega))

lemma Coincides.exists_walks (h : Coincides order DI offset bits) :
    ∃ path, Walks order DI offset path ∧ AccessPath DI bits path := by
  induction h with
  | ends hmember hbase hunion => exact ⟨_, .union hmember hbase hunion, .here (memberAt_some hmember).1⟩
  | inside hmember hbase hrecord _ ih =>
    obtain ⟨path, hwalks, hpath⟩ := ih
    exact ⟨_, .record hmember hbase hrecord hwalks, .inside (memberAt_some hmember).1 hbase hrecord hpath⟩

end Paths

/-- The path to a byte adds up to it just where a member of the outermost type starts there and all structs in that
place begin with a member, but for unions and enumerations that are met by chance. -/
theorem getFieldAccessPath_iff (order : MemberOrder) (DI : DICompositeType) (offsetInByte : ℕ) :
    AccessPath DI (8 * offsetInByte) (getFieldAccessPath order DI offsetInByte []) ↔
      ∃ member, memberAt order DI (8 * offsetInByte) = some member ∧
        (member.offsetInBits = 8 * offsetInByte ∧ Headed order member ∨
          ∃ inner, stripArrayAndTypeDefDI member.baseType = .composite inner ∧ inner.isRecord = true ∧
            member.offsetInBits < 8 * offsetInByte ∧
              Coincides order inner (8 * offsetInByte - member.offsetInBits)
                (8 * offsetInByte - member.offsetInBits)) := by
  rw [accessPath_getFieldAccessPath_iff]
  constructor
  · rintro ⟨path, hwalks, hpath⟩
    cases hwalks with
    | @plain _ _ member hmember hplain =>
      rw [Nat.mul_comm] at hmember
      exact ⟨member, hmember, Or.inl ⟨hpath.bits_eq.symm, .plain fun inner hbase => absurd hbase (hplain inner)⟩⟩
    | @union _ union _ member hmember hbase hunion =>
      rw [Nat.mul_comm] at hmember
      refine ⟨member, hmember, Or.inl ⟨hpath.bits_eq.symm, .plain fun inner hinner => ?_⟩⟩
      rw [hbase] at hinner
      cases hinner
      exact hunion
    | @record _ inner _ member path hmember hbase hrecord h =>
      rw [Nat.mul_comm] at hmember h
      obtain ⟨inner', rest, hinner, hbits, hrest⟩ := hpath.rest h.ne_nil
      rw [hbase] at hinner
      cases hinner
      refine ⟨member, hmember, ?_⟩
      rcases Nat.eq_zero_or_pos rest with rfl | hpos
      · obtain ⟨first, hfirst, hheaded⟩ := h.headed (by omega)
        exact Or.inl ⟨hbits.symm, .record hbase hrecord hfirst hheaded⟩
      · have hremains : 8 * offsetInByte - member.offsetInBits = rest := by omega
        rw [hremains] at h ⊢
        exact Or.inr ⟨inner, hbase, hrecord, by omega, h.coincides hrest (by omega)⟩
  · rintro ⟨member, hmember, ⟨hstart, hheaded⟩ | ⟨inner, hbase, hrecord, hlt, hcoincides⟩⟩
    · rw [Nat.mul_comm] at hmember hstart ⊢
      rw [← hstart]
      exact hheaded.exists_walks hmember hstart
    · obtain ⟨path, hwalks, hpath⟩ := hcoincides.exists_walks
      rw [← Nat.mul_comm offsetInByte] at hmember hwalks
      refine ⟨_, .record hmember hbase hrecord hwalks, ?_⟩
      have hinside := AccessPath.inside (memberAt_some hmember).1 hbase hrecord hpath
      rwa [Nat.add_sub_cancel' hlt.le] at hinside

namespace NestedPair

def byInsertion : MemberOrder where
  sort := List.insertionSort fun a b => a.offsetInBits ≤ b.offsetInBits
  perm := List.perm_insertionSort _
  sorted members := by
    have htotal : Std.Total fun a b : DIMember => a.offsetInBits ≤ b.offsetInBits := ⟨fun a b => Nat.le_total _ _⟩
    have htrans : IsTrans DIMember fun a b => a.offsetInBits ≤ b.offsetInBits := ⟨fun a b c => Nat.le_trans⟩
    exact List.pairwise_insertionSort _ members

/-- `struct pair { int a; int b; };` -/
def pair : DICompositeType :=
  .mk .structureType "pair" 64
    (.cons (.member false) "a" 0 (.other "int") (.cons (.member false) "b" 32 (.other "int") .nil))

/-- `struct { struct pair p; };` -/
def outer : DICompositeType := .mk .structureType "outer" 64 (.cons (.member false) "p" 0 (.composite pair) .nil)

theorem getFieldAccessPath_clears : AccessPath outer (8 * 4)
      [.type outer, .member ⟨"p", 0, .composite pair⟩, .type pair, .member ⟨"b", 32, .other "int"⟩] ∧
    ¬ AccessPath outer (8 * 4) (getFieldAccessPath byInsertion outer 4 []) := by
  constructor
  · have hinner := @AccessPath.here pair ⟨"b", 32, .other "int"⟩ (by decide)
    exact @AccessPath.inside outer pair ⟨"p", 0, .composite pair⟩ 32 _ (by decide) rfl rfl hinner
  · have houter : memberAt byInsertion outer (4 * 8) = some ⟨"p", 0, .composite pair⟩ := by decide
    have hpair : memberAt byInsertion pair ((4 * 8 - 0) * 8) = none := by decide
    rw [getFieldAccessPath_composite houter rfl, if_pos (by decide), getFieldAccessPath_none hpair]
    exact fun h => absurd rfl h.ne_nil

end NestedPair

end OpenRace
