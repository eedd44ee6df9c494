import SystemRdlToolkit.Json.Document

/-!
# The elaborated model in JSON

The two writers of the elaborated model: `ElaboratedModelToJsonConverter` of `json_output.h`
(`src/unnamed/part_006`, lines 178–260), which drives a `JsonBuilder` from the callbacks of
`ElaboratedModelTraverser`, and `convert_elaborated_node_to_json` with `systemrdl::elaborate`
of `src/parser_main.cpp` (lines 334–393 and 421–460), which build an `nlohmann::json` value.
`elaborator.h`, which declares the node type and the traverser, is not in the sources; the
node is modelled with the members both writers read.

Results:

* `parseJson_convertToJson_properties`: for a node with a property, `pre_visit` opens the
  properties object with `start_object()`, which writes no key, inside the node's object, so
  the text `convert_to_json` returns is not well-formed JSON; the `nlohmann` document holds the
  properties under `"properties"`;
* `parseJson_convertToJson_of_noProperties`: without properties the text is well-formed, and
  it reads back as exactly the `nlohmann` document, when types and names hold no raw control
  character and sizes and dimensions are below `2^63`;
* `decodeNode_convertElaboratedNodeToJson`: the `nlohmann` value of a node determines the node:
  decoding it gives back every member, with each ENUM property as its name string.
-/

namespace SystemRdlToolkit.Json

/-! ## Elaborated nodes -/

/-- Modelled from the spec: `systemrdl::PropertyValue` (`elaborator.h`), a STRING, INTEGER,
    BOOLEAN or ENUM value; an ENUM value is read through its name in `string_val`. -/
inductive PropertyValue where
  | string (s : List Char)
  | integer (n : Int)
  | boolean (b : Bool)
  | enum (name : List Char)
deriving DecidableEq, Repr

/-- Modelled from the spec: the property map of a node, a map from property names. -/
structure PropertyMap where
  entries : List (List Char × PropertyValue)
  nodup : (entries.map Prod.fst).Nodup

/-- Modelled from the spec: `systemrdl::ElaboratedNode` (`elaborator.h`), with the members the
    writers read: `get_node_type()`, `inst_name`, `absolute_address`, `size`,
    `array_dimensions`, `properties` and `children`. -/
inductive ElaboratedNode where
  | mk (nodeType instName : List Char) (absoluteAddress size : UInt64)
      (arrayDimensions : List UInt64) (properties : PropertyMap) (children : List ElaboratedNode)

/-! ## `ElaboratedModelToJsonConverter` -/

/-- `write_property` (lines 184–203). -/
def writeProperty (name : List Char) : PropertyValue → Call
  | .string s => .addString name s
  | .integer n => .addNumber name n
  | .boolean b => .addBool name b
  | .enum s => .addString name s

/-- `pre_visit` (lines 206–239). -/
def preVisit : ElaboratedNode → List Call
  | .mk nodeType instName absoluteAddress size arrayDimensions properties children =>
    [.startObject, .addString "node_type".toList nodeType, .addString "inst_name".toList instName,
      .addHex "absolute_address".toList absoluteAddress, .addNumber "size".toList (toLongLong size)] ++
    (if arrayDimensions ≠ [] then
      .startArray "array_dimensions".toList ::
        arrayDimensions.flatMap (fun dim => [.startObject, .addNumber "size".toList (toLongLong dim),
          .endObject]) ++ [.endArray]
    else []) ++
    (if properties.entries ≠ [] then
      .startObject :: .addString "_section".toList "properties".toList ::
        properties.entries.map (fun p => writeProperty p.1 p.2) ++ [.endObject]
    else []) ++
    (if children.length > 0 then [.startArray "children".toList] else [])

/-- `post_visit` (lines 241–247). -/
def postVisit : ElaboratedNode → List Call
  | .mk _ _ _ _ _ _ children => (if children.length > 0 then [.endArray] else []) ++ [.endObject]

mutual

/-- Modelled from the spec: `ElaboratedModelTraverser::traverse` (`elaborator.h`) calls
    `pre_visit(n)`, traverses `n`'s children in order, then calls `post_visit(n)`. -/
def traverse : ElaboratedNode → List Call
  | n@(.mk _ _ _ _ _ _ children) => preVisit n ++ traverseAll children ++ postVisit n

def traverseAll : List ElaboratedNode → List Call
  | [] => []
  | n :: ns => traverse n ++ traverseAll ns

end

/-- `ElaboratedModelToJsonConverter::convert_to_json` (lines 250–259), on a fresh converter. -/
def ElaboratedModelToJsonConverter.convertToJson (root : ElaboratedNode) : List Char :=
  (JsonBuilder.init.run
    ([.startObject, .addString "format".toList "SystemRDL_ElaboratedModel".toList,
      .addString "version".toList "1.0".toList, .startArray "model".toList] ++
      traverse root ++ [.endArray, .endObject])).toString

/-! ## `convert_elaborated_node_to_json` -/

/-- `convert_property_to_json` (`src/parser_main.cpp`, lines 335–349). -/
def convertPropertyToJson : PropertyValue → Value
  | .string s => .str s
  | .integer n => .num n
  | .boolean b => .bool b
  | .enum s => .str s

/-- The `"properties"` object (lines 376–381). -/
def propertiesToJson (properties : PropertyMap) : Value :=
  properties.entries.foldl (fun props p => props.set p.1 (convertPropertyToJson p.2)) (.obj [])

/-- One entry of `"array_dimensions"` (lines 369–371). -/
def dimensionToJson (dim : UInt64) : Value := Value.null.set "size".toList (.num dim.toNat)

mutual

/-- `convert_elaborated_node_to_json` (`src/parser_main.cpp`, lines 352–392). -/
def convertElaboratedNodeToJson : ElaboratedNode → Value
  | .mk nodeType instName absoluteAddress size arrayDimensions properties children =>
    let node := (((Value.null.set "node_type".toList (.str nodeType)).set "inst_name".toList
      (.str instName)).set "absolute_address".toList
      (.str ('0' :: 'x' :: hexText absoluteAddress.toNat))).set "size".toList (.num size.toNat)
    let node := if arrayDimensions ≠ [] then
      node.set "array_dimensions".toList (.arr (arrayDimensions.map dimensionToJson)) else node
    let node := if properties.entries ≠ [] then
      node.set "properties".toList (propertiesToJson properties) else node
    if children.length > 0 then
      node.set "children".toList (.arr (convertElaboratedNodesToJson children))
    else node

/-- The children pushed back in order (lines 384–388). -/
def convertElaboratedNodesToJson : List ElaboratedNode → List Value
  | [] => []
  | n :: ns => convertElaboratedNodeToJson n :: convertElaboratedNodesToJson ns

end

/-- The document `systemrdl::elaborate` dumps (`src/parser_main.cpp`, lines 447–454). -/
def elaboratedDocument (root : ElaboratedNode) : Value :=
  ((Value.null.set "format".toList (.str "SystemRDL_ElaboratedModel".toList)).set
    "version".toList (.str "1.0".toList)).set "model".toList
    ((Value.arr []).pushBack (convertElaboratedNodeToJson root))

/-! ## A node with a property -/

/-- An address map `top` at 0 with the property `name = "top"`. -/
def namedAddrmap : ElaboratedNode :=
  .mk "addrmap".toList "top".toList 0 0 [] ⟨[("name".toList, .string "top".toList)], by decide⟩ []

set_option maxRecDepth 8000 in
/-- The text `convert_to_json` returns for `namedAddrmap` is not well-formed JSON; the
    `nlohmann` document holds the property under `"properties"`. -/
theorem parseJson_convertToJson_properties :
    parseJson (ElaboratedModelToJsonConverter.convertToJson namedAddrmap) = none ∧
      ((elaboratedDocument namedAddrmap).lookup "model".toList).bind
          (fun model => match model with
            | .arr [node] => node.lookup "properties".toList
            | _ => none) =
        some (.obj [("name".toList, .str "top".toList)]) := by
  constructor <;> rfl

/-! ## Decoding the `nlohmann` value -/

/-- An ENUM value read back through its name. -/
def PropertyValue.enumAsString : PropertyValue → PropertyValue
  | .enum s => .string s
  | p => p

def PropertyMap.enumsAsStrings (m : PropertyMap) : PropertyMap :=
  ⟨m.entries.map fun p => (p.1, p.2.enumAsString), by simpa [Function.comp_def] using m.nodup⟩

mutual

/-- The node with every ENUM property read back through its name. -/
def ElaboratedNode.enumsAsStrings : ElaboratedNode → ElaboratedNode
  | .mk nodeType instName absoluteAddress size arrayDimensions properties children =>
    .mk nodeType instName absoluteAddress size arrayDimensions properties.enumsAsStrings
      (enumsAsStringsAll children)

def enumsAsStringsAll : List ElaboratedNode → List ElaboratedNode
  | [] => []
  | n :: ns => n.enumsAsStrings :: enumsAsStringsAll ns

end

def Value.asString : Value → Option (List Char)
  | .str s => some s
  | _ => none

/-- A number in the range of a `size_t`. -/
def Value.asSize : Value → Option UInt64
  | .num n => if 0 ≤ n ∧ n.toNat < UInt64.size then some (UInt64.ofNat n.toNat) else none
  | _ => none

/-- A `"0x"`-prefixed hexadecimal string read back into a 64-bit number. -/
def readAddress : List Char → Option UInt64
  | '0' :: 'x' :: ds =>
    (readDigits 16 ds).bind fun n => if n < UInt64.size then some (UInt64.ofNat n) else none
  | _ => none

/-- A property value read back: strings, integers and booleans. -/
def decodePropertyValue : Value → Option PropertyValue
  | .str s => some (.string s)
  | .num n => some (.integer n)
  | .bool b => some (.boolean b)
  | _ => none

/-- The members of the `"properties"` object read back, in order. -/
def decodePropertyEntries : List (List Char × Value) → Option (List (List Char × PropertyValue))
  | [] => some []
  | (k, v) :: ms => (decodePropertyValue v).bind fun p => (decodePropertyEntries ms).map ((k, p) :: ·)

/-- The `"properties"` object read back into a map. -/
def decodeProperties (ms : List (List Char × Value)) : Option PropertyMap :=
  (decodePropertyEntries ms).bind fun es =>
    if h : (es.map Prod.fst).Nodup then some ⟨es, h⟩ else none

/-- The `"size"` of each `"array_dimensions"` entry. -/
def decodeDimensions : List Value → Option (List UInt64)
  | [] => some []
  | d :: ds =>
    ((d.lookup "size".toList).bind Value.asSize).bind fun x => (decodeDimensions ds).map (x :: ·)

/-- The `"array_dimensions"` member read back; absent means none. -/
def dimensionsIn (v : Value) : Option (List UInt64) :=
  match v.lookup "array_dimensions".toList with
  | none => some []
  | some (.arr ds) => decodeDimensions ds
  | some _ => none

/-- The `"properties"` member read back; absent means empty. -/
def propertiesIn (v : Value) : Option PropertyMap :=
  match v.lookup "properties".toList with
  | none => some ⟨[], List.nodup_nil⟩
  | some (.obj ps) => decodeProperties ps
  | some _ => none

mutual

/-- A node read back from its value: `node_type`, `inst_name`, the address from its
    hexadecimal string, `size`, the dimensions, the `"properties"` object (absent means empty)
    and the `"children"` array (absent means empty), recursively. -/
def decodeNode : Value → Option ElaboratedNode
  | .obj ms => do
    let v := Value.obj ms
    let nodeType ← (v.lookup "node_type".toList).bind Value.asString
    let instName ← (v.lookup "inst_name".toList).bind Value.asString
    let absoluteAddress ← ((v.lookup "absolute_address".toList).bind Value.asString).bind
      readAddress
    let size ← (v.lookup "size".toList).bind Value.asSize
    let arrayDimensions ← dimensionsIn v
    let properties ← propertiesIn v
    let children ← childrenIn ms
    some (.mk nodeType instName absoluteAddress size arrayDimensions properties children)
  | _ => none

/-- The `"children"` member among a node's members, read back; absent means none. -/
def childrenIn : List (List Char × Value) → Option (List ElaboratedNode)
  | [] => some []
  | (k, v) :: ms => if k = "children".toList then decodeChildren v else childrenIn ms

/-- The `"children"` array read back. -/
def decodeChildren : Value → Option (List ElaboratedNode)
  | .arr cs => decodeNodes cs
  | _ => none

def decodeNodes : List Value → Option (List ElaboratedNode)
  | [] => some []
  | v :: vs => (decodeNode v).bind fun n => (decodeNodes vs).map (n :: ·)

end

/-! ## The value of a node -/

theorem foldl_set_properties (es acc : List (List Char × PropertyValue))
    (h : (acc.map Prod.fst ++ es.map Prod.fst).Nodup) :
    es.foldl (fun (props : Value) p => props.set p.1 (convertPropertyToJson p.2))
        (Value.obj (acc.map fun p => (p.1, convertPropertyToJson p.2))) =
      Value.obj ((acc ++ es).map fun p => (p.1, convertPropertyToJson p.2)) := by
  induction es generalizing acc with
  | nil => simp
  | cons e es ih =>
    have hk : e.1 ∉ acc.map Prod.fst := by
      intro he
      exact (List.nodup_append.mp h).2.2 he (List.mem_cons_self _ _)
    rw [List.foldl_cons, Value.set_obj_of_not_mem (by rw [List.map_map]; exact hk),
      show (acc.map fun p => (p.1, convertPropertyToJson p.2)) ++
        [(e.1, convertPropertyToJson e.2)] = (acc ++ [e]).map fun p => (p.1, convertPropertyToJson p.2)
        by simp, ih]
    · simp
    · simpa using h

theorem propertiesToJson_eq (m : PropertyMap) :
    propertiesToJson m = .obj (m.entries.map fun p => (p.1, convertPropertyToJson p.2)) := by
  simpa using foldl_set_properties m.entries [] (by simpa using m.nodup)

/-- The members lines 355–360 set on every node. -/
def headMembers (nodeType instName : List Char) (absoluteAddress size : UInt64) :
    List (List Char × Value) :=
  [("node_type".toList, .str nodeType), ("inst_name".toList, .str instName),
    ("absolute_address".toList, .str ('0' :: 'x' :: hexText absoluteAddress.toNat)),
    ("size".toList, .num size.toNat)]

/-- The member one of the guarded assignments of lines 363–391 sets. -/
def optionalMember (c : Prop) [Decidable c] (key : List Char) (v : Value) :
    List (List Char × Value) :=
  if c then [(key, v)] else []

/-- The members the guarded assignments of lines 363–391 set: the dimensions, the properties and
    the children, each when there is one. -/
def optionalMembers (arrayDimensions : List UInt64) (properties : PropertyMap)
    (children : List ElaboratedNode) : List (List Char × Value) :=
  optionalMember (arrayDimensions ≠ []) "array_dimensions".toList
      (.arr (arrayDimensions.map dimensionToJson)) ++
    (optionalMember (properties.entries ≠ []) "properties".toList
        (.obj (properties.entries.map fun p => (p.1, convertPropertyToJson p.2))) ++
      optionalMember (children.length > 0) "children".toList
        (.arr (convertElaboratedNodesToJson children)))

/-- The members of a node's value, in the order `convert_elaborated_node_to_json` sets them. -/
theorem convertElaboratedNodeToJson_mk (nodeType instName : List Char)
    (absoluteAddress size : UInt64) (arrayDimensions : List UInt64) (properties : PropertyMap)
    (children : List ElaboratedNode) :
    convertElaboratedNodeToJson
        (.mk nodeType instName absoluteAddress size arrayDimensions properties children) =
      .obj (headMembers nodeType instName absoluteAddress size ++
        optionalMembers arrayDimensions properties children) := by
  rw [convertElaboratedNodeToJson, propertiesToJson_eq]
  unfold optionalMembers optionalMember
  split_ifs <;> rfl

/-! ## Reading a node back -/

theorem readAddress_hexText (x : UInt64) : readAddress ('0' :: 'x' :: hexText x.toNat) = some x := by
  simp [readAddress, readDigits_hexText, UInt64.toNat_lt_size x, ofNat_toNat]

theorem asSize_num (x : UInt64) : (Value.num x.toNat).asSize = some x := by
  simp [Value.asSize, UInt64.toNat_lt_size x, ofNat_toNat]

theorem decodeDimensions_map (dims : List UInt64) :
    decodeDimensions (dims.map dimensionToJson) = some dims := by
  induction dims with
  | nil => rfl
  | cons d ds ih =>
    rw [List.map_cons, decodeDimensions, dimensionToJson, lookup_set_self, Option.some_bind,
      asSize_num, Option.some_bind, ih]
    rfl

theorem decodePropertyValue_convert (p : PropertyValue) :
    decodePropertyValue (convertPropertyToJson p) = some p.enumAsString := by
  cases p <;> rfl

theorem decodeProperties_map (m : PropertyMap) :
    decodeProperties (m.entries.map fun p => (p.1, convertPropertyToJson p.2)) =
      some m.enumsAsStrings := by
  have hm : ∀ es : List (List Char × PropertyValue),
      decodePropertyEntries (es.map fun p => (p.1, convertPropertyToJson p.2)) =
        some (es.map fun p => (p.1, p.2.enumAsString)) := by
    intro es
    induction es with
    | nil => rfl
    | cons e es ih => simp [decodePropertyEntries, decodePropertyValue_convert, ih]
  simp [decodeProperties, hm, Function.comp_def, m.nodup, PropertyMap.enumsAsStrings]

theorem PropertyMap.enumsAsStrings_of_entries_nil {m : PropertyMap} (h : m.entries = []) :
    m.enumsAsStrings = ⟨[], List.nodup_nil⟩ := by
  obtain ⟨es, _⟩ := m
  subst h
  rfl

theorem lookup_obj_append (key : List Char) (l₁ l₂ : List (List Char × Value)) :
    (Value.obj (l₁ ++ l₂)).lookup key = ((Value.obj l₁).lookup key).or ((Value.obj l₂).lookup key) := by
  simp only [Value.lookup, List.find?_append]
  cases l₁.find? (fun m => m.1 = key) <;> rfl

theorem lookup_optionalMember_self (c : Prop) [Decidable c] (key : List Char) (v : Value) :
    (Value.obj (optionalMember c key v)).lookup key = if c then some v else none := by
  unfold optionalMember
  split_ifs <;> simp [Value.lookup]

theorem lookup_optionalMember_of_ne {key key' : List Char} (h : key ≠ key') (c : Prop) [Decidable c]
    (v : Value) : (Value.obj (optionalMember c key v)).lookup key' = none := by
  unfold optionalMember
  split_ifs <;> simp [Value.lookup, h]

theorem childrenIn_optionalMember_append {key : List Char} (h : key ≠ "children".toList) (c : Prop)
    [Decidable c] (v : Value) (l : List (List Char × Value)) :
    childrenIn (optionalMember c key v ++ l) = childrenIn l := by
  unfold optionalMember
  split_ifs
  · rw [List.singleton_append, childrenIn, if_neg h]
  · rfl

theorem childrenIn_optionalMember (c : Prop) [Decidable c] (v : Value) :
    childrenIn (optionalMember c "children".toList v) = if c then decodeChildren v else some [] := by
  unfold optionalMember
  split_ifs <;> simp [childrenIn]

theorem dimensionsIn_optionalMembers (arrayDimensions : List UInt64) (properties : PropertyMap)
    (children : List ElaboratedNode) :
    dimensionsIn (.obj (optionalMembers arrayDimensions properties children)) =
      some arrayDimensions := by
  rw [optionalMembers, dimensionsIn, lookup_obj_append, lookup_obj_append,
    lookup_optionalMember_self, lookup_optionalMember_of_ne (by decide),
    lookup_optionalMember_of_ne (by decide)]
  by_cases hd : arrayDimensions = [] <;> simp [hd, decodeDimensions_map]

theorem propertiesIn_optionalMembers (arrayDimensions : List UInt64) (properties : PropertyMap)
    (children : List ElaboratedNode) :
    propertiesIn (.obj (optionalMembers arrayDimensions properties children)) =
      some properties.enumsAsStrings := by
  rw [optionalMembers, propertiesIn, lookup_obj_append, lookup_obj_append,
    lookup_optionalMember_self, lookup_optionalMember_of_ne (by decide),
    lookup_optionalMember_of_ne (by decide)]
  by_cases hp : properties.entries = [] <;>
    simp [hp, decodeProperties_map, PropertyMap.enumsAsStrings_of_entries_nil]

theorem childrenIn_optionalMembers (arrayDimensions : List UInt64) (properties : PropertyMap)
    {children : List ElaboratedNode}
    (hc : decodeNodes (convertElaboratedNodesToJson children) = some (enumsAsStringsAll children)) :
    childrenIn (optionalMembers arrayDimensions properties children) =
      some (enumsAsStringsAll children) := by
  rw [optionalMembers, childrenIn_optionalMember_append (by decide),
    childrenIn_optionalMember_append (by decide), childrenIn_optionalMember]
  cases children with
  | nil => rfl
  | cons n ns => exact (if_pos (Nat.succ_pos _)).trans hc

/-- The four members every node has are read back, and the rest is left to `dimensionsIn`,
    `propertiesIn` and `childrenIn`. -/
theorem decodeNode_headMembers_append (nodeType instName : List Char) (absoluteAddress size : UInt64)
    (rest : List (List Char × Value)) :
    decodeNode (.obj (headMembers nodeType instName absoluteAddress size ++ rest)) =
      (dimensionsIn (.obj rest)).bind fun arrayDimensions =>
        (propertiesIn (.obj rest)).bind fun properties =>
          (childrenIn rest).map
            (.mk nodeType instName absoluteAddress size arrayDimensions properties) := by
  have hd : dimensionsIn (.obj (headMembers nodeType instName absoluteAddress size ++ rest)) =
      dimensionsIn (.obj rest) := rfl
  have hp : propertiesIn (.obj (headMembers nodeType instName absoluteAddress size ++ rest)) =
      propertiesIn (.obj rest) := rfl
  have hc : childrenIn (headMembers nodeType instName absoluteAddress size ++ rest) =
      childrenIn rest := rfl
  have ha : (((Value.obj (headMembers nodeType instName absoluteAddress size ++ rest)).lookup
      "absolute_address".toList).bind Value.asString).bind readAddress = some absoluteAddress :=
    readAddress_hexText absoluteAddress
  have hs : ((Value.obj (headMembers nodeType instName absoluteAddress size ++ rest)).lookup
      "size".toList).bind Value.asSize = some size := asSize_num size
  rw [decodeNode, hd, hp, hc, ha, hs]
  simp only [Option.map_eq_bind, Function.comp_def]
  rfl

/-- One node read back, given its children are. -/
theorem decodeNode_convert_mk (nodeType instName : List Char) (absoluteAddress size : UInt64)
    (arrayDimensions : List UInt64) (properties : PropertyMap) (children : List ElaboratedNode)
    (hc : decodeNodes (convertElaboratedNodesToJson children) = some (enumsAsStringsAll children)) :
    decodeNode (convertElaboratedNodeToJson
        (.mk nodeType instName absoluteAddress size arrayDimensions properties children)) =
      some (.mk nodeType instName absoluteAddress size arrayDimensions properties.enumsAsStrings
        (enumsAsStringsAll children)) := by
  rw [convertElaboratedNodeToJson_mk, decodeNode_headMembers_append, dimensionsIn_optionalMembers,
    propertiesIn_optionalMembers, childrenIn_optionalMembers _ _ hc]
  rfl

mutual

theorem decodeNode_convert : ∀ n : ElaboratedNode,
    decodeNode (convertElaboratedNodeToJson n) = some n.enumsAsStrings
  | .mk nodeType instName absoluteAddress size arrayDimensions properties children => by
    rw [decodeNode_convert_mk _ _ _ _ _ _ _ (decodeNodes_convert children)]
    rfl

theorem decodeNodes_convert : ∀ ns : List ElaboratedNode,
    decodeNodes (convertElaboratedNodesToJson ns) = some (enumsAsStringsAll ns)
  | [] => rfl
  | n :: ns => by
    rw [convertElaboratedNodesToJson, decodeNodes, decodeNode_convert n, decodeNodes_convert ns]
    rfl

end

/-- **Decoding inverts `convert_elaborated_node_to_json`**: the value of a node gives back its
    node type, name, address, size, dimensions and children, and its properties with each
    ENUM value as its name. -/
theorem decodeNode_convertElaboratedNodeToJson (t : ElaboratedNode) :
    decodeNode (convertElaboratedNodeToJson t) = some t.enumsAsStrings :=
  decodeNode_convert t

/-! ## Nodes without properties -/

mutual

/-- Every node of the tree satisfies `p`. -/
def ElaboratedNode.all (p : ElaboratedNode → Bool) : ElaboratedNode → Bool
  | n@(.mk _ _ _ _ _ _ children) => p n && ElaboratedNode.allOf p children

def ElaboratedNode.allOf (p : ElaboratedNode → Bool) : List ElaboratedNode → Bool
  | [] => true
  | n :: ns => n.all p && ElaboratedNode.allOf p ns

end

/-- The node's property map is empty. -/
def ElaboratedNode.hasNoProperties : ElaboratedNode → Bool
  | .mk _ _ _ _ _ properties _ => properties.entries.isEmpty

/-- The node's type and name hold no raw control character, and its size and dimensions are
    below `2^63`, so `add_number` writes them unchanged. -/
def ElaboratedNode.writable : ElaboratedNode → Bool
  | .mk nodeType instName _ size arrayDimensions _ _ =>
    noRawControl nodeType && noRawControl instName && size.toNat < 2 ^ 63 &&
      arrayDimensions.all fun dim => dim.toNat < 2 ^ 63

/-- One entry of `"array_dimensions"` as `pre_visit` writes it (lines 218–222). -/
def dimensionDoc (dim : UInt64) : Doc := .obj [.num "size".toList (toLongLong dim)]

mutual

/-- The value `pre_visit`, the traversal of the children and `post_visit` write for a node
    without properties. -/
def elaboratedNodeDoc : ElaboratedNode → Doc
  | .mk nodeType instName absoluteAddress size arrayDimensions _ children =>
    .obj ([.str "node_type".toList nodeType, .str "inst_name".toList instName,
        .hex "absolute_address".toList absoluteAddress, .num "size".toList (toLongLong size)] ++
      (if arrayDimensions ≠ [] then
        [.arr "array_dimensions".toList (arrayDimensions.map dimensionDoc)] else []) ++
      if children.length > 0 then [.arr "children".toList (elaboratedNodeDocs children)] else [])

def elaboratedNodeDocs : List ElaboratedNode → List Doc
  | [] => []
  | n :: ns => elaboratedNodeDoc n :: elaboratedNodeDocs ns

end

/-- The value `convert_to_json` writes for a tree without properties. -/
def modelJsonDoc (root : ElaboratedNode) : Doc :=
  .obj [.str "format".toList "SystemRDL_ElaboratedModel".toList,
    .str "version".toList "1.0".toList, .arr "model".toList [elaboratedNodeDoc root]]

theorem docsCalls_map_dimensionDoc (dims : List UInt64) :
    docsCalls (dims.map dimensionDoc) = dims.flatMap fun dim =>
      [.startObject, .addNumber "size".toList (toLongLong dim), .endObject] := by
  induction dims with
  | nil => rfl
  | cons d ds ih => simp [docsCalls, ih, dimensionDoc, Doc.calls, membersCalls, Member.calls]

mutual

theorem traverse_eq_calls : ∀ n : ElaboratedNode, n.all ElaboratedNode.hasNoProperties = true →
    traverse n = (elaboratedNodeDoc n).calls
  | .mk nodeType instName absoluteAddress size arrayDimensions properties children, h => by
    simp only [ElaboratedNode.all, ElaboratedNode.hasNoProperties, Bool.and_eq_true,
      List.isEmpty_iff] at h
    rw [traverse, preVisit, postVisit, elaboratedNodeDoc, traverseAll_eq_calls children h.2]
    simp only [h.1, ne_eq, not_true_eq_false, if_false, List.append_nil]
    split_ifs <;> simp [Doc.calls, membersCalls_append, membersCalls, Member.calls,
      docsCalls_map_dimensionDoc]
    all_goals (rename_i hch; rw [List.eq_nil_of_length_eq_zero (Nat.eq_zero_of_not_pos hch)]; rfl)

theorem traverseAll_eq_calls : ∀ ns : List ElaboratedNode,
    ElaboratedNode.allOf ElaboratedNode.hasNoProperties ns = true →
    traverseAll ns = docsCalls (elaboratedNodeDocs ns)
  | [], _ => rfl
  | n :: ns, h => by
    simp only [ElaboratedNode.allOf, Bool.and_eq_true] at h
    rw [traverseAll, elaboratedNodeDocs, docsCalls, traverse_eq_calls n h.1, traverseAll_eq_calls ns h.2]

end

mutual

theorem elaboratedNodeDoc_arrayKeysNonEmpty : ∀ n : ElaboratedNode, (elaboratedNodeDoc n).arrayKeysNonEmpty = true
  | .mk _ _ _ _ arrayDimensions _ children => by
    have h := elaboratedNodeDocs_arrayKeysNonEmpty children
    have hd : docsArrayKeysNonEmpty (arrayDimensions.map dimensionDoc) = true := by
      induction arrayDimensions with
      | nil => rfl
      | cons d ds ih => simp [docsArrayKeysNonEmpty, ih, dimensionDoc, Doc.arrayKeysNonEmpty,
          membersArrayKeysNonEmpty, Member.arrayKeysNonEmpty]
    rw [elaboratedNodeDoc]
    split_ifs <;> simp [Doc.arrayKeysNonEmpty, membersArrayKeysNonEmpty, Member.arrayKeysNonEmpty,
      membersArrayKeysNonEmpty_append, h, hd]

theorem elaboratedNodeDocs_arrayKeysNonEmpty : ∀ ns : List ElaboratedNode,
    docsArrayKeysNonEmpty (elaboratedNodeDocs ns) = true
  | [] => rfl
  | n :: ns => by
    simp [elaboratedNodeDocs, docsArrayKeysNonEmpty, elaboratedNodeDoc_arrayKeysNonEmpty n,
      elaboratedNodeDocs_arrayKeysNonEmpty ns]

end

theorem docsEscapable_map_dimensionDoc (dims : List UInt64) :
    docsEscapable (dims.map dimensionDoc) = true := by
  induction dims with
  | nil => rfl
  | cons d ds ih =>
    simp +decide [docsEscapable, ih, dimensionDoc, Doc.escapable, membersEscapable,
      Member.escapable]

theorem docsValue_map_dimensionDoc {dims : List UInt64} (h : ∀ dim ∈ dims, dim.toNat < 2 ^ 63) :
    docsValue (dims.map dimensionDoc) = dims.map dimensionToJson := by
  induction dims with
  | nil => rfl
  | cons d ds ih =>
    simp only [List.mem_cons, forall_eq_or_imp] at h
    simp [docsValue, ih h.2, dimensionDoc, Doc.value, membersValue, Member.value, Member.key,
      dimensionToJson, Value.set, toLongLong_of_lt h.1]

mutual

theorem elaboratedNodeDoc_escapable : ∀ n : ElaboratedNode, n.all ElaboratedNode.writable = true →
    (elaboratedNodeDoc n).escapable = true
  | .mk nodeType instName _ _ arrayDimensions _ children, h => by
    simp only [ElaboratedNode.all, ElaboratedNode.writable, Bool.and_eq_true] at h
    have hc := elaboratedNodeDocs_escapable children h.2
    rw [elaboratedNodeDoc]
    split_ifs <;> simp +decide [Doc.escapable, membersEscapable_append, membersEscapable,
      Member.escapable, docsEscapable_map_dimensionDoc, noRawControl_hexValue, h.1.1.1.1,
      h.1.1.1.2, hc]

theorem elaboratedNodeDocs_escapable : ∀ ns : List ElaboratedNode,
    ElaboratedNode.allOf ElaboratedNode.writable ns = true →
    docsEscapable (elaboratedNodeDocs ns) = true
  | [], _ => rfl
  | n :: ns, h => by
    simp only [ElaboratedNode.allOf, Bool.and_eq_true] at h
    simp [elaboratedNodeDocs, docsEscapable, elaboratedNodeDoc_escapable n h.1,
      elaboratedNodeDocs_escapable ns h.2]

end

mutual

theorem elaboratedNodeDoc_value : ∀ n : ElaboratedNode, n.all ElaboratedNode.writable = true →
    n.all ElaboratedNode.hasNoProperties = true →
    (elaboratedNodeDoc n).value = convertElaboratedNodeToJson n
  | .mk nodeType instName absoluteAddress size arrayDimensions properties children, hw, hp => by
    simp only [ElaboratedNode.all, ElaboratedNode.writable, ElaboratedNode.hasNoProperties,
      Bool.and_eq_true, decide_eq_true_eq, List.all_eq_true, List.isEmpty_iff] at hw hp
    obtain ⟨⟨⟨-, hsize⟩, hdims⟩, hw⟩ := hw
    have hc := elaboratedNodeDocs_value children hw hp.2
    rw [elaboratedNodeDoc, convertElaboratedNodeToJson_mk]
    unfold optionalMembers optionalMember
    simp only [hp.1, ne_eq, not_true_eq_false, if_false, List.nil_append]
    split_ifs <;> simp [Doc.value, membersValue_append, membersValue, Member.value, Member.key,
      headMembers, toLongLong_of_lt hsize, docsValue_map_dimensionDoc hdims, hc]

theorem elaboratedNodeDocs_value : ∀ ns : List ElaboratedNode,
    ElaboratedNode.allOf ElaboratedNode.writable ns = true →
    ElaboratedNode.allOf ElaboratedNode.hasNoProperties ns = true →
    docsValue (elaboratedNodeDocs ns) = convertElaboratedNodesToJson ns
  | [], _, _ => rfl
  | n :: ns, hw, hp => by
    simp only [ElaboratedNode.allOf, Bool.and_eq_true] at hw hp
    simp [elaboratedNodeDocs, docsValue, convertElaboratedNodesToJson,
      elaboratedNodeDoc_value n hw.1 hp.1, elaboratedNodeDocs_value ns hw.2 hp.2]

end

/-- **Without properties the text reads back as the `nlohmann` document**: for a tree with no
    property in any node, whose types and names hold no raw control character and whose sizes
    and dimensions are below `2^63`, the text `convert_to_json` returns is well-formed JSON, and
    it is the document `systemrdl::elaborate` dumps. -/
theorem parseJson_convertToJson_of_noProperties (root : ElaboratedNode)
    (hp : root.all ElaboratedNode.hasNoProperties = true)
    (hw : root.all ElaboratedNode.writable = true) :
    parseJson (ElaboratedModelToJsonConverter.convertToJson root) = some (elaboratedDocument root) := by
  have hcalls : ElaboratedModelToJsonConverter.convertToJson root =
      (JsonBuilder.init.run (modelJsonDoc root).calls).toString := by
    simp [ElaboratedModelToJsonConverter.convertToJson, modelJsonDoc, Doc.calls, membersCalls,
      Member.calls, docsCalls, traverse_eq_calls root hp]
  have hk : (modelJsonDoc root).arrayKeysNonEmpty = true := by
    simp [modelJsonDoc, Doc.arrayKeysNonEmpty, membersArrayKeysNonEmpty, Member.arrayKeysNonEmpty,
      docsArrayKeysNonEmpty, elaboratedNodeDoc_arrayKeysNonEmpty]
  have he : (modelJsonDoc root).escapable = true := by
    simp +decide [modelJsonDoc, Doc.escapable, membersEscapable, Member.escapable, docsEscapable,
      elaboratedNodeDoc_escapable root hw]
  rw [hcalls, parseJson_toString_calls _ hk he]
  simp [modelJsonDoc, elaboratedDocument, Doc.value, membersValue, Member.value, Member.key,
    docsValue, elaboratedNodeDoc_value root hw hp, Value.set, setMember, Value.pushBack]

/-- An address map `top` at `0x1000` with one dimension and a register `r`, no properties. -/
def registerMap : ElaboratedNode :=
  .mk "addrmap".toList "top".toList 0x1000 16 [2] ⟨[], List.nodup_nil⟩
    [.mk "reg".toList "r".toList 0x1000 4 [] ⟨[], List.nodup_nil⟩ []]

theorem parseJson_convertToJson_registerMap :
    registerMap.all ElaboratedNode.hasNoProperties = true ∧
      registerMap.all ElaboratedNode.writable = true ∧
      parseJson (ElaboratedModelToJsonConverter.convertToJson registerMap) =
        some (elaboratedDocument registerMap) :=
  ⟨by decide, by decide, parseJson_convertToJson_of_noProperties registerMap (by decide) (by decide)⟩

end SystemRdlToolkit.Json
