import SystemRdlToolkit.Json.ModelJson
import SystemRdlToolkit.Json.Rejected

/-!
# The elaborated model's text with properties

`pre_visit` (`src/unnamed/part_006`, lines 206–239) opens the property section of a node with
`start_object()`, which writes no key, inside the node's object. This module shows that the
text `ElaboratedModelToJsonConverter::convert_to_json` returns is then rejected, for every tree
in which some node has a property, whatever the tree's names, sizes and shape.

The proof follows the traversal to the first node with a property in pre-order. The nodes
written before it have no property, so their calls are the canonical calls of values; each of
its ancestors is an object left open in the middle of its `"children"` array; and the node's
own `{` after its members is a member without a key, which no continuation repairs.

Results:

* `traverse_rejected`, `traverseAll_rejected`: from any builder state, the traversal of a tree
  (of a list of trees) with a property starts by writing tokens that no continuation makes a
  value (the elements of an array);
* `parseJson_convertToJson_of_properties`: the text `convert_to_json` returns for such a tree is
  rejected.
-/

namespace SystemRdlToolkit.Json

/-! ## What `pre_visit` writes -/

/-- The members `pre_visit` writes before the property section (lines 207–224). -/
def preVisitMembers (nodeType instName : List Char) (absoluteAddress size : UInt64)
    (arrayDimensions : List UInt64) : List Member :=
  [.str "node_type".toList nodeType, .str "inst_name".toList instName,
    .hex "absolute_address".toList absoluteAddress, .num "size".toList (toLongLong size)] ++
  if arrayDimensions ≠ [] then [.arr "array_dimensions".toList (arrayDimensions.map dimensionDoc)]
  else []

section Node

variable (nodeType instName : List Char) (absoluteAddress size : UInt64)
  (arrayDimensions : List UInt64) (properties : PropertyMap) (children : List ElaboratedNode)

theorem preVisitMembers_ne_nil :
    preVisitMembers nodeType instName absoluteAddress size arrayDimensions ≠ [] := by
  simp [preVisitMembers]

theorem preVisitMembers_arrayKeysNonEmpty :
    membersArrayKeysNonEmpty
      (preVisitMembers nodeType instName absoluteAddress size arrayDimensions) = true := by
  have hd : docsArrayKeysNonEmpty (arrayDimensions.map dimensionDoc) = true := by
    induction arrayDimensions with
    | nil => rfl
    | cons d ds ih => simp [docsArrayKeysNonEmpty, ih, dimensionDoc, Doc.arrayKeysNonEmpty,
        membersArrayKeysNonEmpty, Member.arrayKeysNonEmpty]
  unfold preVisitMembers
  split_ifs <;> simp [membersArrayKeysNonEmpty_append, membersArrayKeysNonEmpty,
    Member.arrayKeysNonEmpty, hd]

theorem preVisit_eq :
    preVisit (.mk nodeType instName absoluteAddress size arrayDimensions properties children) =
      .startObject ::
        membersCalls (preVisitMembers nodeType instName absoluteAddress size arrayDimensions) ++
      ((if properties.entries ≠ [] then
        .startObject :: .addString "_section".toList "properties".toList ::
          properties.entries.map (fun p => writeProperty p.1 p.2) ++ [.endObject]
      else []) ++
      if children.length > 0 then [.startArray "children".toList] else []) := by
  rw [preVisit, preVisitMembers]
  split_ifs <;> simp [membersCalls_append, membersCalls, Member.calls, docsCalls_map_dimensionDoc]

end Node

/-! ## The traversal of a tree with a property -/

mutual

/-- **The traversal of a tree with a property is rejected**: from any state, it starts by
    writing `{` and tokens that no continuation makes a value. -/
theorem traverse_rejected : ∀ n : ElaboratedNode, n.all ElaboratedNode.hasNoProperties = false →
    ∀ b : JsonBuilder, ∃ ts, Fails (.lbrace :: ts) ∧
      StartsWriting b (traverse n) (commaIf b.firstItem ++ .lbrace :: ts)
  | .mk nodeType instName absoluteAddress size arrayDimensions properties children, h, b => by
    have hk := preVisitMembers_arrayKeysNonEmpty nodeType instName absoluteAddress size
      arrayDimensions
    have hms := preVisitMembers_ne_nil nodeType instName absoluteAddress size arrayDimensions
    rw [traverse, preVisit_eq]
    by_cases hp : properties.entries = []
    · -- a child has a property: the node is left open in its `"children"` array
      have hc : ElaboratedNode.allOf ElaboratedNode.hasNoProperties children = false := by
        simpa [ElaboratedNode.all, ElaboratedNode.hasNoProperties, hp] using h
      have hne : children.length > 0 := by
        cases children with
        | nil => simp [ElaboratedNode.allOf] at hc
        | cons => simp
      obtain ⟨toks, he, hs⟩ := traverseAll_rejected children hc _
      simp only [JsonBuilder.startArray_firstItem, commaIf, List.nil_append] at hs
      simpa [hp, hne] using startsWriting_arrayInObject hk hms (by decide) he (hs.append _)
    · -- the node's own property section: `{` where a key is due
      simpa [hp, List.append_assoc] using startsWriting_objectInObject (b := b) hk hms _

/-- From any state, the traversal of trees of which one has a property starts by writing
    tokens that no continuation makes the elements of an array. -/
theorem traverseAll_rejected : ∀ ns : List ElaboratedNode,
    ElaboratedNode.allOf ElaboratedNode.hasNoProperties ns = false →
    ∀ b : JsonBuilder, ∃ toks, ElemsFail toks ∧
      StartsWriting b (traverseAll ns) (commaIf b.firstItem ++ toks)
  | [], h, _ => absurd h (by simp [ElaboratedNode.allOf])
  | n :: ns, h, b => by
    rw [traverseAll]
    by_cases hn : n.all ElaboratedNode.hasNoProperties = true
    · -- `n` is a value written whole; the property is further on
      have hns : ElaboratedNode.allOf ElaboratedNode.hasNoProperties ns = false := by
        simpa [ElaboratedNode.allOf, hn] using h
      have hd := Doc.emits_calls (elaboratedNodeDoc n) b (elaboratedNodeDoc_arrayKeysNonEmpty n)
      rw [← traverse_eq_calls n hn] at hd
      obtain ⟨toks, he, hs⟩ := traverseAll_rejected ns hns (b.run (traverse n))
      rw [hd.2.1] at hs
      exact ⟨_, elemsFail_doc_comma _ he, by simpa [commaIf] using hd.2.2.startsWriting hs⟩
    · obtain ⟨ts, hf, hs⟩ := traverse_rejected n (by simpa using hn) b
      exact ⟨_, elemsFail_of_fails hf ⟨_, _, rfl, by decide⟩, hs.append _⟩

end

/-! ## The text `convert_to_json` returns -/

/-- The members `convert_to_json` writes before `"model"` (lines 252–254). -/
def convertToJsonHeader : List Member :=
  [.str "format".toList "SystemRDL_ElaboratedModel".toList, .str "version".toList "1.0".toList]

/-- **A property makes the text rejected**: for every tree in which some node has a property,
    the text `convert_to_json` returns is not well-formed JSON. -/
theorem parseJson_convertToJson_of_properties (root : ElaboratedNode)
    (h : root.all ElaboratedNode.hasNoProperties = false) :
    parseJson (ElaboratedModelToJsonConverter.convertToJson root) = none := by
  obtain ⟨ts, hf, hs⟩ := traverse_rejected root h
    ((JsonBuilder.init.run (.startObject :: membersCalls convertToJsonHeader)).startArray
      "model".toList)
  simp only [JsonBuilder.startArray_firstItem, commaIf, List.nil_append] at hs
  obtain ⟨_, hf', text, rest, hj, hl, -, -⟩ := startsWriting_arrayInObject (b := .init) (by rfl)
    (by simp [convertToJsonHeader]) (by decide) (elemsFail_of_fails hf ⟨_, _, rfl, by decide⟩)
    (hs.append [.endArray, .endObject])
  have hcalls : ElaboratedModelToJsonConverter.convertToJson root =
      (JsonBuilder.init.run (.startObject :: membersCalls convertToJsonHeader ++
        .startArray "model".toList :: (traverse root ++ [.endArray, .endObject]))).toString := by
    simp [ElaboratedModelToJsonConverter.convertToJson, convertToJsonHeader, membersCalls,
      Member.calls]
  rw [hcalls, JsonBuilder.toString, hj]
  exact parseJson_of_fails (by simpa [JsonBuilder.init, commaIf] using hl) hf' rest

/-- An address map `top` without properties holding a register `r` with the property
    `regwidth = 32`. -/
def regwidthMap : ElaboratedNode :=
  .mk "addrmap".toList "top".toList 0 8 [] ⟨[], List.nodup_nil⟩
    [.mk "reg".toList "r".toList 0 4 [] ⟨[("regwidth".toList, .integer 32)], by decide⟩ []]

theorem parseJson_convertToJson_regwidthMap :
    regwidthMap.all ElaboratedNode.hasNoProperties = false ∧
      parseJson (ElaboratedModelToJsonConverter.convertToJson regwidthMap) = none :=
  ⟨by decide, parseJson_convertToJson_of_properties regwidthMap (by decide)⟩

end SystemRdlToolkit.Json
