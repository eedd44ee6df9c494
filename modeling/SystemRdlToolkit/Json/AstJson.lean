import SystemRdlToolkit.Json.Rejected

/-!
# The parse tree in JSON

The two writers of the ANTLR parse tree: `ASTToJsonConverter` of `json_output.h`
(`src/unnamed/part_006`, lines 122–176), which drives a `JsonBuilder`, and
`convert_ast_to_json` with `systemrdl::parse` of `src/parser_main.cpp` (lines 296–332 and
396–419), which build an `nlohmann::json` value and dump it.

Line and column numbers are `size_t`; `add_number` takes them as `long long` (`toLongLong`),
`nlohmann::json` keeps them unsigned.

The converter's calls are those of a `Doc` (`parseTreeDoc`), so what the text means follows
from `parseJson_toString_calls`.

Results:

* `parseJson_convertToJson_of_escapable`: when no rule name or text holds a raw control
  character and every position is below `2^63`, the text `convert_to_json` returns is
  well-formed JSON and reads back as exactly the document `systemrdl::parse` builds;
* `parseJson_convertToJson_control`: a terminal whose text is the control character U+0001
  is written raw inside a string by `JsonBuilder::escape_string`, so the text
  `convert_to_json` returns is not well-formed JSON, while the `nlohmann` document holds the
  text as a string;
* `parseJson_convertToJson_of_raw`: the same holds for every tree with such a character in any
  rule name or text, whatever its positions; with the first result, for trees whose positions
  are below `2^63` the text is well-formed exactly when no rule name or text holds one.
-/

namespace SystemRdlToolkit.Json

/-! ## Parse trees -/

/-- The parse tree as the converters read it: a rule context (its rule name, text, start and
    stop token positions and children) or a terminal node (text and position). -/
inductive ParseTree where
  | rule (ruleName text : List Char) (startLine startColumn stopLine stopColumn : UInt64)
      (children : List ParseTree)
  | terminal (text : List Char) (line column : UInt64)

/-! ## `ASTToJsonConverter` -/

mutual

/-- `ASTToJsonConverter::convert_node` (lines 127–160): its calls on `json_`. -/
def convertNode : ParseTree → List Call
  | .rule ruleName text startLine startColumn stopLine stopColumn children =>
    [.startObject, .addString "type".toList "rule".toList, .addString "rule_name".toList ruleName,
      .addString "text".toList text, .addNumber "start_line".toList (toLongLong startLine),
      .addNumber "start_column".toList (toLongLong startColumn),
      .addNumber "stop_line".toList (toLongLong stopLine),
      .addNumber "stop_column".toList (toLongLong stopColumn)] ++
    (if children.length > 0 then
      .startArray "children".toList :: convertNodes children ++ [.endArray]
    else []) ++
    [.endObject]
  | .terminal text line column =>
    [.startObject, .addString "type".toList "terminal".toList, .addString "text".toList text,
      .addNumber "line".toList (toLongLong line), .addNumber "column".toList (toLongLong column),
      .endObject]

/-- The loop over the children (lines 146–148). -/
def convertNodes : List ParseTree → List Call
  | [] => []
  | t :: ts => convertNode t ++ convertNodes ts

end

/-- `ASTToJsonConverter::convert_to_json` (lines 163–175), on a fresh converter. -/
def ASTToJsonConverter.convertToJson (tree : ParseTree) : List Char :=
  (JsonBuilder.init.run
    ([.startObject, .addString "format".toList "SystemRDL_AST".toList,
      .addString "version".toList "1.0".toList, .startArray "ast".toList] ++
      convertNode tree ++ [.endArray, .endObject])).toString

/-! ## `convert_ast_to_json` -/

mutual

/-- `convert_ast_to_json` (`src/parser_main.cpp`, lines 297–331). -/
def convertAstToJson : ParseTree → Value
  | .rule ruleName text startLine startColumn stopLine stopColumn children =>
    let node := ((((((Value.null.set "type".toList (.str "rule".toList)).set "rule_name".toList
      (.str ruleName)).set "text".toList (.str text)).set "start_line".toList
      (.num startLine.toNat)).set "start_column".toList (.num startColumn.toNat)).set
      "stop_line".toList (.num stopLine.toNat)).set "stop_column".toList (.num stopColumn.toNat)
    if children.length > 0 then node.set "children".toList (.arr (convertAstsToJson children))
    else node
  | .terminal text line column =>
    (((Value.null.set "type".toList (.str "terminal".toList)).set "text".toList (.str text)).set
      "line".toList (.num line.toNat)).set "column".toList (.num column.toNat)

/-- The children pushed back in order (lines 314–317). -/
def convertAstsToJson : List ParseTree → List Value
  | [] => []
  | t :: ts => convertAstToJson t :: convertAstsToJson ts

end

/-- The document `systemrdl::parse` dumps (`src/parser_main.cpp`, lines 408–415). -/
def astDocument (tree : ParseTree) : Value :=
  ((Value.null.set "format".toList (.str "SystemRDL_AST".toList)).set "version".toList
    (.str "1.0".toList)).set "ast".toList ((Value.arr []).pushBack (convertAstToJson tree))

/-! ## The document as the builder's value -/

mutual

/-- The value `convert_node` writes for a tree. -/
def parseTreeDoc : ParseTree → Doc
  | .rule ruleName text startLine startColumn stopLine stopColumn children =>
    .obj ([.str "type".toList "rule".toList, .str "rule_name".toList ruleName,
        .str "text".toList text, .num "start_line".toList (toLongLong startLine),
        .num "start_column".toList (toLongLong startColumn),
        .num "stop_line".toList (toLongLong stopLine),
        .num "stop_column".toList (toLongLong stopColumn)] ++
      if children.length > 0 then [.arr "children".toList (parseTreeDocs children)] else [])
  | .terminal text line column =>
    .obj [.str "type".toList "terminal".toList, .str "text".toList text,
      .num "line".toList (toLongLong line), .num "column".toList (toLongLong column)]

def parseTreeDocs : List ParseTree → List Doc
  | [] => []
  | t :: ts => parseTreeDoc t :: parseTreeDocs ts

end

/-- The value `convert_to_json` writes. -/
def astJsonDoc (tree : ParseTree) : Doc :=
  .obj [.str "format".toList "SystemRDL_AST".toList, .str "version".toList "1.0".toList,
    .arr "ast".toList [parseTreeDoc tree]]

mutual

/-- Every rule name and text holds no raw control character. -/
def ParseTree.escapable : ParseTree → Bool
  | .rule ruleName text _ _ _ _ children => noRawControl ruleName && noRawControl text &&
      ParseTree.escapableAll children
  | .terminal text _ _ => noRawControl text

def ParseTree.escapableAll : List ParseTree → Bool
  | [] => true
  | t :: ts => t.escapable && ParseTree.escapableAll ts

end

mutual

/-- Every line and column is below `2^63`, so `add_number` writes it unchanged. -/
def ParseTree.positionsFit : ParseTree → Bool
  | .rule _ _ startLine startColumn stopLine stopColumn children =>
    startLine.toNat < 2 ^ 63 && startColumn.toNat < 2 ^ 63 && stopLine.toNat < 2 ^ 63 &&
      stopColumn.toNat < 2 ^ 63 && ParseTree.positionsFitAll children
  | .terminal _ line column => line.toNat < 2 ^ 63 && column.toNat < 2 ^ 63

def ParseTree.positionsFitAll : List ParseTree → Bool
  | [] => true
  | t :: ts => t.positionsFit && ParseTree.positionsFitAll ts

end

mutual

theorem convertNode_eq_calls : ∀ t : ParseTree, convertNode t = (parseTreeDoc t).calls
  | .rule ruleName text startLine startColumn stopLine stopColumn children => by
    rw [convertNode, parseTreeDoc, convertNodes_eq_calls children]
    split_ifs <;> simp [Doc.calls, membersCalls_append, membersCalls, Member.calls]
  | .terminal text line column => rfl

theorem convertNodes_eq_calls : ∀ ts : List ParseTree, convertNodes ts = docsCalls (parseTreeDocs ts)
  | [] => rfl
  | t :: ts => by
    rw [convertNodes, parseTreeDocs, docsCalls, convertNode_eq_calls t, convertNodes_eq_calls ts]

end

theorem convertToJson_eq_calls (tree : ParseTree) :
    ASTToJsonConverter.convertToJson tree = (JsonBuilder.init.run (astJsonDoc tree).calls).toString := by
  simp [ASTToJsonConverter.convertToJson, astJsonDoc, Doc.calls, membersCalls, Member.calls,
    docsCalls, convertNode_eq_calls]

mutual

theorem parseTreeDoc_arrayKeysNonEmpty : ∀ t : ParseTree, (parseTreeDoc t).arrayKeysNonEmpty = true
  | .rule _ _ _ _ _ _ children => by
    have h := parseTreeDocs_arrayKeysNonEmpty children
    rw [parseTreeDoc]
    split_ifs <;> simp [Doc.arrayKeysNonEmpty, membersArrayKeysNonEmpty, Member.arrayKeysNonEmpty,
      docsArrayKeysNonEmpty, h]
  | .terminal .. => rfl

theorem parseTreeDocs_arrayKeysNonEmpty : ∀ ts : List ParseTree,
    docsArrayKeysNonEmpty (parseTreeDocs ts) = true
  | [] => rfl
  | t :: ts => by
    simp [parseTreeDocs, docsArrayKeysNonEmpty, parseTreeDoc_arrayKeysNonEmpty t,
      parseTreeDocs_arrayKeysNonEmpty ts]

end

mutual

theorem parseTreeDoc_escapable : ∀ t : ParseTree, t.escapable = true → (parseTreeDoc t).escapable = true
  | .rule ruleName text _ _ _ _ children, h => by
    simp only [ParseTree.escapable, Bool.and_eq_true] at h
    have hc := parseTreeDocs_escapable children h.2
    rw [parseTreeDoc]
    split_ifs <;>
      simp +decide [Doc.escapable, membersEscapable, Member.escapable, docsEscapable, h.1, hc]
  | .terminal text _ _, h => by
    simp only [ParseTree.escapable] at h
    simp +decide [parseTreeDoc, Doc.escapable, membersEscapable, Member.escapable, h]

theorem parseTreeDocs_escapable : ∀ ts : List ParseTree, ParseTree.escapableAll ts = true →
    docsEscapable (parseTreeDocs ts) = true
  | [], _ => rfl
  | t :: ts, h => by
    simp only [ParseTree.escapableAll, Bool.and_eq_true] at h
    simp [parseTreeDocs, docsEscapable, parseTreeDoc_escapable t h.1, parseTreeDocs_escapable ts h.2]

end

mutual

theorem parseTreeDoc_value : ∀ t : ParseTree, t.positionsFit = true →
    (parseTreeDoc t).value = convertAstToJson t
  | .rule ruleName text startLine startColumn stopLine stopColumn children, h => by
    simp only [ParseTree.positionsFit, Bool.and_eq_true, decide_eq_true_eq] at h
    obtain ⟨⟨⟨⟨h₁, h₂⟩, h₃⟩, h₄⟩, h₅⟩ := h
    have hc := parseTreeDocs_value children h₅
    rw [parseTreeDoc, convertAstToJson]
    split_ifs <;> simp [Doc.value, membersValue, Member.value, Member.key, Value.set, setMember,
      toLongLong_of_lt h₁, toLongLong_of_lt h₂, toLongLong_of_lt h₃, toLongLong_of_lt h₄, hc]
  | .terminal text line column, h => by
    simp only [ParseTree.positionsFit, Bool.and_eq_true, decide_eq_true_eq] at h
    simp [parseTreeDoc, convertAstToJson, Doc.value, membersValue, Member.value, Member.key, Value.set,
      setMember, toLongLong_of_lt h.1, toLongLong_of_lt h.2]

theorem parseTreeDocs_value : ∀ ts : List ParseTree, ParseTree.positionsFitAll ts = true →
    docsValue (parseTreeDocs ts) = convertAstsToJson ts
  | [], _ => rfl
  | t :: ts, h => by
    simp only [ParseTree.positionsFitAll, Bool.and_eq_true] at h
    simp [parseTreeDocs, docsValue, convertAstsToJson, parseTreeDoc_value t h.1, parseTreeDocs_value ts h.2]

end

/-- **The text reads back as the `nlohmann` document**: for a tree whose texts hold no raw
    control character and whose positions are below `2^63`, the text `convert_to_json`
    returns is well-formed JSON, and it is the document `systemrdl::parse` builds. -/
theorem parseJson_convertToJson_of_escapable (tree : ParseTree) (hc : tree.escapable = true)
    (hp : tree.positionsFit = true) :
    parseJson (ASTToJsonConverter.convertToJson tree) = some (astDocument tree) := by
  have hk : (astJsonDoc tree).arrayKeysNonEmpty = true := by
    simp [astJsonDoc, Doc.arrayKeysNonEmpty, membersArrayKeysNonEmpty, Member.arrayKeysNonEmpty,
      docsArrayKeysNonEmpty, parseTreeDoc_arrayKeysNonEmpty]
  have he : (astJsonDoc tree).escapable = true := by
    simp +decide [astJsonDoc, Doc.escapable, membersEscapable, Member.escapable, docsEscapable,
      parseTreeDoc_escapable tree hc]
  rw [convertToJson_eq_calls, parseJson_toString_calls _ hk he]
  simp [astJsonDoc, astDocument, Doc.value, membersValue, Member.value, Member.key, docsValue,
    parseTreeDoc_value tree hp, Value.set, setMember, Value.pushBack]

/-- A rule with one terminal child. -/
theorem parseJson_convertToJson_of_escapable_rule :
    (ParseTree.rule "root".toList "x".toList 1 0 1 1 [.terminal "x".toList 1 0]).escapable = true ∧
      (ParseTree.rule "root".toList "x".toList 1 0 1 1 [.terminal "x".toList 1 0]).positionsFit =
        true ∧
      parseJson (ASTToJsonConverter.convertToJson
          (.rule "root".toList "x".toList 1 0 1 1 [.terminal "x".toList 1 0])) =
        some (astDocument (.rule "root".toList "x".toList 1 0 1 1 [.terminal "x".toList 1 0])) :=
  ⟨by decide, by decide, parseJson_convertToJson_of_escapable _ (by decide) (by decide)⟩

/-! ## A control character in a text -/

/-- A terminal whose text is the control character U+0001. -/
def controlTerminal : ParseTree := .terminal [Char.ofNat 1] 1 0

set_option maxRecDepth 8000 in
/-- The text `convert_to_json` returns for `controlTerminal` is not well-formed JSON; the
    `nlohmann` document holds the text as a string. -/
theorem parseJson_convertToJson_control :
    parseJson (ASTToJsonConverter.convertToJson controlTerminal) = none ∧
      ((astDocument controlTerminal).lookup "ast".toList).bind
          (fun ast => match ast with
            | .arr [node] => node.lookup "text".toList
            | _ => none) =
        some (.str [Char.ofNat 1]) := by
  constructor <;> rfl

/-! ## Raw control characters anywhere in the tree -/

mutual

theorem parseTreeDoc_escapable_eq : ∀ t : ParseTree, (parseTreeDoc t).escapable = t.escapable
  | .rule ruleName text _ _ _ _ children => by
    rw [parseTreeDoc, ParseTree.escapable, ← parseTreeDocs_escapable_eq children]
    split_ifs with hc
    · simp [Doc.escapable, membersEscapable, Member.escapable, noRawControl, Bool.and_assoc]
    · obtain rfl : children = [] := List.eq_nil_of_length_eq_zero (by omega)
      simp [Doc.escapable, membersEscapable, Member.escapable, parseTreeDocs, docsEscapable,
        noRawControl, Bool.and_assoc]
  | .terminal text _ _ => by
    simp [parseTreeDoc, Doc.escapable, membersEscapable, Member.escapable, ParseTree.escapable,
      noRawControl]

theorem parseTreeDocs_escapable_eq : ∀ ts : List ParseTree,
    docsEscapable (parseTreeDocs ts) = ParseTree.escapableAll ts
  | [] => rfl
  | t :: ts => by
    rw [parseTreeDocs, docsEscapable, ParseTree.escapableAll, parseTreeDoc_escapable_eq t,
      parseTreeDocs_escapable_eq ts]

end

/-- **A raw control character anywhere makes the text rejected**: for every tree in which some
    rule name or text holds a character below U+0020 other than line feed, carriage return and
    tab, the text `convert_to_json` returns is not well-formed JSON. -/
theorem parseJson_convertToJson_of_raw (tree : ParseTree) (hc : tree.escapable = false) :
    parseJson (ASTToJsonConverter.convertToJson tree) = none := by
  have hk : (astJsonDoc tree).arrayKeysNonEmpty = true := by
    simp [astJsonDoc, Doc.arrayKeysNonEmpty, membersArrayKeysNonEmpty, Member.arrayKeysNonEmpty,
      docsArrayKeysNonEmpty, parseTreeDoc_arrayKeysNonEmpty]
  have he : (astJsonDoc tree).escapable = false := by
    simp +decide [astJsonDoc, Doc.escapable, membersEscapable, Member.escapable, docsEscapable,
      parseTreeDoc_escapable_eq, hc]
  rw [convertToJson_eq_calls, parseJson_toString_calls_of_raw _ hk he]

/-- A rule whose text holds an escape character (U+001B), with a terminal holding it too. -/
def escapeRule : ParseTree :=
  .rule "string_literal".toList ['"', Char.ofNat 27, '"'] 3 8 3 10
    [.terminal ['"', Char.ofNat 27, '"'] 3 8]

theorem parseJson_convertToJson_escapeRule :
    escapeRule.escapable = false ∧ parseJson (ASTToJsonConverter.convertToJson escapeRule) = none :=
  ⟨by decide, parseJson_convertToJson_of_raw escapeRule (by decide)⟩

end SystemRdlToolkit.Json
