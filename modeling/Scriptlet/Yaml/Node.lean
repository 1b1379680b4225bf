import Scriptlet.Yaml.Scalar
import Scriptlet.Yaml.Token

/-!
# Trees of YAML

The first document of a file as a tree. An alias holds the node it stands for; one that stands
inside the node it names has nothing to hold.

## Main definitions

* `Yaml.Node`: scalars, sequences, mappings and aliases, each with its tag and line
* `Yaml.Node.ofTokens`: the first document in a list of tokens
* `Yaml.Node.ofBytes`: the first document of a file
-/

namespace Scriptlet.Yaml

inductive Node where
  | scalar (tag text : String) (line : Nat)
  | sequence (tag : String) (items : List Node) (line : Nat)
  /-- Keys and values in turn. -/
  | mapping (tag : String) (content : List Node) (line : Nat)
  | aliased (name : String) (target : Node) (line : Nat)
  /-- An alias of a node that it is part of. -/
  | cycle (name : String) (line : Nat)

namespace Node

def line : Node → Nat
  | scalar _ _ l | sequence _ _ l | mapping _ _ l | aliased _ _ l | cycle _ l => l

/-- The anchors of the nodes read so far, newest first; a node still being read has none to give. -/
abbrev Anchors := List (String × Option Node)

/-- The handles that tags may start with, and what they stand for. -/
abbrev Handles := List (List Char × List Char)

def defaultHandles : Handles := [(['!'], ['!']), (['!', '!'], "tag:yaml.org,2002:".toList)]

/-- A tag of YAML's own in its short form, and any other as it is. -/
def shortTag (tag : List Char) : String :=
  let own := "tag:yaml.org,2002:".toList
  if tag.take own.length == own then "!!" ++ String.ofList (tag.drop own.length)
  else String.ofList tag

/-- The tag, the anchor and the line of a node, as they stand in front of it. -/
structure Properties where
  tag : Option String := none
  anchor : Option String := none
  line : Nat

/-- The tag of a collection. -/
def Properties.tagOr (p : Properties) (fallback : String) : String :=
  match p.tag with
  | none | some "!" => fallback
  | some tag => tag

/-- The node of a scalar token. -/
def ofScalar (p : Properties) (text : String) (style : Style) : Node :=
  let fallback :=
    if style != .plain then "!!str"
    else if text == "<<" then "!!merge"
    else (Scalar.ofText text).tag
  scalar (p.tagOr fallback) text p.line

/-- A scalar that is not there. -/
def empty (line : Nat) : Node := scalar "!!null" "" line

/-- Reads the tag and the anchor in front of a node. -/
def properties (handles : Handles) (ts : List Token) :
    Except SyntaxError (Properties × List Token) := do
  let line := ((ts.head?).map (·.line)).getD 0
  match ts with
  | ⟨.anchor a, _⟩ :: ⟨.tag h s, _⟩ :: rest =>
    return ({ tag := some (← expand h s), anchor := some (String.ofList a), line }, rest)
  | ⟨.anchor a, _⟩ :: rest => return ({ anchor := some (String.ofList a), line }, rest)
  | ⟨.tag h s, _⟩ :: ⟨.anchor a, _⟩ :: rest =>
    return ({ tag := some (← expand h s), anchor := some (String.ofList a), line }, rest)
  | ⟨.tag h s, _⟩ :: rest => return ({ tag := some (← expand h s), line }, rest)
  | rest => return ({ line }, rest)
where
  expand (handle suffix : List Char) : Except SyntaxError String :=
    if handle.isEmpty then .ok (shortTag suffix)
    else match handles.lookup handle with
      | some expansion => .ok (shortTag (expansion ++ suffix))
      | none => .error ⟨"found undefined tag handle"⟩

/-- What reading a node gives: the node, the tokens after it, and the anchors known then. -/
abbrev ReadNode := Except SyntaxError (Node × List Token × Anchors)

/-- What reading the content of a collection gives. -/
abbrev ReadNodes := Except SyntaxError (List Node × List Token × Anchors)

def open? (p : Properties) (anchors : Anchors) : Anchors :=
  match p.anchor with
  | some a => (a, none) :: anchors
  | none => anchors

def close? (p : Properties) (n : Node) (anchors : Anchors) : Anchors :=
  match p.anchor with
  | some a => (a, some n) :: anchors
  | none => anchors

def lineOf (ts : List Token) : Nat := ((ts.head?).map (·.line)).getD 0

/-- Whether the next token is one of the given ones, or there is none. -/
def next (ts : List Token) (kinds : List Token.Kind) : Bool :=
  match ts with
  | t :: _ => kinds.contains t.kind
  | [] => true

mutual

/--
A node. In a block it may be a block collection; as a value in a block mapping it may be a sequence
whose dashes are not indented.
-/
def node (handles : Handles) (block dashes : Bool) (ts : List Token) (anchors : Anchors) :
    (fuel : Nat) → ReadNode
  | 0 => .error ⟨"nesting too deep"⟩
  | fuel + 1 =>
    match ts with
    | ⟨.aliased name, line⟩ :: rest =>
      let name := String.ofList name
      match anchors.lookup name with
      | some (some target) => .ok (.aliased name target line, rest, anchors)
      | some none => .ok (.cycle name line, rest, anchors)
      | none => .error ⟨"unknown anchor '" ++ name ++ "' referenced"⟩
    | _ => do
      let (p, ts) ← properties handles ts
      let inner := open? p anchors
      let collection (make : List Node → Node) (items : ReadNodes) : ReadNode := do
        let (items, ts, anchors) ← items
        let n := make items
        return (n, ts, close? p n anchors)
      let sequence (items : ReadNodes) : ReadNode :=
        collection (.sequence (p.tagOr "!!seq") · p.line) items
      let mapping (items : ReadNodes) : ReadNode :=
        collection (.mapping (p.tagOr "!!map") · p.line) items
      match ts with
      | ⟨.blockEntry, _⟩ :: _ =>
        if dashes then sequence (looseEntries handles ts inner fuel)
        else bare p ts anchors
      | ⟨.scalar text style, _⟩ :: rest =>
        let n := ofScalar p (String.ofList text) style
        .ok (n, rest, close? p n anchors)
      | ⟨.flowSequenceStart, _⟩ :: rest => sequence (flowItems handles true rest inner fuel)
      | ⟨.flowMappingStart, _⟩ :: rest => mapping (flowPairs handles true rest inner fuel)
      | ⟨.blockSequenceStart, _⟩ :: rest =>
        if block then sequence (blockEntries handles rest inner fuel) else bare p ts anchors
      | ⟨.blockMappingStart, _⟩ :: rest =>
        if block then mapping (blockPairs handles rest inner fuel) else bare p ts anchors
      | _ => bare p ts anchors
where
  /-- Properties without content stand for an empty scalar. -/
  bare (p : Properties) (ts : List Token) (anchors : Anchors) : ReadNode :=
    if p.tag.isSome || p.anchor.isSome then
      let n := ofScalar p "" .plain
      .ok (n, ts, close? p n anchors)
    else .error ⟨"did not find expected node content"⟩

/-- The entries of a block sequence up to its end. -/
def blockEntries (handles : Handles) (ts : List Token) (anchors : Anchors) :
    (fuel : Nat) → ReadNodes
  | 0 => .error ⟨"nesting too deep"⟩
  | fuel + 1 =>
    match ts with
    | ⟨.blockEntry, line⟩ :: rest => do
      let (n, ts, anchors) ←
        if next rest [.blockEntry, .blockEnd] then .ok (empty line, rest, anchors)
        else node handles true false rest anchors fuel
      let (ns, ts, anchors) ← blockEntries handles ts anchors fuel
      return (n :: ns, ts, anchors)
    | ⟨.blockEnd, _⟩ :: rest => .ok ([], rest, anchors)
    | _ => .error ⟨"did not find expected '-' indicator"⟩

/-- The entries of a sequence whose dashes are not indented. -/
def looseEntries (handles : Handles) (ts : List Token) (anchors : Anchors) :
    (fuel : Nat) → ReadNodes
  | 0 => .error ⟨"nesting too deep"⟩
  | fuel + 1 =>
    match ts with
    | ⟨.blockEntry, line⟩ :: rest => do
      let (n, ts, anchors) ←
        if next rest [.blockEntry, .key, .value, .blockEnd] then .ok (empty line, rest, anchors)
        else node handles true false rest anchors fuel
      let (ns, ts, anchors) ← looseEntries handles ts anchors fuel
      return (n :: ns, ts, anchors)
    | _ => .ok ([], ts, anchors)

/-- The keys and values of a block mapping up to its end. -/
def blockPairs (handles : Handles) (ts : List Token) (anchors : Anchors) :
    (fuel : Nat) → ReadNodes
  | 0 => .error ⟨"nesting too deep"⟩
  | fuel + 1 =>
    match ts with
    | ⟨.key, line⟩ :: rest => do
      let (k, ts, anchors) ←
        if next rest [.key, .value, .blockEnd] then .ok (empty line, rest, anchors)
        else node handles true true rest anchors fuel
      let (v, ts, anchors) ← match ts with
        | ⟨.value, line⟩ :: rest =>
          if next rest [.key, .value, .blockEnd] then .ok (empty line, rest, anchors)
          else node handles true true rest anchors fuel
        | ts => .ok (empty (lineOf ts), ts, anchors)
      let (ns, ts, anchors) ← blockPairs handles ts anchors fuel
      return (k :: v :: ns, ts, anchors)
    | ⟨.blockEnd, _⟩ :: rest => .ok ([], rest, anchors)
    | _ => .error ⟨"did not find expected key"⟩

/-- The items of a sequence in brackets up to its end. -/
def flowItems (handles : Handles) (first : Bool) (ts : List Token) (anchors : Anchors) :
    (fuel : Nat) → ReadNodes
  | 0 => .error ⟨"nesting too deep"⟩
  | fuel + 1 => do
    let ts ← match ts with
      | ⟨.flowSequenceEnd, _⟩ :: _ => .ok ts
      | ⟨.flowEntry, _⟩ :: rest => if first then .ok ts else .ok rest
      | _ => if first then .ok ts else .error ⟨"did not find expected ',' or ']'"⟩
    match ts with
    | ⟨.flowSequenceEnd, _⟩ :: rest => .ok ([], rest, anchors)
    | ⟨.key, line⟩ :: rest =>
      -- A single pair is a mapping of its own.
      let (k, ts, anchors) ←
        if next rest [.value, .flowEntry, .flowSequenceEnd] then
          .ok (empty line, rest.drop 1, anchors)
        else node handles false false rest anchors fuel
      let (v, ts, anchors) ← match ts with
        | ⟨.value, line⟩ :: rest =>
          if next rest [.flowEntry, .flowSequenceEnd] then .ok (empty line, rest, anchors)
          else node handles false false rest anchors fuel
        | ts => .ok (empty (lineOf ts), ts, anchors)
      let (ns, ts, anchors) ← flowItems handles false ts anchors fuel
      return (.mapping "!!map" [k, v] line :: ns, ts, anchors)
    | ts =>
      let (n, ts, anchors) ← node handles false false ts anchors fuel
      let (ns, ts, anchors) ← flowItems handles false ts anchors fuel
      return (n :: ns, ts, anchors)

/-- The keys and values of a mapping in braces up to its end. -/
def flowPairs (handles : Handles) (first : Bool) (ts : List Token) (anchors : Anchors) :
    (fuel : Nat) → ReadNodes
  | 0 => .error ⟨"nesting too deep"⟩
  | fuel + 1 => do
    let ts ← match ts with
      | ⟨.flowMappingEnd, _⟩ :: _ => .ok ts
      | ⟨.flowEntry, _⟩ :: rest => if first then .ok ts else .ok rest
      | _ => if first then .ok ts else .error ⟨"did not find expected ',' or '\x7d'"⟩
    match ts with
    | ⟨.flowMappingEnd, _⟩ :: rest => .ok ([], rest, anchors)
    | ⟨.key, line⟩ :: rest =>
      let (k, ts, anchors) ←
        if next rest [.value, .flowEntry, .flowMappingEnd] then .ok (empty line, rest, anchors)
        else node handles false false rest anchors fuel
      let (v, ts, anchors) ← match ts with
        | ⟨.value, line⟩ :: rest =>
          if next rest [.flowEntry, .flowMappingEnd] then .ok (empty line, rest, anchors)
          else node handles false false rest anchors fuel
        | ts => .ok (empty (lineOf ts), ts, anchors)
      let (ns, ts, anchors) ← flowPairs handles false ts anchors fuel
      return (k :: v :: ns, ts, anchors)
    | ts =>
      let (k, ts, anchors) ← node handles false false ts anchors fuel
      let (ns, ts, anchors) ← flowPairs handles false ts anchors fuel
      return (k :: empty (lineOf ts) :: ns, ts, anchors)

end

/-- Reads the directives in front of a document. -/
def directives (handles : Handles) (versioned : Bool) :
    List Token → Except SyntaxError (Handles × List Token)
  | ⟨.version major minor, _⟩ :: rest =>
    if versioned then .error ⟨"found duplicate %YAML directive"⟩
    else if major != 1 || minor != 1 then .error ⟨"found incompatible YAML document"⟩
    else directives handles true rest
  | ⟨.tagDirective handle expansion, _⟩ :: rest =>
    if (handles.lookup handle).isSome then .error ⟨"found duplicate %TAG directive"⟩
    else directives ((handle, expansion) :: handles) versioned rest
  | ts => .ok (handles, ts)

/-- The handles with the ones that every document has. -/
def withDefaults (handles : Handles) : Handles :=
  handles ++ defaultHandles.filter fun (h, _) => (handles.lookup h).isNone

/-- The first document, if there is one, and the tokens after it. -/
def document (ts : List Token) : Except SyntaxError (Option Node × List Token) := do
  let fuel := 2 * ts.length + 2
  match ts with
  | [] => .error ⟨"did not find expected <stream-start>"⟩
  | ⟨.streamEnd, _⟩ :: _ => return (none, ts)
  | t :: _ =>
    let isDirective := match t.kind with
      | .version .. | .tagDirective .. | .documentStart => true
      | _ => false
    if isDirective then
      let (handles, ts) ← directives [] false ts
      match ts with
      | ⟨.documentStart, line⟩ :: rest =>
        let bare := match rest with
          | [] => true
          | t :: _ => match t.kind with
            | .version .. | .tagDirective .. | .documentStart | .documentEnd | .streamEnd => true
            | _ => false
        if bare then return (some (empty line), rest)
        else
          let (n, ts, _) ← node (withDefaults handles) true false rest [] fuel
          return (some n, ts)
      | _ => .error ⟨"did not find expected <document start>"⟩
    else
      let (n, ts, _) ← node defaultHandles true false ts [] fuel
      return (some n, ts)

/--
The first document of a list of tokens that ends in a mistake if `mistake` is one. Reading looks two
tokens ahead, so a mistake further behind the document goes unnoticed.
-/
def ofTokens (ts : List Token) (mistake : Option SyntaxError) : Except SyntaxError (Option Node) := do
  let (n, rest) ← match document ts, mistake with
    | .error _, some e => .error e
    | r, _ => r
  match mistake with
  | some e => if rest.length ≤ 2 then .error e else return n
  | none => return n

/-- The first document of a file, if it has one. -/
def ofBytes (bytes : ByteArray) : Except SyntaxError (Option Node) := do
  let cs ← characters bytes.data.toList
  let (ts, mistake) := Lexer.tokens cs
  ofTokens ts mistake

end Node

end Scriptlet.Yaml
