import Scriptlet.Text.Base64
import Scriptlet.Text.Quoted
import Scriptlet.Yaml.Node

/-!
# From trees to records

A tree is read into texts, whole numbers, lists and records. What does not fit is noted with its
line, and reading goes on, so that all misfits are reported together. A null leaves a field as it is.

## Main definitions

* `Yaml.DecodeError`: why a file is not what was asked for
* `Yaml.Decode`: reading that notes misfits
* `Yaml.text`, `Yaml.int`, `Yaml.list`, `Yaml.record`: reading one node
* `Yaml.decode`: reads the first document of a file
-/

namespace Scriptlet.Yaml

/-- Why a file is not what was asked for. -/
inductive DecodeError where
  | malformed (error : SyntaxError)
  /-- The file has no document. -/
  | noDocument
  /-- The document has these misfits. -/
  | misfits (problems : List String)
  deriving Repr

def DecodeError.message : DecodeError → String
  | malformed e => "yaml: " ++ e.problem
  | noDocument => "EOF"
  | misfits ps => "yaml: unmarshal errors:" ++ String.join (ps.map ("\n  " ++ ·))

/-- Reading that notes misfits. -/
abbrev Decode := StateT (List String) (Except SyntaxError)

/-- Notes a misfit. -/
def misfit (line : Nat) (problem : String) : Decode Unit :=
  modify (· ++ ["line " ++ toString line ++ ": " ++ problem])

/-- The first bytes of a scalar, in quotes, as misfits show it. -/
def excerpt (text : String) : String :=
  let bytes := text.toUTF8.data.toList
  if bytes.length > 10 then " `" ++ String.ofList (Text.decode (bytes.take 7)) ++ "...`"
  else " `" ++ text ++ "`"

/-- Notes that a node is not of the type asked for. -/
def mismatch (n : Node) (type : String) : Decode Unit :=
  let note (tag text : String) (line : Nat) : Decode Unit :=
    let text := if tag == "!!seq" || tag == "!!map" then "" else excerpt text
    misfit line ("cannot unmarshal " ++ tag ++ text ++ " into " ++ type)
  match n with
  | .scalar tag text line => note tag text line
  | .sequence tag _ line | .mapping tag _ line => note tag "" line
  | .aliased .. | .cycle .. => pure ()

/-- The node that an alias stands for. -/
def target : Node → Except SyntaxError Node
  | .aliased _ n _ => target n
  | .cycle name _ => .error ⟨"anchor '" ++ name ++ "' value contains itself"⟩
  | n => .ok n

/-- The keys of a mapping. -/
def keys : List Node → List Node
  | k :: _ :: rest => k :: keys rest
  | _ => []

/-- Whether two keys are written alike; of collections only the kind counts. -/
def sameKey : Node → Node → Bool
  | .scalar _ a _, .scalar _ b _ => a == b
  | .sequence .., .sequence .. => true
  | .mapping .., .mapping .. => true
  | .aliased a _ _, .aliased b _ _ | .aliased a _ _, .cycle b _ | .cycle a _, .aliased b _ _
  | .cycle a _, .cycle b _ => a == b
  | _, _ => false

def keyText : Node → String
  | .scalar _ text _ => text
  | .aliased name _ _ | .cycle name _ => name
  | _ => ""

/-- Notes the keys that a mapping has twice, and tells whether there are none. -/
def uniqueKeys : List Node → Decode Bool
  | [] => return true
  | k :: ks => do
    let again := ks.filter (sameKey k)
    for k' in again do
      misfit k'.line ("mapping key " ++ Text.quote (keyText k') ++ " already defined at line " ++
        toString k.line)
    let rest ← uniqueKeys ks
    return again.isEmpty && rest

/-- Reads a node that is no collection; `read` gets what it stands for, unless that is a null. -/
def scalar {α : Type} (type : String) (n : Node) (onNull : Option α)
    (read : Scalar → String → Option α) : Decode (Option α) := do
  match ← target n with
  | .scalar tag text line =>
    match Scalar.ofTagged? tag text with
    | none => throw ⟨"cannot decode `" ++ text ++ "` as a " ++ tag⟩
    | some .null => return onNull
    | some v =>
      match read v text with
      | some a => return some a
      | none => mismatch (.scalar tag text line) type; return none
  | .mapping tag content line =>
    if ← uniqueKeys (keys content) then mismatch (.mapping tag content line) type
    return none
  | n => mismatch n type; return none

/-- A text, which is any scalar as it is written. -/
def text (n : Node) : Decode (Option String) := do
  match ← target n with
  | .scalar "!!binary" s _ =>
    match Text.ofBase64? s with
    | some bytes => return some (String.ofList (Text.decode bytes))
    | none => throw ⟨"!!binary value contains invalid base64 data"⟩
  | n => scalar "string" n none fun _ s => some s

/-- The whole part of a float that is not above `2 ^ 63`; what is too small gives the least number. -/
def wholePart? (f : Float) : Option Int :=
  if f ≤ 9223372036854775808 then
    match Number.magnitude? f with
    | some b =>
      let n := b.numerator / b.denominator
      let i : Int := if Number.isNegative f then -n else n
      some (if Int64.minValue.toInt ≤ i && i ≤ Int64.maxValue.toInt then i else Int64.minValue.toInt)
    | none => some Int64.minValue.toInt
  else none

/-- A whole number of 64 bits. -/
def int (n : Node) : Decode (Option Int) :=
  scalar "int" n none fun v _ =>
    match v with
    | .int i => if i ≤ Int64.maxValue.toInt then some i else none
    | .float f => wholePart? f
    | _ => none

/-- A list. Items that are nulls are left out. -/
def list {α : Type} (type : String) (item : Node → Decode (Option α)) (n : Node) :
    Decode (Option (List α)) := do
  match ← target n with
  | .sequence _ items _ => return some (← items.filterMapM item)
  | n => scalar type n (some []) fun _ _ => none

/-- A record: the name of its type in reports, and how each field is read into it. -/
structure RecordType (σ : Type) where
  name : String
  fields : List (String × (Node → σ → Decode σ))

/-- A field that `read` reads and `set` stores. -/
def recordField {σ α : Type} (name : String) (read : Node → Decode (Option α)) (set : σ → α → σ) :
    String × (Node → σ → Decode σ) :=
  (name, fun n s => do return match ← read n with
    | some a => set s a
    | none => s)

/-- A key that merges another mapping into its own. -/
def isMerge : Node → Bool
  | .scalar tag text _ => tag == "!!merge" && text == "<<"
  | _ => false

variable {σ : Type} (type : RecordType σ)

/--
Reads the entries of a mapping into a record, apart from merges. The names in `seen` are left alone;
the names read are added to them. `done` are the names that this mapping has set.
-/
def entries (seen : Option (List String)) (done : List String) :
    List Node → σ → Decode (Option (List String) × σ)
  | k :: v :: rest, s => do
    if isMerge k then entries seen done rest s
    else match ← text k with
      | none => entries seen done rest s
      | some name =>
        if seen.any (·.contains name) then entries seen done rest s
        else
          let seen := seen.map (name :: ·)
          match type.fields.lookup name with
          | some read =>
            if done.contains name then
              misfit k.line ("field " ++ name ++ " already set in type " ++ type.name)
              entries seen done rest s
            else
              let s ← read v s
              entries seen (name :: done) rest s
          | none =>
            misfit k.line ("field " ++ name ++ " not found in type " ++ type.name)
            entries seen done rest s
  | _, s => return (seen, s)

def wantMap {α : Type} : Decode α :=
  throw ⟨"map merge requires map or sequence of maps as the value"⟩

mutual

/-- Merges a mapping, or the mappings of a sequence, into a record. -/
def mergeNode (seen : List String) (s : σ) : Node → Decode (List String × σ)
  | .mapping _ content _ => do
    if ← uniqueKeys (keys content) then
      let (seen', s) ← entries type (some seen) [] content s
      mergeLast (seen'.getD seen) s content
    else return (seen, s)
  | .sequence _ items _ => mergeItems seen s items
  | .aliased _ n _ => mergeAlias seen s n
  | _ => wantMap
termination_by structural n => n

/-- Merges the target of an alias, which has to be a mapping. -/
def mergeAlias (seen : List String) (s : σ) : Node → Decode (List String × σ)
  | .mapping _ content _ => do
    if ← uniqueKeys (keys content) then
      let (seen', s) ← entries type (some seen) [] content s
      mergeLast (seen'.getD seen) s content
    else return (seen, s)
  | _ => wantMap
termination_by structural n => n

/-- Merges the items of a sequence, which have to be mappings. -/
def mergeItems (seen : List String) (s : σ) : List Node → Decode (List String × σ)
  | [] => return (seen, s)
  | n :: ns => do
    let isSequence := match n with | .sequence .. => true | _ => false
    if isSequence then wantMap
    else
      let (seen, s) ← mergeNode seen s n
      mergeItems seen s ns
termination_by structural ns => ns

/-- Merges what the last merge key of a mapping asks for. -/
def mergeLast (seen : List String) (s : σ) : List Node → Decode (List String × σ)
  | k :: v :: rest =>
    if isMerge k && !(keys rest).any isMerge then mergeNode seen s v else mergeLast seen s rest
  | _ => return (seen, s)
termination_by structural ns => ns

end

/-- The names that a mapping has itself, which no merge overrides. -/
def ownNames : List Node → List String
  | k :: _ :: rest =>
    let own := match target k with
      | .ok (.scalar "!!str" t _) => [t]
      | _ => []
    own ++ ownNames rest
  | _ => []

/-- A record, from its initial value. -/
def record (initial : σ) (n : Node) : Decode (Option σ) := do
  match ← target n with
  | .mapping _ content _ =>
    if ← uniqueKeys (keys content) then
      let (_, s) ← entries type none [] content initial
      let (_, s) ← mergeLast type (ownNames content) s content
      return some s
    else return none
  | n => scalar type.name n none fun _ _ => none

/-- Reads the first document of a file into a record, which a null leaves as it is. -/
def decode (initial : σ) (bytes : ByteArray) : Except DecodeError σ :=
  match Node.ofBytes bytes with
  | .error e => .error (.malformed e)
  | .ok none => .error .noDocument
  | .ok (some n) =>
    match (record type initial n).run [] with
    | .error e => .error (.malformed e)
    | .ok (s, []) => .ok (s.getD initial)
    | .ok (_, problems) => .error (.misfits problems)

end Scriptlet.Yaml
