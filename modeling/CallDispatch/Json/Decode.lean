import CallDispatch.Keyed
import CallDispatch.Json.Reader

/-!
# Decoding documents

A decoder asks a document for a value of a type and answers with the value or with the first flaw in
text order. Records are read from objects member by member, in whatever order the members come, or
from arrays field by field.
-/

namespace CallDispatch.Json

open Text (Symbol)

/-- What stands in a document in the place of what was expected. -/
inductive Found where
  | null
  | bool (b : Bool)
  | number (n : Number)
  | text (s : String)
  | sequence
  | map
  | unitVariant
  deriving DecidableEq, Repr

/-- Why a well-formed document is not the value asked for. -/
inductive Mismatch where
  | missingField (name : String)
  | duplicateField (name : String)
  | invalidType (found : Found) (expected : String)
  | invalidValue (found : Found) (expected : String)
  | invalidLength (length : Nat) (expected : String)
  | unknownVariant (name : String) (first second : String)
  deriving DecidableEq, Repr

/-- Why a text is not the value asked for. -/
inductive Flaw where
  | malformed
  | truncated
  | mismatch (m : Mismatch)
  deriving DecidableEq, Repr

/-- The answer of a decoder. -/
abbrev Decoded (α : Type) := Except Flaw α

/-- A fault as a flaw. -/
def Fault.flaw : Fault → Flaw
  | .malformed => .malformed
  | .truncated => .truncated

/-- What was found, as messages name it. -/
def Found.describe : Found → String
  | .null => "null"
  | .bool true => "boolean `true`"
  | .bool false => "boolean `false`"
  | .number (.binary64 bits) =>
    "floating point `" ++ String.ofList (Number.binary64 bits).render ++ "`"
  | .number n => "integer `" ++ String.ofList n.render ++ "`"
  | .text s => "string " ++ Text.quoted s
  | .sequence => "sequence"
  | .map => "map"
  | .unitVariant => "unit variant"

/-- The message of a mismatch. -/
def Mismatch.message : Mismatch → String
  | .missingField name => "missing field `" ++ name ++ "`"
  | .duplicateField name => "duplicate field `" ++ name ++ "`"
  | .invalidType found expected => "invalid type: " ++ found.describe ++ ", expected " ++ expected
  | .invalidValue found expected => "invalid value: " ++ found.describe ++ ", expected " ++ expected
  | .invalidLength length expected =>
    "invalid length " ++ Text.Decimal.text length ++ ", expected " ++ expected
  | .unknownVariant name first second =>
    "unknown variant `" ++ name ++ "`, expected `" ++ first ++ "` or `" ++ second ++ "`"

/-! ## Documents nobody looks at -/

/-- Pass over the end of a container. -/
def Stop.skip : Stop → Decoded Unit
  | .closed => .ok ()
  | .fault _ _ lenient => .error lenient.flaw

mutual

/-- Pass over a document, minding only faults that end the text. -/
def Document.skip : Document → Decoded Unit
  | .array items stop => do skipItems items; stop.skip
  | .object members stop => do skipMembers members; stop.skip
  | .oddObject _ => .error .malformed
  | .brokenText _ lenient => .error lenient.flaw
  | .broken _ lenient => .error lenient.flaw
  | .missing => .error .truncated
  | _ => .ok ()

/-- Pass over items. -/
def skipItems : List Document → Decoded Unit
  | [] => .ok ()
  | item :: rest => do item.skip; skipItems rest

/-- Pass over members. -/
def skipMembers : List (Option String × Document) → Decoded Unit
  | [] => .ok ()
  | (_, value) :: rest => do value.skip; skipMembers rest

end

/-! ## Scalars -/

/-- The end of a container as a decoder meets it that has looked at everything before. -/
def Stop.check : Stop → Decoded Unit
  | .closed => .ok ()
  | .fault _ strict _ => .error strict.flaw

/-- The flaw of a document that is not what was expected. A fault in the document itself comes
first. -/
def Document.flaw (expected : String) : Document → Flaw
  | .null => .mismatch (.invalidType .null expected)
  | .bool b => .mismatch (.invalidType (.bool b) expected)
  | .number n => .mismatch (.invalidType (.number n) expected)
  | .text s => .mismatch (.invalidType (.text s) expected)
  | .array .. => .mismatch (.invalidType .sequence expected)
  | .object .. => .mismatch (.invalidType .map expected)
  | .oddObject _ => .mismatch (.invalidType .map expected)
  | .beyond => .malformed
  | .garbled => .malformed
  | .brokenText strict _ => strict.flaw
  | .broken strict _ => strict.flaw
  | .missing => .truncated

/-- A machine word; `expected` names its type. -/
def Document.word (expected : String) : Document → Decoded Nat
  | .number (.nat n) => .ok n
  | .number (.neg n) => .error (.mismatch (.invalidValue (.number (.neg n)) expected))
  | d => .error (d.flaw expected)

/-- A string. -/
def Document.string : Document → Decoded String
  | .text s => .ok s
  | d => .error (d.flaw "a string")

/-- A truth value. -/
def Document.boolean : Document → Decoded Bool
  | .bool b => .ok b
  | d => .error (d.flaw "a boolean")

/-- Nothing. -/
def Document.unit : Document → Decoded Unit
  | .null => .ok ()
  | d => .error (d.flaw "unit")

/-- A value or null. -/
def Document.optional (decode : Document → Decoded α) : Document → Decoded (Option α)
  | .null => .ok none
  | d => some <$> decode d

/-- Decode items in order. -/
def decodeItems (decode : Document → Decoded α) : List Document → Decoded (List α)
  | [] => .ok []
  | item :: rest => do
    let a ← decode item
    let as ← decodeItems decode rest
    pure (a :: as)

/-- A list of values of one type. -/
def Document.list (decode : Document → Decoded α) : Document → Decoded (List α)
  | .array items stop => do
    let as ← decodeItems decode items
    stop.check
    pure as
  | d => .error (d.flaw "a sequence")

/-! ## Records -/

/-- Whether a decoder reads along with the text, looks at part of it that was set aside, or at a
value that was read before. The three word their complaints differently: reading along, an array
with items left over or a variant that is neither a string nor an object is no JSON value of the
type at all. -/
inductive Origin where
  | direct
  | setAside
  | value
  deriving DecidableEq, Repr

/-- What is left of an array, and how many of its places have been passed. -/
structure Row where
  items : List Document
  stop : Stop
  taken : Nat := 0

/-- Take the next item, if there is one. -/
def Row.next? (decode : Document → Decoded α) (r : Row) : Decoded (Option α × Row) :=
  match r.items with
  | item :: rest => do
    let a ← decode item
    pure (some a, { r with items := rest, taken := r.taken + 1 })
  | [] => do
    r.stop.check
    pure (none, r)

/-- Take the next item of a row that must have one; `expected` names the whole row. -/
def Row.next (expected : String) (decode : Document → Decoded α) (r : Row) : Decoded (α × Row) := do
  match ← r.next? decode with
  | (some a, r) => pure (a, r)
  | (none, r) => .error (.mismatch (.invalidLength r.taken expected))

/-- Take the next item, or a default for its place if there is none. -/
def Row.nextOr (default : α) (decode : Document → Decoded α) (r : Row) : Decoded (α × Row) := do
  match ← r.next? decode with
  | (some a, r) => pure (a, r)
  | (none, r) => pure (default, { r with taken := r.taken + 1 })

/-- The flaw of a row that has items left over. -/
def Row.surplus (origin : Origin) (r : Row) : Flaw :=
  let length := r.taken + r.items.length
  match origin with
  | .direct => .malformed
  | .setAside =>
    let unit := if r.taken = 1 then " element in sequence" else " elements in sequence"
    .mismatch (.invalidLength length (Text.Decimal.text r.taken ++ unit))
  | .value => .mismatch (.invalidLength length "fewer elements in array")

/-- The end of a row whose items have all been taken. -/
def Row.finish (origin : Origin) (r : Row) : Decoded Unit :=
  match r.items, r.stop with
  | [], .closed => .ok ()
  | [], .fault false strict _ => .error strict.flaw
  | [], .fault true _ _ => .error .malformed
  | _ :: _, _ => .error (r.surplus origin)

/-- Put members one by one into a draft of a record. -/
def foldMembers (put : σ → String → Document → Decoded σ) (draft : σ) :
    List (Option String × Document) → Decoded σ
  | [] => .ok draft
  | (none, _) :: _ => .error .malformed
  | (some key, value) :: rest => do
    let draft ← put draft key value
    foldMembers put draft rest

/-- Put a field's value where none is yet. -/
def fill (name : String) (slot : Option α) (decode : Document → Decoded α) (value : Document) :
    Decoded (Option α) :=
  if slot.isSome then .error (.mismatch (.duplicateField name)) else some <$> decode value

/-- The value of a field that must be there. -/
def require (name : String) : Option α → Decoded α
  | some a => .ok a
  | none => .error (.mismatch (.missingField name))

/-- How a record is decoded: member by member into a draft, or from the items of an array. -/
structure Record (σ α : Type) where
  name : String
  draft : σ
  put : σ → String → Document → Decoded σ
  close : σ → Decoded α
  row : Row → Decoded (α × Row)

/-- A record. -/
def Document.record (origin : Origin) (r : Record σ α) : Document → Decoded α
  | .object members stop => do
    let draft ← foldMembers r.put r.draft members
    stop.check
    r.close draft
  | .array items stop => do
    let (a, rest) ← r.row { items, stop }
    rest.finish origin
    pure a
  | .oddObject _ => .error .malformed
  | d => .error (d.flaw r.name)

/-- The flaw of a document that is no variant. -/
def Document.noVariant (origin : Origin) (d : Document) : Flaw :=
  match origin, d with
  | .value, .object .. => .mismatch (.invalidValue .map "map with a single key")
  | .value, d => d.flaw "string or map"
  | _, .object [] (.fault _ strict _) => strict.flaw
  | _, .oddObject key => key.flaw "variant identifier"
  | _, .brokenText strict _ => strict.flaw
  | _, .missing => .truncated
  | _, _ => .malformed

/-- A variant of a sum: its name alone, or an object with its name and contents. -/
def Document.variant (origin : Origin) (decode : String → Option Document → Decoded α) :
    Document → Decoded α
  | .text s => decode s none
  | .object ((some name, contents) :: rest) stop =>
    if origin = .value ∧ !rest.isEmpty then
      .error (Document.noVariant origin (.object ((some name, contents) :: rest) stop))
    else do
      let a ← decode name (some contents)
      match rest, stop with
      | [], .closed => pure a
      | [], .fault false strict _ => .error strict.flaw
      | _, _ => .error .malformed
  | d => .error (d.noVariant origin)

/-- A variant without contents. -/
def bareVariant (a : α) : Option Document → Decoded α
  | none => .ok a
  | some contents => do contents.unit; pure a

/-! ## Values of any shape -/

mutual

/-- The value of a document that nests at most `depth` containers. -/
def Document.value (depth : Nat) : Document → Decoded Json
  | .null => .ok .null
  | .bool b => .ok (.bool b)
  | .number n => .ok (.number n)
  | .text s => .ok (.text s)
  | .array items stop =>
    match depth with
    | 0 => .error .malformed
    | depth + 1 => do
      let values ← valueItems depth items
      stop.check
      pure (.array values)
  | .object members stop =>
    match depth with
    | 0 => .error .malformed
    | depth + 1 => do
      let values ← valueMembers depth members
      stop.check
      pure (.object (Keyed.ofPairs values))
  | .oddObject _ => .error .malformed
  | d => .error (d.flaw "any value")

/-- The values of items. -/
def valueItems (depth : Nat) : List Document → Decoded (List Json)
  | [] => .ok []
  | item :: rest => do
    let value ← item.value depth
    let values ← valueItems depth rest
    pure (value :: values)

/-- The values of members. -/
def valueMembers (depth : Nat) : List (Option String × Document) → Decoded (List (String × Json))
  | [] => .ok []
  | (none, _) :: _ => .error .malformed
  | (some key, item) :: rest => do
    let value ← item.value depth
    let values ← valueMembers depth rest
    pure ((key, value) :: values)

end

/-- The deepest nesting of containers in a text. -/
def maxDepth : Nat := 127

/-! ## Texts -/

/-- Decode a whole text: one value, with blanks around it. -/
def decode (decoder : Document → Decoded α) (s : List Symbol) : Decoded α := do
  let (d, rest) := read s
  let a ← decoder d
  match rest with
  | some rest => if (skipSpace rest).isEmpty then pure a else .error .malformed
  | none => .error .malformed

/-- Decode a string. -/
def decodeString (decoder : Document → Decoded α) (s : String) : Decoded α :=
  decode decoder (s.toList.map .char)

/-- Decode bytes. -/
def decodeBytes (decoder : Document → Decoded α) (bytes : List UInt8) : Decoded α :=
  decode decoder (Text.Utf8.decode bytes)

end CallDispatch.Json
