import Mathlib.Data.List.Basic
import Mathlib.Data.Nat.Digits
import Mathlib.Order.Basic

/-!
# Keys requests

A keys request names root objects by collection-id (`"motion/5"`) and, for each of them, the
fields a client wants to observe. A plain field is observed as it is. A relation field is
observed too, and its fetched value selects further objects whose fields the request describes
one level deeper: a single relation holds one collection-id, a relation list a list of ids of
the relation's collection.

## What is modelled from the spec

The request types (`body`, `fieldDescription`) and their `keys` methods live in a file of the
`keysbuilder` package that is not among the sources; only their callers are (`Builder.Update`,
`FromJSON`, `ManyFromJSON`). They are modelled here from the spec: a body maps collection-ids
to fields, a field description is Go's `nil` for a plain field or one of the two relation
variants, and the `keys` of a relation decode its fetched value and name the nested fields of
every object it selects. The key builders `buildGenericKey` and `buildCollectionID` are
translated from `keysbuilder.go`. The decimal text of an id holds no `/`, so a key built from a
collection and a field without one splits back into its three parts (`buildGenericKey_splitOn`):
keys of different objects or fields never coincide in the maps of `Update`.

A Go map of fields is a list of pairs here. Its iteration order never matters to `keys`:
distinct field names of one object give distinct keys, so the inserts of one call commute.

## Depth

Every nested description is a subterm of the one above it, so a request has a finite
relation-nesting depth, `maxDepth`. `descriptionsAt bodies r` lists the descriptions at depth
`r`; their heights fall by one per level (`depth_add_le_maxDepth`), which is what bounds the
rounds of `Update`.
-/

namespace Keysbuilder

/-! ## Keys -/

/-- A datastore key, `collection/id/field`; also a collection-id, `collection/id`. -/
abbrev Key := String

/-- `keySep`, the separator of the parts of a key. -/
def keySep : String := "/"

/-- `buildGenericKey("motion/5", "title") = "motion/5/title"`. -/
def buildGenericKey (collectionID field : String) : Key :=
  collectionID ++ keySep ++ field

/-- `buildCollectionID("motion", 5) = "motion/5"`; `strconv.Itoa` is `toString` on `Int`. -/
def buildCollectionID (collection : String) (id : Int) : String :=
  collection ++ keySep ++ toString id

/-- The decimal digits of `n` in front of `ds` are digits. -/
theorem mem_toDigitsCore {fuel n : Nat} {ds : List Char} {c : Char}
    (h : c ∈ Nat.toDigitsCore 10 fuel n ds) : c ∈ ds ∨ ∃ d < 10, c = Nat.digitChar d := by
  induction fuel generalizing n ds with
  | zero => exact .inl h
  | succ fuel ih =>
    have hd : ∀ {c : Char}, c ∈ Nat.digitChar (n % 10) :: ds →
        c ∈ ds ∨ ∃ d < 10, c = Nat.digitChar d := fun hc ↦ by
      rcases List.mem_cons.mp hc with rfl | hc
      · exact .inr ⟨n % 10, Nat.mod_lt _ (by decide), rfl⟩
      · exact .inl hc
    simp only [Nat.toDigitsCore] at h
    split at h
    · exact hd h
    · exact (ih h).elim hd .inr

/-- The decimal text of an id has no separator. -/
theorem keySep_not_mem_toString (id : Int) : '/' ∉ (toString id).data := by
  have hdigits : ∀ n : Nat, '/' ∉ (toString n).data := fun n h ↦ by
    rcases mem_toDigitsCore h with h | ⟨d, hd, he⟩
    · cases h
    · exact absurd he (by revert d; decide)
  cases id with
  | ofNat n => exact hdigits n
  | negSucc n =>
    intro h
    rcases List.mem_cons.mp h with h | h
    · cases h
    · exact hdigits (n + 1) h

/-- **Keys split back into their parts.** A key built from a collection, an id and a field, none
holding the separator, splits at `/` into the collection, the decimal text of the id and the
field. -/
theorem buildGenericKey_splitOn {collection field : String} (id : Int)
    (hc : '/' ∉ collection.data) (hf : '/' ∉ field.data) :
    (buildGenericKey (buildCollectionID collection id) field).data.splitOn '/' =
      [collection.data, (toString id).data, field.data] := by
  have hkey : (buildGenericKey (buildCollectionID collection id) field).data =
      ['/'].intercalate [collection.data, (toString id).data, field.data] := by
    simp [buildGenericKey, buildCollectionID, keySep, List.intercalate]
  rw [hkey]
  refine List.splitOn_intercalate _ '/' ?_ (List.cons_ne_nil _ _)
  simp only [List.mem_cons, List.mem_singleton, List.not_mem_nil, or_false]
  rintro l (rfl | rfl | rfl)
  · exact hc
  · exact keySep_not_mem_toString id
  · exact hf

theorem buildGenericKey_splitOn_motion :
    '/' ∉ "motion".data ∧ '/' ∉ "title".data ∧
      (buildGenericKey (buildCollectionID "motion" 5) "title").data.splitOn '/' =
        ["motion".data, (toString (5 : Int)).data, "title".data] :=
  ⟨by decide, by decide, buildGenericKey_splitOn 5 (by decide) (by decide)⟩

/-! ## Values -/

/-- A value of the datastore, decoded from JSON. An object is kept only by its JSON type: no
decoder of the package reads its members. JSON `null` is the absent value, `none` in `Data`. -/
inductive Value where
  | string (s : String)
  | number (n : Int)
  | bool (b : Bool)
  | array (values : List Value)
  | object
  deriving Repr

/-- The JSON type of a value, as `json.UnmarshalTypeError.Value` names it. -/
def Value.typeName : Value → String
  | string _ => "string"
  | number _ => "number"
  | bool _ => "bool"
  | array _ => "array"
  | object => "object"

/-- The restricted data of one `RestrictedData` call: the value of each key, `none` where the key
does not exist or the user may not see it. -/
abbrev Data := Key → Option Value

/-! ## Field descriptions -/

/-- Modelled from the spec: `fieldDescription`, whose declaration is missing from the sources.
A relation names the collection of its targets and the fields requested of each target; in a
fields list `none` is Go's `nil` description of a plain field. -/
inductive FieldDescription where
  /-- `"type": "relation"`: the value is one collection-id of `collection`. -/
  | relation (collection : String) (fields : List (String × Option FieldDescription))
  /-- `"type": "relation-list"`: the value is a list of ids of `collection`. -/
  | relationList (collection : String) (fields : List (String × Option FieldDescription))
  deriving Repr

namespace FieldDescription

/-- The fields a relation requests of each of its targets. -/
def fields : FieldDescription → List (String × Option FieldDescription)
  | relation _ fields | relationList _ fields => fields

/-- The relation-nesting height of a description: one for itself, plus the deepest relation
among its fields. -/
def height : FieldDescription → Nat
  | relation _ fields | relationList _ fields => maxHeight fields + 1
where
  /-- The greatest height of the relations in a fields list, `0` when all are plain. -/
  maxHeight : List (String × Option FieldDescription) → Nat
    | [] => 0
    | (_, none) :: rest => maxHeight rest
    | (_, some d) :: rest => Nat.max (height d) (maxHeight rest)

@[simp] theorem height_eq (d : FieldDescription) : d.height = height.maxHeight d.fields + 1 := by
  cases d <;> rfl

theorem le_maxHeight {fields : List (String × Option FieldDescription)} {f : String}
    {d : FieldDescription} (h : (f, some d) ∈ fields) : d.height ≤ height.maxHeight fields := by
  induction fields with
  | nil => cases h
  | cons g rest ih =>
    obtain ⟨g, _ | e⟩ := g
    · exact ih (List.mem_of_ne_of_mem (by simp) h)
    · rcases List.mem_cons.mp h with h | h
      · cases h; exact Nat.le_max_left _ _
      · exact Nat.le_trans (ih h) (Nat.le_max_right _ _)

end FieldDescription

/-- The height of a possibly plain description: `0` for a plain field. -/
def depth : Option FieldDescription → Nat
  | none => 0
  | some d => d.height

@[simp] theorem depth_none : depth none = 0 := rfl
@[simp] theorem depth_some (d : FieldDescription) : depth (some d) = d.height := rfl

theorem depth_le_maxHeight {fields : List (String × Option FieldDescription)}
    {p : String × Option FieldDescription} (h : p ∈ fields) :
    depth p.2 ≤ FieldDescription.height.maxHeight fields := by
  obtain ⟨f, _ | d⟩ := p
  · exact Nat.zero_le _
  · exact FieldDescription.le_maxHeight h

/-- A nested description is one level lower than the relation holding it. -/
theorem depth_lt_height {d : FieldDescription} {p : String × Option FieldDescription}
    (h : p ∈ d.fields) : depth p.2 < d.height := by
  simpa using Nat.lt_succ_of_le (depth_le_maxHeight h)

/-! ## Decoding a relation's value -/

/-- Modelled from the spec: the errors of `fieldDescription.keys`. -/
inductive KeysError where
  /-- The value has a JSON type the relation does not decode: a `*json.UnmarshalTypeError`. -/
  | unmarshalType (value expectType : String)
  /-- A single relation's value is not a collection-id `collection/id`. -/
  | invalidCollectionID (value : String)
  /-- A single relation's value names another collection than the relation's. -/
  | wrongCollection (got expected : String)
  deriving Repr, DecidableEq

/-- The id part of a collection-id: a positive decimal without leading zero. -/
def isID : List Char → Bool
  | [] => false
  | c :: cs => c != '0' && c.isDigit && cs.all Char.isDigit

/-- Modelled from the spec: a single relation's value must be a collection-id of the
relation's own collection. -/
def decodeCollectionID (collection : String) : Value → Except KeysError String
  | .string s =>
    match s.data.span (· != '/') with
    | (c, '/' :: id) =>
      if String.mk c ≠ collection then .error (.wrongCollection (String.mk c) collection)
      else if isID id then .ok s
      else .error (.invalidCollectionID s)
    | _ => .error (.invalidCollectionID s)
  | v => .error (.unmarshalType v.typeName "string")

/-- Modelled from the spec: a relation list's value must be a list of integer ids. -/
def decodeIDs : Value → Except KeysError (List Int)
  | .array values => values.mapM fun
    | .number n => .ok n
    | v => .error (.unmarshalType v.typeName "number")
  | v => .error (.unmarshalType v.typeName "list")

/-- Modelled from the spec: `fieldDescription.keys`, which decodes the fetched value of a
relation field and inserts `collection/id/field ↦ description` into `process` for every
nested field of every target. The inserts are returned in order; `Update` makes them. -/
def FieldDescription.keys (value : Value) :
    FieldDescription → Except KeysError (List (Key × Option FieldDescription))
  | relation collection fields => do
    let collectionID ← decodeCollectionID collection value
    return fields.map fun f ↦ (buildGenericKey collectionID f.1, f.2)
  | relationList collection fields => do
    let ids ← decodeIDs value
    return ids.flatMap fun id ↦
      fields.map fun f ↦ (buildGenericKey (buildCollectionID collection id) f.1, f.2)

/-- Peeling one bind of `Except`, used to read a successful `do` block step by step. -/
theorem bind_eq_ok {ε α β : Type} {x : Except ε α} {f : α → Except ε β} {b : β}
    (h : x >>= f = .ok b) : ∃ a, x = .ok a ∧ f a = .ok b := by
  cases x with
  | error e => cases h
  | ok a => exact ⟨a, rfl, h⟩

/-- Every description a relation inserts is one of its nested fields. -/
theorem FieldDescription.mem_fields_of_keys {d : FieldDescription} {value : Value}
    {inserts : List (Key × Option FieldDescription)} (h : d.keys value = .ok inserts)
    {p : Key × Option FieldDescription} (hp : p ∈ inserts) : ∃ f ∈ d.fields, f.2 = p.2 := by
  cases d with
  | relation collection fields =>
    obtain ⟨_, -, h⟩ := bind_eq_ok h
    cases h
    obtain ⟨f, hf, rfl⟩ := List.mem_map.mp hp
    exact ⟨f, hf, rfl⟩
  | relationList collection fields =>
    obtain ⟨_, -, h⟩ := bind_eq_ok h
    cases h
    obtain ⟨_, -, hp⟩ := List.mem_flatMap.mp hp
    obtain ⟨f, hf, rfl⟩ := List.mem_map.mp hp
    exact ⟨f, hf, rfl⟩

/-! ## Bodies -/

/-- Modelled from the spec: the request `body`, a map from collection-id to the fields
requested of that object. -/
structure Body where
  /-- The requested fields of each collection-id. -/
  collections : List (String × List (String × Option FieldDescription))
  deriving Repr

/-- Modelled from the spec: `body.keys`, which inserts `collectionID/field ↦ description` into
`process` for every top-level pair of the body. The inserts are returned in order. -/
def Body.keys (body : Body) : List (Key × Option FieldDescription) :=
  body.collections.flatMap fun c ↦ c.2.map fun f ↦ (buildGenericKey c.1 f.1, f.2)

/-- The relation-nesting depth of a request: the height of its deepest top-level relation. -/
def maxDepth (bodies : List Body) : Nat :=
  FieldDescription.height.maxHeight (bodies.flatMap Body.keys)

/-- The descriptions nested one level below a possibly plain description. -/
def nested : Option FieldDescription → List (Option FieldDescription)
  | none => []
  | some d => d.fields.map Prod.snd

/-- The descriptions at relation-nesting depth `r` of the bodies: the top-level ones at depth
`0`, and the fields of a relation at depth `r` at depth `r + 1`. -/
def descriptionsAt (bodies : List Body) : Nat → List (Option FieldDescription)
  | 0 => (bodies.flatMap Body.keys).map Prod.snd
  | r + 1 => (descriptionsAt bodies r).flatMap nested

/-- A description at depth `r` leaves `r` levels less of the request below it. -/
theorem depth_add_le_maxDepth {bodies : List Body} :
    ∀ {r : Nat} {d : Option FieldDescription}, d ∈ descriptionsAt bodies r →
      depth d + r ≤ maxDepth bodies
  | 0, d, h => by
    obtain ⟨p, hp, rfl⟩ := List.mem_map.mp h
    exact depth_le_maxHeight hp
  | r + 1, d, h => by
    obtain ⟨_ | e, he, hd⟩ := List.mem_flatMap.mp h
    · cases hd
    · obtain ⟨p, hp, rfl⟩ := List.mem_map.mp hd
      have := depth_add_le_maxDepth he
      have := depth_lt_height hp
      simp only [depth_some] at *
      omega

/-- At depth `maxDepth` and below, every description is plain. -/
theorem eq_none_of_mem_descriptionsAt {bodies : List Body} {r : Nat}
    {d : Option FieldDescription} (h : d ∈ descriptionsAt bodies r) (hr : maxDepth bodies ≤ r) :
    d = none := by
  have := depth_add_le_maxDepth h
  cases d with
  | none => rfl
  | some d => simp only [depth_some, FieldDescription.height_eq] at this; omega

/-! ## Errors -/

/-- The `reflect.Kind` of the Go type a JSON value did not decode into. -/
inductive Kind where
  | bool | int | string | slice | map | struct | ptr | interface
  deriving Repr, DecidableEq

/-- `Kind.String()`, Go's name of a kind. -/
def Kind.name : Kind → String
  | bool => "bool"
  | int => "int"
  | string => "string"
  | slice => "slice"
  | map => "map"
  | struct => "struct"
  | ptr => "ptr"
  | interface => "interface"

/-- The errors of `json.NewDecoder(r).Decode`, as the request parsers tell them apart. -/
inductive DecodeError where
  /-- `io.EOF`: the reader holds no data. -/
  | eof
  /-- An `InvalidError` that a body raised while decoding itself. -/
  | invalid (msg : String)
  /-- A `*json.SyntaxError`. -/
  | syntaxError (msg : String)
  /-- A `*json.UnmarshalTypeError` at `field`: JSON type `value`, Go type of kind `kind`. -/
  | unmarshalType (field value : String) (kind : Kind)
  /-- Any other error of the decoder or the reader. -/
  | other (msg : String)
  deriving Repr, DecidableEq

/-- The errors of the package as the code builds and wraps them. `InvalidError`, `JSONError`
and `ValueError` are declared in a file that is not among the sources; their fields are the
ones the sources fill in. -/
inductive Error where
  /-- `InvalidError{msg}`: a malformed request. -/
  | invalid (msg : String)
  /-- `JSONError{err}`: the decoder's error, wrapped. -/
  | json (err : DecodeError)
  /-- `ValueError{key, gotType, expectType}`: a fetched value does not fit its relation. -/
  | value (key gotType expectType : String)
  /-- An error of `fieldDescription.keys` other than a type error, returned as it is. -/
  | keys (err : KeysError)
  /-- An error of `DataProvider.RestrictedData`. -/
  | restrictedData (msg : String)
  /-- An error of the decoder that `ManyFromJSON` does not classify. -/
  | decode (err : DecodeError)
  /-- `fmt.Errorf("<context>: %w", err)`. -/
  | wrap (context : String) (err : Error)
  deriving Repr, DecidableEq

end Keysbuilder
