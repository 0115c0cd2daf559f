import OpenSlidesAutoupdate.Keysbuilder.Run

/-!
# Parsing a keys request

`FromJSON` decodes one body and `ManyFromJSON` a list of bodies, and both build a `Builder` from
what they decoded, with a first `Update`. The decoding is Go's `encoding/json` together with the
bodies' own unmarshalling, which is not among the sources: its outcome, a value or one of the
errors `DecodeError` tells apart, is the input of the parsers here.

The two parsers sort the decoder's errors differently. Both report an empty reader as
`InvalidError{"No data"}` and pass an `InvalidError` of a body through; `ManyFromJSON` reports a
type error as an `InvalidError` naming the field and the expected type, and wraps an error it
does not know, where `FromJSON` turns every other error into a `JSONError`
(`fromJSON_eq_manyFromJSON_iff`). On a decoded request they agree (`manyFromJSON_singleton`).
-/

namespace Keysbuilder

/-- The expected type `ManyFromJSON` names in a type error: by the kind of the Go type the value
did not decode into. -/
def expectType (kind : Kind) : String :=
  match kind with
  | .struct => "object"
  | .slice => "list"
  | .int => "number"
  | k => k.name

/-- The message of the `InvalidError` for a type error at `field`. -/
def wrongTypeMessage (field value : String) (kind : Kind) : String :=
  "wrong type at field `" ++ field ++ "`. Got " ++ value ++ ", expected " ++ expectType kind

/-- The outcome of building the keys after decoding, as both parsers report it. -/
def buildKeys (rd : RestrictedData) (s : Schedule) (fuel : Nat) (bodies : List Body) :
    Option (Except Error Builder) :=
  (newBuilder rd s fuel bodies).map fun
    | .ok kb => .ok kb
    | .error err => .error (.wrap "build keys" err)

/-- `FromJSON`: a builder of one decoded body. -/
def fromJSON (decoded : Except DecodeError Body) (rd : RestrictedData) (s : Schedule)
    (fuel : Nat) : Option (Except Error Builder) :=
  match decoded with
  | .error .eof => some (.error (.invalid "No data"))
  | .error (.invalid msg) => some (.error (.invalid msg))
  | .error err => some (.error (.json err))
  | .ok body => buildKeys rd s fuel [body]

/-- `ManyFromJSON`: a builder of a decoded, non-empty list of bodies. -/
def manyFromJSON (decoded : Except DecodeError (List Body)) (rd : RestrictedData) (s : Schedule)
    (fuel : Nat) : Option (Except Error Builder) :=
  match decoded with
  | .error .eof => some (.error (.invalid "No data"))
  | .error (.invalid msg) => some (.error (.invalid msg))
  | .error (.syntaxError msg) => some (.error (.json (.syntaxError msg)))
  | .error (.unmarshalType field value kind) =>
    some (.error (.invalid (wrongTypeMessage field value kind)))
  | .error err => some (.error (.wrap "decode keysrequest" (.decode err)))
  | .ok [] => some (.error (.invalid "No data"))
  | .ok bodies => buildKeys rd s fuel bodies

section Parse

variable {rd : RestrictedData} {s : Schedule} {fuel : Nat}

theorem buildKeys_eq_ok_iff {bodies : List Body} {kb : Builder} :
    buildKeys rd s fuel bodies = some (.ok kb) ↔ newBuilder rd s fuel bodies = some (.ok kb) := by
  unfold buildKeys
  rcases newBuilder rd s fuel bodies with _ | _ | kb' <;> simp

/-- `newBuilder` builds a builder exactly when the first `Update` succeeds, and the builder is the
one `Update` leaves. -/
theorem newBuilder_eq_ok_iff {bodies : List Body} {kb : Builder} :
    newBuilder rd s fuel bodies = some (.ok kb) ↔
      ({ bodies, keys := [] } : Builder).update rd s fuel = some (kb, none) := by
  unfold newBuilder
  rcases ({ bodies, keys := [] } : Builder).update rd s fuel with _ | ⟨b, _ | err⟩ <;> simp

/-- `ManyFromJSON` builds a builder exactly from a decoded non-empty list of bodies whose first
`Update` succeeds, and the builder is the one `newBuilder` makes. -/
theorem manyFromJSON_eq_ok_iff {decoded : Except DecodeError (List Body)} {kb : Builder} :
    manyFromJSON decoded rd s fuel = some (.ok kb) ↔
      ∃ bodies, decoded = .ok bodies ∧ bodies ≠ [] ∧ newBuilder rd s fuel bodies = some (.ok kb) := by
  rcases decoded with err | _ | ⟨body, bodies⟩
  · cases err <;> simp [manyFromJSON]
  · simp [manyFromJSON]
  · simp [manyFromJSON, buildKeys_eq_ok_iff]

/-- `FromJSON` builds a builder of a decoded body exactly when the first `Update` of the body
succeeds. -/
theorem fromJSON_eq_ok_iff {body : Body} {kb : Builder} :
    fromJSON (.ok body) rd s fuel = some (.ok kb) ↔
      ({ bodies := [body], keys := [] } : Builder).update rd s fuel = some (kb, none) :=
  buildKeys_eq_ok_iff.trans newBuilder_eq_ok_iff

/-- On a single decoded body the two parsers agree. -/
theorem manyFromJSON_singleton (body : Body) :
    manyFromJSON (.ok [body]) rd s fuel = fromJSON (.ok body) rd s fuel := rfl

/-- On a decoding error the two parsers agree exactly when the error is an empty reader, an
`InvalidError` of a body or a syntax error. -/
theorem fromJSON_eq_manyFromJSON_iff (err : DecodeError) :
    fromJSON (.error err) rd s fuel = manyFromJSON (.error err) rd s fuel ↔
      err = .eof ∨ (∃ msg, err = .invalid msg) ∨ ∃ msg, err = .syntaxError msg := by
  cases err <;> simp [fromJSON, manyFromJSON]

end Parse

end Keysbuilder
