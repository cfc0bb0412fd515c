import CuttleDB.JsNumbers
import CuttleDB.Lib.Json
import CuttleDB.Lib.Utf8

/-!
# The search client

`_get` of both clients: one request, and what becomes of it. The response is decoded, or
`CuttleSearchError` tells what went wrong; both clients let some exceptions of what they
call pass, not the same ones. How deep containers may be nested depends on the interpreter
and on where `_get` is called; it is a parameter, `depth` in Python and `stack` in
JavaScript.
-/

namespace CuttleDB

/-! ### Requests and responses -/

/-- What becomes of a request, redirects included. -/
inductive Outcome where
  | unreachable (reason : Text) -- no connection, or the request cannot be sent
  | unanswered (reason : Text) -- the connection fails before the response begins
  | interrupted (status : Nat) -- the connection fails before the body is complete
  | response (status : Nat) (body : List UInt8)

/-- The HTTP status, if there was a response. -/
def Outcome.status? : Outcome → Option Nat
  | unreachable _ => none
  | unanswered _ => none
  | interrupted status => some status
  | response status _ => some status

/-- `CuttleSearchError`. A message or a code from the server may be any JSON value. -/
structure CuttleSearchError where
  message : Json.Value
  code : Json.Value
  status : Option Nat

/-- What `_get` raises. -/
inductive SearchRaised where
  | search (e : CuttleSearchError)
  | connection -- an error of the connection or of the HTTP library
  | notUtf8 -- `UnicodeDecodeError`
  | notLoaded -- `JSONDecodeError`, or `ValueError` or `RecursionError` of `json.loads`
  | attribute -- `AttributeError`: no `get`
  | conversion -- `TypeError`: cannot convert object to primitive value, or `RangeError`

/-- Status 2xx. -/
def isSuccess (status : Nat) : Bool := 200 ≤ status && status < 300

def jsonText (t : Text) : Json.Value := .str (Json.points t)

def connectionFailed (reason : Text) : CuttleSearchError :=
  ⟨jsonText ("connection failed: ".toList ++ reason), .null, none⟩

/-- `HTTP ` and the status -/
def httpMessage (status : Nat) : Json.Value :=
  jsonText ("HTTP ".toList ++ Nat.toDigits 10 status)

/-! ### The Python client -/

namespace Py

/-- What `urlopen` does. The body is `none` if `read` raises. -/
inductive Urlopen where
  | opened (body : Option (List UInt8))
  | httpError (code : Nat) (body : Option (List UInt8))
  | urlError (reason : Text)
  | otherError

/-- Only what fails before the response is awaited becomes a `URLError`. -/
def urlopen : Outcome → Urlopen
  | .unreachable reason => .urlError reason
  | .unanswered _ => .otherError
  | .interrupted status => if isSuccess status then .opened none else .httpError status none
  | .response status body =>
    if isSuccess status then .opened (some body) else .httpError status (some body)

mutual

/-- Arrays and objects are nested at most `depth` deep, and `int` reads every integer. -/
def isWithin : Nat → Json.Value → Bool
  | _, .int n => Fits n
  | depth + 1, .arr items => areWithin depth items
  | depth + 1, .obj fields => fieldsAreWithin depth fields
  | 0, .arr _ => false
  | 0, .obj _ => false
  | _, _ => true

def areWithin : Nat → List Json.Value → Bool
  | _, [] => true
  | depth, v :: items => isWithin depth v && areWithin depth items

def fieldsAreWithin : Nat → List (List Json.Point × Json.Value) → Bool
  | _, [] => true
  | depth, (_, v) :: fields => isWithin depth v && fieldsAreWithin depth fields

end

/-- `json.loads`; `none` is an exception. -/
def jsonLoads (depth : Nat) (text : Text) : Option Json.Value :=
  (Json.decode text).filter (isWithin depth)

/-- `value.get(key, default)`, where `value` is any JSON value -/
def dictGet (key : Text) (default : Json.Value) : Json.Value → Except SearchRaised Json.Value
  | .obj fields => .ok ((Json.field? (Json.points key) fields).getD default)
  | _ => .error .attribute

/-- `_get` -/
def searchGet (depth : Nat) (o : Outcome) : Except SearchRaised Json.Value :=
  match urlopen o with
  | .opened none => .error .connection
  | .opened (some data) =>
    match Utf8.decode? data with
    | none => .error .notUtf8
    | some raw =>
      if raw = [] then .ok (.obj [])
      else
        match jsonLoads depth raw with
        | some body => .ok body
        | none => .error .notLoaded
  | .httpError _ none => .error .connection
  | .httpError code (some data) =>
    match jsonLoads depth (Utf8.decodeReplacing data) with
    | none => .error (.search ⟨httpMessage code, .null, some code⟩)
    | some body => do
      let err ←
        match body with
        | .obj _ => dictGet "error".toList (.obj []) body
        | _ => .ok (.obj [])
      let message ← dictGet "message".toList (httpMessage code) err
      let errCode ← dictGet "code".toList .null err
      .error (.search ⟨message, errCode, some code⟩)
  | .urlError reason => .error (.search (connectionFailed reason))
  | .otherError => .error .connection

end Py

/-! ### The JavaScript client -/

namespace Js

/-- What `fetch` does: it rejects, or there is a response. The body is `none` if `text`
rejects. -/
def fetch : Outcome → Except Text (Nat × Option (List UInt8))
  | .unreachable reason => .error reason
  | .unanswered reason => .error reason
  | .interrupted status => .ok (status, none)
  | .response status body => .ok (status, some body)

/-- `res.text()`, which takes a byte order mark off -/
def bodyText (data : List UInt8) : Text :=
  Utf8.decodeReplacing (if data.take 3 = [0xEF, 0xBB, 0xBF] then data.drop 3 else data)

mutual

/-- No number in the value is infinite or `NaN`, which JSON does not have. -/
def isStandard : Json.Value → Bool
  | .float text =>
    text ≠ "NaN".toList && text ≠ "Infinity".toList && text ≠ "-Infinity".toList
  | .arr items => areStandard items
  | .obj fields => fieldsAreStandard fields
  | _ => true

def areStandard : List Json.Value → Bool
  | [] => true
  | v :: items => isStandard v && areStandard items

def fieldsAreStandard : List (List Json.Point × Json.Value) → Bool
  | [] => true
  | (_, v) :: fields => isStandard v && fieldsAreStandard fields

end

/-- `JSON.parse` -/
def jsonParse (text : Text) : Option Json.Value := (Json.decode text).filter isStandard

/-- Whether a value counts as true. -/
def truthy : Json.Value → Bool
  | .null => false
  | .bool b => b
  | .int n => Binary64.ofRat n ≠ .finite 0
  | .float text => number text ≠ .finite 0
  | .str s => s ≠ []
  | .arr _ => true
  | .obj _ => true

/-- `value.name`; `none` is `undefined`. -/
def member (name : Text) : Json.Value → Option Json.Value
  | .obj fields => Json.field? (Json.points name) fields
  | _ => none

/-- `value || default` -/
def orElse (value : Option Json.Value) (default : Json.Value) : Json.Value :=
  match value with
  | some v => if truthy v then v else default
  | none => default

mutual

/-- The text of a value that the constructor of `Error` makes; `none` is a `TypeError`, or a
`RangeError` where arrays are nested more than `stack` deep. A member `toString` of an object
hides the method and cannot be called. -/
def toString? : Nat → Json.Value → Option (List Json.Point)
  | _, .null => some (Json.points "null".toList)
  | _, .bool b => some (Json.points (if b then "true".toList else "false".toList))
  | _, .int n => some (Json.points (numberText (Binary64.ofRat n)))
  | _, .float text => some (Json.points (numberText (number text)))
  | _, .str s => some s
  | 0, .arr _ => none
  | stack + 1, .arr items => (itemTexts? stack items).map [Json.point ','].intercalate
  | _, .obj fields =>
    if (Json.field? (Json.points "toString".toList) fields).isSome then none
    else some (Json.points "[object Object]".toList)

/-- The texts of the items of an array; an item `null` is left empty. -/
def itemTexts? : Nat → List Json.Value → Option (List (List Json.Point))
  | _, [] => some []
  | stack, .null :: items => (itemTexts? stack items).map ([] :: ·)
  | stack, v :: items => do
    let t ← toString? stack v
    let ts ← itemTexts? stack items
    some (t :: ts)

end

/-- `_get` -/
def searchGet (stack : Nat) (o : Outcome) : Except SearchRaised Json.Value :=
  match fetch o with
  | .error reason => .error (.search (connectionFailed reason))
  | .ok (_, none) => .error .connection
  | .ok (status, some data) =>
    let text := bodyText data
    match if text ≠ [] then jsonParse text else some (.obj []) with
    | none =>
      .error (.search
        ⟨jsonText ("non-JSON response (HTTP ".toList ++ Nat.toDigits 10 status ++ [')']), .null,
          some status⟩)
    | some body =>
      if ¬ isSuccess status then
        let err := orElse (if truthy body then member "error".toList body else some body) (.obj [])
        match toString? stack (orElse (member "message".toList err) (httpMessage status)) with
        | none => .error .conversion
        | some message =>
          .error (.search ⟨.str message, (member "code".toList err).getD .null, some status⟩)
      else .ok body

end Js

/-! ### What the callers rely on -/

/-- The body of a successful response is returned, or `CuttleSearchError` carries the
status of the response if there was one. -/
def Uniform (decoded : List UInt8 → Option Json.Value) (o : Outcome) :
    Except SearchRaised Json.Value → Prop
  | .ok v => ∃ status data, o = .response status data ∧ isSuccess status ∧ decoded data = some v
  | .error (.search e) => e.status = o.status?
  | .error _ => False

/-- Another exception than `CuttleSearchError` passes. -/
def escapes : Except SearchRaised Json.Value → Bool
  | .ok _ => false
  | .error (.search _) => false
  | .error _ => true

theorem not_uniform_of_escapes {decoded : List UInt8 → Option Json.Value} {o : Outcome}
    {r : Except SearchRaised Json.Value} (h : escapes r = true) : ¬ Uniform decoded o r := by
  cases r with
  | ok v => cases h
  | error e =>
    cases e with
    | search e => cases h
    | _ => exact id

namespace Py

/-- What a body stands for: UTF-8 of one JSON text or of none. -/
def decodedBody (data : List UInt8) : Option Json.Value := do
  let raw ← Utf8.decode? data
  if raw = [] then some (.obj []) else Json.decode raw

/-- The body of a response that is no success has no `error`, or an object as one. -/
def ErrorIsObject (depth : Nat) (data : List UInt8) : Prop :=
  ∀ fields err, jsonLoads depth (Utf8.decodeReplacing data) = some (.obj fields) →
    Json.field? (Json.points "error".toList) fields = some err → ∃ members, err = .obj members

/-- The body of a success is empty, or UTF-8 and JSON within the limits. -/
def Loadable (depth : Nat) (data : List UInt8) : Prop :=
  ∃ raw, Utf8.decode? data = some raw ∧
    (raw = [] ∨ ∃ v, Json.decode raw = some v ∧ isWithin depth v = true)

/-- The outcomes that `_get` is written for. -/
def Handled (depth : Nat) : Outcome → Prop
  | .unreachable _ => True
  | .unanswered _ => False
  | .interrupted _ => False
  | .response status data =>
    if isSuccess status then Loadable depth data else ErrorIsObject depth data

theorem jsonLoads_eq_some {depth : Nat} {text : Text} {v : Json.Value} :
    jsonLoads depth text = some v ↔ Json.decode text = some v ∧ isWithin depth v = true :=
  Option.filter_eq_some_iff

/-- A success is read, or an exception of the decoders passes. -/
theorem searchGet_success {depth status : Nat} (hstatus : isSuccess status = true)
    (data : List UInt8) :
    (Loadable depth data ∧ ∃ v, decodedBody data = some v ∧
        searchGet depth (.response status data) = .ok v) ∨
      (¬ Loadable depth data ∧ (searchGet depth (.response status data) = .error .notUtf8 ∨
        searchGet depth (.response status data) = .error .notLoaded)) := by
  have hopened : urlopen (.response status data) = .opened (some data) := by
    simp [urlopen, hstatus]
  rw [searchGet, hopened, decodedBody]
  cases hraw : Utf8.decode? data with
  | none =>
    refine Or.inr ⟨?_, Or.inl (by simp only [hraw])⟩
    rintro ⟨raw, hsome, -⟩
    rw [hraw] at hsome
    cases hsome
  | some raw =>
    have hloadable : Loadable depth data ↔ raw = [] ∨ ∃ v, jsonLoads depth raw = some v := by
      simp only [Loadable, hraw, Option.some.injEq, exists_eq_left', jsonLoads_eq_some]
    rw [hloadable]
    by_cases hempty : raw = []
    · exact Or.inl ⟨Or.inl hempty, .obj [], by simp [hempty], by simp [hraw, hempty]⟩
    · cases hjson : jsonLoads depth raw with
      | none => exact Or.inr ⟨by simp [hempty], Or.inr (by simp [hraw, hempty, hjson])⟩
      | some v =>
        refine Or.inl ⟨Or.inr ⟨v, rfl⟩, v, ?_, by simp [hraw, hempty, hjson]⟩
        simpa [hempty] using (jsonLoads_eq_some.mp hjson).1

/-- What is no success is an error with its status, or `get` is missing. -/
theorem searchGet_httpError {depth status : Nat} (hstatus : isSuccess status = false)
    (data : List UInt8) :
    (ErrorIsObject depth data ∧ ∃ message code, searchGet depth (.response status data) =
        .error (.search ⟨message, code, some status⟩)) ∨
      (¬ ErrorIsObject depth data ∧
        searchGet depth (.response status data) = .error .attribute) := by
  have hopened : urlopen (.response status data) = .httpError status (some data) := by
    simp [urlopen, hstatus]
  rw [searchGet, hopened]
  have hshape : ∀ body, jsonLoads depth (Utf8.decodeReplacing data) = some body →
      (∀ fields, body ≠ .obj fields) → ErrorIsObject depth data := by
    intro body hbody hnot fields err h
    rw [hbody] at h
    exact absurd (Option.some.inj h) (hnot fields)
  cases hbody : jsonLoads depth (Utf8.decodeReplacing data) with
  | none =>
    refine Or.inl ⟨fun fields err h => ?_, httpMessage status, .null, by simp only [hbody]⟩
    rw [hbody] at h
    cases h
  | some body =>
    simp only [hbody]
    cases body with
    | obj fields =>
      cases herr : Json.field? (Json.points "error".toList) fields with
      | none =>
        refine Or.inl ⟨fun fields' err h hfield => ?_, ?_⟩
        · obtain rfl := Json.Value.obj.inj (Option.some.inj (hbody.symm.trans h))
          rw [herr] at hfield
          cases hfield
        · rw [dictGet, herr]
          exact ⟨_, _, rfl⟩
      | some err =>
        have hget : dictGet "error".toList (.obj []) (.obj fields) = .ok err := by
          rw [dictGet, herr]
          rfl
        have hnot : (∀ members, err ≠ .obj members) → ¬ ErrorIsObject depth data := by
          intro hne h
          obtain ⟨members, hobj⟩ := h fields err hbody herr
          exact hne members hobj
        rw [hget]
        cases err with
        | obj members =>
          refine Or.inl ⟨fun fields' err h hfield => ?_, _, _, rfl⟩
          obtain rfl := Json.Value.obj.inj (Option.some.inj (hbody.symm.trans h))
          exact ⟨members, Option.some.inj (hfield.symm.trans herr)⟩
        | _ => exact Or.inr ⟨hnot (fun members h => by cases h), rfl⟩
    | _ => exact Or.inl ⟨hshape _ hbody (fun fields h => by cases h), _, _, rfl⟩

theorem searchGet_uniform_iff (depth : Nat) (o : Outcome) :
    Uniform decodedBody o (searchGet depth o) ↔ Handled depth o := by
  cases o with
  | unreachable reason => exact ⟨fun _ => trivial, fun _ => rfl⟩
  | unanswered reason => exact ⟨fun h => h, fun h => h.elim⟩
  | interrupted status =>
    refine ⟨fun h => ?_, fun h => h.elim⟩
    have hraised : searchGet depth (.interrupted status) = .error .connection := by
      cases hstatus : isSuccess status <;> simp [searchGet, urlopen, hstatus]
    rw [hraised] at h
    exact h
  | response status data =>
    cases hstatus : isSuccess status with
    | true =>
      have hhandled : Handled depth (.response status data) ↔ Loadable depth data := by
        simp [Handled, hstatus]
      rw [hhandled]
      rcases searchGet_success hstatus data with ⟨hload, v, hbody, hget⟩ | ⟨hload, hget⟩
      · rw [hget]
        exact ⟨fun _ => hload, fun _ => ⟨status, data, rfl, hstatus, hbody⟩⟩
      · refine ⟨fun h => ?_, fun h => absurd h hload⟩
        rcases hget with hget | hget <;> rw [hget] at h <;> exact h.elim
    | false =>
      have hhandled : Handled depth (.response status data) ↔ ErrorIsObject depth data := by
        simp [Handled, hstatus]
      rw [hhandled]
      rcases searchGet_httpError hstatus data with ⟨herror, message, code, hget⟩ | ⟨herror, hget⟩
      · rw [hget]
        exact ⟨fun _ => herror, fun _ => rfl⟩
      · rw [hget]
        exact ⟨fun h => h.elim, fun h => (herror h).elim⟩

end Py

namespace Js

mutual

/-- No object in the value, arrays looked through, has a member `toString`, and the arrays are
nested at most `stack` deep. -/
def convertible : Nat → Json.Value → Bool
  | 0, .arr _ => false
  | stack + 1, .arr items => areConvertible stack items
  | _, .obj fields => (Json.field? (Json.points "toString".toList) fields).isNone
  | _, _ => true

def areConvertible : Nat → List Json.Value → Bool
  | _, [] => true
  | stack, v :: items => convertible stack v && areConvertible stack items

end

mutual

theorem toString?_isSome (stack : Nat) :
    (v : Json.Value) → (toString? stack v).isSome = convertible stack v
  | .null | .bool _ | .int _ | .float _ | .str _ => by cases stack <;> rfl
  | .arr items => by
    cases stack with
    | zero => rfl
    | succ stack => simp [toString?, convertible, itemTexts?_isSome stack items]
  | .obj fields => by
    rw [toString?, convertible]
    cases Json.field? (Json.points "toString".toList) fields <;> rfl

theorem itemTexts?_isSome (stack : Nat) : (items : List Json.Value) →
    (itemTexts? stack items).isSome = areConvertible stack items
  | [] => by simp [itemTexts?, areConvertible]
  | v :: items => by
    have hitems := itemTexts?_isSome stack items
    have hhead := toString?_isSome stack v
    rw [areConvertible, ← hitems, ← hhead]
    cases v with
    | null =>
      rw [itemTexts?, Option.isSome_map]
      simp [toString?]
    | _ =>
      rw [itemTexts?]
      · generalize toString? _ _ = text
        cases text <;> cases itemTexts? stack items <;> rfl
      · exact fun h => by cases h

end

/-- What a body stands for: one JSON text or none. -/
def decodedBody (data : List UInt8) : Option Json.Value :=
  if bodyText data ≠ [] then jsonParse (bodyText data) else some (.obj [])

/-- The message of the error in the body, if there is one, can be converted to a string. -/
def MessageConverts (stack : Nat) (data : List UInt8) : Prop :=
  ∀ fields err message, jsonParse (bodyText data) = some (.obj fields) →
    Json.field? (Json.points "error".toList) fields = some (.obj err) →
    Json.field? (Json.points "message".toList) err = some message →
    convertible stack message = true

/-- The outcomes that `_get` is written for. -/
def Handled (stack : Nat) : Outcome → Prop
  | .unreachable _ => True
  | .unanswered _ => True
  | .interrupted _ => False
  | .response status data => isSuccess status = true ∨ MessageConverts stack data

/-- What counts as false has no members and can be converted. -/
theorem of_not_truthy {v : Json.Value} (hv : truthy v = false) :
    (∀ name, member name v = none) ∧ ∀ stack, convertible stack v = true := by
  cases v with
  | arr items => cases hv
  | obj fields => cases hv
  | _ => exact ⟨fun _ => rfl, fun stack => by cases stack <;> rfl⟩

theorem member_orElse (name : Text) (v : Option Json.Value) :
    member name (orElse v (.obj [])) = v.bind (member name) := by
  cases v with
  | none => rfl
  | some v =>
    rw [orElse, Option.bind_some]
    cases hv : truthy v with
    | true => rfl
    | false => exact ((of_not_truthy hv).1 name).symm

/-- The error in a body is looked up in what the body is. -/
theorem orElse_error (body : Json.Value) :
    orElse (if truthy body then member "error".toList body else some body) (.obj []) =
      orElse (member "error".toList body) (.obj []) := by
  cases hbody : truthy body with
  | true => rfl
  | false =>
    rw [(of_not_truthy hbody).1]
    simp [orElse, hbody]

theorem convertible_message (stack : Nat) (v : Option Json.Value) (status : Nat) :
    convertible stack (orElse v (httpMessage status)) = true ↔
      ∀ m, v = some m → convertible stack m = true := by
  have hdefault : convertible stack (httpMessage status) = true := by cases stack <;> rfl
  cases v with
  | none => simp [orElse, hdefault]
  | some v =>
    rw [orElse]
    cases hv : truthy v with
    | true => simp
    | false => simp [(of_not_truthy hv).2, hdefault]

theorem bodyText_ne_nil {data : List UInt8} {v : Json.Value}
    (h : jsonParse (bodyText data) = some v) : bodyText data ≠ [] := by
  intro hnil
  rw [hnil] at h
  cases h

theorem decodedBody_of_jsonParse {data : List UInt8} {v : Json.Value}
    (h : jsonParse (bodyText data) = some v) : decodedBody data = some v := by
  rw [decodedBody, if_pos (bodyText_ne_nil h), h]

theorem messageConverts_iff {stack : Nat} {data : List UInt8} {body : Json.Value}
    (hbody : decodedBody data = some body) :
    MessageConverts stack data ↔
      ∀ m, (member "error".toList body).bind (member "message".toList) = some m →
        convertible stack m = true := by
  have hmember : ∀ name v m, member name v = some m → ∃ fields, v = .obj fields ∧
      Json.field? (Json.points name) fields = some m := by
    intro name v m h
    cases v with
    | obj fields => exact ⟨fields, rfl, h⟩
    | _ => cases h
  have hparsed : ∀ fields, jsonParse (bodyText data) = some (.obj fields) → body = .obj fields :=
    fun fields h => Option.some.inj (hbody.symm.trans (decodedBody_of_jsonParse h))
  constructor
  · intro h m hm
    obtain ⟨err, herr, hmessage⟩ := Option.bind_eq_some_iff.mp hm
    obtain ⟨fields, rfl, hfield⟩ := hmember _ _ _ herr
    obtain ⟨members, rfl, hfield'⟩ := hmember _ _ _ hmessage
    have hne : bodyText data ≠ [] := by
      intro hnil
      simp [decodedBody, hnil] at hbody
      subst hbody
      cases hfield
    rw [decodedBody, if_pos hne] at hbody
    exact h fields members m hbody hfield hfield'
  · intro h fields err m hfields hfield hfield'
    apply h m
    rw [hparsed fields hfields, member, hfield, Option.bind_some, member, hfield']

/-- What `_get` does with a response: a text that is no JSON, a success, and an error whose
message converts or does not. -/
theorem searchGet_response (stack status : Nat) (data : List UInt8) :
    match decodedBody data with
    | none => ∃ message code, searchGet stack (.response status data) =
        .error (.search ⟨message, code, some status⟩)
    | some body =>
      if isSuccess status then searchGet stack (.response status data) = .ok body
      else
        (MessageConverts stack data ∧ ∃ message code, searchGet stack (.response status data) =
            .error (.search ⟨message, code, some status⟩)) ∨
          (¬ MessageConverts stack data ∧
            searchGet stack (.response status data) = .error .conversion) := by
  have hread : (if bodyText data ≠ [] then jsonParse (bodyText data) else some (.obj [])) =
      decodedBody data := rfl
  rw [searchGet, fetch]
  dsimp only
  rw [hread]
  cases hbody : decodedBody data with
  | none => exact ⟨_, _, rfl⟩
  | some body =>
    dsimp only
    cases hstatus : isSuccess status with
    | true => rfl
    | false =>
      have hconverts : MessageConverts stack data ↔ _ := messageConverts_iff hbody
      rw [← convertible_message _ _ status, ← member_orElse, ← orElse_error,
        ← toString?_isSome] at hconverts
      simp only [Bool.false_eq_true, if_false, not_false_eq_true, if_true]
      rw [hconverts]
      generalize toString? _ _ = text
      cases text with
      | none => exact Or.inr ⟨by simp, rfl⟩
      | some text => exact Or.inl ⟨rfl, _, _, rfl⟩

theorem searchGet_uniform_iff (stack : Nat) (o : Outcome) :
    Uniform decodedBody o (searchGet stack o) ↔ Handled stack o := by
  cases o with
  | unreachable reason => exact ⟨fun _ => trivial, fun _ => rfl⟩
  | unanswered reason => exact ⟨fun _ => trivial, fun _ => rfl⟩
  | interrupted status => exact ⟨fun h => h.elim, fun h => h.elim⟩
  | response status data =>
    have hget := searchGet_response stack status data
    cases hbody : decodedBody data with
    | none =>
      have hvacuous : MessageConverts stack data := by
        intro fields err message h
        rw [decodedBody_of_jsonParse h] at hbody
        cases hbody
      rw [hbody] at hget
      obtain ⟨message, code, hget⟩ := hget
      rw [hget]
      exact ⟨fun _ => Or.inr hvacuous, fun _ => rfl⟩
    | some body =>
      rw [hbody] at hget
      cases hstatus : isSuccess status with
      | true =>
        simp only [hstatus, if_true] at hget
        rw [hget]
        exact ⟨fun _ => Or.inl hstatus, fun _ => ⟨status, data, rfl, hstatus, hbody⟩⟩
      | false =>
        have hhandled : Handled stack (.response status data) ↔ MessageConverts stack data := by
          simp [Handled, hstatus]
        simp only [hstatus, Bool.false_eq_true, if_false] at hget
        rw [hhandled]
        rcases hget with ⟨hconverts, message, code, hget⟩ | ⟨hconverts, hget⟩
        · rw [hget]
          exact ⟨fun _ => hconverts, fun _ => rfl⟩
        · rw [hget]
          exact ⟨fun h => h.elim, fun h => (hconverts h).elim⟩

end Js

/-- **What the search clients raise.** Each `_get` returns the decoded body of a success or
raises `CuttleSearchError` with the status, just in the outcomes that it is written for. -/
theorem search_errors_iff (depth stack : Nat) (o : Outcome) :
    (Uniform Py.decodedBody o (Py.searchGet depth o) ↔ Py.Handled depth o) ∧
      (Uniform Js.decodedBody o (Js.searchGet stack o) ↔ Js.Handled stack o) :=
  ⟨Py.searchGet_uniform_iff depth o, Js.searchGet_uniform_iff stack o⟩

/-- A success that is no JSON, and an error that is no object, pass the Python client; a
message with a `toString` of its own passes the JavaScript client. -/
theorem search_errors_escape :
    let plain := Outcome.response 200 (Utf8.encode "OK".toList)
    let badGateway := Outcome.response 502
      (Utf8.encode "\x7b\"error\": \"Bad Gateway\"\x7d".toList)
    let hidden := Outcome.response 500
      (Utf8.encode "\x7b\"error\": \x7b\"message\": \x7b\"toString\": 0\x7d\x7d\x7d".toList)
    ¬ Uniform Py.decodedBody plain (Py.searchGet 900 plain) ∧
      ¬ Uniform Py.decodedBody badGateway (Py.searchGet 900 badGateway) ∧
      ¬ Uniform Js.decodedBody hidden (Js.searchGet 3000 hidden) := by
  refine ⟨not_uniform_of_escapes ?_, not_uniform_of_escapes ?_, not_uniform_of_escapes ?_⟩
  · decide +kernel
  · decide +kernel
  · decide +kernel

end CuttleDB
