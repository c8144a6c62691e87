import ApiAnnotation.Number
import ApiAnnotation.SortedMap.Basic

/-!
# JSON values

A value keeps the members of an object as a list. The members of a record stand in the order of its
fields; those of a free object are sorted by key, each key standing once, when the value is in
normal form (`ApiAnnotation.Json.normal`).
-/

namespace ApiAnnotation

/-- A JSON value. -/
inductive Json where
  /-- The value `null`. -/
  | null
  /-- One of the truth values. -/
  | bool (b : Bool)
  /-- A number. -/
  | number (n : Number)
  /-- A text. -/
  | string (s : String)
  /-- A list of values. -/
  | array (items : List Json)
  /-- Values by key. -/
  | object (members : List (String × Json))
deriving Repr, Inhabited

namespace Json

/-! ### Equality -/

mutual

/-- Equality of values is decidable. -/
protected def decEq : (a b : Json) → Decidable (a = b)
  | null, null => isTrue rfl
  | bool a, bool b => decidable_of_iff (a = b) (by simp)
  | number a, number b => decidable_of_iff (a = b) (by simp)
  | string a, string b => decidable_of_iff (a = b) (by simp)
  | array as, array bs =>
    match Json.decEqItems as bs with
    | isTrue h => isTrue (by rw [h])
    | isFalse h => isFalse (by simpa using h)
  | object as, object bs =>
    match Json.decEqMembers as bs with
    | isTrue h => isTrue (by rw [h])
    | isFalse h => isFalse (by simpa using h)
  | null, bool _ | null, number _ | null, string _ | null, array _ | null, object _
  | bool _, null | bool _, number _ | bool _, string _ | bool _, array _ | bool _, object _
  | number _, null | number _, bool _ | number _, string _ | number _, array _
  | number _, object _ | string _, null | string _, bool _ | string _, number _
  | string _, array _ | string _, object _ | array _, null | array _, bool _
  | array _, number _ | array _, string _ | array _, object _ | object _, null
  | object _, bool _ | object _, number _ | object _, string _ | object _, array _ =>
    isFalse (by simp)

/-- Equality of lists of values is decidable. -/
protected def decEqItems : (as bs : List Json) → Decidable (as = bs)
  | [], [] => isTrue rfl
  | [], _ :: _ | _ :: _, [] => isFalse (by simp)
  | a :: as, b :: bs =>
    match Json.decEq a b, Json.decEqItems as bs with
    | isTrue h, isTrue h' => isTrue (by rw [h, h'])
    | isFalse h, _ => isFalse (by simp [h])
    | _, isFalse h => isFalse (by simp [h])

/-- Equality of lists of members is decidable. -/
protected def decEqMembers : (as bs : List (String × Json)) → Decidable (as = bs)
  | [], [] => isTrue rfl
  | [], _ :: _ | _ :: _, [] => isFalse (by simp)
  | (k, a) :: as, (l, b) :: bs =>
    match decEq k l, Json.decEq a b, Json.decEqMembers as bs with
    | isTrue h, isTrue h', isTrue h'' => isTrue (by rw [h, h', h''])
    | isFalse h, _, _ => isFalse (by simp [h])
    | _, isFalse h, _ => isFalse (by simp [h])
    | _, _, isFalse h => isFalse (by simp [h])

end

instance : DecidableEq Json := Json.decEq

/-! ### Normal form -/

mutual

/-- The normal form of a value: the members of every object are sorted by key, the last one of each
key being kept, and a number that cannot be written becomes `null`. -/
def normal : Json → Json
  | null => null
  | bool b => bool b
  | number n => if n.isFinite then number n else null
  | string s => string s
  | array items => array (normalItems items)
  | object members => object (Entries.sort (normalMembers members))

/-- The normal forms of a list of values. -/
def normalItems : List Json → List Json
  | [] => []
  | item :: items => item.normal :: normalItems items

/-- The members with the normal forms of their values. -/
def normalMembers : List (String × Json) → List (String × Json)
  | [] => []
  | (key, value) :: members => (key, value.normal) :: normalMembers members

end

/-! ### Building values -/

/-- The object of a record: its members in order, those without a value left out. -/
def record (members : List (String × Option Json)) : Json :=
  object (members.filterMap fun (key, value) => value.map (key, ·))

/-- A list of texts. -/
def strings (texts : List String) : Json := array (texts.map string)

/-- An integer. -/
def int (n : Int) : Json := number (.int n)

/-- The object of a map. -/
def ofMap {α : Type} (toJson : α → Json) (m : SortedMap α) : Json :=
  object (m.map toJson).entries

end Json

end ApiAnnotation
