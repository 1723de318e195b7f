import TaskGraph.Data.Double

/-!
The dynamic values that parameters, bindings and results are made of. The fields of an object are
kept in strictly increasing order of their keys, so that two objects with the same fields are equal.
-/

namespace TaskGraph

/-- A dynamic value. Integers stay between -2^63 and 2^64-1 wherever they are read. -/
inductive Value where
  | null
  | bool (b : Bool)
  | int (n : Int)
  | float (d : Double)
  | string (s : String)
  | array (items : List Value)
  | object (fields : List (String × Value))
  deriving Inhabited, Repr

namespace Value

mutual

def decEq : (a b : Value) → Decidable (a=b)
  | .null, .null => isTrue rfl
  | .bool a, .bool b => if h : a=b then isTrue (by rw [h]) else isFalse (by simp [h])
  | .int a, .int b => if h : a=b then isTrue (by rw [h]) else isFalse (by simp [h])
  | .float a, .float b => if h : a=b then isTrue (by rw [h]) else isFalse (by simp [h])
  | .string a, .string b => if h : a=b then isTrue (by rw [h]) else isFalse (by simp [h])
  | .array a, .array b =>
    match decEqItems a b with
    | isTrue h => isTrue (by rw [h])
    | isFalse h => isFalse (by simp [h])
  | .object a, .object b =>
    match decEqFields a b with
    | isTrue h => isTrue (by rw [h])
    | isFalse h => isFalse (by simp [h])
  | .null, .bool _ | .null, .int _ | .null, .float _ | .null, .string _ | .null, .array _
  | .null, .object _ => isFalse (by simp)
  | .bool _, .null | .bool _, .int _ | .bool _, .float _ | .bool _, .string _ | .bool _, .array _
  | .bool _, .object _ => isFalse (by simp)
  | .int _, .null | .int _, .bool _ | .int _, .float _ | .int _, .string _ | .int _, .array _
  | .int _, .object _ => isFalse (by simp)
  | .float _, .null | .float _, .bool _ | .float _, .int _ | .float _, .string _
  | .float _, .array _ | .float _, .object _ => isFalse (by simp)
  | .string _, .null | .string _, .bool _ | .string _, .int _ | .string _, .float _
  | .string _, .array _ | .string _, .object _ => isFalse (by simp)
  | .array _, .null | .array _, .bool _ | .array _, .int _ | .array _, .float _
  | .array _, .string _ | .array _, .object _ => isFalse (by simp)
  | .object _, .null | .object _, .bool _ | .object _, .int _ | .object _, .float _
  | .object _, .string _ | .object _, .array _ => isFalse (by simp)

def decEqItems : (a b : List Value) → Decidable (a=b)
  | [], [] => isTrue rfl
  | [], _::_ => isFalse (by simp)
  | _::_, [] => isFalse (by simp)
  | a::as, b::bs =>
    match decEq a b, decEqItems as bs with
    | isTrue h, isTrue hs => isTrue (by rw [h,hs])
    | isFalse h, _ => isFalse (by simp [h])
    | _, isFalse h => isFalse (by simp [h])

def decEqFields : (a b : List (String × Value)) → Decidable (a=b)
  | [], [] => isTrue rfl
  | [], _::_ => isFalse (by simp)
  | _::_, [] => isFalse (by simp)
  | (k,a)::as, (l,b)::bs =>
    match decEq a b, decEqFields as bs with
    | isTrue h, isTrue hs =>
      if hk : k=l then isTrue (by rw [h,hs,hk]) else isFalse (by simp [hk])
    | isFalse h, _ => isFalse (by simp [h])
    | _, isFalse h => isFalse (by simp [h])

end

instance : DecidableEq Value := decEq

/-- The word for the shape of a value. -/
def typeName : Value → String
  | .null => "null"
  | .bool _ => "boolean"
  | .int _ | .float _ => "number"
  | .string _ => "string"
  | .array _ => "array"
  | .object _ => "object"

def asString? : Value → Option String
  | .string s => some s
  | _ => none

def asArray? : Value → Option (List Value)
  | .array items => some items
  | _ => none

/-- An integer in the signed 64-bit range. -/
def asSigned? : Value → Option Int
  | .int n => if -(Nat.pow 2 63) ≤ n ∧ n < Nat.pow 2 63 then some n else none
  | _ => none

/-- An integer in the unsigned 64-bit range. -/
def asUnsigned? : Value → Option Nat
  | .int (.ofNat n) => if n < Nat.pow 2 64 then some n else none
  | _ => none

end Value

/-- Named values in strictly increasing order of their names. -/
abbrev Fields := List (String × Value)

namespace Fields

/-- Puts a value under a name, replacing what stood there. -/
def insert (name : String) (v : Value) : Fields → Fields
  | [] => [(name,v)]
  | (k,w)::rest =>
    if name < k then (name,v)::(k,w)::rest
    else if name = k then (name,v)::rest
    else (k,w)::insert name v rest

def get? (name : String) : Fields → Option Value
  | [] => none
  | (k,v)::rest => if name = k then some v else get? name rest

def contains (name : String) (fields : Fields) : Bool := (get? name fields).isSome

/-- Reads a list of pairs in any order; of two with one name the later counts. -/
def ofList (pairs : List (String × Value)) : Fields :=
  pairs.foldl (fun fields p => insert p.1 p.2 fields) []

/-- The fields of the first, overridden by those of the second. -/
def union (base upper : Fields) : Fields :=
  upper.foldl (fun fields p => insert p.1 p.2 fields) base

@[simp] theorem get?_insert_self (name : String) (v : Value) (fields : Fields) :
    get? name (insert name v fields) = some v := by
  induction fields with
  | nil => simp [insert,get?]
  | cons p rest ih =>
    simp only [insert]
    split
    · simp [get?]
    · split
      · simp [get?]
      · next h => simp [get?,h,ih]

theorem get?_insert_of_ne {name other : String} (h : other ≠ name) (v : Value)
    (fields : Fields) : get? other (insert name v fields) = get? other fields := by
  induction fields with
  | nil => simp [insert,get?,h]
  | cons p rest ih =>
    simp only [insert]
    split
    · simp [get?,h]
    · split
      · next e => subst e; simp [get?,h]
      · simp [get?,ih]

end Fields

namespace Value

/-- An object with the given fields, in any order. -/
def ofPairs (pairs : List (String × Value)) : Value := .object (Fields.ofList pairs)

mutual

/-- How many collections lie inside each other. -/
def height : Value → Nat
  | .array items => heightItems items+1
  | .object fields => heightFields fields+1
  | _ => 0

def heightItems : List Value → Nat
  | [] => 0
  | v::vs => Nat.max (height v) (heightItems vs)

def heightFields : List (String × Value) → Nat
  | [] => 0
  | (_,v)::fields => Nat.max (height v) (heightFields fields)

end

def field? (v : Value) (name : String) : Option Value :=
  match v with
  | .object fields => Fields.get? name fields
  | _ => none

def ofStrings (names : List String) : Value := .array (names.map .string)

end Value

end TaskGraph
