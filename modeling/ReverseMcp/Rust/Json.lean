import ReverseMcp.Rust.Text

/-!
# JSON values

`serde_json::Value` with the accessors the workspace uses.  Indexing a value with a key that
is absent, or a value that is not an object, gives `null`, as `Index<&str>` does.  Floats are
exact rationals.

The second half is `serde_json::to_string` (`compact`).
-/

namespace ReverseMcp.Rust

/-- `serde_json::Number`. -/
inductive Number where
  | posInt (n : U64)
  /-- The integer `-(n + 1)`. -/
  | negInt (n : Fin (2 ^ 63))
  | float (q : ℚ)
deriving DecidableEq

/-- `serde_json::Value`. -/
inductive Json where
  | null
  | bool (b : Bool)
  | number (n : Number)
  | string (s : String)
  | array (items : List Json)
  | object (fields : List (String × Json))

namespace Json

mutual

/-- Decidable equality of values. -/
def decEq : (a b : Json) → Decidable (a = b)
  | null, null => isTrue rfl
  | bool a, bool b => decidable_of_iff (a = b) (by simp)
  | number a, number b => decidable_of_iff (a = b) (by simp)
  | string a, string b => decidable_of_iff (a = b) (by simp)
  | array a, array b =>
    match decEqItems a b with
    | isTrue h => isTrue (by rw [h])
    | isFalse h => isFalse (by simpa using h)
  | object a, object b =>
    match decEqFields a b with
    | isTrue h => isTrue (by rw [h])
    | isFalse h => isFalse (by simpa using h)
  | null, bool _ | null, number _ | null, string _ | null, array _ | null, object _
  | bool _, null | bool _, number _ | bool _, string _ | bool _, array _ | bool _, object _
  | number _, null | number _, bool _ | number _, string _ | number _, array _
  | number _, object _ | string _, null | string _, bool _ | string _, number _
  | string _, array _ | string _, object _ | array _, null | array _, bool _
  | array _, number _ | array _, string _ | array _, object _ | object _, null
  | object _, bool _ | object _, number _ | object _, string _ | object _, array _ =>
    isFalse (by simp)

/-- Decidable equality of array items. -/
def decEqItems : (a b : List Json) → Decidable (a = b)
  | [], [] => isTrue rfl
  | [], _ :: _ | _ :: _, [] => isFalse (by simp)
  | x :: xs, y :: ys =>
    match decEq x y, decEqItems xs ys with
    | isTrue h, isTrue h' => isTrue (by rw [h, h'])
    | isFalse h, _ => isFalse (by simp [h])
    | _, isFalse h' => isFalse (by simp [h'])

/-- Decidable equality of object fields. -/
def decEqFields : (a b : List (String × Json)) → Decidable (a = b)
  | [], [] => isTrue rfl
  | [], _ :: _ | _ :: _, [] => isFalse (by simp)
  | (k, x) :: xs, (l, y) :: ys =>
    match decEq x y, decEqFields xs ys with
    | isTrue h, isTrue h' => decidable_of_iff (k = l) (by simp [h, h'])
    | isFalse h, _ => isFalse (by simp [h])
    | _, isFalse h' => isFalse (by simp [h'])

end

instance : DecidableEq Json := decEq

instance : Inhabited Json := ⟨null⟩

/-! ## Accessors -/

/-- `Value::get`. -/
def get (v : Json) (key : String) : Option Json :=
  match v with
  | object fields => (fields.find? fun f => f.1 == key).map Prod.snd
  | _ => none

/-- `v[key]`. -/
def idx (v : Json) (key : String) : Json := (v.get key).getD null

/-- `Value::as_str`. -/
def asStr : Json → Option String
  | string s => some s
  | _ => none

/-- `Value::as_u64`. -/
def asU64 : Json → Option U64
  | number (.posInt n) => some n
  | _ => none

/-- `Value::as_bool`. -/
def asBool : Json → Option Bool
  | bool b => some b
  | _ => none

/-- `Value::as_array`. -/
def asArray : Json → Option (List Json)
  | array l => some l
  | _ => none

/-- `Value::as_f64`. -/
def asF64 : Json → Option ℚ
  | number (.posInt n) => some n.val
  | number (.negInt n) => some (-(n.val + 1))
  | number (.float q) => some q
  | _ => none

/-- `Value::is_null`. -/
def isNull : Json → Bool
  | null => true
  | _ => false

/-- `Value::is_object`. -/
def isObject : Json → Bool
  | object _ => true
  | _ => false

/-- `v[key] = x` on an object. -/
def set (v : Json) (key : String) (x : Json) : Json :=
  match v with
  | object fields => object (fields.filter (fun f => f.1 != key) ++ [(key, x)])
  | _ => object [(key, x)]

/-! ## Building values -/

instance : Coe String Json := ⟨string⟩

instance : Coe Bool Json := ⟨bool⟩

/-- A `u64` as a value. -/
def u64 (n : U64) : Json := number (.posInt n)

/-- A count as a value. -/
def nat (n : ℕ) : Json := u64 (Rust.asU64 n)

/-- An address as its `{:#x}` text. -/
def ea (v : U64) : Json := string (hex v)

/-- An optional value, `null` when absent. -/
def opt (o : Option Json) : Json := o.getD null

/-- A list of texts. -/
def strings (l : List String) : Json := array (l.map string)

/-! ## Compact text -/

/-- `serde_json`'s escape of one character. -/
def escapeChar (c : Char) : List Char :=
  if c = '"' then ['\\', '"']
  else if c = '\\' then ['\\', '\\']
  else if c.toNat = 8 then ['\\', 'b']
  else if c.toNat = 12 then ['\\', 'f']
  else if c.toNat = 10 then ['\\', 'n']
  else if c.toNat = 13 then ['\\', 'r']
  else if c.toNat = 9 then ['\\', 't']
  else if c.toNat < 32 then
    ['\\', 'u', '0', '0', Nat.digitChar (c.toNat / 16), Nat.digitChar (c.toNat % 16)]
  else [c]

/-- The text of a string literal after its opening quote. -/
def escaped : List Char → List Char
  | [] => ['"']
  | c :: cs => escapeChar c ++ escaped cs

/-- The text of a string. -/
def quoted (s : String) : List Char := '"' :: escaped s.toList

/-- The text of a number. -/
def numberText [Host] : Number → List Char
  | .posInt n => Nat.toDigits 10 n.val
  | .negInt n => '-' :: Nat.toDigits 10 (n.val + 1)
  | .float q => Host.floatText q

mutual

/-- `serde_json::to_string`. -/
def compact [Host] : Json → List Char
  | null => "null".toList
  | bool true => "true".toList
  | bool false => "false".toList
  | number n => numberText n
  | string s => quoted s
  | array [] => "[]".toList
  | array (x :: xs) => '[' :: (compact x ++ compactItems xs)
  | object [] => ['{', '}']
  | object ((k, x) :: xs) =>
    '{' :: (quoted k ++ ':' :: (compact x ++ compactFields xs))

/-- The rest of an array after its first item. -/
def compactItems [Host] : List Json → List Char
  | [] => [']']
  | x :: xs => ',' :: (compact x ++ compactItems xs)

/-- The rest of an object after its first field. -/
def compactFields [Host] : List (String × Json) → List Char
  | [] => ['}']
  | (k, x) :: xs =>
    ',' :: (quoted k ++ ':' :: (compact x ++ compactFields xs))

end

end Json

end ReverseMcp.Rust
