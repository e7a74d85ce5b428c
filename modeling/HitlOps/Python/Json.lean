import Mathlib.Data.List.Sort

/-!
# Python values that cross the JSON boundary

`Json` is a value that `json.loads` can return, with one more constructor for an object that only
`str` can print, as a provider may put into a result. The file gives the parts of the Python
runtime that the program applies to such values: `dict` lookup and update, `str` and `repr`, and
`json.dumps` with the options the program passes.

`Runtime` collects the library functions that stay parameters: the SHA-256 hex digest of a UTF-8
text, Unicode normalization and case, the printable characters, the integers that the validation
library reads from a value, and the texts of a time stamp.
-/

set_option autoImplicit false

namespace HitlOps.Python

/-- A Python value built from JSON. A float is its `repr`; `other` is an object with its `str`. -/
inductive Json : Type
  | null
  | bool (b : Bool)
  | int (n : Int)
  | float (repr : String)
  | str (s : String)
  | list (items : List Json)
  | dict (fields : List (String × Json))
  | other (text : String)

/-- A `dict[str, Any]`, in insertion order. -/
abbrev Dict := List (String × Json)

/-- Library functions that the model does not open. -/
structure Runtime where
  sha256 : String → String
  nfc : String → String
  lower : String → String
  isPrintable : Char → Bool
  laxInt : Json → Option Int
  /-- `datetime.isoformat()`. -/
  isoformat : Nat → String
  /-- A time stamp in `model_dump(mode="json")`. -/
  jsonTime : Nat → String

/-! ## Equality -/

mutual

/-- Decidable equality of values; the derived instance does not cover the nested lists. -/
def Json.decEq : (a b : Json) → Decidable (a = b)
  | .null, .null => isTrue rfl
  | .bool a, .bool b => decidable_of_iff (a = b) (by simp)
  | .int a, .int b => decidable_of_iff (a = b) (by simp)
  | .float a, .float b => decidable_of_iff (a = b) (by simp)
  | .str a, .str b => decidable_of_iff (a = b) (by simp)
  | .list a, .list b =>
      match decEqItems a b with
      | isTrue h => isTrue (by rw [h])
      | isFalse h => isFalse fun e => h (by injection e)
  | .dict a, .dict b =>
      match decEqFields a b with
      | isTrue h => isTrue (by rw [h])
      | isFalse h => isFalse fun e => h (by injection e)
  | .other a, .other b => decidable_of_iff (a = b) (by simp)
  | .null, .bool _ | .null, .int _ | .null, .float _ | .null, .str _ | .null, .list _
  | .null, .dict _ | .null, .other _ => isFalse (by simp)
  | .bool _, .null | .bool _, .int _ | .bool _, .float _ | .bool _, .str _ | .bool _, .list _
  | .bool _, .dict _ | .bool _, .other _ => isFalse (by simp)
  | .int _, .null | .int _, .bool _ | .int _, .float _ | .int _, .str _ | .int _, .list _
  | .int _, .dict _ | .int _, .other _ => isFalse (by simp)
  | .float _, .null | .float _, .bool _ | .float _, .int _ | .float _, .str _ | .float _, .list _
  | .float _, .dict _ | .float _, .other _ => isFalse (by simp)
  | .str _, .null | .str _, .bool _ | .str _, .int _ | .str _, .float _ | .str _, .list _
  | .str _, .dict _ | .str _, .other _ => isFalse (by simp)
  | .list _, .null | .list _, .bool _ | .list _, .int _ | .list _, .float _ | .list _, .str _
  | .list _, .dict _ | .list _, .other _ => isFalse (by simp)
  | .dict _, .null | .dict _, .bool _ | .dict _, .int _ | .dict _, .float _ | .dict _, .str _
  | .dict _, .list _ | .dict _, .other _ => isFalse (by simp)
  | .other _, .null | .other _, .bool _ | .other _, .int _ | .other _, .float _ | .other _, .str _
  | .other _, .list _ | .other _, .dict _ => isFalse (by simp)

def decEqItems : (a b : List Json) → Decidable (a = b)
  | [], [] => isTrue rfl
  | [], _ :: _ => isFalse (by simp)
  | _ :: _, [] => isFalse (by simp)
  | a :: as, b :: bs =>
      match a.decEq b, decEqItems as bs with
      | isTrue h, isTrue h' => isTrue (by rw [h, h'])
      | isFalse h, _ => isFalse fun e => h (by injection e)
      | _, isFalse h => isFalse fun e => h (by injection e)

def decEqFields : (a b : List (String × Json)) → Decidable (a = b)
  | [], [] => isTrue rfl
  | [], _ :: _ => isFalse (by simp)
  | _ :: _, [] => isFalse (by simp)
  | (k, a) :: as, (l, b) :: bs =>
      match decEq k l, a.decEq b, decEqFields as bs with
      | isTrue h, isTrue h', isTrue h'' => isTrue (by rw [h, h', h''])
      | isFalse h, _, _ => isFalse fun e => h (by injection e with e; injection e)
      | _, isFalse h, _ => isFalse fun e => h (by injection e with e; injection e)
      | _, _, isFalse h => isFalse fun e => h (by injection e)

end

instance : DecidableEq Json := Json.decEq

/-! ## Dictionaries -/

namespace Dict

/-- `d.get(key)`, with `None` for a missing key. -/
def get? (d : Dict) (key : String) : Option Json := List.lookup key d

/-- `d.get(key, default)`. -/
def getD (d : Dict) (key : String) (default : Json) : Json := (d.get? key).getD default

/-- `d[key] = value`: the position of an existing key is kept. -/
def set (d : Dict) (key : String) (value : Json) : Dict :=
  if d.any (fun e => e.1 == key) then d.map (fun e => if e.1 == key then (key, value) else e)
  else d ++ [(key, value)]

/-- `d.update(other)`. -/
def update (d : Dict) (other : Dict) : Dict := other.foldl (fun acc e => acc.set e.1 e.2) d

end Dict

/-! ## Printing -/

/-- A lower-case hexadecimal digit. -/
def hexDigit (n : Nat) : Char := if n < 10 then Char.ofNat (48 + n) else Char.ofNat (87 + n)

/-- `width` hexadecimal digits of `n`. -/
def hexText : Nat → Nat → List Char
  | 0, _ => []
  | width + 1, n => hexText width (n / 16) ++ [hexDigit (n % 16)]

/-- A character inside `repr` of a string with the given quote. -/
def reprChar (printable : Char → Bool) (quote c : Char) : List Char :=
  if c = quote ∨ c = '\\' then ['\\', c]
  else if c = '\n' then ['\\', 'n']
  else if c = '\r' then ['\\', 'r']
  else if c = '\t' then ['\\', 't']
  else if printable c then [c]
  else if c.toNat < 256 then ['\\', 'x'] ++ hexText 2 c.toNat
  else if c.toNat < 65536 then ['\\', 'u'] ++ hexText 4 c.toNat
  else ['\\', 'U'] ++ hexText 8 c.toNat

/-- `repr` of a string: double quotes only when the text has a single quote and no double one. -/
def reprText (printable : Char → Bool) (s : String) : String :=
  let quote := if s.toList.contains '\'' && !s.toList.contains '"' then '"' else '\''
  String.ofList ([quote] ++ s.toList.flatMap (reprChar printable quote) ++ [quote])

/-- Texts joined with a separator. -/
def joined (sep : String) : List String → String
  | [] => ""
  | [s] => s
  | s :: rest => s ++ sep ++ joined sep rest

namespace Json

mutual

/-- `repr(value)`. -/
def repr (printable : Char → Bool) : Json → String
  | .null => "None"
  | .bool b => if b then "True" else "False"
  | .int n => toString n
  | .float text => text
  | .str s => reprText printable s
  | .list items => "[" ++ joined ", " (reprItems printable items) ++ "]"
  | .dict fields => "\x7b" ++ joined ", " (reprFields printable fields) ++ "\x7d"
  | .other text => text

def reprItems (printable : Char → Bool) : List Json → List String
  | [] => []
  | v :: rest => v.repr printable :: reprItems printable rest

def reprFields (printable : Char → Bool) : List (String × Json) → List String
  | [] => []
  | (k, v) :: rest =>
      (reprText printable k ++ ": " ++ v.repr printable) :: reprFields printable rest

end

/-- `str(value)`. -/
def toStr (printable : Char → Bool) : Json → String
  | .str s => s
  | v => v.repr printable

/-- The elements that `for item in value` visits; `none` when the value is not iterable. -/
def iterate : Json → Option (List Json)
  | .list items => some items
  | .dict fields => some (fields.map fun e => .str e.1)
  | .str s => some (s.toList.map fun c => .str (String.ofList [c]))
  | _ => none

end Json

/-! ## `json.dumps` -/

/-- The options of `json.dumps` that the program uses; separators are always compact. -/
structure DumpOptions where
  sortKeys : Bool
  ensureAscii : Bool

/-- A character inside a JSON string. -/
def escapeChar (ascii : Bool) (c : Char) : List Char :=
  if c = '"' ∨ c = '\\' then ['\\', c]
  else if c = '\n' then ['\\', 'n']
  else if c = '\r' then ['\\', 'r']
  else if c = '\t' then ['\\', 't']
  else if c.toNat = 8 then ['\\', 'b']
  else if c.toNat = 12 then ['\\', 'f']
  else if c.toNat < 32 then ['\\', 'u'] ++ hexText 4 c.toNat
  else if ascii && 127 ≤ c.toNat then
    if c.toNat < 65536 then ['\\', 'u'] ++ hexText 4 c.toNat
    else
      let n := c.toNat - 65536
      ['\\', 'u'] ++ hexText 4 (55296 + n / 1024) ++ ['\\', 'u'] ++ hexText 4 (56320 + n % 1024)
  else [c]

/-- A JSON string literal. -/
def quoted (ascii : Bool) (s : String) : String :=
  String.ofList (['"'] ++ s.toList.flatMap (escapeChar ascii) ++ ['"'])

/-- A float as `json.dumps` writes it. -/
def floatText (repr : String) : String :=
  if repr = "nan" then "NaN"
  else if repr = "inf" then "Infinity"
  else if repr = "-inf" then "-Infinity"
  else repr

/-- Insert a printed field by its key. -/
def insertField (e : String × String) : List (String × String) → List (String × String)
  | [] => [e]
  | f :: rest => if e.1 < f.1 then e :: f :: rest else f :: insertField e rest

/-- Printed fields in key order. -/
def sortFields : List (String × String) → List (String × String)
  | [] => []
  | e :: rest => insertField e (sortFields rest)

namespace Json

mutual

/-- `json.dumps(value, default=str)` with compact separators. -/
def dumps (o : DumpOptions) : Json → String
  | .null => "null"
  | .bool b => if b then "true" else "false"
  | .int n => toString n
  | .float text => floatText text
  | .str s => quoted o.ensureAscii s
  | .list items => "[" ++ joined "," (dumpItems o items) ++ "]"
  | .dict fields =>
      let printed := dumpFields o fields
      let ordered := if o.sortKeys then sortFields printed else printed
      "\x7b" ++ joined "," (ordered.map fun e => quoted o.ensureAscii e.1 ++ ":" ++ e.2) ++ "\x7d"
  | .other text => quoted o.ensureAscii text

def dumpItems (o : DumpOptions) : List Json → List String
  | [] => []
  | v :: rest => v.dumps o :: dumpItems o rest

def dumpFields (o : DumpOptions) : List (String × Json) → List (String × String)
  | [] => []
  | (k, v) :: rest => (k, v.dumps o) :: dumpFields o rest

end

/-- A text column or a JSON string can hold the text: PostgreSQL refuses the NUL character. -/
def storableText (s : String) : Bool := s.toList.all fun c => c.toNat ≠ 0

mutual

/-- A JSONB column can hold the value: no unknown object, no infinite or undefined float, and no
NUL character in a text. -/
def storable : Json → Bool
  | .null => true
  | .bool _ => true
  | .int _ => true
  | .float text => decide (floatText text = text)
  | .str s => storableText s
  | .list items => storableItems items
  | .dict fields => storableFields fields
  | .other _ => false

def storableItems : List Json → Bool
  | [] => true
  | v :: rest => v.storable && storableItems rest

def storableFields : List (String × Json) → Bool
  | [] => true
  | (k, v) :: rest => storableText k && v.storable && storableFields rest

end

end Json

example : (Json.dict [("b", .list [.int 1, .null]), ("a", .str "x")]).dumps ⟨true, false⟩ =
    "\x7b\"a\":\"x\",\"b\":[1,null]\x7d" := by decide

end HitlOps.Python
