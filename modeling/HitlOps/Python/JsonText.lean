import HitlOps.Python.Json

/-!
# Canonical JSON texts are injective

`canonical` sorts the keys of every object, so two values with one canonical form are equal up to
key order. `dumps_injective` says that a compact text with sorted keys determines the canonical form
of its value. Texts are read from the left: each printed value ends where a character follows that
no number contains, and one character behind an escape can be read back.
-/

set_option autoImplicit false

namespace HitlOps.Python

/-! ## Induction on values -/

namespace Json

/-- Induction on values, with the members of lists and objects as hypotheses. -/
@[elab_as_elim]
theorem induction {P : Json → Prop} (null : P .null) (bool : ∀ b, P (.bool b))
    (int : ∀ n, P (.int n)) (float : ∀ text, P (.float text)) (str : ∀ s, P (.str s))
    (list : ∀ items, (∀ v ∈ items, P v) → P (.list items))
    (dict : ∀ fields, (∀ e ∈ fields, P e.2) → P (.dict fields))
    (other : ∀ text, P (.other text)) (v : Json) : P v := by
  refine @Json.rec P (fun items => ∀ v ∈ items, P v) (fun fields => ∀ e ∈ fields, P e.2)
    (fun e => P e.2) null bool int float str list dict other ?_ ?_ ?_ ?_ (fun _ _ h => h) v
  · intro v hv
    cases hv
  · intro v rest hv hrest w hw
    rcases List.mem_cons.1 hw with rfl | hw
    · exact hv
    · exact hrest w hw
  · intro e he
    cases he
  · intro e rest he hrest e' he'
    rcases List.mem_cons.1 he' with rfl | he'
    · exact he
    · exact hrest e' he'

end Json

/-! ## Numbers -/

theorem natText_injective {m n : Nat} (h : Nat.repr m = Nat.repr n) : m = n := by
  have hdigits : Nat.toDigits 10 m = Nat.toDigits 10 n := by
    rw [← Nat.toList_repr, ← Nat.toList_repr, h]
  rw [← Nat.ofDigitChars_toDigits (b := 10) (n := m) (by decide) (by decide), hdigits,
    Nat.ofDigitChars_toDigits (by decide) (by decide)]

theorem isDigit_of_mem_natText {n : Nat} {c : Char} (h : c ∈ (Nat.repr n).toList) :
    c.isDigit = true :=
  Nat.isDigit_of_mem_toDigits (b := 10) (by decide) (by decide) (Nat.toList_repr ▸ h)

theorem natText_ne_nil (n : Nat) : (Nat.repr n).toList ≠ [] := by
  rw [Nat.toList_repr]
  exact Nat.toDigits_ne_nil

theorem intText_ofNat (n : Nat) : (toString (Int.ofNat n)).toList = (Nat.repr n).toList := rfl

theorem intText_negSucc (n : Nat) :
    (toString (Int.negSucc n)).toList = '-' :: (Nat.repr (n + 1)).toList := by
  show ("-" ++ Nat.repr (n + 1)).toList = _
  rw [String.toList_append]
  rfl

/-- A digit text does not begin with a minus. -/
theorem natText_ne_minus {n : Nat} {text : List Char} : (Nat.repr n).toList ≠ '-' :: text := by
  intro h
  have hminus : '-' ∈ (Nat.repr n).toList := by
    rw [h]
    exact List.mem_cons_self
  exact absurd (isDigit_of_mem_natText hminus) (by decide)

theorem intText_injective {a b : Int} (h : (toString a).toList = (toString b).toList) :
    a = b := by
  cases a with
  | ofNat m =>
      cases b with
      | ofNat n =>
          rw [intText_ofNat, intText_ofNat, String.toList_inj] at h
          rw [natText_injective h]
      | negSucc n =>
          rw [intText_ofNat, intText_negSucc] at h
          exact absurd h natText_ne_minus
  | negSucc m =>
      cases b with
      | ofNat n =>
          rw [intText_ofNat, intText_negSucc] at h
          exact absurd h.symm natText_ne_minus
      | negSucc n =>
          rw [intText_negSucc, intText_negSucc, List.cons.injEq, String.toList_inj] at h
          have hmn := natText_injective h.2
          rw [Nat.succ.injEq] at hmn
          rw [hmn]

/-- A character of a number. -/
def isNumberChar (c : Char) : Bool :=
  c.isDigit || decide (c = '-') || decide (c = '+') || decide (c = '.') || decide (c = 'e')

/-- The `repr` of a finite float: a number with a point or an exponent. -/
def isFloatText (text : String) : Bool :=
  text.toList.all isNumberChar && text.toList.any fun c => decide (c = '.') || decide (c = 'e')

theorem isNumberChar_of_digit {c : Char} (h : c.isDigit = true) : isNumberChar c = true := by
  unfold isNumberChar
  rw [h]
  rfl

theorem isNumberChar_of_mem_intText {n : Int} {c : Char} (h : c ∈ (toString n).toList) :
    isNumberChar c = true ∧ c ≠ '.' ∧ c ≠ 'e' := by
  have hdigit : ∀ {d : Char}, d.isDigit = true → isNumberChar d = true ∧ d ≠ '.' ∧ d ≠ 'e' := by
    intro d hd
    refine ⟨isNumberChar_of_digit hd, ?_, ?_⟩
    · rintro rfl
      exact absurd hd (by decide)
    · rintro rfl
      exact absurd hd (by decide)
  cases n with
  | ofNat n =>
      rw [intText_ofNat] at h
      exact hdigit (isDigit_of_mem_natText h)
  | negSucc n =>
      rw [intText_negSucc] at h
      rcases List.mem_cons.1 h with rfl | h
      · decide
      · exact hdigit (isDigit_of_mem_natText h)

theorem isNumberChar_of_float {text : String} (h : isFloatText text = true) :
    ∀ c ∈ text.toList, isNumberChar c = true := by
  unfold isFloatText at h
  rw [Bool.and_eq_true, List.all_eq_true] at h
  exact h.1

/-- No float text is an integer text. -/
theorem floatText_ne_intText {text : String} (h : isFloatText text = true) (n : Int) :
    text.toList ≠ (toString n).toList := by
  intro heq
  unfold isFloatText at h
  rw [Bool.and_eq_true, List.any_eq_true] at h
  obtain ⟨-, c, hc, hpoint⟩ := h
  rw [heq] at hc
  obtain ⟨-, hdot, hexp⟩ := isNumberChar_of_mem_intText hc
  rw [decide_eq_false hdot, decide_eq_false hexp] at hpoint
  cases hpoint

/-- The text goes on with a character that no number contains. -/
def Ends (s : List Char) : Prop := ∀ c ∈ s.head?, isNumberChar c = false

theorem ends_cons {c : Char} (h : isNumberChar c = false) (s : List Char) : Ends (c :: s) := by
  intro d hd
  cases hd
  exact h

/-- The number characters at the front of a text determine where it goes on. -/
theorem number_append_injective {a b s t : List Char} (ha : ∀ c ∈ a, isNumberChar c = true)
    (hb : ∀ c ∈ b, isNumberChar c = true) (hs : Ends s) (ht : Ends t) (h : a ++ s = b ++ t) :
    a = b ∧ s = t := by
  induction a generalizing b with
  | nil =>
      cases b with
      | nil => exact ⟨rfl, h⟩
      | cons d b =>
          rw [List.nil_append] at h
          have hd := hs d (by rw [h]; rfl)
          rw [hb d List.mem_cons_self] at hd
          cases hd
  | cons c a ih =>
      cases b with
      | nil =>
          rw [List.nil_append] at h
          have hc := ht c (by rw [← h]; rfl)
          rw [ha c List.mem_cons_self] at hc
          cases hc
      | cons d b =>
          rw [List.cons_append, List.cons_append, List.cons.injEq] at h
          obtain ⟨rfl, hst⟩ := ih (fun e he => ha e (List.mem_cons_of_mem _ he))
            (fun e he => hb e (List.mem_cons_of_mem _ he)) h.2
          exact ⟨by rw [h.1], hst⟩

/-! ## Strings -/

/-- The value of a hexadecimal digit. -/
def hexValue (c : Char) : Nat := if c.toNat < 58 then c.toNat - 48 else c.toNat - 87

/-- Read one escaped character back. -/
def unescape : List Char → Option (Char × List Char)
  | '\\' :: 'n' :: rest => some ('\n', rest)
  | '\\' :: 'r' :: rest => some ('\r', rest)
  | '\\' :: 't' :: rest => some ('\t', rest)
  | '\\' :: 'b' :: rest => some (Char.ofNat 8, rest)
  | '\\' :: 'f' :: rest => some (Char.ofNat 12, rest)
  | '\\' :: 'u' :: _ :: _ :: c :: d :: rest =>
      some (Char.ofNat (16 * hexValue c + hexValue d), rest)
  | '\\' :: c :: rest => some (c, rest)
  | c :: rest => some (c, rest)
  | [] => none

theorem unescape_plain {c : Char} (h : c ≠ '\\') (rest : List Char) :
    unescape (c :: rest) = some (c, rest) := by
  unfold unescape
  split
  all_goals first
    | rfl
    | next heq =>
        rw [List.cons.injEq] at heq
        exact absurd heq.1 h
    | next heq =>
        rw [List.cons.injEq] at heq
        rw [heq.1, heq.2]
    | next heq => cases heq

/-- The control characters without an escape of their own. -/
theorem unescape_control : ∀ n < 32, ∀ rest : List Char,
    unescape (['\\', 'u'] ++ hexText 4 n ++ rest) = some (Char.ofNat n, rest) := by
  intro n hn rest
  have hdigits : hexText 4 n = ['0', '0', hexDigit (n / 16 % 16), hexDigit (n % 16)] := by
    revert n
    decide
  have hvalue : 16 * hexValue (hexDigit (n / 16 % 16)) + hexValue (hexDigit (n % 16)) = n := by
    revert n
    decide
  rw [hdigits]
  show some (Char.ofNat (16 * hexValue _ + hexValue _), rest) = _
  rw [hvalue]

theorem unescape_escapeChar (c : Char) (rest : List Char) :
    unescape (escapeChar false c ++ rest) = some (c, rest) := by
  unfold escapeChar
  split
  · next h =>
      rcases h with rfl | rfl <;> rfl
  · next h =>
      split
      · next hc => subst hc; rfl
      · split
        · next hc => subst hc; rfl
        · split
          · next hc => subst hc; rfl
          · split
            · next hc =>
                have : c = Char.ofNat 8 := by rw [← hc, Char.ofNat_toNat]
                subst this
                rfl
            · split
              · next hc =>
                  have : c = Char.ofNat 12 := by rw [← hc, Char.ofNat_toNat]
                  subst this
                  rfl
              · split
                · next hc => rw [unescape_control _ hc, Char.ofNat_toNat]
                · rw [Bool.false_and, if_neg (by decide)]
                  exact unescape_plain (fun hc => h (Or.inr hc)) rest

/-- An escaped character does not begin with a quote. -/
theorem escapeChar_head {c d : Char} {rest : List Char} (h : escapeChar false c = d :: rest) :
    d ≠ '"' := by
  unfold escapeChar at h
  split at h
  · cases h
    decide
  · next hc =>
      split at h
      · cases h
        decide
      · split at h
        · cases h
          decide
        · split at h
          · cases h
            decide
          · split at h
            · cases h
              decide
            · split at h
              · cases h
                decide
              · split at h
                · cases h
                  decide
                · rw [Bool.false_and, if_neg (by decide), List.cons.injEq] at h
                  rw [← h.1]
                  exact fun hq => hc (Or.inl hq)

theorem escapeChar_ne_nil (c : Char) : escapeChar false c ≠ [] := by
  intro h
  have hread := unescape_escapeChar c []
  rw [h] at hread
  cases hread

/-- An escaped text ends at its closing quote. -/
theorem escape_append_injective {a b s t : List Char}
    (h : a.flatMap (escapeChar false) ++ '"' :: s = b.flatMap (escapeChar false) ++ '"' :: t) :
    a = b ∧ s = t := by
  have hquote : ∀ (c : Char) (x y : List Char), '"' :: x ≠ escapeChar false c ++ y := by
    intro c x y hxy
    obtain ⟨d, rest, hd⟩ := List.exists_cons_of_ne_nil (escapeChar_ne_nil c)
    rw [hd, List.cons_append, List.cons.injEq] at hxy
    exact escapeChar_head hd hxy.1.symm
  induction a generalizing b with
  | nil =>
      cases b with
      | nil =>
          rw [List.flatMap_nil, List.nil_append, List.nil_append, List.cons.injEq] at h
          exact ⟨rfl, h.2⟩
      | cons d b =>
          rw [List.flatMap_nil, List.nil_append, List.flatMap_cons, List.append_assoc] at h
          exact absurd h (hquote d _ _)
  | cons c a ih =>
      cases b with
      | nil =>
          rw [List.flatMap_nil, List.nil_append, List.flatMap_cons, List.append_assoc] at h
          exact absurd h.symm (hquote c _ _)
      | cons d b =>
          rw [List.flatMap_cons, List.flatMap_cons, List.append_assoc, List.append_assoc] at h
          have hread := unescape_escapeChar c (a.flatMap (escapeChar false) ++ '"' :: s)
          rw [h, unescape_escapeChar, Option.some.injEq, Prod.mk.injEq] at hread
          obtain ⟨rfl, hst⟩ := ih hread.2.symm
          exact ⟨by rw [hread.1], hst⟩

theorem quoted_toList (s : String) :
    (quoted false s).toList = '"' :: (s.toList.flatMap (escapeChar false) ++ ['"']) := by
  unfold quoted
  rw [String.toList_ofList]
  rfl

/-- A string literal is read back from the front of a text. -/
theorem quoted_append_injective {a b : String} {s t : List Char}
    (h : (quoted false a).toList ++ s = (quoted false b).toList ++ t) : a = b ∧ s = t := by
  rw [quoted_toList, quoted_toList, List.cons_append, List.cons_append, List.cons.injEq,
    List.append_assoc, List.append_assoc] at h
  obtain ⟨hab, hst⟩ := escape_append_injective h.2
  exact ⟨String.toList_inj.1 hab, hst⟩

/-! ## Separated lists -/

/-- Texts with commas between them. -/
def commas : List (List Char) → List Char
  | [] => []
  | [text] => text
  | text :: rest => text ++ ',' :: commas rest

theorem joined_toList (texts : List String) :
    (joined "," texts).toList = commas (texts.map String.toList) := by
  induction texts with
  | nil => rfl
  | cons text rest ih =>
      cases rest with
      | nil => rfl
      | cons next rest =>
          show (text ++ "," ++ joined "," (next :: rest)).toList = _
          rw [String.toList_append, String.toList_append, ih, List.append_assoc]
          rfl

section Commas

variable {α : Type} {print : α → List Char} {close : Char}

/-- The printed members of `as` can be told apart in front of a text that ends them. -/
def Separable (print : α → List Char) (as bs : List α) : Prop :=
  ∀ a ∈ as, ∀ b ∈ bs, ∀ s t, Ends s → Ends t → print a ++ s = print b ++ t → a = b ∧ s = t

/-- What follows the first member of a separated list. -/
def trailing (print : α → List Char) (close : Char) (rest : List α) (s : List Char) : List Char :=
  match rest with
  | [] => close :: s
  | _ :: _ => ',' :: (commas (rest.map print) ++ close :: s)

theorem commas_cons (a : α) (rest : List α) (s : List Char) :
    commas ((a :: rest).map print) ++ close :: s = print a ++ trailing print close rest s := by
  cases rest with
  | nil => rfl
  | cons b rest =>
      show (print a ++ ',' :: commas ((b :: rest).map print)) ++ close :: s = _
      rw [List.append_assoc]
      rfl

theorem ends_trailing (hclose : isNumberChar close = false) (rest : List α) (s : List Char) :
    Ends (trailing print close rest s) := by
  cases rest with
  | nil => exact ends_cons hclose s
  | cons b rest => exact ends_cons (by decide) _

/-- A separated list is read back from the front of a text. -/
theorem commas_append_injective (hclose : isNumberChar close = false) (hcomma : close ≠ ',')
    {as bs : List α} (hsep : Separable print as bs)
    (ha : ∀ a ∈ as, ∀ x y, print a ++ x ≠ close :: y)
    (hb : ∀ b ∈ bs, ∀ x y, print b ++ x ≠ close :: y) {s t : List Char}
    (h : commas (as.map print) ++ close :: s = commas (bs.map print) ++ close :: t) :
    as = bs ∧ s = t := by
  induction as generalizing bs with
  | nil =>
      cases bs with
      | nil =>
          have hclosed : close :: s = close :: t := h
          rw [List.cons.injEq] at hclosed
          exact ⟨rfl, hclosed.2⟩
      | cons b bs =>
          rw [commas_cons] at h
          exact absurd h.symm (hb b List.mem_cons_self _ _)
  | cons a as ih =>
      cases bs with
      | nil =>
          rw [commas_cons] at h
          exact absurd h (ha a List.mem_cons_self _ _)
      | cons b bs =>
          rw [commas_cons, commas_cons] at h
          -- The first elements agree; what follows each is a comma or the closing character.
          obtain ⟨rfl, hrest⟩ := hsep a List.mem_cons_self b List.mem_cons_self _ _
            (ends_trailing hclose as s) (ends_trailing hclose bs t) h
          cases as with
          | nil =>
              cases bs with
              | nil =>
                  rw [trailing, trailing, List.cons.injEq] at hrest
                  exact ⟨rfl, hrest.2⟩
              | cons b' bs =>
                  rw [trailing, trailing, List.cons.injEq] at hrest
                  exact absurd hrest.1 hcomma
          | cons a' as =>
              cases bs with
              | nil =>
                  rw [trailing, trailing, List.cons.injEq] at hrest
                  exact absurd hrest.1.symm hcomma
              | cons b' bs =>
                  rw [trailing, trailing, List.cons.injEq] at hrest
                  obtain ⟨htail, hst⟩ := ih
                    (fun x hx y hy => hsep x (List.mem_cons_of_mem _ hx) y (List.mem_cons_of_mem _ hy))
                    (fun x hx => ha x (List.mem_cons_of_mem _ hx))
                    (fun y hy => hb y (List.mem_cons_of_mem _ hy)) hrest.2
                  exact ⟨by rw [htail], hst⟩

end Commas

/-! ## Values -/

namespace Json

mutual

/-- A value that `json.loads` can return: no unknown object, and every float has a point or an
exponent. -/
def isValue : Json → Bool
  | .float text => isFloatText text
  | .list items => isValueItems items
  | .dict fields => isValueFields fields
  | .other _ => false
  | .null | .bool _ | .int _ | .str _ => true

def isValueItems : List Json → Bool
  | [] => true
  | v :: rest => v.isValue && isValueItems rest

def isValueFields : List (String × Json) → Bool
  | [] => true
  | (_, v) :: rest => v.isValue && isValueFields rest

end

theorem isValueItems_eq (items : List Json) : isValueItems items = items.all isValue := by
  induction items with
  | nil => rfl
  | cons v rest ih => rw [isValueItems, List.all_cons, ih]

theorem isValueFields_eq (fields : List (String × Json)) :
    isValueFields fields = fields.all fun e => e.2.isValue := by
  induction fields with
  | nil => rfl
  | cons e rest ih => rw [isValueFields, List.all_cons, ih]

theorem isValue_list {items : List Json} (h : (Json.list items).isValue = true) :
    ∀ v ∈ items, v.isValue = true := by
  rw [isValue, isValueItems_eq, List.all_eq_true] at h
  exact h

theorem isValue_dict {fields : List (String × Json)} (h : (Json.dict fields).isValue = true) :
    ∀ e ∈ fields, e.2.isValue = true := by
  rw [isValue, isValueFields_eq, List.all_eq_true] at h
  exact h

/-! ## Compact texts -/

/-- Compact text in insertion order, characters as they are. -/
def plainOptions : DumpOptions := ⟨false, false⟩

/-- The characters of the compact text. -/
def text (v : Json) : List Char := (v.dumps plainOptions).toList

/-- The characters of one member of an object. -/
def fieldText (e : String × Json) : List Char :=
  (quoted false e.1).toList ++ ':' :: text e.2

theorem dumpItems_eq (o : DumpOptions) (items : List Json) :
    dumpItems o items = items.map (dumps o) := by
  induction items with
  | nil => rfl
  | cons v rest ih => rw [dumpItems, List.map_cons, ih]

theorem dumpFields_eq (o : DumpOptions) (fields : List (String × Json)) :
    dumpFields o fields = fields.map fun e => (e.1, e.2.dumps o) := by
  induction fields with
  | nil => rfl
  | cons e rest ih => rw [dumpFields, List.map_cons, ih]

theorem text_int (n : Int) : text (.int n) = (toString n).toList := rfl

theorem text_str (s : String) : text (.str s) = (quoted false s).toList := rfl

theorem text_list (items : List Json) :
    text (.list items) = '[' :: (commas (items.map text) ++ [']']) := by
  show ("[" ++ joined "," (dumpItems plainOptions items) ++ "]").toList = _
  rw [String.toList_append, String.toList_append, joined_toList, dumpItems_eq, List.map_map]
  rfl

theorem text_dict (fields : List (String × Json)) :
    text (.dict fields) = '\x7b' :: (commas (fields.map fieldText) ++ ['\x7d']) := by
  have hfield : ∀ e : String × Json,
      (quoted false e.1 ++ ":" ++ e.2.dumps plainOptions).toList = fieldText e := by
    intro e
    rw [String.toList_append, String.toList_append, List.append_assoc]
    rfl
  have hfields : ((dumpFields plainOptions fields).map fun e => quoted false e.1 ++ ":" ++ e.2).map
      String.toList = fields.map fieldText := by
    rw [dumpFields_eq, List.map_map, List.map_map]
    exact List.map_congr_left fun e _ => hfield e
  show ("\x7b" ++ joined "," ((dumpFields plainOptions fields).map fun e =>
    quoted false e.1 ++ ":" ++ e.2) ++ "\x7d").toList = _
  rw [String.toList_append, String.toList_append, joined_toList, hfields]
  rfl

theorem text_float {repr : String} (h : isFloatText repr = true) :
    text (.float repr) = repr.toList := by
  have hne : ∀ s : String, isFloatText s = false → repr ≠ s := by
    rintro s hs rfl
    rw [hs] at h
    cases h
  show (floatText repr).toList = _
  rw [floatText, if_neg (hne _ (by decide)), if_neg (hne _ (by decide)),
    if_neg (hne _ (by decide))]

/-- The kind of value that a first character announces. -/
def kindOf (c : Char) : Nat :=
  if c = '"' then 1
  else if c = '[' then 2
  else if c = '\x7b' then 3
  else if c = 'n' then 4
  else if c = 't' ∨ c = 'f' then 5
  else 0

/-- The kind of a value; integers and floats share one. -/
def kind : Json → Nat
  | .null => 4
  | .bool _ => 5
  | .int _ => 0
  | .float _ => 0
  | .str _ => 1
  | .list _ => 2
  | .dict _ => 3
  | .other _ => 6

/-- The first character of a text tells the kind of the value. -/
structure Begins (v : Json) (c : Char) : Prop where
  kind : kindOf c = v.kind
  bracket : c ≠ ']'
  brace : c ≠ '\x7d'

theorem begins_number {v : Json} (hv : v.kind = 0) {c : Char} (h : isNumberChar c = true) :
    Begins v c := by
  have hne : ∀ d, isNumberChar d = false → c ≠ d := by
    rintro d hd rfl
    rw [hd] at h
    cases h
  refine ⟨?_, hne _ (by decide), hne _ (by decide)⟩
  rw [hv, kindOf, if_neg (hne _ (by decide)), if_neg (hne _ (by decide)),
    if_neg (hne _ (by decide)), if_neg (hne _ (by decide)), if_neg]
  rintro (hc | hc)
  · exact hne _ (by decide) hc
  · exact hne _ (by decide) hc

theorem text_begins {v : Json} (h : v.isValue = true) :
    ∃ c rest, text v = c :: rest ∧ Begins v c := by
  have hnumber : ∀ l : List Char, l ≠ [] → (∀ c ∈ l, isNumberChar c = true) → v.kind = 0 →
      ∃ c rest, l = c :: rest ∧ Begins v c := by
    intro l hne hl hk
    obtain ⟨c, rest, rfl⟩ := List.exists_cons_of_ne_nil hne
    exact ⟨c, rest, rfl, begins_number hk (hl c List.mem_cons_self)⟩
  cases v with
  | null => exact ⟨'n', _, rfl, rfl, by decide, by decide⟩
  | bool b =>
      cases b
      · exact ⟨'f', _, rfl, rfl, by decide, by decide⟩
      · exact ⟨'t', _, rfl, rfl, by decide, by decide⟩
  | int n =>
      rw [text_int]
      refine hnumber _ ?_ (fun c hc => (isNumberChar_of_mem_intText hc).1) rfl
      cases n with
      | ofNat n => exact natText_ne_nil n
      | negSucc n =>
          rw [intText_negSucc]
          exact List.cons_ne_nil _ _
  | float repr =>
      have hfloat : isFloatText repr = true := h
      rw [text_float hfloat]
      unfold isFloatText at hfloat
      rw [Bool.and_eq_true, List.all_eq_true, List.any_eq_true] at hfloat
      obtain ⟨hall, c, hc, -⟩ := hfloat
      exact hnumber _ (List.ne_nil_of_mem hc) hall rfl
  | str s =>
      rw [text_str, quoted_toList]
      exact ⟨'"', _, rfl, rfl, by decide, by decide⟩
  | list items =>
      rw [text_list]
      exact ⟨'[', _, rfl, rfl, by decide, by decide⟩
  | dict fields =>
      rw [text_dict]
      exact ⟨'\x7b', _, rfl, rfl, by decide, by decide⟩
  | other s => cases h

theorem text_append_ne {v : Json} (h : v.isValue = true) (x y : List Char) :
    text v ++ x ≠ ']' :: y := by
  obtain ⟨c, rest, htext, hc⟩ := text_begins h
  rw [htext, List.cons_append, ne_eq, List.cons.injEq]
  exact fun heq => hc.bracket heq.1

theorem fieldText_append_ne (e : String × Json) (x y : List Char) :
    fieldText e ++ x ≠ '\x7d' :: y := by
  rw [fieldText, quoted_toList, List.cons_append, List.cons_append, ne_eq, List.cons.injEq]
  exact fun heq => absurd heq.1 (by decide)

theorem kind_eq_of_text {v w : Json} (hv : v.isValue = true) (hw : w.isValue = true)
    {s t : List Char} (h : text v ++ s = text w ++ t) : v.kind = w.kind := by
  obtain ⟨c, rest, hc, hbegin⟩ := text_begins hv
  obtain ⟨d, rest', hd, hbegin'⟩ := text_begins hw
  rw [hc, hd, List.cons_append, List.cons_append, List.cons.injEq] at h
  rw [← hbegin.kind, ← hbegin'.kind, h.1]

/-- A compact text determines its value and where the text goes on. -/
theorem text_append_injective {v w : Json} (hv : v.isValue = true) (hw : w.isValue = true)
    {s t : List Char} (hs : Ends s) (ht : Ends t) (h : text v ++ s = text w ++ t) :
    v = w ∧ s = t := by
  -- The kinds agree, so only values of one shape are compared.
  have hkind := kind_eq_of_text hv hw h
  induction v using induction generalizing w s t with
  | null =>
      cases w with
      | null => exact ⟨rfl, List.append_cancel_left h⟩
      | _ => cases hkind
  | bool b =>
      cases w with
      | bool b' =>
          cases b <;> cases b'
          · exact ⟨rfl, List.append_cancel_left h⟩
          · exact absurd (List.cons.inj h).1 (by decide)
          · exact absurd (List.cons.inj h).1 (by decide)
          · exact ⟨rfl, List.append_cancel_left h⟩
      | _ => cases hkind
  | int n =>
      have hn : ∀ c ∈ (toString n).toList, isNumberChar c = true :=
        fun c hc => (isNumberChar_of_mem_intText hc).1
      cases w with
      | int m =>
          rw [text_int, text_int] at h
          obtain ⟨hnm, hst⟩ := number_append_injective hn
            (fun c hc => (isNumberChar_of_mem_intText hc).1) hs ht h
          exact ⟨by rw [intText_injective hnm], hst⟩
      | float repr =>
          have hfloat : isFloatText repr = true := hw
          rw [text_int, text_float hfloat] at h
          obtain ⟨hnm, -⟩ := number_append_injective hn (isNumberChar_of_float hfloat) hs ht h
          exact absurd hnm.symm (floatText_ne_intText hfloat n)
      | _ => cases hkind
  | float repr =>
      have hfloat : isFloatText repr = true := hv
      cases w with
      | int m =>
          rw [text_int, text_float hfloat] at h
          obtain ⟨hnm, -⟩ := number_append_injective (isNumberChar_of_float hfloat)
            (fun c hc => (isNumberChar_of_mem_intText hc).1) hs ht h
          exact absurd hnm (floatText_ne_intText hfloat m)
      | float repr' =>
          have hfloat' : isFloatText repr' = true := hw
          rw [text_float hfloat, text_float hfloat'] at h
          obtain ⟨hnm, hst⟩ := number_append_injective (isNumberChar_of_float hfloat)
            (isNumberChar_of_float hfloat') hs ht h
          exact ⟨by rw [String.toList_inj.1 hnm], hst⟩
      | _ => cases hkind
  | str a =>
      cases w with
      | str b =>
          obtain ⟨rfl, hst⟩ := quoted_append_injective h
          exact ⟨rfl, hst⟩
      | _ => cases hkind
  | list items ih =>
      cases w with
      | list items' =>
          rw [text_list, text_list, List.cons_append, List.cons_append, List.cons.injEq,
            List.append_assoc, List.append_assoc] at h
          have hmem := isValue_list hv
          have hmem' := isValue_list hw
          have hsep : Separable text items items' := by
            intro a ha b hb x y hx hy hab
            exact ih a ha (hmem a ha) (hmem' b hb) hx hy hab
              (kind_eq_of_text (hmem a ha) (hmem' b hb) hab)
          obtain ⟨rfl, hst⟩ := commas_append_injective (by decide) (by decide) hsep
            (fun a ha => text_append_ne (hmem a ha)) (fun b hb => text_append_ne (hmem' b hb)) h.2
          exact ⟨rfl, hst⟩
      | _ => cases hkind
  | dict fields ih =>
      cases w with
      | dict fields' =>
          rw [text_dict, text_dict, List.cons_append, List.cons_append, List.cons.injEq,
            List.append_assoc, List.append_assoc] at h
          have hmem := isValue_dict hv
          have hmem' := isValue_dict hw
          have hsep : Separable fieldText fields fields' := by
            intro a ha b hb x y hx hy hab
            rw [fieldText, fieldText, List.append_assoc, List.append_assoc] at hab
            obtain ⟨hkey, hrest⟩ := quoted_append_injective hab
            rw [List.cons_append, List.cons_append, List.cons.injEq] at hrest
            obtain ⟨hvalue, hxy⟩ := ih a ha (hmem a ha) (hmem' b hb) hx hy hrest.2
              (kind_eq_of_text (hmem a ha) (hmem' b hb) hrest.2)
            exact ⟨Prod.ext hkey hvalue, hxy⟩
          obtain ⟨rfl, hst⟩ := commas_append_injective (by decide) (by decide) hsep
            (fun a _ => fieldText_append_ne a) (fun b _ => fieldText_append_ne b) h.2
          exact ⟨rfl, hst⟩
      | _ => cases hkind
  | other a => cases hv

/-! ## Sorted keys -/

/-- Insert a member by its key. -/
def insertMember (e : String × Json) : List (String × Json) → List (String × Json)
  | [] => [e]
  | f :: rest => if e.1 < f.1 then e :: f :: rest else f :: insertMember e rest

mutual

/-- The value with the members of every object in key order. Values are equal up to key order, as
Python compares dictionaries, when their canonical forms are. -/
def canonical : Json → Json
  | .list items => .list (canonicalItems items)
  | .dict fields => .dict (canonicalFields fields)
  | v => v

def canonicalItems : List Json → List Json
  | [] => []
  | v :: rest => canonical v :: canonicalItems rest

def canonicalFields : List (String × Json) → List (String × Json)
  | [] => []
  | (k, v) :: rest => insertMember (k, canonical v) (canonicalFields rest)

end

theorem canonicalItems_eq (items : List Json) : canonicalItems items = items.map canonical := by
  induction items with
  | nil => rfl
  | cons v rest ih => rw [canonicalItems, List.map_cons, ih]

theorem mem_insertMember {e f : String × Json} {fields : List (String × Json)} :
    f ∈ insertMember e fields ↔ f = e ∨ f ∈ fields := by
  induction fields with
  | nil => exact List.mem_cons
  | cons g rest ih =>
      unfold insertMember
      split
      · exact List.mem_cons
      · rw [List.mem_cons, List.mem_cons, ih]
        exact or_left_comm

/-- The members of the canonical form are the canonical members. -/
theorem mem_canonicalFields {f : String × Json} {fields : List (String × Json)} :
    f ∈ canonicalFields fields ↔ ∃ e ∈ fields, f = (e.1, canonical e.2) := by
  induction fields with
  | nil =>
      rw [canonicalFields]
      exact ⟨fun h => absurd h List.not_mem_nil, fun ⟨e, he, _⟩ => absurd he List.not_mem_nil⟩
  | cons e rest ih =>
      rw [canonicalFields, mem_insertMember, ih]
      constructor
      · rintro (rfl | ⟨e', he', rfl⟩)
        · exact ⟨e, List.mem_cons_self, rfl⟩
        · exact ⟨e', List.mem_cons_of_mem _ he', rfl⟩
      · rintro ⟨e', he', rfl⟩
        rcases List.mem_cons.1 he' with rfl | he'
        · exact Or.inl rfl
        · exact Or.inr ⟨e', he', rfl⟩

theorem isValue_canonical (v : Json) (h : v.isValue = true) : v.canonical.isValue = true := by
  induction v using induction with
  | list items ih =>
      rw [canonical, canonicalItems_eq, isValue, isValueItems_eq, List.all_eq_true]
      intro w hw
      obtain ⟨v, hv, rfl⟩ := List.mem_map.1 hw
      exact ih v hv (isValue_list h v hv)
  | dict fields ih =>
      rw [canonical, isValue, isValueFields_eq, List.all_eq_true]
      intro f hf
      obtain ⟨e, he, rfl⟩ := mem_canonicalFields.1 hf
      exact ih e he (isValue_dict h e he)
  | _ => exact h

theorem dumpFields_insertMember (o : DumpOptions) (k : String) (v : Json)
    (fields : List (String × Json)) :
    dumpFields o (insertMember (k, v) fields) =
      insertField (k, v.dumps o) (dumpFields o fields) := by
  induction fields with
  | nil => rfl
  | cons f rest ih =>
      unfold insertMember
      by_cases hk : k < f.1
      · rw [if_pos hk]
        simp only [dumpFields, insertField, if_pos hk]
      · rw [if_neg hk]
        simp only [dumpFields, insertField, if_neg hk, ih]

/-- Sorting the keys while printing is printing the canonical form. -/
theorem dumps_sorted (v : Json) (ascii : Bool) :
    v.dumps ⟨true, ascii⟩ = v.canonical.dumps ⟨false, ascii⟩ := by
  induction v using induction with
  | list items ih =>
      have hitems : dumpItems ⟨true, ascii⟩ items =
          dumpItems ⟨false, ascii⟩ (canonicalItems items) := by
        rw [dumpItems_eq, dumpItems_eq, canonicalItems_eq, List.map_map]
        exact List.map_congr_left fun v hv => ih v hv
      show "[" ++ joined "," (dumpItems ⟨true, ascii⟩ items) ++ "]" =
        "[" ++ joined "," (dumpItems ⟨false, ascii⟩ (canonicalItems items)) ++ "]"
      rw [hitems]
  | dict fields ih =>
      have hfields : sortFields (dumpFields ⟨true, ascii⟩ fields) =
          dumpFields ⟨false, ascii⟩ (canonicalFields fields) := by
        induction fields with
        | nil => rfl
        | cons e rest ih' =>
            have htail := ih' fun f hf => ih f (List.mem_cons_of_mem _ hf)
            have hhead := ih e List.mem_cons_self
            rw [dumpFields, sortFields, htail, canonicalFields, dumpFields_insertMember, hhead]
      show "\x7b" ++ joined "," ((sortFields (dumpFields ⟨true, ascii⟩ fields)).map fun e =>
          quoted ascii e.1 ++ ":" ++ e.2) ++ "\x7d" =
        "\x7b" ++ joined "," ((dumpFields ⟨false, ascii⟩ (canonicalFields fields)).map fun e =>
          quoted ascii e.1 ++ ":" ++ e.2) ++ "\x7d"
      rw [hfields]
  | _ => rfl

/-- Objects with one canonical form have the same members up to canonical form. -/
theorem exists_member {f g : List (String × Json)} (h : canonicalFields f = canonicalFields g)
    {k : String} {v : Json} (hv : (k, v) ∈ f) :
    ∃ w, (k, w) ∈ g ∧ v.canonical = w.canonical := by
  have hmem : (k, v.canonical) ∈ canonicalFields g := by
    rw [← h]
    exact mem_canonicalFields.2 ⟨(k, v), hv, rfl⟩
  obtain ⟨⟨k', w⟩, hw, heq⟩ := mem_canonicalFields.1 hmem
  rw [Prod.mk.injEq] at heq
  obtain ⟨rfl, hvw⟩ := heq
  exact ⟨w, hw, hvw⟩

/-- A compact text with sorted keys determines its value up to key order. -/
theorem dumps_injective {v w : Json} (hv : v.isValue = true) (hw : w.isValue = true)
    (h : v.dumps ⟨true, false⟩ = w.dumps ⟨true, false⟩) : v.canonical = w.canonical := by
  rw [dumps_sorted, dumps_sorted] at h
  have htext : text v.canonical ++ [] = text w.canonical ++ [] := by
    rw [List.append_nil, List.append_nil]
    exact congrArg String.toList h
  have hnil : Ends [] := fun c hc => by cases hc
  exact (text_append_injective (isValue_canonical v hv) (isValue_canonical w hw) hnil hnil
    htext).1

end Json

end HitlOps.Python
