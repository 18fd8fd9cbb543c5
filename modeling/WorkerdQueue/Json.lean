import WorkerdQueue.Encoding

/-! A JSON reader, the consumer's view of a batch body. It accepts a subset of
RFC 8259 (integers only, no surrogate escapes) and returns the value the text
denotes, so whatever it reads a full JSON parser reads the same way. The
scanner lemmas say what it does on the pieces `sendBatch` writes: strings of
plain characters and `kj::str` integers. -/

namespace WorkerdQueue

inductive Json where
  | null
  | bool (b : Bool)
  | num (n : Int)
  | str (s : List Char)
  | arr (elems : List Json)
  | obj (members : List (List Char × Json))

namespace Json

def isWs (c : Char) : Bool := c = ' ' || c = '\t' || c = '\n' || c = '\r'

def skipWs : List Char → List Char
  | c :: cs => if isWs c then skipWs cs else c :: cs
  | [] => []

def hexValue (c : Char) : Option Nat :=
  if c.isDigit then some (c.toNat - 48)
  else if 'a' ≤ c ∧ c ≤ 'f' then some (c.toNat - 87)
  else if 'A' ≤ c ∧ c ≤ 'F' then some (c.toNat - 55)
  else none

def simpleEscape : Char → Option Char
  | '"' => some '"'
  | '\\' => some '\\'
  | '/' => some '/'
  | 'b' => some (Char.ofNat 8)
  | 'f' => some (Char.ofNat 12)
  | 'n' => some '\n'
  | 'r' => some '\r'
  | 't' => some '\t'
  | _ => none

inductive StringState
  | plain
  | escape
  | unicode (digits : List Nat)

def unicodeChar (digits : List Nat) : Option Char :=
  let code := digits.foldl (fun a d => a * 16 + d) 0
  if 0xD800 ≤ code ∧ code ≤ 0xDFFF then none else some (Char.ofNat code)

def scanString : StringState → List Char → Option (List Char × List Char)
  | .plain, c :: cs =>
    if c = '"' then some ([], cs)
    else if c = '\\' then scanString .escape cs
    else if c.toNat < 32 then none
    else (scanString .plain cs).map fun (s, r) => (c :: s, r)
  | .escape, e :: cs =>
    if e = 'u' then scanString (.unicode []) cs
    else match simpleEscape e with
      | some d => (scanString .plain cs).map fun (s, r) => (d :: s, r)
      | none => none
  | .unicode ds, h :: cs =>
    match hexValue h with
    | none => none
    | some v =>
      if ds.length < 3 then scanString (.unicode (ds ++ [v])) cs
      else match unicodeChar (ds ++ [v]) with
        | some d => (scanString .plain cs).map fun (s, r) => (d :: s, r)
        | none => none
  | _, [] => none

def parseChars (cs : List Char) : Option (List Char × List Char) := scanString .plain cs

def readDigits (acc : Nat) : List Char → Nat × List Char
  | c :: cs => if c.isDigit then readDigits (acc * 10 + (c.toNat - 48)) cs else (acc, c :: cs)
  | [] => (acc, [])

def parseNat : List Char → Option (Nat × List Char)
  | c :: cs =>
    if c = '0' then some (0, cs)
    else if c.isDigit then some (readDigits (c.toNat - 48) cs)
    else none
  | [] => none

def parseInt : List Char → Option (Int × List Char)
  | c :: cs =>
    if c = '-' then (parseNat cs).map fun (n, r) => (-(n : Int), r)
    else (parseNat (c :: cs)).map fun (n, r) => ((n : Int), r)
  | [] => none

/-- An integer; a number with a fraction or an exponent is refused. -/
def parseNumber (cs : List Char) : Option (Int × List Char) := do
  let (n, r) ← parseInt cs
  if r.head? = some '.' ∨ r.head? = some 'e' ∨ r.head? = some 'E' then none else some (n, r)

def parseScalar (cs : List Char) : Option (Json × List Char) :=
  if cs.take 4 = ['t', 'r', 'u', 'e'] then some (.bool true, cs.drop 4)
  else if cs.take 5 = ['f', 'a', 'l', 's', 'e'] then some (.bool false, cs.drop 5)
  else if cs.take 4 = ['n', 'u', 'l', 'l'] then some (.null, cs.drop 4)
  else (parseNumber cs).map fun (n, r) => (.num n, r)

mutual

def parseValue : Nat → List Char → Option (Json × List Char)
  | 0, _ => none
  | fuel + 1, cs =>
    match skipWs cs with
    | [] => none
    | c :: cs =>
      if c = '{' then parseObject fuel cs
      else if c = '[' then parseArray fuel cs
      else if c = '"' then (parseChars cs).map fun (s, r) => (.str s, r)
      else parseScalar (c :: cs)

def parseObject : Nat → List Char → Option (Json × List Char)
  | 0, _ => none
  | fuel + 1, cs =>
    match skipWs cs with
    | '}' :: cs => some (.obj [], cs)
    | cs => (parseMembers fuel cs).map fun (ms, r) => (.obj ms, r)

def parseMembers : Nat → List Char → Option (List (List Char × Json) × List Char)
  | 0, _ => none
  | fuel + 1, cs =>
    match skipWs cs with
    | '"' :: cs => do
      let (k, cs) ← parseChars cs
      match skipWs cs with
      | ':' :: cs => do
        let (v, cs) ← parseValue fuel cs
        match skipWs cs with
        | ',' :: cs => do
          let (ms, cs) ← parseMembers fuel cs
          pure ((k, v) :: ms, cs)
        | '}' :: cs => pure ([(k, v)], cs)
        | _ => none
      | _ => none
    | _ => none

def parseArray : Nat → List Char → Option (Json × List Char)
  | 0, _ => none
  | fuel + 1, cs =>
    match skipWs cs with
    | ']' :: cs => some (.arr [], cs)
    | cs => (parseElements fuel cs).map fun (vs, r) => (.arr vs, r)

def parseElements : Nat → List Char → Option (List Json × List Char)
  | 0, _ => none
  | fuel + 1, cs => do
    let (v, cs) ← parseValue fuel cs
    match skipWs cs with
    | ',' :: cs => do
      let (vs, cs) ← parseElements fuel cs
      pure (v :: vs, cs)
    | ']' :: cs => pure ([v], cs)
    | _ => none

end

/-- A whole text: one value, then only whitespace. The reader gets two calls for each
character of the text. -/
def parse (cs : List Char) : Option Json :=
  match parseValue (2 * cs.length + 1) cs with
  | some (v, rest) => if skipWs rest = [] then some v else none
  | none => none

def Plain (c : Char) : Prop := c ≠ '"' ∧ c ≠ '\\' ∧ 32 ≤ c.toNat

instance : DecidablePred Plain := fun c =>
  inferInstanceAs (Decidable (c ≠ '"' ∧ c ≠ '\\' ∧ 32 ≤ c.toNat))

def NumberEnd : List Char → Prop
  | c :: _ => c.isDigit = false ∧ c ≠ '.' ∧ c ≠ 'e' ∧ c ≠ 'E'
  | [] => True

theorem skipWs_cons {c : Char} (cs : List Char) (h : isWs c = false) :
    skipWs (c :: cs) = c :: cs := by
  simp [skipWs, h]

theorem skipWs_space (cs : List Char) : skipWs (' ' :: cs) = skipWs cs := rfl

theorem parseChars_plain {s : List Char} (rest : List Char) (hs : ∀ c ∈ s, Plain c) :
    parseChars (s ++ '"' :: rest) = some (s, rest) := by
  unfold parseChars
  induction s with
  | nil => simp [scanString]
  | cons c s ih =>
    obtain ⟨hq, hb, hl⟩ := hs c (List.mem_cons_self _ _)
    simp [scanString, hq, hb, Nat.not_lt.mpr hl, ih (fun x hx => hs x (List.mem_cons_of_mem _ hx))]

theorem readDigits_append {xs : List Char} (acc : Nat) {rest : List Char}
    (hx : ∀ c ∈ xs, c.isDigit = true) (hr : NumberEnd rest) :
    readDigits acc (xs ++ rest) = (digitsValue acc xs, rest) := by
  induction xs generalizing acc with
  | nil =>
    cases rest with
    | nil => rfl
    | cons c cs => simp [readDigits, hr.1, digitsValue]
  | cons c xs ih =>
    rw [List.cons_append, readDigits, if_pos (hx c (List.mem_cons_self _ _)),
      ih _ (fun x hx' => hx x (List.mem_cons_of_mem _ hx'))]
    rfl

theorem parseNat_decimal (n : Nat) {rest : List Char} (hr : NumberEnd rest) :
    parseNat (decimal n ++ rest) = some (n, rest) := by
  rcases Nat.eq_zero_or_pos n with rfl | hn
  · rfl
  · obtain ⟨c, cs, he, hc⟩ := decimal_head hn
    have hd := decimal_isDigit n
    have hv := digitsValue_decimal n
    rw [he] at hd hv
    simp only [he, List.cons_append, parseNat, if_neg hc, hd c (List.mem_cons_self _ _), if_true,
      readDigits_append _ (fun x hx => hd x (List.mem_cons_of_mem _ hx)) hr]
    simpa [digitsValue] using hv

theorem decimal_ne_nil (n : Nat) : decimal n ≠ [] := by
  by_cases h : n < 10
  · simp [decimal_of_lt h]
  · simp [decimal_of_ge (by omega : 10 ≤ n)]

theorem decimalInt_head (i : Int) :
    ∃ c cs, decimalInt i = c :: cs ∧ (c = '-' ∨ c.isDigit = true) := by
  cases i with
  | ofNat n =>
    obtain ⟨c, cs, he⟩ := List.exists_cons_of_ne_nil (decimal_ne_nil n)
    exact ⟨c, cs, he, .inr (decimal_isDigit n c (he ▸ List.mem_cons_self _ _))⟩
  | negSucc n => exact ⟨'-', _, rfl, .inl rfl⟩

theorem parseNumber_decimalInt (i : Int) {rest : List Char} (hr : NumberEnd rest) :
    parseNumber (decimalInt i ++ rest) = some (i, rest) := by
  have hend : ¬(rest.head? = some '.' ∨ rest.head? = some 'e' ∨ rest.head? = some 'E') := by
    cases rest with
    | nil => simp
    | cons c cs => simpa using hr.2
  cases i with
  | ofNat n =>
    obtain ⟨c, cs, he⟩ := List.exists_cons_of_ne_nil (decimal_ne_nil n)
    have hc : c ≠ '-' := by
      rintro rfl
      exact absurd (decimal_isDigit n '-' (he ▸ List.mem_cons_self _ _)) (by decide)
    have hp := parseNat_decimal n hr
    simp only [decimalInt, he, List.cons_append] at hp ⊢
    simp [parseNumber, parseInt, hc, hp, hend]
  | negSucc n =>
    have hp := parseNat_decimal (n + 1) hr
    simp [decimalInt, parseNumber, parseInt, hp, hend, Int.negSucc_eq]

theorem ne_of_isDigit {c k : Char} (hc : c.isDigit = true) (hk : k.isDigit = false) : c ≠ k := by
  rintro rfl
  simp_all

theorem parseValue_num (fuel : Nat) (i : Int) {rest : List Char} (hr : NumberEnd rest) :
    parseValue (fuel + 1) (decimalInt i ++ rest) = some (.num i, rest) := by
  obtain ⟨c, cs, he, hc⟩ := decimalInt_head i
  have hn := parseNumber_decimalInt i hr
  rw [he, List.cons_append] at hn
  rw [he]
  have key : ∀ k : Char, k.isDigit = false → k ≠ '-' → c ≠ k := fun k hk hm => by
    rcases hc with rfl | hc
    · exact hm.symm
    · exact ne_of_isDigit hc hk
  have hws : isWs c = false := by
    simp only [isWs, Bool.or_eq_false_iff, decide_eq_false_iff_not]
    exact ⟨⟨⟨key ' ' rfl (by decide), key '\t' rfl (by decide)⟩, key '\n' rfl (by decide)⟩,
      key '\r' rfl (by decide)⟩
  simp [parseValue, skipWs_cons _ hws, key '{' rfl (by decide), key '[' rfl (by decide),
    key '"' rfl (by decide), parseScalar, key 't' rfl (by decide), key 'f' rfl (by decide),
    key 'n' rfl (by decide), hn]

theorem parseValue_space (fuel : Nat) (cs : List Char) :
    parseValue (fuel + 1) (' ' :: cs) = parseValue (fuel + 1) cs := by
  simp [parseValue, skipWs_space]

theorem parseValue_str (fuel : Nat) {s : List Char} (rest : List Char) (hs : ∀ c ∈ s, Plain c) :
    parseValue (fuel + 1) ('"' :: s ++ '"' :: rest) = some (.str s, rest) := by
  simp [parseValue, skipWs, isWs, parseChars_plain rest hs]

theorem parseValue_object (fuel : Nat) (cs : List Char) :
    parseValue (fuel + 1) ('{' :: cs) = parseObject fuel cs := by
  simp [parseValue, skipWs, isWs]

theorem parseValue_array (fuel : Nat) (cs : List Char) :
    parseValue (fuel + 1) ('[' :: cs) = parseArray fuel cs := by
  simp [parseValue, skipWs, isWs]

theorem parseObject_members (fuel : Nat) (cs : List Char) :
    parseObject (fuel + 1) ('"' :: cs) =
      (parseMembers fuel ('"' :: cs)).map fun (ms, r) => (.obj ms, r) := by
  simp [parseObject, skipWs, isWs]

theorem parseArray_elements (fuel : Nat) (cs : List Char) :
    parseArray (fuel + 1) ('{' :: cs) =
      (parseElements fuel ('{' :: cs)).map fun (vs, r) => (.arr vs, r) := by
  simp [parseArray, skipWs, isWs]

section Members

variable {fuel : Nat} {k rest after r : List Char} {v : Json}

theorem parseMembers_cons {ms : List (List Char × Json)} (hk : ∀ c ∈ k, Plain c)
    (hv : parseValue fuel rest = some (v, ',' :: after)) (hm : parseMembers fuel after = some (ms, r)) :
    parseMembers (fuel + 1) ('"' :: k ++ '"' :: ':' :: rest) = some ((k, v) :: ms, r) := by
  simp only [parseMembers, skipWs, isWs, ↓Char.isValue, Char.reduceEq, decide_False, Bool.or_self,
    Bool.false_eq_true, ↓reduceIte, List.append_eq, parseChars_plain _ hk, Option.pure_def,
    Option.bind_eq_bind, Option.some_bind, hv, hm]

theorem parseMembers_last (hk : ∀ c ∈ k, Plain c) (hv : parseValue fuel rest = some (v, '}' :: r)) :
    parseMembers (fuel + 1) ('"' :: k ++ '"' :: ':' :: rest) = some ([(k, v)], r) := by
  simp only [parseMembers, skipWs, isWs, ↓Char.isValue, Char.reduceEq, decide_False, Bool.or_self,
    Bool.false_eq_true, ↓reduceIte, List.append_eq, parseChars_plain _ hk, Option.pure_def,
    Option.bind_eq_bind, Option.some_bind, hv]

theorem parseElements_cons {vs : List Json} (hv : parseValue fuel rest = some (v, ',' :: after))
    (hm : parseElements fuel after = some (vs, r)) :
    parseElements (fuel + 1) rest = some (v :: vs, r) := by
  simp only [parseElements, hv, ↓Char.isValue, Option.pure_def, Option.bind_eq_bind, Option.some_bind,
    skipWs, isWs, Char.reduceEq, decide_False, Bool.or_self, Bool.false_eq_true, ↓reduceIte, hm]

theorem parseElements_last (hv : parseValue fuel rest = some (v, ']' :: r)) :
    parseElements (fuel + 1) rest = some ([v], r) := by
  simp only [parseElements, hv, ↓Char.isValue, Option.pure_def, Option.bind_eq_bind, Option.some_bind,
    skipWs, isWs, Char.reduceEq, decide_False, Bool.or_self, Bool.false_eq_true, ↓reduceIte]

end Members

/-! ## Reading texts built piece by piece

Each nesting level of a text costs the reader at most two calls and the text at
least one character, so twice a text's length is always fuel enough. -/

/-- `text` reads as `v`, whatever a value may be followed by. -/
def ReadsAs (text : List Char) (v : Json) : Prop :=
  ∀ fuel r, 2 * text.length ≤ fuel → NumberEnd r → parseValue fuel (text ++ r) = some (v, r)

def MembersReadAs (text : List Char) (ms : List (List Char × Json)) : Prop :=
  ∀ fuel r, 2 * text.length ≤ fuel → parseMembers fuel (text ++ r) = some (ms, r)

def MembersTail (tail : List Char) (ms : List (List Char × Json)) : Prop :=
  (tail = ['\x7d'] ∧ ms = []) ∨ ∃ rest, tail = ',' :: rest ∧ MembersReadAs rest ms

def ElementsReadAs (text : List Char) (vs : List Json) : Prop :=
  ∀ fuel r, 2 * text.length ≤ fuel → parseElements fuel (text ++ r) = some (vs, r)

theorem numberEnd_cons {c : Char} (cs : List Char) (h : c.isDigit = false)
    (h1 : c ≠ '.') (h2 : c ≠ 'e') (h3 : c ≠ 'E') : NumberEnd (c :: cs) := ⟨h, h1, h2, h3⟩

theorem readsAs_str {s : List Char} (hs : ∀ c ∈ s, Plain c) : ReadsAs ('"' :: s ++ ['"']) (.str s) := by
  intro fuel r hf _
  obtain ⟨f, rfl⟩ : ∃ f, fuel = f + 1 := ⟨fuel - 1, by simp at hf; omega⟩
  simpa using parseValue_str f r hs

theorem readsAs_num (i : Int) : ReadsAs (decimalInt i) (.num i) := by
  intro fuel r hf hr
  obtain ⟨c, cs, he, _⟩ := decimalInt_head i
  obtain ⟨f, rfl⟩ : ∃ f, fuel = f + 1 := ⟨fuel - 1, by rw [he] at hf; simp at hf; omega⟩
  exact parseValue_num f i hr

theorem readsAs_space {t : List Char} {v : Json} (h : ReadsAs t v) : ReadsAs (' ' :: t) v := by
  intro fuel r hf hr
  obtain ⟨f, rfl⟩ : ∃ f, fuel = f + 1 := ⟨fuel - 1, by simp at hf; omega⟩
  have hv := h (f + 1) r (by simp at hf; omega) hr
  rw [List.cons_append, parseValue_space, hv]

theorem membersReadAs_cons {k vt tail : List Char} {v : Json} {ms : List (List Char × Json)}
    (hk : ∀ c ∈ k, Plain c) (hv : ReadsAs vt v) (ht : MembersTail tail ms) :
    MembersReadAs ('"' :: k ++ '"' :: ':' :: vt ++ tail) ((k, v) :: ms) := by
  intro fuel r hf
  obtain ⟨f, rfl⟩ : ∃ f, fuel = f + 1 := ⟨fuel - 1, by simp at hf; omega⟩
  simp only [List.length_cons, List.length_append] at hf
  rcases ht with ⟨rfl, rfl⟩ | ⟨rest, rfl, hrest⟩
  · have := parseMembers_last hk
      (hv f ('\x7d' :: r) (by omega) (numberEnd_cons _ rfl (by decide) (by decide) (by decide)))
    simpa [List.append_assoc] using this
  · have := parseMembers_cons hk
      (hv f (',' :: (rest ++ r)) (by omega) (numberEnd_cons _ rfl (by decide) (by decide) (by decide)))
      (hrest f r (by simp at hf; omega))
    simpa [List.append_assoc] using this

theorem readsAs_obj {mt : List Char} {ms : List (List Char × Json)} (h : MembersReadAs ('"' :: mt) ms) :
    ReadsAs ('\x7b' :: '"' :: mt) (.obj ms) := by
  intro fuel r hf _
  simp only [List.length_cons] at hf
  obtain ⟨f, rfl⟩ : ∃ f, fuel = f + 2 := ⟨fuel - 2, by omega⟩
  rw [List.cons_append, parseValue_object, List.cons_append, parseObject_members,
    ← List.cons_append, h f r (by simp only [List.length_cons]; omega)]
  rfl

theorem elementsReadAs_last {t : List Char} {v : Json} (h : ReadsAs t v) :
    ElementsReadAs (t ++ [']']) [v] := by
  intro fuel r hf
  obtain ⟨f, rfl⟩ : ∃ f, fuel = f + 1 := ⟨fuel - 1, by simp at hf; omega⟩
  have := parseElements_last
    (h f (']' :: r) (by simp at hf; omega) (numberEnd_cons _ rfl (by decide) (by decide) (by decide)))
  simpa [List.append_assoc] using this

theorem elementsReadAs_cons {t rest : List Char} {v : Json} {vs : List Json} (h : ReadsAs t v)
    (hr : ElementsReadAs rest vs) : ElementsReadAs (t ++ ',' :: rest) (v :: vs) := by
  intro fuel r hf
  obtain ⟨f, rfl⟩ : ∃ f, fuel = f + 1 := ⟨fuel - 1, by simp at hf; omega⟩
  simp only [List.length_append, List.length_cons] at hf
  have := parseElements_cons
    (h f (',' :: (rest ++ r)) (by omega) (numberEnd_cons _ rfl (by decide) (by decide) (by decide)))
    (hr f r (by omega))
  simpa [List.append_assoc] using this

theorem readsAs_arr {et : List Char} {vs : List Json} (h : ElementsReadAs ('\x7b' :: et) vs) :
    ReadsAs ('[' :: '\x7b' :: et) (.arr vs) := by
  intro fuel r hf _
  simp only [List.length_cons] at hf
  obtain ⟨f, rfl⟩ : ∃ f, fuel = f + 2 := ⟨fuel - 2, by omega⟩
  rw [List.cons_append, parseValue_array, List.cons_append, parseArray_elements,
    ← List.cons_append, h f r (by simp only [List.length_cons]; omega)]
  rfl

theorem parse_of_readsAs {t : List Char} {v : Json} (h : ReadsAs t v) : parse t = some v := by
  have hv := h (2 * t.length + 1) [] (by omega) trivial
  simp only [List.append_nil] at hv
  simp [parse, hv, skipWs]

end Json

end WorkerdQueue
