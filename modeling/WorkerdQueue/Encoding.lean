import WorkerdQueue.Codec

/-! The text encodings `sendBatch` writes: `kj::str` of an integer and
`kj::encodeBase64`. A strict RFC 4648 decoder reads the base64 text back; the
decimal text is read back by the JSON scanner in `Json`. -/

namespace WorkerdQueue

abbrev CInt := BitVec 32

def decimal (n : Nat) : List Char := Nat.toDigits 10 n

def decimalInt : Int → List Char
  | .ofNat n => decimal n
  | .negSucc n => '-' :: decimal (n + 1)

theorem toDigitsCore_append (b f n : Nat) (ds : List Char) :
    Nat.toDigitsCore b f n ds = Nat.toDigitsCore b f n [] ++ ds := by
  induction f generalizing n ds with
  | zero => rfl
  | succ f ih =>
    simp only [Nat.toDigitsCore]
    split
    · rfl
    · rw [ih _ (_ :: ds), ih _ [_]]
      simp

theorem toDigitsCore_fuel {b : Nat} (hb : 2 ≤ b) {f g n : Nat} (ds : List Char)
    (hf : n < f) (hg : n < g) : Nat.toDigitsCore b f n ds = Nat.toDigitsCore b g n ds := by
  induction f generalizing g n ds with
  | zero => omega
  | succ f ih =>
    obtain ⟨g, rfl⟩ : ∃ g', g = g' + 1 := ⟨g - 1, by omega⟩
    simp only [Nat.toDigitsCore]
    split
    · rfl
    · have hn : 0 < n := Nat.pos_of_ne_zero (by rintro rfl; simp_all)
      have hlt : n / b < n := Nat.div_lt_self hn (by omega)
      exact ih _ (by omega) (by omega)

theorem decimal_of_lt {n : Nat} (h : n < 10) : decimal n = [Nat.digitChar n] := by
  simp [decimal, Nat.toDigits, Nat.toDigitsCore, Nat.div_eq_of_lt h, Nat.mod_eq_of_lt h]

theorem decimal_of_ge {n : Nat} (h : 10 ≤ n) :
    decimal n = decimal (n / 10) ++ [Nat.digitChar (n % 10)] := by
  have hq : n / 10 ≠ 0 := by omega
  have hstep : Nat.toDigitsCore 10 (n + 1) n [] =
      Nat.toDigitsCore 10 n (n / 10) [Nat.digitChar (n % 10)] := by
    simp [Nat.toDigitsCore, hq]
  unfold decimal Nat.toDigits
  rw [hstep, toDigitsCore_append, toDigitsCore_fuel (by omega) [] (by omega) (Nat.lt_succ_self _)]

theorem digitChar_isDigit {d : Nat} (h : d < 10) : (Nat.digitChar d).isDigit = true := by
  have key : ∀ e : Fin 10, (Nat.digitChar e.val).isDigit = true := by decide
  exact key ⟨d, h⟩

theorem digitChar_toNat {d : Nat} (h : d < 10) : (Nat.digitChar d).toNat = 48 + d := by
  have key : ∀ e : Fin 10, (Nat.digitChar e.val).toNat = 48 + e.val := by decide
  exact key ⟨d, h⟩

theorem decimal_isDigit (n : Nat) : ∀ c ∈ decimal n, c.isDigit = true := by
  induction n using Nat.strong_induction_on with
  | _ n ih =>
    by_cases h : n < 10
    · simp [decimal_of_lt h, digitChar_isDigit h]
    · rw [decimal_of_ge (by omega)]
      intro c hc
      rcases List.mem_append.mp hc with hc | hc
      · exact ih _ (by omega) c hc
      · simp only [List.mem_singleton] at hc
        exact hc ▸ digitChar_isDigit (Nat.mod_lt _ (by omega))

def digitsValue (acc : Nat) (cs : List Char) : Nat :=
  cs.foldl (fun a c => a * 10 + (c.toNat - 48)) acc

theorem digitsValue_decimal (n : Nat) : digitsValue 0 (decimal n) = n := by
  induction n using Nat.strong_induction_on with
  | _ n ih =>
    by_cases h : n < 10
    · simp [decimal_of_lt h, digitsValue, digitChar_toNat h]
    · have hd := ih (n / 10) (by omega)
      have hc := digitChar_toNat (Nat.mod_lt n (show 10 > 0 by omega))
      simp only [digitsValue] at hd ⊢
      rw [decimal_of_ge (by omega), List.foldl_append, hd]
      simp only [List.foldl_cons, List.foldl_nil, hc]
      omega

theorem decimal_head {n : Nat} (h : 0 < n) :
    ∃ c cs, decimal n = c :: cs ∧ c ≠ '0' := by
  induction n using Nat.strong_induction_on with
  | _ n ih =>
    by_cases hn : n < 10
    · refine ⟨_, [], decimal_of_lt hn, fun he => ?_⟩
      have := congrArg Char.toNat he
      rw [digitChar_toNat hn] at this
      simp at this
      omega
    · obtain ⟨c, cs, he, hc⟩ := ih (n / 10) (by omega) (by omega)
      exact ⟨c, cs ++ [_], by rw [decimal_of_ge (by omega), he]; rfl, hc⟩

theorem decimal_length_le {n k : Nat} (h : n < 10 ^ (k + 1)) : (decimal n).length ≤ k + 1 := by
  induction k generalizing n with
  | zero => simp [decimal_of_lt (by simpa using h)]
  | succ k ih =>
    by_cases hn : n < 10
    · simp [decimal_of_lt hn]
    · rw [decimal_of_ge (by omega), List.length_append, List.length_singleton]
      have := ih (n := n / 10) (by rw [Nat.pow_succ] at h; omega)
      omega

theorem toInt_bounds (secs : CInt) : -2147483648 ≤ secs.toInt ∧ secs.toInt < 2147483648 := by
  have hlt : secs.toNat < 4294967296 := secs.isLt
  have h := BitVec.toInt_eq_toNat_cond secs
  split at h <;> omega

/-- An `int` prints in at most eleven characters (`-2147483648`). -/
theorem decimalInt_length_le (secs : CInt) : (decimalInt secs.toInt).length ≤ 11 := by
  have hb := toInt_bounds secs
  have h10 : (10 : Nat) ^ (9 + 1) = 10000000000 := rfl
  cases hi : secs.toInt with
  | ofNat n =>
    simp only [hi, Int.ofNat_eq_coe] at hb
    have := decimal_length_le (n := n) (k := 9) (by omega)
    simp only [decimalInt]
    omega
  | negSucc m =>
    simp only [hi, Int.negSucc_eq] at hb
    have := decimal_length_le (n := m + 1) (k := 9) (by omega)
    simp only [decimalInt, List.length_cons]
    omega

/-! ## Base64 -/

def base64Alphabet : List Char :=
  "ABCDEFGHIJKLMNOPQRSTUVWXYZabcdefghijklmnopqrstuvwxyz0123456789+/".data

def base64Char (i : Nat) : Char := base64Alphabet.getD i '='

/-- `kj::encodeBase64` without line breaks: three bytes to four characters, the
last group padded with `=`. -/
def encodeBase64 : List UInt8 → List Char
  | [] => []
  | [a] => [base64Char (a.toNat / 4), base64Char (a.toNat % 4 * 16), '=', '=']
  | [a, b] =>
    [base64Char (a.toNat / 4), base64Char (a.toNat % 4 * 16 + b.toNat / 16),
      base64Char (b.toNat % 16 * 4), '=']
  | a :: b :: c :: rest =>
    [base64Char (a.toNat / 4), base64Char (a.toNat % 4 * 16 + b.toNat / 16),
      base64Char (b.toNat % 16 * 4 + c.toNat / 64), base64Char (c.toNat % 64)] ++
      encodeBase64 rest

def base64Index (c : Char) : Option Nat := base64Alphabet.indexOf? c

def decodeQuantum (c1 c2 c3 c4 : Char) : Option (List UInt8) := do
  let i1 ← base64Index c1
  let i2 ← base64Index c2
  if c3 = '=' then
    if c4 = '=' ∧ i2 % 16 = 0 then some [UInt8.ofNat (i1 * 4 + i2 / 16)] else none
  else
    let i3 ← base64Index c3
    if c4 = '=' then
      if i3 % 4 = 0 then some [UInt8.ofNat (i1 * 4 + i2 / 16), UInt8.ofNat (i2 % 16 * 16 + i3 / 4)]
      else none
    else
      let i4 ← base64Index c4
      some [UInt8.ofNat (i1 * 4 + i2 / 16), UInt8.ofNat (i2 % 16 * 16 + i3 / 4),
        UInt8.ofNat (i3 % 4 * 64 + i4)]

/-- Strict base64 decoding (RFC 4648 section 4): padded groups of four, padding only
at the end, unused bits zero. -/
def decodeBase64 : List Char → Option (List UInt8)
  | [] => some []
  | c1 :: c2 :: c3 :: c4 :: rest => do
    let q ← decodeQuantum c1 c2 c3 c4
    if q.length < 3 ∧ rest ≠ [] then none
    else (q ++ ·) <$> decodeBase64 rest
  | _ => none

/-- The alphabet has no repeated character: code-point arithmetic sends it to `0, ..., 63`
in order, a check linear in its length where comparing every pair is quadratic. -/
theorem base64Alphabet_nodup : base64Alphabet.Nodup :=
  List.Nodup.of_map (fun c : Char =>
      if c.toNat < 48 then c.toNat / 4 + 52 else if c.toNat < 65 then c.toNat + 4
      else if c.toNat < 97 then c.toNat - 65 else c.toNat - 71)
    ((congrArg List.Nodup (by decide)).mpr (List.nodup_range 64))

theorem base64Index_char {i : Nat} (h : i < 64) : base64Index (base64Char i) = some i := by
  have hl : i < base64Alphabet.length := h
  have hc : base64Char i = base64Alphabet[i] := by
    simp only [base64Char, List.getD_eq_getElem?_getD, List.getElem?_eq_getElem hl, Option.getD_some]
  rw [hc, base64Index, List.indexOf?, List.findIdx?_eq_some_iff_getElem]
  refine ⟨hl, beq_self_eq_true _, fun j hj he => ?_⟩
  exact Nat.ne_of_lt hj ((base64Alphabet_nodup.getElem_inj_iff).mp (beq_iff_eq.mp he))

theorem base64Char_ne_pad {i : Nat} (h : i < 64) : base64Char i ≠ '=' := by
  intro he
  have hi := base64Index_char h
  have hpad : base64Index '=' = none := by decide
  rw [he, hpad] at hi
  exact Option.noConfusion hi

theorem base64Char_pad_or_mem (i : Nat) : base64Char i = '=' ∨ base64Char i ∈ base64Alphabet := by
  rw [base64Char, List.getD_eq_getElem?_getD]
  cases h : base64Alphabet[i]? with
  | none => exact .inl rfl
  | some c => exact .inr (List.getElem?_mem h)

theorem uint8_toNat_lt (b : UInt8) : b.toNat < 256 := b.val.isLt

theorem uint8_ofNat_eq {n : Nat} {b : UInt8} (h : n = b.toNat) : UInt8.ofNat n = b :=
  UInt8.eq_of_val_eq (Fin.ext ((UInt8.toNat_ofNat_of_lt (h ▸ uint8_toNat_lt b)).trans h))

theorem decodeQuantum_one {i1 i2 : Nat} (h1 : i1 < 64) (h2 : i2 < 64) (h : i2 % 16 = 0) :
    decodeQuantum (base64Char i1) (base64Char i2) '=' '=' = some [UInt8.ofNat (i1 * 4 + i2 / 16)] := by
  simp [decodeQuantum, base64Index_char h1, base64Index_char h2, h]

theorem decodeQuantum_two {i1 i2 i3 : Nat} (h1 : i1 < 64) (h2 : i2 < 64) (h3 : i3 < 64)
    (h : i3 % 4 = 0) :
    decodeQuantum (base64Char i1) (base64Char i2) (base64Char i3) '=' =
      some [UInt8.ofNat (i1 * 4 + i2 / 16), UInt8.ofNat (i2 % 16 * 16 + i3 / 4)] := by
  simp [decodeQuantum, base64Index_char h1, base64Index_char h2, base64Index_char h3,
    base64Char_ne_pad h3, h]

theorem decodeQuantum_three {i1 i2 i3 i4 : Nat} (h1 : i1 < 64) (h2 : i2 < 64) (h3 : i3 < 64)
    (h4 : i4 < 64) :
    decodeQuantum (base64Char i1) (base64Char i2) (base64Char i3) (base64Char i4) =
      some [UInt8.ofNat (i1 * 4 + i2 / 16), UInt8.ofNat (i2 % 16 * 16 + i3 / 4),
        UInt8.ofNat (i3 % 4 * 64 + i4)] := by
  simp [decodeQuantum, base64Index_char h1, base64Index_char h2, base64Index_char h3,
    base64Index_char h4, base64Char_ne_pad h3, base64Char_ne_pad h4]

theorem decodeBase64_encodeBase64 (bs : List UInt8) : decodeBase64 (encodeBase64 bs) = some bs := by
  induction bs using encodeBase64.induct with
  | case1 => rfl
  | case2 a =>
    have ha := uint8_toNat_lt a
    rw [encodeBase64, decodeBase64, decodeQuantum_one (by omega) (by omega) (by omega),
      uint8_ofNat_eq (show a.toNat / 4 * 4 + a.toNat % 4 * 16 / 16 = a.toNat by omega)]
    rfl
  | case3 a b =>
    have ha := uint8_toNat_lt a
    have hb := uint8_toNat_lt b
    rw [encodeBase64, decodeBase64, decodeQuantum_two (by omega) (by omega) (by omega) (by omega),
      uint8_ofNat_eq (show a.toNat / 4 * 4 + (a.toNat % 4 * 16 + b.toNat / 16) / 16 = a.toNat by omega),
      uint8_ofNat_eq (show (a.toNat % 4 * 16 + b.toNat / 16) % 16 * 16 + b.toNat % 16 * 4 / 4 =
        b.toNat by omega)]
    rfl
  | case4 a b c rest ih =>
    have ha := uint8_toNat_lt a
    have hb := uint8_toNat_lt b
    have hc := uint8_toNat_lt c
    rw [encodeBase64, List.cons_append, List.cons_append, List.cons_append, List.cons_append,
      List.nil_append, decodeBase64, decodeQuantum_three (by omega) (by omega) (by omega) (by omega),
      uint8_ofNat_eq (show a.toNat / 4 * 4 + (a.toNat % 4 * 16 + b.toNat / 16) / 16 = a.toNat by omega),
      uint8_ofNat_eq (show (a.toNat % 4 * 16 + b.toNat / 16) % 16 * 16 +
        (b.toNat % 16 * 4 + c.toNat / 64) / 4 = b.toNat by omega),
      uint8_ofNat_eq (show (b.toNat % 16 * 4 + c.toNat / 64) % 4 * 64 + c.toNat % 64 = c.toNat by omega),
      ih]
    simp

theorem encodeBase64_length (bs : List UInt8) :
    (encodeBase64 bs).length = (bs.length + 2) / 3 * 4 := by
  induction bs using encodeBase64.induct with
  | case4 a b c rest ih => simp [encodeBase64, ih]; omega
  | _ => simp [encodeBase64]

theorem encodeBase64_chars (bs : List UInt8) :
    ∀ c ∈ encodeBase64 bs, c = '=' ∨ c ∈ base64Alphabet := by
  induction bs using encodeBase64.induct with
  | case1 => simp [encodeBase64]
  | case4 a b c rest ih =>
    simp only [encodeBase64, List.cons_append, List.mem_cons]
    rintro x (rfl | rfl | rfl | rfl | hx)
    all_goals first | exact base64Char_pad_or_mem _ | exact ih x hx
  | _ =>
    simp only [encodeBase64, List.mem_cons, List.mem_singleton, List.not_mem_nil, or_false]
    rintro c (rfl | rfl | rfl | rfl) <;> first | exact .inl rfl | exact base64Char_pad_or_mem _

end WorkerdQueue
