import Mathlib.Data.List.Basic
import Mathlib.Tactic.Linarith

/-!
# JSON Texts

A decoder for JSON texts, and the encoder for objects whose members are strings, with the
output restricted to ASCII.

A JSON string is a sequence of code points: escapes can denote unpaired surrogates, which
no character is. A character beyond the basic plane is escaped as a pair of surrogates,
and the decoder joins such a pair again (`joinSurrogates`).

## Main results

* `scanString_escape`: an escaped string is read back, up to its closing quote.
* `joinSurrogates_units`: joining recovers the code points of a text.
* `decode_encodeObject`: an encoded object is decoded to its members.
* `length_encodeObject`: how long an encoded object is.
-/

/-- A JSON value; numbers are kept as they are written. -/
inductive Json where
  | null
  | bool (value : Bool)
  | number (literal : String)
  | string (codes : List ℕ)
  | array (items : List Json)
  | object (members : List (List ℕ × Json))

namespace Json

/-- The code points of a text. -/
def codesOf (s : String) : List ℕ := s.toList.map Char.toNat

theorem codesOf_injective : Function.Injective codesOf := by
  intro s t h
  have hinj : Function.Injective Char.toNat := fun a b hab => Char.toNat_inj.mp hab
  exact String.toList_inj.mp (List.map_injective_iff.mpr hinj h)

/-- A text as a JSON string. -/
def ofText (s : String) : Json := string (codesOf s)

/-- The text of a JSON string without unpaired surrogates. -/
def text? : Json → Option String
  | string codes =>
    if codes.all fun n => decide n.isValidChar then some (String.ofList (codes.map Char.ofNat))
    else none
  | _ => none

@[simp] theorem text?_ofText (s : String) : (ofText s).text? = some s := by
  have hvalid : (codesOf s).all (fun n => decide n.isValidChar) = true := by
    rw [List.all_eq_true]
    intro n hn
    obtain ⟨c, -, rfl⟩ := List.mem_map.mp hn
    exact decide_eq_true (p := c.toNat.isValidChar) c.valid
  have hback : (codesOf s).map Char.ofNat = s.toList := by
    rw [codesOf, List.map_map]
    exact (List.map_congr_left fun c _ => Char.ofNat_toNat c).trans (List.map_id _)
  rw [ofText, text?, if_pos hvalid, hback, String.ofList_toList]

theorem ofText_injective : Function.Injective ofText := by
  intro s t h
  have := congrArg text? h
  rw [text?_ofText, text?_ofText] at this
  exact Option.some.inj this

/-- The value of a key; of repeated keys the last one counts. -/
def lookup (members : List (List ℕ × Json)) (key : String) : Option Json :=
  (members.reverse.find? fun m => decide (m.1 = codesOf key)).map Prod.snd

mutual

/-- How deep arrays and objects are nested in a value. -/
def depth : Json → ℕ
  | array items => depthItems items + 1
  | object members => depthMembers members + 1
  | _ => 0

/-- The depth of the deepest item. -/
def depthItems : List Json → ℕ
  | [] => 0
  | item :: items => max item.depth (depthItems items)

/-- The depth of the deepest member. -/
def depthMembers : List (List ℕ × Json) → ℕ
  | [] => 0
  | (_, value) :: members => max value.depth (depthMembers members)

end

/-! ### Encoding -/

/-- The hexadecimal digit of a number below sixteen. -/
def hexDigit (n : ℕ) : Char :=
  if n % 16 < 10 then Char.ofNat (48 + n % 16) else Char.ofNat (87 + n % 16)

/-- `\uXXXX` -/
def unicodeEscape (unit : ℕ) : List Char :=
  ['\\', 'u', hexDigit (unit / 4096), hexDigit (unit / 256), hexDigit (unit / 16), hexDigit unit]

/-- The UTF-16 code units of a character. -/
def units (c : Char) : List ℕ :=
  if c.toNat < 0x10000 then [c.toNat]
  else [0xd800 + (c.toNat - 0x10000) / 1024, 0xdc00 + (c.toNat - 0x10000) % 1024]

/-- The characters that have a short escape, with their letters. -/
def shortEscapes : List (Char × Char) :=
  [('"', '"'), ('\\', '\\'), ('\n', 'n'), ('\r', 'r'), ('\t', 't'), ('\x08', 'b'), ('\x0c', 'f')]

def escapeChar (c : Char) : List Char :=
  match shortEscapes.find? fun e => decide (e.1 = c) with
  | some e => ['\\', e.2]
  | none => if 32 ≤ c.toNat ∧ c.toNat ≤ 126 then [c] else (units c).flatMap unicodeEscape

def encodeString (s : String) : List Char :=
  '"' :: (s.toList.flatMap escapeChar ++ ['"'])

/-- A member `"key": "value"`. -/
def encodeMember (member : String × String) : List Char :=
  encodeString member.1 ++ [':', ' '] ++ encodeString member.2

/-- The members of an object after the first one, and the closing brace. -/
def encodeRest : List (String × String) → List Char
  | [] => ['}']
  | member :: rest => [',', ' '] ++ encodeMember member ++ encodeRest rest

/-- `json.dumps` of an object whose members are strings. -/
def encodeObject : List (String × String) → String
  | [] => "{}"
  | member :: rest => String.ofList ('{' :: (encodeMember member ++ encodeRest rest))

/-! ### The length of an encoding -/

/-- How many characters the encoding of a character has. -/
def escapeWidth (c : Char) : ℕ :=
  if (shortEscapes.find? fun e => decide (e.1 = c)).isSome then 2
  else if 32 ≤ c.toNat ∧ c.toNat ≤ 126 then 1
  else if c.toNat < 0x10000 then 6
  else 12

/-- The length of an encoded text, without its quotes. -/
def escapedLength (s : String) : ℕ := (s.toList.map escapeWidth).sum

theorem length_escapeChar (c : Char) : (escapeChar c).length = escapeWidth c := by
  rw [escapeChar, escapeWidth]
  cases shortEscapes.find? fun e => decide (e.1 = c) with
  | some e => rfl
  | none =>
      simp only [Option.isSome_none, Bool.false_eq_true, if_false]
      split
      · rfl
      · rw [units]
        split <;> rfl

theorem length_encodeString (s : String) : (encodeString s).length = escapedLength s + 2 := by
  rw [encodeString, List.length_cons, List.length_append, List.length_flatMap, escapedLength]
  simp only [length_escapeChar, List.length_cons, List.length_nil]

theorem length_encodeMember (member : String × String) :
    (encodeMember member).length = escapedLength member.1 + escapedLength member.2 + 6 := by
  simp only [encodeMember, List.length_append, length_encodeString, List.length_cons,
    List.length_nil]
  omega

theorem length_encodeRest (members : List (String × String)) :
    (encodeRest members).length =
      (members.map fun m => escapedLength m.1 + escapedLength m.2 + 8).sum + 1 := by
  induction members with
  | nil => rfl
  | cons member rest ih =>
      simp only [encodeRest, List.length_append, length_encodeMember, ih, List.map_cons,
        List.sum_cons, List.length_cons, List.length_nil]
      omega

/-- **The length of an encoded object**, from its keys and values. -/
theorem length_encodeObject {members : List (String × String)} (hne : members ≠ []) :
    (encodeObject members).length =
      (members.map fun m => escapedLength m.1 + escapedLength m.2 + 8).sum := by
  obtain ⟨member, rest, rfl⟩ := List.exists_cons_of_ne_nil hne
  rw [encodeObject, String.length_ofList, List.length_cons, List.length_append,
    length_encodeMember, length_encodeRest, List.map_cons, List.sum_cons]
  omega

/-- Printable characters without a short escape are encoded as they are. -/
theorem escapedLength_eq_length {s : String}
    (h : ∀ c ∈ s.toList, (32 ≤ c.toNat ∧ c.toNat ≤ 126) ∧ c ≠ '"' ∧ c ≠ '\\') :
    escapedLength s = s.length := by
  have hone : ∀ c ∈ s.toList, escapeWidth c = 1 := by
    intro c hc
    obtain ⟨hplain, hquote, hslash⟩ := h c hc
    have hnone : (shortEscapes.find? fun e => decide (e.1 = c)) = none := by
      rw [List.find?_eq_none]
      intro e he heq
      obtain rfl := of_decide_eq_true heq
      simp only [shortEscapes, List.mem_cons, List.not_mem_nil, or_false] at he
      rcases he with rfl | rfl | rfl | rfl | rfl | rfl | rfl
      · exact hquote rfl
      · exact hslash rfl
      all_goals exact absurd hplain.1 (by decide)
    rw [escapeWidth, hnone, if_neg (by simp), if_pos hplain]
  rw [escapedLength, List.map_congr_left hone, List.map_const', List.sum_replicate_nat, mul_one,
    String.length_toList]

/-! ### Decoding -/

def isSpace (c : Char) : Bool := c = ' ' || c = '\t' || c = '\n' || c = '\r'

def skipSpace (cs : List Char) : List Char := cs.dropWhile isSpace

def hexValue (c : Char) : Option ℕ :=
  if '0' ≤ c ∧ c ≤ '9' then some (c.toNat - 48)
  else if 'a' ≤ c ∧ c ≤ 'f' then some (c.toNat - 87)
  else if 'A' ≤ c ∧ c ≤ 'F' then some (c.toNat - 55)
  else none

/-- The number that hexadecimal digits stand for. -/
def ofHex (digits : List Char) : ℕ :=
  digits.foldl (fun n c => n * 16 + (hexValue c).getD 0) 0

/-- The code point of an escape of one letter. -/
def unescapeShort (c : Char) : Option ℕ :=
  if c = '/' then some '/'.toNat
  else (shortEscapes.find? fun e => decide (e.2 = c)).map fun e => e.1.toNat

/-- The code unit of four hexadecimal digits. -/
def hexUnit (h₁ h₂ h₃ h₄ : Char) : Option ℕ := do
  let d₁ ← hexValue h₁
  let d₂ ← hexValue h₂
  let d₃ ← hexValue h₃
  let d₄ ← hexValue h₄
  return d₁ * 4096 + d₂ * 256 + d₃ * 16 + d₄

/-- Read a string after its opening quote, as code units. -/
def scanString : List Char → Option (List ℕ × List Char)
  | [] => none
  | c :: cs =>
    if c = '"' then some ([], cs)
    else if c = '\\' then
      match cs with
      | [] => none
      | e :: cs =>
        if e = 'u' then
          match cs with
          | h₁ :: h₂ :: h₃ :: h₄ :: cs =>
            (hexUnit h₁ h₂ h₃ h₄).bind fun unit =>
              (scanString cs).map fun r => (unit :: r.1, r.2)
          | _ => none
        else
          (unescapeShort e).bind fun code => (scanString cs).map fun r => (code :: r.1, r.2)
    else if c.toNat < 32 then none
    else (scanString cs).map fun r => (c.toNat :: r.1, r.2)

/-- Join each high surrogate with a low surrogate that follows it. -/
def joinSurrogates : List ℕ → List ℕ
  | h :: l :: rest =>
    if (0xd800 ≤ h ∧ h ≤ 0xdbff) ∧ 0xdc00 ≤ l ∧ l ≤ 0xdfff then
      (0x10000 + (h - 0xd800) * 1024 + (l - 0xdc00)) :: joinSurrogates rest
    else h :: joinSurrogates (l :: rest)
  | codes => codes

def isDigit (c : Char) : Bool := decide ('0' ≤ c) && decide (c ≤ '9')

/-- Read the digits of a number, at least one. -/
def scanDigits (cs : List Char) : Option (List Char × List Char) :=
  match cs.takeWhile isDigit with
  | [] => none
  | digits => some (digits, cs.dropWhile isDigit)

/-- Read a fraction, or nothing. -/
def scanFraction : List Char → List Char × List Char
  | '.' :: cs =>
    match scanDigits cs with
    | some (digits, rest) => ('.' :: digits, rest)
    | none => ([], '.' :: cs)
  | cs => ([], cs)

/-- Read an exponent, or nothing. -/
def scanExponent : List Char → List Char × List Char
  | e :: cs =>
    if e = 'e' ∨ e = 'E' then
      let sign := cs.takeWhile fun c => c = '+' || c = '-'
      match if sign.length ≤ 1 then scanDigits (cs.drop sign.length) else none with
      | some (digits, rest) => (e :: sign ++ digits, rest)
      | none => ([], e :: cs)
    else ([], e :: cs)
  | [] => ([], [])

/-- Read a number. -/
def scanNumber (cs : List Char) : Option (String × List Char) :=
  let (sign, cs) := if cs.head? = some '-' then (['-'], cs.tail) else ([], cs)
  let integer := if cs.head? = some '0' then some (['0'], cs.tail) else scanDigits cs
  integer.map fun (digits, cs) =>
    let (fraction, cs) := scanFraction cs
    let (exponent, cs) := scanExponent cs
    (String.ofList (sign ++ digits ++ fraction ++ exponent), cs)

/-- The constants of the decoder, the non-standard ones included. -/
def constants : List (List Char × Json) :=
  [("null".toList, null), ("true".toList, bool true), ("false".toList, bool false),
    ("NaN".toList, number "NaN"), ("Infinity".toList, number "Infinity"),
    ("-Infinity".toList, number "-Infinity")]

/-- Read a number or a constant. -/
def scanScalar (cs : List Char) : Option (Json × List Char) :=
  match constants.find? fun k => k.1.isPrefixOf cs with
  | some k => some (k.2, cs.drop k.1.length)
  | none => (scanNumber cs).map fun (literal, cs) => (number literal, cs)

mutual

/-- Read a value. -/
def scanValue : ℕ → List Char → Option (Json × List Char)
  | 0, _ => none
  | _ + 1, [] => none
  | fuel + 1, c :: cs =>
    if c = '"' then
      (scanString cs).map fun (codes, cs) => (string (joinSurrogates codes), cs)
    else if c = '[' then
      match skipSpace cs with
      | ']' :: cs => some (array [], cs)
      | cs => (scanItems fuel cs).map fun (items, cs) => (array items, cs)
    else if c = '{' then
      match skipSpace cs with
      | '}' :: cs => some (object [], cs)
      | cs => (scanMembers fuel cs).map fun (members, cs) => (object members, cs)
    else scanScalar (c :: cs)

/-- Read the items of an array and its closing bracket. -/
def scanItems : ℕ → List Char → Option (List Json × List Char)
  | 0, _ => none
  | fuel + 1, cs => do
    let (item, cs) ← scanValue fuel cs
    match skipSpace cs with
    | ']' :: cs => return ([item], cs)
    | ',' :: cs =>
      let (items, cs) ← scanItems fuel (skipSpace cs)
      return (item :: items, cs)
    | _ => none

/-- Read the members of an object and its closing brace. -/
def scanMembers : ℕ → List Char → Option (List (List ℕ × Json) × List Char)
  | 0, _ => none
  | _ + 1, [] => none
  | fuel + 1, c :: cs =>
    if c = '"' then do
      let (key, cs) ← scanString cs
      match skipSpace cs with
      | ':' :: cs =>
        let (value, cs) ← scanValue fuel (skipSpace cs)
        match skipSpace cs with
        | '}' :: cs => return ([(joinSurrogates key, value)], cs)
        | ',' :: cs =>
          let (members, cs) ← scanMembers fuel (skipSpace cs)
          return ((joinSurrogates key, value) :: members, cs)
        | _ => none
      | _ => none
    else none

end

/-- `json.loads`, absent on `JSONDecodeError`. Every level of nesting reads a character, so
the fuel covers every text. -/
def decode (s : String) : Option Json :=
  match scanValue (2 * s.toList.length + 2) (skipSpace s.toList) with
  | some (value, cs) => if skipSpace cs = [] then some value else none
  | none => none

/-! ### Strings are read back -/

private theorem hexValue_hexDigit (n : ℕ) : hexValue (hexDigit n) = some (n % 16) := by
  have hsmall : ∀ m : Fin 16, hexValue (hexDigit m) = some m.val := by decide
  have := hsmall ⟨n % 16, Nat.mod_lt n (by omega)⟩
  simpa [hexDigit, Nat.mod_mod] using this

private theorem scanString_quote (cs : List Char) : scanString ('"' :: cs) = some ([], cs) := by
  rw [scanString.eq_def]
  simp

private theorem scanString_plain {c : Char} (hquote : c ≠ '"') (hslash : c ≠ '\\')
    (h : 32 ≤ c.toNat) (cs : List Char) :
    scanString (c :: cs) = (scanString cs).map fun r => (c.toNat :: r.1, r.2) := by
  rw [scanString.eq_def]
  simp [hquote, hslash, h]

private theorem scanString_short {e : Char} (hu : e ≠ 'u') (cs : List Char) :
    scanString ('\\' :: e :: cs) =
      (unescapeShort e).bind fun code => (scanString cs).map fun r => (code :: r.1, r.2) := by
  rw [scanString.eq_def]
  simp [hu]

private theorem scanString_unicodeEscape {unit : ℕ} (h : unit < 0x10000) (cs : List Char) :
    scanString (unicodeEscape unit ++ cs) = (scanString cs).map fun r => (unit :: r.1, r.2) := by
  have hunit : hexUnit (hexDigit (unit / 4096)) (hexDigit (unit / 256)) (hexDigit (unit / 16))
      (hexDigit unit) = some unit := by
    simp only [hexUnit, hexValue_hexDigit, Option.pure_def, Option.bind_eq_bind,
      Option.bind_some, Option.some.injEq]
    omega
  change scanString ('\\' :: 'u' :: hexDigit (unit / 4096) :: hexDigit (unit / 256) ::
    hexDigit (unit / 16) :: hexDigit unit :: cs) = _
  rw [scanString, if_neg (by decide), if_pos rfl]
  simp only [if_true, hunit, Option.bind_some]

/-- The short escapes denote their characters. -/
private theorem shortEscapes_spec : ∀ e ∈ shortEscapes,
    e.2 ≠ 'u' ∧ unescapeShort e.2 = some e.1.toNat ∧ units e.1 = [e.1.toNat] := by
  decide

theorem scanString_escapeChar (c : Char) (cs : List Char) :
    scanString (escapeChar c ++ cs) = (scanString cs).map fun r => (units c ++ r.1, r.2) := by
  rw [escapeChar]
  split
  · rename_i e he
    obtain ⟨hu, hcode, hunits⟩ := shortEscapes_spec e (List.mem_of_find?_eq_some he)
    obtain rfl : e.1 = c := by simpa using List.find?_some he
    change scanString ('\\' :: e.2 :: cs) = _
    rw [scanString_short hu, hcode, hunits]
    rfl
  · rename_i hnone
    have hne : ∀ e ∈ shortEscapes, e.1 ≠ c := by simpa using hnone
    split
    · rename_i hprint
      have hquote : c ≠ '"' := fun h => hne ('"', '"') (by decide) h.symm
      have hslash : c ≠ '\\' := fun h => hne ('\\', '\\') (by decide) h.symm
      rw [List.singleton_append, scanString_plain hquote hslash hprint.1, units,
        if_pos (by omega)]
      rfl
    · have hvalid : c.toNat < 0x110000 := by
        have h : c.toNat.isValidChar := c.valid
        rcases h with h | h <;> omega
      rw [units]
      split
      · rename_i hlt
        simp only [List.flatMap_cons, List.flatMap_nil, List.append_nil,
          scanString_unicodeEscape hlt, List.singleton_append]
      · simp only [List.flatMap_cons, List.flatMap_nil, List.append_nil, List.append_assoc]
        rw [scanString_unicodeEscape (by omega), scanString_unicodeEscape (by omega),
          Option.map_map]
        rfl

/-- **An escaped string is read back**, up to its closing quote. -/
theorem scanString_escape (s : List Char) (cs : List Char) :
    scanString (s.flatMap escapeChar ++ '"' :: cs) = some (s.flatMap units, cs) := by
  induction s with
  | nil => exact scanString_quote cs
  | cons c s ih =>
      rw [List.flatMap_cons, List.append_assoc, scanString_escapeChar, ih, List.flatMap_cons]
      rfl

private theorem joinSurrogates_cons {n : ℕ} (h : n < 0xd800 ∨ 0xdbff < n) (codes : List ℕ) :
    joinSurrogates (n :: codes) = n :: joinSurrogates codes := by
  cases codes with
  | nil => simp [joinSurrogates]
  | cons m codes => rw [joinSurrogates, if_neg (by omega)]

private theorem joinSurrogates_pair {h l : ℕ} (hh : 0xd800 ≤ h ∧ h ≤ 0xdbff)
    (hl : 0xdc00 ≤ l ∧ l ≤ 0xdfff) (codes : List ℕ) :
    joinSurrogates (h :: l :: codes) =
      (0x10000 + (h - 0xd800) * 1024 + (l - 0xdc00)) :: joinSurrogates codes := by
  rw [joinSurrogates, if_pos ⟨hh, hl⟩]

/-- **Joining recovers the code points** of a text. -/
theorem joinSurrogates_units (s : List Char) :
    joinSurrogates (s.flatMap units) = s.map Char.toNat := by
  induction s with
  | nil => simp [joinSurrogates]
  | cons c s ih =>
      have hvalid : c.toNat < 0xd800 ∨ 0xdfff < c.toNat ∧ c.toNat < 0x110000 := c.valid
      rw [List.flatMap_cons, units, List.map_cons]
      split
      · rw [List.singleton_append, joinSurrogates_cons (by omega), ih]
      · obtain ⟨n, hn⟩ : ∃ n, n = c.toNat - 0x10000 := ⟨_, rfl⟩
        have hpair := joinSurrogates_pair (h := 0xd800 + n / 1024) (l := 0xdc00 + n % 1024)
          (by omega) (by omega) (s.flatMap units)
        have hcode : 0x10000 + (0xd800 + n / 1024 - 0xd800) * 1024 +
            (0xdc00 + n % 1024 - 0xdc00) = c.toNat := by omega
        rw [hcode, ih] at hpair
        rw [← hn]
        exact hpair

/-! ### Objects are read back -/

private theorem scanValue_encodeString (fuel : ℕ) (s : String) (cs : List Char) :
    scanValue (fuel + 1) ('"' :: (s.toList.flatMap escapeChar ++ '"' :: cs)) =
      some (ofText s, cs) := by
  rw [scanValue, if_pos rfl, scanString_escape, Option.map_some]
  simp only [joinSurrogates_units, ofText, codesOf]

/-- The members of an encoded object are read back, together with its closing brace. -/
private theorem scanMembers_encode (member : String × String) (rest : List (String × String))
    (cs : List Char) (fuel : ℕ) (hfuel : rest.length + 2 ≤ fuel) :
    scanMembers fuel (encodeMember member ++ encodeRest rest ++ cs) =
      some ((member :: rest).map fun m => (codesOf m.1, ofText m.2), cs) := by
  have hcolon : ∀ cs, skipSpace (':' :: cs) = ':' :: cs := fun _ => rfl
  have hcomma : ∀ cs, skipSpace (',' :: cs) = ',' :: cs := fun _ => rfl
  have hbrace : ∀ cs, skipSpace ('}' :: cs) = '}' :: cs := fun _ => rfl
  have hblank : ∀ cs, skipSpace (' ' :: '"' :: cs) = '"' :: cs := fun _ => rfl
  induction rest generalizing member fuel with
  | nil =>
      obtain ⟨n, rfl⟩ : ∃ n, fuel = n + 2 := ⟨fuel - 2, by simp at hfuel; omega⟩
      simp only [encodeMember, encodeString, encodeRest, List.append_assoc, List.cons_append,
        List.nil_append]
      rw [scanMembers, if_pos rfl, scanString_escape]
      simp only [Option.bind_eq_bind, Option.bind_some, hcolon, hblank, scanValue_encodeString,
        hbrace, joinSurrogates_units, Option.pure_def, List.map_cons, List.map_nil, codesOf]
  | cons next rest ih =>
      obtain ⟨n, rfl⟩ : ∃ n, fuel = n + 2 := ⟨fuel - 2, by simp at hfuel; omega⟩
      have hrest := ih next (n + 1) (by simp at hfuel; omega)
      rw [encodeRest]
      simp only [encodeMember, encodeString, List.append_assoc, List.cons_append,
        List.nil_append] at hrest ⊢
      rw [scanMembers, if_pos rfl, scanString_escape]
      simp only [Option.bind_eq_bind, Option.bind_some, hcolon, hblank, scanValue_encodeString,
        hcomma, hrest, joinSurrogates_units, Option.pure_def, List.map_cons, codesOf]

private theorem scanValue_object (fuel : ℕ) (cs : List Char) :
    scanValue (fuel + 1) ('{' :: '"' :: cs) =
      (scanMembers fuel ('"' :: cs)).map fun r => (object r.1, r.2) := by
  have hquote : skipSpace ('"' :: cs) = '"' :: cs := rfl
  rw [scanValue, if_neg (by decide), if_neg (by decide), if_pos rfl, hquote]
  split
  · rename_i heq
    injection heq with h _
    exact absurd h (by decide)
  · rfl

private theorem lt_length_encodeRest (rest : List (String × String)) :
    rest.length + 1 ≤ (encodeRest rest).length := by
  induction rest with
  | nil => simp [encodeRest]
  | cons member rest ih =>
      simp only [encodeRest, List.length_append, List.length_cons, List.length_nil]
      omega

/-- **An encoded object is decoded to its members.** -/
theorem decode_encodeObject (members : List (String × String)) :
    decode (encodeObject members) =
      some (object (members.map fun m => (codesOf m.1, ofText m.2))) := by
  cases members with
  | nil => rfl
  | cons member rest =>
      have hlen := lt_length_encodeRest rest
      have hmembers := scanMembers_encode member rest []
        (2 * ('{' :: (encodeMember member ++ encodeRest rest)).length + 1)
        (by simp only [List.length_cons, List.length_append]; omega)
      obtain ⟨cs, hcs⟩ : ∃ cs, encodeMember member ++ encodeRest rest = '"' :: cs := by
        simp only [encodeMember, encodeString, List.cons_append]
        exact ⟨_, rfl⟩
      have hbrace : skipSpace ('{' :: '"' :: cs) = '{' :: '"' :: cs := rfl
      rw [List.append_nil, hcs] at hmembers
      rw [decode, encodeObject, String.toList_ofList, hcs, hbrace, scanValue_object, hmembers]
      rfl

/-- An encoded object is one level deep. -/
theorem depth_encoded (members : List (String × String)) :
    (object (members.map fun m => (codesOf m.1, ofText m.2))).depth = 1 := by
  rw [depth, Nat.add_eq_right]
  induction members with
  | nil => rfl
  | cons member members ih =>
      have hflat : (ofText member.2).depth = 0 := by simp [ofText, depth]
      rw [List.map_cons, depthMembers, ih, hflat, Nat.max_self]

/-- Looking a key up in the members of an encoded object. -/
theorem lookup_encoded (members : List (String × String)) (key : String) :
    lookup (members.map fun m => (codesOf m.1, ofText m.2)) key =
      (members.reverse.find? fun m => decide (m.1 = key)).map fun m => ofText m.2 := by
  have hkey : (fun m : List ℕ × Json => decide (m.1 = codesOf key)) ∘
      (fun m : String × String => (codesOf m.1, ofText m.2)) = fun m => decide (m.1 = key) := by
    funext m
    simp only [Function.comp_apply, codesOf_injective.eq_iff]
  rw [lookup, ← List.map_reverse, List.find?_map, hkey, Option.map_map]
  rfl

end Json
