import ScriptBridge.Number.Numeral
import ScriptBridge.Toml.Value

/-!
# Reading TOML

Every reader takes the characters that are left and gives a result with the characters after it,
or nothing when the text is not TOML. `Toml.read?` reads a whole document.

Arrays and inline tables nest less than `depthLimit` deep, and a key has fewer names than that.
-/

namespace ScriptBridge.Toml

/-! ## Blanks, comments and line ends -/

def isSpace (c : Char) : Bool := c == ' ' || c == '\t'

def skipSpace (cs : List Char) : List Char := cs.dropWhile isSpace

/-- A character that may stand in a comment or a literal text. -/
def isPlain (c : Char) : Bool := c == '\t' || (0x20 ≤ c.toNat && c.toNat != 0x7F)

/-- Skips a comment if one starts here. -/
def skipComment : List Char → List Char
  | '#' :: rest => rest.dropWhile isPlain
  | cs => cs

/-- One line end. -/
def newline? : List Char → Option (List Char)
  | '\n' :: rest => some rest
  | '\r' :: '\n' :: rest => some rest
  | _ => none

/-- The rest of a line: blanks, a comment, and a line end or the end of the text. -/
def lineEnd? (cs : List Char) : Option (List Char) :=
  match skipComment (skipSpace cs) with
  | [] => some []
  | rest => newline? rest

theorem length_skipSpace_le (cs : List Char) : (skipSpace cs).length ≤ cs.length :=
  (List.dropWhile_sublist isSpace).length_le

theorem length_skipComment_le (cs : List Char) : (skipComment cs).length ≤ cs.length := by
  unfold skipComment
  split
  · exact Nat.le_succ_of_le (List.dropWhile_sublist isPlain).length_le
  · exact Nat.le_refl _

theorem length_lt_of_newline? {cs rest : List Char} (h : newline? cs = some rest) :
    rest.length < cs.length := by
  unfold newline? at h
  split at h
  · cases h
    exact Nat.lt_succ_self _
  · cases h
    exact Nat.lt_succ_of_lt (Nat.lt_succ_self _)
  · cases h

/-- Blanks, comments and line ends between lines and between the elements of an array. -/
def skipLines (cs : List Char) : List Char :=
  match h : newline? (skipComment (skipSpace cs)) with
  | some rest => skipLines rest
  | none => skipComment (skipSpace cs)
termination_by cs.length
decreasing_by
  exact Nat.lt_of_lt_of_le (length_lt_of_newline? h)
    (Nat.le_trans (length_skipComment_le _) (length_skipSpace_le _))

/-! ## Texts -/

def hexValue? (c : Char) : Option Nat :=
  let n := c.toNat
  if 0x30 ≤ n && n ≤ 0x39 then some (n - 0x30)
  else if 0x61 ≤ n && n ≤ 0x66 then some (n - 0x57)
  else if 0x41 ≤ n && n ≤ 0x46 then some (n - 0x37)
  else none

/-- The character of a code point written in `count` hexadecimal digits. -/
def codePoint? (count : Nat) (cs : List Char) : Option (Char × List Char) := do
  let digits := cs.take count
  if digits.length != count then none
  let n ← digits.foldlM (fun n c => (hexValue? c).map (16 * n + ·)) 0
  if n.isValidChar then some (Char.ofNat n, cs.drop count) else none

/-- What stands after a backslash. -/
def escape? : List Char → Option (Char × List Char)
  | 'b' :: rest => some (Char.ofNat 8, rest)
  | 't' :: rest => some ('\t', rest)
  | 'n' :: rest => some ('\n', rest)
  | 'f' :: rest => some (Char.ofNat 12, rest)
  | 'r' :: rest => some ('\r', rest)
  | '"' :: rest => some ('"', rest)
  | '\\' :: rest => some ('\\', rest)
  | 'u' :: rest => codePoint? 4 rest
  | 'U' :: rest => codePoint? 8 rest
  | _ => none

/-- A basic text behind its opening quote; `seen` holds the characters so far, last first. -/
def basicText? (seen : List Char) : Nat → List Char → Option (String × List Char)
  | 0, _ => none
  | fuel + 1, cs =>
    match cs with
    | '"' :: rest => some (String.ofList seen.reverse, rest)
    | '\\' :: rest => do
      let (c, rest) ← escape? rest
      basicText? (c :: seen) fuel rest
    | c :: rest => if isPlain c then basicText? (c :: seen) fuel rest else none
    | [] => none

/-- A literal text behind its opening quote. -/
def literalText? (cs : List Char) : Option (String × List Char) :=
  let body := cs.takeWhile fun c => c != '\'' && isPlain c
  match cs.drop body.length with
  | '\'' :: rest => some (String.ofList body, rest)
  | _ => none

/-- After a backslash at the end of a line, blanks and line ends up to the next character. -/
def skipFolded : List Char → List Char
  | '\r' :: '\n' :: rest => skipFolded rest
  | c :: rest => if isSpace c || c == '\n' then skipFolded rest else c :: rest
  | [] => []

/-- A text of several lines behind its opening quotes. Up to two quotes may stand before the
closing three. -/
def longText? (quote : Char) (seen : List Char) : Nat → List Char → Option (String × List Char)
  | 0, _ => none
  | fuel + 1, cs =>
    match cs with
    | [] => none
    | c :: rest =>
      if c == quote then
        let run := cs.takeWhile (· == quote)
        if run.length < 3 then longText? quote (c :: seen) fuel rest
        else if 5 < run.length then none
        else
          some (String.ofList (run.drop 3 ++ seen).reverse, cs.drop run.length)
      else if c == '\\' && quote == '"' then
        match newline? (skipSpace rest) with
        | some rest => longText? quote seen fuel (skipFolded rest)
        | none => do
          let (c, rest) ← escape? rest
          longText? quote (c :: seen) fuel rest
      else
        match newline? cs with
        | some rest => longText? quote ('\n' :: seen) fuel rest
        | none => if isPlain c then longText? quote (c :: seen) fuel rest else none

/-- A line end right behind opening quotes does not count. -/
def afterOpening (cs : List Char) : List Char := (newline? cs).getD cs

/-- A text in any of the four notations. -/
def text? (cs : List Char) : Option (String × List Char) :=
  match cs with
  | '"' :: '"' :: '"' :: rest => longText? '"' [] (rest.length + 1) (afterOpening rest)
  | '\'' :: '\'' :: '\'' :: rest => longText? '\'' [] (rest.length + 1) (afterOpening rest)
  | '"' :: rest => basicText? [] (rest.length + 1) rest
  | '\'' :: rest => literalText? rest
  | _ => none

/-! ## Keys -/

def isBare (c : Char) : Bool := c.isAlphanum || c == '_' || c == '-'

/-- One name of a key. -/
def name? (cs : List Char) : Option (String × List Char) :=
  match cs with
  | '"' :: rest => basicText? [] (rest.length + 1) rest
  | '\'' :: rest => literalText? rest
  | _ =>
    let bare := cs.takeWhile isBare
    if bare.isEmpty then none else some (String.ofList bare, cs.drop bare.length)

/-- The bound on the depth of values and on the names of a key. -/
def depthLimit : Nat := 80

/-- At most so many names with dots between them. Blanks around the names do not count. -/
def names? : Nat → List Char → Option (List String × List Char)
  | 0, _ => none
  | count + 1, cs => do
    let (name, rest) ← name? (skipSpace cs)
    match skipSpace rest with
    | '.' :: rest => do
      let (names, rest) ← names? count rest
      return (name :: names, rest)
    | rest => return ([name], rest)

/-- A key: fewer names than the limit. -/
def key? (cs : List Char) : Option (List String × List Char) := names? (depthLimit - 1) cs

/-! ## Numbers, truth values and dates -/

/-- Digits with single underscores between them; gives the digits alone. -/
def digits? (isDigit : Char → Bool) (cs : List Char) : Option (List Char) :=
  let rec go (afterDigit : Bool) : List Char → Option (List Char)
    | [] => if afterDigit then some [] else none
    | '_' :: rest => if afterDigit then go false rest else none
    | c :: rest => if isDigit c then (go true rest).map (c :: ·) else none
  go false cs

def valueOf (radix : Nat) (digits : List Char) : Nat :=
  digits.foldl (fun n c => radix * n + (hexValue? c).getD 0) 0

/-- Digits without a leading zero, the number zero apart. -/
def decimalDigits? (cs : List Char) : Option (List Char) := do
  let ds ← digits? Char.isDigit cs
  match ds with
  | '0' :: _ :: _ => none
  | _ => some ds

/-- An integer that sixty-four signed bits hold. -/
def inRange (n : Int) : Option Value :=
  if -0x8000000000000000 ≤ n && n < 0x8000000000000000 then some (.integer n) else none

def splitSign : List Char → Bool × List Char
  | '-' :: rest => (true, rest)
  | '+' :: rest => (false, rest)
  | cs => (false, cs)

def integer? (token : List Char) : Option Value :=
  match token with
  | '0' :: 'x' :: rest =>
    (digits? (fun c => (hexValue? c).isSome) rest).bind fun ds => inRange (valueOf 16 ds)
  | '0' :: 'o' :: rest =>
    (digits? (fun c => c.isDigit && c < '8') rest).bind fun ds => inRange (valueOf 8 ds)
  | '0' :: 'b' :: rest =>
    (digits? (fun c => c == '0' || c == '1') rest).bind fun ds => inRange (valueOf 2 ds)
  | _ =>
    let (negative, rest) := splitSign token
    (decimalDigits? rest).bind fun ds =>
      inRange (if negative then -(valueOf 10 ds : Int) else valueOf 10 ds)

/-- Whether this is an integer part with a fraction, an exponent, or both. -/
def isFraction (token : List Char) : Bool := Option.isSome do
  let (_, body) := splitSign token
  let whole := body.takeWhile fun c => c.isDigit || c == '_'
  let rest := body.drop whole.length
  let _ ← decimalDigits? whole
  let rest ←
    match rest with
    | '.' :: rest =>
      let places := rest.takeWhile fun c => c.isDigit || c == '_'
      (digits? Char.isDigit places).map fun _ => rest.drop places.length
    | 'e' :: _ | 'E' :: _ => some rest
    | _ => none
  match rest with
  | [] => return []
  | c :: rest =>
    if c == 'e' || c == 'E' then digits? Char.isDigit (splitSign rest).2 else none

/-- A number with a fraction or an exponent, or a word for infinity or NaN. Digits beyond the
largest finite number are refused; those below the smallest one stand for infinity. -/
def float? (token : List Char) : Option Value := do
  let (_, body) := splitSign token
  if body == "inf".toList || body == "nan".toList then return .float
  if !isFraction token then none
  let n ← Numeral.literal? (token.filter (· != '_'))
  if n == Number.infinity false then none else return .float

/-- A number of exactly `count` digits within bounds, and the rest. -/
def field? (count lo hi : Nat) (cs : List Char) : Option (Nat × List Char) :=
  let digits := cs.take count
  if digits.length == count && digits.all Char.isDigit then
    let n := valueOf 10 digits
    if lo ≤ n && n ≤ hi then some (n, cs.drop count) else none
  else none

def expect? (c : Char) : List Char → Option (List Char)
  | d :: rest => if d == c then some rest else none
  | [] => none

/-- The days of a month. -/
def daysIn (year month : Nat) : Nat :=
  if month == 2 then
    if year % 4 == 0 && (year % 100 != 0 || year % 400 == 0) then 29 else 28
  else if month == 4 || month == 6 || month == 9 || month == 11 then 30
  else 31

def calendarDate? (cs : List Char) : Option (List Char) := do
  let (year, rest) ← field? 4 0 9999 cs
  let rest ← expect? '-' rest
  let (month, rest) ← field? 2 1 12 rest
  let rest ← expect? '-' rest
  let (_, rest) ← field? 2 1 (daysIn year month) rest
  return rest

def clockTime? (cs : List Char) : Option (List Char) := do
  let (_, rest) ← field? 2 0 23 cs
  let rest ← expect? ':' rest
  let (_, rest) ← field? 2 0 59 rest
  let rest ← expect? ':' rest
  let (_, rest) ← field? 2 0 60 rest
  match rest with
  | '.' :: places =>
    let digits := places.takeWhile Char.isDigit
    if digits.isEmpty then none else return places.drop digits.length
  | rest => return rest

def offset? (cs : List Char) : Option (List Char) :=
  match cs with
  | [] => some []
  | c :: rest =>
    if c == 'Z' || c == 'z' then some rest
    else if c == '+' || c == '-' then do
      let (_, rest) ← field? 2 0 23 rest
      let rest ← expect? ':' rest
      let (_, rest) ← field? 2 0 59 rest
      return rest
    else none

/-- A date, a time, or a date with a time and perhaps an offset. -/
def date? (token : List Char) : Option Value := do
  match calendarDate? token with
  | some [] => return .date
  | some (c :: rest) =>
    if c == 'T' || c == 't' || c == ' ' then
      let rest ← clockTime? rest
      let rest ← offset? rest
      if rest.isEmpty then return .date else none
    else none
  | none =>
    let rest ← clockTime? token
    if rest.isEmpty then return .date else none

def isTokenChar (c : Char) : Bool :=
  c.isAlphanum || c == '_' || c == '-' || c == '+' || c == '.' || c == ':'

/-- The characters of a number, word or date. A blank belongs to it between a date and a time. -/
def token (cs : List Char) : List Char × List Char :=
  let first := cs.takeWhile isTokenChar
  let rest := cs.drop first.length
  match calendarDate? first, rest with
  | some [], ' ' :: c :: _ =>
    if c.isDigit then
      let second := (rest.drop 1).takeWhile isTokenChar
      (first ++ ' ' :: second, (rest.drop 1).drop second.length)
    else (first, rest)
  | _, _ => (first, rest)

def scalar? (cs : List Char) : Option (Value × List Char) :=
  let (word, rest) := token cs
  let value :=
    if word == "true".toList then some (.boolean true)
    else if word == "false".toList then some (.boolean false)
    else (integer? word).orElse fun _ => (float? word).orElse fun _ => date? word
  value.map (·, rest)

/-! ## Values -/

mutual

/-- Any value, inside `depth` arrays and inline tables. -/
def value? (depth : Nat) : Nat → List Char → Option (Value × List Char)
  | 0, _ => none
  | fuel + 1, cs =>
    match cs with
    | '"' :: _ | '\'' :: _ => (text? cs).map fun (s, rest) => (.text s, rest)
    | '[' :: rest => do
      if depthLimit ≤ depth + 1 then none
      let (items, rest) ← items? (depth + 1) fuel (skipLines rest)
      return (.array items, rest)
    | '{' :: rest => do
      if depthLimit ≤ depth + 1 then none
      match skipSpace rest with
      | '}' :: rest => some (.inlineTable false [], rest)
      | rest => do
        let (entries, rest) ← pairs? (depth + 1) fuel [] rest
        return (.inlineTable false entries, rest)
    | _ => scalar? cs

/-- The elements of an array up to its closing bracket; a comma may stand before that. -/
def items? (depth : Nat) : Nat → List Char → Option (List Value × List Char)
  | 0, _ => none
  | fuel + 1, cs =>
    match cs with
    | ']' :: rest => some ([], rest)
    | _ => do
      let (v, rest) ← value? depth fuel cs
      match skipLines rest with
      | ',' :: rest => do
        let (vs, rest) ← items? depth fuel (skipLines rest)
        return (v :: vs, rest)
      | ']' :: rest => return ([v], rest)
      | _ => none

/-- The entries of an inline table up to its closing brace. -/
def pairs? (depth : Nat) :
    Nat → List (String × Value) → List Char → Option (List (String × Value) × List Char)
  | 0, _, _ => none
  | fuel + 1, entries, cs => do
    let (key, rest) ← key? cs
    let rest ← expect? '=' rest
    let (v, rest) ← value? depth fuel (skipSpace rest)
    let entries ← addInline v key entries
    match skipSpace rest with
    | ',' :: rest => pairs? depth fuel entries rest
    | '}' :: rest => return (entries, rest)
    | _ => none

end

/-! ## Documents -/

/-- A document so far: its entries and the header that is open. -/
structure Draft where
  entries : Entries := []
  header : List String := []

/-- Opens the table of a header, or the next table of its array. -/
def Draft.open? (d : Draft) (isArray : Bool) (path : List String) : Option Draft := do
  let name ← path.getLast?
  let change := if isArray then openElement name else openTable name
  let entries ← underHeader change path.dropLast d.entries
  return { entries, header := path }

/-- One line that is not blank: a header, or a key with its value. -/
def line? (d : Draft) (cs : List Char) : Option (Draft × List Char) :=
  match cs with
  | '[' :: '[' :: rest => do
    let (path, rest) ← key? rest
    let rest ← expect? ']' rest
    let rest ← expect? ']' rest
    let d ← d.open? true path
    return (d, rest)
  | '[' :: rest => do
    let (path, rest) ← key? rest
    let rest ← expect? ']' rest
    let d ← d.open? false path
    return (d, rest)
  | _ => do
    let (key, rest) ← key? cs
    let rest ← expect? '=' rest
    let (v, rest) ← value? 0 (rest.length + 1) (skipSpace rest)
    let entries ← underHeader (addValue v key) d.header d.entries
    return ({ d with entries }, rest)

def lines? : Nat → Draft → List Char → Option Draft
  | 0, _, _ => none
  | fuel + 1, d, cs =>
    match skipLines cs with
    | [] => some d
    | rest => do
      let (d, rest) ← line? d rest
      let rest ← lineEnd? rest
      lines? fuel d rest

/-- The entries of a document; a byte order mark before it does not count. -/
def read? (s : String) : Option Entries :=
  let cs := s.toList
  let cs := if cs.head?.map Char.toNat == some 0xFEFF then cs.tail else cs
  (lines? (cs.length + 2) {} cs).map (·.entries)

end ScriptBridge.Toml
