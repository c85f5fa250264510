import ShellAwait.Format.Value

/-! # TOML

Tables, dotted and quoted keys, strings on one line, booleans, arrays and inline tables. A document is a
sequence of headers and assignments; a table may be filled under several headers, but only once under its
own, and no key may be given twice.
-/

namespace ShellAwait.Format.Toml

/-! ## Tables -/

inductive Origin where
  /-- It stands around a table with a header. -/
  | implied
  | header
  | dotted
  | inline
deriving DecidableEq, Repr

inductive Node where
  | leaf (value : Value)
  | array (items : List Node)
  | table (origin : Origin) (entries : List (String × Node))

abbrev Entries := List (String × Node)

def find? (key : String) (entries : Entries) : Option Node :=
  (entries.find? (·.1 == key)).map Prod.snd

def put (key : String) (node : Node) : Entries → Entries
  | [] => [(key, node)]
  | (k, old) :: rest => if k == key then (k, node) :: rest else (k, old) :: put key node rest

def assign (entries : Entries) : List String → Node → Option Entries
  | [], _ => none
  | [key], node => if (find? key entries).isSome then none else some (put key node entries)
  | key :: path, node =>
      match find? key entries with
      | none => do return put key (.table .dotted (← assign [] path node)) entries
      | some (.table .dotted inner) => do
          return put key (.table .dotted (← assign inner path node)) entries
      | some (.table .implied inner) => do
          return put key (.table .implied (← assign inner path node)) entries
      | some _ => none

/-- Open the table of a header. A table stands where its own header stands, so one that was implied before
moves behind its neighbours. -/
def openTable (entries : Entries) : List String → Option Entries
  | [] => none
  | [key] =>
      match find? key entries with
      | none => some (put key (.table .header []) entries)
      | some (.table .implied inner) =>
          some (entries.filter (·.1 != key) ++ [(key, .table .header inner)])
      | some _ => none
  | key :: path =>
      match find? key entries with
      | none => do return put key (.table .implied (← openTable [] path)) entries
      | some (.table .inline _) => none
      | some (.table origin inner) => do return put key (.table origin (← openTable inner path)) entries
      | some _ => none

def inTable (entries : Entries) (change : Entries → Option Entries) : List String → Option Entries
  | [] => change entries
  | key :: path =>
      match find? key entries with
      | some (.table origin inner) => do
          return put key (.table origin (← inTable inner change path)) entries
      | _ => none

/-! ## Text -/

def isBlank (c : Char) : Bool := c = ' ' || c = '\t'

def skipBlanks (text : List Char) : List Char := text.dropWhile isBlank

def isControl (c : Char) : Bool := (c.toNat < 0x20 && c ≠ '\t') || c.toNat = 0x7F

/-- The rest of the text after a blank end of a line, with or without a comment. -/
def endOfLine (text : List Char) : Option (List Char) :=
  let afterComment := match skipBlanks text with
    | '#' :: rest => rest.dropWhile fun c => !isControl c
    | rest => rest
  match afterComment with
  | [] => some []
  | '\n' :: rest => some rest
  | '\r' :: '\n' :: rest => some rest
  | _ => none

def escape? : Char → Option Char
  | 'b' => some '\x08'
  | 't' => some '\t'
  | 'n' => some '\n'
  | 'f' => some '\x0c'
  | 'r' => some '\r'
  | '"' => some '"'
  | '\\' => some '\\'
  | _ => none

def basicBody : Reader (List Char)
  | [] => none
  | '"' :: rest => some ([], rest)
  | '\\' :: 'u' :: a :: b :: c :: d :: rest => do
      let char ← charOf? (← hexNumber? [a, b, c, d])
      let (text, after) ← basicBody rest
      return (char :: text, after)
  | '\\' :: 'U' :: a :: b :: c :: d :: e :: f :: g :: h :: rest => do
      let char ← charOf? (← hexNumber? [a, b, c, d, e, f, g, h])
      let (text, after) ← basicBody rest
      return (char :: text, after)
  | '\\' :: c :: rest => do
      let char ← escape? c
      let (text, after) ← basicBody rest
      return (char :: text, after)
  | c :: rest => do
      if c = '\\' || isControl c then none
      else
        let (text, after) ← basicBody rest
        return (c :: text, after)

def quotedText : Reader String
  | '"' :: rest => (basicBody rest).map fun (text, after) => (String.ofList text, after)
  | '\'' :: rest =>
      let text := rest.takeWhile fun c => c ≠ '\'' && !isControl c
      match rest.drop text.length with
      | '\'' :: after => some (String.ofList text, after)
      | _ => none
  | _ => none

def isBareKey (c : Char) : Bool := c.isAlphanum || c = '_' || c = '-'

def simpleKey (text : List Char) : Option (String × List Char) :=
  match quotedText text with
  | some result => some result
  | none =>
      let word := text.takeWhile isBareKey
      if word.isEmpty then none else some (String.ofList word, text.drop word.length)

def dottedKey : Nat → Reader (List String)
  | 0, _ => none
  | fuel + 1, text => do
      let (first, rest) ← simpleKey (skipBlanks text)
      match skipBlanks rest with
      | '.' :: rest =>
          let (path, after) ← dottedKey fuel rest
          return (first :: path, after)
      | after => return ([first], after)

/-! ## Values -/

def isScalar (c : Char) : Bool := c.isAlphanum || c = '_' || c = '+' || c = '-' || c = '.' || c = ':'

def scalar (text : List Char) : Option (Node × List Char) :=
  let word := text.takeWhile isScalar
  let rest := text.drop word.length
  match String.ofList word with
  | "true" => some (.leaf (.bool true), rest)
  | "false" => some (.leaf (.bool false), rest)
  | _ =>
      match word with
      | c :: _ => if c.isDigit || c = '+' || c = '-' then some (.leaf .number, rest) else none
      | [] => none

/-- Blanks, line ends and comments between the elements of an array, at most `fuel` lines of them. -/
def skipLines : Nat → List Char → List Char
  | 0, text => text
  | fuel + 1, text =>
      match skipBlanks text with
      | [] => []
      | c :: rest =>
          if c = '#' || c = '\n' || c = '\r' then
            match endOfLine (c :: rest) with
            | some after => skipLines fuel after
            | none => c :: rest
          else c :: rest

mutual

/-- A value, in texts with at most `fuel` values around and before one another. -/
def value : Nat → Reader Node
  | 0, _ => none
  | fuel + 1, text =>
      match skipBlanks text with
      | '[' :: rest =>
          match skipLines rest.length rest with
          | ']' :: after => some (.array [], after)
          | rest => (items fuel rest).map fun (nodes, after) => (.array nodes, after)
      | '{' :: rest =>
          match skipBlanks rest with
          | '}' :: after => some (.table .inline [], after)
          | rest => (fields fuel [] rest).map fun (entries, after) => (.table .inline entries, after)
      | rest =>
          match quotedText rest with
          | some (s, after) => some (.leaf (.string s), after)
          | none => scalar rest

def items : Nat → Reader (List Node)
  | 0, _ => none
  | fuel + 1, text => do
      let (first, rest) ← value fuel text
      match skipLines rest.length rest with
      | ']' :: after => return ([first], after)
      | ',' :: rest =>
          match skipLines rest.length rest with
          | ']' :: after => return ([first], after)
          | rest =>
              let (others, after) ← items fuel rest
              return (first :: others, after)
      | _ => none

/-- The rest of an inline table from a field on, after the entries so far. -/
def fields : Nat → Entries → Reader Entries
  | 0, _, _ => none
  | fuel + 1, entries, text => do
      let (path, rest) ← dottedKey (text.length + 1) text
      match rest with
      | '=' :: rest =>
          let (node, rest) ← value fuel rest
          let entries ← assign entries path node
          match skipBlanks rest with
          | '}' :: after => return (entries, after)
          | ',' :: rest => fields fuel entries rest
          | _ => none
      | _ => none

end

/-! ## Documents -/

/-- The lines of a document from a place on, under the header `path`, at most `fuel` of them. -/
def lines : Nat → List String → Entries → List Char → Option Entries
  | 0, _, _, _ => none
  | fuel + 1, path, entries, text =>
      match skipBlanks text with
      | [] => some entries
      | '[' :: rest => do
          let (header, rest) ← dottedKey (rest.length + 1) rest
          match rest with
          | ']' :: rest =>
              let entries ← openTable entries header
              lines fuel header entries (← endOfLine rest)
          | _ => none
      | c :: rest =>
          if c = '#' || c = '\n' || c = '\r' then do
            lines fuel path entries (← endOfLine (c :: rest))
          else do
            let (key, rest) ← dottedKey (rest.length + 2) (c :: rest)
            match rest with
            | '=' :: rest =>
                let (node, rest) ← value (2 * rest.length + 2) rest
                let entries ← inTable entries (fun table => assign table key node) path
                lines fuel path entries (← endOfLine rest)
            | _ => none

mutual

def Node.toValue : Node → Value
  | .leaf value => value
  | .array items => .list (Node.toValues items)
  | .table _ entries => .table (Node.toEntries entries)

def Node.toValues : List Node → List Value
  | [] => []
  | node :: rest => node.toValue :: Node.toValues rest

def Node.toEntries : List (String × Node) → List (String × Value)
  | [] => []
  | (key, node) :: rest => (key, node.toValue) :: Node.toEntries rest

end

def read (text : List Char) : Option Value := do
  let entries ← lines (text.length + 2) [] [] text
  return .table (Node.toEntries entries)

end ShellAwait.Format.Toml
